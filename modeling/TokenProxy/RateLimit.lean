/-
  TokenProxy/RateLimit.lean
  =========================
  **The two token buckets of a rate limit** (`_BUCKET_LUA`, `_check_token_bucket`
  and `_consume` in `middleware/g00_rate_limit.py`).

  Workers send requests with their own clocks' `now`; Redis expires a bucket by
  its own.  A request is one script, or, where Redis refuses EVAL, a read and a
  write of each bucket with other requests in between.  Numbers are doubles, and
  the script stores the text that `tostring` makes of them, of fourteen digits.

  The script takes an elapsed time below zero for zero and still stores its
  `now`, so a clock that is behind makes the next one count the same seconds
  again.  `bounded_of_settled` says when the buckets keep their bound and a
  refused request takes nothing: when no step does that or gains by rounding, no
  bucket expires that is not full again, and no fallback writes over another
  request's write or finds the hour window exhausted behind the minute window.
-/
import TokenProxy.Execution
import TokenProxy.SignificantDigits
import TokenProxy.TokenBucket
import Mathlib.Data.Rat.Defs
import Mathlib.Algebra.Order.Field.Rat
import Mathlib.Tactic.NormNum

namespace TokenProxy.RateLimit

open Execution TokenBucket
open SignificantDigits (nearest nearestDouble nearestDouble_nonneg)

/-! ## 1. Buckets and their refill -/

inductive Window where
  | minute
  | hour
deriving DecidableEq, Repr

/-- What the caller of the script passes for each window. -/
structure Limits where
  cap : Window → ℚ
  rate : Window → ℚ
  cap_nonneg : ∀ w, 0 ≤ cap w
  rate_nonneg : ∀ w, 0 ≤ rate w

/-- The arguments `_consume` makes of `requests_per_minute` and `requests_per_hour`. -/
def Limits.perWindow (perMinute perHour : ℚ) (hminute : 0 ≤ perMinute) (hhour : 0 ≤ perHour) :
    Limits where
  cap
    | .minute => perMinute
    | .hour => perHour
  rate
    | .minute => nearestDouble (perMinute / 60)
    | .hour => nearestDouble (perHour / 3600)
  cap_nonneg
    | .minute => hminute
    | .hour => hhour
  rate_nonneg
    | .minute => nearestDouble_nonneg (div_nonneg hminute (by norm_num))
    | .hour => nearestDouble_nonneg (div_nonneg hhour (by norm_num))

/-- `_BUCKET_TTL_SECONDS`. -/
def bucketTtlSeconds : ℚ := 3600

/-- A bucket's hash, and the time of Redis's own clock at which it is gone. -/
structure Entry where
  bucket : Bucket ℚ
  expires : ℚ
deriving DecidableEq, Repr

abbrev Store := Window → Option Entry

/-- What a command that Redis runs at `clock` finds under the key. -/
def Store.read (store : Store) (clock : ℚ) (w : Window) : Option (Bucket ℚ) :=
  match store w with
  | some e => if clock < e.expires then some e.bucket else none
  | none => none

def Store.write (store : Store) (clock : ℚ) (w : Window) (b : Bucket ℚ) : Store :=
  Function.update store w (some ⟨b, clock + bucketTtlSeconds⟩)

/-- `EXPIRE` alone: it does nothing to a key that is gone. -/
def Store.expire (store : Store) (clock : ℚ) (w : Window) : Store :=
  match store w with
  | some e =>
    if clock < e.expires then
      Function.update store w (some ⟨e.bucket, clock + bucketTtlSeconds⟩)
    else store
  | none => store

/-! ## 2. The script, and the fallback -/

/-- `tonumber(tostring(x))`: `tostring` writes `%.14g`. -/
def printed (x : ℚ) : ℚ := nearestDouble (nearest 10 14 x)

/-- A bucket as the script stores it. -/
def printedBucket (b : Bucket ℚ) : Bucket ℚ := ⟨printed b.tokens, printed b.lastRefill⟩

/-- `level` of the script. -/
def level (cap rate now : ℚ) : Option (Bucket ℚ) → ℚ
  | none => cap
  | some b =>
    let elapsed := nearestDouble (now - b.lastRefill)
    let elapsed := if elapsed < 0 then 0 else elapsed
    min cap (nearestDouble (b.tokens + nearestDouble (elapsed * rate)))

/-- `tokens - 1`. -/
def lessOne (tokens : ℚ) : ℚ := nearestDouble (tokens - 1)

/-- `_BUCKET_LUA`: the verdict (0, 1 or 2), and the two buckets that it puts in text. -/
def bucketLua (l : Limits) (now : ℚ) (minute hour : Option (Bucket ℚ)) :
    Nat × Bucket ℚ × Bucket ℚ :=
  let tm := level (l.cap .minute) (l.rate .minute) now minute
  let th := level (l.cap .hour) (l.rate .hour) now hour
  if tm < 1 then (1, ⟨tm, now⟩, ⟨th, now⟩)
  else if th < 1 then (2, ⟨tm, now⟩, ⟨th, now⟩)
  else (0, ⟨lessOne tm, now⟩, ⟨lessOne th, now⟩)

def bucketOf (out : Nat × Bucket ℚ × Bucket ℚ) : Window → Bucket ℚ
  | .minute => out.2.1
  | .hour => out.2.2

/-- `{1: "minute", 2: "hour"}.get(int(verdict))`. -/
def exhausted : Nat → Option Window
  | 1 => some .minute
  | 2 => some .hour
  | _ => none

/-- The count `_check_token_bucket` finds: here the elapsed time may be below zero. -/
def refilled (cap rate now : ℚ) : Option (Bucket ℚ) → ℚ
  | none => cap
  | some b =>
    min cap (nearestDouble (b.tokens + nearestDouble (nearestDouble (now - b.lastRefill) * rate)))

/-- `_check_token_bucket`, from what it read to what it answers and writes. -/
def checkTokenBucket (cap rate now : ℚ) (read : Option (Bucket ℚ)) : Bool × Bucket ℚ :=
  let tokens := refilled cap rate now read
  if 1 ≤ tokens then (true, ⟨lessOne tokens, now⟩) else (false, ⟨tokens, now⟩)

/-! ## 3. Requests in flight -/

inductive Phase where
  /-- on the fallback, before the `hgetall` of this window's bucket -/
  | reading (w : Window)
  /-- on the fallback, before the `hset` -/
  | writing (w : Window) (read : Option (Bucket ℚ))
  | answered (exhausted : Option Window)
  /-- an error of Redis other than its refusal of EVAL: the request is let through -/
  | failed
deriving DecidableEq, Repr

/-- A request, with the windows whose count it has lowered. -/
structure Request where
  now : ℚ
  phase : Phase
  taken : List Window
deriving DecidableEq, Repr

structure State where
  store : Store
  requests : List Request

/-- No bucket, no request. -/
def State.start : State := ⟨fun _ => none, []⟩

inductive Label where
  /-- a request whose EVAL Redis runs at its time `clock` -/
  | eval (now clock : ℚ)
  /-- a request whose EVAL Redis refuses -/
  | evalRefused (now : ℚ)
  /-- a request whose EVAL ends in another error, and the script has not run -/
  | evalFailed (now : ℚ)
  /-- request `i` on the fallback: `hgetall` and the `expire` behind it -/
  | read (i : Nat) (clock : ℚ)
  /-- request `i` on the fallback: `hset` and the `expire` behind it -/
  | write (i : Nat) (clock : ℚ)
  | fail (i : Nat)
deriving DecidableEq, Repr

/-- The windows whose count is left below the level found. -/
def lowered (found stored : Window → ℚ) : List Window :=
  [Window.minute, Window.hour].filter fun w => decide (stored w < found w)

/-- The script runs: it stores what it has put in text. -/
def evalStep (l : Limits) (s : State) (now clock : ℚ) : State :=
  let out := bucketLua l now (s.store.read clock .minute) (s.store.read clock .hour)
  let found := fun w => level (l.cap w) (l.rate w) now (s.store.read clock w)
  let stored := fun w => (bucketOf out w).tokens
  { store := (s.store.write clock .minute (printedBucket (bucketOf out .minute))).write clock .hour
      (printedBucket (bucketOf out .hour))
    requests := s.requests ++ [⟨now, .answered (exhausted out.1), lowered found stored⟩] }

/-- Where a request goes from its answer for one window. -/
def nextPhase : Window → Bool → Phase
  | w, false => .answered (some w)
  | .minute, true => .reading .hour
  | .hour, true => .answered none

def writeStep (l : Limits) (s : State) (i : Nat) (r : Request) (w : Window)
    (read : Option (Bucket ℚ)) (clock : ℚ) : State :=
  let out := checkTokenBucket (l.cap w) (l.rate w) r.now read
  let taken := if out.2.tokens < refilled (l.cap w) (l.rate w) r.now read then w :: r.taken
    else r.taken
  { store := s.store.write clock w out.2
    requests := s.requests.set i { r with phase := nextPhase w out.1, taken := taken } }

def step (l : Limits) (s : State) : Label → Option State
  | .eval now clock => some (evalStep l s now clock)
  | .evalRefused now => some { s with requests := s.requests ++ [⟨now, .reading .minute, []⟩] }
  | .evalFailed now => some { s with requests := s.requests ++ [⟨now, .failed, []⟩] }
  | .read i clock => do
    let r ← s.requests[i]?
    match r.phase with
    | .reading w =>
      let r' := { r with phase := .writing w (s.store.read clock w) }
      some { store := s.store.expire clock w, requests := s.requests.set i r' }
    | _ => none
  | .write i clock => do
    let r ← s.requests[i]?
    match r.phase with
    | .writing w read => some (writeStep l s i r w read clock)
    | _ => none
  | .fail i => do
    let r ← s.requests[i]?
    match r.phase with
    | .reading _ => some { s with requests := s.requests.set i { r with phase := .failed } }
    | .writing _ _ => some { s with requests := s.requests.set i { r with phase := .failed } }
    | _ => none

/-! ## 4. The bound, and the condition on the steps -/

def Request.admitted (r : Request) : Bool := decide (r.phase = .answered none)

def Request.within (t₀ t₁ : ℚ) (r : Request) : Bool := decide (t₀ ≤ r.now ∧ r.now ≤ t₁)

/-- The admitted requests whose own `now` lies in the interval: each took one token. -/
def State.admitted (s : State) (t₀ t₁ : ℚ) : ℕ :=
  s.requests.countP fun r => r.admitted && r.within t₀ t₁

def Bounded (l : Limits) (s : State) : Prop :=
  ∀ w t₀ t₁, t₀ ≤ t₁ → (s.admitted t₀ t₁ : ℚ) ≤ l.cap w + l.rate w * (t₁ - t₀)

def RefusedTakeNothing (s : State) : Prop :=
  ∀ r ∈ s.requests, ∀ w, r.phase = .answered (some w) → r.taken = []

/-- `level` in exact numbers. -/
def exactLevel (cap rate now : ℚ) : Option (Bucket ℚ) → ℚ
  | none => cap
  | some b => min cap (b.tokens + max 0 (now - b.lastRefill) * rate)

/-- `refilled` in exact numbers. -/
def earned (cap rate now : ℚ) : Option (Bucket ℚ) → ℚ
  | none => cap
  | some b => min cap (b.tokens + (now - b.lastRefill) * rate)

/-- Rounding gives nothing away in a window of the script: with the texts that it stores the
bucket is worth no more than with exact numbers, and a count that is rounded up to a whole token
is not drawn on. -/
structure RoundsDown (l : Limits) (now : ℚ) (read : Window → Option (Bucket ℚ)) (w : Window) :
    Prop where
  whole : (∀ w', 1 ≤ level (l.cap w') (l.rate w') now (read w')) →
    1 ≤ exactLevel (l.cap w) (l.rate w) now (read w) ∧
      lessOne (level (l.cap w) (l.rate w) now (read w)) < level (l.cap w) (l.rate w) now (read w)
  admitted : (∀ w', 1 ≤ level (l.cap w') (l.rate w') now (read w')) →
    (printedBucket ⟨lessOne (level (l.cap w) (l.rate w) now (read w)), now⟩).balance (l.rate w) ≤
      exactLevel (l.cap w) (l.rate w) now (read w) - 1 - now * l.rate w
  refused : ¬ (∀ w', 1 ≤ level (l.cap w') (l.rate w') now (read w')) →
    (printedBucket ⟨level (l.cap w) (l.rate w) now (read w), now⟩).balance (l.rate w) ≤
      exactLevel (l.cap w) (l.rate w) now (read w) - now * l.rate w

/-- Rounding gives nothing away on the fallback. -/
structure FallbackRoundsDown (cap rate now : ℚ) (read : Option (Bucket ℚ)) : Prop where
  admitted : 1 ≤ refilled cap rate now read → 1 ≤ earned cap rate now read ∧
    lessOne (refilled cap rate now read) < refilled cap rate now read ∧
      lessOne (refilled cap rate now read) ≤ earned cap rate now read - 1
  refused : refilled cap rate now read < 1 →
    refilled cap rate now read ≤ earned cap rate now read

/-- The step counts no seconds twice and gains nothing by rounding, and ends no request behind a
token it took. -/
def Settled (l : Limits) (s : State) : Label → Prop
  | .eval now clock => (∀ w e, s.store w = some e →
      if clock < e.expires then e.bucket.lastRefill ≤ now
      else e.bucket.Full (l.cap w) (l.rate w) now) ∧
      ∀ w, RoundsDown l now (s.store.read clock) w
  | .write i _ => ∀ r w read, s.requests[i]? = some r → r.phase = .writing w read →
      (∀ b, read = some b → (s.store w).map Entry.bucket = some b) ∧
      (read = none → ∀ e, s.store w = some e → e.bucket.Full (l.cap w) (l.rate w) r.now) ∧
      (w = .hour → 1 ≤ refilled (l.cap w) (l.rate w) r.now read) ∧
      FallbackRoundsDown (l.cap w) (l.rate w) r.now read
  | _ => True

/-! ## 5. What the two updates do -/

section Updates

variable {cap rate now : ℚ} {read : Option (Bucket ℚ)}

/-- Without a step back in time the two ways to refill agree, in exact numbers. -/
theorem exactLevel_eq_earned (h : ∀ b, read = some b → b.lastRefill ≤ now) :
    exactLevel cap rate now read = earned cap rate now read := by
  rcases read with _ | b
  · rfl
  · have hle := h b rfl
    simp [exactLevel, earned, max_eq_right (sub_nonneg.mpr hle)]

theorem draws_earned {tokens spent : ℚ} (h : tokens + spent = earned cap rate now read) :
    Draws cap rate now spent read ⟨tokens, now⟩ := by
  refine ⟨rfl, ?_, ?_⟩
  · rcases read with _ | b
    · exact le_of_eq h
    · exact le_trans (le_of_eq h) (min_le_left _ _)
  · rintro b rfl
    exact le_trans (le_of_eq h) (min_le_right _ _)

theorem checkTokenBucket_cases (cap rate now : ℚ) (read : Option (Bucket ℚ)) :
    (1 ≤ refilled cap rate now read ∧
      checkTokenBucket cap rate now read = (true, ⟨lessOne (refilled cap rate now read), now⟩)) ∨
    (refilled cap rate now read < 1 ∧
      checkTokenBucket cap rate now read = (false, ⟨refilled cap rate now read, now⟩)) := by
  rcases le_or_gt 1 (refilled cap rate now read) with h | h
  · exact Or.inl ⟨h, by simp [checkTokenBucket, h]⟩
  · exact Or.inr ⟨h, by simp [checkTokenBucket, not_le.mpr h]⟩

end Updates

/-- The script takes one token from both windows, or nothing from either. -/
theorem bucketLua_cases (l : Limits) (now : ℚ) (read : Window → Option (Bucket ℚ)) :
    (exhausted (bucketLua l now (read .minute) (read .hour)).1 = none ∧
      (∀ w, 1 ≤ level (l.cap w) (l.rate w) now (read w)) ∧
        ∀ w, bucketOf (bucketLua l now (read .minute) (read .hour)) w =
          ⟨lessOne (level (l.cap w) (l.rate w) now (read w)), now⟩) ∨
    ((∃ w, exhausted (bucketLua l now (read .minute) (read .hour)).1 = some w) ∧
      ¬ (∀ w, 1 ≤ level (l.cap w) (l.rate w) now (read w)) ∧
        ∀ w, bucketOf (bucketLua l now (read .minute) (read .hour)) w =
          ⟨level (l.cap w) (l.rate w) now (read w), now⟩) := by
  rcases lt_or_ge (level (l.cap .minute) (l.rate .minute) now (read .minute)) 1 with hm | hm
  · refine Or.inr ⟨⟨.minute, by simp [bucketLua, hm, exhausted]⟩, ?_, ?_⟩
    · intro hall
      exact absurd (hall .minute) (not_le.mpr hm)
    · rintro (_ | _) <;> simp [bucketLua, bucketOf, hm]
  · rcases lt_or_ge (level (l.cap .hour) (l.rate .hour) now (read .hour)) 1 with hh | hh
    · refine Or.inr ⟨⟨.hour, by simp [bucketLua, not_lt.mpr hm, hh, exhausted]⟩, ?_, ?_⟩
      · intro hall
        exact absurd (hall .hour) (not_le.mpr hh)
      · rintro (_ | _) <;> simp [bucketLua, bucketOf, not_lt.mpr hm, hh]
    · refine Or.inl ⟨by simp [bucketLua, not_lt.mpr hm, not_lt.mpr hh, exhausted], ?_, ?_⟩
      · rintro (_ | _)
        · exact hm
        · exact hh
      · rintro (_ | _) <;> simp [bucketLua, bucketOf, not_lt.mpr hm, not_lt.mpr hh]

/-! ### The store -/

@[simp] theorem write_self (store : Store) (clock : ℚ) (w : Window) (b : Bucket ℚ) :
    store.write clock w b w = some ⟨b, clock + bucketTtlSeconds⟩ := by
  simp [Store.write]

theorem write_of_ne (store : Store) (clock : ℚ) {w w' : Window} (b : Bucket ℚ) (h : w' ≠ w) :
    store.write clock w b w' = store w' := by
  simp [Store.write, h]

theorem expire_bucket (store : Store) (clock : ℚ) (w w' : Window) :
    (store.expire clock w w').map Entry.bucket = (store w').map Entry.bucket := by
  unfold Store.expire
  rcases h : store w with _ | e
  · rfl
  · rcases eq_or_ne w' w with rfl | hne
    · by_cases hlive : clock < e.expires <;> simp [hlive, h]
    · by_cases hlive : clock < e.expires <;> simp [hlive, hne]

theorem read_eq_none_or (store : Store) (clock : ℚ) (w : Window) :
    (∃ e, store w = some e ∧ clock < e.expires ∧ store.read clock w = some e.bucket) ∨
    ((∀ e, store w = some e → e.expires ≤ clock) ∧ store.read clock w = none) := by
  rcases h : store w with _ | e
  · exact Or.inr ⟨by simp, by simp [Store.read, h]⟩
  · rcases lt_or_ge clock e.expires with hlive | hgone
    · exact Or.inl ⟨e, rfl, hlive, by simp [Store.read, h, hlive]⟩
    · exact Or.inr ⟨by simpa using hgone, by simp [Store.read, h, not_lt.mpr hgone]⟩

/-! ## 6. The accounts -/

def Request.took (w : Window) (r : Request) : Bool := decide (w ∈ r.taken)

/-- The tokens of a window that went to requests of the interval, answered or not. -/
def takenIn (w : Window) (t₀ t₁ : ℚ) (rs : List Request) : ℕ :=
  rs.countP fun r => r.took w && r.within t₀ t₁

/-- A request on its way has taken what its phase says. -/
def Request.Sound (r : Request) : Prop :=
  match r.phase with
  | .reading .minute => r.taken = []
  | .writing .minute _ => r.taken = []
  | .reading .hour => r.taken = [.minute]
  | .writing .hour _ => r.taken = [.minute]
  | .answered none => ∀ w, w ∈ r.taken
  | .answered (some _) => r.taken = []
  | .failed => True

structure Kept (l : Limits) (s : State) : Prop where
  accounts : ∀ w t₀ t₁, t₀ ≤ t₁ →
    Account (l.cap w) (l.rate w) t₀ t₁ (takenIn w t₀ t₁ s.requests)
      ((s.store w).map Entry.bucket)
  sound : ∀ r ∈ s.requests, r.Sound

theorem kept_start (l : Limits) : Kept l State.start where
  accounts := fun w _ _ hle => Account.nothing (l.cap_nonneg w) (l.rate_nonneg w) hle _
  sound := by simp [State.start]

variable {l : Limits} {s s' : State}

theorem Kept.bounded (h : Kept l s) : Bounded l s := by
  intro w t₀ t₁ hle
  refine le_trans ?_ (h.accounts w t₀ t₁ hle).bounded
  have hcount : s.admitted t₀ t₁ ≤ takenIn w t₀ t₁ s.requests := by
    apply List.countP_mono_left
    intro r hr hadmitted
    simp only [Bool.and_eq_true, Request.admitted, decide_eq_true_eq] at hadmitted
    have hsound := h.sound r hr
    simp only [Request.Sound, hadmitted.1] at hsound
    simp [Request.took, hsound w, hadmitted.2]
  exact_mod_cast hcount

theorem Kept.refused (h : Kept l s) : RefusedTakeNothing s := by
  intro r hr w hphase
  have hsound := h.sound r hr
  simpa [Request.Sound, hphase] using hsound

/-! ### Requests that come and go on -/

theorem takenIn_append (w : Window) (t₀ t₁ : ℚ) (rs : List Request) (now : ℚ) (phase : Phase)
    (taken : List Window) :
    takenIn w t₀ t₁ (rs ++ [⟨now, phase, taken⟩]) = takenIn w t₀ t₁ rs +
      if decide (w ∈ taken) && decide (t₀ ≤ now ∧ now ≤ t₁) then 1 else 0 := by
  simp [takenIn, List.countP_append, List.countP_singleton, Request.took, Request.within]

theorem takenIn_set {w : Window} {t₀ t₁ : ℚ} {rs : List Request} {i : Nat} {r : Request}
    (hi : rs[i]? = some r) (r' : Request) :
    takenIn w t₀ t₁ (rs.set i r') + (if r.took w && r.within t₀ t₁ then 1 else 0) =
      takenIn w t₀ t₁ rs + if r'.took w && r'.within t₀ t₁ then 1 else 0 := by
  obtain ⟨hlt, rfl⟩ := List.getElem?_eq_some_iff.mp hi
  have hin : (if rs[i].took w && rs[i].within t₀ t₁ then 1 else 0) ≤ takenIn w t₀ t₁ rs := by
    split_ifs with hcount
    · exact List.countP_pos_iff.mpr ⟨rs[i], List.getElem_mem hlt, hcount⟩
    · exact Nat.zero_le _
  simp only [takenIn, List.countP_set hlt] at hin ⊢
  omega

/-- A request moves on without lowering a count. -/
theorem takenIn_set_same {w : Window} {t₀ t₁ : ℚ} {rs : List Request} {i : Nat} {r r' : Request}
    (hi : rs[i]? = some r) (htook : r'.took w = r.took w) (hnow : r'.now = r.now) :
    takenIn w t₀ t₁ (rs.set i r') = takenIn w t₀ t₁ rs := by
  have hwithin : r'.within t₀ t₁ = r.within t₀ t₁ := by simp [Request.within, hnow]
  have hset : takenIn w t₀ t₁ (rs.set i r') + _ = takenIn w t₀ t₁ rs + _ := takenIn_set hi r'
  rw [htook, hwithin] at hset
  exact Nat.add_right_cancel hset

theorem sound_append {rs : List Request} {r : Request} (h : ∀ r ∈ rs, r.Sound) (hr : r.Sound) :
    ∀ q ∈ rs ++ [r], q.Sound := by
  intro q hq
  rcases List.mem_append.mp hq with hq | hq
  · exact h q hq
  · rw [List.mem_singleton.mp hq]
    exact hr

theorem sound_set {rs : List Request} {i : Nat} {r : Request} (h : ∀ r ∈ rs, r.Sound)
    (hr : r.Sound) : ∀ q ∈ rs.set i r, q.Sound := by
  intro q hq
  rcases List.mem_or_eq_of_mem_set hq with hq | rfl
  · exact h q hq
  · exact hr

/-! ### One step -/

/-- Nothing was taken: a request that comes, reads or fails. -/
theorem Kept.of_same (h : Kept l s)
    (hstore : ∀ w, (s'.store w).map Entry.bucket = (s.store w).map Entry.bucket)
    (htaken : ∀ w t₀ t₁, takenIn w t₀ t₁ s'.requests = takenIn w t₀ t₁ s.requests)
    (hsound : ∀ r ∈ s'.requests, r.Sound) : Kept l s' where
  accounts := by
    intro w t₀ t₁ hle
    rw [hstore w, htaken w t₀ t₁]
    exact h.accounts w t₀ t₁ hle
  sound := hsound

/-- A bucket from which one request draws a token, or none. -/
theorem account_draw {cap rate now t₀ t₁ found : ℚ} {n n' : ℕ} {before : Option (Bucket ℚ)}
    {after : Bucket ℚ} (took : Bool) (h : Account cap rate t₀ t₁ n before) (hrate : 0 ≤ rate)
    (hafter : after = ⟨if took then found - 1 else found, now⟩) (hfound : took → 1 ≤ found)
    (hdraws : Draws cap rate now (if took then 1 else 0) before after)
    (hn : n' = n + if took && decide (t₀ ≤ now ∧ now ≤ t₁) then 1 else 0) :
    Account cap rate t₀ t₁ n' (some after) := by
  rcases took with _ | _
  · simp only [Bool.false_and, Bool.false_eq_true, if_false, Nat.add_zero] at hn hdraws
    rw [hn]
    exact h.idle hdraws le_rfl
  · simp only [if_true, Bool.true_and, decide_eq_true_eq] at hn hdraws
    by_cases hin : t₀ ≤ now ∧ now ≤ t₁
    · have htokens : 0 ≤ after.tokens := by
        rw [hafter]
        exact sub_nonneg.mpr (hfound rfl)
      rw [hn, if_pos hin]
      exact h.take hdraws hrate hin.1 hin.2 htokens
    · rw [hn, if_neg hin]
      exact h.idle hdraws zero_le_one

/-- A draw on what the script found is a draw on what the store holds, in exact numbers. -/
theorem draws_eval {now clock spent tokens : ℚ} (hok : Settled l s (.eval now clock)) (w : Window)
    (hsum : tokens + spent = exactLevel (l.cap w) (l.rate w) now (s.store.read clock w)) :
    Draws (l.cap w) (l.rate w) now spent ((s.store w).map Entry.bucket) ⟨tokens, now⟩ := by
  rcases read_eq_none_or s.store clock w with ⟨e, he, hlive, hread⟩ | ⟨hgone, hread⟩
  · have hle := hok.1 w e he
    rw [if_pos hlive] at hle
    rw [hread, exactLevel_eq_earned (by simpa using hle)] at hsum
    rw [he]
    exact draws_earned hsum
  · rw [hread] at hsum
    refine Draws.of_full (@draws_earned _ _ _ none _ _ hsum) ?_
    intro b hb
    obtain ⟨e, he, rfl⟩ := Option.map_eq_some_iff.mp hb
    have hfull := hok.1 w e he
    rwa [if_neg (not_lt.mpr (hgone e he))] at hfull

theorem evalStep_store (l : Limits) (s : State) (now clock : ℚ) (w : Window) :
    ((evalStep l s now clock).store w).map Entry.bucket =
      some (printedBucket (bucketOf (bucketLua l now (s.store.read clock .minute)
        (s.store.read clock .hour)) w)) := by
  rcases w with _ | _
  · simp [evalStep, write_of_ne _ _ _ (show Window.minute ≠ Window.hour by decide)]
  · simp [evalStep]

/-- What the script's request is recorded to have taken. -/
theorem lowered_all {found : Window → ℚ} {stored : Window → ℚ}
    (h : ∀ w, stored w < found w) (w : Window) : w ∈ lowered found stored := by
  rcases w with _ | _ <;> simp [lowered, h]

theorem lowered_none {found : Window → ℚ} {stored : Window → ℚ}
    (h : ∀ w, stored w = found w) : lowered found stored = [] := by
  simp [lowered, h]

/-- The script's request is admitted and takes one token from both windows, or it is refused
    and takes none. -/
theorem evalStep_cases (l : Limits) (s : State) (now clock : ℚ)
    (hrounds : ∀ w, RoundsDown l now (s.store.read clock) w) :
    (∃ taken, (evalStep l s now clock).requests =
        s.requests ++ [⟨now, .answered none, taken⟩] ∧ (∀ w, w ∈ taken) ∧
      ∀ w, 1 ≤ exactLevel (l.cap w) (l.rate w) now (s.store.read clock w) ∧
        ∃ after, ((evalStep l s now clock).store w).map Entry.bucket = some after ∧
          after.balance (l.rate w) ≤
            exactLevel (l.cap w) (l.rate w) now (s.store.read clock w) - 1 - now * l.rate w) ∨
    (∃ w₀, (evalStep l s now clock).requests =
        s.requests ++ [⟨now, .answered (some w₀), []⟩] ∧
      ∀ w, ∃ after, ((evalStep l s now clock).store w).map Entry.bucket = some after ∧
        after.balance (l.rate w) ≤
          exactLevel (l.cap w) (l.rate w) now (s.store.read clock w) - now * l.rate w) := by
  rcases bucketLua_cases l now (s.store.read clock) with
    ⟨hadmitted, hlevels, hbuckets⟩ | ⟨⟨w₀, hrefused⟩, hlevels, hbuckets⟩
  · have hlowered : ∀ w, (bucketOf (bucketLua l now (s.store.read clock .minute)
        (s.store.read clock .hour)) w).tokens <
          level (l.cap w) (l.rate w) now (s.store.read clock w) := by
      intro w
      rw [hbuckets w]
      exact ((hrounds w).whole hlevels).2
    refine Or.inl ⟨_, ?_, lowered_all hlowered, ?_⟩
    · simp only [evalStep, hadmitted]
    · intro w
      refine ⟨((hrounds w).whole hlevels).1, _, evalStep_store l s now clock w, ?_⟩
      rw [hbuckets w]
      exact (hrounds w).admitted hlevels
  · refine Or.inr ⟨w₀, ?_, ?_⟩
    · simp only [evalStep, hrefused, hbuckets, lowered_none fun _ => rfl]
    · intro w
      refine ⟨_, evalStep_store l s now clock w, ?_⟩
      rw [hbuckets w]
      exact (hrounds w).refused hlevels

theorem kept_eval {now clock : ℚ} (h : Kept l s) (hok : Settled l s (.eval now clock)) :
    Kept l (evalStep l s now clock) := by
  rcases evalStep_cases l s now clock hok.2 with ⟨taken, hrequests, htaken, hstore⟩ |
    ⟨w₀, hrequests, hstore⟩
  · constructor
    · intro w t₀ t₁ hle
      obtain ⟨hone, after, hafter, hworth⟩ := hstore w
      rw [hrequests, takenIn_append, decide_eq_true (htaken w), hafter]
      have hexact := account_draw true (h.accounts w t₀ t₁ hle) (l.rate_nonneg w) rfl
        (fun _ => hone) (draws_eval hok w (sub_add_cancel _ _)) rfl
      exact hexact.mono hworth
    · rw [hrequests]
      exact sound_append h.sound htaken
  · constructor
    · intro w t₀ t₁ hle
      obtain ⟨after, hafter, hworth⟩ := hstore w
      rw [hrequests, takenIn_append, decide_eq_false (List.not_mem_nil (a := w)), hafter]
      have hexact := account_draw false (h.accounts w t₀ t₁ hle) (l.rate_nonneg w) rfl (by simp)
        (draws_eval hok w (add_zero _)) rfl
      exact hexact.mono hworth
    · rw [hrequests]
      exact sound_append h.sound rfl

/-- A request takes its answer for a window, and nothing happens to the other one. -/
theorem Kept.of_draw (h : Kept l s) {i : Nat} {r r' : Request} {w : Window} {clock found : ℚ}
    {after : Bucket ℚ} (hi : s.requests[i]? = some r) (took : Bool) (hfound : took → 1 ≤ found)
    (hdraws : Draws (l.cap w) (l.rate w) r.now (if took then 1 else 0)
      ((s.store w).map Entry.bucket) ⟨if took then found - 1 else found, r.now⟩)
    (hworth : after.balance (l.rate w) ≤
      (⟨if took then found - 1 else found, r.now⟩ : Bucket ℚ).balance (l.rate w))
    (hnow : r'.now = r.now) (hbefore : r.took w = false) (hafter : r'.took w = took)
    (hother : ∀ w', w' ≠ w → r'.took w' = r.took w') (hsound : r'.Sound) :
    Kept l ⟨s.store.write clock w after, s.requests.set i r'⟩ where
  accounts := by
    intro w' t₀ t₁ hle
    rcases eq_or_ne w' w with rfl | hne
    · simp only [write_self, Option.map_some]
      have hset := @takenIn_set w' t₀ t₁ _ _ _ hi r'
      rw [hbefore, hafter] at hset
      simp only [Bool.false_and, Bool.false_eq_true, if_false, Nat.add_zero, Request.within,
        hnow] at hset
      have hexact := account_draw took (h.accounts w' t₀ t₁ hle) (l.rate_nonneg w') rfl hfound
        hdraws hset
      exact hexact.mono hworth
    · simp only [write_of_ne _ _ _ hne, takenIn_set_same hi (hother w' hne) hnow]
      exact h.accounts w' t₀ t₁ hle
  sound := sound_set h.sound hsound

/-- With the same time, a bucket of no more tokens is worth no more. -/
theorem balance_le_of_tokens {rate now x y : ℚ} (h : x ≤ y) :
    (⟨x, now⟩ : Bucket ℚ).balance rate ≤ (⟨y, now⟩ : Bucket ℚ).balance rate :=
  sub_le_sub_right h _

theorem writeStep_cases (l : Limits) (s : State) (i : Nat) (r : Request) (w : Window)
    (read : Option (Bucket ℚ)) (clock : ℚ)
    (hrounds : FallbackRoundsDown (l.cap w) (l.rate w) r.now read) :
    (1 ≤ refilled (l.cap w) (l.rate w) r.now read ∧ writeStep l s i r w read clock =
      ⟨s.store.write clock w ⟨lessOne (refilled (l.cap w) (l.rate w) r.now read), r.now⟩,
        s.requests.set i ⟨r.now, nextPhase w true, w :: r.taken⟩⟩) ∨
    (refilled (l.cap w) (l.rate w) r.now read < 1 ∧ writeStep l s i r w read clock =
      ⟨s.store.write clock w ⟨refilled (l.cap w) (l.rate w) r.now read, r.now⟩,
        s.requests.set i ⟨r.now, .answered (some w), r.taken⟩⟩) := by
  rcases checkTokenBucket_cases (l.cap w) (l.rate w) r.now read with ⟨hone, hout⟩ | ⟨hless, hout⟩
  · refine Or.inl ⟨hone, ?_⟩
    have hlowered := (hrounds.admitted hone).2.1
    simp [writeStep, hout, hlowered]
  · refine Or.inr ⟨hless, ?_⟩
    rcases w with _ | _ <;> simp [writeStep, hout, nextPhase]

theorem kept_write {i : Nat} {r : Request} {w : Window} {read : Option (Bucket ℚ)} {clock : ℚ}
    (h : Kept l s) (hi : s.requests[i]? = some r) (hphase : r.phase = .writing w read)
    (hok : Settled l s (.write i clock)) : Kept l (writeStep l s i r w read clock) := by
  obtain ⟨hcurrent, hgone, hhour, hrounds⟩ := hok r w read hi hphase
  have hsound := h.sound r (List.mem_of_getElem? hi)
  have hbefore : r.took w = false := by
    rcases w with _ | _ <;> simp_all [Request.Sound, Request.took]
  -- what was read is what the bucket holds, or the bucket that is gone was full
  have hdraws : ∀ spent tokens, tokens + spent = earned (l.cap w) (l.rate w) r.now read →
      Draws (l.cap w) (l.rate w) r.now spent ((s.store w).map Entry.bucket)
        ⟨tokens, r.now⟩ := by
    intro spent tokens hsum
    rcases read with _ | b
    · refine Draws.of_full (@draws_earned _ _ _ none _ _ hsum) ?_
      intro b hb
      obtain ⟨e, he, rfl⟩ := Option.map_eq_some_iff.mp hb
      exact hgone rfl e he
    · rw [hcurrent b rfl]
      exact draws_earned hsum
  rcases writeStep_cases l s i r w read clock hrounds with ⟨hone, hout⟩ | ⟨hless, hout⟩
  · obtain ⟨hearned, -, hworth⟩ := hrounds.admitted hone
    rw [hout]
    refine h.of_draw hi true (fun _ => hearned) (hdraws 1 _ (sub_add_cancel _ _))
      (balance_le_of_tokens hworth) rfl hbefore (by simp [Request.took]) ?_ ?_
    · intro w' hne
      simp [Request.took, hne]
    · rcases w with _ | _
      · simp_all [Request.Sound, nextPhase]
      · simp only [Request.Sound, hphase] at hsound
        rintro (_ | _) <;> simp [hsound]
  · have hminute : w = .minute := by
      rcases w with _ | _
      · rfl
      · exact absurd (hhour rfl) (not_le.mpr hless)
    subst hminute
    rw [hout]
    refine h.of_draw hi false (by simp) (hdraws 0 _ (add_zero _))
      (balance_le_of_tokens (hrounds.refused hless)) rfl hbefore hbefore (fun _ _ => rfl) ?_
    simpa [Request.Sound, hphase] using hsound

/-- A request whose phase changes and that takes nothing. -/
theorem Kept.of_phase (h : Kept l s) {i : Nat} {r : Request} {phase : Phase} {store : Store}
    (hi : s.requests[i]? = some r)
    (hstore : ∀ w, (store w).map Entry.bucket = (s.store w).map Entry.bucket)
    (hsound : Request.Sound { r with phase := phase }) :
    Kept l ⟨store, s.requests.set i { r with phase := phase }⟩ :=
  h.of_same hstore (fun _ _ _ => takenIn_set_same hi rfl rfl) (sound_set h.sound hsound)

/-- A request that comes and takes nothing. -/
theorem Kept.of_new (h : Kept l s) {now : ℚ} {phase : Phase}
    (hsound : Request.Sound ⟨now, phase, []⟩) :
    Kept l { s with requests := s.requests ++ [⟨now, phase, []⟩] } :=
  h.of_same (fun _ => rfl) (fun w t₀ t₁ => by simp [takenIn_append])
    (sound_append h.sound hsound)

theorem kept_step {a : Label} (h : Kept l s) (hok : Settled l s a) (hstep : step l s a = some s') :
    Kept l s' := by
  rcases a with ⟨now, clock⟩ | now | now | ⟨i, clock⟩ | ⟨i, clock⟩ | i
  · cases hstep
    exact kept_eval h hok
  · cases hstep
    exact h.of_new rfl
  · cases hstep
    exact h.of_new trivial
  · obtain ⟨r, hi, hstep⟩ := Option.bind_eq_some_iff.mp hstep
    rcases hphase : r.phase with w | ⟨w, read⟩ | verdict | _ <;> simp only [hphase] at hstep
    · cases hstep
      refine h.of_phase hi (expire_bucket s.store clock w) ?_
      have hsound := h.sound r (List.mem_of_getElem? hi)
      rcases w with _ | _ <;> simpa [Request.Sound, hphase] using hsound
    all_goals cases hstep
  · obtain ⟨r, hi, hstep⟩ := Option.bind_eq_some_iff.mp hstep
    rcases hphase : r.phase with w | ⟨w, read⟩ | verdict | _ <;> simp only [hphase] at hstep
    · cases hstep
    · cases hstep
      exact kept_write h hi hphase hok
    all_goals cases hstep
  · obtain ⟨r, hi, hstep⟩ := Option.bind_eq_some_iff.mp hstep
    rcases hphase : r.phase with w | ⟨w, read⟩ | verdict | _ <;> simp only [hphase] at hstep
    · cases hstep
      exact h.of_phase hi (fun _ => rfl) trivial
    · cases hstep
      exact h.of_phase hi (fun _ => rfl) trivial
    all_goals cases hstep

/-! ## 7. The bound, in every run of settled steps -/

theorem bounded_of_settled (l : Limits) (labels : List Label)
    (hok : AllSteps (step l) (Settled l) State.start labels) :
    Always (step l) (fun s => Bounded l s ∧ RefusedTakeNothing s) State.start labels := by
  have hkept : Always (step l) (Kept l) State.start labels :=
    always_of_allSteps (fun _ _ _ h hsettled hstep => kept_step h hsettled hstep)
      (kept_start l) hok
  exact hkept.imp fun _ h => ⟨h.bounded, h.refused⟩

/-- A request from a clock that is a minute behind is refused, and its `now` is stored: the next
    request on time finds that minute credited again. -/
theorem second_admitted_after_step_back :
    ∃ s, exec (step (Limits.perWindow 1 1000 (by decide) (by decide))) State.start
        [.eval 120 0, .eval 60 1, .eval 120 2] = some s ∧
      s.admitted 120 120 = 2 ∧
      ¬ Bounded (Limits.perWindow 1 1000 (by decide) (by decide)) s := by
  refine ⟨_, rfl, by decide +kernel, ?_⟩
  intro hbounded
  have hone := hbounded .minute 120 120 le_rfl
  exact absurd hone (by decide +kernel)

/-- A request whose `now` has more than fourteen digits: the text of it is earlier, and the time
between is counted again. -/
theorem second_admitted_after_rounding :
    ∃ s, exec (step (Limits.perWindow 1 1000 (by decide) (by decide))) State.start
        [.eval (1758200000 + 1 / 2 ^ 15) 0, .eval (1758200060 + 1 / 2 ^ 16) 60] = some s ∧
      s.admitted (1758200000 + 1 / 2 ^ 15) (1758200060 + 1 / 2 ^ 16) = 2 ∧
      ¬ Bounded (Limits.perWindow 1 1000 (by decide) (by decide)) s := by
  refine ⟨_, rfl, by decide +kernel, ?_⟩
  intro hbounded
  have hone := hbounded .minute (1758200000 + 1 / 2 ^ 15) (1758200060 + 1 / 2 ^ 16)
    (by decide +kernel)
  exact absurd hone (by decide +kernel)

/-- A request on the fallback, then one on the script. -/
theorem bounded_of_settled_fallback :
    AllSteps (step (Limits.perWindow 1 1000 (by decide) (by decide)))
      (Settled (Limits.perWindow 1 1000 (by decide) (by decide))) State.start
      [.evalRefused 120, .read 0 0, .write 0 1, .read 0 1, .write 0 2, .eval 181 62] ∧
    Always (step (Limits.perWindow 1 1000 (by decide) (by decide)))
      (fun s => Bounded (Limits.perWindow 1 1000 (by decide) (by decide)) s ∧
        RefusedTakeNothing s) State.start
      [.evalRefused 120, .read 0 0, .write 0 1, .read 0 1, .write 0 2, .eval 181 62] := by
  have hok : AllSteps (step (Limits.perWindow 1 1000 (by decide) (by decide)))
      (Settled (Limits.perWindow 1 1000 (by decide) (by decide))) State.start
      [.evalRefused 120, .read 0 0, .write 0 1, .read 0 1, .write 0 2, .eval 181 62] := by
    refine allSteps_cons rfl trivial (allSteps_cons rfl trivial (allSteps_cons rfl ?_
      (allSteps_cons rfl trivial (allSteps_cons rfl ?_ (allSteps_cons rfl ?_ trivial)))))
    · intro r w read hr hphase
      cases hr
      cases hphase
      refine ⟨?_, ?_, by decide, ?_⟩
      · intro b hb
        cases hb
      · intro _ e he
        cases he
      · exact ⟨fun _ => by decide +kernel, fun _ => by decide +kernel⟩
    · intro r w read hr hphase
      cases hr
      cases hphase
      refine ⟨?_, ?_, by decide +kernel, ?_⟩
      · intro b hb
        cases hb
      · intro _ e he
        cases he
      · exact ⟨fun _ => by decide +kernel, fun _ => by decide +kernel⟩
    · refine ⟨?_, ?_⟩
      · rintro (_ | _) e he <;> cases he <;> decide +kernel
      · rintro (_ | _)
        · refine ⟨fun _ => by decide +kernel, fun _ => by decide +kernel, ?_⟩
          intro hno
          exact absurd (by rintro (_ | _) <;> decide +kernel) hno
        · refine ⟨fun _ => by decide +kernel, fun _ => by decide +kernel, ?_⟩
          intro hno
          exact absurd (by rintro (_ | _) <;> decide +kernel) hno
  exact ⟨hok, bounded_of_settled _ _ hok⟩

/-! ## 8. What the condition leaves out -/

/-- The script behind the bucket's clock, in exact numbers: the account rises. -/
theorem credited_of_step_back {cap rate now : ℚ} {b : Bucket ℚ} (hback : now < b.lastRefill)
    (hrate : 0 < rate) (hcap : b.tokens ≤ cap) :
    b.balance rate < (⟨exactLevel cap rate now (some b), now⟩ : Bucket ℚ).balance rate := by
  have hlevel : exactLevel cap rate now (some b) = b.tokens := by
    simp [exactLevel, max_eq_left (sub_nonpos.mpr hback.le), hcap]
  have hworth : now * rate < b.lastRefill * rate := mul_lt_mul_of_pos_right hback hrate
  simp only [Bucket.balance, hlevel]
  linarith

/-- The fallback: a request that the hour window refuses keeps the minute's token. -/
theorem hour_refusal_takes_minute (h : Kept l s) {i : Nat} {r : Request} {clock : ℚ}
    {read : Option (Bucket ℚ)} (hi : s.requests[i]? = some r)
    (hphase : r.phase = .writing .hour read)
    (hless : refilled (l.cap .hour) (l.rate .hour) r.now read < 1)
    (hstep : step l s (.write i clock) = some s') :
    s'.requests[i]? = some ⟨r.now, .answered (some .hour), [.minute]⟩ := by
  have hsound := h.sound r (List.mem_of_getElem? hi)
  simp only [Request.Sound, hphase] at hsound
  obtain ⟨hlt, _⟩ := List.getElem?_eq_some_iff.mp hi
  rcases checkTokenBucket_cases (l.cap .hour) (l.rate .hour) r.now read with
    ⟨hone, -⟩ | ⟨-, hout⟩
  · exact absurd hone (not_le.mpr hless)
  · simp only [step, hi, Option.bind_eq_bind, Option.bind_some, hphase, writeStep, hout] at hstep
    cases hstep
    simp [hlt, hsound, nextPhase]

end TokenProxy.RateLimit
