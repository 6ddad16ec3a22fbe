/-
  TokenProxy/TrialGate.lean
  =========================
  **The free-trial gate** (`trial.py` and `_check_trial` in `g00_rate_limit.py`).

  A trial ends by its days or by its requests, whichever comes first, and the gate in
  front of them lets a request through when anything in it raises.  `trialSummary`
  raises `OverflowError` where a number of the block is infinite or too large for a
  float, or a date leaves the calendar, so one such value switches both limits off.

  `independent_iff` says of every block that is active, every clock and every counter
  when the two limits bind: nothing of that may happen (`InRange`), and no limit that
  is a fraction below one, which `int` reads as no limit, may have been reached.

  Floats are exact numbers here, but one that is too large is infinite.
-/
import TokenProxy.PyJson
import Mathlib.Algebra.Order.Floor.Ring
import Mathlib.Data.Rat.Floor
import Mathlib.Tactic.Linarith

namespace TokenProxy.Trial

/-! ## 1. Numbers and dates -/

inductive PyError where
  | typeError
  | valueError
  | overflowError
deriving DecidableEq, Repr

/-- A field of the trial block: a JSON value, or the float that `json.loads` makes of a
number too large for one, or of `Infinity` and `NaN`. -/
inductive FieldValue where
  | plain (value : Json)
  | infinity (negative : Bool)
  | nan
deriving DecidableEq

def FieldValue.truthy : FieldValue → Bool
  | .plain value => value.truthy
  | _ => true

def microsPerDay : ℤ := 86400 * 1000000

/-- The instants of the calendar, in microseconds since 0001-01-01: up to 9999-12-31. -/
def maxInstant : ℤ := 3652059 * microsPerDay

/-- What `datetime.fromisoformat` gives: a local time, and its offset if it has one. -/
structure LocalTime where
  micros : ℤ
  nonneg : 0 ≤ micros
  bounded : micros < maxInstant
  offset : Option ℤ

/-- What the standard library makes of a text; `none` is a `ValueError`. -/
structure Runtime where
  intOfText : String → Option ℤ
  intOfText_empty : intOfText "" = none
  fromIsoformat : String → Option LocalTime

variable (rt : Runtime)

/-- `int` of a float. -/
def truncate (q : ℚ) : ℤ := if 0 ≤ q then ⌊q⌋ else ⌈q⌉

/-- `int(value)`. -/
def pyInt : FieldValue → Except PyError ℤ
  | .plain (.bool b) => .ok (if b then 1 else 0)
  | .plain (.int n) => .ok n
  | .plain (.float q) => .ok (truncate q)
  | .plain (.str s) =>
    match rt.intOfText s with
    | some n => .ok n
    | none => .error .valueError
  | .plain _ => .error .typeError
  | .infinity _ => .error .overflowError
  | .nan => .error .valueError

/-- `except (TypeError, ValueError): 0`. -/
def orZero (result : Except PyError ℤ) : Except PyError ℤ :=
  match result with
  | .error .typeError => .ok 0
  | .error .valueError => .ok 0
  | other => other

/-- `_int`. -/
def intField (value : FieldValue) : Except PyError ℤ := orZero (pyInt rt value)

/-- From here on an `int` rounds to no float. -/
def floatLimit : ℤ := 2 ^ 1024 - 2 ^ 970

/-- An `int` where a float is wanted. -/
def toFloat (n : ℤ) : Except PyError ℚ :=
  if |n| < floatLimit then .ok n else .error .overflowError

/-- A date that was moved, if it is still one. -/
def inCalendar (instant : ℤ) : Except PyError ℤ :=
  if 0 ≤ instant ∧ instant < maxInstant then .ok instant else .error .overflowError

/-- `timedelta(days=days)`. -/
def timedelta (days : ℤ) : Except PyError ℤ :=
  if |days| ≤ 999999999 then .ok (days * microsPerDay) else .error .overflowError

/-- `dt.astimezone(timezone.utc)`, for a naive time as UTC. -/
def LocalTime.toUtc (t : LocalTime) : Except PyError ℤ :=
  match t.offset with
  | none => .ok t.micros
  | some offset => inCalendar (t.micros - offset)

/-- `parse_started_at`. -/
def parseStartedAt (value : FieldValue) : Except PyError (Option ℤ) :=
  match value with
  | .plain (.str s) =>
    if s = "" then .ok none
    else
      match rt.fromIsoformat s with
      | none => .ok none
      | some t => t.toUtc.map some
  | _ => .ok none

/-- `round(x, digits)`: to the nearest multiple, halves to the even one. -/
def roundTo (digits : ℕ) (x : ℚ) : ℚ :=
  let scaled := x * 10 ^ digits
  let low := ⌊scaled⌋
  let rest := scaled - low
  (if rest < 1 / 2 ∨ (rest = 1 / 2 ∧ low % 2 = 0) then low else low + 1 : ℤ) / 10 ^ digits

/-! ## 2. The view of a trial -/

abbrev Block := List (String × FieldValue)

/-- `trial.get(key)`. -/
def Block.get (block : Block) (key : String) : FieldValue :=
  (Assoc.lookup key block).getD (.plain .null)

structure Base where
  startedAt : FieldValue
  days : ℤ
  maxRequests : ℤ
  generation : ℤ
  requestsUsed : ℤ
  enforced : Bool

/-- What an active trial is reported with. -/
structure Live where
  expired : Bool
  expiresAt : Option ℤ
  daysRemaining : Option ℚ
  requestsRemaining : Option ℤ
  pctDays : ℚ
  pctRequests : ℚ
  pctUsed : ℚ
  dimension : String
  warnLevel : String
  valid : Bool

inductive View where
  /-- neither active nor cancelled -/
  | notGated (status : FieldValue) (enforced : Bool)
  | cancelled (base : Base)
  | live (base : Base) (live : Live)

/-- How far the days have got: the percentage, what is left, whether they are over, and
when they are. -/
structure DayLimit where
  pct : ℚ
  remaining : Option ℚ
  expired : Bool
  expiresAt : Option ℤ

def dayLimit (startedAt : Option ℤ) (days now : ℤ) : Except PyError DayLimit :=
  match startedAt with
  | none => .ok ⟨0, none, false, none⟩
  | some startedAt =>
    if 0 < days then do
      let elapsed : ℚ := max 0 ((now - startedAt : ℤ) / 1000000)
      let total := (← toFloat days) * 86400
      let length ← timedelta days
      let expiresAt ← inCalendar (startedAt + length)
      pure {
        pct := min 100 (100 * elapsed / total)
        remaining := some (max 0 ((total - elapsed) / 86400))
        expired := decide (total ≤ elapsed)
        expiresAt := some expiresAt }
    else .ok ⟨0, none, false, none⟩

structure RequestLimit where
  pct : ℚ
  remaining : Option ℤ
  expired : Bool

def requestLimit (maxRequests requestsUsed : ℤ) : Except PyError RequestLimit :=
  if 0 < maxRequests then do
    let used ← toFloat requestsUsed
    let cap ← toFloat maxRequests
    pure {
      pct := min 100 (100 * used / cap)
      remaining := some (max 0 (maxRequests - requestsUsed))
      expired := decide (maxRequests ≤ requestsUsed) }
  else .ok ⟨0, none, false⟩

def warnLevel (expired : Bool) (pctUsed : ℚ) : String :=
  if expired then "expired"
  else if 90 ≤ pctUsed then "warn90"
  else if 80 ≤ pctUsed then "warn80"
  else "none"

/-- `trial_summary`. -/
def trialSummary (block : Block) (requestsUsed : ℤ) (enforced : Bool) (now : ℤ) :
    Except PyError View :=
  let rawStatus :=
    if (block.get "status").truthy then block.get "status" else .plain (.str "none")
  if rawStatus ≠ .plain (.str "active") ∧ rawStatus ≠ .plain (.str "cancelled") then
    .ok (.notGated rawStatus enforced)
  else do
    let days ← intField rt (block.get "days")
    let maxRequests ← intField rt (block.get "max_requests")
    let generation ← intField rt (block.get "generation")
    let base : Base := {
      startedAt := block.get "started_at", days, maxRequests, generation
      requestsUsed := max 0 requestsUsed, enforced }
    if rawStatus = .plain (.str "cancelled") then pure (.cancelled base)
    else
      let startedAt ← parseStartedAt rt (block.get "started_at")
      let byDays ← dayLimit startedAt days now
      let byRequests ← requestLimit maxRequests base.requestsUsed
      let expired := byDays.expired || byRequests.expired
      let pctUsed := max byDays.pct byRequests.pct
      pure (.live base {
        expired
        expiresAt := byDays.expiresAt
        daysRemaining := byDays.remaining.map (roundTo 2)
        requestsRemaining := byRequests.remaining
        pctDays := roundTo 1 byDays.pct
        pctRequests := roundTo 1 byRequests.pct
        pctUsed := roundTo 1 pctUsed
        dimension :=
          if expired then (if byDays.expired then "days" else "requests")
          else if byRequests.pct ≤ byDays.pct then "days" else "requests"
        warnLevel := warnLevel expired pctUsed
        valid := startedAt.isSome })

/-! ## 3. The gate -/

/-- `rate_limit.trial`, and who is exempt from it. -/
structure GateConfig where
  enabled : Bool
  exemptTenants : List String

structure RateLimitExceeded where
  retryAfter : ℕ
  limitType : String
  scope : String
deriving DecidableEq

inductive Raised where
  | rateLimit (e : RateLimitExceeded)
  | other (e : PyError)

/-- The counter under `trial_key`: `INCR` keeps a signed 64-bit number. -/
abbrev Counter := {n : ℤ // -2 ^ 63 ≤ n ∧ n < 2 ^ 63}

def trialExpired (tenantId reason dimension : String) (used : ℤ) : RateLimitExceeded where
  retryAfter := 86400
  limitType := "trial_expired"
  scope := "tenant=" ++ tenantId ++ ",reason=" ++ reason ++ ",dimension=" ++ dimension ++
    ",used=" ++ toString used

/-- `int(trial.get(key) or 0)`, `except (TypeError, ValueError): 0`. -/
def intOrZero (value : FieldValue) : Except PyError ℤ :=
  orZero (pyInt rt (if value.truthy then value else .plain (.int 0)))

/-- `_check_trial`.  `read` is what the counter's read gives, `none` where it fails.
The events and the warnings that it sends do not change what it answers. -/
def checkTrial (cfg : GateConfig) (tenantId : String) (block : Block) (read : Option Counter)
    (now : ℤ) : Except Raised Unit :=
  if !cfg.enabled then .ok ()
  else if tenantId ∈ cfg.exemptTenants then .ok ()
  else
    let status := block.get "status"
    if status ≠ .plain (.str "active") ∧ status ≠ .plain (.str "cancelled") then .ok ()
    else do
      let maxRequests ← (intOrZero rt (block.get "max_requests")).mapError .other
      let requestsUsed : ℤ :=
        if status = .plain (.str "active") ∧ 0 < maxRequests then
          (read.map Subtype.val).getD 0
        else 0
      let view ← (trialSummary rt block requestsUsed true now).mapError .other
      let _ ← (intOrZero rt (block.get "generation")).mapError .other
      match view with
      | .cancelled base =>
        .error (.rateLimit (trialExpired tenantId "cancelled" "cancelled" base.requestsUsed))
      | .live base live =>
        if live.expired then
          .error (.rateLimit (trialExpired tenantId "exhausted" live.dimension base.requestsUsed))
        else pure ()
      | .notGated _ _ => pure ()

/-- The trial stage of `process_request`: anything but a refusal lets the request on. -/
def trialStage (cfg : GateConfig) (tenantId : String) (block : Block) (read : Option Counter)
    (now : ℤ) : Option RateLimitExceeded :=
  match checkTrial rt cfg tenantId block read now with
  | .ok () => none
  | .error (.rateLimit e) => some e
  | .error (.other _) => none

/-! ## 4. What a field says -/

/-- The number in a field, where it is a number or a text that `int` takes. -/
def amount (value : FieldValue) : ℚ :=
  match value with
  | .plain (.float q) => q
  | other =>
    match pyInt rt other with
    | .ok n => n
    | .error _ => 0

theorem truncate_intCast (n : ℤ) : truncate n = n := by
  simp [truncate]

theorem truncate_pos_iff (q : ℚ) : 0 < truncate q ↔ 1 ≤ q := by
  rw [truncate]
  split
  · rw [Int.floor_pos]
  · rename_i hneg
    constructor
    · intro h
      have hceil := Int.ceil_le_floor_add_one q
      have hle : ⌈q⌉ ≤ 0 := Int.ceil_le.mpr (by push_cast; linarith)
      omega
    · intro h
      linarith

theorem truncate_of_one_le {q : ℚ} (h : 1 ≤ q) : truncate q = ⌊q⌋ := by
  rw [truncate, if_pos (by linarith)]

def FieldValue.Infinite (value : FieldValue) : Prop := ∃ negative, value = .infinity negative

theorem intField_of_infinite {value : FieldValue} (h : value.Infinite) :
    intField rt value = .error .overflowError := by
  obtain ⟨negative, rfl⟩ := h
  rfl

theorem intField_of_finite {value : FieldValue} (h : ¬ value.Infinite) :
    intField rt value = .ok (truncate (amount rt value)) := by
  cases value with
  | infinity negative => exact absurd ⟨negative, rfl⟩ h
  | nan => rfl
  | plain json =>
    cases json with
    | null => rfl
    | bool b => simp [intField, pyInt, orZero, amount, truncate_intCast, -Int.cast_ite]
    | int n => simp [intField, pyInt, orZero, amount, truncate_intCast]
    | float q => simp [intField, pyInt, orZero, amount]
    | str s =>
      cases hs : rt.intOfText s with
      | none => simp [intField, pyInt, orZero, amount, truncate, hs]
      | some n => simp [intField, pyInt, orZero, amount, truncate_intCast, hs]
    | arr items => rfl
    | obj fields => rfl

theorem intOrZero_eq (value : FieldValue) : intOrZero rt value = intField rt value := by
  cases htruthy : value.truthy with
  | true => simp [intOrZero, intField, htruthy]
  | false =>
    cases value with
    | infinity negative => simp [FieldValue.truthy] at htruthy
    | nan => simp [FieldValue.truthy] at htruthy
    | plain json =>
      cases json with
      | null => rfl
      | bool b =>
        simp only [FieldValue.truthy, Json.truthy] at htruthy
        simp [intOrZero, intField, FieldValue.truthy, Json.truthy, htruthy, pyInt, orZero]
      | int n =>
        simp only [FieldValue.truthy, Json.truthy, decide_eq_false_iff_not, not_not] at htruthy
        simp [intOrZero, intField, FieldValue.truthy, Json.truthy, htruthy, pyInt, orZero]
      | float q =>
        simp only [FieldValue.truthy, Json.truthy, decide_eq_false_iff_not, not_not] at htruthy
        simp [intOrZero, intField, FieldValue.truthy, Json.truthy, htruthy, pyInt, orZero, truncate]
      | str s =>
        simp only [FieldValue.truthy, Json.truthy, decide_eq_false_iff_not, not_not] at htruthy
        simp [intOrZero, intField, FieldValue.truthy, Json.truthy, htruthy, pyInt, orZero,
          rt.intOfText_empty]
      | arr items =>
        simp only [FieldValue.truthy] at htruthy
        simp [intOrZero, intField, FieldValue.truthy, htruthy, pyInt, orZero]
      | obj fields =>
        simp only [FieldValue.truthy] at htruthy
        simp [intOrZero, intField, FieldValue.truthy, htruthy, pyInt, orZero]

/-! ## 5. When a limit can be computed -/

/-- The instant that a text with a date stands for. -/
def startedInstant (block : Block) : Option ℤ :=
  match block.get "started_at" with
  | .plain (.str s) =>
    if s = "" then none else (rt.fromIsoformat s).map fun t => t.micros - t.offset.getD 0
  | _ => none

/-- It is in the calendar, if there is one. -/
def StartInCalendar (block : Block) : Prop :=
  ∀ start, startedInstant rt block = some start → 0 ≤ start ∧ start < maxInstant

theorem toUtc_eq (t : LocalTime) : t.toUtc = inCalendar (t.micros - t.offset.getD 0) := by
  cases h : t.offset with
  | some offset => simp [LocalTime.toUtc, h]
  | none => simp [LocalTime.toUtc, h, inCalendar, t.nonneg, t.bounded]

theorem parseStartedAt_eq (block : Block) :
    parseStartedAt rt (block.get "started_at") =
      match startedInstant rt block with
      | none => .ok none
      | some start => (inCalendar start).map some := by
  unfold parseStartedAt startedInstant
  cases block.get "started_at" with
  | infinity negative => rfl
  | nan => rfl
  | plain json =>
    cases json with
    | str s =>
      by_cases hs : s = ""
      · simp [hs]
      · cases ht : rt.fromIsoformat s with
        | none => simp [hs, ht]
        | some t => simp [hs, ht, toUtc_eq]
    | _ => rfl

theorem parseStartedAt_of_inCalendar {block : Block} (h : StartInCalendar rt block) :
    parseStartedAt rt (block.get "started_at") = .ok (startedInstant rt block) := by
  rw [parseStartedAt_eq]
  cases hstart : startedInstant rt block with
  | none => rfl
  | some start =>
    have hrange := h start hstart
    simp [inCalendar, hrange, Except.map]

theorem inCalendar_of_parse {block : Block} {start : Option ℤ}
    (h : parseStartedAt rt (block.get "started_at") = .ok start) : StartInCalendar rt block := by
  intro instant hinstant
  rw [parseStartedAt_eq, hinstant] at h
  by_contra hrange
  simp [inCalendar, hrange, Except.map] at h

theorem dayLimit_of_unlimited {days : ℤ} (h : ¬ 0 < days) (startedAt : Option ℤ) (now : ℤ) :
    dayLimit startedAt days now = .ok ⟨0, none, false, none⟩ := by
  cases startedAt with
  | none => rfl
  | some start => simp [dayLimit, h]

/-- The days are over when that much time has gone by, whatever the rounding. -/
theorem elapsed_ge_iff {days : ℤ} (hdays : 0 < days) (start now : ℤ) :
    (days : ℚ) * 86400 ≤ max 0 (((now - start : ℤ) : ℚ) / 1000000) ↔
      days * microsPerDay ≤ now - start := by
  have hpos : (0 : ℚ) < days := by exact_mod_cast hdays
  have hcast : (days : ℚ) * 86400 * 1000000 ≤ ((now - start : ℤ) : ℚ) ↔
      days * microsPerDay ≤ now - start := by
    rw [microsPerDay, ← Int.cast_le (R := ℚ)]
    push_cast
    rw [mul_assoc]
    norm_num
  rw [← hcast, le_max_iff, le_div_iff₀ (by norm_num)]
  constructor
  · intro h
    rcases h with hneg | h
    · linarith
    · exact h
  · intro h
    exact Or.inr h

theorem dayLimit_of_end {days start : ℤ} (hdays : 0 < days) (hstart : 0 ≤ start)
    (hend : start + days * microsPerDay < maxInstant) (now : ℤ) :
    ∃ limit, dayLimit (some start) days now = .ok limit ∧
      (limit.expired = true ↔ days * microsPerDay ≤ now - start) := by
  have hbound : days ≤ 3652059 := by
    unfold maxInstant microsPerDay at hend
    omega
  have hfloat : |days| < floatLimit := by
    rw [abs_of_pos hdays]
    have hlimit : (3652059 : ℤ) < floatLimit := by decide +kernel
    omega
  have hdelta : |days| ≤ 999999999 := by
    rw [abs_of_pos hdays]
    omega
  have hcalendar : 0 ≤ start + days * microsPerDay ∧ start + days * microsPerDay < maxInstant := by
    refine ⟨?_, hend⟩
    unfold microsPerDay
    omega
  have htoFloat : toFloat days = .ok (days : ℚ) := if_pos hfloat
  have htimedelta : timedelta days = .ok (days * microsPerDay) := if_pos hdelta
  have hmoved : inCalendar (start + days * microsPerDay) = .ok (start + days * microsPerDay) :=
    if_pos hcalendar
  simp only [dayLimit, if_pos hdays, htoFloat, htimedelta, bind, Except.bind, hmoved]
  refine ⟨_, rfl, ?_⟩
  rw [decide_eq_true_eq]
  exact elapsed_ge_iff hdays start now

theorem end_of_dayLimit {days start now : ℤ} {limit : DayLimit} (hdays : 0 < days)
    (h : dayLimit (some start) days now = .ok limit) :
    start + days * microsPerDay < maxInstant := by
  by_contra hend
  have hmoved : inCalendar (start + days * microsPerDay) = .error .overflowError :=
    if_neg fun hrange => hend hrange.2
  simp only [dayLimit, if_pos hdays, bind, Except.bind] at h
  cases hfloat : toFloat days with
  | error e => simp [hfloat] at h
  | ok d =>
    by_cases hdelta : |days| ≤ 999999999
    · have htimedelta : timedelta days = .ok (days * microsPerDay) := if_pos hdelta
      simp [hfloat, htimedelta, hmoved] at h
    · have htimedelta : timedelta days = .error .overflowError := if_neg hdelta
      simp [hfloat, htimedelta] at h

/-- What an `INCR` counter holds is small enough for a float. -/
theorem toFloat_counter {used : ℤ} (h : used < 2 ^ 63) :
    toFloat (max 0 used) = .ok ((max 0 used : ℤ) : ℚ) := by
  apply if_pos
  rw [abs_of_nonneg (le_max_left 0 used)]
  have hlimit : (2 : ℤ) ^ 63 < floatLimit := by decide +kernel
  omega

theorem requestLimit_of_unlimited {maxRequests : ℤ} (h : ¬ 0 < maxRequests) (used : ℤ) :
    requestLimit maxRequests used = .ok ⟨0, none, false⟩ := if_neg h

theorem requestLimit_of_cap {maxRequests used : ℤ} (hpos : 0 < maxRequests)
    (hcap : maxRequests < floatLimit) (hused : used < 2 ^ 63) :
    ∃ limit, requestLimit maxRequests (max 0 used) = .ok limit ∧
      (limit.expired = true ↔ maxRequests ≤ used) := by
  have hfloat : toFloat maxRequests = .ok (maxRequests : ℚ) :=
    if_pos ((abs_of_pos hpos).trans_lt hcap)
  simp only [requestLimit, if_pos hpos, toFloat_counter hused, hfloat, bind, Except.bind]
  refine ⟨_, rfl, ?_⟩
  rw [decide_eq_true_eq]
  omega

theorem cap_of_requestLimit {maxRequests used : ℤ} {limit : RequestLimit}
    (hpos : 0 < maxRequests) (h : requestLimit maxRequests used = .ok limit) :
    maxRequests < floatLimit := by
  by_contra hcap
  have hfloat : toFloat maxRequests = .error .overflowError :=
    if_neg fun h => hcap ((abs_of_pos hpos).symm.trans_lt h)
  simp only [requestLimit, if_pos hpos, hfloat, bind, Except.bind] at h
  cases hused : toFloat used with
  | error e => simp [hused] at h
  | ok u => simp [hused] at h

/-! ## 6. Both limits bind -/

def daysOf (block : Block) : ℚ := amount rt (block.get "days")

def maxRequestsOf (block : Block) : ℚ := amount rt (block.get "max_requests")

/-- Nothing in the block is infinite, too large for a float or past the calendar. -/
structure InRange (block : Block) : Prop where
  finite : ∀ key ∈ ["days", "max_requests", "generation"], ¬ (block.get key).Infinite
  start : StartInCalendar rt block
  finish : ∀ start, startedInstant rt block = some start → 1 ≤ daysOf rt block →
    start + ⌊daysOf rt block⌋ * microsPerDay < maxInstant
  cap : maxRequestsOf rt block < floatLimit

/-- The whole days of the trial have gone by. -/
def DaysOver (block : Block) (now : ℤ) : Prop :=
  1 ≤ daysOf rt block ∧ ∃ start, startedInstant rt block = some start ∧
    ⌊daysOf rt block⌋ * microsPerDay ≤ now - start

/-- The whole requests of the trial are used up. -/
def RequestsOver (block : Block) (used : ℤ) : Prop :=
  1 ≤ maxRequestsOf rt block ∧ ⌊maxRequestsOf rt block⌋ ≤ used

section

variable {rt} {block : Block} {used now : ℤ}

theorem ints_of_finite (rt : Runtime) {block : Block} (h : ∀ key ∈ ["days", "max_requests", "generation"],
    ¬ (block.get key).Infinite) :
    intField rt (block.get "days") = .ok (truncate (daysOf rt block)) ∧
      intField rt (block.get "max_requests") = .ok (truncate (maxRequestsOf rt block)) ∧
      ∃ generation, intField rt (block.get "generation") = .ok generation := by
  have hfield : ∀ key ∈ ["days", "max_requests", "generation"],
      intField rt (block.get key) = .ok (truncate (amount rt (block.get key))) :=
    fun key hkey => intField_of_finite rt (h key hkey)
  exact ⟨hfield "days" (by simp), hfield "max_requests" (by simp), _,
    hfield "generation" (by simp)⟩

theorem dayLimit_of_inRange (h : InRange rt block) (now : ℤ) :
    ∃ limit, dayLimit (startedInstant rt block) (truncate (daysOf rt block)) now = .ok limit ∧
      (limit.expired = true ↔ DaysOver rt block now) := by
  by_cases hdays : 1 ≤ daysOf rt block
  · have hpos := (truncate_pos_iff _).mpr hdays
    rw [truncate_of_one_le hdays] at hpos ⊢
    cases hstart : startedInstant rt block with
    | none =>
      refine ⟨_, rfl, ?_⟩
      simp [DaysOver, hstart]
    | some start =>
      obtain ⟨limit, hlimit, hexpired⟩ :=
        dayLimit_of_end hpos (h.start start hstart).1 (h.finish start hstart hdays) now
      refine ⟨limit, hlimit, ?_⟩
      simp [DaysOver, hstart, hdays, hexpired]
  · refine ⟨_, dayLimit_of_unlimited ((truncate_pos_iff _).not.mpr hdays) _ now, ?_⟩
    simp [DaysOver, hdays]

theorem requestLimit_of_inRange (h : InRange rt block) (hused : used < 2 ^ 63) :
    ∃ limit, requestLimit (truncate (maxRequestsOf rt block)) (max 0 used) = .ok limit ∧
      (limit.expired = true ↔ RequestsOver rt block used) := by
  by_cases hmax : 1 ≤ maxRequestsOf rt block
  · have hpos := (truncate_pos_iff _).mpr hmax
    rw [truncate_of_one_le hmax] at hpos ⊢
    have hcap : ⌊maxRequestsOf rt block⌋ < floatLimit := Int.floor_lt.mpr h.cap
    obtain ⟨limit, hlimit, hexpired⟩ := requestLimit_of_cap hpos hcap hused
    exact ⟨limit, hlimit, by simp [RequestsOver, hmax, hexpired]⟩
  · refine ⟨_, requestLimit_of_unlimited ((truncate_pos_iff _).not.mpr hmax) _, ?_⟩
    simp [RequestsOver, hmax]

theorem status_of_active (hactive : block.get "status" = .plain (.str "active")) :
    (if (block.get "status").truthy then block.get "status" else .plain (.str "none")) =
      .plain (.str "active") := by
  rw [hactive]
  rfl

/-- The view of an active trial whose values are in range, and when it says expired. -/
theorem trialSummary_of_inRange (hactive : block.get "status" = .plain (.str "active"))
    (h : InRange rt block) (hused : used < 2 ^ 63) (now : ℤ) :
    ∃ base live, trialSummary rt block used true now = .ok (.live base live) ∧
      (live.expired = true ↔ DaysOver rt block now ∨ RequestsOver rt block used) := by
  obtain ⟨hdays, hmax, generation, hgeneration⟩ := ints_of_finite rt h.finite
  obtain ⟨byDays, hbyDays, hdaysOver⟩ := dayLimit_of_inRange h now
  obtain ⟨byRequests, hbyRequests, hrequestsOver⟩ := requestLimit_of_inRange h hused
  have hstart := parseStartedAt_of_inCalendar rt h.start
  have hgated : ¬ (FieldValue.plain (.str "active") ≠ .plain (.str "active") ∧
      FieldValue.plain (.str "active") ≠ .plain (.str "cancelled")) := by simp
  have hcancelled : FieldValue.plain (.str "active") ≠ .plain (.str "cancelled") := by decide
  simp only [trialSummary, status_of_active hactive, if_neg hgated, hdays, hmax, hgeneration,
    if_neg hcancelled, hstart, bind, Except.bind, hbyDays, hbyRequests]
  refine ⟨_, _, rfl, ?_⟩
  rw [← hdaysOver, ← hrequestsOver]
  simp only [Bool.or_eq_true]

/-- A view that is returned shows that the values are in range. -/
theorem inRange_of_returns (hactive : block.get "status" = .plain (.str "active")) {view : View}
    (h : trialSummary rt block used true now = .ok view) : InRange rt block := by
  have hgated : ¬ (FieldValue.plain (.str "active") ≠ .plain (.str "active") ∧
      FieldValue.plain (.str "active") ≠ .plain (.str "cancelled")) := by simp
  have hcancelled : FieldValue.plain (.str "active") ≠ .plain (.str "cancelled") := by decide
  simp only [trialSummary, status_of_active hactive, if_neg hgated, if_neg hcancelled, bind,
    Except.bind] at h
  have hfinite : ∀ key ∈ ["days", "max_requests", "generation"], ¬ (block.get key).Infinite := by
    intro key hkey hinfinite
    have herror := intField_of_infinite rt hinfinite
    simp only [List.mem_cons, List.not_mem_nil, or_false] at hkey
    rcases hkey with rfl | rfl | rfl
    · simp [herror] at h
    · cases hdays : intField rt (block.get "days") with
      | error e => simp [hdays] at h
      | ok days => simp [hdays, herror] at h
    · cases hdays : intField rt (block.get "days") with
      | error e => simp [hdays] at h
      | ok days =>
        cases hmax : intField rt (block.get "max_requests") with
        | error e => simp [hdays, hmax] at h
        | ok maxRequests => simp [hdays, hmax, herror] at h
  obtain ⟨hdays, hmax, generation, hgeneration⟩ := ints_of_finite rt hfinite
  simp only [hdays, hmax, hgeneration] at h
  cases hparse : parseStartedAt rt (block.get "started_at") with
  | error e => simp [hparse] at h
  | ok start =>
    have hcalendar := inCalendar_of_parse rt hparse
    have hstart := (parseStartedAt_of_inCalendar rt hcalendar).symm.trans hparse
    obtain rfl := Except.ok.inj hstart
    cases hbyDays : dayLimit (startedInstant rt block) (truncate (daysOf rt block)) now with
    | error e => simp [hparse, hbyDays] at h
    | ok byDays =>
      cases hbyRequests : requestLimit (truncate (maxRequestsOf rt block)) (max 0 used) with
      | error e => simp [hparse, hbyDays, hbyRequests] at h
      | ok byRequests =>
        refine ⟨hfinite, hcalendar, ?_, ?_⟩
        · intro start hstart hone
          have hpos := (truncate_pos_iff _).mpr hone
          rw [truncate_of_one_le hone] at hpos hbyDays
          rw [hstart] at hbyDays
          exact end_of_dayLimit hpos hbyDays
        · by_cases hone : 1 ≤ maxRequestsOf rt block
          · have hpos := (truncate_pos_iff _).mpr hone
            rw [truncate_of_one_le hone] at hpos hbyRequests
            exact Int.floor_lt.mp (cap_of_requestLimit hpos hbyRequests)
          · have hlimit : (1 : ℚ) ≤ floatLimit := by
              have hint : (1 : ℤ) ≤ floatLimit := by decide +kernel
              exact_mod_cast hint
            linarith

/-! ## 7. The gate -/

variable {cfg : GateConfig} {tenantId : String} {read : Option Counter}

/-- The requests that the gate counts with. -/
def counted (rt : Runtime) (block : Block) (read : Option Counter) : ℤ :=
  if 0 < truncate (maxRequestsOf rt block) then (read.map Subtype.val).getD 0 else 0

theorem counted_lt : counted rt block read < 2 ^ 63 := by
  rw [counted]
  split
  · cases read with
    | none => simp
    | some used => exact used.property.2
  · norm_num

theorem requestsOver_counted_iff :
    RequestsOver rt block (counted rt block read) ↔
      ∃ used, read = some used ∧ RequestsOver rt block used := by
  by_cases hone : 1 ≤ maxRequestsOf rt block
  · have hpos := (truncate_pos_iff _).mpr hone
    rw [counted, if_pos hpos]
    rw [truncate_of_one_le hone] at hpos
    cases read with
    | none =>
      simp only [RequestsOver, Option.map_none, Option.getD_none, reduceCtorEq, false_and,
        exists_false, iff_false, not_and]
      intro _ hle
      omega
    | some used => simp
  · simp [RequestsOver, hone]

/-- What the gate does with an active trial once it is switched on for the tenant. -/
theorem checkTrial_active (henabled : cfg.enabled = true) (hexempt : tenantId ∉ cfg.exemptTenants)
    (hactive : block.get "status" = .plain (.str "active"))
    (hmax : intField rt (block.get "max_requests") = .ok (truncate (maxRequestsOf rt block)))
    {generation : ℤ} (hgeneration : intField rt (block.get "generation") = .ok generation)
    {base : Base} {live : Live}
    (hview : trialSummary rt block (counted rt block read) true now = .ok (.live base live)) :
    (trialStage rt cfg tenantId block read now).isSome = live.expired := by
  have hgated : ¬ (FieldValue.plain (.str "active") ≠ .plain (.str "active") ∧
      FieldValue.plain (.str "active") ≠ .plain (.str "cancelled")) := by simp
  have hview' : trialSummary rt block (if 0 < truncate (maxRequestsOf rt block) then
      (read.map Subtype.val).getD 0 else 0) true now = .ok (.live base live) := hview
  simp only [trialStage, checkTrial, henabled, Bool.not_true, Bool.false_eq_true, if_false,
    if_neg hexempt, hactive, if_neg hgated, intOrZero_eq, hmax, Except.mapError, bind,
    Except.bind, true_and, hview', hgeneration]
  cases live.expired with
  | true => rfl
  | false => rfl

/-- The gate refuses an active trial exactly when its values are in range and one of the
limits is over. -/
theorem refused_iff (henabled : cfg.enabled = true) (hexempt : tenantId ∉ cfg.exemptTenants)
    (hactive : block.get "status" = .plain (.str "active")) :
    (trialStage rt cfg tenantId block read now).isSome = true ↔
      InRange rt block ∧ (DaysOver rt block now ∨
        ∃ used, read = some used ∧ RequestsOver rt block used) := by
  by_cases hrange : InRange rt block
  · obtain ⟨base, live, hview, hexpired⟩ :=
      trialSummary_of_inRange hactive hrange counted_lt now
    obtain ⟨-, hmax, generation, hgeneration⟩ := ints_of_finite rt hrange.finite
    rw [checkTrial_active henabled hexempt hactive hmax hgeneration hview, hexpired,
      requestsOver_counted_iff]
    simp [hrange]
  · have hgated : ¬ (FieldValue.plain (.str "active") ≠ .plain (.str "active") ∧
        FieldValue.plain (.str "active") ≠ .plain (.str "cancelled")) := by simp
    simp only [hrange, false_and, iff_false]
    simp only [trialStage, checkTrial, henabled, Bool.not_true, Bool.false_eq_true, if_false,
      if_neg hexempt, hactive, if_neg hgated, bind, Except.bind]
    cases hmax : intOrZero rt (block.get "max_requests") with
    | error e => simp [Except.mapError]
    | ok maxRequests =>
      simp only [Except.mapError]
      generalize (if True ∧ 0 < maxRequests then (read.map Subtype.val).getD 0 else 0) = used
      cases hview : trialSummary rt block used true now with
      | error e => simp
      | ok view => exact absurd (inRange_of_returns hactive hview) hrange

/-! ## 8. The limits are independent -/

/-- The trial is evaluated, and the gate refuses the request wherever one of the two limits,
positive, has been reached. -/
structure Independent (rt : Runtime) (cfg : GateConfig) (tenantId : String) (block : Block)
    (read : Option Counter) (now : ℤ) : Prop where
  returns : ∃ view, trialSummary rt block ((read.map Subtype.val).getD 0) true now = .ok view
  requests : ∀ used : Counter, read = some used → 0 < maxRequestsOf rt block →
    maxRequestsOf rt block ≤ (used.val : ℚ) →
    (trialStage rt cfg tenantId block read now).isSome = true
  days : ∀ start, startedInstant rt block = some start → 0 < daysOf rt block →
    daysOf rt block * microsPerDay ≤ ((now - start : ℤ) : ℚ) →
    (trialStage rt cfg tenantId block read now).isSome = true

/-- Its values are in range, and a limit that `int` cuts down to nothing has not been reached,
unless the other one has. -/
structure Binds (rt : Runtime) (block : Block) (read : Option Counter) (now : ℤ) : Prop where
  inRange : InRange rt block
  partOfRequest : ∀ used : Counter, read = some used → 0 < maxRequestsOf rt block →
    maxRequestsOf rt block < 1 → maxRequestsOf rt block ≤ (used.val : ℚ) → DaysOver rt block now
  partOfDay : ∀ start, startedInstant rt block = some start → 0 < daysOf rt block →
    daysOf rt block < 1 → daysOf rt block * microsPerDay ≤ ((now - start : ℤ) : ℚ) →
    ∃ used, read = some used ∧ RequestsOver rt block used

theorem requestsOver_of_reached {used : Counter} (hone : 1 ≤ maxRequestsOf rt block)
    (h : maxRequestsOf rt block ≤ (used.val : ℚ)) : RequestsOver rt block used := by
  refine ⟨hone, ?_⟩
  have hfloor := Int.floor_le (maxRequestsOf rt block)
  exact_mod_cast hfloor.trans h

theorem daysOver_of_reached {start : ℤ} (hstart : startedInstant rt block = some start)
    (hone : 1 ≤ daysOf rt block)
    (h : daysOf rt block * microsPerDay ≤ ((now - start : ℤ) : ℚ)) : DaysOver rt block now := by
  refine ⟨hone, start, hstart, ?_⟩
  have hfloor := Int.floor_le (daysOf rt block)
  have hday : (0 : ℚ) ≤ microsPerDay := by norm_num [microsPerDay]
  have hle : (⌊daysOf rt block⌋ : ℚ) * microsPerDay ≤ ((now - start : ℤ) : ℚ) :=
    (mul_le_mul_of_nonneg_right hfloor hday).trans h
  exact_mod_cast hle

/-- **When the limits of an active trial are independent.** -/
theorem independent_iff (henabled : cfg.enabled = true) (hexempt : tenantId ∉ cfg.exemptTenants)
    (hactive : block.get "status" = .plain (.str "active")) :
    Independent rt cfg tenantId block read now ↔ Binds rt block read now := by
  have hrefused : (trialStage rt cfg tenantId block read now).isSome = true ↔
      InRange rt block ∧ (DaysOver rt block now ∨
        ∃ used, read = some used ∧ RequestsOver rt block used) :=
    refused_iff henabled hexempt hactive
  have hread : (read.map Subtype.val).getD 0 < 2 ^ 63 := by
    cases read with
    | none => simp
    | some used => exact used.property.2
  constructor
  · rintro ⟨⟨view, hview⟩, hrequests, hdays⟩
    refine ⟨inRange_of_returns hactive hview, ?_, ?_⟩
    · intro used hused hpos hlt hreached
      rcases (hrefused.mp (hrequests used hused hpos hreached)).2 with hover | ⟨_, _, hone, _⟩
      · exact hover
      · linarith
    · intro start hstart hpos hlt hreached
      rcases (hrefused.mp (hdays start hstart hpos hreached)).2 with ⟨hone, _⟩ | hover
      · linarith
      · exact hover
  · rintro ⟨hrange, hrequests, hdays⟩
    obtain ⟨base, live, hview, -⟩ := trialSummary_of_inRange hactive hrange hread now
    refine ⟨⟨_, hview⟩, ?_, ?_⟩
    · intro used hused hpos hreached
      rw [hrefused]
      refine ⟨hrange, ?_⟩
      by_cases hone : 1 ≤ maxRequestsOf rt block
      · exact Or.inr ⟨used, hused, requestsOver_of_reached hone hreached⟩
      · exact Or.inl (hrequests used hused hpos (not_le.mp hone) hreached)
    · intro start hstart hpos hreached
      rw [hrefused]
      refine ⟨hrange, ?_⟩
      by_cases hone : 1 ≤ daysOf rt block
      · exact Or.inl (daysOver_of_reached hstart hone hreached)
      · exact Or.inr (hdays start hstart hpos (not_le.mp hone) hreached)

end

/-- A runtime that reads the dates below. -/
def july : Runtime where
  intOfText _ := none
  intOfText_empty := rfl
  fromIsoformat s :=
    if s = "2026-07-20T09:00:00+00:00" then
      some ⟨63920134800000000, by decide, by decide, some 0⟩
    else none

def trialsOn : GateConfig := ⟨true, ["admin", "default"]⟩

def fortnight : Block :=
  [("status", .plain (.str "active")),
    ("started_at", .plain (.str "2026-07-20T09:00:00+00:00")),
    ("days", .plain (.int 14)), ("max_requests", .plain (.int 100))]

theorem independent_fortnight :
    Independent july trialsOn "acme" fortnight (some ⟨100, by decide⟩) 63920394000000000 ↔
      Binds july fortnight (some ⟨100, by decide⟩) 63920394000000000 :=
  independent_iff rfl (by decide) rfl

/-- Days beyond the calendar, and a limit of ten requests of which 25 are used. -/
def endless : Block :=
  [("status", .plain (.str "active")),
    ("started_at", .plain (.str "2026-07-20T09:00:00+00:00")),
    ("days", .plain (.int 9999999)), ("max_requests", .plain (.int 10))]

theorem not_independent_endless :
    ¬ Independent july trialsOn "acme" endless (some ⟨25, by decide⟩) 63920394000000000 := by
  rintro ⟨⟨view, hview⟩, -, -⟩
  have hrange : InRange july endless := inRange_of_returns rfl hview
  have hdays : daysOf july endless = 9999999 := rfl
  have hfinish := hrange.finish 63920134800000000 rfl (by rw [hdays]; norm_num)
  rw [hdays] at hfinish
  norm_num [maxInstant, microsPerDay] at hfinish

end TokenProxy.Trial
