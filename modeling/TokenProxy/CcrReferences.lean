/-
  TokenProxy/CcrReferences.lean
  =============================
  **References to stored blocks** (`g28_ccr.py`).

  A block goes to Redis under its hash, with an expiry, and a copy of it into the memory of
  the process that stored or read it.  `replaceContent` puts a reference in the block's
  place when the block is stored, and it takes either copy for a sign that it is.

  `refs` lists the references that went out, each with what Redis held at that moment.
  Main result: `dependable_iff`, which histories send out no reference that Redis does not
  hold for at least the configured time: those in which a block that is found, and may be
  replaced, was last written with that text and not dropped since, less than its TTL ago by
  at least the configured time.

  The hash and the token count are parameters; nothing is assumed of them.
-/
import TokenProxy.Execution
import TokenProxy.PyJson
import Mathlib.Data.List.MinMax
import Mathlib.Algebra.Order.Field.Rat
import Mathlib.Tactic.Linarith

namespace TokenProxy.Ccr

open TokenProxy.Execution

/-! ## 1. A process's own copies -/

/-- `_local_store`: a text with its expiry, by key. -/
abbrev LocalStore := Dict String (ℚ × String)

def localStoreMax : Nat := 512

def localGet (now : ℚ) (store : LocalStore) (key : String) : Option String × LocalStore :=
  match store.get? key with
  | none => (none, store)
  | some (expiresAt, value) =>
    if expiresAt ≤ now then (none, store.erase key) else (some value, store)

/-- `min(_local_store, key=…)`. -/
def oldest (store : LocalStore) : Option String :=
  (store.entries.argmin fun e => e.2.1).map Prod.fst

/-- The eviction loop of `_local_put`, for at most `n` turns. -/
def evict : Nat → LocalStore → LocalStore
  | 0, store => store
  | n + 1, store =>
    if localStoreMax ≤ store.entries.length then
      match oldest store with
      | some key => evict n (store.erase key)
      | none => store
    else store

def localPut (now : ℚ) (store : LocalStore) (key value : String) (ttl : Int) : LocalStore :=
  let purged := store.filter fun _ e => decide (now < e.1)
  (evict purged.entries.length purged).set key (now + max 1 ttl, value)

/-! ## 2. Redis and the processes -/

/-- A block in Redis: `SET key value EX ttl` at `writtenAt`. -/
structure Entry where
  value : String
  writtenAt : ℚ
  ttl : Int
deriving DecidableEq

def Entry.expiresAt (e : Entry) : ℚ := e.writtenAt + e.ttl

/-- A reference that went out, and the entry of its key at that moment. -/
structure Ref where
  text : String
  ttl : Int
  sentAt : ℚ
  held : Option Entry
deriving DecidableEq

structure State where
  now : ℚ
  durable : String → Option Entry
  /-- The local store of each process. -/
  locals : Nat → LocalStore
  refs : List Ref

/-- What Redis holds at a key now. -/
def State.held (s : State) (key : String) : Option Entry :=
  (s.durable key).filter fun e => decide (s.now < e.expiresAt)

/-- How a `SET` ends; `lost` is one that was taken although the reply never arrived. -/
inductive SetReply where
  | taken
  | refused
  | lost
deriving DecidableEq

variable (sha256Hex : String → String)

def storeKey (redisPrefix sha : String) : String := redisPrefix ++ "ccr:" ++ sha

def makeRef (sha : String) : String := "[CCR:" ++ sha ++ "]"

def State.write (s : State) (key text : String) (ttl : Int) : State :=
  { s with durable := Function.update s.durable key (some ⟨text, s.now, max 1 ttl⟩) }

def State.keep (s : State) (proc : Nat) (key text : String) (ttl : Int) : State :=
  { s with
    locals := Function.update s.locals proc (localPut s.now (s.locals proc) key text ttl) }

/-- `_store`: whether the block reached Redis. -/
def store (proc : Nat) (key text : String) (ttl : Int) (reply : SetReply) (s : State) :
    Bool × State :=
  match reply with
  | .taken => (true, (s.write key text ttl).keep proc key text ttl)
  | .refused => (false, s)
  | .lost => (false, s.write key text ttl)

/-- `_retrieve_stored`; `answers` says that Redis answers the `GET`. -/
def retrieveStored (proc : Nat) (key : String) (answers : Bool) (s : State) :
    Option String × State :=
  let (cached, store) := localGet s.now (s.locals proc) key
  let s := { s with locals := Function.update s.locals proc store }
  match cached with
  | some value => (some value, s)
  | none =>
    match if answers then s.held key else none with
    | some entry => (some entry.value, s.keep proc key entry.value 300)
    | none => (none, s)

/-! ## 3. Replacing blocks -/

/-- What G28 reads of a request: its config, its tenant's prefix and whether a reference may
    go out (`may_substitute`). -/
structure Request where
  proc : Nat
  redisPrefix : String
  model : String
  minTokens : Nat := 300
  ttl : Int := 86400
  compressSystem : Bool := false
  maySubstitute : Bool

variable (estimateTokens : String → String → Nat)

/-- `_replace_content`; the reference's entry in `refs` is read off the state it leaves. -/
def replaceContent (r : Request) (content : String) (answers : Bool) (reply : SetReply)
    (s : State) : (String × Bool) × State :=
  if estimateTokens content r.model < r.minTokens then ((content, false), s)
  else
    let sha := sha256Hex content
    let key := storeKey r.redisPrefix sha
    let (existing, s) := retrieveStored r.proc key answers s
    let (stored, s) :=
      if existing.isSome then (true, s) else store r.proc key content r.ttl reply s
    if r.maySubstitute && stored then
      ((makeRef sha, true),
        { s with refs := s.refs ++ [⟨content, r.ttl, s.now, s.held key⟩] })
    else ((content, false), s)

def compressibleRoles (r : Request) : List String :=
  if r.compressSystem then ["user", "assistant", "system"] else ["user", "assistant"]

/-- The text that `_process_messages` offers for replacement. -/
def offered (r : Request) (message : Json) : Option String :=
  match message.getD "role" (.str ""), message.getD "content" (.str "") with
  | .str role, .str content => if role ∈ compressibleRoles r then some content else none
  | _, _ => none

/-- One turn of the loop of `_process_messages`. -/
def processMessage (r : Request) (message : Json) (answers : Bool) (reply : SetReply) (s : State) :
    Json × State :=
  match offered r message with
  | none => (message, s)
  | some content =>
    let ((content', replaced), s) :=
      replaceContent sha256Hex estimateTokens r content answers reply s
    (if replaced then message.set "content" (.str content') else message, s)

/-! ## 4. Events -/

inductive Event where
  | pass (seconds : ℚ)
  /-- Redis drops a key. -/
  | evicted (key : String)
  /-- A process starts anew. -/
  | restarted (proc : Nat)
  | message (r : Request) (message : Json) (answers : Bool) (reply : SetReply)
  /-- `headroom_compress`, with the TTL that the model chose. -/
  | compress (proc : Nat) (redisPrefix text : String) (ttl : Int) (maxStoreChars : Int)
    (reply : SetReply)
  /-- `headroom_retrieve`, of a well-formed reference. -/
  | retrieve (proc : Nat) (redisPrefix sha : String) (answers : Bool)

def step (s : State) : Event → Option State
  | .pass seconds => if 0 ≤ seconds then some { s with now := s.now + seconds } else none
  | .evicted key => some { s with durable := Function.update s.durable key none }
  | .restarted proc => some { s with locals := Function.update s.locals proc ∅ }
  | .message r message answers reply =>
    some (processMessage sha256Hex estimateTokens r message answers reply s).2
  | .compress proc redisPrefix text ttl maxStoreChars reply =>
    if text = "" || decide (maxStoreChars < text.length) then some s
    else some (store proc (storeKey redisPrefix (sha256Hex text)) text ttl reply s).2
  | .retrieve proc redisPrefix sha answers =>
    some (retrieveStored proc (storeKey redisPrefix sha) answers s).2

/-- Redis held the referenced text, with at least the configured time left. -/
def Ref.Dependable (ref : Ref) : Prop :=
  ∃ e ∈ ref.held, e.value = ref.text ∧ ref.sentAt + ref.ttl ≤ e.expiresAt

def Dependable (s : State) : Prop := ∀ ref ∈ s.refs, ref.Dependable

/-- The lookup finds a copy of the block, in the process or in Redis. -/
def Found (s : State) (proc : Nat) (key : String) (answers : Bool) : Prop :=
  (localGet s.now (s.locals proc) key).1.isSome ∨ (answers = true ∧ (s.held key).isSome)

instance (s : State) (proc : Nat) (key : String) (answers : Bool) :
    Decidable (Found s proc key answers) :=
  inferInstanceAs (Decidable (_ ∨ _))

/-- Redis has this text under the key, with at least `ttl` seconds left. -/
def WrittenFor (s : State) (key text : String) (ttl : Int) : Prop :=
  ∃ e ∈ s.held key, e.value = text ∧ s.now - e.writtenAt + ttl ≤ e.ttl

/-- A block that may be replaced, and that the lookup finds, is in Redis for long enough. -/
def FreshOrLasting (s : State) : Event → Prop
  | .message r message answers _ => ∀ content ∈ offered r message,
    r.minTokens ≤ estimateTokens content r.model → r.maySubstitute = true →
      Found s r.proc (storeKey r.redisPrefix (sha256Hex content)) answers →
        WrittenFor s (storeKey r.redisPrefix (sha256Hex content)) content r.ttl
  | _ => True

/-! ### What the history says of a key -/

/-- The time that an event takes. -/
def Event.elapsed : Event → ℚ
  | .pass seconds => seconds
  | _ => 0

/-- The event is a `SET` of the key that Redis takes, of this text and for so many seconds. -/
inductive Sets (s : State) (key text : String) (ttl : Int) : Event → Prop
  | message {r : Request} {message : Json} {answers : Bool} {reply : SetReply}
      (hkey : storeKey r.redisPrefix (sha256Hex text) = key) (httl : r.ttl = ttl)
      (hoffered : offered r message = some text)
      (hlarge : r.minTokens ≤ estimateTokens text r.model)
      (hmissing : ¬ Found s r.proc key answers) (hreply : reply ≠ .refused) :
      Sets s key text ttl (.message r message answers reply)
  | compress {proc : Nat} {redisPrefix : String} {maxStoreChars : Int} {reply : SetReply}
      (hkey : storeKey redisPrefix (sha256Hex text) = key) (htext : text ≠ "")
      (hfits : (text.length : Int) ≤ maxStoreChars) (hreply : reply ≠ .refused) :
      Sets s key text ttl (.compress proc redisPrefix text ttl maxStoreChars reply)

/-- The event sets the key or drops it. -/
def Touches (s : State) (key : String) (e : Event) : Prop :=
  e = .evicted key ∨ ∃ text ttl, Sets sha256Hex estimateTokens s key text ttl e

/-- The last event of the run that touches the key is a `SET` of this text for so many seconds,
    `age` seconds before the end of the run. -/
def LastSet (s : State) (events : List Event) (key text : String) (ttl : Int) (age : ℚ) : Prop :=
  ∃ before e after s₁ s₂, events = before ++ e :: after ∧
    exec (step sha256Hex estimateTokens) s before = some s₁ ∧
    step sha256Hex estimateTokens s₁ e = some s₂ ∧ Sets sha256Hex estimateTokens s₁ key text ttl e ∧
    AllSteps (step sha256Hex estimateTokens)
      (fun s e => ¬ Touches sha256Hex estimateTokens s key e) s₂ after ∧
    age = (after.map Event.elapsed).sum

def start (now : ℚ) : State := ⟨now, fun _ => none, fun _ => ∅, []⟩

/-- Whenever a block may be replaced and its lookup finds a copy, the key was last set to this
    text, not dropped since, and the time since then and the configured time are no more than the
    seconds that it was set for. -/
def ReferencesLast (now : ℚ) (events : List Event) : Prop :=
  ∀ before r message answers reply after s content,
    events = before ++ .message r message answers reply :: after →
    exec (step sha256Hex estimateTokens) (start now) before = some s →
    offered r message = some content → r.minTokens ≤ estimateTokens content r.model →
    r.maySubstitute = true →
    Found s r.proc (storeKey r.redisPrefix (sha256Hex content)) answers →
    ∃ (ttl : Int) (age : ℚ), LastSet sha256Hex estimateTokens (start now) before
      (storeKey r.redisPrefix (sha256Hex content)) content ttl age ∧
      age < (max 1 ttl : Int) ∧ age + r.ttl ≤ (max 1 ttl : Int)

/-! ## 5. What each operation leaves alone -/

variable {sha256Hex : String → String} {estimateTokens : String → String → Nat}

theorem State.held_eq_some_iff {s : State} {key : String} {e : Entry} :
    s.held key = some e ↔ s.durable key = some e ∧ s.now < e.expiresAt := by
  rw [State.held, Option.filter_eq_some_iff, decide_eq_true_eq]

/-- A lookup changes nothing but the process's own copies. -/
theorem retrieveStored_state (proc : Nat) (key : String) (answers : Bool) (s : State) :
    (retrieveStored proc key answers s).2.now = s.now ∧
      (retrieveStored proc key answers s).2.durable = s.durable ∧
      (retrieveStored proc key answers s).2.refs = s.refs := by
  simp only [retrieveStored]
  cases (localGet s.now (s.locals proc) key).1 with
  | some value => exact ⟨rfl, rfl, rfl⟩
  | none =>
    simp only
    split
    · exact ⟨rfl, rfl, rfl⟩
    · exact ⟨rfl, rfl, rfl⟩

theorem retrieveStored_held (proc : Nat) (key : String) (answers : Bool) (s : State)
    (other : String) : (retrieveStored proc key answers s).2.held other = s.held other := by
  obtain ⟨hnow, hdurable, -⟩ := retrieveStored_state proc key answers s
  rw [State.held, hnow, hdurable, State.held]

theorem retrieveStored_isSome (proc : Nat) (key : String) (answers : Bool) (s : State) :
    (retrieveStored proc key answers s).1.isSome ↔ Found s proc key answers := by
  rcases hlocal : localGet s.now (s.locals proc) key with ⟨cached, store⟩
  simp only [Found, retrieveStored, hlocal]
  cases cached with
  | some value => simp
  | none =>
    have hheld : ({ s with locals := Function.update s.locals proc store } : State).held key =
        s.held key := rfl
    simp only [hheld]
    cases answers with
    | false => simp
    | true =>
      cases hkey : s.held key with
      | none => simp
      | some e => simp

theorem store_refs (proc : Nat) (key text : String) (ttl : Int) (reply : SetReply) (s : State) :
    (store proc key text ttl reply s).2.refs = s.refs := by
  cases reply with
  | taken => rfl
  | refused => rfl
  | lost => rfl

theorem store_now (proc : Nat) (key text : String) (ttl : Int) (reply : SetReply) (s : State) :
    (store proc key text ttl reply s).2.now = s.now := by
  cases reply with
  | taken => rfl
  | refused => rfl
  | lost => rfl

theorem store_durable (proc : Nat) (key text : String) (ttl : Int) (reply : SetReply) (s : State) :
    (store proc key text ttl reply s).2.durable =
      if reply = .refused then s.durable
      else Function.update s.durable key (some ⟨text, s.now, max 1 ttl⟩) := by
  cases reply with
  | taken => rfl
  | refused => rfl
  | lost => rfl

/-- A block that Redis took is there, for at least a second. -/
theorem held_of_taken (proc : Nat) (key text : String) (ttl : Int) (s : State) :
    (store proc key text ttl .taken s).2.now = s.now ∧
      (store proc key text ttl .taken s).2.held key = some ⟨text, s.now, max 1 ttl⟩ := by
  have hpos : (1 : ℚ) ≤ ((max 1 ttl : Int) : ℚ) := by exact_mod_cast le_max_left 1 ttl
  refine ⟨rfl, State.held_eq_some_iff.mpr ⟨Function.update_self _ _ _, ?_⟩⟩
  change s.now < s.now + ((max 1 ttl : Int) : ℚ)
  linarith

/-! ## 6. One block -/

/-- A reference goes out to a block that was found, or that was written just now. -/
theorem replaceContent_refs (r : Request) (content : String) (answers : Bool) (reply : SetReply)
    (s : State) {key : String} (hkey : key = storeKey r.redisPrefix (sha256Hex content)) :
    ((replaceContent sha256Hex estimateTokens r content answers reply s).2.refs = s.refs ∧
        ¬ (r.minTokens ≤ estimateTokens content r.model ∧ r.maySubstitute = true ∧
          Found s r.proc key answers)) ∨
      (r.minTokens ≤ estimateTokens content r.model ∧ r.maySubstitute = true ∧
        Found s r.proc key answers ∧
        (replaceContent sha256Hex estimateTokens r content answers reply s).2.refs =
          s.refs ++ [⟨content, r.ttl, s.now, s.held key⟩]) ∨
      (¬ Found s r.proc key answers ∧
        (replaceContent sha256Hex estimateTokens r content answers reply s).2.refs =
          s.refs ++ [⟨content, r.ttl, s.now, some ⟨content, s.now, max 1 r.ttl⟩⟩]) := by
  have hfound := retrieveStored_isSome r.proc key answers s
  obtain ⟨hnow, -, hrefs⟩ := retrieveStored_state r.proc key answers s
  have hheld := retrieveStored_held r.proc key answers s key
  simp only [replaceContent, ← hkey]
  by_cases hsmall : estimateTokens content r.model < r.minTokens
  · rw [if_pos hsmall]
    exact Or.inl ⟨rfl, fun h => absurd h.1 (Nat.not_le.mpr hsmall)⟩
  · rw [if_neg hsmall]
    generalize retrieveStored r.proc key answers s = looked at *
    obtain ⟨existing, s'⟩ := looked
    simp only at hfound hnow hrefs hheld ⊢
    by_cases hmay : r.maySubstitute = true
    · by_cases hexisting : existing.isSome = true
      · have hf := hfound.mp hexisting
        right
        left
        refine ⟨Nat.not_lt.mp hsmall, hmay, hf, ?_⟩
        simp [hexisting, hmay, hrefs, hnow, hheld]
      · have hf : ¬ Found s r.proc key answers := fun h => hexisting (hfound.mpr h)
        cases reply with
        | taken =>
          obtain ⟨hnow', hheld'⟩ := held_of_taken r.proc key content r.ttl s'
          have hrefs' := store_refs r.proc key content r.ttl .taken s'
          right
          right
          refine ⟨hf, ?_⟩
          have hstored : (store r.proc key content r.ttl .taken s').1 = true := rfl
          simp only [hexisting, hmay, hstored, hheld', hnow', hrefs', hnow, hrefs,
            Bool.false_eq_true, if_false, Bool.and_self, if_true]
        | refused =>
          left
          exact ⟨by simp [hexisting, store, hrefs], fun h => hf h.2.2⟩
        | lost =>
          left
          exact ⟨by simp [hexisting, store, State.write, hrefs], fun h => hf h.2.2⟩
    · left
      refine ⟨?_, fun h => hmay h.2.1⟩
      by_cases hexisting : existing.isSome = true
      · simp [hexisting, hmay, hrefs]
      · simp [hexisting, hmay, store_refs, hrefs]

theorem replaceContent_durable (r : Request) (content : String) (answers : Bool) (reply : SetReply)
    (s : State) : (replaceContent sha256Hex estimateTokens r content answers reply s).2.durable =
      if r.minTokens ≤ estimateTokens content r.model ∧
          ¬ Found s r.proc (storeKey r.redisPrefix (sha256Hex content)) answers ∧
          reply ≠ .refused then
        Function.update s.durable (storeKey r.redisPrefix (sha256Hex content))
          (some ⟨content, s.now, max 1 r.ttl⟩)
      else s.durable := by
  have hfound := retrieveStored_isSome r.proc (storeKey r.redisPrefix (sha256Hex content)) answers s
  obtain ⟨hnow, hdurable, -⟩ := retrieveStored_state r.proc
    (storeKey r.redisPrefix (sha256Hex content)) answers s
  simp only [replaceContent]
  by_cases hsmall : estimateTokens content r.model < r.minTokens
  · rw [if_pos hsmall, if_neg fun h => absurd h.1 (Nat.not_le.mpr hsmall)]
  · rw [if_neg hsmall]
    generalize retrieveStored r.proc (storeKey r.redisPrefix (sha256Hex content)) answers s = looked
      at *
    obtain ⟨existing, s'⟩ := looked
    simp only at hfound hnow hdurable ⊢
    by_cases hexisting : existing.isSome = true
    · have hfree : ¬ (r.minTokens ≤ estimateTokens content r.model ∧
          ¬ Found s r.proc (storeKey r.redisPrefix (sha256Hex content)) answers ∧
            reply ≠ .refused) := fun h => h.2.1 (hfound.mp hexisting)
      rw [if_neg hfree, if_pos hexisting]
      split <;> exact hdurable
    · have hwrites := store_durable r.proc (storeKey r.redisPrefix (sha256Hex content)) content
        r.ttl reply s'
      rw [hnow, hdurable] at hwrites
      have hcond : (r.minTokens ≤ estimateTokens content r.model ∧
          ¬ Found s r.proc (storeKey r.redisPrefix (sha256Hex content)) answers ∧
            reply ≠ .refused) ↔ ¬ reply = .refused :=
        ⟨fun h => h.2.2, fun h => ⟨Nat.not_lt.mp hsmall, fun hf => hexisting (hfound.mpr hf), h⟩⟩
      rw [if_congr hcond rfl rfl, ite_not, ← hwrites, if_neg hexisting]
      split <;> rfl

theorem replaceContent_now (r : Request) (content : String) (answers : Bool) (reply : SetReply)
    (s : State) :
    (replaceContent sha256Hex estimateTokens r content answers reply s).2.now = s.now := by
  obtain ⟨hnow, -⟩ := retrieveStored_state r.proc (storeKey r.redisPrefix (sha256Hex content))
    answers s
  simp only [replaceContent]
  split
  · rfl
  · generalize retrieveStored r.proc (storeKey r.redisPrefix (sha256Hex content)) answers s = looked
      at *
    obtain ⟨existing, s'⟩ := looked
    simp only at hnow ⊢
    rw [← hnow]
    by_cases hexisting : existing.isSome = true
    · rw [if_pos hexisting]
      split <;> rfl
    · rw [if_neg hexisting]
      split <;> exact store_now _ _ _ _ _ _

theorem processMessage_now (r : Request) (message : Json) (answers : Bool) (reply : SetReply)
    (s : State) :
    (processMessage sha256Hex estimateTokens r message answers reply s).2.now = s.now := by
  rw [processMessage]
  split
  · rfl
  · exact replaceContent_now r _ answers reply s

theorem dependable_append {s s' : State} {ref : Ref} (h : Dependable s)
    (hrefs : s'.refs = s.refs ++ [ref]) : Dependable s' ↔ ref.Dependable := by
  rw [Dependable, hrefs]
  constructor
  · intro hall
    exact hall ref (List.mem_append_right _ (List.mem_singleton_self ref))
  · intro href other hother
    rcases List.mem_append.mp hother with hother | hother
    · exact h other hother
    · rw [List.mem_singleton.mp hother]
      exact href

theorem dependable_of_refs_eq {s s' : State} (h : Dependable s) (hrefs : s'.refs = s.refs) :
    Dependable s' := by
  rw [Dependable, hrefs]
  exact h

theorem dependable_held_iff (s : State) (key text : String) (ttl : Int) :
    Ref.Dependable ⟨text, ttl, s.now, s.held key⟩ ↔ WrittenFor s key text ttl := by
  simp only [Ref.Dependable, WrittenFor, Entry.expiresAt]
  constructor
  · rintro ⟨e, he, hvalue, hle⟩
    exact ⟨e, he, hvalue, by linarith⟩
  · rintro ⟨e, he, hvalue, hle⟩
    exact ⟨e, he, hvalue, by linarith⟩

theorem dependable_written (text : String) (ttl : Int) (now : ℚ) :
    Ref.Dependable ⟨text, ttl, now, some ⟨text, now, max 1 ttl⟩⟩ := by
  have hle : (ttl : ℚ) ≤ ((max 1 ttl : Int) : ℚ) := by exact_mod_cast le_max_right 1 ttl
  refine ⟨_, rfl, rfl, ?_⟩
  simp only [Entry.expiresAt]
  linarith

/-- **One step** sends out no other than dependable references exactly when a block that is
    found was written for long enough. -/
theorem dependable_step_iff {s s' : State} {e : Event} (h : Dependable s)
    (hstep : step sha256Hex estimateTokens s e = some s') :
    Dependable s' ↔ FreshOrLasting sha256Hex estimateTokens s e := by
  cases e with
  | pass seconds =>
    rw [step] at hstep
    split at hstep
    · cases hstep
      exact iff_of_true h trivial
    · cases hstep
  | evicted key =>
    cases hstep
    exact iff_of_true h trivial
  | restarted proc =>
    cases hstep
    exact iff_of_true h trivial
  | compress proc redisPrefix text ttl maxStoreChars reply =>
    rw [step] at hstep
    split at hstep
    · cases hstep
      exact iff_of_true h trivial
    · cases hstep
      exact iff_of_true (dependable_of_refs_eq h (store_refs _ _ _ _ _ _)) trivial
  | retrieve proc redisPrefix sha answers =>
    cases hstep
    exact iff_of_true (dependable_of_refs_eq h (retrieveStored_state _ _ _ _).2.2) trivial
  | message r message answers reply =>
    cases hstep
    rw [processMessage, FreshOrLasting]
    cases hoffered : offered r message with
    | none =>
      refine iff_of_true h ?_
      intro content hcontent
      cases hcontent
    | some content =>
      have hblock := @replaceContent_refs sha256Hex estimateTokens r content answers reply
        s (storeKey r.redisPrefix (sha256Hex content)) rfl
      simp only [Option.mem_some_iff, forall_eq']
      rcases hblock with ⟨hrefs, hnot⟩ | ⟨hsize, hmay, hfound, hrefs⟩ | ⟨hfound, hrefs⟩
      · refine iff_of_true (dependable_of_refs_eq h hrefs) ?_
        intro hsize hmay hfound
        exact absurd ⟨hsize, hmay, hfound⟩ hnot
      · rw [dependable_append h hrefs, dependable_held_iff]
        exact ⟨fun hlasts _ _ _ => hlasts, fun hlasts => hlasts hsize hmay hfound⟩
      · refine iff_of_true ((dependable_append h hrefs).mpr (dependable_written _ _ _)) ?_
        intro hsize hmay hfound'
        exact absurd hfound' hfound

/-! ## 7. What Redis has of a key -/

theorem step_now {s s' : State} {e : Event} (h : step sha256Hex estimateTokens s e = some s') :
    s'.now = s.now + e.elapsed := by
  cases e with
  | pass seconds =>
    rw [step] at h
    split at h
    · cases h
      rfl
    · cases h
  | evicted key =>
    cases h
    exact (add_zero s.now).symm
  | restarted proc =>
    cases h
    exact (add_zero s.now).symm
  | message r message answers reply =>
    cases h
    exact (processMessage_now r message answers reply s).trans (add_zero s.now).symm
  | compress proc redisPrefix text ttl maxStoreChars reply =>
    rw [step] at h
    split at h
    · cases h
      exact (add_zero s.now).symm
    · cases h
      exact (store_now _ _ _ _ _ _).trans (add_zero s.now).symm
  | retrieve proc redisPrefix sha answers =>
    cases h
    exact (retrieveStored_state _ _ _ _).1.trans (add_zero s.now).symm

theorem step_message {s s' : State} {r : Request} {message : Json} {answers : Bool}
    {reply : SetReply} {content : String} (hoffered : offered r message = some content)
    (h : step sha256Hex estimateTokens s (.message r message answers reply) = some s') :
    s' = (replaceContent sha256Hex estimateTokens r content answers reply s).2 := by
  cases h
  rw [processMessage, hoffered]

/-- A `SET` of the key that Redis takes. -/
theorem durable_of_sets {s s' : State} {e : Event} {key text : String} {ttl : Int}
    (h : step sha256Hex estimateTokens s e = some s')
    (hsets : Sets sha256Hex estimateTokens s key text ttl e) :
    s'.durable key = some ⟨text, s.now, max 1 ttl⟩ := by
  cases hsets with
  | message hkey httl hoffered hlarge hmissing hreply =>
    subst hkey httl
    rw [step_message hoffered h, replaceContent_durable,
      if_pos ⟨hlarge, hmissing, hreply⟩, Function.update_self]
  | compress hkey htext hfits hreply =>
    subst hkey
    rw [step, if_neg] at h
    · cases h
      rw [store_durable, if_neg hreply, Function.update_self]
    · simp [htext, hfits]

/-- A key that the event does not touch. -/
theorem durable_of_untouched {s s' : State} {e : Event} {key : String}
    (h : step sha256Hex estimateTokens s e = some s')
    (hnot : ¬ Touches sha256Hex estimateTokens s key e) : s'.durable key = s.durable key := by
  rw [Touches, not_or] at hnot
  obtain ⟨hkept, hunset⟩ := hnot
  cases e with
  | pass seconds =>
    rw [step] at h
    split at h
    · cases h
      rfl
    · cases h
  | evicted other =>
    cases h
    exact Function.update_of_ne (fun heq => hkept (by rw [heq])) _ _
  | restarted proc =>
    cases h
    rfl
  | message r message answers reply =>
    cases hoffered : offered r message with
    | none =>
      cases h
      rw [processMessage, hoffered]
    | some content =>
      rw [step_message hoffered h, replaceContent_durable]
      split
      · rename_i hset
        refine Function.update_of_ne (fun heq => hunset ⟨content, r.ttl, ?_⟩) _ _
        rw [heq]
        exact .message rfl rfl hoffered hset.1 hset.2.1 hset.2.2
      · rfl
  | compress proc redisPrefix text ttl maxStoreChars reply =>
    rw [step] at h
    split at h
    · cases h
      rfl
    · rename_i hset
      simp only [Bool.or_eq_true, decide_eq_true_eq, not_or, not_lt] at hset
      cases h
      rw [store_durable]
      split
      · rfl
      · rename_i hreply
        refine Function.update_of_ne (fun heq => hunset ⟨text, ttl, ?_⟩) _ _
        rw [heq]
        exact .compress rfl hset.1 hset.2 hreply
  | retrieve proc redisPrefix sha answers =>
    cases h
    rw [(retrieveStored_state _ _ _ _).2.1]

theorem exec_now {s s' : State} {events : List Event}
    (h : exec (step sha256Hex estimateTokens) s events = some s') :
    s'.now = s.now + (events.map Event.elapsed).sum := by
  induction events generalizing s with
  | nil =>
    cases h
    exact (add_zero _).symm
  | cons e events ih =>
    rw [exec_cons] at h
    obtain ⟨s₁, hstep, hrest⟩ := Option.bind_eq_some_iff.mp h
    rw [ih hrest, step_now hstep, List.map_cons, List.sum_cons, add_assoc]

theorem elapsed_of_sets {s : State} {e : Event} {key text : String} {ttl : Int}
    (h : Sets sha256Hex estimateTokens s key text ttl e) : e.elapsed = 0 := by
  cases h <;> rfl

theorem lastSet_cons {s s' : State} {e : Event} {events : List Event} {key text : String}
    {ttl : Int} {age : ℚ} (h : step sha256Hex estimateTokens s e = some s') :
    LastSet sha256Hex estimateTokens s (e :: events) key text ttl age ↔
      (Sets sha256Hex estimateTokens s key text ttl e ∧
        AllSteps (step sha256Hex estimateTokens)
          (fun s e => ¬ Touches sha256Hex estimateTokens s key e) s' events ∧
        age = (events.map Event.elapsed).sum) ∨
      LastSet sha256Hex estimateTokens s' events key text ttl age := by
  constructor
  · rintro ⟨before, e', after, s₁, s₂, heq, hbefore, hstep, hset, hafter, hage⟩
    cases before with
    | nil =>
      cases hbefore
      obtain ⟨rfl, rfl⟩ := List.cons.inj heq
      obtain rfl : s₂ = s' := Option.some.inj (hstep.symm.trans h)
      exact Or.inl ⟨hset, hafter, hage⟩
    | cons b before =>
      obtain ⟨rfl, hrest⟩ := List.cons.inj heq
      rw [exec_cons, h, Option.bind_some] at hbefore
      exact Or.inr ⟨before, e', after, s₁, s₂, hrest, hbefore, hstep, hset, hafter, hage⟩
  · rintro (⟨hset, hafter, hage⟩ | ⟨before, e', after, s₁, s₂, rfl, hbefore, hrest⟩)
    · exact ⟨[], e, events, s, s', rfl, rfl, h, hset, hafter, hage⟩
    · refine ⟨e :: before, e', after, s₁, s₂, rfl, ?_, hrest⟩
      rw [exec_cons, h, Option.bind_some, hbefore]

/-- **Redis has what the last event that touched the key has left.** -/
theorem durable_iff {s s' : State} {events : List Event} {key : String} {entry : Entry}
    (h : exec (step sha256Hex estimateTokens) s events = some s') :
    s'.durable key = some entry ↔
      (AllSteps (step sha256Hex estimateTokens)
        (fun s e => ¬ Touches sha256Hex estimateTokens s key e) s events ∧
          s.durable key = some entry) ∨
      ∃ text ttl age, LastSet sha256Hex estimateTokens s events key text ttl age ∧
        entry = ⟨text, s'.now - age, max 1 ttl⟩ := by
  induction events generalizing s with
  | nil =>
    cases h
    refine ⟨fun hget => Or.inl ⟨trivial, hget⟩, ?_⟩
    rintro (⟨-, hget⟩ | ⟨text, ttl, age, ⟨before, e, after, -, -, heq, -⟩, -⟩)
    · exact hget
    · exact absurd heq.symm (List.append_ne_nil_of_right_ne_nil before (List.cons_ne_nil e after))
  | cons e events ih =>
    rw [exec_cons] at h
    obtain ⟨s₁, hstep, hrest⟩ := Option.bind_eq_some_iff.mp h
    rw [ih hrest, allSteps_cons_iff hstep]
    simp only [lastSet_cons hstep]
    by_cases htouch : Touches sha256Hex estimateTokens s key e
    · rcases htouch with rfl | ⟨text, ttl, hset⟩
      · -- the key is dropped: only what comes later counts
        cases hstep
        have hnone : ∀ text ttl, ¬ Sets sha256Hex estimateTokens s key text ttl (.evicted key) :=
          fun text ttl hset => by cases hset
        have htouched : Touches sha256Hex estimateTokens s key (.evicted key) := Or.inl rfl
        simp [htouched, hnone]
      · have hentry := durable_of_sets hstep hset
        have hnow : s'.now - (events.map Event.elapsed).sum = s.now := by
          rw [exec_now hrest, step_now hstep, elapsed_of_sets hset, add_zero,
            add_sub_cancel_right]
        have htouched : Touches sha256Hex estimateTokens s key e := Or.inr ⟨text, ttl, hset⟩
        rw [hentry]
        constructor
        · rintro (⟨hafter, heq⟩ | ⟨text', ttl', age, hlater, heq⟩)
          · refine Or.inr ⟨text, ttl, _, Or.inl ⟨hset, hafter, rfl⟩, ?_⟩
            rw [hnow]
            exact (Option.some.inj heq).symm
          · exact Or.inr ⟨text', ttl', age, Or.inr hlater, heq⟩
        · rintro (⟨⟨huntouched, -⟩, -⟩ | ⟨text', ttl', age, ⟨hset', hafter, rfl⟩ | hlater, heq⟩)
          · exact absurd htouched huntouched
          · refine Or.inl ⟨hafter, ?_⟩
            rw [heq, hnow, ← hentry]
            exact durable_of_sets hstep hset'
          · exact Or.inr ⟨text', ttl', age, hlater, heq⟩
    · have hunset : ∀ text ttl, ¬ Sets sha256Hex estimateTokens s key text ttl e :=
        fun text ttl hset => htouch (Or.inr ⟨text, ttl, hset⟩)
      rw [durable_of_untouched hstep htouch]
      simp [htouch, hunset]

/-- What Redis has of a key is told by the history. -/
theorem writtenFor_iff {now : ℚ} {s : State} {events : List Event} {key text : String} {ttl : Int}
    (h : exec (step sha256Hex estimateTokens) (start now) events = some s) :
    WrittenFor s key text ttl ↔
      ∃ (held : Int) (age : ℚ),
        LastSet sha256Hex estimateTokens (start now) events key text held age ∧
          age < (max 1 held : Int) ∧ age + ttl ≤ (max 1 held : Int) := by
  have hget : ∀ entry, s.durable key = some entry ↔ ∃ text held age,
      LastSet sha256Hex estimateTokens (start now) events key text held age ∧
        entry = ⟨text, s.now - age, max 1 held⟩ := by
    intro entry
    rw [durable_iff h]
    refine or_iff_right fun hold => ?_
    cases hold.2
  constructor
  · rintro ⟨entry, hentry, hvalue, hlasts⟩
    obtain ⟨hdurable, hlive⟩ := State.held_eq_some_iff.mp hentry
    obtain ⟨text', held, age, hlast, rfl⟩ := (hget entry).mp hdurable
    subst hvalue
    rw [Entry.expiresAt] at hlive
    dsimp only at hlive hlasts
    exact ⟨held, age, hlast, by linarith, by linarith⟩
  · rintro ⟨held, age, hlast, hlive, hlasts⟩
    refine ⟨⟨text, s.now - age, max 1 held⟩, State.held_eq_some_iff.mpr
      ⟨(hget _).mpr ⟨text, held, age, hlast, rfl⟩, ?_⟩, rfl, ?_⟩
    · rw [Entry.expiresAt]
      dsimp only
      linarith
    · dsimp only
      linarith

/-! ## 8. Runs -/

/-- **Every reference that goes out can be resolved for the configured time**, in exactly the
    histories in which a block that is found was last set with its text, and long enough. -/
theorem dependable_iff (sha256Hex : String → String) (estimateTokens : String → String → Nat)
    (now : ℚ) (events : List Event) :
    Always (step sha256Hex estimateTokens) Dependable (start now) events ↔
      ReferencesLast sha256Hex estimateTokens now events := by
  have hstart : Dependable (start now) := by
    intro ref href
    cases href
  rw [always_iff_allSteps (fun s e s' h hstep => dependable_step_iff h hstep) events hstart,
    allSteps_iff_prefixes]
  constructor
  · intro h before r message answers reply after s content heq hrun hoffered hlarge hmay hfound
    have hfresh := h before _ after s _ heq hrun rfl
    exact (writtenFor_iff hrun).mp (hfresh content hoffered hlarge hmay hfound)
  · intro h before e after s s' heq hrun hstep
    cases e with
    | message r message answers reply =>
      intro content hoffered hlarge hmay hfound
      exact (writtenFor_iff hrun).mpr
        (h before r message answers reply after s content heq hrun hoffered hlarge hmay hfound)
    | _ => trivial

/-- A block of 300 tokens. -/
def block : Json :=
  .obj [("role", .str "user"), ("content", .str (.ofList (List.replicate 1200 'x')))]

def blockSha : String := "802df553d545f05a32ffd87575566a89f9c2b2071478d86e71af2e52ac476dbb"

/-- A day after the block was written, one second short, another process reads it; two seconds
    later Redis has dropped it, and that process sends out a reference. -/
def danglingRun : List Event :=
  [.message { proc := 0, redisPrefix := "t:acme:", model := "claude", maySubstitute := false } block
      true .taken,
    .pass 86399, .retrieve 1 "t:acme:" blockSha true, .pass 2,
    .message { proc := 1, redisPrefix := "t:acme:", model := "claude", maySubstitute := true } block
      true .taken]

theorem not_dependable_dangling :
    ¬ Always (step (fun _ => blockSha) (fun _ _ => 300)) Dependable (start 0) danglingRun := by
  intro h
  have hheld : (exec (step (fun _ => blockSha) (fun _ _ => 300)) (start 0) danglingRun).map
      (fun s => s.refs.map Ref.held) = some [none] := by decide +kernel
  obtain ⟨s, hrun, hheld⟩ := Option.map_eq_some_iff.mp hheld
  obtain ⟨ref, hrefs, hnone⟩ := List.map_eq_singleton_iff.mp hheld
  obtain ⟨e, he, -⟩ := h.last hrun ref (by rw [hrefs]; exact List.mem_singleton_self ref)
  rw [hnone] at he
  cases he

end TokenProxy.Ccr
