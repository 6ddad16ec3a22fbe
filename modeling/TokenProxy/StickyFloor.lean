/-
  TokenProxy/StickyFloor.lean
  ===========================
  **The sticky floor under learned output caps** (`g11_output_format.py`).

  G11 caps an answer at a percentile of what the bucket's answers took.  When a cap of its own
  cut an answer it raises the bucket's floor, by a script that Redis runs in one piece, and no
  later percentile may put the cap back below the floor.  A request's cap is chosen in several
  ways, and the limit of the model it calls bounds every one of them.

  A run is what any number of workers do, with the time that passes between.  Where Redis
  refuses the script the step is not there.  Numbers are exact: that a Lua number is a double,
  and the text of one, is left out.

  Main result: `floor_rises`, the floor never falls while it lives, and a cap chosen after a
  truncation is higher than the one that cut, or the model's limit.
-/
import TokenProxy.Execution
import TokenProxy.KeyStore
import TokenProxy.ReplaceFirst
import Mathlib.Algebra.Order.Field.Rat
import Mathlib.Algebra.Order.Ring.Rat
import Mathlib.Data.Rat.Floor

namespace TokenProxy.OutputCap

open Execution (Always exec exec_cons)

/-! ## 1. The floor in Redis -/

/-- What a floor key holds: a number, or a text that is none. -/
structure Entry where
  number : Option Int
  expiresAt : ℚ
deriving DecidableEq

structure State where
  now : ℚ
  floors : String → Option Entry

def State.live (s : State) (key : String) : Option Entry :=
  (s.floors key).filter fun e => decide (s.now < e.expiresAt)

def State.put (s : State) (key : String) (e : Option Entry) : State :=
  { s with floors := Function.update s.floors key e }

/-- `EXPIRE key ttl`, of a key with this number; no time to live deletes it. -/
def State.expire (s : State) (key : String) (number : Int) (ttl : Int) : State :=
  s.put key (if 0 < ttl then some ⟨some number, s.now + ttl⟩ else none)

/-- `_FLOOR_CAS_LUA`; Redis refuses a `SET` with no time to live. -/
def floorCas (key : String) (want ttl : Int) (s : State) : Option State :=
  let set := if 0 < ttl then some (s.put key (some ⟨some want, s.now + ttl⟩)) else none
  match (s.live key).bind Entry.number with
  | some current => if want ≤ current then some (s.expire key current ttl) else set
  | none => set

/-- What `_get_sticky_floor` says. -/
inductive FloorRead where
  | unreadable
  | absent
  | floor (value : Int)
deriving DecidableEq

def getStickyFloor (s : State) (readable : Bool) (key : String) : FloorRead :=
  if !readable then .unreadable
  else
    match (s.live key).bind Entry.number with
    | some value => if 0 < value then .floor value else .absent
    | none => .absent

/-! ## 2. Buckets and caps -/

/-- What else the interpreter brings. -/
structure Py where
  str : Json → String
  lower : String → String
  sha256Hex : String → String
  /-- `str.isalnum` of one character -/
  isAlnum : Char → Bool

abbrev Params := Dict String Json

def param (params : Params) (key : String) : Json := (params.get? key).getD .null

/-- G11's settings. -/
structure Settings where
  enabled : Bool := false
  enforceMaxTokens : Bool := true
  skipForReasoning : Bool := true
  autoTighten : Bool := false
  tightenMultiplier : ℚ := 2
  fallbackMaxTokens : Json := .null
  defaultModelMaxTokens : Int := 4096
  modelMaxTokens : List (String × Int) := []
  feedbackLoop : Bool := false
  truncationBackoff : ℚ := 2
  historyTtlDays : ℚ := 7

/-- What G11 reads of a request. -/
structure Call where
  redisPrefix : String
  params : Params
  model : String
  routedModel : String
  inHoldout : Bool
  supportsReasoning : Bool

def maxBucketIdChars : Nat := 48

/-- `_bucket_tag` -/
def bucketTag (py : Py) (value : Json) : String :=
  let text := py.str value
  if text.length ≤ maxBucketIdChars &&
      text.toList.all (fun c => py.isAlnum c || c = '-' || c = '_' || c = '.') then text
  else .ofList ((py.sha256Hex text).toList.take 16)

def bucketId (params : Params) (name : String) : Json :=
  ((param params name).orElse (param params ("x_" ++ name))).orElse (.str "default")

/-- `_history_key` -/
def historyKey (py : Py) (r : Call) : Option String :=
  let workflowId := bucketId r.params "workflow_id"
  let templateId := bucketId r.params "template_id"
  if workflowId = .str "default" && templateId = .str "default" then none
  else some (r.redisPrefix ++ "tok_opt:max_tokens_history:" ++ bucketTag py workflowId ++ ":" ++
    bucketTag py templateId)

/-- `_floor_key` -/
def floorKey (historyKey : String) : String :=
  .ofList (TextReplace.replaceFirst "tok_opt:max_tokens_history:".toList
    "tok_opt:max_tokens_floor:".toList historyKey.toList)

/-- `_get_model_max_tokens` -/
def getModelMaxTokens (model : String) (cfg : Settings) : Int :=
  if model = "" then cfg.defaultModelMaxTokens
  else
    match Assoc.lookup model cfg.modelMaxTokens with
    | some limit => limit
    | none =>
      match cfg.modelMaxTokens.find? fun e => e.1.toList.isPrefixOf model.toList with
      | some e => e.2
      | none => cfg.defaultModelMaxTokens

/-- `int(q)` -/
def pyInt (q : ℚ) : Int := if 0 ≤ q then ⌊q⌋ else ⌈q⌉

def isStreaming (py : Py) (params : Params) : Bool :=
  match param params "stream" with
  | .str text => decide (py.lower (KeyStore.strip text) ∈ ["true", "1", "yes"])
  | value => value.truthy

inductive Cap where
  | unset
  | tightened (cap : Int)
  | fallback (cap : Int)
deriving DecidableEq

def minSaneCap : Int := 64

/-- The model that the request calls. -/
def Call.limit (r : Call) (cfg : Settings) : Int :=
  getModelMaxTokens (if r.routedModel = "" then r.model else r.routedModel) cfg

/-- What the lookups of `process_request` come to: the percentile, and the floor; the second is
    unreadable where either raises. -/
structure Lookup where
  historicalP95 : Option Int
  stickyFloor : FloorRead

def raiseToFloor (cap : Int) : FloorRead → Int
  | .floor value => max cap value
  | _ => cap

def fallbackCap (cfg : Settings) (limit : Int) : Cap :=
  match cfg.fallbackMaxTokens with
  | .int cap => if 0 < cap then .fallback (min cap limit) else .unset
  | _ => .unset

/-- The cap that a percentile gives, under the floor and the limit. -/
def percentileCap (cfg : Settings) (limit : Int) (look : Lookup) : Cap :=
  match look.stickyFloor, look.historicalP95 with
  | .unreadable, _ => fallbackCap cfg limit
  | _, none => fallbackCap cfg limit
  | floor, some p95 =>
    if p95 = 0 then fallbackCap cfg limit
    else
      let cap := min (raiseToFloor (pyInt (p95 * cfg.tightenMultiplier)) floor) limit
      if cap < minSaneCap then .unset else .tightened cap

/-- `process_request`, its first section. -/
def chooseCap (py : Py) (cfg : Settings) (r : Call) (look : Lookup) : Cap :=
  if !cfg.enabled || !cfg.enforceMaxTokens || r.inHoldout then .unset
  else if cfg.skipForReasoning && r.supportsReasoning then .unset
  else if param r.params "max_tokens" = .null && (r.params.get? "max_completion_tokens").isNone then
    if cfg.autoTighten && !isStreaming py r.params && (historyKey py r).isSome then
      percentileCap cfg (r.limit cfg) look
    else fallbackCap cfg (r.limit cfg)
  else .unset

/-- The lookups of a request, in this state of Redis. -/
def lookUp (py : Py) (s : State) (readable : Bool) (p95 : Option Int) (r : Call) : Lookup where
  historicalP95 := p95
  stickyFloor :=
    match historyKey py r with
    | some key => getStickyFloor s readable (floorKey key)
    | none => .absent

/-! ## 3. Feedback -/

/-- An answer as `process_response` meets it; `withheld` says that validation blocked it. -/
structure Answer where
  finishReason : Json
  completionTokens : Int
  withheld : Bool := false

/-- The cap that G11 gave the request, if it is one that can cut. -/
def Cap.value : Cap → Option Int
  | .unset => none
  | .tightened cap => if cap = 0 then none else some cap
  | .fallback cap => if cap = 0 then none else some cap

/-- The floor that a cut answer raises its bucket to. -/
def raisedFloor (cfg : Settings) (cap : Int) : Int := pyInt (cap * max 1 cfg.truncationBackoff)

def ttlSeconds (cfg : Settings) : Int := pyInt (cfg.historyTtlDays * 86400)

/-- The raise that `process_response` asks for: the key, the floor and its time to live. -/
def feedback (py : Py) (cfg : Settings) (r : Call) (cap : Cap) (a : Answer) :
    Option (String × Int × Int) :=
  if !cfg.enabled || a.withheld || !cfg.feedbackLoop then none
  else if a.completionTokens = 0 || !cfg.autoTighten then none
  else
    match historyKey py r, cap.value with
    | some key, some maxTokens =>
      if a.finishReason = .str "length" then
        some (floorKey key, raisedFloor cfg maxTokens, ttlSeconds cfg)
      else none
    | _, _ => none

inductive Event where
  | pass (seconds : ℚ)
  /-- some worker raises a floor -/
  | raise (key : String) (want ttl : Int)
  /-- some worker sees the answer to a request that it capped -/
  | answer (cfg : Settings) (r : Call) (cap : Cap) (a : Answer)

def step (py : Py) (s : State) : Event → Option State
  | .pass seconds => if 0 ≤ seconds then some { s with now := s.now + seconds } else none
  | .raise key want ttl => floorCas key want ttl s
  | .answer cfg r cap a =>
    match feedback py cfg r cap a with
    | some (key, want, ttl) => floorCas key want ttl s
    | none => some s

/-! ## 4. The floor never falls -/

def floorAt (s : State) (key : String) : Option Int := (s.live key).bind Entry.number

/-- The key has not expired. -/
def Alive (key : String) (s : State) : Prop := (s.live key).isSome = true

instance (key : String) (s : State) : Decidable (Alive key s) :=
  inferInstanceAs (Decidable ((s.live key).isSome = true))

theorem live_eq_some_iff {s : State} {key : String} {e : Entry} :
    s.live key = some e ↔ s.floors key = some e ∧ s.now < e.expiresAt := by
  rw [State.live, Option.filter_eq_some_iff, decide_eq_true_eq]

theorem live_put_of_ne {s : State} {key other : String} (hne : other ≠ key) (e : Option Entry) :
    (s.put key e).live other = s.live other := by
  rw [State.live, State.put, State.live]
  simp only [Function.update_of_ne hne]

theorem live_put (s : State) (key : String) (number : Int) {ttl : Int} (h : 0 < ttl) :
    (s.put key (some ⟨some number, s.now + ttl⟩)).live key =
      some ⟨some number, s.now + ttl⟩ := by
  have hpos : (0 : ℚ) < (ttl : ℚ) := by exact_mod_cast h
  refine live_eq_some_iff.mpr ⟨Function.update_self _ _ _, ?_⟩
  exact lt_add_of_pos_right s.now hpos

theorem live_put_none (s : State) (key : String) : (s.put key none).live key = none := by
  rw [State.live, State.put]
  simp only [Function.update_self, Option.filter_none]

/-- **The script** touches its key only, and leaves there, unless it deletes it, a floor no
    lower than the one it was asked for and the one it found. -/
theorem floorCas_spec {key : String} {want ttl : Int} {s s' : State}
    (h : floorCas key want ttl s = some s') :
    (∀ other, other ≠ key → s'.live other = s.live other) ∧
      (s'.live key = none ∨ ∃ n, floorAt s' key = some n ∧ want ≤ n ∧
        ∀ v, floorAt s key = some v → v ≤ n) := by
  have hset : ∀ s' : State,
      (if 0 < ttl then some (s.put key (some ⟨some want, s.now + ttl⟩)) else none) = some s' →
      (∀ v, floorAt s key = some v → v ≤ want) →
      (∀ other, other ≠ key → s'.live other = s.live other) ∧
        (s'.live key = none ∨ ∃ n, floorAt s' key = some n ∧ want ≤ n ∧
          ∀ v, floorAt s key = some v → v ≤ n) := by
    intro s' hput hlow
    split at hput
    · rename_i hpos
      cases hput
      refine ⟨fun other hne => live_put_of_ne hne _, Or.inr ⟨want, ?_, Int.le_refl _, hlow⟩⟩
      rw [floorAt, live_put s key want hpos]
      rfl
    · cases hput
  rw [floorCas] at h
  cases hcurrent : (s.live key).bind Entry.number with
  | none =>
    rw [hcurrent] at h
    apply hset s' h
    intro v hv
    rw [floorAt, hcurrent] at hv
    cases hv
  | some current =>
    rw [hcurrent] at h
    have hfound : ∀ v, floorAt s key = some v → v = current := by
      intro v hv
      rw [floorAt, hcurrent] at hv
      exact (Option.some.inj hv).symm
    simp only at h
    split at h
    · rename_i hle
      cases h
      refine ⟨fun other hne => live_put_of_ne hne _, ?_⟩
      rw [State.expire]
      by_cases hpos : 0 < ttl
      · right
        refine ⟨current, ?_, hle, fun v hv => (hfound v hv).le⟩
        rw [if_pos hpos, floorAt, live_put s key current hpos]
        rfl
      · left
        rw [if_neg hpos]
        exact live_put_none s key
    · rename_i hnle
      apply hset s' h
      intro v hv
      rw [hfound v hv]
      omega

theorem floorCas_step {key other : String} {want ttl : Int} {s s' : State}
    (h : floorCas other want ttl s = some s') {v : Int} (hfloor : floorAt s key = some v)
    (halive : Alive key s') : ∃ v', floorAt s' key = some v' ∧ v ≤ v' := by
  obtain ⟨hother, hkey⟩ := floorCas_spec h
  by_cases hsame : key = other
  · subst hsame
    rcases hkey with hgone | ⟨n, hn, -, hge⟩
    · rw [Alive, hgone] at halive
      cases halive
    · exact ⟨n, hn, hge v hfloor⟩
  · refine ⟨v, ?_, Int.le_refl v⟩
    rw [floorAt, hother key hsame]
    exact hfloor

/-- **One step** does not lower a floor that is still there after it. -/
theorem floor_step {py : Py} {s s' : State} {e : Event} (hstep : step py s e = some s')
    {key : String} {v : Int} (hfloor : floorAt s key = some v) (halive : Alive key s') :
    ∃ v', floorAt s' key = some v' ∧ v ≤ v' := by
  cases e with
  | pass seconds =>
    rw [step] at hstep
    split at hstep
    · cases hstep
      obtain ⟨e, he⟩ := Option.isSome_iff_exists.mp halive
      obtain ⟨old, hold, hnumber⟩ := Option.bind_eq_some_iff.mp hfloor
      -- time alone changes no entry
      have hentry : s.floors key = some e := (live_eq_some_iff.mp he).1
      have hsame : old = e := by
        rw [(live_eq_some_iff.mp hold).1] at hentry
        exact Option.some.inj hentry
      refine ⟨v, ?_, Int.le_refl v⟩
      rw [floorAt, he, ← hsame]
      exact hnumber
    · cases hstep
  | raise other want ttl => exact floorCas_step hstep hfloor halive
  | answer cfg r cap a =>
    rw [step] at hstep
    cases hraise : feedback py cfg r cap a with
    | none =>
      rw [hraise] at hstep
      cases hstep
      exact ⟨v, hfloor, Int.le_refl v⟩
    | some raise =>
      obtain ⟨other, want, ttl⟩ := raise
      rw [hraise] at hstep
      exact floorCas_step hstep hfloor halive

/-- A floor is no lower after a run throughout which its key lives. -/
theorem floor_run {py : Py} {s s' : State} {events : List Event}
    (hrun : exec (step py) s events = some s') {key : String} {v : Int}
    (hfloor : floorAt s key = some v) (halive : Always (step py) (Alive key) s events) :
    ∃ v', floorAt s' key = some v' ∧ v ≤ v' := by
  induction events generalizing s v with
  | nil =>
    cases hrun
    exact ⟨v, hfloor, Int.le_refl v⟩
  | cons e events ih =>
    rw [exec_cons] at hrun
    obtain ⟨mid, hstep, hrest⟩ := Option.bind_eq_some_iff.mp hrun
    have hlater := halive.2 mid hstep
    obtain ⟨w, hw, hvw⟩ := floor_step hstep hfloor hlater.head
    obtain ⟨v', hv', hwv⟩ := ih hrest hw hlater
    exact ⟨v', hv', Int.le_trans hvw hwv⟩

/-! ## 5. The next cap -/

theorem fallbackCap_ne (cfg : Settings) (limit cap : Int) :
    fallbackCap cfg limit ≠ .tightened cap := by
  rw [fallbackCap]
  split
  · split
    · intro hcap
      cases hcap
    · intro hcap
      cases hcap
  · intro hcap
    cases hcap

/-- What a percentile's cap is. -/
theorem percentileCap_spec {cfg : Settings} {limit : Int} {look : Lookup} {cap : Int}
    (h : percentileCap cfg limit look = .tightened cap) :
    look.stickyFloor ≠ .unreadable ∧ minSaneCap ≤ cap ∧
      ∃ estimate, cap = min (raiseToFloor estimate look.stickyFloor) limit := by
  unfold percentileCap at h
  split at h
  · exact absurd h (fallbackCap_ne _ _ _)
  · exact absurd h (fallbackCap_ne _ _ _)
  · rename_i hreadable
    split at h
    · exact absurd h (fallbackCap_ne _ _ _)
    · simp only at h
      split at h
      · cases h
      · rename_i hsane
        cases h
        exact ⟨hreadable, Int.not_lt.mp hsane, _, rfl⟩

theorem tightened_spec {py : Py} {cfg : Settings} {r : Call} {look : Lookup} {cap : Int}
    (h : chooseCap py cfg r look = .tightened cap) :
    look.stickyFloor ≠ .unreadable ∧ minSaneCap ≤ cap ∧
      ∃ estimate, cap = min (raiseToFloor estimate look.stickyFloor) (r.limit cfg) := by
  rw [chooseCap] at h
  split at h
  · cases h
  · split at h
    · cases h
    · split at h
      · split at h
        · exact percentileCap_spec h
        · exact absurd h (fallbackCap_ne _ _ _)
      · cases h

/-- A cut answer, seen by the feedback, leaves its bucket's floor at least where it raises it. -/
theorem floor_of_answer {py : Py} {s s' : State} {cfg : Settings} {r : Call} {cap : Cap}
    {a : Answer} {key : String} {want ttl : Int}
    (hseen : feedback py cfg r cap a = some (key, want, ttl))
    (hstep : step py s (.answer cfg r cap a) = some s') (halive : Alive key s') :
    ∃ v, floorAt s' key = some v ∧ want ≤ v := by
  rw [step, hseen] at hstep
  rcases (floorCas_spec hstep).2 with hgone | ⟨n, hn, hge, -⟩
  · rw [Alive, hgone] at halive
    cases halive
  · exact ⟨n, hn, hge⟩

theorem feedback_tightened {py : Py} {cfg : Settings} {r : Call} {c : Int} {a : Answer}
    {raise : String × Int × Int} (h : feedback py cfg r (.tightened c) a = some raise) :
    ∃ key, historyKey py r = some key ∧
      raise = (floorKey key, raisedFloor cfg c, ttlSeconds cfg) := by
  rw [feedback] at h
  split at h
  · cases h
  · split at h
    · cases h
    · split at h
      · rename_i key maxTokens hkey hvalue
        rw [Cap.value] at hvalue
        split at hvalue
        · cases hvalue
        · cases hvalue
          split at h
          · cases h
            exact ⟨key, hkey, rfl⟩
          · cases h
      · cases h

/-- A cap chosen with the floor of a cut answer before it. -/
theorem cap_after_cut {py : Py} {s : State} {cfg : Settings} {r : Call} {readable : Bool}
    {p95 : Option Int} {key : String} {c c' v : Int} (hkey : historyKey py r = some key)
    (hfloor : floorAt s (floorKey key) = some v) (hc : 0 < c) (hv : c < v)
    (h : chooseCap py cfg r (lookUp py s readable p95 r) = .tightened c') :
    (c < r.limit cfg → c < c') ∧ (r.limit cfg ≤ c → c' = r.limit cfg) := by
  have hread : (lookUp py s readable p95 r).stickyFloor =
      if readable then .floor v else .unreadable := by
    have hpos : 0 < v := by omega
    rw [floorAt] at hfloor
    simp only [lookUp, hkey, getStickyFloor, hfloor, hpos, if_true]
    cases readable with
    | false => rfl
    | true => rfl
  obtain ⟨hreadable, -, estimate, hcap⟩ := tightened_spec h
  cases readable with
  | false => exact absurd hread hreadable
  | true =>
    rw [hread] at hcap
    simp only [if_true, raiseToFloor] at hcap
    constructor
    · intro hlimit
      omega
    · intro hlimit
      omega

/-- **The floor never falls while it lives**, in whatever order workers raise it; and after an
    answer that was cut at a cap, every cap that a percentile gives its bucket while the floor
    lives is higher, where the model's limit is, and is that limit where it is not. -/
theorem floor_rises (py : Py) :
    (∀ (s s' : State) (events : List Event) (key : String) (v : Int),
      exec (step py) s events = some s' → floorAt s key = some v →
        Always (step py) (Alive key) s events → ∃ v', floorAt s' key = some v' ∧ v ≤ v') ∧
      ∀ (s s₁ s₂ : State) (cfg cfg₁ cfg₂ : Settings) (r r₂ : Call) (look : Lookup) (c c₂ : Int)
        (a : Answer) (later : List Event) (readable : Bool) (p95 : Option Int)
        (raise : String × Int × Int),
        chooseCap py cfg r look = .tightened c →
        feedback py cfg₁ r (.tightened c) a = some raise →
        c < raisedFloor cfg₁ c →
        step py s (.answer cfg₁ r (.tightened c) a) = some s₁ →
        exec (step py) s₁ later = some s₂ →
        Always (step py) (Alive raise.1) s₁ later →
        historyKey py r₂ = historyKey py r →
        chooseCap py cfg₂ r₂ (lookUp py s₂ readable p95 r₂) = .tightened c₂ →
          (c < r₂.limit cfg₂ → c < c₂) ∧ (r₂.limit cfg₂ ≤ c → c₂ = r₂.limit cfg₂) := by
  refine ⟨fun s s' events key v hrun hfloor halive => floor_run hrun hfloor halive, ?_⟩
  intro s s₁ s₂ cfg cfg₁ cfg₂ r r₂ look c c₂ a later readable p95 raise hchosen hseen hgrows hstep
    hrun halive hbucket hnext
  obtain ⟨key, hkey, rfl⟩ := feedback_tightened hseen
  obtain ⟨v, hv, hraised⟩ := floor_of_answer hseen hstep halive.head
  obtain ⟨w, hw, hvw⟩ := floor_run hrun hv halive
  have hpos : 0 < c := lt_of_lt_of_le (by decide) (tightened_spec hchosen).2.1
  exact cap_after_cut (hbucket.trans hkey) hw hpos (by omega) hnext

/-! ## 6. Two buckets -/

def plainPy : Py where
  str value := (value.str?).getD ""
  lower text := text
  sha256Hex _ := ""
  isAlnum c := c.isAlphanum

def learning : Settings where
  enabled := true
  autoTighten := true
  feedbackLoop := true

def call (params : List (String × Json)) : Call where
  redisPrefix := "t:acme:"
  params := params.foldl (fun d f => d.set f.1 f.2) ∅
  model := "gpt-4o-mini"
  routedModel := ""
  inHoldout := false
  supportsReasoning := false

def report : Call := call [("workflow_id", .str "report")]

def cut : Answer where
  finishReason := .str "length"
  completionTokens := 200

def empty : State := ⟨0, fun _ => none⟩

def reportFloor : String := "t:acme:tok_opt:max_tokens_floor:report:default"

/-- The floor after an answer cut at this cap. -/
def afterCut (cap : Int) : State :=
  empty.put reportFloor (some ⟨some (2 * cap), 604800⟩)

theorem step_cut {cap : Int}
    (hseen : feedback plainPy learning report (.tightened cap) cut =
      some (reportFloor, 2 * cap, 604800)) :
    step plainPy empty (.answer learning report (.tightened cap) cut) = some (afterCut cap) := by
  rw [step, hseen]
  change (if (0 : Int) < 604800 then some (empty.put reportFloor
    (some ⟨some (2 * cap), 0 + ((604800 : Int) : ℚ)⟩)) else none) = some (afterCut cap)
  rw [if_pos (by decide), zero_add]
  rfl

/-- An answer cut at the limit of its model: the floor is twice the limit, and the next cap is
    the limit again. -/
theorem not_higher_at_limit :
    ¬ ∀ (s s₁ : State) (cfg : Settings) (r : Call) (look : Lookup) (c c₂ : Int) (a : Answer)
        (readable : Bool) (p95 : Option Int) (raise : String × Int × Int),
        chooseCap plainPy cfg r look = .tightened c →
        feedback plainPy cfg r (.tightened c) a = some raise →
        c < raisedFloor cfg c →
        step plainPy s (.answer cfg r (.tightened c) a) = some s₁ → Alive raise.1 s₁ →
        chooseCap plainPy cfg r (lookUp plainPy s₁ readable p95 r) = .tightened c₂ → c < c₂ := by
  intro h
  have hseen : feedback plainPy learning report (.tightened 4096) cut =
      some (reportFloor, 8192, 604800) := by decide +kernel
  have hlt := h empty (afterCut 4096) learning report ⟨some 3000, .absent⟩ 4096 4096 cut true
    (some 3000) _ (by decide +kernel) hseen (by decide +kernel) (step_cut hseen) (by decide +kernel)
    (by decide +kernel)
  exact absurd hlt (by decide)

/-- An hour later another worker raises the floor, and a minute passes. -/
def raisedLater : List Event := [.pass 3600, .raise reportFloor 1000 604800, .pass 60]

def afterRaise : State := (exec (step plainPy) (afterCut 200) raisedLater).getD empty

theorem exec_raisedLater :
    exec (step plainPy) (afterCut 200) raisedLater = some afterRaise := by
  have hruns : (exec (step plainPy) (afterCut 200) raisedLater).isSome = true := by
    decide +kernel
  obtain ⟨s, hs⟩ := Option.isSome_iff_exists.mp hruns
  rw [afterRaise, hs]
  rfl

theorem alive_raisedLater :
    Always (step plainPy) (Alive reportFloor) (afterCut 200) raisedLater := by
  decide +kernel

theorem floor_rises_report :
    (∃ v', floorAt afterRaise reportFloor = some v' ∧ 400 ≤ v') ∧
      ((200 < report.limit learning → 200 < (1000 : Int)) ∧
        (report.limit learning ≤ 200 → 1000 = report.limit learning)) := by
  have hseen : feedback plainPy learning report (.tightened 200) cut =
      some (reportFloor, 400, 604800) := by decide +kernel
  constructor
  · exact (floor_rises plainPy).1 _ _ raisedLater reportFloor 400 exec_raisedLater
      (by decide +kernel) alive_raisedLater
  · exact (floor_rises plainPy).2 empty (afterCut 200) afterRaise learning learning learning
      report report ⟨some 100, .absent⟩ 200 1000 cut raisedLater true (some 100) _
      (by decide +kernel) hseen (by decide +kernel) (step_cut hseen) exec_raisedLater
      alive_raisedLater rfl (by decide +kernel)

end TokenProxy.OutputCap
