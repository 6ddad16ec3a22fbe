/-
  TokenProxy/ToolMarks.lean
  =========================
  **Which registry tools are hidden from the model, and for how long.**

  Source: `middleware/g08_tool_loading.py` (`ScheduledToolPruning`, `_prune_candidate`,
  `record_called_tools`), for one tenant.

  Requests record the tools they offer and the tools the model called; scheduled passes, of any
  replica, read these records one tool after the other and then mark the tools that the model has
  stopped calling.  Between two steps anything may happen: the clock moves, other requests record,
  a request that names a tool lifts its mark, another pass begins.  A command on the lock may raise
  before or after the store applies it.  A pipelined round trip is one step, all of it or nothing,
  and the time that it writes is read in the same step.  The log of what was recorded is read by
  no branch.

  Main result: `hidden_unused`, in every run a tool that is hidden was marked within the window,
  after a pass had looked at it when the model had not called it for the whole window.
-/
import TokenProxy.Execution
import TokenProxy.ExpiringKeys
import Mathlib.Algebra.Order.Ring.Rat
import Mathlib.Tactic.Linarith

namespace TokenProxy.ToolMarks

open Execution ExpiringKeys

/-! ## 1. Records and marks -/

structure Settings where
  /-- `_tool_usage_ttl_days()` -/
  usageTtlDays : ℤ
  /-- `_inactivity_threshold_days()` -/
  inactivityDays : ℤ

def seconds (days : ℤ) : ℚ := days * 86400

def Settings.window (cfg : Settings) : ℚ := seconds cfg.inactivityDays

/-- The usage record of a tool. -/
structure Usage where
  lastUsed : Option ℚ := none
  firstSeen : Option ℚ := none
  lastCalled : Option ℚ := none

/-- `_prune_candidate`. -/
def pruneCandidate (record : Option Usage) (now : ℚ) (days : ℤ) : Bool :=
  match record with
  | some ⟨some offered, some first, called⟩ =>
    decide (seconds days ≤ now - first) && decide (now - offered ≤ seconds days) &&
      decide (seconds days < now - called.getD 0)
  | _ => false

/-- What is recorded, with its time. -/
inductive Event where
  | offered (name : String) (time : ℚ)
  | called (name : String) (time : ℚ)
  /-- a pass reads the record of a tool -/
  | looked (name : String) (time : ℚ)
  | hidden (name : String) (time : ℚ)

def Event.time : Event → ℚ
  | .offered _ time | .called _ time | .looked _ time | .hidden _ time => time

/-- How far a pass is. -/
inductive Phase where
  | looking
  /-- it has set its marks, and deletes its lock -/
  | marked
  /-- a command raised, and the handler deletes the lock -/
  | raised
deriving DecidableEq

/-- A pass in flight: the tools it has not looked at yet, and those it found. -/
structure Pass where
  dryRun : Bool
  registryTools : List String
  inactive : List String
  begun : ℚ
  phase : Phase := .looking

structure State (τ : Type) where
  clock : ℚ
  usage : Store String Usage ℚ
  /-- the marks, with `pruned_at` -/
  marks : Store String ℚ ℚ
  lock : Store Unit ℚ ℚ
  passes : τ → Option Pass
  log : List Event

def State.start (τ : Type) (clock : ℚ) : State τ where
  clock := clock
  usage := fun _ => none
  marks := fun _ => none
  lock := fun _ => none
  passes := fun _ => none
  log := []

/-! ## 2. What is done to them -/

section Operations

variable {τ : Type} (cfg : Settings)

/-- `HSET last_used`, `HSETNX first_seen`. -/
def Usage.offer (now : ℚ) (usage : Option Usage) : Usage :=
  let usage := usage.getD {}
  { usage with lastUsed := some now, firstSeen := some (usage.firstSeen.getD now) }

/-- `HSET last_called`. -/
def Usage.call (now : ℚ) (usage : Option Usage) : Usage :=
  { usage.getD {} with lastCalled := some now }

/-- The record is made anew from what is there, and expires after `tool_usage_ttl_days`. -/
def State.record (s : State τ) (name : String) (f : Option Usage → Usage) (e : Event) : State τ :=
  { s with
    usage := (s.usage.update s.clock name f).expire s.clock name (seconds cfg.usageTtlDays)
    log := e :: s.log }

def State.offer (s : State τ) (name : String) : State τ :=
  s.record cfg name (Usage.offer s.clock) (.offered name s.clock)

def State.call (s : State τ) (name : String) : State τ :=
  s.record cfg name (Usage.call s.clock) (.called name s.clock)

/-- `record_tool_usage`. -/
def recordToolUsage (s : State τ) (toolNames : List String) : State τ :=
  toolNames.foldl (State.offer cfg) s

/-- `record_called_tools`, for a request that offered these. -/
def recordCalledTools (s : State τ) (offered names : List String) : State τ :=
  (names.filter offered.contains).foldl (State.call cfg) s

/-- `clear_pruned`. -/
def clearPruned (s : State τ) (toolNames : List String) : State τ :=
  { s with marks := fun name => if name ∈ toolNames then none else s.marks name }

/-- `pruned_tools`. -/
def prunedTools (s : State τ) (toolNames : List String) : List String :=
  toolNames.filter fun name => (s.marks.get s.clock name).isSome

/-- `should_prune_tool`. -/
def shouldPruneTool (s : State τ) (name : String) : Bool :=
  pruneCandidate (s.usage.get s.clock name) s.clock cfg.inactivityDays

/-- `HDEL first_seen`. -/
def Usage.forget (entry : Entry Usage ℚ) : Entry Usage ℚ :=
  { entry with value := { entry.value with firstSeen := none } }

/-- The commands of a pass for a tool it found. -/
def State.hide (s : State τ) (name : String) : State τ :=
  { s with
    marks := (s.marks.update s.clock name fun _ => s.clock).expire s.clock name cfg.window
    usage := Function.update s.usage name ((s.usage name).map Usage.forget)
    log := .hidden name s.clock :: s.log }

/-- A pass reads the record of a tool, if the store answers. -/
def State.look (s : State τ) (name : String) (answered : Bool) : State τ :=
  { s with log := if answered then .looked name s.clock :: s.log else s.log }

/-- A pass moves on, or is over. -/
def State.withPass [DecidableEq τ] (s : State τ) (i : τ) (pass : Option Pass) : State τ :=
  { s with passes := Function.update s.passes i pass }

/-- `DEL` of the lock, if it is applied. -/
def State.unlock (s : State τ) (applied : Bool) : State τ :=
  { s with lock := if applied then fun _ => none else s.lock }

/-- `ex` of the lock. -/
def lockSeconds : ℚ := 3600

/-- `SET nx ex` of the lock. -/
def State.acquire (s : State τ) : State τ :=
  { s with lock := s.lock.set s.clock () s.clock lockSeconds }

end Operations

/-! ## 3. Steps -/

inductive Label (τ : Type) where
  | tick (d : ℚ)
  /-- a request records the tools it offers -/
  | offer (toolNames : List String)
  /-- an answer calls some of the tools that its request offered -/
  | answer (offered names : List String)
  /-- a request names tools that are marked -/
  | named (toolNames : List String)
  | begin (i : τ) (dryRun : Bool) (registryTools : List String)
  /-- the `SET` of the lock raises, applied or not -/
  | beginRaises (i : τ) (applied : Bool)
  /-- a pass looks at its next tool; the store answers or not -/
  | check (i : τ) (answered : Bool)
  /-- a pass has looked at all its tools, and sets its marks -/
  | conclude (i : τ)
  /-- the pass deletes its lock; the store answers or not -/
  | finish (i : τ) (answered : Bool)
  /-- something of the pass raises, and nothing of it is applied -/
  | fail (i : τ)
  /-- the handler deletes the lock, unless that fails -/
  | release (i : τ) (deleted : Bool)

section Steps

variable {τ : Type} [DecidableEq τ] (cfg : Settings)

/-- The pass after it has looked at the tool. -/
def Pass.found (s : State τ) (pass : Pass) (name : String) (rest : List String)
    (answered : Bool) : Pass :=
  { pass with
    registryTools := rest
    inactive := if answered && shouldPruneTool cfg s name then pass.inactive ++ [name]
      else pass.inactive }

/-- The marks of a pass, if it sets any. -/
def State.conclude (s : State τ) (pass : Pass) : State τ :=
  if pass.dryRun then s else pass.inactive.foldl (State.hide cfg) s

def step (s : State τ) : Label τ → Option (State τ)
  | .tick d => if 0 ≤ d then some { s with clock := s.clock + d } else none
  | .offer toolNames => some (recordToolUsage cfg s toolNames)
  | .answer offered names => some (recordCalledTools cfg s offered names)
  | .named toolNames => some (clearPruned s toolNames)
  | .begin i dryRun registryTools =>
    if (s.passes i).isSome then none
    else if (s.lock.get s.clock ()).isSome then some s  -- `already_running`
    else some (s.acquire.withPass i (some ⟨dryRun, registryTools, [], s.clock, .looking⟩))
  | .beginRaises i applied =>
    if (s.passes i).isSome then none
    else
      let s' := if applied && !(s.lock.get s.clock ()).isSome then s.acquire else s
      some (s'.withPass i (some ⟨false, [], [], s.clock, .raised⟩))
  | .check i answered =>
    match s.passes i with
    | some pass =>
      match pass.phase, pass.registryTools with
      | .looking, name :: rest =>
        some ((s.look name answered).withPass i (some (pass.found cfg s name rest answered)))
      | _, _ => none
    | none => none
  | .conclude i =>
    ((s.passes i).filter fun pass =>
      decide (pass.phase = .looking) && pass.registryTools.isEmpty).map fun pass =>
        (s.conclude cfg pass).withPass i (some { pass with phase := .marked })
  | .finish i answered =>
    ((s.passes i).filter fun pass => decide (pass.phase = .marked)).map fun pass =>
      (s.unlock true).withPass i (if answered then none else some { pass with phase := .raised })
  | .fail i =>
    ((s.passes i).filter fun pass => decide (pass.phase ≠ .raised)).map fun pass =>
      s.withPass i (some { pass with phase := .raised })
  | .release i deleted =>
    ((s.passes i).filter fun pass => decide (pass.phase = .raised)).map fun _ =>
      (s.unlock deleted).withPass i none

end Steps

/-! ## 4. What the log says -/

def Event.name : Event → String
  | .offered name _ | .called name _ | .looked name _ | .hidden name _ => name

/-- A pass looked at the tool at the time `c`, when the model had stopped calling it. -/
structure Unused (window : ℚ) (log : List Event) (name : String) (c : ℚ) : Prop where
  looked : .looked name c ∈ log
  offeredBefore : ∃ f, .offered name f ∈ log ∧ f + window ≤ c
  offeredLately : ∃ o, .offered name o ∈ log ∧ o ≤ c ∧ c ≤ o + window
  notCalled : ∀ t, .called name t ∈ log → t + window ≤ c ∨ c ≤ t

/-- What a usage record tells about the log. -/
structure UsageSound (log : List Event) (name : String) (usage : Usage) : Prop where
  lastUsed : ∀ t ∈ usage.lastUsed, .offered name t ∈ log
  firstSeen : ∀ f ∈ usage.firstSeen, .offered name f ∈ log
  called : ∀ f ∈ usage.firstSeen, ∀ t, .called name t ∈ log →
    t ≤ f ∨ ∃ l ∈ usage.lastCalled, t ≤ l
  hidden : ∀ f ∈ usage.firstSeen, ∀ p, .hidden name p ∈ log → p ≤ f

/-- A mark has the time when it was set and lapses after the window, and stands for a tool that was
    found unused before. -/
structure MarkSound (window : ℚ) (log : List Event) (name : String) (mark : Entry ℚ ℚ) :
    Prop where
  set : .hidden name mark.value ∈ log
  lapses : mark.expires = some (mark.value + window)
  found : ∃ c ≤ mark.value, Unused window log name c

section Log

variable {window c : ℚ} {log : List Event} {name : String} {e : Event}

theorem Unused.cons (h : Unused window log name c) (hlater : c ≤ e.time) :
    Unused window (e :: log) name c where
  looked := List.mem_cons_of_mem e h.looked
  offeredBefore := by
    obtain ⟨f, hf, hle⟩ := h.offeredBefore
    exact ⟨f, List.mem_cons_of_mem e hf, hle⟩
  offeredLately := by
    obtain ⟨o, ho, hle⟩ := h.offeredLately
    exact ⟨o, List.mem_cons_of_mem e ho, hle⟩
  notCalled t ht := by
    rcases List.mem_cons.mp ht with rfl | ht
    · exact Or.inr hlater
    · exact h.notCalled t ht

theorem MarkSound.cons {mark : Entry ℚ ℚ} (h : MarkSound window log name mark)
    (hlater : mark.value ≤ e.time) : MarkSound window (e :: log) name mark where
  set := List.mem_cons_of_mem e h.set
  lapses := h.lapses
  found := by
    obtain ⟨c, hc, hunused⟩ := h.found
    exact ⟨c, hc, hunused.cons (hc.trans hlater)⟩

theorem usageSound_default : UsageSound log name {} where
  lastUsed _ h := by simp at h
  firstSeen _ h := by simp at h
  called _ h := by simp at h
  hidden _ h := by simp at h

/-- What happens to one tool says nothing about another. -/
theorem UsageSound.cons {usage : Usage} (h : UsageSound log name usage) (hother : name ≠ e.name) :
    UsageSound (e :: log) name usage where
  lastUsed t ht := List.mem_cons_of_mem e (h.lastUsed t ht)
  firstSeen f hf := List.mem_cons_of_mem e (h.firstSeen f hf)
  called f hf t ht := by
    rcases List.mem_cons.mp ht with rfl | ht
    · exact absurd rfl hother
    · exact h.called f hf t ht
  hidden f hf p hp := by
    rcases List.mem_cons.mp hp with rfl | hp
    · exact absurd rfl hother
    · exact h.hidden f hf p hp

/-- A look changes no record. -/
theorem UsageSound.look {usage : Usage} {other : String} {now : ℚ}
    (h : UsageSound log name usage) : UsageSound (.looked other now :: log) name usage where
  lastUsed t ht := List.mem_cons_of_mem _ (h.lastUsed t ht)
  firstSeen f hf := List.mem_cons_of_mem _ (h.firstSeen f hf)
  called f hf t ht := h.called f hf t (by simpa using ht)
  hidden f hf p hp := h.hidden f hf p (by simpa using hp)

variable {now : ℚ} {usage : Option Usage}

theorem UsageSound.offer (hpast : ∀ e ∈ log, e.time ≤ now)
    (h : UsageSound log name (usage.getD {})) :
    UsageSound (.offered name now :: log) name (Usage.offer now usage) where
  lastUsed t ht := by
    obtain rfl : now = t := by simpa [Usage.offer] using ht
    exact List.mem_cons_self
  firstSeen f hf := by
    cases hfirst : (usage.getD {}).firstSeen with
    | none =>
      obtain rfl : now = f := by simpa [Usage.offer, hfirst] using hf
      exact List.mem_cons_self
    | some first =>
      obtain rfl : first = f := by simpa [Usage.offer, hfirst] using hf
      exact List.mem_cons_of_mem _ (h.firstSeen first hfirst)
  called f hf t ht := by
    have ht : Event.called name t ∈ log := by simpa using ht
    cases hfirst : (usage.getD {}).firstSeen with
    | none =>
      -- the history starts again, after all that is in the log
      obtain rfl : now = f := by simpa [Usage.offer, hfirst] using hf
      exact Or.inl (hpast _ ht)
    | some first =>
      obtain rfl : first = f := by simpa [Usage.offer, hfirst] using hf
      exact h.called first hfirst t ht
  hidden f hf p hp := by
    have hp : Event.hidden name p ∈ log := by simpa using hp
    cases hfirst : (usage.getD {}).firstSeen with
    | none =>
      obtain rfl : now = f := by simpa [Usage.offer, hfirst] using hf
      exact hpast _ hp
    | some first =>
      obtain rfl : first = f := by simpa [Usage.offer, hfirst] using hf
      exact h.hidden first hfirst p hp

theorem UsageSound.call (hpast : ∀ e ∈ log, e.time ≤ now)
    (h : UsageSound log name (usage.getD {})) :
    UsageSound (.called name now :: log) name (Usage.call now usage) where
  lastUsed t ht := List.mem_cons_of_mem _ (h.lastUsed t ht)
  firstSeen f hf := List.mem_cons_of_mem _ (h.firstSeen f hf)
  called f hf t ht := by
    refine Or.inr ⟨now, rfl, ?_⟩
    rcases List.mem_cons.mp ht with heq | ht
    · cases heq
      exact le_refl now
    · exact hpast _ ht
  hidden f hf p hp := h.hidden f hf p (by simpa using hp)

theorem UsageSound.forget {entry : Entry Usage ℚ} (h : UsageSound log name entry.value) :
    UsageSound (.hidden name now :: log) name (Usage.forget entry).value where
  lastUsed t ht := List.mem_cons_of_mem _ (h.lastUsed t ht)
  firstSeen f hf := by simp [Usage.forget] at hf
  called f hf := by simp [Usage.forget] at hf
  hidden f hf := by simp [Usage.forget] at hf

end Log

theorem pruneCandidate_eq_true {record : Option Usage} {now : ℚ} {days : ℤ}
    (h : pruneCandidate record now days = true) :
    ∃ offered first called, record = some ⟨some offered, some first, called⟩ ∧
      first + seconds days ≤ now ∧ now ≤ offered + seconds days ∧
      called.getD 0 + seconds days < now := by
  rcases record with _ | ⟨_ | offered, _ | first, called⟩
  · simp [pruneCandidate] at h
  · simp [pruneCandidate] at h
  · simp [pruneCandidate] at h
  · simp [pruneCandidate] at h
  · simp only [pruneCandidate, Bool.and_eq_true, decide_eq_true_eq] at h
    exact ⟨offered, first, called, rfl, by linarith [h.1.1], by linarith [h.1.2],
      by linarith [h.2]⟩

/-! ## 5. Every step keeps it -/

section Sound

variable {τ : Type} {cfg : Settings}

structure State.Sound (cfg : Settings) (s : State τ) : Prop where
  past : ∀ e ∈ s.log, e.time ≤ s.clock
  usage : ∀ name, ∀ entry ∈ s.usage name, UsageSound s.log name entry.value
  marks : ∀ name, ∀ mark ∈ s.marks name,
    mark.value ≤ s.clock ∧ MarkSound cfg.window s.log name mark
  passes : ∀ i, ∀ pass ∈ s.passes i, ∀ name ∈ pass.inactive,
    ∃ c ≤ s.clock, Unused cfg.window s.log name c

variable {s s' : State τ} {name : String}

theorem State.sound_start (clock : ℚ) : (State.start τ clock).Sound cfg where
  past _ h := by simp [State.start] at h
  usage _ _ h := by simp [State.start] at h
  marks _ _ h := by simp [State.start] at h
  passes _ _ h := by simp [State.start] at h

/-- What a command finds of a usage record. -/
theorem State.Sound.usage_getD (h : s.Sound cfg) (name : String) :
    UsageSound s.log name ((s.usage.get s.clock name).getD {}) := by
  cases hget : s.usage.get s.clock name with
  | none => exact usageSound_default
  | some usage =>
    obtain ⟨entry, hentry, rfl, -⟩ := exists_entry_of_get hget
    exact h.usage name entry hentry

/-- A tool that a pass finds inactive. -/
theorem State.Sound.unused (h : s.Sound cfg) (hprune : shouldPruneTool cfg s name = true) :
    Unused cfg.window (.looked name s.clock :: s.log) name s.clock := by
  obtain ⟨offered, first, called, hget, hfirst, hoffered, hcalled⟩ :=
    pruneCandidate_eq_true hprune
  have hsound : UsageSound s.log name ⟨some offered, some first, called⟩ := by
    simpa [hget] using h.usage_getD name
  have hlately := hsound.lastUsed offered rfl
  refine ⟨List.mem_cons_self,
    ⟨first, List.mem_cons_of_mem _ (hsound.firstSeen first rfl), hfirst⟩,
    ⟨offered, List.mem_cons_of_mem _ hlately, h.past _ hlately, hoffered⟩, ?_⟩
  intro t ht
  have ht : Event.called name t ∈ s.log := by simpa using ht
  left
  rcases hsound.called first rfl t ht with hbefore | ⟨last, rfl, hbefore⟩
  · exact (add_le_add_left hbefore _).trans hfirst
  · exact (add_le_add_left hbefore _).trans hcalled.le

/-- An event is logged; the records and the marks are looked at afresh. -/
theorem State.Sound.logged (h : s.Sound cfg) {e : Event} (htime : e.time = s.clock)
    (hclock : s'.clock = s.clock) (hlog : s'.log = e :: s.log) (hpasses : s'.passes = s.passes)
    (husage : ∀ name, ∀ entry ∈ s'.usage name, UsageSound (e :: s.log) name entry.value)
    (hmarks : ∀ name, ∀ mark ∈ s'.marks name, mark ∈ s.marks name ∨
      mark.value ≤ s.clock ∧ MarkSound cfg.window (e :: s.log) name mark) : s'.Sound cfg where
  past e' he' := by
    rw [hclock]
    rcases List.mem_cons.mp (hlog ▸ he') with rfl | he'
    · exact htime.le
    · exact h.past e' he'
  usage name entry hentry := hlog ▸ husage name entry hentry
  marks name mark hmark := by
    rw [hclock, hlog]
    rcases hmarks name mark hmark with hold | hnew
    · obtain ⟨hle, hsound⟩ := h.marks name mark hold
      exact ⟨hle, hsound.cons (htime ▸ hle)⟩
    · exact hnew
  passes i pass hpass name hname := by
    rw [hclock, hlog]
    obtain ⟨c, hc, hunused⟩ := h.passes i pass (hpasses ▸ hpass) name hname
    exact ⟨c, hc, hunused.cons (htime ▸ hc)⟩

/-- A tool's record is made anew. -/
theorem State.Sound.record {e : Event} {f : Option Usage → Usage} (h : s.Sound cfg)
    (hname : e.name = name) (htime : e.time = s.clock)
    (hf : UsageSound (e :: s.log) name (f (s.usage.get s.clock name))) :
    (s.record cfg name f e).Sound cfg := by
  refine h.logged htime rfl rfl rfl ?_ (fun _ mark hmark => Or.inl hmark)
  intro other entry hentry
  simp only [State.record, Option.mem_def] at hentry
  by_cases hother : other = name
  · subst hother
    rw [expire_update_self] at hentry
    cases hentry
    exact hf
  · rw [expire_of_ne hother, update_of_ne hother] at hentry
    exact (h.usage other entry hentry).cons (hname ▸ hother)

theorem State.Sound.offer (h : s.Sound cfg) (name : String) : (s.offer cfg name).Sound cfg :=
  h.record rfl rfl ((h.usage_getD name).offer h.past)

theorem State.Sound.call (h : s.Sound cfg) (name : String) : (s.call cfg name).Sound cfg :=
  h.record rfl rfl ((h.usage_getD name).call h.past)

theorem State.Sound.recordToolUsage (h : s.Sound cfg) (toolNames : List String) :
    (recordToolUsage cfg s toolNames).Sound cfg :=
  List.foldlRecOn toolNames _ h fun _ hs name _ => hs.offer name

theorem State.Sound.recordCalledTools (h : s.Sound cfg) (offered names : List String) :
    (recordCalledTools cfg s offered names).Sound cfg :=
  List.foldlRecOn _ _ h fun _ hs name _ => hs.call name

theorem State.Sound.clearPruned (h : s.Sound cfg) (toolNames : List String) :
    (clearPruned s toolNames).Sound cfg where
  past := h.past
  usage := h.usage
  marks name mark hmark := by
    simp only [ToolMarks.clearPruned, Option.mem_def] at hmark
    split at hmark
    · cases hmark
    · exact h.marks name mark hmark
  passes := h.passes

theorem State.Sound.hide (h : s.Sound cfg) {c : ℚ} (hc : c ≤ s.clock)
    (hunused : Unused cfg.window s.log name c) : (s.hide cfg name).Sound cfg := by
  refine h.logged rfl rfl rfl rfl ?_ ?_
  · intro other entry hentry
    simp only [State.hide, Option.mem_def] at hentry
    by_cases hother : other = name
    · subst hother
      rw [Function.update_self] at hentry
      obtain ⟨old, hold, rfl⟩ := Option.map_eq_some_iff.mp hentry
      exact (h.usage other old hold).forget
    · rw [Function.update_of_ne hother] at hentry
      exact (h.usage other entry hentry).cons hother
  · intro other mark hmark
    simp only [State.hide, Option.mem_def] at hmark
    by_cases hother : other = name
    · subst hother
      rw [expire_update_self] at hmark
      cases hmark
      exact Or.inr ⟨le_refl _, List.mem_cons_self, rfl, c, hc, hunused.cons hc⟩
    · rw [expire_of_ne hother, update_of_ne hother] at hmark
      exact Or.inl hmark

theorem State.Sound.tick (h : s.Sound cfg) {d : ℚ} (hd : 0 ≤ d) :
    State.Sound cfg { s with clock := s.clock + d } := by
  have hle : s.clock ≤ s.clock + d := by linarith
  constructor
  · intro e he
    exact (h.past e he).trans hle
  · exact h.usage
  · intro name mark hmark
    obtain ⟨hvalue, hsound⟩ := h.marks name mark hmark
    exact ⟨hvalue.trans hle, hsound⟩
  · intro i pass hpass name hname
    obtain ⟨c, hc, hunused⟩ := h.passes i pass hpass name hname
    exact ⟨c, hc.trans hle, hunused⟩

variable {i : τ} {pass : Pass}

/-- Passes come, go and move on; nothing is logged. -/
theorem State.Sound.moved (h : s.Sound cfg) (hclock : s'.clock = s.clock)
    (husage : s'.usage = s.usage) (hmarks : s'.marks = s.marks) (hlog : s'.log = s.log)
    (hpasses : ∀ i, ∀ pass ∈ s'.passes i, pass ∈ s.passes i ∨ ∀ name ∈ pass.inactive,
      ∃ c ≤ s.clock, Unused cfg.window s.log name c) : s'.Sound cfg := by
  constructor
  · rw [hclock, hlog]
    exact h.past
  · rw [husage, hlog]
    exact h.usage
  · rw [hmarks, hclock, hlog]
    exact h.marks
  · rw [hclock, hlog]
    intro i pass hpass
    rcases hpasses i pass hpass with hold | hnew
    · exact h.passes i pass hold
    · exact hnew

theorem passes_conclude (s : State τ) (pass : Pass) :
    (s.conclude cfg pass).passes = s.passes := by
  rw [State.conclude]
  split
  · rfl
  · exact List.foldlRecOn (motive := fun s' : State τ => s'.passes = s.passes)
      pass.inactive (State.hide cfg) rfl fun _ hs _ _ => hs

/-- What a pass finds was unused when it looked, and stays so in the log. -/
theorem State.Sound.conclude (h : s.Sound cfg) (hpass : s.passes i = some pass) :
    (s.conclude cfg pass).Sound cfg := by
  rw [State.conclude]
  split
  · exact h
  · have hmarked : (pass.inactive.foldl (State.hide cfg) s).Sound cfg ∧
        (pass.inactive.foldl (State.hide cfg) s).passes = s.passes := by
      refine List.foldlRecOn (motive := fun s' : State τ => s'.Sound cfg ∧ s'.passes = s.passes)
        pass.inactive (State.hide cfg) ⟨h, rfl⟩ ?_
      intro s' hs' name hname
      obtain ⟨c, hc, hunused⟩ := hs'.1.passes i pass (hs'.2 ▸ hpass) name hname
      exact ⟨hs'.1.hide hc hunused, hs'.2⟩
    exact hmarked.1

theorem State.Sound.look (h : s.Sound cfg) (name : String) (answered : Bool) :
    (s.look name answered).Sound cfg := by
  cases answered with
  | false => exact h
  | true =>
    exact h.logged rfl rfl rfl rfl (fun other entry hentry => (h.usage other entry hentry).look)
      fun _ _ hmark => Or.inl hmark

theorem State.Sound.acquire (h : s.Sound cfg) : s.acquire.Sound cfg :=
  ⟨h.past, h.usage, h.marks, h.passes⟩

theorem State.Sound.unlock (h : s.Sound cfg) (applied : Bool) : (s.unlock applied).Sound cfg :=
  ⟨h.past, h.usage, h.marks, h.passes⟩

theorem State.Sound.withPass [DecidableEq τ] (h : s.Sound cfg) (i : τ) {pass : Option Pass}
    (hpass : ∀ pass' ∈ pass, ∀ name ∈ pass'.inactive,
      ∃ c ≤ s.clock, Unused cfg.window s.log name c) : (s.withPass i pass).Sound cfg := by
  refine h.moved rfl rfl rfl rfl ?_
  intro j pass' hpass'
  simp only [State.withPass, Option.mem_def] at hpass'
  by_cases hj : j = i
  · subst hj
    rw [Function.update_self] at hpass'
    exact Or.inr (hpass pass' hpass')
  · rw [Function.update_of_ne hj] at hpass'
    exact Or.inl hpass'

/-- What a pass finds at a look. -/
theorem State.Sound.found [DecidableEq τ] (h : s.Sound cfg) (hpass : s.passes i = some pass)
    {rest : List String} {answered : Bool} :
    ∀ tool ∈ (pass.found cfg s name rest answered).inactive,
      ∃ c ≤ s.clock, Unused cfg.window (s.look name answered).log tool c := by
  intro tool htool
  have hold : tool ∈ pass.inactive →
      ∃ c ≤ s.clock, Unused cfg.window (s.look name answered).log tool c := by
    intro hmem
    exact (h.look name answered).passes i pass hpass tool hmem
  cases hanswered : answered && shouldPruneTool cfg s name with
  | false =>
    rw [Pass.found, hanswered] at htool
    exact hold htool
  | true =>
    rw [Pass.found, hanswered] at htool
    obtain ⟨rfl, hprune⟩ := Bool.and_eq_true_iff.mp hanswered
    rcases List.mem_append.mp htool with hmem | hmem
    · exact hold hmem
    · obtain rfl := List.mem_singleton.mp hmem
      exact ⟨s.clock, le_refl _, h.unused hprune⟩

/-- Every hidden tool was marked at a time `p` of its mark and is hidden for the window after it,
    and a pass looked at it at a time `c` before and found it unused. -/
def HiddenUnused (cfg : Settings) (s : State τ) : Prop :=
  ∀ toolNames, ∀ name ∈ prunedTools s toolNames, ∃ p, s.marks.get s.clock name = some p ∧
    .hidden name p ∈ s.log ∧ p ≤ s.clock ∧ s.clock < p + cfg.window ∧
    ∃ c ≤ p, Unused cfg.window s.log name c

theorem State.Sound.hiddenUnused (h : s.Sound cfg) : HiddenUnused cfg s := by
  intro toolNames name hname
  obtain ⟨p, hp⟩ := Option.isSome_iff_exists.mp (List.mem_filter.mp hname).2
  obtain ⟨mark, hmark, rfl, hlive⟩ := exists_entry_of_get hp
  obtain ⟨hle, hset, hlapses, c, hc, hunused⟩ := h.marks name mark hmark
  refine ⟨mark.value, hp, hset, hle, ?_, c, hc, hunused⟩
  simpa [Entry.live, hlapses] using hlive

end Sound

section Run

variable {τ : Type} [DecidableEq τ] {cfg : Settings} {s s' : State τ} {i : τ} {pass : Pass}

theorem step_sound {label : Label τ} (h : s.Sound cfg) (hstep : step cfg s label = some s') :
    s'.Sound cfg := by
  cases label with
  | tick d =>
    obtain ⟨hd, rfl⟩ := by simpa [step] using hstep
    exact h.tick hd
  | offer toolNames =>
    obtain rfl := Option.some.inj hstep
    exact h.recordToolUsage toolNames
  | answer offered names =>
    obtain rfl := Option.some.inj hstep
    exact h.recordCalledTools offered names
  | named toolNames =>
    obtain rfl := Option.some.inj hstep
    exact h.clearPruned toolNames
  | begin i dryRun registryTools =>
    simp only [step] at hstep
    split at hstep
    · cases hstep
    · split at hstep
      · obtain rfl := Option.some.inj hstep
        exact h
      · obtain rfl := Option.some.inj hstep
        exact h.acquire.withPass i (by simp)
  | beginRaises i applied =>
    simp only [step] at hstep
    split at hstep
    · cases hstep
    · obtain rfl := Option.some.inj hstep
      apply State.Sound.withPass _ i (by simp)
      split
      · exact h.acquire
      · exact h
  | check i answered =>
    simp only [step] at hstep
    split at hstep
    · rename_i pass hpass
      split at hstep
      · obtain rfl := Option.some.inj hstep
        apply (h.look _ answered).withPass i
        rintro pass' ⟨⟩
        exact h.found hpass
      · cases hstep
    · cases hstep
  | conclude i =>
    obtain ⟨pass, hpass, rfl⟩ := Option.map_eq_some_iff.mp hstep
    have hpass := (Option.filter_eq_some_iff.mp hpass).1
    apply (h.conclude hpass).withPass i
    rintro pass' ⟨⟩
    exact (h.conclude hpass).passes i pass (by rw [passes_conclude, hpass]; rfl)
  | finish i answered =>
    obtain ⟨pass, hpass, rfl⟩ := Option.map_eq_some_iff.mp hstep
    have hpass := (Option.filter_eq_some_iff.mp hpass).1
    apply (h.unlock true).withPass i
    intro pass' hpass'
    split at hpass'
    · cases hpass'
    · obtain rfl := Option.some.inj hpass'
      exact h.passes i pass hpass
  | fail i =>
    obtain ⟨pass, hpass, rfl⟩ := Option.map_eq_some_iff.mp hstep
    have hpass := (Option.filter_eq_some_iff.mp hpass).1
    apply h.withPass i
    rintro pass' ⟨⟩
    exact h.passes i pass hpass
  | release i deleted =>
    obtain ⟨pass, -, rfl⟩ := Option.map_eq_some_iff.mp hstep
    exact (h.unlock deleted).withPass i (by simp)

/-- **Only unused tools are hidden**: whatever requests and passes of any replica do in between
    one another, and whatever raises, a tool that is hidden was marked less than the window ago,
    and up to the time when a pass looked at it before that it had been offered for the window
    and more, was offered within it, and no call of it was recorded in it. -/
theorem hidden_unused (cfg : Settings) (clock : ℚ) (run : List (Label τ)) :
    Always (step cfg) (HiddenUnused cfg) (State.start τ clock) run :=
  (always_of_step (fun _ _ _ h hstep => step_sound h hstep) run
    (State.sound_start clock)).imp fun _ h => h.hiddenUnused

end Run

end TokenProxy.ToolMarks
