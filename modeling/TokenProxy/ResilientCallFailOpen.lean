/-
  TokenProxy/ResilientCallFailOpen.lean
  =====================================
  **A resilient call always ends, tries something whenever it can, and accounts
  for every target** (`call_with_resilience`, `providers/resilience.py`).

  `Loop` is the invariant of the frame while the call is under way, `FailOpen`
  what holds of it at the end; one resumption leads from the first to the first
  or to the second (`resume_sound`).  `remaining` counts the resumptions that
  are left, so the run that `Call.run` makes is always long enough.

  The point of the fail-open rule is the field `Loop.viable`: as long as nothing
  was tried, a target with a key is still ahead.  A gated target is skipped only
  if a later target has a key or an error was collected, and an error means that
  something was tried.
-/
import TokenProxy.ResilientCall
import Mathlib.Data.List.Forall2
import Mathlib.Tactic.Ring
import Mathlib.Tactic.Linarith

namespace TokenProxy.Resilience

variable {ρ : Type*}

/-! ## 1. The attempt trail -/

/-- The attempt is an entry of this target. -/
def EntryOf (target : CallTarget) (attempt : Attempt) : Prop :=
  attempt.provider = target.provider ∧ attempt.model = target.model

/-- The attempts are the caller's own, then one entry for each of the targets, in order. -/
def Trail (sink attempts : List Attempt) (targets : List CallTarget) : Prop :=
  ∃ entries, attempts = sink ++ entries ∧ List.Forall₂ EntryOf targets entries

theorem Trail.snoc {sink attempts : List Attempt} {targets : List CallTarget}
    (h : Trail sink attempts targets) {target : CallTarget} {attempt : Attempt}
    (hentry : EntryOf target attempt) :
    Trail sink (attempts ++ [attempt]) (targets ++ [target]) := by
  obtain ⟨entries, rfl, hall⟩ := h
  refine ⟨entries ++ [attempt], List.append_assoc _ _ _, ?_⟩
  exact List.rel_append hall (List.Forall₂.cons hentry List.Forall₂.nil)

theorem take_done_succ {targets : List CallTarget} {done : Nat} {target : CallTarget}
    (h : targets[done]? = some target) :
    targets.take (done + 1) = targets.take done ++ [target] := by
  rw [List.take_add_one, h]
  rfl

theorem drop_done {targets : List CallTarget} {done : Nat} {target : CallTarget}
    (h : targets[done]? = some target) :
    targets.drop done = target :: targets.drop (done + 1) := by
  obtain ⟨hlt, rfl⟩ := List.getElem?_eq_some_iff.mp h
  exact List.drop_eq_getElem_cons hlt

/-! ## 2. The invariant of the loop and what holds at the end -/

def Outcome.exc? : Outcome ρ → Option ProviderError
  | .raised exc => some exc
  | _ => none

/-- The target in hand, with the number of the attempt. -/
def Phase.inHand : Phase ρ → Option (CallTarget × Nat)
  | .invoking target attemptI => some (target, attemptI)
  | .sleeping target attemptI => some (target, attemptI)
  | _ => none

namespace Call

structure Loop (sink : List Attempt) (c : Call ρ) : Prop where
  bounded : c.done ≤ c.targets.length
  trail : Trail sink c.attempts (c.targets.take c.done)
  considered : c.considered = c.targets.take (c.done + if c.phase.inHand.isSome then 1 else 0)
  current : ∀ target attemptI, c.phase.inHand = some (target, attemptI) →
    c.targets[c.done]? = some target ∧ target.hasKey = true ∧ attemptI < maxTries c.cfg
  retrying : ∀ target attemptI, c.phase = .sleeping target attemptI →
    c.invocations ≠ [] ∧ attemptI + 1 < maxTries c.cfg
  raised : ∀ inv ∈ c.invocations, ∃ exc, inv.2 = .raised exc
  tried : ∀ inv ∈ c.invocations, inv.1 ≤ c.done ∧ inv.1 < c.targets.length
  lastError : c.lastError = c.invocations.getLast?.bind fun inv => inv.2.exc?
  viable : c.invocations = [] → (∃ t ∈ c.targets, t.hasKey = true) →
    ∃ t ∈ c.targets.drop c.done, t.hasKey = true
  winners : c.winners = []

structure FailOpen (sink : List Attempt) (c : Call ρ) (result : CallResult ρ) : Prop where
  attempted : (∃ t ∈ c.targets, t.hasKey = true) → c.invocations ≠ []
  returned : ∀ r, result = .returned r ↔ ∃ i, (i, Outcome.returned r) ∈ c.invocations
  winner : ∀ r, result = .returned r → ∃ i target, c.targets[i]? = some target ∧
    c.invocations.getLast? = some (i, .returned r) ∧ (∀ inv ∈ c.invocations, inv.1 ≤ i) ∧
    c.winners = [target] ∧
    c.attempts.getLast? =
      some { provider := target.provider, model := target.model, outcome := .success }
  inOrder : c.considered <+: c.targets
  /-- every target considered has its entry; a cancelled call leaves the last one without -/
  trail : (result ≠ .cancelled ∧ Trail sink c.attempts c.considered) ∨
    (result = .cancelled ∧ ∃ before target, c.considered = before ++ [target] ∧
      Trail sink c.attempts before)
  single : ∀ target, c.targets = [target] → target.hasKey = true →
    (∃ r, result = .returned r) ∨ result = .cancelled ∨
      ∃ exc, result = .raised exc ∧ c.invocations.getLast? = some (0, .raised exc)

/-- The invariant of a run: under way, or ended. -/
def Sound (sink : List Attempt) (c : Call ρ) : Prop :=
  match c.phase with
  | .finished result => FailOpen sink c result
  | _ => Loop sink c

/-! ## 3. One resumption -/

variable {sink : List Attempt} {c : Call ρ}

theorem Loop.start (targets : List CallTarget) (cfg : ResilienceConfig) (redisPrefix : String)
    (sink : List Attempt) :
    Loop sink (Call.start targets cfg redisPrefix sink : Call ρ) where
  bounded := Nat.zero_le _
  trail := ⟨[], (List.append_nil sink).symm, List.Forall₂.nil⟩
  considered := rfl
  current := fun _ _ h => nomatch h
  retrying := fun _ _ h => nomatch h
  raised := fun _ h => nomatch h
  tried := fun _ h => nomatch h
  lastError := rfl
  viable := fun _ h => h
  winners := rfl

theorem Loop.considered_idle (h : Loop sink c) (hphase : c.phase = .considering) :
    c.considered = c.targets.take c.done := by
  have hcons := h.considered
  rw [hphase] at hcons
  exact hcons

theorem Loop.considered_busy (h : Loop sink c) {target : CallTarget} {attemptI : Nat}
    (hin : c.phase.inHand = some (target, attemptI)) :
    c.considered = c.targets.take c.done ++ [target] := by
  have hcons := h.considered
  rw [hin] at hcons
  rw [hcons]
  exact take_done_succ (h.current _ _ hin).1

/-- A gated target may be skipped only when something remains: so while nothing was tried, a
    target with a key stays ahead. -/
theorem Loop.viable_skip (h : Loop sink c) {target : CallTarget}
    (ht : c.targets[c.done]? = some target)
    (hmay : target.hasKey = false ∨ c.maySkip = true) (hnone : c.invocations = [])
    (hkeyed : ∃ t ∈ c.targets, t.hasKey = true) :
    ∃ t ∈ c.targets.drop (c.done + 1), t.hasKey = true := by
  obtain ⟨t, hmem, hkey⟩ := h.viable hnone hkeyed
  rw [drop_done ht] at hmem
  rcases List.mem_cons.mp hmem with rfl | hlater
  · rcases hmay with hnokey | hmay
    · rw [hkey] at hnokey
      cases hnokey
    · have herr : c.lastError = none := by rw [h.lastError, hnone]; rfl
      have hviable : c.laterViable = true := by simpa [maySkip, herr] using hmay
      exact List.any_eq_true.mp hviable
  · exact ⟨t, hlater, hkey⟩

theorem Loop.skip (h : Loop sink c) (hphase : c.phase = .considering) {target : CallTarget}
    (ht : c.targets[c.done]? = some target)
    (hmay : target.hasKey = false ∨ c.maySkip = true) (reason : AttemptOutcome) :
    Loop sink ((c.take target).skip target reason) where
  bounded := (List.getElem?_eq_some_iff.mp ht).1
  trail := by
    change Trail sink (c.attempts ++ [_]) (c.targets.take (c.done + 1))
    rw [take_done_succ ht]
    exact h.trail.snoc ⟨rfl, rfl⟩
  considered := by
    rw [show ((c.take target).skip target reason).phase = c.phase from rfl, hphase]
    change c.considered ++ [target] = c.targets.take (c.done + 1)
    rw [h.considered_idle hphase, take_done_succ ht]
  current := by
    intro t i hin
    rw [show ((c.take target).skip target reason).phase = c.phase from rfl, hphase] at hin
    cases hin
  retrying := fun t i hsleep => h.retrying t i hsleep
  raised := h.raised
  tried := fun inv hinv => ⟨Nat.le_succ_of_le (h.tried inv hinv).1, (h.tried inv hinv).2⟩
  lastError := h.lastError
  viable := h.viable_skip ht hmay
  winners := h.winners

theorem Loop.startAttempts (h : Loop sink c) (hphase : c.phase = .considering)
    (hpos : 0 < maxTries c.cfg) {target : CallTarget}
    (ht : c.targets[c.done]? = some target) (hkey : target.hasKey = true) :
    Loop sink ((c.take target).startAttempts target) := by
  have hgo : (c.take target).startAttempts target =
      { c.take target with phase := .invoking target 0 } := if_pos hpos
  rw [hgo]
  refine { h with considered := ?_, current := ?_, retrying := fun _ _ hs => nomatch hs }
  · change c.considered ++ [target] = c.targets.take (c.done + 1)
    rw [h.considered_idle hphase, take_done_succ ht]
  · intro t i hin
    cases hin
    exact ⟨ht, hkey, hpos⟩

theorem Loop.keyed_ahead_of_untried (h : Loop sink c) (hend : c.targets[c.done]? = none)
    (hkeyed : ∃ t ∈ c.targets, t.hasKey = true) : c.invocations ≠ [] := by
  intro hnone
  obtain ⟨t, hmem, -⟩ := h.viable hnone hkeyed
  rw [List.drop_eq_nil_of_le (List.getElem?_eq_none_iff.mp hend)] at hmem
  cases hmem

/-- The error held by the frame was raised by the last target tried. -/
theorem Loop.lastError_raised (h : Loop sink c) (hne : c.invocations ≠ []) :
    ∃ i exc, i < c.targets.length ∧ c.invocations.getLast? = some (i, .raised exc) ∧
      c.lastError = some exc := by
  have hlast := List.getLast?_eq_some_getLast hne
  obtain ⟨exc, hexc⟩ := h.raised _ (List.getLast_mem hne)
  refine ⟨_, exc, (h.tried _ (List.getLast_mem hne)).2, ?_, ?_⟩
  · rw [hlast, ← hexc]
  · rw [h.lastError, hlast, Option.bind_some, hexc]
    rfl

theorem Loop.not_returned (h : Loop sink c) (r : ρ) :
    ¬ ∃ i, (i, Outcome.returned r) ∈ c.invocations := by
  rintro ⟨i, hmem⟩
  obtain ⟨exc, hexc⟩ := h.raised _ hmem
  cases hexc

/-- A call whose targets are exhausted ends with an error, never cancelled. -/
theorem exhausted_error (c : Call ρ) :
    (∃ exc, c.exhausted = .raised exc) ∨
      ∃ attempts last, c.exhausted = .allTargetsFailed attempts last := by
  unfold Call.exhausted
  cases c.lastError with
  | none => exact Or.inr ⟨_, _, rfl⟩
  | some exc =>
    by_cases hlen : c.targets.length ≤ 1
    · exact Or.inl ⟨exc, if_pos hlen⟩
    · exact Or.inr ⟨_, _, if_neg hlen⟩

theorem exhausted_ne_returned (c : Call ρ) (r : ρ) : c.exhausted ≠ .returned r := by
  intro heq
  rcases c.exhausted_error with ⟨exc, h⟩ | ⟨attempts, last, h⟩ <;> rw [h] at heq <;> cases heq

theorem exhausted_ne_cancelled (c : Call ρ) : c.exhausted ≠ .cancelled := by
  intro heq
  rcases c.exhausted_error with ⟨exc, h⟩ | ⟨attempts, last, h⟩ <;> rw [h] at heq <;> cases heq

theorem Loop.exhausted (h : Loop sink c) (hphase : c.phase = .considering)
    (hend : c.targets[c.done]? = none) :
    FailOpen sink { c with phase := .finished c.exhausted } c.exhausted where
  attempted := h.keyed_ahead_of_untried hend
  returned := fun r => ⟨fun heq => absurd heq (c.exhausted_ne_returned r),
    fun hret => absurd hret (h.not_returned r)⟩
  winner := fun r heq => absurd heq (c.exhausted_ne_returned r)
  inOrder := by
    change c.considered <+: c.targets
    rw [h.considered_idle hphase]
    exact List.take_prefix _ _
  trail := by
    refine Or.inl ⟨c.exhausted_ne_cancelled, ?_⟩
    change Trail sink c.attempts c.considered
    rw [h.considered_idle hphase]
    exact h.trail
  single := by
    intro target (htargets : c.targets = [target]) hkey
    have hne := h.keyed_ahead_of_untried hend ⟨target, by simp [htargets], hkey⟩
    obtain ⟨i, exc, hi, hlast, herr⟩ := h.lastError_raised hne
    have hlen : c.targets.length = 1 := by rw [htargets]; rfl
    have hzero : i = 0 := Nat.lt_one_iff.mp (hlen ▸ hi)
    refine Or.inr (Or.inr ⟨exc, ?_, hzero ▸ hlast⟩)
    rw [Call.exhausted, herr]
    exact if_pos (le_of_eq hlen)

/-! ### The target answered, was cancelled, or is to be retried -/

theorem Loop.inOrder (h : Loop sink c) : c.considered <+: c.targets := by
  rw [h.considered]
  exact List.take_prefix _ _

theorem Loop.answered (h : Loop sink c) {target : CallTarget} {attemptI : Nat}
    (hin : c.phase.inHand = some (target, attemptI)) (result : ρ) :
    FailOpen sink ((c.logged (.returned result)).onAnswer target result) (.returned result) where
  attempted := fun _ => List.append_ne_nil_of_right_ne_nil _ (List.cons_ne_nil _ _)
  returned := by
    intro r
    change _ ↔ ∃ i, (i, Outcome.returned r) ∈ c.invocations ++ [(c.done, .returned result)]
    constructor
    · rintro ⟨⟩
      exact ⟨c.done, List.mem_append_right _ (List.mem_singleton.mpr rfl)⟩
    · rintro ⟨i, hmem⟩
      rcases List.mem_append.mp hmem with hold | hnew
      · exact absurd ⟨i, hold⟩ (h.not_returned r)
      · cases List.mem_singleton.mp hnew
        rfl
  winner := by
    rintro r ⟨⟩
    refine ⟨c.done, target, (h.current _ _ hin).1, List.getLast?_concat, ?_, ?_,
      List.getLast?_concat⟩
    · intro inv hinv
      rcases List.mem_append.mp hinv with hold | hnew
      · exact (h.tried inv hold).1
      · exact le_of_eq (congrArg Prod.fst (List.mem_singleton.mp hnew))
    · change c.winners ++ [target] = [target]
      rw [h.winners, List.nil_append]
  inOrder := h.inOrder
  trail := by
    refine Or.inl ⟨fun heq => (nomatch heq), ?_⟩
    change Trail sink (c.attempts ++ [_]) c.considered
    rw [h.considered_busy hin]
    exact h.trail.snoc ⟨rfl, rfl⟩
  single := fun _ _ _ => Or.inl ⟨result, rfl⟩

/-- Cancelled in the provider call or in the back-off before a retry. -/
theorem Loop.cancelled (h : Loop sink c) {target : CallTarget} {attemptI : Nat}
    (hin : c.phase.inHand = some (target, attemptI)) {c' : Call ρ}
    (hframe : c' = { c with invocations := c'.invocations, phase := c'.phase })
    (hinv : c'.invocations = c.invocations ∧ c.invocations ≠ [] ∨
      c'.invocations = c.invocations ++ [(c.done, .cancelled)]) :
    FailOpen sink c' .cancelled where
  attempted := by
    intro _
    rcases hinv with ⟨heq, hne⟩ | heq
    · rw [heq]; exact hne
    · rw [heq]; exact List.append_ne_nil_of_right_ne_nil _ (List.cons_ne_nil _ _)
  returned := by
    refine fun r => ⟨fun heq => (nomatch heq), ?_⟩
    rintro ⟨i, hmem⟩
    rcases hinv with ⟨heq, -⟩ | heq
    · rw [heq] at hmem
      exact absurd ⟨i, hmem⟩ (h.not_returned r)
    · rw [heq] at hmem
      rcases List.mem_append.mp hmem with hold | hnew
      · exact absurd ⟨i, hold⟩ (h.not_returned r)
      · cases List.mem_singleton.mp hnew
  winner := fun r heq => nomatch heq
  inOrder := by
    rw [hframe]
    exact h.inOrder
  trail := by
    refine Or.inr ⟨rfl, c.targets.take c.done, target, ?_, ?_⟩
    · rw [hframe]
      exact h.considered_busy hin
    · rw [hframe]
      exact h.trail
  single := fun _ _ _ => Or.inr (Or.inl rfl)

/-! ### The target failed -/

/-- The invocations after another failure: all failures, the last of them held as the error. -/
theorem Loop.failed (h : Loop sink c) {target : CallTarget} {attemptI : Nat}
    (hin : c.phase.inHand = some (target, attemptI)) (exc : ProviderError) :
    (∀ inv ∈ (c.logged (.raised exc)).invocations, ∃ e, inv.2 = .raised e) ∧
    (∀ inv ∈ (c.logged (.raised exc)).invocations,
      inv.1 ≤ c.done ∧ inv.1 < c.targets.length) := by
  have hdone : c.done < c.targets.length :=
    (List.getElem?_eq_some_iff.mp (h.current _ _ hin).1).1
  constructor
  · intro inv hinv
    rcases List.mem_append.mp hinv with hold | hnew
    · exact h.raised inv hold
    · exact ⟨exc, congrArg Prod.snd (List.mem_singleton.mp hnew)⟩
  · intro inv hinv
    rcases List.mem_append.mp hinv with hold | hnew
    · exact h.tried inv hold
    · rw [List.mem_singleton.mp hnew]
      exact ⟨le_refl _, hdone⟩

theorem Loop.erred (h : Loop sink c) {target : CallTarget} {attemptI : Nat}
    (hin : c.phase.inHand = some (target, attemptI)) (exc : ProviderError) :
    Sound sink ((c.logged (.raised exc)).onError target attemptI exc) := by
  obtain ⟨hcur, hkey, hlt⟩ := h.current _ _ hin
  obtain ⟨hraised, htried⟩ := h.failed hin exc
  have hdone : c.done < c.targets.length := (List.getElem?_eq_some_iff.mp hcur).1
  have hne : (c.logged (.raised exc)).invocations ≠ [] :=
    List.append_ne_nil_of_right_ne_nil _ (List.cons_ne_nil _ _)
  have hlast : (c.logged (.raised exc)).invocations.getLast? = some (c.done, .raised exc) :=
    List.getLast?_concat
  have htrail : Trail sink c.attempts (c.targets.take c.done) := h.trail
  rcases (c.logged (.raised exc)).onError_cases target attemptI exc with
    ⟨hretry, heq⟩ | ⟨hfirst, heq⟩ | heq
  · -- the back-off before the next try
    rw [heq]
    refine
      { bounded := h.bounded
        trail := h.trail
        considered := ?_
        current := ?_
        retrying := ?_
        raised := hraised
        tried := htried
        lastError := ?_
        viable := fun hnone => absurd hnone hne
        winners := h.winners }
    · exact (h.considered_busy hin).trans (take_done_succ hcur).symm
    · rintro t i ⟨⟩
      exact ⟨hcur, hkey, hlt⟩
    · rintro t i ⟨⟩
      exact ⟨hne, of_decide_eq_true (Bool.and_eq_true_iff.mp hretry).2⟩
    · change some exc = Option.bind (c.logged (.raised exc)).invocations.getLast? _
      rw [hlast]
      rfl
  · -- the caller's own error on the first target ends the call
    rw [heq]
    exact
      { attempted := fun _ => hne
        returned := fun r => ⟨fun hr => (nomatch hr), fun ⟨i, hmem⟩ => by
          obtain ⟨e, he⟩ := hraised _ hmem
          cases he⟩
        winner := fun r hr => nomatch hr
        inOrder := h.inOrder
        trail := Or.inl ⟨fun hr => (nomatch hr), by
          change Trail sink (c.attempts ++ [_]) c.considered
          rw [h.considered_busy hin]
          exact htrail.snoc ⟨rfl, rfl⟩⟩
        single := fun t _ _ => Or.inr (Or.inr ⟨exc, rfl, by
          change (c.logged (.raised exc)).invocations.getLast? = _
          rw [hlast]
          exact congrArg (fun n => some (n, _)) hfirst⟩) }
  · -- on to the next target
    rw [heq]
    refine
      { bounded := hdone
        trail := ?_
        considered := (h.considered_busy hin).trans (take_done_succ hcur).symm
        current := fun _ _ hidle => nomatch hidle
        retrying := fun _ _ hidle => nomatch hidle
        raised := hraised
        tried := fun inv hinv => ⟨Nat.le_succ_of_le (htried inv hinv).1, (htried inv hinv).2⟩
        lastError := ?_
        viable := fun hnone => absurd hnone hne
        winners := h.winners }
    · change Trail sink (c.attempts ++ [_]) (c.targets.take (c.done + 1))
      rw [take_done_succ hcur]
      exact htrail.snoc ⟨rfl, rfl⟩
    · change some exc = Option.bind (c.logged (.raised exc)).invocations.getLast? _
      rw [hlast]
      rfl

/-! ## 4. Every resumption keeps the invariant -/

theorem resume_sound (h : Sound sink c) (hpos : 0 < maxTries c.cfg) (store : ResilienceStore)
    (outcome : Outcome ρ) (now : Seconds) : Sound sink (c.resume store outcome now).1 := by
  unfold resume
  cases hphase : c.phase with
  | considering =>
    have hloop : Loop sink c := by simpa only [Sound, hphase] using h
    dsimp only
    rcases c.consider_cases store now with
      ⟨hend, heq⟩ | ⟨target, ht, ⟨reason, hmay, heq⟩ | ⟨hkey, heq⟩⟩
    · rw [heq]
      exact hloop.exhausted hphase hend
    · have hskip := hloop.skip hphase ht hmay reason
      have hidle : ((c.take target).skip target reason).phase = .considering := hphase
      rw [heq, Sound, hidle]
      exact hskip
    · have hgo : (c.take target).startAttempts target =
          { c.take target with phase := .invoking target 0 } := if_pos hpos
      have hstart := hloop.startAttempts hphase hpos ht hkey
      rw [hgo] at hstart
      rw [heq, hgo]
      exact hstart
  | invoking target attemptI =>
    have hloop : Loop sink c := by simpa only [Sound, hphase] using h
    have hin : c.phase.inHand = some (target, attemptI) := by rw [hphase]; rfl
    cases outcome with
    | returned result => exact hloop.answered hin result
    | raised exc => exact hloop.erred hin exc
    | cancelled => exact hloop.cancelled hin rfl (Or.inr rfl)
  | sleeping target attemptI =>
    have hloop : Loop sink c := by simpa only [Sound, hphase] using h
    have hin : c.phase.inHand = some (target, attemptI) := by rw [hphase]; rfl
    obtain ⟨hne, hlt⟩ := hloop.retrying target attemptI hphase
    have hagain : Loop sink { c with phase := .invoking target (attemptI + 1) } := by
      refine { hloop with considered := ?_, current := ?_, retrying := fun _ _ hs => nomatch hs }
      · exact (hloop.considered_busy hin).trans (take_done_succ (hloop.current _ _ hin).1).symm
      · rintro t i ⟨⟩
        exact ⟨(hloop.current _ _ hin).1, (hloop.current _ _ hin).2.1, hlt⟩
    cases outcome with
    | returned result => exact hagain
    | raised exc => exact hagain
    | cancelled => exact hloop.cancelled hin rfl (Or.inl ⟨rfl, hne⟩)
  | finished result => exact h

/-! ## 5. A call ends -/

/-- Resumptions that are left, at most. -/
def remaining (c : Call ρ) : Nat :=
  let left := c.targets.length - c.done
  let perTarget := 2 * maxTries c.cfg + 2
  match c.phase with
  | .considering => left * perTarget + 1
  | .invoking _ attemptI => (left - 1) * perTarget + 1 + 2 * (maxTries c.cfg - attemptI)
  | .sleeping _ attemptI => (left - 1) * perTarget + 2 * (maxTries c.cfg - attemptI)
  | .finished _ => 0

/-- One target's worth of resumptions. -/
theorem left_mul {len done : Nat} (h : done < len) (w : Nat) :
    (len - done) * w = (len - done - 1) * w + w := by
  obtain ⟨k, hk⟩ := Nat.exists_eq_add_of_lt h
  have hleft : len - done = k + 1 := by omega
  rw [hleft, Nat.add_sub_cancel, Nat.succ_mul]

theorem remaining_considering (hphase : c.phase = .considering) :
    c.remaining = (c.targets.length - c.done) * (2 * maxTries c.cfg + 2) + 1 := by
  rw [remaining, hphase]

theorem remaining_next (c' : Call ρ) {done : Nat} (hdone : c'.done = done + 1)
    (hphase : c'.phase = .considering) :
    c'.remaining = (c'.targets.length - done - 1) * (2 * maxTries c'.cfg + 2) + 1 := by
  rw [remaining_considering hphase, hdone, Nat.sub_sub]

theorem resume_remaining (h : Sound sink c) (hpos : 0 < maxTries c.cfg)
    (hgoing : ∀ result, c.phase ≠ .finished result) (store : ResilienceStore)
    (outcome : Outcome ρ) (now : Seconds) :
    (c.resume store outcome now).1.remaining < c.remaining := by
  unfold resume
  cases hphase : c.phase with
  | considering =>
    dsimp only
    rcases c.consider_cases store now with
      ⟨hend, heq⟩ | ⟨target, ht, ⟨reason, hmay, heq⟩ | ⟨hkey, heq⟩⟩
    · rw [heq, remaining_considering hphase]
      exact Nat.succ_pos _
    · have hdone : c.done < c.targets.length := (List.getElem?_eq_some_iff.mp ht).1
      rw [heq, remaining_considering hphase, left_mul hdone,
        remaining_next ((c.take target).skip target reason) rfl hphase]
      change (c.targets.length - c.done - 1) * (2 * maxTries c.cfg + 2) + 1 < _
      omega
    · have hdone : c.done < c.targets.length := (List.getElem?_eq_some_iff.mp ht).1
      have hgo : (c.take target).startAttempts target =
          { c.take target with phase := .invoking target 0 } := if_pos hpos
      rw [heq, hgo, remaining_considering hphase, left_mul hdone]
      change (c.targets.length - c.done - 1) * (2 * maxTries c.cfg + 2) + 1 +
        2 * (maxTries c.cfg - 0) < _
      omega
  | invoking target attemptI =>
    have hloop : Loop sink c := by simpa only [Sound, hphase] using h
    obtain ⟨hcur, -, hlt⟩ := hloop.current target attemptI (by rw [hphase]; rfl)
    have hrem : c.remaining = (c.targets.length - c.done - 1) * (2 * maxTries c.cfg + 2) + 1 +
        2 * (maxTries c.cfg - attemptI) := by rw [remaining, hphase]
    cases outcome with
    | returned result =>
      rw [hrem]
      exact Nat.lt_of_lt_of_le (Nat.succ_pos _) (Nat.le_add_right _ _)
    | raised exc =>
      dsimp only
      rcases (c.logged (.raised exc)).onError_cases target attemptI exc with
        ⟨-, heq⟩ | ⟨-, heq⟩ | heq
      · rw [heq, hrem]
        change (c.targets.length - c.done - 1) * (2 * maxTries c.cfg + 2) +
          2 * (maxTries c.cfg - attemptI) < _
        omega
      · rw [heq, hrem]
        exact Nat.lt_of_lt_of_le (Nat.succ_pos _) (Nat.le_add_right _ _)
      · rw [heq, hrem, remaining_next _ rfl rfl]
        change (c.targets.length - c.done - 1) * (2 * maxTries c.cfg + 2) + 1 < _
        omega
    | cancelled =>
      rw [hrem]
      exact Nat.lt_of_lt_of_le (Nat.succ_pos _) (Nat.le_add_right _ _)
  | sleeping target attemptI =>
    have hloop : Loop sink c := by simpa only [Sound, hphase] using h
    obtain ⟨-, hlt⟩ := hloop.retrying target attemptI hphase
    have hrem : c.remaining = (c.targets.length - c.done - 1) * (2 * maxTries c.cfg + 2) +
        2 * (maxTries c.cfg - attemptI) := by rw [remaining, hphase]
    have hagain : Call.remaining { c with phase := .invoking target (attemptI + 1) } <
        c.remaining := by
      rw [hrem]
      change (c.targets.length - c.done - 1) * (2 * maxTries c.cfg + 2) + 1 +
        2 * (maxTries c.cfg - (attemptI + 1)) < _
      omega
    have hended : 0 < c.remaining := by rw [hrem]; omega
    cases outcome with
    | returned result => exact hagain
    | raised exc => exact hagain
    | cancelled => exact hended
  | finished result => exact absurd hphase (hgoing result)

theorem after_sound (h : Sound sink c) (hpos : 0 < maxTries c.cfg) (env : Env ρ)
    (store : ResilienceStore) (n : Nat) :
    Sound sink (after env (c, store) n).1 ∧ (after env (c, store) n).1.cfg = c.cfg ∧
      (after env (c, store) n).1.targets = c.targets := by
  induction n with
  | zero => exact ⟨h, rfl, rfl⟩
  | succ n ih =>
    obtain ⟨hsound, hcfg, htargets⟩ := ih
    have hframe := resume_frame (after env (c, store) n).1
      (found env n (after env (c, store) n)) (env.outcome n) (env.now n)
    refine ⟨resume_sound hsound (hcfg ▸ hpos) _ _ _, hframe.1.trans hcfg,
      hframe.2.1.trans htargets⟩

theorem resume_finished {result : CallResult ρ} (hfin : c.phase = .finished result)
    (store : ResilienceStore) (outcome : Outcome ρ) (now : Seconds) :
    c.resume store outcome now = (c, store) := by
  rw [resume, hfin]

theorem after_remaining (h : Sound sink c) (hpos : 0 < maxTries c.cfg) (env : Env ρ)
    (store : ResilienceStore) (n : Nat) :
    (∃ result, (after env (c, store) n).1.phase = .finished result) ∨
      (after env (c, store) n).1.remaining + n ≤ c.remaining := by
  induction n with
  | zero => exact Or.inr (le_refl _)
  | succ n ih =>
    obtain ⟨hsound, hcfg, -⟩ := after_sound h hpos env store n
    by_cases hgoing : ∃ result, (after env (c, store) n).1.phase = .finished result
    · obtain ⟨result, hfin⟩ := hgoing
      refine Or.inl ⟨result, ?_⟩
      change ((after env (c, store) n).1.resume _ _ _).1.phase = _
      rw [resume_finished hfin]
      exact hfin
    · rcases ih with hfin | hle
      · exact absurd hfin hgoing
      · have hlt := resume_remaining hsound (hcfg ▸ hpos) (not_exists.mp hgoing)
          (found env n (after env (c, store) n)) (env.outcome n) (env.now n)
        refine Or.inr ?_
        change ((after env (c, store) n).1.resume _ _ _).1.remaining + (n + 1) ≤ _
        omega

/-- `Call.run` makes enough resumptions: the call has ended. -/
theorem run_finished (h : Sound sink c) (hpos : 0 < maxTries c.cfg) (env : Env ρ)
    (store : ResilienceStore) (hidle : c.phase = .considering) :
    ∃ result, (c.run env store).1.phase = .finished result := by
  rcases after_remaining h hpos env store c.bound with hfin | hle
  · exact hfin
  · by_contra hgoing
    obtain ⟨hsound, hcfg, -⟩ := after_sound h hpos env store c.bound
    have hlt := resume_remaining hsound (hcfg ▸ hpos) (not_exists.mp hgoing) store .cancelled 0
    have hbound : c.remaining ≤ c.bound := by
      rw [remaining_considering hidle, bound]
      exact Nat.add_le_add_right (Nat.mul_le_mul_right _ (Nat.sub_le _ _)) 1
    omega

end Call

/-- With `num_retries >= 0` every target is tried at least once. -/
theorem maxTries_pos {cfg : ResilienceConfig} (h : 0 ≤ cfg.numRetries) : 0 < maxTries cfg := by
  unfold maxTries
  split
  · omega
  · exact Nat.one_pos

/-! ## 6. The call as a whole -/

theorem callWithResilience_failOpen (env : Env ρ) (store : ResilienceStore)
    (targets : List CallTarget) (cfg : ResilienceConfig) (redisPrefix : String)
    (sink : List Attempt) (hretries : 0 ≤ cfg.numRetries) :
    let c := ((Call.start targets cfg redisPrefix sink : Call ρ).run env store).1
    c.targets = targets ∧
      ∃ result, c.phase = .finished result ∧ Call.FailOpen sink c result := by
  intro c
  have hpos : 0 < maxTries cfg := maxTries_pos hretries
  have hstart : Call.Sound sink (Call.start targets cfg redisPrefix sink : Call ρ) :=
    Call.Loop.start targets cfg redisPrefix sink
  obtain ⟨hsound, -, htargets⟩ := Call.after_sound hstart hpos env store
    (Call.start targets cfg redisPrefix sink : Call ρ).bound
  obtain ⟨result, hfin⟩ := Call.run_finished hstart hpos env store rfl
  refine ⟨htargets, result, hfin, ?_⟩
  have hend : Call.Sound sink c := hsound
  rwa [Call.Sound, hfin] at hend

/-- One call over a gated chain: the second target has no key, the third answers. -/
theorem callWithResilience_failOpen_chain :
    let env : Env Nat :=
      { now := fun n => n
        outcome := fun n => if n = 1 then .raised ⟨"Timeout", none⟩ else .returned n
        others := fun _ store => store }
    let c := ((Call.start
      [{ model := "gpt-4o", provider := "openai" },
        { model := "command-r", provider := "cohere", hasKey := false },
        { model := "claude", provider := "anthropic" }]
      { enabled := true, numRetries := 0 } "t1" [] : Call Nat).run env {}).1
    ∃ result, c.phase = .finished result ∧ Call.FailOpen [] c result := by
  intro env c
  exact (callWithResilience_failOpen env {} _ { enabled := true, numRetries := 0 } "t1" []
    (le_refl 0)).2

/-- A cancelled call has taken up its target and leaves no entry for it; a single target
    without a key ends in an error that no target raised. -/
theorem not_everyTarget_accounted :
    let target : CallTarget := { model := "gpt-4o", provider := "openai" }
    let env : Env Nat := { now := fun _ => 0, outcome := fun _ => .cancelled, others := fun _ s => s }
    let cut := ((Call.start [target] {} "t1" [] : Call Nat).run env {}).1
    let keyless :=
      ((Call.start [{ target with hasKey := false }] {} "t1" [] : Call Nat).run env {}).1
    (cut.phase = .finished .cancelled ∧ cut.considered = [target] ∧ cut.attempts = [] ∧
        ¬ Trail [] cut.attempts cut.considered) ∧
      (keyless.invocations = [] ∧ keyless.phase = .finished (.allTargetsFailed
        [{ provider := "openai", model := "gpt-4o", outcome := .skippedNoKey }] none)) := by
  intro target env cut keyless
  have hattempts : cut.attempts = [] := by decide
  have hconsidered : cut.considered = [target] := by decide
  refine ⟨⟨by decide, hconsidered, hattempts, ?_⟩, by decide, by decide⟩
  rintro ⟨entries, hentries, hall⟩
  rw [hattempts] at hentries
  rw [hconsidered, (List.append_eq_nil_iff.mp hentries.symm).2] at hall
  cases hall

end TokenProxy.Resilience
