/-
  TokenProxy/BudgetDisclosure.lean
  ================================
  **The disclosure of a raised output budget** (`_serve_core` of `main.py`, the cascade of
  `g06_routing.py`, the failover targets).

  A request may build many calls before one of them serves: the tiers of a cascade, the primary,
  the failover targets.  The cascade keeps the raise of each tier apart and puts back the one of
  the tier that serves; the plain path only ever sets the record (`lastSet`).

  Main results: `cascade_discloses`, the cascade's disclosure is that of the tier that serves;
  `matches_iff`, the disclosure matches the served call unless that is a failover target with
  the caller's own budget, and the budget was raised for a call built before.
-/
import TokenProxy.OutputHeadroom
import TokenProxy.ResilientCallFailOpen
import TokenProxy.TierCascade
import Mathlib.Data.List.ReduceOption

namespace TokenProxy.Disclosure

open Providers Resilience
open Ledger (Run Answer Best Cascade Prices)

/-! ## 1. A record that is only ever set -/

section

variable {β : Type*}

def lastSet (now : Option β) (rs : List (Option β)) : Option β :=
  rs.foldl (fun now r => r.or now) now

theorem lastSet_concat (now : Option β) (rs : List (Option β)) (r : Option β) :
    lastSet now (rs ++ [r]) = r.or (lastSet now rs) := by
  rw [lastSet, List.foldl_append]
  rfl

theorem lastSet_eq_none_iff (now : Option β) (rs : List (Option β)) :
    lastSet now rs = none ↔ now = none ∧ ∀ r ∈ rs, r = none := by
  induction rs generalizing now with
  | nil => exact ⟨fun h => ⟨h, fun r hr => absurd hr List.not_mem_nil⟩, fun h => h.1⟩
  | cons r rs ih =>
    rw [lastSet, List.foldl_cons]
    change lastSet (r.or now) rs = none ↔ _
    rw [ih, Option.or_eq_none_iff, List.forall_mem_cons]
    tauto

/-- The record is the last step's exactly when that set it, or no step did. -/
theorem lastSet_concat_eq_iff (rs : List (Option β)) (r : Option β) :
    lastSet none (rs ++ [r]) = r ↔ r.isSome = true ∨ ∀ r' ∈ rs, r' = none := by
  rw [lastSet_concat]
  cases r with
  | none =>
    rw [Option.none_or, lastSet_eq_none_iff]
    exact ⟨fun h => Or.inr h.2, fun h => ⟨rfl, h.resolve_left Bool.false_ne_true⟩⟩
  | some b => exact iff_of_true rfl (Or.inl rfl)

end

/-! ## 2. Calls and what is disclosed of them -/

variable {py : Python}

/-- A call that was sent: what was reserved for it, and the parameters built for it. -/
structure SentCall (py : Python) where
  candidate : Candidate py
  reserved : Option Raised
  outgoing : Params

/-- The call of a candidate, built in a context; `none` where building it raises. -/
def sentCall (t : Candidate py) (ctx : RequestCtx) : Option (SentCall py) :=
  (t.outgoingParams ctx).1.map fun outgoing => ⟨t, t.reserved ctx.params, outgoing⟩

/-- A raise is disclosed, as that of the caller's budget to the one sent; no raise, nothing. -/
def Matches (params : Params) (disclosed : Option Raised) (call : SentCall py) : Prop :=
  (∀ raised, call.reserved = some raised →
      disclosed = some raised ∧ Describes py raised params call.outgoing) ∧
    (call.reserved = none → disclosed = none)

/-- A call as it is built in a context that has the request's parameters. -/
def BuiltFrom (params : Params) (call : SentCall py) : Prop :=
  ∃ ctx : RequestCtx, SameRest ctx.params params ∧ sentCall call.candidate ctx = some call

theorem BuiltFrom.reserved_eq {params : Params} {call : SentCall py}
    (h : BuiltFrom params call) : call.reserved = call.candidate.reserved params := by
  obtain ⟨ctx, hsame, hsent⟩ := h
  obtain ⟨outgoing, -, hcall⟩ := Option.map_eq_some_iff.mp hsent
  rw [← reserved_congr call.candidate hsame]
  exact (congrArg SentCall.reserved hcall).symm

theorem BuiltFrom.describes {params : Params} {call : SentCall py} (h : BuiltFrom params call)
    {raised : Raised} (hraised : call.reserved = some raised) :
    Describes py raised params call.outgoing := by
  obtain ⟨ctx, hsame, hsent⟩ := h
  obtain ⟨outgoing, hbuilt, hcall⟩ := Option.map_eq_some_iff.mp hsent
  have hreserved : call.candidate.reserved ctx.params = some raised := by
    rw [← hraised]
    exact congrArg SentCall.reserved hcall
  have hdescribes := reserved_describes call.candidate hreserved hbuilt
  have hout : outgoing = call.outgoing := congrArg SentCall.outgoing hcall
  rw [← hout]
  have hparam : param ctx.params raised.param = param params raised.param := by
    have hkey := hdescribes.key
    apply hsame.param_eq
    · rintro heq
      rw [heq] at hkey
      exact absurd hkey (by decide)
    · rintro heq
      rw [heq] at hkey
      exact absurd hkey (by decide)
  exact { hdescribes with own := hparam ▸ hdescribes.own }

/-- What is disclosed matches the call exactly when it is what was reserved for it. -/
theorem matches_iff_eq {params : Params} {disclosed : Option Raised} {call : SentCall py}
    (h : BuiltFrom params call) : Matches params disclosed call ↔ disclosed = call.reserved := by
  constructor
  · rintro ⟨hsome, hnone⟩
    cases hreserved : call.reserved with
    | none => exact hnone hreserved
    | some raised => exact (hsome raised hreserved).1
  · rintro rfl
    exact ⟨fun raised hraised => ⟨hraised, h.describes hraised⟩, fun hnone => hnone⟩

/-! ## 3. The cascade -/

/-- The cascade under way: its calls, the context, and `_budget_raised_by_tier`. -/
structure Tiered where
  run : Run
  ctx : RequestCtx
  budgetRaisedByTier : List (String × Option Raised) := []
  /-- an attempt at a model that fails does so before its parameters are built (no key) -/
  failsEarly : String → Bool := fun _ => false

namespace Tiered

variable (tierOf : String → Candidate py)

/-- `_tier_params(model)`. -/
def tierParams (s : Tiered) (model : String) : Option (SentCall py) × Tiered :=
  let cleared : RequestCtx := { s.ctx with outputBudgetRaised := none }
  let ctx := ((tierOf model).outgoingParams cleared).2
  match sentCall (tierOf model) cleared with
  | none => (none, { s with ctx })
  | some call =>
    (some call,
      { s with
        ctx
        budgetRaisedByTier := Assoc.insert model ctx.outputBudgetRaised s.budgetRaisedByTier })

/-- A tier's call, with what was sent. -/
def tierCall (env : Prices) (s : Tiered) (model : String) :
    Option (Answer × SentCall py) × Tiered :=
  if (s.run.timedLlm env model).1 = none ∧ s.failsEarly model = true then
    (none, { s with run := (s.run.timedLlm env model).2 })
  else
    match s.tierParams tierOf model with
    | (none, s') => (none, s')
    | (some call, s') =>
      let answered := s'.run.timedLlm env model
      (answered.1.map fun answer => (answer, call), { s' with run := answered.2 })

end Tiered

/-- The model that answered, its answer and its call. -/
abbrev Final (py : Python) := Option (String × Answer × SentCall py)

section

variable (k : Cascade) (env : Prices) (tierOf : String → Candidate py)

/-- `_serve`: the one place where the disclosure is committed. -/
def serve (tier1 : String) (s : Tiered) (best : Best) (call : SentCall py) : Final py × Tiered :=
  let committed : RequestCtx := { s.ctx with
    outputBudgetRaised := (Assoc.lookup best.model s.budgetRaisedByTier).getD none }
  let served := k.serve env tier1 s.run best
  (served.1.map fun final => (final.1, final.2, call),
    { s with ctx := committed, run := served.2 })

def tierThree (tier1 : String) (s : Tiered) (best : Best) (call : SentCall py) :
    Final py × Tiered :=
  if !k.complexModels.isEmpty && decide (2 ≤ k.maxTier) then
    match k.selectFromTier k.complexModels "complex" with
    | none => (none, s)
    | some model =>
      let cost := k.tierCost env s.run model
      if k.escalationBlocked cost best.cost (k.tierCost env s.run s.run.ctx.model) then
        serve k env tier1 s best call
      else
        match s.tierCall tierOf env model with
        | (some (answer, call'), s') => serve k env tier1 s' { model, answer, cost } call'
        | (none, s') => serve k env tier1 s' best call
  else serve k env tier1 s best call

def tierTwo (tier1 : String) (s : Tiered) (best : Best) (call : SentCall py) :
    Final py × Tiered :=
  if !k.mediumModels.isEmpty && decide (1 ≤ k.maxTier) then
    match k.selectFromTier k.mediumModels "medium" with
    | none => (none, s)
    | some model =>
      let cost := k.tierCost env s.run model
      if k.escalationBlocked cost best.cost (k.tierCost env s.run s.run.ctx.model) then
        tierThree k env tierOf tier1 s best call
      else
        match s.tierCall tierOf env model with
        | (some (answer, call'), s') =>
          let judged := k.confidence env s'.run answer
          if k.confidenceThreshold ≤ judged.1 then
            serve k env tier1 { s' with run := judged.2 } { model, answer, cost } call'
          else
            tierThree k env tierOf tier1 { s' with run := judged.2 } { model, answer, cost } call'
        | (none, s') => serve k env tier1 s' best call
  else tierThree k env tierOf tier1 s best call

/-- `_execute_three_tier_cascade`, with the disclosure. -/
def executeThreeTierCascade (s : Tiered) : Final py × Tiered :=
  if k.simpleModels.isEmpty then (none, s)
  else
    match k.firstTier with
    | none => (none, s)
    | some tier1 =>
      if !k.hasProviderKey tier1 then (none, s)
      else
        match s.tierCall tierOf env tier1 with
        | (none, s') => (none, s')
        | (some (answer, call), s') =>
          let best := { model := tier1, answer, cost := k.tierCost env s.run tier1 }
          let judged := k.confidence env s'.run answer
          if k.confidenceThreshold ≤ judged.1 then
            serve k env tier1 { s' with run := judged.2 } best call
          else tierTwo k env tierOf tier1 { s' with run := judged.2 } best call

end

/-! ## 4. What the cascade discloses -/

section

variable (tierOf : String → Candidate py) (params : Params)

/-- The request's parameters are as they were, and the tiers' raises are those of the tiers. -/
structure Kept (s : Tiered) : Prop where
  same : SameRest s.ctx.params params
  raises : ∀ model raised, Assoc.lookup model s.budgetRaisedByTier = some raised →
    raised = (tierOf model).reserved params

/-- The call is that of a tier whose raise is kept. -/
structure Answered (s : Tiered) (model : String) (call : SentCall py) : Prop where
  kept : (Assoc.lookup model s.budgetRaisedByTier).isSome = true
  candidate : call.candidate = tierOf model
  built : BuiltFrom params call

variable {tierOf params}

theorem Kept.run {s : Tiered} (h : Kept tierOf params s) (run : Run) :
    Kept tierOf params { s with run } := ⟨h.same, h.raises⟩

theorem Answered.run {s : Tiered} {model : String} {call : SentCall py}
    (h : Answered tierOf params s model call) (run : Run) :
    Answered tierOf params { s with run } model call := ⟨h.kept, h.candidate, h.built⟩

theorem sameRest_outgoingParams (t : Candidate py) {ctx : RequestCtx}
    (h : SameRest ctx.params params) : SameRest (t.outgoingParams ctx).2.params params :=
  (sameRest_built t.target ctx.params).trans h

/-- What `_tier_params` keeps, and the call that it builds. -/
theorem kept_tierParams {s : Tiered} (h : Kept tierOf params s) (model : String) :
    Kept tierOf params (s.tierParams tierOf model).2 ∧
      (∀ {best : String} {call : SentCall py}, Answered tierOf params s best call →
        Answered tierOf params (s.tierParams tierOf model).2 best call) ∧
      ∀ call, (s.tierParams tierOf model).1 = some call →
        Answered tierOf params (s.tierParams tierOf model).2 model call := by
  have hcleared : SameRest { s.ctx with outputBudgetRaised := none }.params params := h.same
  have hsame := sameRest_outgoingParams (tierOf model) hcleared
  rw [Tiered.tierParams]
  cases hsent : sentCall (tierOf model) { s.ctx with outputBudgetRaised := none } with
  | none =>
    refine ⟨⟨hsame, h.raises⟩, fun hbest => ⟨hbest.kept, hbest.candidate, hbest.built⟩, ?_⟩
    rintro call ⟨⟩
  | some call =>
    have hraised : (((tierOf model).outgoingParams
        { s.ctx with outputBudgetRaised := none }).2).outputBudgetRaised =
        (tierOf model).reserved params := by
      rw [Candidate.outgoingParams]
      change ((tierOf model).reserved s.ctx.params).or none = _
      rw [Option.or_none, reserved_congr (tierOf model) h.same]
    have hcandidate : call.candidate = tierOf model := by
      obtain ⟨outgoing, -, hcall⟩ := Option.map_eq_some_iff.mp hsent
      exact (congrArg SentCall.candidate hcall).symm
    refine ⟨⟨hsame, ?_⟩, ?_, ?_⟩
    · intro other raised hlookup
      dsimp only at hlookup
      rw [Assoc.lookup_insert] at hlookup
      split at hlookup
      · rename_i heq
        rw [← Option.some.inj hlookup, hraised, heq]
      · exact h.raises other raised hlookup
    · rintro best call' ⟨hkept, hcand, hbuilt⟩
      refine ⟨?_, hcand, hbuilt⟩
      dsimp only
      rw [Assoc.lookup_insert]
      split
      · rfl
      · exact hkept
    · rintro call' ⟨⟩
      refine ⟨?_, hcandidate, _, h.same, hcandidate ▸ hsent⟩
      dsimp only
      rw [Assoc.lookup_insert_self]
      rfl

theorem kept_tierCall (env : Prices) {s : Tiered} (h : Kept tierOf params s) (model : String) :
    Kept tierOf params (s.tierCall tierOf env model).2 ∧
      (∀ {best : String} {call : SentCall py}, Answered tierOf params s best call →
        Answered tierOf params (s.tierCall tierOf env model).2 best call) ∧
      ∀ answer call, (s.tierCall tierOf env model).1 = some (answer, call) →
        Answered tierOf params (s.tierCall tierOf env model).2 model call := by
  obtain ⟨hkept, hbest, hcall⟩ := kept_tierParams h model
  rw [Tiered.tierCall]
  split
  · refine ⟨h.run _, fun h' => h'.run _, ?_⟩
    rintro answer call ⟨⟩
  · rcases hbuilt : s.tierParams tierOf model with ⟨_ | call, s'⟩
    · rw [hbuilt] at hkept hbest
      refine ⟨hkept, hbest, ?_⟩
      rintro answer call ⟨⟩
    · rw [hbuilt] at hkept hbest hcall
      refine ⟨hkept.run _, fun h' => (hbest h').run _, ?_⟩
      intro answer call' hanswer
      obtain ⟨answer', -, heq⟩ := Option.map_eq_some_iff.mp hanswer
      have hsame : call = call' := congrArg Prod.snd heq
      rw [← hsame]
      exact (hcall call rfl).run _

/-- What is disclosed at the end of the cascade is what was reserved for the call that serves. -/
def Disclosed (params : Params) (r : Final py × Tiered) : Prop :=
  SameRest r.2.ctx.params params ∧
    ∀ model answer call, r.1 = some (model, answer, call) →
      r.2.ctx.outputBudgetRaised = call.reserved ∧ BuiltFrom params call

theorem disclosed_none {s : Tiered} (h : Kept tierOf params s) :
    Disclosed params ((none, s) : Final py × Tiered) := by
  refine ⟨h.same, ?_⟩
  rintro model answer call ⟨⟩

variable (k : Cascade) (env : Prices)

theorem disclosed_serve {tier1 : String} {s : Tiered} {best : Best} {call : SentCall py}
    (h : Kept tierOf params s) (hbest : Answered tierOf params s best.model call) :
    Disclosed params (serve k env tier1 s best call) := by
  refine ⟨h.same, ?_⟩
  intro model answer call' hfinal
  obtain ⟨final, -, heq⟩ := Option.map_eq_some_iff.mp hfinal
  have hcall : call = call' := congrArg (fun r : String × Answer × SentCall py => r.2.2) heq
  rw [← hcall]
  refine ⟨?_, hbest.built⟩
  obtain ⟨raised, hraised⟩ := Option.isSome_iff_exists.mp hbest.kept
  change (Assoc.lookup best.model s.budgetRaisedByTier).getD none = call.reserved
  rw [hraised, hbest.built.reserved_eq, hbest.candidate]
  exact h.raises best.model raised hraised

theorem disclosed_tierThree {tier1 : String} {s : Tiered} {best : Best} {call : SentCall py}
    (h : Kept tierOf params s) (hbest : Answered tierOf params s best.model call) :
    Disclosed params (tierThree k env tierOf tier1 s best call) := by
  unfold tierThree
  split
  · split
    · exact disclosed_none h
    · rename_i model _
      dsimp only
      split
      · exact disclosed_serve k env h hbest
      · obtain ⟨hkept, hstill, hcall⟩ := kept_tierCall env h model
        split
        · rename_i answer call' s' heq
          rw [heq] at hkept hcall
          exact disclosed_serve k env hkept (hcall answer call' rfl)
        · rename_i s' heq
          rw [heq] at hkept hstill
          exact disclosed_serve k env hkept (hstill hbest)
  · exact disclosed_serve k env h hbest

theorem disclosed_tierTwo {tier1 : String} {s : Tiered} {best : Best} {call : SentCall py}
    (h : Kept tierOf params s) (hbest : Answered tierOf params s best.model call) :
    Disclosed params (tierTwo k env tierOf tier1 s best call) := by
  unfold tierTwo
  split
  · split
    · exact disclosed_none h
    · rename_i model _
      dsimp only
      split
      · exact disclosed_tierThree k env h hbest
      · obtain ⟨hkept, hstill, hcall⟩ := kept_tierCall env h model
        split
        · rename_i answer call' s' heq
          rw [heq] at hkept hcall
          have hnew := hcall answer call' rfl
          split
          · exact disclosed_serve k env (hkept.run _) (hnew.run _)
          · exact disclosed_tierThree k env (hkept.run _) (hnew.run _)
        · rename_i s' heq
          rw [heq] at hkept hstill
          exact disclosed_serve k env hkept (hstill hbest)
  · exact disclosed_tierThree k env h hbest

/-- **The cascade discloses what was reserved for the call of the tier that serves.** -/
theorem cascade_discloses {s : Tiered} (h : Kept tierOf params s) :
    Disclosed params (executeThreeTierCascade k env tierOf s) := by
  unfold executeThreeTierCascade
  split
  · exact disclosed_none h
  · split
    · exact disclosed_none h
    · rename_i tier1 _
      split
      · exact disclosed_none h
      · obtain ⟨hkept, -, hcall⟩ := kept_tierCall env h tier1
        split
        · rename_i s' heq
          rw [heq] at hkept
          exact disclosed_none hkept
        · rename_i answer call s' heq
          rw [heq] at hkept hcall
          have hnew := hcall answer call rfl
          dsimp only
          split
          · exact disclosed_serve k env (hkept.run _) (hnew.run _)
          · exact disclosed_tierTwo k env (hkept.run _) (hnew.run _)

end

/-! ### The cascade and its calls -/

section

variable (k : Cascade) (env : Prices) (tierOf : String → Candidate py)

/-- No tier's parameters fail to build. -/
def Builds : Prop := ∀ model ctx, (sentCall (tierOf model) ctx).isSome = true

def unsent (r : Final py × Tiered) : Option (String × Answer) × Run :=
  (r.1.map fun final => (final.1, final.2.1), r.2.run)

variable {tierOf}

theorem tierCall_run (hbuilds : Builds tierOf) (s : Tiered) (model : String) :
    ((s.tierCall tierOf env model).1.map Prod.fst, (s.tierCall tierOf env model).2.run) =
      s.run.timedLlm env model := by
  obtain ⟨call, hcall⟩ := Option.isSome_iff_exists.mp
    (hbuilds model { s.ctx with outputBudgetRaised := none })
  rw [Tiered.tierCall]
  split
  · rename_i hearly
    exact Prod.ext hearly.1.symm rfl
  · rw [Tiered.tierParams, hcall]
    dsimp only
    rw [Option.map_map]
    refine Prod.ext ?_ rfl
    cases (s.run.timedLlm env model).1 <;> rfl

theorem unsent_serve (tier1 : String) (s : Tiered) (best : Best) (call : SentCall py) :
    unsent (serve k env tier1 s best call) = k.serve env tier1 s.run best := by
  refine Prod.ext ?_ rfl
  change Option.map _ (Option.map _ (k.serve env tier1 s.run best).1) = _
  cases (k.serve env tier1 s.run best).1 <;> rfl

theorem unsent_tierThree (hbuilds : Builds tierOf) (tier1 : String) (s : Tiered) (best : Best)
    (call : SentCall py) :
    unsent (tierThree k env tierOf tier1 s best call) = k.tierThree env tier1 s.run best := by
  unfold tierThree Cascade.tierThree
  split
  · cases k.selectFromTier k.complexModels "complex" with
    | none => rfl
    | some model =>
      dsimp only
      split
      · exact unsent_serve k env tier1 s best call
      · have hrun := tierCall_run env hbuilds s model
        rcases hcall : s.tierCall tierOf env model with ⟨_ | ⟨answer, call'⟩, s'⟩
        · rw [hcall] at hrun
          rw [← hrun]
          exact unsent_serve k env tier1 s' best call
        · rw [hcall] at hrun
          rw [← hrun]
          exact unsent_serve k env tier1 s' _ call'
  · exact unsent_serve k env tier1 s best call

theorem unsent_tierTwo (hbuilds : Builds tierOf) (tier1 : String) (s : Tiered) (best : Best)
    (call : SentCall py) :
    unsent (tierTwo k env tierOf tier1 s best call) = k.tierTwo env tier1 s.run best := by
  unfold tierTwo Cascade.tierTwo
  split
  · cases k.selectFromTier k.mediumModels "medium" with
    | none => rfl
    | some model =>
      dsimp only
      split
      · exact unsent_tierThree k env hbuilds tier1 s best call
      · have hrun := tierCall_run env hbuilds s model
        rcases hcall : s.tierCall tierOf env model with ⟨_ | ⟨answer, call'⟩, s'⟩
        · rw [hcall] at hrun
          rw [← hrun]
          exact unsent_serve k env tier1 s' best call
        · rw [hcall] at hrun
          rw [← hrun]
          dsimp only [Option.map_some]
          split
          · exact unsent_serve k env tier1 _ _ call'
          · exact unsent_tierThree k env hbuilds tier1 _ _ call'
  · exact unsent_tierThree k env hbuilds tier1 s best call

/-- Without its disclosure the cascade is the cascade of the ledger. -/
theorem unsent_executeThreeTierCascade (hbuilds : Builds tierOf) (s : Tiered) :
    unsent (executeThreeTierCascade k env tierOf s) = k.executeThreeTierCascade env s.run := by
  unfold executeThreeTierCascade Cascade.executeThreeTierCascade
  split
  · rfl
  · cases k.firstTier with
    | none => rfl
    | some tier1 =>
      dsimp only
      split
      · rfl
      · have hrun := tierCall_run env hbuilds s tier1
        rcases hcall : s.tierCall tierOf env tier1 with ⟨_ | ⟨answer, call'⟩, s'⟩
        · rw [hcall] at hrun
          rw [← hrun]
          rfl
        · rw [hcall] at hrun
          rw [← hrun]
          dsimp only [Option.map_some]
          split
          · exact unsent_serve k env tier1 _ _ call'
          · exact unsent_tierTwo k env hbuilds tier1 _ _ call'

end

/-! ## 5. Failover -/

section

variable {ρ : Type*}

/-- The targets are invoked in order, and a call that returns has invoked last the target that
answered. -/
structure InOrder (c : Call ρ) : Prop where
  tried : ∀ inv ∈ c.invocations, inv.1 ≤ c.done
  last : ∀ r, c.phase = .finished (.returned r) →
    ∃ before i, c.invocations = before ++ [(i, .returned r)] ∧ ∀ inv ∈ before, inv.1 ≤ i

theorem InOrder.moved {c c' : Call ρ} (h : InOrder c)
    (hinvocations : c'.invocations = c.invocations) (hdone : c.done ≤ c'.done)
    (hphase : ∀ r, c'.phase ≠ .finished (.returned r)) : InOrder c' where
  tried inv hinv := (h.tried inv (hinvocations ▸ hinv)).trans hdone
  last r hr := absurd hr (hphase r)

theorem InOrder.logged {c : Call ρ} (h : InOrder c) (outcome : Outcome ρ) :
    ∀ inv ∈ (c.logged outcome).invocations, inv.1 ≤ c.done := by
  intro inv hinv
  rcases List.mem_append.mp hinv with hold | hnew
  · exact h.tried inv hold
  · rw [List.mem_singleton.mp hnew]

theorem resume_inOrder {c : Call ρ} (h : InOrder c) (store : ResilienceStore)
    (outcome : Outcome ρ) (now : Seconds) : InOrder (c.resume store outcome now).1 := by
  unfold Call.resume
  cases hphase : c.phase with
  | considering =>
    dsimp only
    rcases c.consider_cases store now with
      ⟨-, heq⟩ | ⟨target, -, ⟨reason, -, heq⟩ | ⟨-, heq⟩⟩
    · rw [heq]
      refine InOrder.moved h ?_ ?_ ?_
      · rfl
      · exact Nat.le_refl c.done
      · intro r hr
        exact c.exhausted_ne_returned r (Phase.finished.inj hr)
    · rw [heq]
      refine InOrder.moved h ?_ ?_ ?_
      · rfl
      · exact Nat.le_succ c.done
      · intro r hr
        cases hphase.symm.trans hr
    · rw [heq, Call.startAttempts]
      split
      · refine InOrder.moved h ?_ ?_ ?_
        · rfl
        · exact Nat.le_refl c.done
        · intro r hr
          cases hr
      · refine InOrder.moved h ?_ ?_ ?_
        · rfl
        · exact Nat.le_succ c.done
        · intro r hr
          cases hphase.symm.trans hr
  | invoking target attemptI =>
    cases outcome with
    | returned result =>
      refine ⟨fun inv hinv => (h.logged _ inv hinv).trans (Nat.le_succ _), ?_⟩
      rintro r ⟨⟩
      exact ⟨c.invocations, c.done, rfl, h.tried⟩
    | raised exc =>
      dsimp only
      have hlogged := h.logged (.raised exc)
      rcases (c.logged (.raised exc)).onError_cases target attemptI exc with
        ⟨-, heq⟩ | ⟨-, heq⟩ | heq
      · rw [heq]
        refine ⟨hlogged, ?_⟩
        rintro r ⟨⟩
      · rw [heq]
        refine ⟨fun inv hinv => (hlogged inv hinv).trans (Nat.le_succ _), ?_⟩
        rintro r ⟨⟩
      · rw [heq]
        refine ⟨fun inv hinv => (hlogged inv hinv).trans (Nat.le_succ _), ?_⟩
        rintro r ⟨⟩
    | cancelled =>
      refine ⟨h.logged _, ?_⟩
      rintro r ⟨⟩
  | sleeping target attemptI =>
    cases outcome with
    | returned result =>
      refine ⟨h.tried, ?_⟩
      rintro r ⟨⟩
    | raised exc =>
      refine ⟨h.tried, ?_⟩
      rintro r ⟨⟩
    | cancelled =>
      refine ⟨h.tried, ?_⟩
      rintro r ⟨⟩
  | finished result => exact h

theorem after_inOrder {c : Call ρ} (h : InOrder c) (env : Env ρ) (store : ResilienceStore)
    (n : Nat) : InOrder (Call.after env (c, store) n).1 := by
  induction n with
  | zero => exact h
  | succ n ih => exact resume_inOrder ih _ _ _

/-- The plain path of a request: its primary, its failover targets and how the calls go. -/
structure PlainPath (py : Python) (ρ : Type*) where
  primary : Candidate py
  fallbacks : List (Candidate py)
  /-- the primary has a key, or needs none -/
  hasKey : Bool := true
  /-- `_resolve_provider(model)` -/
  providerOf : String → String
  cfg : ResilienceConfig
  redisPrefix : String := ""
  attemptsSink : List Attempt := []
  store : ResilienceStore
  env : Env ρ
  /-- a failover target's key is found at the `n`-th invocation, which may still fail -/
  keyed : Nat → Bool

namespace PlainPath

variable (p : PlainPath py ρ)

def targets : List CallTarget :=
  { model := p.primary.target.model
    provider := p.providerOf p.primary.target.model
    hasKey := p.hasKey } ::
  p.fallbacks.map fun t => { model := t.target.model, provider := p.providerOf t.target.model }

/-- `call_with_resilience(_targets, ..)`, at its end. -/
def call : Call ρ :=
  ((Call.start p.targets p.cfg p.redisPrefix p.attemptsSink).run p.env p.store).1

/-- The candidate that an invocation builds a call for: a failover target, once its key is
found.  The primary's call is built before. -/
def invoked (n : Nat) (inv : Nat × Outcome ρ) : Option (Candidate py) :=
  let found := match inv.2 with
    | .returned _ => true
    | _ => p.keyed n
  match inv.1 with
  | 0 => none
  | i + 1 => if found then p.fallbacks[i]? else none

/-- The candidates that a part of the log builds calls for, in order. -/
def builtBy (invocations : List (Nat × Outcome ρ)) : List (Candidate py) :=
  (invocations.mapIdx p.invoked).reduceOption

/-- The context after calls were built in it. -/
def buildAll (ctx : RequestCtx) (ts : List (Candidate py)) : RequestCtx :=
  ts.foldl (fun ctx t => (t.outgoingParams ctx).2) ctx

/-- The call that serves, and the context then; no call where none returns. -/
def serve (ctx : RequestCtx) : Option (SentCall py) × RequestCtx :=
  match sentCall p.primary ctx with
  | none => (none, (p.primary.outgoingParams ctx).2)
  | some primaryCall =>
    let ctx := (p.primary.outgoingParams ctx).2
    let served := match p.call.phase, p.call.invocations.getLast? with
      | .finished (.returned _), some (0, _) => some primaryCall
      | .finished (.returned _), some (i + 1, _) =>
        (p.fallbacks[i]?).bind fun t =>
          sentCall t (buildAll ctx (p.builtBy p.call.invocations.dropLast))
      | _, _ => none
    (served, buildAll ctx (p.builtBy p.call.invocations))

/-- The candidate whose call serves. -/
def served : Option (Candidate py) :=
  match p.call.phase, p.call.invocations.getLast? with
  | .finished (.returned _), some (0, _) => some p.primary
  | .finished (.returned _), some (i + 1, _) => p.fallbacks[i]?
  | _, _ => none

/-- The candidates whose calls were built before the one that serves. -/
def builtBefore : List (Candidate py) := p.primary :: p.builtBy p.call.invocations.dropLast

/-- The call that serves has a raised budget of its own, or none built before it has one. -/
def Clean (params : Params) : Prop :=
  ∀ t, p.served = some t →
    (t.reserved params).isSome = true ∨ ∀ t' ∈ p.builtBefore, t'.reserved params = none

variable {p}

theorem call_inOrder : InOrder p.call := by
  have hstart : InOrder
      (Call.start p.targets p.cfg p.redisPrefix p.attemptsSink : Call ρ) := by
    refine ⟨fun inv hinv => absurd hinv List.not_mem_nil, ?_⟩
    intro r hr
    cases hr
  exact after_inOrder hstart _ _ _

theorem buildAll_spec {params : Params} (ts : List (Candidate py)) {ctx : RequestCtx}
    (h : SameRest ctx.params params) :
    SameRest (buildAll ctx ts).params params ∧
      (buildAll ctx ts).outputBudgetRaised =
        lastSet ctx.outputBudgetRaised (ts.map fun t => t.reserved params) := by
  induction ts generalizing ctx with
  | nil => exact ⟨h, rfl⟩
  | cons t ts ih =>
    obtain ⟨hsame, hraised⟩ := ih (sameRest_outgoingParams t h)
    refine ⟨hsame, hraised.trans ?_⟩
    rw [Candidate.outgoingParams, reserved_congr t h]
    rfl

theorem builtBy_concat (before : List (Nat × Outcome ρ)) (inv : Nat × Outcome ρ) :
    p.builtBy (before ++ [inv]) = p.builtBy before ++ (p.invoked before.length inv).toList := by
  rw [builtBy, List.mapIdx_concat, ← List.concat_eq_append, List.reduceOption_concat]
  rfl

theorem builtBy_primary {invocations : List (Nat × Outcome ρ)}
    (h : ∀ inv ∈ invocations, inv.1 = 0) : p.builtBy invocations = [] := by
  induction invocations using List.reverseRecOn with
  | nil => rfl
  | append_singleton before inv ih =>
    have hzero := h inv (List.mem_append_right _ (List.mem_singleton.mpr rfl))
    have hnone : p.invoked before.length inv = none := by
      rw [invoked, hzero]
    rw [builtBy_concat, ih fun inv' hinv' => h inv' (List.mem_append_left _ hinv'), hnone]
    rfl

theorem sentCall_builtFrom {params : Params} {t : Candidate py} {ctx : RequestCtx}
    {call : SentCall py} (hsame : SameRest ctx.params params) (h : sentCall t ctx = some call) :
    call.candidate = t ∧ BuiltFrom params call := by
  have hcandidate : call.candidate = t := by
    obtain ⟨outgoing, -, hcall⟩ := Option.map_eq_some_iff.mp h
    exact (congrArg SentCall.candidate hcall).symm
  exact ⟨hcandidate, ctx, hsame, hcandidate ▸ h⟩

/-- A run of the log in which the primary answers builds no other call. -/
theorem builtBy_of_primary {before : List (Nat × Outcome ρ)} {r : ρ}
    (h : ∀ inv ∈ before, inv.1 ≤ 0) :
    p.builtBy before = [] ∧ p.builtBy (before ++ [(0, .returned r)]) = [] := by
  have hbefore : ∀ inv ∈ before, inv.1 = 0 := fun inv hinv => Nat.le_zero.mp (h inv hinv)
  refine ⟨builtBy_primary hbefore, builtBy_primary ?_⟩
  intro inv hinv
  rcases List.mem_append.mp hinv with hold | hnew
  · exact hbefore inv hold
  · rw [List.mem_singleton.mp hnew]

/-- The record after the primary's call and others were built. -/
theorem raised_buildAll {params : Params} {ctx : RequestCtx} (hsame : SameRest ctx.params params)
    (hnone : ctx.outputBudgetRaised = none) (ts : List (Candidate py)) :
    (buildAll (p.primary.outgoingParams ctx).2 ts).outputBudgetRaised =
      lastSet none ((p.primary :: ts).map fun t => t.reserved params) := by
  have hraised : (p.primary.outgoingParams ctx).2.outputBudgetRaised =
      (p.primary.reserved params).or none := by
    change (p.primary.reserved ctx.params).or ctx.outputBudgetRaised = _
    rw [hnone, reserved_congr p.primary hsame]
  rw [(buildAll_spec ts (sameRest_outgoingParams p.primary hsame)).2, hraised]
  rfl

theorem lastSet_reserved_iff (params : Params) (before : List (Candidate py))
    (t : Candidate py) :
    lastSet none ((before ++ [t]).map fun t => t.reserved params) = t.reserved params ↔
      (t.reserved params).isSome = true ∨ ∀ t' ∈ before, t'.reserved params = none := by
  rw [List.map_append, List.map_singleton, lastSet_concat_eq_iff, List.forall_mem_map]

/-- **On the plain path the disclosure matches the served call exactly when that has a raised
budget of its own, or no call built before it has one.** -/
theorem serve_matches_iff {params : Params} {ctx ctx' : RequestCtx} {call : SentCall py}
    (hsame : SameRest ctx.params params) (hnone : ctx.outputBudgetRaised = none)
    (h : p.serve ctx = (some call, ctx')) :
    Matches params ctx'.outputBudgetRaised call ↔ p.Clean params := by
  rw [serve] at h
  cases hprimary : sentCall p.primary ctx with
  | none =>
    rw [hprimary] at h
    cases congrArg Prod.fst h
  | some primaryCall =>
    rw [hprimary] at h
    obtain ⟨hserved, hctx⟩ := Prod.mk.inj h
    rw [← hctx]
    cases hphase : p.call.phase with
    | considering => rw [hphase] at hserved; cases hserved
    | invoking target attemptI => rw [hphase] at hserved; cases hserved
    | sleeping target attemptI => rw [hphase] at hserved; cases hserved
    | finished result =>
      cases result with
      | raised exc => rw [hphase] at hserved; cases hserved
      | allTargetsFailed attempts lastError => rw [hphase] at hserved; cases hserved
      | cancelled => rw [hphase] at hserved; cases hserved
      | returned r =>
        obtain ⟨before, i, hlog, horder⟩ := call_inOrder.last r hphase
        rw [Clean, served, builtBefore, hphase, hlog, List.getLast?_concat,
          List.dropLast_concat]
        rw [hphase, hlog, List.getLast?_concat, List.dropLast_concat] at hserved
        cases i with
        | zero =>
          obtain ⟨hcandidate, hfrom⟩ := sentCall_builtFrom hsame hprimary
          obtain ⟨hbefore, hbuilt⟩ := builtBy_of_primary (p := p) (r := r) horder
          have hcall : primaryCall = call := Option.some.inj hserved
          rw [← hcall, matches_iff_eq hfrom, hbuilt, hbefore, hfrom.reserved_eq, hcandidate,
            raised_buildAll hsame hnone]
          refine iff_of_true (Option.or_none) ?_
          rintro t ⟨⟩
          cases hreserved : p.primary.reserved params with
          | some raised => exact Or.inl rfl
          | none =>
            refine Or.inr fun t ht => ?_
            rw [List.mem_singleton.mp ht]
            exact hreserved
        | succ i =>
          obtain ⟨t, ht, hsent⟩ := Option.bind_eq_some_iff.mp hserved
          have hinvoked : p.invoked before.length (i + 1, Outcome.returned r) = some t := ht
          obtain ⟨hbeforeSame, -⟩ := buildAll_spec (p.builtBy before)
            (sameRest_outgoingParams p.primary hsame)
          obtain ⟨hcandidate, hfrom⟩ := sentCall_builtFrom hbeforeSame hsent
          rw [builtBy_concat, hinvoked, matches_iff_eq hfrom, hfrom.reserved_eq, hcandidate,
            raised_buildAll hsame hnone, Option.toList_some, ← List.cons_append,
            lastSet_reserved_iff]
          constructor
          · intro hclean t' ht'
            have heq : t = t' := Option.some.inj (ht.symm.trans ht')
            rw [← heq]
            exact hclean
          · intro hclean
            exact hclean t ht

end PlainPath

end

/-! ## 6. The request -/

section

variable {ρ : Type*}

/-- A planned cascade, with the calls it makes. -/
structure PlannedCascade (py : Python) where
  cascade : Cascade
  env : Prices
  tierOf : String → Candidate py
  run : Run
  failsEarly : String → Bool := fun _ => false

/-- The cascade's call where its answer is served; otherwise the context is cleared. -/
def PlannedCascade.answer (c : PlannedCascade py) (params : Params) :
    Option (SentCall py) × RequestCtx :=
  let executed := executeThreeTierCascade c.cascade c.env c.tierOf
    { run := c.run, ctx := { params }, failsEarly := c.failsEarly }
  match executed.1 with
  | some (model, answer, call) =>
    if model ≠ "" ∧ answer.response.isObj = true ∧ answer.response.get? "error" = none then
      (some call, executed.2.ctx)
    else (none, { executed.2.ctx with outputBudgetRaised := none })
  | none => (none, { executed.2.ctx with outputBudgetRaised := none })

/-- The model of the plain path after a cascade failed: never the model that just failed. -/
def reroute (model routedModel : String) (failedTier1 : Option String) : String :=
  if model ≠ "" ∧ some routedModel = failedTier1 ∧ some model ≠ failedTier1 then model
  else routedModel

structure Request (py : Python) (ρ : Type*) where
  params : Params
  model : String
  routedModel : String
  cascade : Option (PlannedCascade py)
  /-- `ctx.agent_dispatched`, with an agent's answer -/
  agentAnswers : Bool := false
  plainOf : String → PlainPath py ρ

namespace Request

variable (q : Request py ρ)

/-- The plain path, unless an agent has answered. -/
def afterCascade (routedModel : String) (ctx : RequestCtx) : Option (SentCall py) × RequestCtx :=
  if q.agentAnswers then (none, ctx) else (q.plainOf routedModel).serve ctx

/-- `_serve_core`, from the cascade on: the provider call that serves, and the context. -/
def serveCore : Option (SentCall py) × RequestCtx :=
  match q.cascade with
  | none => q.afterCascade q.routedModel { params := q.params }
  | some c =>
    match c.answer q.params with
    | (some call, ctx) => (some call, ctx)
    | (none, ctx) => q.afterCascade (reroute q.model q.routedModel c.cascade.tier1Model) ctx

/-- The plain path that a request takes; none where its cascade serves. -/
def plainPath : Option (PlainPath py ρ) :=
  match q.cascade with
  | none => some (q.plainOf q.routedModel)
  | some c =>
    match (c.answer q.params).1 with
    | some _ => none
    | none => some (q.plainOf (reroute q.model q.routedModel c.cascade.tier1Model))

end Request

/-- A cascade that serves discloses its call; one that does not leaves no disclosure. -/
theorem answer_spec (c : PlannedCascade py) (params : Params) :
    SameRest (c.answer params).2.params params ∧
      (∀ call, (c.answer params).1 = some call →
        Matches params (c.answer params).2.outputBudgetRaised call) ∧
      ((c.answer params).1 = none → (c.answer params).2.outputBudgetRaised = none) := by
  have hstart : Kept c.tierOf params
      { run := c.run, ctx := { params }, failsEarly := c.failsEarly } := by
    refine ⟨SameRest.refl params, ?_⟩
    rintro model raised ⟨⟩
  obtain ⟨hsame, hfinal⟩ := cascade_discloses c.cascade c.env hstart
  rw [PlannedCascade.answer]
  dsimp only
  cases hexecuted : (executeThreeTierCascade c.cascade c.env c.tierOf
      { run := c.run, ctx := { params }, failsEarly := c.failsEarly }).1 with
  | none =>
    refine ⟨hsame, ?_, fun _ => rfl⟩
    rintro call ⟨⟩
  | some final =>
    obtain ⟨model, answer, call⟩ := final
    dsimp only
    split
    · obtain ⟨hraised, hfrom⟩ := hfinal model answer call hexecuted
      refine ⟨hsame, ?_, ?_⟩
      · rintro call' ⟨⟩
        exact (matches_iff_eq hfrom).mpr hraised
      · rintro ⟨⟩
    · refine ⟨hsame, ?_, fun _ => rfl⟩
      rintro call' ⟨⟩

theorem afterCascade_matches_iff (q : Request py ρ) {routedModel : String}
    {ctx ctx' : RequestCtx} {call : SentCall py} (hsame : SameRest ctx.params q.params)
    (hnone : ctx.outputBudgetRaised = none)
    (h : q.afterCascade routedModel ctx = (some call, ctx')) :
    Matches q.params ctx'.outputBudgetRaised call ↔ (q.plainOf routedModel).Clean q.params := by
  rw [Request.afterCascade] at h
  split at h
  · cases congrArg Prod.fst h
  · exact PlainPath.serve_matches_iff hsame hnone h

/-- **The disclosure matches the served call** unless the plain path serves a call with the
caller's own budget after a call with a raised one was built. -/
theorem disclosure_matches_iff (q : Request py ρ) {call : SentCall py} {ctx : RequestCtx}
    (h : q.serveCore = (some call, ctx)) :
    Matches q.params ctx.outputBudgetRaised call ↔
      ∀ p, q.plainPath = some p → p.Clean q.params := by
  have hpath : ∀ {p₀ : PlainPath py ρ}, q.plainPath = some p₀ →
      ((∀ p, q.plainPath = some p → p.Clean q.params) ↔ p₀.Clean q.params) := by
    intro p₀ hp₀
    constructor
    · intro hall
      exact hall p₀ hp₀
    · intro hclean p hp
      rw [← Option.some.inj (hp₀.symm.trans hp)]
      exact hclean
  rw [Request.serveCore] at h
  cases hcascade : q.cascade with
  | none =>
    rw [hcascade] at h
    have hp : q.plainPath = some (q.plainOf q.routedModel) := by
      rw [Request.plainPath, hcascade]
    rw [hpath hp]
    exact afterCascade_matches_iff q (SameRest.refl q.params) rfl h
  | some c =>
    obtain ⟨hsame, hserves, hclears⟩ := answer_spec c q.params
    rw [hcascade] at h
    dsimp only at h
    rcases hanswer : c.answer q.params with ⟨_ | call', ctx'⟩
    · rw [hanswer] at h hsame hclears
      have hp : q.plainPath =
          some (q.plainOf (reroute q.model q.routedModel c.cascade.tier1Model)) := by
        rw [Request.plainPath, hcascade]
        dsimp only
        rw [hanswer]
      rw [hpath hp]
      exact afterCascade_matches_iff q hsame (hclears rfl) h
    · rw [hanswer] at h hserves
      have hp : q.plainPath = none := by
        rw [Request.plainPath, hcascade]
        dsimp only
        rw [hanswer]
      obtain ⟨hcall, hctx⟩ := Prod.mk.inj h
      rw [← hctx]
      refine iff_of_true (hserves call hcall) ?_
      intro p hsome
      rw [hp] at hsome
      cases hsome

end

/-! ### A reasoning primary that fails -/

section

def asciiPython : Python where
  intOfStr := String.toInt?
  strOf _ := ""
  lower s := String.ofList (s.toList.map Char.toLower)
  pairsOf _ := none

/-- An adapter like OpenAI's, whose models with an `o` in front reason. -/
def openaiAdapter : Adapter where
  supportsReasoning model _ := startsWith model "o"
  supportsServiceTier := true
  unsupportedParams := []
  promptCacheNeedsMarker := false
  capping := .base
  reserveReasoningHeadroom params model config effort :=
    (reserveOpenai asciiPython (startsWith model "o") params model config effort).map
      fun raised => (raised.param, .int raised.toBudget)
  applyContextManagement params _ _ := params

def openaiModel (model : String) : Candidate asciiPython where
  target := ⟨openaiAdapter, model, .obj [], "default"⟩
  headroom := .openai
  reserves _ _ _ _ := rfl
  uncapped _ := rfl
  keepsBudget _ _ _ _ _ := rfl

/-- The primary `o4-mini` times out, and a failover target answers. -/
def failingOver (fallback : String) : Request asciiPython Nat where
  params := [("max_completion_tokens", .int 1024)]
  model := "o4-mini"
  routedModel := "o4-mini"
  cascade := none
  plainOf model :=
    { primary := openaiModel model
      fallbacks := [openaiModel fallback]
      providerOf := fun _ => "openai"
      cfg := { enabled := true, numRetries := 0 }
      store := {}
      env :=
        { now := fun n => n
          outcome := fun n => if n = 1 then .raised ⟨"Timeout", none⟩ else .returned n
          others := fun _ store => store }
      keyed := fun _ => true }

/-- A failover to a model that reasons, too. -/
theorem disclosure_matches_reasoning :
    ∃ call ctx, (failingOver "o3").serveCore = (some call, ctx) ∧
      Matches (failingOver "o3").params ctx.outputBudgetRaised call := by
  have hsome : (failingOver "o3").serveCore.1.isSome = true := by decide +kernel
  obtain ⟨call, hcall⟩ := Option.isSome_iff_exists.mp hsome
  have hserve : (failingOver "o3").serveCore = (some call, (failingOver "o3").serveCore.2) :=
    Prod.ext hcall rfl
  refine ⟨call, _, hserve, (disclosure_matches_iff _ hserve).mpr ?_⟩
  intro p hp
  have hpath : p = (failingOver "o3").plainOf "o4-mini" := (Option.some.inj hp).symm
  rw [hpath]
  intro t ht
  have hserved : t = openaiModel "o3" := (Option.some.inj ht).symm
  rw [hserved]
  exact Or.inl (by decide +kernel)

/-- A failover to a model that does not reason leaves the primary's raise on the context. -/
theorem not_disclosure_matches :
    ¬ ∀ (q : Request asciiPython Nat) (call : SentCall asciiPython) (ctx : RequestCtx),
      q.serveCore = (some call, ctx) → Matches q.params ctx.outputBudgetRaised call := by
  intro h
  have hsome : (failingOver "gpt-4o").serveCore.1.isSome = true := by decide +kernel
  obtain ⟨call, hcall⟩ := Option.isSome_iff_exists.mp hsome
  have hserve : (failingOver "gpt-4o").serveCore =
      (some call, (failingOver "gpt-4o").serveCore.2) := Prod.ext hcall rfl
  have hreserved : (failingOver "gpt-4o").serveCore.1.map (fun call => call.reserved) =
      some none := by
    decide +kernel
  have hraised : (failingOver "gpt-4o").serveCore.2.outputBudgetRaised =
      some ⟨"max_completion_tokens", 1024, 4608, "medium"⟩ := by
    decide +kernel
  rw [hcall, Option.map_some, Option.some.injEq] at hreserved
  have hnone := (h _ _ _ hserve).2 hreserved
  rw [hraised] at hnone
  cases hnone

end

end TokenProxy.Disclosure
