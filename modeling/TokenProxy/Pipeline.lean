/-
  TokenProxy/Pipeline.lean
  ========================
  **The order of the stages** (`middleware/pipeline.py`).

  What a stage does to the context and the answer is a parameter, and so is what it raises; what the
  code fixes is the order, which stages `skip_groups` can leave out, after which flags a request
  goes no further, and which failures an answer survives.  A stage edits the answer it is handed in
  place, so one that fails leaves what it had edited.

  The head of `process_request`, which resolves the tenant and its configuration, comes before.
-/
import TokenProxy.StagedRun

namespace TokenProxy.Pipeline

open TokenProxy.StagedRun

/-! ## 1. The request path -/

inductive Stage where
  | rateLimit
  | adaptiveBypass
  | guardrails
  | piiRedaction
  | bypass
  | cache
  | routing
  | adaptiveBypassPostRouting
  | intentOrchestration
  | cacheFloor
  | compression
  | multimodalOptimizer
  | templateRegistry
  | promptOptimizer
  | retrieval
  | toolLoading
  | ccr
  | headroom
  | contextSchema
  | memory
  | deduplication
  | contextBudget
  | contextTrust
  | agentArch
  | outputFormat
  | adaptiveReasoning
  | reasoningBudget
  | batch
  | loopControl
  | cacheAlignment
deriving DecidableEq, Repr

/-- What `process_request` reads of the context between the stages. -/
structure Flags (σ : Type) where
  skipGroups : σ → List String
  securityBlocked : σ → Bool
  bypassed : σ → Bool
  cacheHit : σ → Bool
  agentDispatched : σ → Bool

variable {σ ε : Type}

/-- The context that a stage leaves sends the request no further. -/
def Flags.endsRequest (flags : Flags σ) : Stage → σ → Bool
  | .guardrails, s => flags.securityBlocked s
  | .piiRedaction, s => flags.securityBlocked s
  | .bypass, s => flags.bypassed s || flags.cacheHit s
  | .cache, s => flags.bypassed s || flags.cacheHit s
  | .intentOrchestration, s => flags.agentDispatched s
  | .contextTrust, s => flags.securityBlocked s
  | _, _ => false

/-- A stage that always runs. -/
def always (flags : Flags σ) (stage : Stage) : Item Stage σ :=
  { name := stage, stops := flags.endsRequest stage }

/-- A stage that `skip_groups` can leave out. -/
def gated (flags : Flags σ) (group : String) (stage : Stage) : Item Stage σ :=
  { name := stage, skipped := fun s => group ∈ flags.skipGroups s }

/-- `process_request`. -/
def requestPath (flags : Flags σ) : List (Item Stage σ) :=
  [always flags .rateLimit, always flags .adaptiveBypass, always flags .guardrails,
    always flags .piiRedaction, always flags .bypass, always flags .cache,
    always flags .routing, always flags .adaptiveBypassPostRouting,
    always flags .intentOrchestration, always flags .cacheFloor,
    gated flags "G01" .compression, gated flags "G27" .multimodalOptimizer,
    gated flags "G02" .templateRegistry, gated flags "G20" .promptOptimizer,
    gated flags "G07" .retrieval, gated flags "G08" .toolLoading, gated flags "G28" .ccr,
    gated flags "G19" .headroom, gated flags "G09" .contextSchema, gated flags "G10" .memory,
    gated flags "G22" .deduplication, gated flags "G26" .contextBudget,
    always flags .contextTrust,
    gated flags "G16" .agentArch, gated flags "G11" .outputFormat,
    gated flags "G25" .adaptiveReasoning, gated flags "G12" .reasoningBudget,
    gated flags "G13" .batch, gated flags "G17" .loopControl,
    always flags .cacheAlignment]

def processRequest (flags : Flags σ) (stage : Stage → σ → σ × Option ε) (ctx : σ) :
    Outcome Stage σ ε :=
  run stage (requestPath flags) ctx

/-- The stages in the code's order. -/
def requestOrder : List Stage :=
  [.rateLimit, .adaptiveBypass, .guardrails, .piiRedaction, .bypass, .cache, .routing,
    .adaptiveBypassPostRouting, .intentOrchestration, .cacheFloor, .compression,
    .multimodalOptimizer, .templateRegistry, .promptOptimizer, .retrieval, .toolLoading, .ccr,
    .headroom, .contextSchema, .memory, .deduplication, .contextBudget, .contextTrust, .agentArch,
    .outputFormat, .adaptiveReasoning, .reasoningBudget, .batch, .loopControl, .cacheAlignment]

/-- Those that `skip_groups` cannot leave out. -/
def unskippable : List Stage :=
  [.rateLimit, .adaptiveBypass, .guardrails, .piiRedaction, .bypass, .cache, .routing,
    .adaptiveBypassPostRouting, .intentOrchestration, .cacheFloor, .contextTrust, .cacheAlignment]

theorem names_requestPath (flags : Flags σ) :
    (requestPath flags).map Item.name = requestOrder := rfl

theorem always_mem_requestPath (flags : Flags σ) :
    ∀ stage ∈ unskippable, always flags stage ∈ requestPath flags := by
  simp [unskippable, requestPath]

/-- **No stage before the guards**: the stages of a request run in the code's order, each at most
    once.  Before any stage that ran, and in a request that goes to the model, every unskippable
    stage of the order has run without failing, and left a context that sends the request further:
    whatever the stages do, and whatever they put into `skip_groups`. -/
theorem stages_in_order (flags : Flags σ) (stage : Stage → σ → σ × Option ε) (ctx : σ) :
    List.Sublist ((processRequest flags stage ctx).trace.map Prod.fst) requestOrder ∧
      ∀ guard ∈ unskippable,
        ((processRequest flags stage ctx).ending = .completed ∨
          ∃ later ∈ (processRequest flags stage ctx).trace.map Prod.fst,
            List.Sublist [guard, later] requestOrder) →
        ∃ t, (guard, t) ∈ (processRequest flags stage ctx).trace ∧ (stage guard t).2 = none ∧
          flags.endsRequest guard (stage guard t).1 = false := by
  constructor
  · rw [← names_requestPath flags]
    exact trace_sublist (requestPath flags) ctx
  · intro guard hguard hran
    rw [← names_requestPath flags] at hran
    have hnodup : ((requestPath flags).map Item.name).Nodup := by
      rw [names_requestPath]
      decide
    obtain ⟨t, hmem, hafter⟩ := ran_before hnodup (always_mem_requestPath flags guard hguard)
      (fun _ => rfl) hran
    refine ⟨t, hmem, ?_⟩
    change (always flags guard).after (stage guard t) = none at hafter
    rcases hleft : stage guard t with ⟨left, _ | e⟩
    · rw [hleft, Item.after] at hafter
      split at hafter
      · cases hafter
      · next hstops => exact ⟨rfl, Bool.eq_false_iff.mpr hstops⟩
    · rw [hleft] at hafter
      cases hafter

/-! ## 2. The response path -/

inductive ResponseStage where
  | recordCalledTools
  | piiRedaction
  | guardrails
  | toolEligibility
  | toolOutput
  | ccr
  | streamingCompression
  | headroom
  | serverCompute
  | outputFormat
  | grounding
  | observability
  | storeResponse
deriving DecidableEq, Repr

/-- `_run_safety_stage`. -/
def safety (stage : ResponseStage) : Item ResponseStage σ := { name := stage }

/-- `_run_skippable`, and the stages that a `try` of their own surrounds. -/
def skippable (stage : ResponseStage) : Item ResponseStage σ := { name := stage, tolerant := true }

/-- The stages behind the safety stages. -/
def laterStages : List ResponseStage :=
  [.toolOutput, .ccr, .streamingCompression, .headroom, .serverCompute, .outputFormat, .grounding,
    .observability, .storeResponse]

/-- `process_response`; the state is the context and the answer. -/
def responsePath : List (Item ResponseStage σ) :=
  [skippable .recordCalledTools, safety .piiRedaction, safety .guardrails,
    safety .toolEligibility] ++ laterStages.map skippable

def processResponse (stage : ResponseStage → σ → σ × Option ε) (s : σ) :
    Outcome ResponseStage σ ε :=
  run stage responsePath s

/-- A stage does what it does: from a state with the first property, it succeeds only with the
    second. -/
def Establishes (stage : ResponseStage → σ → σ × Option ε) (name : ResponseStage)
    (before after : σ → Prop) : Prop :=
  ∀ s, before s → (stage name s).2 = none → after (stage name s).1

variable {stage : ResponseStage → σ → σ × Option ε}

/-- The rest, from a state with a property that its stages keep. -/
theorem run_later {Safe : σ → Prop}
    (hkeeps : ∀ name ∈ laterStages, ∀ s, Safe s → Safe (stage name s).1) {s : σ} (hs : Safe s) :
    (run stage (laterStages.map skippable) s).ending = .completed ∧
      (∀ pair ∈ (run stage (laterStages.map skippable) s).trace, Safe pair.2) ∧
      Safe (run stage (laterStages.map skippable) s).final := by
  have hstages : ∀ item ∈ (laterStages.map skippable : List (Item ResponseStage σ)),
      ∀ t, Safe t → Safe (stage item.name t).1 := by
    intro item hitem
    obtain ⟨name, hname, rfl⟩ := List.mem_map.mp hitem
    exact hkeeps name hname
  obtain ⟨htrace, hfinal⟩ := handed hstages hs
  refine ⟨(run_all_tolerant ?_ s).1, htrace, hfinal⟩
  intro item hitem
  obtain ⟨name, -, rfl⟩ := List.mem_map.mp hitem
  exact ⟨fun _ => rfl, fun _ => rfl, rfl⟩

def safetyStages : List ResponseStage := [.piiRedaction, .guardrails, .toolEligibility]

/-- What a stage behind the safety stages is handed is safe, and so is a served answer; one is
    withheld where a safety stage fails, which is then the last stage that ran, and only there. -/
structure Guarded (stage : ResponseStage → σ → σ × Option ε) (Safe : σ → Prop)
    (outcome : Outcome ResponseStage σ ε) : Prop where
  handed : ∀ pair ∈ outcome.trace, pair.1 ∈ laterStages → Safe pair.2
  served : (outcome.ending = .completed ∧ Safe outcome.final) ∨
    ∃ pair e, outcome.ending = .failed e ∧ outcome.trace.getLast? = some pair ∧
      pair.1 ∈ safetyStages ∧ (stage pair.1 pair.2).2 = some e
  withheld : ∀ pair ∈ outcome.trace, pair.1 ∈ safetyStages → ∀ e,
    (stage pair.1 pair.2).2 = some e →
      outcome.ending = .failed e ∧ outcome.trace.getLast? = some pair

variable {Safe : σ → Prop}

theorem Guarded.cons {outcome : Outcome ResponseStage σ ε} (h : Guarded stage Safe outcome)
    {name : ResponseStage} (hname : name ∉ laterStages) {s : σ}
    (hok : name ∈ safetyStages → (stage name s).2 = none) :
    Guarded stage Safe { outcome with trace := (name, s) :: outcome.trace } where
  handed pair hpair hlater := by
    rcases List.mem_cons.mp hpair with rfl | hpair
    · exact absurd hlater hname
    · exact h.handed pair hpair hlater
  served := by
    rcases h.served with hserved | ⟨pair, e, hending, hlast, hfailed⟩
    · exact Or.inl hserved
    · refine Or.inr ⟨pair, e, hending, ?_, hfailed⟩
      rw [List.getLast?_cons, hlast]
      rfl
  withheld pair hpair hsafety e hfailed := by
    rcases List.mem_cons.mp hpair with rfl | hpair
    · rw [hok hsafety] at hfailed
      cases hfailed
    · obtain ⟨hending, hlast⟩ := h.withheld pair hpair hsafety e hfailed
      refine ⟨hending, ?_⟩
      rw [List.getLast?_cons, hlast]
      rfl

theorem safety_notMem_laterStages : ∀ name ∈ safetyStages, name ∉ laterStages := by decide

/-- A safety stage in front: where it succeeds, the rest decides. -/
theorem guarded_safety {name : ResponseStage} (hname : name ∈ safetyStages)
    {items : List (Item ResponseStage σ)} {s : σ}
    (h : (stage name s).2 = none → Guarded stage Safe (run stage items (stage name s).1)) :
    Guarded stage Safe (run stage (safety name :: items) s) := by
  have hlater := safety_notMem_laterStages name hname
  rcases @run_strict _ _ _ stage (safety name) (fun _ => rfl) (fun _ => rfl) rfl items s with
    ⟨e, hfailed, hrun⟩ | ⟨hsucceeded, hrun⟩
  · rw [hrun]
    constructor
    · intro pair hpair hmem
      rw [List.mem_singleton.mp hpair] at hmem
      exact absurd hmem hlater
    · exact Or.inr ⟨(name, s), e, rfl, rfl, hname, hfailed⟩
    · intro pair hpair hsafety e' hfailed'
      rw [List.mem_singleton.mp hpair] at hfailed' ⊢
      cases hfailed.symm.trans hfailed'
      exact ⟨rfl, rfl⟩
  · rw [hrun]
    exact (h hsucceeded).cons hlater fun _ => hsucceeded

/-- **Only safe answers are worked on, stored and served**: if the safety stages establish, one
    after the other, what a safe answer is, and the stages behind them keep it, even where they
    fail, then every stage behind them is handed a safe answer and a served one is safe.  An answer
    is withheld where a safety stage fails, and only there, and then no stage behind it runs. -/
theorem served_answer_safe {Masked Checked : σ → Prop}
    (hpii : Establishes stage .piiRedaction (fun _ => True) Masked)
    (hguardrails : Establishes stage .guardrails Masked Checked)
    (heligibility : Establishes stage .toolEligibility Checked Safe)
    (hkeeps : ∀ name ∈ laterStages, ∀ s, Safe s → Safe (stage name s).1) (s : σ) :
    Guarded stage Safe (processResponse stage s) := by
  have hfirst : ResponseStage.recordCalledTools ∉ laterStages := by decide
  rw [processResponse, responsePath, List.cons_append,
    run_tolerant (fun _ => rfl) (fun _ => rfl) rfl]
  refine Guarded.cons ?_ hfirst (fun hsafety => absurd hsafety (by decide))
  apply guarded_safety (by decide)
  intro hmasked
  apply guarded_safety (by decide)
  intro hchecked
  apply guarded_safety (by decide)
  intro heligible
  have hsafe := heligibility _ (hguardrails _ (hpii _ trivial hmasked) hchecked) heligible
  obtain ⟨hending, htrace, hfinal⟩ := run_later hkeeps hsafe
  refine ⟨fun pair hpair _ => htrace pair hpair, Or.inl ⟨hending, hfinal⟩, ?_⟩
  intro pair hpair hsafety
  obtain ⟨item, hitem, hname⟩ := mem_names_of_mem_trace hpair
  obtain ⟨name, hlater, rfl⟩ := List.mem_map.mp hitem
  rw [← hname] at hsafety
  exact absurd hlater (safety_notMem_laterStages name hsafety)

/-- Stages that only note that they ran. -/
def noting (name : ResponseStage) (ran : List ResponseStage) :
    List ResponseStage × Option Unit := (ran ++ [name], none)

theorem served_answer_safe_noting :
    Guarded noting (fun ran => ∀ name ∈ safetyStages, name ∈ ran) (processResponse noting []) :=
  @served_answer_safe _ _ noting (fun ran => ∀ name ∈ safetyStages, name ∈ ran)
    (fun ran => .piiRedaction ∈ ran)
    (fun ran => ResponseStage.piiRedaction ∈ ran ∧ ResponseStage.guardrails ∈ ran)
    (fun ran _ _ => by simp [noting])
    (fun ran hmasked _ => by simp [noting, hmasked])
    (fun ran hchecked _ => by simp [noting, safetyStages, hchecked])
    (fun name _ ran hsafe => by simp_all [noting, safetyStages])
    []

end TokenProxy.Pipeline
