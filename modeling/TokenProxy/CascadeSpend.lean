/-
  TokenProxy/CascadeSpend.lean
  ============================
  **What a cascade may spend: the plan's cost floor and the guards of its hops**
  (`G06Routing.process_request`, `_execute_three_tier_cascade`, `_escalation_block_reason`).

  G06 plans a cascade while the prompt has one size and `main.py` executes it when the
  stages in between have given it another.  The first tier is weighed against the
  requested model at planning, every further tier when it is reached, the judge never.

  Main result: `within_requested_iff`, the plans whose calls all stay within what the
  requested model would cost for the same prompt.
-/
import TokenProxy.TierCascade

namespace TokenProxy.Ledger

/-! ## 1. Planning -/

/-- A request as G06 plans its cascade. -/
structure Planning where
  /-- the model that the caller asks for -/
  model : String
  /-- the configuration, and the output budget that the caller has set by now -/
  cascade : Cascade
  /-- the classifier is the executing cascade, and nothing that goes before it applies: no
      `x_complexity`, no rule that pins a model, no stream -/
  cascadeExecution : Bool
  currentTokenCount : Int
  /-- `_tier_reachable`, or the tenant has a key for the provider -/
  reachable : String → Bool
  /-- `on_unreachable_tier: error` -/
  unreachableIsError : Bool
  /-- `_reasoning_budget_starved` -/
  starved : String → Bool

namespace Planning

variable (env : Prices) (p : Planning)

/-- The model that is left of a first tier by the guards of reach and of cost. -/
def guarded (tier1 : String) : String :=
  let selected :=
    if tier1 ≠ p.model && !p.reachable tier1 && !p.unreachableIsError then p.model else tier1
  let out := p.cascade.expectedOutputTokens
  if selected ≠ p.model && !p.cascade.allowEscalationAboveRequested &&
      (decide (estimateCost env p.currentTokenCount out p.model <
        estimateCost env p.currentTokenCount out selected) || p.starved selected) then p.model
  else selected

/-- `ctx.cascade_plan`, as the guards leave it. -/
def cascadePlan : Option Cascade :=
  if p.cascadeExecution && !p.cascade.simpleModels.isEmpty then
    match p.cascade.selectFromTier p.cascade.simpleModels "simple" with
    | none => none
    | some tier1 =>
      if p.guarded env tier1 = tier1 then
        some { p.cascade with
          tier1Model := some tier1
          maxTierIdx :=
            some (if p.cascade.cascadeCapToClassifiedTier then p.cascade.requestTier else 2) }
      else none
  else none

end Planning

/-! ## 2. The calls of the planned cascade -/

/-- What the stages in between leave for the call. -/
structure AtCall where
  ctx : Ctx
  /-- `_caller_output_budget(ctx.params)` -/
  callerOutputBudget : Option Int
  hasBudget : String → Bool
  /-- the size of the prompt that has an answer judged -/
  judgePromptTokens : Json → Int

/-- What a provider was sent. -/
structure Sent where
  model : String
  promptTokens : Int
  outputTokens : Int
deriving DecidableEq, Repr

namespace AtCall

variable (env : Prices) (p : Planning) (a : AtCall)

/-- The plan with what is read of the request again. -/
def resumed (k : Cascade) : Cascade :=
  { k with callerOutputBudget := a.callerOutputBudget, hasBudget := a.hasBudget }

/-- `main.py` before the cascade; `outcomes` is what will come of the calls. -/
def start (outcomes : List (Option Json)) : Run :=
  { ctx := { a.ctx with model := p.model }, outcomes }

def serveCascade (outcomes : List (Option Json)) : Run :=
  match p.cascadePlan env with
  | none => a.start p outcomes
  | some k => ((a.resumed k).executeThreeTierCascade env (a.start p outcomes)).2

/-- What went out with the completed calls: the request's own prompt, or, after an answer,
the prompt that has it judged in 30 tokens. -/
def sent (expectedOutputTokens : Int) : Json → List Completed → List Sent
  | _, [] => []
  | judged, c :: rest =>
    (match c.site with
      | .side => ⟨c.model, a.judgePromptTokens judged, 30⟩
      | _ => ⟨c.model, a.ctx.currentTokenCount, expectedOutputTokens⟩) ::
      sent expectedOutputTokens c.response rest

/-- The model costs no more than the requested one for the same prompt. -/
def WithinRequested (s : Sent) : Prop :=
  estimateCost env s.promptTokens s.outputTokens s.model ≤
    estimateCost env s.promptTokens s.outputTokens p.model

/-- Whatever comes of the calls, the cascade makes none to a dearer model. -/
def NeverOverspends : Prop :=
  p.cascade.allowEscalationAboveRequested = false → ∀ outcomes,
    ∀ s ∈ a.sent (a.resumed p.cascade).expectedOutputTokens .null
      (a.serveCascade env p outcomes).completed, WithinRequested env p s

/-- The planned first tier is within the requested model for the prompt as it is now, and so is
the judge for any answer. -/
def FirstTierWithin : Prop :=
  p.cascade.allowEscalationAboveRequested = false → ∀ k tier1, p.cascadePlan env = some k →
    k.tier1Model = some tier1 → k.hasProviderKey tier1 = true →
    WithinRequested env p
        ⟨tier1, a.ctx.currentTokenCount, (a.resumed p.cascade).expectedOutputTokens⟩ ∧
      (p.cascade.judgeModel ≠ "" → ∀ judged,
        WithinRequested env p ⟨p.cascade.judgeModel, a.judgePromptTokens judged, 30⟩)

end AtCall

/-! ## 3. Which calls a cascade makes -/

/-- A call of the cascade itself to a model that `Ok` holds of, or one of its judge. -/
def Allowed (Ok : String → Prop) (judge : String) (c : Completed) : Prop :=
  (c.site = .main ∧ Ok c.model) ∨ (c.site = .side ∧ judge ≠ "" ∧ c.model = judge)

/-- From `s` to `s'` only such calls were made, and of the context only the book changed. -/
def Kept (env : Prices) (Ok : String → Prop) (judge : String) (s s' : Run) : Prop :=
  ∃ xs, (∀ c ∈ xs, Allowed Ok judge c) ∧ Paid env s s' xs

variable {env : Prices} {Ok : String → Prop} {judge : String} {s s' s'' : Run}

theorem Kept.refl (s : Run) : Kept env Ok judge s s := by
  refine ⟨[], ?_, Paid.refl s⟩
  intro c hc
  cases hc

theorem Kept.trans (h : Kept env Ok judge s s') (h' : Kept env Ok judge s' s'') :
    Kept env Ok judge s s'' := by
  obtain ⟨xs, hxs, hpaid⟩ := h
  obtain ⟨ys, hys, hpaid'⟩ := h'
  refine ⟨xs ++ ys, ?_, hpaid.trans hpaid'⟩
  intro c hc
  rcases List.mem_append.mp hc with hc | hc
  · exact hxs c hc
  · exact hys c hc

theorem kept_timedLlm (env : Prices) (judge : String) (s : Run) {model : String} (hok : Ok model) :
    Kept env Ok judge s (s.timedLlm env model).2 := by
  rcases s.attempt_cases _ with ⟨-, hpaid⟩ | ⟨response, -, hpaid⟩
  · exact ⟨[], by simp, hpaid⟩
  · refine ⟨_, ?_, hpaid⟩
    intro c hc
    rw [List.mem_singleton.mp hc]
    exact Or.inl ⟨rfl, hok⟩

namespace Cascade

variable {k : Cascade} {tier1 : String} {best : Best}

theorem kept_confidence (k : Cascade) (s : Run) (answer : Answer) :
    Kept env Ok k.judgeModel s (k.confidence env s answer).2 := by
  unfold confidence
  by_cases hjudge : k.judgeModel = ""
  · rw [if_pos hjudge]
    exact Kept.refl s
  · rw [if_neg hjudge]
    have hside : Kept env Ok k.judgeModel s (s.sideCall env (.chat k.judgeModel)).2 := by
      rcases s.attempt_cases _ with ⟨-, hpaid⟩ | ⟨response, -, hpaid⟩
      · exact ⟨[], by simp, hpaid⟩
      · refine ⟨_, ?_, hpaid⟩
        intro c hc
        rw [List.mem_singleton.mp hc]
        exact Or.inr ⟨rfl, hjudge, rfl⟩
    split
    · next heq => rw [heq] at hside; exact hside
    · next heq => rw [heq] at hside; exact hside

theorem kept_serve (htier1 : Ok tier1) (s : Run) (best : Best) :
    Kept env Ok k.judgeModel s (k.serve env tier1 s best).2 := by
  unfold serve
  split
  · have hretry := kept_timedLlm env k.judgeModel s htier1
    split
    · next heq => rw [heq] at hretry; exact hretry
    · next heq => rw [heq] at hretry; exact hretry
  · exact Kept.refl s

/-- A hop that is not blocked goes to a model within the requested one. -/
theorem within_of_not_blocked {nextCost prevCost requestedCost : ℚ}
    (hallow : k.allowEscalationAboveRequested = false)
    (h : k.escalationBlocked nextCost prevCost requestedCost ≠ true) :
    nextCost ≤ requestedCost := by
  by_contra hdearer
  apply h
  rw [escalationBlocked, hallow, decide_eq_true (not_le.mp hdearer)]
  simp

/-- What is asked of the models for a cascade that starts at `s`. -/
def HopsOk (k : Cascade) (env : Prices) (s : Run) (Ok : String → Prop) : Prop :=
  ∀ model, k.tierCost env s model ≤ k.tierCost env s s.ctx.model → Ok model

theorem HopsOk.kept (h : k.HopsOk env s Ok) (hkept : Kept env Ok judge s s') :
    k.HopsOk env s' Ok := by
  obtain ⟨xs, -, hpaid⟩ := hkept
  intro model hmodel
  apply h model
  rw [tierCost, tierCost, hpaid.frame] at hmodel
  exact hmodel

theorem kept_tierThree (hallow : k.allowEscalationAboveRequested = false) (htier1 : Ok tier1)
    (hops : k.HopsOk env s Ok) (best : Best) :
    Kept env Ok k.judgeModel s (k.tierThree env tier1 s best).2 := by
  unfold tierThree
  split
  · split
    · exact Kept.refl s
    · next model _ =>
      dsimp only
      split
      · exact kept_serve htier1 s best
      · next hopen =>
        have hasked := kept_timedLlm env k.judgeModel s
          (hops model (within_of_not_blocked hallow hopen))
        split
        · next heq => rw [heq] at hasked; exact hasked.trans (kept_serve htier1 _ _)
        · next heq => rw [heq] at hasked; exact hasked.trans (kept_serve htier1 _ _)
  · exact kept_serve htier1 s best

theorem kept_tierTwo (hallow : k.allowEscalationAboveRequested = false) (htier1 : Ok tier1)
    (hops : k.HopsOk env s Ok) (best : Best) :
    Kept env Ok k.judgeModel s (k.tierTwo env tier1 s best).2 := by
  unfold tierTwo
  split
  · split
    · exact Kept.refl s
    · next model _ =>
      dsimp only
      split
      · exact kept_tierThree hallow htier1 hops best
      · next hopen =>
        have hasked := kept_timedLlm env k.judgeModel s
          (hops model (within_of_not_blocked hallow hopen))
        split
        · next answer s' heq =>
          rw [heq] at hasked
          have hjudged := hasked.trans (k.kept_confidence s' answer)
          split
          · exact hjudged.trans (kept_serve htier1 _ _)
          · exact hjudged.trans (kept_tierThree hallow htier1 (hops.kept hjudged) _)
        · next heq => rw [heq] at hasked; exact hasked.trans (kept_serve htier1 _ _)
  · exact kept_tierThree hallow htier1 hops best

/-- Whatever the providers answer, the calls go to the first tier, to models within the
requested one, and to the judge. -/
theorem kept_executeThreeTierCascade (hallow : k.allowEscalationAboveRequested = false)
    (hops : k.HopsOk env s Ok)
    (htier1 : ∀ tier1, k.firstTier = some tier1 → k.hasProviderKey tier1 = true → Ok tier1) :
    Kept env Ok k.judgeModel s (k.executeThreeTierCascade env s).2 := by
  unfold executeThreeTierCascade
  split
  · exact Kept.refl s
  · split
    · exact Kept.refl s
    · next tier1 hfirst =>
      split
      · exact Kept.refl s
      · next hkey =>
        have hok : Ok tier1 := htier1 tier1 hfirst (by simpa using hkey)
        have hasked := kept_timedLlm env k.judgeModel s hok
        split
        · next heq => rw [heq] at hasked; exact hasked
        · next answer s' heq =>
          rw [heq] at hasked
          have hjudged := hasked.trans (k.kept_confidence s' answer)
          dsimp only
          split
          · exact hjudged.trans (kept_serve hok _ _)
          · exact hjudged.trans (kept_tierTwo hallow hok (hops.kept hjudged) _)

/-- Once the first tier has answered and was judged, what follows adds its calls. -/
theorem paid_executeThreeTierCascade (hallow : k.allowEscalationAboveRequested = false)
    {answer : Answer} (hsimple : k.simpleModels.isEmpty = false)
    (hfirst : k.firstTier = some tier1) (hkey : k.hasProviderKey tier1 = true)
    (hasked : s.timedLlm env tier1 = (some answer, s')) :
    ∃ xs, Paid env (k.confidence env s' answer).2 (k.executeThreeTierCascade env s).2 xs := by
  have hany : ∀ s, k.HopsOk env s fun _ => True := fun _ _ _ => trivial
  unfold executeThreeTierCascade
  simp only [hsimple, hfirst, hkey, hasked, Bool.not_true, Bool.false_eq_true, if_false]
  split
  · have hserved := @kept_serve env (fun _ => True) k tier1 trivial
      (k.confidence env s' answer).2 ⟨tier1, answer, k.tierCost env s tier1⟩
    obtain ⟨xs, -, hpaid⟩ := hserved
    exact ⟨xs, hpaid⟩
  · have hclimbed := @kept_tierTwo env (fun _ => True) (k.confidence env s' answer).2 k tier1
      hallow trivial (hany _) ⟨tier1, answer, k.tierCost env s tier1⟩
    obtain ⟨xs, -, hpaid⟩ := hclimbed
    exact ⟨xs, hpaid⟩

end Cascade

/-! ## 4. The plans that stay within the requested model -/

namespace AtCall

variable {p : Planning} {a : AtCall}

theorem sent_within {out : Int} {xs : List Completed}
    (h : ∀ c ∈ xs, Allowed
      (fun model => WithinRequested env p ⟨model, a.ctx.currentTokenCount, out⟩) judge c)
    (hjudge : judge ≠ "" → ∀ judged,
      WithinRequested env p ⟨judge, a.judgePromptTokens judged, 30⟩) (judged : Json) :
    ∀ s ∈ a.sent out judged xs, WithinRequested env p s := by
  induction xs generalizing judged with
  | nil => simp [sent]
  | cons c rest ih =>
    intro s hs
    rw [sent, List.mem_cons] at hs
    rcases hs with rfl | hs
    · rcases h c List.mem_cons_self with ⟨hsite, hok⟩ | ⟨hsite, hne, hmodel⟩
      · rw [hsite]
        exact hok
      · rw [hsite, hmodel]
        exact hjudge hne judged
    · exact ih (fun c hc => h c (List.mem_cons_of_mem _ hc)) c.response s hs

theorem cascadePlan_eq_some {k : Cascade} (h : p.cascadePlan env = some k) :
    p.cascade.simpleModels.isEmpty = false ∧ ∃ tier1 maxTierIdx,
      k = { p.cascade with tier1Model := some tier1, maxTierIdx := maxTierIdx } := by
  rw [Planning.cascadePlan] at h
  split at h
  · next hplan =>
    have hmodels := (Bool.and_eq_true_iff.mp hplan).2
    rw [Bool.not_eq_true'] at hmodels
    refine ⟨hmodels, ?_⟩
    split at h
    · cases h
    · split at h
      · cases h
        exact ⟨_, _, rfl⟩
      · cases h
  · cases h

/-- The first tier's prompt is the request's own. -/
abbrev tierSent (p : Planning) (a : AtCall) (model : String) : Sent :=
  ⟨model, a.ctx.currentTokenCount, (a.resumed p.cascade).expectedOutputTokens⟩

/-- The plan with what is read again differs from the configuration in the tiers only. -/
theorem expectedOutputTokens_resumed (tier1 maxTierIdx) :
    (a.resumed { p.cascade with tier1Model := tier1, maxTierIdx }).expectedOutputTokens =
      (a.resumed p.cascade).expectedOutputTokens := rfl

theorem hopsOk_start (tier1 maxTierIdx) (outcomes : List (Option Json)) :
    (a.resumed { p.cascade with tier1Model := tier1, maxTierIdx }).HopsOk env
      (a.start p outcomes) fun model => WithinRequested env p (tierSent p a model) := by
  intro model hmodel
  rw [Cascade.tierCost, Cascade.tierCost, expectedOutputTokens_resumed] at hmodel
  exact hmodel

theorem neverOverspends_of_within (h : FirstTierWithin env p a) : NeverOverspends env p a := by
  intro hallow outcomes
  rw [serveCascade]
  cases hplan : p.cascadePlan env with
  | none =>
    intro s hs
    cases hs
  | some k =>
    obtain ⟨-, tier1, maxTierIdx, rfl⟩ := cascadePlan_eq_some hplan
    by_cases hkey : p.cascade.hasProviderKey tier1 = true
    · obtain ⟨hfirst, hjudge⟩ := h hallow _ _ hplan rfl hkey
      obtain ⟨xs, hxs, hpaid⟩ :=
        Cascade.kept_executeThreeTierCascade
          (k := a.resumed { p.cascade with tier1Model := some tier1, maxTierIdx })
          hallow (hopsOk_start _ _ outcomes) (by
          intro first heq _
          obtain rfl := Option.some.inj heq
          exact hfirst)
      have hnew : (a.start p outcomes).completed ++ xs = xs := rfl
      dsimp only
      rw [hpaid.completed, hnew]
      exact sent_within hxs hjudge .null
    · have hnone : (a.resumed { p.cascade with tier1Model := some tier1, maxTierIdx }
          ).executeThreeTierCascade env (a.start p outcomes) = (none, a.start p outcomes) := by
        simp [Cascade.executeThreeTierCascade, Cascade.firstTier, resumed, hkey]
      dsimp only
      rw [hnone]
      intro s hs
      cases hs

/-- The first tier answers `judged`, and the judge, if there is one, is asked about it. -/
theorem sent_of_answered {tier1 : String} {maxTierIdx : Option Nat} (judged : Json)
    (hallow : p.cascade.allowEscalationAboveRequested = false)
    (hplan : p.cascadePlan env =
      some { p.cascade with tier1Model := some tier1, maxTierIdx })
    (hkey : p.cascade.hasProviderKey tier1 = true) :
    ∃ rest, a.sent (a.resumed p.cascade).expectedOutputTokens .null
        (a.serveCascade env p [some judged, some .null]).completed =
      tierSent p a tier1 ::
        ((if p.cascade.judgeModel = "" then []
          else [⟨p.cascade.judgeModel, a.judgePromptTokens judged, 30⟩]) ++ rest) := by
  obtain ⟨hsimple, -⟩ := cascadePlan_eq_some hplan
  obtain ⟨xs, hpaid⟩ := @Cascade.paid_executeThreeTierCascade env
    (a.start p [some judged, some .null]) _
    (a.resumed { p.cascade with tier1Model := some tier1, maxTierIdx }) tier1 hallow _ hsimple
    rfl hkey rfl
  rw [serveCascade, hplan]
  dsimp only
  rw [hpaid.completed]
  by_cases hjudge : p.cascade.judgeModel = ""
  · rw [if_pos hjudge, Cascade.confidence, if_pos (show (a.resumed
      { p.cascade with tier1Model := some tier1, maxTierIdx }).judgeModel = "" from hjudge)]
    exact ⟨_, rfl⟩
  · rw [if_neg hjudge, Cascade.confidence, if_neg (show ¬ (a.resumed
      { p.cascade with tier1Model := some tier1, maxTierIdx }).judgeModel = "" from hjudge)]
    exact ⟨_, rfl⟩

theorem within_of_neverOverspends (h : NeverOverspends env p a) : FirstTierWithin env p a := by
  intro hallow k tier1 hplan htier1 hkey
  obtain ⟨-, first, maxTierIdx, rfl⟩ := cascadePlan_eq_some hplan
  obtain rfl := Option.some.inj htier1
  refine ⟨?_, ?_⟩
  · obtain ⟨rest, hsent⟩ := sent_of_answered (a := a) .null hallow hplan hkey
    apply h hallow [some .null, some .null]
    rw [hsent]
    exact List.mem_cons_self
  · intro hjudge judged
    obtain ⟨rest, hsent⟩ := sent_of_answered (a := a) judged hallow hplan hkey
    apply h hallow [some judged, some .null]
    rw [hsent, if_neg hjudge]
    simp

end AtCall

open AtCall in
/-- **Whatever the providers answer, a planned cascade stays within the requested model exactly
where its first tier does for the prompt as it is at the call, and its judge for every answer.** -/
theorem within_requested_iff (env : Prices) (p : Planning) (a : AtCall) :
    NeverOverspends env p a ↔ FirstTierWithin env p a :=
  ⟨within_of_neverOverspends, neverOverspends_of_within⟩

/-! ## 5. A prompt that shrinks -/

/-- The first tier reads for less and writes for more than the requested model. -/
def readerPrices : Prices where
  rt := TokenCounter.gateway
  pricing := [("default", {}), ("reader", ⟨1 / 2000, 1 / 50⟩), ("writer", ⟨1 / 100, 1 / 100⟩)]
  reasoningRateMultiplier := 1
  batchDiscount := 1
  intOf := fun _ => none
  dictOf := fun _ => none

def asIs : Adapter where
  name := "openai"
  requiresApiKey := true
  extractUsage := fun response => response.getD "usage" .null
  cacheReadCostMultiplier := 1
  cacheWriteCostMultiplier := 1
  cacheWrite1hCostMultiplier := 1

def readerFirst : Planning where
  model := "writer"
  cascade :=
    { simpleModels := ["reader"]
      mediumModels := []
      complexModels := []
      tier1Model := none
      maxTierIdx := none
      selectFromTier := fun models _ => models.head?
      hasProviderKey := fun _ => true
      hasBudget := fun _ => false
      refuses := fun _ => false
      blank := fun _ => false
      judgeVerdict := fun _ => 1 / 2 }
  cascadeExecution := true
  currentTokenCount := 2000
  reachable := fun _ => true
  unreachableIsError := false
  starved := fun _ => false

/-- 1900 of the 2000 tokens have been compressed away. -/
def compressed : AtCall where
  ctx := { model := "writer", routedModel := "reader", providerAdapter := asIs,
           currentTokenCount := 100, proxyOptimisedTokens := 100 }
  callerOutputBudget := none
  hasBudget := fun _ => false
  judgePromptTokens := fun _ => 60

theorem cascadePlan_readerFirst : readerFirst.cascadePlan readerPrices =
    some { readerFirst.cascade with tier1Model := some "reader", maxTierIdx := some 0 } := by
  have hguarded : readerFirst.guarded readerPrices "reader" = "reader" := by decide +kernel
  have hselected : readerFirst.cascade.selectFromTier readerFirst.cascade.simpleModels "simple" =
      some "reader" := rfl
  rw [Planning.cascadePlan, hselected]
  dsimp only
  rw [if_pos hguarded]
  rfl

/-- Planned within the requested model, the cascade asks a dearer one. -/
theorem overspends : ¬ AtCall.NeverOverspends readerPrices readerFirst compressed := by
  intro h
  have hfirst :=
    (AtCall.within_of_neverOverspends h rfl _ "reader" cascadePlan_readerFirst rfl rfl).1
  revert hfirst
  unfold AtCall.WithinRequested
  decide +kernel

end TokenProxy.Ledger
