/-
  TokenProxy/TierCascade.lean
  ===========================
  **The three-tier cascade** (`_execute_three_tier_cascade`, `g06_routing.py`).

  The cheap tier is asked first; while the confidence in the answer is low and no cost
  guard forbids it, the next tier is asked.  Every tier's call is booked, and so is every
  judge's.  `executeThreeTierCascade_settled`: whatever the providers answer, the answer
  that the cascade serves came from the last of its calls that was not a judge's.
-/
import TokenProxy.ProviderCalls

namespace TokenProxy.Ledger

/-! ## 1. The cascade -/

/-- `response_confidence`. -/
structure ConfidenceScores where
  ok : ℚ := 17 / 20
  truncated : ℚ := 3 / 10
  refusal : ℚ := 2 / 5
  empty : ℚ := 0
deriving DecidableEq, Repr

/-- A cascade as planned, with its configuration and what it asks of the code around it. -/
structure Cascade where
  simpleModels : List String
  mediumModels : List String
  complexModels : List String
  /-- the plan's `tier1_model` and `max_tier_idx` -/
  tier1Model : Option String
  maxTierIdx : Option Nat
  confidenceThreshold : ℚ := 7 / 10
  judgeModel : String := ""
  maxEscalationCost : ℚ := 1 / 100
  allowEscalationAboveRequested : Bool := false
  cascadeCapToClassifiedTier : Bool := true
  cascadeTier1MaxTokens : Int := 512
  retryUncappedOnTruncation : Bool := true
  responseConfidence : ConfidenceScores := {}
  /-- `_caller_output_budget(ctx.params)` -/
  callerOutputBudget : Option Int := none
  expectedOutputTokensEstimate : Int := 512
  /-- the tier that the request itself classifies as -/
  requestTier : Nat := 0
  /-- `_select_from_tier`; `none` where it raises -/
  selectFromTier : List String → String → Option String
  /-- `_resolve_provider_key` finds a key -/
  hasProviderKey : String → Bool
  /-- the outgoing parameters of a model already hold an output budget -/
  hasBudget : String → Bool
  /-- `_REFUSAL_RE` matches -/
  refuses : Json → Bool
  /-- `str(content).strip()` is empty -/
  blank : Json → Bool
  /-- the confidence read from a judge's reply, 0.5 where there is none to read -/
  judgeVerdict : Json → ℚ

/-- The best answer so far. -/
structure Best where
  model : String
  answer : Answer
  cost : ℚ

namespace Cascade

variable (k : Cascade)

def maxTier : Nat :=
  match k.maxTierIdx with
  | some idx => idx
  | none => if k.cascadeCapToClassifiedTier then k.requestTier else 2

def expectedOutputTokens : Int := k.callerOutputBudget.getD k.expectedOutputTokensEstimate

/-- The first choice of an answer, as a dict. -/
def firstChoice (response : Json) : Json :=
  match response.getD "choices" .null with
  | .arr (choice :: _) => choice
  | _ => .null

def heuristicResponseConfidence (response : Json) : ℚ :=
  let scores := k.responseConfidence
  let choice := firstChoice response
  let message := (choice.getD "message" .null).orElse (.obj [])
  let content := (message.getD "content" .null).orElse (.str "")
  let finishReason := choice.getD "finish_reason" .null
  if !choice.truthy then scores.empty
  else if (message.getD "tool_calls" .null).truthy || finishReason = .str "tool_calls" then
    scores.ok
  else if k.blank content then scores.empty
  else if finishReason = .str "length" then scores.truncated
  else if finishReason = .str "content_filter" || k.refuses content then scores.refusal
  else scores.ok

/-- The cap that the proxy puts on the first tier's output. -/
def injectedCap (tier1 : String) : Option Int :=
  if k.callerOutputBudget.isSome then none
  else if decide (0 < k.cascadeTier1MaxTokens) && !k.hasBudget tier1 then
    some k.cascadeTier1MaxTokens
  else none

/-- `_escalation_block_reason` gives a reason. -/
def escalationBlocked (nextCost prevCost requestedCost : ℚ) : Bool :=
  decide (k.maxEscalationCost < nextCost - prevCost) ||
    (!k.allowEscalationAboveRequested && decide (requestedCost < nextCost))

variable (env : Prices)

/-- What a tier is expected to cost, input and output. -/
def tierCost (s : Run) (model : String) : ℚ :=
  estimateCost env s.ctx.currentTokenCount k.expectedOutputTokens model

/-- `_serve`: an answer of the first tier that the proxy's own cap cut short is asked for once
    more, without the cap. -/
def serve (tier1 : String) (s : Run) (best : Best) : Option (String × Answer) × Run :=
  if best.model = tier1 && (k.injectedCap tier1).isSome && k.retryUncappedOnTruncation &&
      (firstChoice best.answer.response).getD "finish_reason" .null = .str "length" then
    match s.timedLlm env tier1 with
    | (some retried, s') => (some (best.model, retried), s')
    | (none, s') => (some (best.model, best.answer), s')
  else (some (best.model, best.answer), s)

/-- The confidence in an answer: the judge's, a side call, or the heuristic's. -/
def confidence (s : Run) (answer : Answer) : ℚ × Run :=
  if k.judgeModel = "" then (k.heuristicResponseConfidence answer.response, s)
  else
    match s.sideCall env (.chat k.judgeModel) with
    | (some reply, s') => (k.judgeVerdict reply.response, s')
    | (none, s') => (1 / 2, s')

def tierThree (tier1 : String) (s : Run) (best : Best) : Option (String × Answer) × Run :=
  if !k.complexModels.isEmpty && decide (2 ≤ k.maxTier) then
    match k.selectFromTier k.complexModels "complex" with
    | none => (none, s)
    | some model =>
      let cost := k.tierCost env s model
      if k.escalationBlocked cost best.cost (k.tierCost env s s.ctx.model) then
        k.serve env tier1 s best
      else
        match s.timedLlm env model with
        | (some answer, s') => k.serve env tier1 s' { model, answer, cost }
        | (none, s') => k.serve env tier1 s' best
  else k.serve env tier1 s best

def tierTwo (tier1 : String) (s : Run) (best : Best) : Option (String × Answer) × Run :=
  if !k.mediumModels.isEmpty && decide (1 ≤ k.maxTier) then
    match k.selectFromTier k.mediumModels "medium" with
    | none => (none, s)
    | some model =>
      let cost := k.tierCost env s model
      -- a blocked middle hop does not end the cascade
      if k.escalationBlocked cost best.cost (k.tierCost env s s.ctx.model) then
        k.tierThree env tier1 s best
      else
        match s.timedLlm env model with
        | (some answer, s') =>
          let judged := k.confidence env s' answer
          if k.confidenceThreshold ≤ judged.1 then
            k.serve env tier1 judged.2 { model, answer, cost }
          else k.tierThree env tier1 judged.2 { model, answer, cost }
        | (none, s') => k.serve env tier1 s' best
  else k.tierThree env tier1 s best

/-- `tier1_model`, from the plan or selected now. -/
def firstTier : Option String :=
  match k.tier1Model with
  | some model => some model
  | none => k.selectFromTier k.simpleModels "simple"

/-- The model that answered and its answer; `none` for an error. -/
def executeThreeTierCascade (s : Run) : Option (String × Answer) × Run :=
  if k.simpleModels.isEmpty then (none, s)
  else
    match k.firstTier with
    | none => (none, s)
    | some tier1 =>
      if !k.hasProviderKey tier1 then (none, s)
      else
        match s.timedLlm env tier1 with
        | (none, s') => (none, s')
        | (some answer, s') =>
          let best := { model := tier1, answer, cost := k.tierCost env s tier1 }
          let judged := k.confidence env s' answer
          if k.confidenceThreshold ≤ judged.1 then k.serve env tier1 judged.2 best
          else k.tierTwo env tier1 judged.2 best

end Cascade

/-! ## 2. Which call an answer came from -/

/-- No call of an agent. -/
def NoAgent (xs : List Completed) : Prop := ∀ x ∈ xs, x.site ≠ .agent

theorem Sides.noAgent {xs : List Completed} (h : Sides xs) : NoAgent xs := by
  intro x hx heq
  have hside := h x hx
  rw [heq] at hside
  cases hside

theorem NoAgent.append {xs ys : List Completed} (hxs : NoAgent xs) (hys : NoAgent ys) :
    NoAgent (xs ++ ys) := by
  intro x hx
  rcases List.mem_append.mp hx with h | h
  · exact hxs x h
  · exact hys x h

variable {env : Prices}

/-- From `s` to `s'` calls were made, none of them to an agent. -/
def Called (env : Prices) (s s' : Run) : Prop := ∃ xs, NoAgent xs ∧ Paid env s s' xs

/-- Of the calls since `s`, the last that is no side call was at `model` and gave `answer`. -/
def AnsweredLast (env : Prices) (s s' : Run) (model : String) (answer : Answer) : Prop :=
  ∃ pre c post, Paid env s s' (pre ++ c :: post) ∧
    answer = ⟨s.completed.length + pre.length, c.response⟩ ∧
    c.model = model ∧ c.site = .main ∧ NoAgent pre ∧ Sides post

theorem Called.refl (s : Run) : Called env s s :=
  ⟨[], sides_nil.noAgent, Paid.refl s⟩

theorem Called.sides {s s' s'' : Run} {xs : List Completed} (h : Called env s s')
    (hxs : Sides xs) (hpaid : Paid env s' s'' xs) : Called env s s'' := by
  obtain ⟨ys, hys, hbefore⟩ := h
  exact ⟨ys ++ xs, hys.append hxs.noAgent, hbefore.trans hpaid⟩

theorem AnsweredLast.called {s s' : Run} {model : String} {answer : Answer}
    (h : AnsweredLast env s s' model answer) : Called env s s' := by
  obtain ⟨pre, c, post, hpaid, -, -, hsite, hpre, hpost⟩ := h
  refine ⟨pre ++ c :: post, hpre.append ?_, hpaid⟩
  intro x hx
  rcases List.mem_cons.mp hx with rfl | hx
  · rw [hsite]
    intro heq
    cases heq
  · exact hpost.noAgent x hx

/-- Side calls leave the answer where it is. -/
theorem AnsweredLast.sides {s s' s'' : Run} {model : String} {answer : Answer}
    {xs : List Completed} (h : AnsweredLast env s s' model answer) (hxs : Sides xs)
    (hpaid : Paid env s' s'' xs) : AnsweredLast env s s'' model answer := by
  obtain ⟨pre, c, post, hbefore, hanswer, hmodel, hsite, hpre, hpost⟩ := h
  refine ⟨pre, c, post ++ xs, ?_, hanswer, hmodel, hsite, hpre, hpost.append hxs⟩
  have hall := hbefore.trans hpaid
  rw [List.append_assoc, List.cons_append] at hall
  exact hall

/-- A further attempt: it raises and adds nothing, or its answer is the last one. -/
theorem Run.timedLlm_cases {s s' : Run} (h : Called env s s') (model : String) :
    (∃ s'', s'.timedLlm env model = (none, s'') ∧ Paid env s' s'' []) ∨
    ∃ answer s'', s'.timedLlm env model = (some answer, s'') ∧
      AnsweredLast env s s'' model answer := by
  obtain ⟨xs, hxs, hbefore⟩ := h
  rcases s'.attempt_cases _ with ⟨hnone, hpaid⟩ | ⟨response, hsome, hpaid⟩
  · exact Or.inl ⟨_, Prod.ext hnone rfl, hpaid⟩
  · refine Or.inr ⟨_, _, Prod.ext hsome rfl, xs, _, [], hbefore.trans hpaid, ?_, rfl, rfl, hxs,
      sides_nil⟩
    rw [hbefore.completed, List.length_append]

/-! ## 3. What the cascade serves -/

/-- The outcome of (the rest of) a cascade that started at `s`. -/
def Settled (env : Prices) (s : Run) (r : Option (String × Answer) × Run) : Prop :=
  match r.1 with
  | some (model, answer) => AnsweredLast env s r.2 model answer
  | none => Called env s r.2

namespace Cascade

variable {k : Cascade} {s s' : Run} {tier1 : String} {best : Best}

theorem confidence_paid (k : Cascade) (s : Run) (answer : Answer) :
    ∃ xs, Sides xs ∧ Paid env s (k.confidence env s answer).2 xs := by
  unfold confidence
  by_cases hjudge : k.judgeModel = ""
  · rw [if_pos hjudge]
    exact ⟨[], sides_nil, Paid.refl s⟩
  · rw [if_neg hjudge]
    obtain ⟨xs, hxs, hpaid⟩ := @Run.sideCall_paid env s (.chat k.judgeModel)
    refine ⟨xs, hxs, ?_⟩
    split
    · next heq => rw [heq] at hpaid; exact hpaid
    · next heq => rw [heq] at hpaid; exact hpaid

theorem serve_settled (h : AnsweredLast env s s' best.model best.answer) :
    Settled env s (k.serve env tier1 s' best) := by
  unfold serve
  split
  · next hretry =>
    have hmodel : best.model = tier1 := by
      simp only [Bool.and_eq_true, decide_eq_true_eq] at hretry
      exact hretry.1.1.1
    rcases Run.timedLlm_cases h.called tier1 with ⟨s'', heq, hpaid⟩ | ⟨retried, s'', heq, hlast⟩
    · rw [heq]
      exact h.sides sides_nil hpaid
    · rw [heq]
      rw [← hmodel] at hlast
      exact hlast
  · exact h

theorem tierThree_settled (h : AnsweredLast env s s' best.model best.answer) :
    Settled env s (k.tierThree env tier1 s' best) := by
  unfold tierThree
  split
  · split
    · exact h.called
    · next model _ =>
      dsimp only
      split
      · exact serve_settled h
      · rcases Run.timedLlm_cases h.called model with
          ⟨s'', heq, hpaid⟩ | ⟨answer, s'', heq, hlast⟩
        · rw [heq]
          exact serve_settled (h.sides sides_nil hpaid)
        · rw [heq]
          exact serve_settled hlast
  · exact serve_settled h

theorem tierTwo_settled (h : AnsweredLast env s s' best.model best.answer) :
    Settled env s (k.tierTwo env tier1 s' best) := by
  unfold tierTwo
  split
  · split
    · exact h.called
    · next model _ =>
      dsimp only
      split
      · exact tierThree_settled h
      · rcases Run.timedLlm_cases h.called model with
          ⟨s'', heq, hpaid⟩ | ⟨answer, s'', heq, hlast⟩
        · rw [heq]
          exact serve_settled (h.sides sides_nil hpaid)
        · rw [heq]
          obtain ⟨xs, hxs, hjudged⟩ := k.confidence_paid s'' answer
          have hkept := hlast.sides hxs hjudged
          dsimp only
          split
          · exact serve_settled hkept
          · exact tierThree_settled hkept
  · exact tierThree_settled h

/-- Whatever the providers answer, the cascade serves the last of its own calls, and made no
    call that is not booked. -/
theorem executeThreeTierCascade_settled (k : Cascade) (s : Run) :
    Settled env s (k.executeThreeTierCascade env s) := by
  unfold executeThreeTierCascade
  split
  · exact Called.refl s
  · split
    · exact Called.refl s
    · next tier1 _ =>
      split
      · exact Called.refl s
      · rcases Run.timedLlm_cases (Called.refl s) tier1 with
          ⟨s'', heq, hpaid⟩ | ⟨answer, s'', heq, hlast⟩
        · rw [heq]
          exact (Called.refl s).sides sides_nil hpaid
        · rw [heq]
          obtain ⟨xs, hxs, hjudged⟩ := k.confidence_paid s'' answer
          have hkept := hlast.sides hxs hjudged
          dsimp only
          split
          · exact serve_settled hkept
          · exact tierTwo_settled hkept

end Cascade

end TokenProxy.Ledger
