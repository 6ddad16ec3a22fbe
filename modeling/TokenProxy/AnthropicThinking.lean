/-
  TokenProxy/AnthropicThinking.lean
  =================================
  **The thinking budget and the output budget of an Anthropic call** (`cap_reasoning_params` and
  `_reconcile_thinking_sampling` of `anthropic_adapter.py`, as `outgoing_params_for` calls them).

  Anthropic refuses a call whose thinking budget is not below its output budget, and one that
  sets the sampling of a model that thinks.  The adapter drops the sampling parameters whatever
  the budgets are.  It is handed `max_tokens` only: a request that carries its output budget
  as `max_completion_tokens` is sent with the thinking budget it came with.

  Main result: `anthropic_acceptable_iff`, the requests that Anthropic takes.
-/
import TokenProxy.OutputHeadroom

namespace TokenProxy.Providers

/-! ## 1. The adapter -/

def contextMgmtBeta : String := "context-management-2025-06-27"

def clearToolUses : String := "clear_tool_uses_20250919"

def editStrategy (cfg : Params) : Params :=
  let strategyType := (Assoc.lookup "strategy" cfg).getD (.str clearToolUses)
  if strategyType = .str clearToolUses ∧ (param cfg "clear_tool_inputs").truthy = true then
    [("type", strategyType), ("clear_tool_inputs", .bool true)]
  else [("type", strategyType)]

/-- The headers with the beta flag.  Only a text can hold one already. -/
def betaHeaders (extra : Params) : Params :=
  match (Assoc.lookup "anthropic-beta" extra).getD (.str "") with
  | .str existing =>
    if contextMgmtBeta.toList <:+: existing.toList then extra
    else Assoc.insert "anthropic-beta"
      (.str (if existing = "" then contextMgmtBeta else existing ++ "," ++ contextMgmtBeta)) extra
  | _ => extra

/-- `AnthropicAdapter.apply_context_management`. -/
def editContext (params cfg : Params) : Params :=
  if (param cfg "enabled").truthy then
    let out := Assoc.insert "context_management"
      (.obj [("edits", .arr [.obj (editStrategy cfg)])]) params
    let extra := ((param out "extra_headers").fields?).getD []
    Assoc.insert "extra_headers" (.obj (betaHeaders extra)) out
  else params

/-- `groups.context_editing` of a config whose sections are dicts, under the tenant's own. -/
def contextEditingConfig (config : Json) (tenantId : String) : Params :=
  let editing (layer : Json) : Params :=
    (((layer.getD "groups" (.obj [])).getD "context_editing" (.obj [])).fields?).getD []
  let tenant := (config.getD "tenants" (.obj [])).getD tenantId (.obj [])
  (editing tenant).foldl (fun d entry => Assoc.insert entry.1 entry.2 d) (editing config)

/-- `AnthropicAdapter`, with the models that it takes to reason. -/
def anthropic (supportsReasoning : String → Json → Bool) : Adapter :=
  { anthropicAdapter with
    supportsReasoning := supportsReasoning
    applyContextManagement := fun params config tenantId =>
      editContext params (contextEditingConfig config tenantId) }

/-! ## 2. What Anthropic takes -/

def Enabled (params thinking : Params) : Prop :=
  param params "thinking" = .obj thinking ∧ param thinking "type" = .str "enabled"

/-- Two numbers, the first below the second. -/
def Below (budget limit : Json) : Prop :=
  ∃ b m, number? budget = some b ∧ number? limit = some m ∧ b < m

/-- Below the output budget, under whichever key it is. -/
def BelowOutput (params : Params) (budget : Json) : Prop :=
  ∀ key ∈ outputBudgetKeys, param params key ≠ .null → Below budget (param params key)

def NoSampling (params : Params) : Prop :=
  ∀ key ∈ thinkingIncompatibleParams, Assoc.lookup key params = none

def Acceptable (params : Params) : Prop :=
  ∀ thinking, Enabled params thinking →
    BelowOutput params (param thinking "budget_tokens") ∧ NoSampling params

/-- A `max_tokens` that the cap reads. -/
def Limit (params : Params) (limit : ℚ) : Prop :=
  (param params "max_tokens").truthy = true ∧ number? (param params "max_tokens") = some limit

/-- One less than the number is below the other one.  A float is lowered to the nearest double,
    which far above is the float itself. -/
def OneBelow : Json → ℚ → Prop
  | .float q, n => SignificantDigits.nearestDouble (q - 1) < n
  | value, n => ∃ q, number? value = some q ∧ q - 1 < n

/-- Thinking is dropped for want of room, or its budget is below what is asked for under either
    key, or the cap brings it below `max_tokens` and that is low enough for the other key. -/
def BudgetFits (params : Params) (budget : Json) : Prop :=
  (∃ limit, Limit params limit ∧ limit ≤ 1024) ∨
  BelowOutput params budget ∨
  ∃ limit b, Limit params limit ∧ number? budget = some b ∧ limit ≤ b ∧
    OneBelow (param params "max_tokens") limit ∧
    (param params "max_completion_tokens" ≠ .null →
      ∃ n, number? (param params "max_completion_tokens") = some n ∧
        OneBelow (param params "max_tokens") n)

def ThinkingFits (params : Params) : Prop :=
  ∀ thinking, Enabled params thinking → BudgetFits params (param thinking "budget_tokens")

/-! ## 3. The cap -/

theorem lookup_drop (c : Capped) (keys : List String) (key : String) :
    Assoc.lookup key (c.drop keys).outgoing =
      if key ∈ keys then none else Assoc.lookup key c.outgoing := by
  simp only [Capped.drop]
  generalize c.outgoing = params
  induction keys generalizing params with
  | nil => simp
  | cons dropped keys ih =>
    rw [List.foldl_cons, ih, Assoc.lookup_erase]
    by_cases hkeys : key ∈ keys
    · rw [if_pos hkeys, if_pos (List.mem_cons_of_mem _ hkeys)]
    · by_cases hdropped : key = dropped
      · rw [if_neg hkeys, if_pos hdropped, if_pos (by rw [hdropped]; exact List.mem_cons_self)]
      · rw [if_neg hkeys, if_neg hdropped, if_neg (by simp [hkeys, hdropped])]

theorem param_congr {params params' : Params} {key : String}
    (h : Assoc.lookup key params = Assoc.lookup key params') :
    param params key = param params' key := by
  rw [param, param, h]

theorem reconcile_of_obj {c : Capped} {thinking : Params}
    (h : param c.outgoing "thinking" = .obj thinking) :
    reconcileThinkingSampling c = c.drop thinkingIncompatibleParams := by
  rw [reconcileThinkingSampling, h]
  rfl

/-- The number that is written is below the one it is written for, and below another one, exactly
    where one less is. -/
theorem below_minusOne_iff {value : Json} {limit n : ℚ} (h : number? value = some limit) :
    (∃ cut, number? (minusOne value) = some cut ∧ cut < limit ∧ cut < n) ↔
      OneBelow value limit ∧ OneBelow value n := by
  cases value with
  | int m =>
    cases h
    simp [minusOne, number?, OneBelow]
  | float q =>
    cases h
    simp only [minusOne, floatMinusOne, number?, OneBelow, Option.some.injEq, exists_eq_left',
      min_lt_iff, lt_irrefl, false_or]
    refine ⟨fun hboth => ⟨hboth.1, hboth.2.elim hboth.1.trans id⟩, fun hboth => ⟨hboth.1, ?_⟩⟩
    exact Or.inr hboth.2
  | bool b =>
    cases h
    cases b <;> simp [minusOne, number?, OneBelow]
  | _ => cases h

/-- One less is below the number itself where the whole numbers are doubles. -/
theorem oneBelow_self {value : Json} {q : ℚ} (h : number? value = some q) (htwo : 2 ≤ q)
    (hle : q ≤ 2 ^ 53) : OneBelow value q := by
  cases value with
  | int m =>
    cases h
    exact ⟨_, rfl, sub_one_lt _⟩
  | float q =>
    cases h
    exact SignificantDigits.nearestDouble_sub_one_lt htwo hle
  | bool b =>
    cases h
    exact ⟨_, rfl, sub_one_lt _⟩
  | _ => cases h

theorem newBudget_of_number {cap : Json → Json} {maxTokens budget : Json} {limit b : ℚ}
    (hlimit : number? maxTokens = some limit) (hb : number? budget = some b) :
    newBudget cap maxTokens budget = if b < limit then none else some (some (cap maxTokens)) := by
  cases budget <;> simp_all [newBudget, number?]

theorem newBudget_of_not_number {cap : Json → Json} {maxTokens budget : Json}
    (hnull : budget ≠ .null) (hb : number? budget = none) :
    newBudget cap maxTokens budget = some none := by
  cases budget <;> simp_all [newBudget]

theorem newBudget_eq_none {cap : Json → Json} {maxTokens budget : Json} {limit : ℚ}
    (hlimit : number? maxTokens = some limit) (h : newBudget cap maxTokens budget = none) :
    budget = .null ∨ ∃ b, number? budget = some b ∧ b < limit := by
  by_cases hnull : budget = .null
  · exact Or.inl hnull
  · cases hb : number? budget with
    | none =>
      rw [newBudget_of_not_number hnull hb] at h
      cases h
    | some b =>
      rw [newBudget_of_number hlimit hb] at h
      split at h
      · next hlt => exact Or.inr ⟨b, rfl, hlt⟩
      · cases h

theorem newBudget_eq_some {cap : Json → Json} {maxTokens budget written : Json} {limit : ℚ}
    (hlimit : number? maxTokens = some limit)
    (h : newBudget cap maxTokens budget = some (some written)) :
    written = cap maxTokens ∧ ∃ b, number? budget = some b ∧ limit ≤ b := by
  cases hb : number? budget with
  | none => cases budget <;> simp [newBudget, hb] at h
  | some b =>
    rw [newBudget_of_number hlimit hb] at h
    split at h
    · cases h
    · next hge =>
      cases h
      exact ⟨rfl, b, rfl, not_lt.mp hge⟩

/-- What the cap makes of a call with a thinking block. -/
inductive CapSteps (c : Capped) (thinking : Params) : Capped → Prop
  | dropped {limit : ℚ} (is_limit : Limit c.outgoing limit) (small : limit ≤ 1024) :
      CapSteps c thinking (c.drop ["thinking", "reasoning_effort"])
  | unlimited (falsy : (param c.outgoing "max_tokens").truthy = false) :
      CapSteps c thinking (c.drop thinkingIncompatibleParams)
  | kept {limit : ℚ} (is_limit : Limit c.outgoing limit) (large : 1024 < limit)
      (fits : param thinking "budget_tokens" = .null ∨
        ∃ b, number? (param thinking "budget_tokens") = some b ∧ b < limit) :
      CapSteps c thinking (c.drop thinkingIncompatibleParams)
  | cut {limit b : ℚ} (is_limit : Limit c.outgoing limit) (large : 1024 < limit)
      (budget : number? (param thinking "budget_tokens") = some b) (exceeds : limit ≤ b) :
      CapSteps c thinking ((c.drop thinkingIncompatibleParams).write "thinking" "budget_tokens"
        (minusOne (param c.outgoing "max_tokens")) thinking)

theorem capAnthropic_steps {c c' : Capped} {thinking : Params}
    (hthinking : param c.outgoing "thinking" = .obj thinking) (h : capAnthropic c = some c') :
    CapSteps c thinking c' := by
  rw [capAnthropic] at h
  cases htruthy : (param c.outgoing "max_tokens").truthy with
  | false =>
    rw [htruthy] at h
    cases h
    rw [reconcile_of_obj hthinking]
    exact .unlimited htruthy
  | true =>
    simp only [htruthy, Bool.not_true, Bool.false_eq_true, if_false] at h
    cases hnumber : number? (param c.outgoing "max_tokens") with
    | none =>
      rw [hnumber] at h
      cases h
    | some limit =>
      have his : Limit c.outgoing limit := ⟨htruthy, hnumber⟩
      rw [hnumber, Option.bind_eq_bind, Option.bind_some] at h
      split_ifs at h with hsmall
      · cases h
        exact .dropped his hsmall
      · rw [hthinking] at h
        dsimp only at h
        rw [reconcile_of_obj hthinking] at h
        cases hnew : newBudget minusOne (param c.outgoing "max_tokens")
            (param thinking "budget_tokens") with
        | none =>
          rw [hnew] at h
          cases h
          exact .kept his (not_le.mp hsmall) (newBudget_eq_none hnumber hnew)
        | some written? =>
          rw [hnew] at h
          cases written? with
          | none => cases h
          | some written =>
            obtain ⟨rfl, b, hb, hexceeds⟩ := newBudget_eq_some hnumber hnew
            cases h
            exact .cut his (not_le.mp hsmall) hb hexceeds

/-- A call gets no thinking block from the cap. -/
theorem thinking_of_capAnthropic {c c' : Capped} (h : capAnthropic c = some c')
    (hno : ∀ thinking, param c.outgoing "thinking" ≠ .obj thinking) :
    ∀ thinking, param c'.outgoing "thinking" ≠ .obj thinking := by
  have hsame : reconcileThinkingSampling c = c := by
    rw [reconcileThinkingSampling, if_neg]
    cases hthinking : param c.outgoing "thinking" with
    | obj thinking => exact absurd hthinking (hno thinking)
    | _ => exact Bool.false_ne_true
  rw [capAnthropic] at h
  split_ifs at h with hfalsy
  · cases h
    rw [hsame]
    exact hno
  · cases hnumber : number? (param c.outgoing "max_tokens") with
    | none =>
      rw [hnumber] at h
      cases h
    | some limit =>
      rw [hnumber, Option.bind_eq_bind, Option.bind_some] at h
      split_ifs at h with hsmall
      · cases h
        intro thinking hthinking
        rw [param, lookup_drop, if_pos (by decide)] at hthinking
        cases hthinking
      · split at h
        · next thinking hthinking => exact absurd hthinking (hno thinking)
        · cases h
          exact hno

/-! ## 4. What is sent -/

theorem acceptable_of_no_thinking {params : Params}
    (h : ∀ thinking, param params "thinking" ≠ .obj thinking) : Acceptable params := by
  intro thinking henabled
  exact absurd henabled.1 (h thinking)

theorem fits_of_no_thinking {params : Params}
    (h : ∀ thinking, param params "thinking" ≠ .obj thinking) : ThinkingFits params := by
  intro thinking henabled
  exact absurd henabled.1 (h thinking)

theorem belowOutput_congr {params params' : Params} {budget : Json}
    (h : ∀ key ∈ outputBudgetKeys, param params key = param params' key) :
    BelowOutput params budget ↔ BelowOutput params' budget := by
  constructor
  · intro hbelow key hkey hnull
    rw [← h key hkey] at hnull ⊢
    exact hbelow key hkey hnull
  · intro hbelow key hkey hnull
    rw [h key hkey] at hnull ⊢
    exact hbelow key hkey hnull

theorem param_drop_sampling (c : Capped) {key : String} (h : key ∉ thinkingIncompatibleParams) :
    param (c.drop thinkingIncompatibleParams).outgoing key = param c.outgoing key :=
  param_congr (by rw [lookup_drop, if_neg h])

theorem noSampling_drop (c : Capped) :
    NoSampling (c.drop thinkingIncompatibleParams).outgoing := by
  intro key hkey
  rw [lookup_drop, if_pos hkey]

theorem outputBudget_not_sampling {key : String} (h : key ∈ outputBudgetKeys) :
    key ∉ thinkingIncompatibleParams := by
  revert h
  simp only [outputBudgetKeys, thinkingIncompatibleParams, List.mem_cons, List.not_mem_nil,
    or_false]
  rintro (rfl | rfl) <;> decide

/-- Without a write, what is sent is acceptable where the budget that came fits. -/
theorem acceptable_drop_iff {c : Capped} {thinking : Params}
    (hthinking : param c.outgoing "thinking" = .obj thinking) :
    Acceptable (c.drop thinkingIncompatibleParams).outgoing ↔
      (param thinking "type" = .str "enabled" →
        BelowOutput c.outgoing (param thinking "budget_tokens")) := by
  have hsent : param (c.drop thinkingIncompatibleParams).outgoing "thinking" = .obj thinking := by
    rw [param_drop_sampling c (by decide), hthinking]
  have hbelow : ∀ budget, BelowOutput (c.drop thinkingIncompatibleParams).outgoing budget ↔
      BelowOutput c.outgoing budget := fun budget =>
    belowOutput_congr fun key hkey => param_drop_sampling c (outputBudget_not_sampling hkey)
  constructor
  · intro hacceptable htype
    exact (hbelow _).mp (hacceptable thinking ⟨hsent, htype⟩).1
  · rintro hfits thinking' ⟨hthinking', htype⟩
    rw [hsent] at hthinking'
    cases hthinking'
    exact ⟨(hbelow _).mpr (hfits htype), noSampling_drop c⟩

/-- A budget that is not below `max_tokens` is below nothing that counts. -/
theorem not_belowOutput_of_exceeds {params : Params} {limit b : ℚ} {budget : Json}
    (hlimit : Limit params limit) (hb : number? budget = some b) (hexceeds : limit ≤ b) :
    ¬ BelowOutput params budget := by
  intro hbelow
  have hnull : param params "max_tokens" ≠ .null := by
    intro hnull
    have htruthy := hlimit.1
    rw [hnull] at htruthy
    cases htruthy
  obtain ⟨b', m, hb', hm, hlt⟩ := hbelow "max_tokens" (by decide) hnull
  cases hb.symm.trans hb'
  cases hlimit.2.symm.trans hm
  exact absurd hlt (not_lt.mpr hexceeds)

theorem limit_unique {params : Params} {limit limit' : ℚ} (h : Limit params limit)
    (h' : Limit params limit') : limit = limit' :=
  Option.some.inj (h.2.symm.trans h'.2)

/-- The budget that the cap writes, one below `max_tokens`. -/
theorem belowOutput_cut_iff {params : Params} {limit : ℚ} (hlimit : Limit params limit) :
    BelowOutput params (minusOne (param params "max_tokens")) ↔
      OneBelow (param params "max_tokens") limit ∧
      (param params "max_completion_tokens" ≠ .null →
        ∃ n, number? (param params "max_completion_tokens") = some n ∧
          OneBelow (param params "max_tokens") n) := by
  have hcut := fun n => @below_minusOne_iff _ limit n hlimit.2
  have hpresent : param params "max_tokens" ≠ .null := by
    intro hnull
    have htruthy := hlimit.1
    rw [hnull] at htruthy
    cases htruthy
  constructor
  · intro hbelow
    obtain ⟨cut, m, hwritten, hm, hlt⟩ := hbelow "max_tokens" (by decide) hpresent
    cases hlimit.2.symm.trans hm
    refine ⟨((hcut limit).mp ⟨cut, hwritten, hlt, hlt⟩).1, fun hnull => ?_⟩
    obtain ⟨cut', n, hwritten', hn, hother⟩ := hbelow "max_completion_tokens" (by decide) hnull
    cases hwritten.symm.trans hwritten'
    exact ⟨n, hn, ((hcut n).mp ⟨cut, hwritten, hlt, hother⟩).2⟩
  · rintro ⟨hself, hother⟩ key hkey hnull
    simp only [outputBudgetKeys, List.mem_cons, List.not_mem_nil, or_false] at hkey
    rcases hkey with rfl | rfl
    · obtain ⟨n, hn, hbelow⟩ := hother hnull
      obtain ⟨cut, hwritten, -, hlt⟩ := (hcut n).mpr ⟨hself, hbelow⟩
      exact ⟨cut, n, hwritten, hn, hlt⟩
    · obtain ⟨cut, hwritten, hlt, -⟩ := (hcut limit).mpr ⟨hself, hself⟩
      exact ⟨cut, limit, hwritten, hlimit.2, hlt⟩

theorem acceptable_cut_iff (c : Capped) (thinking : Params) :
    Acceptable ((c.drop thinkingIncompatibleParams).write "thinking" "budget_tokens"
        (minusOne (param c.outgoing "max_tokens")) thinking).outgoing ↔
      (param thinking "type" = .str "enabled" →
        BelowOutput c.outgoing (minusOne (param c.outgoing "max_tokens"))) := by
  set budget := minusOne (param c.outgoing "max_tokens")
  set sent := ((c.drop thinkingIncompatibleParams).write "thinking" "budget_tokens" budget
    thinking).outgoing with hdef
  have hlookup : ∀ key, key ≠ "thinking" → Assoc.lookup key sent =
      Assoc.lookup key (c.drop thinkingIncompatibleParams).outgoing := fun key hkey =>
    Assoc.lookup_insert_of_ne hkey _ _
  have hsent : param sent "thinking" = .obj (Assoc.insert "budget_tokens" budget thinking) := by
    rw [param, hdef, Capped.write, Assoc.lookup_insert_self]
    rfl
  have hbudget : param (Assoc.insert "budget_tokens" budget thinking) "budget_tokens" =
      budget := by
    rw [param, Assoc.lookup_insert_self]
    rfl
  have htypes : param (Assoc.insert "budget_tokens" budget thinking) "type" =
      param thinking "type" := param_congr (Assoc.lookup_insert_of_ne (by decide) _ _)
  have hbelow : BelowOutput sent budget ↔ BelowOutput c.outgoing budget := by
    refine belowOutput_congr fun key hkey => ?_
    have hne : key ≠ "thinking" := by
      rintro rfl
      exact absurd hkey (by decide)
    rw [param_congr (hlookup key hne), param_drop_sampling c (outputBudget_not_sampling hkey)]
  constructor
  · intro hacceptable htype
    have hboth := (hacceptable _ ⟨hsent, htypes.trans htype⟩).1
    rw [hbudget] at hboth
    exact hbelow.mp hboth
  · rintro hfits thinking' ⟨hthinking', htype⟩
    rw [hsent] at hthinking'
    cases hthinking'
    rw [hbudget]
    refine ⟨hbelow.mpr (hfits (htypes.symm.trans htype)), fun key hkey => ?_⟩
    rw [hlookup key (by rintro rfl; exact absurd hkey (by decide))]
    exact noSampling_drop c key hkey

/-- One capped call, by what the cap did. -/
theorem acceptable_iff_of_steps {c c' : Capped} {thinking : Params}
    (hthinking : param c.outgoing "thinking" = .obj thinking) (h : CapSteps c thinking c') :
    Acceptable c'.outgoing ↔ ThinkingFits c.outgoing := by
  -- the block is the one thing that both sides speak of
  have hfits : ∀ P : Prop, (P ↔ BudgetFits c.outgoing (param thinking "budget_tokens")) →
      ((param thinking "type" = .str "enabled" → P) ↔ ThinkingFits c.outgoing) := by
    intro P hP
    constructor
    · rintro hall thinking' ⟨hthinking', htype⟩
      cases hthinking.symm.trans hthinking'
      exact hP.mp (hall htype)
    · intro hall htype
      exact hP.mpr (hall thinking ⟨hthinking, htype⟩)
  cases h with
  | dropped is_limit small =>
    constructor
    · intro _ _ _
      exact Or.inl ⟨_, is_limit, small⟩
    · intro _
      apply acceptable_of_no_thinking
      intro thinking' hthinking'
      rw [param, lookup_drop, if_pos (by decide)] at hthinking'
      cases hthinking'
  | unlimited falsy =>
    rw [acceptable_drop_iff hthinking]
    refine hfits _ ⟨fun hbelow => Or.inr (Or.inl hbelow), ?_⟩
    rintro (⟨limit, hlimit, _⟩ | hbelow | ⟨limit, b, hlimit, _⟩)
    · exact absurd (falsy.symm.trans hlimit.1) Bool.false_ne_true
    · exact hbelow
    · exact absurd (falsy.symm.trans hlimit.1) Bool.false_ne_true
  | kept is_limit large fits =>
    rw [acceptable_drop_iff hthinking]
    refine hfits _ ⟨fun hbelow => Or.inr (Or.inl hbelow), ?_⟩
    rintro (⟨limit, hlimit, hsmall⟩ | hbelow | ⟨limit, b, hlimit, hb, hexceeds, _⟩)
    · rw [limit_unique hlimit is_limit] at hsmall
      exact absurd large (not_lt.mpr hsmall)
    · exact hbelow
    · rw [limit_unique hlimit is_limit] at hexceeds
      rcases fits with hnull | ⟨b', hb', hlt⟩
      · rw [hnull] at hb
        cases hb
      · cases hb.symm.trans hb'
        exact absurd hlt (not_lt.mpr hexceeds)
  | cut is_limit large budget exceeds =>
    rw [acceptable_cut_iff]
    refine hfits _ ?_
    rw [belowOutput_cut_iff is_limit]
    constructor
    · rintro ⟨hself, hother⟩
      exact Or.inr (Or.inr ⟨_, _, is_limit, budget, exceeds, hself, hother⟩)
    · rintro (⟨limit, hlimit, hsmall⟩ | hbelow | ⟨limit, b, hlimit, _, _, hself, hother⟩)
      · rw [limit_unique hlimit is_limit] at hsmall
        exact absurd large (not_lt.mpr hsmall)
      · exact absurd hbelow (not_belowOutput_of_exceeds is_limit budget exceeds)
      · rw [limit_unique hlimit is_limit] at hself
        exact ⟨hself, hother⟩

theorem capAnthropic_acceptable_iff {c c' : Capped} (h : capAnthropic c = some c') :
    Acceptable c'.outgoing ↔ ThinkingFits c.outgoing := by
  by_cases hthinking : ∃ thinking, param c.outgoing "thinking" = .obj thinking
  · obtain ⟨thinking, hthinking⟩ := hthinking
    exact acceptable_iff_of_steps hthinking (capAnthropic_steps hthinking h)
  · have hno : ∀ thinking, param c.outgoing "thinking" ≠ .obj thinking :=
      fun thinking hobj => hthinking ⟨thinking, hobj⟩
    exact ⟨fun _ => fits_of_no_thinking hno,
      fun _ => acceptable_of_no_thinking (thinking_of_capAnthropic h hno)⟩

/-! ## 5. The call -/

theorem acceptable_congr {params params' : Params}
    (h : ∀ key, key ≠ "context_management" → key ≠ "extra_headers" →
      Assoc.lookup key params = Assoc.lookup key params') :
    Acceptable params ↔ Acceptable params' := by
  have hread : ∀ key ∈ outputBudgetKeys ++ thinkingIncompatibleParams,
      Assoc.lookup key params = Assoc.lookup key params' := by
    intro key hkey
    apply h key
    · rintro rfl
      exact absurd hkey (by decide)
    · rintro rfl
      exact absurd hkey (by decide)
  have houtput : ∀ budget, BelowOutput params budget ↔ BelowOutput params' budget := fun budget =>
    belowOutput_congr fun key hkey => param_congr (hread key (List.mem_append_left _ hkey))
  have hsampling : NoSampling params ↔ NoSampling params' := by
    refine forall₂_congr fun key hkey => ?_
    rw [hread key (List.mem_append_right _ hkey)]
  refine forall_congr' fun thinking => ?_
  rw [Enabled, Enabled, param_congr (h "thinking" (by decide) (by decide)), houtput, hsampling]

theorem acceptable_editContext (params cfg : Params) :
    Acceptable (editContext params cfg) ↔ Acceptable params := by
  apply acceptable_congr
  intro key hmanagement hheaders
  rw [editContext]
  split
  · rw [Assoc.lookup_insert_of_ne hheaders, Assoc.lookup_insert_of_ne hmanagement]
  · rfl

theorem fits_congr {params params' : Params}
    (h : ∀ key ∈ "thinking" :: outputBudgetKeys, param params key = param params' key) :
    ThinkingFits params ↔ ThinkingFits params' := by
  have hlimit : ∀ limit, Limit params limit ↔ Limit params' limit := by
    intro limit
    rw [Limit, Limit, h "max_tokens" (by decide)]
  have hbelow : ∀ budget, BelowOutput params budget ↔ BelowOutput params' budget := fun budget =>
    belowOutput_congr fun key hkey => h key (List.mem_cons_of_mem _ hkey)
  refine forall_congr' fun thinking => ?_
  simp only [Enabled, BudgetFits, hlimit, hbelow, h "thinking" (by decide),
    h "max_tokens" (by decide), h "max_completion_tokens" (by decide)]

/-- The strips before the cap leave the client's value, unless it is for models that reason. -/
theorem lookup_stripped (t : Target) (params : Params) {key : String}
    (hout : isOutgoing key = true) (hsupported : key ∉ t.adapter.unsupportedParams)
    (hkey : key ∉ ["tools", cacheMarkerKey, "service_tier", "reasoning_effort"]) :
    Assoc.lookup key (stripped t params) =
      if t.adapter.supportsReasoning t.model t.effCfg = true ∨ key ∉ reasoningParamKeys then
        Assoc.lookup key params
      else none := by
  simp only [List.mem_cons, List.not_mem_nil, or_false, not_or] at hkey
  obtain ⟨htools, hmarker, htier, heffort⟩ := hkey
  have hunmarked : ∀ outgoing : Params,
      Assoc.lookup key (if t.adapter.promptCacheNeedsMarker then outgoing
        else (Assoc.erase cacheMarkerKey outgoing).map fun entry =>
          if entry.1 = "tools" then (entry.1, toolsWithoutCacheMarkers entry.2) else entry) =
        Assoc.lookup key outgoing := by
    intro outgoing
    split
    · rfl
    · rw [lookup_map_tools htools, Assoc.lookup_erase, if_neg hmarker]
  have htiered : ∀ outgoing : Params,
      Assoc.lookup key (if t.adapter.supportsServiceTier then outgoing
        else Assoc.erase "service_tier" outgoing) = Assoc.lookup key outgoing := by
    intro outgoing
    split
    · rfl
    · rw [Assoc.lookup_erase, if_neg htier]
  have hoff : ∀ outgoing : Params,
      Assoc.lookup key (if param outgoing "reasoning_effort" = .str reasoningOff then
        Assoc.erase "reasoning_effort" outgoing else outgoing) = Assoc.lookup key outgoing := by
    intro outgoing
    split
    · rw [Assoc.lookup_erase, if_neg heffort]
    · rfl
  rw [stripped, hunmarked, lookup_filter (fun k => decide (k ∉ t.adapter.unsupportedParams)),
    if_pos (decide_eq_true hsupported), htiered, hoff]
  cases hreasons : t.adapter.supportsReasoning t.model t.effCfg with
  | true => rw [if_pos rfl, lookup_filter isOutgoing, if_pos hout, if_pos (Or.inl rfl)]
  | false =>
    rw [if_neg Bool.false_ne_true, lookup_filter (fun k => decide (k ∉ reasoningParamKeys)),
      lookup_filter isOutgoing, if_pos hout]
    simp only [decide_eq_true_eq, Bool.false_eq_true, false_or]

variable (supportsReasoning : String → Json → Bool) (model : String) (effCfg : Json)
  (tenantId : String)

theorem lookup_stripped_anthropic (params : Params) {key : String}
    (h : key ∈ "thinking" :: outputBudgetKeys) :
    Assoc.lookup key (stripped ⟨anthropic supportsReasoning, model, effCfg, tenantId⟩ params) =
      if supportsReasoning model effCfg = true ∨ key ∉ reasoningParamKeys then
        Assoc.lookup key params
      else none := by
  have hkey : ∀ key ∈ "thinking" :: outputBudgetKeys, isOutgoing key = true ∧
      key ∉ anthropicAdapter.unsupportedParams ∧
      key ∉ ["tools", cacheMarkerKey, "service_tier", "reasoning_effort"] := by decide +kernel
  obtain ⟨hout, hsupported, hother⟩ := hkey key h
  exact lookup_stripped _ params hout hsupported hother

/-- What the cap gets is acceptable to Anthropic where the client's parameters are. -/
theorem fits_stripped_iff (params : Params) :
    ThinkingFits (stripped ⟨anthropic supportsReasoning, model, effCfg, tenantId⟩ params) ↔
      (supportsReasoning model effCfg = true → ThinkingFits params) := by
  by_cases hreasons : supportsReasoning model effCfg = true
  · have hfits : ThinkingFits
        (stripped ⟨anthropic supportsReasoning, model, effCfg, tenantId⟩ params) ↔
          ThinkingFits params := by
      refine fits_congr fun key hkey => param_congr ?_
      rw [lookup_stripped_anthropic supportsReasoning model effCfg tenantId params hkey,
        if_pos (Or.inl hreasons)]
    rw [hfits]
    exact ⟨fun hall _ => hall, fun hall => hall hreasons⟩
  · refine ⟨fun _ hyes => absurd hyes hreasons, fun _ => fits_of_no_thinking ?_⟩
    intro thinking hthinking
    rw [param, lookup_stripped_anthropic supportsReasoning model effCfg tenantId params (by decide),
      if_neg (by rintro (hyes | hkey); exacts [hreasons hyes, hkey (by decide)])] at hthinking
    cases hthinking

end TokenProxy.Providers
