/-
  TokenProxy/OutgoingParams.lean
  ==============================
  **The parameters of a provider call, and what building them does to the request
  (`providers/__init__.py`, `anthropic_adapter.py`, `gemini_adapter.py`).**

  `outgoing_params_for` fills a new dict with the values of `ctx.params`.  The values are
  not copied: an object under `thinking` is one object that both dicts hold, and an adapter
  that writes into it writes into the request.  `Capped` keeps the two sides apart, so that a
  write into a shared object appears in both and one into the new dict in one.

  Main result: `params_undisturbed_iff`, the targets that leave the request's parameters as
  they were are those whose adapter writes no budget.
-/
import TokenProxy.Execution
import TokenProxy.PyJson
import TokenProxy.SignificantDigits
import Mathlib.Algebra.Order.Ring.Rat

namespace TokenProxy.Providers

/-! ## 1. Stripping -/

abbrev Params := List (String × Json)

def param (params : Params) (key : String) : Json := (Assoc.lookup key params).getD .null

def internalParamKeys : List String :=
  ["template_id", "workflow_id", "rag_query", "batch_id", "burst_block"]

def litellmControlKeys : List String :=
  ["additional_drop_params", "allowed_openai_params", "api_base", "api_key", "api_type",
    "api_version", "base_url", "cache", "caching", "client", "client_id", "client_secret",
    "context_window_fallback_dict", "custom_llm_provider", "deployment_id", "drop_params",
    "extra_body", "extra_headers", "fallbacks", "headers", "input_cost_per_second",
    "input_cost_per_token", "max_retries", "model_list", "no-log", "num_retries",
    "organization", "output_cost_per_second", "output_cost_per_token", "preset_cache_key",
    "project", "proxy_server_request", "region_name", "request_timeout", "ssl_verify",
    "stream_timeout", "tenant_id", "timeout", "user_continue_message"]

def litellmControlPrefixes : List String :=
  ["aws_", "azure_", "litellm_", "mock_", "vertex_", "watsonx_"]

def startsWith (key pre : String) : Bool := pre.toList.isPrefixOf key.toList

def isLitellmControlKey (key : String) : Bool :=
  decide (key ∈ litellmControlKeys) || litellmControlPrefixes.any (startsWith key)

/-- The keys that go to a provider at all. -/
def isOutgoing (key : String) : Bool :=
  !startsWith key "_" && !startsWith key "x_" && decide (key ∉ internalParamKeys) &&
    !isLitellmControlKey key

def reasoningOff : String := "off"

def cacheMarkerKey : String := "cache_control"

/-- A tool without a marker on it or its `function`. -/
def unmarkedTool : Json → Json
  | .obj fields =>
    let clean := Assoc.erase cacheMarkerKey fields
    match Assoc.lookup "function" clean with
    | some (.obj function) =>
      .obj (Assoc.insert "function" (.obj (Assoc.erase cacheMarkerKey function)) clean)
    | _ => .obj clean
  | other => other

/-- `_tools_without_cache_markers`. -/
def toolsWithoutCacheMarkers : Json → Json
  | .arr tools => .arr (tools.map unmarkedTool)
  | other => other

/-- `_parts_unmarked`. -/
def partsUnmarked : Json → Json
  | .arr parts => .arr (parts.map fun part =>
      match part with
      | .obj fields => .obj (Assoc.erase cacheMarkerKey fields)
      | other => other)
  | other => other

/-- A message without a marker on it, on a part of its content or on a tool call. -/
def messageUnmarked : Json → Json
  | .obj fields =>
    .obj (["content", "tool_calls"].foldl (fun message key =>
      match Assoc.lookup key message with
      | some value => Assoc.insert key (partsUnmarked value) message
      | none => message) (Assoc.erase cacheMarkerKey fields))
  | other => other

/-- `without_cache_markers`. -/
def withoutCacheMarkers : Json → Json
  | .arr messages => .arr (messages.map messageUnmarked)
  | other => other

/-! ## 2. Adapters -/

/-- The implementations of `cap_reasoning_params`. -/
inductive Capping where
  | base
  | anthropic
  | gemini
deriving DecidableEq

structure Adapter where
  /-- `supports_reasoning`, of a model under a config -/
  supportsReasoning : String → Json → Bool
  supportsServiceTier : Bool
  unsupportedParams : List String
  promptCacheNeedsMarker : Bool
  capping : Capping
  /-- `reserve_reasoning_headroom` of the new dict, a model, a config and the effort that was
      asked for: the budget it writes into the new dict, if any -/
  reserveReasoningHeadroom : Params → String → Json → Json → Option (String × Json)
  /-- `apply_context_management`, under a config and for a tenant: a new dict again -/
  applyContextManagement : Params → Json → String → Params

def reasoningParamKeys : List String := ["reasoning_effort", "thinking", "thinking_config"]

/-- What arithmetic makes of a value; `none` where it raises. -/
def number? : Json → Option ℚ
  | .int n => some n
  | .float q => some q
  | .bool b => some (if b then 1 else 0)
  | _ => none

/-- `q - 1` of a double: the nearest double, which is not above `q`. -/
def floatMinusOne (q : ℚ) : ℚ := min q (SignificantDigits.nearestDouble (q - 1))

/-- `value - 1`, of a number. -/
def minusOne : Json → Json
  | .int n => .int (n - 1)
  | .float q => .float (floatMinusOne q)
  | .bool b => .int ((if b then 1 else 0) - 1)
  | other => other

/-- `max(0, value)`: the zero unless the number is larger. -/
def maxZero (value : Json) : Json :=
  match number? value with
  | some q => if 0 < q then value else .int 0
  | none => value

/-- The new dict, and the request's own parameters. -/
structure Capped where
  outgoing : Params
  params : Params
deriving DecidableEq

/-- `d[key][field] = value`, where the object under `key` is in both dicts. -/
def Capped.write (c : Capped) (key field : String) (value : Json) (fields : Params) : Capped :=
  let object := Json.obj (Assoc.insert field value fields)
  ⟨Assoc.insert key object c.outgoing, Assoc.insert key object c.params⟩

/-- `d.pop(key, None)` of the new dict. -/
def Capped.drop (c : Capped) (keys : List String) : Capped :=
  { c with outgoing := keys.foldl (fun outgoing key => Assoc.erase key outgoing) c.outgoing }

def thinkingIncompatibleParams : List String := ["temperature", "top_p", "top_k"]

/-- `_reconcile_thinking_sampling`. -/
def reconcileThinkingSampling (c : Capped) : Capped :=
  if (param c.outgoing "thinking").isObj then c.drop thinkingIncompatibleParams else c

/-- The budget that is written over one that is there; `none` where nothing is written, and
`some none` where the comparison raises. -/
def newBudget (cap : Json → Json) (maxTokens budget : Json) : Option (Option Json) :=
  match budget with
  | .null => none
  | _ =>
    match number? budget, number? maxTokens with
    | some b, some m => if b < m then none else some (some (cap maxTokens))
    | _, _ => some none

/-- `AnthropicAdapter.cap_reasoning_params`; `none` where it raises. -/
def capAnthropic (c : Capped) : Option Capped :=
  let maxTokens := param c.outgoing "max_tokens"
  if !maxTokens.truthy then some (reconcileThinkingSampling c)
  else do
    let limit ← number? maxTokens
    if limit ≤ 1024 then some (c.drop ["thinking", "reasoning_effort"])
    else
      match param c.outgoing "thinking" with
      | .obj thinking =>
        let reconciled := reconcileThinkingSampling c
        match newBudget minusOne maxTokens (param thinking "budget_tokens") with
        | none => some reconciled
        | some none => none
        | some (some budget) => some (reconciled.write "thinking" "budget_tokens" budget thinking)
      | _ => some c

/-- `GeminiAdapter.cap_reasoning_params`; `none` where it raises. -/
def capGemini (c : Capped) : Option Capped :=
  let maxTokens := param c.outgoing "max_tokens"
  if !maxTokens.truthy then some c
  else
    match param c.outgoing "thinking_config" with
    | .obj tc =>
      match newBudget (fun value => maxZero (minusOne value)) maxTokens
          (param tc "thinking_budget") with
      | none => some c
      | some none => none
      | some (some budget) => some (c.write "thinking_config" "thinking_budget" budget tc)
    | _ => some c

def Adapter.capReasoningParams (adapter : Adapter) (c : Capped) : Option Capped :=
  match adapter.capping with
  | .base => some c
  | .anthropic => capAnthropic c
  | .gemini => capGemini c

/-! ## 3. The call -/

structure Target where
  adapter : Adapter
  model : String
  effCfg : Json
  tenantId : String

/-- The new dict before the adapter caps it. -/
def stripped (t : Target) (params : Params) : Params :=
  let outgoing := params.filter fun entry => isOutgoing entry.1
  let outgoing :=
    if t.adapter.supportsReasoning t.model t.effCfg then outgoing
    else outgoing.filter fun entry => decide (entry.1 ∉ reasoningParamKeys)
  let outgoing :=
    if param outgoing "reasoning_effort" = .str reasoningOff then
      Assoc.erase "reasoning_effort" outgoing
    else outgoing
  let outgoing :=
    if t.adapter.supportsServiceTier then outgoing else Assoc.erase "service_tier" outgoing
  let outgoing := outgoing.filter fun entry => decide (entry.1 ∉ t.adapter.unsupportedParams)
  if t.adapter.promptCacheNeedsMarker then outgoing
  else
    (Assoc.erase cacheMarkerKey outgoing).map fun entry =>
      if entry.1 = "tools" then (entry.1, toolsWithoutCacheMarkers entry.2) else entry

/-- What is built for a target, where nothing raises, and the request's parameters afterwards. -/
structure Built where
  outgoing : Option Params
  params : Params

/-- `outgoing_params_for`. -/
def outgoingParamsFor (t : Target) (params : Params) : Built :=
  let requestedEffort := param (params.filter fun entry => isOutgoing entry.1) "reasoning_effort"
  match t.adapter.capReasoningParams ⟨stripped t params, params⟩ with
  | none => ⟨none, params⟩
  | some c =>
    let outgoing :=
      match t.adapter.reserveReasoningHeadroom c.outgoing t.model t.effCfg requestedEffort with
      | some (key, budget) => Assoc.insert key budget c.outgoing
      | none => c.outgoing
    ⟨some (t.adapter.applyContextManagement outgoing t.effCfg t.tenantId), c.params⟩

/-- One target after another: the request's parameters after the next. -/
def tryTarget (params : Params) (t : Target) : Option Params :=
  some (outgoingParamsFor t params).params

/-! ## 4. What is written -/

theorem insert_eq_self_iff {key : String} {value : Json} {params : Params} :
    Assoc.insert key value params = params ↔ Assoc.lookup key params = some value := by
  constructor
  · intro h
    rw [← h]
    exact Assoc.lookup_insert_self key value params
  · intro h
    induction params with
    | nil => cases h
    | cons entry rest ih =>
      obtain ⟨k, v⟩ := entry
      rw [Assoc.lookup_cons] at h
      rw [Assoc.insert]
      split
      · next heq =>
        rw [if_pos heq] at h
        cases h
        rw [heq]
      · next hne =>
        rw [if_neg hne] at h
        rw [ih h]

/-- The budget that the adapter writes over one it finds in an object of the request. -/
inductive Writes (t : Target) (params : Params) : String → String → Params → Json → Prop
  | anthropic {limit : ℚ} {thinking : Params} {budget : Json}
      (adapter : t.adapter.capping = .anthropic)
      (truthy : (param (stripped t params) "max_tokens").truthy = true)
      (number : number? (param (stripped t params) "max_tokens") = some limit)
      (large : 1024 < limit)
      (object : param (stripped t params) "thinking" = .obj thinking)
      (write : newBudget minusOne (param (stripped t params) "max_tokens")
        (param thinking "budget_tokens") = some (some budget)) :
      Writes t params "thinking" "budget_tokens" thinking budget
  | gemini {tc : Params} {budget : Json}
      (adapter : t.adapter.capping = .gemini)
      (truthy : (param (stripped t params) "max_tokens").truthy = true)
      (object : param (stripped t params) "thinking_config" = .obj tc)
      (write : newBudget (fun value => maxZero (minusOne value))
        (param (stripped t params) "max_tokens") (param tc "thinking_budget") =
          some (some budget)) :
      Writes t params "thinking_config" "thinking_budget" tc budget

theorem writes_unique {t : Target} {params : Params} {key field key' field' : String}
    {fields fields' : Params} {budget budget' : Json}
    (h : Writes t params key field fields budget) (h' : Writes t params key' field' fields' budget') :
    key = key' ∧ field = field' ∧ fields = fields' ∧ budget = budget' := by
  cases h with
  | anthropic adapter truthy number large object write =>
    cases h' with
    | anthropic adapter' truthy' number' large' object' write' =>
      cases object.symm.trans object'
      cases write.symm.trans write'
      exact ⟨rfl, rfl, rfl, rfl⟩
    | gemini adapter' truthy' object' write' => cases adapter.symm.trans adapter'
  | gemini adapter truthy object write =>
    cases h' with
    | anthropic adapter' truthy' number' large' object' write' =>
      cases adapter.symm.trans adapter'
    | gemini adapter' truthy' object' write' =>
      cases object.symm.trans object'
      cases write.symm.trans write'
      exact ⟨rfl, rfl, rfl, rfl⟩

theorem lookup_filter (keep : String → Bool) (key : String) (params : Params) :
    Assoc.lookup key (params.filter fun entry => keep entry.1) =
      if keep key then Assoc.lookup key params else none := by
  induction params with
  | nil => simp
  | cons entry rest ih =>
    obtain ⟨k, v⟩ := entry
    rw [List.filter_cons, Assoc.lookup_cons]
    by_cases hk : k = key
    · subst hk
      by_cases hkeep : keep k = true
      · simp [hkeep, Assoc.lookup_cons]
      · simp [hkeep, ih]
    · by_cases hkeep : keep k = true
      · simp [hkeep, Assoc.lookup_cons, hk, ih]
      · simp [hkeep, hk, ih]

theorem lookup_of_filter (keep : String → Bool) {key : String} {params : Params} {value : Json}
    (h : Assoc.lookup key (params.filter fun entry => keep entry.1) = some value) :
    Assoc.lookup key params = some value := by
  rw [lookup_filter] at h
  split at h
  · exact h
  · cases h

theorem lookup_of_erase {key other : String} {params : Params} {value : Json}
    (h : Assoc.lookup key (Assoc.erase other params) = some value) :
    Assoc.lookup key params = some value := by
  rw [Assoc.lookup_erase] at h
  split at h
  · cases h
  · exact h

theorem lookup_map_tools {key : String} (hkey : key ≠ "tools") (params : Params) :
    Assoc.lookup key (params.map fun entry =>
      if entry.1 = "tools" then (entry.1, toolsWithoutCacheMarkers entry.2) else entry) =
      Assoc.lookup key params := by
  induction params with
  | nil => rfl
  | cons entry rest ih =>
    obtain ⟨k, v⟩ := entry
    rw [List.map_cons]
    by_cases hk : k = "tools"
    · have hne : k ≠ key := fun heq => hkey (heq.symm.trans hk)
      simp only [hk, if_true, Assoc.lookup_cons] at hne ⊢
      rw [if_neg hne, if_neg hne, ih]
    · simp only [hk, if_false, Assoc.lookup_cons, ih]

/-- What the new dict holds under a key other than `tools` is the request's own value. -/
theorem lookup_of_stripped {t : Target} {params : Params} {key : String} {value : Json}
    (hkey : key ≠ "tools") (h : Assoc.lookup key (stripped t params) = some value) :
    Assoc.lookup key params = some value := by
  have hunsupported : ∀ outgoing : Params,
      Assoc.lookup key (if t.adapter.promptCacheNeedsMarker then outgoing
        else (Assoc.erase cacheMarkerKey outgoing).map fun entry =>
          if entry.1 = "tools" then (entry.1, toolsWithoutCacheMarkers entry.2) else entry) =
        some value → Assoc.lookup key outgoing = some value := by
    intro outgoing hout
    split at hout
    · exact hout
    · rw [lookup_map_tools hkey] at hout
      exact lookup_of_erase hout
  rw [stripped] at h
  have h := lookup_of_filter (fun k => decide (k ∉ t.adapter.unsupportedParams))
    (hunsupported _ h)
  have htier : ∀ outgoing : Params,
      Assoc.lookup key (if t.adapter.supportsServiceTier then outgoing
        else Assoc.erase "service_tier" outgoing) = some value →
      Assoc.lookup key outgoing = some value := by
    intro outgoing hout
    split at hout
    · exact hout
    · exact lookup_of_erase hout
  have h := htier _ h
  have hoff : ∀ outgoing : Params,
      Assoc.lookup key (if param outgoing "reasoning_effort" = .str reasoningOff then
        Assoc.erase "reasoning_effort" outgoing else outgoing) = some value →
      Assoc.lookup key outgoing = some value := by
    intro outgoing hout
    split at hout
    · exact lookup_of_erase hout
    · exact hout
  have h := hoff _ h
  split at h
  · exact lookup_of_filter isOutgoing h
  · exact lookup_of_filter isOutgoing
      (lookup_of_filter (fun k => decide (k ∉ reasoningParamKeys)) h)

theorem lookup_of_param {params fields : Params} {key : String}
    (h : param params key = .obj fields) : Assoc.lookup key params = some (.obj fields) := by
  rw [param] at h
  cases hlookup : Assoc.lookup key params with
  | none =>
    rw [hlookup] at h
    cases h
  | some value =>
    rw [hlookup] at h
    exact congrArg some h

/-- The object that is written into is the request's own. -/
theorem lookup_of_writes {t : Target} {params : Params} {key field : String} {fields : Params}
    {budget : Json} (h : Writes t params key field fields budget) :
    Assoc.lookup key params = some (.obj fields) := by
  cases h with
  | anthropic adapter truthy number large object write =>
    exact lookup_of_stripped (by decide) (lookup_of_param object)
  | gemini adapter truthy object write =>
    exact lookup_of_stripped (by decide) (lookup_of_param object)

/-- What a cap does to the request: nothing, or one budget. -/
def CapCases (t : Target) (params : Params) (capped : Option Capped) : Prop :=
  ((∀ c, capped = some c → c.params = params) ∧
    ∀ key field fields budget, ¬ Writes t params key field fields budget) ∨
  ∃ key field fields budget c, Writes t params key field fields budget ∧ capped = some c ∧
    c.params = Assoc.insert key (.obj (Assoc.insert field budget fields)) params

theorem params_reconcile (c : Capped) : (reconcileThinkingSampling c).params = c.params := by
  rw [reconcileThinkingSampling]
  split <;> rfl

theorem capAnthropic_cases {t : Target} (params : Params) (h : t.adapter.capping = .anthropic) :
    CapCases t params (capAnthropic ⟨stripped t params, params⟩) := by
  have hnone : ∀ capped : Option Capped, (∀ c, capped = some c → c.params = params) →
      (∀ limit thinking budget, (param (stripped t params) "max_tokens").truthy = true →
        number? (param (stripped t params) "max_tokens") = some limit → 1024 < limit →
        param (stripped t params) "thinking" = .obj thinking →
        newBudget minusOne (param (stripped t params) "max_tokens")
          (param thinking "budget_tokens") = some (some budget) → False) →
      CapCases t params capped := by
    intro capped hsame hno
    refine Or.inl ⟨hsame, ?_⟩
    intro key field fields budget hwrites
    cases hwrites with
    | anthropic adapter truthy number large object write =>
      exact hno _ _ _ truthy number large object write
    | gemini adapter truthy object write => cases h.symm.trans adapter
  rw [capAnthropic]
  by_cases htruthy : (param (stripped t params) "max_tokens").truthy = true
  · simp only [htruthy, Bool.not_true, Bool.false_eq_true, if_false]
    cases hlimit : number? (param (stripped t params) "max_tokens") with
    | none =>
      refine hnone _ (by intro c hc; cases hc) ?_
      intro limit _ _ _ hnumber
      rw [hlimit] at hnumber
      cases hnumber
    | some limit =>
      rw [Option.bind_eq_bind, Option.bind_some]
      split_ifs with hsmall
      · refine hnone _ (by intro c hc; cases hc; rfl) ?_
        intro limit' _ _ _ hnumber hlarge
        rw [hlimit] at hnumber
        cases hnumber
        exact absurd hlarge (not_lt.mpr hsmall)
      · cases hthinking : param (stripped t params) "thinking" with
        | obj thinking =>
          dsimp only
          cases hnew : newBudget minusOne (param (stripped t params) "max_tokens")
              (param thinking "budget_tokens") with
          | none =>
            refine hnone _ (by intro c hc; cases hc; exact params_reconcile _) ?_
            intro _ _ _ _ _ _ hobject hwrite
            rw [hthinking] at hobject
            cases hobject
            rw [hnew] at hwrite
            cases hwrite
          | some budget? =>
            cases budget? with
            | none =>
              refine hnone _ (by intro c hc; cases hc) ?_
              intro _ _ _ _ _ _ hobject hwrite
              rw [hthinking] at hobject
              cases hobject
              rw [hnew] at hwrite
              cases hwrite
            | some budget =>
              refine Or.inr ⟨_, _, _, _, _,
                .anthropic h htruthy hlimit (not_le.mp hsmall) hthinking hnew, rfl, ?_⟩
              rw [Capped.write, params_reconcile]
        | _ =>
          refine hnone _ (by intro c hc; cases hc; rfl) ?_
          intro _ _ _ _ _ _ hobject
          rw [hthinking] at hobject
          cases hobject
  · simp only [htruthy, Bool.not_false, if_true]
    refine hnone _ (by intro c hc; cases hc; exact params_reconcile _) ?_
    intro _ _ _ htrue
    exact absurd htrue htruthy

theorem capGemini_cases {t : Target} (params : Params) (h : t.adapter.capping = .gemini) :
    CapCases t params (capGemini ⟨stripped t params, params⟩) := by
  have hnone : ∀ capped : Option Capped, (∀ c, capped = some c → c.params = params) →
      (∀ tc budget, (param (stripped t params) "max_tokens").truthy = true →
        param (stripped t params) "thinking_config" = .obj tc →
        newBudget (fun value => maxZero (minusOne value)) (param (stripped t params) "max_tokens")
          (param tc "thinking_budget") = some (some budget) → False) →
      CapCases t params capped := by
    intro capped hsame hno
    refine Or.inl ⟨hsame, ?_⟩
    intro key field fields budget hwrites
    cases hwrites with
    | anthropic adapter truthy number large object write => cases h.symm.trans adapter
    | gemini adapter truthy object write => exact hno _ _ truthy object write
  rw [capGemini]
  by_cases htruthy : (param (stripped t params) "max_tokens").truthy = true
  · simp only [htruthy, Bool.not_true, Bool.false_eq_true, if_false]
    cases htc : param (stripped t params) "thinking_config" with
    | obj tc =>
      dsimp only
      cases hnew : newBudget (fun value => maxZero (minusOne value))
          (param (stripped t params) "max_tokens") (param tc "thinking_budget") with
      | none =>
        refine hnone _ (by intro c hc; cases hc; rfl) ?_
        intro _ _ _ hobject hwrite
        rw [htc] at hobject
        cases hobject
        rw [hnew] at hwrite
        cases hwrite
      | some budget? =>
        cases budget? with
        | none =>
          refine hnone _ (by intro c hc; cases hc) ?_
          intro _ _ _ hobject hwrite
          rw [htc] at hobject
          cases hobject
          rw [hnew] at hwrite
          cases hwrite
        | some budget =>
          exact Or.inr ⟨_, _, _, _, _, .gemini h htruthy htc hnew, rfl, rfl⟩
    | _ =>
      refine hnone _ (by intro c hc; cases hc; rfl) ?_
      intro _ _ _ hobject
      rw [htc] at hobject
      cases hobject
  · simp only [htruthy, Bool.not_false, if_true]
    refine hnone _ (by intro c hc; cases hc; rfl) ?_
    intro _ _ htrue
    exact absurd htrue htruthy

theorem cap_cases (t : Target) (params : Params) :
    CapCases t params (t.adapter.capReasoningParams ⟨stripped t params, params⟩) := by
  rw [Adapter.capReasoningParams]
  cases hcapping : t.adapter.capping with
  | base =>
    refine Or.inl ⟨by intro c hc; cases hc; rfl, ?_⟩
    intro key field fields budget hwrites
    cases hwrites with
    | anthropic adapter truthy number large object write => cases hcapping.symm.trans adapter
    | gemini adapter truthy object write => cases hcapping.symm.trans adapter
  | anthropic => exact capAnthropic_cases params hcapping
  | gemini => exact capGemini_cases params hcapping

/-! ## 5. The request afterwards -/

/-- Whatever the adapter writes is what is there. -/
def LeavesBudgets (params : Params) (t : Target) : Prop :=
  ∀ key field fields budget, Writes t params key field fields budget →
    Assoc.lookup field fields = some budget

theorem tryTarget_iff {t : Target} {params params' : Params}
    (h : tryTarget params t = some params') : params' = params ↔ LeavesBudgets params t := by
  cases h
  rw [outgoingParamsFor]
  rcases cap_cases t params with ⟨hsame, hno⟩ | ⟨key, field, fields, budget, c, hwrites, hc, heq⟩
  · constructor
    · intro _ key field fields budget hwrites
      exact absurd hwrites (hno key field fields budget)
    · intro _
      cases hcap : t.adapter.capReasoningParams ⟨stripped t params, params⟩ with
      | none => rfl
      | some c => exact hsame c hcap
  · rw [hc]
    dsimp only
    rw [heq, insert_eq_self_iff, lookup_of_writes hwrites, Option.some.injEq, Json.obj.injEq,
      eq_comm, insert_eq_self_iff]
    constructor
    · intro hlookup key' field' fields' budget' hwrites'
      obtain ⟨rfl, rfl, rfl, rfl⟩ := writes_unique hwrites hwrites'
      exact hlookup
    · intro hleaves
      exact hleaves key field fields budget hwrites

/-- **Trying targets leaves the request's parameters as they were exactly where no target's
adapter writes another budget than it finds.** -/
theorem params_undisturbed_iff (params : Params) (targets : List Target) :
    Execution.Always tryTarget (fun now => now = params) params targets ↔
      Execution.AllSteps tryTarget LeavesBudgets params targets := by
  apply Execution.always_iff_allSteps
  · rintro _ t params' rfl hstep
    exact tryTarget_iff hstep
  · rfl

/-- An adapter like Anthropic's, without context editing. -/
def anthropicAdapter : Adapter where
  supportsReasoning := fun _ _ => true
  supportsServiceTier := false
  unsupportedParams := ["parallel_tool_calls", "logprobs", "top_logprobs", "reasoning_effort"]
  promptCacheNeedsMarker := true
  capping := .anthropic
  reserveReasoningHeadroom := fun _ _ _ _ => none
  applyContextManagement := fun params _ _ => params

/-- A thinking budget above `max_tokens` is cut in the request itself. -/
theorem params_disturbed :
    ¬ Execution.Always tryTarget
      (fun now => now = [("max_tokens", .int 4096), ("thinking", .obj [("type", .str "enabled"),
        ("budget_tokens", .int 8000)])])
      [("max_tokens", .int 4096), ("thinking", .obj [("type", .str "enabled"),
        ("budget_tokens", .int 8000)])]
      [⟨anthropicAdapter, "claude-sonnet-4", .obj [], "default"⟩] := by
  intro h
  exact absurd (h.2 _ rfl).head (by decide)

end TokenProxy.Providers
