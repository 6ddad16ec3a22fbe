/-
  TokenProxy/ReasoningCeiling.lean
  ================================
  **The reasoning that a request is sent with** (`g25_adaptive_reasoning.py`,
  `g12_reasoning_budget.py`, and what `outgoing_params_for` makes of their parameters).

  Two stages in a row write reasoning parameters.  The first picks a tier for the request from the
  tier that routing found or from keywords, between a floor and two ceilings: the operator's, and
  what the provider would have served on its own.  The second writes the tier as the provider takes
  it, and caps a default of the platform at the provider's.  A provider whose reasoning is opt-in
  must not be made to think by either.

  Main results: `reasoning_within_allowance`, what goes out for a request that names no reasoning
  is written for a tier within the allowance; `opt_in_stays_off`, where the provider's default is
  `off` nothing goes out; `own_thinking_kept_iff`, when a request's own `thinking` is kept;
  `effort_stripped`, a provider that takes a budget is sent no effort.
-/
import TokenProxy.CacheOrder
import TokenProxy.ReasoningEffort
import Mathlib.Tactic.Linarith

namespace TokenProxy.Reasoning

open TokenProxy.History (Msg)
open TokenProxy.Providers

/-- What the two stages read and write of the request's context. -/
structure Ctx where
  messages : List Msg
  params : Params
  routedModel : String
  complexityTier : Option String := none
  config : Json
  tenantId : String
  tenantConfigOverrides : Json := .null
  providerAdapter : Option ReasoningAdapter
  reasoningMode : Json := .null
deriving DecidableEq

/-- `config.get("groups", {}).get(group, {})`; `none` where it raises. -/
def group? (config : Json) (group : String) : Option Json :=
  (section? config "groups").bind fun groups => section? groups group

/-! ## 1. Adaptive reasoning -/

/-- `re`, with `IGNORECASE`. -/
structure Regexes where
  compiles : String → Bool
  search : String → String → Bool

structure Patterns where
  high : List String
  medium : List String
  low : List String

def defaultHighKeywords : List String :=
  ["\\bprove\\b", "\\bderive\\b", "\\boptimis[ez]\\b", "\\bsolve step[- ]by[- ]step\\b",
    "\\bformal proof\\b", "\\bmathematical(?:ly)?\\b", "\\brefactor.*complex\\b",
    "\\bdesign.*algorithm\\b", "\\bcomplexity analysis\\b", "\\btime complexity\\b",
    "\\bNP[- ]hard\\b", "\\bdynamic programming\\b"]

def defaultMediumKeywords : List String :=
  ["\\bexplain\\b", "\\bwhy\\b", "\\bhow does\\b", "\\bcompare\\b", "\\banalyse\\b",
    "\\banalyze\\b", "\\bdiagnose\\b", "\\broot[- ]cause\\b", "\\bdebug\\b",
    "\\btroubleshoot\\b", "\\bimplications?\\b", "\\btrade[- ]off\\b", "\\bpros? and cons?\\b"]

def defaultLowKeywords : List String :=
  ["\\bwhat is\\b", "\\bwho is\\b", "\\bwhen (?:was|did|is)\\b", "\\bwhere is\\b",
    "\\blist\\b", "\\bsummarise\\b", "\\bsummarize\\b", "\\btranslate\\b", "\\bdefine\\b",
    "\\byes or no\\b", "\\btrue or false\\b"]

section

variable (py : Python) (rx : Regexes)

/-- The patterns under a key, all of which compile; `none` where it raises. -/
def keywords? (cfg : Json) (key : String) (fallback : List String) : Option (List String) := do
  let items ← iterated? (cfg.getD key (.arr (fallback.map Json.str)))
  let patterns ← items.mapM Json.str?
  if patterns.all rx.compiles then some patterns else none

/-- `_get_patterns`. -/
def getPatterns (cfg : Json) : Option Patterns := do
  let high ← keywords? rx cfg "high_keywords" defaultHighKeywords
  let medium ← keywords? rx cfg "medium_keywords" defaultMediumKeywords
  let low ← keywords? rx cfg "low_keywords" defaultLowKeywords
  some ⟨high, medium, low⟩

/-- The roles that are scored; `none` where `scan_roles` cannot be iterated. -/
def scanRoles (cfg : Json) : Option (List String) := do
  let items ← iterated? (cfg.getD "scan_roles" (.arr [.str "user"]))
  let roles := items.filterMap Json.str?
  some (if roles = [] then ["user"] else roles)

/-- `_extract_user_text`. -/
def extractUserText (messages : List Msg) (roles : List String) : String :=
  "\n".intercalate (messages.filterMap fun m =>
    let fields := Json.obj m.fields
    match fields.getD "role" (.str ""), fields.getD "content" (.str "") with
    | .str role, .str content => if role ∈ roles then some content else none
    | _, _ => none)

/-- `_classify_complexity`. -/
def classifyComplexity (text : String) (patterns : Patterns) (defaultEffort : Json) :
    ReasoningTier :=
  if patterns.high.any fun p => rx.search p text then .high
  else if patterns.medium.any fun p => rx.search p text then .medium
  else if patterns.low.any fun p => rx.search p text then .low
  else (ReasoningTier.read? py defaultEffort).getD .medium

/-- `any(model.startswith(p) for p in prefixes)`; `none` where it raises. -/
def anyPrefix (model : String) : List Json → Option Bool
  | [] => some false
  | .str p :: rest => if startsWith model p then some true else anyPrefix model rest
  | _ :: _ => none

/-- `_is_reasoning_model`. -/
def isReasoningModel (model : String) (extraPrefixes : Json) (adapter : Option ReasoningAdapter) :
    Option Bool :=
  if adapter.any fun a => a.supportsReasoning py model .null then some true
  else do
    let prefixes ← iterated? extraPrefixes
    anyPrefix (py.lower model) prefixes

/-- The tier that the map has for what routing found. -/
def routedTier? (cfg : Json) (complexityTier : Option String) : Option ReasoningTier :=
  if !(cfg.getD "use_routing_complexity" (.bool true)).truthy then none
  else
    let tierMap : Params :=
      match cfg.getD "routing_complexity_map" .null with
      | .obj fields => fields
      | _ => [("simple", .str reasoningOff)]
    match complexityTier with
    | none => none
    | some tier =>
      if tier = "" then none
      else
        match Assoc.lookup tier tierMap with
        | some (.str mapped) => ReasoningTier.ofName? (py.lower mapped)
        | _ => none

/-- `_CODE_DEFAULT_CEILING`. -/
def codeDefaultCeiling : ReasoningTier := .medium

/-- `_resolve_ceiling`. -/
def resolveCeiling (cfg : Json) : ReasoningTier :=
  (ReasoningTier.read? py (cfg.getD "effort_ceiling" (.str codeDefaultCeiling.name))).getD
    codeDefaultCeiling

def escalates (cfg : Json) : Bool :=
  (cfg.getD "escalate_above_provider_default" (.bool false)).truthy

/-- `_provider_ceiling`. -/
def providerCeiling (cfg : Json) (ctx : Ctx) : ReasoningTier :=
  if escalates cfg then .high
  else
    match ctx.providerAdapter with
    | none => .high
    | some adapter => adapter.defaultReasoningEffort py ctx.routedModel ctx.config

def effortFloor (cfg : Json) : ReasoningTier :=
  (ReasoningTier.read? py (cfg.getD "effort_floor" (.str reasoningOff))).getD .off

/-- The tier between the floor and the ceilings; a floor above a ceiling wins. -/
def clamped (cfg : Json) (ctx : Ctx) (effort : ReasoningTier) : ReasoningTier :=
  max (effortFloor py cfg) (min (min (resolveCeiling py cfg) (providerCeiling py cfg ctx)) effort)

/-- The tier that `G25AdaptiveReasoning` selects, when it does; `none` where it raises. -/
def selectedEffort (ctx : Ctx) : Option (Option ReasoningTier) := do
  let cfg ← group? ctx.config "G25_adaptive_reasoning"
  let enabled ← field? cfg "enabled" (.bool false)
  if !enabled.truthy then some none
  else if (param ctx.params "reasoning_effort").truthy then some none
  else
    let reasons ← isReasoningModel py ctx.routedModel
      (cfg.getD "extra_reasoning_prefixes" (.arr [])) ctx.providerAdapter
    if !reasons then some none
    else
      let patterns ← getPatterns rx cfg
      let roles ← scanRoles cfg
      let text := extractUserText ctx.messages roles
      let effort := (routedTier? py cfg ctx.complexityTier).getD
        (classifyComplexity py rx text patterns (cfg.getD "default_effort" (.str "medium")))
      some (some (clamped py cfg ctx effort))

/-- `G25AdaptiveReasoning.process_request`. -/
def adaptReasoning (ctx : Ctx) : Option Ctx := do
  match ← selectedEffort py rx ctx with
  | none => some ctx
  | some effort =>
    some { ctx with params := Assoc.insert "reasoning_effort" (.str effort.name) ctx.params }

/-! ## 2. The reasoning budget -/

/-- `_tenant_chose_effort`. -/
def tenantChoseEffort (ctx : Ctx) : Bool :=
  let operator := (ctx.config.getD "tenants" .null).getD ctx.tenantId .null
  [ctx.tenantConfigOverrides, operator].any fun node =>
    (((node.getD "groups" .null).getD "G12_reasoning" .null).getD "default_effort" .null).truthy

/-- `_capped_at_provider_default`. -/
def cappedAtProviderDefault (effort : Json) (adapter : ReasoningAdapter) (ctx : Ctx) : Json :=
  match ReasoningTier.ofJson? effort with
  | none => effort
  | some tier =>
    .str (min tier (adapter.defaultReasoningEffort py ctx.routedModel ctx.config)).name

/-- Whether the request names reasoning at all. -/
def namesReasoning (params : Params) : Bool :=
  reasoningParamKeys.any fun key => (param params key).truthy

/-- The effort that the provider is sent. -/
def sentEffort (adapter : ReasoningAdapter) (ctx : Ctx) (effort : Json) : Json :=
  if !namesReasoning ctx.params && !tenantChoseEffort ctx then
    cappedAtProviderDefault py effort adapter ctx
  else effort

/-- `params.setdefault` of each. -/
def addMissing (mapped params : Params) : Params :=
  mapped.foldl (fun params entry =>
    if (Assoc.lookup entry.1 params).isSome then params
    else Assoc.insert entry.1 entry.2 params) params

/-- The parameters afterwards. -/
def budgetParams (sent : Json) (mapped params : Params) : Params :=
  let applied := mapped.any fun entry => (Assoc.lookup entry.1 params).isNone
  let added := addMissing mapped params
  let added :=
    if applied && decide ("reasoning_effort" ∉ mapped.map Prod.fst) then
      Assoc.erase "reasoning_effort" added
    else added
  if sent = .str reasoningOff then
    (reasoningParamKeys.filter fun key => decide (key ∉ mapped.map Prod.fst)).foldl
      (fun params key => Assoc.erase key params) added
  else added

/-- The parameters and the mode, of a model that reasons; `none` where it raises. -/
def budgeted (adapter : ReasoningAdapter) (ctx : Ctx) (effort : Json) : Option Ctx := do
  let sent := sentEffort py adapter ctx effort
  let mapped ← adapter.mapReasoningEffort py sent ctx.config
  some { ctx with
    params := budgetParams sent mapped ctx.params
    reasoningMode :=
      if sent = .str reasoningOff then
        .str (if adapter.canDisableReasoning py ctx.routedModel then "off_honoured"
          else "off_unsupported")
      else sent }

/-- The system message with the text behind its content. -/
def appended (m : Msg) (text : Json) : Msg :=
  m.set "content"
    (match m.get "content" with
      | .arr parts => .arr (parts ++ [.obj [("type", .str "text"), ("text", text)]])
      | content =>
        if content.truthy then .str (py.str content ++ "\n" ++ py.str text) else text)

/-- The last system message of the caller with the text; `none` where there is no such message. -/
def appendToLast (text : Json) : List Msg → Option (List Msg)
  | [] => none
  | m :: rest =>
    match appendToLast text rest with
    | some rest => some (m :: rest)
    | none => if CacheOrder.isCaller m then some (appended py m text :: rest) else none

/-- `append_to_system_prompt`. -/
def appendToSystemPrompt (messages : List Msg) (text : Json) : List Msg :=
  (appendToLast py text messages).getD
    (⟨[("role", .str "system"), ("content", text)]⟩ :: messages)

/-- The prompt that suppresses reasoning, in the messages; `none` where it raises. -/
def suppressed (cfg effort : Json) (ctx : Ctx) : Option Ctx :=
  let prompts := cfg.getD "reasoning_suppression_prompts" (.obj [])
  if !prompts.truthy then some ctx
  else
    match prompts, effort.dictKey? with
    | .obj fields, some _ =>
      let suppression :=
        match effort with
        | .str s => (Assoc.lookup s fields).getD .null
        | _ => .null
      some (if suppression.truthy then
        { ctx with messages := appendToSystemPrompt py ctx.messages suppression } else ctx)
    | _, _ => none

/-- `reasoning_effort` of the request, or the default of the group. -/
def effortOf (cfg : Json) (params : Params) : Json :=
  (param params "reasoning_effort").orElse (cfg.getD "default_effort" (.str "medium"))

/-- Whether `G12ReasoningBudget` writes for the model at all. -/
def budgets (adapter : ReasoningAdapter) (ctx : Ctx) : Bool :=
  adapter.supportsReasoning py (py.lower ctx.routedModel) ctx.config

/-- The context with the parameters for the effort, where the model reasons. -/
def reasoned (adapter : ReasoningAdapter) (ctx : Ctx) (effort : Json) : Option Ctx :=
  if budgets py adapter ctx then budgeted py adapter ctx effort else some ctx

/-- `G12ReasoningBudget.process_request`. -/
def budgetReasoning (ctx : Ctx) : Option Ctx := do
  let cfg ← group? ctx.config "G12_reasoning"
  let enabled ← field? cfg "enabled" (.bool false)
  if !enabled.truthy then some ctx
  else
    let effort := effortOf cfg ctx.params
    let adapter := ctx.providerAdapter.getD openaiReasoning
    let written ← reasoned py adapter ctx effort
    suppressed py cfg effort written

/-- The two stages, one after the other. -/
def reasoningStages (ctx : Ctx) : Option Ctx := do
  let adapted ← adaptReasoning py rx ctx
  budgetReasoning py adapted

/-! ## 3. The call -/

/-- A call under the adapter that the stages asked. -/
structure RoutedCall (py : Python) extends Candidate py where
  reasoning : ReasoningAdapter
  supports : ∀ model config,
    target.adapter.supportsReasoning model config = reasoning.supportsReasoning py model config
  unsupported : target.adapter.unsupportedParams = reasoning.unsupportedParams
  capped : target.adapter.capping = reasoning.capping
  /-- context editing adds its own fields only -/
  keepsReasoning : ∀ params config tenantId, ∀ key ∈ reasoningParamKeys,
    Assoc.lookup key (target.adapter.applyContextManagement params config tenantId) =
      Assoc.lookup key params

/-- The call of an adapter, without context editing. -/
def plainCall (reasoning : ReasoningAdapter) (model : String) (config : Json) : RoutedCall py where
  target :=
    { adapter :=
        { supportsReasoning := reasoning.supportsReasoning py
          supportsServiceTier := decide (reasoning.name = "openai")
          unsupportedParams := reasoning.unsupportedParams
          promptCacheNeedsMarker :=
            decide (reasoning.family = .anthropic) || decide (reasoning.name = "bedrock")
          capping := reasoning.capping
          reserveReasoningHeadroom := fun params model config effort =>
            (reasoning.headroom.reserve py (reasoning.supportsReasoning py model config) params
              model config effort).map fun raised => (raised.param, .int raised.toBudget)
          applyContextManagement := fun params _ _ => params }
      model := model
      effCfg := config
      tenantId := "default" }
  headroom := reasoning.headroom
  reserves := fun _ _ _ _ => rfl
  uncapped := reasoning.capping_of_headroom
  keepsBudget := fun _ _ _ _ _ => rfl
  reasoning := reasoning
  supports := fun _ _ => rfl
  unsupported := rfl
  capped := rfl
  keepsReasoning := fun _ _ _ _ _ => rfl

/-- A value as it was written, or with a budget in it that was cut to fit. -/
inductive Lowered : Json → Json → Prop
  | same (value : Json) : Lowered value value
  | cut {fields : Params} {field : String} {budget : Json} {old new : ℚ}
      (hold : number? (param fields field) = some old) (hnew : number? budget = some new)
      (hle : new ≤ max old 0) : Lowered (.obj fields) (.obj (Assoc.insert field budget fields))

/-- A reasoning parameter that an effort accounts for. -/
inductive Written (adapter : ReasoningAdapter) (config sent : Json) : String → Json → Prop
  /-- the tier itself, where the second stage is switched off or has no value of its own for it -/
  | asked {tier : ReasoningTier} (hsent : sent = .str tier.name) :
      Written adapter config sent "reasoning_effort" (.str tier.name)
  | mapped {mapped : Params} {key : String} {value : Json}
      (hmapped : adapter.mapReasoningEffort py sent config = some mapped)
      (hmem : (key, value) ∈ mapped) : Written adapter config sent key value

/-- The highest effort that a request which names none may be sent with: the provider's own default,
    unless the operator's configuration goes above it. -/
def allowance (ctx : Ctx) (adapter : ReasoningAdapter) : ReasoningTier :=
  let default := adapter.defaultReasoningEffort py ctx.routedModel ctx.config
  match group? ctx.config "G25_adaptive_reasoning" with
  | none => default
  | some cfg =>
    if (cfg.getD "enabled" (.bool false)).truthy then
      max (effortFloor py cfg) (if escalates cfg then .high else default)
    else default

variable {py rx}

/-! ## 4. What the first stage selects -/

theorem field?_eq_some {value fallback found : Json} {key : String}
    (h : field? value key fallback = some found) : value.getD key fallback = found := by
  cases value with
  | obj fields => exact Option.some.inj h
  | _ => cases h

theorem default_le_allowance (ctx : Ctx) (adapter : ReasoningAdapter) :
    adapter.defaultReasoningEffort py ctx.routedModel ctx.config ≤ allowance py ctx adapter := by
  unfold allowance
  cases group? ctx.config "G25_adaptive_reasoning" with
  | none => exact le_rfl
  | some cfg =>
    simp only
    split
    · apply le_max_of_le_right
      split
      · exact ReasoningTier.le_high _
      · exact le_rfl
    · exact le_rfl

theorem clamped_le {cfg : Json} {ctx : Ctx} {adapter : ReasoningAdapter}
    (hadapter : ctx.providerAdapter = some adapter) (effort : ReasoningTier) :
    clamped py cfg ctx effort ≤ max (effortFloor py cfg)
      (if escalates cfg then .high
        else adapter.defaultReasoningEffort py ctx.routedModel ctx.config) := by
  apply max_le_max le_rfl
  apply le_trans (min_le_left _ _)
  apply le_trans (min_le_right _ _)
  unfold providerCeiling
  rw [hadapter]

theorem selectedEffort_le {ctx : Ctx} {adapter : ReasoningAdapter} {tier : ReasoningTier}
    (hadapter : ctx.providerAdapter = some adapter)
    (h : selectedEffort py rx ctx = some (some tier)) : tier ≤ allowance py ctx adapter := by
  obtain ⟨cfg, hcfg, h⟩ := Option.bind_eq_some_iff.mp h
  obtain ⟨enabled, henabled, h⟩ := Option.bind_eq_some_iff.mp h
  split at h
  · cases h
  · next hon =>
    split at h
    · cases h
    · obtain ⟨reasons, -, h⟩ := Option.bind_eq_some_iff.mp h
      split at h
      · cases h
      · obtain ⟨patterns, -, h⟩ := Option.bind_eq_some_iff.mp h
        obtain ⟨roles, -, h⟩ := Option.bind_eq_some_iff.mp h
        cases h
        rw [Bool.not_eq_true', Bool.not_eq_false] at hon
        unfold allowance
        rw [hcfg]
        simp only [field?_eq_some henabled, hon, if_true]
        exact clamped_le hadapter _

/-- A stage that raises lets nothing through; one that does not leaves the parameters, or puts a
    tier within the allowance into them. -/
theorem adaptReasoning_cases {ctx adapted : Ctx} {adapter : ReasoningAdapter}
    (hadapter : ctx.providerAdapter = some adapter) (h : adaptReasoning py rx ctx = some adapted) :
    adapted = ctx ∨ ∃ tier ≤ allowance py ctx adapter,
      selectedEffort py rx ctx = some (some tier) ∧
      adapted =
        { ctx with params := Assoc.insert "reasoning_effort" (.str tier.name) ctx.params } := by
  obtain ⟨selected, hselected, h⟩ := Option.bind_eq_some_iff.mp h
  cases selected with
  | none =>
    left
    exact (Option.some.inj h).symm
  | some tier =>
    right
    exact ⟨tier, selectedEffort_le hadapter hselected, hselected, (Option.some.inj h).symm⟩

/-! ## 5. What the second stage writes -/

theorem lookup_addMissing (mapped params : Params) (key : String) :
    Assoc.lookup key (addMissing mapped params) =
      (Assoc.lookup key params).or (Assoc.lookup key mapped) := by
  induction mapped generalizing params with
  | nil => simp [addMissing]
  | cons entry rest ih =>
    obtain ⟨k, v⟩ := entry
    rw [addMissing, List.foldl_cons, ← addMissing, ih, Assoc.lookup_cons]
    by_cases hk : k = key
    · subst hk
      cases hparams : Assoc.lookup k params with
      | none => simp
      | some value => simp [hparams]
    · rw [if_neg hk]
      split
      · rfl
      · rw [Assoc.lookup_insert_of_ne (Ne.symm hk)]

theorem lookup_foldl_erase (keys : List String) (params : Params) (key : String) :
    Assoc.lookup key (keys.foldl (fun params key => Assoc.erase key params) params) =
      if key ∈ keys then none else Assoc.lookup key params := by
  induction keys generalizing params with
  | nil => simp
  | cons k rest ih =>
    rw [List.foldl_cons, ih, Assoc.lookup_erase]
    by_cases hkey : key = k
    · simp [hkey]
    · simp [hkey]

/-- A parameter afterwards was there before, or is one of the mapped. -/
theorem lookup_budgetParams {sent : Json} {mapped params : Params} {key : String} {value : Json}
    (h : Assoc.lookup key (budgetParams sent mapped params) = some value) :
    Assoc.lookup key params = some value ∨ (key, value) ∈ mapped := by
  have hadded : ∀ added : Params,
      Assoc.lookup key (if sent = .str reasoningOff then
        (reasoningParamKeys.filter fun key => decide (key ∉ mapped.map Prod.fst)).foldl
          (fun params key => Assoc.erase key params) added
        else added) = some value → Assoc.lookup key added = some value := by
    intro added hlookup
    split at hlookup
    · rw [lookup_foldl_erase] at hlookup
      split at hlookup
      · cases hlookup
      · exact hlookup
    · exact hlookup
  have hpopped : ∀ added : Params, ∀ c : Bool,
      Assoc.lookup key (if c then Assoc.erase "reasoning_effort" added else added) =
        some value → Assoc.lookup key added = some value := by
    intro added c hlookup
    split at hlookup
    · exact lookup_of_erase hlookup
    · exact hlookup
  have h := hpopped _ _ (hadded _ h)
  rw [lookup_addMissing] at h
  rcases Option.or_eq_some_iff.mp h with h | ⟨-, h⟩
  · left
    exact h
  · right
    exact Assoc.mem_of_lookup h

theorem apply_ite_params (c : Bool) (ctx : Ctx) (messages : List Msg) :
    (if c = true then { ctx with messages := messages } else ctx).params = ctx.params := by
  cases c <;> rfl

theorem suppressed_params {cfg effort : Json} {ctx after : Ctx}
    (h : suppressed py cfg effort ctx = some after) : after.params = ctx.params := by
  unfold suppressed at h
  simp only at h
  split at h
  · cases h
    rfl
  · split at h
    · cases h
      exact apply_ite_params _ _ _
    · cases h

/-- What the second stage does to the parameters: nothing, or what the adapter maps the effort
    to. -/
theorem budgetReasoning_cases {ctx after : Ctx} {adapter : ReasoningAdapter}
    (hadapter : ctx.providerAdapter = some adapter) (h : budgetReasoning py ctx = some after) :
    after.params = ctx.params ∨ ∃ cfg mapped,
      adapter.mapReasoningEffort py
        (sentEffort py adapter ctx (effortOf cfg ctx.params)) ctx.config = some mapped ∧
      after.params =
        budgetParams (sentEffort py adapter ctx (effortOf cfg ctx.params)) mapped ctx.params := by
  obtain ⟨cfg, -, h⟩ := Option.bind_eq_some_iff.mp h
  obtain ⟨enabled, -, h⟩ := Option.bind_eq_some_iff.mp h
  rw [hadapter, Option.getD_some] at h
  split at h
  · left
    exact congrArg Ctx.params (Option.some.inj h).symm
  · obtain ⟨written, hwritten, h⟩ := Option.bind_eq_some_iff.mp h
    rw [suppressed_params h]
    unfold reasoned at hwritten
    split at hwritten
    · right
      obtain ⟨mapped, hmapped, hwritten⟩ := Option.bind_eq_some_iff.mp hwritten
      cases hwritten
      exact ⟨cfg, mapped, hmapped, rfl⟩
    · left
      exact congrArg Ctx.params (Option.some.inj hwritten).symm

/-! ## 6. The two stages -/

theorem ofJson?_capped_le {effort : Json} {adapter : ReasoningAdapter} {ctx : Ctx}
    {tier : ReasoningTier}
    (h : ReasoningTier.ofJson? (cappedAtProviderDefault py effort adapter ctx) = some tier) :
    tier ≤ adapter.defaultReasoningEffort py ctx.routedModel ctx.config := by
  unfold cappedAtProviderDefault at h
  split at h
  · next hnone =>
    rw [hnone] at h
    cases h
  · rw [ReasoningTier.ofJson?_name] at h
    cases h
    exact min_le_right _ _

theorem namesReasoning_eq_false {params : Params}
    (h : ∀ key ∈ reasoningParamKeys, Assoc.lookup key params = none) :
    namesReasoning params = false := by
  apply List.any_eq_false.mpr
  intro key hkey
  simp [param, h key hkey, Json.truthy]

theorem namesReasoning_of_truthy {params : Params} {key : String} (hkey : key ∈ reasoningParamKeys)
    (h : (param params key).truthy = true) : namesReasoning params = true :=
  List.any_eq_true.mpr ⟨key, hkey, h⟩

theorem sentEffort_of_names {adapter : ReasoningAdapter} {ctx : Ctx} (effort : Json)
    (h : namesReasoning ctx.params = true) : sentEffort py adapter ctx effort = effort := by
  simp [sentEffort, h]

section

variable {ctx : Ctx} (tier : ReasoningTier)

/-- The context after a tier was selected. -/
def adaptedTo (ctx : Ctx) (tier : ReasoningTier) : Ctx :=
  { ctx with params := Assoc.insert "reasoning_effort" (.str tier.name) ctx.params }

theorem param_adaptedTo :
    param (adaptedTo ctx tier).params "reasoning_effort" = .str tier.name := by
  simp [param, adaptedTo]

theorem effortOf_adaptedTo (cfg : Json) :
    effortOf cfg (adaptedTo ctx tier).params = .str tier.name := by
  rw [effortOf, param_adaptedTo, Json.orElse, if_pos tier.truthy_name]

theorem namesReasoning_adaptedTo : namesReasoning (adaptedTo ctx tier).params = true := by
  have htruthy : (param (adaptedTo ctx tier).params "reasoning_effort").truthy = true := by
    rw [param_adaptedTo]
    exact tier.truthy_name
  exact namesReasoning_of_truthy (by decide) htruthy

end

/-- **What the two stages write** into a request that names no reasoning: what a tier within the
    allowance accounts for. -/
theorem written_within_allowance {ctx after : Ctx} {adapter : ReasoningAdapter}
    (hadapter : ctx.providerAdapter = some adapter)
    (hnone : ∀ key ∈ reasoningParamKeys, Assoc.lookup key ctx.params = none)
    (htenant : tenantChoseEffort ctx = false)
    (h : reasoningStages py rx ctx = some after) :
    ∃ sent : Json,
      (∀ tier, ReasoningTier.ofJson? sent = some tier → tier ≤ allowance py ctx adapter) ∧
      ∀ key ∈ reasoningParamKeys, ∀ value, Assoc.lookup key after.params = some value →
        Written py adapter ctx.config sent key value := by
  obtain ⟨adapted, hadapted, hbudget⟩ := Option.bind_eq_some_iff.mp h
  rcases adaptReasoning_cases hadapter hadapted with rfl | ⟨tier, hle, -, rfl⟩
  · rcases budgetReasoning_cases hadapter hbudget with hsame | ⟨cfg, mapped, hmapped, hparams⟩
    · refine ⟨.null, by simp [ReasoningTier.ofJson?], ?_⟩
      intro key hkey value hvalue
      rw [hsame, hnone key hkey] at hvalue
      cases hvalue
    · refine ⟨sentEffort py adapter adapted (effortOf cfg adapted.params), ?_, ?_⟩
      · intro tier htier
        rw [sentEffort, namesReasoning_eq_false hnone, htenant] at htier
        exact le_trans (ofJson?_capped_le htier) (default_le_allowance adapted adapter)
      · intro key hkey value hvalue
        rw [hparams] at hvalue
        rcases lookup_budgetParams hvalue with hold | hmem
        · rw [hnone key hkey] at hold
          cases hold
        · exact Written.mapped hmapped hmem
  · refine ⟨.str tier.name, ?_, ?_⟩
    · intro t ht
      rw [ReasoningTier.ofJson?_name] at ht
      cases ht
      exact hle
    · have hold : ∀ key ∈ reasoningParamKeys, ∀ value,
          Assoc.lookup key (adaptedTo ctx tier).params = some value →
          Written py adapter ctx.config (.str tier.name) key value := by
        intro key hkey value hvalue
        rw [adaptedTo, Assoc.lookup_insert] at hvalue
        split at hvalue
        · next heq =>
          cases hvalue
          rw [heq]
          exact Written.asked rfl
        · rw [hnone key hkey] at hvalue
          cases hvalue
      intro key hkey value hvalue
      have hkept : (adaptedTo ctx tier).providerAdapter = some adapter := hadapter
      rcases budgetReasoning_cases hkept hbudget with hsame | ⟨cfg, mapped, hmapped, hparams⟩
      · rw [hsame] at hvalue
        exact hold key hkey value hvalue
      · rw [sentEffort_of_names _ (namesReasoning_adaptedTo tier), effortOf_adaptedTo] at hmapped
        rw [hparams] at hvalue
        rcases lookup_budgetParams hvalue with hvalue | hmem
        · exact hold key hkey value hvalue
        · exact Written.mapped hmapped hmem

/-! ## 7. What goes out -/

theorem number?_minusOne {value : Json} {q : ℚ} (h : number? value = some q) :
    ∃ n ≤ q, number? (minusOne value) = some n := by
  cases value with
  | int n =>
    cases h
    exact ⟨((n - 1 : ℤ) : ℚ), by push_cast; linarith, rfl⟩
  | float f =>
    cases h
    exact ⟨floatMinusOne q, min_le_left _ _, rfl⟩
  | bool b =>
    cases h
    exact ⟨(((if b then 1 else 0) - 1 : ℤ) : ℚ), by cases b <;> simp, rfl⟩
  | _ => cases h

theorem number?_maxZero {value : Json} {q : ℚ} (h : number? value = some q) :
    number? (maxZero value) = some (max q 0) := by
  unfold maxZero
  rw [h]
  simp only
  split
  · next hpos => rw [h, max_eq_left hpos.le]
  · next hneg =>
    rw [max_eq_right (not_lt.mp hneg)]
    rfl

/-- A budget that is written over another is no larger, or zero. -/
theorem cut_of_newBudget {cap : Json → Json} {maxTokens budget written : Json}
    (hcap : ∀ value q, number? value = some q → ∃ n, number? (cap value) = some n ∧ n ≤ max q 0)
    (h : newBudget cap maxTokens budget = some (some written)) :
    ∃ old new, number? budget = some old ∧ number? written = some new ∧ new ≤ max old 0 := by
  unfold newBudget at h
  split at h
  · cases h
  · split at h
    · next old limit hold hlimit =>
      split at h
      · cases h
      · next hlarge =>
        cases h
        obtain ⟨new, hnew, hle⟩ := hcap maxTokens limit hlimit
        refine ⟨old, new, hold, hnew, le_trans hle ?_⟩
        exact max_le_max (not_lt.mp hlarge) le_rfl
    · cases h

theorem minusOne_le {value : Json} {q : ℚ} (h : number? value = some q) :
    ∃ n, number? (minusOne value) = some n ∧ n ≤ max q 0 := by
  obtain ⟨n, hle, hn⟩ := number?_minusOne h
  exact ⟨n, hn, le_max_of_le_left hle⟩

theorem maxZero_minusOne_le {value : Json} {q : ℚ} (h : number? value = some q) :
    ∃ n, number? (maxZero (minusOne value)) = some n ∧ n ≤ max q 0 := by
  obtain ⟨n, hle, hn⟩ := number?_minusOne h
  exact ⟨max n 0, number?_maxZero hn, max_le_max hle le_rfl⟩

theorem lookup_of_drop {c : Capped} {keys : List String} {key : String} {value : Json}
    (h : Assoc.lookup key (c.drop keys).outgoing = some value) :
    Assoc.lookup key c.outgoing = some value := by
  rw [Capped.drop, lookup_foldl_erase] at h
  split at h
  · cases h
  · exact h

theorem lookup_of_reconciled {c : Capped} {key : String} {value : Json}
    (h : Assoc.lookup key (reconcileThinkingSampling c).outgoing = some value) :
    Assoc.lookup key c.outgoing = some value := by
  unfold reconcileThinkingSampling at h
  split at h
  · exact lookup_of_drop h
  · exact h

/-- After a write, a value was there before, or is the object that was written into. -/
theorem lookup_write {c : Capped} {key field other : String} {budget value : Json}
    {fields : Params} (h : Assoc.lookup other (c.write key field budget fields).outgoing =
      some value) :
    Assoc.lookup other c.outgoing = some value ∨
      other = key ∧ value = .obj (Assoc.insert field budget fields) := by
  rw [Capped.write, Assoc.lookup_insert] at h
  split at h
  · next heq =>
    right
    exact ⟨heq, (Option.some.inj h).symm⟩
  · left
    exact h

theorem lookup_capAnthropic {c capped : Capped} (h : capAnthropic c = some capped) {key : String}
    {value : Json} (hvalue : Assoc.lookup key capped.outgoing = some value) :
    ∃ original, Assoc.lookup key c.outgoing = some original ∧ Lowered original value := by
  unfold capAnthropic at h
  simp only at h
  split at h
  · cases h
    exact ⟨value, lookup_of_reconciled hvalue, Lowered.same value⟩
  · obtain ⟨limit, -, h⟩ := Option.bind_eq_some_iff.mp h
    split at h
    · cases h
      exact ⟨value, lookup_of_drop hvalue, Lowered.same value⟩
    · split at h
      · next thinking hthinking =>
        split at h
        · cases h
          exact ⟨value, lookup_of_reconciled hvalue, Lowered.same value⟩
        · cases h
        · next budget hbudget =>
          cases h
          obtain ⟨old, new, hold, hnew, hle⟩ :=
            cut_of_newBudget (fun _ _ hq => minusOne_le hq) hbudget
          rcases lookup_write hvalue with hkept | ⟨rfl, rfl⟩
          · exact ⟨value, lookup_of_reconciled hkept, Lowered.same value⟩
          · exact ⟨.obj thinking, lookup_of_param hthinking, Lowered.cut hold hnew hle⟩
      · cases h
        exact ⟨value, hvalue, Lowered.same value⟩

theorem lookup_capGemini {c capped : Capped} (h : capGemini c = some capped) {key : String}
    {value : Json} (hvalue : Assoc.lookup key capped.outgoing = some value) :
    ∃ original, Assoc.lookup key c.outgoing = some original ∧ Lowered original value := by
  unfold capGemini at h
  simp only at h
  split at h
  · cases h
    exact ⟨value, hvalue, Lowered.same value⟩
  · split at h
    · next tc htc =>
      split at h
      · cases h
        exact ⟨value, hvalue, Lowered.same value⟩
      · cases h
      · next budget hbudget =>
        cases h
        obtain ⟨old, new, hold, hnew, hle⟩ :=
          cut_of_newBudget (fun _ _ hq => maxZero_minusOne_le hq) hbudget
        rcases lookup_write hvalue with hkept | ⟨rfl, rfl⟩
        · exact ⟨value, hkept, Lowered.same value⟩
        · exact ⟨.obj tc, lookup_of_param htc, Lowered.cut hold hnew hle⟩
    · cases h
      exact ⟨value, hvalue, Lowered.same value⟩

theorem budgetKey_not_reasoning : ∀ key ∈ outputBudgetKeys, key ∉ reasoningParamKeys := by
  decide

/-- What goes out under a reasoning parameter is what was not stripped, or the object of it with a
    smaller budget. -/
theorem lookup_outgoing (call : RoutedCall py) {params outgoing : Params}
    (h : (outgoingParamsFor call.target params).outgoing = some outgoing) {key : String}
    (hkey : key ∈ reasoningParamKeys) {value : Json}
    (hvalue : Assoc.lookup key outgoing = some value) :
    ∃ original, Assoc.lookup key (stripped call.target params) = some original ∧
      Lowered original value := by
  unfold outgoingParamsFor at h
  simp only at h
  split at h
  · cases h
  · next capped hcap =>
    cases h
    rw [call.keepsReasoning _ _ _ key hkey] at hvalue
    have hunreserved : Assoc.lookup key capped.outgoing = some value := by
      split at hvalue
      · next budgetKey budget hreserve =>
        rw [call.reserves] at hreserve
        obtain ⟨raised, hraised, hpair⟩ := Option.map_eq_some_iff.mp hreserve
        cases hpair
        rw [Assoc.lookup_insert_of_ne] at hvalue
        · exact hvalue
        · rintro rfl
          cases hheadroom : call.headroom with
          | base =>
            rw [hheadroom] at hraised
            cases hraised
          | openai =>
            rw [hheadroom] at hraised
            obtain ⟨hbudget, -⟩ := reserveOpenai_spec hraised
            exact budgetKey_not_reasoning _ hbudget hkey
      · exact hvalue
    unfold Adapter.capReasoningParams at hcap
    split at hcap
    · cases hcap
      exact ⟨value, hunreserved, Lowered.same value⟩
    · exact lookup_capAnthropic hcap hunreserved
    · exact lookup_capGemini hcap hunreserved

theorem lookup_stripped_unsupported {t : Target} {params : Params} {key : String}
    (hkey : key ≠ "tools") (h : key ∈ t.adapter.unsupportedParams) :
    Assoc.lookup key (stripped t params) = none := by
  have hfiltered : ∀ outgoing : Params,
      Assoc.lookup key (outgoing.filter fun entry =>
        decide (entry.1 ∉ t.adapter.unsupportedParams)) = none := by
    intro outgoing
    rw [lookup_filter (fun k => decide (k ∉ t.adapter.unsupportedParams))]
    simp [h]
  unfold stripped
  simp only
  split
  · exact hfiltered _
  · rw [lookup_map_tools hkey, Assoc.lookup_erase, hfiltered]
    exact ite_self _

theorem lookup_stripped_ne_off (t : Target) (params : Params) :
    Assoc.lookup "reasoning_effort" (stripped t params) ≠ some (.str reasoningOff) := by
  have herased : ∀ outgoing : Params,
      Assoc.lookup "reasoning_effort" (if param outgoing "reasoning_effort" = .str reasoningOff then
        Assoc.erase "reasoning_effort" outgoing else outgoing) ≠ some (.str reasoningOff) := by
    intro outgoing hlookup
    split at hlookup
    · rw [Assoc.lookup_erase, if_pos rfl] at hlookup
      cases hlookup
    · next hne =>
      rw [param, hlookup] at hne
      exact hne rfl
  intro h
  unfold stripped at h
  simp only at h
  have htier : ∀ outgoing : Params,
      Assoc.lookup "reasoning_effort" (if t.adapter.supportsServiceTier then outgoing
        else Assoc.erase "service_tier" outgoing) = some (.str reasoningOff) →
      Assoc.lookup "reasoning_effort" outgoing = some (.str reasoningOff) := by
    intro outgoing hlookup
    split at hlookup
    · exact hlookup
    · exact lookup_of_erase hlookup
  split at h
  · exact herased _ (htier _ (lookup_of_filter
      (fun k => decide (k ∉ t.adapter.unsupportedParams)) h))
  · rw [lookup_map_tools (by decide)] at h
    exact herased _ (htier _ (lookup_of_filter
      (fun k => decide (k ∉ t.adapter.unsupportedParams)) (lookup_of_erase h)))

/-- A provider that takes a thinking budget is never sent an effort, whichever of the two stages is
    switched off, and whatever the request has. -/
theorem effort_stripped (call : RoutedCall py) {params outgoing : Params}
    (hfamily : call.reasoning.family = .anthropic ∨ call.reasoning.family = .gemini)
    (hout : (outgoingParamsFor call.target params).outgoing = some outgoing) :
    Assoc.lookup "reasoning_effort" outgoing = none := by
  apply Option.eq_none_iff_forall_ne_some.mpr
  intro value hvalue
  obtain ⟨original, hstripped, -⟩ := lookup_outgoing call hout (by decide) hvalue
  have hunsupported : "reasoning_effort" ∈ call.target.adapter.unsupportedParams := by
    rw [call.unsupported, ReasoningAdapter.unsupportedParams]
    rcases hfamily with hf | hf <;> simp [hf]
  rw [lookup_stripped_unsupported (by decide) hunsupported] at hstripped
  cases hstripped

/-- **Never above the allowance**: each reasoning parameter that goes out for a request which names
    none is what one effort within the allowance is written as, or that with a smaller budget; so
    the proxy sends no more than the provider's own default, unless its operator goes above it. -/
theorem reasoning_within_allowance (call : RoutedCall py) {ctx after : Ctx} {outgoing : Params}
    (hadapter : ctx.providerAdapter = some call.reasoning)
    (hnone : ∀ key ∈ reasoningParamKeys, Assoc.lookup key ctx.params = none)
    (htenant : tenantChoseEffort ctx = false)
    (hafter : reasoningStages py rx ctx = some after)
    (hout : (outgoingParamsFor call.target after.params).outgoing = some outgoing) :
    ∃ sent : Json,
      (∀ tier, ReasoningTier.ofJson? sent = some tier → tier ≤ allowance py ctx call.reasoning) ∧
      ∀ key ∈ reasoningParamKeys, ∀ value, Assoc.lookup key outgoing = some value →
        ∃ written, Written py call.reasoning ctx.config sent key written ∧
          Lowered written value := by
  obtain ⟨sent, hsent, hwritten⟩ := written_within_allowance hadapter hnone htenant hafter
  refine ⟨sent, hsent, ?_⟩
  intro key hkey value hvalue
  obtain ⟨written, hstripped, hlowered⟩ := lookup_outgoing call hout hkey hvalue
  have hparams : Assoc.lookup key after.params = some written := by
    apply lookup_of_stripped _ hstripped
    rintro rfl
    exact absurd hkey (by decide)
  exact ⟨written, hwritten key hkey written hparams, hlowered⟩

/-- `lower` as of ASCII text. -/
def plainPython : Python where
  intOfStr := fun _ => none
  strOf := fun _ => ""
  lower := fun text => String.ofList (text.toList.map Char.toLower)
  pairsOf := fun _ => none

def bothOn : Json :=
  .obj [("groups", .obj [("G25_adaptive_reasoning", .obj [("enabled", .bool true)]),
    ("G12_reasoning", .obj [("enabled", .bool true)])])]

/-- A request for a proof. -/
def proving (adapter : ReasoningAdapter) (model : String) (params : Params) : Ctx where
  messages := [⟨[("role", .str "user"), ("content", .str "Prove that 2 is prime.")]⟩]
  params := params
  routedModel := model
  config := bothOn
  tenantId := "default"
  providerAdapter := some adapter

def provingRegexes : Regexes where
  compiles := fun _ => true
  search := fun pattern _ => decide (pattern = "\\bprove\\b")

theorem reasoning_within_allowance_proving : ∃ sent : Json,
    (∀ tier, ReasoningTier.ofJson? sent = some tier →
      tier ≤ allowance plainPython (proving openaiReasoning "o3-mini" []) openaiReasoning) ∧
    ∀ key ∈ reasoningParamKeys, ∀ value,
      Assoc.lookup key [("reasoning_effort", Json.str "medium")] = some value →
        ∃ written, Written plainPython openaiReasoning bothOn sent key written ∧
          Lowered written value :=
  @reasoning_within_allowance plainPython provingRegexes
    (plainCall plainPython openaiReasoning "o3-mini" bothOn)
    (proving openaiReasoning "o3-mini" [])
    { proving openaiReasoning "o3-mini" [("reasoning_effort", .str "medium")] with
      reasoningMode := .str "medium" }
    [("reasoning_effort", .str "medium")] rfl (by decide) (by decide +kernel) (by decide +kernel)
    (by decide +kernel)

/-- **Thinking that is opt-in stays off**: under an adapter of OpenAI's or Anthropic's kind, where
    the allowance is `off`, no reasoning parameter goes out for a request that names none. -/
theorem opt_in_stays_off (call : RoutedCall py) {ctx after : Ctx} {outgoing : Params}
    (hadapter : ctx.providerAdapter = some call.reasoning)
    (hfamily : call.reasoning.family = .openai ∨ call.reasoning.family = .anthropic)
    (hoff : allowance py ctx call.reasoning = .off)
    (hnone : ∀ key ∈ reasoningParamKeys, Assoc.lookup key ctx.params = none)
    (htenant : tenantChoseEffort ctx = false)
    (hafter : reasoningStages py rx ctx = some after)
    (hout : (outgoingParamsFor call.target after.params).outgoing = some outgoing) :
    ∀ key ∈ reasoningParamKeys, Assoc.lookup key outgoing = none := by
  obtain ⟨sent, hsent, hwritten⟩ := written_within_allowance hadapter hnone htenant hafter
  intro key hkey
  apply Option.eq_none_iff_forall_ne_some.mpr
  intro value hvalue
  obtain ⟨written, hstripped, -⟩ := lookup_outgoing call hout hkey hvalue
  have hparams : Assoc.lookup key after.params = some written := by
    apply lookup_of_stripped _ hstripped
    rintro rfl
    exact absurd hkey (by decide)
  cases hwritten key hkey written hparams with
  | @asked tier heq =>
    have htier : tier ≤ .off := hoff ▸ hsent tier (heq ▸ ReasoningTier.ofJson?_name tier)
    rw [le_antisymm htier tier.off_le] at hstripped
    exact lookup_stripped_ne_off call.target after.params hstripped
  | mapped hmapped hmem =>
    rw [ReasoningAdapter.mapped_of_le_off hfamily
      (fun tier htier => hoff ▸ hsent tier htier)] at hmapped
    cases hmapped
    cases hmem

theorem opt_in_stays_off_proving : ∃ after outgoing,
    reasoningStages plainPython provingRegexes
        (proving anthropicReasoning "claude-sonnet-4-5" [("max_tokens", .int 4096)]) =
      some after ∧
    (outgoingParamsFor (plainCall plainPython anthropicReasoning "claude-sonnet-4-5" bothOn).target
      after.params).outgoing = some outgoing ∧
    ∀ key ∈ reasoningParamKeys, Assoc.lookup key outgoing = none := by
  have hafter : reasoningStages plainPython provingRegexes
      (proving anthropicReasoning "claude-sonnet-4-5" [("max_tokens", .int 4096)]) =
        some { proving anthropicReasoning "claude-sonnet-4-5" [("max_tokens", .int 4096)] with
          reasoningMode := .str "off_honoured" } := by
    decide +kernel
  have hout : (outgoingParamsFor
      (plainCall plainPython anthropicReasoning "claude-sonnet-4-5" bothOn).target
      [("max_tokens", .int 4096)]).outgoing = some [("max_tokens", .int 4096)] := by
    decide +kernel
  exact ⟨_, _, hafter, hout, opt_in_stays_off _ rfl (by decide) (by decide +kernel) (by decide)
    (by decide +kernel) hafter hout⟩

/-- What the second stage makes of a selected tier, where it writes. -/
theorem budgetReasoning_adaptedTo {ctx after : Ctx} {adapter : ReasoningAdapter} {cfg : Json}
    {tier : ReasoningTier} (hadapter : ctx.providerAdapter = some adapter)
    (hcfg : group? ctx.config "G12_reasoning" = some cfg)
    (henabled : (cfg.getD "enabled" (.bool false)).truthy = true)
    (hbudgets : budgets py adapter ctx = true)
    (h : budgetReasoning py (adaptedTo ctx tier) = some after) :
    ∃ mapped, adapter.mapReasoningEffort py (.str tier.name) ctx.config = some mapped ∧
      after.params = budgetParams (.str tier.name) mapped (adaptedTo ctx tier).params := by
  obtain ⟨cfg', hcfg', h⟩ := Option.bind_eq_some_iff.mp h
  cases hcfg.symm.trans hcfg'
  obtain ⟨enabled, hread, h⟩ := Option.bind_eq_some_iff.mp h
  rw [field?_eq_some hread] at henabled
  rw [henabled, Bool.not_true, if_neg Bool.false_ne_true] at h
  obtain ⟨written, hwritten, h⟩ := Option.bind_eq_some_iff.mp h
  have hsome : (adaptedTo ctx tier).providerAdapter.getD openaiReasoning = adapter := by
    rw [adaptedTo, hadapter, Option.getD_some]
  have hwrites : budgets py adapter (adaptedTo ctx tier) = true := hbudgets
  rw [hsome, reasoned, if_pos hwrites] at hwritten
  obtain ⟨mapped, hmapped, hwritten⟩ := Option.bind_eq_some_iff.mp hwritten
  rw [sentEffort_of_names _ (namesReasoning_adaptedTo tier), effortOf_adaptedTo] at hmapped
  refine ⟨mapped, hmapped, ?_⟩
  rw [suppressed_params h]
  cases hwritten
  rw [sentEffort_of_names _ (namesReasoning_adaptedTo tier), effortOf_adaptedTo]

/-- Where an effort other than `off` is written, what the request has is kept. -/
theorem lookup_budgetParams_of_ne_off {sent : Json} {mapped params : Params} {key : String}
    {value : Json} (hsent : sent ≠ .str reasoningOff) (hkey : key ≠ "reasoning_effort")
    (h : Assoc.lookup key params = some value) :
    Assoc.lookup key (budgetParams sent mapped params) = some value := by
  have hadded : Assoc.lookup key (addMissing mapped params) = some value := by
    rw [lookup_addMissing, h]
    rfl
  unfold budgetParams
  simp only [if_neg hsent]
  split
  · rw [Assoc.lookup_erase, if_neg hkey]
    exact hadded
  · exact hadded

/-- For `off`, every reasoning parameter that the adapter did not write is cleared. -/
theorem lookup_budgetParams_off {mapped params : Params} {key : String}
    (hkey : key ∈ reasoningParamKeys) (hmapped : key ∉ mapped.map Prod.fst) :
    Assoc.lookup key (budgetParams (.str reasoningOff) mapped params) = none := by
  unfold budgetParams
  simp only [if_true]
  rw [lookup_foldl_erase, if_pos]
  exact List.mem_filter.mpr ⟨hkey, decide_eq_true hmapped⟩

/-- **A request's own thinking**, with no effort beside it, is kept by the two stages exactly when
    the tier that is selected for the request is not `off`; where the allowance is `off`, it never
    reaches the provider. -/
theorem own_thinking_kept_iff {ctx after : Ctx} {adapter : ReasoningAdapter} {tier : ReasoningTier}
    {cfg thinking : Json} (hadapter : ctx.providerAdapter = some adapter)
    (hfamily : adapter.family = .anthropic)
    (hselected : selectedEffort py rx ctx = some (some tier))
    (hcfg : group? ctx.config "G12_reasoning" = some cfg)
    (henabled : (cfg.getD "enabled" (.bool false)).truthy = true)
    (hbudgets : budgets py adapter ctx = true)
    (hown : Assoc.lookup "thinking" ctx.params = some thinking)
    (hafter : reasoningStages py rx ctx = some after) :
    (Assoc.lookup "thinking" after.params = some thinking ↔ tier ≠ .off) ∧
      (allowance py ctx adapter = .off → Assoc.lookup "thinking" after.params = none) := by
  obtain ⟨adapted, hadapted, hbudget⟩ := Option.bind_eq_some_iff.mp hafter
  unfold adaptReasoning at hadapted
  rw [hselected] at hadapted
  cases hadapted
  obtain ⟨mapped, hmapped, hparams⟩ :=
    budgetReasoning_adaptedTo hadapter hcfg henabled hbudgets hbudget
  have hcleared : tier = .off → Assoc.lookup "thinking" after.params = none := by
    rintro rfl
    change adapter.mapReasoningEffort py (.str reasoningOff) ctx.config = some mapped at hmapped
    rw [ReasoningAdapter.mapped_off, hfamily, if_neg (by decide)] at hmapped
    cases hmapped
    rw [hparams]
    exact lookup_budgetParams_off (by decide) (by simp)
  constructor
  · constructor
    · intro hkept hoff
      rw [hcleared hoff] at hkept
      cases hkept
    · intro hon
      rw [hparams]
      apply lookup_budgetParams_of_ne_off _ (by decide)
      · rw [adaptedTo, Assoc.lookup_insert_of_ne (by decide)]
        exact hown
      · intro heq
        exact hon (ReasoningTier.name_eq_off_iff.mp (Json.str.inj heq))
  · intro hoff
    apply hcleared
    exact le_antisymm (hoff ▸ selectedEffort_le hadapter hselected) tier.off_le

/-- Both stages, with tiers above the provider's default allowed. -/
def escalating : Json :=
  .obj [("groups", .obj [("G25_adaptive_reasoning", .obj [("enabled", .bool true),
      ("escalate_above_provider_default", .bool true)]),
    ("G12_reasoning", .obj [("enabled", .bool true)])])]

def ownThinking : Json := .obj [("type", .str "enabled"), ("budget_tokens", .int 2048)]

/-- A request for a proof that brings its own thinking. -/
def ownThinkingCall (config : Json) : Ctx :=
  { proving anthropicReasoning "claude-sonnet-4-5" [("thinking", ownThinking)] with config }

theorem own_thinking_kept_iff_proving : ∃ shipped escalated,
    reasoningStages plainPython provingRegexes (ownThinkingCall bothOn) = some shipped ∧
    reasoningStages plainPython provingRegexes (ownThinkingCall escalating) = some escalated ∧
    (Assoc.lookup "thinking" shipped.params = some ownThinking ↔
      ReasoningTier.off ≠ ReasoningTier.off) ∧
    (allowance plainPython (ownThinkingCall bothOn) anthropicReasoning = .off →
      Assoc.lookup "thinking" shipped.params = none) ∧
    (Assoc.lookup "thinking" escalated.params = some ownThinking ↔
      ReasoningTier.medium ≠ ReasoningTier.off) := by
  have hshipped : reasoningStages plainPython provingRegexes (ownThinkingCall bothOn) =
      some { proving anthropicReasoning "claude-sonnet-4-5" [] with
        reasoningMode := .str "off_honoured" } := by
    decide +kernel
  have hruns : (reasoningStages plainPython provingRegexes
      (ownThinkingCall escalating)).isSome = true := by
    decide +kernel
  obtain ⟨escalated, hescalated⟩ := Option.isSome_iff_exists.mp hruns
  have hoff := @own_thinking_kept_iff plainPython provingRegexes _ _ _ .off _ ownThinking
    rfl rfl (by decide +kernel) rfl rfl (by decide +kernel) (by decide) hshipped
  have hmedium := @own_thinking_kept_iff plainPython provingRegexes _ _ _ .medium _ ownThinking
    rfl rfl (by decide +kernel) rfl rfl (by decide +kernel) (by decide) hescalated
  exact ⟨_, escalated, hshipped, hescalated, hoff.1, hoff.2, hmedium.1⟩

end

end TokenProxy.Reasoning
