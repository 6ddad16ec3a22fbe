/-
  TokenProxy/ReasoningEffort.lean
  ===============================
  **Reasoning effort, as each provider takes it** (`providers/__init__.py` and the reasoning methods
  of `openai_adapter.py`, `anthropic_adapter.py`, `gemini_adapter.py` and `generic_adapter.py`).

  The proxy has four tiers, `off` below the others.  A family of providers says which of its
  models reason, what they do for a request that names no effort, and how a tier is written into
  the parameters of a call: as `reasoning_effort`, as a `thinking` budget, or as a
  `thinking_config`.

  Main result: `mapped_eq_nil`, nothing is written for what is no tier.
-/
import TokenProxy.OutputHeadroom
import Mathlib.Order.Lattice
import Mathlib.Order.Basic

namespace TokenProxy.Providers

/-! ## 1. Tiers -/

/-- `REASONING_TIERS`. -/
inductive ReasoningTier where
  | off
  | low
  | medium
  | high
deriving DecidableEq, Repr

namespace ReasoningTier

def all : List ReasoningTier := [off, low, medium, high]

def name : ReasoningTier → String
  | off => reasoningOff
  | low => "low"
  | medium => "medium"
  | high => "high"

/-- `REASONING_TIERS.index(tier)`. -/
def index : ReasoningTier → Nat
  | off => 0
  | low => 1
  | medium => 2
  | high => 3

theorem index_injective : Function.Injective index := by
  intro s t h
  cases s <;> cases t <;> first | rfl | cases h

instance : LinearOrder ReasoningTier := LinearOrder.lift' index index_injective

theorem off_le (t : ReasoningTier) : off ≤ t := Nat.zero_le (index t)

theorem le_high (t : ReasoningTier) : t ≤ high := by
  cases t <;> decide

/-- The tier of a name, as `name in REASONING_TIERS` finds it. -/
def ofName? (s : String) : Option ReasoningTier := all.find? fun t => t.name = s

theorem ofName?_name (t : ReasoningTier) : ofName? t.name = some t := by
  cases t <;> decide

/-- The tier that a value is, when it is one: spelt exactly. -/
def ofJson? : Json → Option ReasoningTier
  | .str s => ofName? s
  | _ => none

@[simp] theorem ofJson?_name (t : ReasoningTier) : ofJson? (.str t.name) = some t := ofName?_name t

theorem eq_of_ofJson? {value : Json} {t : ReasoningTier} (h : ofJson? value = some t) :
    value = .str t.name := by
  cases value with
  | str s =>
    have hname := List.find?_some h
    rw [of_decide_eq_true hname]
  | _ => cases h

/-- The tier that `str(value).lower()` is. -/
def read? (py : Python) (value : Json) : Option ReasoningTier := ofName? (py.lower (py.str value))

theorem name_ne_empty (t : ReasoningTier) : t.name ≠ "" := by
  cases t <;> decide

theorem truthy_name (t : ReasoningTier) : (Json.str t.name).truthy = true :=
  decide_eq_true t.name_ne_empty

theorem name_eq_off_iff {t : ReasoningTier} : t.name = reasoningOff ↔ t = off := by
  cases t <;> decide

end ReasoningTier

open ReasoningTier (ofName? ofJson?)

/-! ## 2. Adapters -/

/-- `d.get(key, default)`; `none` where `d` has no `get`. -/
def field? : Json → String → Json → Option Json
  | .obj fields, key, fallback => some ((Assoc.lookup key fields).getD fallback)
  | _, _, _ => none

/-- The items that a value is iterated as; `none` where it is not iterable. -/
def iterated? : Json → Option (List Json)
  | .arr items => some items
  | .str s => some (s.toList.map fun c => .str (String.singleton c))
  | .obj fields => some (fields.map fun field => .str field.1)
  | _ => none

/-- `ProviderAdapter._provider_entry`: `{}` for a `providers` block of another shape. -/
def providerEntry (name : String) (config : Json) : Json :=
  let entry :=
    match (config.getD "providers" .null).orElse (.obj []) with
    | .obj byName => ((Assoc.lookup name byName).getD .null).orElse (.obj [])
    | .arr entries =>
      (entries.find? fun p => decide (p.get? "name" = some (.str name))).getD (.obj [])
    | _ => .obj []
  if entry.isObj then entry else .obj []

/-- The implementations of the reasoning methods. -/
inductive Family where
  /-- `OpenAIAdapter` and `AzureOpenAIAdapter` -/
  | openai
  | anthropic
  | gemini
  /-- `GenericLiteLLMAdapter` and the subclasses of it -/
  | generic
deriving DecidableEq, Repr

structure ReasoningAdapter where
  family : Family
  name : String
  /-- `_cfg`, the provider entry that a generic adapter is built from -/
  cfg : Json := .obj []
deriving DecidableEq

/-- `OpenAIAdapter()`. -/
def openaiReasoning : ReasoningAdapter := { family := .openai, name := "openai" }

/-- `AnthropicAdapter()`. -/
def anthropicReasoning : ReasoningAdapter := { family := .anthropic, name := "anthropic" }

def reasoningModelFamilies : List String := ["o1", "o3", "o4"]

/-- `part in text` -/
def contains (text part : String) : Bool := decide (part.toList <:+: text.toList)

section

variable (py : Python)

/-- Whether a `reasoning_models` list names the model; one that is empty or no list names all. -/
def namesModel (models : Json) (model : String) : Bool :=
  match models with
  | .arr (first :: rest) =>
    (first :: rest).any fun m =>
      match m with
      | .str s => contains (py.lower model) (py.lower s)
      | _ => false
  | _ => true

/-- The `default_reasoning_effort` of an entry, when it is a tier. -/
def configuredDefault (entry : Json) : Option ReasoningTier :=
  match entry.getD "default_reasoning_effort" .null with
  | .str s => ofName? (py.lower s)
  | _ => none

/-- `config["groups"]["G12_reasoning"]["effort_map"].get(tier, {})`; `none` where it raises. -/
def tierConfig (config tier : Json) : Option Json := do
  let groups ← section? config "groups"
  let reasoning ← section? groups "G12_reasoning"
  let efforts ← section? reasoning "effort_map"
  match tier with
  | .str s => section? efforts s
  | other =>
    -- the keys of a config are strings: any other that is hashable finds nothing
    if efforts.isObj && other.dictKey?.isSome then some (.obj []) else none

/-- `_THINKING_DEFAULTS.get(tier, 1024)`. -/
def thinkingDefault : ReasoningTier → Int
  | .off => 1024
  | .low => 1024
  | .medium => 4096
  | .high => 16000

/-- `OpenAIAdapter.map_reasoning_effort`; each of the four is `none` where it raises. -/
def mapOpenai (tier config : Json) : Option Params :=
  match ofJson? tier with
  | none | some .off => some []
  | some t => do
    let tierCfg ← tierConfig config tier
    let value ← field? tierCfg "openai" (.str t.name)
    some [("reasoning_effort", value)]

/-- `AnthropicAdapter.map_reasoning_effort`. -/
def mapAnthropic (tier config : Json) : Option Params :=
  match ofJson? tier with
  | none | some .off => some []
  | some t => do
    let tierCfg ← tierConfig config tier
    let budget ← field? tierCfg "anthropic_tokens" (.int (thinkingDefault t))
    match py.int budget with
    | none => if infinite budget then none else some []
    | some tokens =>
      if tokens ≤ 0 then some []
      else some [("thinking", .obj [("type", .str "enabled"), ("budget_tokens", .int tokens)])]

/-- `GeminiAdapter.map_reasoning_effort`. -/
def mapGemini (tier config : Json) : Option Params :=
  match ofJson? tier with
  | none => some []
  | some .off => some [("thinking_config", .obj [("thinking_budget", .int 0)])]
  | some t => do
    let tierCfg ← tierConfig config tier
    let budget ← field? tierCfg "gemini_thinking_budget" (.int (thinkingDefault t))
    match py.int budget with
    | none => if infinite budget then none else some []
    | some tokens => some [("thinking_config", .obj [("thinking_budget", .int (max 0 tokens))])]

/-- `GenericLiteLLMAdapter.map_reasoning_effort`. -/
def mapGeneric (name : String) (tier config : Json) : Option Params :=
  if tier = .str reasoningOff then some []
  else do
    let tierCfg ← tierConfig config tier
    let value ← field? tierCfg name .null
    some (if value = .null then [] else [("reasoning_effort", value)])

namespace ReasoningAdapter

variable (adapter : ReasoningAdapter)

/-- `supports_reasoning`. -/
def supportsReasoning (model : String) (config : Json) : Bool :=
  match adapter.family with
  | .openai =>
    reasoningModelFamilies.any (contains model) &&
      namesModel py ((providerEntry adapter.name config).getD "reasoning_models" .null) model
  | .anthropic | .gemini =>
    namesModel py ((providerEntry adapter.name config).getD "reasoning_models" .null) model
  | .generic =>
    (adapter.cfg.getD "supports_reasoning" (.bool false)).truthy &&
      namesModel py (adapter.cfg.getD "reasoning_models" .null) model

/-- `can_disable_reasoning`. -/
def canDisableReasoning (model : String) : Bool :=
  match adapter.family with
  | .openai => !adapter.supportsReasoning py model .null
  | .anthropic | .gemini => true
  | .generic => (adapter.cfg.getD "can_disable_reasoning" (.bool false)).truthy

/-- `default_reasoning_effort`. -/
def defaultReasoningEffort (model : String) (config : Json) : ReasoningTier :=
  match adapter.family with
  | .openai =>
    (configuredDefault py (providerEntry adapter.name config)).getD
      (if adapter.supportsReasoning py model config then .medium else .off)
  | .anthropic => (configuredDefault py (providerEntry adapter.name config)).getD .off
  | .gemini => (configuredDefault py (providerEntry adapter.name config)).getD .medium
  | .generic => (configuredDefault py adapter.cfg).getD .off

/-- `map_reasoning_effort`; `none` where it raises. -/
def mapReasoningEffort (tier config : Json) : Option Params :=
  match adapter.family with
  | .openai => mapOpenai tier config
  | .anthropic => mapAnthropic py tier config
  | .gemini => mapGemini py tier config
  | .generic => mapGeneric adapter.name tier config

/-- `unsupported_params`. -/
def unsupportedParams : List String :=
  match adapter.family with
  | .openai => ["thinking"]
  | .anthropic => ["parallel_tool_calls", "logprobs", "top_logprobs", "reasoning_effort"]
  | .gemini =>
    ["parallel_tool_calls", "logprobs", "top_logprobs", "thinking", "reasoning_effort"]
  | .generic =>
    ((iterated? ((adapter.cfg.getD "unsupported_params" (.arr [])).orElse (.arr []))).getD
      []).filterMap Json.str?

/-- Which `cap_reasoning_params` is used. -/
def capping : Capping :=
  match adapter.family with
  | .openai | .generic => .base
  | .anthropic => .anthropic
  | .gemini => .gemini

/-- Which `reserve_reasoning_headroom` is used. -/
def headroom : Headroom :=
  match adapter.family with
  | .openai => .openai
  | .anthropic | .gemini | .generic => .base

/-! ## 3. What is written for a tier -/

variable {adapter} {py}

/-- The family that reserves output for thinking has no thinking budget to cap. -/
theorem capping_of_headroom (adapter : ReasoningAdapter) (h : adapter.headroom = .openai) :
    adapter.capping = .base := by
  unfold headroom at h
  unfold capping
  cases hf : adapter.family with
  | openai => rfl
  | _ => simp [hf] at h

/-- What is no tier is not written, except by a generic adapter with a config for it. -/
theorem mapped_eq_nil {tier config : Json} (hfamily : adapter.family ≠ .generic)
    (htier : ofJson? tier = none) : adapter.mapReasoningEffort py tier config = some [] := by
  unfold mapReasoningEffort
  cases hf : adapter.family with
  | openai => simp [mapOpenai, htier]
  | anthropic => simp [mapAnthropic, htier]
  | gemini => simp [mapGemini, htier]
  | generic => exact absurd hf hfamily

/-- `off` asks for no thinking: it is not written, or as a budget of zero. -/
theorem mapped_off (config : Json) :
    adapter.mapReasoningEffort py (.str reasoningOff) config = some
      (if adapter.family = .gemini then
        [("thinking_config", .obj [("thinking_budget", .int 0)])] else []) := by
  have hoff : ofJson? (.str reasoningOff) = some .off := ReasoningTier.ofJson?_name .off
  unfold mapReasoningEffort
  cases hf : adapter.family with
  | openai => simp [mapOpenai, hoff]
  | anthropic => simp [mapAnthropic, hoff]
  | gemini => simp [mapGemini, hoff]
  | generic => simp [mapGeneric]

theorem mapped_of_le_off {tier config : Json}
    (hfamily : adapter.family = .openai ∨ adapter.family = .anthropic)
    (h : ∀ t, ofJson? tier = some t → t ≤ .off) :
    adapter.mapReasoningEffort py tier config = some [] := by
  have hgemini : adapter.family ≠ .gemini := by
    rcases hfamily with hf | hf <;> simp [hf]
  have hgeneric : adapter.family ≠ .generic := by
    rcases hfamily with hf | hf <;> simp [hf]
  cases ht : ofJson? tier with
  | none => exact mapped_eq_nil hgeneric ht
  | some t =>
    have hoff : t = .off := le_antisymm (h t ht) t.off_le
    rw [ReasoningTier.eq_of_ofJson? ht, hoff]
    change adapter.mapReasoningEffort py (.str reasoningOff) config = some []
    rw [mapped_off, if_neg hgemini]

end ReasoningAdapter

end

end TokenProxy.Providers
