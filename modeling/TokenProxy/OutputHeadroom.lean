/-
  TokenProxy/OutputHeadroom.lean
  ==============================
  **Output headroom for models that reason** (`reserve_reasoning_headroom` of
  `openai_adapter.py`, and what `outgoing_params_for` records of it on the context).

  A budget that is too small for thinking and an answer is raised in the new dict, and the raise
  is recorded on the context.  The record is only ever set: a call with the caller's own budget
  leaves the record of an earlier one.

  Main results: `reserved_describes`, the record has the caller's budget and the one sent, and
  `reserved_congr`, the calls built for a request do not change what is reserved for the next.
-/
import TokenProxy.OutgoingParams
import Mathlib.Data.List.Infix
import Mathlib.Data.Rat.Floor

namespace TokenProxy.Providers

/-! ## 1. The reservation -/

/-- The built-ins that the reservation uses. -/
structure Python where
  /-- `int(s)` of a string -/
  intOfStr : String → Option Int
  /-- `str(value)` of a value that is no string -/
  strOf : Json → String
  lower : String → String
  /-- what `dict.update(value)` adds for a value that is no dict -/
  pairsOf : Json → Option Params

/-- The least number that is read as an infinity: half a step above the largest double. -/
def doubleOverflow : ℚ := 2 ^ 1024 - 2 ^ 970

/-- An infinity of either sign (`1e999`, `Infinity`, `.inf`). -/
def infinite : Json → Bool
  | .float q => decide (doubleOverflow ≤ |q|)
  | _ => false

namespace Python

variable (py : Python)

/-- `int(value)`; `none` where it raises: an `OverflowError` of an infinity, else one of the
errors that its callers catch. -/
def int : Json → Option Int
  | .int n => some n
  | .bool b => some (if b then 1 else 0)
  | .float q => if infinite (.float q) then none else some (if 0 ≤ q then ⌊q⌋ else ⌈q⌉)
  | .str s => py.intOfStr s
  | _ => none

theorem int_of_infinite {value : Json} (h : infinite value = true) : py.int value = none := by
  cases value with
  | float q => exact if_pos h
  | null => cases h
  | bool b => cases h
  | int n => cases h
  | str s => cases h
  | arr items => cases h
  | obj fields => cases h

def str : Json → String
  | .str s => s
  | value => py.strOf value

end Python

/-- `d.get(key, {})`; `none` where `d` has no `get`. -/
def section? : Json → String → Option Json
  | .obj fields, key => some ((Assoc.lookup key fields).getD (.obj []))
  | _, _ => none

/-- `config["groups"]["G12_reasoning"]["reasoning_headroom"]`, with its defaults. -/
def headroomConfig (config : Json) : Option Json := do
  let groups ← section? (config.orElse (.obj [])) "groups"
  let reasoning ← section? groups "G12_reasoning"
  let hcfg := (← section? reasoning "reasoning_headroom").orElse (.obj [])
  if hcfg.isObj then some hcfg else none

def headroomEnabled (hcfg : Json) : Bool := (hcfg.getD "enabled" (.bool true)).truthy

def outputBudgetKeys : List String := ["max_completion_tokens", "max_tokens"]

def defaultAllowances : Params :=
  [(reasoningOff, .int 1024), ("low", .int 1024), ("medium", .int 4096), ("high", .int 16384)]

/-- What `outgoing_params_for` records of a raise: the keys `param`, `from`, `to` and `effort`. -/
structure Raised where
  param : String
  fromBudget : Int
  toBudget : Int
  effort : String
deriving DecidableEq, Repr

section

variable (py : Python)

/-- `reasoning_headroom_needed`, of a model that reasons; `none` where it raises, too. -/
def reasoningHeadroomNeeded (config : Json) (effort : String) : Option Int := do
  let hcfg ← headroomConfig config
  if !headroomEnabled hcfg then none
  else
    let tier := py.lower
      (if effort = "" then py.str (hcfg.getD "assumed_effort" (.str "medium")) else effort)
    let given := (hcfg.getD "allowance_tokens" .null).orElse (.obj [])
    let updates ← match given with
      | .obj fields => some fields
      | other => py.pairsOf other
    let allowances := updates.foldl (fun d entry => Assoc.insert entry.1 entry.2 d)
      defaultAllowances
    let middle := (Assoc.lookup "medium" allowances).getD (.int 4096)
    let allowance ← py.int ((Assoc.lookup tier allowances).getD middle)
    let floor ← py.int (hcfg.getD "answer_floor_tokens" (.int 512))
    some (allowance + floor)

/-- The `cap_raw` of `_reasoning_headroom_ceiling`; `none` where it raises. -/
def capRaw (model : String) (hcfg : Json) : Option Json :=
  match (hcfg.getD "max_output_tokens_by_model" .null).orElse (.obj []) with
  | .obj byModel =>
    let named := byModel.find? fun entry =>
      decide ((py.lower entry.1).toList <:+: (py.lower model).toList)
    some (match named with
      | some entry => entry.2
      | none => hcfg.getD "max_output_tokens" (.int 32768))
  | _ => none

/-- `_reasoning_headroom_ceiling`; `none` where it raises. -/
def reasoningHeadroomCeiling (model : String) (hcfg : Json) : Option Int := do
  let raw ← capRaw py model hcfg
  if infinite raw then none else some ((py.int raw).getD 32768)

/-- `OpenAIAdapter.reserve_reasoning_headroom`, of a model that `reasons` under the config. -/
def reserveOpenai (reasons : Bool) (params : Params) (model : String) (config : Json)
    (requestedEffort : Json) : Option Raised :=
  if !reasons then none
  else do
    let hcfg ← headroomConfig config
    if !headroomEnabled hcfg then none
    else
      let key ← outputBudgetKeys.find? fun key => decide (param params key ≠ .null)
      let budget ← py.int (param params key)
      if budget ≤ 0 then none
      else
        let effort := py.lower (py.str
          ((requestedEffort.orElse (param params "reasoning_effort")).orElse
            (hcfg.getD "assumed_effort" (.str "medium"))))
        let needed ← reasoningHeadroomNeeded py config effort
        if needed ≤ budget then none
        else
          let cap ← reasoningHeadroomCeiling py model hcfg
          let newBudget := min needed cap
          if newBudget ≤ budget then none else some ⟨key, budget, newBudget, effort⟩

/-- The implementations of `reserve_reasoning_headroom`. -/
inductive Headroom where
  | base
  | openai
deriving DecidableEq

def Headroom.reserve : Headroom → Bool → Params → String → Json → Json → Option Raised
  | .base, _, _, _, _, _ => none
  | .openai, reasons, params, model, config, effort =>
    reserveOpenai py reasons params model config effort

/-- A model under its adapter, with the adapter's reservation. -/
structure Candidate where
  target : Target
  headroom : Headroom
  reserves : ∀ params model config effort,
    target.adapter.reserveReasoningHeadroom params model config effort =
      (headroom.reserve py (target.adapter.supportsReasoning model config) params model config
        effort).map fun raised => (raised.param, .int raised.toBudget)
  /-- the adapter that reserves has no thinking budget to cap -/
  uncapped : headroom = .openai → target.adapter.capping = .base
  /-- context editing adds its own fields only -/
  keepsBudget : ∀ params config tenantId, ∀ key ∈ outputBudgetKeys,
    Assoc.lookup key (target.adapter.applyContextManagement params config tenantId) =
      Assoc.lookup key params

/-! ## 2. The context -/

/-- What `outgoing_params_for` reads and writes of the context. -/
structure RequestCtx where
  params : Params
  outputBudgetRaised : Option Raised := none

namespace Candidate

variable {py} (t : Candidate py)

/-- What is reserved for a call. -/
def reserved (params : Params) : Option Raised :=
  let requestedEffort := param (params.filter fun entry => isOutgoing entry.1) "reasoning_effort"
  match t.target.adapter.capReasoningParams ⟨stripped t.target params, params⟩ with
  | none => none
  | some c =>
    t.headroom.reserve py (t.target.adapter.supportsReasoning t.target.model t.target.effCfg)
      c.outgoing t.target.model t.target.effCfg requestedEffort

/-- `outgoing_params_for`, with the context afterwards; `none` where it raises. -/
def outgoingParams (ctx : RequestCtx) : Option Params × RequestCtx :=
  let built := outgoingParamsFor t.target ctx.params
  (built.outgoing,
    { params := built.params
      outputBudgetRaised := (t.reserved ctx.params).or ctx.outputBudgetRaised })

end Candidate

/-! ## 3. What a record says -/

/-- The caller's budget is read under the key, and the larger one is sent there. -/
structure Describes (raised : Raised) (params outgoing : Params) : Prop where
  key : raised.param ∈ outputBudgetKeys
  own : py.int (param params raised.param) = some raised.fromBudget
  sent : Assoc.lookup raised.param outgoing = some (.int raised.toBudget)
  grows : raised.fromBudget < raised.toBudget

variable {py}

theorem reserveOpenai_spec {reasons : Bool} {params : Params} {model : String}
    {config requestedEffort : Json} {raised : Raised}
    (h : reserveOpenai py reasons params model config requestedEffort = some raised) :
    raised.param ∈ outputBudgetKeys ∧ param params raised.param ≠ .null ∧
      py.int (param params raised.param) = some raised.fromBudget ∧
      raised.fromBudget < raised.toBudget := by
  unfold reserveOpenai at h
  split at h
  · cases h
  · obtain ⟨hcfg, -, h⟩ := Option.bind_eq_some_iff.mp h
    split at h
    · cases h
    · obtain ⟨key, hkey, h⟩ := Option.bind_eq_some_iff.mp h
      obtain ⟨budget, hbudget, h⟩ := Option.bind_eq_some_iff.mp h
      split at h
      · cases h
      · obtain ⟨needed, -, h⟩ := Option.bind_eq_some_iff.mp h
        split at h
        · cases h
        · obtain ⟨cap, -, h⟩ := Option.bind_eq_some_iff.mp h
          dsimp only at h
          split at h
          · cases h
          · rename_i hgrows
            cases h
            have hset := List.find?_some hkey
            exact ⟨List.mem_of_find?_eq_some hkey, of_decide_eq_true hset, hbudget,
              Int.not_le.mp hgrows⟩

theorem lookup_of_param_ne {params : Params} {key : String} (h : param params key ≠ .null) :
    Assoc.lookup key params = some (param params key) := by
  rw [param] at h ⊢
  cases hlookup : Assoc.lookup key params with
  | none =>
    rw [hlookup] at h
    exact absurd rfl h
  | some value => rfl

theorem tools_not_budget {key : String} (h : key ∈ outputBudgetKeys) : key ≠ "tools" := by
  rintro rfl
  exact absurd h (by decide)

/-- What is reserved for a call is what the call is sent with. -/
theorem reserved_describes (t : Candidate py) {params outgoing : Params} {raised : Raised}
    (hreserved : t.reserved params = some raised)
    (hbuilt : (outgoingParamsFor t.target params).outgoing = some outgoing) :
    Describes py raised params outgoing := by
  cases hkind : t.headroom with
  | base =>
    rw [Candidate.reserved, hkind] at hreserved
    split at hreserved <;> cases hreserved
  | openai =>
    have hcap : t.target.adapter.capReasoningParams ⟨stripped t.target params, params⟩ =
        some ⟨stripped t.target params, params⟩ := by
      rw [Adapter.capReasoningParams, t.uncapped hkind]
    have hreserves := t.reserves (stripped t.target params) t.target.model t.target.effCfg
      (param (params.filter fun entry => isOutgoing entry.1) "reasoning_effort")
    rw [Candidate.reserved, hcap] at hreserved
    dsimp only at hreserved
    rw [hreserved] at hreserves
    rw [hkind] at hreserved
    obtain ⟨hkey, hset, hown, hgrows⟩ := reserveOpenai_spec hreserved
    have hlookup := lookup_of_stripped (tools_not_budget hkey) (lookup_of_param_ne hset)
    refine ⟨hkey, ?_, ?_, hgrows⟩
    · rw [param, hlookup]
      exact hown
    · rw [outgoingParamsFor, hcap] at hbuilt
      dsimp only at hbuilt
      rw [hreserves] at hbuilt
      rw [← Option.some.inj hbuilt, t.keepsBudget _ _ _ _ hkey]
      exact Assoc.lookup_insert_self _ _ _

/-! ## 4. Calls built before -/

/-- The same parameters but for the objects that an adapter writes into. -/
def SameRest (params params' : Params) : Prop :=
  ∀ key, key ≠ "thinking" → key ≠ "thinking_config" →
    Assoc.lookup key params = Assoc.lookup key params'

namespace SameRest

theorem refl (params : Params) : SameRest params params := fun _ _ _ => rfl

theorem trans {params params' params'' : Params} (h : SameRest params params')
    (h' : SameRest params' params'') : SameRest params params'' :=
  fun key hthinking hconfig => (h key hthinking hconfig).trans (h' key hthinking hconfig)

theorem filter {params params' : Params} (h : SameRest params params') (keep : String → Bool) :
    SameRest (params.filter fun entry => keep entry.1)
      (params'.filter fun entry => keep entry.1) := by
  intro key hthinking hconfig
  rw [lookup_filter, lookup_filter, h key hthinking hconfig]

theorem erase {params params' : Params} (h : SameRest params params') (other : String) :
    SameRest (Assoc.erase other params) (Assoc.erase other params') := by
  intro key hthinking hconfig
  rw [Assoc.lookup_erase, Assoc.lookup_erase, h key hthinking hconfig]

theorem param_eq {params params' : Params} (h : SameRest params params') {key : String}
    (hthinking : key ≠ "thinking") (hconfig : key ≠ "thinking_config") :
    param params key = param params' key := by
  rw [param, param, h key hthinking hconfig]

theorem stripped_param_eq {params params' : Params} (h : SameRest params params') (t : Target)
    {key : String} (hthinking : key ≠ "thinking") (hconfig : key ≠ "thinking_config")
    (htools : key ≠ "tools") : param (stripped t params) key = param (stripped t params') key := by
  have hmarked : ∀ {outgoing outgoing' : Params}, SameRest outgoing outgoing' →
      Assoc.lookup key (if t.adapter.promptCacheNeedsMarker then outgoing
        else (Assoc.erase cacheMarkerKey outgoing).map fun entry =>
          if entry.1 = "tools" then (entry.1, toolsWithoutCacheMarkers entry.2) else entry) =
      Assoc.lookup key (if t.adapter.promptCacheNeedsMarker then outgoing'
        else (Assoc.erase cacheMarkerKey outgoing').map fun entry =>
          if entry.1 = "tools" then (entry.1, toolsWithoutCacheMarkers entry.2) else entry) := by
    intro outgoing outgoing' hout
    split
    · exact hout key hthinking hconfig
    · rw [lookup_map_tools htools, lookup_map_tools htools]
      exact hout.erase cacheMarkerKey key hthinking hconfig
  have htier : ∀ {outgoing outgoing' : Params}, SameRest outgoing outgoing' →
      SameRest (if t.adapter.supportsServiceTier then outgoing
        else Assoc.erase "service_tier" outgoing)
      (if t.adapter.supportsServiceTier then outgoing'
        else Assoc.erase "service_tier" outgoing') := by
    intro outgoing outgoing' hout
    split
    · exact hout
    · exact hout.erase "service_tier"
  have hoff : ∀ {outgoing outgoing' : Params}, SameRest outgoing outgoing' →
      SameRest (if param outgoing "reasoning_effort" = .str reasoningOff then
          Assoc.erase "reasoning_effort" outgoing else outgoing)
        (if param outgoing' "reasoning_effort" = .str reasoningOff then
          Assoc.erase "reasoning_effort" outgoing' else outgoing') := by
    intro outgoing outgoing' hout
    have heffort : param outgoing "reasoning_effort" = param outgoing' "reasoning_effort" :=
      hout.param_eq (by decide) (by decide)
    rw [heffort]
    split
    · exact hout.erase "reasoning_effort"
    · exact hout
  have hreasons : SameRest
      (if t.adapter.supportsReasoning t.model t.effCfg then
          params.filter fun entry => isOutgoing entry.1
        else (params.filter fun entry => isOutgoing entry.1).filter fun entry =>
          decide (entry.1 ∉ reasoningParamKeys))
      (if t.adapter.supportsReasoning t.model t.effCfg then
          params'.filter fun entry => isOutgoing entry.1
        else (params'.filter fun entry => isOutgoing entry.1).filter fun entry =>
          decide (entry.1 ∉ reasoningParamKeys)) := by
    split
    · exact h.filter isOutgoing
    · exact (h.filter isOutgoing).filter fun k => decide (k ∉ reasoningParamKeys)
  rw [param, param, stripped, stripped]
  exact congrArg (fun value => value.getD Json.null) (hmarked
    ((htier (hoff hreasons)).filter fun k => decide (k ∉ t.adapter.unsupportedParams)))

end SameRest

/-- What is built for a call leaves the rest of the request's parameters as it was. -/
theorem sameRest_built (t : Target) (params : Params) :
    SameRest (outgoingParamsFor t params).params params := by
  have hcase : ∀ c, t.adapter.capReasoningParams ⟨stripped t params, params⟩ = some c →
      SameRest c.params params := by
    intro c hc
    rcases cap_cases t params with ⟨hsame, -⟩ | ⟨key, field, fields, budget, c', hwrites, hc', heq⟩
    · rw [hsame c hc]
      exact SameRest.refl params
    · cases hc.symm.trans hc'
      intro other hthinking hconfig
      have hne : key ≠ other := by
        cases hwrites with
        | anthropic => exact fun heq => hthinking heq.symm
        | gemini => exact fun heq => hconfig heq.symm
      rw [heq, Assoc.lookup_insert_of_ne hne.symm]
  rw [outgoingParamsFor]
  cases hcap : t.adapter.capReasoningParams ⟨stripped t params, params⟩ with
  | none => exact SameRest.refl params
  | some c => exact hcase c hcap

theorem reserveOpenai_congr {params params' : Params}
    (h : ∀ key ∈ "reasoning_effort" :: outputBudgetKeys, param params key = param params' key)
    (reasons : Bool) (model : String) (config requestedEffort : Json) :
    reserveOpenai py reasons params model config requestedEffort =
      reserveOpenai py reasons params' model config requestedEffort := by
  have hkeys : ∀ key ∈ outputBudgetKeys, param params key = param params' key :=
    fun key hkey => h key (List.mem_cons_of_mem _ hkey)
  have hfind : (outputBudgetKeys.find? fun key => decide (param params key ≠ .null)) =
      outputBudgetKeys.find? fun key => decide (param params' key ≠ .null) := by
    have hfirst := hkeys "max_completion_tokens" (by decide)
    have hsecond := hkeys "max_tokens" (by decide)
    rw [outputBudgetKeys, List.find?_cons, List.find?_cons, List.find?_cons, List.find?_cons,
      hfirst, hsecond]
    rfl
  unfold reserveOpenai
  split
  · rfl
  · apply Option.bind_congr
    intro hcfg _
    split
    · rfl
    · change Option.bind _ _ = Option.bind _ _
      rw [hfind]
      apply Option.bind_congr
      intro key hkey
      rw [hkeys key (List.mem_of_find?_eq_some hkey), h _ List.mem_cons_self]

/-- **The calls built for a request do not change what is reserved for another.** -/
theorem reserved_congr (t : Candidate py) {params params' : Params} (h : SameRest params params') :
    t.reserved params = t.reserved params' := by
  cases hkind : t.headroom with
  | base =>
    rw [Candidate.reserved, Candidate.reserved, hkind]
    cases t.target.adapter.capReasoningParams ⟨stripped t.target params, params⟩ <;>
      cases t.target.adapter.capReasoningParams ⟨stripped t.target params', params'⟩ <;> rfl
  | openai =>
    have heffort : param (params.filter fun entry => isOutgoing entry.1) "reasoning_effort" =
        param (params'.filter fun entry => isOutgoing entry.1) "reasoning_effort" :=
      (h.filter isOutgoing).param_eq (by decide) (by decide)
    rw [Candidate.reserved, Candidate.reserved, heffort, hkind, Adapter.capReasoningParams,
      Adapter.capReasoningParams, t.uncapped hkind]
    apply reserveOpenai_congr
    intro key hkey
    rcases List.mem_cons.mp hkey with rfl | hkey
    · exact h.stripped_param_eq t.target (by decide) (by decide) (by decide)
    · apply h.stripped_param_eq t.target _ _ (tools_not_budget hkey)
      · rintro rfl
        exact absurd hkey (by decide)
      · rintro rfl
        exact absurd hkey (by decide)

end

end TokenProxy.Providers
