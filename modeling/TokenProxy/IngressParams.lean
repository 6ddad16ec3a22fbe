/-
  TokenProxy/IngressParams.lean
  =============================
  **The parameters that a request reaches the pipeline with** (`protocols/base.py`,
  `parse_request` of the three protocols, `_serve_core` of `main.py`).

  Parameters come from the body, by a list of admitted names for OpenAI and field by field for
  Anthropic and Gemini, and from the headers; then `_serve_core` stamps the proxy's own, whose
  names start with an underscore.  A request that is refused has no parameters: `none`.

  Main result: `internal_eq`, what every parameter of such a name is: a value of the
  authentication step, or one of two booleans, whether the request named a model and whether
  it carried cache markers.
-/
import TokenProxy.IngressFanOut

namespace TokenProxy.Ingress

open Protocols (getField orEmpty itemsOf)
open Anthropic (cacheMarker)
open History (Msg)

/-! ## 1. Names -/

abbrev Params := Dict String Json

def openaiChatParams : List String :=
  ["audio", "frequency_penalty", "function_call", "functions", "logit_bias", "logprobs",
    "max_completion_tokens", "max_tokens", "modalities", "n", "parallel_tool_calls",
    "prediction", "presence_penalty", "prompt_cache_key", "prompt_cache_retention",
    "reasoning_effort", "response_format", "safety_identifier", "seed", "service_tier",
    "stop", "store", "stream", "stream_options", "temperature", "tool_choice", "tools",
    "top_logprobs", "top_p", "user", "verbosity", "web_search_options",
    "thinking", "thinking_config", "top_k"]

def tokenleanClientParams : List String :=
  ["batch_topic", "complexity", "complexity_tier", "dataset_id", "json_schema",
    "rag_collection", "rag_query", "session_id", "template_id", "token_opt_state",
    "user_id", "workflow_id"]

def requestHeaderParams : List String :=
  ["x_complexity", "x_complexity_tier", "x_compress_user", "x_confidence_score", "x_dataset",
    "x_echo_prompt", "x_feature", "x_jit_retrieval", "x_json_output", "x_no_cache",
    "x_prefix_profile", "x_rag_collection", "x_rag_top_k", "x_route_to", "x_session_id",
    "x_step_inputs_hash", "x_step_name", "x_team", "x_template_id", "x_template_version",
    "x_workflow_id"]

def nonParamHeaders : List String := ["x-user-id", "x-scenario-tag", "x-api-key", "x-goog-api-key"]

/-- `key.startswith(INTERNAL_PARAM_PREFIX)` -/
def isInternal (key : String) : Bool := ['_'].isPrefixOf key.toList

def isClientParam (key : String) : Bool := ['x', '_'].isPrefixOf key.toList

def callerCacheMarkers : String := "_caller_cache_markers"

/-! ## 2. Bodies and headers -/

/-- `_ingress_extra_allowed_params` -/
def ingressExtraAllowedParams (cfg : Json) : List String :=
  match (cfg.getD "ingress" .null).getD "extra_allowed_params" .null with
  | .arr names => (names.filterMap Json.str?).filter (· ≠ "")
  | _ => []

def admits (extraAllowed : List String) (key : String) : Bool :=
  !isInternal key &&
    (decide (key ∈ openaiChatParams ++ tokenleanClientParams ++ extraAllowed) || isClientParam key)

/-- `filter_client_params`: what is kept, and the names that are dropped. -/
def filterClientParams (body : List (String × Json)) (extraAllowed : List String) :
    Params × List String :=
  let fields := body.filter fun f => f.1 ≠ "messages" && f.1 ≠ "model"
  ((fields.filter fun f => admits extraAllowed f.1).foldl (fun d f => d.set f.1 f.2) ∅,
    (fields.filter fun f => !admits extraAllowed f.1).map Prod.fst)

def anyMarked (items : Json) : Bool :=
  match items with
  | .arr items => items.any fun item => (cacheMarker item).isSome
  | _ => false

/-- `_any_marked(items, nested=True)` -/
def anyMarkedNested (items : Json) : Bool :=
  match items with
  | .arr items => items.any fun item =>
      (cacheMarker item).isSome || anyMarked (item.getD "content" .null)
  | _ => false

def carriesCacheMarkers (body : Json) : Bool :=
  (cacheMarker body).isSome || anyMarked (body.getD "system" .null) ||
    anyMarked (body.getD "tools" .null) ||
    match body.getD "messages" .null with
    | .arr messages => anyMarked (.arr messages) ||
        messages.any fun m => m.isObj && anyMarkedNested (m.getD "content" .null)
    | _ => false

/-- What else the interpreter brings: `str.lower` and `str.upper`. -/
structure Speller extends Interpreter where
  lower : String → String
  upper : String → String

/-- `routing_header_params` -/
def routingHeaderParams (py : Speller) (headers : List (String × String)) : Params :=
  headers.foldl (fun d h =>
    let lower := py.lower h.1
    if ['x', '-'].isPrefixOf lower.toList && decide (lower ∉ nonParamHeaders) then
      d.set (.ofList (lower.toList.map fun c => if c = '-' then '_' else c)) (.str h.2)
    else d) ∅

def headerParams (py : Speller) (headers : List (String × String)) : Params :=
  (routingHeaderParams py headers).filter fun key _ => decide (key ∈ requestHeaderParams)

/-- What `parse_request` returns. -/
structure Parsed where
  messages : List Json
  model : Json
  params : Params

def Parsed.markCaller (p : Parsed) (body : Json) : Parsed :=
  if carriesCacheMarkers body then
    { p with params := p.params.set callerCacheMarkers (.bool true) }
  else p

/-- `if value: params[key] = value`, and `if value is not None: …` -/
def setTruthy (key : String) (value : Json) (params : Params) : Params :=
  if value.truthy then params.set key value else params

def setGiven (key : String) (value : Json) (params : Params) : Params :=
  if value ≠ .null then params.set key value else params

/-- `if key in d: params[key] = d[key]` -/
def setPresent (key : String) (value : Option Json) (params : Params) : Params :=
  match value with
  | some value => params.set key value
  | none => params

/-! ## 3. OpenAI -/

namespace Openai

def validRoles : List String := ["system", "user", "assistant", "tool", "function", "developer"]

def hasRole (m : Json) : Bool :=
  match m.getD "role" .null with
  | .str role => decide (role ∈ validRoles)
  | _ => false

/-- `_validate_openai_request` -/
def validateOpenaiRequest (messages : Json) : Option (List Json) :=
  match messages with
  | .arr items => if items ≠ [] && items.all hasRole then some items else none
  | _ => none

def parseRequest (extraAllowed : List String) (body : Json) : Option Parsed := do
  let fields ← body.fields?
  let messages ← validateOpenaiRequest (body.getD "messages" (.arr []))
  let model := (body.getD "model" .null).orElse (.str "")
  some (Parsed.markCaller ⟨messages, model, (filterClientParams fields extraAllowed).1⟩ body)

end Openai

/-! ## 4. Anthropic -/

namespace Anthropic

/-- `_tool_to_openai` -/
def toolToOpenai (tool : Json) : Json :=
  withMarker (.obj [("type", .str "function"), ("function", .obj
    [("name", tool.getD "name" (.str "")), ("description", tool.getD "description" (.str "")),
      ("parameters", orEmpty (tool.getD "input_schema" (.obj [])))])]) (cacheMarker tool)

/-- `_map_tool_choice` -/
def mapToolChoice (tc : Json) : Option Json :=
  if tc.isObj = false then none
  else
    let kind := tc.getD "type" .null
    if kind = .str "auto" then some (.str "auto")
    else if kind = .str "any" then some (.str "required")
    else if kind = .str "none" then some (.str "none")
    else if kind = .str "tool" && (tc.getD "name" .null).truthy then
      some (.obj [("type", .str "function"), ("function", .obj [("name", tc.getD "name" .null)])])
    else none

def copied : List String := ["temperature", "top_p", "top_k", "stream", "metadata"]

def setTools (tools : Json) (params : Params) : Option Params :=
  if tools.truthy then
    (itemsOf tools).map fun items =>
      params.set "tools" (.arr ((items.filter Json.isObj).map toolToOpenai))
  else some params

def setToolChoice (choice : Json) (params : Params) : Option Params :=
  if choice.truthy then
    (mapToolChoice choice).map fun mapped =>
      let params := params.set "tool_choice" mapped
      if choice.getD "disable_parallel_tool_use" .null = .bool true then
        params.set "parallel_tool_calls" (.bool false)
      else params
  else some params

def params (body : Json) : Option Params := do
  let params := setGiven "max_tokens" (body.getD "max_tokens" .null) ∅
  let params := copied.foldl (fun d key => setPresent key (body.get? key) d) params
  let params := setTruthy "stop" (body.getD "stop_sequences" .null) params
  let params ← setTools (body.getD "tools" .null) params
  let params ← setToolChoice (body.getD "tool_choice" .null) params
  some (setPresent "cache_control" (cacheMarker body) params)

def parseRequest (py : Interpreter) (pathModel : String) (body : Json) : Option Parsed := do
  let messages ← messages py body
  let model := ((body.getD "model" .null).orElse (.str pathModel)).orElse (.str "")
  let params ← params body
  some (Parsed.markCaller ⟨messages.map fun m => .obj m.fields, model, params⟩ body)

end Anthropic

/-! ## 5. Gemini -/

namespace Gemini

/-- `_GEN_DIRECT`: the JSON name, the proto name and the param. -/
def genDirect : List (String × String × String) :=
  [("topK", "top_k", "top_k"), ("candidateCount", "candidate_count", "n"),
    ("seed", "seed", "seed"), ("presencePenalty", "presence_penalty", "presence_penalty"),
    ("frequencyPenalty", "frequency_penalty", "frequency_penalty")]

def genCarried : List String :=
  ["maxOutputTokens", "max_output_tokens", "temperature", "topP", "top_p", "stopSequences",
    "stop_sequences", "responseMimeType", "response_mime_type", "responseSchema",
    "response_schema", "responseJsonSchema", "response_json_schema", "thinkingConfig",
    "thinking_config"] ++ genDirect.flatMap fun d => [d.1, d.2.1]

/-- `_field` -/
def field (d : Json) (jsonName protoName : String) : Json :=
  (d.get? jsonName).getD (d.getD protoName .null)

mutual

/-- `_json_schema` -/
def jsonSchema (py : Speller) : Json → Json
  | .obj fields => .obj (jsonSchemaFields py fields)
  | .arr items => .arr (jsonSchemaItems py items)
  | other => other

def jsonSchemaFields (py : Speller) : List (String × Json) → List (String × Json)
  | [] => []
  | (key, .str kind) :: rest =>
    (key, .str (if key = "type" then py.lower kind else kind)) :: jsonSchemaFields py rest
  | (key, value) :: rest => (key, jsonSchema py value) :: jsonSchemaFields py rest

def jsonSchemaItems (py : Speller) : List Json → List Json
  | [] => []
  | item :: rest => jsonSchema py item :: jsonSchemaItems py rest

end

/-- `_response_format`; the outer `none` is a refusal. -/
def responseFormat (py : Speller) (gen : Json) : Option (Option Json) :=
  let mime := field gen "responseMimeType" "response_mime_type"
  let raw := field gen "responseJsonSchema" "response_json_schema"
  let schema :=
    if raw ≠ .null then raw else jsonSchema py (field gen "responseSchema" "response_schema")
  if (mime = .null || mime = .str "text/plain") && schema = .null then some none
  else if mime ≠ .str "application/json" then none
  else if schema = .null then some (some (.obj [("type", .str "json_object")]))
  else some (some (.obj [("type", .str "json_schema"),
    ("json_schema", .obj [("name", .str "response"), ("schema", schema)])]))

def thinkingFields : List String :=
  ["thinkingBudget", "thinking_budget", "includeThoughts", "include_thoughts"]

/-- `_thinking_config` -/
def thinkingConfig (cfg : Json) : Option Json := do
  let fields ← cfg.fields?
  if fields.all fun f => f.1 ∈ thinkingFields then
    let out := setGiven "thinking_budget" (field cfg "thinkingBudget" "thinking_budget") ∅
    let out := setGiven "include_thoughts" (field cfg "includeThoughts" "include_thoughts") out
    some (.obj out.entries)
  else none

/-- The declarations that one tool holds, for `_gemini_tools_to_openai`. -/
def declarations (t : Json) : Option (List Json) :=
  if t.isObj = false then some []
  else do
    let fds ← itemsOf ((t.getD "functionDeclarations" .null).orElse
      (t.getD "function_declarations" .null))
    some ((fds.filter Json.isObj).map fun fd => .obj [("type", .str "function"),
      ("function", .obj [("name", fd.getD "name" (.str "")),
        ("description", fd.getD "description" (.str "")),
        ("parameters", orEmpty (fd.getD "parameters" (.obj [])))])])

def geminiToolsToOpenai (tools : Json) : Option (List Json) := do
  let items ← itemsOf tools
  (items.mapM declarations).map List.flatten

def toolName (t : Json) : Json := (t.getD "function" .null).getD "name" .null

def toolChoiceOf (mode : String) : Json :=
  if mode = "AUTO" then .str "auto" else if mode = "ANY" then .str "required" else .str "none"

/-- The tools that `allowedFunctionNames` leaves. -/
def allowedTools (allowed : Json) (tools : List Json) : Option (List Json) := do
  let declared ← tools.mapM fun t => (toolName t).dictKey?
  let names ← allowed.items?
  let keys ← names.mapM Json.dictKey?
  if keys.all (· ∈ declared) then some (tools.filter fun t => names.any (toolName t).pyEq) else none

/-- `_apply_tool_config`; `tools` are the params' own. -/
def applyToolConfig (py : Speller) (toolConfig : Json) (tools : List Json) (params : Params) :
    Option Params :=
  let fcc := field toolConfig "functionCallingConfig" "function_calling_config"
  if fcc.isObj = false then some params
  else
    let mode := py.upper (py.str ((fcc.getD "mode" .null).orElse (.str "AUTO")))
    let allowed := field fcc "allowedFunctionNames" "allowed_function_names"
    if mode ∉ ["AUTO", "ANY", "NONE"] || (allowed.truthy && mode ≠ "ANY") then none
    else if mode = "ANY" && tools.isEmpty then none
    else if tools.isEmpty then some params
    else if allowed.truthy then do
      let kept ← allowedTools allowed tools
      let params := params.set "tools" (.arr kept)
      match kept with
      | [t] => some (params.set "tool_choice"
          (.obj [("type", .str "function"), ("function", .obj [("name", toolName t)])]))
      | _ => some (params.set "tool_choice" (toolChoiceOf mode))
    else some (params.set "tool_choice" (toolChoiceOf mode))

def setField (gen : Json) (d : Params) (entry : String × String × String) : Params :=
  setGiven entry.2.2 (field gen entry.1 entry.2.1) d

def setThinking (thinking : Json) (params : Params) : Option Params :=
  if thinking = .null then some params
  else (thinkingConfig thinking).map fun value => params.set "thinking_config" value

/-- The params of a `generationConfig` that has only carried fields. -/
def carriedParams (py : Speller) (gen : Json) : Option Params := do
  let camel := gen.getD "maxOutputTokens" .null
  let params := setGiven "max_tokens"
    (if camel ≠ .null then camel else gen.getD "max_output_tokens" .null) ∅
  let params := setPresent "temperature" (gen.get? "temperature") params
  let params := setGiven "top_p" (field gen "topP" "top_p") params
  let params := setTruthy "stop" (field gen "stopSequences" "stop_sequences") params
  let params := genDirect.foldl (setField gen) params
  let format ← responseFormat py gen
  let params := setPresent "response_format" format params
  setThinking (field gen "thinkingConfig" "thinking_config") params

def generationParams (py : Speller) (gen : Json) : Option Params :=
  match gen.fields? with
  | some fields =>
    if fields.any fun f => f.1 ∉ genCarried && f.2 ≠ .null then none else carriedParams py gen
  | none => some ∅

/-- The model, less the prefix that the path spells it with. -/
def modelOf (pathModel : String) (body : Json) : Option Json :=
  match ((Json.str pathModel).orElse (body.getD "model" .null)).orElse (.str "") with
  | .str model =>
    some (.str (if "models/".toList.isPrefixOf model.toList then .ofList (model.toList.drop 7)
      else model))
  | _ => none

def parseRequest (py : Speller) (pathModel : String) (body : Json) : Option Parsed := do
  let messages ← messages py.toInterpreter body
  let model ← modelOf pathModel body
  let gen := ((body.getD "generationConfig" .null).orElse
    (body.getD "generation_config" .null)).orElse (.obj [])
  let params ← generationParams py gen
  let fns ← geminiToolsToOpenai (body.getD "tools" .null)
  let params := if fns.isEmpty then params else params.set "tools" (.arr fns)
  let params ← applyToolConfig py ((body.getD "toolConfig" .null).orElse
    (body.getD "tool_config" .null)) fns params
  some ⟨messages.map fun m => .obj m.fields, model, params⟩

end Gemini

/-! ## 6. The request core -/

/-- What `_authenticate` leaves: the user, the key, the key's record (null for a legacy key) and
    the principal that it noted on the request. -/
structure Auth where
  userId : Json
  apiKey : String
  metadata : Json
  keyPrincipal : Json

/-- A request of one of the three protocols, with the model and the mode of its route. -/
inductive Request where
  | openai (body : Json)
  | anthropic (body : Json)
  | gemini (pathModel : String) (forceStream : Bool) (body : Json)

def Request.body : Request → Json
  | .openai body => body
  | .anthropic body => body
  | .gemini _ _ body => body

def parse (py : Speller) (cfg : Json) : Request → Option Parsed
  | .openai body => Openai.parseRequest (ingressExtraAllowedParams cfg) body
  | .anthropic body => Anthropic.parseRequest py.toInterpreter "" body
  | .gemini pathModel forceStream body =>
    (Gemini.parseRequest py pathModel body).map fun p =>
      if forceStream then { p with params := p.params.set "stream" (.bool true) } else p

/-- The text that RAG searches for: the last user message that is a text. -/
def lastUserText (messages : List Json) : Option Json :=
  (messages.reverse.find? fun m =>
    m.getD "role" .null = .str "user" && ((m.getD "content" .null).str?).isSome).map
      fun m => m.getD "content" (.str "")

def setRagQuery (messages : List Json) (params : Params) : Params :=
  if (params.get? "x_rag_collection").isSome && (params.get? "rag_query").isNone then
    match lastUserText messages with
    | some text => params.set "rag_query" text
    | none => params
  else params

/-- `tenant_metadata if isinstance(tenant_metadata, dict) else {}` -/
def Auth.record (auth : Auth) : Json := if auth.metadata.isObj then auth.metadata else .obj []

def isGatewayKey (metadata : Json) : Bool :=
  decide (metadata.get? "gateway" = some (.bool true))

def Auth.principal (py : Speller) (auth : Auth) : Json :=
  .str (py.str (((auth.keyPrincipal.orElse (auth.record.getD "tenant_id" .null)).orElse
    auth.userId).orElse (.str "")))

variable (sha256Hex : String → String)

/-- What `_serve_core` stamps after the client's parameters, in its order. -/
def stamps (py : Speller) (auth : Auth) : List (String × Json) :=
  [("_api_key_hash", .str (sha256Hex auth.apiKey)),
    ("_auth_tenant_id", auth.record.getD "tenant_id" .null),
    ("_auth_tier", auth.record.getD "tier" (.str "free")),
    ("_auth_admin", .bool (auth.record.getD "admin" (.bool false)).truthy),
    ("_auth_gateway", .bool (isGatewayKey auth.metadata)),
    ("_auth_principal", auth.principal py)]

/-- The parameters of `_serve_core`, as the pipeline gets them. -/
def coreParams (py : Speller) (auth : Auth) (headers : List (String × String)) (p : Parsed) :
    Params :=
  let params := p.params.set "_model_defaulted" (.bool !p.model.truthy)
  let params := params.update (headerParams py headers)
  let params := setRagQuery p.messages params
  (stamps sha256Hex py auth).foldl (fun d stamp => d.set stamp.1 stamp.2) params

def serveParams (py : Speller) (cfg : Json) (auth : Auth) (headers : List (String × String))
    (r : Request) : Option Params :=
  (parse py cfg r).map (coreParams sha256Hex py auth headers)

/-! ## 7. No protocol lets a name with an underscore in -/

variable {sha256Hex : String → String}

def Clean (params : Params) : Prop := ∀ key, isInternal key = true → params.get? key = none

theorem clean_empty : Clean ∅ := by
  intro key _
  exact Dict.get?_empty key

theorem Clean.set {params : Params} (h : Clean params) {key : String}
    (hkey : isInternal key = false) (value : Json) : Clean (params.set key value) := by
  intro other hother
  have hne : other ≠ key := by
    intro heq
    rw [heq, hkey] at hother
    cases hother
  rw [Dict.get?_set_of_ne _ hne]
  exact h other hother

theorem Clean.foldl {α : Type} {f : Params → α → Params} {xs : List α} {params : Params}
    (h : Clean params) (hf : ∀ x ∈ xs, ∀ d, Clean d → Clean (f d x)) :
    Clean (xs.foldl f params) := by
  induction xs generalizing params with
  | nil => exact h
  | cons x xs ih =>
    rw [List.foldl_cons]
    apply ih
    · exact hf x List.mem_cons_self params h
    · intro y hy
      exact hf y (List.mem_cons_of_mem x hy)

theorem Clean.setTruthy {params : Params} (h : Clean params) {key : String}
    (hkey : isInternal key = false) (value : Json) : Clean (setTruthy key value params) := by
  rw [Ingress.setTruthy]
  split
  · exact h.set hkey value
  · exact h

theorem Clean.setGiven {params : Params} (h : Clean params) {key : String}
    (hkey : isInternal key = false) (value : Json) : Clean (setGiven key value params) := by
  rw [Ingress.setGiven]
  split
  · exact h.set hkey value
  · exact h

theorem Clean.setPresent {params : Params} (h : Clean params) {key : String}
    (hkey : isInternal key = false) (value : Option Json) :
    Clean (setPresent key value params) := by
  cases value with
  | none => exact h
  | some value => exact h.set hkey value

/-- The filter drops every such name, an operator's extra names included. -/
theorem clean_filterClientParams (body : List (String × Json)) (extraAllowed : List String) :
    Clean (filterClientParams body extraAllowed).1 := by
  apply clean_empty.foldl
  intro f hf d hd
  have hadmitted := (List.mem_filter.mp hf).2
  rw [admits, Bool.and_eq_true, Bool.not_eq_true'] at hadmitted
  exact hd.set hadmitted.1 f.2

theorem Clean.setTools {tools : Json} {params params' : Params} (h : Clean params)
    (htools : Anthropic.setTools tools params = some params') : Clean params' := by
  rw [Anthropic.setTools] at htools
  split at htools
  · obtain ⟨items, -, rfl⟩ := Option.map_eq_some_iff.mp htools
    exact h.set rfl _
  · cases htools
    exact h

theorem Clean.setToolChoice {choice : Json} {params params' : Params} (h : Clean params)
    (hchoice : Anthropic.setToolChoice choice params = some params') : Clean params' := by
  rw [Anthropic.setToolChoice] at hchoice
  split at hchoice
  · obtain ⟨mapped, -, rfl⟩ := Option.map_eq_some_iff.mp hchoice
    simp only
    split
    · exact (h.set rfl _).set rfl _
    · exact h.set rfl _
  · cases hchoice
    exact h

theorem clean_anthropic {body : Json} {params : Params} (h : Anthropic.params body = some params) :
    Clean params := by
  simp only [Anthropic.params, Option.bind_eq_bind, Option.bind_eq_some_iff,
    Option.some.injEq] at h
  obtain ⟨withTools, htools, withChoice, hchoice, rfl⟩ := h
  refine Clean.setPresent (Clean.setToolChoice (Clean.setTools ?_ htools) hchoice) rfl _
  refine Clean.setTruthy (Clean.foldl (clean_empty.setGiven rfl _) ?_) rfl _
  intro key hkey d hd
  have hall : Anthropic.copied.all (fun key => !isInternal key) = true := by decide
  have hplain : isInternal key = false := by
    simpa using List.all_eq_true.mp hall key hkey
  exact hd.setPresent hplain _

theorem Clean.setThinking {thinking : Json} {params params' : Params} (h : Clean params)
    (hthinking : Gemini.setThinking thinking params = some params') : Clean params' := by
  rw [Gemini.setThinking] at hthinking
  split at hthinking
  · cases hthinking
    exact h
  · obtain ⟨value, -, rfl⟩ := Option.map_eq_some_iff.mp hthinking
    exact h.set rfl _

theorem clean_generation {py : Speller} {gen : Json} {params : Params}
    (h : Gemini.generationParams py gen = some params) : Clean params := by
  rw [Gemini.generationParams] at h
  split at h
  · split at h
    · cases h
    · simp only [Gemini.carriedParams, Option.bind_eq_bind, Option.bind_eq_some_iff] at h
      obtain ⟨format, -, hthinking⟩ := h
      refine Clean.setThinking (Clean.setPresent (Clean.foldl ?_ ?_) rfl format) hthinking
      · exact Clean.setTruthy (Clean.setGiven (Clean.setPresent (clean_empty.setGiven rfl _)
          rfl _) rfl _) rfl _
      · intro entry hentry d hd
        have hall : Gemini.genDirect.all (fun entry => !isInternal entry.2.2) = true := by decide
        have hplain : isInternal entry.2.2 = false := by
          simpa using List.all_eq_true.mp hall entry hentry
        exact hd.setGiven hplain _
  · cases h
    exact clean_empty

theorem clean_toolConfig {py : Speller} {toolConfig : Json} {tools : List Json}
    {params params' : Params} (h : Clean params)
    (happly : Gemini.applyToolConfig py toolConfig tools params = some params') :
    Clean params' := by
  simp only [Gemini.applyToolConfig] at happly
  split at happly
  · cases happly
    exact h
  · split at happly
    · cases happly
    · split at happly
      · cases happly
      · split at happly
        · cases happly
          exact h
        · split at happly
          · simp only [Option.bind_eq_bind, Option.bind_eq_some_iff] at happly
            obtain ⟨kept, -, hkept⟩ := happly
            split at hkept
            · cases hkept
              exact (h.set rfl _).set rfl _
            · cases hkept
              exact (h.set rfl _).set rfl _
          · cases happly
            exact h.set rfl _

/-! ## 8. What the pipeline sees -/

/-- The ingress says that the body carried cache markers; Gemini's has none to carry. -/
def Request.marked : Request → Bool
  | .openai body => carriesCacheMarkers body
  | .anthropic body => carriesCacheMarkers body
  | .gemini _ _ _ => false

theorem get?_markCaller {p : Parsed} (h : Clean p.params) (body : Json) {key : String}
    (hkey : isInternal key = true) :
    (p.markCaller body).params.get? key =
      if carriesCacheMarkers body = true ∧ key = callerCacheMarkers then some (.bool true)
      else none := by
  rw [Parsed.markCaller]
  by_cases hmarked : carriesCacheMarkers body = true
  · simp only [hmarked, if_true, true_and]
    rw [Dict.get?_set]
    split
    · rfl
    · exact h key hkey
  · simp only [hmarked, Bool.false_eq_true, if_false, false_and]
    exact h key hkey

/-- **After parsing**, the marker is the only parameter whose name has an underscore. -/
theorem get?_parse {py : Speller} {cfg : Json} {r : Request} {p : Parsed}
    (h : parse py cfg r = some p) {key : String} (hkey : isInternal key = true) :
    p.params.get? key =
      if r.marked = true ∧ key = callerCacheMarkers then some (.bool true) else none := by
  cases r with
  | openai body =>
    simp only [parse, Openai.parseRequest, Option.bind_eq_bind, Option.bind_eq_some_iff,
      Option.some.injEq] at h
    obtain ⟨fields, -, messages, -, rfl⟩ := h
    exact get?_markCaller (clean_filterClientParams fields _) body hkey
  | anthropic body =>
    simp only [parse, Anthropic.parseRequest, Option.bind_eq_bind, Option.bind_eq_some_iff,
      Option.some.injEq] at h
    obtain ⟨messages, -, params, hparams, rfl⟩ := h
    exact get?_markCaller (clean_anthropic hparams) body hkey
  | gemini pathModel forceStream body =>
    obtain ⟨parsed, hparsed, rfl⟩ := Option.map_eq_some_iff.mp h
    simp only [Gemini.parseRequest, Option.bind_eq_bind, Option.bind_eq_some_iff,
      Option.some.injEq] at hparsed
    obtain ⟨messages, -, model, -, generation, hgeneration, fns, -, params, hparams, rfl⟩ := hparsed
    have hfns : Clean (if fns.isEmpty then generation else generation.set "tools" (.arr fns)) := by
      split
      · exact clean_generation hgeneration
      · exact (clean_generation hgeneration).set rfl _
    have hclean := clean_toolConfig hfns hparams
    simp only [Request.marked, Bool.false_eq_true, false_and, if_false]
    cases forceStream with
    | true =>
      have hstream : isInternal "stream" = false := rfl
      exact hclean.set hstream _ key hkey
    | false => exact hclean key hkey

theorem clean_headerParams (py : Speller) (headers : List (String × String)) :
    Clean (headerParams py headers) := by
  intro key hkey
  have hall : requestHeaderParams.all (fun key => !isInternal key) = true := by decide
  have hnot : key ∉ requestHeaderParams := by
    intro hmem
    have hplain := List.all_eq_true.mp hall key hmem
    rw [hkey] at hplain
    cases hplain
  rw [headerParams, Dict.get?_filter, Option.filter_eq_none_iff]
  intro value _
  simpa using hnot

theorem get?_setRagQuery (messages : List Json) (params : Params) {key : String}
    (hkey : isInternal key = true) :
    (setRagQuery messages params).get? key = params.get? key := by
  have hne : key ≠ "rag_query" := by
    rintro rfl
    cases hkey
  rw [setRagQuery]
  split
  · split
    · exact Dict.get?_set_of_ne _ hne _
    · rfl
  · rfl

/-- What a parameter of the proxy's own is, from the authentication step and two booleans. -/
def internalValue (sha256Hex : String → String) (py : Speller) (auth : Auth)
    (modelDefaulted marked : Bool) (key : String) : Option Json :=
  (Assoc.lookup key (stamps sha256Hex py auth)).or
    (if key = "_model_defaulted" then some (.bool modelDefaulted)
      else if marked = true ∧ key = callerCacheMarkers then some (.bool true) else none)

def isAuthParam (key : String) : Bool := "_auth_".toList.isPrefixOf key.toList

/-- **Clients set no parameter of the proxy's own.**  Whatever the body, the headers and the
    operator's extra names are, a parameter whose name starts with an underscore is what the
    authentication step gives it, or says whether a model was named or cache markers were
    carried; and one whose name starts with `_auth_` comes from the authentication step. -/
theorem internal_eq (sha256Hex : String → String) (py : Speller) (cfg : Json) (auth : Auth)
    (headers : List (String × String)) (r : Request) (params : Params)
    (h : serveParams sha256Hex py cfg auth headers r = some params) :
    ∃ p, parse py cfg r = some p ∧
      (∀ key, isInternal key = true →
        params.get? key = internalValue sha256Hex py auth (!p.model.truthy) r.marked key) ∧
      ∀ key, isAuthParam key = true →
        params.get? key = Assoc.lookup key (stamps sha256Hex py auth) := by
  obtain ⟨p, hparse, rfl⟩ := Option.map_eq_some_iff.mp h
  have hstamps : ((stamps sha256Hex py auth).map Prod.fst).Nodup := by
    have hnames : (stamps sha256Hex py auth).map Prod.fst =
        ["_api_key_hash", "_auth_tenant_id", "_auth_tier", "_auth_admin", "_auth_gateway",
          "_auth_principal"] := rfl
    rw [hnames]
    decide
  have hvalue : ∀ key, isInternal key = true →
      (coreParams sha256Hex py auth headers p).get? key =
        internalValue sha256Hex py auth (!p.model.truthy) r.marked key := by
    intro key hkey
    rw [coreParams, Dict.get?_foldl_set _ hstamps, get?_setRagQuery _ _ hkey, Dict.get?_update,
      clean_headerParams py headers key hkey, Option.none_or, Dict.get?_set,
      get?_parse hparse hkey, internalValue]
  refine ⟨p, hparse, hvalue, ?_⟩
  intro key hauth
  have hkey : isInternal key = true := by
    obtain ⟨rest, hrest⟩ := List.isPrefixOf_iff_prefix.mp hauth
    rw [isInternal, ← hrest]
    rfl
  rw [hvalue key hkey, internalValue]
  have hdefaulted : key ≠ "_model_defaulted" := by
    rintro rfl
    cases hauth
  have hmarkers : key ≠ callerCacheMarkers := by
    rintro rfl
    cases hauth
  rw [if_neg hdefaulted, if_neg (fun hboth => hmarkers hboth.2), Option.or_none]

/-! ## 9. A request that names the proxy's own parameters -/

def plainSpeller : Speller where
  toInterpreter := plainInterpreter
  lower text := text
  upper text := text

/-- A body that says it is an administrator's, admitted by the operator's list by mistake. -/
def impersonating : Request :=
  .openai (.obj [("model", .str "gpt-4o"), ("_auth_admin", .bool true),
    ("_auth_tenant_id", .str "globex"), ("temperature", .int 0),
    ("messages", .arr [.obj [("role", .str "user"), ("content", .str "hi")]])])

def lenientConfig : Json :=
  .obj [("ingress", .obj [("extra_allowed_params", .arr [.str "_auth_admin"])])]

def acmeKey : Auth where
  userId := .str "ann"
  apiKey := "tok-acme"
  metadata := .obj [("tenant_id", .str "acme")]
  keyPrincipal := .str "ann"

theorem internal_eq_impersonating :
    ∃ params, serveParams (fun _ => "hash") plainSpeller lenientConfig acmeKey
        [("x-team", "blue"), ("x-_auth_admin", "1")] impersonating = some params ∧
      params.get? "_auth_admin" = some (.bool false) ∧
      params.get? "_auth_tenant_id" = some (.str "acme") := by
  have hsome : (serveParams (fun _ => "hash") plainSpeller lenientConfig acmeKey
      [("x-team", "blue"), ("x-_auth_admin", "1")] impersonating).isSome = true := by decide +kernel
  obtain ⟨params, hparams⟩ := Option.isSome_iff_exists.mp hsome
  obtain ⟨p, -, -, hauth⟩ := internal_eq (fun _ => "hash") plainSpeller lenientConfig acmeKey
    [("x-team", "blue"), ("x-_auth_admin", "1")] impersonating params hparams
  exact ⟨params, hparams, hauth "_auth_admin" (by decide), hauth "_auth_tenant_id" (by decide)⟩

end TokenProxy.Ingress
