/-
  TokenProxy/TokenCounter.lean
  ============================
  **Counting the tokens of a request** (`savings/calculator.py`, with the validation
  of a chat completion and `RequestContext.create` around it).

  The counters walk the client's JSON before the pipeline's own error handling
  starts, so what they raise ends the request.  `tiktoken`, `json.dumps`, `str` and
  the recursion limit of the interpreter are in `Runtime`.

  `create_returns_iff` says of every body that the validation accepts when the
  context is built: the model is a string, every `tool_calls` can be iterated, every
  text that is counted can be counted (`Countable`), and so can the tools.
-/
import TokenProxy.Raising
import TokenProxy.ToolExchanges
import Mathlib.Data.List.Infix

namespace TokenProxy.TokenCounter

open Raising History

/-! ## 1. What the counters call -/

inductive PyError where
  | attributeError
  | typeError
  | valueError
  | recursionError
deriving DecidableEq, Repr

/-- A `tiktoken` encoding. -/
structure Encoder where
  specialTokens : List String
  length : String → Nat

/-- `sub in s`. -/
def contains (sub s : String) : Bool := decide (sub.toList <:+: s.toList)

/-- `len(enc.encode(text))`: a text that contains a special token is refused. -/
def Encoder.encode (enc : Encoder) : Json → Except PyError Int
  | .str s =>
    if enc.specialTokens.any fun special => contains special s then .error .valueError
    else .ok (enc.length s)
  | _ => .error .typeError

/-- How the adapter of a model's provider renders tools. -/
inductive ToolRendering where
  /-- `None`, and also no adapter at all -/
  | packed
  | anthropic
  | gemini
deriving DecidableEq, Repr

structure Runtime where
  charsPerToken : Int
  charsPerToken_ne : charsPerToken ≠ 0
  perMessageOverhead : Int
  perToolOverhead : Int
  toolsWrapperOverhead : Int
  tiktokenAvailable : Bool
  tiktokenPrefixes : List String
  nonGptTiktokenFallback : Bool
  fallbackRequestModel : String
  /-- `_get_tiktoken_enc` -/
  getTiktokenEnc : String → Option Encoder
  /-- the adapter of the provider that the configuration finds for a model -/
  toolRendering : Json → ToolRendering
  /-- `str.lower` -/
  lower : String → String
  /-- `str.strip` -/
  strip : String → String
  /-- `json.dumps(value, separators=(',', ':'))`; `none` at the recursion limit -/
  dumps : Json → Option String
  /-- `str(value)` of a value that is no string; `none` at the recursion limit -/
  strOf : Json → Option String
  /-- how deep a function may call itself -/
  frames : Nat
  /-- `copy.deepcopy` of the messages stays within the recursion limit -/
  copyable : List Msg → Bool

variable (env : Runtime)

/-! ## 2. One text -/

/-- The encoding that `estimate_tokens` counts a model's text with, if it finds one. -/
def encoderFor (model : String) : Option Encoder :=
  let modelLower := env.lower model
  let eligible := env.tiktokenAvailable && !env.tiktokenPrefixes.isEmpty &&
    env.tiktokenPrefixes.any fun f => contains f modelLower
  match if eligible then env.getTiktokenEnc modelLower else none with
  | some enc => some enc
  | none =>
    if env.tiktokenAvailable && env.nonGptTiktokenFallback then env.getTiktokenEnc "cl100k_base"
    else none

/-- `len(value)`. -/
def pyLen : Json → Except PyError Int
  | .str s => .ok s.length
  | .arr items => .ok items.length
  | .obj fields => .ok fields.length
  | _ => .error .typeError

def estimateTokens (text model : Json) : Except PyError Int :=
  if text.truthy then
    match model with
    | .str m =>
      match encoderFor env m with
      | some enc => enc.encode text
      | none => do
        let n ← pyLen text
        pure (max 1 ((n + env.charsPerToken - 1).fdiv env.charsPerToken))
    | _ => .error .attributeError
  else .ok 0

/-! ## 3. The messages -/

/-- `for x in value`. -/
def iterate : Json → Except PyError (List Json)
  | .arr items => .ok items
  | .str s => .ok (s.toList.map fun c => .str (String.singleton c))
  | .obj fields => .ok (fields.map fun f => .str f.1)
  | _ => .error .typeError

def partTokens (model part : Json) : Except PyError Int :=
  if part.isObj && part.getD "type" .null = .str "text" then
    estimateTokens env (part.getD "text" (.str "")) model
  else .ok 0

def contentTokens (model content : Json) : Except PyError Int :=
  match content with
  | .str s => estimateTokens env (.str s) model
  | .arr parts => sumM (partTokens env model) parts
  | _ => .ok 0

def toolCallTokens (model tc : Json) : Except PyError Int :=
  if tc.isObj then do
    let id ← estimateTokens env (tc.getD "id" (.str "")) model
    let fn := tc.getD "function" (.obj [])
    if fn.isObj then do
      let name ← estimateTokens env (fn.getD "name" (.str "")) model
      let arguments ← estimateTokens env (fn.getD "arguments" (.str "")) model
      pure (id + name + arguments)
    else pure id
  else .ok 0

def messageTokens (model : Json) (msg : Msg) : Except PyError Int := do
  let fields := Json.obj msg.fields
  let content ← contentTokens env model (fields.getD "content" (.str ""))
  let toolCalls ← iterate (fields.getD "tool_calls" (.arr []))
  let calls ← sumM (toolCallTokens env model) toolCalls
  let role ← estimateTokens env (fields.getD "role" (.str "")) model
  pure (content + calls + role + env.perMessageOverhead)

def countMessagesTokens (messages : List Msg) (model : Json) : Except PyError Int :=
  sumM (messageTokens env model) messages

/-! ## 4. The tools -/

/-- `f"{value}"`. -/
def format : Json → Option String
  | .str s => some s
  | value => env.strOf value

/-- `_ts_type`, with the calls that the interpreter still allows. -/
def tsType : Nat → Json → Option String
  | 0, _ => none
  | frames + 1, schema =>
    if schema.isObj then
      match schema.getD "enum" .null with
      | .arr (v :: vs) => do
        let quoted ← (v :: vs).mapM fun v => (format env v).map fun s => "\"" ++ s ++ "\""
        some (" | ".intercalate quoted)
      | _ =>
        let t := schema.getD "type" .null
        if t = .str "array" then
          (tsType frames ((schema.getD "items" .null).orElse (.obj []))).map fun s => s ++ "[]"
        else if t = .str "object" then some "object"
        else if t = .str "integer" ∨ t = .str "number" then some "number"
        else format env (t.orElse (.str "any"))
    else some "any"

/-- The dict under a key, or an empty one. -/
def dictAt (value : Json) (key : String) : List (String × Json) :=
  ((value.get? key).bind Json.fields?).getD []

/-- `set(req_raw)`: `none` is a `TypeError`. -/
def requiredNames (params : List (String × Json)) : Option (List Json.DictKey) :=
  match (Json.obj params).getD "required" .null with
  | .arr items => items.mapM Json.dictKey?
  | _ => some []

def propertyLines (required : List Json.DictKey) (prop : String × Json) : Option (List String) := do
  let description := prop.2.getD "description" .null
  let pdesc ← if prop.2.isObj && description.truthy then (format env description).map env.strip
    else some ""
  let t ← tsType env env.frames prop.2
  let opt := if .text prop.1 ∈ required then "" else "?"
  let line := prop.1 ++ opt ++ ": " ++ t ++ ","
  some (if pdesc = "" then [line] else ["// " ++ pdesc, line])

/-- `_render_tool_signature`; `none` where it raises. -/
def renderToolSignature (fn : Json) : Option String := do
  let desc ← match (fn.getD "description" .null).orElse (.str "") with
    | .str s => some (env.strip s)
    | _ => none
  let params := dictAt fn "parameters"
  let props := dictAt (.obj params) "properties"
  let required ← requiredNames params
  let name ← format env (fn.getD "name" (.str ""))
  let head := if desc = "" then [] else ["// " ++ desc]
  if props.isEmpty then some ("\n".intercalate (head ++ ["type " ++ name ++ " = () => any;"]))
  else do
    let body ← props.mapM (propertyLines env required)
    some ("\n".intercalate
      (head ++ ["type " ++ name ++ " = (_: \x7b"] ++ body.flatten ++ ["\x7d) => any;"]))

/-- The `function` of a tool that has a name. -/
def namedFunction (tool : Json) : Option Json :=
  let fn := tool.getD "function" .null
  if fn.isObj && (fn.getD "name" .null).truthy then some fn else none

/-- A tool in the provider's own shape. -/
def nativeTool (schemaKey : String) (tool : Json) : Json :=
  match namedFunction tool with
  | some fn =>
    let parameters := fn.getD "parameters" .null
    .obj [("name", fn.getD "name" (.str "")),
      ("description", (fn.getD "description" (.str "")).orElse (.str "")),
      (schemaKey, if parameters.isObj then parameters else .obj [("type", .str "object")])]
  | none => tool

/-- `render_tools_for_counting`: the text and the constant, `none` where it raises or
    returns `None`. -/
def renderToolsForCounting (tools model : Json) : Option (String × Int) :=
  match env.toolRendering model, iterate tools with
  | .anthropic, .ok items =>
    (env.dumps (.arr (items.map (nativeTool "input_schema")))).map fun body =>
      (body, 490 + 17 * items.length)
  | .gemini, .ok items =>
    (env.dumps (.arr (items.map (nativeTool "parameters")))).map fun body => (body, 0)
  | _, _ => none

/-- One tool in the packed form, or as JSON (`true`). -/
def renderTool (tool : Json) : Except PyError (String × Bool) :=
  match (namedFunction tool).bind (renderToolSignature env) with
  | some signature => .ok (signature, false)
  | none =>
    match env.dumps tool with
    | some text => .ok (text, true)
    | none => .error .recursionError

def packedBody (rendered : List (String × Bool)) : String :=
  "\n\n".intercalate (rendered.map Prod.fst)

def countPackedTokens (tools model : Json) : Except PyError Int := do
  let items ← iterate tools
  let rendered ← items.mapM (renderTool env)
  let body ← estimateTokens env (.str (packedBody rendered)) model
  pure (body + env.toolsWrapperOverhead +
    env.perToolOverhead * (rendered.countP fun r => r.2))

def countToolsTokens (tools model : Json) : Except PyError Int :=
  if tools.truthy then
    match renderToolsForCounting env tools model with
    | some (body, const) =>
      match estimateTokens env (.str body) model with
      | .ok n => .ok (n + const)
      | .error _ => countPackedTokens env tools model
    | none => countPackedTokens env tools model
  else .ok 0

def countRequestTokens (messages : List Msg) (model tools : Json) : Except PyError Int := do
  let total ← countMessagesTokens env messages model
  if tools.truthy then do
    let n ← countToolsTokens env tools model
    pure (total + n)
  else pure total

/-! ## 5. The request -/

def openaiValidRoles : List String :=
  ["system", "user", "assistant", "tool", "function", "developer"]

def validateMessage (i : Nat) (m : Json) : Except String Msg :=
  match m with
  | .obj fields =>
    match m.getD "role" .null with
    | .str role =>
      if role = "" then
        .error ("messages[" ++ toString i ++ "] is missing a string `role`")
      else if role ∈ openaiValidRoles then .ok ⟨fields⟩
      else .error ("messages[" ++ toString i ++ "] has an invalid role '" ++ role ++ "'")
    | _ => .error ("messages[" ++ toString i ++ "] is missing a string `role`")
  | _ => .error ("messages[" ++ toString i ++ "] must be an object")

def validateMessages : Nat → List Json → Except String (List Msg)
  | _, [] => .ok []
  | i, m :: ms => do
    let msg ← validateMessage i m
    let rest ← validateMessages (i + 1) ms
    pure (msg :: rest)

/-- `_validate_openai_request`. -/
def validateOpenaiRequest (messages : Json) : Except String (List Msg) :=
  match messages with
  | .arr (m :: ms) => validateMessages 0 (m :: ms)
  | _ => .error "`messages` must be a non-empty array"

/-- What `RequestContext.create` counts of a chat completion. -/
structure ChatRequest where
  messages : List Msg
  model : Json
  tools : Json
deriving DecidableEq

/-- `OPENAI.parse_request`, the validation, and the default for a request without a model.
    `tools` is among the parameters that the ingress admits. -/
def ingress (body : Json) : Except String ChatRequest :=
  if body.isObj then do
    let messages ← validateOpenaiRequest (body.getD "messages" (.arr []))
    let model := (body.getD "model" .null).orElse (.str env.fallbackRequestModel)
    pure ⟨messages, model, body.getD "tools" .null⟩
  else .error "Invalid request body"

structure RequestContext where
  originalMessages : List Msg
  messages : List Msg
  model : Json
  routedModel : Json
  baselineTokens : Int
deriving DecidableEq

/-- `RequestContext.create`. -/
def create (r : ChatRequest) : Except PyError RequestContext := do
  let baselineTokens ← countRequestTokens env r.messages r.model r.tools
  if env.copyable r.messages then
    pure ⟨r.messages, r.messages, r.model, r.model, baselineTokens⟩
  else .error .recursionError

/-! ## 6. What can be counted -/

/-- The text is falsy, or the encoding takes it, or `len` does where there is no encoding. -/
def Countable (enc : Option Encoder) (text : Json) : Prop :=
  text.truthy = false ∨
    match enc with
    | some enc => ∃ s, text = .str s ∧ ∀ special ∈ enc.specialTokens, contains special s = false
    | none => (∃ s, text = .str s) ∨ (∃ items, text = .arr items) ∨ ∃ fields, text = .obj fields

/-- A list, a string or an object: `for x in value` does not raise. -/
def Iterable : Json → Prop
  | .arr _ => True
  | .str _ => True
  | .obj _ => True
  | _ => False

def contentTexts (content : Json) : List Json :=
  match content with
  | .str s => [.str s]
  | .arr parts =>
    (parts.filter fun part => part.isObj && part.getD "type" .null = .str "text").map
      fun part => part.getD "text" (.str "")
  | _ => []

def toolCallTexts (tc : Json) : List Json :=
  if tc.isObj then
    let fn := tc.getD "function" (.obj [])
    tc.getD "id" (.str "") ::
      if fn.isObj then [fn.getD "name" (.str ""), fn.getD "arguments" (.str "")] else []
  else []

/-- The items of a list; what else can be iterated gives strings. -/
def listItems (value : Json) : List Json := value.items?.getD []

/-- The texts of a message that are counted. -/
def countedTexts (msg : Msg) : List Json :=
  let fields := Json.obj msg.fields
  contentTexts (fields.getD "content" (.str "")) ++
    (listItems (fields.getD "tool_calls" (.arr []))).flatMap toolCallTexts ++
    [fields.getD "role" (.str "")]

structure MessageCountable (enc : Option Encoder) (msg : Msg) : Prop where
  iterable : Iterable ((Json.obj msg.fields).getD "tool_calls" (.arr []))
  texts : ∀ text ∈ countedTexts msg, Countable enc text

/-- The provider's own rendering of the tools can be counted, or the packed one can. -/
def ToolsCountable (model : String) (tools : Json) : Prop :=
  tools.truthy = false ∨
    (∃ body const, renderToolsForCounting env tools (.str model) = some (body, const) ∧
      Countable (encoderFor env model) (.str body)) ∨
    ∃ items rendered, iterate tools = .ok items ∧ items.mapM (renderTool env) = .ok rendered ∧
      Countable (encoderFor env model) (.str (packedBody rendered))

/-- The condition under which the context of a request is built. -/
def RequestCountable (r : ChatRequest) : Prop :=
  ∃ m, r.model = .str m ∧ (∀ msg ∈ r.messages, MessageCountable (encoderFor env m) msg) ∧
    ToolsCountable env m r.tools ∧ env.copyable r.messages = true

/-! ## 7. When the counters return -/

variable {env}

theorem returns_pyLen {value : Json} :
    Returns (pyLen value) ↔ (∃ s, value = .str s) ∨ (∃ items, value = .arr items) ∨
      ∃ fields, value = .obj fields := by
  rcases value with _ | _ | _ | _ | _ | _ | _ <;> simp [pyLen]

theorem returns_encode {enc : Encoder} {text : Json} :
    Returns (enc.encode text) ↔
      ∃ s, text = .str s ∧ ∀ special ∈ enc.specialTokens, contains special s = false := by
  rcases text with _ | _ | _ | _ | s | _ | _
  case str =>
    rcases h : enc.specialTokens.any fun special => contains special s with _ | _
    · simp only [Encoder.encode, h, Bool.false_eq_true, if_false, returns_ok, true_iff]
      refine ⟨s, rfl, ?_⟩
      simpa using h
    · simp only [Encoder.encode, h, if_true, not_returns_error, false_iff]
      rintro ⟨_, hs, hnone⟩
      cases hs
      obtain ⟨special, hmem, hin⟩ := List.any_eq_true.mp h
      rw [hnone special hmem] at hin
      cases hin
  all_goals simp [Encoder.encode]

theorem returns_estimateTokens {text : Json} {m : String} :
    Returns (estimateTokens env text (.str m)) ↔ Countable (encoderFor env m) text := by
  unfold Countable
  rcases htruthy : text.truthy with _ | _
  · simp [estimateTokens, htruthy]
  · rcases henc : encoderFor env m with _ | enc
    · simp only [estimateTokens, htruthy, henc, if_true, Bool.true_eq_false, false_or]
      exact returns_bind_pure.trans returns_pyLen
    · simp only [estimateTokens, htruthy, henc, if_true, Bool.true_eq_false, false_or]
      exact returns_encode

/-- Without a string for the model every text raises. -/
theorem not_returns_estimateTokens {text model : Json} (htext : text.truthy = true)
    (hmodel : ∀ m, model ≠ .str m) : ¬ Returns (estimateTokens env text model) := by
  rcases model with _ | _ | _ | _ | m | _ | _
  case str => exact absurd rfl (hmodel m)
  all_goals simp [estimateTokens, htext]

theorem returns_iterate {value : Json} : Returns (iterate value) ↔ Iterable value := by
  rcases value with _ | _ | _ | _ | _ | _ | _ <;> simp [iterate, Iterable]

theorem returns_contentTokens {content : Json} {m : String} :
    Returns (contentTokens env (.str m) content) ↔
      ∀ text ∈ contentTexts content, Countable (encoderFor env m) text := by
  rcases content with _ | _ | _ | _ | s | parts | _
  case str => simp [contentTokens, contentTexts, returns_estimateTokens]
  case arr =>
    simp only [contentTokens, contentTexts, returns_sumM, List.forall_mem_map, List.mem_filter]
    constructor
    · rintro h part ⟨hmem, htext⟩
      have hpart := h part hmem
      rwa [partTokens, if_pos htext, returns_estimateTokens] at hpart
    · intro h part hmem
      by_cases htext : (part.isObj && part.getD "type" .null = .str "text") = true
      · rw [partTokens, if_pos htext, returns_estimateTokens]
        exact h part ⟨hmem, htext⟩
      · rw [partTokens, if_neg htext]
        exact returns_ok 0
  all_goals simp [contentTokens, contentTexts]

theorem returns_toolCallTokens {tc : Json} {m : String} :
    Returns (toolCallTokens env (.str m) tc) ↔
      ∀ text ∈ toolCallTexts tc, Countable (encoderFor env m) text := by
  by_cases htc : tc.isObj = true
  · by_cases hfn : (tc.getD "function" (.obj [])).isObj = true
    · simp only [toolCallTokens, toolCallTexts, htc, hfn, if_true, List.forall_mem_cons,
        List.not_mem_nil, false_imp_iff, implies_true, and_true, ← returns_estimateTokens]
      apply returns_seq
      intro id
      apply returns_seq
      intro name
      exact returns_bind_pure
    · simp only [toolCallTokens, toolCallTexts, htc, hfn, if_true, Bool.false_eq_true, if_false,
        List.mem_singleton, forall_eq]
      exact returns_bind_pure.trans returns_estimateTokens
  · simp [toolCallTokens, toolCallTexts, htc]

/-- The strings of a string or of a dict's keys count nothing. -/
theorem returns_toolCalls {toolCalls : Json} {items : List Json} {m : String}
    (hitems : iterate toolCalls = .ok items) :
    Returns (sumM (toolCallTokens env (.str m)) items) ↔
      ∀ text ∈ (listItems toolCalls).flatMap toolCallTexts, Countable (encoderFor env m) text := by
  have hstring : ∀ s : String, Returns (toolCallTokens env (.str m) (.str s)) :=
    fun s => returns_ok 0
  rw [returns_sumM]
  rcases toolCalls with _ | _ | _ | _ | s | calls | fields
  case str =>
    cases hitems
    simp [listItems, Json.items?, hstring]
  case obj =>
    cases hitems
    simp only [listItems, Json.items?, Option.getD_none, List.flatMap_nil, List.not_mem_nil,
      false_imp_iff, implies_true, List.forall_mem_map, hstring]
  case arr =>
    cases hitems
    simp only [listItems, Json.items?, Option.getD_some, returns_toolCallTokens,
      List.forall_mem_flatMap]
  all_goals cases hitems

theorem returns_messageTokens {msg : Msg} {m : String} :
    Returns (messageTokens env (.str m) msg) ↔ MessageCountable (encoderFor env m) msg := by
  have hrole : ∀ n : Int → Int, Returns (do
      let role ← estimateTokens env ((Json.obj msg.fields).getD "role" (.str "")) (.str m)
      pure (n role)) ↔
      Countable (encoderFor env m) ((Json.obj msg.fields).getD "role" (.str "")) :=
    fun n => returns_bind_pure.trans returns_estimateTokens
  constructor
  · intro h
    obtain ⟨content, hcontent, h⟩ := returns_bind.mp h
    obtain ⟨toolCalls, hcalls, h⟩ := returns_bind.mp h
    obtain ⟨calls, hsum, h⟩ := returns_bind.mp h
    refine ⟨returns_iterate.mp ⟨_, hcalls⟩, ?_⟩
    simp only [countedTexts, List.forall_mem_append, List.mem_singleton, forall_eq]
    exact ⟨⟨returns_contentTokens.mp ⟨_, hcontent⟩, (returns_toolCalls hcalls).mp ⟨_, hsum⟩⟩,
      (hrole _).mp h⟩
  · rintro ⟨hiterable, htexts⟩
    simp only [countedTexts, List.forall_mem_append, List.mem_singleton, forall_eq] at htexts
    obtain ⟨⟨hcontent, hcalls⟩, hlast⟩ := htexts
    obtain ⟨content, hcontent⟩ := returns_contentTokens.mpr hcontent
    obtain ⟨toolCalls, hitems⟩ := returns_iterate.mpr hiterable
    obtain ⟨calls, hsum⟩ := (returns_toolCalls hitems).mpr hcalls
    exact returns_bind.mpr ⟨content, hcontent, returns_bind.mpr ⟨toolCalls, hitems,
      returns_bind.mpr ⟨calls, hsum, (hrole _).mpr hlast⟩⟩⟩

theorem returns_countMessagesTokens {messages : List Msg} {m : String} :
    Returns (countMessagesTokens env messages (.str m)) ↔
      ∀ msg ∈ messages, MessageCountable (encoderFor env m) msg := by
  simp only [countMessagesTokens, returns_sumM, returns_messageTokens]

theorem returns_countPackedTokens {tools : Json} {m : String} :
    Returns (countPackedTokens env tools (.str m)) ↔
      ∃ items rendered, iterate tools = .ok items ∧ items.mapM (renderTool env) = .ok rendered ∧
        Countable (encoderFor env m) (.str (packedBody rendered)) := by
  simp only [countPackedTokens, returns_bind, returns_pure, and_true,
    ← @returns_estimateTokens env]
  constructor
  · rintro ⟨items, hitems, rendered, hrendered, n, hn⟩
    exact ⟨items, rendered, hitems, hrendered, n, hn⟩
  · rintro ⟨items, rendered, hitems, hrendered, n, hn⟩
    exact ⟨items, hitems, rendered, hrendered, n, hn⟩

theorem returns_countToolsTokens {tools : Json} {m : String} :
    Returns (countToolsTokens env tools (.str m)) ↔ ToolsCountable env m tools := by
  rw [ToolsCountable, ← returns_countPackedTokens]
  rcases htools : tools.truthy with _ | _
  · simp [countToolsTokens, htools]
  · rcases hrender : renderToolsForCounting env tools (.str m) with _ | ⟨body, const⟩
    · simp [countToolsTokens, htools, hrender]
    · have hbody := @returns_estimateTokens env (.str body) m
      rcases hestimate : estimateTokens env (.str body) (.str m) with e | n
      · rw [hestimate] at hbody
        simp [countToolsTokens, htools, hrender, hestimate, ← hbody]
      · rw [hestimate] at hbody
        simp [countToolsTokens, htools, hrender, hestimate, ← hbody]

/-! ## 8. Accepted requests -/

theorem role_of_validateMessage {i : Nat} {m : Json} {msg : Msg}
    (h : validateMessage i m = .ok msg) :
    ((Json.obj msg.fields).getD "role" (.str "")).truthy = true := by
  rcases m with _ | _ | _ | _ | _ | _ | fields
  case obj =>
    rcases hrole : Assoc.lookup "role" fields with _ | value
    · simp [validateMessage, Json.getD, Json.get?, hrole] at h
    · rcases value with _ | _ | _ | _ | role | _ | _
      case str =>
        simp only [validateMessage, Json.getD, Json.get?, hrole, Option.getD_some] at h
        split_ifs at h with hempty hvalid
        cases h
        simp [Json.getD, Json.get?, hrole, Json.truthy, hempty]
      all_goals simp [validateMessage, Json.getD, Json.get?, hrole] at h
  all_goals cases h

theorem roles_of_validateMessages {i : Nat} {ms : List Json} {messages : List Msg}
    (h : validateMessages i ms = .ok messages) :
    messages.length = ms.length ∧
      ∀ msg ∈ messages, ((Json.obj msg.fields).getD "role" (.str "")).truthy = true := by
  induction ms generalizing i messages with
  | nil =>
    cases h
    simp
  | cons m ms ih =>
    rcases hm : validateMessage i m with e | msg
    · simp [validateMessages, hm, bind, Except.bind] at h
    · rcases hms : validateMessages (i + 1) ms with e | rest
      · simp [validateMessages, hm, hms, bind, Except.bind] at h
      · simp only [validateMessages, hm, hms, bind, Except.bind, pure, Except.pure,
          Except.ok.injEq] at h
        subst h
        obtain ⟨hlength, hroles⟩ := ih hms
        simp only [List.length_cons, hlength, List.forall_mem_cons, true_and]
        exact ⟨role_of_validateMessage hm, hroles⟩

/-- An accepted request has a message, and each of its messages has a role. -/
theorem roles_of_ingress {body : Json} {r : ChatRequest} (h : ingress env body = .ok r) :
    r.messages ≠ [] ∧
      ∀ msg ∈ r.messages, ((Json.obj msg.fields).getD "role" (.str "")).truthy = true := by
  unfold ingress at h
  split_ifs at h with hbody
  rcases hvalid : validateOpenaiRequest (body.getD "messages" (.arr [])) with e | messages
  · simp [hvalid, bind, Except.bind] at h
  · simp only [hvalid, bind, Except.bind, pure, Except.pure, Except.ok.injEq] at h
    subst h
    rcases hmessages : body.getD "messages" (.arr []) with _ | _ | _ | _ | _ | items | _
    case arr =>
      rcases items with _ | ⟨m, ms⟩
      · simp [validateOpenaiRequest, hmessages] at hvalid
      · simp only [validateOpenaiRequest, hmessages] at hvalid
        obtain ⟨hlength, hroles⟩ := roles_of_validateMessages hvalid
        refine ⟨?_, hroles⟩
        rintro rfl
        simp at hlength
    all_goals simp [validateOpenaiRequest, hmessages] at hvalid

/-- So the counter reaches a text, and the model has to be a string. -/
theorem model_of_returns {body : Json} {r : ChatRequest} (hin : ingress env body = .ok r)
    (h : Returns (countMessagesTokens env r.messages r.model)) : ∃ m, r.model = .str m := by
  obtain ⟨hne, hroles⟩ := roles_of_ingress hin
  obtain ⟨msg, hmsg⟩ := List.exists_mem_of_ne_nil _ hne
  by_contra hmodel
  obtain ⟨content, _, hmessage⟩ := returns_bind.mp (returns_sumM.mp h msg hmsg)
  obtain ⟨toolCalls, _, hmessage⟩ := returns_bind.mp hmessage
  obtain ⟨calls, _, hmessage⟩ := returns_bind.mp hmessage
  refine not_returns_estimateTokens (hroles msg hmsg) ?_ (returns_bind_pure.mp hmessage)
  intro m hm
  exact hmodel ⟨m, hm⟩

theorem returns_countRequestTokens {messages : List Msg} {tools : Json} {m : String} :
    Returns (countRequestTokens env messages (.str m) tools) ↔
      Returns (countMessagesTokens env messages (.str m)) ∧
        Returns (countToolsTokens env tools (.str m)) := by
  apply returns_seq
  intro total
  rcases htools : tools.truthy with _ | _
  · simp [countToolsTokens, htools]
  · simp only [if_true]
    exact returns_bind_pure

theorem returns_create {r : ChatRequest} {m : String} (hmodel : r.model = .str m) :
    Returns (create env r) ↔ Returns (countMessagesTokens env r.messages (.str m)) ∧
      Returns (countToolsTokens env r.tools (.str m)) ∧ env.copyable r.messages = true := by
  rw [← and_assoc, ← returns_countRequestTokens, ← hmodel]
  apply returns_seq
  intro total
  rcases hcopy : env.copyable r.messages with _ | _ <;> simp

/-- Of every body that the validation accepts: counting its messages and its tools returns, and
    the context is built, exactly when the request is countable. -/
theorem create_returns_iff (env : Runtime) (body : Json) (r : ChatRequest)
    (hin : ingress env body = .ok r) :
    (Returns (countMessagesTokens env r.messages r.model) ∧
      Returns (countToolsTokens env r.tools r.model) ∧ Returns (create env r)) ↔
      RequestCountable env r := by
  constructor
  · rintro ⟨hmessages, htools, hcreate⟩
    obtain ⟨m, hmodel⟩ := model_of_returns hin hmessages
    rw [hmodel] at hmessages htools
    exact ⟨m, hmodel, returns_countMessagesTokens.mp hmessages,
      returns_countToolsTokens.mp htools, ((returns_create hmodel).mp hcreate).2.2⟩
  · rintro ⟨m, hmodel, hmessages, htools, hcopy⟩
    have hcounted := returns_countMessagesTokens.mpr hmessages
    have hrendered := returns_countToolsTokens.mpr htools
    rw [hmodel]
    exact ⟨hcounted, hrendered, (returns_create hmodel).mpr ⟨hcounted, hrendered, hcopy⟩⟩

/-! ### Requests that raise, and one that does not -/

/-- A gateway that counts GPT models with `tiktoken` and the others by their characters. -/
def gateway : Runtime where
  charsPerToken := 4
  charsPerToken_ne := by decide
  perMessageOverhead := 4
  perToolOverhead := 4
  toolsWrapperOverhead := 16
  tiktokenAvailable := true
  tiktokenPrefixes := ["gpt-"]
  nonGptTiktokenFallback := false
  fallbackRequestModel := "gpt-4o-mini"
  getTiktokenEnc := fun _ =>
    some ⟨["<|endoftext|>", "<|endofprompt|>"], fun s => (s.length + 3) / 4⟩
  toolRendering := fun _ => .packed
  lower := String.toLower
  strip := fun s => s
  dumps := fun _ => none
  strOf := fun _ => none
  frames := 1000
  copyable := fun _ => true

def chatBody (model : String) (message : List (String × Json)) : Json :=
  .obj [("model", .str model), ("messages", .arr [.obj message])]

/-- An assistant message without tool calls, as some clients write it. -/
def nullToolCalls : List (String × Json) :=
  [("role", .str "assistant"), ("content", .str "Done."), ("tool_calls", .null)]

def specialText : List (String × Json) :=
  [("role", .str "user"), ("content", .str "What does <|endoftext|> mean?")]

/-- Both bodies are accepted, and neither gets a context: iterating `None` is a `TypeError`, and
    `encode` refuses the special token. -/
theorem accepted_and_raises :
    (∃ r, ingress gateway (chatBody "claude-haiku" nullToolCalls) = .ok r ∧
      countMessagesTokens gateway r.messages r.model = .error .typeError ∧
      ¬ Returns (create gateway r)) ∧
    ∃ r, ingress gateway (chatBody "gpt-4o" specialText) = .ok r ∧
      countMessagesTokens gateway r.messages r.model = .error .valueError ∧
      ¬ Returns (create gateway r) := by
  constructor
  · refine ⟨⟨[⟨nullToolCalls⟩], .str "claude-haiku", .null⟩, by decide +kernel,
      by decide +kernel, ?_⟩
    have hcreate : create gateway ⟨[⟨nullToolCalls⟩], .str "claude-haiku", .null⟩ =
        .error .typeError := by decide +kernel
    simp [hcreate]
  · refine ⟨⟨[⟨specialText⟩], .str "gpt-4o", .null⟩, by decide +kernel, by decide +kernel, ?_⟩
    have hcreate : create gateway ⟨[⟨specialText⟩], .str "gpt-4o", .null⟩ =
        .error .valueError := by decide +kernel
    simp [hcreate]

/-- A question in parts, the call of a tool, and its result. -/
def weatherTurns : List (List (String × Json)) :=
  [[("role", .str "user"), ("content", .arr [
      .obj [("type", .str "text"), ("text", .str "How warm is it in Bonn?")],
      .obj [("type", .str "image_url"), ("image_url", .obj [("url", .str "https://a.b/c")])]])],
    [("role", .str "assistant"), ("content", .null), ("tool_calls", .arr [
      .obj [("id", .str "call_1"), ("type", .str "function"), ("function", .obj
        [("name", .str "get_weather"), ("arguments", .str "\x7b\"city\": \"Bonn\"\x7d")])]])],
    [("role", .str "tool"), ("tool_call_id", .str "call_1"), ("content", .str "21 degrees")]]

def weatherTools : Json :=
  .arr [.obj [("type", .str "function"), ("function", .obj
    [("name", .str "get_weather"), ("description", .str "The weather of a city."),
      ("parameters", .obj [("type", .str "object"),
        ("properties", .obj [("city", .obj [("type", .str "string")])]),
        ("required", .arr [.str "city"])])])]]

def weatherRequest : ChatRequest := ⟨weatherTurns.map Msg.mk, .str "gpt-4o", weatherTools⟩

def weatherBody : Json :=
  .obj [("model", .str "gpt-4o"), ("messages", .arr (weatherTurns.map Json.obj)),
    ("tools", weatherTools)]

theorem create_returns_iff_weather :
    ingress gateway weatherBody = .ok weatherRequest ∧
      RequestCountable gateway weatherRequest := by
  have hin : ingress gateway weatherBody = .ok weatherRequest := by decide +kernel
  have hmessages : countMessagesTokens gateway weatherRequest.messages weatherRequest.model =
      .ok 35 := by decide +kernel
  have htools : countToolsTokens gateway weatherRequest.tools weatherRequest.model = .ok 35 := by
    decide +kernel
  have hcreate : create gateway weatherRequest = .ok ⟨weatherRequest.messages,
      weatherRequest.messages, .str "gpt-4o", .str "gpt-4o", 70⟩ := by
    decide +kernel
  exact ⟨hin, (create_returns_iff gateway _ _ hin).mp ⟨⟨_, hmessages⟩, ⟨_, htools⟩, ⟨_, hcreate⟩⟩⟩

end TokenProxy.TokenCounter
