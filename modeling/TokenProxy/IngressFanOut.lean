/-
  TokenProxy/IngressFanOut.lean
  =============================
  **Requests of other protocols as OpenAI messages** (`protocols/base.py`,
  `protocols/anthropic_ingress.py`, `protocols/gemini_ingress.py`: `parse_request`).

  One Anthropic or Gemini message may carry text, calls and results together; it is fanned
  out into several OpenAI messages.  A translator raises, which is `none`, where it joins a
  text that is no string, asks something that is no dict for a field, or uses a list or a dict
  as a key.  Of `parse_request` only the messages are modelled, not the parameters.
-/
import TokenProxy.JsonValue
import TokenProxy.StreamChunks
import TokenProxy.ToolExchanges

namespace TokenProxy.Ingress

open Json (DictKey)
open History (Msg)
open JsonText (PyJson)
open Protocols (getField orEmpty itemsOf concat)

/-! ## 1. Both protocols -/

/-- What the interpreter brings: the module `json`, and `str` for an f-string. -/
structure Interpreter extends PyJson where
  str : Json → String
  str_str : ∀ s, str (.str s) = s

theorem getD_str?_str (s : String) : (Json.str s).str?.getD "" = s := rfl

/-- An interpreter that raises nowhere and meets no floats, on strings. -/
def plainInterpreter : Interpreter where
  toPyJson := .unlimited .unread
  str := fun v => v.str?.getD ""
  str_str := getD_str?_str

/-- `safe_json_dumps`. -/
def safeJsonDumps (py : Interpreter) (obj : Json) : String :=
  (py.dumps (if obj = .null then .obj [] else obj)).getD "{}"

def textPart (text : Json) : Json := .obj [("type", .str "text"), ("text", text)]

def imagePart (url : Json) : Json :=
  .obj [("type", .str "image_url"), ("image_url", .obj [("url", url)])]

def functionCall (id name : Json) (arguments : String) : Json :=
  .obj [("id", id), ("type", .str "function"),
    ("function", .obj [("name", name), ("arguments", .str arguments)])]

def toolMessage (id : Json) (content : String) : Msg :=
  ⟨[("role", .str "tool"), ("tool_call_id", id), ("content", .str content)]⟩

def plainMessage (role content : Json) : Msg := ⟨[("role", role), ("content", content)]⟩

def assistantMessage (content : Json) (toolCalls : List Json) : Msg :=
  ⟨[("role", .str "assistant"), ("content", content), ("tool_calls", .arr toolCalls)]⟩

def finalizeFanout (role collapsed : Json) (toolCalls : List Json) (toolMsgs : List Msg) :
    List Msg :=
  if role = .str "assistant" ∧ toolCalls ≠ [] then
    toolMsgs ++ [assistantMessage (collapsed.orElse .null) toolCalls]
  else if collapsed.truthy ∨ toolMsgs = [] then toolMsgs ++ [plainMessage role collapsed]
  else toolMsgs

/-- The texts of parts, joined. -/
def joinTexts (parts : List Json) : Option Json := do
  let texts ← parts.mapM fun (part : Json) => (part.getD "text" .null).str?
  some (.str (concat texts))

/-! ## 2. Anthropic -/

namespace Anthropic

/-- `cache_marker`: the `cache_control` that is a dict. -/
def cacheMarker (item : Json) : Option Json :=
  match item.get? "cache_control" with
  | some (.obj fields) => some (.obj fields)
  | _ => none

/-- `_with_marker`, of a block. -/
def withMarker (item : Json) : Option Json → Json
  | some marker => item.set "cache_control" marker
  | none => item

/-- `_with_marker`, of a message. -/
def markMessage (m : Msg) : Option Json → Msg
  | some marker => m.set "cache_control" marker
  | none => m

/-- The part that a block becomes, if any: one pass of the loop of `_content_to_openai`. -/
def contentPart (py : Interpreter) (block : Json) : Option (List Json) :=
  if block.isObj = false then some []
  else if block.getD "type" .null = .str "text" then
    some [withMarker (textPart (block.getD "text" (.str ""))) (cacheMarker block)]
  else if block.getD "type" .null = .str "image" then do
    let src := orEmpty (block.getD "source" .null)
    let kind ← getField src "type"
    if kind = .str "base64" then
      let url := "data:" ++ py.str (src.getD "media_type" (.str "image/png")) ++ ";base64," ++
        py.str (src.getD "data" (.str ""))
      some [withMarker (imagePart (.str url)) (cacheMarker block)]
    else if kind = .str "url" then
      some [withMarker (imagePart (src.getD "url" (.str ""))) (cacheMarker block)]
    else some []
  else some []

/-- A part that one string cannot hold. -/
def keepsParts (part : Json) : Bool :=
  part.getD "type" .null = .str "image_url" || (part.get? "cache_control").isSome

/-- `_content_to_openai`. -/
def contentToOpenai (py : Interpreter) : Json → Option Json
  | .str s => some (.str s)
  | .arr blocks => do
    let parts := (← blocks.mapM (contentPart py)).flatten
    if parts.any keepsParts then some (.arr parts) else joinTexts parts
  | _ => some (.str "")

/-- `_flatten_text`. -/
def flattenText : Json → Option Json
  | .str s => some (.str s)
  | .arr blocks => do
    let textBlocks := blocks.filter fun b => b.getD "type" .null = .str "text"
    let texts ← textBlocks.mapM fun (b : Json) => (b.getD "text" (.str "")).str?
    some (.str (concat texts))
  | _ => some (.str "")

/-- `_tool_result_marker`. -/
def toolResultMarker (block : Json) : Option Json :=
  match cacheMarker block with
  | some marker => some marker
  | none =>
    match block.getD "content" .null with
    | .arr parts => parts.foldl (fun marker part => (cacheMarker part).or marker) none
    | _ => none

/-- What the loop of `_message_to_openai` has collected. -/
structure FanOut where
  residual : List Json := []
  toolCalls : List Json := []
  toolMsgs : List Msg := []
  newIds : List Json := []

/-- `tool_use_id and tool_use_id in state.seen_tool_ids`. -/
def isKnown (seen : List DictKey) (id : Json) : Option Bool :=
  if id.truthy then id.dictKey?.map fun key => decide (key ∈ seen) else some false

/-- One block of the loop. -/
def fanBlock (py : Interpreter) (role : Json) (seen : List DictKey) (fan : FanOut)
    (block : Json) : Option FanOut :=
  if block.isObj = false then some fan
  else if block.getD "type" .null = .str "tool_use" then
    let name := block.getD "name" (.str "")
    let toolId := block.getD "id" (.str "")
    let input := safeJsonDumps py (block.getD "input" (.obj []))
    if role = .str "assistant" ∧ name.truthy ∧ toolId.truthy then
      some { fan with
        toolCalls := fan.toolCalls ++
          [withMarker (functionCall toolId name input) (cacheMarker block)]
        newIds := fan.newIds ++ [toolId] }
    else
      let text := "[tool_use " ++ py.str name ++ "]: " ++ input
      some { fan with
        residual := fan.residual ++ [withMarker (textPart (.str text)) (cacheMarker block)] }
  else if block.getD "type" .null = .str "tool_result" then do
    let toolUseId := block.getD "tool_use_id" (.str "")
    let resultText ← (← flattenText (block.getD "content" .null)).str?
    let marker := toolResultMarker block
    if ← isKnown seen toolUseId then
      some { fan with
        toolMsgs := fan.toolMsgs ++ [markMessage (toolMessage toolUseId resultText) marker] }
    else
      let text := "[tool_result " ++ py.str toolUseId ++ "]: " ++ resultText
      some { fan with residual := fan.residual ++ [withMarker (textPart (.str text)) marker] }
  else some { fan with residual := fan.residual ++ [block] }

/-- `_message_to_openai`; the state is the ids of the calls in earlier messages. -/
def messageToOpenai (py : Interpreter) (role content : Json) (seen : List DictKey) :
    Option (List Msg × List DictKey) :=
  match content with
  | .arr blocks => do
    let fan ← blocks.foldlM (fanBlock py role seen) {}
    let newKeys ← fan.newIds.mapM Json.dictKey?
    let collapsed ← contentToOpenai py (.arr fan.residual)
    some (finalizeFanout role collapsed fan.toolCalls fan.toolMsgs, seen ++ newKeys)
  | content => do
    let collapsed ← contentToOpenai py content
    some ([plainMessage role collapsed], seen)

/-- The system message, where the body has one. -/
def systemMessages (py : Interpreter) (system : Json) : Option (List Msg) :=
  match system with
  | .arr blocks =>
    if blocks.any fun b => (cacheMarker b).isSome then
      (contentToOpenai py system).map fun content => [plainMessage (.str "system") content]
    else textMessages
  | _ => textMessages
where
  textMessages : Option (List Msg) :=
    (flattenText system).map fun text =>
      if text.truthy then [plainMessage (.str "system") text] else []

/-- One message of the loop of `parse_request`. -/
def addMessage (py : Interpreter) (acc : List Msg × List DictKey) (m : Json) :
    Option (List Msg × List DictKey) :=
  if m.isObj then do
    let (out, seen) ←
      messageToOpenai py (m.getD "role" (.str "user")) (m.getD "content" .null) acc.2
    some (acc.1 ++ out, seen)
  else some acc

/-- The messages of `parse_request`. -/
def messages (py : Interpreter) (body : Json) : Option (List Msg) := do
  let first ← systemMessages py (← getField body "system")
  let items ← itemsOf (body.getD "messages" (.arr []))
  let (out, _) ← items.foldlM (addMessage py) (first, [])
  some out

end Anthropic

/-! ## 3. Gemini -/

namespace Gemini

/-- `_ROLE_IN.get(role, "user")`. -/
def roleIn (role : Json) : Option Json :=
  role.dictKey?.map fun key =>
    if key = .text "model" then .str "assistant"
    else if key = .text "system" then .str "system" else .str "user"

/-- `p.get(json) or p.get(proto) or {}`. -/
def eitherField (p : Json) (jsonName protoName : String) : Json :=
  ((p.getD jsonName .null).orElse (p.getD protoName .null)).orElse (.obj [])

def hasEither (p : Json) (jsonName protoName : String) : Bool :=
  (p.get? jsonName).isSome || (p.get? protoName).isSome

/-- The part that a text or an image becomes, if any: one pass of `_parts_to_openai`. -/
def contentPart (py : Interpreter) (p : Json) : Option (List Json) :=
  if p.isObj = false then some []
  else if (p.get? "text").isSome then some [textPart (p.getD "text" (.str ""))]
  else if hasEither p "inlineData" "inline_data" then do
    let inline := eitherField p "inlineData" "inline_data"
    let mime :=
      ((← getField inline "mimeType").orElse (inline.getD "mime_type" .null)).orElse
        (.str "image/png")
    let url := "data:" ++ py.str mime ++ ";base64," ++ py.str (inline.getD "data" (.str ""))
    some [imagePart (.str url)]
  else some []

/-- `_parts_to_openai`. -/
def partsToOpenai (py : Interpreter) : Json → Option Json
  | .arr ps => do
    let parts := (← ps.mapM (contentPart py)).flatten
    if parts.any fun part => part.getD "type" .null = .str "image_url" then some (.arr parts)
    else joinTexts parts
  | _ => some (.str "")

/-- `_GeminiToolState`: the counter, and per function name the calls that no response has
    answered, oldest first. -/
structure ToolState where
  counter : Nat := 0
  pending : Dict DictKey (List String) := ∅

/-- What the loop of `_parts_to_openai_messages` has collected. -/
structure FanOut where
  residual : List Json := []
  toolCalls : List Json := []
  toolMsgs : List Msg := []
  newCalls : List (Json × String) := []

def callId (n : Nat) : String := "call_" ++ toString n

/-- One part of the loop. -/
def fanPart (py : Interpreter) (role : Json) (acc : FanOut × ToolState) (p : Json) :
    Option (FanOut × ToolState) :=
  let (fan, state) := acc
  if p.isObj = false then some acc
  else if hasEither p "functionCall" "function_call" then do
    let fc := eitherField p "functionCall" "function_call"
    let name := (← fc.fields?.map fun _ => fc.getD "name" (.str ""))
    if role = .str "assistant" ∧ name.truthy then
      let call := functionCall (.str (callId state.counter)) name
        (safeJsonDumps py ((fc.getD "args" .null).orElse (.obj [])))
      some ({ fan with
                toolCalls := fan.toolCalls ++ [call]
                newCalls := fan.newCalls ++ [(name, callId state.counter)] },
            { state with counter := state.counter + 1 })
    else
      let text := "[functionCall " ++ py.str name ++ "]: " ++
        safeJsonDumps py ((fc.getD "args" (.obj [])).orElse (.obj []))
      some ({ fan with residual := fan.residual ++ [textPart (.str text)] }, state)
  else if hasEither p "functionResponse" "function_response" then do
    let fr := eitherField p "functionResponse" "function_response"
    let name := (← fr.fields?.map fun _ => fr.getD "name" (.str ""))
    let key ← name.dictKey?
    match name.truthy, (state.pending.get? key).getD [] with
    | true, id :: rest =>
      let content := safeJsonDumps py ((fr.getD "response" .null).orElse (.obj []))
      some ({ fan with toolMsgs := fan.toolMsgs ++ [toolMessage (.str id) content] },
            { state with pending := state.pending.set key rest })
    | _, _ =>
      let text := "[functionResponse " ++ py.str name ++ "]: " ++
        safeJsonDumps py ((fr.getD "response" (.obj [])).orElse (.obj []))
      some ({ fan with residual := fan.residual ++ [textPart (.str text)] }, state)
  else some ({ fan with residual := fan.residual ++ [p] }, state)

/-- `state.pending.setdefault(name, deque()).append(call_id)`. -/
def register (pending : Dict DictKey (List String)) (call : Json × String) :
    Option (Dict DictKey (List String)) :=
  call.1.dictKey?.map fun key => pending.set key ((pending.get? key).getD [] ++ [call.2])

/-- `_parts_to_openai_messages`. -/
def partsToOpenaiMessages (py : Interpreter) (role parts : Json) (state : ToolState) :
    Option (List Msg × ToolState) :=
  match parts with
  | .arr ps => do
    let (fan, state') ← ps.foldlM (fanPart py role) ({}, state)
    let pending ← fan.newCalls.foldlM register state'.pending
    let collapsed ← partsToOpenai py (.arr fan.residual)
    some (finalizeFanout role collapsed fan.toolCalls fan.toolMsgs,
      { state' with pending := pending })
  | parts => do
    let collapsed ← partsToOpenai py parts
    some ([plainMessage role collapsed], state)

/-- The system message, where the body has one. -/
def systemMessages (py : Interpreter) (body : Json) : Option (List Msg) := do
  let inst := (← getField body "systemInstruction").orElse (body.getD "system_instruction" .null)
  if inst.isObj then
    let text ← partsToOpenai py (inst.getD "parts" .null)
    match text with
    | .str s => some (if s ≠ "" then [plainMessage (.str "system") (.str s)] else [])
    | _ => some []
  else some []

/-- One message of the loop of `parse_request`. -/
def addMessage (py : Interpreter) (acc : List Msg × ToolState) (c : Json) :
    Option (List Msg × ToolState) :=
  if c.isObj then do
    let role ← roleIn (c.getD "role" (.str "user"))
    let (out, state) ← partsToOpenaiMessages py role (c.getD "parts" .null) acc.2
    some (acc.1 ++ out, state)
  else some acc

/-- The messages of `parse_request`. -/
def messages (py : Interpreter) (body : Json) : Option (List Msg) := do
  let first ← systemMessages py body
  let items ← itemsOf (body.getD "contents" (.arr []))
  let (out, _) ← items.foldlM (addMessage py) (first, {})
  some out

end Gemini

end TokenProxy.Ingress
