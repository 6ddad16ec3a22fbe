/-
  TokenProxy/AnthropicReplay.lean
  ===============================
  **An assistant message as Anthropic blocks and back** (`serialise_response`, then
  `_message_to_openai` of the next request).

  A client that holds a conversation sends the blocks it was answered with back as an assistant
  turn.  The arguments of a call cross as a JSON value: they are read when the answer is
  served and written anew when the turn comes back.  A call without a name is served like any
  other, but comes back as text; arguments that the interpreter refuses to read are served
  as an empty object.

  Main result: `replayed`, the message comes back with its text and its calls.
-/
import TokenProxy.AnthropicStream
import TokenProxy.ToolAnswers

namespace TokenProxy.Ingress

open Json (DictKey)
open History (Msg)
open JsonText (Floats PyJson readValue)
open Protocols

/-! ## 1. What crosses -/

/-- A content block as the client receives it and sends it back. -/
def blockJson : Block ToolUse → Json
  | .text s => .obj [("type", .str "text"), ("text", .str s)]
  | .call c => .obj [("type", .str "tool_use"), ("id", c.id), ("name", c.name), ("input", c.input)]

/-- The tool call has the id and the name, and arguments that stand for the same value. -/
structure SameCall (floats : Floats) (item : Json) (call : Call) : Prop where
  id : item.getD "id" .null = .str call.id
  name : (item.getD "function" .null).getD "name" .null = .str call.name
  args : ∃ args, (item.getD "function" .null).getD "arguments" .null = .str args ∧
    readValue floats args = readValue floats call.args

/-- The message has the role, the text and the calls of the completion; no text is as good as
    an empty one. -/
structure SameTurn (floats : Floats) (m : Msg) (w : Completion) : Prop where
  role : m.get "role" = .str "assistant"
  text : (m.get "content").orElse (.str "") = .str (w.text.getD "")
  calls : List.Forall₂ (SameCall floats) (toolCallsOf m) w.calls

/-- A call with an id whose arguments are a JSON object. -/
structure ObjectCall (floats : Floats) (call : Call) : Prop where
  id : call.id ≠ ""
  args : ∃ fields, readValue floats call.args = some (.obj fields)

/-- A call with a name, whose arguments the interpreter reads, and writes once read. -/
structure Crosses (py : PyJson) (call : Call) : Prop where
  name : call.name ≠ ""
  args : ∃ v, py.loads call.args = some v ∧ (py.dumps v).isSome

/-- The completion served as blocks comes back as one message that has its text and calls. -/
def Replayed (py : Interpreter) (resp : Json) (w : Completion) : Prop :=
  ∃ message, serialiseAnthropic py.loads resp = some message ∧ ∀ seen, ∃ m seen',
    Anthropic.messageToOpenai py (.str "assistant") (.arr (message.content.map blockJson)) seen =
      some ([m], seen') ∧ SameTurn py.floats m w

/-! ## 2. The blocks -/

theorem serialiseAnthropic_content {loads : String → Option Json} {resp : Json} {w : Completion}
    (h : IsCompletion resp w) : ∃ message, serialiseAnthropic loads resp = some message ∧
      message.content =
        if (textBlocks (optStr w.text) ++ w.calls.map (callBlock loads)).isEmpty then [.text ""]
        else textBlocks (optStr w.text) ++ w.calls.map (callBlock loads) := by
  obtain ⟨choice, msg, hchoices, hmsg, hmsgObj, hfinish, htext, hlist⟩ := h.choice
  obtain ⟨items, hitems, hcallItems⟩ := itemsOf_of_isList hlist
  have hchoice := firstChoice_of_get? hchoices
  have hchoiceObj := isObj_of_get? hmsg
  have horEmpty := orEmpty_of_isObj hmsgObj
  have hreason : ∃ reason, mapReason stopReasons "end_turn"
      ((optStr w.finishReason).orElse (.str "stop")) = some reason := by
    have hstr : ∃ reason, (optStr w.finishReason).orElse (.str "stop") = .str reason := by
      rw [Json.orElse]
      cases w.finishReason with
      | none => exact ⟨_, rfl⟩
      | some reason =>
        by_cases htruthy : (optStr (some reason)).truthy = true
        · exact ⟨reason, if_pos htruthy⟩
        · exact ⟨_, if_neg htruthy⟩
    obtain ⟨reason, hstr⟩ := hstr
    rw [hstr]
    exact ⟨_, mapReason_str _ _ _⟩
  obtain ⟨reason, hreason⟩ := hreason
  let blocks := textBlocks (optStr w.text) ++ w.calls.map (callBlock loads)
  refine ⟨{ content := if blocks.isEmpty then [.text ""] else blocks
            stopReason := reason
            usage := jsonCounts (w.usage.getD (0, 0))
            id := (resp.getD "id" (.str "")).orElse (.str "msg_0")
            model := resp.getD "model" (.str "") }, ?_, rfl⟩
  simp only [serialiseAnthropic, hchoice, getField_of_isObj hchoiceObj, getD_of_get? hmsg,
    horEmpty, getField_of_isObj hmsgObj, htext, hitems, mapM_toolUse hcallItems, hfinish, hreason,
    usageOf_of_isUsage (isObj_of_get? hchoices) h.usage, Option.bind_eq_bind, Option.bind_some,
    blocks]

/-- The texts among the blocks are kept for the content. -/
theorem fanBlock_text (py : Interpreter) (seen : List DictKey) (fan : Anthropic.FanOut)
    (s : String) : Anthropic.fanBlock py (.str "assistant") seen fan (blockJson (.text s)) =
      some { fan with residual := fan.residual ++ [blockJson (.text s)] } := by
  rfl

/-- A call with a name and an id is a tool call of the message. -/
theorem fanBlock_call (py : Interpreter) (seen : List DictKey) (fan : Anthropic.FanOut)
    {id name : String} (hid : id ≠ "") (hname : name ≠ "") (input : Json) :
    Anthropic.fanBlock py (.str "assistant") seen fan
        (blockJson (.call { id := .str id, name := .str name, input := input })) =
      some { fan with
        toolCalls := fan.toolCalls ++ [functionCall (.str id) (.str name) (safeJsonDumps py input)]
        newIds := fan.newIds ++ [.str id] } := by
  have hidTruthy : (Json.str id).truthy = true := by simp [Json.truthy, hid]
  have hnameTruthy : (Json.str name).truthy = true := by simp [Json.truthy, hname]
  let block := blockJson (.call { id := .str id, name := .str name, input := input })
  have hobj : block.isObj = true := rfl
  have htype : block.getD "type" .null = .str "tool_use" := rfl
  have hfields : block.getD "name" (.str "") = .str name ∧ block.getD "id" (.str "") = .str id ∧
      block.getD "input" (.obj []) = input ∧ Anthropic.cacheMarker block = none :=
    ⟨rfl, rfl, rfl, rfl⟩
  obtain ⟨hnameField, hidField, hinput, hmarker⟩ := hfields
  change Anthropic.fanBlock py (.str "assistant") seen fan block = _
  simp only [Anthropic.fanBlock, hobj, htype, hnameField, hidField, hinput, hmarker, hidTruthy,
    hnameTruthy, Anthropic.withMarker]
  rfl

/-- The tool call that a served call comes back as. -/
def sentBack (py : Interpreter) (call : Call) : Json :=
  functionCall (.str call.id) (.str call.name) 
    (safeJsonDumps py ((py.loads call.args).getD (.obj [])))

theorem fanBlock_calls (py : Interpreter) (seen : List DictKey) {calls : List Call}
    (hid : ∀ call ∈ calls, call.id ≠ "") (hname : ∀ call ∈ calls, call.name ≠ "")
    (fan : Anthropic.FanOut) :
    (calls.map fun call => blockJson (callBlock py.loads call)).foldlM
        (Anthropic.fanBlock py (.str "assistant") seen) fan =
      some { fan with
        toolCalls := fan.toolCalls ++ calls.map (sentBack py)
        newIds := fan.newIds ++ calls.map fun call => .str call.id } := by
  induction calls generalizing fan with
  | nil => simp
  | cons call calls ih =>
    have hfirst := fanBlock_call py seen fan (hid call List.mem_cons_self)
      (hname call List.mem_cons_self) ((py.loads call.args).getD (.obj []))
    have hrest := ih (fun c hc => hid c (List.mem_cons_of_mem _ hc))
      (fun c hc => hname c (List.mem_cons_of_mem _ hc))
    rw [List.map_cons, List.foldlM_cons]
    change (Anthropic.fanBlock py (.str "assistant") seen fan _).bind _ = _
    rw [callBlock, hfirst, Option.bind_some, hrest]
    simp [sentBack]

theorem fanBlock_texts (py : Interpreter) (seen : List DictKey) (texts : List String)
    (fan : Anthropic.FanOut) :
    (texts.map fun s => blockJson (.text s)).foldlM
        (Anthropic.fanBlock py (.str "assistant") seen) fan =
      some { fan with residual := fan.residual ++ texts.map fun s => blockJson (.text s) } := by
  induction texts generalizing fan with
  | nil => simp
  | cons s texts ih =>
    rw [List.map_cons, List.foldlM_cons, fanBlock_text]
    change Option.bind (some _) _ = _
    rw [Option.bind_some, ih]
    simp

theorem contentToOpenai_texts (py : Interpreter) (texts : List String) :
    Anthropic.contentToOpenai py (.arr (texts.map fun s => blockJson (.text s))) =
      some (.str (concat texts)) := by
  have hparts : (texts.map fun s => blockJson (.text s)).mapM (Anthropic.contentPart py) =
      some (texts.map fun s => [textPart (.str s)]) := by
    induction texts with
    | nil => rfl
    | cons s texts ih =>
      have hpart : Anthropic.contentPart py (blockJson (.text s)) = some [textPart (.str s)] := rfl
      rw [List.map_cons, List.mapM_cons, hpart, ih]
      rfl
  have hflat : (texts.map fun s => [textPart (.str s)]).flatten =
      texts.map fun s => textPart (.str s) := by
    rw [← List.flatMap_def, ← List.map_eq_flatMap]
  have hplain : ∀ s : String, Anthropic.keepsParts (textPart (.str s)) = false := fun _ => rfl
  have htexts : (texts.map fun s => textPart (.str s)).mapM
      (fun part : Json => (part.getD "text" .null).str?) = some texts := by
    clear hparts hflat hplain
    induction texts with
    | nil => rfl
    | cons s texts ih =>
      rw [List.map_cons, List.mapM_cons, ih]
      rfl
  rw [Anthropic.contentToOpenai, hparts]
  simp [hflat, hplain, joinTexts, htexts]

/-! ## 3. The round trip -/

/-- What is served holds the text in at most one block, before the calls. -/
theorem content_eq (loads : String → Option Json) (w : Completion) : ∃ texts,
    (if (textBlocks (optStr w.text) ++ w.calls.map (callBlock loads)).isEmpty then [Block.text ""]
      else textBlocks (optStr w.text) ++ w.calls.map (callBlock loads)) =
      texts.map .text ++ w.calls.map (callBlock loads) ∧ concat texts = w.text.getD "" := by
  have htext : ∃ texts, textBlocks (α := ToolUse) (optStr w.text) = texts.map .text ∧
      concat texts = w.text.getD "" := by
    cases w.text with
    | none => exact ⟨[], rfl, rfl⟩
    | some s =>
      by_cases hs : s = ""
      · refine ⟨[], ?_, hs.symm⟩
        rw [hs]
        rfl
      · refine ⟨[s], ?_, by simp [concat]⟩
        simp [optStr, textBlocks, hs]
  obtain ⟨texts, htexts, hconcat⟩ := htext
  rw [htexts]
  split
  · rename_i hempty
    obtain ⟨hnone, hcalls⟩ := List.append_eq_nil_iff.mp (List.isEmpty_iff.mp hempty)
    rw [List.map_eq_nil_iff] at hnone
    refine ⟨[""], by rw [hcalls]; rfl, ?_⟩
    rw [← hconcat, hnone]
    rfl
  · exact ⟨texts, rfl, hconcat⟩

/-- Arguments that cross stand for the same value. -/
theorem sameCall_sentBack {py : Interpreter} {call : Call} (hobject : ObjectCall py.floats call)
    (hcrosses : Crosses py.toPyJson call) : SameCall py.floats (sentBack py call) call := by
  obtain ⟨fields, hread⟩ := hobject.args
  obtain ⟨v, hloads, hdumps⟩ := hcrosses.args
  have hv : v = .obj fields := by
    rcases py.loads_eq hread with hnone | hsome
    · rw [hnone] at hloads
      cases hloads
    · rw [hsome] at hloads
      cases hloads
      rfl
  obtain ⟨text, htext⟩ := Option.isSome_iff_exists.mp hdumps
  have hinput : (py.loads call.args).getD (.obj []) = v := by
    rw [hloads]
    rfl
  have hsafe : safeJsonDumps py v = text := by
    rw [safeJsonDumps, if_neg (by rw [hv]; simp), htext]
    rfl
  refine ⟨rfl, rfl, text, ?_, ?_⟩
  · rw [sentBack, hinput, hsafe]
    rfl
  · rw [hread, ← hv]
    apply py.readValue_dumps ?_ htext
    rw [hv]
    exact JsonText.readable_of_readValue hread

/-- A completion whose calls have ids and names comes back as one message. -/
theorem turn_sentBack (py : Interpreter) {resp : Json} {w : Completion} (h : IsCompletion resp w)
    (hid : ∀ call ∈ w.calls, call.id ≠ "") (hname : ∀ call ∈ w.calls, call.name ≠ "") :
    ∃ message, serialiseAnthropic py.loads resp = some message ∧ ∀ seen, ∃ seen',
      Anthropic.messageToOpenai py (.str "assistant") (.arr (message.content.map blockJson)) seen =
        some (finalizeFanout (.str "assistant") (.str (w.text.getD "")) (w.calls.map (sentBack py)) [],
          seen') := by
  obtain ⟨message, hserved, hcontent⟩ := @serialiseAnthropic_content py.loads _ _ h
  refine ⟨message, hserved, fun seen => ⟨seen ++ w.calls.map fun call => .text call.id, ?_⟩⟩
  obtain ⟨texts, hblocks, hconcat⟩ := content_eq py.loads w
  have hfan : (message.content.map blockJson).foldlM
      (Anthropic.fanBlock py (.str "assistant") seen) {} =
      some { residual := texts.map fun s => blockJson (.text s)
             toolCalls := w.calls.map (sentBack py)
             newIds := w.calls.map fun call => .str call.id } := by
    rw [hcontent, hblocks, List.map_append, List.map_map, List.map_map, List.foldlM_append]
    change Option.bind ((texts.map fun s => blockJson (.text s)).foldlM _ _) _ = _
    rw [fanBlock_texts, Option.bind_some]
    change (w.calls.map fun call => blockJson (callBlock py.loads call)).foldlM _ _ = _
    rw [fanBlock_calls py seen hid hname]
    rfl
  have hkeys : ∀ calls : List Call, (calls.map fun call => Json.str call.id).mapM Json.dictKey? =
      some (calls.map fun call => .text call.id) := by
    intro calls
    induction calls with
    | nil => rfl
    | cons call calls ih =>
      rw [List.map_cons, List.mapM_cons, ih]
      rfl
  simp only [Anthropic.messageToOpenai, hfan, hkeys, contentToOpenai_texts, hconcat,
    Option.bind_eq_bind, Option.bind_some]

theorem str_orElse_empty (s : String) : (Json.str s).orElse (.str "") = .str s := by
  by_cases hempty : s = ""
  · rw [hempty]
    rfl
  · simp [Json.orElse, Json.truthy, hempty]

theorem str_orElse_null (s : String) : ((Json.str s).orElse .null).orElse (.str "") = .str s := by
  by_cases hempty : s = ""
  · rw [hempty]
    rfl
  · simp [Json.orElse, Json.truthy, hempty]

/-- **An assistant message survives the round trip.** -/
theorem replayed (py : Interpreter) {resp : Json} {w : Completion} (h : IsCompletion resp w)
    (hobject : ∀ call ∈ w.calls, ObjectCall py.floats call)
    (hcrosses : ∀ call ∈ w.calls, Crosses py.toPyJson call) : Replayed py resp w := by
  obtain ⟨message, hserved, hturn⟩ := turn_sentBack py h (fun call hcall => (hobject call hcall).id)
    fun call hcall => (hcrosses call hcall).name
  refine ⟨message, hserved, fun seen => ?_⟩
  obtain ⟨seen', hturn⟩ := hturn seen
  have hsame : List.Forall₂ (SameCall py.floats) (w.calls.map (sentBack py)) w.calls := by
    rw [List.forall₂_map_left_iff, List.forall₂_same]
    intro call hcall
    exact sameCall_sentBack (hobject call hcall) (hcrosses call hcall)
  obtain ⟨-, -, heq⟩ | ⟨hnone, -, heq⟩ | ⟨-, -, hne, -⟩ := finalizeFanout_cases (.str "assistant")
    (.str (w.text.getD "")) (w.calls.map (sentBack py)) []
  · refine ⟨assistantMessage ((Json.str (w.text.getD "")).orElse .null) (w.calls.map (sentBack py)),
      seen', by rw [hturn, heq]; rfl, rfl, str_orElse_null _, hsame⟩
  · have hcalls : w.calls = [] := by
      by_contra hne
      exact hnone ⟨rfl, fun hmap => hne (List.map_eq_nil_iff.mp hmap)⟩
    refine ⟨plainMessage (.str "assistant") (.str (w.text.getD "")), seen',
      by rw [hturn, heq]; rfl, rfl, str_orElse_empty _, ?_⟩
    rw [hcalls]
    exact .nil
  · exact absurd rfl hne

/-! ## 4. What does not come back -/

/-- A response with a text and one call. -/
def oneCall (text id name args : String) : Json :=
  .obj [("choices", .arr [.obj [("message", .obj [("content", .str text),
    ("tool_calls", .arr [.obj [("id", .str id),
      ("function", .obj [("name", .str name), ("arguments", .str args)])]])])]])]

theorem isCompletion_oneCall (text id name args : String) :
    IsCompletion (oneCall text id name args) ⟨some text, [⟨id, name, args⟩], none, none⟩ where
  choice := ⟨_, _, rfl, rfl, rfl, rfl, rfl, Or.inr ⟨_, rfl, .cons ⟨rfl, rfl, rfl⟩ .nil⟩⟩
  usage := Or.inl ⟨rfl, rfl⟩

theorem readValue_writeValue_object (fields : List (String × Json))
    (hnodup : (fields.map Prod.fst).Nodup) (hfields : JsonText.ReadableFields .unread fields) :
    readValue .unread (JsonText.writeValue .unread JsonText.quoteAscii (.obj fields)) =
      some (.obj fields) :=
  JsonText.readValue_writeValue JsonText.quotes_unitsOf ⟨hnodup, hfields⟩

theorem plain_loads (text : String) : plainInterpreter.loads text = readValue .unread text := rfl

theorem plain_dumps (v : Json) : (plainInterpreter.dumps v).isSome = true := rfl

/-- The arguments `{"city":"Oslo","days":3}`. -/
def weatherArgs : String :=
  JsonText.writeValue .unread JsonText.quoteAscii (.obj [("city", .str "Oslo"), ("days", .int 3)])

theorem replayed_weather : Replayed plainInterpreter
    (oneCall "Let me look." "c1" "weather" weatherArgs)
    ⟨some "Let me look.", [⟨"c1", "weather", weatherArgs⟩], none, none⟩ := by
  have hread := readValue_writeValue_object [("city", .str "Oslo"), ("days", .int 3)]
    (by decide) ⟨trivial, trivial, trivial⟩
  apply replayed plainInterpreter (isCompletion_oneCall _ _ _ _)
  · intro call hcall
    rw [List.mem_singleton.mp hcall]
    exact ⟨by decide, _, hread⟩
  · intro call hcall
    rw [List.mem_singleton.mp hcall]
    exact ⟨by decide, _, (plain_loads _).trans hread, plain_dumps _⟩

/-- An interpreter that raises on integers from the bound on; Python's bound is 10 ^ 4300. -/
def limitedInterpreter (bound : Nat) : Interpreter where
  toPyJson := .limited .unread bound
  str := fun v => v.str?.getD ""
  str_str := getD_str?_str

theorem limited_loads (bound : Nat) (text : String) : (limitedInterpreter bound).loads text =
    (readValue .unread text).filter (JsonText.intsBelow bound) := rfl

/-- Arguments that stand for an object, but that this interpreter refuses to read. -/
theorem exists_refused (bound : Nat) : ∃ args fields,
    readValue .unread args = some (.obj fields) ∧ fields ≠ [] ∧
      (limitedInterpreter bound).loads args = none := by
  let fields : List (String × Json) := [("n", .int (Int.ofNat bound))]
  have hread := readValue_writeValue_object fields (List.nodup_singleton _) ⟨trivial, trivial⟩
  refine ⟨_, fields, hread, List.cons_ne_nil _ _, ?_⟩
  have hlong : JsonText.intsBelow bound (.obj fields) = false := by
    simp [fields, JsonText.intsBelow, JsonText.intsBelowFields]
  rw [limited_loads, hread, Option.filter_some, hlong]
  rfl

theorem safeJsonDumps_limited_empty {bound : Nat} :
    readValue .unread (safeJsonDumps (limitedInterpreter bound) (.obj [])) = some (.obj []) :=
  readValue_writeValue_object [] List.nodup_nil trivial

/-- A call without a name comes back as text, and arguments that the interpreter refuses to
    read come back as an empty object. -/
theorem not_replayed :
    (¬ ∀ (py : Interpreter) (resp : Json) (w : Completion), IsCompletion resp w →
      (w.calls.map Call.id).Nodup → (∀ call ∈ w.calls, ObjectCall py.floats call) →
      Replayed py resp w) ∧
    ¬ ∀ (py : Interpreter) (resp : Json) (w : Completion), IsCompletion resp w →
      (w.calls.map Call.id).Nodup → (∀ call ∈ w.calls, ObjectCall py.floats call) →
      (∀ call ∈ w.calls, call.name ≠ "") → Replayed py resp w := by
  constructor
  · intro hclaim
    obtain ⟨message, hserved, hback⟩ := hclaim plainInterpreter (oneCall "" "c1" "" "{}") _
      (isCompletion_oneCall "" "c1" "" "{}") (List.nodup_singleton _) (by
        intro call hcall
        rw [List.mem_singleton.mp hcall]
        exact ⟨by decide, [], rfl⟩)
    obtain ⟨m, seen', hturn, hsame⟩ := hback []
    have hmessage : serialiseAnthropic plainInterpreter.loads (oneCall "" "c1" "" "{}") = some
        { content := [.call { id := .str "c1", name := .str "", input := .obj [] }]
          stopReason := "end_turn"
          usage := (.int 0, .int 0)
          id := .str "msg_0"
          model := .str "" } := by rfl
    rw [hmessage] at hserved
    cases hserved
    have hcalls : toolCallsOf m = [] := by
      cases hturn
      rfl
    have hnone := hsame.calls
    rw [hcalls] at hnone
    cases hnone
  · intro hclaim
    obtain ⟨args, fields, hread, hne, hrefused⟩ := exists_refused (10 ^ 4300)
    generalize 10 ^ 4300 = bound at hrefused
    have hcompletion := isCompletion_oneCall "" "c1" "f" args
    have hid : ∀ call ∈ [Call.mk "c1" "f" args], call.id ≠ "" ∧ call.name ≠ "" := by
      intro call hcall
      rw [List.mem_singleton.mp hcall]
      exact ⟨by simp, by simp⟩
    obtain ⟨message, hserved, hback⟩ := hclaim (limitedInterpreter bound) (oneCall "" "c1" "f" args) _
      hcompletion (List.nodup_singleton _) (by
        intro call hcall
        rw [List.mem_singleton.mp hcall]
        exact ⟨by simp, _, hread⟩) fun call hcall => (hid call hcall).2
    obtain ⟨message', hserved', hturn'⟩ := turn_sentBack (limitedInterpreter bound) hcompletion
      (fun call hcall => (hid call hcall).1) fun call hcall => (hid call hcall).2
    obtain ⟨m, seen', hturn, hsame⟩ := hback []
    obtain ⟨seen'', hturn'⟩ := hturn' []
    rw [hserved] at hserved'
    cases hserved'
    rw [hturn'] at hturn
    cases hturn
    -- the call that came back has the empty object
    have hcalls := hsame.calls
    change List.Forall₂ _ [sentBack (limitedInterpreter bound) ⟨"c1", "f", args⟩] _ at hcalls
    cases hcalls with
    | cons hcall _ =>
      obtain ⟨args', hargs', hvalue⟩ := hcall.args
      rw [sentBack, hrefused] at hargs'
      have hempty : safeJsonDumps (limitedInterpreter bound) (.obj []) = args' := Json.str.inj hargs'
      have hargs : readValue .unread args' = readValue .unread args := hvalue
      rw [← hempty, safeJsonDumps_limited_empty, hread, Option.some.injEq, Json.obj.injEq] at hargs
      exact hne hargs.symm

end TokenProxy.Ingress
