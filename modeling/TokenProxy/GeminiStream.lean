/-
  TokenProxy/GeminiStream.lean
  ============================
  **Gemini candidates, whole and streamed** (`protocols/gemini_ingress.py`:
  `serialise_response`, `_GeminiStream`).

  A frame holds the parts that come with it; the last one the finish reason and the
  usage as well.  A Gemini client strings the parts together, so two texts in a row are
  one (`joined`).

  Main result: `assembled_frames`, the frames that a split completion is translated to
  end with the one final frame, and carry its text, its calls, the finish reason and the
  usage.
-/
import TokenProxy.StreamChunks

namespace TokenProxy.Protocols

/-! ## 1. A whole completion -/

/-- `_FINISH_REASON`. -/
def finishReasons : List (String × String) :=
  [("stop", "STOP"), ("length", "MAX_TOKENS"), ("content_filter", "SAFETY"),
   ("tool_calls", "STOP"), ("function_call", "STOP")]

structure FunctionCall where
  name : Json
  args : Json
deriving DecidableEq

structure GeminiServed extends Served FunctionCall where
  totalTokens : Json
deriving DecidableEq

structure GeminiMessage extends GeminiServed where
  modelVersion : Json

/-- `prompt + completion`; counts that are no integers are not modelled. -/
def addCounts : Json × Json → Option Json
  | (.int prompt, .int completion) => some (.int (prompt + completion))
  | _ => none

def functionCall (loads : String → Option Json) (tc : Json) : Option (Block FunctionCall) := do
  let fn := orEmpty (← getField tc "function")
  let args ← getField fn "arguments"
  some (.call { name := fn.getD "name" (.str ""), args := toolInput loads args })

def serialiseGemini (loads : String → Option Json) (resp : Json) : Option GeminiMessage := do
  let choice ← firstChoice resp
  let msg := orEmpty (← getField choice "message")
  let text := textBlocks (← getField msg "content")
  let calls ← (← itemsOf (← getField msg "tool_calls")).mapM (functionCall loads)
  let parts := text ++ calls
  let usage ← usageOf resp
  let total ← addCounts usage
  let finishReason ←
    mapReason finishReasons "STOP" ((← getField choice "finish_reason").orElse (.str "stop"))
  some { content := if parts.isEmpty then [.text ""] else parts
         stopReason := finishReason
         usage := usage
         totalTokens := total
         modelVersion := resp.getD "model" (.str "") }

/-! ## 2. The stream -/

inductive GeminiFrame where
  | parts (content : List (Block FunctionCall))
  | final (served : GeminiServed)
  | error (message : String)
deriving DecidableEq

structure GeminiStream where
  model : Json := .str ""
  /-- prompt and completion tokens -/
  counts : Json × Json := (.int 0, .int 0)
  finishReason : String := "STOP"
  /-- text that came on the finish_reason chunk -/
  finalText : String := ""
  toolCalls : Slots := ∅

namespace GeminiStream

/-- The text of a delta, empty where it is no string. -/
def textOf : Json → String
  | .str text => text
  | _ => ""

def chunk (st : GeminiStream) (body : Json) : Option (List GeminiFrame × GeminiStream) := do
  let model := (← getField body "model").orElse st.model
  let counts ← noteUsage st.counts body
  let choice ← firstChoice body
  let delta := orEmpty (← getField choice "delta")
  let text := textOf (← getField delta "content")
  let finish ← getField choice "finish_reason"
  let toolCalls ←
    (← itemsOf (← getField delta "tool_calls")).foldlM (noteFragment false) st.toolCalls
  let finishReason ← noteFinish finishReasons "STOP" st.finishReason finish
  -- the text of a finish chunk is held for the terminal frame
  some (if finish.truthy then [] else if text ≠ "" then [.parts [.text text]] else [],
    { model := model, counts := counts, finishReason := finishReason
      finalText := if finish.truthy then st.finalText ++ text else st.finalText
      toolCalls := toolCalls })

def toolCallPart (loads : String → Option Json) (slot : Slot) : Option (Block FunctionCall) :=
  if slot.name.truthy then
    let args := if KeyStore.strip slot.args ≠ "" then (loads slot.args).getD (.obj []) else .obj []
    some (.call { name := slot.name, args := args })
  else none

def toolCallParts (loads : String → Option Json) (st : GeminiStream) : List (Block FunctionCall) :=
  (sortedSlots st.toolCalls).filterMap (toolCallPart loads)

def finish (loads : String → Option Json) (st : GeminiStream) : Option (List GeminiFrame) := do
  let parts := (if st.finalText ≠ "" then [.text st.finalText] else []) ++ st.toolCallParts loads
  let total ← addCounts st.counts
  some [.final { content := if parts.isEmpty then [.text ""] else parts
                 stopReason := st.finishReason
                 usage := st.counts
                 totalTokens := total }]

end GeminiStream

/-- All frames of a stream: the chunks one after the other, then `finish`. -/
def geminiFrames (loads : String → Option Json) (bodies : List Json) :
    Option (List GeminiFrame) := do
  let (frames, st) ← feed GeminiStream.chunk {} bodies
  let last ← st.finish loads
  some (frames ++ last)

/-! ## 3. The client -/

/-- What the frames carry, where the final frame comes once and last. -/
def assembledGemini : List GeminiFrame → Option GeminiServed
  | [.final served] => some served
  | .parts content :: frames =>
    (assembledGemini frames).map fun served => { served with content := content ++ served.content }
  | _ => none

def joinBlock {α : Type} : Block α → List (Block α) → List (Block α)
  | .text s, .text t :: content => .text (s ++ t) :: content
  | block, content => block :: content

/-- The content with texts in a row strung together. -/
def joined {α : Type} (content : List (Block α)) : List (Block α) := content.foldr joinBlock []

theorem joined_calls {α : Type} (cs : List α) : joined (cs.map Block.call) = cs.map Block.call := by
  induction cs with
  | nil => rfl
  | cons c cs ih =>
    rw [List.map_cons, joined, List.foldr_cons]
    rw [joined] at ih
    rw [ih]
    rfl

/-- Texts before the calls are one text. -/
theorem joined_texts {α : Type} (texts : List String) (cs : List α) :
    nonEmpty (joined (texts.map Block.text ++ cs.map Block.call)) =
      nonEmpty (.text (concat texts) :: cs.map Block.call) := by
  have hjoined : ∀ texts : List String, texts ≠ [] →
      joined (texts.map Block.text ++ cs.map Block.call) =
        .text (concat texts) :: cs.map Block.call := by
    intro texts hne
    induction texts with
    | nil => exact absurd rfl hne
    | cons s texts ih =>
      by_cases htexts : texts = []
      · subst htexts
        have hcalls := joined_calls cs
        rw [joined] at hcalls
        rw [List.map_singleton, List.singleton_append, joined, List.foldr_cons, hcalls]
        cases cs with
        | nil => simp [joinBlock, concat]
        | cons c cs => simp [joinBlock, concat]
      · have hrest := ih htexts
        rw [joined] at hrest
        rw [List.map_cons, List.cons_append, joined, List.foldr_cons, hrest]
        rfl
  by_cases hne : texts = []
  · subst hne
    rw [List.map_nil, List.nil_append, joined_calls]
    simp [nonEmpty, concat]
  · rw [hjoined texts hne]

theorem assembledGemini_append (texts : List String) (frames : List GeminiFrame) :
    assembledGemini (texts.map (fun text => .parts [.text text]) ++ frames) =
      (assembledGemini frames).map fun served =>
        { served with content := texts.map Block.text ++ served.content } := by
  induction texts with
  | nil => simp
  | cons text texts ih =>
    rw [List.map_cons, List.cons_append, assembledGemini, ih, Option.map_map]
    rfl

/-! ## 4. What the chunks leave -/

/-- The translator's state after these chunks, and the texts it has sent. -/
structure GeminiStream.Tracks (st : GeminiStream) (cs : List Chunk) (sent : List String) :
    Prop where
  counts : st.counts = jsonCounts ((cs.map Chunk.usage).foldl addUsage (0, 0))
  toolCalls : st.toolCalls = collect false ∅ (allFragments cs)
  finishReason : st.finishReason = reasonName finishReasons "STOP" (cs.foldl addFinish none)
  text : concat sent ++ st.finalText = concat (cs.map Chunk.piece)
  held : st.finalText ≠ "" → ∃ c ∈ cs, c.finishReason.isSome

theorem gemini_tracks_nil : GeminiStream.Tracks {} [] [] where
  counts := rfl
  toolCalls := rfl
  finishReason := rfl
  text := rfl
  held := by simp

def partsFrame (text : String) : GeminiFrame := .parts [.text text]

theorem textOf_of_chunk (c : Chunk) : GeminiStream.textOf (optStr c.text) = c.piece := by
  cases h : c.text with
  | none => simp [optStr, GeminiStream.textOf, Chunk.piece, h]
  | some s => simp [optStr, GeminiStream.textOf, Chunk.piece, h]

/-- One chunk: its text goes out at once, unless it names the finish reason. -/
theorem gemini_chunk_of_isChunk {st : GeminiStream} {cs : List Chunk} {sent : List String}
    (htracks : st.Tracks cs sent) {body : Json} {c : Chunk} (h : IsChunk body c)
    (hends : ∀ a ∈ cs, a.finishReason.isSome → c.piece = "") :
    ∃ (st' : GeminiStream) (texts : List String),
      st.chunk body = some (texts.map partsFrame, st') ∧
      st'.Tracks (cs ++ [c]) (sent ++ texts) := by
  obtain ⟨choice, delta, hchoice, hchoiceObj, hdelta, hdeltaObj, hfinish, htext, hcalls⟩ := h.choice
  obtain ⟨items, hitems, hfragments⟩ := itemsOf_of_isList hcalls
  let finished : Bool := (optStr c.finishReason).truthy
  let texts := if finished then [] else if c.piece ≠ "" then [c.piece] else []
  refine ⟨{ model := (body.getD "model" .null).orElse st.model
            counts := jsonCounts (((cs ++ [c]).map Chunk.usage).foldl addUsage (0, 0))
            finishReason := reasonName finishReasons "STOP" ((cs ++ [c]).foldl addFinish none)
            finalText := if finished then st.finalText ++ c.piece else st.finalText
            toolCalls := collect false ∅ (allFragments (cs ++ [c])) }, texts, ?_, ?_⟩
  · have hreason := noteFinish_of_chunk finishReasons "STOP" (cs.foldl addFinish none) c
    have hfold := foldlM_noteFragment hfragments false st.toolCalls
    have hcounts := noteUsage_of_isUsage h.isObj h.usage
      ((cs.map Chunk.usage).foldl addUsage (0, 0))
    have hframes : texts.map partsFrame =
        if finished then [] else if c.piece ≠ "" then [.parts [.text c.piece]] else [] := by
      simp only [texts]
      split
      · rfl
      · split
        · rfl
        · rfl
    rw [← htracks.counts] at hcounts
    rw [← htracks.finishReason] at hreason
    rw [htracks.toolCalls, ← collect_append] at hfold
    rw [hframes]
    simp only [GeminiStream.chunk, getField_of_isObj h.isObj, getField_of_isObj hchoiceObj,
      hchoice, hcounts, hfinish, hreason, hdelta, getField_of_isObj hdeltaObj, htext, hitems,
      htracks.toolCalls, hfold, Option.bind_eq_bind, Option.bind_some, textOf_of_chunk]
    simp [allFragments, finished]
  · have hnoText : st.finalText ≠ "" → c.piece = "" := by
      intro hheld
      obtain ⟨a, ha, hsome⟩ := htracks.held hheld
      exact hends a ha hsome
    refine { counts := rfl, toolCalls := rfl, finishReason := rfl, text := ?_, held := ?_ }
    · rw [concat_pieces_snoc, ← htracks.text, concat_append]
      by_cases hfinished : finished = true
      · simp [texts, hfinished, concat, String.append_assoc]
      · by_cases hheld : st.finalText = ""
        · by_cases hpiece : c.piece = ""
          · simp [texts, hfinished, hpiece, concat, hheld]
          · simp [texts, hfinished, hpiece, concat, hheld]
        · simp [texts, hfinished, hnoText hheld, concat]
    · intro hheld
      by_cases hfinished : finished = true
      · refine ⟨c, by simp, ?_⟩
        cases hreason : c.finishReason with
        | none => simp [finished, hreason, optStr, Json.truthy] at hfinished
        | some reason => rfl
      · simp only [hfinished] at hheld
        obtain ⟨a, ha, hsome⟩ := htracks.held hheld
        exact ⟨a, List.mem_append_left _ ha, hsome⟩

/-- The stream, run over the chunks. -/
theorem gemini_feed_of_isChunk {bodies : List Json} {ds : List Chunk}
    (h : List.Forall₂ IsChunk bodies ds) {st : GeminiStream} {cs : List Chunk}
    {sent : List String} (htracks : st.Tracks cs sent)
    (hends : (cs ++ ds).Pairwise fun a b => a.finishReason.isSome → b.piece = "") :
    ∃ (texts : List String) (st' : GeminiStream),
      feed GeminiStream.chunk st bodies = some (texts.map partsFrame, st') ∧
      st'.Tracks (cs ++ ds) (sent ++ texts) := by
  induction h generalizing st cs sent with
  | nil => exact ⟨[], st, rfl, by simpa using htracks⟩
  | @cons body c bodies ds hc _ ih =>
    have hbefore : ∀ a ∈ cs, a.finishReason.isSome → c.piece = "" := by
      intro a ha
      exact (List.pairwise_append.mp hends).2.2 a ha c List.mem_cons_self
    obtain ⟨next, texts, hchunk, hnext⟩ := gemini_chunk_of_isChunk htracks hc hbefore
    obtain ⟨rest, st', hfeed, htracks'⟩ := ih hnext (by simpa using hends)
    refine ⟨texts ++ rest, st', ?_, by simpa using htracks'⟩
    rw [feed, hchunk]
    simp only [Option.bind_eq_bind, Option.bind_some, hfeed, List.map_append]

/-! ## 5. The end of the stream -/

/-- The call that a call is served as. -/
def callPart (loads : String → Option Json) (call : Call) : FunctionCall where
  name := .str call.name
  args := (loads call.args).getD (.obj [])

theorem toolCallPart_slotOf {loads : String → Option Json}
    (hblank : ∀ s, KeyStore.strip s = "" → loads s = none) {call : Call}
    (hcall : Callable loads call) : GeminiStream.toolCallPart loads (slotOf false call) =
      some (.call (callPart loads call)) := by
  obtain ⟨-, hname, fields, hloads⟩ := hcall
  have hargs : KeyStore.strip call.args ≠ "" := by
    intro hstrip
    rw [hblank _ hstrip] at hloads
    cases hloads
  simp [GeminiStream.toolCallPart, slotOf, Json.truthy, hname, hargs, callPart]

theorem filterMap_toolCallPart {loads : String → Option Json}
    (hblank : ∀ s, KeyStore.strip s = "" → loads s = none) {calls : List Call}
    (hcalls : ∀ call ∈ calls, Callable loads call) :
    (calls.map (slotOf false)).filterMap (GeminiStream.toolCallPart loads) =
      (calls.map (callPart loads)).map Block.call := by
  induction calls with
  | nil => rfl
  | cons call calls ih =>
    rw [List.map_cons, List.filterMap_cons,
      toolCallPart_slotOf hblank (hcalls call List.mem_cons_self)]
    exact congrArg _ (ih fun d hd => hcalls d (List.mem_cons_of_mem call hd))

/-- **The stream read back**: the frames carry the text and the calls in order, the finish
    reason and the counts of the last usage. -/
theorem assembled_frames {loads : String → Option Json}
    (hblank : ∀ s, KeyStore.strip s = "" → loads s = none) {w : Completion} {chunks : List Chunk}
    (hsplit : Splits w chunks) (hcalls : ∀ call ∈ w.calls, Callable loads call)
    {bodies : List Json} (hbodies : List.Forall₂ IsChunk bodies chunks) :
    ∃ frames served, geminiFrames loads bodies = some frames ∧
      assembledGemini frames = some served ∧
      nonEmpty (joined served.content) =
        nonEmpty (.text (w.text.getD "") :: (w.calls.map (callPart loads)).map Block.call) ∧
      served.stopReason = reasonName finishReasons "STOP" (chunks.foldl addFinish none) ∧
      served.usage = jsonCounts (w.usage.getD (0, 0)) ∧
      some served.totalTokens = addCounts served.usage := by
  have hends : chunks.Pairwise fun a b => a.finishReason.isSome → b.piece = "" :=
    hsplit.ends.imp fun h hsome => (h hsome).1
  obtain ⟨texts, st, hfeed, htracks⟩ := gemini_feed_of_isChunk hbodies gemini_tracks_nil hends
  rw [List.nil_append, List.nil_append] at htracks
  have hslots : sortedSlots st.toolCalls = w.calls.map (slotOf false) := by
    rw [htracks.toolCalls]
    exact collected_of_split hsplit (fun call hc => (hcalls call hc).1)
      (fun call hc => (hcalls call hc).2.1) false
  have hparts : st.toolCallParts loads = (w.calls.map (callPart loads)).map Block.call := by
    rw [GeminiStream.toolCallParts, hslots, filterMap_toolCallPart hblank hcalls]
  have hcounts : st.counts = jsonCounts (w.usage.getD (0, 0)) := by
    rw [htracks.counts, usage_of_split hsplit]
  obtain ⟨total, htotal⟩ : ∃ total, addCounts st.counts = some total := by
    rw [hcounts]
    exact ⟨_, rfl⟩
  -- the texts of the final frame: the one held, or the one empty text of an empty answer
  obtain ⟨last, hlast, hlastText⟩ : ∃ last : List String,
      (if ((if st.finalText ≠ "" then [Block.text st.finalText] else []) ++
          (w.calls.map (callPart loads)).map Block.call).isEmpty then [.text ""]
        else (if st.finalText ≠ "" then [Block.text st.finalText] else []) ++
          (w.calls.map (callPart loads)).map Block.call) =
        last.map Block.text ++ (w.calls.map (callPart loads)).map Block.call ∧
      concat last = st.finalText := by
    by_cases hfinal : st.finalText = ""
    · cases hw : w.calls with
      | nil => exact ⟨[""], by simp [hfinal], by simp [concat, hfinal]⟩
      | cons call calls => exact ⟨[], by simp [hfinal], by simp [concat, hfinal]⟩
    · exact ⟨[st.finalText], by simp [hfinal], by simp [concat]⟩
  refine ⟨texts.map partsFrame ++ [.final
    { content := last.map Block.text ++ (w.calls.map (callPart loads)).map Block.call
      stopReason := st.finishReason
      usage := st.counts
      totalTokens := total }],
    { content := texts.map Block.text ++
        (last.map Block.text ++ (w.calls.map (callPart loads)).map Block.call)
      stopReason := st.finishReason
      usage := st.counts
      totalTokens := total }, ?_, ?_, ?_, htracks.finishReason, hcounts, htotal.symm⟩
  · simp only [geminiFrames, hfeed, GeminiStream.finish, hparts, htotal, Option.bind_eq_bind,
      Option.bind_some, hlast]
  · exact assembledGemini_append texts _
  · rw [← List.append_assoc, ← List.map_append, joined_texts, concat_append, hlastText,
      htracks.text, hsplit.text]

/-! ## 6. The whole completion -/

theorem functionCall_of_isCall {loads : String → Option Json} {item : Json} {call : Call}
    (h : IsCall item call) :
    functionCall loads item = some (.call (callPart loads call)) := by
  have hid := get?_of_getD_str h.id
  have hname := get?_of_getD_str h.name
  rw [functionCall, getField_of_isObj (isObj_of_get? hid), Option.bind_eq_bind, Option.bind_some]
  dsimp only
  rw [orEmpty_of_get? hname, getField_of_isObj (isObj_of_get? hname), Option.bind_some,
    getD_of_get? hname, h.args]
  rfl

theorem mapM_functionCall {loads : String → Option Json} {items : List Json} {calls : List Call}
    (h : List.Forall₂ IsCall items calls) :
    items.mapM (functionCall loads) = some ((calls.map (callPart loads)).map Block.call) := by
  induction h with
  | nil => rfl
  | cons hitem _ ih =>
    rw [List.mapM_cons, functionCall_of_isCall hitem, ih]
    rfl

theorem serialiseGemini_of_isCompletion {loads : String → Option Json} {resp : Json}
    {w : Completion} {chunks : List Chunk} (h : IsCompletion resp w) (hsplit : Splits w chunks) :
    ∃ message, serialiseGemini loads resp = some message ∧
      nonEmpty message.content =
        nonEmpty (.text (w.text.getD "") :: (w.calls.map (callPart loads)).map Block.call) ∧
      message.stopReason = reasonName finishReasons "STOP" (chunks.foldl addFinish none) ∧
      message.usage = jsonCounts (w.usage.getD (0, 0)) ∧
      some message.totalTokens = addCounts message.usage := by
  obtain ⟨choice, msg, hchoices, hmsg, hmsgObj, hfinish, htext, hlist⟩ := h.choice
  obtain ⟨items, hitems, hcallItems⟩ := itemsOf_of_isList hlist
  have hchoice := firstChoice_of_get? hchoices
  have hchoiceObj := isObj_of_get? hmsg
  obtain ⟨total, htotal⟩ : ∃ total, addCounts (jsonCounts (w.usage.getD (0, 0))) = some total :=
    ⟨_, rfl⟩
  let calls : List (Block FunctionCall) := (w.calls.map (callPart loads)).map Block.call
  let parts := textBlocks (optStr w.text) ++ calls
  refine ⟨{ content := if parts.isEmpty then [.text ""] else parts
            stopReason := reasonName finishReasons "STOP" (chunks.foldl addFinish none)
            usage := jsonCounts (w.usage.getD (0, 0))
            totalTokens := total
            modelVersion := resp.getD "model" (.str "") }, ?_, ?_, rfl, rfl, htotal.symm⟩
  · simp only [serialiseGemini, hchoice, getField_of_isObj hchoiceObj, getD_of_get? hmsg,
      orEmpty_of_isObj hmsgObj, getField_of_isObj hmsgObj, htext, hitems,
      mapM_functionCall hcallItems, hfinish, mapReason_of_split hsplit,
      usageOf_of_isUsage (isObj_of_get? hchoices) h.usage, htotal, Option.bind_eq_bind,
      Option.bind_some, parts, calls]
  · exact nonEmpty_blocks w.text calls

end TokenProxy.Protocols
