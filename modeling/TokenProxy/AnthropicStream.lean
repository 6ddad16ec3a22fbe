/-
  TokenProxy/AnthropicStream.lean
  ===============================
  **Anthropic messages, whole and streamed** (`protocols/anthropic_ingress.py`:
  `serialise_response`, `_AnthropicStream`).

  Events are modelled by what their `data` line holds; the fields that are the same in
  every message (type, role, stop_sequence) are left out.  Section 3 is the client's side:
  a reader that takes one event after the other, refuses a stream that is not well formed,
  and puts the message together.

  Main result: `assembled_events`, the reader accepts what a split completion is
  translated to, and has its text, its calls, the finish reason and the usage.
-/
import TokenProxy.StreamChunks

namespace TokenProxy.Protocols

/-! ## 1. A whole completion -/

/-- `_STOP_REASON`. -/
def stopReasons : List (String × String) :=
  [("stop", "end_turn"), ("length", "max_tokens"), ("tool_calls", "tool_use"),
   ("content_filter", "end_turn"), ("function_call", "tool_use")]

structure ToolUse where
  id : Json
  name : Json
  input : Json
deriving DecidableEq

structure AnthropicMessage extends Served ToolUse where
  id : Json
  model : Json

def toolUse (loads : String → Option Json) (tc : Json) : Option (Block ToolUse) := do
  let fn := orEmpty (← getField tc "function")
  let args ← getField fn "arguments"
  some (.call { id := tc.getD "id" (.str ""), name := fn.getD "name" (.str ""),
                input := toolInput loads args })

def serialiseAnthropic (loads : String → Option Json) (resp : Json) : Option AnthropicMessage := do
  let choice ← firstChoice resp
  let msg := orEmpty (← getField choice "message")
  let text := textBlocks (← getField msg "content")
  let calls ← (← itemsOf (← getField msg "tool_calls")).mapM (toolUse loads)
  let blocks := text ++ calls
  let stopReason ←
    mapReason stopReasons "end_turn" ((← getField choice "finish_reason").orElse (.str "stop"))
  let usage ← usageOf resp
  some { content := if blocks.isEmpty then [.text ""] else blocks
         stopReason := stopReason
         usage := usage
         id := (resp.getD "id" (.str "")).orElse (.str "msg_0")
         model := resp.getD "model" (.str "") }

/-! ## 2. The stream -/

inductive AnthropicEvent where
  | messageStart (id model inputTokens : Json)
  | textStart (index : Nat)
  | toolStart (index : Nat) (id name : Json)
  | textDelta (index : Nat) (text : String)
  | inputDelta (index : Nat) (partialJson : String)
  | blockStop (index : Nat)
  | messageDelta (stopReason : String) (usage : Json × Json)
  | messageStop
  | error (message : String)
deriving DecidableEq

structure AnthropicStream where
  started : Bool := false
  model : Json := .str ""
  msgId : Json := .str "msg_0"
  stopReason : String := "end_turn"
  /-- input and output tokens -/
  counts : Json × Json := (.int 0, .int 0)
  toolCalls : Slots := ∅

namespace AnthropicStream

def emitStart (st : AnthropicStream) : List AnthropicEvent :=
  [.messageStart st.msgId st.model st.counts.1, .textStart 0]

def textDeltas : Json → List AnthropicEvent
  | .str text => if text ≠ "" then [.textDelta 0 text] else []
  | _ => []

def chunk (st : AnthropicStream) (body : Json) : Option (List AnthropicEvent × AnthropicStream) := do
  let model := (← getField body "model").orElse st.model
  let msgId := (← getField body "id").orElse st.msgId
  let counts ← noteUsage st.counts body
  let choice ← firstChoice body
  let stopReason ←
    noteFinish stopReasons "end_turn" st.stopReason (← getField choice "finish_reason")
  let delta := orEmpty (← getField choice "delta")
  let text ← getField delta "content"
  let toolCalls ←
    (← itemsOf (← getField delta "tool_calls")).foldlM (noteFragment true) st.toolCalls
  let next : AnthropicStream :=
    { started := true, model := model, msgId := msgId, stopReason := stopReason,
      counts := counts, toolCalls := toolCalls }
  some ((if st.started then [] else next.emitStart) ++ textDeltas text, next)

/-- The tool_use blocks of `finish`, from this block index on. -/
def toolEvents : Nat → List Slot → List AnthropicEvent
  | _, [] => []
  | index, slot :: slots =>
    [.toolStart index slot.id slot.name,
     .inputDelta index (if KeyStore.strip slot.args ≠ "" then slot.args else "\x7b\x7d"),
     .blockStop index] ++ toolEvents (index + 1) slots

def finish (st : AnthropicStream) : List AnthropicEvent :=
  (if st.started then [] else st.emitStart) ++ [.blockStop 0] ++
    toolEvents 1 (sortedSlots st.toolCalls) ++ [.messageDelta st.stopReason st.counts, .messageStop]

end AnthropicStream

/-- All events of a stream: the chunks one after the other, then `finish`. -/
def anthropicEvents (bodies : List Json) : Option (List AnthropicEvent) := do
  let (events, st) ← feed AnthropicStream.chunk {} bodies
  some (events ++ st.finish)

/-! ## 3. The client's reader -/

/-- The block being received. -/
inductive Received where
  | text (s : String)
  | toolUse (id name : Json) (partialJson : String)
deriving DecidableEq

/-- A block when it closes: a call's pieces have to be one JSON text. -/
def Received.close (loads : String → Option Json) : Received → Option (Block ToolUse)
  | .text s => some (.text s)
  | .toolUse id name partialJson => (loads partialJson).map fun input => .call ⟨id, name, input⟩

inductive Reader where
  /-- before message_start -/
  | waiting
  | reading (closed : List (Block ToolUse)) (current : Option Received)
  /-- after message_delta -/
  | ending (served : Served ToolUse)
  | stopped (served : Served ToolUse)
deriving DecidableEq

/-- One event; `none` where it may not come now, or not under that index. -/
def Reader.read (loads : String → Option Json) : Reader → AnthropicEvent → Option Reader
  | .waiting, .messageStart _ _ _ => some (.reading [] none)
  | .reading closed none, .textStart index =>
    if index = closed.length then some (.reading closed (some (.text ""))) else none
  | .reading closed none, .toolStart index id name =>
    if index = closed.length then some (.reading closed (some (.toolUse id name ""))) else none
  | .reading closed (some (.text s)), .textDelta index text =>
    if index = closed.length then some (.reading closed (some (.text (s ++ text)))) else none
  | .reading closed (some (.toolUse id name json)), .inputDelta index piece =>
    if index = closed.length then some (.reading closed (some (.toolUse id name (json ++ piece))))
    else none
  | .reading closed (some received), .blockStop index =>
    if index = closed.length then
      (received.close loads).map fun block => .reading (closed ++ [block]) none
    else none
  | .reading closed none, .messageDelta stopReason usage =>
    some (.ending { content := closed, stopReason := stopReason, usage := usage })
  | .ending served, .messageStop => some (.stopped served)
  | _, _ => none

/-- The message that a well-formed stream carries. -/
def assembled (loads : String → Option Json) (events : List AnthropicEvent) :
    Option (Served ToolUse) :=
  match events.foldlM (Reader.read loads) .waiting with
  | some (.stopped served) => some served
  | _ => none

/-! ## 4. Well-formed streams -/

/-- One block: its deltas stand between its start and its stop, all under its index. -/
inductive IsBlock (index : Nat) : List AnthropicEvent → Prop where
  | text (pieces : List String) :
    IsBlock index (.textStart index :: pieces.map (.textDelta index) ++ [.blockStop index])
  | toolUse (id name : Json) (pieces : List String) :
    IsBlock index (.toolStart index id name :: pieces.map (.inputDelta index) ++ [.blockStop index])

/-- Blocks one after the other, numbered from here. -/
inductive AreBlocks : Nat → List AnthropicEvent → Prop where
  | nil (index : Nat) : AreBlocks index []
  | cons {index : Nat} {block rest : List AnthropicEvent} (hblock : IsBlock index block)
      (hrest : AreBlocks (index + 1) rest) : AreBlocks index (block ++ rest)

def WellFormed (events : List AnthropicEvent) : Prop :=
  ∃ id model inputTokens blocks stopReason usage, AreBlocks 0 blocks ∧
    events = .messageStart id model inputTokens :: blocks ++
      [.messageDelta stopReason usage, .messageStop]

theorem foldlM_read_cons (loads : String → Option Json) (reader : Reader) (e : AnthropicEvent)
    (es : List AnthropicEvent) : (e :: es).foldlM (Reader.read loads) reader =
      (reader.read loads e).bind fun next => es.foldlM (Reader.read loads) next := rfl

theorem read_stopped {loads : String → Option Json} {served final : Served ToolUse}
    {events : List AnthropicEvent}
    (h : events.foldlM (Reader.read loads) (.stopped served) = some (.stopped final)) :
    events = [] := by
  cases events with
  | nil => rfl
  | cons e es => cases h

theorem read_ending {loads : String → Option Json} {served final : Served ToolUse}
    {events : List AnthropicEvent}
    (h : events.foldlM (Reader.read loads) (.ending served) = some (.stopped final)) :
    events = [.messageStop] := by
  cases events with
  | nil => cases h
  | cons e es =>
    cases e with
    | messageStop => rw [@read_stopped loads _ _ _ h]
    | _ => cases h

/-- With a block open, only its deltas come before its stop. -/
theorem read_open {loads : String → Option Json} {closed : List (Block ToolUse)}
    {final : Served ToolUse} {received : Received} {events : List AnthropicEvent}
    (h : events.foldlM (Reader.read loads) (.reading closed (some received)) =
      some (.stopped final)) : ∃ (pieces : List String) (block : Block ToolUse)
      (rest : List AnthropicEvent),
      events = pieces.map (match received with
        | .text _ => AnthropicEvent.textDelta closed.length
        | .toolUse _ _ _ => AnthropicEvent.inputDelta closed.length) ++
          .blockStop closed.length :: rest ∧
      rest.foldlM (Reader.read loads) (.reading (closed ++ [block]) none) =
        some (.stopped final) := by
  induction events generalizing received with
  | nil => cases h
  | cons e es ih =>
    rw [foldlM_read_cons, Option.bind_eq_some_iff] at h
    obtain ⟨next, hread, hrest⟩ := h
    cases e with
    | textDelta index text =>
      cases received with
      | toolUse id name json => cases hread
      | text s =>
        simp only [Reader.read, Option.ite_none_right_eq_some, Option.some.injEq] at hread
        obtain ⟨rfl, rfl⟩ := hread
        obtain ⟨pieces, block, rest, rfl, hend⟩ := ih hrest
        exact ⟨text :: pieces, block, rest, rfl, hend⟩
    | inputDelta index piece =>
      cases received with
      | text s => cases hread
      | toolUse id name json =>
        simp only [Reader.read, Option.ite_none_right_eq_some, Option.some.injEq] at hread
        obtain ⟨rfl, rfl⟩ := hread
        obtain ⟨pieces, block, rest, rfl, hend⟩ := ih hrest
        exact ⟨piece :: pieces, block, rest, rfl, hend⟩
    | blockStop index =>
      simp only [Reader.read, Option.ite_none_right_eq_some, Option.map_eq_some_iff] at hread
      obtain ⟨rfl, block, -, rfl⟩ := hread
      exact ⟨[], block, es, rfl, hrest⟩
    | _ => cases received <;> cases hread

/-- Between blocks, a block starts under the next index or the message ends. -/
theorem read_between {loads : String → Option Json} {final : Served ToolUse} (length : Nat) :
    ∀ {closed : List (Block ToolUse)} {events : List AnthropicEvent}, events.length ≤ length →
      events.foldlM (Reader.read loads) (.reading closed none) = some (.stopped final) →
      ∃ blocks stopReason usage, AreBlocks closed.length blocks ∧
        events = blocks ++ [.messageDelta stopReason usage, .messageStop] := by
  induction length with
  | zero =>
    intro closed events hlength h
    rw [Nat.le_zero, List.length_eq_zero_iff] at hlength
    subst hlength
    cases h
  | succ length ih =>
    intro closed events hlength h
    cases events with
    | nil => cases h
    | cons e es =>
      rw [foldlM_read_cons, Option.bind_eq_some_iff] at h
      obtain ⟨next, hread, hrest⟩ := h
      cases e with
      | messageDelta stopReason usage =>
        cases hread
        rw [@read_ending loads _ _ _ hrest]
        exact ⟨[], stopReason, usage, .nil _, rfl⟩
      | textStart index =>
        simp only [Reader.read, Option.ite_none_right_eq_some, Option.some.injEq] at hread
        obtain ⟨rfl, rfl⟩ := hread
        obtain ⟨pieces, block, rest, rfl, hend⟩ := read_open hrest
        obtain ⟨blocks, stopReason, usage, hblocks, rfl⟩ :=
          ih (by simp at hlength; omega) hend
        rw [List.length_append, List.length_singleton] at hblocks
        exact ⟨_, stopReason, usage, .cons (.text pieces) hblocks, by simp⟩
      | toolStart index id name =>
        simp only [Reader.read, Option.ite_none_right_eq_some, Option.some.injEq] at hread
        obtain ⟨rfl, rfl⟩ := hread
        obtain ⟨pieces, block, rest, rfl, hend⟩ := read_open hrest
        obtain ⟨blocks, stopReason, usage, hblocks, rfl⟩ :=
          ih (by simp at hlength; omega) hend
        rw [List.length_append, List.length_singleton] at hblocks
        exact ⟨_, stopReason, usage, .cons (.toolUse id name pieces) hblocks, by simp⟩
      | _ => cases hread

/-- What the reader accepts is well formed. -/
theorem wellFormed_of_assembled {loads : String → Option Json} {events : List AnthropicEvent}
    {served : Served ToolUse} (h : assembled loads events = some served) : WellFormed events := by
  obtain ⟨final, hfold⟩ : ∃ final, events.foldlM (Reader.read loads) .waiting =
      some (.stopped final) := by
    rw [assembled] at h
    split at h
    · exact ⟨_, ‹_›⟩
    · cases h
  cases events with
  | nil => cases hfold
  | cons e es =>
    cases e with
    | messageStart id model inputTokens =>
      obtain ⟨blocks, stopReason, usage, hblocks, rfl⟩ := read_between es.length le_rfl hfold
      exact ⟨id, model, inputTokens, blocks, stopReason, usage, hblocks, rfl⟩
    | _ => cases hfold

/-! ## 5. What the chunks leave -/

/-- The translator's state after these chunks. -/
structure AnthropicStream.Tracks (st : AnthropicStream) (cs : List Chunk) : Prop where
  started : st.started = decide (cs ≠ [])
  counts : st.counts = jsonCounts ((cs.map Chunk.usage).foldl addUsage (0, 0))
  toolCalls : st.toolCalls = collect true ∅ (allFragments cs)
  stopReason : st.stopReason = reasonName stopReasons "end_turn" (cs.foldl addFinish none)

theorem tracks_nil : AnthropicStream.Tracks {} [] where
  started := rfl
  counts := rfl
  toolCalls := rfl
  stopReason := rfl

def pieceDeltas (c : Chunk) : List AnthropicEvent :=
  if c.piece ≠ "" then [.textDelta 0 c.piece] else []

theorem textDeltas_of_chunk (c : Chunk) :
    AnthropicStream.textDeltas (optStr c.text) = pieceDeltas c := by
  cases h : c.text with
  | none => simp [optStr, AnthropicStream.textDeltas, pieceDeltas, Chunk.piece, h]
  | some s => simp [optStr, AnthropicStream.textDeltas, pieceDeltas, Chunk.piece, h]

/-- One chunk: its piece of text goes out at once, the rest is kept. -/
theorem chunk_of_isChunk {st : AnthropicStream} {cs : List Chunk} (htracks : st.Tracks cs)
    {body : Json} {c : Chunk} (h : IsChunk body c) : ∃ st' : AnthropicStream,
      st.chunk body = some ((if st.started then [] else st'.emitStart) ++ pieceDeltas c, st') ∧
      st'.Tracks (cs ++ [c]) := by
  obtain ⟨choice, delta, hchoice, hchoiceObj, hdelta, hdeltaObj, hfinish, htext, hcalls⟩ := h.choice
  obtain ⟨items, hitems, hfragments⟩ := itemsOf_of_isList hcalls
  refine ⟨{ started := true
            model := (body.getD "model" .null).orElse st.model
            msgId := (body.getD "id" .null).orElse st.msgId
            stopReason := reasonName stopReasons "end_turn" ((cs ++ [c]).foldl addFinish none)
            counts := jsonCounts (((cs ++ [c]).map Chunk.usage).foldl addUsage (0, 0))
            toolCalls := collect true ∅ (allFragments (cs ++ [c])) }, ?_, ?_⟩
  · have hreason := noteFinish_of_chunk stopReasons "end_turn" (cs.foldl addFinish none) c
    have hfold := foldlM_noteFragment hfragments true st.toolCalls
    have hcounts := noteUsage_of_isUsage h.isObj h.usage
      ((cs.map Chunk.usage).foldl addUsage (0, 0))
    rw [← htracks.counts] at hcounts
    rw [← htracks.stopReason] at hreason
    rw [htracks.toolCalls, ← collect_append] at hfold
    simp only [AnthropicStream.chunk, getField_of_isObj h.isObj, getField_of_isObj hchoiceObj,
      hchoice, hcounts, hfinish, hreason, hdelta, getField_of_isObj hdeltaObj, htext, hitems,
      htracks.toolCalls, hfold, Option.bind_eq_bind, Option.bind_some, textDeltas_of_chunk]
    simp [allFragments]
  · exact { started := by simp, counts := rfl, toolCalls := rfl, stopReason := rfl }

/-- Where the client is after these chunks. -/
def readerAfter (cs : List Chunk) : Reader :=
  if cs = [] then .waiting
  else .reading [] (some (.text (concat (cs.map Chunk.piece))))

/-- The client takes the events of one more chunk. -/
theorem read_chunk (loads : String → Option Json) {st st' : AnthropicStream} {cs : List Chunk}
    (htracks : st.Tracks cs) (c : Chunk) :
    ((if st.started then [] else st'.emitStart) ++ pieceDeltas c).foldlM (Reader.read loads)
      (readerAfter cs) = some (readerAfter (cs ++ [c])) := by
  have hafter : readerAfter (cs ++ [c]) =
      .reading [] (some (.text (concat (cs.map Chunk.piece) ++ c.piece))) := by
    rw [readerAfter, if_neg (by simp), concat_pieces_snoc]
  rw [hafter, htracks.started]
  by_cases hcs : cs = []
  · subst hcs
    by_cases hpiece : c.piece = ""
    · simp [pieceDeltas, hpiece, readerAfter, AnthropicStream.emitStart, Reader.read, concat]
    · simp [pieceDeltas, hpiece, readerAfter, AnthropicStream.emitStart, Reader.read, concat]
  · by_cases hpiece : c.piece = ""
    · simp [pieceDeltas, hpiece, readerAfter, hcs]
    · simp [pieceDeltas, hpiece, readerAfter, hcs, Reader.read]

/-- The stream and its client, run over the chunks. -/
theorem feed_of_isChunk (loads : String → Option Json) {bodies : List Json} {ds : List Chunk}
    (h : List.Forall₂ IsChunk bodies ds) {st : AnthropicStream} {cs : List Chunk}
    (htracks : st.Tracks cs) : ∃ events st',
      feed AnthropicStream.chunk st bodies = some (events, st') ∧ st'.Tracks (cs ++ ds) ∧
      events.foldlM (Reader.read loads) (readerAfter cs) = some (readerAfter (cs ++ ds)) := by
  induction h generalizing st cs with
  | nil => exact ⟨[], st, rfl, by simpa using htracks, by simp⟩
  | @cons body c bodies ds hc _ ih =>
    obtain ⟨next, hchunk, hnext⟩ := chunk_of_isChunk htracks hc
    obtain ⟨events, st', hfeed, htracks', hread⟩ := ih hnext
    refine ⟨((if st.started then [] else next.emitStart) ++ pieceDeltas c) ++ events, st', ?_,
      by simpa using htracks', ?_⟩
    · rw [feed, hchunk]
      simp only [Option.bind_eq_bind, Option.bind_some, hfeed]
    · rw [List.foldlM_append, read_chunk loads htracks c]
      simpa using hread

/-! ## 6. The end of the stream -/

/-- The block that a call is read as. -/
def callBlock (loads : String → Option Json) (call : Call) : Block ToolUse :=
  .call { id := .str call.id, name := .str call.name,
          input := (loads call.args).getD (.obj []) }

/-- The client takes the tool_use blocks. -/
theorem read_toolEvents {loads : String → Option Json}
    (hblank : ∀ s, KeyStore.strip s = "" → loads s = none) {calls : List Call}
    (hcalls : ∀ call ∈ calls, Callable loads call) {closed : List (Block ToolUse)} :
    (AnthropicStream.toolEvents closed.length (calls.map (slotOf true))).foldlM
      (Reader.read loads) (.reading closed none) =
      some (.reading (closed ++ calls.map (callBlock loads)) none) := by
  induction calls generalizing closed with
  | nil => simp [AnthropicStream.toolEvents]
  | cons call calls ih =>
    obtain ⟨-, -, fields, hloads⟩ := hcalls call List.mem_cons_self
    have hargs : KeyStore.strip call.args ≠ "" := by
      intro hstrip
      rw [hblank _ hstrip] at hloads
      cases hloads
    have ih := @ih (fun d hd => hcalls d (List.mem_cons_of_mem call hd))
      (closed ++ [callBlock loads call])
    rw [List.length_append, List.length_singleton] at ih
    have hblock : callBlock loads call = .call ⟨.str call.id, .str call.name, .obj fields⟩ := by
      rw [callBlock, hloads]
      rfl
    rw [List.map_cons, AnthropicStream.toolEvents, List.foldlM_append]
    have hhead : [AnthropicEvent.toolStart closed.length (slotOf true call).id (slotOf true call).name,
        .inputDelta closed.length (if KeyStore.strip (slotOf true call).args ≠ "" then
          (slotOf true call).args else "\x7b\x7d"), .blockStop closed.length].foldlM
        (Reader.read loads) (.reading closed none) =
        some (.reading (closed ++ [callBlock loads call]) none) := by
      simp [Reader.read, Received.close, slotOf, hargs, hloads, hblock]
    rw [hhead, Option.bind_eq_bind, Option.bind_some, ih]
    simp

/-- **The stream read back**: the client accepts it, and has the text and the calls in
    order, the finish reason and the counts of the last usage. -/
theorem assembled_events {loads : String → Option Json}
    (hblank : ∀ s, KeyStore.strip s = "" → loads s = none) {w : Completion} {chunks : List Chunk}
    (hsplit : Splits w chunks) (hcalls : ∀ call ∈ w.calls, Callable loads call)
    {bodies : List Json} (hbodies : List.Forall₂ IsChunk bodies chunks) :
    ∃ events, anthropicEvents bodies = some events ∧ assembled loads events = some
      { content := .text (w.text.getD "") :: w.calls.map (callBlock loads)
        stopReason := reasonName stopReasons "end_turn" (chunks.foldl addFinish none)
        usage := jsonCounts (w.usage.getD (0, 0)) } := by
  obtain ⟨events, st, hfeed, htracks, hread⟩ := feed_of_isChunk loads hbodies tracks_nil
  rw [List.nil_append] at htracks hread
  refine ⟨events ++ st.finish, ?_, ?_⟩
  · simp only [anthropicEvents, hfeed, Option.bind_eq_bind, Option.bind_some]
  · have hslots : sortedSlots st.toolCalls = w.calls.map (slotOf true) := by
      rw [htracks.toolCalls]
      exact collected_of_split hsplit (fun call hc => (hcalls call hc).1)
        (fun call hc => (hcalls call hc).2.1) true
    -- whether or not a chunk has come, the text block is open before `finish` closes it
    have hopen : (if st.started then [] else st.emitStart).foldlM (Reader.read loads)
        (readerAfter chunks) = some (.reading [] (some (.text (w.text.getD "")))) := by
      rw [htracks.started, ← hsplit.text]
      by_cases hchunks : chunks = []
      · subst hchunks
        rfl
      · simp [hchunks, readerAfter]
    have htools := @read_toolEvents loads hblank _ hcalls [.text (w.text.getD "")]
    have hfold : (events ++ st.finish).foldlM (Reader.read loads) .waiting =
        some (.stopped
          { content := .text (w.text.getD "") :: w.calls.map (callBlock loads)
            stopReason := st.stopReason
            usage := st.counts }) := by
      have hwaiting : readerAfter [] = .waiting := rfl
      rw [hwaiting] at hread
      rw [AnthropicStream.finish, hslots, List.foldlM_append, hread]
      simp only [Option.bind_eq_bind, Option.bind_some, List.foldlM_append, hopen]
      have hclose : [AnthropicEvent.blockStop 0].foldlM (Reader.read loads)
          (.reading [] (some (.text (w.text.getD "")))) =
          some (.reading [.text (w.text.getD "")] none) := rfl
      rw [List.length_singleton] at htools
      rw [hclose, Option.bind_some, htools]
      rfl
    rw [assembled, hfold, htracks.stopReason, htracks.counts, usage_of_split hsplit]

/-! ## 7. The whole completion -/

theorem toolUse_of_isCall {loads : String → Option Json} {item : Json} {call : Call}
    (h : IsCall item call) : toolUse loads item = some (callBlock loads call) := by
  have hid := get?_of_getD_str h.id
  have hname := get?_of_getD_str h.name
  rw [toolUse, getField_of_isObj (isObj_of_get? hid), Option.bind_eq_bind, Option.bind_some]
  dsimp only
  rw [orEmpty_of_get? hname, getField_of_isObj (isObj_of_get? hname), Option.bind_some,
    getD_of_get? hid, getD_of_get? hname, h.args]
  rfl

theorem mapM_toolUse {loads : String → Option Json} {items : List Json} {calls : List Call}
    (h : List.Forall₂ IsCall items calls) :
    items.mapM (toolUse loads) = some (calls.map (callBlock loads)) := by
  induction h with
  | nil => rfl
  | cons hitem _ ih =>
    rw [List.mapM_cons, toolUse_of_isCall hitem, ih]
    rfl

theorem serialiseAnthropic_of_isCompletion {loads : String → Option Json} {resp : Json}
    {w : Completion} {chunks : List Chunk} (h : IsCompletion resp w) (hsplit : Splits w chunks) :
    ∃ message, serialiseAnthropic loads resp = some message ∧
      nonEmpty message.content =
        nonEmpty (.text (w.text.getD "") :: w.calls.map (callBlock loads)) ∧
      message.stopReason = reasonName stopReasons "end_turn" (chunks.foldl addFinish none) ∧
      message.usage = jsonCounts (w.usage.getD (0, 0)) := by
  obtain ⟨choice, msg, hchoices, hmsg, hmsgObj, hfinish, htext, hlist⟩ := h.choice
  obtain ⟨items, hitems, hcallItems⟩ := itemsOf_of_isList hlist
  have hchoice := firstChoice_of_get? hchoices
  have hchoiceObj := isObj_of_get? hmsg
  have horEmpty := orEmpty_of_isObj hmsgObj
  let blocks := textBlocks (optStr w.text) ++ w.calls.map (callBlock loads)
  refine ⟨{ content := if blocks.isEmpty then [.text ""] else blocks
            stopReason := reasonName stopReasons "end_turn" (chunks.foldl addFinish none)
            usage := jsonCounts (w.usage.getD (0, 0))
            id := (resp.getD "id" (.str "")).orElse (.str "msg_0")
            model := resp.getD "model" (.str "") }, ?_, ?_, rfl, rfl⟩
  · simp only [serialiseAnthropic, hchoice, getField_of_isObj hchoiceObj, getD_of_get? hmsg,
      horEmpty, getField_of_isObj hmsgObj, htext, hitems, mapM_toolUse hcallItems, hfinish,
      mapReason_of_split hsplit, usageOf_of_isUsage (isObj_of_get? hchoices) h.usage,
      Option.bind_eq_bind, Option.bind_some, blocks]
  · exact nonEmpty_blocks w.text (w.calls.map (callBlock loads))

end TokenProxy.Protocols
