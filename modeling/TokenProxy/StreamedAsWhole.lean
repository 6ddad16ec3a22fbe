/-
  TokenProxy/StreamedAsWhole.lean
  ===============================
  **Streaming and not streaming agree at the protocol edge.**

  A completion, cut into chunks in any way and fed to a stream translator, reaches the
  client as the message that the completion itself is translated to.

  The arguments of a call cross as they are in a stream, while a whole answer has them read and
  written anew: what the interpreter refuses to read is served as an empty object there.
-/
import TokenProxy.AnthropicReplay
import TokenProxy.AnthropicStream
import TokenProxy.GeminiStream
import TokenProxy.JsonBlanks
import Mathlib.Data.List.TakeWhile

namespace TokenProxy.Protocols

/-- **Streamed as whole**: both translators serve the client the same content, reason and
    usage either way, and the Anthropic events are well formed. -/
theorem streamed_as_whole {loads : String → Option Json}
    -- a blank text is no JSON
    (hblank : ∀ s, KeyStore.strip s = "" → loads s = none)
    {w : Completion} {resp : Json} (hresp : IsCompletion resp w)
    (hcalls : ∀ call ∈ w.calls, Callable loads call)
    {chunks : List Chunk} (hsplit : Splits w chunks)
    {bodies : List Json} (hbodies : List.Forall₂ IsChunk bodies chunks) :
    (∃ events served message, anthropicEvents bodies = some events ∧ WellFormed events ∧
      assembled loads events = some served ∧ serialiseAnthropic loads resp = some message ∧
      nonEmpty served.content = nonEmpty message.content ∧
      served.stopReason = message.stopReason ∧ served.usage = message.usage) ∧
    (∃ frames served message, geminiFrames loads bodies = some frames ∧
      assembledGemini frames = some served ∧ serialiseGemini loads resp = some message ∧
      nonEmpty (joined served.content) = nonEmpty message.content ∧
      served.stopReason = message.stopReason ∧ served.usage = message.usage ∧
      served.totalTokens = message.totalTokens) := by
  constructor
  · obtain ⟨events, hevents, hassembled⟩ := assembled_events hblank hsplit hcalls hbodies
    obtain ⟨message, hmessage, hcontent, hreason, husage⟩ :=
      @serialiseAnthropic_of_isCompletion loads _ _ _ hresp hsplit
    exact ⟨events, _, message, hevents, wellFormed_of_assembled hassembled, hassembled, hmessage,
      hcontent.symm, hreason.symm, husage.symm⟩
  · obtain ⟨frames, served, hframes, hassembled, hcontent, hreason, husage, htotal⟩ :=
      assembled_frames hblank hsplit hcalls hbodies
    obtain ⟨message, hmessage, hcontent', hreason', husage', htotal'⟩ :=
      @serialiseGemini_of_isCompletion loads _ _ _ hresp hsplit
    refine ⟨frames, served, message, hframes, hassembled, hmessage, hcontent.trans hcontent'.symm,
      hreason.trans hreason'.symm, husage.trans husage'.symm, ?_⟩
    rw [husage, ← husage', ← htotal'] at htotal
    exact Option.some.inj htotal

/-! ## A call in two pieces, with the usage in a chunk of its own -/

namespace WeatherCall

def args : String := "\x7b\"city\": \"Rome\"\x7d"

/-- `json.loads`, on the one text it is used on here. -/
def loads (s : String) : Option Json :=
  if s = args then some (.obj [("city", .str "Rome")]) else none

def completion : Completion where
  text := some "Hello"
  calls := [⟨"call_1", "weather", args⟩]
  finishReason := some "tool_calls"
  usage := some (12, 7)

def resp : Json :=
  .obj [("choices", .arr [.obj
      [("message", .obj [("content", .str "Hello"), ("tool_calls", .arr [.obj
          [("id", .str "call_1"),
           ("function", .obj [("name", .str "weather"), ("arguments", .str args)])]])]),
       ("finish_reason", .str "tool_calls")]]),
    ("usage", .obj [("prompt_tokens", .int 12), ("completion_tokens", .int 7)])]

def chunks : List Chunk :=
  [⟨some "Hel", [], none, none⟩,
   ⟨some "lo", [⟨0, some "call_1", some "weather", some "\x7b\"city\": "⟩], none, none⟩,
   ⟨none, [⟨0, none, none, some "\"Rome\"\x7d"⟩], none, none⟩,
   ⟨none, [], some "tool_calls", none⟩,
   ⟨none, [], none, some (12, 7)⟩]

def bodies : List Json :=
  [.obj [("choices", .arr [.obj [("delta", .obj [("content", .str "Hel")])]])],
   .obj [("choices", .arr [.obj [("delta", .obj [("content", .str "lo"), ("tool_calls", .arr [.obj
      [("index", .int 0), ("id", .str "call_1"), ("function", .obj
        [("name", .str "weather"), ("arguments", .str "\x7b\"city\": ")])]])])]])],
   .obj [("choices", .arr [.obj [("delta", .obj [("tool_calls", .arr [.obj
      [("index", .int 0), ("function", .obj [("arguments", .str "\"Rome\"\x7d")])]])])]])],
   .obj [("choices", .arr [.obj [("delta", .obj []), ("finish_reason", .str "tool_calls")]])],
   .obj [("choices", .arr []),
    ("usage", .obj [("prompt_tokens", .int 12), ("completion_tokens", .int 7)])]]

theorem loads_blank (s : String) (h : KeyStore.strip s = "") : loads s = none := by
  rw [loads, if_neg]
  rintro rfl
  exact absurd h (by decide)

theorem resp_isCompletion : IsCompletion resp completion where
  choice := ⟨_, _, rfl, rfl, rfl, rfl, rfl, Or.inr ⟨_, rfl, .cons ⟨rfl, rfl, rfl⟩ .nil⟩⟩
  usage := Or.inr ⟨12, 7, rfl, rfl, rfl⟩

theorem callable : ∀ call ∈ completion.calls, Callable loads call := by
  intro call hcall
  rcases List.mem_singleton.mp hcall with rfl
  exact ⟨by decide, by decide, _, rfl⟩

theorem chunks_split : Splits completion chunks where
  text := by decide
  calls := by
    refine ⟨[0], by simp, .cons ⟨by decide, by decide, by decide, by decide, by decide⟩ .nil, ?_⟩
    decide
  finish := by decide
  finished := by decide
  ends := by decide
  usage := by decide
  counts := by
    intro u hu last hlast
    rcases List.mem_singleton.mp hu with rfl
    cases hlast
    exact ⟨le_rfl, le_rfl⟩

theorem bodies_areChunks : List.Forall₂ IsChunk bodies chunks :=
  .cons ⟨rfl, ⟨_, _, rfl, rfl, rfl, rfl, rfl, rfl, Or.inl ⟨rfl, rfl⟩⟩, Or.inl ⟨rfl, rfl⟩⟩ <|
  .cons ⟨rfl, ⟨_, _, rfl, rfl, rfl, rfl, rfl, rfl,
    Or.inr ⟨_, rfl, .cons ⟨rfl, rfl, rfl, rfl, rfl⟩ .nil⟩⟩, Or.inl ⟨rfl, rfl⟩⟩ <|
  .cons ⟨rfl, ⟨_, _, rfl, rfl, rfl, rfl, rfl, rfl,
    Or.inr ⟨_, rfl, .cons ⟨rfl, rfl, rfl, rfl, rfl⟩ .nil⟩⟩, Or.inl ⟨rfl, rfl⟩⟩ <|
  .cons ⟨rfl, ⟨_, _, rfl, rfl, rfl, rfl, rfl, rfl, Or.inl ⟨rfl, rfl⟩⟩, Or.inl ⟨rfl, rfl⟩⟩ <|
  .cons ⟨rfl, ⟨_, _, rfl, rfl, rfl, rfl, rfl, rfl, Or.inl ⟨rfl, rfl⟩⟩,
    Or.inr ⟨12, 7, rfl, rfl, rfl⟩⟩ .nil

end WeatherCall

theorem streamed_as_whole_weather :
    ∃ events served message, anthropicEvents WeatherCall.bodies = some events ∧
      WellFormed events ∧ assembled WeatherCall.loads events = some served ∧
      serialiseAnthropic WeatherCall.loads WeatherCall.resp = some message ∧
      nonEmpty served.content = nonEmpty message.content ∧
      served.stopReason = message.stopReason ∧ served.usage = message.usage :=
  (streamed_as_whole WeatherCall.loads_blank WeatherCall.resp_isCompletion WeatherCall.callable
    WeatherCall.chunks_split WeatherCall.bodies_areChunks).1

/-! ## Arguments that are not read -/

namespace RefusedCall

open JsonText (readValue)

theorem parse_of_isSpace {text : List Char} (h : ∀ c ∈ text, KeyStore.isSpace c = true) :
    JsonText.parse text = none := by
  induction text with
  | nil => rfl
  | cons c rest ih =>
    by_contra hparse
    obtain ⟨tree, htree⟩ := Option.ne_none_iff_exists'.mp hparse
    have hblank := JsonText.blank_of_isSpace (JsonText.lexOut_of_parse htree)
      (h c List.mem_cons_self)
    have hrest : JsonText.parse (c :: rest) = JsonText.parse rest :=
      @JsonText.parse_blank_append [c] (by simpa using hblank) rest
    apply hparse
    rw [hrest]
    exact ih fun d hd => h d (List.mem_cons_of_mem c hd)

/-- A blank text is no JSON. -/
theorem readValue_blank {floats : JsonText.Floats} (s : String) (h : KeyStore.strip s = "") :
    readValue floats s = none := by
  have hspaces : ∀ c ∈ s.toList, KeyStore.isSpace c = true := by
    intro c hc
    have hnil : (s.toList.dropWhile KeyStore.isSpace).reverse.dropWhile KeyStore.isSpace = [] := by
      have hlist := congrArg String.toList h
      rw [KeyStore.strip, String.toList_ofList] at hlist
      exact List.reverse_eq_nil_iff.mp hlist
    rw [← List.takeWhile_append_dropWhile (p := KeyStore.isSpace) (l := s.toList)] at hc
    rcases List.mem_append.mp hc with hc | hc
    · exact List.mem_takeWhile_imp hc
    · exact List.dropWhile_eq_nil_iff.mp hnil c (List.mem_reverse.mpr hc)
  rw [readValue, parse_of_isSpace hspaces]
  rfl

/-- The one call of an answer without text, in one chunk. -/
def completion (args : String) : Completion := ⟨some "", [⟨"c1", "f", args⟩], none, none⟩

def chunks (args : String) : List Chunk :=
  [⟨some "", [⟨0, some "c1", some "f", some args⟩], none, none⟩]

def bodies (args : String) : List Json :=
  [.obj [("choices", .arr [.obj [("delta", .obj [("content", .str ""), ("tool_calls", .arr [.obj
    [("index", .int 0), ("id", .str "c1"), ("function", .obj
      [("name", .str "f"), ("arguments", .str args)])]])])]])]]

theorem chunks_split (args : String) : Splits (completion args) (chunks args) where
  text := by simp [chunks, completion, concat, Chunk.piece]
  calls := by
    refine ⟨[0], by simp, .cons ⟨?_, by simp [allFragments, chunks], by simp [allFragments, chunks],
      by simp [allFragments, chunks], by simp [allFragments, chunks]⟩ .nil, ?_⟩
    · simp [allFragments, chunks, concat]
    · simp [allFragments, chunks]
  finish := by simp [chunks]
  finished := by simp [completion]
  ends := by simp [chunks]
  usage := rfl
  counts := by simp [chunks]

theorem bodies_areChunks (args : String) : List.Forall₂ IsChunk (bodies args) (chunks args) :=
  .cons ⟨rfl, ⟨_, _, rfl, rfl, rfl, rfl, rfl, rfl,
    Or.inr ⟨_, rfl, .cons ⟨rfl, rfl, rfl, rfl, rfl⟩ .nil⟩⟩, Or.inl ⟨rfl, rfl⟩⟩ .nil

end RefusedCall

/-- A call whose arguments hold an integer that the interpreter refuses to read reaches the client
    of a stream with its arguments, and the client of a whole answer with none. -/
theorem not_streamed_as_whole :
    ¬ ∀ (py : Ingress.Interpreter) (w : Completion) (resp : Json) (chunks : List Chunk)
      (bodies : List Json), IsCompletion resp w →
      (∀ call ∈ w.calls, Ingress.ObjectCall py.floats call ∧ call.name ≠ "") → Splits w chunks →
      List.Forall₂ IsChunk bodies chunks →
      ∃ events served message, anthropicEvents bodies = some events ∧
        assembled (JsonText.readValue py.floats) events = some served ∧
        serialiseAnthropic py.loads resp = some message ∧
        nonEmpty served.content = nonEmpty message.content := by
  intro hclaim
  obtain ⟨args, fields, hread, hne, hrefused⟩ := Ingress.exists_refused (10 ^ 4300)
  generalize 10 ^ 4300 = bound at hrefused
  have hresp := Ingress.isCompletion_oneCall "" "c1" "f" args
  have hobject : ∀ call ∈ (RefusedCall.completion args).calls,
      Ingress.ObjectCall .unread call ∧ call.name ≠ "" := by
    intro call hcall
    rw [List.mem_singleton.mp hcall]
    exact ⟨⟨by simp, fields, hread⟩, by simp⟩
  obtain ⟨events, served, message, hevents, hserved, hmessage, hcontent⟩ :=
    hclaim (Ingress.limitedInterpreter bound) (RefusedCall.completion args)
      (Ingress.oneCall "" "c1" "f" args) (RefusedCall.chunks args) (RefusedCall.bodies args) hresp
      hobject (RefusedCall.chunks_split args) (RefusedCall.bodies_areChunks args)
  obtain ⟨events', hevents', hassembled⟩ := assembled_events RefusedCall.readValue_blank
    (RefusedCall.chunks_split args) (fun call hcall =>
      ⟨(hobject call hcall).1.id, (hobject call hcall).2, (hobject call hcall).1.args⟩)
    (RefusedCall.bodies_areChunks args)
  obtain ⟨message', hmessage', hcontent', -, -⟩ := @serialiseAnthropic_of_isCompletion
    (Ingress.limitedInterpreter bound).loads _ _ _ hresp (RefusedCall.chunks_split args)
  rw [hevents] at hevents'
  cases hevents'
  have hsame := hserved.symm.trans hassembled
  cases hsame
  rw [hmessage] at hmessage'
  cases hmessage'
  rw [hcontent'] at hcontent
  have hblocks : callBlock (JsonText.readValue .unread) ⟨"c1", "f", args⟩ =
      callBlock (Ingress.limitedInterpreter bound).loads ⟨"c1", "f", args⟩ := by
    simpa [nonEmpty, RefusedCall.completion, callBlock] using hcontent
  rw [callBlock, callBlock, hread, hrefused] at hblocks
  simp only [Option.getD_some, Option.getD_none, Block.call.injEq, ToolUse.mk.injEq, Json.obj.injEq,
    true_and] at hblocks
  exact hne hblocks

end TokenProxy.Protocols
