/-
  TokenProxy/ToolAnswers.lean
  ===========================
  **Which tool results of a translated Anthropic request a provider can place.**

  A provider refuses a message with role "tool" whose id no earlier assistant message declared.
  `Answerable` says that a list of messages has none such.  The blocks of a turn are translated
  so that it holds (`answerable_tools`); but the role of a turn is handed on as it came, so
  that a turn with role "tool" becomes such a message itself (`answerable_turn`).

  Main result: `answerable_iff`, the messages of a request are answerable exactly if its turns
  with role "tool" hold results of earlier calls and nothing else.
-/
import TokenProxy.IngressFanOut
import TokenProxy.Pointwise

namespace TokenProxy.Ingress

open Json (DictKey)
open History (Msg)
open Protocols (itemsOf getField)
open Pointwise

/-! ## 1. Tool messages and the calls they answer -/

/-- The calls that a message declares. -/
def toolCallsOf (m : Msg) : List Json :=
  match m.get "tool_calls" with
  | .arr calls => calls
  | _ => []

/-- An assistant message declares a call whose id is this key: ids are compared with `==`. -/
def Declares (a : Msg) (key : DictKey) : Prop :=
  a.get "role" = .str "assistant" ∧
    ∃ call ∈ toolCallsOf a, (call.getD "id" .null).dictKey? = some key

def toolCallId? (m : Msg) : Option Json := (Json.obj m.fields).get? "tool_call_id"

/-- The message carries the id of a call that the other one declares. -/
def AnswersTo (t a : Msg) : Prop :=
  ∃ id key, toolCallId? t = some id ∧ id.dictKey? = some key ∧ Declares a key

/-- Every tool message answers a call of an earlier assistant message. -/
def Answerable (out : List Msg) : Prop :=
  ∀ before t after, out = before ++ t :: after → t.isTool = true → ∃ a ∈ before, AnswersTo t a

theorem answerable_nil : Answerable [] := by
  intro before t after h
  simp at h

theorem answerable_snoc (out : List Msg) (m : Msg) :
    Answerable (out ++ [m]) ↔
      Answerable out ∧ (m.isTool = true → ∃ a ∈ out, AnswersTo m a) := by
  constructor
  · intro h
    refine ⟨?_, h out m [] rfl⟩
    rintro before t after rfl
    apply h before t (after ++ [m])
    rw [List.append_assoc, List.cons_append]
  · rintro ⟨hout, hm⟩ before t after heq
    rcases List.eq_nil_or_concat after with rfl | ⟨init, last, rfl⟩
    · obtain ⟨rfl, hlast⟩ := List.append_inj' heq rfl
      cases hlast
      exact hm
    · have hsplit : out ++ [m] = (before ++ t :: init) ++ [last] := by simpa using heq
      obtain ⟨rfl, -⟩ := List.append_inj' hsplit rfl
      exact hout before t init rfl

/-- Tool messages that answer calls of the messages before them can follow. -/
theorem answerable_append_tools {out tools : List Msg}
    (h : ∀ t ∈ tools, ∃ a ∈ out, AnswersTo t a) : Answerable (out ++ tools) ↔ Answerable out := by
  induction tools using List.reverseRecOn with
  | nil => rw [List.append_nil]
  | append_singleton tools t ih =>
    have hinit := ih fun u hu => h u (List.mem_append_left _ hu)
    obtain ⟨a, ha, hanswers⟩ := h t (List.mem_append_right _ List.mem_cons_self)
    rw [← List.append_assoc, answerable_snoc, hinit]
    constructor
    · exact And.left
    · intro hout
      exact ⟨hout, fun _ => ⟨a, List.mem_append_left _ ha, hanswers⟩⟩

theorem isTool_plainMessage (role content : Json) :
    (plainMessage role content).isTool = true ↔ role = .str "tool" := by
  have hrole : (plainMessage role content).get "role" = role := rfl
  rw [Msg.isTool, hrole, decide_eq_true_iff]

theorem not_isTool_assistantMessage (content : Json) (calls : List Json) :
    (assistantMessage content calls).isTool = false := rfl

theorem not_answersTo_plainMessage (role content : Json) (a : Msg) :
    ¬ AnswersTo (plainMessage role content) a := by
  rintro ⟨id, key, hid, -⟩
  have hnone : toolCallId? (plainMessage role content) = none := rfl
  rw [hnone] at hid
  cases hid

/-- What a turn is translated to: its results, then at most one message. -/
theorem finalizeFanout_cases (role collapsed : Json) (calls : List Json) (tools : List Msg) :
    (role = .str "assistant" ∧ calls ≠ [] ∧ finalizeFanout role collapsed calls tools =
        tools ++ [assistantMessage (collapsed.orElse .null) calls]) ∨
    (¬ (role = .str "assistant" ∧ calls ≠ []) ∧ (collapsed.truthy = true ∨ tools = []) ∧
        finalizeFanout role collapsed calls tools = tools ++ [plainMessage role collapsed]) ∨
    (¬ (role = .str "assistant" ∧ calls ≠ []) ∧ collapsed.truthy = false ∧ tools ≠ [] ∧
        finalizeFanout role collapsed calls tools = tools) := by
  rw [finalizeFanout]
  by_cases hcalls : role = .str "assistant" ∧ calls ≠ []
  · rw [if_pos hcalls]
    exact Or.inl ⟨hcalls.1, hcalls.2, rfl⟩
  · rw [if_neg hcalls]
    by_cases hplain : collapsed.truthy = true ∨ tools = []
    · rw [if_pos hplain]
      exact Or.inr (Or.inl ⟨hcalls, hplain, rfl⟩)
    · rw [if_neg hplain]
      rw [not_or, Bool.not_eq_true] at hplain
      exact Or.inr (Or.inr ⟨hcalls, hplain.1, hplain.2, rfl⟩)

/-! ## 2. Content that comes to nothing -/

theorem concat_eq_empty_iff (ss : List String) : Protocols.concat ss = "" ↔ ∀ s ∈ ss, s = "" := by
  induction ss with
  | nil => simp [Protocols.concat]
  | cons s ss ih => simp [Protocols.concat, String.append_eq_empty_iff, ih]

theorem str?_eq_some {value : Json} {s : String} : value.str? = some s ↔ value = .str s := by
  cases value <;> simp [Json.str?]

/-- The joined text is empty when each is. -/
theorem joinTexts_truthy {parts : List Json} {content : Json} (h : joinTexts parts = some content) :
    content.truthy = false ↔ ∀ part ∈ parts, part.getD "text" .null = .str "" := by
  obtain ⟨texts, htexts, heq⟩ := Option.bind_eq_some_iff.mp h
  cases heq
  have hempty : (Json.str (Protocols.concat texts)).truthy = false ↔ Protocols.concat texts = "" := by
    simp [Json.truthy]
  rw [hempty, concat_eq_empty_iff]
  apply forall_of_forall₂ (forall₂_of_mapM htexts)
  intro part text htext
  rw [str?_eq_some.mp htext, Json.str.injEq]

namespace Anthropic

/-- A block whose parts are empty texts, or that has none. -/
def Blank (py : Interpreter) (block : Json) : Prop :=
  ∃ parts, contentPart py block = some parts ∧ ∀ part ∈ parts, part = textPart (.str "")

/-- A part that one string can hold is an unmarked text. -/
theorem textPart_of_contentPart {py : Interpreter} {block part : Json} {parts : List Json}
    (h : contentPart py block = some parts) (hmem : part ∈ parts) (hkeeps : keepsParts part = false) :
    ∃ text, part = textPart text := by
  have himage : ∀ url marker, keepsParts (withMarker (imagePart url) marker) = true := by
    intro url marker
    cases marker with
    | none => rfl
    | some m => rfl
  rw [contentPart] at h
  split_ifs at h
  · cases h
    cases hmem
  · cases h
    rw [List.mem_singleton] at hmem
    subst hmem
    cases hmarker : cacheMarker block with
    | none => exact ⟨_, rfl⟩
    | some marker =>
      rw [hmarker] at hkeeps
      cases hkeeps
  · obtain ⟨kind, -, h⟩ := Option.bind_eq_some_iff.mp h
    split_ifs at h
    · cases h
      rw [List.mem_singleton] at hmem
      rw [hmem, himage] at hkeeps
      cases hkeeps
    · cases h
      rw [List.mem_singleton] at hmem
      rw [hmem, himage] at hkeeps
      cases hkeeps
    · cases h
      cases hmem
  · cases h
    cases hmem

theorem getD_text_textPart (text : Json) : (textPart text).getD "text" .null = text := rfl

/-- Content is false exactly if every block is blank. -/
theorem contentToOpenai_truthy {py : Interpreter} {blocks : List Json} {content : Json}
    (h : contentToOpenai py (.arr blocks) = some content) :
    content.truthy = false ↔ ∀ block ∈ blocks, Blank py block := by
  obtain ⟨partss, hparts, h⟩ := Option.bind_eq_some_iff.mp h
  have hblocks := forall₂_of_mapM hparts
  have hblank : (∀ parts ∈ partss, ∀ part ∈ parts, part = textPart (.str "")) ↔
      ∀ block ∈ blocks, Blank py block := by
    apply forall_of_forall₂ hblocks
    intro block parts hblock
    simp [Blank, hblock]
  rw [← hblank]
  dsimp only at h
  split at h
  · rename_i hkeeps
    cases h
    obtain ⟨part, hpart, hkept⟩ := List.any_eq_true.mp hkeeps
    have hne : partss.flatten ≠ [] := List.ne_nil_of_mem hpart
    obtain ⟨parts, hmem, hpart⟩ := List.mem_flatten.mp hpart
    constructor
    · intro hfalse
      simp [Json.truthy, hne] at hfalse
    · intro hall
      rw [hall parts hmem part hpart] at hkept
      cases hkept
  · rename_i hkeeps
    rw [joinTexts_truthy h]
    have hunmarked : ∀ parts ∈ partss, ∀ part ∈ parts, ∃ text, part = textPart text := by
      intro parts hparts part hpart
      obtain ⟨block, -, hblock⟩ := exists_left_of_forall₂ hblocks hparts
      apply textPart_of_contentPart hblock hpart
      rw [Bool.not_eq_true, List.any_eq_false] at hkeeps
      exact Bool.not_eq_true _ ▸ hkeeps part (List.mem_flatten_of_mem hparts hpart)
    constructor
    · intro hall parts hparts part hpart
      obtain ⟨text, rfl⟩ := hunmarked parts hparts part hpart
      have hempty := hall _ (List.mem_flatten_of_mem hparts hpart)
      rw [getD_text_textPart] at hempty
      rw [hempty]
    · intro hall part hpart
      obtain ⟨parts, hmem, hpart⟩ := List.mem_flatten.mp hpart
      rw [hall parts hmem part hpart]
      rfl

theorem contentPart_of_contentToOpenai {py : Interpreter} {blocks : List Json} {content : Json}
    (h : contentToOpenai py (.arr blocks) = some content) :
    ∀ block ∈ blocks, contentPart py block ≠ none := by
  obtain ⟨partss, hparts, -⟩ := Option.bind_eq_some_iff.mp h
  refine (forall_of_forall₂ (Q := fun _ => True) (forall₂_of_mapM hparts) ?_).mp fun _ _ => trivial
  intro block parts hblock
  simp [hblock]

theorem getD_withMarker (item : Json) (marker : Option Json) {key : String}
    (h : key ≠ "cache_control") (fallback : Json) :
    (withMarker item marker).getD key fallback = item.getD key fallback := by
  cases marker with
  | none => rfl
  | some m => exact Json.getD_set_of_ne item h m fallback

theorem isObj_withMarker_textPart (text : Json) (marker : Option Json) :
    (withMarker (textPart text) marker).isObj = true := by
  cases marker <;> rfl

/-- A call or a result that was made a text still says something. -/
theorem not_blank_degraded (py : Interpreter) {text : String} (h : text ≠ "")
    (marker : Option Json) : ¬ Blank py (withMarker (textPart (.str text)) marker) := by
  rintro ⟨parts, hparts, hall⟩
  have htype : (withMarker (textPart (.str text)) marker).getD "type" .null = .str "text" :=
    getD_withMarker (textPart (.str text)) marker (by decide) .null
  have htext : (withMarker (textPart (.str text)) marker).getD "text" (.str "") = .str text :=
    getD_withMarker (textPart (.str text)) marker (by decide) (.str "")
  rw [contentPart, isObj_withMarker_textPart, if_neg (by decide), htype, if_pos rfl, htext] at hparts
  cases hparts
  have hempty := hall _ List.mem_cons_self
  have hsame : ∀ marker', (withMarker (textPart (.str text)) marker').getD "text" .null = .str text :=
    fun marker' => getD_withMarker (textPart (.str text)) marker' (by decide) .null
  have hfinal := hsame (cacheMarker (withMarker (textPart (.str text)) marker))
  rw [hempty] at hfinal
  cases hfinal
  exact h rfl

/-! ## 3. One turn -/

def isBlock (type : String) (block : Json) : Bool :=
  block.isObj && decide (block.getD "type" .null = .str type)

/-- The block is a result of one of these calls. -/
def isResult (seen : List DictKey) (block : Json) : Bool :=
  isBlock "tool_result" block && isKnown seen (block.getD "tool_use_id" (.str "")) = some true

/-- The block says nothing: it is no dict, of no known type, an empty unmarked text or an image
    of no known source. -/
def isSilent (block : Json) : Bool :=
  !block.isObj || !(
    isBlock "tool_use" block || isBlock "tool_result" block ||
    isBlock "text" block &&
      !(block.getD "text" (.str "") = .str "" && (cacheMarker block).isNone) ||
    isBlock "image" block &&
      ((Protocols.orEmpty (block.getD "source" .null)).getD "type" .null = .str "base64" ||
       (Protocols.orEmpty (block.getD "source" .null)).getD "type" .null = .str "url"))

/-- The key of the call that the block is, in a turn of the assistant. -/
def callKey (block : Json) : Option DictKey :=
  if isBlock "tool_use" block && (block.getD "name" (.str "")).truthy &&
      (block.getD "id" (.str "")).truthy then
    (block.getD "id" (.str "")).dictKey?
  else none

theorem getD_of_getField {value v : Json} {key : String} (h : getField value key = some v) :
    value.getD key .null = v := by
  cases value with
  | obj fields =>
    cases h
    rfl
  | _ => cases h

/-- What a block that is neither call nor result comes to. -/
theorem blank_iff {py : Interpreter} {block : Json} (hobj : block.isObj = true)
    (huse : block.getD "type" .null ≠ .str "tool_use")
    (hresult : block.getD "type" .null ≠ .str "tool_result") {parts : List Json}
    (h : contentPart py block = some parts) : Blank py block ↔ isSilent block = true := by
  have hblank : Blank py block ↔ ∀ part ∈ parts, part = textPart (.str "") := by
    simp [Blank, h]
  rw [hblank]
  rw [contentPart, if_neg (by simp [hobj])] at h
  by_cases htext : block.getD "type" .null = .str "text"
  · rw [if_pos htext] at h
    cases h
    rw [List.forall_mem_singleton]
    cases hmarker : cacheMarker block with
    | none => simp [isSilent, isBlock, hobj, htext, hmarker, withMarker, textPart]
    | some marker => simp [isSilent, isBlock, hobj, htext, hmarker, withMarker, textPart, Json.set,
        Assoc.insert]
  · rw [if_neg htext] at h
    by_cases himage : block.getD "type" .null = .str "image"
    · rw [if_pos himage] at h
      obtain ⟨kind, hkind, h⟩ := Option.bind_eq_some_iff.mp h
      have hsource := getD_of_getField hkind
      have hsilent : isSilent block = !(kind = .str "base64" || kind = .str "url") := by
        simp [isSilent, isBlock, hobj, himage, hsource]
      have hmarked : ∀ url marker, withMarker (imagePart url) marker ≠ textPart (.str "") := by
        intro url marker heq
        have htypes : (withMarker (imagePart url) marker).getD "type" .null = .str "image_url" :=
          getD_withMarker (imagePart url) marker (by decide) .null
        rw [heq] at htypes
        exact absurd htypes (by decide)
      split_ifs at h with hbase hurl
      · cases h
        simp [hmarked, hsilent, hbase]
      · cases h
        simp [hmarked, hsilent, hurl]
      · cases h
        simp [hsilent, hbase, hurl]
    · rw [if_neg himage] at h
      cases h
      simp [isSilent, isBlock, huse, hresult, htext, himage]

theorem isTool_markMessage (id : Json) (content : String) (marker : Option Json) :
    (markMessage (toolMessage id content) marker).isTool = true := by
  cases marker <;> rfl

theorem toolCallId?_markMessage (id : Json) (content : String) (marker : Option Json) :
    toolCallId? (markMessage (toolMessage id content) marker) = some id := by
  cases marker <;> rfl

theorem mem_of_isKnown {seen : List DictKey} {id : Json} (h : isKnown seen id = some true) :
    ∃ key, id.dictKey? = some key ∧ key ∈ seen := by
  rw [isKnown] at h
  split at h
  · obtain ⟨key, hid, hseen⟩ := Option.map_eq_some_iff.mp h
    exact ⟨key, hid, of_decide_eq_true hseen⟩
  · cases h

/-- What a block adds to a turn. -/
theorem fanBlock_cases {py : Interpreter} {role : Json} {seen : List DictKey} {fan fan' : FanOut}
    {block : Json} (h : fanBlock py role seen fan block = some fan') :
    (block.isObj = false ∧ fan' = fan) ∨
    (role = .str "assistant" ∧ isResult seen block = false ∧ ∃ call,
      call.getD "id" .null = block.getD "id" (.str "") ∧
      callKey block = (block.getD "id" (.str "")).dictKey? ∧
      fan' = { fan with
        toolCalls := fan.toolCalls ++ [call], newIds := fan.newIds ++ [block.getD "id" (.str "")] }) ∨
    (isResult seen block = true ∧ callKey block = none ∧ ∃ t id key, t.isTool = true ∧
      toolCallId? t = some id ∧ id.dictKey? = some key ∧ key ∈ seen ∧
      fan' = { fan with toolMsgs := fan.toolMsgs ++ [t] }) ∨
    (block.isObj = true ∧ isResult seen block = false ∧
      (role = .str "assistant" → callKey block = none) ∧ ∃ b,
      (contentPart py b ≠ none → (Blank py b ↔ isSilent block = true)) ∧
      fan' = { fan with residual := fan.residual ++ [b] }) := by
  rw [fanBlock] at h
  by_cases hobj : block.isObj = false
  · rw [if_pos hobj] at h
    cases h
    exact Or.inl ⟨hobj, rfl⟩
  rw [if_neg hobj] at h
  rw [Bool.not_eq_false] at hobj
  by_cases huse : block.getD "type" .null = .str "tool_use"
  · rw [if_pos huse] at h
    have hno : isResult seen block = false := by simp [isResult, isBlock, huse]
    dsimp only at h
    split_ifs at h with hcall
    · cases h
      obtain ⟨hrole, hname, hid⟩ := hcall
      refine Or.inr (Or.inl ⟨hrole, hno, _, ?_, ?_, rfl⟩)
      · exact getD_withMarker _ _ (by decide) _
      · simp [callKey, isBlock, hobj, huse, hname, hid]
    · cases h
      refine Or.inr (Or.inr (Or.inr ⟨hobj, hno, ?_, _, ?_, rfl⟩))
      · intro hrole
        rw [callKey, if_neg]
        simp only [Bool.and_eq_true, not_and]
        intro hname hid
        exact hcall ⟨hrole, hname.2, hid⟩
      · intro _
        have hsilent : isSilent block = false := by simp [isSilent, isBlock, hobj, huse]
        rw [hsilent]
        refine iff_of_false (not_blank_degraded py ?_ _) Bool.false_ne_true
        intro hempty
        simp [String.append_eq_empty_iff] at hempty
  rw [if_neg huse] at h
  have hkey : callKey block = none := by simp [callKey, isBlock, huse]
  by_cases hresult : block.getD "type" .null = .str "tool_result"
  · rw [if_pos hresult] at h
    obtain ⟨content, -, h⟩ := Option.bind_eq_some_iff.mp h
    obtain ⟨text, -, h⟩ := Option.bind_eq_some_iff.mp h
    obtain ⟨known, hknown, h⟩ := Option.bind_eq_some_iff.mp h
    cases known with
    | true =>
      cases h
      have hanswer : isResult seen block = true := by
        simp [isResult, isBlock, hobj, hresult, hknown]
      obtain ⟨key, hid, hseen⟩ := mem_of_isKnown hknown
      exact Or.inr (Or.inr (Or.inl ⟨hanswer, hkey, _, _, key, isTool_markMessage _ _ _,
        toolCallId?_markMessage _ _ _, hid, hseen, rfl⟩))
    | false =>
      cases h
      refine Or.inr (Or.inr (Or.inr ⟨hobj, ?_, fun _ => hkey, _, ?_, rfl⟩))
      · simp [isResult, hknown]
      · intro _
        have hsilent : isSilent block = false := by simp [isSilent, isBlock, hobj, hresult]
        rw [hsilent]
        refine iff_of_false (not_blank_degraded py ?_ _) Bool.false_ne_true
        intro hempty
        simp [String.append_eq_empty_iff] at hempty
  · rw [if_neg hresult] at h
    cases h
    refine Or.inr (Or.inr (Or.inr ⟨hobj, ?_, fun _ => hkey, block, ?_, rfl⟩))
    · simp [isResult, isBlock, hresult]
    · intro hsome
      obtain ⟨parts, hparts⟩ := Option.ne_none_iff_exists'.mp hsome
      exact blank_iff hobj huse hresult hparts

/-- What the blocks of a turn have come to. -/
structure Fanned (py : Interpreter) (role : Json) (seen : List DictKey) (blocks : List Json)
    (fan : FanOut) : Prop where
  ids : fan.toolCalls.map (fun call => call.getD "id" .null) = fan.newIds
  calls : role ≠ .str "assistant" → fan.toolCalls = []
  keys : ∀ keys, fan.newIds.mapM Json.dictKey? = some keys →
    keys = if role = .str "assistant" then blocks.filterMap callKey else []
  tools : ∀ t ∈ fan.toolMsgs, t.isTool = true ∧ ∃ id key, toolCallId? t = some id ∧
    id.dictKey? = some key ∧ key ∈ seen
  results : fan.toolMsgs = [] ↔ ∀ block ∈ blocks, isResult seen block = false
  blank : role ≠ .str "assistant" → (∀ b ∈ fan.residual, contentPart py b ≠ none) →
    ((∀ b ∈ fan.residual, Blank py b) ↔
      ∀ block ∈ blocks, isResult seen block = true ∨ isSilent block = true)

theorem isSilent_of_not_isObj {block : Json} (h : block.isObj = false) : isSilent block = true := by
  simp [isSilent, h]

theorem callKey_of_not_isObj {block : Json} (h : block.isObj = false) : callKey block = none := by
  simp [callKey, isBlock, h]

theorem isResult_of_not_isObj {seen : List DictKey} {block : Json} (h : block.isObj = false) :
    isResult seen block = false := by
  simp [isResult, isBlock, h]

theorem Fanned.snoc {py : Interpreter} {role : Json} {seen : List DictKey} {blocks : List Json}
    {fan fan' : FanOut} {block : Json} (hfan : Fanned py role seen blocks fan)
    (h : fanBlock py role seen fan block = some fan') :
    Fanned py role seen (blocks ++ [block]) fan' := by
  obtain ⟨hobj, rfl⟩ | ⟨hrole, hno, call, hid, hkey, rfl⟩ |
    ⟨hyes, hkey, t, id, key, htool, hid, hdict, hseen, rfl⟩ |
    ⟨hobj, hno, hkey, b, hb, rfl⟩ := fanBlock_cases h
  · exact {
      ids := hfan.ids
      calls := hfan.calls
      keys := by
        intro keys hkeys
        rw [hfan.keys keys hkeys, List.filterMap_append]
        simp [callKey_of_not_isObj hobj]
      tools := hfan.tools
      results := by
        rw [hfan.results, List.forall_mem_append, List.forall_mem_singleton,
          isResult_of_not_isObj hobj]
        simp
      blank := by
        intro hrole hsome
        rw [hfan.blank hrole hsome, List.forall_mem_append, List.forall_mem_singleton,
          isSilent_of_not_isObj hobj]
        simp }
  · exact {
      ids := by rw [List.map_append, hfan.ids, List.map_singleton, hid]
      calls := fun h => absurd hrole h
      keys := by
        intro keys hkeys
        rw [List.mapM_append] at hkeys
        obtain ⟨before, hbefore, hkeys⟩ := Option.bind_eq_some_iff.mp hkeys
        obtain ⟨last, hlast, heq⟩ := Option.bind_eq_some_iff.mp hkeys
        cases heq
        have hrest := hfan.keys before hbefore
        rw [if_pos hrole] at hrest ⊢
        rw [List.filterMap_append, ← hrest]
        have hone : last = [block].filterMap callKey := by
          rw [List.filterMap_cons, hkey]
          cases hd : (block.getD "id" (.str "")).dictKey? with
          | none =>
            simp [hd] at hlast
          | some key =>
            simp [hd] at hlast
            simp [hlast]
        rw [hone]
      tools := hfan.tools
      results := by
        rw [hfan.results, List.forall_mem_append, List.forall_mem_singleton]
        simp [hno]
      blank := fun h => absurd hrole h }
  · exact {
      ids := hfan.ids
      calls := hfan.calls
      keys := by
        intro keys hkeys
        rw [hfan.keys keys hkeys, List.filterMap_append]
        simp [hkey]
      tools := by
        intro u hu
        rcases List.mem_append.mp hu with hu | hu
        · exact hfan.tools u hu
        · rw [List.mem_singleton.mp hu]
          exact ⟨htool, id, key, hid, hdict, hseen⟩
      results := by
        rw [List.forall_mem_append, List.forall_mem_singleton]
        simp [hyes]
      blank := by
        intro hrole hsome
        rw [hfan.blank hrole hsome, List.forall_mem_append, List.forall_mem_singleton]
        simp [hyes] }
  · exact {
      ids := hfan.ids
      calls := hfan.calls
      keys := by
        intro keys hkeys
        rw [hfan.keys keys hkeys, List.filterMap_append]
        by_cases hrole : role = .str "assistant"
        · simp [hkey hrole]
        · simp [hrole]
      tools := hfan.tools
      results := by
        rw [hfan.results, List.forall_mem_append, List.forall_mem_singleton]
        simp [hno]
      blank := by
        intro hrole hsome
        rw [List.forall_mem_append, List.forall_mem_singleton] at hsome
        rw [List.forall_mem_append, List.forall_mem_singleton, List.forall_mem_append,
          List.forall_mem_singleton, hfan.blank hrole hsome.1, hb hsome.2, hno]
        simp }

theorem fanned_of_foldlM {py : Interpreter} {role : Json} {seen : List DictKey}
    {blocks : List Json} {fan : FanOut}
    (h : blocks.foldlM (fanBlock py role seen) {} = some fan) : Fanned py role seen blocks fan := by
  induction blocks using List.reverseRecOn generalizing fan with
  | nil =>
    cases h
    exact {
      ids := rfl
      calls := fun _ => rfl
      keys := by
        intro keys hkeys
        cases hkeys
        simp
      tools := by
        intro t ht
        cases ht
      results := by simp
      blank := by simp }
  | append_singleton blocks block ih =>
    obtain ⟨before, hbefore, hafter⟩ := Pointwise.exists_of_foldlM_concat h
    exact (ih hbefore).snoc hafter

/-- The keys of the calls in an assistant turn. -/
def turnKeys (role content : Json) : List DictKey :=
  if role = .str "assistant" then
    match content with
    | .arr blocks => blocks.filterMap callKey
    | _ => []
  else []

/-- Content that holds results of these calls, and says nothing else. -/
def OnlyResults (seen : List DictKey) : Json → Prop
  | .arr blocks => (∃ block ∈ blocks, isResult seen block = true) ∧
      ∀ block ∈ blocks, isResult seen block = true ∨ isSilent block = true
  | _ => False

/-- A turn is answerable after what came before, unless it is handed on with role "tool". -/
theorem answerable_turn {py : Interpreter} {role content : Json} {seen seen' : List DictKey}
    {out turn : List Msg} (h : messageToOpenai py role content seen = some (turn, seen'))
    (hseen : ∀ key ∈ seen, ∃ a ∈ out, Declares a key) :
    (Answerable (out ++ turn) ↔
      Answerable out ∧ (role = .str "tool" → OnlyResults seen content)) ∧
    seen' = seen ++ turnKeys role content ∧
    ∀ key ∈ seen', ∃ a ∈ out ++ turn, Declares a key := by
  have hplain : ∀ (before : List Msg) (collapsed : Json),
      Answerable (before ++ [plainMessage role collapsed]) ↔
        Answerable before ∧ role ≠ .str "tool" := by
    intro before collapsed
    rw [answerable_snoc, isTool_plainMessage]
    simp [not_answersTo_plainMessage]
  by_cases hlist : ∃ blocks, content = .arr blocks
  · obtain ⟨blocks, rfl⟩ := hlist
    obtain ⟨fan, hfan, h⟩ := Option.bind_eq_some_iff.mp h
    obtain ⟨keys, hkeys, h⟩ := Option.bind_eq_some_iff.mp h
    obtain ⟨collapsed, hcollapsed, heq⟩ := Option.bind_eq_some_iff.mp h
    cases heq
    have hfanned := fanned_of_foldlM hfan
    have htools := @answerable_append_tools out fan.toolMsgs fun t ht => by
      obtain ⟨-, id, key, hid, hdict, hkey⟩ := hfanned.tools t ht
      obtain ⟨a, ha, hdeclares⟩ := hseen key hkey
      exact ⟨a, ha, id, key, hid, hdict, hdeclares⟩
    have hnew := hfanned.keys keys hkeys
    have hkeep : ∀ key ∈ seen, ∃ a ∈ out ++ finalizeFanout role collapsed fan.toolCalls fan.toolMsgs,
        Declares a key := by
      intro key hkey
      obtain ⟨a, ha, hdeclares⟩ := hseen key hkey
      exact ⟨a, List.mem_append_left _ ha, hdeclares⟩
    have hsilent := contentToOpenai_truthy hcollapsed
    have hsome := contentPart_of_contentToOpenai hcollapsed
    have honly : role = .str "tool" →
        (OnlyResults seen (.arr blocks) ↔ fan.toolMsgs ≠ [] ∧ collapsed.truthy = false) := by
      intro hrole
      rw [hsilent, hfanned.blank (by rw [hrole]; decide) hsome, Ne, hfanned.results, OnlyResults]
      simp
    refine ⟨?_, by rw [hnew]; rfl, ?_⟩
    · obtain ⟨hrole, -, heq⟩ | ⟨-, hspeaks, heq⟩ | ⟨-, hfalse, hne, heq⟩ :=
        finalizeFanout_cases role collapsed fan.toolCalls fan.toolMsgs
      · rw [heq, ← List.append_assoc, answerable_snoc, htools, not_isTool_assistantMessage]
        simp [hrole]
      · rw [heq, ← List.append_assoc, hplain, htools]
        refine and_congr Iff.rfl ⟨fun hrole heq => absurd heq hrole, fun himp hrole => ?_⟩
        obtain ⟨hne, hfalse⟩ := (honly hrole).mp (himp hrole)
        rcases hspeaks with htrue | hnil
        · rw [htrue] at hfalse
          cases hfalse
        · exact hne hnil
      · rw [heq, htools]
        exact ⟨fun hout => ⟨hout, fun hrole => (honly hrole).mpr ⟨hne, hfalse⟩⟩, And.left⟩
    · intro key hkey
      rcases List.mem_append.mp hkey with hold | hlast
      · exact hkeep key hold
      · obtain ⟨id, hid, hdict⟩ := exists_left_of_forall₂ (forall₂_of_mapM hkeys) hlast
        rw [← hfanned.ids] at hid
        obtain ⟨call, hcall, rfl⟩ := List.mem_map.mp hid
        have hne : fan.toolCalls ≠ [] := List.ne_nil_of_mem hcall
        have hrole : role = .str "assistant" := by
          by_contra hrole
          exact hne (hfanned.calls hrole)
        refine ⟨assistantMessage (collapsed.orElse .null) fan.toolCalls, ?_, rfl, call, hcall, hdict⟩
        rw [finalizeFanout, if_pos ⟨hrole, hne⟩]
        simp
  · have hturn : ∃ collapsed, turn = [plainMessage role collapsed] ∧ seen' = seen := by
      cases content with
      | arr blocks => exact absurd ⟨blocks, rfl⟩ hlist
      | _ =>
        simp only [messageToOpenai, Option.bind_eq_bind, Option.bind_eq_some_iff] at h
        obtain ⟨collapsed, -, heq⟩ := h
        cases heq
        exact ⟨collapsed, rfl, rfl⟩
    have hnot : ¬ OnlyResults seen content ∧ turnKeys role content = [] := by
      cases content with
      | arr blocks => exact absurd ⟨blocks, rfl⟩ hlist
      | _ => exact ⟨fun h => h, ite_self _⟩
    obtain ⟨collapsed, rfl, rfl⟩ := hturn
    refine ⟨?_, by rw [hnot.2, List.append_nil], ?_⟩
    · rw [hplain]
      exact and_congr Iff.rfl ⟨fun hrole heq => absurd heq hrole,
        fun himp hrole => hnot.1 (himp hrole)⟩
    · intro key hkey
      obtain ⟨a, ha, hdeclares⟩ := hseen key hkey
      exact ⟨a, List.mem_append_left _ ha, hdeclares⟩

/-! ## 4. A request -/

/-- The keys of the calls that a message of the request declares. -/
def declaredKeys (m : Json) : List DictKey :=
  if m.isObj then turnKeys (m.getD "role" (.str "user")) (m.getD "content" .null) else []

/-- The messages with role "tool" hold results of calls before them, and say nothing else. -/
def ToolTurnsAnswer (items : List Json) : Prop :=
  ∀ before m after, items = before ++ m :: after → m.isObj = true →
    m.getD "role" (.str "user") = .str "tool" →
    OnlyResults (before.flatMap declaredKeys) (m.getD "content" .null)

theorem toolTurnsAnswer_snoc (items : List Json) (m : Json) :
    ToolTurnsAnswer (items ++ [m]) ↔ ToolTurnsAnswer items ∧
      (m.isObj = true → m.getD "role" (.str "user") = .str "tool" →
        OnlyResults (items.flatMap declaredKeys) (m.getD "content" .null)) := by
  constructor
  · intro h
    refine ⟨?_, h items m [] rfl⟩
    rintro before m' after rfl
    apply h before m' (after ++ [m])
    rw [List.append_assoc, List.cons_append]
  · rintro ⟨hitems, hm⟩ before m' after heq
    rcases List.eq_nil_or_concat after with rfl | ⟨init, last, rfl⟩
    · obtain ⟨rfl, hlast⟩ := List.append_inj' heq rfl
      cases hlast
      exact hm
    · have hsplit : items ++ [m] = (before ++ m' :: init) ++ [last] := by simpa using heq
      obtain ⟨rfl, -⟩ := List.append_inj' hsplit rfl
      exact hitems before m' init rfl

theorem answerable_foldlM {py : Interpreter} {first : List Msg} (hfirst : Answerable first)
    {items : List Json} {acc : List Msg × List DictKey}
    (h : items.foldlM (addMessage py) (first, []) = some acc) :
    (Answerable acc.1 ↔ ToolTurnsAnswer items) ∧ acc.2 = items.flatMap declaredKeys ∧
      ∀ key ∈ acc.2, ∃ a ∈ acc.1, Declares a key := by
  induction items using List.reverseRecOn generalizing acc with
  | nil =>
    cases h
    refine ⟨iff_of_true hfirst ?_, rfl, ?_⟩
    · intro before m after heq
      simp at heq
    · intro key hkey
      cases hkey
  | append_singleton items m ih =>
    obtain ⟨before, hbefore, hafter⟩ := Pointwise.exists_of_foldlM_concat h
    obtain ⟨hanswer, hkeys, hdeclared⟩ := ih hbefore
    rw [toolTurnsAnswer_snoc, List.flatMap_append, ← hkeys]
    rw [addMessage] at hafter
    split at hafter
    · rename_i hobj
      obtain ⟨⟨turn, seen⟩, hturn, heq⟩ := Option.bind_eq_some_iff.mp hafter
      cases heq
      obtain ⟨hiff, hseen, hnext⟩ := answerable_turn hturn hdeclared
      refine ⟨?_, ?_, hnext⟩
      · rw [hiff, hanswer]
        simp [hobj]
      · rw [hseen]
        simp [declaredKeys, hobj]
    · rename_i hobj
      cases hafter
      refine ⟨?_, ?_, hdeclared⟩
      · rw [hanswer]
        simp [hobj]
      · simp [declaredKeys, hobj]

theorem answerable_systemMessages {py : Interpreter} {system : Json} {first : List Msg}
    (h : systemMessages py system = some first) : Answerable first := by
  have hplain : ∀ content, Answerable [plainMessage (.str "system") content] := by
    intro content
    have hsnoc := answerable_snoc [] (plainMessage (.str "system") content)
    refine hsnoc.mpr ⟨answerable_nil, fun htool => ?_⟩
    rw [isTool_plainMessage] at htool
    exact absurd htool (by decide)
  have htext : systemMessages.textMessages system = some first → Answerable first := by
    intro htext
    obtain ⟨content, -, rfl⟩ := Option.map_eq_some_iff.mp htext
    split
    · exact hplain content
    · exact answerable_nil
  cases system with
  | arr blocks =>
    rw [systemMessages] at h
    split at h
    · obtain ⟨content, -, rfl⟩ := Option.map_eq_some_iff.mp h
      exact hplain content
    · exact htext h
  | _ => exact htext h

/-- **Which translated requests are answerable.** -/
theorem answerable_iff {py : Interpreter} {body : Json} {out : List Msg}
    (h : messages py body = some out) : ∃ items,
      itemsOf (body.getD "messages" (.arr [])) = some items ∧
      (Answerable out ↔ ToolTurnsAnswer items) := by
  obtain ⟨system, -, h⟩ := Option.bind_eq_some_iff.mp h
  obtain ⟨first, hfirst, h⟩ := Option.bind_eq_some_iff.mp h
  obtain ⟨items, hitems, h⟩ := Option.bind_eq_some_iff.mp h
  obtain ⟨acc, hacc, heq⟩ := Option.bind_eq_some_iff.mp h
  cases heq
  exact ⟨items, hitems, (answerable_foldlM (answerable_systemMessages hfirst) hacc).1⟩

end Anthropic

end TokenProxy.Ingress
