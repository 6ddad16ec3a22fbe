/-
  TokenProxy/BatchResults.lean
  ============================
  **Batch files, written and read** (`build_batch_jsonl`, `parse_batch_jsonl_results`,
  `providers/__init__.py`).

  A batch goes out as one record a line, and its results come back so.  They are read line by
  line, but with the lines of `str.splitlines`, which also cuts at characters that a record may
  have in its strings, and the first line that is no record raises: the other results of the
  file are lost with it.

  Main results: `accounted_iff`, the files whose records all get their result, `oneLineEach`, what
  is written has the items' lines, and `jsonlFaithful_iff`, both together.
-/
import TokenProxy.CcrTenants
import TokenProxy.JsonBlanks
import TokenProxy.LineBreaks
import TokenProxy.OutgoingParams
import TokenProxy.Pointwise

namespace TokenProxy.BatchFile

open TokenProxy.Ccr (head_stripBy last_stripBy stripBy stripBy_spec)
open TokenProxy.JsonText
open TokenProxy.KeyStore (isSpace)
open TokenProxy.LineBreaks

/-! ## 1. The module `json` -/

/-- `json.loads` and `json.dumps`, with a tree for what a text stands for.  A JSON text is read as
    it is, unless it passes a limit of the interpreter (on nesting, on the digits of an integer);
    the names of numbers that are read beyond JSON are left open. -/
structure JsonModule where
  floats : Floats
  accepts : JsonText.Tree → Bool
  /-- `none` where it raises -/
  loads : List Char → Option JsonText.Tree
  dumps : JsonText.Tree → List Char
  loads_json : ∀ {text t}, parse text = some t → loads text = if accepts t then some t else none
  /-- an object that is cut short is not read -/
  loads_part : ∀ {part rest fields}, parse (part ++ rest) = some (.obj fields) →
    (∃ c ∈ rest, isBlank c = false) → loads part = none
  parse_dumps : ∀ {v}, Readable floats v →
    parse (dumps (treeOf floats v)) = some (treeOf floats v)
  /-- without an indent, it writes one line -/
  dumps_line : ∀ {v}, Readable floats v → '\n' ∉ dumps (treeOf floats v)

/-- The module that reads JSON and nothing else, and writes no blanks. -/
def JsonModule.strict (floats : Floats) : JsonModule where
  floats := floats
  accepts := fun _ => true
  loads := parse
  dumps := JsonText.Tree.write quoteAscii
  loads_json := fun h => h
  loads_part := parse_part
  parse_dumps := fun h => parse_write (readsBack_treeOf quotes_unitsOf h)
  dumps_line := fun h => newline_notMem_write (readsBack_treeOf quotes_unitsOf h)

section Reading

variable (py : JsonModule)

/-! ## 2. Results -/

abbrev TreeFields := List (List Nat × JsonText.Tree)

/-- `d.get(key)`: the last field of the name. -/
def field (key : String) (fields : TreeFields) : Option JsonText.Tree :=
  (fields.reverse.find? fun entry => decide (entry.1 = unitsOf key)).map Prod.snd

def numberOf (lexeme : List Char) : Option ℚ :=
  if isInt lexeme then some (readInt lexeme) else py.floats.read lexeme

def truthy : JsonText.Tree → Bool
  | .null => false
  | .bool b => b
  | .num lexeme => decide (numberOf py lexeme ≠ some 0)
  | .str units => !units.isEmpty
  | .arr items => !items.isEmpty
  | .obj fields => !fields.isEmpty

/-- `value == 200` -/
def isOk : JsonText.Tree → Bool
  | .num lexeme => decide (numberOf py lexeme = some 200)
  | _ => false

inductive Outcome where
  | response (body : JsonText.Tree)
  | error (text : List Char)

structure BatchResult where
  requestId : JsonText.Tree
  outcome : Outcome

def customId (record : TreeFields) : JsonText.Tree := (field "custom_id" record).getD .null

/-- What is made of a line; `none` where it raises. -/
def resultOf (line : List Char) : Option BatchResult :=
  match py.loads line with
  | some (.obj record) =>
    let response := (field "response" record).getD .null
    match if truthy py response then response else .obj [] with
    | .obj fields =>
      let body := (field "body" fields).getD (.obj [])
      let ok := isOk py ((field "status_code" fields).getD .null)
      some ⟨customId record, if ok then .response body else .error (py.dumps body)⟩
    | _ => none
  | _ => none

/-- `parse_batch_jsonl_results`; `none` where it raises. -/
def parseBatchJsonlResults (text : List Char) : Option (List BatchResult) :=
  (written isSpace text).mapM (resultOf py)

/-! ## 3. Lines of a file -/

/-- A line, without the newline. -/
abbrev FileLine := {line : List Char // '\n' ∉ line}

def fileOf (lines : List FileLine) : List Char := ['\n'].intercalate (lines.map Subtype.val)

/-- The id of the record on a line, where there is one. -/
def recordId (line : List Char) : Option JsonText.Tree :=
  match parse line with
  | some (.obj record) => some (customId record)
  | _ => none

/-- Every record of the file has one result, with its id; what becomes of other lines is open. -/
def Accounted (lines : List FileLine) : Prop :=
  ∃ outs : List (List BatchResult),
    List.Forall₂ (fun line out => ∀ id, recordId line.1 = some id →
      ∃ result, out = [result] ∧ result.requestId = id) lines outs ∧
    parseBatchJsonlResults py (fileOf lines) = some outs.flatten

/-- A record that can be read, with no line break inside, or a line that is cut into such. -/
def LineKept (line : List Char) : Prop :=
  match recordId line with
  | some _ => (resultOf py line).isSome ∧ ∀ c ∈ stripBy isBlank line, isLineBreak c = false
  | none => ∀ piece ∈ written isSpace line, (resultOf py piece).isSome

/-! ## 4. Records and line breaks -/

theorem isSpace_of_isBlank {c : Char} (h : isBlank c = true) : isSpace c = true := by
  rcases blank_cases h with rfl | rfl | rfl | rfl <;> decide

theorem isSpace_of_isLineBreak {c : Char} (h : isLineBreak c = true) : isSpace c = true := by
  simp only [isLineBreak, Bool.or_eq_true, decide_eq_true_eq] at h
  rcases h with ((((((((rfl | rfl) | rfl) | rfl) | rfl) | rfl) | rfl) | rfl) | rfl) | rfl <;> decide

variable {py}

theorem resultOf_congr {text text' : List Char} {t : JsonText.Tree} (h : parse text = some t)
    (h' : parse text' = some t) : resultOf py text = resultOf py text' := by
  rw [resultOf, resultOf, py.loads_json h, py.loads_json h']

theorem requestId_of_resultOf {line : List Char} {id : JsonText.Tree} {result : BatchResult}
    (hid : recordId line = some id) (h : resultOf py line = some result) :
    result.requestId = id := by
  rw [recordId] at hid
  split at hid
  · next record hparse =>
    cases hid
    rw [resultOf, py.loads_json hparse] at h
    by_cases haccepts : py.accepts (.obj record) = true
    · simp only [if_pos haccepts] at h
      split at h
      · cases h
        rfl
      · cases h
    · simp only [if_neg haccepts] at h
      cases h
  · cases hid

theorem parse_of_recordId {line : List Char} {id : JsonText.Tree} (h : recordId line = some id) :
    ∃ record, parse line = some (.obj record) ∧ id = customId record := by
  rw [recordId] at h
  split at h
  · next record hparse =>
    cases h
    exact ⟨record, hparse, rfl⟩
  · cases h

theorem recordId_congr {line line' : List Char} (h : parse line = parse line') :
    recordId line = recordId line' := by
  rw [recordId, recordId, h]

/-- An object without the blanks around it: it starts with its brace, or with nothing that is
    white space, and ends with no blank. -/
structure Core (line lead core trail : List Char) (record : TreeFields) : Prop where
  eq : line = lead ++ core ++ trail
  lead : ∀ c ∈ lead, isBlank c = true
  trail : ∀ c ∈ trail, isBlank c = true
  parse : parse core = some (.obj record)
  head : ∃ c rest, core = c :: rest ∧ isSpace c = false
  last : ∃ init c, core = init ++ [c] ∧ isBlank c = false

theorem exists_core {line : List Char} {record : TreeFields}
    (h : parse line = some (.obj record)) :
    ∃ lead trail, Core line lead (stripBy isBlank line) trail record := by
  obtain ⟨lead, trail, heq, hall⟩ := stripBy_spec isBlank line
  have hlead := fun c hc => hall c (List.mem_append_left trail hc)
  have htrail := fun c hc => hall c (List.mem_append_right lead hc)
  have hparse : parse (stripBy isBlank line) = some (.obj record) := by
    rw [← h, ← parse_framed hlead htrail (stripBy isBlank line), ← heq]
  have hne : stripBy isBlank line ≠ [] := by
    intro hnil
    rw [hnil] at hparse
    cases hparse
  refine ⟨lead, trail, heq, hlead, htrail, hparse, ?_, ?_⟩
  · obtain ⟨c, rest, hcore⟩ := List.exists_cons_of_ne_nil hne
    refine ⟨c, rest, hcore, ?_⟩
    by_contra hspace
    rw [Bool.not_eq_false] at hspace
    rw [hcore] at hparse
    have hblank := blank_of_isSpace (lexOut_of_parse hparse) hspace
    rw [head_stripBy hcore] at hblank
    cases hblank
  · exact ⟨_, _, (List.dropLast_append_getLast hne).symm, last_stripBy hne⟩

/-- Without a break inside, an object is the one line of its text. -/
theorem written_whole {line lead core trail : List Char} {record : TreeFields}
    (h : Core line lead core trail record) (hwhole : ∀ c ∈ core, isLineBreak c = false) :
    ∃ piece, written isSpace line = [piece] ∧ parse piece = parse line := by
  obtain ⟨c, rest, hcore, hc⟩ := h.head
  have hwritten : isWritten isSpace core = true := by
    rw [hcore]
    exact isWritten_of_mem List.mem_cons_self hc
  obtain ⟨before, after, hbefore, hafter, hpieces⟩ :=
    written_framed (fun d hd => isSpace_of_isBlank (h.lead d hd))
      (fun d hd => isSpace_of_isBlank (h.trail d hd)) hwhole hwritten
  refine ⟨before ++ core ++ after, by rw [h.eq, hpieces], ?_⟩
  rw [h.eq, parse_framed (fun d hd => h.lead d (hbefore d hd)) fun d hd => h.trail d (hafter d hd),
    parse_framed h.lead h.trail]

/-- With a break inside, its first line is not read. -/
theorem exists_unread {line lead core trail : List Char} {record : TreeFields}
    (h : Core line lead core trail record) (hbreak : ∃ c ∈ core, isLineBreak c = true) :
    ∃ piece ∈ written isSpace line, py.loads piece = none := by
  obtain ⟨b, hfind⟩ : ∃ b, core.find? isLineBreak = some b := by
    rw [← Option.isSome_iff_exists, List.find?_isSome]
    exact hbreak
  obtain ⟨hb, part, rest, hcut, hpart⟩ := List.find?_eq_some_iff_append.mp hfind
  have hpart : ∀ c ∈ part, isLineBreak c = false := by
    intro c hc
    have hno := hpart c hc
    rw [Bool.not_eq_true'] at hno
    exact hno
  -- the object starts with its brace, which is before the break
  obtain ⟨c, after, hcore, hc⟩ := h.head
  have hwritten : isWritten isSpace part = true := by
    cases part with
    | nil =>
      rw [hcut] at hcore
      cases hcore
      rw [isSpace_of_isLineBreak hb] at hc
      cases hc
    | cons d part =>
      rw [hcut] at hcore
      cases hcore
      exact isWritten_of_mem List.mem_cons_self hc
  have hline : line = lead ++ part ++ b :: (rest ++ trail) := by
    rw [h.eq, hcut]
    simp
  obtain ⟨before, hbefore, hpieces⟩ :=
    @written_cut isSpace lead part (rest ++ trail) b
      (fun d hd => isSpace_of_isBlank (h.lead d hd)) hpart hb hwritten
  refine ⟨before ++ part, by rw [hline, hpieces]; exact List.mem_cons_self, ?_⟩
  -- and ends behind it
  obtain ⟨init, last, hlast, hnot⟩ := h.last
  have hmem : last ∈ b :: (rest ++ trail) := by
    have hend : part ++ b :: rest = init ++ [last] := by rw [← hcut, hlast]
    have hgetLast := congrArg List.getLast? hend
    rw [List.getLast?_append_cons, List.getLast?_concat] at hgetLast
    rw [← List.cons_append]
    exact List.mem_append_left trail (List.mem_of_getLast? hgetLast)
  have hparse : parse (before ++ part ++ b :: (rest ++ trail)) = some (.obj record) := by
    have hframe : before ++ part ++ b :: (rest ++ trail) = before ++ core ++ trail := by
      rw [hcut]
      simp
    rw [hframe, parse_framed (fun d hd => h.lead d (hbefore d hd)) h.trail, h.parse]
  exact py.loads_part hparse ⟨last, hmem, hnot⟩

theorem resultOf_of_unread {piece : List Char} (h : py.loads piece = none) :
    resultOf py piece = none := by
  rw [resultOf, h]

/-- A record is kept exactly where all lines that it is cut into are read. -/
theorem lineKept_iff (line : List Char) :
    LineKept py line ↔ ∀ piece ∈ written isSpace line, (resultOf py piece).isSome := by
  rw [LineKept]
  cases hid : recordId line with
  | none => exact Iff.rfl
  | some id =>
    obtain ⟨record, hparse, -⟩ := parse_of_recordId hid
    obtain ⟨lead, trail, hcore⟩ := exists_core hparse
    have hone : (∀ c ∈ stripBy isBlank line, isLineBreak c = false) →
        ((∀ piece ∈ written isSpace line, (resultOf py piece).isSome) ↔
          (resultOf py line).isSome) := by
      intro hwhole
      obtain ⟨piece, hpieces, hsame⟩ := written_whole hcore hwhole
      rw [hpieces, List.forall_mem_singleton, resultOf_congr (hsame.trans hparse) hparse]
    constructor
    · rintro ⟨hresult, hwhole⟩
      exact (hone hwhole).mpr hresult
    · intro hall
      have hwhole : ∀ c ∈ stripBy isBlank line, isLineBreak c = false := by
        by_contra hbreak
        simp only [not_forall, Bool.not_eq_false, exists_prop] at hbreak
        obtain ⟨piece, hpiece, hunread⟩ := @exists_unread py _ _ _ _ _ hcore hbreak
        have hsome := hall piece hpiece
        rw [resultOf_of_unread hunread] at hsome
        cases hsome
      exact ⟨(hone hwhole).mp hall, hwhole⟩

/-! ## 5. Files -/

theorem written_fileOf (lines : List FileLine) :
    written isSpace (fileOf lines) = lines.flatMap fun line => written isSpace line.1 := by
  rw [fileOf, written_intercalate, List.flatMap_map]

/-- Where no line raises, the results of a file are those of its lines. -/
theorem parse_eq_of_kept {lines : List FileLine} (h : ∀ line ∈ lines, LineKept py line.1) :
    parseBatchJsonlResults py (fileOf lines) =
      some (lines.map fun line => (written isSpace line.1).filterMap (resultOf py)).flatten := by
  rw [parseBatchJsonlResults, written_fileOf, Pointwise.mapM_eq_filterMap]
  · rw [List.filterMap_flatMap, List.flatMap_def]
  · intro piece hpiece
    obtain ⟨line, hline, hmem⟩ := List.mem_flatMap.mp hpiece
    exact (lineKept_iff line.1).mp (h line hline) piece hmem

theorem kept_of_parse {lines : List FileLine} {results : List BatchResult}
    (h : parseBatchJsonlResults py (fileOf lines) = some results) :
    ∀ line ∈ lines, LineKept py line.1 := by
  intro line hline
  rw [lineKept_iff]
  intro piece hpiece
  rw [parseBatchJsonlResults, written_fileOf] at h
  obtain ⟨result, -, hresult⟩ := Pointwise.exists_right_of_forall₂ (Pointwise.forall₂_of_mapM h)
    (List.mem_flatMap.mpr ⟨line, hline, hpiece⟩)
  rw [hresult]
  rfl

/-- **The records of a file all get their result exactly where every line is kept.** -/
theorem accounted_iff (lines : List FileLine) :
    Accounted py lines ↔ ∀ line ∈ lines, LineKept py line.1 := by
  constructor
  · rintro ⟨outs, -, hparse⟩
    exact kept_of_parse hparse
  · intro h
    refine ⟨_, ?_, parse_eq_of_kept h⟩
    rw [List.forall₂_map_right_iff, List.forall₂_same]
    intro line hline id hid
    obtain ⟨record, hparse, -⟩ := parse_of_recordId hid
    obtain ⟨lead, trail, hcore⟩ := exists_core hparse
    have hkept := h line hline
    rw [LineKept, hid] at hkept
    obtain ⟨piece, hpieces, hsame⟩ := written_whole hcore hkept.2
    obtain ⟨result, hresult⟩ := Option.isSome_iff_exists.mp hkept.1
    rw [← resultOf_congr (hsame.trans hparse) hparse] at hresult
    refine ⟨result, ?_, ?_⟩
    · rw [hpieces, List.filterMap_cons_some hresult, List.filterMap_nil]
    · exact requestId_of_resultOf ((recordId_congr hsame).trans hid) hresult

end Reading

/-! ## 6. Writing -/

open TokenProxy.Providers (cacheMarkerKey messageUnmarked partsUnmarked startsWith
  toolsWithoutCacheMarkers unmarkedTool withoutCacheMarkers)

def nonForwardedBatchParams : List String := ["model", "batch_topic"]

section Writing

variable (py : JsonModule)

/-- An item, as it was read from the queue. -/
structure BatchItem where
  fields : List (String × Json)
  readable : Readable py.floats (.obj fields)

variable {py} (keepMarkers : Bool)

/-- `body[k] = v`, for a parameter that is forwarded. -/
def addParam (body : List (String × Json)) (entry : String × Json) : List (String × Json) :=
  if startsWith entry.1 "_" || startsWith entry.1 "x_" ||
      decide (entry.1 ∈ nonForwardedBatchParams) then body
  else if keepMarkers then Assoc.insert entry.1 entry.2 body
  else if entry.1 = cacheMarkerKey then body
  else Assoc.insert entry.1
    (if entry.1 = "tools" then toolsWithoutCacheMarkers entry.2 else entry.2) body

/-- The body of an item's request; `none` where it raises. -/
def bodyOf (item : BatchItem py) : Option (List (String × Json)) :=
  let messages := (Assoc.lookup "messages" item.fields).getD (.arr [])
  match ((Assoc.lookup "params" item.fields).getD .null).orElse (.obj []) with
  | .obj params =>
    some (params.foldl (addParam keepMarkers)
      [("model", (Assoc.lookup "model" item.fields).getD .null),
        ("messages", if keepMarkers then messages else withoutCacheMarkers messages)])
  | _ => none

def requestOf (id : Json) (body : List (String × Json)) : Json :=
  .obj [("custom_id", id), ("method", .str "POST"), ("url", .str "/v1/chat/completions"),
    ("body", .obj body)]

def lineOf (item : BatchItem py) : Option (List Char) := do
  let body ← bodyOf keepMarkers item
  let id ← Assoc.lookup "request_id" item.fields
  some (py.dumps (treeOf py.floats (requestOf id body)))

/-- `build_batch_jsonl`; `none` where it raises. -/
def buildBatchJsonl (items : List (BatchItem py)) : Option (List Char) := do
  let lines ← items.mapM (lineOf keepMarkers)
  some (['\n'].intercalate lines)

/-- The text has one line for each item, a record with the item's own id. -/
def OneLineEach (items : List (BatchItem py)) : Prop :=
  ∀ text, buildBatchJsonl keepMarkers items = some text →
    ∃ lines : List FileLine, text = fileOf lines ∧
      List.Forall₂ (fun item line => ∃ id, Assoc.lookup "request_id" item.fields = some id ∧
        recordId line.1 = some (treeOf py.floats id)) items lines

/-! ## 7. What is written can be read -/

variable {floats : Floats}

theorem readableFields_iff (fields : List (String × Json)) :
    ReadableFields floats fields ↔ ∀ entry ∈ fields, Readable floats entry.2 := by
  induction fields with
  | nil => simp [ReadableFields]
  | cons entry fields ih =>
    obtain ⟨key, value⟩ := entry
    rw [ReadableFields, ih, List.forall_mem_cons]

theorem readableItems_iff (items : List Json) :
    ReadableItems floats items ↔ ∀ item ∈ items, Readable floats item := by
  induction items with
  | nil => simp [ReadableItems]
  | cons item items ih => rw [ReadableItems, ih, List.forall_mem_cons]

theorem readable_obj_iff (fields : List (String × Json)) :
    Readable floats (.obj fields) ↔
      (fields.map Prod.fst).Nodup ∧ ∀ entry ∈ fields, Readable floats entry.2 := by
  rw [Readable, readableFields_iff]

theorem readable_lookup {fields : List (String × Json)} (h : Readable floats (.obj fields))
    {key : String} {value : Json} (hlookup : Assoc.lookup key fields = some value) :
    Readable floats value :=
  ((readable_obj_iff fields).mp h).2 _ (Assoc.mem_of_lookup hlookup)

theorem readable_getD {fields : List (String × Json)} (h : Readable floats (.obj fields))
    (key : String) {fallback : Json} (hfallback : Readable floats fallback) :
    Readable floats ((Assoc.lookup key fields).getD fallback) := by
  cases hlookup : Assoc.lookup key fields with
  | none => exact hfallback
  | some value => exact readable_lookup h hlookup

theorem readable_erase {fields : List (String × Json)} (h : Readable floats (.obj fields))
    (key : String) : Readable floats (.obj (Assoc.erase key fields)) := by
  rw [readable_obj_iff] at h ⊢
  exact ⟨h.1.sublist (List.filter_sublist.map Prod.fst),
    fun entry hentry => h.2 entry (List.mem_of_mem_filter hentry)⟩

theorem readable_insert {fields : List (String × Json)} (h : Readable floats (.obj fields))
    {key : String} {value : Json} (hvalue : Readable floats value) :
    Readable floats (.obj (Assoc.insert key value fields)) :=
  ⟨Assoc.nodup_insert h.1 key value, readableFields_insert hvalue h.2⟩

theorem readable_map {items : List Json} (h : Readable floats (.arr items)) {f : Json → Json}
    (hf : ∀ item, Readable floats item → Readable floats (f item)) :
    Readable floats (.arr (items.map f)) := by
  rw [Readable, readableItems_iff] at h ⊢
  intro item hitem
  obtain ⟨original, horiginal, rfl⟩ := List.mem_map.mp hitem
  exact hf original (h original horiginal)

theorem readable_foldl {α : Type} {f : List (String × Json) → α → List (String × Json)}
    {xs : List α} (hf : ∀ fields, ∀ x ∈ xs, Readable floats (.obj fields) →
      Readable floats (.obj (f fields x))) {fields : List (String × Json)}
    (h : Readable floats (.obj fields)) : Readable floats (.obj (xs.foldl f fields)) := by
  induction xs generalizing fields with
  | nil => exact h
  | cons x xs ih =>
    exact ih (fun fields y hy => hf fields y (List.mem_cons_of_mem x hy))
      (hf fields x List.mem_cons_self h)

theorem readable_partsUnmarked {value : Json} (h : Readable floats value) :
    Readable floats (partsUnmarked value) := by
  cases value with
  | arr parts =>
    apply readable_map h
    intro part hpart
    cases part with
    | obj fields => exact readable_erase hpart cacheMarkerKey
    | _ => exact hpart
  | _ => exact h

theorem readable_messageUnmarked {message : Json} (h : Readable floats message) :
    Readable floats (messageUnmarked message) := by
  cases message with
  | obj fields =>
    refine readable_foldl ?_ (readable_erase h cacheMarkerKey)
    intro fields key _ hfields
    split
    · next value hlookup =>
      exact readable_insert hfields (readable_partsUnmarked (readable_lookup hfields hlookup))
    · exact hfields
  | _ => exact h

theorem readable_withoutCacheMarkers {messages : Json} (h : Readable floats messages) :
    Readable floats (withoutCacheMarkers messages) := by
  cases messages with
  | arr items => exact readable_map h fun item hitem => readable_messageUnmarked hitem
  | _ => exact h

theorem readable_toolsWithoutCacheMarkers {tools : Json} (h : Readable floats tools) :
    Readable floats (toolsWithoutCacheMarkers tools) := by
  cases tools with
  | arr items =>
    apply readable_map h
    intro tool htool
    cases tool with
    | obj fields =>
      have hclean := readable_erase htool cacheMarkerKey
      rw [unmarkedTool]
      split
      · next function hlookup =>
        have hfunction := readable_erase (readable_lookup hclean hlookup) cacheMarkerKey
        exact readable_insert hclean hfunction
      · exact hclean
    | _ => exact htool
  | _ => exact h

theorem readable_addParam {body : List (String × Json)} (h : Readable floats (.obj body))
    {entry : String × Json} (hentry : Readable floats entry.2) :
    Readable floats (.obj (addParam keepMarkers body entry)) := by
  rw [addParam]
  split_ifs
  · exact h
  · exact readable_insert h hentry
  · exact h
  · exact readable_insert h (readable_toolsWithoutCacheMarkers hentry)
  · exact readable_insert h hentry

theorem readable_bodyOf {item : BatchItem py} {body : List (String × Json)}
    (h : bodyOf keepMarkers item = some body) : Readable py.floats (.obj body) := by
  rw [bodyOf] at h
  split at h
  · next params hparams =>
    cases h
    have hitem := item.readable
    have hreadable : Readable py.floats (.obj params) := by
      rw [← hparams, Json.orElse]
      split
      · exact readable_getD hitem "params" trivial
      · exact ⟨List.nodup_nil, trivial⟩
    have hmessages : Readable py.floats ((Assoc.lookup "messages" item.fields).getD (.arr [])) :=
      readable_getD hitem "messages" trivial
    have hentries := ((readable_obj_iff params).mp hreadable).2
    have hkeys : ["model", "messages"].Nodup := by decide
    refine readable_foldl (fun fields entry hentry hfields =>
      readable_addParam keepMarkers hfields (hentries entry hentry))
      ⟨hkeys, readable_getD hitem "model" trivial, ?_, trivial⟩
    split
    · exact hmessages
    · exact readable_withoutCacheMarkers hmessages
  · cases h

/-- A line that is written is the record of its item. -/
theorem recordId_of_lineOf {item : BatchItem py} {line : List Char}
    (h : lineOf keepMarkers item = some line) :
    ∃ id, Assoc.lookup "request_id" item.fields = some id ∧ '\n' ∉ line ∧
      recordId line = some (treeOf py.floats id) := by
  obtain ⟨body, hbody, h⟩ := Option.bind_eq_some_iff.mp h
  obtain ⟨id, hid, h⟩ := Option.bind_eq_some_iff.mp h
  cases h
  have hkeys : ["custom_id", "method", "url", "body"].Nodup := by decide
  have hrequest : Readable py.floats (requestOf id body) :=
    ⟨hkeys, readable_lookup item.readable hid, trivial, trivial,
      readable_bodyOf keepMarkers hbody, trivial⟩
  refine ⟨id, hid, py.dumps_line hrequest, ?_⟩
  rw [recordId, py.parse_dumps hrequest]
  rfl

theorem oneLineEach (items : List (BatchItem py)) : OneLineEach keepMarkers items := by
  intro text h
  obtain ⟨lines, hlines, htext⟩ := Option.bind_eq_some_iff.mp h
  cases htext
  have hall := Pointwise.forall₂_of_mapM hlines
  clear hlines h
  suffices hsuffices : ∃ fileLines : List FileLine, fileLines.map Subtype.val = lines ∧
      List.Forall₂ (fun item line => ∃ id, Assoc.lookup "request_id" item.fields = some id ∧
        recordId line.1 = some (treeOf py.floats id)) items fileLines by
    obtain ⟨fileLines, hmap, hrecords⟩ := hsuffices
    exact ⟨fileLines, by rw [fileOf, hmap], hrecords⟩
  induction hall with
  | nil => exact ⟨[], rfl, .nil⟩
  | cons hline _ ih =>
    obtain ⟨id, hid, hnewline, hrecord⟩ := recordId_of_lineOf keepMarkers hline
    obtain ⟨fileLines, hmap, hrecords⟩ := ih
    exact ⟨⟨_, hnewline⟩ :: fileLines, by rw [List.map_cons, hmap],
      .cons ⟨id, hid, hrecord⟩ hrecords⟩

end Writing

/-! ## 8. Both ways -/

/-- Batch files parse record by record, and are written item by item. -/
def JsonlFaithful (py : JsonModule) (lines : List FileLine) (keepMarkers : Bool)
    (items : List (BatchItem py)) : Prop :=
  Accounted py lines ∧ OneLineEach keepMarkers items

/-- **A file and a batch go through faithfully exactly where every line of the file is kept.** -/
theorem jsonlFaithful_iff (py : JsonModule) (lines : List FileLine) (keepMarkers : Bool)
    (items : List (BatchItem py)) :
    JsonlFaithful py lines keepMarkers items ↔ ∀ line ∈ lines, LineKept py line.1 :=
  ⟨fun h => (accounted_iff lines).mp h.1,
    fun h => ⟨(accounted_iff lines).mpr h, oneLineEach keepMarkers items⟩⟩

/-- The second record has a line separator in its answer. -/
def separatedFile : List FileLine :=
  [⟨"\x7b\"custom_id\":\"a\",\"response\":\x7b\"status_code\":200,\"body\":\x7b\x7d\x7d\x7d".toList,
      by decide +kernel⟩,
    ⟨("\x7b\"custom_id\":\"b\",\"response\":\x7b\"status_code\":200,\"body\":" ++
        "\x7b\"text\":\"one\u2028two\"\x7d\x7d\x7d").toList, by decide +kernel⟩]

/-- Both lines are JSON records, and neither has a result. -/
theorem not_jsonlFaithful : ¬ ∀ (py : JsonModule) (lines : List FileLine) (keepMarkers : Bool)
    (items : List (BatchItem py)), JsonlFaithful py lines keepMarkers items := by
  intro h
  have hnone : (parseBatchJsonlResults (.strict Floats.unread) (fileOf separatedFile)).isSome =
      false := by decide +kernel
  obtain ⟨⟨outs, -, hparse⟩, -⟩ := h (.strict Floats.unread) separatedFile true []
  rw [hparse] at hnone
  cases hnone

/-- They are records. -/
example : (separatedFile.map fun line => (recordId line.1).isSome) = [true, true] := by
  decide +kernel

end TokenProxy.BatchFile
