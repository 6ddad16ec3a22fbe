/-
  TokenProxy/CodeFences.lean
  ==========================
  **Compacting code** (`_compress_code`, `g19_headroom.py`).

  Only what stands inside a fence is taken for code.  A blank line of it is dropped, and so is a
  line that begins with the comment marker of the fence's language; any other line is cut at the
  marker of a comment behind it, where the quotes before the marker are closed.

  Main results: `inString_iff`, the scan of the quotes against the literals of a line;
  `code_compressed`, what is kept and what is left out; `not_codeFaithful`, a blank line between
  two statements is not kept.
-/
import Mathlib.Data.List.ReduceOption
import TokenProxy.CcrTenants
import TokenProxy.SecretPatterns

namespace TokenProxy.CodeFences

open TokenProxy.Ccr (stripBy stripBy_spec)
open TokenProxy.KeyStore (isSpace)

abbrev Line := List Char

abbrev Language := List Char

/-! ## 1. Fences -/

/-- What the patterns read of the character tables. -/
structure Tables extends Redaction.Tables where
  /-- `s.lower()` -/
  lower : List Char → List Char

structure CodeStrategy where
  stripComments : Bool := true
  stripWhitespace : Bool := true

variable (py : Tables) (st : CodeStrategy)

/-- `line.strip()` -/
def strip (line : Line) : Line := stripBy isSpace line

/-- `line.rstrip()` -/
def rstrip (line : Line) : Line := line.rdropWhile isSpace

/-- `_FENCE_PATTERN.match(line)` -/
def isFence (line : Line) : Bool := "```".toList.isPrefixOf (line.dropWhile isSpace)

/-- `[\w#+.\-]` -/
def isNameChar (c : Char) : Bool := py.isWord c || c = '#' || c = '+' || c = '.' || c = '-'

/-- `_fence_language`.  No character that a part of the pattern repeats can begin the next part,
    so the parts are taken from left to right. -/
def fenceLanguage (markerLine : Line) : Language :=
  if isFence markerLine then
    let behind := ((markerLine.dropWhile isSpace).dropWhile (· == '`')).dropWhile isSpace
    let label := if behind.head? = some '{' then behind.tail.dropWhile isSpace else behind
    let name := label.takeWhile (isNameChar py)
    if name = [] then [] else py.lower name
  else []

/-- `_iter_fenced`, from a line on. -/
def iterFenced (inFence : Bool) : List Line → List (Line × Bool × Bool)
  | [] => []
  | line :: rest =>
    if isFence line then (line, true, !inFence) :: iterFenced (!inFence) rest
    else (line, false, inFence) :: iterFenced inFence rest

/-! ## 2. Comments -/

/-- `_HASH_COMMENT_LANGUAGES` -/
def hashCommentLanguages : List String :=
  ["python", "py", "python3", "ruby", "rb", "perl", "pl", "r", "sh", "bash", "zsh", "shell",
    "yaml", "yml", "toml", "powershell", "ps1", "pwsh", "elixir", "ex", "exs", "julia", "jl",
    "nim", "cmake", "makefile", "make", "coffeescript", "coffee", "tcl"]

/-- `_SLASH_COMMENT_LANGUAGES` -/
def slashCommentLanguages : List String :=
  ["c", "h", "cpp", "c++", "cc", "cxx", "hpp", "csharp", "cs", "c#", "java", "javascript", "js",
    "jsx", "typescript", "ts", "tsx", "go", "golang", "rust", "rs", "swift", "kotlin", "kt",
    "kts", "scala", "dart", "php", "groovy", "zig", "proto", "protobuf", "solidity"]

/-- `_comment_markers`: what a line of comment begins with, and what begins one behind code. -/
def commentMarkers (language : Language) : List Line × List Line :=
  if hashCommentLanguages.any (·.toList == language) then (["#".toList], [" #".toList])
  else if slashCommentLanguages.any (·.toList == language) then (["//".toList], [" //".toList])
  else ([], [])

/-- The markers that `_crush` looks for. -/
def markers (language : Language) : List Line × List Line :=
  if st.stripComments then commentMarkers language else ([], [])

def quoteStep (state : Bool × Bool) (c : Char) : Bool × Bool :=
  if c = '\'' && !state.2 then (!state.1, state.2)
  else if c = '"' && !state.1 then (state.1, !state.2)
  else state

/-- The loop of `_in_string` over the characters before a place. -/
def quoteState (before : Line) : Bool × Bool := before.foldl quoteStep (false, false)

/-- `_in_string` -/
def inString (line : Line) (pos : Nat) : Bool :=
  (quoteState (line.take pos)).1 || (quoteState (line.take pos)).2

/-- `line.find(marker)` -/
def find (marker : Line) : Line → Option Nat
  | [] => if marker = [] then some 0 else none
  | c :: rest =>
    if marker.isPrefixOf (c :: rest) then some 0 else (find marker rest).map (· + 1)

def cutInline (line marker : Line) : Line :=
  match find marker line with
  | some idx => if 0 < idx && !inString line idx then rstrip (line.take idx) else line
  | none => line

/-- A line that is a comment as a whole, and no shebang. -/
def isCommentLine (language : Language) (line : Line) : Bool :=
  (markers st language).1.any (·.isPrefixOf (strip line)) &&
    !"#!".toList.isPrefixOf (strip line)

/-- One line in `_crush`. -/
def crushLine (language : Language) (line : Line) : Option Line :=
  if isCommentLine st language line then none
  else if st.stripWhitespace && decide (strip line = []) then none
  else some ((markers st language).2.foldl cutInline line)

/-- `_crush` -/
def crush (language : Language) (codeLines : List Line) : List Line :=
  codeLines.filterMap (crushLine st language)

/-- The loop of `_compress_code` over the lines of a fenced text. -/
def compressFenced (segment : List Line) (language : Language) :
    List (Line × Bool × Bool) → List Line
  | [] => crush st language segment
  | (line, isMarker, inFence) :: rest =>
    if isMarker then
      if inFence then line :: compressFenced segment (fenceLanguage py line) rest
      else crush st language segment ++ line :: compressFenced [] language rest
    else if inFence then compressFenced (segment ++ [line]) language rest
    else line :: compressFenced segment language rest

/-- `_compress_code` -/
def compressCode (text : List Char) : List Char :=
  let lines := text.splitOn '\n'
  ['\n'].intercalate
    (if lines.any isFence then compressFenced py st [] [] (iterFenced false lines)
    else crush st [] lines)

/-! ## 3. Literals of a line -/

def isQuote (c : Char) : Bool := c = '\'' || c = '"'

/-- A literal ends at the next quote of its kind. -/
inductive Piece
  | plain (c : Char) (hplain : isQuote c = false)
  | literal (quote : Char) (body : Line) (hquote : isQuote quote = true) (hbody : quote ∉ body)

def Piece.text : Piece → Line
  | plain c _ => [c]
  | literal quote body _ _ => quote :: (body ++ [quote])

/-- Every literal is closed. -/
def Closed (before : Line) : Prop := ∃ pieces : List Piece, before = pieces.flatMap Piece.text

/-- The last literal is open. -/
def Quoted (before : Line) : Prop :=
  ∃ front quote body, Closed front ∧ isQuote quote = true ∧ quote ∉ body ∧
    before = front ++ quote :: body

/-- The state inside a literal of this quote. -/
def openState (quote : Char) : Bool × Bool := (quote == '\'', quote == '"')

theorem eq_of_isQuote {quote : Char} (h : isQuote quote = true) : quote = '\'' ∨ quote = '"' := by
  simpa only [isQuote, Bool.or_eq_true, decide_eq_true_eq] using h

theorem quoteStep_plain {c : Char} (h : isQuote c = false) (state : Bool × Bool) :
    quoteStep state c = state := by
  simp only [isQuote, Bool.or_eq_false_iff, decide_eq_false_iff_not] at h
  simp [quoteStep, h.1, h.2]

theorem quoteStep_opens {quote : Char} (h : isQuote quote = true) :
    quoteStep (false, false) quote = openState quote := by
  rcases eq_of_isQuote h with rfl | rfl <;> rfl

theorem quoteStep_closes {quote : Char} (h : isQuote quote = true) :
    quoteStep (openState quote) quote = (false, false) := by
  rcases eq_of_isQuote h with rfl | rfl <;> rfl

theorem quoteStep_within {quote c : Char} (h : isQuote quote = true) (hne : c ≠ quote) :
    quoteStep (openState quote) c = openState quote := by
  rcases eq_of_isQuote h with rfl | rfl <;> simp [quoteStep, openState, hne]

theorem foldl_quoteStep_body {quote : Char} (h : isQuote quote = true) {body : Line}
    (hbody : quote ∉ body) : body.foldl quoteStep (openState quote) = openState quote := by
  induction body with
  | nil => rfl
  | cons c body ih =>
    simp only [List.mem_cons, not_or] at hbody
    rw [List.foldl_cons, quoteStep_within h (Ne.symm hbody.1), ih hbody.2]

theorem foldl_quoteStep_pieces (pieces : List Piece) :
    (pieces.flatMap Piece.text).foldl quoteStep (false, false) = (false, false) := by
  induction pieces with
  | nil => rfl
  | cons piece pieces ih =>
    rw [List.flatMap_cons, List.foldl_append]
    cases piece with
    | plain c hplain =>
      rw [Piece.text, List.foldl_cons, List.foldl_nil, quoteStep_plain hplain, ih]
    | literal quote body hquote hbody =>
      rw [Piece.text, List.foldl_cons, quoteStep_opens hquote, List.foldl_append,
        foldl_quoteStep_body hquote hbody, List.foldl_cons, List.foldl_nil,
        quoteStep_closes hquote, ih]

theorem quoteState_of_closed {before : Line} (h : Closed before) :
    quoteState before = (false, false) := by
  obtain ⟨pieces, rfl⟩ := h
  exact foldl_quoteStep_pieces pieces

theorem Closed.concat {before : Line} (h : Closed before) (piece : Piece) :
    Closed (before ++ piece.text) := by
  obtain ⟨pieces, rfl⟩ := h
  exact ⟨pieces ++ [piece], by rw [List.flatMap_append, List.flatMap_singleton]⟩

/-- A line is read to a place between its literals or in one of them. -/
theorem closed_or_quoted (before : Line) : Closed before ∨ Quoted before := by
  induction before using List.reverseRecOn with
  | nil => exact Or.inl ⟨[], rfl⟩
  | append_singleton before c ih =>
    rcases ih with hclosed | ⟨front, quote, body, hfront, hquote, hbody, rfl⟩
    · by_cases hc : isQuote c = true
      · exact Or.inr ⟨before, c, [], hclosed, hc, List.not_mem_nil, rfl⟩
      · rw [Bool.not_eq_true] at hc
        exact Or.inl (hclosed.concat (.plain c hc))
    · rw [List.append_assoc, List.cons_append]
      by_cases hc : c = quote
      · rw [hc]
        exact Or.inl (hfront.concat (.literal quote body hquote hbody))
      · refine Or.inr ⟨front, quote, body ++ [c], hfront, hquote, ?_, rfl⟩
        rw [List.mem_append, List.mem_singleton, not_or]
        exact ⟨hbody, Ne.symm hc⟩

theorem quoteState_of_quoted {before : Line} (h : Quoted before) :
    (quoteState before).1 || (quoteState before).2 := by
  obtain ⟨front, quote, body, hfront, hquote, hbody, rfl⟩ := h
  have hstate : quoteState (front ++ quote :: body) = openState quote := by
    have hopen := quoteState_of_closed hfront
    rw [quoteState] at hopen ⊢
    rw [List.foldl_append, hopen, List.foldl_cons, quoteStep_opens hquote,
      foldl_quoteStep_body hquote hbody]
  rw [hstate]
  rcases eq_of_isQuote hquote with rfl | rfl <;> rfl

/-- The scan of the quotes finds a place in a literal exactly where it is in one. -/
theorem inString_iff (line : Line) (pos : Nat) :
    inString line pos = true ↔ Quoted (line.take pos) := by
  constructor
  · intro h
    rcases closed_or_quoted (line.take pos) with hclosed | hquoted
    · rw [inString, quoteState_of_closed hclosed] at h
      cases h
    · exact hquoted
  · exact quoteState_of_quoted

/-! ## 4. What is promised -/

/-- The lines, each with the language of the fence it stands in.  A fence's markers stand
    outside. -/
def placesFrom : Option Language → List Line → List (Line × Option Language)
  | _, [] => []
  | place, line :: rest =>
    if isFence line then
      (line, none) ::
        placesFrom (if place.isNone then some (fenceLanguage py line) else none) rest
    else (line, place) :: placesFrom place rest

def places (text : List Char) : List (Line × Option Language) :=
  placesFrom py none (text.splitOn '\n')

/-- A text without a fence is code of no language. -/
def codePlaces (text : List Char) : List (Line × Option Language) :=
  if (text.splitOn '\n').any isFence then places py text
  else (text.splitOn '\n').map fun line => (line, some [])

/-- Behind this much of the line a comment begins. -/
def CommentBehind (language : Language) (line before : Line) : Prop :=
  before ≠ [] ∧ ¬ Quoted before ∧ ∃ marker ∈ (markers st language).2, before ++ marker <+: line

/-- A line as it was, or cut where a comment begins. -/
def Cut (language : Language) (line kept : Line) : Prop :=
  kept = line ∨ ∃ before, CommentBehind st language line before ∧ kept = rstrip before

/-- A character of the line is in a literal that the line opens, and in no comment. -/
structure InLiteral (language : Language) (line front : Line) (c : Char) : Prop where
  isPrefix : front ++ [c] <+: line
  within : Quoted front ∨ Closed front ∧ isQuote c = true
  code : isCommentLine st language line = false
  uncommented : ∀ before, CommentBehind st language line before → front.length < before.length

/-- What may become of a line. -/
structure Compressed (line : Line) (place : Option Language) (result : Option Line) : Prop where
  outside : place = none → result = some line
  dropped : ∀ language, place = some language → result = none →
    strip line = [] ∨ isCommentLine st language line = true
  cut : ∀ language, place = some language → ∀ kept, result = some kept →
    Cut st language line kept
  literal : ∀ language, place = some language → ∀ front c,
    InLiteral st language line front c → ∃ kept, result = some kept ∧ front ++ [c] <+: kept

/-- A line of code that is not blank and has no comment. -/
structure Uncommented (language : Language) (line : Line) : Prop where
  written : strip line ≠ []
  code : isCommentLine st language line = false
  uncommented : ∀ before, ¬ CommentBehind st language line before

/-- Which characters of a language's code lie in a string literal, and which in a comment: of a
    character, the code before it and the code from it on are read. -/
structure Lexer where
  literal : List Char → List Char → Bool
  comment : List Char → List Char → Bool

/-- The rest of the fence that the first line stands in, each line with the break before it. -/
def fenceCode : List (Line × Option Language) → List Char
  | (line, some _) :: rest => '\n' :: line ++ fenceCode rest
  | _ => []

/-- The characters of a text, marked. -/
def marked (mark : List Char → List Char → Bool) (before : List Char) :
    List Char → List Char → List (Char × Bool)
  | [], _ => []
  | c :: line, behind =>
    (c, mark before (c :: line ++ behind)) :: marked mark (before ++ [c]) line behind

/-- The text with a mark at each character: of the code of a fence as its language says. -/
def marks (mark : Option Language → List Char → List Char → Bool) :
    List Char → List (Line × Option Language) → List (Char × Bool)
  | _, [] => []
  | before, (line, place) :: rest =>
    marked (mark place) before ('\n' :: line) (fenceCode rest) ++
      marks mark (if place.isNone then [] else before ++ '\n' :: line) rest

/-- What is left of a marked text still has every character with a mark. -/
inductive Retains : List (Char × Bool) → List Char → Prop
  | nil : Retains [] []
  | keep (c : Char) (mark : Bool) {rest : List (Char × Bool)} {left : List Char} :
      Retains rest left → Retains ((c, mark) :: rest) (c :: left)
  | drop (c : Char) {rest : List (Char × Bool)} {left : List Char} :
      Retains rest left → Retains ((c, false) :: rest) left

/-- Nothing outside the fences is removed and nothing in a literal, and code without comments and
    repeated blank lines comes through as it is. -/
structure CodeFaithful (lexer : Language → Lexer) (text : List Char) : Prop where
  kept : Retains
    (marks (fun place before rest => place.all fun language => (lexer language).literal before rest)
      [] (places py text)).tail (compressCode py st text)
  unchanged :
    (∀ mark ∈ marks
      (fun place before rest => place.any fun language => (lexer language).comment before rest)
      [] (places py text), mark.2 = false) →
    (places py text).IsChain (fun first second =>
      ¬ (strip first.1 = [] ∧ strip second.1 = [] ∧ first.2.isSome ∧ second.2.isSome)) →
    compressCode py st text = text

/-! ## 5. One line -/

section

variable {py st} {language : Language} {line : Line}

theorem isSpace_of_isQuote {c : Char} (h : isQuote c = true) : isSpace c = false := by
  rcases eq_of_isQuote h with rfl | rfl <;> decide

theorem strip_ne_nil {c : Char} (hmem : c ∈ line) (hc : isSpace c = false) : strip line ≠ [] := by
  intro hnil
  obtain ⟨lead, trail, hline, hspace⟩ := stripBy_spec isSpace line
  rw [show stripBy isSpace line = [] from hnil, List.append_nil] at hline
  rw [hline] at hmem
  rw [hspace c hmem] at hc
  cases hc

theorem prefix_rstrip (front : Line) {c : Char} (behind : Line) (hc : isSpace c = false) :
    front ++ [c] <+: rstrip (front ++ c :: behind) := by
  induction behind using List.reverseRecOn with
  | nil =>
    rw [rstrip, List.rdropWhile_concat_neg isSpace front c (by rw [hc]; exact Bool.false_ne_true)]
  | append_singleton behind d ih =>
    rw [← List.cons_append, ← List.append_assoc]
    by_cases hd : isSpace d = true
    · rw [rstrip, List.rdropWhile_concat_pos isSpace _ d hd]
      exact ih
    · rw [rstrip, List.rdropWhile_concat_neg isSpace _ d hd]
      exact ⟨behind ++ [d], by simp⟩

theorem rstrip_isPrefix (line : Line) : rstrip line <+: line := List.rdropWhile_prefix isSpace line

theorem find_spec {marker : Line} {idx : Nat} (h : find marker line = some idx) :
    idx ≤ line.length ∧ line.take idx ++ marker <+: line := by
  induction line generalizing idx with
  | nil =>
    rw [find] at h
    split at h
    · next hnil =>
      cases h
      exact ⟨le_refl 0, by rw [hnil]; exact List.nil_prefix⟩
    · cases h
  | cons c rest ih =>
    rw [find] at h
    split at h
    · next hprefix =>
      cases h
      exact ⟨Nat.zero_le _, List.isPrefixOf_iff_prefix.mp hprefix⟩
    · obtain ⟨found, hfound, rfl⟩ := Option.map_eq_some_iff.mp h
      obtain ⟨hle, hbehind⟩ := ih hfound
      refine ⟨Nat.succ_le_succ hle, ?_⟩
      rw [List.take_succ_cons, List.cons_append]
      exact (List.prefix_cons_inj c).mpr hbehind

theorem CommentBehind.isPrefix {before : Line} (h : CommentBehind st language line before) :
    before <+: line := by
  obtain ⟨-, -, marker, -, hmarker⟩ := h
  exact (List.prefix_append before marker).trans hmarker

theorem Cut.isPrefix {kept : Line} (h : Cut st language line kept) : kept <+: line := by
  rcases h with rfl | ⟨before, hcomment, rfl⟩
  · exact List.prefix_rfl
  · exact (rstrip_isPrefix before).trans hcomment.isPrefix

theorem Cut.cutInline {kept marker : Line} (h : Cut st language line kept)
    (hmarker : marker ∈ (markers st language).2) :
    Cut st language line (cutInline kept marker) := by
  rw [CodeFences.cutInline]
  split
  · next idx hfind =>
    obtain ⟨hle, hbehind⟩ := find_spec hfind
    split_ifs with hcode
    · rw [Bool.and_eq_true, decide_eq_true_eq, Bool.not_eq_true'] at hcode
      refine Or.inr ⟨kept.take idx, ⟨?_, ?_, marker, hmarker, hbehind.trans h.isPrefix⟩, rfl⟩
      · rw [← List.length_pos_iff, List.length_take]
        omega
      · rw [← inString_iff, hcode.2]
        exact Bool.false_ne_true
    · exact h
  · exact h

theorem Cut.foldl {inline : List Line} (hinline : inline ⊆ (markers st language).2) {kept : Line}
    (h : Cut st language line kept) :
    Cut st language line (inline.foldl CodeFences.cutInline kept) := by
  induction inline generalizing kept with
  | nil => exact h
  | cons marker inline ih =>
    rw [List.foldl_cons]
    exact ih (List.subset_of_cons_subset hinline) (h.cutInline (hinline List.mem_cons_self))

/-- A literal that is open is closed by a quote. -/
theorem exists_quote {front behind : Line} (hfront : Quoted front)
    (h : ¬ Quoted (front ++ behind)) : ∃ quote ∈ behind, isQuote quote = true := by
  obtain ⟨before, quote, body, hclosed, hquote, hbody, rfl⟩ := hfront
  refine ⟨quote, ?_, hquote⟩
  by_contra hmem
  apply h
  refine ⟨before, quote, body ++ behind, hclosed, hquote, ?_, by
    rw [List.append_assoc, List.cons_append]⟩
  rw [List.mem_append, not_or]
  exact ⟨hbody, hmem⟩

namespace InLiteral

variable {front : Line} {c : Char}

theorem written (h : InLiteral st language line front c) : strip line ≠ [] := by
  obtain ⟨quote, hmem, hquote⟩ : ∃ quote ∈ front ++ [c], isQuote quote = true := by
    rcases h.within with ⟨before, quote, body, -, hquote, -, rfl⟩ | ⟨-, hquote⟩
    · exact ⟨quote, by simp, hquote⟩
    · exact ⟨c, by simp, hquote⟩
  exact strip_ne_nil (h.isPrefix.subset hmem) (isSpace_of_isQuote hquote)

/-- A cut leaves it, for it comes behind the literal's end. -/
theorem prefix_of_cut (h : InLiteral st language line front c) {kept : Line}
    (hcut : Cut st language line kept) : front ++ [c] <+: kept := by
  rcases hcut with rfl | ⟨before, hcomment, rfl⟩
  · exact h.isPrefix
  · have hlength : (front ++ [c]).length ≤ before.length := by
      rw [List.length_append, List.length_singleton]
      exact h.uncommented before hcomment
    obtain ⟨behind, rfl⟩ :=
      List.prefix_of_prefix_length_le h.isPrefix hcomment.isPrefix hlength
    rcases h.within with hquoted | ⟨-, hquote⟩
    · have hend := hcomment.2.1
      rw [List.append_assoc, List.singleton_append] at hend ⊢
      obtain ⟨quote, hmem, hquote⟩ := exists_quote hquoted hend
      obtain ⟨within, after, hsplit⟩ := List.append_of_mem hmem
      have hkept := prefix_rstrip (front ++ within) after (isSpace_of_isQuote hquote)
      rw [List.append_assoc, List.append_assoc, ← hsplit] at hkept
      refine List.IsPrefix.trans ?_ hkept
      rw [List.prefix_append_right_inj]
      cases within with
      | nil =>
        obtain ⟨rfl, -⟩ := List.cons.inj hsplit
        exact List.prefix_rfl
      | cons d within =>
        obtain ⟨rfl, -⟩ := List.cons.inj hsplit
        exact ⟨within ++ [quote], rfl⟩
    · rw [List.append_assoc, List.singleton_append]
      exact prefix_rstrip front behind (isSpace_of_isQuote hquote)

end InLiteral

theorem compressed_outside : Compressed st line none (some line) where
  outside _ := rfl
  dropped _ hplace := by cases hplace
  cut _ hplace := by cases hplace
  literal _ hplace := by cases hplace

theorem compressed_crushLine : Compressed st line (some language) (crushLine st language line) := by
  have hcut := Cut.foldl (List.Subset.refl (markers st language).2)
    (show Cut st language line line from Or.inl rfl)
  refine ⟨fun hplace => absurd hplace (Option.some_ne_none language), ?_, ?_, ?_⟩
  · intro language' hplace hnone
    cases hplace
    rw [crushLine] at hnone
    split_ifs at hnone with hcomment hblank
    · exact Or.inr hcomment
    · rw [Bool.and_eq_true, decide_eq_true_eq] at hblank
      exact Or.inl hblank.2
  · intro language' hplace kept hkept
    cases hplace
    rw [crushLine] at hkept
    split_ifs at hkept
    cases hkept
    exact hcut
  · intro language' hplace front c hliteral
    cases hplace
    refine ⟨(markers st language).2.foldl cutInline line, ?_, hliteral.prefix_of_cut hcut⟩
    rw [crushLine, if_neg (by rw [hliteral.code]; exact Bool.false_ne_true), if_neg]
    rw [Bool.and_eq_true, decide_eq_true_eq, not_and]
    intro _
    exact hliteral.written

theorem Compressed.unchanged {result : Option Line} (h : Compressed st line (some language) result)
    (huncommented : Uncommented st language line) : result = some line := by
  cases result with
  | none =>
    rcases h.dropped language rfl rfl with hblank | hcomment
    · exact absurd hblank huncommented.written
    · rw [huncommented.code] at hcomment
      cases hcomment
  | some kept =>
    rcases h.cut language rfl kept rfl with rfl | ⟨before, hcomment, -⟩
    · rfl
    · exact absurd hcomment (huncommented.uncommented before)

end

/-! ## 6. The text -/

/-- What becomes of a line at its place. -/
def compressPlace (place : Line × Option Language) : Option Line :=
  match place.2 with
  | none => some place.1
  | some language => crushLine st language place.1

section

variable {py st}

theorem compressed_place (place : Line × Option Language) :
    Compressed st place.1 place.2 (compressPlace st place) := by
  obtain ⟨line, place⟩ := place
  cases place with
  | none => exact compressed_outside
  | some language => exact compressed_crushLine

theorem map_fst_placesFrom (place : Option Language) (lines : List Line) :
    (placesFrom py place lines).map Prod.fst = lines := by
  fun_induction placesFrom py place lines with
  | case1 => rfl
  | case2 place line rest hfence ih => rw [List.map_cons, ih]
  | case3 place line rest hfence ih => rw [List.map_cons, ih]

theorem map_fst_codePlaces (text : List Char) :
    (codePlaces py text).map Prod.fst = text.splitOn '\n' := by
  rw [codePlaces]
  split
  · exact map_fst_placesFrom none _
  · rw [List.map_map]
    exact List.map_id _

theorem crush_append (language : Language) (segment lines : List Line) :
    crush st language (segment ++ lines) = crush st language segment ++ crush st language lines :=
  List.filterMap_append

theorem filterMap_outside (line : Line) (rest : List (Line × Option Language)) :
    ((line, none) :: rest).filterMap (compressPlace st) =
      line :: rest.filterMap (compressPlace st) :=
  List.filterMap_cons_some rfl

theorem filterMap_inside (line : Line) (language : Language)
    (rest : List (Line × Option Language)) :
    ((line, some language) :: rest).filterMap (compressPlace st) =
      crush st language [line] ++ rest.filterMap (compressPlace st) :=
  List.filterMap_append (l := [(line, some language)])

/-- The loop, outside a fence and in one with the lines of it so far. -/
theorem compressFenced_eq (lines : List Line) :
    (∀ language, compressFenced py st [] language (iterFenced false lines) =
      (placesFrom py none lines).filterMap (compressPlace st)) ∧
    ∀ segment language, compressFenced py st segment language (iterFenced true lines) =
      crush st language segment ++
        (placesFrom py (some language) lines).filterMap (compressPlace st) := by
  induction lines with
  | nil =>
    refine ⟨fun language => rfl, fun segment language => ?_⟩
    rw [iterFenced, compressFenced, placesFrom, List.filterMap_nil, List.append_nil]
  | cons line rest ih =>
    obtain ⟨ihOutside, ihInside⟩ := ih
    by_cases hfence : isFence line = true
    · refine ⟨fun language => ?_, fun segment language => ?_⟩
      · rw [iterFenced, placesFrom, if_pos hfence, if_pos hfence, filterMap_outside]
        exact congrArg (line :: ·) (ihInside [] (fenceLanguage py line))
      · rw [iterFenced, placesFrom, if_pos hfence, if_pos hfence, filterMap_outside]
        exact congrArg (crush st language segment ++ line :: ·) (ihOutside language)
    · refine ⟨fun language => ?_, fun segment language => ?_⟩
      · rw [iterFenced, placesFrom, if_neg hfence, if_neg hfence, filterMap_outside]
        exact congrArg (line :: ·) (ihOutside language)
      · rw [iterFenced, placesFrom, if_neg hfence, if_neg hfence, filterMap_inside,
          ← List.append_assoc, ← crush_append]
        exact ihInside (segment ++ [line]) language

theorem compressCode_eq (text : List Char) : compressCode py st text =
    ['\n'].intercalate ((codePlaces py text).filterMap (compressPlace st)) := by
  rw [compressCode, codePlaces]
  split_ifs with hfence
  · rw [places, (compressFenced_eq _).1]
  · rw [List.filterMap_map]
    rfl

end

/-- **A text keeps the lines outside its fences; of a fence only blank lines are dropped, lines of
    comment, and what follows where a comment begins, and no character of a literal that its line
    opens; code without comments and blank lines comes through as it is.** -/
theorem code_compressed (text : List Char) :
    (∃ results : List (Option Line),
      List.Forall₂ (fun place result => Compressed st place.1 place.2 result)
        (codePlaces py text) results ∧
      compressCode py st text = ['\n'].intercalate results.reduceOption) ∧
    ((∀ place ∈ codePlaces py text, ∀ language, place.2 = some language →
      Uncommented st language place.1) → compressCode py st text = text) := by
  refine ⟨⟨(codePlaces py text).map (compressPlace st), ?_, ?_⟩, fun huncommented => ?_⟩
  · rw [List.forall₂_map_right_iff, List.forall₂_same]
    exact fun place _ => compressed_place place
  · rw [compressCode_eq, List.reduceOption, List.filterMap_map]
    rfl
  · have hkept : ∀ place ∈ codePlaces py text, compressPlace st place = some place.1 := by
      rintro ⟨line, place⟩ hmem
      cases place with
      | none => rfl
      | some language =>
        exact (@compressed_place st (line, some language)).unchanged
          (huncommented _ hmem language rfl)
    have hlines : (codePlaces py text).filterMap (compressPlace st) = text.splitOn '\n' := by
      rw [List.filterMap_congr hkept, ← @map_fst_codePlaces py]
      exact congrFun List.filterMap_eq_map (codePlaces py text)
    rw [compressCode_eq, hlines]
    exact List.intercalate_splitOn '\n'

/-! ## 7. A blank line -/

inductive Mode
  | code
  | comment
  | literal (quote : Char) (triple : Bool)

/-- Where Python's own reading of a code stands after this much of it. -/
def pythonMode : Mode → List Char → Mode
  | mode, [] => mode
  | .comment, c :: rest => pythonMode (if c = '\n' then .code else .comment) rest
  | .literal quote triple, '\\' :: _ :: rest => pythonMode (.literal quote triple) rest
  | .literal quote true, c :: d :: e :: rest =>
    if c = quote ∧ d = quote ∧ e = quote then pythonMode .code rest
    else pythonMode (.literal quote true) (d :: e :: rest)
  | .literal quote true, _ :: rest => pythonMode (.literal quote true) rest
  | .literal quote false, c :: rest =>
    pythonMode (if c = quote ∨ c = '\n' then .code else .literal quote false) rest
  | .code, c :: d :: e :: rest =>
    if isQuote c ∧ d = c ∧ e = c then pythonMode (.literal c true) rest
    else if isQuote c then pythonMode (.literal c false) (d :: e :: rest)
    else pythonMode (if c = '#' then .comment else .code) (d :: e :: rest)
  | .code, c :: rest =>
    pythonMode (if isQuote c then .literal c false else if c = '#' then .comment else .code) rest

def python : Lexer where
  literal before rest := match pythonMode .code before with
    | .literal _ _ => true
    | .comment => false
    | .code => rest.head?.any isQuote
  comment before rest := match pythonMode .code before with
    | .literal _ _ => false
    | .comment => rest.head? != some '\n'
    | .code => rest.head? == some '#'

/-- The character tables as far as ASCII goes. -/
def ascii : Tables where
  toTables := Redaction.asciiTables
  lower := List.map Char.toLower

/-- Two statements with a blank line between them. -/
def twoStatements : List Char := "```python\nx = 1\n\ny = 2\n```".toList

/-- One blank line is dropped like any other. -/
theorem not_codeFaithful : ¬ ∀ (st : CodeStrategy) (text : List Char),
    CodeFaithful ascii st (fun _ => python) text := by
  intro h
  have hunchanged := (h {} twoStatements).unchanged (by decide +kernel) (by decide +kernel)
  exact absurd hunchanged (by decide +kernel)

end TokenProxy.CodeFences
