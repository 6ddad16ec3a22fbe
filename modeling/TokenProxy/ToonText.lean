/-
  TokenProxy/ToonText.lean
  ========================
  **Does the conversion to TOON touch only the blocks that it encodes?**
  (`_array_of_objects_pattern`, `_compact_json_to_toon` of `middleware/g13_batch.py`).

  The pattern finds blocks by their places, but a block is then replaced by its text: the first
  occurrence in what the text has become.  This may be within an earlier block that was no JSON
  and has been left as it was.

  Main result: `compact_inPlace_iff`, only the blocks are touched exactly when no encoder raises
  and each encoded block is found first at its own place.
-/
import TokenProxy.KeyStore
import TokenProxy.ReplaceFirst
import TokenProxy.ToonTable

namespace TokenProxy.Toon

open TextReplace (Segment replaceFirst before after run FirstEach Marked)

/-! ## 1. The blocks of a text -/

/-- The length of a closing brace, spaces and a closing bracket, when the text starts so. -/
def closing : List Char → Option Nat
  | c :: cs =>
    if c = '}' ∧ (cs.dropWhile KeyStore.isSpace).head? = some ']' then
      some ((cs.takeWhile KeyStore.isSpace).length + 2)
    else none
  | [] => none

/-- Up to the first closing, with at most so many characters before it. -/
def untilClosing : Nat → List Char → Option Nat
  | 0, cs => closing cs
  | budget + 1, cs =>
    match closing cs, cs with
    | some k, _ => some k
    | none, _ :: cs => (untilClosing budget cs).map (· + 1)
    | none, [] => none

/-- The length of the match of the pattern at the start of the text, if there is one. -/
def blockLength (maxBlockChars : Nat) : List Char → Option Nat
  | c :: cs =>
    if c = '[' then
      match cs.dropWhile KeyStore.isSpace with
      | d :: rest =>
        if d = '{' then
          (untilClosing maxBlockChars rest).map
            (· + ((cs.takeWhile KeyStore.isSpace).length + 2))
        else none
      | [] => none
    else none
  | [] => none

/-- A text as `finditer` goes over it. -/
inductive Piece where
  | plain (c : Char)
  | block (w : List Char)

/-- `skip` characters of the last block are still ahead. -/
def piecesFrom (maxBlockChars : Nat) : Nat → List Char → List Piece
  | _, [] => []
  | skip + 1, _ :: cs => piecesFrom maxBlockChars skip cs
  | 0, c :: cs =>
    match blockLength maxBlockChars (c :: cs) with
    | some k => .block ((c :: cs).take k) :: piecesFrom maxBlockChars (k - 1) cs
    | none => .plain c :: piecesFrom maxBlockChars 0 cs

def pieces (maxBlockChars : Nat) (content : List Char) : List Piece :=
  piecesFrom maxBlockChars 0 content

/-- `pattern.finditer(content)`. -/
def blocks : List Piece → List (List Char)
  | [] => []
  | .plain _ :: ps => blocks ps
  | .block w :: ps => w :: blocks ps

/-! ## 2. The conversion -/

section

variable (py : Interpreter) (cfg : ToonConfig)

/-- The loop of `_compact_json_to_toon` over the matches; `none` where an encoder raises. -/
def compactLoop : List (List Char) → List Char → Option (List Char)
  | [], result => some result
  | w :: ws, result => do
    match ← encodeBlock py cfg (String.ofList w) with
    | some toon =>
      if toon ≠ String.ofList w then compactLoop ws (replaceFirst w toon.toList result)
      else compactLoop ws result
    | none => compactLoop ws result

def compactJsonToToon (content : String) : Option String :=
  (compactLoop py cfg (blocks (pieces cfg.maxBlockChars content.toList)) content.toList).map
    String.ofList

/-! ## 3. What is asked, and when it holds -/

/-- What becomes of the pieces, each at its own place. -/
def edits : List Piece → Option (List (Segment Char))
  | [] => some []
  | .plain c :: ps => (edits ps).map (.keep [c] :: ·)
  | .block w :: ps => do
    let toon ← encodeBlock py cfg (String.ofList w)
    let segs ← edits ps
    some ((match toon with
      | some toon => .edit w toon.toList
      | none => .keep w) :: segs)

/-- The blocks replaced by their own encodings at their own places, and nothing else. -/
def InPlace (content : String) : Prop :=
  ∃ segs, edits py cfg (pieces cfg.maxBlockChars content.toList) = some segs ∧
    before segs = content.toList ∧
    compactJsonToToon py cfg content = some (String.ofList (after segs))

/-- No encoder raises, and each block that is encoded is found first at its own place. -/
def FoundInPlace (content : String) : Prop :=
  ∃ segs, edits py cfg (pieces cfg.maxBlockChars content.toList) = some segs ∧
    FirstEach [] segs

end

/-! ## 4. Pieces -/

def Piece.text : Piece → List Char
  | .plain c => [c]
  | .block w => w

/-- A block begins with a bracket. -/
def Piece.Opens : Piece → Prop
  | .plain _ => True
  | .block w => ∃ w', w = '[' :: w'

theorem blockLength_eq_some {n k : Nat} {c : Char} {cs : List Char}
    (h : blockLength n (c :: cs) = some k) : c = '[' ∧ ∃ m, k = m + 1 := by
  rw [blockLength] at h
  split at h
  · rename_i hopen
    split at h
    · split at h
      · obtain ⟨m, -, rfl⟩ := Option.map_eq_some_iff.mp h
        exact ⟨hopen, m + ((cs.takeWhile KeyStore.isSpace).length + 1), rfl⟩
      · cases h
    · cases h
  · cases h

/-- The pieces are the text, and their blocks begin with a bracket. -/
theorem piecesFrom_spec (n skip : Nat) (cs : List Char) :
    (piecesFrom n skip cs).flatMap Piece.text = cs.drop skip ∧
      ∀ p ∈ piecesFrom n skip cs, p.Opens := by
  induction cs generalizing skip with
  | nil =>
    rw [piecesFrom, List.drop_nil]
    exact ⟨rfl, fun p hp => absurd hp List.not_mem_nil⟩
  | cons c cs ih =>
    cases skip with
    | succ skip => exact ih skip
    | zero =>
      rw [piecesFrom]
      split
      · rename_i k hlength
        obtain ⟨rfl, m, rfl⟩ := blockLength_eq_some hlength
        obtain ⟨htext, hopens⟩ := ih m
        constructor
        · rw [List.flatMap_cons, Nat.add_sub_cancel, htext, Piece.text, List.take_succ_cons,
            List.cons_append, List.take_append_drop]
          rfl
        · intro p hp
          rcases List.mem_cons.mp hp with rfl | hlater
          · exact ⟨cs.take m, rfl⟩
          · exact hopens p hlater
      · obtain ⟨htext, hopens⟩ := ih 0
        constructor
        · rw [List.flatMap_cons, htext]
          rfl
        · intro p hp
          rcases List.mem_cons.mp hp with rfl | hlater
          · exact trivial
          · exact hopens p hlater

section

variable {py : Interpreter} {cfg : ToonConfig}

/-- An encoding begins with the word `schema`. -/
theorem encoding_marked {text toon : String} (h : encodeBlock py cfg text = some (some toon)) :
    ∃ w, toon.toList = 's' :: w := by
  obtain ⟨rows, htable⟩ : ∃ rows, encodeTable py cfg text rows = some (some toon) := by
    unfold encodeBlock at h
    split at h
    · split at h
      · cases h
      · split at h
        · exact ⟨_, h⟩
        · cases h
    · cases h
  obtain ⟨-, cells, -, -, -, htoon⟩ := encodeTable_eq_some htable
  exact ⟨_, (congrArg String.toList htoon).trans String.toList_ofList⟩

theorem before_edits {ps : List Piece} {segs : List (Segment Char)}
    (h : edits py cfg ps = some segs) : before segs = ps.flatMap Piece.text := by
  induction ps generalizing segs with
  | nil =>
    cases h
    rfl
  | cons p ps ih =>
    cases p with
    | plain c =>
      obtain ⟨rest, hrest, rfl⟩ := Option.map_eq_some_iff.mp h
      rw [before, ih hrest]
      rfl
    | block w =>
      obtain ⟨toon, -, h⟩ := Option.bind_eq_some_iff.mp h
      obtain ⟨rest, hrest, h⟩ := Option.bind_eq_some_iff.mp h
      cases h
      cases toon with
      | none =>
        rw [before, ih hrest]
        rfl
      | some toon =>
        rw [before, ih hrest]
        rfl

theorem marked_edits {ps : List Piece} (hopens : ∀ p ∈ ps, p.Opens) {segs : List (Segment Char)}
    (h : edits py cfg ps = some segs) : Marked '[' 's' segs := by
  induction ps generalizing segs with
  | nil =>
    cases h
    intro old new hmem
    cases hmem
  | cons p ps ih =>
    have hrest : ∀ p ∈ ps, p.Opens := fun p hp => hopens p (List.mem_cons_of_mem _ hp)
    cases p with
    | plain c =>
      obtain ⟨rest, hedits, rfl⟩ := Option.map_eq_some_iff.mp h
      intro old new hmem
      rcases List.mem_cons.mp hmem with hkeep | hlater
      · cases hkeep
      · exact ih hrest hedits old new hlater
    | block w =>
      obtain ⟨toon, htoon, h⟩ := Option.bind_eq_some_iff.mp h
      obtain ⟨rest, hedits, h⟩ := Option.bind_eq_some_iff.mp h
      cases h
      intro old new hmem
      rcases List.mem_cons.mp hmem with hfirst | hlater
      · cases toon with
        | none => cases hfirst
        | some toon =>
          cases hfirst
          exact ⟨hopens _ List.mem_cons_self, encoding_marked htoon⟩
      · exact ih hrest hedits old new hlater

/-- The loop replaces the encoded blocks one after another. -/
theorem compactLoop_eq {ps : List Piece} (hopens : ∀ p ∈ ps, p.Opens) (result : List Char) :
    compactLoop py cfg (blocks ps) result =
      (edits py cfg ps).map fun segs => run segs result := by
  induction ps generalizing result with
  | nil => rfl
  | cons p ps ih =>
    have hrest : ∀ p ∈ ps, p.Opens := fun p hp => hopens p (List.mem_cons_of_mem _ hp)
    cases p with
    | plain c =>
      rw [blocks, ih hrest, edits, Option.map_map]
      rfl
    | block w =>
      rw [blocks, compactLoop, edits]
      cases hencode : encodeBlock py cfg (String.ofList w) with
      | none => rfl
      | some toon =>
        cases toon with
        | none =>
          change compactLoop py cfg (blocks ps) result = _
          rw [ih hrest]
          cases edits py cfg ps with
          | none => rfl
          | some segs => rfl
        | some toon =>
          -- a block and its encoding begin differently
          have hne : toon ≠ String.ofList w := by
            rintro rfl
            obtain ⟨w', hw⟩ := hopens _ List.mem_cons_self
            obtain ⟨w'', hmarked⟩ := encoding_marked hencode
            rw [String.toList_ofList, hw] at hmarked
            exact absurd (List.cons.inj hmarked).1 (by decide)
          change (if toon ≠ String.ofList w then _ else _) = _
          rw [if_pos hne, ih hrest]
          cases edits py cfg ps with
          | none => rfl
          | some segs => rfl

end

/-! ## 5. The result -/

/-- **Only the blocks are touched**, each at its own place: exactly when no encoder raises and each
encoded block is found first at its own place, in the text with the earlier ones replaced. -/
theorem compact_inPlace_iff (py : Interpreter) (cfg : ToonConfig) (content : String) :
    InPlace py cfg content ↔ FoundInPlace py cfg content := by
  obtain ⟨htext, hopens⟩ := piecesFrom_spec cfg.maxBlockChars 0 content.toList
  have hcompact := @compactLoop_eq py cfg _ hopens content.toList
  have hstep : ∀ segs, edits py cfg (pieces cfg.maxBlockChars content.toList) = some segs →
      before segs = content.toList ∧
        (compactJsonToToon py cfg content = some (String.ofList (after segs)) ↔
          FirstEach [] segs) := by
    intro segs hsegs
    have hbefore : before segs = content.toList := (before_edits hsegs).trans htext
    refine ⟨hbefore, ?_⟩
    have hrun := TextReplace.run_eq_after_iff (by decide : '[' ≠ 's')
      (marked_edits hopens hsegs) []
    rw [List.nil_append, List.nil_append, hbefore] at hrun
    rw [← hrun, compactJsonToToon, pieces, hcompact, ← pieces, hsegs, Option.map_some,
      Option.map_some, Option.some_inj, String.ofList_inj]
  constructor
  · rintro ⟨segs, hsegs, -, hresult⟩
    exact ⟨segs, hsegs, (hstep segs hsegs).2.mp hresult⟩
  · rintro ⟨segs, hsegs, hfirst⟩
    exact ⟨segs, hsegs, (hstep segs hsegs).1, (hstep segs hsegs).2.mpr hfirst⟩

/-- A list that is no JSON, and holds the list that follows it. -/
def quotedList : String :=
  "[\x7bid\x7d: see [\x7b\"qty\":1\x7d,\x7b\"qty\":2\x7d], " ++
    "not [\x7b\"qty\":1\x7d,\x7b\"qty\":2\x7d]"

/-- The list is replaced where it was not to be, and left where it was. -/
theorem compact_not_inPlace :
    compactJsonToToon plainInterpreter {} quotedList =
        some ("[\x7bid\x7d: see schema:qty\n1\n2, not [\x7b\"qty\":1\x7d,\x7b\"qty\":2\x7d]") ∧
      ¬ InPlace plainInterpreter {} quotedList := by
  have hcompact : compactJsonToToon plainInterpreter {} quotedList =
      some ("[\x7bid\x7d: see schema:qty\n1\n2, not [\x7b\"qty\":1\x7d,\x7b\"qty\":2\x7d]") := by
    decide +kernel
  refine ⟨hcompact, ?_⟩
  rintro ⟨segs, hsegs, -, hresult⟩
  have hafter : (edits plainInterpreter {} (pieces 20000 quotedList.toList)).map
      (fun segs => String.ofList (after segs)) =
        some ("[\x7bid\x7d: see [\x7b\"qty\":1\x7d,\x7b\"qty\":2\x7d], not schema:qty\n1\n2") := by
    decide +kernel
  rw [hsegs, Option.map_some] at hafter
  rw [hcompact, ← Option.some.inj hafter.symm] at hresult
  revert hresult
  decide +kernel

end TokenProxy.Toon
