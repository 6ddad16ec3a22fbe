/-
  TokenProxy/DocumentChunks.lean
  ==============================
  **Cutting an oversized chunk into pieces within the token budget.**

  Source: `doc-pipeline/pipeline.py` (`_token_counter`, `_cut_to_budget`,
  `split_oversized_chunks`).

  The longest prefix within the budget is found by bisection; the cut then moves back to a line
  break or a space, unless it would give up three quarters of that prefix.  The encoder is a
  parameter.  It may raise, on the text of a special token, and its counts need not grow with the
  text, so a piece that was cut in front of a break may count more than the prefix it is from.
-/
import TokenProxy.Bisection
import TokenProxy.KeyStore
import Mathlib.Data.List.Forall2
import Mathlib.Data.List.TakeWhile

namespace TokenProxy.DocumentChunks

open Bisection KeyStore

abbrev Text := List Char

/-! ## 1. The cuts -/

/-- `_token_counter`; there is no encoder when it cannot be loaded, and no count where the encoder
raises. -/
def tokenCounter (encode : Option (Text → Option (List ℕ))) (text : Text) : Option ℕ :=
  match encode with
  | some encode => (encode text).map List.length
  | none => some (text.length / 4)

/-- `text.rfind(boundary, 0, stop)`. -/
def rfind (boundary : Char) (text : Text) (stop : ℕ) : Option ℕ :=
  (List.range (min stop text.length)).reverse.find? fun i => text[i]? = some boundary

section Cut

variable (count : Text → Option ℕ) (maxTokens : ℤ)

/-- `count(text) <= max_tokens`. -/
def fits (text : Text) : Option Bool :=
  (count text).map fun n : ℕ => decide ((n : ℤ) ≤ maxTokens)

/-- The length of the longest prefix within the budget. -/
def longestPrefix (text : Text) : Option ℕ :=
  bisect (fun mid => fits count maxTokens (text.take mid)) 1 text.length

/-- Where to cut, at a boundary in the last three quarters or at the end. -/
def cutAt (text : Text) (lo : ℕ) : ℕ :=
  ((['\n', ' '].findSome? fun boundary =>
    (rfind boundary text (lo + 1)).filter fun i => lo / 4 < i)).getD lo

theorem rfind_lt {boundary : Char} {text : Text} {stop i : ℕ}
    (h : rfind boundary text stop = some i) : i < stop ∧ text[i]? = some boundary := by
  have hmem := List.mem_of_find?_eq_some h
  have hfound := List.find?_some h
  rw [List.mem_reverse, List.mem_range] at hmem
  exact ⟨(lt_min_iff.mp hmem).1, of_decide_eq_true hfound⟩

/-- The cut is at a boundary, or at the end of the prefix. -/
theorem cutAt_cases (text : Text) (lo : ℕ) :
    cutAt text lo = lo ∨ lo / 4 < cutAt text lo ∧ cutAt text lo ≤ lo ∧
      ∃ boundary ∈ ['\n', ' '], text[cutAt text lo]? = some boundary := by
  rw [cutAt]
  cases hfound : ['\n', ' '].findSome? fun boundary =>
      (rfind boundary text (lo + 1)).filter fun i => lo / 4 < i with
  | none => exact Or.inl rfl
  | some i =>
    right
    obtain ⟨boundary, hmem, hi⟩ := List.exists_of_findSome?_eq_some hfound
    obtain ⟨hi, hquarter⟩ := Option.filter_eq_some_iff.mp hi
    obtain ⟨hlt, hget⟩ := rfind_lt hi
    exact ⟨of_decide_eq_true hquarter, Nat.le_of_lt_succ hlt, boundary, hmem, hget⟩

theorem cutAt_le (text : Text) (lo : ℕ) : cutAt text lo ≤ lo := by
  rcases cutAt_cases text lo with h | ⟨-, h, -⟩
  · exact h.le
  · exact h

theorem quarter_lt_cutAt (text : Text) {lo : ℕ} (hlo : 1 ≤ lo) : lo / 4 < cutAt text lo := by
  rcases cutAt_cases text lo with h | ⟨h, -⟩
  · omega
  · exact h

def cut (text : Text) : Option ℕ := (longestPrefix count maxTokens text).map (cutAt text)

theorem cut_eq_some {text : Text} {i : ℕ} (h : cut count maxTokens text = some i) :
    ∃ lo, longestPrefix count maxTokens text = some lo ∧ 1 ≤ lo ∧ cutAt text lo = i := by
  obtain ⟨lo, hlo, rfl⟩ := Option.map_eq_some_iff.mp h
  exact ⟨lo, hlo, le_bisect hlo, rfl⟩

theorem one_le_cut {text : Text} {i : ℕ} (h : cut count maxTokens text = some i) : 1 ≤ i := by
  obtain ⟨lo, -, hone, rfl⟩ := cut_eq_some count maxTokens h
  have hquarter := quarter_lt_cutAt text hone
  omega

/-- `text[cut:].lstrip()`. -/
def behind (text : Text) (i : ℕ) : Text := (text.drop i).dropWhile isSpace

theorem length_behind_lt {text : Text} {i : ℕ} (h : text ≠ []) (hi : 1 ≤ i) :
    (behind text i).length < text.length := by
  have hdrop : (behind text i).length ≤ (text.drop i).length :=
    (List.dropWhile_suffix isSpace).length_le
  have hlength := List.length_pos_iff.mpr h
  rw [List.length_drop] at hdrop
  omega

/-- `_cut_to_budget`. -/
def cutToBudget (text : Text) : Option (List Text) :=
  if text = [] then some []
  else
    match fits count maxTokens text with
    | none => none
    | some true => some [text]
    | some false =>
      match _hcut : cut count maxTokens text with
      | none => none
      | some i => (cutToBudget (behind text i)).map (text.take i :: ·)
termination_by text.length
decreasing_by exact length_behind_lt ‹_› (one_le_cut count maxTokens ‹_›)

/-- The pieces of one chunk. -/
def piecesOf (chunk : Text) : Option (List Text) :=
  match fits count maxTokens chunk with
  | none => none
  | some true => some [chunk]
  | some false => cutToBudget count maxTokens chunk

end Cut

/-- `split_oversized_chunks`; `none` where the encoder raises. -/
def splitOversizedChunks (encode : Option (Text → Option (List ℕ))) (chunks : List Text)
    (maxTokens : ℤ) : Option (List Text) :=
  (chunks.mapM (piecesOf (tokenCounter encode) (max 1 maxTokens))).map List.flatten

/-! ## 2. What a cut is for -/

/-- The pieces are the chunk, in order, but for white space between them. -/
inductive Covers : Text → List Text → Prop
  | empty : Covers [] []
  | last (text : Text) : Covers text [text]
  | cut {piece gap rest : Text} {pieces : List Text} (hgap : ∀ c ∈ gap, isSpace c = true)
      (hrest : Covers rest pieces) : Covers (piece ++ (gap ++ rest)) (piece :: pieces)

/-- What is known of the count of a piece. -/
inductive Within (count : Text → Option ℕ) (maxTokens : ℤ) (chunk piece : Text) : Prop
  | fits (hfits : fits count maxTokens piece = some true)
  | single (hsingle : piece.length = 1)
  /-- it was cut in front of a line break or a space, out of a stretch that fits -/
  | boundary (c : Char) (back : Text) (hc : c ∈ ['\n', ' '])
      (hchunk : piece ++ c :: back <:+: chunk)
      (hfits : DocumentChunks.fits count maxTokens (piece ++ c :: back) = some true)

structure WellCut (count : Text → Option ℕ) (maxTokens : ℤ) (chunk : Text)
    (pieces : List Text) : Prop where
  covers : Covers chunk pieces
  within : ∀ piece ∈ pieces, Within count maxTokens chunk piece
  nonempty : chunk ≠ [] → ∀ piece ∈ pieces, piece ≠ []
  /-- where `n` characters always fit, no piece but the last has only a quarter of them -/
  long : ∀ n, (∀ text : Text, text.length ≤ n → fits count maxTokens text = some true) →
    ∀ piece ∈ pieces.dropLast, n / 4 < piece.length

/-! ## 3. Every cut is -/

section Budget

variable {count : Text → Option ℕ} {maxTokens : ℤ} {text : Text} {i : ℕ}

theorem covers_cut {pieces : List Text} (h : Covers (behind text i) pieces) :
    Covers text (text.take i :: pieces) := by
  have htext : text.take i ++ ((text.drop i).takeWhile isSpace ++ behind text i) = text := by
    rw [behind, List.takeWhile_append_dropWhile, List.take_append_drop]
  have hgap : ∀ c ∈ (text.drop i).takeWhile isSpace, isSpace c = true :=
    fun c hc => List.mem_takeWhile_imp hc
  have hcut := @Covers.cut (text.take i) _ _ _ hgap h
  rwa [htext] at hcut

theorem behind_suffix (text : Text) (i : ℕ) : behind text i <:+ text :=
  (List.dropWhile_suffix isSpace).trans (List.drop_suffix i text)

theorem exists_take_eq {j : ℕ} {c : Char} (hlt : i < j) (hget : text[i]? = some c) :
    ∃ back, text.take j = text.take i ++ c :: back := by
  obtain ⟨k, rfl⟩ := Nat.exists_eq_add_of_lt hlt
  obtain ⟨hbound, hchar⟩ := List.getElem?_eq_some_iff.mp hget
  refine ⟨(text.drop (i + 1)).take k, ?_⟩
  rw [Nat.add_assoc, List.take_add, List.drop_eq_getElem_cons hbound, List.take_succ_cons, hchar]

/-- The prefix that was found fits, or is one character. -/
theorem within_longestPrefix {lo : ℕ} (h : text ≠ [])
    (hlo : longestPrefix count maxTokens text = some lo) :
    fits count maxTokens (text.take lo) = some true ∨ lo = 1 ∧ (text.take lo).length = 1 := by
  rcases bisect_holds hlo with rfl | hfits
  · right
    refine ⟨rfl, ?_⟩
    rw [List.length_take]
    exact min_eq_left (List.length_pos_iff.mpr h)
  · exact Or.inl hfits

theorem within_cut (h : text ≠ []) (hcut : cut count maxTokens text = some i) :
    Within count maxTokens text (text.take i) := by
  obtain ⟨lo, hlo, hone, rfl⟩ := cut_eq_some count maxTokens hcut
  have hprefix := within_longestPrefix h hlo
  have hend : Within count maxTokens text (text.take lo) := by
    rcases hprefix with hfits | ⟨-, hsingle⟩
    · exact .fits hfits
    · exact .single hsingle
  rcases cutAt_cases text lo with hsame | ⟨hquarter, hle, c, hc, hget⟩
  · rwa [hsame]
  rcases Nat.lt_or_eq_of_le hle with hlt | hsame
  · obtain ⟨back, hback⟩ := exists_take_eq hlt hget
    rcases hprefix with hfits | ⟨rfl, -⟩
    · rw [hback] at hfits
      exact .boundary c back hc (hback ▸ (List.take_prefix lo text).isInfix) hfits
    · omega
  · rwa [hsame]

theorem length_cut_gt (hover : fits count maxTokens text = some false)
    (hcut : cut count maxTokens text = some i) {n : ℕ}
    (hn : ∀ text : Text, text.length ≤ n → fits count maxTokens text = some true) :
    n / 4 < (text.take i).length := by
  have hlength : n < text.length := by
    by_contra hle
    cases hover.symm.trans (hn text (Nat.le_of_not_lt hle))
  obtain ⟨lo, hlo, hone, rfl⟩ := cut_eq_some count maxTokens hcut
  have hprefix : n ≤ lo := by
    refine le_bisect_of_forall hlength.le ?_ hlo
    intro k hk
    exact hn _ (le_trans (List.length_take_le k text) hk)
  have hquarter := quarter_lt_cutAt text hone
  have hle := (cutAt_le text lo).trans (bisect_le (by omega) hlo)
  rw [List.length_take, min_eq_left hle]
  exact lt_of_le_of_lt (Nat.div_le_div_right hprefix) hquarter

theorem Within.mono {chunk piece : Text} (h : Within count maxTokens text piece)
    (htext : text <:+: chunk) : Within count maxTokens chunk piece := by
  cases h with
  | fits hfits => exact .fits hfits
  | single hsingle => exact .single hsingle
  | boundary c back hc hchunk hfits => exact .boundary c back hc (hchunk.trans htext) hfits

theorem wellCut_last (hfits : fits count maxTokens text = some true) :
    WellCut count maxTokens text [text] := by
  constructor
  · exact .last text
  · intro piece hpiece
    rw [List.mem_singleton.mp hpiece]
    exact .fits hfits
  · intro htext piece hpiece
    rwa [List.mem_singleton.mp hpiece]
  · intro n _ piece hpiece
    simp at hpiece

theorem WellCut.cut {pieces : List Text} (hrest : WellCut count maxTokens (behind text i) pieces)
    (h : text ≠ []) (hover : fits count maxTokens text = some false)
    (hcut : cut count maxTokens text = some i) (hempty : behind text i = [] → pieces = []) :
    WellCut count maxTokens text (text.take i :: pieces) := by
  constructor
  · exact covers_cut hrest.covers
  · intro piece hpiece
    rcases List.mem_cons.mp hpiece with rfl | hpiece
    · exact within_cut h hcut
    · exact (hrest.within piece hpiece).mono (behind_suffix text i).isInfix
  · intro _ piece hpiece
    rcases List.mem_cons.mp hpiece with rfl | hpiece
    · have hone := one_le_cut count maxTokens hcut
      apply List.length_pos_iff.mp
      rw [List.length_take]
      exact lt_min hone (List.length_pos_iff.mpr h)
    · apply hrest.nonempty ?_ piece hpiece
      intro hnone
      rw [hempty hnone] at hpiece
      simp at hpiece
  · intro n hn piece hpiece
    cases pieces with
    | nil => simp at hpiece
    | cons next rest =>
      rw [List.dropLast_cons_of_ne_nil (List.cons_ne_nil next rest)] at hpiece
      rcases List.mem_cons.mp hpiece with rfl | hpiece
      · exact length_cut_gt hover hcut hn
      · exact hrest.long n hn piece hpiece

theorem wellCut_cutToBudget {pieces : List Text}
    (h : cutToBudget count maxTokens text = some pieces) :
    WellCut count maxTokens text pieces := by
  fun_induction cutToBudget count maxTokens text generalizing pieces with
  | case1 =>
    obtain rfl := Option.some.inj h
    exact ⟨.empty, by simp, by simp, by simp⟩
  | case2 text hnonempty hraises => cases h
  | case3 text hnonempty hfits =>
    obtain rfl := Option.some.inj h
    exact wellCut_last hfits
  | case4 text hnonempty hover hraises => cases h
  | case5 text hnonempty hover i hcut ih =>
    obtain ⟨rest, hrest, rfl⟩ := Option.map_eq_some_iff.mp h
    refine (ih hrest).cut hnonempty hover hcut ?_
    intro hnone
    rw [hnone, cutToBudget, if_pos rfl] at hrest
    exact (Option.some.inj hrest).symm

theorem wellCut_piecesOf {chunk : Text} {pieces : List Text}
    (h : piecesOf count maxTokens chunk = some pieces) :
    WellCut count maxTokens chunk pieces := by
  rw [piecesOf] at h
  split at h
  · cases h
  · rename_i hfits
    obtain rfl := Option.some.inj h
    exact wellCut_last hfits
  · exact wellCut_cutToBudget h

/-! ### Where every stretch has a count -/

theorem exists_cutToBudget (h : ∀ stretch : Text, stretch <:+: text →
      (count stretch).isSome = true) :
    ∃ pieces, cutToBudget count maxTokens text = some pieces := by
  have hfits : ∀ {stretch : Text}, (count stretch).isSome = true →
      (fits count maxTokens stretch).isSome = true := by
    intro stretch hsome
    rw [fits, Option.isSome_map]
    exact hsome
  fun_induction cutToBudget count maxTokens text with
  | case1 => exact ⟨[], rfl⟩
  | case2 text hnonempty hraises =>
    have hsome := hfits (h text List.infix_rfl)
    rw [hraises] at hsome
    cases hsome
  | case3 text hnonempty _ => exact ⟨[text], rfl⟩
  | case4 text hnonempty hover hraises =>
    obtain ⟨lo, hlo⟩ := @exists_bisect (fun mid => fits count maxTokens (text.take mid)) 1
      text.length fun k _ _ => hfits (h _ (List.take_prefix k text).isInfix)
    rw [cut, longestPrefix, hlo] at hraises
    cases hraises
  | case5 text hnonempty hover i hcut ih =>
    obtain ⟨rest, hrest⟩ := ih fun stretch hstretch =>
      h stretch (hstretch.trans (behind_suffix text i).isInfix)
    exact ⟨text.take i :: rest, by rw [hrest]; rfl⟩

theorem exists_piecesOf {chunk : Text} (h : ∀ stretch : Text, stretch <:+: chunk →
      (count stretch).isSome = true) :
    ∃ pieces, piecesOf count maxTokens chunk = some pieces := by
  rw [piecesOf]
  split
  · rename_i hraises
    obtain ⟨n, hn⟩ := Option.isSome_iff_exists.mp (h chunk List.infix_rfl)
    rw [fits, hn] at hraises
    cases hraises
  · exact ⟨[chunk], rfl⟩
  · exact exists_cutToBudget h

end Budget

/-! ## 4. The chunks of a document -/

theorem fits_length {maxTokens : ℤ} {text : Text} :
    fits (tokenCounter none) maxTokens text = some true ↔
      ((text.length / 4 : ℕ) : ℤ) ≤ maxTokens := by
  simp [fits, tokenCounter]

/-- Four characters to a token: a piece counts no more than what it was cut from. -/
theorem Within.length_le {maxTokens : ℤ} (hmax : 1 ≤ maxTokens) {chunk piece : Text}
    (h : Within (tokenCounter none) maxTokens chunk piece) :
    ((piece.length / 4 : ℕ) : ℤ) ≤ maxTokens := by
  cases h with
  | fits hfits => exact fits_length.mp hfits
  | single hsingle =>
    rw [hsingle]
    omega
  | boundary c back hc hchunk hfits =>
    have hwhole := fits_length.mp hfits
    have hle : piece.length / 4 ≤ (piece ++ c :: back).length / 4 := by
      apply Nat.div_le_div_right
      rw [List.length_append]
      exact Nat.le_add_right _ _
    omega

theorem split_eq_some {encode : Option (Text → Option (List ℕ))} {chunks result : List Text}
    {maxTokens : ℤ} (h : splitOversizedChunks encode chunks maxTokens = some result) :
    ∃ pieces : List (List Text), result = pieces.flatten ∧
      List.Forall₂ (WellCut (tokenCounter encode) (max 1 maxTokens)) chunks pieces := by
  obtain ⟨pieces, hpieces, rfl⟩ := Option.map_eq_some_iff.mp h
  refine ⟨pieces, rfl, ?_⟩
  clear h
  induction chunks generalizing pieces with
  | nil =>
    obtain rfl := Option.some.inj hpieces
    exact .nil
  | cons chunk chunks ih =>
    rw [List.mapM_cons] at hpieces
    obtain ⟨first, hfirst, hpieces⟩ := Option.bind_eq_some_iff.mp hpieces
    obtain ⟨rest, hrest, hpieces⟩ := Option.bind_eq_some_iff.mp hpieces
    obtain rfl := Option.some.inj hpieces
    exact .cons (wellCut_piecesOf hfirst) (ih rest hrest)

theorem exists_split {encode : Option (Text → Option (List ℕ))} {chunks : List Text}
    (h : ∀ chunk ∈ chunks, ∀ stretch : Text, stretch <:+: chunk →
      (tokenCounter encode stretch).isSome = true) (maxTokens : ℤ) :
    ∃ result, splitOversizedChunks encode chunks maxTokens = some result := by
  have hpieces : ∃ pieces,
      chunks.mapM (piecesOf (tokenCounter encode) (max 1 maxTokens)) = some pieces := by
    induction chunks with
    | nil => exact ⟨[], rfl⟩
    | cons chunk chunks ih =>
      obtain ⟨first, hfirst⟩ := @exists_piecesOf (tokenCounter encode) (max 1 maxTokens) chunk
        (h chunk List.mem_cons_self)
      obtain ⟨rest, hrest⟩ := ih fun other hother => h other (List.mem_cons_of_mem chunk hother)
      exact ⟨first :: rest, by rw [List.mapM_cons, hfirst, hrest]; rfl⟩
  obtain ⟨pieces, hpieces⟩ := hpieces
  exact ⟨pieces.flatten, by rw [splitOversizedChunks, hpieces]; rfl⟩

/-- **Every chunk is cut to the budget**: where the encoder raises on no stretch of a chunk there is
    a result, and in a result the pieces of a chunk are the chunk, but for white space between
    them; each piece is within the budget, is one character, or was cut in front of a break out of
    a stretch that is within it; no piece of a chunk with text is empty, and where `n` characters
    always fit only the last may have a quarter of them or fewer.  Without an encoder each piece
    is within the budget. -/
theorem chunks_within_budget (encode : Option (Text → Option (List ℕ))) (chunks : List Text)
    (maxTokens : ℤ) :
    (∀ result, splitOversizedChunks encode chunks maxTokens = some result →
      (∃ pieces : List (List Text), result = pieces.flatten ∧
        List.Forall₂ (WellCut (tokenCounter encode) (max 1 maxTokens)) chunks pieces) ∧
      (encode = none → ∀ piece ∈ result, ((piece.length / 4 : ℕ) : ℤ) ≤ max 1 maxTokens)) ∧
    ((∀ chunk ∈ chunks, ∀ stretch : Text, stretch <:+: chunk →
        (tokenCounter encode stretch).isSome = true) →
      ∃ result, splitOversizedChunks encode chunks maxTokens = some result) := by
  refine ⟨fun result hresult => ?_, fun h => exists_split h maxTokens⟩
  obtain ⟨pieces, hflatten, hcut⟩ := split_eq_some hresult
  refine ⟨⟨pieces, hflatten, hcut⟩, ?_⟩
  rintro rfl piece hpiece
  obtain ⟨own, hown, hpiece⟩ := List.mem_flatten.mp (hflatten ▸ hpiece)
  obtain ⟨⟨k, hk⟩, rfl⟩ := List.get_of_mem hown
  obtain ⟨hlength, hwell⟩ := List.forall₂_iff_get.mp hcut
  exact ((hwell k (hlength ▸ hk) hk).within piece hpiece).length_le (le_max_left 1 maxTokens)

/-- The length-based count: the cut moves back from `one two thr` to the space. -/
theorem chunks_within_budget_length :
    splitOversizedChunks none ["one two three four".toList, "five".toList] 2 =
      some ["one two".toList, "three four".toList, "five".toList] ∧
    ∃ pieces : List (List Text),
      ["one two".toList, "three four".toList, "five".toList] = pieces.flatten ∧
      List.Forall₂ (WellCut (tokenCounter none) (max 1 2))
        ["one two three four".toList, "five".toList] pieces := by
  have hsplit : splitOversizedChunks none ["one two three four".toList, "five".toList] 2 =
      some ["one two".toList, "three four".toList, "five".toList] := by decide +kernel
  exact ⟨hsplit, ((chunks_within_budget none _ 2).1 _ hsplit).1⟩

end TokenProxy.DocumentChunks
