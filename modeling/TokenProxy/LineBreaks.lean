/-
  TokenProxy/LineBreaks.lean
  ==========================
  **The lines of a text as `str.splitlines` cuts them.**

  Ten characters end a line, and a carriage return with a line feed behind it ends one line, not
  two.  `written` are the lines that are not blank.

  Main results: `written_append`, a text is cut at a line break into two; `written_intercalate`,
  joined texts have the lines of each; `written_framed` and `written_cut`, a text with blanks
  around it and a break inside, or none.
-/
import Mathlib.Data.List.Basic

namespace TokenProxy.LineBreaks

/-! ## 1. Lines -/

def isLineBreak (c : Char) : Bool :=
  c = '\n' || c = '\r' || c = '\x0b' || c = '\x0c' || c = '\x1c' || c = '\x1d' || c = '\x1e' ||
    c = '\x85' || c = '\u2028' || c = '\u2029'

/-- The rest of the lines, after this much of one. -/
def splitlinesFrom (line : List Char) : List Char → List (List Char)
  | [] => if line = [] then [] else [line]
  | '\r' :: '\n' :: rest => line :: splitlinesFrom [] rest
  | c :: rest =>
    if isLineBreak c then line :: splitlinesFrom [] rest else splitlinesFrom (line ++ [c]) rest

/-- `text.splitlines()` -/
def splitlines (text : List Char) : List (List Char) := splitlinesFrom [] text

variable (blank : Char → Bool)

def isWritten (line : List Char) : Bool := !line.all blank

/-- The lines that are not blank. -/
def written (text : List Char) : List (List Char) := (splitlines text).filter (isWritten blank)

variable {blank}

/-! ## 2. Cuts -/

theorem isWritten_nil : isWritten blank [] = false := rfl

theorem isWritten_eq_false {line : List Char} (h : ∀ c ∈ line, blank c = true) :
    isWritten blank line = false := by
  rw [isWritten, List.all_eq_true.mpr h]
  rfl

theorem isWritten_of_mem {line : List Char} {c : Char} (hc : c ∈ line) (h : blank c = false) :
    isWritten blank line = true := by
  rw [isWritten, Bool.not_eq_true', List.all_eq_false]
  exact ⟨c, hc, by rw [h]; exact Bool.false_ne_true⟩

theorem filter_splitlinesFrom (line text : List Char) :
    (splitlinesFrom line text).filter (isWritten blank) =
      (List.splitOnPPrepend isLineBreak text line.reverse).filter (isWritten blank) := by
  fun_induction splitlinesFrom line text with
  | case1 => simp [isWritten_nil]
  | case2 line hline => simp
  | case3 line rest ih =>
    rw [List.splitOnPPrepend_cons_pos (by decide), List.splitOnP_cons_eq_if_splitOnPPrepend,
      if_pos (by decide), List.filter_cons, List.filter_cons, List.filter_cons, ih,
      isWritten_nil, List.reverse_reverse, if_neg Bool.false_ne_true]
    rfl
  | case4 line c rest hcr hbreak ih =>
    rw [List.splitOnPPrepend_cons_pos hbreak, List.filter_cons, List.filter_cons, ih,
      List.reverse_reverse]
    rfl
  | case5 line c rest hcr hbreak ih =>
    rw [List.splitOnPPrepend_cons_neg (by simpa using hbreak), ih, List.reverse_append]
    rfl

theorem written_eq (text : List Char) :
    written blank text = (text.splitOnP isLineBreak).filter (isWritten blank) :=
  filter_splitlinesFrom [] text

theorem written_append (before rest : List Char) {c : Char} (hc : isLineBreak c = true) :
    written blank (before ++ c :: rest) = written blank before ++ written blank rest := by
  rw [written_eq, written_eq, written_eq, List.splitOnP_append_cons _ _ hc, List.filter_append]

theorem written_intercalate (texts : List (List Char)) :
    written blank (['\n'].intercalate texts) = texts.flatMap (written blank) := by
  induction texts with
  | nil => rfl
  | cons text rest ih =>
    by_cases hrest : rest = []
    · rw [hrest, List.intercalate_singleton, List.flatMap_singleton]
    · rw [List.intercalate_cons_of_ne_nil hrest, List.append_assoc, List.singleton_append,
        written_append _ _ (by decide), ih, List.flatMap_cons]

/-! ## 3. Blanks around a text -/

theorem mem_of_mem_splitOnP {p : Char → Bool} {text piece : List Char}
    (h : piece ∈ text.splitOnP p) {c : Char} (hc : c ∈ piece) : c ∈ text := by
  induction text generalizing piece c with
  | nil =>
    rw [List.splitOnP_nil, List.mem_singleton] at h
    rw [h] at hc
    exact hc
  | cons d text ih =>
    rw [List.splitOnP_cons_eq_if_modifyHead] at h
    split at h
    · rcases List.mem_cons.mp h with rfl | h
      · cases hc
      · exact List.mem_cons_of_mem d (ih h hc)
    · obtain ⟨first, rest, hsplit⟩ := List.exists_cons_of_ne_nil (List.splitOnP_ne_nil p text)
      rw [hsplit] at h ih
      rcases List.mem_cons.mp h with rfl | h
      · rcases List.mem_cons.mp hc with rfl | hc
        · exact List.mem_cons_self
        · exact List.mem_cons_of_mem d (ih List.mem_cons_self hc)
      · exact List.mem_cons_of_mem d (ih (List.mem_cons_of_mem first h) hc)

/-- What is left of a line after blanks, some of which may end it. -/
theorem filter_blank_append {lead : List Char} (hlead : ∀ c ∈ lead, blank c = true)
    (acc text : List Char) (hacc : ∀ c ∈ acc, blank c = true) :
    ∃ kept : List Char, (∀ c ∈ kept, c ∈ lead ∨ c ∈ acc) ∧
      (List.splitOnPPrepend isLineBreak (lead ++ text) acc).filter (isWritten blank) =
        (List.splitOnPPrepend isLineBreak text kept).filter (isWritten blank) := by
  induction lead generalizing acc with
  | nil => exact ⟨acc, fun c hc => Or.inr hc, rfl⟩
  | cons c lead ih =>
    have hrest := fun d hd => hlead d (List.mem_cons_of_mem c hd)
    rw [List.cons_append]
    by_cases hc : isLineBreak c = true
    · obtain ⟨kept, hkept, heq⟩ := ih hrest [] (by simp)
      refine ⟨kept, fun d hd => Or.inl (List.mem_cons_of_mem c ?_), ?_⟩
      · exact (hkept d hd).resolve_right List.not_mem_nil
      · rw [List.splitOnPPrepend_cons_pos hc, List.filter_cons_of_neg, ← heq]
        · rfl
        · rw [isWritten_eq_false fun d hd => hacc d (List.mem_reverse.mp hd)]
          exact Bool.false_ne_true
    · obtain ⟨kept, hkept, heq⟩ := ih hrest (c :: acc) (by
        intro d hd
        rcases List.mem_cons.mp hd with rfl | hd
        · exact hlead d List.mem_cons_self
        · exact hacc d hd)
      refine ⟨kept, fun d hd => ?_, ?_⟩
      · rcases hkept d hd with hmem | hmem
        · exact Or.inl (List.mem_cons_of_mem c hmem)
        · rcases List.mem_cons.mp hmem with rfl | hmem
          · exact Or.inl List.mem_cons_self
          · exact Or.inr hmem
      · rw [List.splitOnPPrepend_cons_neg (by simpa using hc), heq]

theorem splitOnPPrepend_append {core : List Char} (h : ∀ c ∈ core, isLineBreak c = false)
    (acc text : List Char) :
    List.splitOnPPrepend isLineBreak (core ++ text) acc =
      List.splitOnPPrepend isLineBreak text (core.reverse ++ acc) := by
  induction core generalizing acc with
  | nil => rfl
  | cons c core ih =>
    rw [List.cons_append, List.splitOnPPrepend_cons_neg (h c List.mem_cons_self),
      ih fun d hd => h d (List.mem_cons_of_mem c hd), List.reverse_cons, List.append_assoc]
    rfl

theorem written_blank {text : List Char} (h : ∀ c ∈ text, blank c = true) :
    written blank text = [] := by
  rw [written_eq, List.filter_eq_nil_iff]
  intro piece hpiece
  rw [isWritten_eq_false fun c hc => h c (mem_of_mem_splitOnP hpiece hc)]
  exact Bool.false_ne_true

/-- The line that blanks come after, with those of them that do not end it. -/
theorem filter_blank {trail : List Char} (htrail : ∀ c ∈ trail, blank c = true) {acc : List Char}
    (hacc : isWritten blank acc.reverse = true) :
    ∃ kept : List Char, (∀ c ∈ kept, c ∈ trail) ∧
      (List.splitOnPPrepend isLineBreak trail acc).filter (isWritten blank) =
        [acc.reverse ++ kept] := by
  induction trail generalizing acc with
  | nil =>
    refine ⟨[], fun c hc => hc, ?_⟩
    rw [List.splitOnPPrepend_nil, List.filter_cons_of_pos hacc, List.filter_nil, List.append_nil]
  | cons c trail ih =>
    have hrest := fun d hd => htrail d (List.mem_cons_of_mem c hd)
    by_cases hc : isLineBreak c = true
    · refine ⟨[], fun d hd => absurd hd List.not_mem_nil, ?_⟩
      have hnone : (trail.splitOnP isLineBreak).filter (isWritten blank) = [] := by
        rw [← written_eq]
        exact written_blank hrest
      rw [List.splitOnPPrepend_cons_pos hc, List.filter_cons_of_pos hacc, hnone, List.append_nil]
    · obtain ⟨kept, hkept, heq⟩ := ih hrest (show isWritten blank (c :: acc).reverse = true by
        rw [List.reverse_cons, isWritten, List.all_append, Bool.not_and, Bool.or_eq_true]
        exact Or.inl hacc)
      refine ⟨c :: kept, fun d hd => ?_, ?_⟩
      · rcases List.mem_cons.mp hd with rfl | hd
        · exact List.mem_cons_self
        · exact List.mem_cons_of_mem c (hkept d hd)
      · rw [List.splitOnPPrepend_cons_neg (by simpa using hc), heq, List.reverse_cons,
          List.append_assoc]
        rfl

/-- A text without a break inside is one line, with some of the blanks around it. -/
theorem written_framed {lead core trail : List Char} (hlead : ∀ c ∈ lead, blank c = true)
    (htrail : ∀ c ∈ trail, blank c = true) (hcore : ∀ c ∈ core, isLineBreak c = false)
    (hwritten : isWritten blank core = true) :
    ∃ before after : List Char, (∀ c ∈ before, c ∈ lead) ∧ (∀ c ∈ after, c ∈ trail) ∧
      written blank (lead ++ core ++ trail) = [before ++ core ++ after] := by
  obtain ⟨kept, hkept, heq⟩ := filter_blank_append hlead [] (core ++ trail) (by simp)
  have hline : isWritten blank (core.reverse ++ kept).reverse = true := by
    rw [List.reverse_append, List.reverse_reverse, isWritten, List.all_append, Bool.not_and,
      Bool.or_eq_true]
    exact Or.inr hwritten
  obtain ⟨after, hafter, hend⟩ := filter_blank htrail hline
  refine ⟨kept.reverse, after, fun c hc => ?_, hafter, ?_⟩
  · exact (hkept c (List.mem_reverse.mp hc)).resolve_right List.not_mem_nil
  · rw [List.reverse_append, List.reverse_reverse] at hend
    rw [written_eq, List.append_assoc, List.splitOnP_eq_splitOnPPrepend, heq,
      splitOnPPrepend_append hcore, hend]

/-- A text with a break inside is cut there. -/
theorem written_cut {lead part rest : List Char} {c : Char} (hlead : ∀ d ∈ lead, blank d = true)
    (hpart : ∀ d ∈ part, isLineBreak d = false) (hc : isLineBreak c = true)
    (hwritten : isWritten blank part = true) :
    ∃ before : List Char, (∀ d ∈ before, d ∈ lead) ∧
      written blank (lead ++ part ++ c :: rest) = (before ++ part) :: written blank rest := by
  obtain ⟨kept, hkept, heq⟩ := filter_blank_append hlead [] (part ++ c :: rest) (by simp)
  refine ⟨kept.reverse, fun d hd => ?_, ?_⟩
  · exact (hkept d (List.mem_reverse.mp hd)).resolve_right List.not_mem_nil
  · have hline : isWritten blank (kept.reverse ++ part) = true := by
      rw [isWritten, List.all_append, Bool.not_and, Bool.or_eq_true]
      exact Or.inr hwritten
    rw [written_eq, List.append_assoc, List.splitOnP_eq_splitOnPPrepend, heq,
      splitOnPPrepend_append hpart, List.splitOnPPrepend_cons_pos hc, List.reverse_append,
      List.reverse_reverse, List.filter_cons_of_pos hline, written_eq]

end TokenProxy.LineBreaks
