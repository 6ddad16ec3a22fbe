/-
  TokenProxy/JoinedLists.lean
  ===========================
  **Lists joined with a separator, and what can be read back.**

  Nothing is escaped, so a list that is joined comes back cut at every separator it had
  itself.  Joined lists are the same exactly when these pieces are; lists without the separator
  are their own pieces.
-/
import Mathlib.Data.List.Basic

namespace TokenProxy.Joined

variable {α : Type*} [BEq α] [LawfulBEq α]

theorem notMem_of_mem_splitOn {sep : α} {l piece : List α} (h : piece ∈ l.splitOn sep) :
    sep ∉ piece := by
  induction l generalizing piece with
  | nil =>
    rw [List.splitOn_nil, List.mem_singleton] at h
    rw [h]
    exact List.not_mem_nil
  | cons x l ih =>
    rw [List.splitOn_cons_eq_if_modifyHead] at h
    split at h
    · rcases List.mem_cons.mp h with rfl | h
      · exact List.not_mem_nil
      · exact ih h
    · next hne =>
      obtain ⟨first, rest, hsplit⟩ := List.exists_cons_of_ne_nil (List.splitOn_ne_nil sep l)
      rw [hsplit] at h ih
      rcases List.mem_cons.mp h with rfl | h
      · have hfirst := ih List.mem_cons_self
        simp only [beq_iff_eq] at hne
        rw [List.mem_cons, not_or]
        exact ⟨Ne.symm hne, hfirst⟩
      · exact ih (List.mem_cons_of_mem first h)

/-- Lists without the separator are read back. -/
theorem intercalate_injective {sep : α} {ls ms : List (List α)} (hl : ls ≠ []) (hm : ms ≠ [])
    (hls : ∀ l ∈ ls, sep ∉ l) (hms : ∀ m ∈ ms, sep ∉ m)
    (h : [sep].intercalate ls = [sep].intercalate ms) : ls = ms := by
  rw [← List.splitOn_intercalate sep hls hl, h, List.splitOn_intercalate sep hms hm]

omit [BEq α] [LawfulBEq α] in
theorem infix_intercalate {sep l : List α} {ls : List (List α)} (h : l ∈ ls) :
    l <:+: sep.intercalate ls := by
  induction ls with
  | nil => cases h
  | cons first rest ih =>
    cases rest with
    | nil =>
      refine ⟨[], [], ?_⟩
      rw [List.mem_singleton.mp h, List.intercalate_singleton, List.nil_append, List.append_nil]
    | cons second rest =>
      rw [List.intercalate_cons_cons]
      rcases List.mem_cons.mp h with rfl | hrest
      · exact ⟨[], sep ++ sep.intercalate (second :: rest), by simp⟩
      · exact (ih hrest).trans (List.suffix_append _ _).isInfix

omit [BEq α] [LawfulBEq α] in
theorem mem_of_mem_intercalate {sep x : α} {ls : List (List α)}
    (h : x ∈ [sep].intercalate ls) : x = sep ∨ ∃ l ∈ ls, x ∈ l := by
  induction ls with
  | nil => cases h
  | cons l rest ih =>
    by_cases hrest : rest = []
    · subst hrest
      rw [List.intercalate_singleton] at h
      exact Or.inr ⟨l, List.mem_cons_self, h⟩
    · rw [List.intercalate_cons_of_ne_nil hrest, List.mem_append, List.mem_append,
        List.mem_singleton] at h
      rcases h with (hfirst | hsep) | hlater
      · exact Or.inr ⟨l, List.mem_cons_self, hfirst⟩
      · exact Or.inl hsep
      · rcases ih hlater with hsep | ⟨l', hl', hx⟩
        · exact Or.inl hsep
        · exact Or.inr ⟨l', List.mem_cons_of_mem l hl', hx⟩

omit [BEq α] [LawfulBEq α] in
/-- What is joined to nothing is nothing, or one empty list. -/
theorem eq_of_intercalate_eq_nil {sep : α} {ls : List (List α)}
    (h : [sep].intercalate ls = []) : ls = [] ∨ ls = [[]] := by
  cases ls with
  | nil => exact Or.inl rfl
  | cons l rest =>
    by_cases hrest : rest = []
    · subst hrest
      rw [List.intercalate_singleton] at h
      exact Or.inr (by rw [h])
    · rw [List.intercalate_cons_of_ne_nil hrest] at h
      exact absurd h (by simp)

end TokenProxy.Joined
