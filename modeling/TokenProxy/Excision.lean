/-
  TokenProxy/Excision.lean
  ========================
  **Cutting spans out of a list, and putting them back.**

  Spans that overlap are joined, and what is cut is cut from the back, so that the places in
  front stay where they were.

  Main results: `join_disjoint`, joined spans do not overlap; `Rebuilds.length`, no symbol is
  lost where a list is put together again; `CutDownTo.remove` and `CutDownTo.rebuilds`, a cut
  from the back can be undone.
-/
import Mathlib.Data.List.Basic

namespace TokenProxy.Excision

variable {α : Type*}

/-! ## 1. Spans -/

/-- From a place up to another. -/
abbrev Span := Nat × Nat

def width (span : Span) : Nat := span.2 - span.1

/-- `text[start:stop]` -/
def slice (text : List α) (span : Span) : List α := (text.take span.2).drop span.1

theorem length_slice {text : List α} {span : Span} (h : span.2 ≤ text.length) :
    (slice text span).length = width span := by
  rw [slice, List.length_drop, List.length_take_of_le h, width]

/-- `text[:start] + text[stop:]` -/
def remove (text : List α) (span : Span) : List α := text.take span.1 ++ text.drop span.2

/-- The spans that begin in the last one are joined to it. -/
def joinFrom (last : Span) : List Span → List Span
  | [] => [last]
  | span :: rest =>
    if span.1 < last.2 then joinFrom (last.1, max last.2 span.2) rest
    else last :: joinFrom span rest

def join : List Span → List Span
  | [] => []
  | span :: rest => joinFrom span rest

theorem start_le_of_mem_joinFrom {last : Span} {spans : List Span}
    (h : (last :: spans).Pairwise fun a b => a.1 ≤ b.1) {x : Span} (hx : x ∈ joinFrom last spans) :
    last.1 ≤ x.1 := by
  induction spans generalizing last with
  | nil =>
    rw [joinFrom] at hx
    obtain rfl := List.mem_singleton.mp hx
    exact Nat.le_refl x.1
  | cons span rest ih =>
    obtain ⟨hlast, hrest⟩ := List.pairwise_cons.mp h
    rw [joinFrom] at hx
    split at hx
    · refine @ih (last.1, max last.2 span.2)
        (List.pairwise_cons.mpr ⟨fun b hb => ?_, (List.pairwise_cons.mp hrest).2⟩) hx
      exact hlast b (List.mem_cons_of_mem span hb)
    · rcases List.mem_cons.mp hx with rfl | hx
      · exact Nat.le_refl x.1
      · exact Nat.le_trans (hlast span List.mem_cons_self) (ih hrest hx)

theorem joinFrom_disjoint {last : Span} {spans : List Span}
    (h : (last :: spans).Pairwise fun a b => a.1 ≤ b.1) :
    (joinFrom last spans).Pairwise fun a b => a.2 ≤ b.1 := by
  induction spans generalizing last with
  | nil => exact List.pairwise_singleton _ _
  | cons span rest ih =>
    obtain ⟨hlast, hrest⟩ := List.pairwise_cons.mp h
    rw [joinFrom]
    split
    · refine ih (List.pairwise_cons.mpr ⟨fun b hb => ?_, (List.pairwise_cons.mp hrest).2⟩)
      exact hlast b (List.mem_cons_of_mem span hb)
    · next happart =>
      refine List.pairwise_cons.mpr ⟨fun x hx => ?_, ih hrest⟩
      exact Nat.le_trans (Nat.not_lt.mp happart) (start_le_of_mem_joinFrom hrest hx)

theorem join_disjoint {spans : List Span} (h : spans.Pairwise fun a b => a.1 ≤ b.1) :
    (join spans).Pairwise fun a b => a.2 ≤ b.1 := by
  cases spans with
  | nil => exact List.Pairwise.nil
  | cons span rest => exact joinFrom_disjoint h

theorem joinFrom_within {n : Nat} {last : Span} {spans : List Span}
    (h : ∀ x ∈ last :: spans, x.1 ≤ x.2 ∧ x.2 ≤ n) :
    ∀ x ∈ joinFrom last spans, x.1 ≤ x.2 ∧ x.2 ≤ n := by
  induction spans generalizing last with
  | nil => exact h
  | cons span rest ih =>
    have hlast := h last List.mem_cons_self
    have hspan := h span (List.mem_cons_of_mem last List.mem_cons_self)
    rw [joinFrom]
    split
    · refine ih fun x hx => ?_
      rcases List.mem_cons.mp hx with rfl | hx
      · exact ⟨Nat.le_trans hlast.1 (Nat.le_max_left _ _), Nat.max_le.mpr ⟨hlast.2, hspan.2⟩⟩
      · exact h x (List.mem_cons_of_mem last (List.mem_cons_of_mem span hx))
    · intro x hx
      rcases List.mem_cons.mp hx with rfl | hx
      · exact hlast
      · exact ih (fun y hy => h y (List.mem_cons_of_mem last hy)) x hx

theorem join_within {n : Nat} {spans : List Span} (h : ∀ x ∈ spans, x.1 ≤ x.2 ∧ x.2 ≤ n) :
    ∀ x ∈ join spans, x.1 ≤ x.2 ∧ x.2 ≤ n := by
  cases spans with
  | nil => exact h
  | cons span rest => exact joinFrom_within h

/-! ## 2. Putting back -/

/-- The fragments can be put into a list, in their order, so that it becomes this text. -/
inductive Rebuilds : List (List α) → List α → List α → Prop
  | done (text : List α) : Rebuilds [] text text
  | insert (front fragment : List α) {fragments : List (List α)} {rest text : List α} :
      Rebuilds fragments rest text →
        Rebuilds (fragment :: fragments) (front ++ rest) (front ++ (fragment ++ text))

variable {fragments : List (List α)} {left text : List α}

theorem Rebuilds.append_left (front : List α) (h : Rebuilds fragments left text) :
    Rebuilds fragments (front ++ left) (front ++ text) := by
  cases h with
  | done => exact .done _
  | insert before fragment h =>
    rw [← List.append_assoc, ← List.append_assoc]
    exact .insert (front ++ before) fragment h

theorem Rebuilds.length (h : Rebuilds fragments left text) :
    text.length = left.length + fragments.flatten.length := by
  induction h with
  | done => rfl
  | insert front fragment _ ih =>
    simp only [List.length_append, List.flatten_cons, ih]
    omega

/-- Behind the place `p`, the fragments have been cut out of the text. -/
def CutDownTo (text : List α) (p : Nat) (left : List α) (fragments : List (List α)) : Prop :=
  ∃ rest, left = text.take p ++ rest ∧ Rebuilds fragments rest (text.drop p)

namespace CutDownTo

variable {p : Nat}

theorem start (text : List α) : CutDownTo text text.length text [] :=
  ⟨[], by rw [List.take_length, List.append_nil], by rw [List.drop_length]; exact .done []⟩

theorem lower (h : CutDownTo text p left fragments) {q : Nat} (hq : q ≤ p) :
    CutDownTo text q left fragments := by
  obtain ⟨rest, rfl, hrest⟩ := h
  refine ⟨(text.take p).drop q ++ rest, ?_, ?_⟩
  · have hsplit := List.take_append_drop q (text.take p)
    rw [List.take_take, Nat.min_eq_left hq] at hsplit
    rw [← List.append_assoc, hsplit]
  · have hsplit := List.take_append_drop (p - q) (text.drop q)
    rw [List.drop_drop, Nat.add_sub_cancel' hq, ← List.drop_take] at hsplit
    rw [← hsplit]
    exact hrest.append_left _

theorem remove (h : CutDownTo text p left fragments) {span : Span} (hle : span.1 ≤ span.2)
    (hp : span.2 ≤ p) (hlen : p ≤ text.length) :
    CutDownTo text span.1 (Excision.remove left span) (slice text span :: fragments) := by
  obtain ⟨rest, rfl, hrest⟩ := h.lower hp
  have htake : (text.take span.2).length = span.2 := List.length_take_of_le (Nat.le_trans hp hlen)
  refine ⟨rest, ?_, ?_⟩
  · rw [Excision.remove, List.take_append_of_le_length (by rw [htake]; exact hle), List.take_take,
      Nat.min_eq_left hle, List.drop_left' htake]
  · have hsplit := List.take_append_drop (span.2 - span.1) (text.drop span.1)
    rw [List.drop_drop, Nat.add_sub_cancel' hle, ← List.drop_take] at hsplit
    rw [← hsplit]
    exact .insert [] (slice text span) hrest

theorem rebuilds (h : CutDownTo text p left fragments) : Rebuilds fragments left text := by
  obtain ⟨rest, rfl, hrest⟩ := h
  have hwhole := hrest.append_left (text.take p)
  rwa [List.take_append_drop] at hwhole

end CutDownTo

end TokenProxy.Excision
