/-
  TokenProxy/TwoEnds.lean
  =======================
  **Filling a budget from both ends of a list.**

  The ends take turns.  An end whose next item does not fit passes, and the filling stops when
  both have passed one after the other.

  Main results: `fill_spec`, the two ends and what is left between them make up the list, within
  the budget; `both_ends`, `only_head`, `only_tail` and `no_end`, which ends take something.
-/
import Mathlib.Data.List.Basic
import Mathlib.Algebra.GroupWithZero.Nat
import Mathlib.Algebra.BigOperators.Group.List.Basic

namespace TokenProxy.TwoEnds

variable {α : Type*}

/-- What the ends have taken, what is left between them, and what the taken items cost. -/
structure Ends (α : Type*) where
  head : List α
  middle : List α
  tail : List α
  used : Nat

variable (cost : α → Nat) (budget : Nat)

def fill (preferHead : Bool) (stalled : Nat) (s : Ends α) : Ends α :=
  if h : s.middle ≠ [] ∧ stalled < 2 then
    if preferHead then
      let item := s.middle.head h.1
      if s.used + cost item ≤ budget then
        fill false 0 ⟨s.head ++ [item], s.middle.tail, s.tail, s.used + cost item⟩
      else fill false (stalled + 1) s
    else
      let item := s.middle.getLast h.1
      if s.used + cost item ≤ budget then
        fill true 0 ⟨s.head, s.middle.dropLast, item :: s.tail, s.used + cost item⟩
      else fill true (stalled + 1) s
  else s
termination_by 2 * s.middle.length + (2 - stalled)
decreasing_by
  all_goals have hpos := List.length_pos_iff.mpr h.1
  · rw [List.length_tail]
    omega
  · omega
  · rw [List.length_dropLast]
    omega
  · omega

/-- The head begins. -/
def fillEnds (items : List α) : Ends α := fill cost budget true 0 ⟨[], items, [], 0⟩

/-- What either end can take without breaking it holds at the end. -/
theorem fill_induction (P : Ends α → Prop)
    (hhead : ∀ (s : Ends α) (item : α) (rest : List α), s.middle = item :: rest →
      s.used + cost item ≤ budget → P s →
        P ⟨s.head ++ [item], rest, s.tail, s.used + cost item⟩)
    (htail : ∀ (s : Ends α) (item : α) (front : List α), s.middle = front ++ [item] →
      s.used + cost item ≤ budget → P s →
        P ⟨s.head, front, item :: s.tail, s.used + cost item⟩)
    (preferHead : Bool) (stalled : Nat) (s : Ends α) (h : P s) :
    P (fill cost budget preferHead stalled s) := by
  fun_induction fill with
  | case1 stalled s hgo item hfits ih =>
    exact ih (hhead s item s.middle.tail (List.cons_head_tail hgo.1).symm hfits h)
  | case2 stalled s hgo item hfull ih => exact ih h
  | case3 preferHead stalled s hgo hturn item hfits ih =>
    exact ih (htail s item s.middle.dropLast (List.dropLast_append_getLast hgo.1).symm hfits h)
  | case4 preferHead stalled s hgo hturn item hfull ih => exact ih h
  | case5 preferHead stalled s hstop => exact h

/-- The ends and the middle are a split of the items, and the ends fit the budget. -/
structure Filled (items : List α) (s : Ends α) : Prop where
  split : s.head ++ s.middle ++ s.tail = items
  used : s.used = (s.head.map cost).sum + (s.tail.map cost).sum
  fits : s.used ≤ budget

theorem fill_spec (items : List α) : Filled cost budget items (fillEnds cost budget items) := by
  refine fill_induction cost budget (Filled cost budget items) ?_ ?_ true 0 _
    ⟨?_, rfl, Nat.zero_le budget⟩
  · intro s item rest hmiddle hfits h
    have hsplit := h.split
    rw [hmiddle] at hsplit
    refine ⟨?_, ?_, hfits⟩
    · rw [← hsplit]
      simp
    · rw [h.used]
      simp only [List.map_append, List.map_cons, List.map_nil, List.sum_append, List.sum_cons,
        List.sum_nil]
      omega
  · intro s item front hmiddle hfits h
    have hsplit := h.split
    rw [hmiddle] at hsplit
    refine ⟨?_, ?_, hfits⟩
    · rw [← hsplit]
      simp
    · rw [h.used]
      simp only [List.map_cons, List.sum_cons]
      omega
  · rw [List.nil_append, List.append_nil]

/-! ## Which ends take something -/

theorem head_ne_nil (preferHead : Bool) (stalled : Nat) (s : Ends α) (h : s.head ≠ []) :
    (fill cost budget preferHead stalled s).head ≠ [] := by
  refine fill_induction cost budget (fun s => s.head ≠ []) ?_ ?_ preferHead stalled s h
  · intro s item rest _ _ _
    exact List.concat_ne_nil item s.head
  · intro s item front _ _ h
    exact h

theorem tail_ne_nil (preferHead : Bool) (stalled : Nat) (s : Ends α) (h : s.tail ≠ []) :
    (fill cost budget preferHead stalled s).tail ≠ [] := by
  refine fill_induction cost budget (fun s => s.tail ≠ []) ?_ ?_ preferHead stalled s h
  · intro s item rest _ _ h
    exact h
  · intro s item front _ _ _
    exact List.cons_ne_nil item s.tail

/-- A first item that does not fit never will. -/
theorem head_eq_nil {first : α} (preferHead : Bool) (stalled : Nat) (s : Ends α)
    (h : s.head = [] ∧ (∃ rest, s.middle = first :: rest) ∧ budget < s.used + cost first) :
    (fill cost budget preferHead stalled s).head = [] := by
  have hall := fill_induction cost budget
    (fun s => s.head = [] ∧ (∃ rest, s.middle = first :: rest) ∧ budget < s.used + cost first)
    ?_ ?_ preferHead stalled s h
  · exact hall.1
  · intro s item rest hmiddle hfits h
    obtain ⟨-, ⟨more, hfirst⟩, hfull⟩ := h
    rw [hmiddle, List.cons.injEq] at hfirst
    rw [hfirst.1] at hfits
    omega
  · intro s item front hmiddle hfits h
    obtain ⟨hhead, ⟨more, hfirst⟩, hfull⟩ := h
    cases front with
    | nil =>
      rw [hmiddle, List.nil_append, List.cons.injEq] at hfirst
      rw [hfirst.1] at hfits
      omega
    | cons item' front =>
      rw [hmiddle, List.cons_append, List.cons.injEq] at hfirst
      exact ⟨hhead, ⟨front, by rw [hfirst.1]⟩, Nat.lt_of_lt_of_le hfull (by dsimp only; omega)⟩

/-- A last item that does not fit never will. -/
theorem tail_eq_nil {last : α} (preferHead : Bool) (stalled : Nat) (s : Ends α)
    (h : s.tail = [] ∧ (∃ front, s.middle = front ++ [last]) ∧ budget < s.used + cost last) :
    (fill cost budget preferHead stalled s).tail = [] := by
  have hall := fill_induction cost budget
    (fun s => s.tail = [] ∧ (∃ front, s.middle = front ++ [last]) ∧ budget < s.used + cost last)
    ?_ ?_ preferHead stalled s h
  · exact hall.1
  · intro s item rest hmiddle hfits h
    obtain ⟨htail, ⟨more, hlast⟩, hfull⟩ := h
    cases more with
    | nil =>
      rw [hmiddle, List.nil_append, List.cons.injEq] at hlast
      rw [hlast.1] at hfits
      omega
    | cons item' more =>
      rw [hmiddle, List.cons_append, List.cons.injEq] at hlast
      exact ⟨htail, ⟨more, hlast.2⟩, Nat.lt_of_lt_of_le hfull (by dsimp only; omega)⟩
  · intro s item front hmiddle hfits h
    obtain ⟨-, ⟨more, hlast⟩, hfull⟩ := h
    rw [hmiddle] at hlast
    rw [List.singleton_inj.mp (List.append_inj' hlast rfl).2] at hfits
    omega

variable {cost budget} {first last : α} {between : List α}

theorem fillEnds_take (h : cost first ≤ budget) :
    fillEnds cost budget (first :: (between ++ [last])) =
      fill cost budget false 0 ⟨[first], between ++ [last], [], cost first⟩ := by
  rw [fillEnds, fill]
  simp [h]

theorem fillEnds_pass (h : budget < cost first) :
    fillEnds cost budget (first :: (between ++ [last])) =
      fill cost budget false 1 ⟨[], first :: (between ++ [last]), [], 0⟩ := by
  rw [fillEnds, fill]
  simp [Nat.not_le.mpr h]

theorem both_ends (h : cost first + cost last ≤ budget) :
    (fillEnds cost budget (first :: (between ++ [last]))).head ≠ [] ∧
      (fillEnds cost budget (first :: (between ++ [last]))).tail ≠ [] := by
  rw [fillEnds_take (Nat.le_trans (Nat.le_add_right _ _) h), fill]
  simp only [ne_eq, List.append_eq_nil_iff, List.cons_ne_nil, and_false, not_false_eq_true,
    Nat.zero_lt_succ, and_self, dite_true, Bool.false_eq_true, if_false,
    List.getLast_append_singleton, if_pos h]
  exact ⟨head_ne_nil cost budget true 0 _ (List.cons_ne_nil _ _),
    tail_ne_nil cost budget true 0 _ (List.cons_ne_nil _ _)⟩

theorem only_head (hfirst : cost first ≤ budget) (h : budget < cost first + cost last) :
    (fillEnds cost budget (first :: (between ++ [last]))).head ≠ [] ∧
      (fillEnds cost budget (first :: (between ++ [last]))).tail = [] := by
  rw [fillEnds_take hfirst]
  exact ⟨head_ne_nil cost budget false 0 _ (List.cons_ne_nil _ _),
    tail_eq_nil cost budget false 0 _ ⟨rfl, ⟨between, rfl⟩, h⟩⟩

theorem only_tail (hfirst : budget < cost first) (hlast : cost last ≤ budget) :
    (fillEnds cost budget (first :: (between ++ [last]))).head = [] ∧
      (fillEnds cost budget (first :: (between ++ [last]))).tail ≠ [] := by
  constructor
  · exact head_eq_nil cost budget true 0 _ ⟨rfl, ⟨_, rfl⟩, by dsimp only; omega⟩
  · have hlast' : 0 + cost last ≤ budget := by omega
    rw [fillEnds_pass hfirst, fill]
    simp only [ne_eq, Nat.lt_add_one, Bool.false_eq_true, if_false, ← List.cons_append,
      List.getLast_append_singleton, if_pos hlast']
    exact tail_ne_nil cost budget true 0 _ (List.cons_ne_nil _ _)

theorem no_end (hfirst : budget < cost first) (hlast : budget < cost last) :
    (fillEnds cost budget (first :: (between ++ [last]))).head = [] ∧
      (fillEnds cost budget (first :: (between ++ [last]))).tail = [] :=
  ⟨head_eq_nil cost budget true 0 _ ⟨rfl, ⟨_, rfl⟩, by dsimp only; omega⟩,
    tail_eq_nil cost budget true 0 _ ⟨rfl, ⟨first :: between, rfl⟩, by dsimp only; omega⟩⟩

end TokenProxy.TwoEnds
