/-
  TokenProxy/Pointwise.lean
  =========================
  **Two lists related entry by entry, and loops that collect and may raise.**

  A loop that collects the results of a call, and raises where a call does, is a `mapM` into
  `Option`; what it has collected is related to what it went through entry by entry
  (`forall₂_of_mapM`).
-/
import Mathlib.Data.List.Forall2

namespace TokenProxy.Pointwise

section

variable {α β : Type*} {R : α → β → Prop} {xs : List α} {ys : List β}

theorem exists_right_of_forall₂ (h : List.Forall₂ R xs ys) {x : α} (hx : x ∈ xs) :
    ∃ y ∈ ys, R x y := by
  induction h with
  | nil => cases hx
  | cons hhead _ ih =>
    rcases List.mem_cons.mp hx with rfl | htail
    · exact ⟨_, List.mem_cons_self, hhead⟩
    · obtain ⟨y, hy, hrel⟩ := ih htail
      exact ⟨y, List.mem_cons_of_mem _ hy, hrel⟩

theorem exists_left_of_forall₂ (h : List.Forall₂ R xs ys) {y : β} (hy : y ∈ ys) :
    ∃ x ∈ xs, R x y :=
  exists_right_of_forall₂ h.flip hy

theorem forall_of_forall₂ (h : List.Forall₂ R xs ys) {P : α → Prop} {Q : β → Prop}
    (hiff : ∀ x y, R x y → (Q y ↔ P x)) : (∀ y ∈ ys, Q y) ↔ ∀ x ∈ xs, P x := by
  induction h with
  | nil => simp
  | cons hxy _ ih => rw [List.forall_mem_cons, List.forall_mem_cons, ih, hiff _ _ hxy]

end

section

variable {α β : Type} {f : α → Option β} {xs : List α} {ys : List β}

/-- The last turn of a loop that may raise. -/
theorem exists_of_foldlM_concat {step : β → α → Option β} {start last : β} {x : α}
    (h : (xs ++ [x]).foldlM step start = some last) :
    ∃ before, xs.foldlM step start = some before ∧ step before x = some last := by
  rw [List.foldlM_append] at h
  obtain ⟨before, hbefore, h⟩ := Option.bind_eq_some_iff.mp h
  rw [List.foldlM_cons] at h
  obtain ⟨after, hafter, heq⟩ := Option.bind_eq_some_iff.mp h
  cases heq
  exact ⟨before, hbefore, hafter⟩

/-- What a loop that may raise has collected. -/
theorem forall₂_of_mapM (h : xs.mapM f = some ys) :
    List.Forall₂ (fun x y => f x = some y) xs ys := by
  induction xs generalizing ys with
  | nil =>
    cases h
    exact List.Forall₂.nil
  | cons x xs ih =>
    rw [List.mapM_cons] at h
    obtain ⟨y, hy, h⟩ := Option.bind_eq_some_iff.mp h
    obtain ⟨rest, hrest, heq⟩ := Option.bind_eq_some_iff.mp h
    cases heq
    exact List.Forall₂.cons hy (ih hrest)

theorem mapM_eq_filterMap (h : ∀ x ∈ xs, (f x).isSome) : xs.mapM f = some (xs.filterMap f) := by
  induction xs with
  | nil => rfl
  | cons x xs ih =>
    obtain ⟨y, hy⟩ := Option.isSome_iff_exists.mp (h x List.mem_cons_self)
    rw [List.mapM_cons, hy, ih fun x' hx' => h x' (List.mem_cons_of_mem x hx'),
      List.filterMap_cons_some hy]
    rfl

/-- A loop none of whose calls raises. -/
theorem mapM_eq_map {g : α → β} (h : ∀ x ∈ xs, f x = some (g x)) :
    xs.mapM f = some (xs.map g) := by
  induction xs with
  | nil => rfl
  | cons x xs ih =>
    rw [List.mapM_cons, h x List.mem_cons_self,
      ih fun x' hx' => h x' (List.mem_cons_of_mem x hx')]
    rfl

end

end TokenProxy.Pointwise
