/-
  TokenProxy/ReplaceFirst.lean
  ============================
  **Replacing the first occurrence of a word, one word after another.**

  A text is cut into parts that stay and parts that are to be replaced, each at its own place.
  Doing this with `replaceFirst` on the whole text finds each part by its text: it may be found
  earlier, in what stays or in what an earlier replacement has put there.

  Main result: `run_eq_after_iff`, the outcome is that of replacing in place exactly when each
  part is found first at its own place, provided what is replaced and what replaces it begin
  with two different symbols.
-/
import Mathlib.Data.List.Infix

namespace TokenProxy.TextReplace

variable {α : Type*} [DecidableEq α]

/-! ## 1. One word -/

/-- Replace the leftmost occurrence of a non-empty word. -/
def replaceFirst (old new : List α) : List α → List α
  | [] => []
  | c :: cs =>
    if old <+: c :: cs then new ++ (c :: cs).drop old.length else c :: replaceFirst old new cs

/-- No occurrence of the word begins within `done`, in this text before its place. -/
def FirstAt (old done rest : List α) : Prop :=
  ∀ p < done.length, ¬ old <+: (done ++ (old ++ rest)).drop p

instance (old done rest : List α) : Decidable (FirstAt old done rest) :=
  inferInstanceAs (Decidable (∀ p < done.length, _))

theorem replaceFirst_of_firstAt {old : List α} (new : List α) (hold : old ≠ [])
    {done rest : List α} (h : FirstAt old done rest) :
    replaceFirst old new (done ++ (old ++ rest)) = done ++ (new ++ rest) := by
  induction done with
  | nil =>
    obtain ⟨c, cs, rfl⟩ := List.exists_cons_of_ne_nil hold
    have hstart : c :: cs <+: c :: (cs ++ rest) := List.prefix_append (c :: cs) rest
    rw [List.nil_append, List.nil_append, List.cons_append, replaceFirst, if_pos hstart,
      ← List.cons_append, List.drop_left]
  | cons d done ih =>
    have hhere : ¬ old <+: d :: (done ++ (old ++ rest)) := h 0 (Nat.succ_pos _)
    rw [List.cons_append, replaceFirst, if_neg hhere, ih, List.cons_append]
    intro p hp
    exact h (p + 1) (Nat.succ_lt_succ hp)

/-- Nothing is replaced, or the first occurrence. -/
theorem replaceFirst_cases (old new s : List α) :
    replaceFirst old new s = s ∨
      ∃ pre post, s = pre ++ (old ++ post) ∧ replaceFirst old new s = pre ++ (new ++ post) := by
  induction s with
  | nil => exact Or.inl rfl
  | cons c cs ih =>
    by_cases hstart : old <+: c :: cs
    · obtain ⟨post, hpost⟩ := hstart
      right
      refine ⟨[], post, hpost.symm, ?_⟩
      rw [replaceFirst, if_pos ⟨post, hpost⟩, ← hpost, List.drop_left]
      rfl
    · rw [replaceFirst, if_neg hstart]
      rcases ih with hnone | ⟨pre, post, hs, hreplaced⟩
      · exact Or.inl (by rw [hnone])
      · exact Or.inr ⟨c :: pre, post, by rw [hs]; rfl, by rw [hreplaced]; rfl⟩

/-- An occurrence that begins within `done` is replaced there. -/
theorem replaceFirst_of_not_firstAt {old : List α} (new : List α) {done rest : List α}
    (h : ¬ FirstAt old done rest) :
    ∃ pre post, pre.length < done.length ∧ done ++ (old ++ rest) = pre ++ (old ++ post) ∧
      replaceFirst old new (done ++ (old ++ rest)) = pre ++ (new ++ post) := by
  induction done with
  | nil => exact absurd (fun p hp => absurd hp (Nat.not_lt_zero p)) h
  | cons d done ih =>
    by_cases hhere : old <+: d :: (done ++ (old ++ rest))
    · obtain ⟨post, hpost⟩ := hhere
      refine ⟨[], post, Nat.succ_pos _, hpost.symm, ?_⟩
      rw [List.cons_append, replaceFirst, if_pos ⟨post, hpost⟩, ← hpost, List.drop_left]
      rfl
    · have hlater : ¬ FirstAt old done rest := by
        intro hfirst
        apply h
        intro p hp
        cases p with
        | zero => exact hhere
        | succ p => exact hfirst p (Nat.lt_of_succ_lt_succ hp)
      obtain ⟨pre, post, hlt, hs, hreplaced⟩ := ih hlater
      refine ⟨d :: pre, post, Nat.succ_lt_succ hlt, by rw [List.cons_append, hs]; rfl, ?_⟩
      rw [List.cons_append, replaceFirst, if_neg hhere, hreplaced]
      rfl

/-! ## 2. One word after another -/

inductive Segment (α : Type*) where
  | keep (w : List α)
  | edit (old new : List α)

def before : List (Segment α) → List α
  | [] => []
  | .keep w :: segs => w ++ before segs
  | .edit old _ :: segs => old ++ before segs

/-- Each part replaced in its place. -/
def after : List (Segment α) → List α
  | [] => []
  | .keep w :: segs => w ++ after segs
  | .edit _ new :: segs => new ++ after segs

/-- Each part replaced where it is found first. -/
def run : List (Segment α) → List α → List α
  | [], s => s
  | .keep _ :: segs, s => run segs s
  | .edit old new :: segs, s => run segs (replaceFirst old new s)

/-- Each part is found first at its own place, behind what is `done`. -/
def FirstEach (done : List α) : List (Segment α) → Prop
  | [] => True
  | .keep w :: segs => FirstEach (done ++ w) segs
  | .edit old new :: segs => FirstAt old done (before segs) ∧ FirstEach (done ++ new) segs

/-- What is replaced begins with `a`, and what replaces it with `b`. -/
def Marked (a b : α) (segs : List (Segment α)) : Prop :=
  ∀ old new, Segment.edit old new ∈ segs → (∃ w, old = a :: w) ∧ ∃ w, new = b :: w

theorem run_of_firstEach {a b : α} {segs : List (Segment α)} (hmarked : Marked a b segs)
    {done : List α} (h : FirstEach done segs) :
    run segs (done ++ before segs) = done ++ after segs := by
  induction segs generalizing done with
  | nil => rfl
  | cons seg segs ih =>
    have hrest : Marked a b segs := fun old new hmem => hmarked old new (List.mem_cons_of_mem _ hmem)
    cases seg with
    | keep w =>
      have hrun := ih hrest h
      rw [List.append_assoc, List.append_assoc] at hrun
      exact hrun
    | edit old new =>
      obtain ⟨hfirst, hlater⟩ := h
      obtain ⟨⟨w, hold⟩, -⟩ := hmarked old new List.mem_cons_self
      have hrun := ih hrest hlater
      rw [List.append_assoc, List.append_assoc] at hrun
      have hne : old ≠ [] := by
        rw [hold]
        exact List.cons_ne_nil a w
      change run segs (replaceFirst old new (done ++ (old ++ before segs))) = _
      rw [replaceFirst_of_firstAt new hne hfirst]
      exact hrun

/-- The text has `b` where what is done has `a`, and agrees with it before. -/
def Off (a b : α) (s done : List α) : Prop :=
  ∃ pre x y, s = pre ++ b :: x ∧ done = pre ++ a :: y

/-- A replacement in a text that is off leaves it off: at the same place, or at its own when this
is before. -/
theorem Off.replaceFirst {a b : α} (hab : a ≠ b) {s done : List α} (h : Off a b s done)
    (old new : List α) : Off a b (replaceFirst (a :: old) (b :: new) s) done := by
  obtain ⟨pre, x, y, hs, hdone⟩ := h
  rcases replaceFirst_cases (a :: old) (b :: new) s with hsame | ⟨pre', post, hs', hreplaced⟩
  · rw [hsame]
    exact ⟨pre, x, y, hs, hdone⟩
  · rw [hreplaced]
    rw [hs] at hs'
    rcases List.append_eq_append_iff.mp hs' with ⟨gap, hpre, hgap⟩ | ⟨gap, hpre, hgap⟩
    · cases gap with
      | nil => exact absurd (List.cons.inj hgap).1.symm hab
      | cons g gap =>
        obtain ⟨rfl, hx⟩ := List.cons.inj hgap
        refine ⟨pre, gap ++ (b :: new ++ post), y, ?_, hdone⟩
        rw [hpre, List.append_assoc]
        rfl
    · cases gap with
      | nil => exact absurd (List.cons.inj hgap).1 hab
      | cons g gap =>
        obtain ⟨rfl, -⟩ := List.cons.inj hgap
        refine ⟨pre', new ++ post, gap ++ a :: y, rfl, ?_⟩
        rw [hdone, hpre, List.append_assoc]
        rfl

omit [DecidableEq α] in
theorem Off.append {a b : α} {s done : List α} (h : Off a b s done) (w : List α) :
    Off a b s (done ++ w) := by
  obtain ⟨pre, x, y, hs, hdone⟩ := h
  exact ⟨pre, x, y ++ w, hs, by rw [hdone, List.append_assoc]; rfl⟩

theorem Off.run_ne {a b : α} (hab : a ≠ b) {segs : List (Segment α)} (hmarked : Marked a b segs)
    {s done : List α} (h : Off a b s done) : run segs s ≠ done ++ after segs := by
  induction segs generalizing s done with
  | nil =>
    obtain ⟨pre, x, y, rfl, rfl⟩ := h
    intro heq
    rw [run, after, List.append_nil] at heq
    exact hab (List.cons.inj (List.append_cancel_left heq)).1.symm
  | cons seg segs ih =>
    have hrest : Marked a b segs := fun old new hmem => hmarked old new (List.mem_cons_of_mem _ hmem)
    cases seg with
    | keep w =>
      have hne := ih hrest (h.append w)
      rw [List.append_assoc] at hne
      exact hne
    | edit old new =>
      obtain ⟨⟨w, rfl⟩, w', rfl⟩ := hmarked old new List.mem_cons_self
      have hne := ih hrest ((h.replaceFirst hab w w').append (b :: w'))
      rw [List.append_assoc] at hne
      exact hne

/-- **Replacing one word after another** comes to replacing each in its place exactly when each is
found first at its own place. -/
theorem run_eq_after_iff {a b : α} (hab : a ≠ b) {segs : List (Segment α)}
    (hmarked : Marked a b segs) (done : List α) :
    run segs (done ++ before segs) = done ++ after segs ↔ FirstEach done segs := by
  constructor
  · intro h
    induction segs generalizing done with
    | nil => exact trivial
    | cons seg segs ih =>
      have hrest : Marked a b segs :=
        fun old new hmem => hmarked old new (List.mem_cons_of_mem _ hmem)
      cases seg with
      | keep w =>
        apply ih hrest (done ++ w)
        rw [List.append_assoc, List.append_assoc]
        exact h
      | edit old new =>
        obtain ⟨⟨w, rfl⟩, w', rfl⟩ := hmarked old new List.mem_cons_self
        change run segs (replaceFirst (a :: w) (b :: w') (done ++ (a :: w ++ before segs))) =
          done ++ (b :: w' ++ after segs) at h
        by_cases hfirst : FirstAt (a :: w) done (before segs)
        · refine ⟨hfirst, ih hrest (done ++ b :: w') ?_⟩
          rw [replaceFirst_of_firstAt _ (List.cons_ne_nil a w) hfirst] at h
          rw [List.append_assoc, List.append_assoc]
          exact h
        · -- the occurrence that is replaced begins in what is done
          obtain ⟨pre, post, hlt, hs, hreplaced⟩ := replaceFirst_of_not_firstAt (b :: w') hfirst
          have hoff : Off a b (pre ++ (b :: w' ++ post)) done := by
            rcases List.append_eq_append_iff.mp hs with ⟨gap, hpre, -⟩ | ⟨gap, hdone, hgap⟩
            · rw [hpre, List.length_append] at hlt
              exact absurd hlt (by omega)
            · cases gap with
              | nil =>
                rw [hdone, List.append_nil] at hlt
                exact absurd hlt (Nat.lt_irrefl _)
              | cons g gap =>
                obtain ⟨rfl, -⟩ := List.cons.inj hgap
                exact ⟨pre, w' ++ post, gap, rfl, hdone⟩
          rw [hreplaced] at h
          have hne := (hoff.append (b :: w')).run_ne hab hrest
          rw [List.append_assoc] at hne
          exact absurd h hne
  · intro h
    exact run_of_firstEach hmarked h

end TokenProxy.TextReplace
