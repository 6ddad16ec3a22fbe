/-
  TokenProxy/Raising.lean
  =======================
  **Code that may raise: when a computation returns.**

  A computation that may raise is an `Except ε α`.  `Returns` says that it gives a
  value; the lemmas say of each way to put computations together (a sequence, a
  sum over a loop, a list gathered in one) that it returns exactly when its parts do.
-/
import Mathlib.Algebra.Order.Ring.Int

namespace TokenProxy.Raising

variable {ε α β : Type}

def Returns (x : Except ε α) : Prop := ∃ a, x = .ok a

@[simp] theorem returns_ok (a : α) : Returns (.ok a : Except ε α) := ⟨a, rfl⟩

@[simp] theorem returns_pure (a : α) : Returns (pure a : Except ε α) := ⟨a, rfl⟩

@[simp] theorem not_returns_error (e : ε) : ¬ Returns (.error e : Except ε α) := nofun

theorem returns_bind {x : Except ε α} {f : α → Except ε β} :
    Returns (x >>= f) ↔ ∃ a, x = .ok a ∧ Returns (f a) := by
  rcases x with e | a
  · constructor
    · rintro ⟨b, hb⟩
      cases hb
    · rintro ⟨a, ha, _⟩
      cases ha
  · constructor
    · intro h
      exact ⟨a, rfl, h⟩
    · rintro ⟨a', ha, h⟩
      cases ha
      exact h

theorem bind_eq_ok_iff {x : Except ε α} {f : α → Except ε β} {b : β} :
    x >>= f = .ok b ↔ ∃ a, x = .ok a ∧ f a = .ok b := by
  rcases x with e | a
  · constructor
    · intro h
      cases h
    · rintro ⟨a, ha, _⟩
      cases ha
  · constructor
    · intro h
      exact ⟨a, rfl, h⟩
    · rintro ⟨a', ha, h⟩
      cases ha
      exact h

/-- What follows returns whatever the first part gives. -/
theorem returns_seq {x : Except ε α} {f : α → Except ε β} {P : Prop}
    (hf : ∀ a, Returns (f a) ↔ P) : Returns (x >>= f) ↔ Returns x ∧ P := by
  rw [returns_bind]
  constructor
  · rintro ⟨a, ha, h⟩
    exact ⟨⟨a, ha⟩, (hf a).mp h⟩
  · rintro ⟨⟨a, ha⟩, h⟩
    exact ⟨a, ha, (hf a).mpr h⟩

theorem returns_bind_pure {x : Except ε α} {g : α → β} :
    Returns (x >>= fun a => pure (g a)) ↔ Returns x := by
  rw [returns_seq (P := True) fun a => iff_true_intro (returns_pure (g a)), and_true]

/-- `for x in xs: total += f(x)`. -/
def sumM (f : α → Except ε Int) : List α → Except ε Int
  | [] => .ok 0
  | x :: xs => do
    let n ← f x
    let rest ← sumM f xs
    pure (n + rest)

theorem returns_sumM {f : α → Except ε Int} {xs : List α} :
    Returns (sumM f xs) ↔ ∀ x ∈ xs, Returns (f x) := by
  induction xs with
  | nil => simp [sumM]
  | cons x xs ih =>
    have hseq : Returns (sumM f (x :: xs)) ↔ Returns (f x) ∧ Returns (sumM f xs) := by
      apply returns_seq
      intro n
      exact returns_bind_pure
    rw [hseq, ih, List.forall_mem_cons]

/-- `for x in xs: out.append(f(x))`, where `f` may also find nothing to append. -/
def collectM (f : α → Except ε (Option β)) : List α → Except ε (List β)
  | [] => .ok []
  | x :: xs => do
    let found ← f x
    let rest ← collectM f xs
    pure (found.toList ++ rest)

/-- What `f` finds, when it returns. -/
def found? (f : α → Except ε (Option β)) (x : α) : Option β :=
  match f x with
  | .ok found => found
  | .error _ => none

theorem collectM_eq_ok_iff {f : α → Except ε (Option β)} {xs : List α} {ys : List β} :
    collectM f xs = .ok ys ↔ (∀ x ∈ xs, Returns (f x)) ∧ ys = xs.filterMap (found? f) := by
  induction xs generalizing ys with
  | nil =>
    rw [collectM, Except.ok.injEq, eq_comm]
    simp
  | cons x xs ih =>
    rw [collectM, List.forall_mem_cons, List.filterMap_cons, found?]
    cases hx : f x with
    | error e =>
      refine iff_of_false (fun h => ?_) fun h => not_returns_error e h.1.1
      cases h
    | ok found =>
      cases hrest : collectM f xs with
      | error e =>
        constructor
        · intro h
          cases h
        · rintro ⟨⟨-, hall⟩, -⟩
          have hok := ih.mpr ⟨hall, rfl⟩
          rw [hrest] at hok
          cases hok
      | ok rest =>
        obtain ⟨hall, rfl⟩ := ih.mp hrest
        constructor
        · intro h
          cases h
          refine ⟨⟨returns_ok found, hall⟩, ?_⟩
          cases found <;> rfl
        · rintro ⟨-, rfl⟩
          cases found <;> rfl

end TokenProxy.Raising
