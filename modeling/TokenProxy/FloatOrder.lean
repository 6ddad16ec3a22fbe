/-
  TokenProxy/FloatOrder.lean
  ==========================
  **Comparing numbers one of which may be no number.**

  Floats are a linear order with one more value, `nan`, which is neither below nor above
  anything.  `a < b` is then no longer the negation of `b ≤ a`, and code that tests one of the
  two has to be read as it stands: what is *at least* a bound is what the test `a < bound`
  does not refuse (`AtLeast`).  Everything is at least `nan`.

  Capping a bound with Python's `min(bound, top)` lets through exactly what was at least the
  bound before, and what is at least the top (`atLeast_cap_iff`), `nan` included.
-/
import Mathlib.Order.WithBot
import Mathlib.Algebra.Order.Ring.Unbundled.Rat

namespace TokenProxy.FloatOrder

inductive MaybeNan (α : Type*) where
  | nan
  | value (a : α)
deriving DecidableEq

namespace MaybeNan

variable {α : Type*} [LinearOrder α]

/-- `a < b`. -/
def lt : MaybeNan α → MaybeNan α → Bool
  | value a, value b => decide (a < b)
  | _, _ => false

/-- `a == b`; `nan` is not even equal to itself. -/
def eq : MaybeNan α → MaybeNan α → Bool
  | value a, value b => decide (a = b)
  | _, _ => false

/-- `a <= b`. -/
def le : MaybeNan α → MaybeNan α → Bool
  | value a, value b => decide (a ≤ b)
  | _, _ => false

/-- `min(bound, top)`: the first argument unless the second is below it. -/
def cap (bound : MaybeNan α) (top : α) : MaybeNan α :=
  if lt (value top) bound then value top else bound

/-- What the test `a < bound` does not refuse. -/
def AtLeast (bound : MaybeNan α) (a : α) : Prop := lt (value a) bound = false

instance (bound : MaybeNan α) (a : α) : Decidable (bound.AtLeast a) :=
  inferInstanceAs (Decidable (_ = _))

@[simp] theorem atLeast_nan (a : α) : (nan : MaybeNan α).AtLeast a := rfl

@[simp] theorem atLeast_value {a b : α} : (value b).AtLeast a ↔ b ≤ a := by
  simp [AtLeast, lt]

theorem AtLeast.mono {a b : α} {bound : MaybeNan α} (h : bound.AtLeast a) (hab : a ≤ b) :
    bound.AtLeast b := by
  cases bound with
  | nan => exact atLeast_nan b
  | value c => exact atLeast_value.mpr ((atLeast_value.mp h).trans hab)

theorem atLeast_cap_iff {a top : α} {bound : MaybeNan α} :
    (bound.cap top).AtLeast a ↔ bound.AtLeast a ∨ top ≤ a := by
  cases bound with
  | nan => simp [cap, lt]
  | value b =>
    rw [cap]
    by_cases h : top < b
    · rw [if_pos (by simpa [lt] using h), atLeast_value, atLeast_value]
      exact ⟨Or.inr, fun hor => hor.elim (fun hb => (h.trans_le hb).le) id⟩
    · rw [if_neg (by simpa [lt] using h), atLeast_value]
      exact ⟨Or.inl, fun hor => hor.elim id (not_lt.mp h).trans⟩

end MaybeNan

/-! ## The largest of several numbers -/

section MaxOf

variable {α : Type*} [LinearOrder α]

/-- `max(first, *rest)`: a later number replaces the one in hand when it is above it. -/
def maxOf : α → List α → α
  | top, [] => top
  | top, a :: rest => maxOf (if top < a then a else top) rest

theorem maxOf_le_iff {top b : α} {rest : List α} :
    maxOf top rest ≤ b ↔ top ≤ b ∧ ∀ a ∈ rest, a ≤ b := by
  induction rest generalizing top with
  | nil => simp [maxOf]
  | cons a rest ih =>
    rw [maxOf, ih, List.forall_mem_cons, ← and_assoc]
    refine and_congr_left fun _ => ?_
    split
    · next h => exact ⟨fun ha => ⟨h.le.trans ha, ha⟩, And.right⟩
    · next h => exact ⟨fun ht => ⟨ht, (not_lt.mp h).trans ht⟩, And.left⟩

end MaxOf

/-! ## Floats -/

/-- A Python float: a rational, an infinity, or `nan`. -/
abbrev PyFloat := MaybeNan (WithBot (WithTop ℚ))

/-- A rational among the infinities. -/
def extended (q : ℚ) : WithBot (WithTop ℚ) := (q : WithTop ℚ)

def PyFloat.finite (q : ℚ) : PyFloat := .value (extended q)

@[simp] theorem extended_le_extended {p q : ℚ} : extended p ≤ extended q ↔ p ≤ q := by
  rw [extended, extended, WithBot.coe_le_coe, WithTop.coe_le_coe]

end TokenProxy.FloatOrder
