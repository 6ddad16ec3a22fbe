/-
  TokenProxy/HalfEven.lean
  ========================
  **Rounding to the nearest whole number, halves to the even one.**

  What is compared with a rounded number is compared with the number itself, half a unit lower
  (`le_halfEven_iff`).  Two numbers that are rounded on their own can come to more than their
  sum does: what rounding adds to them has to fit into the rest of the sum and half a unit
  (`halfEven_add_le_iff`), and it always fits when the rest is half a unit itself
  (`absorbs_of_half_le`).
-/
import Mathlib.Algebra.Order.Floor.Ring
import Mathlib.Tactic.Linarith

namespace TokenProxy.HalfEven

variable {K : Type*} [Field K] [LinearOrder K] [IsStrictOrderedRing K] [FloorRing K]

def halfEven (x : K) : ℤ :=
  if x - ⌊x⌋ < 1 / 2 then ⌊x⌋
  else if 1 / 2 < x - ⌊x⌋ then ⌊x⌋ + 1
  else if ⌊x⌋ % 2 = 0 then ⌊x⌋ else ⌊x⌋ + 1

/-- Less than half a unit from a whole number. -/
theorem le_iff_of_near {m n : ℤ} {x : K} (hlow : (m : K) - 1 / 2 < x) (hhigh : x < m + 1 / 2) :
    n ≤ m ↔ (n : K) - 1 / 2 < x ∨ x = n - 1 / 2 ∧ Even n := by
  constructor
  · intro hn
    have hcast : (n : K) ≤ m := Int.cast_le.mpr hn
    exact Or.inl (by linarith)
  · intro hn
    have hcast : (n : K) < ((m + 1 : ℤ) : K) := by
      push_cast
      rcases hn with hn | ⟨hn, -⟩ <;> linarith
    exact Int.lt_add_one_iff.mp (Int.cast_lt.mp hcast)

/-- Half a unit above a whole number: the numbers up to it, and the next one when that is even. -/
theorem near_half_iff {m n : ℤ} {x : K} (hx : x = m + 1 / 2) :
    ((n : K) - 1 / 2 < x ∨ x = n - 1 / 2 ∧ Even n) ↔ n ≤ m ∨ n = m + 1 ∧ Even n := by
  have hstrict : (n : K) - 1 / 2 < x ↔ n ≤ m := by
    rw [← Int.lt_add_one_iff, ← Int.cast_lt (R := K)]
    push_cast
    constructor <;> intro h <;> linarith
  have htie : x = (n : K) - 1 / 2 ↔ n = m + 1 := by
    rw [← Int.cast_inj (α := K)]
    push_cast
    constructor <;> intro h <;> linarith
  rw [hstrict, htie]

theorem le_halfEven_iff (n : ℤ) (x : K) :
    n ≤ halfEven x ↔ (n : K) - 1 / 2 < x ∨ x = n - 1 / 2 ∧ Even n := by
  have hle := Int.floor_le x
  have hlt := Int.lt_floor_add_one x
  rw [halfEven]
  split
  · next hbelow => exact le_iff_of_near (by linarith) (by linarith)
  · next hbelow =>
    rw [not_lt] at hbelow
    split
    · next habove => exact le_iff_of_near (by push_cast; linarith) (by push_cast; linarith)
    · next habove =>
      rw [not_lt] at habove
      rw [near_half_iff (show x = ⌊x⌋ + 1 / 2 by linarith)]
      split
      · next heven =>
        refine ⟨Or.inl, ?_⟩
        rintro (hn | ⟨hn, hnext⟩)
        · exact hn
        · rw [Int.even_iff] at hnext
          omega
      · next hodd =>
        have hnext : Even (⌊x⌋ + 1) := by
          rw [Int.even_iff]
          omega
        rw [Int.le_add_one_iff]
        refine or_congr_right ⟨fun hn => ⟨hn, ?_⟩, fun hn => hn.1⟩
        rw [hn]
        exact hnext

/-- What rounding adds, which may be negative. -/
def excess (x : K) : K := halfEven x - x

/-- What rounding adds to two parts of a sum fits into the rest of it and half a unit. -/
def Absorbs (r w rest : K) : Prop :=
  excess r + excess w < rest + 1 / 2 ∨
    excess r + excess w = rest + 1 / 2 ∧ Even (halfEven r + halfEven w)

theorem halfEven_add_le_iff (r w rest : K) :
    halfEven r + halfEven w ≤ halfEven (r + w + rest) ↔ Absorbs r w rest := by
  rw [le_halfEven_iff, Absorbs, excess, excess, Int.cast_add]
  have hlt : ((halfEven r : K) + halfEven w - 1 / 2 < r + w + rest) ↔
      halfEven r - r + (halfEven w - w) < rest + 1 / 2 := by
    constructor <;> intro h <;> linarith
  have heq : (r + w + rest = (halfEven r : K) + halfEven w - 1 / 2) ↔
      halfEven r - r + (halfEven w - w) = rest + 1 / 2 := by
    constructor <;> intro h <;> linarith
  rw [hlt, heq]

theorem excess_le_half (x : K) : excess x ≤ 1 / 2 := by
  rcases (le_halfEven_iff (halfEven x) x).mp le_rfl with h | ⟨h, -⟩ <;> rw [excess] <;> linarith

/-- Only a half is raised by half a unit, and it is raised to an even number. -/
theorem even_of_excess_eq_half {x : K} (h : excess x = 1 / 2) : Even (halfEven x) := by
  rw [excess] at h
  rcases (le_halfEven_iff (halfEven x) x).mp le_rfl with hlt | ⟨-, heven⟩
  · exact absurd hlt (by linarith)
  · exact heven

theorem absorbs_of_half_le {r w rest : K} (h : 1 / 2 ≤ rest) : Absorbs r w rest := by
  have hr := excess_le_half r
  have hw := excess_le_half w
  rcases lt_or_ge (excess r + excess w) (rest + 1 / 2) with hlt | hge
  · exact Or.inl hlt
  · have hreven := even_of_excess_eq_half (le_antisymm hr (by linarith))
    have hweven := even_of_excess_eq_half (le_antisymm hw (by linarith))
    exact Or.inr ⟨le_antisymm (by linarith) hge, hreven.add hweven⟩

end TokenProxy.HalfEven
