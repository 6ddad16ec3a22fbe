/-
  TokenProxy/SignificantDigits.lean
  =================================
  **Numbers of so many significant digits.**

  `nearest b digits x` is `x` rounded to so many digits to the base `b`, halves to the even one.
  A double is a number of 53 binary digits, as far as those go down; its overflow to infinity is
  not part of this.

  Main result: `nearestDouble_sub_one_lt`, as long as the whole numbers are doubles, one less is
  less.
-/
import TokenProxy.HalfEven
import Mathlib.Algebra.Order.Field.Power
import Mathlib.Algebra.Order.Field.Rat
import Mathlib.Data.Int.Log
import Mathlib.Data.Rat.Floor
import Mathlib.Tactic.Linarith
import Mathlib.Tactic.NormNum
import Mathlib.Tactic.Ring

namespace TokenProxy.SignificantDigits

open TokenProxy.HalfEven (halfEven excess excess_le_half le_halfEven_iff)

/-! ## 1. Rounding -/

/-- What the last of the digits stands for. -/
def unit (b digits : ℕ) (x : ℚ) : ℚ := (b : ℚ) ^ (Int.log b |x| + 1 - digits)

def nearest (b digits : ℕ) (x : ℚ) : ℚ := halfEven (x / unit b digits x) * unit b digits x

/-- The step from one double to the next, where they are closest. -/
def leastDouble : ℚ := (2 : ℚ) ^ (-1074 : ℤ)

/-- The nearest double. -/
def nearestDouble (x : ℚ) : ℚ :=
  if |x| < (2 : ℚ) ^ (-1022 : ℤ) then halfEven (x / leastDouble) * leastDouble
  else nearest 2 53 x

/-- The decimal numbers of so many digits around a number, the nearest one first. -/
def decimalsAround (digits : ℕ) (x : ℚ) : List ℚ :=
  let below := ⌊x / unit 10 digits x⌋ * unit 10 digits x
  [nearest 10 digits x, below, below + unit 10 digits x]

/-- The shortest decimal number whose double this is, as `repr` writes it. -/
def shortest (x : ℚ) : ℚ :=
  let decimals := (List.range 17).flatMap fun n => decimalsAround (n + 1) x
  (decimals.find? fun d => decide (nearestDouble d = x)).getD x

/-! ## 2. How far rounding goes -/

theorem unit_pos {b : ℕ} (hb : 0 < b) (digits : ℕ) (x : ℚ) : 0 < unit b digits x := by
  rw [unit]
  exact zpow_pos (Nat.cast_pos.mpr hb) _

theorem nearest_sub_le {b : ℕ} (hb : 0 < b) (digits : ℕ) (x : ℚ) :
    nearest b digits x - x ≤ unit b digits x / 2 := by
  have hpos := unit_pos hb digits x
  have hexcess := excess_le_half (x / unit b digits x)
  rw [excess] at hexcess
  have hx : x / unit b digits x * unit b digits x = x := div_mul_cancel₀ x hpos.ne'
  calc nearest b digits x - x
      = (halfEven (x / unit b digits x) - x / unit b digits x) * unit b digits x := by
        rw [nearest, sub_mul, hx]
    _ ≤ 1 / 2 * unit b digits x := by
        apply mul_le_mul_of_nonneg_right hexcess hpos.le
    _ = unit b digits x / 2 := by ring

theorem halfEven_nonneg {x : ℚ} (hx : 0 ≤ x) : 0 ≤ halfEven x := by
  apply (le_halfEven_iff 0 x).mpr
  left
  rw [Int.cast_zero]
  linarith

theorem nearest_nonneg {b : ℕ} (hb : 0 < b) (digits : ℕ) {x : ℚ} (hx : 0 ≤ x) :
    0 ≤ nearest b digits x := by
  have hpos := unit_pos hb digits x
  have hunits := halfEven_nonneg (div_nonneg hx hpos.le)
  exact mul_nonneg (Int.cast_nonneg hunits) hpos.le

theorem nearestDouble_nonneg {x : ℚ} (hx : 0 ≤ x) : 0 ≤ nearestDouble x := by
  have hleast : (0 : ℚ) < leastDouble := zpow_pos (by norm_num) _
  rw [nearestDouble]
  split
  · exact mul_nonneg (Int.cast_nonneg (halfEven_nonneg (div_nonneg hx hleast.le))) hleast.le
  · exact nearest_nonneg (by decide) 53 hx

/-- The digits of a number below this power reach down to the whole numbers. -/
theorem unit_le_one {b digits : ℕ} (hb : 1 < b) {x : ℚ} (hx : 0 < x)
    (hlt : x < (b : ℚ) ^ (digits : ℤ)) : unit b digits x ≤ 1 := by
  have hlog := (Int.lt_zpow_iff_log_lt hb hx).mp hlt
  have hone : (1 : ℚ) ≤ b := by exact_mod_cast hb.le
  rw [unit, abs_of_pos hx]
  calc (b : ℚ) ^ (Int.log b x + 1 - digits) ≤ (b : ℚ) ^ (0 : ℤ) := by
        apply zpow_le_zpow_right₀ hone
        omega
    _ = 1 := zpow_zero _

/-- One less is less, as long as the whole numbers are doubles. -/
theorem nearestDouble_sub_one_lt {x : ℚ} (hx : 2 ≤ x) (hle : x ≤ 2 ^ 53) :
    nearestDouble (x - 1) < x := by
  have hpos : 0 < x - 1 := by linarith
  have hunit : unit 2 53 (x - 1) ≤ 1 := by
    apply unit_le_one (by decide) hpos
    norm_num at hle ⊢
    linarith
  have hnear := nearest_sub_le (show 0 < 2 by decide) 53 (x - 1)
  have hlarge : ¬ |x - 1| < (2 : ℚ) ^ (-1022 : ℤ) := by
    rw [abs_of_pos hpos, not_lt]
    calc (2 : ℚ) ^ (-1022 : ℤ) ≤ (2 : ℚ) ^ (0 : ℤ) := by
          apply zpow_le_zpow_right₀ (by norm_num)
          decide
      _ ≤ x - 1 := by
          rw [zpow_zero]
          linarith
  rw [nearestDouble, if_neg hlarge]
  linarith

/-- Far above, one less is the same double. -/
example : nearestDouble (10 ^ 17 - 1) = 10 ^ 17 := by decide +kernel

end TokenProxy.SignificantDigits
