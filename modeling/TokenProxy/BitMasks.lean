/-
  TokenProxy/BitMasks.lean
  ========================
  **Masks of leading ones.**

  A mask of a width keeps the first bits of a number and clears the others: two numbers of that
  width agree under it exactly when they agree in those bits.  A number that is such a mask is
  recognised by its zeros on the right, and below them only by ones.
-/
import Mathlib.Data.Nat.Bitwise
import Mathlib.Data.Nat.Factorization.Basic
import Mathlib.Data.Nat.Size

namespace TokenProxy.BitMasks

/-! ## 1. Masks -/

/-- `_ALL_ONES`. -/
def allOnes (bits : Nat) : Nat := 2 ^ bits - 1

/-- `_ip_int_from_prefix`: the mask of the first bits. -/
def leadingOnes (bits len : Nat) : Nat := allOnes bits ^^^ (allOnes bits >>> len)

theorem testBit_allOnes (bits i : Nat) : (allOnes bits).testBit i = decide (i < bits) :=
  Nat.testBit_two_pow_sub_one bits i

theorem testBit_leadingOnes {bits len : Nat} (hlen : len ≤ bits) (i : Nat) :
    (leadingOnes bits len).testBit i = decide (bits - len ≤ i ∧ i < bits) := by
  rw [leadingOnes, Nat.testBit_xor, Nat.testBit_shiftRight, testBit_allOnes, testBit_allOnes,
    Bool.eq_iff_iff]
  simp only [bne_iff_ne, ne_eq, decide_eq_decide, decide_eq_true_eq]
  omega

/-- The mask as a product: ones, and zeros on the right. -/
theorem leadingOnes_eq {bits len : Nat} (hlen : len ≤ bits) :
    leadingOnes bits len = 2 ^ (bits - len) * (2 ^ len - 1) := by
  apply Nat.eq_of_testBit_eq
  intro i
  have hproduct := Nat.testBit_two_pow_mul_add (2 ^ len - 1) (Nat.two_pow_pos (bits - len)) i
  rw [Nat.add_zero] at hproduct
  rw [testBit_leadingOnes hlen, hproduct, Nat.zero_testBit, Nat.testBit_two_pow_sub_one]
  split
  · simp only [decide_eq_false_iff_not]
    omega
  · rw [decide_eq_decide]
    omega

/-- **Masked alike**: the first bits agree. -/
theorem land_leadingOnes_eq_iff {bits len a b : Nat} (hlen : len ≤ bits) (ha : a < 2 ^ bits)
    (hb : b < 2 ^ bits) :
    a &&& leadingOnes bits len = b &&& leadingOnes bits len ↔
      a >>> (bits - len) = b >>> (bits - len) := by
  constructor
  · intro h
    apply Nat.eq_of_testBit_eq
    intro i
    have hbit := congrArg (Nat.testBit · (bits - len + i)) h
    simp only [Nat.testBit_and, testBit_leadingOnes hlen] at hbit
    rw [Nat.testBit_shiftRight, Nat.testBit_shiftRight]
    by_cases hi : bits - len + i < bits
    · simpa [hi] using hbit
    · have hpow : 2 ^ bits ≤ 2 ^ (bits - len + i) :=
        Nat.pow_le_pow_right Nat.two_pos (Nat.le_of_not_lt hi)
      rw [Nat.testBit_lt_two_pow (ha.trans_le hpow), Nat.testBit_lt_two_pow (hb.trans_le hpow)]
  · intro h
    apply Nat.eq_of_testBit_eq
    intro i
    rw [Nat.testBit_and, Nat.testBit_and, testBit_leadingOnes hlen]
    by_cases hi : bits - len ≤ i
    · have hbit := congrArg (Nat.testBit · (i - (bits - len))) h
      simp only [Nat.testBit_shiftRight, Nat.add_sub_cancel' hi] at hbit
      rw [hbit]
    · simp [hi]

theorem leadingOnes_zero (bits : Nat) : leadingOnes bits 0 = 0 := by
  rw [leadingOnes, Nat.shiftRight_zero, Nat.xor_self]

theorem leadingOnes_self (bits : Nat) : leadingOnes bits bits = allOnes bits := by
  rw [leadingOnes_eq le_rfl, Nat.sub_self, Nat.pow_zero, Nat.one_mul, allOnes]

theorem complement_lt {bits n : Nat} (hn : n < 2 ^ bits) : n ^^^ allOnes bits < 2 ^ bits :=
  Nat.xor_lt_two_pow hn (Nat.sub_lt (Nat.two_pow_pos bits) Nat.one_pos)

theorem complement_eq_iff (bits a b : Nat) : a ^^^ allOnes bits = b ↔ a = b ^^^ allOnes bits := by
  constructor
  · rintro rfl
    rw [Nat.xor_assoc, Nat.xor_self, Nat.xor_zero]
  · rintro rfl
    rw [Nat.xor_assoc, Nat.xor_self, Nat.xor_zero]

/-- Neither all zeros nor all ones: the complement of such a mask is no mask. -/
theorem leadingOnes_ne_complement {bits len other : Nat} (hpos : 0 < len) (hlt : len < bits)
    (hother : other ≤ bits) : leadingOnes bits other ≠ leadingOnes bits len ^^^ allOnes bits := by
  intro h
  have hlow := congrArg (Nat.testBit · 0) h
  have hhigh := congrArg (Nat.testBit · (bits - 1)) h
  simp only [Nat.testBit_xor, testBit_allOnes, testBit_leadingOnes hother,
    testBit_leadingOnes hlt.le] at hlow hhigh
  have hbits : 0 < bits := hpos.trans hlt
  have hend : bits - 1 < bits := Nat.sub_lt hbits Nat.one_pos
  have hall : bits - other ≤ 0 := by
    simpa [hbits, (Nat.sub_pos_of_lt hlt).ne'] using hlow
  have hlen : bits - len ≤ bits - 1 := Nat.sub_le_sub_left hpos bits
  have hfull : bits - other ≤ bits - 1 := hall.trans (Nat.zero_le _)
  simp [hend, hlen, hfull] at hhigh

/-- What is masked stays when it is masked again. -/
theorem land_land_self (a mask : Nat) : a &&& mask &&& mask = a &&& mask := by
  rw [Nat.land_assoc, Nat.and_self]

/-! ## 2. Recognising a mask -/

/-- `_count_righthand_zero_bits`. -/
def rightZeros (bits n : Nat) : Nat :=
  if n = 0 then bits else min bits (Nat.size (Nat.ldiff (n - 1) n))

/-- `_prefix_from_ip_int`: of how many ones a number is the mask. -/
def maskLength? (bits n : Nat) : Option Nat :=
  let zeros := rightZeros bits n
  if n >>> zeros = 2 ^ (bits - zeros) - 1 then some (bits - zeros) else none

/-- Below the lowest one of a number, the number before it has ones. -/
theorem ldiff_pred (k m : Nat) :
    Nat.ldiff (2 ^ k * (2 * m + 1) - 1) (2 ^ k * (2 * m + 1)) = 2 ^ k - 1 := by
  have hpos := Nat.two_pow_pos k
  have hpred : 2 ^ k * (2 * m + 1) - 1 = 2 ^ k * (2 * m) + (2 ^ k - 1) := by
    rw [Nat.mul_add, Nat.mul_one, Nat.add_sub_assoc hpos]
  have hself : 2 ^ k * (2 * m + 1) = 2 ^ k * (2 * m + 1) + 0 := rfl
  apply Nat.eq_of_testBit_eq
  intro i
  rw [Nat.testBit_ldiff, hpred, Nat.testBit_two_pow_mul_add _ (Nat.sub_lt hpos Nat.one_pos), hself,
    Nat.testBit_two_pow_mul_add _ hpos, Nat.testBit_two_pow_sub_one]
  by_cases hi : i < k
  · simp [hi]
  · rw [if_neg hi, if_neg hi, decide_eq_false hi]
    cases hrest : i - k with
    | zero => simp
    | succ j =>
      have hbits : (2 * m).testBit (j + 1) = (2 * m + 1).testBit (j + 1) := by
        rw [Nat.testBit_succ, Nat.testBit_succ]
        congr 1
        omega
      rw [hbits]
      exact Bool.and_not_self _

theorem rightZeros_eq {bits k m : Nat} (hk : k ≤ bits) :
    rightZeros bits (2 ^ k * (2 * m + 1)) = k := by
  have hpos : 2 ^ k * (2 * m + 1) ≠ 0 :=
    Nat.mul_ne_zero (Nat.two_pow_pos k).ne' (Nat.succ_ne_zero _)
  have hsize : Nat.size (2 ^ k - 1) = k := by
    apply Nat.le_antisymm
    · exact Nat.size_le.mpr (Nat.sub_lt (Nat.two_pow_pos k) Nat.one_pos)
    · cases k with
      | zero => exact Nat.zero_le _
      | succ k =>
        apply Nat.lt_size.mpr
        have hpow := Nat.two_pow_pos k
        rw [Nat.pow_succ]
        omega
  rw [rightZeros, if_neg hpos, ldiff_pred, hsize]
  exact Nat.min_eq_right hk

/-- **Masks are recognised**, each as the one it is. -/
theorem maskLength?_eq_some {bits n len : Nat} (hn : n < 2 ^ bits) :
    maskLength? bits n = some len ↔ len ≤ bits ∧ n = leadingOnes bits len := by
  by_cases hzero : n = 0
  · subst hzero
    have hread : maskLength? bits 0 = some 0 := by simp [maskLength?, rightZeros]
    rw [hread, Option.some_inj]
    constructor
    · rintro rfl
      exact ⟨Nat.zero_le _, by simp [leadingOnes]⟩
    · rintro ⟨hlen, hmask⟩
      by_contra hne
      have hpos : 0 < len := Nat.pos_of_ne_zero fun h => hne h.symm
      have hbit := testBit_leadingOnes hlen (bits - 1)
      rw [← hmask, Nat.zero_testBit] at hbit
      have hnone := of_decide_eq_false hbit.symm
      omega
  · obtain ⟨k, _, ⟨m, rfl⟩, rfl⟩ := Nat.exists_eq_two_pow_mul_odd hzero
    have hle : 2 ^ k ≤ 2 ^ k * (2 * m + 1) := Nat.le_mul_of_pos_right _ (Nat.succ_pos _)
    have hk : k < bits := (Nat.pow_lt_pow_iff_right (by decide)).mp (hle.trans_lt hn)
    have hshift : (2 ^ k * (2 * m + 1)) >>> k = 2 * m + 1 := by
      rw [Nat.shiftRight_eq_div_pow, Nat.mul_div_cancel_left _ (Nat.two_pow_pos k)]
    simp only [maskLength?, rightZeros_eq hk.le, hshift]
    constructor
    · intro h
      split at h
      · next hones =>
        cases h
        refine ⟨Nat.sub_le _ _, ?_⟩
        rw [leadingOnes_eq (Nat.sub_le _ _), Nat.sub_sub_self hk.le, hones]
      · cases h
    · rintro ⟨hlen, hmask⟩
      -- the lowest one of the mask is where its zeros end
      have hpos : 0 < len := by
        apply Nat.pos_of_ne_zero
        rintro rfl
        rw [leadingOnes_eq (Nat.zero_le _)] at hmask
        simp at hmask
      have hodd : 2 ^ len - 1 = 2 * (2 ^ (len - 1) - 1) + 1 := by
        have hpow := Nat.two_pow_pos (len - 1)
        have hdouble : 2 ^ len = 2 ^ (len - 1) * 2 := by
          rw [← Nat.pow_succ, Nat.succ_eq_add_one, Nat.sub_add_cancel hpos]
        omega
      rw [leadingOnes_eq hlen, hodd] at hmask
      have hzeros := congrArg (rightZeros bits) hmask
      rw [rightZeros_eq hk.le, rightZeros_eq (Nat.sub_le _ _)] at hzeros
      rw [hzeros, ← hodd] at hmask
      have hones := Nat.eq_of_mul_eq_mul_left (Nat.two_pow_pos _) hmask
      rw [hones, hzeros, Nat.sub_sub_self hlen, if_pos rfl]

end TokenProxy.BitMasks
