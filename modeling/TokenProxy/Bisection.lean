/-
  TokenProxy/Bisection.lean
  =========================
  **The largest number that passes a test, by bisection.**

  The test may have no answer, and then the search has none.  Whatever the test, a result is at an
  end of the interval or at an edge: it passes, and the next number does not (`bisect_holds`,
  `bisect_edge`).  Where the test passes below every number that passes it, the result is the
  largest that does (`isGreatest_bisect`).
-/
import Mathlib.Algebra.Order.Group.Nat
import Mathlib.Order.Bounds.Basic

namespace TokenProxy.Bisection

variable {p : ℕ → Option Bool} {lo hi r : ℕ}

/-- The largest number from `lo` to `hi` that passes, if `lo` does. -/
def bisect (p : ℕ → Option Bool) (lo hi : ℕ) : Option ℕ :=
  if lo < hi then
    let mid := (lo + hi + 1) / 2
    match p mid with
    | some true => bisect p mid hi
    | some false => bisect p lo (mid - 1)
    | none => none
  else some lo
termination_by hi - lo

theorem le_bisect (h : bisect p lo hi = some r) : lo ≤ r := by
  fun_induction bisect p lo hi with
  | case1 lo hi hlt mid hp ih =>
    have hle := ih h
    omega
  | case2 lo hi hlt mid hp ih => exact ih h
  | case3 lo hi hlt mid hp => cases h
  | case4 lo hi hge => exact (Option.some.inj h).le

theorem bisect_le (hle : lo ≤ hi) (h : bisect p lo hi = some r) : r ≤ hi := by
  fun_induction bisect p lo hi with
  | case1 lo hi hlt mid hp ih => exact ih (by omega) h
  | case2 lo hi hlt mid hp ih =>
    have hle := ih (by omega) h
    omega
  | case3 lo hi hlt mid hp => cases h
  | case4 lo hi hge =>
    obtain rfl := Option.some.inj h
    exact hle

/-- The result passes, unless nothing above the lower end did. -/
theorem bisect_holds (h : bisect p lo hi = some r) : r = lo ∨ p r = some true := by
  fun_induction bisect p lo hi with
  | case1 lo hi hlt mid hp ih =>
    right
    rcases ih h with rfl | hr
    · exact hp
    · exact hr
  | case2 lo hi hlt mid hp ih => exact ih h
  | case3 lo hi hlt mid hp => cases h
  | case4 lo hi hge => exact Or.inl (Option.some.inj h).symm

/-- Below the upper end, the next number fails. -/
theorem bisect_edge (h : bisect p lo hi = some r) (hr : r < hi) : p (r + 1) = some false := by
  fun_induction bisect p lo hi with
  | case1 lo hi hlt mid hp ih => exact ih h hr
  | case2 lo hi hlt mid hp ih =>
    have hle : r ≤ mid - 1 := bisect_le (by omega) h
    rcases Nat.lt_or_eq_of_le hle with hbelow | htop
    · exact ih h hbelow
    · have hmid : r + 1 = mid := by omega
      rw [hmid]
      exact hp
  | case3 lo hi hlt mid hp => cases h
  | case4 lo hi hge =>
    obtain rfl := Option.some.inj h
    exact absurd hr hge

/-- Where every test has an answer, the search does. -/
theorem exists_bisect (h : ∀ k, lo < k → k ≤ hi → (p k).isSome = true) :
    ∃ r, bisect p lo hi = some r := by
  fun_induction bisect p lo hi with
  | case1 lo hi hlt mid hp ih =>
    apply ih
    intro k hlow hhigh
    exact h k (by omega) hhigh
  | case2 lo hi hlt mid hp ih =>
    apply ih
    intro k hlow hhigh
    exact h k hlow (by omega)
  | case3 lo hi hlt mid hp =>
    have hmid := h mid (by omega) (by omega)
    rw [hp] at hmid
    cases hmid
  | case4 lo hi hge => exact ⟨lo, rfl⟩

/-- What passes up to some number is not cut short of it. -/
theorem le_bisect_of_forall {n : ℕ} (hn : n ≤ hi) (hp : ∀ k ≤ n, p k = some true)
    (h : bisect p lo hi = some r) : n ≤ r := by
  by_contra hlt
  have hedge : p (r + 1) = some false := bisect_edge h (by omega)
  rw [hp _ (by omega)] at hedge
  cases hedge

theorem isGreatest_bisect (hle : lo ≤ hi) (hlo : p lo = some true)
    (hdown : ∀ k, p (k + 1) = some true → p k = some true) (h : bisect p lo hi = some r) :
    IsGreatest {k | lo ≤ k ∧ k ≤ hi ∧ p k = some true} r := by
  have hbelow : ∀ n, p n = some true → ∀ k ≤ n, p k = some true := by
    intro n hn k hk
    induction n with
    | zero =>
      obtain rfl := Nat.le_zero.mp hk
      exact hn
    | succ n ih =>
      rcases Nat.le_succ_iff.mp hk with hk | rfl
      · exact ih (hdown n hn) hk
      · exact hn
  constructor
  · refine ⟨le_bisect h, bisect_le hle h, ?_⟩
    rcases bisect_holds h with rfl | hr
    · exact hlo
    · exact hr
  · rintro k ⟨-, hk, hp⟩
    exact le_bisect_of_forall hk (hbelow k hp) h

end TokenProxy.Bisection
