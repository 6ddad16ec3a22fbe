/-
  TokenProxy/Rotation.lean
  ========================
  **Taking the entries of a list in turn.**

  `turns xs c m` is what a counter that starts at `c` picks in `m` turns around `xs`, and
  `FairShare` says of picks that none of the entries has been passed over: each was picked
  `⌊m / n⌋` or `⌈m / n⌉` times.

  Main results: `fairShare_turns`, a rotation through distinct entries is fair wherever it
  starts, `infix_turns`, a window of a rotation is a rotation, and `nodup_of_fairShare`, the
  entries have to be distinct.
-/
import Mathlib.Data.Int.CardIntervalMod
import Mathlib.Algebra.Order.Floor.Div

namespace TokenProxy.Rotation

variable {α : Type*}

/-! ## 1. Rotations -/

def turns (xs : List α) (c m : ℕ) : List (Option α) :=
  (List.range m).map fun j => xs[(c + j) % xs.length]?

@[simp] theorem length_turns (xs : List α) (c m : ℕ) : (turns xs c m).length = m := by
  simp [turns]

@[simp] theorem turns_zero (xs : List α) (c : ℕ) : turns xs c 0 = [] := rfl

theorem turns_add (xs : List α) (c a b : ℕ) :
    turns xs c (a + b) = turns xs c a ++ turns xs (c + a) b := by
  rw [turns, List.range_add, List.map_append, List.map_map, turns, turns]
  congr 1
  apply List.map_congr_left
  intro j _
  rw [Function.comp_apply, Nat.add_assoc]

theorem turns_succ (xs : List α) (c m : ℕ) :
    turns xs c (m + 1) = xs[c % xs.length]? :: turns xs (c + 1) m := by
  rw [Nat.add_comm, turns_add]
  rfl

/-- Only the residue of the counter matters. -/
theorem turns_mod (xs : List α) (c m : ℕ) : turns xs (c % xs.length) m = turns xs c m := by
  apply List.map_congr_left
  intro j _
  rw [Nat.mod_add_mod]

theorem infix_turns {xs : List α} {c m : ℕ} {window : List (Option α)}
    (h : window <:+: turns xs c m) : ∃ d, window = turns xs d window.length := by
  obtain ⟨before, after, happ⟩ := h
  have hm : m = before.length + (window.length + after.length) := by
    have hlength := congrArg List.length happ
    rw [length_turns, List.length_append, List.length_append] at hlength
    omega
  rw [hm, turns_add, turns_add, List.append_assoc] at happ
  have hrest := (List.append_inj happ (length_turns xs c _).symm).2
  exact ⟨_, (List.append_inj hrest (length_turns xs _ _).symm).1⟩

/-- Once around, from the start. -/
theorem turns_length (xs : List α) : turns xs 0 xs.length = xs.map some := by
  apply List.ext_getElem?
  intro i
  rw [turns, List.getElem?_map, List.getElem?_map]
  by_cases hi : i < xs.length
  · rw [List.getElem?_range hi, Option.map_some, Nat.zero_add, Nat.mod_eq_of_lt hi,
      List.getElem?_eq_getElem hi, Option.map_some]
  · rw [List.getElem?_eq_none (by simpa using hi), List.getElem?_eq_none (by simpa using hi)]
    rfl

/-! ## 2. Fairness -/

variable [DecidableEq α]

def FairShare (xs : List α) (picks : List (Option α)) : Prop :=
  ∀ x ∈ xs, picks.count (some x) = picks.length / xs.length ∨
    picks.count (some x) = picks.length ⌈/⌉ xs.length

theorem ceilDiv_eq_succ {m n : ℕ} (h : 0 < m % n) (hn : 0 < n) : m ⌈/⌉ n = m / n + 1 := by
  rw [Nat.ceilDiv_eq_add_pred_div]
  have hm := Nat.div_add_mod m n
  have hsum : m + n - 1 = (m % n - 1) + n * (m / n + 1) := by
    rw [Nat.mul_add, Nat.mul_one]
    omega
  have hlt := Nat.mod_lt m hn
  rw [hsum, Nat.add_mul_div_left _ _ hn, Nat.div_eq_of_lt (by omega), Nat.zero_add]

/-- The turns at which the entry at `i` is picked are those of one residue. -/
theorem count_turns {xs : List α} (hxs : xs.Nodup) {i : ℕ} (hi : i < xs.length) (c m : ℕ) :
    (turns xs c m).count (some xs[i]) =
      m.count (· ≡ i + (xs.length - c % xs.length) [MOD xs.length]) := by
  have hn : 0 < xs.length := Nat.zero_lt_of_lt hi
  have hpicked : ∀ j, (xs[(c + j) % xs.length]? == some xs[i]) = true ↔
      j ≡ i + (xs.length - c % xs.length) [MOD xs.length] := by
    intro j
    have hj : (c + j) % xs.length < xs.length := Nat.mod_lt _ hn
    rw [beq_iff_eq, List.getElem?_eq_getElem hj, Option.some.injEq, hxs.getElem_inj_iff]
    have hc : c % xs.length + (xs.length - c % xs.length) = xs.length :=
      Nat.add_sub_of_le (Nat.mod_lt c hn).le
    calc (c + j) % xs.length = i
        ↔ c % xs.length + j ≡ i [MOD xs.length] := by
          rw [Nat.ModEq, Nat.mod_add_mod, Nat.mod_eq_of_lt hi]
      _ ↔ c % xs.length + j + (xs.length - c % xs.length) ≡
            i + (xs.length - c % xs.length) [MOD xs.length] :=
          ⟨fun h => h.add_right _, fun h => h.add_right_cancel'⟩
      _ ↔ j ≡ i + (xs.length - c % xs.length) [MOD xs.length] := by
          rw [show c % xs.length + j + (xs.length - c % xs.length) = j + xs.length by omega]
          exact ⟨fun h => (Nat.ModEq.symm (by simp [Nat.ModEq])).trans h,
            fun h => Nat.ModEq.trans (by simp [Nat.ModEq]) h⟩
  rw [turns, List.count, List.countP_map, Nat.count]
  apply List.countP_congr
  intro j _
  rw [Function.comp_apply, hpicked, decide_eq_true_eq]

theorem fairShare_turns {xs : List α} (hxs : xs.Nodup) (c m : ℕ) :
    FairShare xs (turns xs c m) := by
  intro x hx
  obtain ⟨i, hi, rfl⟩ := List.getElem_of_mem hx
  have hn : 0 < xs.length := Nat.zero_lt_of_lt hi
  rw [count_turns hxs hi, Nat.count_modEq_card _ hn, length_turns]
  split_ifs with hlt
  · exact Or.inr (ceilDiv_eq_succ (Nat.zero_lt_of_lt hlt) hn).symm
  · exact Or.inl (Nat.add_zero _)

/-- An entry that stands twice is picked twice in one turn around. -/
theorem nodup_of_fairShare {xs : List α} (h : FairShare xs (xs.map some)) : xs.Nodup := by
  rw [List.nodup_iff_count_le_one]
  intro x
  by_cases hx : x ∈ xs
  · have hn : 0 < xs.length := List.length_pos_of_mem hx
    have hone : xs.length ⌈/⌉ xs.length = 1 := by
      rw [Nat.ceilDiv_eq_add_pred_div]
      exact Nat.div_eq_of_lt_le (by omega) (by omega)
    have hcount := h x hx
    rw [List.count_map_of_injective xs some (Option.some_injective α), List.length_map, hone,
      Nat.div_self hn, or_self] at hcount
    exact hcount.le
  · rw [List.count_eq_zero_of_not_mem hx]
    exact Nat.zero_le 1

/-- Picking the same entry twice in two turns passes another over. -/
theorem not_fairShare_pair {xs : List α} (hn : 2 ≤ xs.length) {x : α} (hx : x ∈ xs) :
    ¬ FairShare xs [some x, some x] := by
  intro h
  have hceil : 2 ⌈/⌉ xs.length = 1 := by
    rw [Nat.ceilDiv_eq_add_pred_div]
    exact Nat.div_eq_of_lt_le (by omega) (by omega)
  have hfloor : 2 / xs.length ≤ 1 := Nat.div_le_of_le_mul (by omega)
  have hcount := h x hx
  rw [List.count_cons_self, List.count_cons_self, List.count_nil] at hcount
  simp only [List.length_cons, List.length_nil, Nat.reduceAdd, hceil] at hcount
  omega

end TokenProxy.Rotation
