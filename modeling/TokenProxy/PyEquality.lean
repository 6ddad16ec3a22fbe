/-
  TokenProxy/PyEquality.lean
  ==========================
  **Equality of values, and of dicts key by key.**

  `a == b` compares two dicts by their lengths and then by the keys of the first.
  Where no dict has a key twice, every value equals itself (`pyEq_self`), and two
  dicts are equal when each key has equal values in both, or is in neither
  (`pyEq_obj_iff`).
-/
import TokenProxy.PyJson
import Mathlib.Data.List.Perm.Basic

namespace TokenProxy.Json

/-! ## 1. Dicts with each key once -/

mutual

/-- No dict in the value has a key twice. -/
def distinctKeys : Json → Bool
  | .arr items => distinctKeysItems items
  | .obj fields => decide (fields.map Prod.fst).Nodup && distinctKeysFields fields
  | _ => true

def distinctKeysItems : List Json → Bool
  | [] => true
  | v :: rest => v.distinctKeys && distinctKeysItems rest

def distinctKeysFields : List (String × Json) → Bool
  | [] => true
  | (_, v) :: rest => v.distinctKeys && distinctKeysFields rest

end

theorem distinctKeysFields_iff (fields : List (String × Json)) :
    distinctKeysFields fields = true ↔ ∀ e ∈ fields, e.2.distinctKeys = true := by
  induction fields with
  | nil => simp [distinctKeysFields]
  | cons e rest ih => simp [distinctKeysFields, ih]

theorem distinctKeys_obj_iff (fields : List (String × Json)) :
    (Json.obj fields).distinctKeys = true ↔
      (fields.map Prod.fst).Nodup ∧ ∀ e ∈ fields, e.2.distinctKeys = true := by
  rw [distinctKeys, Bool.and_eq_true, decide_eq_true_eq, distinctKeysFields_iff]

/-! ## 2. Equality -/

theorem pyEqFields_iff (as bs : List (String × Json)) : pyEqFields as bs = true ↔
    ∀ e ∈ as, ∃ b, Assoc.lookup e.1 bs = some b ∧ e.2.pyEq b = true := by
  induction as with
  | nil => simp [pyEqFields]
  | cons e rest ih =>
    rw [pyEqFields, Bool.and_eq_true, ih, List.forall_mem_cons]
    refine and_congr_left fun _ => ?_
    cases Assoc.lookup e.1 bs with
    | none => simp
    | some b => simp

mutual

theorem pyEq_self : ∀ {v : Json}, v.distinctKeys = true → v.pyEq v = true
  | .null, _ => by simp [pyEq, dictKey?]
  | .bool _, _ => by simp [pyEq, dictKey?]
  | .int _, _ => by simp [pyEq, dictKey?]
  | .float _, _ => by simp [pyEq, dictKey?]
  | .str _, _ => by simp [pyEq, dictKey?]
  | .arr items, h => by
    rw [pyEq]
    exact pyEqItems_self h
  | .obj fields, h => by
    rw [distinctKeys, Bool.and_eq_true, decide_eq_true_eq] at h
    rw [pyEq, decide_eq_true rfl, Bool.true_and]
    exact pyEqFields_self (fun e he => Assoc.lookup_of_mem h.1 he) h.2

theorem pyEqItems_self : ∀ {items : List Json}, distinctKeysItems items = true →
    pyEqItems items items = true
  | [], _ => rfl
  | v :: rest, h => by
    rw [distinctKeysItems, Bool.and_eq_true] at h
    rw [pyEqItems, pyEq_self h.1, pyEqItems_self h.2]
    rfl

theorem pyEqFields_self : ∀ {some all : List (String × Json)},
    (∀ e ∈ some, Assoc.lookup e.1 all = Option.some e.2) → distinctKeysFields some = true →
      pyEqFields some all = true
  | [], _, _, _ => rfl
  | (k, v) :: rest, all, hin, h => by
    rw [distinctKeysFields, Bool.and_eq_true] at h
    rw [pyEqFields, hin (k, v) List.mem_cons_self,
      pyEqFields_self (fun e he => hin e (List.mem_cons_of_mem _ he)) h.2]
    simpa using pyEq_self h.1

end

/-- Two lookups with equal results. -/
abbrev SameValue : Option Json → Option Json → Prop := Option.Rel fun a b => a.pyEq b = true

theorem sameValue_some_some {a b : Json} :
    SameValue (some a) (some b) ↔ a.pyEq b = true :=
  Option.rel_some_some

theorem sameValue_none_left {b : Option Json} : SameValue none b ↔ b = none := by
  cases b with
  | none => simp [SameValue]
  | some b => simp [SameValue]

theorem sameValue_none_right {a : Option Json} : SameValue a none ↔ a = none := by
  cases a with
  | none => simp [SameValue]
  | some a => simp [SameValue]

/-- Two dicts are equal when each key has the same value in both. -/
theorem pyEq_obj_iff {as bs : List (String × Json)} (ha : (as.map Prod.fst).Nodup)
    (hb : (bs.map Prod.fst).Nodup) : (Json.obj as).pyEq (.obj bs) = true ↔
      ∀ k, SameValue (Assoc.lookup k as) (Assoc.lookup k bs) := by
  rw [pyEq, Bool.and_eq_true, decide_eq_true_eq, pyEqFields_iff]
  constructor
  · rintro ⟨hlength, hall⟩ k
    have hsub : as.map Prod.fst ⊆ bs.map Prod.fst := by
      intro l hl
      obtain ⟨e, he, rfl⟩ := List.mem_map.mp hl
      obtain ⟨b, hlookup, -⟩ := hall e he
      exact List.mem_map.mpr ⟨(e.1, b), Assoc.mem_of_lookup hlookup, rfl⟩
    have hperm : List.Perm (as.map Prod.fst) (bs.map Prod.fst) :=
      (List.subperm_of_subset ha hsub).perm_of_length_le (by simp [hlength])
    cases hk : Assoc.lookup k as with
    | some a =>
      obtain ⟨b, hlookup, heq⟩ := hall (k, a) (Assoc.mem_of_lookup hk)
      rw [hlookup]
      exact sameValue_some_some.mpr heq
    | none =>
      rw [sameValue_none_left, Assoc.lookup_eq_none_iff, ← hperm.mem_iff,
        ← Assoc.lookup_eq_none_iff]
      exact hk
  · intro hsame
    constructor
    · have hperm : List.Perm (as.map Prod.fst) (bs.map Prod.fst) := by
        rw [List.perm_ext_iff_of_nodup ha hb]
        intro k
        have hk := hsame k
        rw [← Assoc.isSome_lookup_iff, ← Assoc.isSome_lookup_iff]
        cases has : Assoc.lookup k as with
        | none =>
          rw [has, sameValue_none_left] at hk
          rw [hk]
        | some a =>
          cases hbs : Assoc.lookup k bs with
          | none =>
            rw [has, hbs, sameValue_none_right] at hk
            cases hk
          | some b => rfl
      simpa using hperm.length_eq
    · intro e he
      have hk := hsame e.1
      rw [Assoc.lookup_of_mem ha he] at hk
      cases hbs : Assoc.lookup e.1 bs with
      | none =>
        rw [hbs, sameValue_none_right] at hk
        cases hk
      | some b =>
        rw [hbs, sameValue_some_some] at hk
        exact ⟨b, rfl, hk⟩

end TokenProxy.Json
