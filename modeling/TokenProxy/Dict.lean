/-
  TokenProxy/Dict.lean
  ====================
  **Insertion-ordered dictionaries.**

  A dictionary is a list of key/value pairs with distinct keys, in the order in
  which the keys were first inserted.  Assigning to a key that is present keeps
  its place, assigning to a new key appends it; this is the order that iteration
  and `max` see.

  Section 1 works on bare association lists, which is what a JSON object is;
  section 2 packages a list with the proof that its keys are distinct, so that a
  dictionary with a repeated key cannot be built.
-/
import Mathlib.Data.List.Nodup

namespace TokenProxy

/-! ## 1. Association lists -/

namespace Assoc

variable {K V : Type*} [DecidableEq K]

def lookup (k : K) : List (K × V) → Option V
  | [] => none
  | (l, v) :: rest => if l = k then some v else lookup k rest

/-- Assign `k`: overwrite in place, or append when `k` is new. -/
def insert (k : K) (v : V) : List (K × V) → List (K × V)
  | [] => [(k, v)]
  | (l, w) :: rest => if l = k then (k, v) :: rest else (l, w) :: insert k v rest

def erase (k : K) (es : List (K × V)) : List (K × V) :=
  es.filter fun e => e.1 ≠ k

@[simp] theorem lookup_nil (k : K) : lookup k ([] : List (K × V)) = none := rfl

theorem lookup_cons (k l : K) (v : V) (es : List (K × V)) :
    lookup k ((l, v) :: es) = if l = k then some v else lookup k es := rfl

@[simp] theorem lookup_insert_self (k : K) (v : V) (es : List (K × V)) :
    lookup k (insert k v es) = some v := by
  induction es with
  | nil => simp [insert, lookup]
  | cons e es ih =>
    by_cases h : e.1 = k <;> simp [insert, lookup, h, ih]

theorem lookup_insert_of_ne {k l : K} (h : l ≠ k) (v : V) (es : List (K × V)) :
    lookup l (insert k v es) = lookup l es := by
  induction es with
  | nil => simp [insert, lookup, h.symm]
  | cons e es ih =>
    by_cases hk : e.1 = k
    · simp [insert, lookup, hk, h.symm]
    · simp [insert, lookup, hk, ih]

theorem lookup_insert (k l : K) (v : V) (es : List (K × V)) :
    lookup l (insert k v es) = if l = k then some v else lookup l es := by
  by_cases h : l = k
  · rw [if_pos h, h, lookup_insert_self]
  · rw [if_neg h, lookup_insert_of_ne h]

theorem lookup_erase (k l : K) (es : List (K × V)) :
    lookup l (erase k es) = if l = k then none else lookup l es := by
  induction es with
  | nil => simp [erase]
  | cons e es ih =>
    obtain ⟨m, w⟩ := e
    by_cases hk : m = k
    · subst hk
      rw [show erase m ((m, w) :: es) = erase m es by simp [erase], ih, lookup_cons]
      by_cases hl : l = m
      · simp [hl]
      · simp [hl, Ne.symm hl]
    · rw [show erase k ((m, w) :: es) = (m, w) :: erase k es by simp [erase, hk],
        lookup_cons, lookup_cons, ih]
      by_cases hm : m = l
      · simp [hm, hm ▸ hk]
      · simp [hm]

theorem lookup_eq_none_iff (k : K) (es : List (K × V)) :
    lookup k es = none ↔ k ∉ es.map Prod.fst := by
  induction es with
  | nil => simp
  | cons e es ih =>
    by_cases h : e.1 = k
    · simp [lookup, h]
    · simp [lookup, h, ih, Ne.symm h]

theorem isSome_lookup_iff (k : K) (es : List (K × V)) :
    (lookup k es).isSome = true ↔ k ∈ es.map Prod.fst := by
  rw [Option.isSome_iff_ne_none, ne_eq, lookup_eq_none_iff, not_not]

theorem mem_of_lookup {k : K} {v : V} {es : List (K × V)} (h : lookup k es = some v) :
    (k, v) ∈ es := by
  induction es with
  | nil => cases h
  | cons e es ih =>
    by_cases hk : e.1 = k
    · have hv : e.2 = v := by simpa [lookup, hk] using h
      exact List.mem_cons.mpr (Or.inl (Prod.ext hk.symm hv.symm))
    · exact List.mem_cons_of_mem e (ih (by simpa [lookup, hk] using h))

theorem lookup_of_mem {k : K} {v : V} {es : List (K × V)}
    (hnd : (es.map Prod.fst).Nodup) (h : (k, v) ∈ es) : lookup k es = some v := by
  induction es with
  | nil => cases h
  | cons e es ih =>
    rw [List.map_cons, List.nodup_cons] at hnd
    rcases List.mem_cons.mp h with rfl | hmem
    · simp [lookup]
    · have hne : e.1 ≠ k := fun hek =>
        hnd.1 (hek ▸ List.mem_map_of_mem (f := Prod.fst) hmem)
      simpa [lookup, hne] using ih hnd.2 hmem

theorem map_fst_insert (k : K) (v : V) (es : List (K × V)) :
    (insert k v es).map Prod.fst =
      if k ∈ es.map Prod.fst then es.map Prod.fst else es.map Prod.fst ++ [k] := by
  induction es with
  | nil => simp [insert]
  | cons e es ih =>
    by_cases h : e.1 = k
    · simp [insert, h]
    · by_cases hmem : k ∈ es.map Prod.fst
      · simp only [insert, if_neg h, List.map_cons, ih, if_pos hmem]
        rw [if_pos (List.mem_cons_of_mem e.1 hmem)]
      · simp only [insert, if_neg h, List.map_cons, ih, if_neg hmem]
        rw [if_neg (by simpa [Ne.symm h] using hmem), List.cons_append]

theorem nodup_insert {es : List (K × V)} (hnd : (es.map Prod.fst).Nodup) (k : K) (v : V) :
    ((insert k v es).map Prod.fst).Nodup := by
  rw [map_fst_insert]
  split
  · exact hnd
  · rename_i h
    exact List.nodup_append.mpr ⟨hnd, List.nodup_singleton k, fun a ha b hb heq =>
      h (List.mem_singleton.mp hb ▸ heq ▸ ha)⟩

omit [DecidableEq K] in
theorem nodup_filter {es : List (K × V)} (hnd : (es.map Prod.fst).Nodup) (p : K × V → Bool) :
    ((es.filter p).map Prod.fst).Nodup :=
  hnd.sublist (List.filter_sublist.map Prod.fst)

end Assoc

/-! ## 2. Dictionaries -/

/-- An insertion-ordered dictionary. -/
structure Dict (K V : Type*) where
  entries : List (K × V)
  nodup : (entries.map Prod.fst).Nodup

namespace Dict

variable {K V : Type*} [DecidableEq K]

instance [DecidableEq V] : DecidableEq (Dict K V) := fun d d' =>
  decidable_of_iff (d.entries = d'.entries)
    ⟨fun h => by cases d; cases d'; cases h; rfl, fun h => h ▸ rfl⟩

def empty : Dict K V := ⟨[], List.nodup_nil⟩

instance : EmptyCollection (Dict K V) := ⟨empty⟩

def get? (d : Dict K V) (k : K) : Option V := Assoc.lookup k d.entries

def set (d : Dict K V) (k : K) (v : V) : Dict K V :=
  ⟨Assoc.insert k v d.entries, Assoc.nodup_insert d.nodup k v⟩

/-- Keep the entries that satisfy `p`. -/
def filter (d : Dict K V) (p : K → V → Bool) : Dict K V :=
  ⟨d.entries.filter fun e => p e.1 e.2, Assoc.nodup_filter d.nodup _⟩

def erase (d : Dict K V) (k : K) : Dict K V := d.filter fun l _ => l ≠ k

/-- Change every value in place. -/
def mapValues (d : Dict K V) (f : V → V) : Dict K V :=
  ⟨d.entries.map fun e => (e.1, f e.2), by
    rw [List.map_map]
    exact d.nodup⟩

/-- `d.update(other)`: assign the other's entries, in its order. -/
def update (d : Dict K V) (other : Dict K V) : Dict K V :=
  other.entries.foldl (fun acc e => acc.set e.1 e.2) d

def values (d : Dict K V) : List V := d.entries.map Prod.snd

@[simp] theorem get?_empty (k : K) : (∅ : Dict K V).get? k = none := rfl

@[simp] theorem get?_set_self (d : Dict K V) (k : K) (v : V) : (d.set k v).get? k = some v :=
  Assoc.lookup_insert_self k v d.entries

theorem get?_set_of_ne (d : Dict K V) {k l : K} (h : l ≠ k) (v : V) :
    (d.set k v).get? l = d.get? l :=
  Assoc.lookup_insert_of_ne h v d.entries

theorem get?_set (d : Dict K V) (k l : K) (v : V) :
    (d.set k v).get? l = if l = k then some v else d.get? l :=
  Assoc.lookup_insert k l v d.entries

theorem get?_erase (d : Dict K V) (k l : K) :
    (d.erase k).get? l = if l = k then none else d.get? l :=
  Assoc.lookup_erase k l d.entries

theorem mem_entries_iff (d : Dict K V) (k : K) (v : V) :
    (k, v) ∈ d.entries ↔ d.get? k = some v :=
  ⟨Assoc.lookup_of_mem d.nodup, Assoc.mem_of_lookup⟩

theorem mem_values_iff (d : Dict K V) (v : V) : v ∈ d.values ↔ ∃ k, d.get? k = some v := by
  simp only [values, List.mem_map, ← mem_entries_iff]
  constructor
  · rintro ⟨⟨k, w⟩, hmem, rfl⟩
    exact ⟨k, hmem⟩
  · rintro ⟨k, hmem⟩
    exact ⟨(k, v), hmem, rfl⟩

theorem get?_filter (d : Dict K V) (p : K → V → Bool) (k : K) :
    (d.filter p).get? k = (d.get? k).filter (p k) := by
  ext v
  rw [← mem_entries_iff, Option.filter_eq_some_iff, ← mem_entries_iff]
  exact List.mem_filter

omit [DecidableEq K] in
theorem ext_entries {d d' : Dict K V} (h : d.entries = d'.entries) : d = d' := by
  cases d
  cases d'
  cases h
  rfl

omit [DecidableEq K] in
theorem mapValues_eq_self_iff (d : Dict K V) (f : V → V) :
    d.mapValues f = d ↔ ∀ v ∈ d.values, f v = v := by
  constructor
  · intro h v hv
    obtain ⟨e, he, rfl⟩ := List.mem_map.mp hv
    have hentries : d.entries.map (fun e => (e.1, f e.2)) = d.entries.map id :=
      (congrArg Dict.entries h).trans (List.map_id _).symm
    exact congrArg Prod.snd (List.map_inj_left.mp hentries e he)
  · intro h
    refine ext_entries ((List.map_congr_left fun e he => ?_).trans (List.map_id _))
    exact Prod.ext rfl (h e.2 (List.mem_map_of_mem he))

omit [DecidableEq K] in
theorem filter_eq_self_iff (d : Dict K V) (p : V → Bool) :
    d.filter (fun _ v => p v) = d ↔ ∀ v ∈ d.values, p v = true := by
  constructor
  · intro h v hv
    obtain ⟨e, he, rfl⟩ := List.mem_map.mp hv
    have hentries : d.entries.filter (fun e => p e.2) = d.entries := congrArg Dict.entries h
    exact List.filter_eq_self.mp hentries e he
  · intro h
    refine ext_entries (List.filter_eq_self.mpr fun e he => ?_)
    exact h e.2 (List.mem_map_of_mem he)

theorem get?_foldl_set (es : List (K × V)) (hnd : (es.map Prod.fst).Nodup)
    (d : Dict K V) (k : K) :
    (es.foldl (fun acc e => acc.set e.1 e.2) d).get? k =
      (Assoc.lookup k es).or (d.get? k) := by
  induction es generalizing d with
  | nil => rfl
  | cons e es ih =>
    rw [List.map_cons, List.nodup_cons] at hnd
    rw [List.foldl_cons, ih hnd.2, Assoc.lookup_cons, get?_set]
    by_cases h : e.1 = k
    · -- `k` does not occur again, so nothing overwrites this assignment
      rw [(Assoc.lookup_eq_none_iff k es).mpr (h ▸ hnd.1), if_pos h, if_pos h.symm]
      rfl
    · rw [if_neg h, if_neg (Ne.symm h)]

/-- After an update the other dictionary's entries win. -/
theorem get?_update (d other : Dict K V) (k : K) :
    (d.update other).get? k = (other.get? k).or (d.get? k) :=
  get?_foldl_set other.entries other.nodup d k

/-! ## 3. Keys, and writes that wait to be applied -/

section Pending

variable {W : Type*}

def keys (d : Dict K V) : List K := d.entries.map Prod.fst

/-- `k in d`. -/
instance : Membership K (Dict K V) := ⟨fun d k => (d.get? k).isSome = true⟩

instance (k : K) (d : Dict K V) : Decidable (k ∈ d) :=
  inferInstanceAs (Decidable ((d.get? k).isSome = true))

theorem mem_def {k : K} {d : Dict K V} : k ∈ d ↔ (d.get? k).isSome = true := Iff.rfl

theorem mem_iff {k : K} {d : Dict K V} : k ∈ d ↔ ∃ v, d.get? k = some v :=
  Option.isSome_iff_exists

theorem notMem_iff {k : K} {d : Dict K V} : k ∉ d ↔ d.get? k = none := by
  simp [mem_def]

theorem mem_keys_iff {k : K} {d : Dict K V} : k ∈ d.keys ↔ k ∈ d := by
  rw [keys, mem_iff]
  constructor
  · intro h
    obtain ⟨e, he, rfl⟩ := List.mem_map.mp h
    exact ⟨e.2, (d.mem_entries_iff e.1 e.2).mp he⟩
  · rintro ⟨v, hv⟩
    exact List.mem_map_of_mem (f := Prod.fst) ((d.mem_entries_iff k v).mpr hv)

@[simp] theorem notMem_empty (k : K) : k ∉ (∅ : Dict K V) := by
  simp [mem_def]

@[simp] theorem mem_set {d : Dict K V} {k l : K} {v : V} : l ∈ d.set k v ↔ l = k ∨ l ∈ d := by
  rw [mem_def, get?_set, mem_def]
  by_cases h : l = k <;> simp [h]

theorem mem_filter_iff {d : Dict K V} {p : K → V → Bool} {k : K} :
    k ∈ d.filter p ↔ ∃ v, d.get? k = some v ∧ p k v = true := by
  simp only [mem_iff, get?_filter, Option.filter_eq_some_iff]

/-- A filter that looks at the keys only. -/
@[simp] theorem mem_filter_keys {d : Dict K V} {p : K → Bool} {k : K} :
    k ∈ d.filter (fun l _ => p l) ↔ k ∈ d ∧ p k = true := by
  rw [mem_filter_iff, mem_iff, exists_and_right]

theorem mem_update {d other : Dict K V} {k : K} : k ∈ d.update other ↔ k ∈ other ∨ k ∈ d := by
  simp only [mem_def, get?_update, Option.isSome_or, Bool.or_eq_true]

/-- The same keys, every value mapped. -/
def map (f : V → W) (d : Dict K V) : Dict K W :=
  ⟨d.entries.map fun e => (e.1, f e.2), by
    rw [List.map_map]
    exact d.nodup⟩

@[simp] theorem get?_map (f : V → W) (d : Dict K V) (k : K) :
    (d.map f).get? k = (d.get? k).map f := by
  change Assoc.lookup k (d.entries.map fun e => (e.1, f e.2)) = (Assoc.lookup k d.entries).map f
  induction d.entries with
  | nil => rfl
  | cons e es ih =>
    by_cases h : e.1 = k
    · simp [Assoc.lookup, h]
    · simp [Assoc.lookup, h, ih]

@[simp] theorem mem_map_iff {f : V → W} {d : Dict K V} {k : K} : k ∈ d.map f ↔ k ∈ d := by
  simp [mem_def]

/-- Apply one write: `none` removes the key. -/
def write (d : Dict K V) (k : K) : Option V → Dict K V
  | some v => d.set k v
  | none => d.erase k

/-- Apply the pending writes, at most one for a key. -/
def overlay (d : Dict K V) (writes : Dict K (Option V)) : Dict K V :=
  writes.entries.foldl (fun acc e => acc.write e.1 e.2) d

theorem get?_write (d : Dict K V) (k l : K) (v : Option V) :
    (d.write k v).get? l = if l = k then v else d.get? l := by
  cases v with
  | some v => exact get?_set d k l v
  | none => exact get?_erase d k l

theorem get?_foldl_write (es : List (K × Option V)) (hnd : (es.map Prod.fst).Nodup)
    (d : Dict K V) (k : K) :
    (es.foldl (fun acc e => acc.write e.1 e.2) d).get? k =
      (Assoc.lookup k es).getD (d.get? k) := by
  induction es generalizing d with
  | nil => rfl
  | cons e es ih =>
    rw [List.map_cons, List.nodup_cons] at hnd
    rw [List.foldl_cons, ih hnd.2, Assoc.lookup_cons, get?_write]
    by_cases h : e.1 = k
    · rw [(Assoc.lookup_eq_none_iff k es).mpr (h ▸ hnd.1), if_pos h, if_pos h.symm]
      rfl
    · rw [if_neg h, if_neg (Ne.symm h)]

/-- A pending write decides for its key; every other key is as it was. -/
theorem get?_overlay (d : Dict K V) (writes : Dict K (Option V)) (k : K) :
    (d.overlay writes).get? k = (writes.get? k).getD (d.get? k) :=
  get?_foldl_write writes.entries writes.nodup d k

theorem mem_overlay_of_get? {d : Dict K V} {writes : Dict K (Option V)} {k : K} {v : Option V}
    (h : writes.get? k = some v) : k ∈ d.overlay writes ↔ v.isSome = true := by
  rw [mem_def, get?_overlay, h, Option.getD_some]

theorem mem_overlay_of_notMem {d : Dict K V} {writes : Dict K (Option V)} {k : K}
    (h : k ∉ writes) : k ∈ d.overlay writes ↔ k ∈ d := by
  rw [mem_def, get?_overlay, notMem_iff.mp h, Option.getD_none, mem_def]

end Pending

end Dict

end TokenProxy
