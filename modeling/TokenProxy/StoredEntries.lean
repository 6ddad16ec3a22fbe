/-
  TokenProxy/StoredEntries.lean
  =============================
  **An entry that is written to a row and read back** (`_row_args` / `_row_to_meta`,
  `auth/pg_key_store.py`).

  A full load puts `tenant_id`, `tier` and `created_at` into every entry, reads a
  blank tier as `free`, and shows `admin` and `suspended` only where they are true;
  a large double comes back as the whole number that its digits say.  So an entry is
  read back as it was written when it is `Canonical`, and no other is
  (`rowToMeta_eq_iff`).
-/
import TokenProxy.PgKeyStore
import TokenProxy.PyEquality

namespace TokenProxy.PgKeyStore

open KeyStore
open Json (SameValue)
open SignificantDigits (shortest)

/-! ## 1. What `jsonb` makes of a value -/

mutual

/-- Every double that is written with an exponent is the number that its digits say. -/
def exactNumbers : Json → Bool
  | .float q => decide (|q| < exponentFrom) || decide (((shortest q).num : ℚ) = q)
  | .arr items => exactNumbersItems items
  | .obj fields => exactNumbersFields fields
  | _ => true

def exactNumbersItems : List Json → Bool
  | [] => true
  | v :: rest => exactNumbers v && exactNumbersItems rest

def exactNumbersFields : List (String × Json) → Bool
  | [] => true
  | (_, v) :: rest => exactNumbers v && exactNumbersFields rest

end

theorem exactNumbersItems_iff (items : List Json) :
    exactNumbersItems items = true ↔ ∀ v ∈ items, exactNumbers v = true := by
  induction items with
  | nil => simp [exactNumbersItems]
  | cons v rest ih => simp [exactNumbersItems, ih]

theorem exactNumbersFields_iff (fields : List (String × Json)) :
    exactNumbersFields fields = true ↔ ∀ e ∈ fields, exactNumbers e.2 = true := by
  induction fields with
  | nil => simp [exactNumbersFields]
  | cons e rest ih => simp [exactNumbersFields, ih]

theorem jsonbItems_eq (items : List Json) : jsonbItems items = items.map jsonb := by
  induction items with
  | nil => rfl
  | cons v rest ih => rw [jsonbItems, ih, List.map_cons]

theorem jsonbFields_eq (fields : List (String × Json)) :
    jsonbFields fields = fields.map fun e => (e.1, jsonb e.2) := by
  induction fields with
  | nil => rfl
  | cons e rest ih => rw [jsonbFields, ih, List.map_cons]

theorem lookup_jsonbFields (k : String) (fields : List (String × Json)) :
    Assoc.lookup k (jsonbFields fields) = (Assoc.lookup k fields).map jsonb := by
  induction fields with
  | nil => rfl
  | cons e rest ih =>
    rw [jsonbFields, Assoc.lookup_cons, Assoc.lookup_cons, ih]
    split <;> rfl

theorem keys_jsonbFields (fields : List (String × Json)) :
    (jsonbFields fields).map Prod.fst = fields.map Prod.fst := by
  rw [jsonbFields_eq, List.map_map]
  rfl

theorem pyEqItems_map_iff (g : Json → Json) (items : List Json) :
    Json.pyEqItems (items.map g) items = true ↔ ∀ v ∈ items, (g v).pyEq v = true := by
  induction items with
  | nil => simp [Json.pyEqItems]
  | cons v rest ih => simp [Json.pyEqItems, ih]

theorem distinctKeysItems_iff (items : List Json) :
    Json.distinctKeysItems items = true ↔ ∀ v ∈ items, v.distinctKeys = true := by
  induction items with
  | nil => simp [Json.distinctKeysItems]
  | cons v rest ih => simp [Json.distinctKeysItems, ih]

/-- **A value is read back as it was written exactly where its large doubles are the numbers that
their digits say.** -/
theorem jsonb_pyEq_iff (v : Json) (hdistinct : v.distinctKeys = true) :
    (jsonb v).pyEq v = true ↔ exactNumbers v = true := by
  match v with
  | .null => exact iff_of_true (Json.pyEq_self rfl) rfl
  | .bool _ => exact iff_of_true (Json.pyEq_self rfl) rfl
  | .int _ => exact iff_of_true (Json.pyEq_self rfl) rfl
  | .str _ => exact iff_of_true (Json.pyEq_self rfl) rfl
  | .float q =>
    rw [jsonb, exactNumbers]
    by_cases hlarge : exponentFrom ≤ |q|
    · rw [if_pos hlarge, decide_eq_false (not_lt.mpr hlarge)]
      simp [Json.pyEq, Json.dictKey?]
    · rw [if_neg hlarge, decide_eq_true (not_le.mp hlarge)]
      exact iff_of_true (Json.pyEq_self rfl) rfl
  | .arr items =>
    rw [Json.distinctKeys, distinctKeysItems_iff] at hdistinct
    have ih (x : Json) (hx : x ∈ items) : (jsonb x).pyEq x = true ↔ exactNumbers x = true :=
      jsonb_pyEq_iff x (hdistinct x hx)
    rw [jsonb, jsonbItems_eq, Json.pyEq, pyEqItems_map_iff, exactNumbers, exactNumbersItems_iff]
    exact forall₂_congr ih
  | .obj fields =>
    obtain ⟨hnodup, hvalues⟩ := (Json.distinctKeys_obj_iff fields).mp hdistinct
    have ih (e : String × Json) (he : e ∈ fields) :
        (jsonb e.2).pyEq e.2 = true ↔ exactNumbers e.2 = true := jsonb_pyEq_iff e.2 (hvalues e he)
    rw [jsonb, Json.pyEq_obj_iff ((keys_jsonbFields fields).symm ▸ hnodup) hnodup, exactNumbers,
      exactNumbersFields_iff]
    constructor
    · intro h e he
      have hsame := h e.1
      rw [lookup_jsonbFields, Assoc.lookup_of_mem hnodup he, Option.map_some,
        Json.sameValue_some_some] at hsame
      exact (ih e he).mp hsame
    · intro h k
      rw [lookup_jsonbFields]
      cases hk : Assoc.lookup k fields with
      | none => exact Json.sameValue_none_left.mpr rfl
      | some w =>
        have he := Assoc.mem_of_lookup hk
        exact Json.sameValue_some_some.mpr ((ih _ he).mpr (h _ he))
termination_by sizeOf v
decreasing_by
  · have hmem := List.sizeOf_lt_of_mem hx
    simp only [Json.arr.sizeOf_spec]
    omega
  · have hmem := List.sizeOf_lt_of_mem he
    obtain ⟨k, w⟩ := e
    simp only [Json.obj.sizeOf_spec, Prod.mk.sizeOf_spec] at hmem ⊢
    omega

/-- The double `1e23` comes back as the whole number, which is another. -/
example : exactNumbers (.obj [("tokens_per_month", .float 99999999999999991611392)]) = false := by
  decide +kernel

/-! ## 2. What a full load reads in a row -/

theorem lookup_foldl_setDefault (extra fields : List (String × Json))
    (hnodup : (fields.map Prod.fst).Nodup) : ∃ after,
    extra.foldl (fun acc field => acc.setDefault field.1 field.2) (Json.obj fields) = .obj after ∧
      (after.map Prod.fst).Nodup ∧
      ∀ k, Assoc.lookup k after = (Assoc.lookup k fields).or (Assoc.lookup k extra) := by
  induction extra generalizing fields with
  | nil => exact ⟨fields, rfl, hnodup, fun k => by simp⟩
  | cons e rest ih =>
    rw [List.foldl_cons, Json.setDefault, Json.get?]
    by_cases hold : (Assoc.lookup e.1 fields).isSome = true
    · rw [if_pos hold]
      obtain ⟨after, hafter, hnodup', hlookup⟩ := ih fields hnodup
      refine ⟨after, hafter, hnodup', fun k => ?_⟩
      rw [hlookup, Assoc.lookup_cons]
      by_cases hk : e.1 = k
      · subst hk
        obtain ⟨v, hv⟩ := Option.isSome_iff_exists.mp hold
        rw [hv, Option.some_or, Option.some_or]
      · rw [if_neg hk]
    · rw [if_neg hold, Json.set]
      obtain ⟨after, hafter, hnodup', hlookup⟩ :=
        ih (Assoc.insert e.1 e.2 fields) (Assoc.nodup_insert hnodup e.1 e.2)
      refine ⟨after, hafter, hnodup', fun k => ?_⟩
      rw [hlookup, Assoc.lookup_insert, Assoc.lookup_cons]
      by_cases hk : k = e.1
      · subst hk
        rw [Option.not_isSome_iff_eq_none] at hold
        rw [if_pos rfl, if_pos rfl, hold, Option.some_or, Option.none_or]
      · rw [if_neg hk, if_neg (Ne.symm hk)]

def extraOf (row : Row) : List (String × Json) := row.extra.fields?.getD []

def tierOf (row : Row) : String := if row.tier = "" then "free" else row.tier

def createdAtOf (row : Row) : Json := (row.createdAt.map Json.str).getD .null

/-- The columns as a full load shows them. -/
def columnsOf (row : Row) (k : String) : Option Json :=
  if k = "tenant_id" then some (.str row.tenantId)
  else if k = "tier" then some (.str (tierOf row))
  else if k = "created_at" then some (createdAtOf row)
  else if k = "admin" ∧ row.admin = true then some (.bool true)
  else if k = "suspended" ∧ row.suspended = true then some (.bool true)
  else none

theorem rowToMeta_spec (row : Row) : ∃ fields, rowToMeta row = .obj fields ∧
    (fields.map Prod.fst).Nodup ∧
    ∀ k, Assoc.lookup k fields = (columnsOf row k).or (Assoc.lookup k (extraOf row)) := by
  have hbase : ([("tenant_id", Json.str row.tenantId), ("tier", .str (tierOf row)),
      ("created_at", createdAtOf row)].map Prod.fst).Nodup := by
    simp
  -- the two flags, one after the other
  have hset : ∀ (flag : Bool) (name : String) (fields : List (String × Json)),
      (fields.map Prod.fst).Nodup → ∃ fields',
        (if flag then (Json.obj fields).set name (.bool true) else .obj fields) = .obj fields' ∧
        (fields'.map Prod.fst).Nodup ∧ ∀ k, Assoc.lookup k fields' =
          if k = name ∧ flag = true then some (.bool true) else Assoc.lookup k fields := by
    intro flag name fields hnodup
    cases flag with
    | false => exact ⟨fields, rfl, hnodup, fun k => by simp⟩
    | true =>
      refine ⟨_, rfl, Assoc.nodup_insert hnodup name _, fun k => ?_⟩
      rw [Assoc.lookup_insert]
      simp
  obtain ⟨admin, hadmin, hnodup₁, hlookup₁⟩ := hset row.admin "admin" _ hbase
  obtain ⟨both, hboth, hnodup₂, hlookup₂⟩ := hset row.suspended "suspended" admin hnodup₁
  obtain ⟨fields, hfields, hnodup₃, hlookup₃⟩ :=
    lookup_foldl_setDefault (extraOf row) both hnodup₂
  refine ⟨fields, ?_, hnodup₃, fun k => ?_⟩
  · rw [rowToMeta, ← tierOf, ← createdAtOf, hadmin, hboth]
    exact hfields
  · rw [hlookup₃, hlookup₂, hlookup₁]
    congr 1
    by_cases htenant : k = "tenant_id"
    · subst htenant
      simp [columnsOf, Assoc.lookup]
    · by_cases htier : k = "tier"
      · subst htier
        simp [columnsOf, Assoc.lookup]
      · by_cases hcreated : k = "created_at"
        · subst hcreated
          simp [columnsOf, Assoc.lookup]
        · by_cases hadmin : k = "admin"
          · subst hadmin
            simp [columnsOf, Assoc.lookup]
          · simp [columnsOf, Assoc.lookup, htenant, htier, hcreated, hadmin, Ne.symm htenant,
              Ne.symm htier, Ne.symm hcreated]

theorem get?_rowToMeta (row : Row) (k : String) :
    (rowToMeta row).get? k = (columnsOf row k).or (Assoc.lookup k (extraOf row)) := by
  obtain ⟨fields, hobj, -, hlookup⟩ := rowToMeta_spec row
  rw [hobj]
  exact hlookup k

/-! ## 3. What `_row_args` writes -/

/-- The columns and the extra fields of a row that a dict is written to. -/
structure WrittenFrom (fields : List (String × Json)) (row : Row) : Prop where
  tenant : (Assoc.lookup "tenant_id" fields).getD (.str "default") = .str row.tenantId
  tier : (Assoc.lookup "tier" fields).getD (.str "free") = .str row.tier
  createdAt : (Assoc.lookup "created_at" fields).getD .null = createdAtOf row
  admin : row.admin = ((Assoc.lookup "admin" fields).getD .null).truthy
  suspended : row.suspended = ((Assoc.lookup "suspended" fields).getD .null).truthy
  extra : extraOf row = jsonbFields (fields.filter fun field => field.1 ∉ coreFields)

theorem str?_eq_some {v : Json} {text : String} (h : v.str? = some text) : v = .str text := by
  cases v with
  | str s => rw [Option.some.inj h]
  | _ => cases h

theorem textOrNull_eq_some {v : Json} {text : Option String} (h : textOrNull v = some text) :
    v = (text.map Json.str).getD .null := by
  cases v with
  | null => rw [← Option.some.inj h]; rfl
  | str s => rw [← Option.some.inj h]; rfl
  | _ => cases h

variable {py : Builtins}

theorem writtenFrom_of_rowArgs {fields : List (String × Json)} {row : Row}
    (h : rowArgs py (.obj fields) = some row) : WrittenFrom fields row := by
  simp only [rowArgs, entryDict, Json.isObj, Json.fields?, Option.isSome_some, if_true,
    Option.bind_eq_bind, Option.bind_eq_some_iff, Option.pure_def, Option.some.injEq] at h
  obtain ⟨tenantId, htenant, tier, htier, createdAt, hcreated, rfl⟩ := h
  exact ⟨str?_eq_some htenant, str?_eq_some htier, textOrNull_eq_some hcreated, rfl, rfl, rfl⟩

theorem lookup_plain_fields {fields : List (String × Json)} (hnodup : (fields.map Prod.fst).Nodup)
    (k : String) : Assoc.lookup k (fields.filter fun field => field.1 ∉ coreFields) =
      if k ∈ coreFields then none else Assoc.lookup k fields := by
  have hget := Dict.get?_filter ⟨fields, hnodup⟩ (fun l _ => decide (l ∉ coreFields)) k
  change Assoc.lookup k (fields.filter fun field => field.1 ∉ coreFields) = _ at hget
  rw [hget]
  by_cases hk : k ∈ coreFields
  · rw [if_pos hk]
    simp [hk]
  · rw [if_neg hk, Dict.get?]
    cases Assoc.lookup k fields <;> simp [hk]

/-! ## 4. The entries that are read back as they were written -/

/-- The form that a full load gives an entry. -/
structure Canonical (entry : Json) : Prop where
  tenant : ∃ text, entry.get? "tenant_id" = some (.str text)
  tier : ∃ text, entry.get? "tier" = some (.str text) ∧ text ≠ ""
  createdAt : ∃ v, entry.get? "created_at" = some v
  admin : ∀ v, entry.get? "admin" = some v → (Json.bool true).pyEq v = true
  suspended : ∀ v, entry.get? "suspended" = some v → (Json.bool true).pyEq v = true
  numbers : ∀ k v, k ∉ coreFields → entry.get? k = some v → exactNumbers v = true

theorem pyEq_true_iff (v : Json) :
    (Json.bool true).pyEq v = true ↔ v.dictKey? = some (.number 1) := by
  cases v <;> simp [Json.pyEq, Json.dictKey?, eq_comm]

theorem truthy_of_pyEq_true {v : Json} (h : (Json.bool true).pyEq v = true) :
    v.truthy = true := by
  rw [pyEq_true_iff] at h
  cases v with
  | bool b => cases b <;> simp_all [Json.dictKey?, Json.truthy]
  | int n =>
    simp only [Json.dictKey?, Option.some.injEq, Json.DictKey.number.injEq] at h
    rw [Json.truthy, decide_eq_true_eq]
    rintro rfl
    simp at h
  | float q =>
    simp only [Json.dictKey?, Option.some.injEq, Json.DictKey.number.injEq] at h
    simp [Json.truthy, h]
  | _ => simp [Json.dictKey?] at h

/-- A flag that is shown where it is true. -/
theorem sameValue_flag {flag : Bool} {found : Option Json}
    (hflag : flag = (found.getD .null).truthy) :
    SameValue (if flag = true then some (.bool true) else none) found ↔
      ∀ v, found = some v → (Json.bool true).pyEq v = true := by
  subst hflag
  cases found with
  | none => simp [SameValue, Json.truthy]
  | some v =>
    rw [Option.getD_some]
    by_cases htruthy : v.truthy = true
    · rw [if_pos htruthy, Json.sameValue_some_some]
      simp
    · rw [if_neg htruthy, Json.sameValue_none_left]
      simp only [reduceCtorEq, Option.some.injEq, forall_eq', false_iff]
      exact fun h => htruthy (truthy_of_pyEq_true h)

theorem rowToMeta_eq_iff {entry : Json} {row : Row} (hkeys : entry.distinctKeys = true)
    (h : rowArgs py entry = some row) : (rowToMeta row).pyEq entry = true ↔ Canonical entry := by
  obtain ⟨shown, hshown, hnodup, hlookup⟩ := rowToMeta_spec row
  rw [hshown]
  cases entry with
  | obj fields =>
    have hw := writtenFrom_of_rowArgs h
    have hfields := (Json.distinctKeys_obj_iff fields).mp hkeys
    rw [Json.pyEq_obj_iff hnodup hfields.1]
    -- what is shown under each of the five names, and under any other
    have htenant : Assoc.lookup "tenant_id" shown = some (.str row.tenantId) := by
      simp [hlookup, columnsOf]
    have htier : Assoc.lookup "tier" shown = some (.str (tierOf row)) := by
      simp [hlookup, columnsOf]
    have hcreated : Assoc.lookup "created_at" shown = some (createdAtOf row) := by
      simp [hlookup, columnsOf]
    have hadmin : Assoc.lookup "admin" shown =
        if row.admin = true then some (.bool true) else none := by
      rw [hlookup, hw.extra, lookup_jsonbFields, lookup_plain_fields hfields.1]
      simp [columnsOf, coreFields]
    have hsuspended : Assoc.lookup "suspended" shown =
        if row.suspended = true then some (.bool true) else none := by
      rw [hlookup, hw.extra, lookup_jsonbFields, lookup_plain_fields hfields.1]
      simp [columnsOf, coreFields]
    have hother : ∀ k, k ∉ coreFields →
        Assoc.lookup k shown = (Assoc.lookup k fields).map jsonb := by
      intro k hk
      rw [hlookup, hw.extra, lookup_jsonbFields, lookup_plain_fields hfields.1, if_neg hk]
      simp only [coreFields, List.mem_cons, List.not_mem_nil, or_false, not_or] at hk
      simp [columnsOf, hk]
    constructor
    · intro hsame
      have hfound : ∀ k v, Assoc.lookup k shown = some v → ∃ w, Assoc.lookup k fields = some w ∧
          v.pyEq w = true := by
        intro k v hv
        have hk := hsame k
        rw [hv] at hk
        cases hw : Assoc.lookup k fields with
        | none =>
          rw [hw, Json.sameValue_none_right] at hk
          cases hk
        | some w =>
          rw [hw, Json.sameValue_some_some] at hk
          exact ⟨w, rfl, hk⟩
      refine ⟨?_, ?_, ?_, ?_, ?_, ?_⟩
      · obtain ⟨w, hw', -⟩ := hfound _ _ htenant
        have hvalue := hw.tenant
        rw [hw', Option.getD_some] at hvalue
        exact ⟨_, hvalue ▸ hw'⟩
      · obtain ⟨w, hw', heq⟩ := hfound _ _ htier
        have hvalue := hw.tier
        rw [hw', Option.getD_some] at hvalue
        refine ⟨_, hvalue ▸ hw', fun hblank => ?_⟩
        rw [hvalue, tierOf, if_pos hblank, hblank] at heq
        exact absurd heq (by simp [Json.pyEq, Json.dictKey?])
      · obtain ⟨w, hw', -⟩ := hfound _ _ hcreated
        exact ⟨w, hw'⟩
      · have hk := hsame "admin"
        rw [hadmin] at hk
        exact (sameValue_flag hw.admin).mp hk
      · have hk := hsame "suspended"
        rw [hsuspended] at hk
        exact (sameValue_flag hw.suspended).mp hk
      · intro k v hcore hv
        have hk := hsame k
        rw [hother k hcore, show Assoc.lookup k fields = some v from hv, Option.map_some,
          Json.sameValue_some_some] at hk
        exact (jsonb_pyEq_iff v (hfields.2 _ (Assoc.mem_of_lookup hv))).mp hk
    · intro hcanonical k
      by_cases hcore : k ∈ coreFields
      · simp only [coreFields, List.mem_cons, List.not_mem_nil, or_false] at hcore
        rcases hcore with rfl | rfl | rfl | rfl | rfl
        · obtain ⟨text, htext⟩ := hcanonical.tenant
          have hvalue := hw.tenant
          rw [Json.get?] at htext
          rw [htext, Option.getD_some] at hvalue
          rw [htenant, htext, Json.sameValue_some_some, hvalue]
          exact Json.pyEq_self rfl
        · obtain ⟨text, htext, hne⟩ := hcanonical.tier
          have hvalue := hw.tier
          rw [Json.get?] at htext
          rw [htext, Option.getD_some, Json.str.injEq] at hvalue
          subst hvalue
          rw [htier, htext, Json.sameValue_some_some, tierOf, if_neg hne]
          exact Json.pyEq_self rfl
        · rw [hadmin]
          exact (sameValue_flag hw.admin).mpr hcanonical.admin
        · rw [hsuspended]
          exact (sameValue_flag hw.suspended).mpr hcanonical.suspended
        · obtain ⟨v, hv⟩ := hcanonical.createdAt
          have hvalue := hw.createdAt
          rw [Json.get?] at hv
          rw [hv, Option.getD_some] at hvalue
          rw [hcreated, hv, Json.sameValue_some_some, ← hvalue]
          exact Json.pyEq_self (hfields.2 _ (Assoc.mem_of_lookup hv))
      · rw [hother k hcore]
        cases hk : Assoc.lookup k fields with
        | none => exact Json.sameValue_none_left.mpr rfl
        | some v =>
          rw [Option.map_some, Json.sameValue_some_some]
          exact (jsonb_pyEq_iff v (hfields.2 _ (Assoc.mem_of_lookup hk))).mpr
            (hcanonical.numbers k v hcore hk)
  | _ =>
    refine iff_of_false (by simp [Json.pyEq, Json.dictKey?]) fun hcanonical => ?_
    obtain ⟨text, htext⟩ := hcanonical.tenant
    cases htext

end TokenProxy.PgKeyStore
