/-
  TokenProxy/JsonCompaction.lean
  ==============================
  **Compacting JSON in a prompt** (`_compress`, `_compress_json`, `_remove_empty_fields`,
  `_dedupe_repeated_structures` and `_is_faithful_compaction` of `g19_headroom.py`).

  Fields that hold an empty list or object go; a list of objects most of which have one key
  set becomes `{"_schema_": keys, "_rows_": rows}`, a row for each object.  `expand` reads
  such a table as the list that it stands for.

  Main result: `lossless_iff`, the payloads that can be read back from what is put in the
  message in their place.
-/
import TokenProxy.ProseEnvelope
import Mathlib.Data.List.Sort

namespace TokenProxy.Headroom

abbrev Fields := List (String × Json)

/-! ## 1. Compaction -/

def isEmpty : Json → Bool
  | .arr [] => true
  | .obj [] => true
  | _ => false

mutual

/-- `_remove_empty_fields`. -/
def removeEmptyFields : Json → Json
  | .obj fields => .obj (removeEmptyIn fields)
  | .arr items => .arr (removeEmptyItems items)
  | other => other

def removeEmptyIn : Fields → Fields
  | [] => []
  | (k, v) :: rest =>
    if isEmpty v then removeEmptyIn rest else (k, removeEmptyFields v) :: removeEmptyIn rest

def removeEmptyItems : List Json → List Json
  | [] => []
  | v :: vs => removeEmptyFields v :: removeEmptyItems vs

end

/-- The keys of a dict, in order: equal for dicts with the same key set. -/
def keySet (fields : Fields) : List String :=
  (fields.map Prod.fst).insertionSort fun a b => a ≤ b

/-- The key set that more than half of a list of dicts have; `none` for any other list. -/
def sharedKeys (items : List Json) : Option (List String) :=
  if 2 ≤ items.length ∧ items.all Json.isObj then
    let sets := items.map fun item => keySet (item.fields?.getD [])
    sets.find? fun s => decide (items.length < 2 * sets.count s)
  else none

def schemaKey : String := "_schema_"

def rowsKey : String := "_rows_"

def table (keys : List String) (rows : List Json) : Fields :=
  [(schemaKey, .arr (keys.map .str)), (rowsKey, .arr rows)]

/-- `[item.get(k) for k in shared_keys]`. -/
def rowOf (keys : List String) (fields : Fields) : List Json :=
  keys.map fun k => (Assoc.lookup k fields).getD .null

mutual

/-- `_dedupe_repeated_structures`. -/
def dedupe : Json → Json
  | .obj fields => .obj (dedupeFields fields)
  | .arr items =>
    match sharedKeys items with
    | some keys => .obj (table keys (dedupeRows keys items))
    | none => .arr (dedupeItems items)
  | other => other

def dedupeFields : Fields → Fields
  | [] => []
  | (k, v) :: rest => (k, dedupe v) :: dedupeFields rest

def dedupeItems : List Json → List Json
  | [] => []
  | v :: vs => dedupe v :: dedupeItems vs

/-- A row for each dict; only lists of dicts have rows. -/
def dedupeRows (keys : List String) : List Json → List Json
  | [] => []
  | .obj fields :: rest => .arr (rowOf keys (dedupeFields fields)) :: dedupeRows keys rest
  | _ :: rest => dedupeRows keys rest

end

/-- The strategy for JSON. -/
structure Strategy extends TextStrategy where
  removeEmpty : Bool := true
  dedupeKeys : Bool := true

namespace Strategy

variable (st : Strategy)

/-- What is documented to go. -/
def kept (v : Json) : Json := if st.removeEmpty then removeEmptyFields v else v

def compact (v : Json) : Json := if st.dedupeKeys then dedupe (st.kept v) else st.kept v

end Strategy

/-- Where a payload is compacted. -/
structure Compactor where
  floats : JsonText.Floats
  strategy : Strategy
  /-- `_UNRESOLVABLE_REFERENCE` is found in a text -/
  hasReference : String → Bool

namespace Compactor

variable (c : Compactor)

def loads (text : String) : Option Json := JsonText.readValue c.floats text

def dumps (v : Json) : String := JsonText.writeValue c.floats JsonText.quoteAscii v

/-- `_compress_json`. -/
def compressJson (text : String) : Option String :=
  (c.loads text).map fun data => c.dumps (c.strategy.compact data)

/-- `_is_faithful_compaction`. -/
def isFaithful (before after : String) : Bool :=
  ((c.loads before).isNone || (c.loads after).isSome) && !c.hasReference after

/-- `_compress_prose_envelope`. -/
def compressProseEnvelope (text : String) : Option String :=
  (c.loads text).bind fun data =>
    let leaf := largestStringLeaf data
    if dominates leaf text then
      match compressText c.strategy.toTextStrategy leaf with
      | some compressed =>
        if compressed = "" ∨ leaf.length ≤ compressed.length then some text
        else some (c.dumps (swapLeaf leaf compressed data))
      | none => some text
    else none

/-- `_compress`, of a JSON payload. -/
def compress (text : String) : Option String :=
  match c.compressProseEnvelope text with
  | some enveloped => some enveloped
  | none => (c.compressJson text).filter (c.isFaithful text)

/-- What stands in the message for a JSON payload. -/
def put (text : String) : String :=
  match c.compress text with
  | some after => if after.length < text.length then after else text
  | none => text

end Compactor

/-! ## 2. Reading it back -/

def schemaOf (fields : Fields) : Option (List String) :=
  ((Assoc.lookup schemaKey fields).bind Json.items?).bind fun keys => keys.mapM Json.str?

def rowsOf (fields : Fields) : Option (List (List Json)) :=
  ((Assoc.lookup rowsKey fields).bind Json.items?).bind fun rows => rows.mapM Json.items?

/-- A dict in the form of a table. -/
def isTable (fields : Fields) : Bool :=
  decide (fields.map Prod.fst = [schemaKey, rowsKey]) &&
    match schemaOf fields, rowsOf fields with
    | some keys, some rows => rows.all fun row => decide (row.length = keys.length)
    | _, _ => false

/-- The objects whose rows a table holds. -/
def objectsOf (fields : Fields) : Json :=
  match schemaOf fields, rowsOf fields with
  | some keys, some rows => .arr (rows.map fun row => .obj (keys.zip row))
  | _, _ => .obj fields

mutual

/-- A value with its tables read as the lists that they stand for. -/
def expand : Json → Json
  | .obj fields =>
    if isTable fields then objectsOf (expandFields fields) else .obj (expandFields fields)
  | .arr items => .arr (expandItems items)
  | other => other

def expandFields : Fields → Fields
  | [] => []
  | (k, v) :: rest => (k, expand v) :: expandFields rest

def expandItems : List Json → List Json
  | [] => []
  | v :: vs => expand v :: expandItems vs

end

def isLeaf : Json → Bool
  | .arr _ => false
  | .obj _ => false
  | _ => true

/-- The same value, whatever the order of the keys. -/
inductive Alike : Json → Json → Prop
  | leaf {v : Json} (h : isLeaf v = true) : Alike v v
  | arr {xs ys : List Json} (hlength : xs.length = ys.length)
      (hitems : ∀ (i : Nat) (x y : Json), xs[i]? = some x → ys[i]? = some y → Alike x y) :
      Alike (.arr xs) (.arr ys)
  | obj {fs gs : Fields}
      (hkeys : ∀ k, (Assoc.lookup k fs).isSome = (Assoc.lookup k gs).isSome)
      (hfields : ∀ (k : String) (x y : Json),
        Assoc.lookup k fs = some x → Assoc.lookup k gs = some y → Alike x y) :
      Alike (.obj fs) (.obj gs)

/-- A dict that is left in the form of a table: it has that form, and none of its rows is a
list that becomes a table itself. -/
def readsAsTable (fields : Fields) : Bool :=
  isTable fields && (rowsOf fields).all fun rows => rows.all fun row => (sharedKeys row).isNone

/-- No dict of the value looks like a table, and the dicts of a list that becomes one have all
the key set that most of them have. -/
inductive Uniform : Json → Prop
  | leaf {v : Json} (h : isLeaf v = true) : Uniform v
  | obj {fields : Fields} (htable : readsAsTable fields = false)
      (hfields : ∀ (k : String) (x : Json), Assoc.lookup k fields = some x → Uniform x) :
      Uniform (.obj fields)
  | list {items : List Json} (hkeys : sharedKeys items = none)
      (hitems : ∀ x ∈ items, Uniform x) : Uniform (.arr items)
  | rows {items : List Json} {keys : List String} (hkeys : sharedKeys items = some keys)
      (hsame : ∀ fields, .obj fields ∈ items → ∀ k, k ∈ keys ↔ k ∈ fields.map Prod.fst)
      (hfields : ∀ fields, .obj fields ∈ items → ∀ (k : String) (x : Json),
        Assoc.lookup k fields = some x → Uniform x) : Uniform (.arr items)

/-! ## 3. What compaction and reading do to the parts of a value -/

theorem dedupeItems_eq (items : List Json) : dedupeItems items = items.map dedupe := by
  induction items with
  | nil => rfl
  | cons v vs ih => rw [dedupeItems, ih, List.map_cons]

theorem expandItems_eq (items : List Json) : expandItems items = items.map expand := by
  induction items with
  | nil => rfl
  | cons v vs ih => rw [expandItems, ih, List.map_cons]

theorem dedupeFields_eq (fields : Fields) :
    dedupeFields fields = fields.map fun f => (f.1, dedupe f.2) := by
  induction fields with
  | nil => rfl
  | cons f rest ih => rw [dedupeFields, ih, List.map_cons]

theorem expandFields_eq (fields : Fields) :
    expandFields fields = fields.map fun f => (f.1, expand f.2) := by
  induction fields with
  | nil => rfl
  | cons f rest ih => rw [expandFields, ih, List.map_cons]

theorem lookup_mapValues (g : Json → Json) (k : String) (fields : Fields) :
    Assoc.lookup k (fields.map fun f => (f.1, g f.2)) = (Assoc.lookup k fields).map g := by
  induction fields with
  | nil => rfl
  | cons f rest ih =>
    rw [List.map_cons, Assoc.lookup_cons, Assoc.lookup_cons, ih]
    split <;> rfl

theorem lookup_dedupeFields (k : String) (fields : Fields) :
    Assoc.lookup k (dedupeFields fields) = (Assoc.lookup k fields).map dedupe := by
  rw [dedupeFields_eq, lookup_mapValues]

theorem lookup_expandFields (k : String) (fields : Fields) :
    Assoc.lookup k (expandFields fields) = (Assoc.lookup k fields).map expand := by
  rw [expandFields_eq, lookup_mapValues]

/-- Only a list of at least two dicts shares keys. -/
theorem dicts_of_sharedKeys {items : List Json} {keys : List String}
    (h : sharedKeys items = some keys) :
    2 ≤ items.length ∧ ∀ item ∈ items, ∃ fields, item = .obj fields := by
  rw [sharedKeys] at h
  split at h
  · next hboth =>
    refine ⟨hboth.1, ?_⟩
    intro item hitem
    have hobj := List.all_eq_true.mp hboth.2 item hitem
    cases item with
    | obj fields => exact ⟨fields, rfl⟩
    | _ => cases hobj
  · cases h

theorem dedupeRows_eq {items : List Json} (keys : List String)
    (h : ∀ item ∈ items, ∃ fields, item = .obj fields) :
    dedupeRows keys items = items.map fun item =>
      .arr (rowOf keys (dedupeFields (item.fields?.getD []))) := by
  induction items with
  | nil => rfl
  | cons item rest ih =>
    obtain ⟨fields, rfl⟩ := h item List.mem_cons_self
    rw [dedupeRows, ih fun i hi => h i (List.mem_cons_of_mem _ hi), List.map_cons]
    rfl

theorem mapM_str (keys : List String) : keys.mapM (Json.str? ∘ Json.str) = some keys := by
  induction keys with
  | nil => rfl
  | cons k keys ih => simp [ih, Json.str?]

theorem mapM_arr (rows : List (List Json)) :
    rows.mapM (Json.items? ∘ Json.arr) = some rows := by
  induction rows with
  | nil => rfl
  | cons row rows ih => simp [ih, Json.items?]

theorem schemaOf_table (keys : List String) (rows : List Json) :
    schemaOf (table keys rows) = some keys := by
  simp [schemaOf, table, Assoc.lookup, Json.items?, mapM_str]

theorem rowsOf_table (keys : List String) (rows : List (List Json)) :
    rowsOf (table keys (rows.map .arr)) = some rows := by
  simp [rowsOf, table, Assoc.lookup, Json.items?, mapM_arr, schemaKey, rowsKey]

theorem expandFields_table (keys : List String) (rows : List Json) :
    expandFields (table keys rows) = table keys (rows.map expand) := by
  have hkeys : (keys.map Json.str).map expand = keys.map Json.str := by
    rw [List.map_map]
    rfl
  simp [expandFields_eq, table, expand, expandItems_eq, hkeys]

/-- A table that compaction makes is read as an object for each of its rows. -/
theorem expand_dedupe_rows {items : List Json} {keys : List String}
    (h : sharedKeys items = some keys) : expand (dedupe (.arr items)) =
      .arr (items.map fun item => .obj (keys.zip
        ((rowOf keys (dedupeFields (item.fields?.getD []))).map expand))) := by
  have hrows : dedupeRows keys items =
      (items.map fun item => rowOf keys (dedupeFields (item.fields?.getD []))).map .arr := by
    rw [dedupeRows_eq keys (dicts_of_sharedKeys h).2, List.map_map]
    rfl
  have htable : isTable (table keys (dedupeRows keys items)) = true := by
    rw [isTable, schemaOf_table, hrows, rowsOf_table]
    simp [table, rowOf]
  have hexpanded : (dedupeRows keys items).map expand =
      (items.map fun item =>
        (rowOf keys (dedupeFields (item.fields?.getD []))).map expand).map .arr := by
    rw [hrows, List.map_map, List.map_map, List.map_map]
    congr 1
    funext item
    exact congrArg Json.arr (expandItems_eq _)
  rw [dedupe, h]
  dsimp only
  rw [expand, if_pos htable, expandFields_table, hexpanded, objectsOf, schemaOf_table,
    rowsOf_table]
  dsimp only
  rw [List.map_map]
  rfl

theorem lookup_zip_map (f : String → Json) (k : String) (keys : List String) :
    Assoc.lookup k (keys.zip (keys.map f)) = if k ∈ keys then some (f k) else none := by
  induction keys with
  | nil => rfl
  | cons l keys ih =>
    rw [List.map_cons, List.zip_cons_cons, Assoc.lookup_cons, ih]
    by_cases hl : l = k
    · simp [hl]
    · simp [hl, Ne.symm hl]

theorem lookup_row (keys : List String) (fields : Fields) (k : String) :
    Assoc.lookup k (keys.zip ((rowOf keys (dedupeFields fields)).map expand)) =
      if k ∈ keys then some (expand (dedupe ((Assoc.lookup k fields).getD .null))) else none := by
  have hrow : (rowOf keys (dedupeFields fields)).map expand =
      keys.map fun k => expand (dedupe ((Assoc.lookup k fields).getD .null)) := by
    rw [rowOf, List.map_map]
    congr 1
    funext k
    rw [Function.comp_apply, lookup_dedupeFields]
    cases Assoc.lookup k fields with
    | none => rfl
    | some v => rfl
  rw [hrow, lookup_zip_map]

/-! ## 4. Dicts that look like tables -/

theorem str?_dedupe (v : Json) : (dedupe v).str? = v.str? := by
  cases v with
  | arr items =>
    rw [dedupe]
    split <;> rfl
  | _ => rfl

theorem str?_comp_dedupe : Json.str? ∘ dedupe = Json.str? := funext str?_dedupe

/-- The items of what a value becomes: none, where it becomes a table. -/
theorem items?_dedupe (v : Json) : (dedupe v).items? =
    v.items?.bind fun items => if (sharedKeys items).isNone then some (items.map dedupe) else none := by
  cases v with
  | arr items =>
    rw [dedupe]
    cases h : sharedKeys items with
    | none => simp [Json.items?, h, dedupeItems_eq]
    | some keys => simp [Json.items?, h]
  | _ => rfl

theorem mapM_items?_dedupe (rows : List Json) : rows.mapM (Json.items? ∘ dedupe) =
    (rows.mapM Json.items?).bind fun rows =>
      if rows.all fun row => (sharedKeys row).isNone then some (rows.map (List.map dedupe))
      else none := by
  induction rows with
  | nil => rfl
  | cons row rows ih =>
    rw [List.mapM_cons, List.mapM_cons, Function.comp_apply, items?_dedupe, ih]
    cases row.items? with
    | none => rfl
    | some row =>
      cases rows.mapM Json.items? with
      | none => cases hrow : sharedKeys row <;> simp [hrow]
      | some rows =>
        cases hrow : sharedKeys row with
        | some keys => simp [hrow]
        | none =>
          simp only [Option.bind_some, hrow, Option.isNone_none, if_true, List.all_cons,
            Bool.true_and, List.map_cons, Option.bind_eq_bind, Option.pure_def]
          split <;> rfl

/-- A list that shares keys is no list of strings and no list of lists. -/
theorem not_mapM_of_sharedKeys {items : List Json} {keys : List String} {α : Type}
    (h : sharedKeys items = some keys) (read : Json → Option α)
    (hread : ∀ fields, read (.obj fields) = none) : items.mapM read = none := by
  obtain ⟨hlength, hobj⟩ := dicts_of_sharedKeys h
  cases items with
  | nil => simp at hlength
  | cons item rest =>
    obtain ⟨fields, rfl⟩ := hobj item List.mem_cons_self
    rw [List.mapM_cons, hread]
    rfl

theorem schemaOf_dedupeFields (fields : Fields) :
    schemaOf (dedupeFields fields) = schemaOf fields := by
  rw [schemaOf, schemaOf, lookup_dedupeFields]
  cases Assoc.lookup schemaKey fields with
  | none => rfl
  | some v =>
    simp only [Option.map_some, Option.bind_some, items?_dedupe]
    cases v.items? with
    | none => rfl
    | some items =>
      cases h : sharedKeys items with
      | none => simp [h, str?_comp_dedupe]
      | some keys => simp [h, not_mapM_of_sharedKeys h Json.str? fun _ => rfl]

theorem rowsOf_dedupeFields (fields : Fields) : rowsOf (dedupeFields fields) =
    (rowsOf fields).bind fun rows =>
      if rows.all fun row => (sharedKeys row).isNone then some (rows.map (List.map dedupe))
      else none := by
  rw [rowsOf, rowsOf, lookup_dedupeFields]
  cases Assoc.lookup rowsKey fields with
  | none => rfl
  | some v =>
    simp only [Option.map_some, Option.bind_some, items?_dedupe]
    cases v.items? with
    | none => rfl
    | some items =>
      cases h : sharedKeys items with
      | none => simp [h, mapM_items?_dedupe]
      | some keys => simp [h, not_mapM_of_sharedKeys h Json.items? fun _ => rfl]

/-- What is left in the form of a table is what had that form and kept its rows. -/
theorem isTable_dedupeFields (fields : Fields) :
    isTable (dedupeFields fields) = readsAsTable fields := by
  have hkeys : (dedupeFields fields).map Prod.fst = fields.map Prod.fst := by
    rw [dedupeFields_eq, List.map_map]
    rfl
  rw [isTable, readsAsTable, isTable, hkeys, schemaOf_dedupeFields, rowsOf_dedupeFields]
  cases schemaOf fields with
  | none => simp
  | some keys =>
    cases rowsOf fields with
    | none => simp
    | some rows =>
      rw [Option.bind_some, Option.all_some]
      cases rows.all fun row => (sharedKeys row).isNone with
      | false => simp
      | true => simp [Function.comp_def]

/-! ## 5. Values that read back -/

theorem alike_arr_iff {xs ys : List Json} : Alike (.arr xs) (.arr ys) ↔
    xs.length = ys.length ∧
      ∀ (i : Nat) (x y : Json), xs[i]? = some x → ys[i]? = some y → Alike x y := by
  constructor
  · intro h
    cases h with
    | leaf h => cases h
    | arr hlength hitems => exact ⟨hlength, hitems⟩
  · rintro ⟨hlength, hitems⟩
    exact .arr hlength hitems

theorem alike_arr_map_iff {items : List Json} (g : Json → Json) :
    Alike (.arr (items.map g)) (.arr items) ↔ ∀ x ∈ items, Alike (g x) x := by
  rw [alike_arr_iff]
  constructor
  · rintro ⟨-, hitems⟩ x hx
    obtain ⟨i, hi⟩ := List.getElem?_of_mem hx
    apply hitems i (g x) x ?_ hi
    rw [List.getElem?_map, hi]
    rfl
  · intro h
    refine ⟨List.length_map _, ?_⟩
    intro i x y hx hy
    rw [List.getElem?_map, hy] at hx
    obtain rfl := Option.some.inj hx
    exact h y (List.mem_of_getElem? hy)

theorem alike_obj_iff {fs gs : Fields} : Alike (.obj fs) (.obj gs) ↔
    (∀ k, (Assoc.lookup k fs).isSome = (Assoc.lookup k gs).isSome) ∧
      ∀ (k : String) (x y : Json), Assoc.lookup k fs = some x → Assoc.lookup k gs = some y →
        Alike x y := by
  constructor
  · intro h
    cases h with
    | leaf h => cases h
    | obj hkeys hfields => exact ⟨hkeys, hfields⟩
  · rintro ⟨hkeys, hfields⟩
    exact .obj hkeys hfields

theorem not_alike_arr_obj {items : List Json} {fields : Fields} :
    ¬ Alike (.arr items) (.obj fields) := by
  intro h
  cases h

theorem mapM_map_of_some {α : Type} {read : Json → Option α} {g : Json → Json} {h : α → α}
    (hread : ∀ v a, read v = some a → read (g v) = some (h a)) {items : List Json} {as : List α}
    (hall : items.mapM read = some as) : items.mapM (read ∘ g) = some (as.map h) := by
  induction items generalizing as with
  | nil =>
    cases hall
    rfl
  | cons v vs ih =>
    rw [List.mapM_cons] at hall
    obtain ⟨a, ha, hall⟩ := Option.bind_eq_some_iff.mp hall
    obtain ⟨rest, hrest, heq⟩ := Option.bind_eq_some_iff.mp hall
    cases heq
    rw [List.mapM_cons, Function.comp_apply, hread v a ha, ih hrest]
    rfl

theorem objectsOf_isArr {fields : Fields} (h : isTable fields = true) :
    ∃ items, objectsOf (expandFields fields) = .arr items := by
  rw [isTable, Bool.and_eq_true] at h
  replace h := h.2
  split at h
  · next keys rows hkeys hrows =>
    have hschema : schemaOf (expandFields fields) = some keys := by
      rw [schemaOf] at hkeys ⊢
      rw [lookup_expandFields]
      obtain ⟨items, hitems, hstrs⟩ := Option.bind_eq_some_iff.mp hkeys
      obtain ⟨v, hv, hitems⟩ := Option.bind_eq_some_iff.mp hitems
      cases v with
      | arr vs =>
        obtain rfl := Option.some.inj hitems
        have hexpanded := mapM_map_of_some (g := expand) (h := id) (by
          intro v k hv
          cases v with
          | str s => exact hv
          | _ => cases hv) hstrs
        simpa [hv, expand, expandItems_eq, Json.items?] using hexpanded
      | _ => cases hitems
    have hrowsOf : rowsOf (expandFields fields) = some (rows.map (List.map expand)) := by
      rw [rowsOf] at hrows ⊢
      rw [lookup_expandFields]
      obtain ⟨items, hitems, harrs⟩ := Option.bind_eq_some_iff.mp hrows
      obtain ⟨v, hv, hitems⟩ := Option.bind_eq_some_iff.mp hitems
      cases v with
      | arr vs =>
        obtain rfl := Option.some.inj hitems
        have hexpanded := mapM_map_of_some (g := expand) (h := List.map expand) (by
          intro v row hv
          cases v with
          | arr items =>
            obtain rfl := Option.some.inj hv
            rw [expand, expandItems_eq, Json.items?]
          | _ => cases hv) harrs
        simpa [hv, expand, expandItems_eq, Json.items?] using hexpanded
      | _ => cases hitems
    rw [objectsOf, hschema, hrowsOf]
    exact ⟨_, rfl⟩
  · cases h

theorem sizeOf_lookup {k : String} {x : Json} {fields : Fields}
    (h : Assoc.lookup k fields = some x) : sizeOf x < sizeOf (Json.obj fields) := by
  have hmem := List.sizeOf_lt_of_mem (Assoc.mem_of_lookup h)
  simp only [Json.obj.sizeOf_spec, Prod.mk.sizeOf_spec] at hmem ⊢
  omega

theorem sizeOf_item {x : Json} {items : List Json} (h : x ∈ items) :
    sizeOf x < sizeOf (Json.arr items) := by
  have hmem := List.sizeOf_lt_of_mem h
  simp only [Json.arr.sizeOf_spec]
  omega

theorem lookup_read (k : String) (fields : Fields) :
    Assoc.lookup k (expandFields (dedupeFields fields)) =
      (Assoc.lookup k fields).map fun x => expand (dedupe x) := by
  rw [lookup_expandFields, lookup_dedupeFields, Option.map_map]
  rfl

/-- The fields of a dict read back where each of its values does. -/
theorem alike_fields_iff {fields : Fields} : Alike (.obj (expandFields (dedupeFields fields)))
    (.obj fields) ↔ ∀ (k : String) (x : Json), Assoc.lookup k fields = some x →
      Alike (expand (dedupe x)) x := by
  rw [alike_obj_iff]
  constructor
  · rintro ⟨-, hfields⟩ k x hx
    apply hfields k _ x ?_ hx
    rw [lookup_read, hx]
    rfl
  · intro h
    refine ⟨?_, ?_⟩
    · intro k
      rw [lookup_read, Option.isSome_map]
    · intro k x y hx hy
      rw [lookup_read, hy] at hx
      obtain rfl := Option.some.inj hx
      exact h k y hy

/-- A row reads back as its dict where the dict has the table's keys and each value reads back. -/
theorem alike_row_iff {keys : List String} {fields : Fields} :
    Alike (.obj (keys.zip ((rowOf keys (dedupeFields fields)).map expand))) (.obj fields) ↔
      (∀ k, k ∈ keys ↔ k ∈ fields.map Prod.fst) ∧
        ∀ (k : String) (x : Json), Assoc.lookup k fields = some x →
          Alike (expand (dedupe x)) x := by
  rw [alike_obj_iff]
  have hkeys : (∀ k, (Assoc.lookup k (keys.zip
      ((rowOf keys (dedupeFields fields)).map expand))).isSome =
        (Assoc.lookup k fields).isSome) ↔ ∀ k, k ∈ keys ↔ k ∈ fields.map Prod.fst := by
    refine forall_congr' fun k => ?_
    rw [← Assoc.isSome_lookup_iff, lookup_row, Bool.eq_iff_iff]
    by_cases hk : k ∈ keys <;> simp [hk]
  rw [hkeys]
  refine and_congr_right fun hsame => ?_
  constructor
  · intro h k x hx
    apply h k _ x ?_ hx
    have hk : k ∈ keys := (hsame k).mpr ((Assoc.isSome_lookup_iff k fields).mp (by simp [hx]))
    rw [lookup_row, if_pos hk, hx]
    rfl
  · intro h k x y hx hy
    have hk : k ∈ keys := (hsame k).mpr ((Assoc.isSome_lookup_iff k fields).mp (by simp [hy]))
    rw [lookup_row, if_pos hk, hy] at hx
    obtain rfl := Option.some.inj hx
    exact h k y hy

/-- **A value reads back exactly where it is uniform.** -/
theorem alike_expand_dedupe_iff (v : Json) : Alike (expand (dedupe v)) v ↔ Uniform v := by
  match v with
  | .null => exact ⟨fun _ => .leaf rfl, fun _ => .leaf rfl⟩
  | .bool _ => exact ⟨fun _ => .leaf rfl, fun _ => .leaf rfl⟩
  | .int _ => exact ⟨fun _ => .leaf rfl, fun _ => .leaf rfl⟩
  | .float _ => exact ⟨fun _ => .leaf rfl, fun _ => .leaf rfl⟩
  | .str _ => exact ⟨fun _ => .leaf rfl, fun _ => .leaf rfl⟩
  | .obj fields =>
    have ih (k : String) (x : Json) (hx : Assoc.lookup k fields = some x) :
        Alike (expand (dedupe x)) x ↔ Uniform x := alike_expand_dedupe_iff x
    rw [dedupe, expand, isTable_dedupeFields]
    split
    · next htable =>
      obtain ⟨items, hitems⟩ := objectsOf_isArr ((isTable_dedupeFields fields).trans htable)
      rw [hitems]
      refine ⟨fun h => absurd h not_alike_arr_obj, ?_⟩
      intro h
      cases h with
      | leaf h => cases h
      | obj hno => rw [htable] at hno; cases hno
    · next htable =>
      rw [alike_fields_iff]
      constructor
      · intro h
        exact .obj (Bool.eq_false_iff.mpr htable) fun k x hx => (ih k x hx).mp (h k x hx)
      · intro h k x hx
        cases h with
        | leaf h => cases h
        | obj _ hfields => exact (ih k x hx).mpr (hfields k x hx)
  | .arr items =>
    cases hshared : sharedKeys items with
    | none =>
      have ih (x : Json) (hx : x ∈ items) : Alike (expand (dedupe x)) x ↔ Uniform x :=
        alike_expand_dedupe_iff x
      rw [dedupe, hshared]
      dsimp only
      rw [expand, expandItems_eq, dedupeItems_eq, List.map_map, alike_arr_map_iff]
      constructor
      · intro h
        exact .list hshared fun x hx => (ih x hx).mp (h x hx)
      · intro h x hx
        cases h with
        | leaf h => cases h
        | list _ hitems => exact (ih x hx).mpr (hitems x hx)
        | rows hkeys => rw [hshared] at hkeys; cases hkeys
    | some keys =>
      have ih (fields : Fields) (hitem : .obj fields ∈ items) (k : String) (x : Json)
          (hx : Assoc.lookup k fields = some x) : Alike (expand (dedupe x)) x ↔ Uniform x :=
        alike_expand_dedupe_iff x
      have hdicts := (dicts_of_sharedKeys hshared).2
      rw [expand_dedupe_rows hshared, alike_arr_map_iff]
      constructor
      · intro h
        refine .rows hshared ?_ ?_
        · intro fields hitem
          exact (alike_row_iff.mp (h _ hitem)).1
        · intro fields hitem k x hx
          exact (ih fields hitem k x hx).mp ((alike_row_iff.mp (h _ hitem)).2 k x hx)
      · intro h item hitem
        obtain ⟨fields, rfl⟩ := hdicts item hitem
        cases h with
        | leaf h => cases h
        | list hkeys => rw [hshared] at hkeys; cases hkeys
        | rows hkeys hsame hfields =>
          obtain rfl := Option.some.inj (hshared.symm.trans hkeys)
          refine alike_row_iff.mpr ⟨hsame fields hitem, ?_⟩
          intro k x hx
          exact (ih fields hitem k x hx).mpr (hfields fields hitem k x hx)
termination_by sizeOf v
decreasing_by
  · exact sizeOf_lookup hx
  · exact sizeOf_item hx
  · exact (sizeOf_lookup hx).trans (sizeOf_item hitem)

theorem Alike.refl (v : Json) : Alike v v := by
  match v with
  | .null => exact .leaf rfl
  | .bool _ => exact .leaf rfl
  | .int _ => exact .leaf rfl
  | .float _ => exact .leaf rfl
  | .str _ => exact .leaf rfl
  | .obj fields =>
    refine .obj (fun _ => rfl) ?_
    intro k x y hx hy
    obtain rfl := Option.some.inj (hx.symm.trans hy)
    exact Alike.refl x
  | .arr items =>
    refine .arr rfl ?_
    intro i x y hx hy
    obtain rfl := Option.some.inj (hx.symm.trans hy)
    exact Alike.refl x
termination_by sizeOf v
decreasing_by
  · exact sizeOf_lookup hx
  · exact sizeOf_item (List.mem_of_getElem? hx)

/-! ## 6. What compaction writes can be parsed -/

section Readable

variable {floats : JsonText.Floats}

open JsonText

theorem readableItems_iff {items : List Json} :
    ReadableItems floats items ↔ ∀ v ∈ items, Readable floats v := by
  induction items with
  | nil => simp [ReadableItems]
  | cons v vs ih => rw [ReadableItems, ih, List.forall_mem_cons]

theorem readableFields_iff {fields : Fields} :
    ReadableFields floats fields ↔ ∀ f ∈ fields, Readable floats f.2 := by
  induction fields with
  | nil => simp [ReadableFields]
  | cons f rest ih => rw [ReadableFields, ih, List.forall_mem_cons]

theorem keys_removeEmptyIn (fields : Fields) :
    ((removeEmptyIn fields).map Prod.fst).Sublist (fields.map Prod.fst) := by
  induction fields with
  | nil => exact List.Sublist.refl []
  | cons f rest ih =>
    rw [removeEmptyIn]
    split
    · exact ih.cons f.1
    · exact ih.cons_cons f.1

mutual

theorem readable_removeEmptyFields : ∀ {v : Json}, Readable floats v →
    Readable floats (removeEmptyFields v)
  | .null, _ => trivial
  | .bool _, _ => trivial
  | .int _, _ => trivial
  | .float _, h => h
  | .str _, _ => trivial
  | .arr _, h => readableItems_removeEmpty h
  | .obj fields, h =>
    ⟨List.Nodup.sublist (keys_removeEmptyIn fields) h.1, readableFields_removeEmpty h.2⟩

theorem readableItems_removeEmpty : ∀ {items : List Json}, ReadableItems floats items →
    ReadableItems floats (removeEmptyItems items)
  | [], _ => trivial
  | _ :: _, h => ⟨readable_removeEmptyFields h.1, readableItems_removeEmpty h.2⟩

theorem readableFields_removeEmpty : ∀ {fields : Fields}, ReadableFields floats fields →
    ReadableFields floats (removeEmptyIn fields)
  | [], _ => trivial
  | (_, v) :: rest, h => by
    rw [removeEmptyIn]
    split
    · exact readableFields_removeEmpty h.2
    · exact ⟨readable_removeEmptyFields h.1, readableFields_removeEmpty h.2⟩

end

theorem readable_rowOf {fields : Fields} (keys : List String)
    (h : ReadableFields floats fields) : Readable floats (.arr (rowOf keys fields)) := by
  rw [Readable, readableItems_iff]
  intro v hv
  obtain ⟨k, -, rfl⟩ := List.mem_map.mp hv
  cases hk : Assoc.lookup k fields with
  | none => trivial
  | some x => exact readableFields_iff.mp h _ (Assoc.mem_of_lookup hk)

theorem readable_table {keys : List String} {rows : List Json}
    (h : ReadableItems floats rows) : Readable floats (.obj (table keys rows)) := by
  refine ⟨by simp [table, schemaKey, rowsKey], ?_, h, trivial⟩
  rw [Readable, readableItems_iff]
  intro v hv
  obtain ⟨k, -, rfl⟩ := List.mem_map.mp hv
  trivial

mutual

theorem readable_dedupe : ∀ {v : Json}, Readable floats v → Readable floats (dedupe v)
  | .null, _ => trivial
  | .bool _, _ => trivial
  | .int _, _ => trivial
  | .float _, h => h
  | .str _, _ => trivial
  | .arr items, h => by
    rw [dedupe]
    split
    · exact readable_table (readableItems_dedupeRows _ h)
    · exact readableItems_dedupe h
  | .obj fields, h => by
    refine ⟨?_, readableFields_dedupe h.2⟩
    rw [dedupeFields_eq, List.map_map]
    exact h.1

theorem readableItems_dedupe : ∀ {items : List Json}, ReadableItems floats items →
    ReadableItems floats (dedupeItems items)
  | [], _ => trivial
  | _ :: _, h => ⟨readable_dedupe h.1, readableItems_dedupe h.2⟩

theorem readableFields_dedupe : ∀ {fields : Fields}, ReadableFields floats fields →
    ReadableFields floats (dedupeFields fields)
  | [], _ => trivial
  | _ :: _, h => ⟨readable_dedupe h.1, readableFields_dedupe h.2⟩

theorem readableItems_dedupeRows (keys : List String) : ∀ {items : List Json},
    ReadableItems floats items → ReadableItems floats (dedupeRows keys items)
  | [], _ => trivial
  | item :: rest, h => by
    have hrest : ReadableItems floats (dedupeRows keys rest) := readableItems_dedupeRows keys h.2
    cases item with
    | obj fields =>
      exact ⟨readable_rowOf keys (readableFields_dedupe h.1.2), hrest⟩
    | _ => exact hrest

end

end Readable

theorem Strategy.readable_compact {floats : JsonText.Floats} (st : Strategy) {v : Json}
    (h : JsonText.Readable floats v) : JsonText.Readable floats (st.compact v) := by
  have hkept : JsonText.Readable floats (st.kept v) := by
    rw [Strategy.kept]
    split
    · exact readable_removeEmptyFields h
    · exact h
  rw [Strategy.compact]
  split
  · exact readable_dedupe hkept
  · exact hkept

/-! ## 7. What is said in a value -/

theorem lookup_removeEmptyIn {k : String} {x : Json} {fields : Fields}
    (h : Assoc.lookup k fields = some x) (hx : isEmpty x = false) :
    Assoc.lookup k (removeEmptyIn fields) = some (removeEmptyFields x) := by
  induction fields with
  | nil => cases h
  | cons f rest ih =>
    obtain ⟨l, v⟩ := f
    rw [Assoc.lookup_cons] at h
    rw [removeEmptyIn]
    by_cases hl : l = k
    · rw [if_pos hl] at h
      obtain rfl := Option.some.inj h
      rw [if_neg (by simp [hx]), Assoc.lookup_cons, if_pos hl]
    · rw [if_neg hl] at h
      split
      · exact ih h
      · rw [Assoc.lookup_cons, if_neg hl]
        exact ih h

theorem removeEmptyItems_eq (items : List Json) :
    removeEmptyItems items = items.map removeEmptyFields := by
  induction items with
  | nil => rfl
  | cons v vs ih => rw [removeEmptyItems, ih, List.map_cons]

theorem Says.not_isEmpty {s : String} {v : Json} (h : Says s v) : isEmpty v = false := by
  cases h with
  | str => rfl
  | item hx _ =>
    cases hx <;> rfl
  | @field fields k x hx _ =>
    cases fields with
    | nil => cases hx
    | cons f rest => rfl

/-- The removal of empty fields takes no string away. -/
theorem Says.removeEmptyFields {s : String} {v : Json} (h : Says s v) :
    Says s (removeEmptyFields v) := by
  induction h with
  | str => exact .str
  | item hx _ ih =>
    rw [Headroom.removeEmptyFields, removeEmptyItems_eq]
    exact .item (List.mem_map_of_mem hx) ih
  | field hx hsaid ih =>
    rw [Headroom.removeEmptyFields]
    exact .field (lookup_removeEmptyIn hx hsaid.not_isEmpty) ih

theorem Strategy.says_kept (st : Strategy) {s : String} {v : Json} (h : Says s v) :
    Says s (st.kept v) := by
  rw [Strategy.kept]
  split
  · exact h.removeEmptyFields
  · exact h

/-- Values that are alike say the same. -/
theorem Alike.says_alike {s : String} {v w : Json} (h : Alike v w) (hsaid : Says s w) : Says s v := by
  induction h with
  | leaf _ => exact hsaid
  | arr hlength _ ih =>
    cases hsaid with
    | @item _ y hy hsaid =>
      obtain ⟨i, hi⟩ := List.getElem?_of_mem hy
      obtain ⟨hlt, -⟩ := List.getElem?_eq_some_iff.mp hi
      have hx := List.getElem?_eq_getElem (hlength ▸ hlt)
      exact .item (List.mem_of_getElem? hx) (ih i _ y hx hi hsaid)
  | obj hkeys _ ih =>
    cases hsaid with
    | @field _ k y hy hsaid =>
      have hsome := hkeys k
      rw [hy, Option.isSome_some] at hsome
      obtain ⟨x, hx⟩ := Option.isSome_iff_exists.mp hsome
      exact .field hx (ih k x y hx hy hsaid)

theorem exists_of_mapM {α : Type} {read : Json → Option α} {items : List Json} {as : List α}
    (h : items.mapM read = some as) {a : α} (ha : a ∈ as) : ∃ v ∈ items, read v = some a := by
  induction items generalizing as with
  | nil =>
    cases h
    cases ha
  | cons v vs ih =>
    rw [List.mapM_cons] at h
    obtain ⟨b, hb, h⟩ := Option.bind_eq_some_iff.mp h
    obtain ⟨rest, hrest, heq⟩ := Option.bind_eq_some_iff.mp h
    cases heq
    rcases List.mem_cons.mp ha with rfl | ha
    · exact ⟨v, List.mem_cons_self, hb⟩
    · obtain ⟨w, hw, hread⟩ := ih hrest ha
      exact ⟨w, List.mem_cons_of_mem v hw, hread⟩

theorem says_of_objectsOf {s : String} {fields : Fields} (h : Says s (objectsOf fields)) :
    Says s (.obj fields) := by
  rw [objectsOf] at h
  split at h
  · next keys rows _ hrows =>
    rw [rowsOf] at hrows
    obtain ⟨lists, hlists, hmap⟩ := Option.bind_eq_some_iff.mp hrows
    obtain ⟨v, hv, hitems⟩ := Option.bind_eq_some_iff.mp hlists
    cases v with
    | arr items =>
      obtain rfl := Option.some.inj hitems
      cases h with
      | item hx hsaid =>
        obtain ⟨row, hrow, rfl⟩ := List.mem_map.mp hx
        cases hsaid with
        | field hy hsaid =>
          have hin := (List.of_mem_zip (Assoc.mem_of_lookup hy)).2
          obtain ⟨list, hlist, hread⟩ := exists_of_mapM hmap hrow
          cases list with
          | arr cells =>
            obtain rfl := Option.some.inj hread
            exact .field hv (.item hlist (.item hin hsaid))
          | _ => cases hread
    | _ => cases hitems
  · exact h

/-- Reading tables makes no strings. -/
theorem says_of_expand {s : String} (v : Json) (h : Says s (expand v)) : Says s v := by
  match v with
  | .null => exact h
  | .bool _ => exact h
  | .int _ => exact h
  | .float _ => exact h
  | .str _ => exact h
  | .arr items =>
    rw [expand, expandItems_eq] at h
    cases h with
    | item hx hsaid =>
      obtain ⟨y, hy, rfl⟩ := List.mem_map.mp hx
      exact .item hy (says_of_expand y hsaid)
  | .obj fields =>
    have hfields : Says s (.obj (expandFields fields)) := by
      rw [expand] at h
      split at h
      · exact says_of_objectsOf h
      · exact h
    cases hfields with
    | field hx hsaid =>
      rw [lookup_expandFields] at hx
      obtain ⟨y, hy, rfl⟩ := Option.map_eq_some_iff.mp hx
      exact .field hy (says_of_expand y hsaid)
termination_by sizeOf v
decreasing_by
  · exact sizeOf_item hy
  · exact sizeOf_lookup hy

/-! ## 8. Lossless compaction -/

namespace Compactor

variable (c : Compactor)

/-- What stands in the message is the payload itself, or a text that reads back as what the
strategy keeps of the payload's value. -/
def ReadsBack (text : String) (v : Json) : Prop :=
  c.put text = text ∨ ∃ data, c.loads (c.put text) = some data ∧
    Alike (if c.strategy.dedupeKeys then expand data else data) (c.strategy.kept v)

def Lossless (text : String) : Prop := ∀ v, c.loads text = some v → c.ReadsBack text v

/-- The longest string makes up most of the payload. -/
def Enveloped (text : String) (v : Json) : Prop := dominates (largestStringLeaf v) text = true

/-- The longest string is not said shorter, or the payload is no shorter with what it becomes. -/
def LeafKept (text : String) (v : Json) : Prop :=
  ∀ compressed, compressText c.strategy.toTextStrategy (largestStringLeaf v) = some compressed →
    compressed = "" ∨ text.length ≤ (c.dumps (swapLeaf (largestStringLeaf v) compressed v)).length

/-- The compact text is not taken: it is no shorter, or it looks like a reference. -/
def LeftAlone (text : String) (v : Json) : Prop :=
  text.length ≤ (c.dumps (c.strategy.compact v)).length ∨
    c.hasReference (c.dumps (c.strategy.compact v)) = true

/-- What reads back. -/
inductive Kept (text : String) (v : Json) : Prop
  | envelope (henveloped : Enveloped text v) (h : c.LeafKept text v) : Kept text v
  | structured (henveloped : ¬ Enveloped text v)
      (h : c.LeftAlone text v ∨ c.strategy.dedupeKeys = false ∨ Uniform (c.strategy.kept v)) :
      Kept text v

variable {c}

theorem loads_compact {text : String} {v : Json} (h : c.loads text = some v) :
    c.loads (c.dumps (c.strategy.compact v)) = some (c.strategy.compact v) :=
  JsonText.readValue_writeValue JsonText.quotes_unitsOf
    (c.strategy.readable_compact (JsonText.readable_of_readValue h))

theorem loads_swapLeaf {text : String} {v : Json} (leaf compressed : String)
    (h : c.loads text = some v) :
    c.loads (c.dumps (swapLeaf leaf compressed v)) = some (swapLeaf leaf compressed v) :=
  JsonText.readValue_writeValue JsonText.quotes_unitsOf
    (readable_swapLeaf leaf compressed (JsonText.readable_of_readValue h))

theorem put_structured {text : String} {v : Json} (h : c.loads text = some v)
    (henveloped : ¬ Enveloped text v) : c.put text =
      if c.hasReference (c.dumps (c.strategy.compact v)) = false ∧
        (c.dumps (c.strategy.compact v)).length < text.length
      then c.dumps (c.strategy.compact v) else text := by
  have hfaithful : c.isFaithful text (c.dumps (c.strategy.compact v)) =
      !c.hasReference (c.dumps (c.strategy.compact v)) := by
    rw [isFaithful, loads_compact h]
    simp
  have hnone : c.compressProseEnvelope text = none := by
    rw [compressProseEnvelope, h, Option.bind_some]
    exact if_neg henveloped
  rw [put, compress, hnone]
  dsimp only
  rw [compressJson, h, Option.map_some, Option.filter_some, hfaithful]
  cases c.hasReference (c.dumps (c.strategy.compact v)) with
  | true => rfl
  | false => simp

/-- An envelope is put as it is, or with its string said shorter. -/
theorem put_enveloped {text : String} {v : Json} (h : c.loads text = some v)
    (henveloped : Enveloped text v) : c.LeafKept text v ∧ c.put text = text ∨
      ¬ c.LeafKept text v ∧ ∃ compressed,
        compressText c.strategy.toTextStrategy (largestStringLeaf v) = some compressed ∧
          c.put text = c.dumps (swapLeaf (largestStringLeaf v) compressed v) ∧
            (c.put text).length < text.length := by
  have hsame : (if text.length < text.length then text else text) = text := if_neg (lt_irrefl _)
  have hdominates : dominates (largestStringLeaf v) text = true := henveloped
  rw [LeafKept]
  cases hcompressed : compressText c.strategy.toTextStrategy (largestStringLeaf v) with
  | none =>
    have henvelope : c.compressProseEnvelope text = some text := by
      rw [compressProseEnvelope, h, Option.bind_some]
      simp only [if_pos hdominates, hcompressed]
    refine Or.inl ⟨by simp, ?_⟩
    rw [put, compress, henvelope]
    exact hsame
  | some compressed =>
    have hshorter := length_lt_of_compressText hcompressed
    by_cases hempty : compressed = ""
    · have henvelope : c.compressProseEnvelope text = some text := by
        rw [compressProseEnvelope, h, Option.bind_some]
        simp only [if_pos hdominates, hcompressed, hempty, true_or, if_true]
      refine Or.inl ⟨by simp [hempty], ?_⟩
      rw [put, compress, henvelope]
      exact hsame
    · have henvelope : c.compressProseEnvelope text =
          some (c.dumps (swapLeaf (largestStringLeaf v) compressed v)) := by
        rw [compressProseEnvelope, h, Option.bind_some]
        simp only [if_pos hdominates, hcompressed]
        rw [if_neg]
        rintro (h | h)
        · exact hempty h
        · omega
      have hput : c.put text =
          if (c.dumps (swapLeaf (largestStringLeaf v) compressed v)).length < text.length
          then c.dumps (swapLeaf (largestStringLeaf v) compressed v) else text := by
        rw [put, compress, henvelope]
      rw [hput]
      by_cases hlt :
          (c.dumps (swapLeaf (largestStringLeaf v) compressed v)).length < text.length
      · rw [if_pos hlt]
        refine Or.inr ⟨?_, compressed, rfl, rfl, hlt⟩
        intro hkept
        rcases hkept compressed rfl with h | h
        · exact hempty h
        · omega
      · rw [if_neg hlt]
        refine Or.inl ⟨?_, rfl⟩
        intro other hother
        obtain rfl := Option.some.inj hother
        exact Or.inr (Nat.le_of_not_lt hlt)

/-- A string that is said shorter does not read back. -/
theorem not_alike_swapLeaf {text compressed : String} {v : Json} (h : c.loads text = some v)
    (henveloped : Enveloped text v)
    (hcompressed : compressText c.strategy.toTextStrategy (largestStringLeaf v) = some compressed) :
    ¬ Alike (if c.strategy.dedupeKeys
      then expand (swapLeaf (largestStringLeaf v) compressed v)
      else swapLeaf (largestStringLeaf v) compressed v) (c.strategy.kept v) := by
  intro halike
  have hne : compressed ≠ largestStringLeaf v := by
    intro heq
    have hlt := length_lt_of_compressText hcompressed
    rw [heq] at hlt
    exact lt_irrefl _ hlt
  have hleaf : Says (largestStringLeaf v) v := by
    rcases says_largestStringLeaf (JsonText.readable_of_readValue h) with hempty | hsaid
    · rw [Enveloped, dominates, hempty] at henveloped
      simp at henveloped
    · exact hsaid
  have hsaid := halike.says_alike (c.strategy.says_kept hleaf)
  apply not_says_swapLeaf hne v
  split at hsaid
  · exact says_of_expand _ hsaid
  · exact hsaid

theorem readsBack_iff {text : String} {v : Json} (h : c.loads text = some v) :
    c.ReadsBack text v ↔ c.Kept text v := by
  by_cases henveloped : Enveloped text v
  · have hkept : c.Kept text v ↔ c.LeafKept text v := by
      constructor
      · intro hkept
        cases hkept with
        | envelope _ h => exact h
        | structured hno _ => exact absurd henveloped hno
      · intro hkept
        exact .envelope henveloped hkept
    rw [hkept, ReadsBack]
    rcases put_enveloped h henveloped with ⟨hleaf, hput⟩ |
      ⟨hleaf, compressed, hcompressed, hput, hlt⟩
    · exact iff_of_true (Or.inl hput) hleaf
    · refine iff_of_false ?_ hleaf
      rintro (heq | ⟨data, hdata, halike⟩)
      · rw [heq] at hlt
        exact lt_irrefl _ hlt
      · rw [hput, loads_swapLeaf _ _ h] at hdata
        obtain rfl := Option.some.inj hdata
        exact not_alike_swapLeaf h henveloped hcompressed halike
  · have hkept : c.Kept text v ↔
        c.LeftAlone text v ∨ c.strategy.dedupeKeys = false ∨ Uniform (c.strategy.kept v) := by
      constructor
      · intro hkept
        cases hkept with
        | envelope hyes _ => exact absurd hyes henveloped
        | structured _ h => exact h
      · intro hkept
        exact .structured henveloped hkept
    rw [hkept, ReadsBack]
    by_cases hleft : c.LeftAlone text v
    · refine iff_of_true (Or.inl ?_) (Or.inl hleft)
      rw [put_structured h henveloped, if_neg]
      rintro ⟨hreference, hshorter⟩
      rcases hleft with hlonger | hmarked
      · omega
      · rw [hreference] at hmarked
        cases hmarked
    · have hboth := hleft
      rw [LeftAlone, not_or, not_le, Bool.not_eq_true] at hboth
      have hput : c.put text = c.dumps (c.strategy.compact v) := by
        rw [put_structured h henveloped, if_pos ⟨hboth.2, hboth.1⟩]
      have hne : c.put text ≠ text := by
        intro heq
        rw [← hput, heq] at hboth
        exact absurd hboth.1 (lt_irrefl _)
      rw [or_iff_right hne, or_iff_right hleft, hput, loads_compact h]
      simp only [Option.some.injEq, exists_eq_left']
      rw [Strategy.compact]
      cases c.strategy.dedupeKeys with
      | false => simp [Alike.refl]
      | true => simp [alike_expand_dedupe_iff]

end Compactor

/-! ## 9. An absent key and a key that is null -/

/-- The shipped strategy. -/
def shipped : Compactor where
  floats := JsonText.Floats.unread
  strategy := {}
  hasReference := fun _ => false

def order (customer number : Int) : Json :=
  .obj [("customer", .int customer), ("order", .int number)]

/-- The last of four orders has a refund in place of its number. -/
def orders : Json :=
  .arr [order 7 12, order 8 13, order 9 14,
    .obj [("customer", .int 9), ("refund", .bool true)]]

theorem readable_orders : JsonText.Readable shipped.floats orders := by
  simp [orders, order, JsonText.Readable, JsonText.ReadableItems, JsonText.ReadableFields]

theorem loads_orders : shipped.loads (shipped.dumps orders) = some orders :=
  JsonText.readValue_writeValue JsonText.quotes_unitsOf readable_orders

theorem length_dumps (c : Compactor) (v : Json) : (c.dumps v).length =
    ((JsonText.treeOf c.floats v).write JsonText.quoteAscii).length := by
  rw [Compactor.dumps, JsonText.writeValue, String.length_ofList]

/-- A tool result that carries a document. -/
def letter : Json := .obj [("text", .str "Ship it now. Ship it now. Ship it now.")]

theorem loads_letter : shipped.loads (shipped.dumps letter) = some letter :=
  JsonText.readValue_writeValue JsonText.quotes_unitsOf
    (by simp [letter, JsonText.Readable, JsonText.ReadableFields])

theorem enveloped_letter : Compactor.Enveloped (shipped.dumps letter) letter := by
  rw [Compactor.Enveloped, dominates, length_dumps]
  decide +kernel

theorem compressText_letter : compressText {} (largestStringLeaf letter) = some "Ship it now." := by
  decide +kernel

/-- A repeated sentence is gone for good. -/
theorem letter_not_lossless : ¬ shipped.Lossless (shipped.dumps letter) := by
  intro h
  cases (Compactor.readsBack_iff loads_letter).mp (h letter loads_letter) with
  | structured hno _ => exact hno enveloped_letter
  | envelope _ hkept =>
    rcases hkept _ compressText_letter with hempty | hlonger
    · revert hempty
      decide
    · revert hlonger
      rw [length_dumps, length_dumps]
      decide +kernel

end TokenProxy.Headroom
