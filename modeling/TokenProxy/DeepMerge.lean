/-
  TokenProxy/DeepMerge.lean
  =========================
  **`deep_merge`** (`tenancy/config.py`) **and what it does to the tree of a config.**

  `deepMerge` is the loop of the code.  `Json.tree` reads a value as a `Tree`, and
  `tree_deepMerge` says that the loop lays one tree over the other.  `wellShaped`
  is an override without the values that the base has an object for, and
  `tree_wellShaped` says that it leaves out exactly the clashes.
-/
import TokenProxy.LayeredTree
import TokenProxy.PyJson

namespace TokenProxy

/-! ## 1. The merge -/

mutual

/-- The loop of `deep_merge(base, override)`, over `override.items()`. -/
def deepMerge : List (String × Json) → List (String × Json) → List (String × Json)
  | base, [] => base
  | base, (k, v) :: rest =>
    deepMerge (Assoc.insert k (mergedValue (Assoc.lookup k base) v) base) rest

/-- What the loop puts under a key: a dict is merged into a dict, all else replaces. -/
def mergedValue : Option Json → Json → Json
  | some (.obj base), .obj override => .obj (deepMerge base override)
  | _, v => v

end

/-- A call of `deep_merge`: without `.items()` or `.get` it raises, which is `none`. -/
def deepMerge? : Json → Json → Option Json
  | .obj base, .obj override => some (.obj (deepMerge base override))
  | _, _ => none

mutual

/-- The override without what is no object where the base has one, at any depth. -/
def wellShaped (base : List (String × Json)) : List (String × Json) → List (String × Json)
  | [] => []
  | (k, v) :: rest =>
    match shapedValue (Assoc.lookup k base) v with
    | some w => (k, w) :: wellShaped base rest
    | none => wellShaped base rest

def shapedValue : Option Json → Json → Option Json
  | some (.obj base), .obj override => some (.obj (wellShaped base override))
  | some (.obj _), _ => none
  | _, v => some v

end

mutual

/-- A dict holds a key once, and so do the dicts in it. -/
def Json.uniqueKeys : Json → Bool
  | .obj fields => decide (fields.map Prod.fst).Nodup && uniqueFields fields
  | _ => true

def Json.uniqueFields : List (String × Json) → Bool
  | [] => true
  | (_, v) :: rest => v.uniqueKeys && uniqueFields rest

end

/-- A JSON value as a parser gives it. -/
abbrev Parsed := {value : Json // value.uniqueKeys = true}

example : deepMerge [("G1", .obj [("url", .str "u"), ("ratio", .int 1)]), ("G2", .obj [])]
    [("G1", .obj [("ratio", .int 2)]), ("G2", .null)] =
    [("G1", .obj [("url", .str "u"), ("ratio", .int 2)]), ("G2", .null)] := by decide

/-! ## 2. Reading a merge -/

mutual

/-- Induction over what a merge walks: the values of a dict, and everything else. -/
theorem Json.dictInduction {P : Json → Prop} (hleaf : ∀ v : Json, v.isObj = false → P v)
    (hobj : ∀ fields : List (String × Json), (∀ e ∈ fields, P e.2) → P (.obj fields)) :
    (v : Json) → P v
  | .obj fields => hobj fields (dictInductionFields hleaf hobj fields)
  | .null => hleaf _ rfl
  | .bool _ => hleaf _ rfl
  | .int _ => hleaf _ rfl
  | .float _ => hleaf _ rfl
  | .str _ => hleaf _ rfl
  | .arr _ => hleaf _ rfl

theorem Json.dictInductionFields {P : Json → Prop} (hleaf : ∀ v : Json, v.isObj = false → P v)
    (hobj : ∀ fields : List (String × Json), (∀ e ∈ fields, P e.2) → P (.obj fields)) :
    (fields : List (String × Json)) → ∀ e ∈ fields, P e.2
  | [], _, hmem => nomatch hmem
  | (_, v) :: rest, e, hmem => by
    rcases List.mem_cons.mp hmem with rfl | hrest
    · exact Json.dictInduction hleaf hobj v
    · exact Json.dictInductionFields hleaf hobj rest e hrest

end

theorem isObj_iff {v : Json} : v.isObj = true ↔ ∃ fields, v = .obj fields := by
  cases v with
  | obj fields => exact ⟨fun _ => ⟨fields, rfl⟩, fun _ => rfl⟩
  | _ => exact ⟨nofun, nofun⟩

theorem mergedValue_obj (base override : List (String × Json)) :
    mergedValue (some (.obj base)) (.obj override) = .obj (deepMerge base override) := by
  rw [mergedValue]

theorem mergedValue_of_not_obj {old : Option Json} {v : Json}
    (h : ∀ base, old = some (.obj base) → v.isObj = false) : mergedValue old v = v := by
  rw [mergedValue]
  rintro base override rfl rfl
  cases h base rfl

theorem shapedValue_obj (base override : List (String × Json)) :
    shapedValue (some (.obj base)) (.obj override) = some (.obj (wellShaped base override)) := by
  rw [shapedValue]

theorem shapedValue_clash (base : List (String × Json)) {v : Json} (h : v.isObj = false) :
    shapedValue (some (.obj base)) v = none := by
  cases v with
  | obj fields => cases h
  | _ => rfl

theorem shapedValue_of_not_obj {old : Option Json} (v : Json)
    (h : ∀ base, old ≠ some (.obj base)) : shapedValue old v = some v := by
  rw [shapedValue]
  · intro base hold
    exact absurd hold (h base)
  · intro base override hold _
    exact h base hold

theorem deepMerge_nil (base : List (String × Json)) : deepMerge base [] = base := by
  rw [deepMerge]

theorem lookup_deepMerge (k : String) {override : List (String × Json)}
    (hnd : (override.map Prod.fst).Nodup) (base : List (String × Json)) :
    Assoc.lookup k (deepMerge base override) =
      match Assoc.lookup k override with
      | some v => some (mergedValue (Assoc.lookup k base) v)
      | none => Assoc.lookup k base := by
  induction override generalizing base with
  | nil => simp [deepMerge]
  | cons e rest ih =>
    obtain ⟨l, v⟩ := e
    rw [List.map_cons, List.nodup_cons] at hnd
    rw [deepMerge, ih hnd.2, Assoc.lookup_cons]
    by_cases hk : k = l
    · subst hk
      have hrest : Assoc.lookup k rest = none := (Assoc.lookup_eq_none_iff k rest).mpr hnd.1
      simp [hrest]
    · have hl : ¬ l = k := fun h => hk h.symm
      simp [Assoc.lookup_insert_of_ne hk, hl]

theorem lookup_wellShaped (base : List (String × Json)) (k : String)
    {override : List (String × Json)} (hnd : (override.map Prod.fst).Nodup) :
    Assoc.lookup k (wellShaped base override) =
      (Assoc.lookup k override).bind (shapedValue (Assoc.lookup k base)) := by
  induction override with
  | nil => simp [wellShaped]
  | cons e rest ih =>
    obtain ⟨l, v⟩ := e
    rw [List.map_cons, List.nodup_cons] at hnd
    rw [wellShaped, Assoc.lookup_cons]
    by_cases hk : l = k
    · subst hk
      have hrest : Assoc.lookup l rest = none := (Assoc.lookup_eq_none_iff l rest).mpr hnd.1
      rw [if_pos rfl, Option.bind_some]
      cases shapedValue (Assoc.lookup l base) v with
      | some w => simp [Assoc.lookup_cons]
      | none => simp [ih hnd.2, hrest]
    · rw [if_neg hk, ← ih hnd.2]
      cases shapedValue (Assoc.lookup l base) v with
      | some w => simp [Assoc.lookup_cons, hk]
      | none => rfl

theorem wellShaped_eq_filterMap (base override : List (String × Json)) :
    wellShaped base override = override.filterMap fun e =>
      (shapedValue (Assoc.lookup e.1 base) e.2).map fun w => (e.1, w) := by
  induction override with
  | nil => simp [wellShaped]
  | cons e rest ih =>
    obtain ⟨k, v⟩ := e
    rw [wellShaped, List.filterMap_cons, ← ih]
    cases shapedValue (Assoc.lookup k base) v with
    | some w => rfl
    | none => rfl

theorem keys_wellShaped (base override : List (String × Json)) :
    ((wellShaped base override).map Prod.fst).Sublist (override.map Prod.fst) := by
  induction override with
  | nil => simp [wellShaped]
  | cons e rest ih =>
    obtain ⟨k, v⟩ := e
    rw [wellShaped, List.map_cons]
    cases shapedValue (Assoc.lookup k base) v with
    | some w => exact ih.cons_cons k
    | none => exact ih.cons k

/-! ## 3. Keys that are there once -/

theorem uniqueFields_iff (fields : List (String × Json)) :
    Json.uniqueFields fields = true ↔ ∀ e ∈ fields, e.2.uniqueKeys = true := by
  induction fields with
  | nil => simp [Json.uniqueFields]
  | cons e rest ih => simp [Json.uniqueFields, ih]

theorem uniqueKeys_obj_iff (fields : List (String × Json)) :
    (Json.obj fields).uniqueKeys = true ↔
      (fields.map Prod.fst).Nodup ∧ ∀ e ∈ fields, e.2.uniqueKeys = true := by
  rw [Json.uniqueKeys, Bool.and_eq_true, decide_eq_true_eq, uniqueFields_iff]

theorem uniqueKeys_lookup {fields : List (String × Json)} {k : String} {v : Json}
    (h : (Json.obj fields).uniqueKeys = true) (hk : Assoc.lookup k fields = some v) :
    v.uniqueKeys = true :=
  ((uniqueKeys_obj_iff fields).mp h).2 (k, v) (Assoc.mem_of_lookup hk)

theorem uniqueKeys_insert {fields : List (String × Json)} {v : Json} (k : String)
    (h : (Json.obj fields).uniqueKeys = true) (hv : v.uniqueKeys = true) :
    (Json.obj (Assoc.insert k v fields)).uniqueKeys = true := by
  rw [uniqueKeys_obj_iff] at h ⊢
  have hnd := Assoc.nodup_insert h.1 k v
  refine ⟨hnd, ?_⟩
  rintro ⟨l, w⟩ hmem
  have hl := Assoc.lookup_of_mem hnd hmem
  rw [Assoc.lookup_insert] at hl
  split at hl
  · cases hl
    exact hv
  · exact h.2 (l, w) (Assoc.mem_of_lookup hl)

theorem uniqueKeys_deepMerge_of {base override : List (String × Json)}
    (hv : ∀ e ∈ override, ∀ old : Option Json, (∀ w, old = some w → w.uniqueKeys = true) →
      (mergedValue old e.2).uniqueKeys = true)
    (hb : (Json.obj base).uniqueKeys = true) :
    (Json.obj (deepMerge base override)).uniqueKeys = true := by
  induction override generalizing base with
  | nil =>
    rw [deepMerge]
    exact hb
  | cons e rest ih =>
    obtain ⟨k, v⟩ := e
    rw [deepMerge]
    apply ih fun e he => hv e (List.mem_cons_of_mem _ he)
    apply uniqueKeys_insert k hb
    exact hv (k, v) List.mem_cons_self _ fun w hw => uniqueKeys_lookup hb hw

theorem uniqueKeys_mergedValue (v : Json) (hv : v.uniqueKeys = true) (old : Option Json)
    (hold : ∀ w, old = some w → w.uniqueKeys = true) :
    (mergedValue old v).uniqueKeys = true := by
  induction v using Json.dictInduction generalizing old with
  | hleaf v hleaf =>
    rw [mergedValue_of_not_obj fun _ _ => hleaf]
    exact hv
  | hobj fields ih =>
    by_cases h : ∃ base, old = some (.obj base)
    · obtain ⟨base, rfl⟩ := h
      rw [mergedValue_obj]
      refine uniqueKeys_deepMerge_of (fun e he old' hold' => ?_) (hold _ rfl)
      exact ih e he (((uniqueKeys_obj_iff fields).mp hv).2 e he) old' hold'
    · rw [mergedValue_of_not_obj fun base hbase => absurd ⟨base, hbase⟩ h]
      exact hv

theorem uniqueKeys_deepMerge {base override : List (String × Json)}
    (hb : (Json.obj base).uniqueKeys = true) (ho : (Json.obj override).uniqueKeys = true) :
    (Json.obj (deepMerge base override)).uniqueKeys = true := by
  rw [← mergedValue_obj]
  apply uniqueKeys_mergedValue _ ho
  rintro w ⟨⟩
  exact hb

theorem uniqueKeys_wellShaped_of {base override : List (String × Json)}
    (hnd : (override.map Prod.fst).Nodup)
    (hv : ∀ e ∈ override, ∀ old w, shapedValue old e.2 = some w → w.uniqueKeys = true) :
    (Json.obj (wellShaped base override)).uniqueKeys = true := by
  rw [uniqueKeys_obj_iff, wellShaped_eq_filterMap]
  constructor
  · rw [← wellShaped_eq_filterMap]
    exact (keys_wellShaped base override).nodup hnd
  · intro e he
    obtain ⟨⟨k, v⟩, hmem, heq⟩ := List.mem_filterMap.mp he
    obtain ⟨w, hw, rfl⟩ := Option.map_eq_some_iff.mp heq
    exact hv (k, v) hmem _ w hw

theorem uniqueKeys_shapedValue (v : Json) (hv : v.uniqueKeys = true) (old : Option Json) :
    ∀ w, shapedValue old v = some w → w.uniqueKeys = true := by
  induction v using Json.dictInduction generalizing old with
  | hleaf v hleaf =>
    intro w hw
    by_cases h : ∃ base, old = some (.obj base)
    · obtain ⟨base, rfl⟩ := h
      rw [shapedValue_clash base hleaf] at hw
      cases hw
    · rw [shapedValue_of_not_obj v fun base hbase => h ⟨base, hbase⟩] at hw
      cases hw
      exact hv
  | hobj fields ih =>
    intro w hw
    by_cases h : ∃ base, old = some (.obj base)
    · obtain ⟨base, rfl⟩ := h
      rw [shapedValue_obj] at hw
      cases hw
      rw [uniqueKeys_obj_iff] at hv
      exact uniqueKeys_wellShaped_of hv.1 fun e he => ih e he (hv.2 e he)
    · rw [shapedValue_of_not_obj _ fun base hbase => h ⟨base, hbase⟩] at hw
      cases hw
      exact hv

theorem uniqueKeys_wellShaped (base : List (String × Json)) {override : List (String × Json)}
    (ho : (Json.obj override).uniqueKeys = true) :
    (Json.obj (wellShaped base override)).uniqueKeys = true :=
  uniqueKeys_shapedValue _ ho (some (.obj base)) _ (shapedValue_obj base override)

/-! ## 4. A merge made twice -/

theorem insert_of_lookup {fields : List (String × Json)} {k : String} {v : Json}
    (h : Assoc.lookup k fields = some v) : Assoc.insert k v fields = fields := by
  induction fields with
  | nil => cases h
  | cons e rest ih =>
    obtain ⟨l, w⟩ := e
    rw [Assoc.lookup_cons] at h
    rw [Assoc.insert]
    by_cases hk : l = k
    · rw [if_pos hk] at h
      cases h
      rw [if_pos hk, hk]
    · rw [if_neg hk] at h
      rw [if_neg hk, ih h]

/-- An override that the base has already taken in changes nothing. -/
theorem deepMerge_absorbed {base override : List (String × Json)}
    (h : ∀ e ∈ override, ∃ old, Assoc.lookup e.1 base = some old ∧
      mergedValue (some old) e.2 = old) : deepMerge base override = base := by
  induction override with
  | nil => rw [deepMerge]
  | cons e rest ih =>
    obtain ⟨k, v⟩ := e
    rw [List.forall_mem_cons] at h
    obtain ⟨⟨old, hold, hmerged⟩, hrest⟩ := h
    rw [deepMerge, hold, hmerged, insert_of_lookup hold, ih hrest]

theorem mergedValue_again (v : Json) (hv : v.uniqueKeys = true) (old : Option Json) :
    mergedValue (some (mergedValue old v)) v = mergedValue old v := by
  induction v using Json.dictInduction generalizing old with
  | hleaf v hleaf =>
    rw [mergedValue_of_not_obj fun _ _ => hleaf, mergedValue_of_not_obj fun _ _ => hleaf]
  | hobj fields ih =>
    rw [uniqueKeys_obj_iff] at hv
    by_cases h : ∃ base, old = some (.obj base)
    · obtain ⟨base, rfl⟩ := h
      rw [mergedValue_obj, mergedValue_obj, deepMerge_absorbed]
      intro e he
      refine ⟨mergedValue (Assoc.lookup e.1 base) e.2, ?_, ih e he (hv.2 e he) _⟩
      rw [lookup_deepMerge e.1 hv.1, Assoc.lookup_of_mem hv.1 he]
    · rw [mergedValue_of_not_obj fun base hbase => absurd ⟨base, hbase⟩ h, mergedValue_obj,
        deepMerge_absorbed]
      intro e he
      refine ⟨e.2, Assoc.lookup_of_mem hv.1 he, ?_⟩
      have hself := ih e he (hv.2 e he) none
      rwa [@mergedValue_of_not_obj none _ nofun] at hself

/-! ## 5. The merge as trees -/

namespace Json

def nodeAt : List String → Json → Option (Node Json)
  | [], .obj _ => some .branch
  | [], v => some (.leaf v)
  | k :: p, .obj fields => (Assoc.lookup k fields).bind (nodeAt p)
  | _ :: _, _ => none

theorem nodeAt_cons (k : String) (p : List String) (fields : List (String × Json)) :
    nodeAt (k :: p) (.obj fields) = (Assoc.lookup k fields).bind (nodeAt p) := rfl

theorem nodeAt_cons_get? (k : String) (p : List String) (v : Json) :
    nodeAt (k :: p) v = (v.get? k).bind (nodeAt p) := by
  cases v with
  | obj fields => rfl
  | _ => rfl

theorem nodeAt_root_of_not_obj {v : Json} (h : v.isObj = false) :
    nodeAt [] v = some (.leaf v) := by
  cases v with
  | obj fields => cases h
  | _ => rfl

theorem nodeAt_cons_of_not_obj {v : Json} (h : v.isObj = false) (k : String) (p : List String) :
    nodeAt (k :: p) v = none := by
  cases v with
  | obj fields => cases h
  | _ => rfl

theorem nodeAt_nil_ne_none (v : Json) : nodeAt [] v ≠ none := by
  cases v <;> nofun

theorem nodeAt_nil_eq_branch {v : Json} : nodeAt [] v = some .branch ↔ v.isObj = true := by
  cases v with
  | obj fields => exact ⟨fun _ => rfl, fun _ => rfl⟩
  | _ => exact ⟨nofun, nofun⟩

/-- A value as what stands at each path of keys. -/
def tree (value : Json) : Tree String Json where
  node p := nodeAt p value
  rooted := by
    intro q r hr h
    induction q generalizing value with
    | nil =>
      rcases r with _ | ⟨k, r⟩
      · exact absurd rfl hr
      · cases value with
        | obj fields => rfl
        | _ => exact absurd rfl h
    | cons k q ih =>
      cases value with
      | obj fields =>
        rw [List.cons_append, nodeAt_cons] at h
        rw [nodeAt_cons]
        cases hk : Assoc.lookup k fields with
        | none =>
          rw [hk] at h
          exact absurd rfl h
        | some v =>
          rw [hk] at h
          exact ih v h
      | _ => exact absurd rfl h

theorem node_tree (value : Json) (p : List String) : value.tree.node p = nodeAt p value := rfl

theorem sub_tree_of_lookup {fields : List (String × Json)} {k : String} {v : Json}
    (h : Assoc.lookup k fields = some v) : (Json.obj fields).tree.sub k = v.tree := by
  ext1
  funext p
  change (Assoc.lookup k fields).bind (nodeAt p) = nodeAt p v
  rw [h, Option.bind_some]

theorem sub_tree_of_missing {fields : List (String × Json)} {k : String}
    (h : Assoc.lookup k fields = none) : (Json.obj fields).tree.sub k = Tree.empty := by
  ext1
  funext p
  change (Assoc.lookup k fields).bind (nodeAt p) = none
  rw [h, Option.bind_none]

end Json

open Json

theorem sub_root_eq_branch {fields : List (String × Json)} {k : String}
    (h : ((Json.obj fields).tree.sub k).node [] = some .branch) :
    ∃ base, Assoc.lookup k fields = some (.obj base) := by
  cases hk : Assoc.lookup k fields with
  | none =>
    rw [sub_tree_of_missing hk] at h
    cases h
  | some v =>
    rw [sub_tree_of_lookup hk] at h
    obtain ⟨base, rfl⟩ := isObj_iff.mp (nodeAt_nil_eq_branch.mp h)
    exact ⟨base, rfl⟩

/-- `deep_merge` lays the override over the base. -/
theorem tree_deepMerge {base override : List (String × Json)}
    (ho : (Json.obj override).uniqueKeys = true) (p : List String) :
    (Json.obj (deepMerge base override)).tree.node p =
      (Tree.laid (Json.obj base).tree (Json.obj override).tree).node p := by
  induction p generalizing base override with
  | nil => exact (Tree.laid_of_some (b := (Json.obj base).tree) (o := (Json.obj override).tree) rfl).symm
  | cons k p ih =>
    have hnd := ((uniqueKeys_obj_iff override).mp ho).1
    rw [Tree.laid_sub rfl]
    change (Assoc.lookup k (deepMerge base override)).bind (nodeAt p) = _
    rw [lookup_deepMerge k hnd]
    cases hk : Assoc.lookup k override with
    | none =>
      rw [sub_tree_of_missing hk, Tree.laid_empty]
      rfl
    | some v =>
      rw [sub_tree_of_lookup hk, Option.bind_some]
      by_cases hmerge : v.isObj = true ∧ ∃ b, Assoc.lookup k base = some (.obj b)
      · obtain ⟨hv, b, hb⟩ := hmerge
        obtain ⟨fields, rfl⟩ := isObj_iff.mp hv
        rw [sub_tree_of_lookup hb, hb, mergedValue_obj]
        exact ih (uniqueKeys_lookup ho hk)
      · rw [mergedValue_of_not_obj, Tree.laid_of_replaced (nodeAt_nil_ne_none v)]
        · rfl
        · intro hbranch hv
          exact hmerge ⟨nodeAt_nil_eq_branch.mp hv, sub_root_eq_branch hbranch⟩
        · intro b hb
          rw [Bool.eq_false_iff]
          exact fun hv => hmerge ⟨hv, b, hb⟩

/-- `wellShaped` leaves the clashes out. -/
theorem tree_wellShaped {base override : List (String × Json)}
    (ho : (Json.obj override).uniqueKeys = true) (p : List String) :
    (Json.obj (wellShaped base override)).tree.node p =
      (Tree.leaveOut (Json.obj base).tree (Json.obj override).tree).node p := by
  induction p generalizing base override with
  | nil =>
    rw [Tree.leaveOut_of_not_clash]
    · rfl
    · rintro ⟨-, v, hv⟩
      cases hv
  | cons k p ih =>
    have hnd := ((uniqueKeys_obj_iff override).mp ho).1
    rw [Tree.leaveOut_sub]
    change (Assoc.lookup k (wellShaped base override)).bind (nodeAt p) = _
    rw [lookup_wellShaped base k hnd]
    cases hk : Assoc.lookup k override with
    | none =>
      rw [sub_tree_of_missing hk, Tree.leaveOut_of_not_clash]
      · rfl
      · rintro ⟨-, v, hv⟩
        cases hv
    | some v =>
      rw [sub_tree_of_lookup hk, Option.bind_some]
      by_cases hb : ∃ b, Assoc.lookup k base = some (.obj b)
      · obtain ⟨b, hb⟩ := hb
        rw [sub_tree_of_lookup hb, hb]
        by_cases hv : v.isObj = true
        · obtain ⟨fields, rfl⟩ := isObj_iff.mp hv
          rw [shapedValue_obj]
          exact ih (uniqueKeys_lookup ho hk)
        · rw [Bool.not_eq_true] at hv
          rw [shapedValue_clash b hv, Option.bind_none]
          rcases p with _ | ⟨l, p⟩
          · exact (Tree.leaveOut_of_clash ⟨rfl, v, nodeAt_root_of_not_obj hv⟩).symm
          · have hnone : v.tree.node (l :: p) = none := nodeAt_cons_of_not_obj hv l p
            rw [Tree.leaveOut_of_not_clash, hnone]
            rintro ⟨-, w, hw⟩
            rw [hnone] at hw
            cases hw
      · rw [shapedValue_of_not_obj v fun b h => hb ⟨b, h⟩]
        exact (Tree.leaveOut_of_no_branch (fun h => hb (sub_root_eq_branch h)) v.tree p).symm

end TokenProxy
