/-
  TokenProxy/ConfigLayers.lean
  ============================
  **The config a request runs with** (`tenancy/config.py`, `middleware/__init__.py`,
  and the config layers of `OptimisationPipeline.process_request`).

  Over the config file's dict the loader lays what the tenant stored, and over the
  result's `groups` the pipeline lays the operator's `tenants.<id>.groups`, which it
  reads back out of that same result.  `nodeAt_applied_groups` and its neighbours say
  what then stands at each path.

  The column `config_overrides` arrives as text, and `overrides` is what `json.loads`
  makes of it.
-/
import TokenProxy.DeepMerge

namespace TokenProxy.Config

open Json

/-! ## 1. The layers -/

/-- `ctx.config.get("tenancy", {}).get("per_tenant_config_enabled", True)`; `none` where
`tenancy` is no dict, which raises. -/
def perTenantEnabled? (config : Json) : Option Bool :=
  match config.getD "tenancy" (.obj []) with
  | .obj fields =>
    some (((Json.obj fields).getD "per_tenant_config_enabled" (.bool true)).truthy)
  | _ => none

/-- `TenantConfigLoader.load`, with what `_get_overrides` returns.  `dbPool` says whether
the pool was injected. -/
def load (dbPool : Bool) (overrides : Option Json) (config : Json) : Option Json :=
  if !dbPool then some config
  else
    match perTenantEnabled? config with
    | none => none
    | some false => some config
    | some true =>
      match overrides with
      | none => some config
      | some overrides =>
        if !overrides.truthy then some config else deepMerge? config overrides

/-- A dict found by `.get`s with an `isinstance(…, dict)` check at every level. -/
def dictAt? : List String → Json → Option (List (String × Json))
  | [], value => value.fields?
  | key :: path, value => (value.get? key).bind (dictAt? path)

def operatorPath (tenantId : String) : List String := ["tenants", tenantId, "groups"]

/-- `operator_group_overlay`. -/
def operatorGroupOverlay (config : Json) (tenantId : String) : List (String × Json) :=
  (dictAt? (operatorPath tenantId) config).getD []

/-- `config["groups"]`, or `{}` where it is no dict. -/
def groupsOf (config : Json) : List (String × Json) := (dictAt? ["groups"] config).getD []

/-- `apply_operator_overlay`. -/
def applyOperatorOverlay (config : Json) (tenantId : String) : Json :=
  let overlay := operatorGroupOverlay config tenantId
  if overlay.isEmpty then config
  else config.set "groups" (.obj (deepMerge (groupsOf config) overlay))

/-- The config layers of `process_request`. -/
def effectiveConfig (dbPool : Bool) (config : Json) (overrides : Option Json)
    (tenantId : String) : Option Json :=
  (load dbPool overrides config).map fun merged => applyOperatorOverlay merged tenantId

/-- `resolve_group_config`. -/
def resolveGroupConfig (config : Json) (tenantId key : String) : List (String × Json) :=
  let base := (dictAt? ["groups", key] config).getD []
  let overlay := (dictAt? (operatorPath tenantId ++ [key]) config).getD []
  if overlay.isEmpty then base else deepMerge base overlay

example : effectiveConfig true
    (.obj [("groups", .obj [("G19", .obj [("enabled", .bool true), ("min", .int 50)])]),
      ("tenants", .obj [("nova", .obj [("groups", .obj [("G19",
        .obj [("enabled", .bool false)])])])])])
    (some (.obj [("groups", .obj [("G19", .obj [("min", .int 9)])])])) "nova" =
    some (.obj [("groups", .obj [("G19", .obj [("enabled", .bool false), ("min", .int 9)])]),
      ("tenants", .obj [("nova", .obj [("groups", .obj [("G19",
        .obj [("enabled", .bool false)])])])])]) := by decide

/-! ## 2. Reading the layers -/

theorem nodeAt_of_dictAt {path : List String} {value : Json} {fields : List (String × Json)}
    (h : dictAt? path value = some fields) (p : List String) :
    nodeAt (path ++ p) value = nodeAt p (.obj fields) := by
  induction path generalizing value with
  | nil =>
    cases value with
    | obj fs =>
      cases h
      rfl
    | _ => cases h
  | cons k path ih =>
    obtain ⟨v, hv, hrest⟩ := Option.bind_eq_some_iff.mp h
    rw [List.cons_append, nodeAt_cons_get?, hv, Option.bind_some, ih hrest]

theorem dictAt_of_branch {path : List String} {value : Json}
    (h : nodeAt path value = some .branch) : ∃ fields, dictAt? path value = some fields := by
  induction path generalizing value with
  | nil =>
    obtain ⟨fields, rfl⟩ := isObj_iff.mp (nodeAt_nil_eq_branch.mp h)
    exact ⟨fields, rfl⟩
  | cons k path ih =>
    rw [nodeAt_cons_get?] at h
    obtain ⟨v, hv, hrest⟩ := Option.bind_eq_some_iff.mp h
    obtain ⟨fields, hfields⟩ := ih hrest
    refine ⟨fields, ?_⟩
    rw [dictAt?, hv, Option.bind_some, hfields]

theorem branch_of_dictAt {path : List String} {value : Json} {fields : List (String × Json)}
    (h : dictAt? path value = some fields) : nodeAt path value = some .branch := by
  have hnode := nodeAt_of_dictAt h []
  rw [List.append_nil] at hnode
  exact hnode

theorem dictAt_append (path rest : List String) (value : Json) :
    dictAt? (path ++ rest) value =
      (dictAt? path value).bind fun fields => dictAt? rest (.obj fields) := by
  induction path generalizing value with
  | nil =>
    cases value with
    | obj fields => rfl
    | _ => cases rest <;> rfl
  | cons k path ih =>
    rw [List.cons_append, dictAt?, dictAt?, Option.bind_assoc]
    congr 1
    funext v
    exact ih v

theorem uniqueKeys_dictAt {path : List String} {value : Json} {fields : List (String × Json)}
    (hvalue : value.uniqueKeys = true) (h : dictAt? path value = some fields) :
    (Json.obj fields).uniqueKeys = true := by
  induction path generalizing value with
  | nil =>
    cases value with
    | obj fs =>
      cases h
      exact hvalue
    | _ => cases h
  | cons k path ih =>
    obtain ⟨v, hv, hrest⟩ := Option.bind_eq_some_iff.mp h
    obtain ⟨fs, rfl⟩ := isObj_of_get? hv
    exact ih (uniqueKeys_lookup hvalue hv) hrest

theorem uniqueKeys_dictAt_getD {value : Json} (hvalue : value.uniqueKeys = true)
    (path : List String) : (Json.obj ((dictAt? path value).getD [])).uniqueKeys = true := by
  cases h : dictAt? path value with
  | none => rfl
  | some fields => exact uniqueKeys_dictAt hvalue h

/-- An overlay that is laid over the groups has the last word there, whatever they are. -/
theorem laid_groupsOf {config : Json} (overlay : List (String × Json)) (q : List String) :
    (Tree.laid (Json.obj (groupsOf config)).tree (Json.obj overlay).tree).node q =
      (Tree.laid (config.tree.sub "groups") (Json.obj overlay).tree).node q := by
  by_cases h : nodeAt ["groups"] config = some .branch
  · obtain ⟨groups, hgroups⟩ := dictAt_of_branch h
    apply Tree.laid_congr_left
    rw [groupsOf, hgroups, Option.getD_some]
    exact (nodeAt_of_dictAt hgroups q).symm
  · have hnone : dictAt? ["groups"] config = none := by
      cases hdict : dictAt? ["groups"] config with
      | none => rfl
      | some fields => exact absurd (branch_of_dictAt hdict) h
    have hroot : (Json.obj overlay).tree.node [] ≠ none := nodeAt_nil_ne_none _
    rw [groupsOf, hnone, Option.getD_none, Tree.laid_of_bare hroot fun _ _ => rfl,
      Tree.laid_of_replaced hroot fun hb => absurd hb h]

theorem nodeAt_set (fields : List (String × Json)) (key : String) (v : Json) (k : String)
    (p : List String) :
    nodeAt (k :: p) ((Json.obj fields).set key v) =
      if k = key then nodeAt p v else nodeAt (k :: p) (.obj fields) := by
  rw [nodeAt_cons_get?]
  by_cases hk : k = key
  · rw [if_pos hk, hk, get?_set_self, Option.bind_some]
  · rw [if_neg hk, get?_set_of_ne _ hk, nodeAt_cons_get?]

/-- The groups once a block is laid over them. -/
theorem nodeAt_groups_set {fields overlay : List (String × Json)}
    (ho : (Json.obj overlay).uniqueKeys = true) (q : List String) :
    nodeAt ("groups" :: q)
        ((Json.obj fields).set "groups" (.obj (deepMerge (groupsOf (.obj fields)) overlay))) =
      (Tree.laid ((Json.obj fields).tree.sub "groups") (Json.obj overlay).tree).node q := by
  rw [nodeAt_set, if_pos rfl, ← laid_groupsOf]
  exact tree_deepMerge ho q

/-- The block depends on nothing but `tenants`. -/
theorem tree_operatorGroupOverlay_congr {config config' : Json} {tenantId : String}
    (h : ∀ q, nodeAt ("tenants" :: q) config = nodeAt ("tenants" :: q) config') :
    (Json.obj (operatorGroupOverlay config tenantId)).tree =
      (Json.obj (operatorGroupOverlay config' tenantId)).tree := by
  have hpath := fun p => h (tenantId :: "groups" :: p)
  ext1
  funext p
  change nodeAt p _ = nodeAt p _
  by_cases hbranch : nodeAt (operatorPath tenantId) config = some .branch
  · obtain ⟨block, hblock⟩ := dictAt_of_branch hbranch
    obtain ⟨block', hblock'⟩ := dictAt_of_branch ((hpath []).symm.trans hbranch)
    rw [operatorGroupOverlay, operatorGroupOverlay, operatorPath, hblock', ← operatorPath, hblock,
      Option.getD_some, Option.getD_some, ← nodeAt_of_dictAt hblock, ← nodeAt_of_dictAt hblock']
    exact hpath p
  · have hnone : dictAt? (operatorPath tenantId) config = none := by
      cases hdict : dictAt? (operatorPath tenantId) config with
      | none => rfl
      | some fields => exact absurd (branch_of_dictAt hdict) hbranch
    have hnone' : dictAt? (operatorPath tenantId) config' = none := by
      cases hdict : dictAt? (operatorPath tenantId) config' with
      | none => rfl
      | some fields => exact absurd ((hpath []).trans (branch_of_dictAt hdict)) hbranch
    rw [operatorGroupOverlay, operatorGroupOverlay, hnone, hnone']

theorem eq_nil_congr {a b : List (String × Json)} (h : (Json.obj a).tree = (Json.obj b).tree) :
    a = [] ↔ b = [] := by
  have hnil : ∀ {a b : List (String × Json)}, (Json.obj a).tree = (Json.obj b).tree →
      a = [] → b = [] := by
    rintro a b h rfl
    rcases b with _ | ⟨⟨k, v⟩, b⟩
    · rfl
    · have hk : ((Json.obj []).tree.node [k] : Option (Node Json)) =
          (Json.obj ((k, v) :: b)).tree.node [k] := by rw [h]
      change none = (Assoc.lookup k ((k, v) :: b)).bind (nodeAt []) at hk
      rw [Assoc.lookup_cons, if_pos rfl, Option.bind_some] at hk
      exact absurd hk.symm (nodeAt_nil_ne_none v)
  exact ⟨hnil h, hnil h.symm⟩

/-! ## 3. What the loader gives -/

/-- What of the stored override `load` looks at: nothing when it is switched off. -/
def consulted (dbPool : Bool) (config : Json) (overrides : Option Json) : Json :=
  if dbPool = true ∧ perTenantEnabled? config = some true then overrides.getD .null else .null

/-- The keys that it sets. -/
def taken (dbPool : Bool) (config : Json) (overrides : Option Json) : List (String × Json) :=
  (consulted dbPool config overrides).fields?.getD []

theorem load_eq {fields : List (String × Json)} {enabled : Bool} (dbPool : Bool)
    (overrides : Option Json) (h : perTenantEnabled? (.obj fields) = some enabled) :
    load dbPool overrides (.obj fields) =
      if (consulted dbPool (.obj fields) overrides).truthy = true then
        deepMerge? (.obj fields) (consulted dbPool (.obj fields) overrides)
      else some (.obj fields) := by
  unfold load consulted
  rw [h]
  cases dbPool with
  | false => rfl
  | true =>
    cases enabled with
    | false => rfl
    | true =>
      cases overrides with
      | none => rfl
      | some overrides =>
        cases htruthy : overrides.truthy with
        | false => simp [htruthy]
        | true => simp [htruthy]

theorem deepMerge?_eq_some_iff {base : List (String × Json)} {override merged : Json} :
    deepMerge? (.obj base) override = some merged ↔
      override.isObj = true ∧ merged = .obj (deepMerge base (override.fields?.getD [])) := by
  cases override with
  | obj fields =>
    rw [deepMerge?, Option.some_inj]
    exact ⟨fun h => ⟨rfl, h.symm⟩, fun h => h.2.symm⟩
  | _ => exact ⟨nofun, nofun⟩

theorem fields_of_falsy {value : Json} (h : value.truthy ≠ true) : value.fields?.getD [] = [] := by
  cases value with
  | obj fields =>
    rcases fields with _ | ⟨e, fields⟩
    · rfl
    · exact absurd rfl h
  | _ => rfl

theorem load_of_some {dbPool : Bool} {overrides : Option Json} {fields : List (String × Json)}
    {merged : Json} (h : load dbPool overrides (.obj fields) = some merged) :
    merged = .obj (deepMerge fields (taken dbPool (.obj fields) overrides)) := by
  cases henabled : perTenantEnabled? (.obj fields) with
  | none =>
    unfold load at h
    rw [henabled] at h
    cases dbPool with
    | false =>
      rw [taken, consulted, if_neg nofun]
      cases h
      exact congrArg Json.obj (deepMerge_nil fields).symm
    | true => cases h
  | some enabled =>
    rw [load_eq dbPool overrides henabled] at h
    rw [taken]
    by_cases htruthy : (consulted dbPool (.obj fields) overrides).truthy = true
    · rw [if_pos htruthy, deepMerge?_eq_some_iff] at h
      exact h.2
    · rw [if_neg htruthy] at h
      cases h
      rw [fields_of_falsy htruthy, deepMerge_nil]

theorem load_returns_iff {dbPool : Bool} {overrides : Option Json}
    {fields : List (String × Json)} (hvalid : perTenantEnabled? (.obj fields) ≠ none) :
    (∃ merged, load dbPool overrides (.obj fields) = some merged) ↔
      ((consulted dbPool (.obj fields) overrides).truthy = true →
        (consulted dbPool (.obj fields) overrides).isObj = true) := by
  obtain ⟨enabled, henabled⟩ := Option.ne_none_iff_exists'.mp hvalid
  rw [load_eq dbPool overrides henabled]
  by_cases htruthy : (consulted dbPool (.obj fields) overrides).truthy = true
  · rw [if_pos htruthy]
    simp only [deepMerge?_eq_some_iff, htruthy, exists_and_left, forall_const]
    exact ⟨fun h => h.1, fun h => ⟨h, _, rfl⟩⟩
  · rw [if_neg htruthy]
    exact ⟨fun _ h => absurd h htruthy, fun _ => ⟨_, rfl⟩⟩

/-! ## 4. The merged config -/

/-- What the config file holds: a dict (`config_loader.py` refuses anything else). -/
structure ConfigFile where
  fields : List (String × Json)
  unique : (Json.obj fields).uniqueKeys = true

def ConfigFile.json (config : ConfigFile) : Json := .obj config.fields

section

variable (config : ConfigFile) (dbPool : Bool) (overrides : Option Parsed) (tenantId : String)

/-- The keys that the stored override sets in this config. -/
def tenantLayer : List (String × Json) := taken dbPool config.json (overrides.map Subtype.val)

/-- The config that `load` gives. -/
def tenantMerged : Json :=
  .obj (deepMerge config.fields (tenantLayer config dbPool overrides))

theorem uniqueKeys_tenantLayer :
    (Json.obj (tenantLayer config dbPool overrides)).uniqueKeys = true := by
  have hconsulted : (consulted dbPool config.json (overrides.map Subtype.val)).uniqueKeys = true := by
    rw [consulted]
    split
    · cases overrides with
      | none => rfl
      | some value => exact value.property
    · rfl
  rw [tenantLayer, taken]
  cases h : consulted dbPool config.json (overrides.map Subtype.val) with
  | obj fields =>
    rw [h] at hconsulted
    exact hconsulted
  | _ => rfl

theorem node_tenantMerged (p : List String) :
    nodeAt p (tenantMerged config dbPool overrides) =
      (Tree.laid config.json.tree
        (Json.obj (tenantLayer config dbPool overrides)).tree).node p :=
  tree_deepMerge (uniqueKeys_tenantLayer config dbPool overrides) p

theorem uniqueKeys_operatorGroupOverlay :
    (Json.obj (operatorGroupOverlay (tenantMerged config dbPool overrides) tenantId)).uniqueKeys =
      true := by
  apply uniqueKeys_dictAt_getD
  exact uniqueKeys_deepMerge config.unique (uniqueKeys_tenantLayer config dbPool overrides)

theorem nodeAt_applied_groups
    (hne : operatorGroupOverlay (tenantMerged config dbPool overrides) tenantId ≠ [])
    (q : List String) :
    nodeAt ("groups" :: q) (applyOperatorOverlay (tenantMerged config dbPool overrides) tenantId) =
      (Tree.laid (Tree.laid (config.json.tree.sub "groups")
          ((Json.obj (tenantLayer config dbPool overrides)).tree.sub "groups"))
        (Json.obj (operatorGroupOverlay (tenantMerged config dbPool overrides) tenantId)).tree).node
          q := by
  rw [applyOperatorOverlay, if_neg (by simpa using hne)]
  refine (nodeAt_groups_set
    (uniqueKeys_operatorGroupOverlay config dbPool overrides tenantId) q).trans ?_
  apply Tree.laid_congr_left
  rw [← Tree.laid_sub rfl]
  exact node_tenantMerged config dbPool overrides ("groups" :: q)

end

theorem nodeAt_applied_of_ne {fields : List (String × Json)} {tenantId k : String}
    (hk : k ≠ "groups") (q : List String) :
    nodeAt (k :: q) (applyOperatorOverlay (.obj fields) tenantId) = nodeAt (k :: q) (.obj fields) := by
  rw [applyOperatorOverlay]
  split
  · rfl
  · rw [nodeAt_set, if_neg hk]

theorem nodeAt_applied_nil (fields : List (String × Json)) (tenantId : String) :
    nodeAt [] (applyOperatorOverlay (.obj fields) tenantId) = some .branch := by
  rw [applyOperatorOverlay]
  split <;> rfl

end TokenProxy.Config
