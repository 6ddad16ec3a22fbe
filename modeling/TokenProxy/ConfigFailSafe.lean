/-
  TokenProxy/ConfigFailSafe.lean
  ==============================
  **What a malformed layer does to the config.**

  `leftOutConfig` is what the two merges are to give: the same merges with every
  value left out that is no dict where the config under it has one.  `failSafe_iff`
  says when they give it.  The stored override has to be a dict, no layer may have a
  malformed node, and where the tenant's has one, the operator's block has to set
  again all that it took away.
-/
import TokenProxy.ConfigLayers

namespace TokenProxy.Config

open Json

/-! ## 1. The layers without their malformed nodes -/

/-- A config file whose `tenancy`, `groups` and group blocks are dicts. -/
structure ValidConfig extends ConfigFile where
  tenancy : ∀ v, Assoc.lookup "tenancy" fields = some v → v.isObj = true
  groups : ∀ v, Assoc.lookup "groups" fields = some v → v.isObj = true
  blocks : ∀ key v, Assoc.lookup key (groupsOf (.obj fields)) = some v → v.isObj = true

section

variable (config : ConfigFile) (dbPool : Bool) (overrides : Option Parsed) (tenantId : String)

/-- The config with the tenant's layer, its malformed nodes left out. -/
def tenantLayered : Json :=
  .obj (deepMerge config.fields
    (wellShaped config.fields (tenantLayer config dbPool overrides)))

/-- The operator's block, read out of that config as the pipeline does. -/
def operatorLayer : List (String × Json) :=
  operatorGroupOverlay (tenantLayered config dbPool overrides) tenantId

/-- What the layers are to give: both merges with the malformed nodes left out. -/
def leftOutConfig : Json :=
  let merged := tenantLayered config dbPool overrides
  let overlay := operatorLayer config dbPool overrides tenantId
  if overlay.isEmpty then merged
  else merged.set "groups" (.obj (deepMerge (groupsOf merged)
    (wellShaped (groupsOf merged) overlay)))

/-- The layers do not raise and give that config, in which every group of the config
file still has a block, the one that `resolve_group_config` returns. -/
def FailSafe : Prop :=
  ∃ merged, effectiveConfig dbPool config.json (overrides.map Subtype.val) tenantId = some merged ∧
    (∀ p, merged.tree.node p = (leftOutConfig config dbPool overrides tenantId).tree.node p) ∧
    ∀ key ∈ (groupsOf config.json).map Prod.fst,
      Assoc.lookup key (groupsOf merged) = some (.obj (resolveGroupConfig merged tenantId key))

/-- `override` has a value that is no dict where `base` has a dict. -/
def Malformed (base override : List (String × Json)) (path : List String) : Prop :=
  Tree.Clash (Json.obj base).tree (Json.obj override).tree path

/-- No layer takes away a dict for good. -/
structure Harmless : Prop where
  /-- what is stored is a dict, or Python finds it empty -/
  dict : (consulted dbPool config.json (overrides.map Subtype.val)).truthy = true →
    (consulted dbPool config.json (overrides.map Subtype.val)).isObj = true
  /-- the tenant's malformed nodes are in `groups`, under an operator's block that is not empty
  and that sets whatever the config file has at or below them -/
  hidden : ∀ path, Malformed config.fields (tenantLayer config dbPool overrides) path →
    operatorLayer config dbPool overrides tenantId ≠ [] ∧ ∃ c, path = "groups" :: c ∧
      ∀ r, config.json.tree.node ("groups" :: c ++ r) ≠ none →
        (Json.obj (operatorLayer config dbPool overrides tenantId)).tree.node (c ++ r) ≠ none
  /-- the operator's block has no malformed node -/
  shaped : ∀ path, ¬ Malformed (groupsOf (tenantLayered config dbPool overrides))
    (operatorLayer config dbPool overrides tenantId) path

/-! ## 2. Where they agree -/

theorem clash_groupsOf {config : Json} (overlay : List (String × Json)) (c : List String) :
    Tree.Clash (Json.obj (groupsOf config)).tree (Json.obj overlay).tree c ↔
      Tree.Clash (config.tree.sub "groups") (Json.obj overlay).tree c := by
  by_cases h : nodeAt ["groups"] config = some .branch
  · obtain ⟨groups, hgroups⟩ := dictAt_of_branch h
    have htree : (Json.obj (groupsOf config)).tree = config.tree.sub "groups" := by
      ext1
      funext p
      rw [groupsOf, hgroups, Option.getD_some]
      exact (nodeAt_of_dictAt hgroups p).symm
    rw [htree]
  · have hnone : dictAt? ["groups"] config = none := by
      cases hdict : dictAt? ["groups"] config with
      | none => rfl
      | some fields => exact absurd (branch_of_dictAt hdict) h
    rw [groupsOf, hnone, Option.getD_none]
    constructor
    · rintro ⟨hb, v, hv⟩
      rcases c with _ | ⟨k, c⟩
      · cases hv
      · cases hb
    · rintro ⟨hb, -⟩
      exact absurd (Tree.root_of_branch hb) h

theorem leaveOut_groupsOf {config : Json} (overlay : List (String × Json)) (q : List String) :
    (Tree.leaveOut (Json.obj (groupsOf config)).tree (Json.obj overlay).tree).node q =
      (Tree.leaveOut (config.tree.sub "groups") (Json.obj overlay).tree).node q := by
  by_cases h : Tree.Clash (config.tree.sub "groups") (Json.obj overlay).tree q
  · rw [Tree.leaveOut_of_clash h, Tree.leaveOut_of_clash ((clash_groupsOf overlay q).mpr h)]
  · rw [Tree.leaveOut_of_not_clash h,
      Tree.leaveOut_of_not_clash fun hc => h ((clash_groupsOf overlay q).mp hc)]

theorem root_leaveOut (t : Tree String Json) (fields : List (String × Json)) :
    (Tree.leaveOut t (Json.obj fields).tree).node [] = some .branch := by
  rw [Tree.leaveOut_of_not_clash]
  · rfl
  · rintro ⟨-, v, hv⟩
    cases hv

theorem node_tenantLayered (p : List String) :
    nodeAt p (tenantLayered config dbPool overrides) =
      (Tree.laid config.json.tree (Tree.leaveOut config.json.tree
        (Json.obj (tenantLayer config dbPool overrides)).tree)).node p := by
  have hunique := uniqueKeys_tenantLayer config dbPool overrides
  have htree : (Json.obj (wellShaped config.fields (tenantLayer config dbPool overrides))).tree =
      Tree.leaveOut config.json.tree (Json.obj (tenantLayer config dbPool overrides)).tree := by
    ext1
    funext q
    exact tree_wellShaped hunique q
  rw [← htree]
  exact tree_deepMerge (uniqueKeys_wellShaped config.fields hunique) p

/-- Under a key the tenant's layer does what it should exactly when it has no malformed
node there. -/
theorem tenantLayer_agree_iff (k : String) :
    (∀ q, nodeAt (k :: q) (tenantMerged config dbPool overrides) =
        nodeAt (k :: q) (tenantLayered config dbPool overrides)) ↔
      ∀ q, ¬ Malformed config.fields (tenantLayer config dbPool overrides) (k :: q) := by
  have hagree := Tree.laid_agree_iff (config.json.tree.sub k)
    ((Json.obj (tenantLayer config dbPool overrides)).tree.sub k)
  simp only [node_tenantMerged, node_tenantLayered]
  refine Iff.trans (forall_congr' fun q => ?_) hagree
  rw [Tree.laid_sub rfl, Tree.laid_sub (root_leaveOut _ _)]
  rfl

theorem not_malformed_nil (base override : List (String × Json)) :
    ¬ Malformed base override [] := by
  rintro ⟨-, v, hv⟩
  cases hv
theorem nodeAt_leftOut_of_ne {k : String} (hk : k ≠ "groups") (q : List String) :
    nodeAt (k :: q) (leftOutConfig config dbPool overrides tenantId) =
      nodeAt (k :: q) (tenantLayered config dbPool overrides) := by
  rw [leftOutConfig]
  split
  · rfl
  · rw [tenantLayered, nodeAt_set, if_neg hk]

theorem uniqueKeys_operatorLayer :
    (Json.obj (operatorLayer config dbPool overrides tenantId)).uniqueKeys = true := by
  apply uniqueKeys_dictAt_getD
  exact uniqueKeys_deepMerge config.unique
    (uniqueKeys_wellShaped config.fields (uniqueKeys_tenantLayer config dbPool overrides))

/-- Where the tenant's layer leaves `tenants` in shape, both readings find one block. -/
theorem tree_operatorLayer
    (h : ∀ q, ¬ Malformed config.fields (tenantLayer config dbPool overrides) ("tenants" :: q)) :
    (Json.obj (operatorGroupOverlay (tenantMerged config dbPool overrides) tenantId)).tree =
      (Json.obj (operatorLayer config dbPool overrides tenantId)).tree :=
  tree_operatorGroupOverlay_congr ((tenantLayer_agree_iff config dbPool overrides "tenants").mpr h)

/-- The groups under the operator's block, the tenant's malformed nodes left out. -/
theorem sub_tenantLayered :
    (tenantLayered config dbPool overrides).tree.sub "groups" =
      Tree.laid (config.json.tree.sub "groups") (Tree.leaveOut (config.json.tree.sub "groups")
        ((Json.obj (tenantLayer config dbPool overrides)).tree.sub "groups")) := by
  ext1
  funext p
  rw [Tree.node_sub]
  refine (node_tenantLayered config dbPool overrides ("groups" :: p)).trans ?_
  rw [Tree.laid_sub (root_leaveOut _ _)]
  rfl

theorem nodeAt_leftOut_groups
    (hne : operatorLayer config dbPool overrides tenantId ≠ []) (q : List String) :
    nodeAt ("groups" :: q) (leftOutConfig config dbPool overrides tenantId) =
      (Tree.laid (Tree.laid (config.json.tree.sub "groups")
          (Tree.leaveOut (config.json.tree.sub "groups")
            ((Json.obj (tenantLayer config dbPool overrides)).tree.sub "groups")))
        (Tree.leaveOut (Tree.laid (config.json.tree.sub "groups")
            (Tree.leaveOut (config.json.tree.sub "groups")
              ((Json.obj (tenantLayer config dbPool overrides)).tree.sub "groups")))
          (Json.obj (operatorLayer config dbPool overrides tenantId)).tree)).node q := by
  have hunique := uniqueKeys_operatorLayer config dbPool overrides tenantId
  have hshaped : (Json.obj (wellShaped (groupsOf (tenantLayered config dbPool overrides))
        (operatorLayer config dbPool overrides tenantId))).tree =
      Tree.leaveOut ((tenantLayered config dbPool overrides).tree.sub "groups")
        (Json.obj (operatorLayer config dbPool overrides tenantId)).tree := by
    ext1
    funext p
    exact (tree_wellShaped hunique p).trans (leaveOut_groupsOf _ p)
  rw [leftOutConfig, if_neg (by simpa using hne)]
  refine (nodeAt_groups_set (uniqueKeys_wellShaped _ hunique) q).trans ?_
  rw [← tenantLayered, hshaped, sub_tenantLayered]

theorem nodeAt_leftOut_nil :
    nodeAt [] (leftOutConfig config dbPool overrides tenantId) = some .branch := by
  rw [leftOutConfig]
  split <;> rfl

theorem malformed_operator_iff (c : List String) :
    Malformed (groupsOf (tenantLayered config dbPool overrides))
        (operatorLayer config dbPool overrides tenantId) c ↔
      Tree.Clash (Tree.laid (config.json.tree.sub "groups")
          (Tree.leaveOut (config.json.tree.sub "groups")
            ((Json.obj (tenantLayer config dbPool overrides)).tree.sub "groups")))
        (Json.obj (operatorLayer config dbPool overrides tenantId)).tree c := by
  rw [← sub_tenantLayered]
  exact clash_groupsOf _ c

/-- Away from `groups` the operator's block has no say. -/
theorem agree_elsewhere_iff :
    (∀ k, k ≠ "groups" → ∀ q,
        nodeAt (k :: q) (applyOperatorOverlay (tenantMerged config dbPool overrides) tenantId) =
          nodeAt (k :: q) (leftOutConfig config dbPool overrides tenantId)) ↔
      ∀ k, k ≠ "groups" → ∀ q,
        ¬ Malformed config.fields (tenantLayer config dbPool overrides) (k :: q) := by
  refine forall_congr' fun k => forall_congr' fun hk => ?_
  rw [← tenantLayer_agree_iff]
  simp only [tenantMerged, nodeAt_applied_of_ne hk, nodeAt_leftOut_of_ne _ _ _ _ hk]

/-- In `groups` it hides what the tenant's layer broke, if it is there and in shape. -/
theorem agree_groups_iff
    (htree : (Json.obj (operatorGroupOverlay (tenantMerged config dbPool overrides)
      tenantId)).tree = (Json.obj (operatorLayer config dbPool overrides tenantId)).tree) :
    (∀ q, nodeAt ("groups" :: q)
        (applyOperatorOverlay (tenantMerged config dbPool overrides) tenantId) =
          nodeAt ("groups" :: q) (leftOutConfig config dbPool overrides tenantId)) ↔
      (∀ c, Malformed config.fields (tenantLayer config dbPool overrides) ("groups" :: c) →
        operatorLayer config dbPool overrides tenantId ≠ [] ∧
          ∀ r, config.json.tree.node ("groups" :: c ++ r) ≠ none →
            (Json.obj (operatorLayer config dbPool overrides tenantId)).tree.node (c ++ r) ≠
              none) ∧
      ∀ c, ¬ Malformed (groupsOf (tenantLayered config dbPool overrides))
        (operatorLayer config dbPool overrides tenantId) c := by
  by_cases hempty : operatorLayer config dbPool overrides tenantId = []
  · have happlied : applyOperatorOverlay (tenantMerged config dbPool overrides) tenantId =
        tenantMerged config dbPool overrides := by
      rw [applyOperatorOverlay, (eq_nil_congr htree).mpr hempty]
      rfl
    have hleft : leftOutConfig config dbPool overrides tenantId =
        tenantLayered config dbPool overrides := by
      rw [leftOutConfig, hempty]
      rfl
    rw [happlied, hleft, tenantLayer_agree_iff, hempty]
    constructor
    · intro h
      refine ⟨fun c hc => absurd hc (h c), ?_⟩
      rintro (_ | ⟨k, c⟩) ⟨-, v, hv⟩
      · cases hv
      · cases hv
    · rintro ⟨h, -⟩ c hc
      exact (h c hc).1 rfl
  · have hne : operatorGroupOverlay (tenantMerged config dbPool overrides) tenantId ≠ [] :=
      fun h => hempty ((eq_nil_congr htree).mp h)
    simp only [nodeAt_applied_groups config dbPool overrides tenantId hne,
      nodeAt_leftOut_groups config dbPool overrides tenantId hempty, htree]
    rw [Tree.laid_laid_leaveOut_iff]
    simp only [malformed_operator_iff]
    constructor
    · rintro ⟨hshaped, hhidden⟩
      exact ⟨fun c hc => ⟨hempty, fun r hr => hhidden c r hc hr⟩, hshaped⟩
    · rintro ⟨hhidden, hshaped⟩
      exact ⟨hshaped, fun c r hc hr => (hhidden c hc).2 r hr⟩

/-- The layers end as they would with the malformed nodes left out. -/
theorem applied_agree_iff :
    (∀ p, nodeAt p (applyOperatorOverlay (tenantMerged config dbPool overrides) tenantId) =
        nodeAt p (leftOutConfig config dbPool overrides tenantId)) ↔
      (∀ path, Malformed config.fields (tenantLayer config dbPool overrides) path →
        operatorLayer config dbPool overrides tenantId ≠ [] ∧ ∃ c, path = "groups" :: c ∧
          ∀ r, config.json.tree.node ("groups" :: c ++ r) ≠ none →
            (Json.obj (operatorLayer config dbPool overrides tenantId)).tree.node (c ++ r) ≠
              none) ∧
      ∀ path, ¬ Malformed (groupsOf (tenantLayered config dbPool overrides))
        (operatorLayer config dbPool overrides tenantId) path := by
  have htree := tree_operatorLayer config dbPool overrides tenantId
  constructor
  · intro h
    have hoff := (agree_elsewhere_iff config dbPool overrides tenantId).mp
      fun k _ q => h (k :: q)
    obtain ⟨hhidden, hshaped⟩ := (agree_groups_iff config dbPool overrides tenantId
      (htree (hoff "tenants" (by decide)))).mp fun q => h ("groups" :: q)
    refine ⟨?_, hshaped⟩
    rintro (_ | ⟨k, c⟩) hbad
    · exact absurd hbad (not_malformed_nil _ _)
    · by_cases hk : k = "groups"
      · subst hk
        exact ⟨(hhidden c hbad).1, c, rfl, (hhidden c hbad).2⟩
      · exact absurd hbad (hoff k hk c)
  · rintro ⟨hhidden, hshaped⟩
    have hoff : ∀ k, k ≠ "groups" → ∀ q, ¬ Malformed config.fields
        (tenantLayer config dbPool overrides) (k :: q) := by
      intro k hk q hbad
      obtain ⟨-, c, heq, -⟩ := hhidden _ hbad
      exact hk (List.cons.inj heq).1
    rintro (_ | ⟨k, q⟩)
    · rw [tenantMerged, nodeAt_applied_nil, nodeAt_leftOut_nil]
    · by_cases hk : k = "groups"
      · subst hk
        refine (agree_groups_iff config dbPool overrides tenantId
          (htree (hoff "tenants" (by decide)))).mpr ⟨fun c hbad => ?_, hshaped⟩ q
        obtain ⟨hne, c', heq, hset⟩ := hhidden _ hbad
        cases heq
        exact ⟨hne, hset⟩
      · exact (agree_elsewhere_iff config dbPool overrides tenantId).mpr hoff k hk q

/-! ## 3. Every group keeps its block -/

theorem dictAt_of_lookup_groups {config : Json} {key : String} {block : List (String × Json)}
    (h : Assoc.lookup key (groupsOf config) = some (.obj block)) :
    dictAt? ["groups", key] config = some block := by
  have happend := dictAt_append ["groups"] [key] config
  rw [groupsOf] at h
  cases hgroups : dictAt? ["groups"] config with
  | none =>
    rw [hgroups] at h
    cases h
  | some groups =>
    rw [hgroups, Option.getD_some] at h
    rw [hgroups, Option.bind_some, dictAt?, Json.get?, h] at happend
    exact happend

theorem lookup_groups_of_branch {config : Json} {key : String}
    (h : nodeAt ["groups", key] config = some .branch) :
    ∃ block, Assoc.lookup key (groupsOf config) = some (.obj block) := by
  obtain ⟨block, hblock⟩ := dictAt_of_branch h
  have happend := dictAt_append ["groups"] [key] config
  rw [List.singleton_append, hblock] at happend
  obtain ⟨groups, hgroups, hkey⟩ := Option.bind_eq_some_iff.mp happend.symm
  obtain ⟨v, hv, hfields⟩ := Option.bind_eq_some_iff.mp hkey
  refine ⟨block, ?_⟩
  rw [groupsOf, hgroups, Option.getD_some]
  cases v with
  | obj fields =>
    cases hfields
    exact hv
  | _ => cases hfields

/-- A dict of the config file survives layers whose malformed nodes are left out. -/
theorem leftOut_block {key : String} {block : List (String × Json)}
    (h : Assoc.lookup key (groupsOf config.json) = some (.obj block)) :
    nodeAt ["groups", key] (leftOutConfig config dbPool overrides tenantId) = some .branch := by
  have hbase : (config.json.tree.sub "groups").node [key] = some .branch :=
    branch_of_dictAt (dictAt_of_lookup_groups h)
  have hlayered := Tree.laid_leaveOut_of_branch hbase
    ((Json.obj (tenantLayer config dbPool overrides)).tree.sub "groups")
  by_cases hempty : operatorLayer config dbPool overrides tenantId = []
  · rw [leftOutConfig, hempty, ← hlayered, ← sub_tenantLayered]
    rfl
  · rw [nodeAt_leftOut_groups config dbPool overrides tenantId hempty]
    exact Tree.laid_leaveOut_of_branch hlayered _

/-- A block that is a dict is the one `resolve_group_config` returns: laying the
operator's block over it once more changes nothing. -/
theorem resolveGroupConfig_applied {fields : List (String × Json)} {key : String}
    {block : List (String × Json)} (hunique : (Json.obj fields).uniqueKeys = true)
    (h : Assoc.lookup key (groupsOf (applyOperatorOverlay (.obj fields) tenantId)) =
      some (.obj block)) :
    resolveGroupConfig (applyOperatorOverlay (.obj fields) tenantId) tenantId key = block := by
  have hempty : ∀ base overlay : List (String × Json),
      (if overlay.isEmpty then base else deepMerge base overlay) = deepMerge base overlay := by
    intro base overlay
    split
    · rename_i hnil
      rw [List.isEmpty_iff.mp hnil, deepMerge_nil]
    · rfl
  have hpath : dictAt? (operatorPath tenantId) (applyOperatorOverlay (.obj fields) tenantId) =
      dictAt? (operatorPath tenantId) (.obj fields) := by
    rw [applyOperatorOverlay]
    split
    · rfl
    · rw [operatorPath, dictAt?, get?_set_of_ne _ (by decide)]
      rfl
  rw [resolveGroupConfig, dictAt_of_lookup_groups h, Option.getD_some, hempty, dictAt_append,
    hpath]
  cases hblock : dictAt? (operatorPath tenantId) (.obj fields) with
  | none => exact deepMerge_nil block
  | some overlay =>
    have hoverlay : operatorGroupOverlay (.obj fields) tenantId = overlay := by
      rw [operatorGroupOverlay, hblock]
      rfl
    have huniqueOverlay := uniqueKeys_dictAt hunique hblock
    rw [Option.bind_some, dictAt?, Json.get?]
    cases hkey : Assoc.lookup key overlay with
    | none => exact deepMerge_nil block
    | some w =>
      rw [Option.bind_some]
      cases w with
      | obj own =>
        have hne : ¬ overlay.isEmpty = true := by
          rintro hnil
          rw [List.isEmpty_iff.mp hnil] at hkey
          cases hkey
        rw [applyOperatorOverlay, hoverlay, if_neg hne, groupsOf, dictAt?, get?_set_self] at h
        change Assoc.lookup key (deepMerge (groupsOf (.obj fields)) overlay) = _ at h
        rw [lookup_deepMerge key ((uniqueKeys_obj_iff overlay).mp huniqueOverlay).1, hkey] at h
        have hagain := mergedValue_again (.obj own) (uniqueKeys_lookup huniqueOverlay hkey)
          (Assoc.lookup key (groupsOf (.obj fields)))
        rw [Option.some_inj.mp h, mergedValue_obj] at hagain
        exact Json.obj.inj hagain
      | _ => exact deepMerge_nil block

end

/-- **When the layers are fail-safe.** -/
theorem failSafe_iff (config : ValidConfig) (dbPool : Bool) (overrides : Option Parsed)
    (tenantId : String) :
    FailSafe config.toConfigFile dbPool overrides tenantId ↔
      Harmless config.toConfigFile dbPool overrides tenantId := by
  have hvalid : perTenantEnabled? config.json ≠ none := by
    rw [perTenantEnabled?, Json.getD, ConfigFile.json, Json.get?]
    cases h : Assoc.lookup "tenancy" config.fields with
    | none => exact Option.some_ne_none _
    | some v =>
      obtain ⟨fields, rfl⟩ := isObj_iff.mp (config.tenancy v h)
      exact Option.some_ne_none _
  have hmerged : ∀ loaded, load dbPool (overrides.map Subtype.val) config.json = some loaded →
      loaded = tenantMerged config.toConfigFile dbPool overrides := fun _ => load_of_some
  constructor
  · rintro ⟨merged, heffective, hnodes, -⟩
    obtain ⟨loaded, hload, rfl⟩ := Option.map_eq_some_iff.mp heffective
    have hdict := (load_returns_iff hvalid).mp ⟨loaded, hload⟩
    obtain rfl := hmerged loaded hload
    obtain ⟨hhidden, hshaped⟩ :=
      (applied_agree_iff config.toConfigFile dbPool overrides tenantId).mp hnodes
    exact ⟨hdict, hhidden, hshaped⟩
  · rintro ⟨hdict, hhidden, hshaped⟩
    obtain ⟨loaded, hload⟩ := (load_returns_iff hvalid).mpr hdict
    obtain rfl := hmerged loaded hload
    have hnodes := (applied_agree_iff config.toConfigFile dbPool overrides tenantId).mpr
      ⟨hhidden, hshaped⟩
    refine ⟨_, congrArg (Option.map fun merged => applyOperatorOverlay merged tenantId) hload,
      hnodes, ?_⟩
    intro key hkey
    have hfile : ∃ v, Assoc.lookup key (groupsOf config.json) = some v := by
      rw [← Option.ne_none_iff_exists', Ne, Assoc.lookup_eq_none_iff]
      exact not_not_intro hkey
    obtain ⟨v, hv⟩ := hfile
    obtain ⟨own, rfl⟩ := isObj_iff.mp (config.blocks key v hv)
    obtain ⟨block, hblock⟩ := lookup_groups_of_branch ((hnodes ["groups", key]).trans
      (leftOut_block config.toConfigFile dbPool overrides tenantId hv))
    have hresolve : resolveGroupConfig (applyOperatorOverlay
        (tenantMerged config.toConfigFile dbPool overrides) tenantId) tenantId key = block :=
      resolveGroupConfig_applied tenantId (uniqueKeys_deepMerge config.unique
        (uniqueKeys_tenantLayer config.toConfigFile dbPool overrides)) hblock
    rw [hblock, hresolve]

/-- A scalar under a group's key in the operator's YAML replaces the group's block. -/
def misindented : ValidConfig where
  fields := [("groups", .obj [("G5_cache", .obj [("enabled", .bool true)])]),
    ("tenants", .obj [("acme", .obj [("groups", .obj [("G5_cache", .str "off")])])])]
  unique := by decide
  tenancy := nofun
  groups v h := by
    cases h
    rfl
  blocks key v h := by
    change Assoc.lookup key [("G5_cache", Json.obj [("enabled", .bool true)])] = some v at h
    rw [Assoc.lookup_cons] at h
    split at h
    · cases h
      rfl
    · cases h

theorem not_failSafe_misindented :
    ¬ FailSafe misindented.toConfigFile true none "acme" := by
  rintro ⟨merged, heffective, hnodes, -⟩
  have hmerged : merged = .obj [("groups", .obj [("G5_cache", .str "off")]),
      ("tenants", .obj [("acme", .obj [("groups", .obj [("G5_cache", .str "off")])])])] :=
    (Option.some_inj.mp heffective).symm.trans (by decide)
  subst hmerged
  have hblock : some (Node.leaf (Json.str "off")) = some .branch := hnodes ["groups", "G5_cache"]
  cases hblock

end TokenProxy.Config
