/-
  TokenProxy/OperatorPrecedence.lean
  ==================================
  **Whether the operator's settings win over the tenant's.**

  The pipeline reads the operator's block back out of the config that the tenant's
  override was merged into, so an override that touches `tenants` changes the block.
  `operatorWins_iff` says of every config file and every override which leaves of the
  file's own block keep their value: those that the override leaves alone, and where it
  takes the whole block away those that the config has the operator's value for anyway.
-/
import TokenProxy.ConfigLayers

namespace TokenProxy.Config

open Json

variable (config : ConfigFile) (dbPool : Bool) (overrides : Option Parsed) (tenantId : String)

/-- The file's own block for the tenant sets `value` at `path`. -/
def OperatorSets (path : List String) (value : Json) : Prop :=
  nodeAt path (.obj (operatorGroupOverlay config.json tenantId)) = some (.leaf value)

/-- In the effective config every leaf of the block has the operator's value. -/
def OperatorWins (merged : Json) : Prop :=
  ∀ path value, OperatorSets config tenantId path value →
    nodeAt ("groups" :: path) merged = some (.leaf value)

/-- The override has nothing at the leaf and cuts nothing off above it, or sets it to the
same value. -/
def LeavesAlone (path : List String) (value : Json) : Prop :=
  let layer := (Json.obj (tenantLayer config dbPool overrides)).tree
  (layer.node (operatorPath tenantId ++ path) = none ∧
    ¬ layer.Cut (operatorPath tenantId ++ path)) ∨
  layer.node (operatorPath tenantId ++ path) = some (.leaf value)

/-- The override has a value that is no dict at the block or above it. -/
def BlockTaken : Prop :=
  ∃ q r v, operatorPath tenantId = q ++ r ∧
    nodeAt q (.obj (tenantLayer config dbPool overrides)) = some (.leaf v)

/-- The override, or else the config file, sets `groups` to the value there. -/
def SetsAnyway (path : List String) (value : Json) : Prop :=
  let layer := (Json.obj (tenantLayer config dbPool overrides)).tree
  layer.node ("groups" :: path) = some (.leaf value) ∨
    (layer.node ("groups" :: path) = none ∧ ¬ layer.Cut ("groups" :: path) ∧
      nodeAt ("groups" :: path) config.json = some (.leaf value))

/-- What the override may do at the leaves of the operator's block. -/
def Respects : Prop :=
  ∀ path value, OperatorSets config tenantId path value →
    LeavesAlone config dbPool overrides tenantId path value ∨
      (BlockTaken config dbPool overrides tenantId ∧
        SetsAnyway config dbPool overrides path value)

/-! ## 1. The block as it is read back -/

variable {config dbPool overrides tenantId}

theorem nodeAt_of_operatorSets {path : List String} {value : Json}
    (h : OperatorSets config tenantId path value) :
    path ≠ [] ∧ nodeAt (operatorPath tenantId ++ path) config.json = some (.leaf value) := by
  have hne : path ≠ [] := by
    rintro rfl
    cases h
  refine ⟨hne, ?_⟩
  rw [OperatorSets, operatorGroupOverlay] at h
  cases hblock : dictAt? (operatorPath tenantId) config.json with
  | none =>
    rw [hblock] at h
    rcases path with _ | ⟨k, path⟩
    · exact absurd rfl hne
    · cases h
  | some block =>
    rw [hblock] at h
    rw [nodeAt_of_dictAt hblock]
    exact h

/-- What the tenant's config has below the block's path is what the block has, which then
is not empty. -/
theorem block_read_back {path : List String} {n : Node Json} (hne : path ≠ [])
    (h : nodeAt (operatorPath tenantId ++ path) (tenantMerged config dbPool overrides) = some n) :
    operatorGroupOverlay (tenantMerged config dbPool overrides) tenantId ≠ [] ∧
      nodeAt path (.obj (operatorGroupOverlay (tenantMerged config dbPool overrides) tenantId)) =
        some n := by
  have hbranch : nodeAt (operatorPath tenantId) (tenantMerged config dbPool overrides) =
      some .branch := by
    refine (tenantMerged config dbPool overrides).tree.rooted (operatorPath tenantId) path hne ?_
    rw [node_tree, h]
    nofun
  obtain ⟨block, hblock⟩ := dictAt_of_branch hbranch
  rw [nodeAt_of_dictAt hblock] at h
  rw [operatorGroupOverlay, hblock, Option.getD_some]
  refine ⟨?_, h⟩
  rintro rfl
  rcases path with _ | ⟨k, path⟩
  · exact hne rfl
  · cases h

theorem nodeAt_merged_of_block {path : List String} {n : Node Json} (hne : path ≠ [])
    (h : nodeAt (operatorPath tenantId ++ path) (tenantMerged config dbPool overrides) = some n) :
    nodeAt ("groups" :: path)
      (applyOperatorOverlay (tenantMerged config dbPool overrides) tenantId) = some n := by
  obtain ⟨hblock, hnode⟩ := block_read_back hne h
  rw [nodeAt_applied_groups config dbPool overrides tenantId hblock]
  exact Tree.laid_of_some hnode

/-- Without the block the config stays as the tenant's layer left it. -/
theorem applied_of_blockTaken (h : BlockTaken config dbPool overrides tenantId) :
    applyOperatorOverlay (tenantMerged config dbPool overrides) tenantId =
      tenantMerged config dbPool overrides := by
  obtain ⟨q, r, v, hpath, hleaf⟩ := h
  have hq : nodeAt q (tenantMerged config dbPool overrides) = some (.leaf v) := by
    rw [node_tenantMerged]
    exact Tree.laid_of_some hleaf
  have hnone : dictAt? (operatorPath tenantId) (tenantMerged config dbPool overrides) = none := by
    cases hdict : dictAt? (operatorPath tenantId) (tenantMerged config dbPool overrides) with
    | none => rfl
    | some block =>
      have hbranch := branch_of_dictAt hdict
      by_cases hr : r = []
      · rw [hpath, hr, List.append_nil, hq] at hbranch
        cases hbranch
      · have hcut := Tree.none_of_leaf (t := (tenantMerged config dbPool overrides).tree) hr hq
        rw [hpath] at hbranch
        exact absurd (hcut.symm.trans hbranch) nofun
  rw [applyOperatorOverlay, operatorGroupOverlay, hnone]
  rfl

/-! ## 2. One leaf -/

theorem wins_of_leavesAlone {path : List String} {value : Json}
    (hsets : OperatorSets config tenantId path value)
    (h : LeavesAlone config dbPool overrides tenantId path value) :
    nodeAt ("groups" :: path)
      (applyOperatorOverlay (tenantMerged config dbPool overrides) tenantId) =
        some (.leaf value) := by
  obtain ⟨hne, hfile⟩ := nodeAt_of_operatorSets hsets
  apply nodeAt_merged_of_block hne
  rw [node_tenantMerged]
  rcases h with ⟨hnone, hcut⟩ | hsame
  · exact (Tree.laid_of_free hnone hcut).trans hfile
  · exact Tree.laid_of_some hsame

theorem wins_of_setsAnyway {path : List String} {value : Json}
    (htaken : BlockTaken config dbPool overrides tenantId)
    (h : SetsAnyway config dbPool overrides path value) :
    nodeAt ("groups" :: path)
      (applyOperatorOverlay (tenantMerged config dbPool overrides) tenantId) =
        some (.leaf value) := by
  rw [applied_of_blockTaken htaken, node_tenantMerged]
  rcases h with hsame | ⟨hnone, hcut, hfile⟩
  · exact Tree.laid_of_some hsame
  · exact (Tree.laid_of_free hnone hcut).trans hfile

theorem setsAnyway_of_wins {path : List String} {value : Json}
    (h : nodeAt ("groups" :: path) (tenantMerged config dbPool overrides) = some (.leaf value)) :
    SetsAnyway config dbPool overrides path value := by
  rw [node_tenantMerged] at h
  cases hnode : (Json.obj (tenantLayer config dbPool overrides)).tree.node ("groups" :: path) with
  | some n =>
    rw [Tree.laid_of_some hnode] at h
    exact Or.inl (hnode.trans h)
  | none =>
    by_cases hcut : (Json.obj (tenantLayer config dbPool overrides)).tree.Cut ("groups" :: path)
    · rw [Tree.laid_of_cut hcut] at h
      cases h
    · rw [Tree.laid_of_free hnode hcut] at h
      exact Or.inr ⟨hnode, hcut, h⟩

/-- A leaf that the override sets below the block's path is in the block that is read back,
and nothing is left under it. -/
theorem not_wins_of_cut {s r : List String} {v value : Json} (hs : s ≠ []) (hr : r ≠ [])
    (hleaf : nodeAt (operatorPath tenantId ++ s) (.obj (tenantLayer config dbPool overrides)) =
      some (.leaf v)) :
    nodeAt ("groups" :: (s ++ r))
      (applyOperatorOverlay (tenantMerged config dbPool overrides) tenantId) ≠
        some (.leaf value) := by
  have hmerged : nodeAt (operatorPath tenantId ++ s) (tenantMerged config dbPool overrides) =
      some (.leaf v) := by
    rw [node_tenantMerged]
    exact Tree.laid_of_some hleaf
  obtain ⟨hblock, hnode⟩ := block_read_back hs hmerged
  rw [nodeAt_applied_groups config dbPool overrides tenantId hblock,
    Tree.laid_of_cut ⟨s, r, v, rfl, hr, hnode⟩]
  nofun

/-- The operator's value stands at one leaf exactly when the override respects it there. -/
theorem wins_iff {path : List String} {value : Json}
    (hsets : OperatorSets config tenantId path value) :
    nodeAt ("groups" :: path)
        (applyOperatorOverlay (tenantMerged config dbPool overrides) tenantId) =
          some (.leaf value) ↔
      LeavesAlone config dbPool overrides tenantId path value ∨
        (BlockTaken config dbPool overrides tenantId ∧
          SetsAnyway config dbPool overrides path value) := by
  obtain ⟨hne, hfile⟩ := nodeAt_of_operatorSets hsets
  constructor
  · intro h
    cases hnode : (Json.obj (tenantLayer config dbPool overrides)).tree.node
        (operatorPath tenantId ++ path) with
    | some n =>
      have hmerged : nodeAt (operatorPath tenantId ++ path)
          (tenantMerged config dbPool overrides) = some n := by
        rw [node_tenantMerged]
        exact Tree.laid_of_some hnode
      have hn := (nodeAt_merged_of_block hne hmerged).symm.trans h
      exact Or.inl (Or.inr (hnode.trans hn))
    | none =>
      by_cases hcut : (Json.obj (tenantLayer config dbPool overrides)).tree.Cut
          (operatorPath tenantId ++ path)
      · obtain ⟨q, r, v, heq, hr, hleaf⟩ := hcut
        have htaken : ∀ s, operatorPath tenantId = q ++ s →
            BlockTaken config dbPool overrides tenantId ∧
              SetsAnyway config dbPool overrides path value := by
          intro s hpath
          have hblock : BlockTaken config dbPool overrides tenantId := ⟨q, s, v, hpath, hleaf⟩
          rw [applied_of_blockTaken hblock] at h
          exact ⟨hblock, setsAnyway_of_wins h⟩
        rcases List.append_eq_append_iff.mp heq with ⟨s, rfl, rfl⟩ | ⟨s, hpath, -⟩
        · by_cases hs : s = []
          · exact Or.inr (htaken [] (by rw [hs, List.append_nil, List.append_nil]))
          · exact absurd h (not_wins_of_cut hs hr hleaf)
        · exact Or.inr (htaken s hpath)
      · exact Or.inl (Or.inl ⟨hnode, hcut⟩)
  · rintro (halone | ⟨htaken, hsets'⟩)
    · exact wins_of_leavesAlone hsets halone
    · exact wins_of_setsAnyway htaken hsets'

/-! ## 3. The operator's settings -/

theorem operatorWins_merged_iff {merged : Json}
    (h : effectiveConfig dbPool config.json (overrides.map Subtype.val) tenantId = some merged) :
    OperatorWins config tenantId merged ↔ Respects config dbPool overrides tenantId := by
  obtain ⟨loaded, hload, rfl⟩ := Option.map_eq_some_iff.mp h
  obtain rfl : loaded = tenantMerged config dbPool overrides := load_of_some hload
  exact forall_congr' fun path => forall_congr' fun value => forall_congr' wins_iff

/-- **When the operator's settings win.**  Of the effective config that one override gives,
and of the two that two overrides give. -/
theorem operatorWins_iff {merged merged' : Json} {overrides' : Option Parsed}
    (h : effectiveConfig dbPool config.json (overrides.map Subtype.val) tenantId = some merged)
    (h' : effectiveConfig dbPool config.json (overrides'.map Subtype.val) tenantId =
      some merged') :
    (OperatorWins config tenantId merged ↔ Respects config dbPool overrides tenantId) ∧
      (Respects config dbPool overrides tenantId → Respects config dbPool overrides' tenantId →
        ∀ path value, OperatorSets config tenantId path value →
          nodeAt ("groups" :: path) merged = nodeAt ("groups" :: path) merged') := by
  refine ⟨operatorWins_merged_iff h, ?_⟩
  intro hrespects hrespects' path value hsets
  have hwins := (operatorWins_merged_iff h).mpr hrespects path value hsets
  have hwins' := (operatorWins_merged_iff h').mpr hrespects' path value hsets
  rw [hwins, hwins']

/-- The operator has one tenant's injection guardrail block. -/
def guarded : ConfigFile where
  fields := [("groups", .obj [("G30_guardrails", .obj [("mode", .str "flag")])]),
    ("tenants", .obj [("acme", .obj [("groups", .obj [("G30_guardrails",
      .obj [("mode", .str "block")])])])])]
  unique := by decide

def ownMode : Parsed :=
  ⟨.obj [("groups", .obj [("G30_guardrails", .obj [("mode", .str "off")])])], by decide⟩

def noTenants : Parsed := ⟨.obj [("tenants", .null)], by decide⟩

theorem operatorWins_guarded :
    (OperatorWins guarded "acme" ((effectiveConfig true guarded.json (some ownMode.val)
        "acme").getD .null) ↔ Respects guarded true (some ownMode) "acme") ∧
      (Respects guarded true (some ownMode) "acme" → Respects guarded true none "acme" →
        ∀ path value, OperatorSets guarded "acme" path value →
          nodeAt ("groups" :: path) ((effectiveConfig true guarded.json (some ownMode.val)
              "acme").getD .null) =
            nodeAt ("groups" :: path) ((effectiveConfig true guarded.json none
              "acme").getD .null)) :=
  @operatorWins_iff guarded true (some ownMode) "acme" _ _ none (by decide) (by decide)

/-- An override that sets `tenants` to null takes the operator's block away. -/
theorem not_operatorWins_noTenants :
    ¬ OperatorWins guarded "acme"
      ((effectiveConfig true guarded.json (some noTenants.val) "acme").getD .null) := by
  intro h
  have hmode : some (Node.leaf (Json.str "flag")) = some (.leaf (.str "block")) :=
    h ["G30_guardrails", "mode"] (.str "block") rfl
  exact absurd hmode (by decide)

end TokenProxy.Config
