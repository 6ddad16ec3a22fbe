/-
  TokenProxy/LifecycleEntries.lean
  ================================
  **What the lifecycle operations write into the Postgres key store.**

  Every entry that an operation changes is in the form that a full load gives it,
  with two exceptions: `create_key` stores a tier of blanks as the empty text, and
  its extra metadata may have a large double that is read back as another number.

  Main result: `transact_returns_stored`, the exact condition for every mutation,
  and what is left of it for the lifecycle operations.
-/
import TokenProxy.KeyStoreRestriction
import TokenProxy.PgTransaction

namespace TokenProxy.PgKeyStore

open KeyStore

/-! ## 1. Entries that were loaded -/

/-- What `_row_args` puts into the `extra` column. -/
structure PlainRow (row : Row) : Prop where
  distinct : row.extra.distinctKeys = true
  notCore : ∀ field ∈ extraOf row, field.1 ∉ coreFields
  exact : ∀ field ∈ extraOf row, exactNumbers field.2 = true

def PlainTable (keys : KeyTable) : Prop := ∀ h row, keys.get? h = some row → PlainRow row

theorem distinctKeys_of_lookup {fields : List (String × Json)}
    (hnodup : (fields.map Prod.fst).Nodup)
    (hvalues : ∀ k v, Assoc.lookup k fields = some v → v.distinctKeys = true) :
    (Json.obj fields).distinctKeys = true :=
  (Json.distinctKeys_obj_iff fields).mpr
    ⟨hnodup, fun e he => hvalues e.1 e.2 (Assoc.lookup_of_mem hnodup he)⟩

theorem distinctKeys_set {entry v : Json} {key : String} (h : entry.distinctKeys = true)
    (hv : v.distinctKeys = true) : (entry.set key v).distinctKeys = true := by
  cases entry with
  | obj fields =>
    have hfields := (Json.distinctKeys_obj_iff fields).mp h
    refine distinctKeys_of_lookup (Assoc.nodup_insert hfields.1 key v) fun k w hw => ?_
    rw [Assoc.lookup_insert] at hw
    split at hw
    · cases hw
      exact hv
    · exact hfields.2 _ (Assoc.mem_of_lookup hw)
  | _ => exact h

theorem distinctKeys_pop {entry : Json} {key : String} (h : entry.distinctKeys = true) :
    (entry.pop key).distinctKeys = true := by
  cases entry with
  | obj fields =>
    have hfields := (Json.distinctKeys_obj_iff fields).mp h
    refine distinctKeys_of_lookup (Assoc.nodup_filter hfields.1 _) fun k w hw => ?_
    rw [Assoc.lookup_erase] at hw
    split at hw
    · cases hw
    · exact hfields.2 _ (Assoc.mem_of_lookup hw)
  | _ => exact h

theorem distinctKeys_rowToMeta {row : Row} (h : PlainRow row) :
    (rowToMeta row).distinctKeys = true := by
  obtain ⟨fields, hobj, hnodup, hlookup⟩ := rowToMeta_spec row
  rw [hobj]
  refine distinctKeys_of_lookup hnodup fun k v hv => ?_
  rw [hlookup, Option.or_eq_some_iff] at hv
  rcases hv with hcolumn | ⟨-, hextra⟩
  · simp only [columnsOf] at hcolumn
    split_ifs at hcolumn with htenant htier hcreated
    all_goals cases hcolumn
    all_goals try rfl
    rw [createdAtOf]
    cases row.createdAt <;> rfl
  · have hdistinct := h.distinct
    rw [extraOf] at hextra
    cases hrow : row.extra with
    | obj extra =>
      rw [hrow] at hextra hdistinct
      exact ((Json.distinctKeys_obj_iff extra).mp hdistinct).2 _ (Assoc.mem_of_lookup hextra)
    | _ =>
      rw [hrow] at hextra
      cases hextra

theorem canonical_rowToMeta {row : Row} (h : PlainRow row) : Canonical (rowToMeta row) := by
  have hextra : ∀ k ∈ coreFields, Assoc.lookup k (extraOf row) = none := by
    intro k hk
    rw [Assoc.lookup_eq_none_iff]
    intro hmem
    obtain ⟨field, hfield, rfl⟩ := List.mem_map.mp hmem
    exact h.notCore field hfield hk
  refine ⟨⟨row.tenantId, ?_⟩, ⟨tierOf row, ?_, ?_⟩, ⟨createdAtOf row, ?_⟩, ?_, ?_, ?_⟩
  · simp [get?_rowToMeta, columnsOf]
  · simp [get?_rowToMeta, columnsOf]
  · rw [tierOf]
    split
    · decide
    · assumption
  · simp [get?_rowToMeta, columnsOf]
  · intro v hv
    rw [get?_rowToMeta, hextra "admin" (by decide)] at hv
    have hv' : row.admin = true ∧ Json.bool true = v := by simpa [columnsOf] using hv
    rw [← hv'.2]
    rfl
  · intro v hv
    rw [get?_rowToMeta, hextra "suspended" (by decide)] at hv
    have hv' : row.suspended = true ∧ Json.bool true = v := by simpa [columnsOf] using hv
    rw [← hv'.2]
    rfl
  · intro k v hcore hv
    have hcolumns : columnsOf row k = none := by
      simp only [coreFields, List.mem_cons, List.not_mem_nil, or_false, not_or] at hcore
      simp [columnsOf, hcore]
    rw [get?_rowToMeta, hcolumns, Option.none_or] at hv
    exact h.exact _ (Assoc.mem_of_lookup hv)

theorem plain_storeOf {keys : KeyTable} (hplain : PlainTable keys) {h : String} {entry : Json}
    (hget : (storeOf keys).get? h = some entry) :
    entry.distinctKeys = true ∧ Canonical entry ∧ entry.isObj = true := by
  rw [get?_storeOf, Option.map_eq_some_iff] at hget
  obtain ⟨row, hrow, rfl⟩ := hget
  obtain ⟨fields, hobj, -⟩ := rowToMeta_spec row
  exact ⟨distinctKeys_rowToMeta (hplain h row hrow), canonical_rowToMeta (hplain h row hrow),
    by rw [hobj]; rfl⟩

/-! ## 2. Entries that an operation changes -/

theorem Canonical.of_same {entry entry' : Json} (h : Canonical entry)
    (hcolumns : ∀ k ∈ ["tenant_id", "tier", "created_at"], entry'.get? k = entry.get? k)
    (hflags : ∀ k ∈ ["admin", "suspended"], ∀ v, entry'.get? k = some v →
      entry.get? k = some v ∨ v = .bool true)
    (hothers : ∀ k v, entry'.get? k = some v →
      entry.get? k = some v ∨ exactNumbers v = true) : Canonical entry' where
  tenant := by
    rw [hcolumns "tenant_id" (by simp)]
    exact h.tenant
  tier := by
    rw [hcolumns "tier" (by simp)]
    exact h.tier
  createdAt := by
    rw [hcolumns "created_at" (by simp)]
    exact h.createdAt
  admin v hv := by
    rcases hflags "admin" (by simp) v hv with hold | rfl
    · exact h.admin v hold
    · rfl
  suspended v hv := by
    rcases hflags "suspended" (by simp) v hv with hold | rfl
    · exact h.suspended v hold
    · rfl
  numbers k v hcore hv := by
    rcases hothers k v hv with hold | hexact
    · exact h.numbers k v hcore hold
    · exact hexact

theorem columns_core : ∀ k ∈ ["tenant_id", "tier", "created_at"], k ∈ coreFields := by decide

theorem flags_core : ∀ k ∈ ["admin", "suspended"], k ∈ coreFields := by decide

theorem Canonical.set {entry v : Json} {key : String} (h : Canonical entry)
    (hkey : key ∉ coreFields ∨ (key = "suspended" ∧ v = .bool true))
    (hexact : exactNumbers v = true) : Canonical (entry.set key v) := by
  have hne : ∀ k ∈ ["tenant_id", "tier", "created_at"], k ≠ key := by
    rintro k hk rfl
    rcases hkey with hkey | ⟨rfl, -⟩
    · exact hkey (columns_core k hk)
    · simp at hk
  obtain ⟨text, htenant⟩ := h.tenant
  obtain ⟨fields, rfl⟩ := Json.isObj_of_get? htenant
  refine h.of_same (fun k hk => Json.get?_set_of_ne _ (hne k hk) v) ?_ ?_
  · intro k hk w hw
    by_cases heq : k = key
    · subst heq
      rw [Json.get?_set_self] at hw
      rcases hkey with hkey | ⟨-, rfl⟩
      · exact absurd (flags_core k hk) hkey
      · exact Or.inr (Option.some.inj hw).symm
    · rw [Json.get?_set_of_ne _ heq] at hw
      exact Or.inl hw
  · intro k w hw
    by_cases heq : k = key
    · subst heq
      rw [Json.get?_set_self] at hw
      exact Or.inr (Option.some.inj hw ▸ hexact)
    · rw [Json.get?_set_of_ne _ heq] at hw
      exact Or.inl hw

theorem Canonical.pop {entry : Json} {key : String} (h : Canonical entry)
    (hkey : key ∉ ["tenant_id", "tier", "created_at"]) : Canonical (entry.pop key) := by
  have hleft : ∀ k v, (entry.pop key).get? k = some v → entry.get? k = some v := by
    intro k v hv
    rw [Json.get?_pop] at hv
    split at hv
    · cases hv
    · exact hv
  refine h.of_same (fun k hk => ?_) (fun k _ v hv => Or.inl (hleft k v hv))
    fun k v hv => Or.inl (hleft k v hv)
  rw [Json.get?_pop, if_neg (by rintro rfl; exact hkey hk)]

theorem distinctKeys_allowlist (cidrs : List String) :
    (Json.arr (cidrs.map Json.str)).distinctKeys = true := by
  rw [Json.distinctKeys]
  induction cidrs with
  | nil => rfl
  | cons cidr cidrs ih => exact ih

theorem exactNumbers_allowlist (cidrs : List String) :
    exactNumbers (Json.arr (cidrs.map Json.str)) = true := by
  rw [exactNumbers, exactNumbersItems_iff]
  intro v hv
  obtain ⟨cidr, -, rfl⟩ := List.mem_map.mp hv
  rfl

/-- What stands in a dict behind a new field: what stood there, or the field's value. -/
theorem exact_of_set {entry value v : Json} {key k : String} (hexact : exactNumbers value = true)
    (h : (entry.set key value).get? k = some v) :
    entry.get? k = some v ∨ exactNumbers v = true := by
  by_cases hk : k = key
  · subst hk
    cases entry with
    | obj fields =>
      rw [Json.get?_set_self] at h
      exact Or.inr (Option.some.inj h ▸ hexact)
    | _ => cases h
  · rw [Json.get?_set_of_ne entry hk] at h
    exact Or.inl h

theorem exact_of_stamp {stamp : Bool} {metadata v : Json} {key k : String}
    (h : (if stamp then metadata.set key (.bool true) else metadata).get? k = some v) :
    metadata.get? k = some v ∨ exactNumbers v = true := by
  split at h
  · exact exact_of_set rfl h
  · exact Or.inl h

theorem exact_of_withAllowlist {metadata v : Json} {cidrs : List String} {k : String}
    (h : (withAllowlist metadata cidrs).get? k = some v) :
    metadata.get? k = some v ∨ exactNumbers v = true := by
  rw [withAllowlist] at h
  split at h
  · exact Or.inl h
  · exact exact_of_set (exactNumbers_allowlist cidrs) h

theorem eq_true_of_stamp {stamp : Bool} {metadata v : Json} {key : String}
    (hmetadata : metadata.get? key = none)
    (h : (if stamp then metadata.set key (.bool true) else metadata).get? key = some v) :
    v = .bool true := by
  split at h
  · cases metadata with
    | obj fields =>
      rw [Json.get?_set_self] at h
      exact (Option.some.inj h).symm
    | _ => cases h
  · rw [hmetadata] at h
    cases h

/-- The extra metadata that a new key keeps is read back as it is. -/
def ExactExtra (request : KeyRequest) : Prop :=
  ∀ k v, k ∉ reservedFields → Assoc.lookup k request.extra = some v → exactNumbers v = true

theorem lookup_filter_key {p : String → Bool} {k : String} (fields : List (String × Json))
    (hk : p k = true) :
    Assoc.lookup k (fields.filter fun e => p e.1) = Assoc.lookup k fields := by
  induction fields with
  | nil => rfl
  | cons e rest ih =>
    rw [List.filter_cons, Assoc.lookup_cons]
    by_cases he : e.1 = k
    · rw [he, if_pos hk, if_pos rfl, Assoc.lookup_cons, if_pos he]
    · rw [if_neg he, ← ih]
      split
      · rw [Assoc.lookup_cons, if_neg he]
      · rfl

theorem core_reserved : ∀ k ∈ coreFields, k ∈ reservedFields := by decide

/-- What a new key shows under a name that is not reserved. -/
theorem get?_issued_of_free {tenantId createdAt k : String} {request : KeyRequest}
    (cidrs : List String) (hk : k ∉ reservedFields) :
    (withAllowlist (newMetadata tenantId request createdAt) cidrs).get? k =
      Assoc.lookup k request.extra := by
  have hfree := hk
  simp only [reservedFields, List.mem_cons, List.not_mem_nil, or_false, not_or] at hfree
  obtain ⟨htenant, htier, hcreated, hadmin, -, -, hallowlist, hgateway⟩ := hfree
  rw [get?_withAllowlist_of_ne _ _ hallowlist]
  simp only [newMetadata]
  rw [get?_stamp_of_ne request.gateway _ hgateway, get?_stamp_of_ne request.admin _ hadmin,
    Json.get?_set_of_ne _ hcreated, Json.get?_set_of_ne _ htier, Json.get?_set_of_ne _ htenant]
  exact @lookup_filter_key (fun k => decide (k ∉ reservedFields)) k _ (decide_eq_true hk)

/-- What a new key shows is exact, or it is extra metadata. -/
theorem exact_issued {tenantId createdAt k : String} {request : KeyRequest} {cidrs : List String}
    {v : Json} (h : (withAllowlist (newMetadata tenantId request createdAt) cidrs).get? k = some v)
    (hexact : ExactExtra request) : exactNumbers v = true := by
  by_cases hk : k ∈ reservedFields
  · have hbase : (Json.obj (request.extra.filter fun e => e.1 ∉ reservedFields)).get? k = none := by
      apply (Assoc.lookup_eq_none_iff _ _).mpr
      intro hmem
      obtain ⟨e, he, rfl⟩ := List.mem_map.mp hmem
      exact of_decide_eq_true (List.mem_filter.mp he).2 hk
    rcases exact_of_withAllowlist h with h | hv
    · simp only [newMetadata] at h
      rcases exact_of_stamp h with h | hv
      · rcases exact_of_stamp h with h | hv
        · rcases exact_of_set rfl h with h | hv
          · rcases exact_of_set rfl h with h | hv
            · rcases exact_of_set rfl h with h | hv
              · rw [hbase] at h
                cases h
              · exact hv
            · exact hv
          · exact hv
        · exact hv
      · exact hv
    · exact hv
  · rw [get?_issued_of_free cidrs hk] at h
    exact hexact k v hk h

/-- A new key is in that form when its tier is not blank and its extra metadata is exact. -/
theorem canonical_issued_iff (tenantId createdAt : String) (request : KeyRequest)
    (cidrs : List String) :
    Canonical (withAllowlist (newMetadata tenantId request createdAt) cidrs) ↔
      request.tier ≠ "" ∧ ExactExtra request := by
  have htier : (withAllowlist (newMetadata tenantId request createdAt) cidrs).get? "tier" =
      some (.str request.tier) := by
    rw [get?_withAllowlist_of_ne _ _ (by decide)]
    simp only [newMetadata]
    rw [get?_stamp_of_ne request.gateway _ (by decide),
      get?_stamp_of_ne request.admin _ (by decide), Json.get?_set_of_ne _ (by decide)]
    exact Json.get?_set_self _ _ _
  constructor
  · intro h
    obtain ⟨text, htext, hne⟩ := h.tier
    rw [htier, Option.some.injEq, Json.str.injEq] at htext
    refine ⟨htext ▸ hne, ?_⟩
    intro k v hk hv
    rw [← get?_issued_of_free cidrs hk] at hv
    exact h.numbers k v (fun hcore => hk (core_reserved k hcore)) hv
  · rintro ⟨hne, hexact⟩
    refine ⟨⟨tenantId, ?_⟩, ⟨_, htier, hne⟩, ⟨.str createdAt, ?_⟩, ?_, ?_, ?_⟩
    · rw [get?_withAllowlist_of_ne _ _ (by decide)]
      exact get?_newMetadata_tenant tenantId createdAt request
    · rw [get?_withAllowlist_of_ne _ _ (by decide)]
      simp only [newMetadata]
      rw [get?_stamp_of_ne request.gateway _ (by decide),
        get?_stamp_of_ne request.admin _ (by decide)]
      exact Json.get?_set_self _ _ _
    · intro v hv
      rw [get?_withAllowlist_of_ne _ _ (by decide)] at hv
      simp only [newMetadata] at hv
      rw [get?_stamp_of_ne request.gateway _ (by decide)] at hv
      have hbase : (Json.obj (request.extra.filter fun e => e.1 ∉ reservedFields)).get? "admin" =
          none := by
        apply (Assoc.lookup_eq_none_iff _ _).mpr
        intro hmem
        obtain ⟨e, he, hname⟩ := List.mem_map.mp hmem
        exact of_decide_eq_true (List.mem_filter.mp he).2 (hname ▸ by decide)
      rw [eq_true_of_stamp (by rw [Json.get?_set_of_ne _ (by decide),
        Json.get?_set_of_ne _ (by decide), Json.get?_set_of_ne _ (by decide), hbase]) hv]
      rfl
    · intro v hv
      rw [get?_withAllowlist_of_ne _ _ (by decide),
        get?_newMetadata_of_reserved _ _ _ (by decide) (by decide)] at hv
      cases hv
    · intro k v _ hv
      exact exact_issued hv hexact

theorem canonical_rotated {tenantId createdAt : String} {newest : Json} {cidrs : List String}
    {suspended : Bool} (h : Canonical newest) :
    Canonical (rotatedMetadata tenantId createdAt newest cidrs suspended) := by
  obtain ⟨tier, htier, hne⟩ := h.tier
  have hinherited : (fieldOf newest "tier").orElse (.str "free") = .str tier := by
    rw [fieldOf, Json.getD, htier, Option.getD_some, Json.orElse, Json.truthy,
      decide_eq_true hne, if_pos rfl]
  refine ⟨⟨tenantId, rotatedMetadata_tenant ..⟩, ⟨tier, ?_, hne⟩, ⟨.str createdAt, ?_⟩, ?_, ?_, ?_⟩
  · rw [get?_rotatedMetadata _ _ _ _ _ (by decide), get?_carryOver, hinherited]
    rfl
  · rw [get?_rotatedMetadata _ _ _ _ _ (by decide), get?_carryOver]
    rfl
  · intro v hv
    simp only [rotatedMetadata] at hv
    rw [get?_stamp_of_ne suspended _ (by decide)] at hv
    have hflag : ∀ metadata : Json, (if fieldOf newest "gateway" = .bool true then
        metadata.set "gateway" (.bool true) else metadata).get? "admin" =
          metadata.get? "admin" := by
      intro metadata
      split
      · exact Json.get?_set_of_ne metadata (by decide) _
      · rfl
    rw [hflag] at hv
    rw [eq_true_of_stamp (by rw [get?_withAllowlist_of_ne _ _ (by decide), get?_carryOver]; rfl) hv]
    rfl
  · intro v hv
    cases suspended with
    | true =>
      rw [rotatedMetadata_suspended] at hv
      cases hv
      rfl
    | false =>
      simp only [rotatedMetadata, Bool.false_eq_true, if_false] at hv
      have hflag : ∀ metadata : Json, (if fieldOf newest "gateway" = .bool true then
          metadata.set "gateway" (.bool true) else metadata).get? "suspended" =
            metadata.get? "suspended" := by
        intro metadata
        split
        · exact Json.get?_set_of_ne metadata (by decide) _
        · rfl
      rw [hflag, get?_stamp_of_ne _ _ (by decide), get?_withAllowlist_of_ne _ _ (by decide),
        get?_carryOver] at hv
      cases hv
  · intro k v hcore hv
    obtain ⟨fields, rfl⟩ := Json.isObj_of_get? htier
    have hbase : Assoc.lookup k [("tenant_id", Json.str tenantId), ("tier", .str tier),
        ("created_at", .str createdAt)] = none := by
      simp only [coreFields, List.mem_cons, List.not_mem_nil, or_false, not_or] at hcore
      simp [Assoc.lookup, Ne.symm hcore.1, Ne.symm hcore.2.1, Ne.symm hcore.2.2.2.2]
    simp only [rotatedMetadata, hinherited] at hv
    rcases exact_of_stamp hv with hv | hexact
    · have hflag : ∀ metadata : Json, (if fieldOf (.obj fields) "gateway" = .bool true then
          metadata.set "gateway" (.bool true) else metadata).get? k = some v →
            metadata.get? k = some v ∨ exactNumbers v = true := by
        intro metadata hv
        split at hv
        · exact exact_of_set rfl hv
        · exact Or.inl hv
      rcases hflag _ hv with hv | hexact
      · rcases exact_of_stamp hv with hv | hexact
        · rcases exact_of_withAllowlist hv with hv | hexact
          · rw [get?_carryOver] at hv
            split at hv
            · rw [hbase] at hv
              cases hv
            · exact h.numbers k v hcore hv
          · exact hexact
        · exact hexact
      · exact hexact
    · exact hexact

theorem distinctKeys_stamp {stamp : Bool} {metadata v : Json} {key : String}
    (h : metadata.distinctKeys = true) (hv : v.distinctKeys = true) :
    (if stamp then metadata.set key v else metadata).distinctKeys = true := by
  split
  · exact distinctKeys_set h hv
  · exact h

theorem distinctKeys_withAllowlist {metadata : Json} (h : metadata.distinctKeys = true)
    (cidrs : List String) : (withAllowlist metadata cidrs).distinctKeys = true := by
  rw [withAllowlist]
  split
  · exact h
  · exact distinctKeys_set h (distinctKeys_allowlist cidrs)

theorem distinctKeys_issued {tenantId createdAt : String} {request : KeyRequest}
    (hextra : (Json.obj request.extra).distinctKeys = true) (cidrs : List String) :
    (withAllowlist (newMetadata tenantId request createdAt) cidrs).distinctKeys = true := by
  have hfields := (Json.distinctKeys_obj_iff request.extra).mp hextra
  have hbase : (Json.obj (request.extra.filter fun e => e.1 ∉ reservedFields)).distinctKeys =
      true :=
    (Json.distinctKeys_obj_iff _).mpr ⟨Assoc.nodup_filter hfields.1 _,
      fun e he => hfields.2 e (List.mem_filter.mp he).1⟩
  refine distinctKeys_withAllowlist (distinctKeys_stamp (distinctKeys_stamp ?_ rfl) rfl) cidrs
  exact distinctKeys_set (distinctKeys_set (distinctKeys_set hbase rfl) rfl) rfl

theorem distinctKeys_carryOver {metadata : Json} {fields : List (String × Json)}
    (h : metadata.distinctKeys = true) (hfields : ∀ e ∈ fields, e.2.distinctKeys = true) :
    (carryOver metadata fields).distinctKeys = true := by
  induction fields generalizing metadata with
  | nil => exact h
  | cons e fields ih =>
    have hrest : ∀ e' ∈ fields, e'.2.distinctKeys = true :=
      fun e' he' => hfields e' (List.mem_cons_of_mem e he')
    rw [carryOver]
    split
    · exact ih (distinctKeys_set h (hfields e List.mem_cons_self)) hrest
    · exact ih h hrest

theorem distinctKeys_rotated {tenantId createdAt : String} {newest : Json} {cidrs : List String}
    {suspended : Bool} (h : newest.distinctKeys = true) (hcanonical : Canonical newest) :
    (rotatedMetadata tenantId createdAt newest cidrs suspended).distinctKeys = true := by
  obtain ⟨tier, htier, hne⟩ := hcanonical.tier
  obtain ⟨fields, rfl⟩ := Json.isObj_of_get? htier
  have hinherited : (fieldOf (.obj fields) "tier").orElse (.str "free") = .str tier := by
    rw [fieldOf, Json.getD, htier, Option.getD_some, Json.orElse, Json.truthy,
      decide_eq_true hne, if_pos rfl]
  simp only [rotatedMetadata, hinherited]
  have hbase : (carryOver (.obj [("tenant_id", .str tenantId), ("tier", .str tier),
      ("created_at", .str createdAt)]) fields).distinctKeys = true :=
    distinctKeys_carryOver (by simp [Json.distinctKeys, Json.distinctKeysFields])
      ((Json.distinctKeys_obj_iff fields).mp h).2
  refine distinctKeys_stamp ?_ rfl
  split
  · exact distinctKeys_set (distinctKeys_stamp (distinctKeys_withAllowlist hbase cidrs) rfl) rfl
  · exact distinctKeys_stamp (distinctKeys_withAllowlist hbase cidrs) rfl

/-! ## 3. The store that an operation leaves -/

/-- `create_key`'s tier as it is stored, `lower` for `str.lower`. -/
def storedTier (lower : String → String) (tier : String) : String :=
  lower (strip (if tier = "" then "free" else tier))

/-- The operation issues a key of this hash with a blank tier, or with a large double in its extra
metadata that is read back as another number. -/
def IssuesUnread (op : KeyOp) (h : String) : Prop :=
  ∃ request createdAt, op = .createKey request h createdAt ∧
    (request.tier = "" ∨ ¬ ExactExtra request)

/-- The extra metadata that a caller of `create_key` hands in is a dict. -/
def PlainOp (op : KeyOp) : Prop :=
  ∀ request keyHash createdAt, op = .createKey request keyHash createdAt →
    (Json.obj request.extra).distinctKeys = true

variable {py : Builtins} {keys : KeyTable} {op : KeyOp} {tenantId : String} {changed : Bool}
  {result : OpResult} {store : Store}

/-- An entry as it was, or a dict that is in the form of a loaded one. -/
def Fits (op : KeyOp) (before : Store) (h : String) (entry : Json) : Prop :=
  before.get? h = some entry ∨
    (entry.distinctKeys = true ∧ entry.isObj = true ∧ (Canonical entry ∨ IssuesUnread op h))

theorem isObj_of_canonical {entry : Json} (h : Canonical entry) : entry.isObj = true := by
  obtain ⟨text, htenant⟩ := h.tenant
  obtain ⟨fields, rfl⟩ := Json.isObj_of_get? htenant
  rfl

theorem fits_of_update (hplain : PlainTable keys) {touches : Json → Bool} {change : Json → Json}
    (hchange : ∀ entry, entry.distinctKeys = true → Canonical entry →
      (change entry).distinctKeys = true ∧ Canonical (change entry))
    {h : String} {entry : Json}
    (hget : (updateTouched (storeOf keys) touches change).2.2.get? h = some entry) :
    Fits op (storeOf keys) h entry := by
  rw [updateTouched] at hget
  change ((storeOf keys).map fun e => if touches e then change e else e).get? h = _ at hget
  rw [Dict.get?_map, Option.map_eq_some_iff] at hget
  obtain ⟨old, hold, rfl⟩ := hget
  obtain ⟨hdistinct, hcanonical, -⟩ := plain_storeOf hplain hold
  split
  · obtain ⟨hdistinct', hcanonical'⟩ := hchange old hdistinct hcanonical
    exact Or.inr ⟨hdistinct', isObj_of_canonical hcanonical', Or.inl hcanonical'⟩
  · exact Or.inl hold

theorem fits_of_mutation (hplain : PlainTable keys) (hop : PlainOp op)
    (hmutation : op.mutation py tenantId (storeOf keys) = .ok (changed, result, store))
    {h : String} {entry : Json} (hget : store.get? h = some entry) :
    Fits op (storeOf keys) h entry := by
  cases op with
  | createKey request keyHash createdAt =>
    obtain ⟨-, -, cidrs, -, rfl⟩ := createKey_ok hmutation
    rw [Dict.get?_set] at hget
    split at hget
    · rename_i heq
      cases hget
      refine Or.inr ⟨distinctKeys_issued (hop request keyHash createdAt rfl) cidrs, ?_, ?_⟩
      · obtain ⟨fields, hobj⟩ := Json.isObj_of_get?
          ((get?_withAllowlist_of_ne (newMetadata tenantId request createdAt) cidrs
            (by decide)).trans (get?_newMetadata_tenant tenantId createdAt request))
        rw [hobj]
        rfl
      · by_cases hread : request.tier ≠ "" ∧ ExactExtra request
        · exact Or.inl ((canonical_issued_iff tenantId createdAt request cidrs).mpr hread)
        · rw [not_and_or, not_not] at hread
          exact Or.inr ⟨request, createdAt, by rw [heq], hread⟩
    · exact Or.inl hget
  | rotateTenantKeys keyHash createdAt =>
    obtain ⟨-, first, rest, newest, cidrs, htenant, hnewest, -, rfl⟩ :=
      rotateTenantKeys_ok hmutation
    rw [Dict.get?_set] at hget
    split at hget
    · cases hget
      have hmem := maxBy_mem hnewest
      rw [← htenant, mem_tenantEntries_iff] at hmem
      obtain ⟨⟨old, hold⟩, -⟩ := hmem
      obtain ⟨hdistinct, hcanonical, -⟩ := plain_storeOf hplain hold
      exact Or.inr ⟨distinctKeys_rotated hdistinct hcanonical,
        isObj_of_canonical (canonical_rotated hcanonical), Or.inl (canonical_rotated hcanonical)⟩
    · rw [Dict.get?_filter, Option.filter_eq_some_iff] at hget
      exact Or.inl hget.1
  | setSuspended suspended =>
    cases hmutation
    refine fits_of_update hplain (fun e hdistinct hcanonical => ?_) hget
    split
    · exact ⟨distinctKeys_set hdistinct rfl, hcanonical.set (Or.inr ⟨rfl, rfl⟩) rfl⟩
    · exact ⟨distinctKeys_pop hdistinct, hcanonical.pop (by decide)⟩
  | setContractActive active =>
    cases hmutation
    refine fits_of_update hplain (fun e hdistinct hcanonical => ?_) hget
    split
    · exact ⟨distinctKeys_set hdistinct rfl, hcanonical.set (Or.inl (by decide)) rfl⟩
    · exact ⟨distinctKeys_pop hdistinct, hcanonical.pop (by decide)⟩
  | setIpAllowlist cidrs =>
    simp only [KeyOp.mutation, setIpAllowlist] at hmutation
    split at hmutation
    · cases hmutation
    · cases hmutation
      refine fits_of_update hplain (fun e hdistinct hcanonical => ?_) hget
      split
      · exact ⟨distinctKeys_pop hdistinct, hcanonical.pop (by decide)⟩
      · exact ⟨distinctKeys_set hdistinct (distinctKeys_allowlist cidrs),
          hcanonical.set (Or.inl (by decide)) (exactNumbers_allowlist cidrs)⟩
  | deleteTenantKeys =>
    cases hmutation
    rw [Dict.get?_filter, Option.filter_eq_some_iff] at hget
    exact Or.inl hget.1

variable {revoked : RevokedTable}

theorem upsertsOf_self (hplain : PlainTable keys) :
    ∀ e, e ∉ upsertsOf (storeOf keys) (storeOf keys) := by
  rintro ⟨h, entry⟩ hmem
  obtain ⟨hget, hdiffers⟩ := mem_upsertsOf_iff.mp hmem
  rw [hget, Option.getD_some, Json.pyEq_self (plain_storeOf hplain hget).1] at hdiffers
  cases hdiffers

/-- Such a key is a new entry, and not in the form of a loaded one. -/
theorem issued_unread {h : String} (hblank : IssuesUnread op h)
    (hmutation : op.mutation py tenantId (storeOf keys) = .ok (changed, result, store)) :
    changed = true ∧ ∃ entry, (h, entry) ∈ upsertsOf (storeOf keys) store ∧
      ¬ Canonical entry := by
  obtain ⟨request, createdAt, rfl, hunread⟩ := hblank
  obtain ⟨hnew, hchanged, cidrs, -, rfl⟩ := createKey_ok hmutation
  refine ⟨hchanged, withAllowlist (newMetadata tenantId request createdAt) cidrs, ?_, ?_⟩
  · obtain ⟨fields, hobj⟩ := Json.isObj_of_get?
      ((get?_withAllowlist_of_ne (newMetadata tenantId request createdAt) cidrs
        (by decide)).trans (get?_newMetadata_tenant tenantId createdAt request))
    rw [mem_upsertsOf_iff, Dict.get?_set, if_pos rfl, hnew, Option.getD_none, hobj]
    exact ⟨rfl, rfl⟩
  · intro hcanonical
    obtain ⟨htier, hexact⟩ := (canonical_issued_iff tenantId createdAt request cidrs).mp hcanonical
    rcases hunread with hblank | hinexact
    · exact htier hblank
    · exact hinexact hexact

theorem lifecycle_storable_iff (hplain : PlainTable keys) (hop : PlainOp op)
    (hmutation : op.mutation py tenantId (storeOf keys) = .ok (changed, result, store)) :
    Storable keys revoked (op.mutation py tenantId) ↔
      (∀ h, IssuesUnread op h → h ∈ revoked) ∧
        ∀ e ∈ upsertsOf (storeOf keys) store, e.1 ∈ revoked → e.1 ∉ keys := by
  rw [Storable, hmutation]
  cases changed with
  | false =>
    have hsame : store = storeOf keys := mutation_unchanged py hmutation
    subst hsame
    refine iff_of_true (fun h => ?_) ⟨fun h hblank => ?_, fun e he => ?_⟩
    · cases hget : (storeOf keys).get? h with
      | none => exact Json.sameValue_none_left.mpr rfl
      | some entry =>
        exact Json.sameValue_some_some.mpr (Json.pyEq_self (plain_storeOf hplain hget).1)
    · cases (issued_unread hblank hmutation).1
    · exact absurd he (upsertsOf_self hplain e)
  | true =>
    constructor
    · rintro ⟨-, hall⟩
      refine ⟨fun h hblank => ?_, fun e he => (hall e he).1⟩
      obtain ⟨-, entry, hmem, hnot⟩ := issued_unread hblank hmutation
      by_contra hfree
      exact hnot ((hall _ hmem).2 hfree)
    · rintro ⟨hblank, hrevoked⟩
      refine ⟨fun h hnull => ?_, fun e he => ⟨hrevoked e he, fun hfree => ?_⟩⟩
      · rcases fits_of_mutation hplain hop hmutation hnull with hold | ⟨-, hobj, -⟩
        · cases (plain_storeOf hplain hold).2.2
        · cases hobj
      · obtain ⟨hget, hdiffers⟩ := mem_upsertsOf_iff.mp he
        rcases fits_of_mutation hplain hop hmutation hget with hold | ⟨-, -, hcanonical | hissued⟩
        · rw [hold, Option.getD_some, Json.pyEq_self (plain_storeOf hplain hold).1] at hdiffers
          cases hdiffers
        · exact hcanonical
        · exact absurd (hblank _ hissued) hfree

theorem distinct_of_mutation (hplain : PlainTable keys) (hop : PlainOp op)
    (hmutation : op.mutation py tenantId (storeOf keys) = .ok (changed, result, store)) :
    DistinctKeys store := by
  intro h entry hget
  rcases fits_of_mutation hplain hop hmutation hget with hold | ⟨hdistinct, -⟩
  · exact (plain_storeOf hplain hold).1
  · exact hdistinct

/-- **What `transact` returns is what a full load reads exactly where every changed entry has the
    form of a loaded one and no refused hash has a row**; of the lifecycle operations only
    `create_key` writes another form, with a blank tier or a large double that is read back as
    another number. -/
theorem transact_returns_stored (py : Builtins) (keys : KeyTable) (revoked : RevokedTable) :
    (∀ mutation result after keys',
      (∀ changed result store, mutation (storeOf keys) = .ok (changed, result, store) →
        DistinctKeys store) →
      Returns py keys revoked mutation result after keys' →
        (SameStore (storeOf keys') after ↔ Storable keys revoked mutation)) ∧
    ∀ op tenantId result after keys', PlainTable keys → PlainOp op →
      Returns py keys revoked (op.mutation py tenantId) result after keys' →
        (SameStore (storeOf keys') after ↔
          (∀ h, IssuesUnread op h → h ∈ revoked) ∧
            ∀ changed result store,
              op.mutation py tenantId (storeOf keys) = .ok (changed, result, store) →
                ∀ e ∈ upsertsOf (storeOf keys) store, e.1 ∈ revoked → e.1 ∉ keys) := by
  refine ⟨fun mutation result after keys' hdistinct h => returned_is_stored_iff h hdistinct, ?_⟩
  intro op tenantId result after keys' hplain hop h
  have hmutation : ∃ changed store,
      op.mutation py tenantId (storeOf keys) = .ok (changed, result, store) := by
    rcases returned_cases h with ⟨hmutation, -⟩ | ⟨store, hmutation, -⟩
    · exact ⟨_, _, hmutation⟩
    · exact ⟨_, _, hmutation⟩
  obtain ⟨changed, store, hmutation⟩ := hmutation
  rw [returned_is_stored_iff h fun _ _ _ => distinct_of_mutation hplain hop,
    lifecycle_storable_iff hplain hop hmutation]
  refine and_congr_right fun _ => ⟨fun hall changed' result' store' hmutation' => ?_,
    fun hall => hall _ _ _ hmutation⟩
  rw [hmutation] at hmutation'
  cases hmutation'
  exact hall

/-! ## 4. A tier of blanks -/

def noBuiltins : Builtins := ⟨fun _ => "", fun _ _ => none⟩

/-- `create_key("acme", tier=tier, extra={"limits": {"tokens_per_month": 1e15}})`, on an empty
table. -/
def issueAcme (tier : String) : KeyOp :=
  .createKey { tier := storedTier String.toLower tier
               extra := [("limits", .obj [("tokens_per_month", .float (10 ^ 15))])] }
    "5e884898" "2026-07-01T09:00:00+00:00"

theorem exactNumbers_limits {field : String × Json}
    (h : field ∈ [("limits", Json.obj [("tokens_per_month", .float (10 ^ 15))])]) :
    exactNumbers field.2 = true := by
  rw [List.mem_singleton.mp h]
  decide +kernel

theorem storedTier_blank : storedTier String.toLower " " = "" := by decide +kernel

theorem storedTier_free : storedTier String.toLower "Free " = "free" := by decide +kernel

theorem plainTable_empty : PlainTable ∅ := by
  intro h row hget
  cases hget

theorem plainOp_issueAcme (tier : String) : PlainOp (issueAcme tier) := by
  intro request keyHash createdAt h
  cases h
  rfl

theorem returns_issueAcme (tier : String) : ∃ result after keys',
    Returns noBuiltins ∅ ∅ ((issueAcme tier).mutation noBuiltins "acme") result after keys' :=
  ⟨_, _, _, 5, _, rfl, rfl, rfl⟩

/-- The returned entry has no tier, and the loaded one has `free`. -/
theorem not_transact_returns_stored :
    ¬ ∀ (py : Builtins) (keys : KeyTable) (revoked : RevokedTable) (op : KeyOp)
      (tenantId : String) (result : OpResult) (after : Store) (keys' : KeyTable),
      PlainTable keys → PlainOp op →
        Returns py keys revoked (op.mutation py tenantId) result after keys' →
          SameStore (storeOf keys') after := by
  intro h
  obtain ⟨result, after, keys', hreturns⟩ := returns_issueAcme " "
  have hsame := h _ _ _ _ _ _ _ _ plainTable_empty (plainOp_issueAcme " ") hreturns
  rw [returned_is_stored_iff hreturns fun _ _ _ =>
    distinct_of_mutation plainTable_empty (plainOp_issueAcme " "),
    lifecycle_storable_iff plainTable_empty (plainOp_issueAcme " ") rfl] at hsame
  have hrecorded := hsame.1 _ ⟨_, _, rfl, Or.inl storedTier_blank⟩
  exact Dict.notMem_empty _ hrecorded

theorem transact_returns_stored_free : ∃ result after keys',
    Returns noBuiltins ∅ ∅ ((issueAcme "Free ").mutation noBuiltins "acme") result after keys' ∧
      SameStore (storeOf keys') after := by
  obtain ⟨result, after, keys', hreturns⟩ := returns_issueAcme "Free "
  refine ⟨result, after, keys', hreturns, ((transact_returns_stored noBuiltins ∅ ∅).2 _ _ _ _ _
    plainTable_empty (plainOp_issueAcme "Free ") hreturns).mpr ⟨fun h hblank => ?_, ?_⟩⟩
  · obtain ⟨request, createdAt, hop, hunread⟩ := hblank
    cases hop
    rcases hunread with hblank | hinexact
    · rw [storedTier_free] at hblank
      exact absurd hblank (by decide)
    · refine absurd ?_ hinexact
      intro k v _ hv
      exact exactNumbers_limits (Assoc.mem_of_lookup hv)
  · intro changed result store _ e _ hrevoked
    exact absurd hrevoked (Dict.notMem_empty _)

end TokenProxy.PgKeyStore
