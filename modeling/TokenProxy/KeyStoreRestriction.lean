/-
  TokenProxy/KeyStoreRestriction.lean
  ===================================
  **Restrictions of a tenant, when keys are issued and rotated** (`create_key`,
  `rotate_tenant_keys`, `_tenant_allowlist` of `auth/api_key_manager.py`).

  Each issuing path copies each restriction by hand:

    * `rotate_tenant_keys` — `suspended` from any key, `contract_inactive` with
      the fields of the newest key, the allowlist from `_tenant_allowlist`;
    * `create_key` — the allowlist only.

  `restricted_step` says which calls keep which restriction, and
  `restricted_always_iff` carries it to every sequence of calls.
-/
import TokenProxy.Execution
import TokenProxy.KeyStoreMutation

namespace TokenProxy.KeyStore

open Execution

/-! ## 1. Restrictions and issuing calls -/

inductive Restriction where
  | suspended
  | contractInactive
  /-- A source-IP allowlist; the empty list restricts nothing. -/
  | ipAllowlist (cidr : String) (cidrs : List String)
deriving DecidableEq

def Restriction.CarriedBy (entry : Json) : Restriction → Prop
  | .suspended => isSuspended entry = true
  | .contractInactive => isContractInactive entry = true
  | .ipAllowlist cidr cidrs =>
    entry.get? "ip_allowlist" = some (.arr ((cidr :: cidrs).map Json.str))

instance (entry : Json) : (r : Restriction) → Decidable (r.CarriedBy entry)
  | .suspended => inferInstanceAs (Decidable (isSuspended entry = true))
  | .contractInactive => inferInstanceAs (Decidable (isContractInactive entry = true))
  | .ipAllowlist cidr cidrs => inferInstanceAs (Decidable (entry.get? "ip_allowlist" =
      some (.arr ((cidr :: cidrs).map Json.str))))

/-- The tenant has a key, and all its keys carry the restriction. -/
structure Restricted (tenantId : String) (r : Restriction) (store : Store) : Prop where
  hasKey : tenantEntries store tenantId ≠ []
  carried : ∀ entry ∈ tenantEntries store tenantId, r.CarriedBy entry

inductive Issue where
  | create (request : KeyRequest) (keyHash createdAt : String)
  | rotate (keyHash createdAt : String)
deriving DecidableEq

def Issue.op : Issue → KeyOp
  | .create request keyHash createdAt => .createKey request keyHash createdAt
  | .rotate keyHash createdAt => .rotateTenantKeys keyHash createdAt

structure IssueCall where
  issue : Issue
  /-- Whether the store can be written. -/
  written : Bool
deriving DecidableEq

variable (py : Builtins)

/-- One call on a store that can be read; a call that raises leaves the store as it is. -/
def issueStep (tenantId : String) (store : Store) (call : IssueCall) : Option Store :=
  contentOf (call.issue.op.run py tenantId (some (.object store)) .succeeds call.written).2

/-- The call is a `create_key` that does not raise. -/
def CreatesKey (tenantId : String) (store : Store) (call : IssueCall) : Prop :=
  match call.issue with
  | .create _ keyHash _ => strip tenantId ≠ "" ∧ store.get? keyHash = none ∧
      (tenantAllowlist py store (strip tenantId)).isOk = true ∧ call.written = true
  | .rotate _ _ => False

/-- The restriction is the allowlist, or the call issues no key beside the others. -/
def KeepsRestriction (tenantId : String) (r : Restriction) (store : Store) (call : IssueCall) :
    Prop :=
  (∃ cidr cidrs, r = .ipAllowlist cidr cidrs) ∨ ¬ CreatesKey py tenantId store call

/-! ## 2. The metadata of an issued key -/

theorem get?_withAllowlist_of_ne (metadata : Json) (cidrs : List String) {field : String}
    (hfield : field ≠ "ip_allowlist") :
    (withAllowlist metadata cidrs).get? field = metadata.get? field := by
  unfold withAllowlist
  split
  · rfl
  · exact Json.get?_set_of_ne metadata hfield _

theorem get?_withAllowlist_cons {metadata : Json} (hobj : metadata.isObj = true) (cidr : String)
    (cidrs : List String) :
    (withAllowlist metadata (cidr :: cidrs)).get? "ip_allowlist" =
      some (.arr ((cidr :: cidrs).map Json.str)) := by
  cases metadata with
  | obj fields => exact Json.get?_set_self fields "ip_allowlist" _
  | _ => cases hobj

/-- A flag stamped under a condition leaves the other fields alone. -/
theorem get?_stamp_of_ne (stamp : Bool) (metadata : Json) {field key : String}
    (hfield : field ≠ key) (value : Json) :
    (if stamp then metadata.set key value else metadata).get? field = metadata.get? field := by
  split
  · exact Json.get?_set_of_ne metadata hfield value
  · rfl

theorem isObj_set (metadata : Json) (key : String) (value : Json) :
    (metadata.set key value).isObj = metadata.isObj := by
  cases metadata <;> rfl

/-- The fields of `create_key` come from its arguments; a reserved one never from `extra`. -/
theorem get?_newMetadata_of_reserved (tenantId createdAt : String) (request : KeyRequest)
    {field : String} (hreserved : field ∈ reservedFields)
    (hfield : field ∉ ["tenant_id", "tier", "created_at", "admin", "gateway"]) :
    (newMetadata tenantId request createdAt).get? field = none := by
  simp only [List.mem_cons, List.not_mem_nil, or_false, not_or] at hfield
  obtain ⟨htenant, htier, hcreated, hadmin, hgateway⟩ := hfield
  have hextra : (Json.obj (request.extra.filter fun e => e.1 ∉ reservedFields)).get? field =
      none := by
    apply (Assoc.lookup_eq_none_iff _ _).mpr
    intro hmem
    obtain ⟨e, he, rfl⟩ := List.mem_map.mp hmem
    exact of_decide_eq_true (List.mem_filter.mp he).2 hreserved
  simp only [newMetadata]
  rw [get?_stamp_of_ne request.gateway _ hgateway, get?_stamp_of_ne request.admin _ hadmin,
    Json.get?_set_of_ne _ hcreated, Json.get?_set_of_ne _ htier, Json.get?_set_of_ne _ htenant,
    hextra]

theorem get?_newMetadata_tenant (tenantId createdAt : String) (request : KeyRequest) :
    (newMetadata tenantId request createdAt).get? "tenant_id" = some (.str tenantId) := by
  simp only [newMetadata]
  rw [get?_stamp_of_ne request.gateway _ (by decide), get?_stamp_of_ne request.admin _ (by decide),
    Json.get?_set_of_ne _ (by decide), Json.get?_set_of_ne _ (by decide)]
  exact Json.get?_set_self _ _ _

/-- What a rotation copies over: a field that the new key has not got, unless it is one of the
    fields that are set by name. -/
theorem get?_carryOver (base fields : List (String × Json)) (field : String) :
    (carryOver (.obj base) fields).get? field =
      if (Assoc.lookup field base).isSome = true ∨ field ∈ explicitFields then
        Assoc.lookup field base
      else Assoc.lookup field fields := by
  induction fields generalizing base with
  | nil =>
    simp only [carryOver, Json.get?, Assoc.lookup_nil]
    split
    · rfl
    · rename_i hnone
      simpa using fun h => hnone (Or.inl h)
  | cons e fields ih =>
    obtain ⟨key, value⟩ := e
    simp only [carryOver, Assoc.lookup_cons]
    split
    · rename_i hcopied
      simp only [Json.get?, Bool.and_eq_true, Option.isNone_iff_eq_none, decide_eq_true_eq]
        at hcopied
      obtain ⟨hnew, hkey⟩ := hcopied
      rw [Json.set, ih, Assoc.lookup_insert]
      by_cases heq : field = key
      · subst heq
        simp [hnew, hkey]
      · simp [heq, Ne.symm heq]
    · rename_i hskipped
      rw [ih]
      by_cases heq : key = field
      · subst heq
        have hthere : (Assoc.lookup key base).isSome = true ∨ key ∈ explicitFields := by
          by_contra hnot
          rw [not_or, Bool.not_eq_true, Option.isSome_eq_false_iff] at hnot
          apply hskipped
          simpa [Json.get?] using hnot
        rw [if_pos hthere, if_pos hthere]
      · rw [if_neg heq]

theorem isObj_carryOver (metadata : Json) (fields : List (String × Json)) :
    (carryOver metadata fields).isObj = metadata.isObj := by
  induction fields generalizing metadata with
  | nil => rfl
  | cons e fields ih =>
    rw [carryOver]
    split
    · rw [ih, isObj_set]
    · exact ih metadata

section

variable (tenantId createdAt : String) (newest : Json) (cidrs : List String) (suspended : Bool)

/-- The fields that a rotation neither sets by name nor gives a new value are the newest key's. -/
theorem get?_rotatedMetadata {field : String}
    (hfield : field ∉ ["suspended", "gateway", "admin", "ip_allowlist"]) :
    (rotatedMetadata tenantId createdAt newest cidrs suspended).get? field =
      (carryOver (.obj [("tenant_id", .str tenantId),
        ("tier", (fieldOf newest "tier").orElse (.str "free")), ("created_at", .str createdAt)])
        (newest.fields?.getD [])).get? field := by
  simp only [List.mem_cons, List.not_mem_nil, or_false, not_or] at hfield
  obtain ⟨hsuspended, hgateway, hadmin, hallowlist⟩ := hfield
  simp only [rotatedMetadata]
  rw [get?_stamp_of_ne suspended _ hsuspended]
  have hflag : ∀ metadata : Json, (if fieldOf newest "gateway" = .bool true then
      metadata.set "gateway" (.bool true) else metadata).get? field = metadata.get? field := by
    intro metadata
    split
    · exact Json.get?_set_of_ne metadata hgateway _
    · rfl
  rw [hflag, get?_stamp_of_ne _ _ hadmin, get?_withAllowlist_of_ne _ _ hallowlist]

theorem rotatedMetadata_tenant :
    (rotatedMetadata tenantId createdAt newest cidrs suspended).get? "tenant_id" =
      some (.str tenantId) := by
  rw [get?_rotatedMetadata _ _ _ _ _ (by decide), get?_carryOver]
  rfl

theorem rotatedMetadata_contractInactive :
    (rotatedMetadata tenantId createdAt newest cidrs suspended).get? "contract_inactive" =
      newest.get? "contract_inactive" := by
  rw [get?_rotatedMetadata _ _ _ _ _ (by decide), get?_carryOver]
  cases newest <;> rfl

theorem rotatedMetadata_suspended :
    (rotatedMetadata tenantId createdAt newest cidrs true).get? "suspended" =
      some (.bool true) := by
  simp only [rotatedMetadata, if_true]
  obtain ⟨fields, hfields⟩ := Json.isObj_of_get?
    (rotatedMetadata_tenant tenantId createdAt newest cidrs false)
  simp only [rotatedMetadata] at hfields
  rw [show (if false = true then _ else _) = _ from if_neg (by simp)] at hfields
  rw [hfields]
  exact Json.get?_set_self fields "suspended" _

theorem rotatedMetadata_allowlist (cidr : String) :
    (rotatedMetadata tenantId createdAt newest (cidr :: cidrs) suspended).get? "ip_allowlist" =
      some (.arr ((cidr :: cidrs).map Json.str)) := by
  simp only [rotatedMetadata]
  rw [get?_stamp_of_ne suspended _ (by decide)]
  split
  · rw [Json.get?_set_of_ne _ (by decide), get?_stamp_of_ne _ _ (by decide)]
    exact get?_withAllowlist_cons (by rw [isObj_carryOver]; rfl) cidr cidrs
  · rw [get?_stamp_of_ne _ _ (by decide)]
    exact get?_withAllowlist_cons (by rw [isObj_carryOver]; rfl) cidr cidrs

end

/-! ## 3. The tenant's keys after a call -/

theorem mem_tenantEntries_iff {store : Store} {tenantId : String} {entry : Json} :
    entry ∈ tenantEntries store tenantId ↔
      (∃ keyHash, store.get? keyHash = some entry) ∧ ownedBy tenantId entry = true := by
  rw [tenantEntries, List.mem_filter, Dict.mem_values_iff]

theorem ownedBy_iff {tenantId : String} {entry : Json} :
    ownedBy tenantId entry = true ↔ entry.get? "tenant_id" = some (.str tenantId) := by
  simp only [ownedBy, Bool.and_eq_true, decide_eq_true_eq, and_iff_right_iff_imp]
  intro hentry
  obtain ⟨fields, rfl⟩ := Json.isObj_of_get? hentry
  rfl

/-- A fresh key joins the tenant's others. -/
theorem mem_tenantEntries_issued {store : Store} {tenantId keyHash : String} {metadata : Json}
    (hfresh : store.get? keyHash = none) (hown : ownedBy tenantId metadata = true)
    (entry : Json) :
    entry ∈ tenantEntries (store.set keyHash metadata) tenantId ↔
      entry = metadata ∨ entry ∈ tenantEntries store tenantId := by
  simp only [mem_tenantEntries_iff, Dict.get?_set]
  constructor
  · rintro ⟨⟨key, hkey⟩, hentry⟩
    by_cases heq : key = keyHash
    · rw [if_pos heq] at hkey
      exact Or.inl (Option.some.inj hkey).symm
    · rw [if_neg heq] at hkey
      exact Or.inr ⟨⟨key, hkey⟩, hentry⟩
  · rintro (rfl | ⟨⟨key, hkey⟩, hentry⟩)
    · exact ⟨⟨keyHash, if_pos rfl⟩, hown⟩
    · have hne : key ≠ keyHash := by
        rintro rfl
        rw [hfresh] at hkey
        cases hkey
      exact ⟨⟨key, by rw [if_neg hne, hkey]⟩, hentry⟩

/-- After a rotation the new key is the tenant's only one. -/
theorem mem_tenantEntries_rotated (store : Store) (keyHash : String) {tenantId : String}
    {metadata : Json} (hown : ownedBy tenantId metadata = true) (entry : Json) :
    entry ∈ tenantEntries
        ((store.filter fun _ e => !ownedBy tenantId e).set keyHash metadata) tenantId ↔
      entry = metadata := by
  simp only [mem_tenantEntries_iff, Dict.get?_set, Dict.get?_filter]
  constructor
  · rintro ⟨⟨key, hkey⟩, hentry⟩
    by_cases heq : key = keyHash
    · rw [if_pos heq] at hkey
      exact (Option.some.inj hkey).symm
    · rw [if_neg heq, Option.filter_eq_some_iff, hentry] at hkey
      exact absurd hkey.2 (by simp)
  · rintro rfl
    exact ⟨⟨keyHash, if_pos rfl⟩, hown⟩

variable {py}

theorem maxBy_mem {α : Type} {key : α → Json} {best newest : α} {rest : List α}
    (h : maxBy py key best rest = .ok newest) : newest ∈ best :: rest := by
  induction rest generalizing best with
  | nil =>
    cases h
    exact List.mem_singleton.mpr rfl
  | cons x xs ih =>
    rw [maxBy] at h
    cases hgreater : py.lt (key best) (key x) with
    | error err =>
      rw [hgreater] at h
      cases h
    | ok greater =>
      rw [hgreater] at h
      rcases List.mem_cons.mp (ih h) with heq | hmem
      · cases greater with
        | true => exact List.mem_cons_of_mem _ (List.mem_cons.mpr (Or.inl heq))
        | false => exact List.mem_cons.mpr (Or.inl heq)
      · exact List.mem_cons_of_mem _ (List.mem_cons_of_mem _ hmem)

theorem ipAllowlist?_of_carried {entry : Json} {cidr : String} {cidrs : List String}
    (h : Restriction.CarriedBy entry (.ipAllowlist cidr cidrs)) :
    ipAllowlist? entry = some ((cidr :: cidrs).map Json.str) := by
  unfold Restriction.CarriedBy at h
  rw [ipAllowlist?, fieldOf, Json.getD, h]
  rfl

/-- When all keys of the tenant carry one allowlist, that list is found. -/
theorem tenantAllowlist_of_restricted {tenantId cidr : String} {cidrs found : List String}
    {store : Store} (h : Restricted tenantId (.ipAllowlist cidr cidrs) store)
    (hfound : tenantAllowlist py store tenantId = .ok found) : found = cidr :: cidrs := by
  have hlists : ∀ pair ∈ (tenantEntries store tenantId).filterMap fun entry =>
      (ipAllowlist? entry).map fun cidrs => (createdAt entry, cidrs),
      pair.2 = (cidr :: cidrs).map Json.str := by
    intro pair hpair
    obtain ⟨entry, hentry, hpair⟩ := List.mem_filterMap.mp hpair
    rw [ipAllowlist?_of_carried (h.carried entry hentry)] at hpair
    cases hpair
    rfl
  have hsome : (tenantEntries store tenantId).filterMap (fun entry =>
      (ipAllowlist? entry).map fun cidrs => (createdAt entry, cidrs)) ≠ [] := by
    obtain ⟨entry, hentry⟩ := List.exists_mem_of_ne_nil _ h.hasKey
    apply List.ne_nil_of_mem (a := (createdAt entry, (cidr :: cidrs).map Json.str))
    apply List.mem_filterMap.mpr
    refine ⟨entry, hentry, ?_⟩
    rw [ipAllowlist?_of_carried (h.carried entry hentry)]
    rfl
  unfold tenantAllowlist at hfound
  revert hfound
  generalize (tenantEntries store tenantId).filterMap _ = lists at hlists hsome
  intro hfound
  cases lists with
  | nil => exact absurd rfl hsome
  | cons first rest =>
    dsimp only at hfound
    cases hnewest : maxBy py Prod.fst first rest with
    | error err =>
      rw [hnewest] at hfound
      cases hfound
    | ok newest =>
      rw [hnewest] at hfound
      cases hfound
      rw [hlists newest (maxBy_mem hnewest), List.map_map]
      exact List.map_id' _

/-! ## 4. What each call does to each restriction -/

/-- A key that is issued beside the tenant's others. -/
theorem issued_owned (tenantId createdAt : String) (request : KeyRequest) (cidrs : List String) :
    ownedBy tenantId (withAllowlist (newMetadata tenantId request createdAt) cidrs) = true := by
  rw [ownedBy_iff, get?_withAllowlist_of_ne _ _ (by decide), get?_newMetadata_tenant]

/-- Issuing stamps neither of the two flags. -/
theorem not_flag_issued (tenantId createdAt : String) (request : KeyRequest)
    (cidrs : List String) {field : String} (hfield : field ∈ ["suspended", "contract_inactive"]) :
    (fieldOf (withAllowlist (newMetadata tenantId request createdAt) cidrs) field).truthy =
      false := by
  have hcases : field = "suspended" ∨ field = "contract_inactive" := by simpa using hfield
  have hnone : (withAllowlist (newMetadata tenantId request createdAt) cidrs).get? field =
      none := by
    rcases hcases with rfl | rfl
    · rw [get?_withAllowlist_of_ne _ _ (by decide),
        get?_newMetadata_of_reserved _ _ _ (by decide) (by decide)]
    · rw [get?_withAllowlist_of_ne _ _ (by decide),
        get?_newMetadata_of_reserved _ _ _ (by decide) (by decide)]
  rw [fieldOf, Json.getD, hnone]
  rfl

theorem restricted_issued_iff {tenantId keyHash createdAt : String} {request : KeyRequest}
    {r : Restriction} {store : Store} {cidrs : List String} (h : Restricted tenantId r store)
    (hfresh : store.get? keyHash = none) (hcidrs : tenantAllowlist py store tenantId = .ok cidrs) :
    Restricted tenantId r (store.set keyHash
        (withAllowlist (newMetadata tenantId request createdAt) cidrs)) ↔
      ∃ cidr cidrs, r = .ipAllowlist cidr cidrs := by
  have hmem := mem_tenantEntries_issued hfresh (issued_owned tenantId createdAt request cidrs)
  constructor
  · intro hafter
    have hnew := hafter.carried _ ((hmem _).mpr (Or.inl rfl))
    cases r with
    | ipAllowlist cidr cidrs => exact ⟨cidr, cidrs, rfl⟩
    | suspended =>
      have hflag := (Bool.and_eq_true_iff.mp hnew).2
      rw [not_flag_issued _ _ _ _ (by simp)] at hflag
      cases hflag
    | contractInactive =>
      have hflag := (Bool.and_eq_true_iff.mp hnew).2
      rw [not_flag_issued _ _ _ _ (by simp)] at hflag
      cases hflag
  · rintro ⟨cidr, rest, rfl⟩
    obtain rfl := tenantAllowlist_of_restricted h hcidrs
    refine ⟨List.ne_nil_of_mem ((hmem _).mpr (Or.inl rfl)), ?_⟩
    intro entry hentry
    rcases (hmem entry).mp hentry with rfl | hold
    · obtain ⟨fields, hfields⟩ := Json.isObj_of_get?
        (get?_newMetadata_tenant tenantId createdAt request)
      exact get?_withAllowlist_cons (by rw [hfields]; rfl) cidr rest
    · exact h.carried entry hold

/-- A rotation carries every restriction over to the new key. -/
theorem restricted_rotated {tenantId keyHash createdAt : String} {r : Restriction}
    {store : Store} {first newest : Json} {rest : List Json} {cidrs : List String}
    (h : Restricted tenantId r store) (hkeys : tenantEntries store tenantId = first :: rest)
    (hnewest : maxBy py KeyStore.createdAt first rest = .ok newest)
    (hcidrs : tenantAllowlist py store tenantId = .ok cidrs) :
    Restricted tenantId r ((store.filter fun _ entry => !ownedBy tenantId entry).set keyHash
      (rotatedMetadata tenantId createdAt newest cidrs
        ((first :: rest).any fun entry => (fieldOf entry "suspended").truthy))) := by
  have hown := ownedBy_iff.mpr (rotatedMetadata_tenant tenantId createdAt newest cidrs
    ((first :: rest).any fun entry => (fieldOf entry "suspended").truthy))
  have hmem := mem_tenantEntries_rotated store keyHash hown
  refine ⟨List.ne_nil_of_mem ((hmem _).mpr rfl), ?_⟩
  intro entry hentry
  obtain rfl := (hmem entry).mp hentry
  have hobj := (Bool.and_eq_true_iff.mp hown).1
  have hnewestCarries : r.CarriedBy newest :=
    h.carried newest (by rw [hkeys]; exact maxBy_mem hnewest)
  cases r with
  | suspended =>
    have hfirst : isSuspended first = true := h.carried first (by rw [hkeys]; simp)
    have hany : ((first :: rest).any fun entry => (fieldOf entry "suspended").truthy) = true :=
      List.any_eq_true.mpr ⟨first, by simp, (Bool.and_eq_true_iff.mp hfirst).2⟩
    rw [hany] at hobj ⊢
    apply Bool.and_eq_true_iff.mpr
    refine ⟨hobj, ?_⟩
    rw [fieldOf, Json.getD, rotatedMetadata_suspended]
    rfl
  | contractInactive =>
    apply Bool.and_eq_true_iff.mpr
    refine ⟨hobj, ?_⟩
    rw [fieldOf, Json.getD, rotatedMetadata_contractInactive]
    exact (Bool.and_eq_true_iff.mp hnewestCarries).2
  | ipAllowlist cidr rest' =>
    obtain rfl := tenantAllowlist_of_restricted h hcidrs
    exact rotatedMetadata_allowlist _ _ _ _ _ cidr

/-! ## 5. Sequences of calls -/

/-- `create_key` raises over a key that exists or over creation times that do not compare. -/
theorem createKey_not_error {tenantId keyHash createdAt : String} {request : KeyRequest}
    {store : Store} {err : KeyError} (hfresh : store.get? keyHash = none)
    (hcidrs : (tenantAllowlist py store tenantId).isOk = true)
    (h : createKey py tenantId request keyHash createdAt store = .error err) : False := by
  unfold createKey at h
  rw [hfresh, if_neg (by simp)] at h
  cases hfound : tenantAllowlist py store tenantId with
  | error err =>
    rw [hfound] at hcidrs
    cases hcidrs
  | ok cidrs =>
    rw [hfound] at h
    cases h

/-- A call raises and leaves the store as it is, or its mutation is written. -/
theorem issueStep_cases {tenantId : String} {store store' : Store} {call : IssueCall}
    (h : issueStep py tenantId store call = some store') :
    (store' = store ∧ ¬ CreatesKey py tenantId store call) ∨
      (strip tenantId ≠ "" ∧ call.written = true ∧ ∃ changed result,
        call.issue.op.mutation py (strip tenantId) store = .ok (changed, result, store')) := by
  obtain ⟨issue, written⟩ := call
  have hneeds : issue.op.needsTenant = true := by cases issue <;> rfl
  simp only [issueStep, KeyOp.run, hneeds, Bool.true_and, decide_eq_true_eq] at h
  by_cases htenant : strip tenantId = ""
  · rw [if_pos htenant] at h
    refine Or.inl ⟨(Option.some.inj h).symm, ?_⟩
    cases issue with
    | create request keyHash createdAt => exact fun hcreates => hcreates.1 htenant
    | rotate keyHash createdAt => exact id
  · rw [if_neg htenant] at h
    have hload : loadFullStore (some (.object store)) .succeeds = .ok store := rfl
    cases hmut : issue.op.mutation py (strip tenantId) store with
    | error err =>
      rw [mutateStore_error issue.op hload hmut] at h
      refine Or.inl ⟨(Option.some.inj h).symm, ?_⟩
      cases issue with
      | create request keyHash createdAt =>
        rintro ⟨-, hfresh, hcidrs, -⟩
        exact createKey_not_error hfresh hcidrs hmut
      | rotate keyHash createdAt => exact id
    | ok outcome =>
      obtain ⟨changed, result, after⟩ := outcome
      obtain rfl : changed = true := by
        cases issue with
        | create request keyHash createdAt => exact (createKey_ok hmut).2.1
        | rotate keyHash createdAt => exact (rotateTenantKeys_ok hmut).1
      rw [mutateStore_changed issue.op hload hmut] at h
      cases written with
      | true =>
        obtain rfl := Option.some.inj h
        exact Or.inr ⟨htenant, rfl, true, result, rfl⟩
      | false =>
        refine Or.inl ⟨(Option.some.inj h).symm, ?_⟩
        cases issue with
        | create request keyHash createdAt => exact fun hcreates => nomatch hcreates.2.2.2
        | rotate keyHash createdAt => exact id

/-- One call keeps a restriction exactly when it is the allowlist, or no key is created. -/
theorem restricted_step {tenantId : String} {r : Restriction} {store store' : Store}
    {call : IssueCall} (h : Restricted (strip tenantId) r store)
    (hstep : issueStep py tenantId store call = some store') :
    Restricted (strip tenantId) r store' ↔ KeepsRestriction py tenantId r store call := by
  rcases issueStep_cases hstep with ⟨rfl, hnot⟩ | ⟨htenant, hwritten, changed, result, hmut⟩
  · exact iff_of_true h (Or.inr hnot)
  · obtain ⟨issue, written⟩ := call
    cases issue with
    | create request keyHash createdAt =>
      obtain ⟨hfresh, -, cidrs, hcidrs, rfl⟩ := createKey_ok hmut
      have hcreates : CreatesKey py tenantId store
          ⟨.create request keyHash createdAt, written⟩ :=
        ⟨htenant, hfresh, by rw [hcidrs]; rfl, hwritten⟩
      rw [restricted_issued_iff h hfresh hcidrs, KeepsRestriction]
      exact (or_iff_left (not_not_intro hcreates)).symm
    | rotate keyHash createdAt =>
      obtain ⟨-, first, rest, newest, cidrs, hkeys, hnewest, hcidrs, rfl⟩ :=
        rotateTenantKeys_ok hmut
      exact iff_of_true (restricted_rotated h hkeys hnewest hcidrs) (Or.inr id)

variable (py)

/-- **Every sequence of calls.**  A restriction of all keys of a tenant holds throughout exactly
    when no call creates a key, unless it is the allowlist. -/
theorem restricted_always_iff {tenantId : String} {r : Restriction} {store : Store}
    (calls : List IssueCall) (h : Restricted (strip tenantId) r store) :
    Always (issueStep py tenantId) (Restricted (strip tenantId) r) store calls ↔
      AllSteps (issueStep py tenantId) (KeepsRestriction py tenantId r) store calls :=
  always_iff_allSteps (fun _ _ _ hs hstep => restricted_step hs hstep) calls h

/-- An allowlist outlives a rotation and a new key. -/
theorem restricted_always_allowlist :
    let py : Builtins := { strOf := fun _ => "", less := fun _ _ => none }
    let key : Json := .obj [("tenant_id", .str "acme"), ("created_at", .str "2026-01-01"),
      ("ip_allowlist", .arr [.str "10.0.0.0/8"])]
    Always (issueStep py " acme") (Restricted "acme" (.ipAllowlist "10.0.0.0/8" []))
      ((∅ : Store).set "hash-of-key" key)
      [⟨.create {} "hash-of-second-key" "2026-02-01", true⟩,
        ⟨.rotate "hash-of-third-key" "2026-03-01", true⟩] := by
  intro py key
  have hkeys : tenantEntries ((∅ : Store).set "hash-of-key" key) "acme" = [key] := by decide
  have h : Restricted (strip " acme") (.ipAllowlist "10.0.0.0/8" [])
      ((∅ : Store).set "hash-of-key" key) := by
    rw [show strip " acme" = "acme" by decide]
    refine ⟨by rw [hkeys]; simp, fun entry hentry => ?_⟩
    rw [hkeys, List.mem_singleton] at hentry
    rw [hentry]
    rfl
  rw [show "acme" = strip " acme" by decide]
  apply (restricted_always_iff py _ h).mpr
  exact fun _ _ => ⟨Or.inl ⟨_, _, rfl⟩, fun _ _ => ⟨Or.inl ⟨_, _, rfl⟩, trivial⟩⟩

/-- The only key of a tenant is suspended and its contract inactive; a new key is neither. -/
theorem not_restricted_after_create :
    let py : Builtins := { strOf := fun _ => "", less := fun _ _ => none }
    let key : Json := .obj [("tenant_id", .str "acme"), ("tier", .str "pro"),
      ("created_at", .str "2026-01-01"), ("suspended", .bool true),
      ("contract_inactive", .bool true)]
    let store : Store := (∅ : Store).set "hash-of-key" key
    let call : IssueCall := ⟨.create {} "hash-of-second-key" "2026-02-01", true⟩
    (Restricted "acme" .suspended store ∧ Restricted "acme" .contractInactive store) ∧
      ∃ store', issueStep py "acme" store call = some store' ∧
        ¬ Restricted "acme" .suspended store' ∧ ¬ Restricted "acme" .contractInactive store' := by
  intro py key store call
  have hkeys : tenantEntries store "acme" = [key] := by decide
  have hrestricted : ∀ r : Restriction, r.CarriedBy key → Restricted "acme" r store := by
    intro r hr
    refine ⟨by rw [hkeys]; simp, fun entry hentry => ?_⟩
    rw [hkeys, List.mem_singleton] at hentry
    rw [hentry]
    exact hr
  refine ⟨⟨hrestricted _ (by decide), hrestricted _ (by decide)⟩, store.set "hash-of-second-key"
    (newMetadata "acme" {} "2026-02-01"), by decide, ?_, ?_⟩
  · intro hafter
    have hnew := hafter.carried (newMetadata "acme" {} "2026-02-01") (by decide)
    revert hnew
    decide
  · intro hafter
    have hnew := hafter.carried (newMetadata "acme" {} "2026-02-01") (by decide)
    revert hnew
    decide

end TokenProxy.KeyStore
