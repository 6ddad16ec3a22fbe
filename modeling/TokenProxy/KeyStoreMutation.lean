/-
  TokenProxy/KeyStoreMutation.lean
  ================================
  **A mutation of the stored keys is a read-modify-write of the whole blob**
  (`_fetch_secret`, `_load_full_store`, `_mutate_store`, `_persist_store` of
  `auth/api_key_manager.py`, Secret Manager backend).

  The read turns every failure of Secret Manager into "no secret", and "no
  secret" into the empty store; the mutation is applied to that and written back.
  `Faithful` says what a mutation owes the blob, and `faithful_iff` which reads
  it survives: those that see the blob's content, and those after which the
  operation cannot do harm.
-/
import TokenProxy.KeyStore

namespace TokenProxy.KeyStore

/-! ## 1. The blob and its read-modify-write -/

/-- The payload of the keys secret's latest version. -/
inductive Blob where
  | empty
  | invalidUtf8
  | invalidJson
  /-- JSON, but no dict -/
  | notObject
  | object (store : Store)
deriving DecidableEq

inductive ReadOutcome where
  | succeeds
  | transientError
  | accessDenied
  | notFound
deriving DecidableEq, Repr

/-- `_fetch_secret`: any exception is logged and becomes `None`, a payload that does not decode
    and a secret without a version included. -/
def fetchSecret (blob : Option Blob) : ReadOutcome → Option Blob
  | .succeeds => if blob = some .invalidUtf8 then none else blob
  | _ => none

/-- `_load_full_store`.  JSON that is no dict is returned as it is, and then every mutation
    raises on it. -/
def loadFullStore (blob : Option Blob) (read : ReadOutcome) : Except KeyError Store :=
  match fetchSecret blob read with
  | none => .ok ∅
  | some .empty => .ok ∅
  | some (.object store) => .ok store
  | some _ => .error .corruptStore

/-- `_mutate_store`: what the caller gets, and the blob afterwards. -/
def mutateStore (mutation : Store → Mutated) (blob : Option Blob) (read : ReadOutcome)
    (writeSucceeds : Bool) : Except KeyError OpResult × Option Blob :=
  match loadFullStore blob read with
  | .error err => (.error err, blob)
  | .ok store =>
    match mutation store with
    | .error err => (.error err, blob)
    | .ok (changed, result, store') =>
      if !changed then (.ok result, blob)
      else if writeSucceeds then (.ok result, some (.object store'))
      else (.error .writeFailed, blob)

variable (py : Builtins)

def KeyOp.run (op : KeyOp) (tenantId : String) (blob : Option Blob) (read : ReadOutcome)
    (writeSucceeds : Bool) : Except KeyError OpResult × Option Blob :=
  if op.needsTenant && decide (strip tenantId = "") then (.error .tenantRequired, blob)
  else mutateStore (op.mutation py (strip tenantId)) blob read writeSucceeds

/-! ## 2. What a mutation owes the blob -/

/-- The keys that a blob holds, when it holds any that can be read. -/
def contentOf : Option Blob → Option Store
  | none => some ∅
  | some .empty => some ∅
  | some (.object store) => some store
  | some _ => none

/-- The operation raises and the blob is unchanged, or the blob is the mutation applied to its
    content. -/
def Faithful (op : KeyOp) (tenantId : String) (blob : Option Blob) (read : ReadOutcome)
    (writeSucceeds : Bool) : Prop :=
  let after := op.run py tenantId blob read writeSucceeds
  (∃ err, after.1 = .error err ∧ after.2 = blob) ∨
    ∃ content changed result store', contentOf blob = some content ∧
      op.mutation py (strip tenantId) content = .ok (changed, result, store') ∧
      contentOf after.2 = some store' ∧ ∃ value, after.1 = .ok value

/-- The read sees what the blob holds. -/
def SeesContent (blob : Option Blob) (read : ReadOutcome) : Prop :=
  (read = .succeeds ∧ blob ≠ some .invalidUtf8) ∨ contentOf blob = some ∅

/-- The entries that an operation on all keys of a tenant would change or remove. -/
def KeyOp.touches (tenantId : String) : KeyOp → Json → Bool
  | .setSuspended suspended => flagDiffers tenantId "suspended" suspended
  | .setContractActive active => flagDiffers tenantId "contract_inactive" (!active)
  | .setIpAllowlist cidrs => allowlistDiffers tenantId cidrs
  | .deleteTenantKeys => ownedBy tenantId
  | _ => fun _ => true

/-- An operation that does no harm to a blob that it takes for empty: it refuses an empty store,
    it does not get to write, or the blob holds nothing for it to change. -/
def Harmless (op : KeyOp) (tenantId : String) (blob : Option Blob) (writeSucceeds : Bool) :
    Prop :=
  match op with
  | .rotateTenantKeys _ _ => True
  | .createKey _ _ _ => writeSucceeds = false ∨ tenantId = ""
  | op => ∃ content, contentOf blob = some content ∧
      ∀ entry ∈ content.values, op.touches tenantId entry = false

/-! ## 3. The operations on all keys of a tenant -/

theorem obj_of_ownedBy {tenantId : String} {entry : Json} (h : ownedBy tenantId entry = true) :
    ∃ fields, entry = .obj fields := by
  cases entry with
  | obj fields => exact ⟨fields, rfl⟩
  | _ => cases h

/-- Once stamped or popped the flag is as wanted. -/
theorem flagDiffers_change {tenantId field : String} {wanted : Bool} {entry : Json}
    (h : flagDiffers tenantId field wanted entry = true) :
    flagDiffers tenantId field wanted
      (if wanted then entry.set field (.bool true) else entry.pop field) = false := by
  obtain ⟨hown, -⟩ := Bool.and_eq_true_iff.mp h
  obtain ⟨fields, rfl⟩ := obj_of_ownedBy hown
  cases wanted with
  | true =>
    rw [if_pos rfl, flagDiffers, fieldOf, Json.getD_set_self]
    simp [Json.truthy]
  | false =>
    rw [if_neg (by simp), flagDiffers, fieldOf, Json.getD_pop_self]
    simp [Json.truthy]

theorem allowlistDiffers_change {tenantId : String} {cidrs : List String} {entry : Json}
    (h : allowlistDiffers tenantId cidrs entry = true) :
    allowlistDiffers tenantId cidrs
      (if cidrs.isEmpty then entry.pop "ip_allowlist"
        else entry.set "ip_allowlist" (.arr (cidrs.map Json.str))) = false := by
  obtain ⟨hown, -⟩ := Bool.and_eq_true_iff.mp h
  obtain ⟨fields, rfl⟩ := obj_of_ownedBy hown
  cases cidrs with
  | nil =>
    rw [if_pos List.isEmpty_nil, allowlistDiffers, currentAllowlist, fieldOf, Json.getD_pop_self]
    simp [Json.orElse, Json.truthy, pyList]
  | cons cidr cidrs =>
    rw [if_neg (by simp), allowlistDiffers, currentAllowlist, fieldOf, Json.getD_set_self]
    simp [Json.orElse, Json.truthy, pyList]

/-- An update counts, and changes, exactly the entries it touches. -/
theorem updateTouched_spec (store : Store) {touches : Json → Bool} {change : Json → Json}
    (hchange : ∀ entry, touches entry = true → touches (change entry) = false) :
    ((updateTouched store touches change).1 = false ↔
        ∀ entry ∈ store.values, touches entry = false) ∧
      ((updateTouched store touches change).2.2 = store ↔
        ∀ entry ∈ store.values, touches entry = false) := by
  constructor
  · change decide (0 < store.values.countP touches) = false ↔ _
    rw [decide_eq_false_iff_not, Nat.not_lt, Nat.le_zero, List.countP_eq_zero]
    exact forall₂_congr fun entry _ => by rw [Bool.not_eq_true]
  · rw [updateTouched, Dict.mapValues_eq_self_iff]
    refine forall₂_congr fun entry _ => ?_
    cases htouch : touches entry with
    | false => simp
    | true =>
      rw [if_pos rfl]
      refine iff_of_false (fun heq => ?_) (by simp)
      have hnot := hchange entry htouch
      rw [heq, htouch] at hnot
      cases hnot

/-- An operation that succeeds changes the store exactly when it touches an entry of it. -/
def Sweeps (op : KeyOp) (tenantId : String) (content : Store) : Prop :=
  ∃ changed result store', op.mutation py tenantId content = .ok (changed, result, store') ∧
    (changed = false ↔ ∀ entry ∈ content.values, op.touches tenantId entry = false) ∧
    (store' = content ↔ ∀ entry ∈ content.values, op.touches tenantId entry = false)

theorem sweeps_of_update {op : KeyOp} {tenantId : String} {content : Store}
    {change : Json → Json}
    (h : op.mutation py tenantId content =
      .ok (updateTouched content (op.touches tenantId) change))
    (hchange : ∀ entry, op.touches tenantId entry = true →
      op.touches tenantId (change entry) = false) : Sweeps py op tenantId content :=
  ⟨_, _, _, h, updateTouched_spec content hchange⟩

/-- Without a list to read, an entry counts as carrying another one. -/
theorem allowlistDiffers_of_error {tenantId : String} {cidrs : List String} {entry : Json}
    (hown : ownedBy tenantId entry = true) (herr : (currentAllowlist entry).isOk = false) :
    allowlistDiffers tenantId cidrs entry = true := by
  unfold allowlistDiffers
  rw [hown]
  cases hcurrent : currentAllowlist entry with
  | error err => rfl
  | ok current =>
    rw [hcurrent] at herr
    cases herr

/-- An operation on all keys of a tenant raises over an entry it would touch, or it sweeps. -/
theorem sweep_spec (op : KeyOp) (hsweep : op.needsTenant = false) (tenantId : String)
    (content : Store) :
    (∃ err, op.mutation py tenantId content = .error err ∧
      ∃ entry ∈ content.values, op.touches tenantId entry = true) ∨
    Sweeps py op tenantId content := by
  cases op with
  | createKey request keyHash createdAt => cases hsweep
  | rotateTenantKeys keyHash createdAt => cases hsweep
  | setSuspended suspended =>
    exact Or.inr (sweeps_of_update py rfl fun _ htouch => flagDiffers_change htouch)
  | setContractActive active =>
    exact Or.inr (sweeps_of_update py rfl fun _ htouch => flagDiffers_change htouch)
  | setIpAllowlist cidrs =>
    by_cases hbad : ((tenantEntries content tenantId).any fun entry =>
        (currentAllowlist entry).isOk = false) = true
    · obtain ⟨entry, hmem, herr⟩ := List.any_eq_true.mp hbad
      obtain ⟨hvalue, hown⟩ := List.mem_filter.mp hmem
      exact Or.inl ⟨.typeError, if_pos hbad, entry, hvalue,
        allowlistDiffers_of_error hown (of_decide_eq_true herr)⟩
    · exact Or.inr (sweeps_of_update py (if_neg hbad) fun _ htouch =>
        allowlistDiffers_change htouch)
  | deleteTenantKeys =>
    refine Or.inr ⟨_, _, _, rfl, ?_, ?_⟩
    · rw [decide_eq_false_iff_not, Nat.not_lt, Nat.le_zero, List.length_eq_zero_iff,
        tenantEntries, List.filter_eq_nil_iff]
      exact forall₂_congr fun entry _ => by rw [Bool.not_eq_true]; rfl
    · rw [Dict.filter_eq_self_iff]
      exact forall₂_congr fun entry _ => by rw [Bool.not_eq_true']; rfl

/-! ## 4. Reads that see the content, and reads that do not -/

theorem load_of_sees {blob : Option Blob} {read : ReadOutcome} (h : SeesContent blob read) :
    loadFullStore blob read = .error .corruptStore ∨
      ∃ content, loadFullStore blob read = .ok content ∧ contentOf blob = some content := by
  rcases h with ⟨rfl, hutf8⟩ | hempty
  · unfold loadFullStore fetchSecret
    rw [if_neg hutf8]
    cases blob with
    | none => exact Or.inr ⟨∅, rfl, rfl⟩
    | some payload =>
      cases payload with
      | empty => exact Or.inr ⟨∅, rfl, rfl⟩
      | invalidUtf8 => exact absurd rfl hutf8
      | invalidJson => exact Or.inl rfl
      | notObject => exact Or.inl rfl
      | object store => exact Or.inr ⟨store, rfl, rfl⟩
  · refine Or.inr ⟨∅, ?_, hempty⟩
    cases read with
    | succeeds =>
      cases blob with
      | none => rfl
      | some payload =>
        cases payload with
        | empty => rfl
        | object store => cases hempty; rfl
        | _ => cases hempty
    | _ => rfl

/-- A read that does not see the content takes the blob for empty. -/
theorem load_of_not_sees {blob : Option Blob} {read : ReadOutcome}
    (h : ¬ SeesContent blob read) : loadFullStore blob read = .ok ∅ := by
  cases read with
  | succeeds =>
    by_cases hutf8 : blob = some .invalidUtf8
    · rw [hutf8]
      rfl
    · exact absurd (Or.inl ⟨rfl, hutf8⟩) h
  | _ => rfl

/-- A mutation that reports no change has made none. -/
theorem mutation_unchanged {op : KeyOp} {tenantId : String} {content store' : Store}
    {result : OpResult} (h : op.mutation py tenantId content = .ok (false, result, store')) :
    store' = content := by
  cases hneeds : op.needsTenant with
  | false =>
    rcases sweep_spec py op hneeds tenantId content with ⟨err, herr, -⟩ |
      ⟨changed, value, swept, hok, hchanged, hstore⟩
    · rw [h] at herr
      cases herr
    · rw [h] at hok
      cases hok
      exact hstore.mpr (hchanged.mp rfl)
  | true =>
    cases op with
    | createKey request keyHash createdAt => exact absurd (createKey_ok h).2.1 (by simp)
    | rotateTenantKeys keyHash createdAt => exact absurd (rotateTenantKeys_ok h).1 (by simp)
    | _ => cases hneeds

section

variable {py} (op : KeyOp) {tenantId : String} {blob : Option Blob} {read : ReadOutcome}
  {content store' : Store} {result : OpResult} {writeSucceeds : Bool}

theorem mutateStore_error {err : KeyError} (hload : loadFullStore blob read = .ok content)
    (hmut : op.mutation py tenantId content = .error err) :
    mutateStore (op.mutation py tenantId) blob read writeSucceeds = (.error err, blob) := by
  rw [mutateStore, hload]
  dsimp only
  rw [hmut]

theorem mutateStore_unchanged (hload : loadFullStore blob read = .ok content)
    (hmut : op.mutation py tenantId content = .ok (false, result, store')) :
    mutateStore (op.mutation py tenantId) blob read writeSucceeds = (.ok result, blob) := by
  rw [mutateStore, hload]
  dsimp only
  rw [hmut]
  rfl

theorem mutateStore_changed (hload : loadFullStore blob read = .ok content)
    (hmut : op.mutation py tenantId content = .ok (true, result, store')) :
    mutateStore (op.mutation py tenantId) blob read writeSucceeds =
      if writeSucceeds then (.ok result, some (.object store')) else (.error .writeFailed, blob) := by
  rw [mutateStore, hload]
  dsimp only
  rw [hmut]
  rfl

end

theorem faithful_of_sees {op : KeyOp} {tenantId : String} {blob : Option Blob}
    {read : ReadOutcome} {writeSucceeds : Bool} (h : SeesContent blob read) :
    Faithful py op tenantId blob read writeSucceeds := by
  unfold Faithful KeyOp.run
  by_cases htenant : (op.needsTenant && decide (strip tenantId = "")) = true
  · rw [if_pos htenant]
    exact Or.inl ⟨_, rfl, rfl⟩
  · rw [if_neg htenant]
    rcases load_of_sees h with herr | ⟨content, hload, hcontent⟩
    · refine Or.inl ⟨.corruptStore, ?_, ?_⟩
      · rw [mutateStore, herr]
      · rw [mutateStore, herr]
    · cases hmut : op.mutation py (strip tenantId) content with
      | error err =>
        rw [mutateStore_error op hload hmut]
        exact Or.inl ⟨err, rfl, rfl⟩
      | ok outcome =>
        obtain ⟨changed, result, store'⟩ := outcome
        cases changed with
        | false =>
          have hsame := mutation_unchanged py hmut
          rw [mutateStore_unchanged op hload hmut]
          exact Or.inr ⟨content, false, result, store', hcontent, hmut,
            hcontent.trans (congrArg some hsame.symm), result, rfl⟩
        | true =>
          rw [mutateStore_changed op hload hmut]
          cases writeSucceeds with
          | true =>
            exact Or.inr ⟨content, true, result, store', hcontent, hmut, rfl, result, rfl⟩
          | false => exact Or.inl ⟨.writeFailed, rfl, rfl⟩

/-! ### A blob that is taken for empty -/

theorem createKey_empty (tenantId keyHash createdAt : String) (request : KeyRequest) :
    createKey py tenantId request keyHash createdAt ∅ =
      .ok (true, .created keyHash (newMetadata tenantId request createdAt),
        (∅ : Store).set keyHash (newMetadata tenantId request createdAt)) := rfl

theorem rotateTenantKeys_empty (tenantId keyHash createdAt : String) :
    rotateTenantKeys py tenantId keyHash createdAt ∅ = .error .noKeysToRotate := rfl

/-- A store that becomes a single key by an insertion held nothing before. -/
theorem empty_of_set_eq {content : Store} {keyHash : String} {metadata metadata' : Json}
    (hnew : content.get? keyHash = none)
    (heq : content.set keyHash metadata = (∅ : Store).set keyHash metadata') : content = ∅ := by
  have hnone : ∀ key, content.get? key = none := by
    intro key
    by_cases hkey : key = keyHash
    · rw [hkey, hnew]
    · rw [← Dict.get?_set_of_ne content hkey metadata, heq, Dict.get?_set_of_ne _ hkey]
      rfl
  refine Dict.ext_entries (List.eq_nil_iff_forall_not_mem.mpr fun entry hentry => ?_)
  have hsome := (Dict.mem_entries_iff content entry.1 entry.2).mp hentry
  rw [hnone] at hsome
  cases hsome

theorem faithful_blind_create {request : KeyRequest} {keyHash createdAt tenantId : String}
    {blob : Option Blob} {read : ReadOutcome} {writeSucceeds : Bool}
    (hblind : ¬ SeesContent blob read) :
    Faithful py (.createKey request keyHash createdAt) tenantId blob read writeSucceeds ↔
      writeSucceeds = false ∨ strip tenantId = "" := by
  unfold Faithful KeyOp.run
  by_cases htenant : strip tenantId = ""
  · rw [if_pos (by simp [KeyOp.needsTenant, htenant])]
    exact iff_of_true (Or.inl ⟨_, rfl, rfl⟩) (Or.inr htenant)
  · rw [if_neg (by simp [htenant]), mutateStore_changed (.createKey request keyHash createdAt)
      (load_of_not_sees hblind) (createKey_empty py (strip tenantId) keyHash createdAt request)]
    cases writeSucceeds with
    | false => exact iff_of_true (Or.inl ⟨_, rfl, rfl⟩) (Or.inl rfl)
    | true =>
      refine iff_of_false ?_ (by simp [htenant])
      rintro (⟨err, herr, -⟩ | ⟨content, changed, result, store', hcontent, hmut, hafter, -⟩)
      · cases herr
      · obtain ⟨hnew, -, cidrs, -, hstore⟩ := createKey_ok hmut
        have hsingle := hstore.symm.trans (Option.some.inj hafter).symm
        rw [empty_of_set_eq hnew hsingle] at hcontent
        exact hblind (Or.inr hcontent)

theorem faithful_blind_rotate {keyHash createdAt tenantId : String} {blob : Option Blob}
    {read : ReadOutcome} {writeSucceeds : Bool} (hblind : ¬ SeesContent blob read) :
    Faithful py (.rotateTenantKeys keyHash createdAt) tenantId blob read writeSucceeds := by
  unfold Faithful KeyOp.run
  split
  · exact Or.inl ⟨_, rfl, rfl⟩
  · rw [mutateStore_error (.rotateTenantKeys keyHash createdAt) (load_of_not_sees hblind)
      (rotateTenantKeys_empty py (strip tenantId) keyHash createdAt)]
    exact Or.inl ⟨_, rfl, rfl⟩

theorem faithful_blind_sweep {op : KeyOp} (hsweep : op.needsTenant = false) {tenantId : String}
    {blob : Option Blob} {read : ReadOutcome} {writeSucceeds : Bool}
    (hblind : ¬ SeesContent blob read) :
    Faithful py op tenantId blob read writeSucceeds ↔
      ∃ content, contentOf blob = some content ∧
        ∀ entry ∈ content.values, op.touches (strip tenantId) entry = false := by
  have hempty : ∃ result, op.mutation py (strip tenantId) ∅ = .ok (false, result, ∅) := by
    rcases sweep_spec py op hsweep (strip tenantId) ∅ with ⟨err, -, entry, hentry, -⟩ |
      ⟨changed, result, store', hok, hchanged, hstore⟩
    · cases hentry
    · have hnone : ∀ entry ∈ (∅ : Store).values, op.touches (strip tenantId) entry = false :=
        fun entry hentry => nomatch hentry
      rw [hchanged.mpr hnone, hstore.mpr hnone] at hok
      exact ⟨result, hok⟩
  obtain ⟨value, hempty⟩ := hempty
  unfold Faithful KeyOp.run
  rw [if_neg (by simp [hsweep]), mutateStore_unchanged op (load_of_not_sees hblind) hempty]
  constructor
  · rintro (⟨err, herr, -⟩ | ⟨content, changed, result, store', hcontent, hmut, hafter, -⟩)
    · cases herr
    · have hsame : content = store' := Option.some.inj (hcontent.symm.trans hafter)
      refine ⟨content, hcontent, ?_⟩
      rcases sweep_spec py op hsweep (strip tenantId) content with ⟨err, herr, -⟩ |
        ⟨changed', result', swept, hok, -, hstore⟩
      · rw [hmut] at herr
        cases herr
      · rw [hmut] at hok
        cases hok
        exact hstore.mp hsame.symm
  · rintro ⟨content, hcontent, hnone⟩
    rcases sweep_spec py op hsweep (strip tenantId) content with ⟨err, -, entry, hentry, htouch⟩ |
      ⟨changed, result, store', hok, -, hstore⟩
    · rw [hnone entry hentry] at htouch
      cases htouch
    · exact Or.inr ⟨content, changed, result, store', hcontent, hok,
        hcontent.trans (congrArg some (hstore.mpr hnone).symm), value, rfl⟩

/-! ## 5. The exact condition -/

/-- **The exact condition.**  A mutation is faithful to the blob exactly when its read sees the
    content, or when it does no harm to a blob that it takes for empty. -/
theorem faithful_iff (op : KeyOp) (tenantId : String) (blob : Option Blob) (read : ReadOutcome)
    (writeSucceeds : Bool) :
    Faithful py op tenantId blob read writeSucceeds ↔
      SeesContent blob read ∨ Harmless op (strip tenantId) blob writeSucceeds := by
  by_cases hsees : SeesContent blob read
  · exact iff_of_true (faithful_of_sees py hsees) (Or.inl hsees)
  · rw [or_iff_right hsees]
    cases op with
    | createKey request keyHash createdAt => exact faithful_blind_create py hsees
    | rotateTenantKeys keyHash createdAt =>
      exact iff_of_true (faithful_blind_rotate py hsees) trivial
    | setSuspended suspended => exact faithful_blind_sweep py rfl hsees
    | setContractActive active => exact faithful_blind_sweep py rfl hsees
    | setIpAllowlist cidrs => exact faithful_blind_sweep py rfl hsees
    | deleteTenantKeys => exact faithful_blind_sweep py rfl hsees

/-- The read fails for a moment, and issuing a key for one tenant erases another's. -/
theorem not_faithful_transient_read :
    let py : Builtins := { strOf := fun _ => "", less := fun _ _ => none }
    let acme : Json := .obj [("tenant_id", .str "acme"), ("tier", .str "pro")]
    let op : KeyOp := .createKey {} "hash-of-globex-key" "2026-01-01T00:00:00+00:00"
    let blob : Option Blob := some (.object ((∅ : Store).set "hash-of-acme-key" acme))
    ((contentOf (op.run py "globex" blob .transientError true).2).map fun store =>
        store.entries.map Prod.fst) = some ["hash-of-globex-key"] ∧
      ¬ Faithful py op "globex" blob .transientError true := by
  intro py acme op blob
  have hrun : op.run py "globex" blob .transientError true =
      (.ok (.created "hash-of-globex-key"
          (newMetadata "globex" {} "2026-01-01T00:00:00+00:00")),
        some (.object ((∅ : Store).set "hash-of-globex-key"
          (newMetadata "globex" {} "2026-01-01T00:00:00+00:00")))) := by decide
  refine ⟨by rw [hrun]; rfl, ?_⟩
  unfold Faithful
  rw [hrun]
  rintro (⟨err, herr, -⟩ | ⟨content, changed, result, store', hcontent, hmut, hafter, -⟩)
  · cases herr
  · obtain rfl := Option.some.inj hcontent
    obtain ⟨-, -, cidrs, -, hstore⟩ := createKey_ok hmut
    have hacme := congrArg (fun store : Store => (store.get? "hash-of-acme-key").isSome)
      (hstore.symm.trans (Option.some.inj hafter).symm)
    rw [Dict.get?_set_of_ne _ (by decide)] at hacme
    exact absurd hacme (by decide)

end TokenProxy.KeyStore
