/-
  TokenProxy/KeyStore.lean
  ========================
  **The write side of the API key store** (`auth/api_key_manager.py`, the
  lifecycle engine).

  A store maps the hash of a key to its metadata; a legacy entry is a plain
  string.  Every operation is a mutation of a whole store: it raises, or it
  returns whether anything changed, its result, and the store.  What is random or
  read off the clock (the hash of a fresh key, `created_at`) is an argument.

  `str(value)` and `a < b` are used on values that need not be strings; on those
  they are the functions of a `Builtins`.
-/
import TokenProxy.PyJson

namespace TokenProxy.KeyStore

abbrev Store := Dict String Json

inductive KeyError where
  | tenantRequired
  | keyExists
  | noKeysToRotate
  | typeError
  | corruptStore
  | writeFailed
deriving DecidableEq, Repr

/-- The message of the errors that the engine raises itself. -/
def KeyError.message : KeyError → Option String
  | .tenantRequired => some "tenant_id is required"
  | .keyExists => some "key already exists"
  | .noKeysToRotate => some "tenant has no keys to rotate"
  | _ => none

/-- Python's `str` and `<` on values that are no strings; `none` is a `TypeError`. -/
structure Builtins where
  strOf : Json → String
  less : Json → Json → Option Bool

namespace Builtins

def str (py : Builtins) : Json → String
  | .str s => s
  | value => py.strOf value

def lt (py : Builtins) : Json → Json → Except KeyError Bool
  | .str a, .str b => .ok (decide (a < b))
  | a, b =>
    match py.less a b with
    | some answer => .ok answer
    | none => .error .typeError

end Builtins

/-- `str.isspace` of one character. -/
def isSpace (c : Char) : Bool :=
  (9 ≤ c.toNat && c.toNat ≤ 13) || (28 ≤ c.toNat && c.toNat ≤ 32) || c.toNat = 133 ||
    c.toNat = 160 || c.toNat = 5760 || (8192 ≤ c.toNat && c.toNat ≤ 8202) ||
    c.toNat = 8232 || c.toNat = 8233 || c.toNat = 8239 || c.toNat = 8287 || c.toNat = 12288

/-- `s.strip()`. -/
def strip (s : String) : String :=
  String.ofList (((s.toList.dropWhile isSpace).reverse.dropWhile isSpace).reverse)

/-! ## 1. Entries -/

def fieldOf (entry : Json) (field : String) : Json := entry.getD field .null

/-- The entry is a key of this tenant; a legacy entry belongs to none. -/
def ownedBy (tenantId : String) (entry : Json) : Bool :=
  entry.isObj && decide (entry.get? "tenant_id" = some (.str tenantId))

def isSuspended (entry : Json) : Bool := entry.isObj && (fieldOf entry "suspended").truthy

def isContractInactive (entry : Json) : Bool :=
  entry.isObj && (fieldOf entry "contract_inactive").truthy

def tenantEntries (store : Store) (tenantId : String) : List Json :=
  store.values.filter (ownedBy tenantId)

/-! ## 2. The newest of several -/

variable (py : Builtins)

/-- `max(best, *rest, key=key)`: the first of the greatest. -/
def maxBy {α : Type} (key : α → Json) : α → List α → Except KeyError α
  | best, [] => .ok best
  | best, x :: xs => do
    let greater ← py.lt (key best) (key x)
    maxBy key (if greater then x else best) xs

/-- `e.get("created_at") or ""`. -/
def createdAt (entry : Json) : Json := (fieldOf entry "created_at").orElse (.str "")

/-- The non-empty source-IP list that a key carries. -/
def ipAllowlist? (entry : Json) : Option (List Json) :=
  (fieldOf entry "ip_allowlist").items?.filter fun cidrs => !cidrs.isEmpty

/-- `_tenant_allowlist`: the newest non-empty list among the tenant's keys. -/
def tenantAllowlist (store : Store) (tenantId : String) : Except KeyError (List String) :=
  let lists := (tenantEntries store tenantId).filterMap fun entry =>
    (ipAllowlist? entry).map fun cidrs => (createdAt entry, cidrs)
  match lists with
  | [] => .ok []
  | first :: rest => do
    let newest ← maxBy py Prod.fst first rest
    return newest.2.map py.str

/-! ## 3. The mutations -/

/-- What an operation returns to its caller, beside the raw key. -/
inductive OpResult where
  | created (keyHash : String) (metadata : Json)
  | changed (count : Nat)
  | rotated (keyHash : String) (metadata : Json) (revoked : Nat)
deriving DecidableEq

abbrev Mutated := Except KeyError (Bool × OpResult × Store)

/-- Change the entries that `touches` selects, and count them. -/
def updateTouched (store : Store) (touches : Json → Bool) (change : Json → Json) :
    Bool × OpResult × Store :=
  let count := store.values.countP touches
  (decide (0 < count), .changed count,
    store.mapValues fun entry => if touches entry then change entry else entry)

/-- Whether a key of the tenant does not carry the flag as wanted. -/
def flagDiffers (tenantId field : String) (wanted : Bool) (entry : Json) : Bool :=
  ownedBy tenantId entry && (fieldOf entry field).truthy != wanted

/-- Stamp or pop a flag on all keys of a tenant. -/
def setFlag (field tenantId : String) (wanted : Bool) (store : Store) : Mutated :=
  .ok (updateTouched store (flagDiffers tenantId field wanted) fun entry =>
    if wanted then entry.set field (.bool true) else entry.pop field)

def setSuspended (tenantId : String) (suspended : Bool) : Store → Mutated :=
  setFlag "suspended" tenantId suspended

/-- The blocking state is what is stored: inactive is the flag, active its absence. -/
def setContractActive (tenantId : String) (active : Bool) : Store → Mutated :=
  setFlag "contract_inactive" tenantId (!active)

/-- `list(value)`. -/
def pyList : Json → Except KeyError (List Json)
  | .arr items => .ok items
  | .str s => .ok (s.toList.map fun c => .str (String.singleton c))
  | .obj fields => .ok (fields.map fun field => .str field.1)
  | _ => .error .typeError

/-- `list(entry.get("ip_allowlist") or [])`. -/
def currentAllowlist (entry : Json) : Except KeyError (List Json) :=
  pyList ((fieldOf entry "ip_allowlist").orElse (.arr []))

def allowlistDiffers (tenantId : String) (cidrs : List String) (entry : Json) : Bool :=
  ownedBy tenantId entry &&
    match currentAllowlist entry with
    | .ok current => decide (current ≠ cidrs.map Json.str)
    | .error _ => true

def setIpAllowlist (tenantId : String) (cidrs : List String) (store : Store) : Mutated :=
  if (tenantEntries store tenantId).any fun entry => (currentAllowlist entry).isOk = false then
    .error .typeError
  else
    .ok (updateTouched store (allowlistDiffers tenantId cidrs) fun entry =>
      if cidrs.isEmpty then entry.pop "ip_allowlist"
      else entry.set "ip_allowlist" (.arr (cidrs.map Json.str)))

def deleteTenantKeys (tenantId : String) (store : Store) : Mutated :=
  let removed := (tenantEntries store tenantId).length
  .ok (decide (0 < removed), .changed removed, store.filter fun _ entry => !ownedBy tenantId entry)

/-! ### Issuing -/

def reservedFields : List String :=
  ["tenant_id", "tier", "created_at", "admin", "suspended", "contract_inactive",
    "ip_allowlist", "gateway"]

/-- The arguments of `create_key`, the tier as it is stored. -/
structure KeyRequest where
  tier : String := "free"
  admin : Bool := false
  gateway : Bool := false
  extra : List (String × Json) := []
deriving DecidableEq

/-- The metadata of a new key, before its source-IP restriction. -/
def newMetadata (tenantId : String) (request : KeyRequest) (createdAt : String) : Json :=
  let extra := request.extra.filter fun field => field.1 ∉ reservedFields
  let base := (((Json.obj extra).set "tenant_id" (.str tenantId)).set "tier"
    (.str request.tier)).set "created_at" (.str createdAt)
  let base := if request.admin then base.set "admin" (.bool true) else base
  if request.gateway then base.set "gateway" (.bool true) else base

def withAllowlist (metadata : Json) (cidrs : List String) : Json :=
  if cidrs.isEmpty then metadata else metadata.set "ip_allowlist" (.arr (cidrs.map Json.str))

def createKey (tenantId : String) (request : KeyRequest) (keyHash createdAt : String)
    (store : Store) : Mutated :=
  if (store.get? keyHash).isSome then .error .keyExists
  else do
    let cidrs ← tenantAllowlist py store tenantId
    let metadata := withAllowlist (newMetadata tenantId request createdAt) cidrs
    return (true, .created keyHash metadata, store.set keyHash metadata)

/-- The fields that a rotation does not carry over as they are. -/
def explicitFields : List String := ["admin", "suspended", "gateway", "ip_allowlist"]

/-- Copy the other fields of the newest key, where the new key has none. -/
def carryOver (metadata : Json) : List (String × Json) → Json
  | [] => metadata
  | (field, value) :: fields =>
    if (metadata.get? field).isNone && decide (field ∉ explicitFields) then
      carryOver (metadata.set field value) fields
    else carryOver metadata fields

def rotatedMetadata (tenantId createdAt : String) (newest : Json) (cidrs : List String)
    (suspended : Bool) : Json :=
  let base := carryOver
    (.obj [("tenant_id", .str tenantId),
      ("tier", (fieldOf newest "tier").orElse (.str "free")), ("created_at", .str createdAt)])
    (newest.fields?.getD [])
  let base := withAllowlist base cidrs
  let base := if (fieldOf newest "admin").truthy then base.set "admin" (.bool true) else base
  let base :=
    if fieldOf newest "gateway" = .bool true then base.set "gateway" (.bool true) else base
  if suspended then base.set "suspended" (.bool true) else base

def rotateTenantKeys (tenantId keyHash createdAt : String) (store : Store) : Mutated :=
  match tenantEntries store tenantId with
  | [] => .error .noKeysToRotate
  | first :: rest => do
    let newest ← maxBy py KeyStore.createdAt first rest
    let cidrs ← tenantAllowlist py store tenantId
    let metadata := rotatedMetadata tenantId createdAt newest cidrs
      ((first :: rest).any fun entry => (fieldOf entry "suspended").truthy)
    let others := store.filter fun _ entry => !ownedBy tenantId entry
    return (true, .rotated keyHash metadata (rest.length + 1), others.set keyHash metadata)

/-! ## 4. The operations as one type -/

inductive KeyOp where
  | createKey (request : KeyRequest) (keyHash createdAt : String)
  | rotateTenantKeys (keyHash createdAt : String)
  | setSuspended (suspended : Bool)
  | setContractActive (active : Bool)
  | setIpAllowlist (cidrs : List String)
  | deleteTenantKeys
deriving DecidableEq

/-- The mutation that an operation hands to `_mutate_store`. -/
def KeyOp.mutation (tenantId : String) : KeyOp → Store → Mutated
  | .createKey request keyHash createdAt => KeyStore.createKey py tenantId request keyHash createdAt
  | .rotateTenantKeys keyHash createdAt => KeyStore.rotateTenantKeys py tenantId keyHash createdAt
  | .setSuspended suspended => KeyStore.setSuspended tenantId suspended
  | .setContractActive active => KeyStore.setContractActive tenantId active
  | .setIpAllowlist cidrs => KeyStore.setIpAllowlist tenantId cidrs
  | .deleteTenantKeys => KeyStore.deleteTenantKeys tenantId

/-- Issuing and rotating need a tenant; the others match nothing without one. -/
def KeyOp.needsTenant : KeyOp → Bool
  | .createKey _ _ _ => true
  | .rotateTenantKeys _ _ => true
  | _ => false

/-! ## 5. What issuing and rotating do when they succeed -/

variable {py}

theorem createKey_ok {tenantId keyHash createdAt : String} {request : KeyRequest}
    {store store' : Store} {changed : Bool} {result : OpResult}
    (h : createKey py tenantId request keyHash createdAt store = .ok (changed, result, store')) :
    store.get? keyHash = none ∧ changed = true ∧
      ∃ cidrs, tenantAllowlist py store tenantId = .ok cidrs ∧
        store' = store.set keyHash
          (withAllowlist (newMetadata tenantId request createdAt) cidrs) := by
  unfold createKey at h
  cases hold : store.get? keyHash with
  | some entry =>
    rw [hold] at h
    cases h
  | none =>
    rw [hold, if_neg (by simp)] at h
    cases hcidrs : tenantAllowlist py store tenantId with
    | error err =>
      rw [hcidrs] at h
      cases h
    | ok cidrs =>
      rw [hcidrs] at h
      cases h
      exact ⟨rfl, rfl, cidrs, rfl, rfl⟩

theorem rotateTenantKeys_ok {tenantId keyHash createdAt : String} {store store' : Store}
    {changed : Bool} {result : OpResult}
    (h : rotateTenantKeys py tenantId keyHash createdAt store = .ok (changed, result, store')) :
    changed = true ∧ ∃ first rest newest cidrs,
      tenantEntries store tenantId = first :: rest ∧
      maxBy py KeyStore.createdAt first rest = .ok newest ∧
      tenantAllowlist py store tenantId = .ok cidrs ∧
      store' = (store.filter fun _ entry => !ownedBy tenantId entry).set keyHash
        (rotatedMetadata tenantId createdAt newest cidrs
          ((first :: rest).any fun entry => (fieldOf entry "suspended").truthy)) := by
  unfold rotateTenantKeys at h
  cases hkeys : tenantEntries store tenantId with
  | nil =>
    rw [hkeys] at h
    cases h
  | cons first rest =>
    rw [hkeys] at h
    dsimp only at h
    cases hnewest : maxBy py KeyStore.createdAt first rest with
    | error err =>
      rw [hnewest] at h
      cases h
    | ok newest =>
      cases hcidrs : tenantAllowlist py store tenantId with
      | error err =>
        rw [hnewest, hcidrs] at h
        cases h
      | ok cidrs =>
        rw [hnewest, hcidrs] at h
        cases h
        exact ⟨rfl, first, rest, newest, cidrs, rfl, hnewest, rfl, rfl⟩

end TokenProxy.KeyStore
