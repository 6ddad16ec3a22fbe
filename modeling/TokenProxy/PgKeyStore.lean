/-
  TokenProxy/PgKeyStore.lean
  ==========================
  **The writers of the Postgres key store** (`auth/pg_key_store.py`).

  Two tables: `proxy_keys`, a row for each key hash, and `revoked_proxy_keys`, the
  hashes that no writer may put back.  Any number of calls write them at once:

    * `replace_all`  — one transaction that takes no advisory lock;
    * `transact`     — one transaction that holds the advisory lock throughout;
    * `upsert_keys`  — one autocommitted `INSERT_NEW_KEY_SQL` for each key.

  One label is one SQL statement of one call, under READ COMMITTED: it sees what
  is committed when it begins, with its own transaction's writes over that.  It
  cannot end while it touches a row with another transaction's uncommitted write.
  A statement that has begun (`begin`) keeps what it saw until it ends: it selects
  rows of that snapshot, less those that a commit has deleted since, while an
  `ON CONFLICT` or a unique index is about the table as it then is.  Whatever
  makes a call fail (a timeout, a cancelled task, a deadlock, a value that the
  driver refuses) rolls its transaction back.  Texts have no NUL, which Postgres
  refuses.
-/
import TokenProxy.KeyStore
import TokenProxy.SignificantDigits

namespace TokenProxy.PgKeyStore

open KeyStore
open SignificantDigits (shortest)

/-! ## 1. Rows -/

/-- From here on `repr` writes a double with an exponent. -/
def exponentFrom : ℚ := 10 ^ 16

mutual

/-- What `json.loads` reads of a `jsonb` that `json.dumps` has written: a number is shown without
an exponent, so that a large double is read as the whole number that its digits say. -/
def jsonb : Json → Json
  | .float q => if exponentFrom ≤ |q| then .int (shortest q).num else .float q
  | .arr items => .arr (jsonbItems items)
  | .obj fields => .obj (jsonbFields fields)
  | value => value

def jsonbItems : List Json → List Json
  | [] => []
  | v :: rest => jsonb v :: jsonbItems rest

def jsonbFields : List (String × Json) → List (String × Json)
  | [] => []
  | (k, v) :: rest => (k, jsonb v) :: jsonbFields rest

end

/-- A row of `proxy_keys`, less its primary key. -/
structure Row where
  tenantId : String
  tier : String
  admin : Bool
  suspended : Bool
  createdAt : Option String
  /-- as the column's text is read -/
  extra : Json
deriving DecidableEq

def coreFields : List String := ["tenant_id", "tier", "admin", "suspended", "created_at"]

/-- What a nullable `text` parameter accepts. -/
def textOrNull : Json → Option (Option String)
  | .null => some none
  | .str s => some (some s)
  | _ => none

/-- A legacy string entry as the dict that `_row_args` writes for it. -/
def entryDict (py : Builtins) (entry : Json) : Json :=
  if entry.isObj then entry
  else .obj [("tenant_id", .str (py.str entry)), ("tier", .str "legacy")]

/-- `_row_args`; `none` when the driver refuses a value for its column. -/
def rowArgs (py : Builtins) (entry : Json) : Option Row := do
  let entry := entryDict py entry
  let tenantId ← (entry.getD "tenant_id" (.str "default")).str?
  let tier ← (entry.getD "tier" (.str "free")).str?
  let createdAt ← textOrNull (entry.getD "created_at" .null)
  return {
    tenantId := tenantId
    tier := tier
    admin := (entry.getD "admin" .null).truthy
    suspended := (entry.getD "suspended" .null).truthy
    createdAt := createdAt
    extra := jsonb (.obj ((entry.fields?.getD []).filter fun field => field.1 ∉ coreFields)) }

/-- `_row_to_meta`: the columns first, the extra fields where they do not clash. -/
def rowToMeta (row : Row) : Json :=
  let entry := Json.obj [("tenant_id", .str row.tenantId),
    ("tier", .str (if row.tier = "" then "free" else row.tier)),
    ("created_at", (row.createdAt.map Json.str).getD .null)]
  let entry := if row.admin then entry.set "admin" (.bool true) else entry
  let entry := if row.suspended then entry.set "suspended" (.bool true) else entry
  (row.extra.fields?.getD []).foldl (fun acc field => acc.setDefault field.1 field.2) entry

abbrev KeyTable := Dict String Row

/-- `revoked_proxy_keys`: the tenant of each recorded hash. -/
abbrev RevokedTable := Dict String String

/-- The store as a reader sees it. -/
def storeOf (table : KeyTable) : Store := table.map rowToMeta

/-! ## 2. Calls in progress -/

abbrev Mutation := Store → Mutated

inductive Call where
  | replaceAll (store : Store)
  | transact (mutation : Mutation)
  | upsertKeys (store : Store)

/-- What a call returns. -/
inductive Answer where
  | written (count : Nat)
  | applied (result : OpResult) (after : Store)
  | inserted (count : Nat)
deriving DecidableEq

/-- Where a call is: the statement that it runs next, and what it holds in its variables. -/
inductive Phase where
  | recordMissing (store : Store)
  | checkStore (store : Store)
  | deleteAll (store : Store) (revoked : List String)
  | insertKept (entries : List (String × Json)) (written : Nat)
  | lock (mutation : Mutation)
  | selectRows (mutation : Mutation)
  | recordRemoved (removed : List String) (upserts : List (String × Json)) (result : OpResult)
      (after : Store)
  | deleteRemoved (removed : List String) (upserts : List (String × Json)) (result : OpResult)
      (after : Store)
  | checkUpserts (upserts : List (String × Json)) (result : OpResult) (after : Store)
  | upsert (entries : List (String × Json)) (result : OpResult) (after : Store)
  | insertNew (entries : List (String × Json)) (inserted : Nat)
  | ended (answer : Option Answer)

/-- The call has the advisory lock. -/
def Phase.holdsLock : Phase → Bool
  | .selectRows _ | .recordRemoved .. | .deleteRemoved .. | .checkUpserts .. | .upsert .. => true
  | _ => false

/-- The statement writes by what it has read in a table. -/
def Phase.reads : Phase → Bool
  | .recordMissing _ | .deleteAll .. | .recordRemoved .. | .deleteRemoved .. => true
  | .insertNew (_ :: _) _ => true
  | _ => false

/-- The committed tables when a statement began, and the rows of them that are deleted since. -/
structure Snapshot where
  keys : KeyTable
  revoked : RevokedTable
  gone : List String := []

/-- A call on a connection of its own, with what its transaction has written so far. -/
structure Session where
  phase : Phase
  keyWrites : Dict String (Option Row) := ∅
  revokedWrites : RevokedTable := ∅
  /-- the rows of `proxy_keys` that the transaction has deleted -/
  deleted : List String := []
  /-- of a statement that has begun -/
  snapshot : Option Snapshot := none

def Session.ofCall : Call → Session
  | .replaceAll store => { phase := .recordMissing store }
  | .transact mutation => { phase := .lock mutation }
  | .upsertKeys store => { phase := .insertNew store.entries 0 }

namespace Session

/-- The committed rows of `proxy_keys` that the statement sees. -/
def seen (c : Session) (keys : KeyTable) : KeyTable :=
  match c.snapshot with
  | some snapshot => snapshot.keys
  | none => keys

/-- The rows that the statement no longer finds. -/
def gone (c : Session) : List String :=
  match c.snapshot with
  | some snapshot => snapshot.gone
  | none => []

/-- A commit has deleted these rows; a statement that has begun no longer finds them. -/
def lose (deleted : List String) (c : Session) : Session :=
  { c with snapshot := c.snapshot.map fun snapshot =>
      { snapshot with gone := snapshot.gone ++ deleted } }

end Session

/-- The committed tables and the calls in progress. -/
structure System where
  keys : KeyTable
  revoked : RevokedTable
  sessions : List Session

namespace System

/-- `proxy_keys` as it is for the transaction of this call. -/
def visibleKeys (s : System) (c : Session) : KeyTable := s.keys.overlay c.keyWrites

def visibleRevoked (s : System) (c : Session) : RevokedTable := s.revoked.update c.revokedWrites

/-- `proxy_keys` as a statement of this call sees it. -/
def seenKeys (s : System) (c : Session) : KeyTable := (c.seen s.keys).overlay c.keyWrites

/-- `revoked_proxy_keys` as a statement outside a transaction sees it. -/
def seenRevoked (s : System) (c : Session) : RevokedTable :=
  match c.snapshot with
  | some snapshot => snapshot.revoked
  | none => s.revoked

def others (s : System) (i : Nat) : List Session := s.sessions.eraseIdx i

/-- No other transaction has an uncommitted write on the row. -/
def KeyFree (s : System) (i : Nat) (h : String) : Prop := ∀ d ∈ s.others i, h ∉ d.keyWrites

def RevokedFree (s : System) (i : Nat) (h : String) : Prop :=
  ∀ d ∈ s.others i, h ∉ d.revokedWrites

def LockFree (s : System) (i : Nat) : Prop := ∀ d ∈ s.others i, d.phase.holdsLock = false

instance (s : System) (i : Nat) (h : String) : Decidable (s.KeyFree i h) :=
  inferInstanceAs (Decidable (∀ d ∈ s.others i, h ∉ d.keyWrites))

instance (s : System) (i : Nat) (h : String) : Decidable (s.RevokedFree i h) :=
  inferInstanceAs (Decidable (∀ d ∈ s.others i, h ∉ d.revokedWrites))

instance (s : System) (i : Nat) : Decidable (s.LockFree i) :=
  inferInstanceAs (Decidable (∀ d ∈ s.others i, d.phase.holdsLock = false))

/-- The call goes on; nothing is committed. -/
def become (s : System) (i : Nat) (c : Session) : System :=
  { s with sessions := s.sessions.set i c }

def rollback (s : System) (i : Nat) : System := s.become i { phase := .ended none }

/-- `COMMIT`: the transaction's writes are now in the tables. -/
def commit (s : System) (i : Nat) (c : Session) (answer : Answer) : System where
  keys := s.visibleKeys c
  revoked := s.visibleRevoked c
  sessions := (s.sessions.map (Session.lose c.deleted)).set i { phase := .ended (some answer) }

/-! ## 3. The statements -/

/-- `INSERT INTO revoked_proxy_keys SELECT .. FROM proxy_keys WHERE .. ON CONFLICT DO NOTHING`,
    for the rows that the `WHERE` selects. -/
def recordRows (s : System) (i : Nat) (c : Session) (rows : KeyTable) : Option Session :=
  let fresh := (rows.filter fun h _ => decide (h ∉ s.visibleRevoked c)).map Row.tenantId
  if ∀ h ∈ rows.keys, s.RevokedFree i h then
    some { c with revokedWrites := c.revokedWrites.update fresh }
  else none

/-- `DELETE FROM proxy_keys WHERE ..`, for the rows that the `WHERE` selects: those that are still
there. -/
def deleteRows (s : System) (i : Nat) (c : Session) (selected : KeyTable) : Option Session :=
  let rows := selected.filter fun h _ => decide (h ∉ c.gone)
  if ∀ h ∈ rows.keys, s.KeyFree i h then
    some { c with
      keyWrites := c.keyWrites.update (rows.map fun _ => none)
      deleted := c.deleted ++ rows.keys }
  else none

end System

theorem recordRows_spec {s : System} {i : Nat} {c c' : Session} {rows : KeyTable}
    (h : s.recordRows i c rows = some c') :
    c'.phase = c.phase ∧ c'.keyWrites = c.keyWrites ∧ c'.deleted = c.deleted ∧
      (∀ k, k ∈ c'.revokedWrites ↔ (k ∈ rows ∧ k ∉ s.visibleRevoked c) ∨ k ∈ c.revokedWrites) ∧
      ∀ k ∈ rows, s.RevokedFree i k := by
  unfold System.recordRows at h
  split at h
  · rename_i hfree
    cases h
    refine ⟨rfl, rfl, rfl, fun k => ?_, fun k hk => hfree k (Dict.mem_keys_iff.mpr hk)⟩
    simp only [Dict.mem_update, Dict.mem_map_iff, Dict.mem_filter_keys, decide_eq_true_eq]
  · cases h

theorem deleteRows_spec {s : System} {i : Nat} {c c' : Session} {rows : KeyTable}
    (h : s.deleteRows i c rows = some c') :
    c'.phase = c.phase ∧ c'.revokedWrites = c.revokedWrites ∧
      (∀ k, c'.keyWrites.get? k =
        if k ∈ rows ∧ k ∉ c.gone then some none else c.keyWrites.get? k) ∧
      (∀ k, k ∈ c'.deleted ↔ k ∈ c.deleted ∨ k ∈ rows ∧ k ∉ c.gone) ∧
      ∀ k ∈ rows, k ∉ c.gone → s.KeyFree i k := by
  unfold System.deleteRows at h
  dsimp only at h
  split at h
  · rename_i hfree
    cases h
    have hrows : ∀ k, k ∈ (rows.filter fun h _ => decide (h ∉ c.gone)) ↔
        k ∈ rows ∧ k ∉ c.gone := by
      intro k
      rw [Dict.mem_filter_keys, decide_eq_true_eq]
    refine ⟨rfl, rfl, fun k => ?_, fun k => ?_, fun k hk hstays => ?_⟩
    · rw [Dict.get?_update, Dict.get?_map]
      by_cases hk : k ∈ rows ∧ k ∉ c.gone
      · obtain ⟨row, hrow⟩ := Dict.mem_iff.mp ((hrows k).mpr hk)
        rw [if_pos hk, hrow]
        rfl
      · rw [if_neg hk, Dict.notMem_iff.mp (mt (hrows k).mp hk)]
        rfl
    · rw [List.mem_append, Dict.mem_keys_iff, hrows]
    · exact hfree k (Dict.mem_keys_iff.mpr ((hrows k).mpr ⟨hk, hstays⟩))
  · cases h

def Session.put (c : Session) (h : String) (row : Row) : Session :=
  { c with keyWrites := c.keyWrites.set h (some row) }

/-- The next statement. -/
def Session.at (c : Session) (phase : Phase) : Session :=
  { c with phase := phase, snapshot := none }

/-- The rows of `_write_diff` that are gone from `after`. -/
def removedBy (before after : Store) : List String := before.keys.filter fun h => h ∉ after

/-- The entries of `_write_diff` that are new or changed. -/
def upsertsOf (before after : Store) : List (String × Json) :=
  after.entries.filter fun e => !((before.get? e.1).getD .null).pyEq e.2

/-- After the removals: an empty difference ends the call. -/
def afterRemovals (upserts : List (String × Json)) (result : OpResult) (after : Store) : Phase :=
  if upserts.isEmpty then .upsert [] result after else .checkUpserts upserts result after

def writeDiff (before after : Store) (result : OpResult) : Phase :=
  let removed := removedBy before after
  let upserts := upsertsOf before after
  if removed.isEmpty then afterRemovals upserts result after
  else .recordRemoved removed upserts result after

variable (py : Builtins)

/-- The next statement of call `i`, whose session is `c`, ends; `none` while it has to wait. -/
def System.statement (s : System) (i : Nat) (c : Session) : Option System :=
  match c.phase with
  | .recordMissing store => do
    let c ← s.recordRows i c ((s.seenKeys c).filter fun h _ => decide (h ∉ store))
    return s.become i (c.at (.checkStore store))
  | .checkStore store =>
    let revoked := store.keys.filter fun h => h ∈ s.visibleRevoked c
    some (s.become i (c.at (.deleteAll store revoked)))
  | .deleteAll store revoked => do
    let c ← s.deleteRows i c (s.seenKeys c)
    return s.become i
      (c.at (.insertKept (store.entries.filter fun e => e.1 ∉ revoked) 0))
  | .insertKept [] written => some (s.commit i c (.written written))
  | .insertKept ((h, entry) :: rest) written =>
    match rowArgs py entry with
    | none => some (s.rollback i)
    | some row =>
      if s.KeyFree i h then
        -- a plain INSERT: a row that is there already is a unique violation
        if h ∈ s.visibleKeys c then some (s.rollback i)
        else some (s.become i ((c.put h row).at (.insertKept rest (written + 1))))
      else none
  | .lock mutation =>
    if s.LockFree i then some (s.become i (c.at (.selectRows mutation))) else none
  | .selectRows mutation =>
    let before := storeOf (s.visibleKeys c)
    match mutation before with
    | .error _ => some (s.rollback i)
    | .ok (changed, result, after) =>
      let phase := if changed then writeDiff before after result else .upsert [] result after
      some (s.become i (c.at phase))
  | .recordRemoved removed upserts result after => do
    let c ← s.recordRows i c ((s.seenKeys c).filter fun h _ => decide (h ∈ removed))
    return s.become i (c.at (.deleteRemoved removed upserts result after))
  | .deleteRemoved removed upserts result after => do
    let c ← s.deleteRows i c ((s.seenKeys c).filter fun h _ => decide (h ∈ removed))
    return s.become i (c.at (afterRemovals upserts result after))
  | .checkUpserts upserts result after =>
    let revoked := (upserts.map Prod.fst).filter fun h => h ∈ s.visibleRevoked c
    -- a refused hash is not in the store that the call returns
    some (s.become i (c.at (.upsert (upserts.filter fun e => e.1 ∉ revoked) result
      (after.filter fun h _ => decide (h ∉ revoked)))))
  | .upsert [] result after => some (s.commit i c (.applied result after))
  | .upsert ((h, entry) :: rest) result after =>
    match rowArgs py entry with
    | none => some (s.rollback i)
    | some row =>
      if s.KeyFree i h then
        some (s.become i ((c.put h row).at (.upsert rest result after)))
      else none
  | .insertNew [] inserted => some (s.become i (c.at (.ended (some (.inserted inserted)))))
  | .insertNew ((h, entry) :: rest) inserted =>
    match rowArgs py entry with
    | none => some (s.rollback i)
    | some row =>
      if h ∈ s.seenRevoked c then some (s.become i (c.at (.insertNew rest inserted)))
      else if s.KeyFree i h then
        if h ∈ s.keys then some (s.become i (c.at (.insertNew rest inserted)))
        else
          -- autocommitted: the row is in the table at once
          let s := s.become i (c.at (.insertNew rest (inserted + 1)))
          some { s with keys := s.keys.set h row }
      else none
  | .ended _ => none

/-! ## 4. The system -/

inductive Label where
  | call (c : Call)
  /-- the next statement of call `i` begins -/
  | begin (i : Nat)
  /-- it ends; one that has not begun begins and ends at once -/
  | statement (i : Nat)
  | fail (i : Nat)

def Session.isEnded (c : Session) : Bool :=
  match c.phase with
  | .ended _ => true
  | _ => false

/-- A statement that has begun keeps what it sees. -/
def System.begin (s : System) (i : Nat) (c : Session) : Option System :=
  if c.phase.reads ∧ c.snapshot.isNone then
    some (s.become i { c with snapshot := some ⟨s.keys, s.revoked, []⟩ })
  else none

def step (s : System) : Label → Option System
  | .call c => some { s with sessions := s.sessions ++ [Session.ofCall c] }
  | .begin i => s.sessions[i]?.bind fun c => s.begin i c
  | .statement i => s.sessions[i]?.bind fun c => s.statement py i c
  | .fail i =>
    match s.sessions[i]? with
    | none => none
    | some c => if c.isEnded then none else some (s.rollback i)

/-- The tables before any call. -/
def System.start (keys : KeyTable) (revoked : RevokedTable) : System := ⟨keys, revoked, []⟩

end TokenProxy.PgKeyStore
