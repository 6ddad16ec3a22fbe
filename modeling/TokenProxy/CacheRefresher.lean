/-
  TokenProxy/CacheRefresher.lean
  ==============================
  **The key cache refresher loses no change** (`CacheRefresher` in
  `auth/pg_key_store.py`, with the two cache swaps of `auth/api_key_manager.py`).

  One task drains the requests.  A pass takes what is requested and forgets it,
  reads the table, and applies what it read; requests and table writes arrive at
  any point in between, and a read that fails turns into a pending full reload.

  Two results.  `refresher_loses_no_change`: once the task has drained after the
  last change of a tenant and its request, the tenant's cached entries are its
  rows; and no pass takes an entry from a tenant that the table it read still
  gives it, or puts one in that is not that tenant's row.  `refresher_drains`:
  from every state the loop reaches, a drain without failures exists.
-/
import TokenProxy.Execution
import TokenProxy.PgKeyStore

namespace TokenProxy.CacheRefresher

open Execution KeyStore PgKeyStore

/-! ## 1. The cache and the table -/

/-- `load_tenants`, before the rows become metadata. -/
def rowsOfTenants (table : KeyTable) (tenants : List String) : KeyTable :=
  table.filter fun _ row => decide (row.tenantId ∈ tenants)

/-- `e.get("tenant_id") in tenant_ids` raises on this entry. -/
def unhashableTenant (entry : Json) : Bool :=
  match entry.get? "tenant_id" with
  | some value => value.dictKey?.isNone
  | none => false

/-- `replace_tenants_in_cache`; `none` is a `TypeError`. -/
def replaceTenantsInCache (tenants : List String) (entries cache : Store) : Option Store :=
  if cache.values.any fun entry => entry.isObj && unhashableTenant entry then none
  else
    let kept := cache.filter fun _ entry => !tenants.any fun t => ownedBy t entry
    some (kept.update entries)

/-! ## 2. The task -/

inductive Phase where
  /-- at the top of the loop -/
  | test
  /-- in `self._wake.wait()` -/
  | waiting
  /-- the requests are taken, the read has not been answered -/
  | reading (full : Bool) (tenants : List String)
  /-- the rows are there, the cache is as it was -/
  | applying (full : Bool) (tenants : List String) (rows : KeyTable)
  /-- a refresh failed -/
  | sleeping
  | cancelled

structure State where
  table : KeyTable
  cache : Store
  full : Bool
  tenants : List String
  wake : Bool
  phase : Phase

/-- A new refresher: its first pass loads every key. -/
def State.start (table : KeyTable) (cache : Store) : State where
  table := table
  cache := cache
  full := true
  tenants := []
  wake := false
  phase := .test

inductive Label where
  /-- a transaction commits, and the table is this one -/
  | write (table : KeyTable)
  | request (tenant : Option String)
  | check
  | woken
  | timeout
  | read
  | apply
  | fail
  | retry
  | cancel

def Label.isRead : Label → Bool
  | .read => true
  | _ => false

namespace State

/-- Take what is requested; what arrives from now on is for the next pass. -/
def take (s : State) : State :=
  { s with wake := false, full := false, tenants := [], phase := .reading s.full s.tenants }

/-- Nothing was applied: reload everything on the retry. -/
def failed (s : State) : State := { s with full := true, phase := .sleeping }

def pending (s : State) : Bool := s.full || !s.tenants.isEmpty

/-- The task waits, and nothing is requested. -/
def Drained (s : State) : Prop := s.phase = .waiting ∧ s.full = false ∧ s.tenants = []

end State

def step (s : State) : Label → Option State
  | .write table => some { s with table := table }
  | .request none => some { s with full := true, wake := true }
  | .request (some t) => some { s with tenants := s.tenants.insert t, wake := true }
  | .check =>
    match s.phase with
    | .test => some (if s.pending then s.take else { s with phase := .waiting })
    | _ => none
  | .woken =>
    match s.phase with
    | .waiting => if s.wake then some s.take else none
    | _ => none
  | .timeout =>
    match s.phase with
    | .waiting => some { s with full := true }.take
    | _ => none
  | .read =>
    match s.phase with
    | .reading full tenants =>
      let rows := if full then s.table else rowsOfTenants s.table tenants
      some { s with phase := .applying full tenants rows }
    | _ => none
  | .apply =>
    match s.phase with
    | .applying true _ rows => some { s with cache := storeOf rows, phase := .test }
    | .applying false tenants rows =>
      match replaceTenantsInCache tenants (storeOf rows) s.cache with
      | some cache => some { s with cache := cache, phase := .test }
      | none => some s.failed
    | _ => none
  | .fail =>
    match s.phase with
    | .reading _ _ => some s.failed
    | .applying _ _ _ => some s.failed
    | _ => none
  | .retry =>
    match s.phase with
    | .sleeping => some { s with phase := .test }
    | _ => none
  | .cancel =>
    match s.phase with
    | .cancelled => none
    | _ => some { s with phase := .cancelled }

/-- What each label can do, guards included. -/
inductive StepTo (s : State) : Label → State → Prop
  | write (table : KeyTable) : StepTo s (.write table) { s with table := table }
  | requestAll : StepTo s (.request none) { s with full := true, wake := true }
  | requestTenant (t : String) :
    StepTo s (.request (some t)) { s with tenants := s.tenants.insert t, wake := true }
  | checkIdle (hp : s.phase = .test) (h : s.pending = false) :
    StepTo s .check { s with phase := .waiting }
  | checkTake (hp : s.phase = .test) : StepTo s .check s.take
  | woken (hp : s.phase = .waiting) : StepTo s .woken s.take
  | timeout (hp : s.phase = .waiting) : StepTo s .timeout { s with full := true }.take
  | read {full : Bool} {tenants : List String} (hp : s.phase = .reading full tenants) :
    StepTo s .read { s with
      phase := .applying full tenants
        (if full then s.table else rowsOfTenants s.table tenants) }
  | applyAll {tenants : List String} {rows : KeyTable}
    (hp : s.phase = .applying true tenants rows) :
    StepTo s .apply { s with cache := storeOf rows, phase := .test }
  | applyTenants {tenants : List String} {rows : KeyTable} {cache : Store}
    (hp : s.phase = .applying false tenants rows)
    (hswap : replaceTenantsInCache tenants (storeOf rows) s.cache = some cache) :
    StepTo s .apply { s with cache := cache, phase := .test }
  | applyRaises {tenants : List String} {rows : KeyTable}
    (hp : s.phase = .applying false tenants rows) : StepTo s .apply s.failed
  | fail : StepTo s .fail s.failed
  | retry (hp : s.phase = .sleeping) : StepTo s .retry { s with phase := .test }
  | cancel : StepTo s .cancel { s with phase := .cancelled }

theorem stepTo_of_step {s s' : State} {label : Label} (h : step s label = some s') :
    StepTo s label s' := by
  cases label with
  | write table =>
    cases h
    exact .write table
  | request tenant =>
    cases tenant with
    | none =>
      cases h
      exact .requestAll
    | some t =>
      cases h
      exact .requestTenant t
  | check =>
    simp only [step] at h
    split at h
    · rename_i hp
      cases h
      split
      · exact .checkTake hp
      · rename_i hidle
        exact .checkIdle hp (Bool.eq_false_iff.mpr hidle)
    · cases h
  | woken =>
    simp only [step] at h
    split at h
    · rename_i hp
      split at h
      · cases h
        exact .woken hp
      · cases h
    · cases h
  | timeout =>
    simp only [step] at h
    split at h
    · rename_i hp
      cases h
      exact .timeout hp
    · cases h
  | read =>
    simp only [step] at h
    split at h
    · rename_i hp
      cases h
      exact .read hp
    · cases h
  | apply =>
    simp only [step] at h
    split at h
    · rename_i hp
      cases h
      exact .applyAll hp
    · rename_i hp
      split at h
      · rename_i hswap
        cases h
        exact .applyTenants hp hswap
      · cases h
        exact .applyRaises hp
    · cases h
  | fail =>
    simp only [step] at h
    split at h
    · cases h
      exact .fail
    · cases h
      exact .fail
    · cases h
  | retry =>
    simp only [step] at h
    split at h
    · rename_i hp
      cases h
      exact .retry hp
    · cases h
  | cancel =>
    simp only [step] at h
    split at h
    · cases h
    · cases h
      exact .cancel

/-! ## 3. A tenant's rows, and its entries -/

/-- The tenant's cached entries are exactly its rows. -/
def RowsCached (t : String) (table : KeyTable) (cache : Store) : Prop :=
  ∀ h entry, (cache.get? h = some entry ∧ ownedBy t entry = true) ↔
    ∃ row, table.get? h = some row ∧ row.tenantId = t ∧ rowToMeta row = entry

/-- The two tables have the same rows of the tenant. -/
def SameRows (t : String) (table rows : KeyTable) : Prop :=
  ∀ h row, row.tenantId = t → (rows.get? h = some row ↔ table.get? h = some row)

theorem get?_foldl_setDefault {key : String} {v : Json} (fields : List (String × Json))
    {acc : Json} (h : acc.get? key = some v) :
    (fields.foldl (fun acc field => acc.setDefault field.1 field.2) acc).get? key = some v := by
  induction fields generalizing acc with
  | nil => exact h
  | cons field fields ih =>
    apply ih
    dsimp only [Json.setDefault]
    split
    · exact h
    · rename_i hnew
      -- the key is there already, so the field that is new is another one
      have hne : key ≠ field.1 := by
        rintro rfl
        simp [h] at hnew
      rw [Json.get?_set_of_ne acc hne]
      exact h

theorem get?_rowToMeta_tenant (row : Row) :
    (rowToMeta row).get? "tenant_id" = some (.str row.tenantId) := by
  apply get?_foldl_setDefault
  have hset : ∀ (entry : Json) (flag : Bool) (field : String), "tenant_id" ≠ field →
      (if flag then entry.set field (.bool true) else entry).get? "tenant_id" =
        entry.get? "tenant_id" := by
    intro entry flag field hne
    split
    · exact Json.get?_set_of_ne entry hne _
    · rfl
  rw [hset _ _ _ (by decide), hset _ _ _ (by decide)]
  rfl

/-- A row's entry is its tenant's, whatever its extra fields are. -/
theorem ownedBy_rowToMeta (t : String) (row : Row) :
    ownedBy t (rowToMeta row) = true ↔ row.tenantId = t := by
  obtain ⟨fields, hobj⟩ := Json.isObj_of_get? (get?_rowToMeta_tenant row)
  have htenant := get?_rowToMeta_tenant row
  rw [hobj] at htenant ⊢
  simp [ownedBy, htenant, Json.isObj, Json.fields?]

theorem get?_storeOf (rows : KeyTable) (h : String) :
    (storeOf rows).get? h = (rows.get? h).map rowToMeta :=
  Dict.get?_map rowToMeta rows h

theorem rowsCached_storeOf {t : String} {table rows : KeyTable} (hsame : SameRows t table rows) :
    RowsCached t table (storeOf rows) := by
  intro h entry
  rw [get?_storeOf, Option.map_eq_some_iff]
  constructor
  · rintro ⟨⟨row, hrow, rfl⟩, howned⟩
    have htenant := (ownedBy_rowToMeta t row).mp howned
    exact ⟨row, (hsame h row htenant).mp hrow, htenant, rfl⟩
  · rintro ⟨row, hrow, htenant, rfl⟩
    exact ⟨⟨row, (hsame h row htenant).mpr hrow, rfl⟩, (ownedBy_rowToMeta t row).mpr htenant⟩

theorem RowsCached.of_same {t : String} {table table' : KeyTable} {cache : Store}
    (h : RowsCached t table cache) (hsame : SameRows t table table') :
    RowsCached t table' cache := by
  intro k entry
  rw [h k entry]
  constructor
  · rintro ⟨row, hrow, htenant, rfl⟩
    exact ⟨row, (hsame k row htenant).mpr hrow, htenant, rfl⟩
  · rintro ⟨row, hrow, htenant, rfl⟩
    exact ⟨row, (hsame k row htenant).mp hrow, htenant, rfl⟩

/-! ## 4. What a swap of some tenants' entries does -/

section Swap

variable {tenants : List String} {entries cache cache' : Store}
  (hswap : replaceTenantsInCache tenants entries cache = some cache')
include hswap

theorem get?_swap (h : String) :
    cache'.get? h = (entries.get? h).or
      ((cache.get? h).filter fun entry => !tenants.any fun t => ownedBy t entry) := by
  unfold replaceTenantsInCache at hswap
  split at hswap
  · cases hswap
  · cases hswap
    rw [Dict.get?_update, Dict.get?_filter]

/-- The entries of a tenant that is swapped are the new ones. -/
theorem swap_own {t : String} (ht : t ∈ tenants) (h : String) (entry : Json) :
    (cache'.get? h = some entry ∧ ownedBy t entry = true) ↔
      (entries.get? h = some entry ∧ ownedBy t entry = true) := by
  rw [get?_swap hswap h]
  cases hnew : entries.get? h with
  | some e => rfl
  | none =>
    simp only [Option.none_or, Option.filter_eq_some_iff, reduceCtorEq, false_and, iff_false]
    rintro ⟨⟨-, hkept⟩, howned⟩
    have hany : (tenants.any fun u => ownedBy u entry) = true :=
      List.any_eq_true.mpr ⟨t, ht, howned⟩
    simp [hany] at hkept

/-- Where no new entry stands, the entries of the other tenants are as they were. -/
theorem swap_other {t : String} (ht : t ∉ tenants) {h : String} (hnew : entries.get? h = none)
    (entry : Json) :
    (cache'.get? h = some entry ∧ ownedBy t entry = true) ↔
      (cache.get? h = some entry ∧ ownedBy t entry = true) := by
  rw [get?_swap hswap h, hnew]
  simp only [Option.none_or, Option.filter_eq_some_iff]
  constructor
  · rintro ⟨⟨hold, -⟩, howned⟩
    exact ⟨hold, howned⟩
  · rintro ⟨hold, howned⟩
    refine ⟨⟨hold, ?_⟩, howned⟩
    have hany : (tenants.any fun u => ownedBy u entry) = false := by
      refine List.any_eq_false.mpr fun u hu hown => ht ?_
      -- an entry has one tenant
      have hone : some (Json.str u) = some (Json.str t) := by
        simp only [ownedBy, Bool.and_eq_true, decide_eq_true_eq] at hown howned
        exact hown.2.symm.trans howned.2
      cases hone
      exact hu
    simp [hany]

end Swap

theorem get?_rowsOfTenants {table : KeyTable} {tenants : List String} {h : String} {row : Row} :
    (rowsOfTenants table tenants).get? h = some row ↔
      table.get? h = some row ∧ row.tenantId ∈ tenants := by
  rw [rowsOfTenants, Dict.get?_filter, Option.filter_eq_some_iff, decide_eq_true_eq]

/-! ## 5. No change of a tenant is lost -/

/-- A pass that took these requests reads the tenant's rows. -/
def Covers (t : String) (full : Bool) (tenants : List String) : Prop := full = true ∨ t ∈ tenants

/-- The rows of a pass that leaves the tenant alone are of other tenants, and of other
    hashes than the tenant's rows. -/
def Elsewhere (t : String) (table rows : KeyTable) : Prop :=
  ∀ h row, rows.get? h = some row →
    row.tenantId ≠ t ∧ ∀ row', table.get? h = some row' → row'.tenantId ≠ t

/-- Where the tenant's rows are on their way into the cache. -/
def OnTheWay (t : String) (s : State) : Prop :=
  match s.phase with
  | .test => RowsCached t s.table s.cache
  | .waiting => RowsCached t s.table s.cache
  | .reading full tenants => Covers t full tenants ∨ RowsCached t s.table s.cache
  | .applying full tenants rows =>
    (Covers t full tenants ∧ SameRows t s.table rows) ∨
      (¬ Covers t full tenants ∧ Elsewhere t s.table rows ∧ RowsCached t s.table s.cache)
  | .sleeping => False
  | .cancelled => True

/-- The tenant's rows are cached, on their way, or requested. -/
def Current (t : String) (s : State) : Prop := Covers t s.full s.tenants ∨ OnTheWay t s

/-- The step changes no row of the tenant. -/
def KeepsRowsOf (t : String) (s : State) : Label → Prop
  | .write table => SameRows t s.table table
  | _ => True

variable {t : String} {s s' : State}

theorem SameRows.elsewhere {table table' rows : KeyTable} (hsame : SameRows t table table')
    (h : Elsewhere t table rows) : Elsewhere t table' rows := by
  intro k row hrow
  obtain ⟨hne, hfree⟩ := h k row hrow
  refine ⟨hne, fun row' hrow' htenant => ?_⟩
  exact hfree row' ((hsame k row' htenant).mp hrow') htenant

theorem current_write (hcur : Current t s) {table : KeyTable} (hsame : SameRows t s.table table) :
    Current t { s with table := table } := by
  rcases hcur with hpend | hway
  · exact Or.inl hpend
  · right
    unfold OnTheWay at hway ⊢
    cases hp : s.phase with
    | test =>
      simp only [hp] at hway ⊢
      exact hway.of_same hsame
    | waiting =>
      simp only [hp] at hway ⊢
      exact hway.of_same hsame
    | reading full tenants =>
      simp only [hp] at hway ⊢
      exact hway.imp_right fun h => h.of_same hsame
    | applying full tenants rows =>
      simp only [hp] at hway ⊢
      rcases hway with ⟨hcov, hrows⟩ | ⟨hcov, helse, hcached⟩
      · refine Or.inl ⟨hcov, fun h row htenant => ?_⟩
        rw [hrows h row htenant, hsame h row htenant]
      · exact Or.inr ⟨hcov, hsame.elsewhere helse, hcached.of_same hsame⟩
    | sleeping =>
      simp only [hp] at hway
    | cancelled => trivial

/-- Taking the requests loses none: the pass covers what was requested. -/
theorem current_take (h : Covers t s.full s.tenants ∨ RowsCached t s.table s.cache) :
    Current t s.take :=
  Or.inr h

theorem sameRows_rowsOfTenants {table : KeyTable} {tenants : List String} (ht : t ∈ tenants) :
    SameRows t table (rowsOfTenants table tenants) := by
  intro h row htenant
  rw [get?_rowsOfTenants]
  exact and_iff_left (htenant ▸ ht)

theorem elsewhere_rowsOfTenants {table : KeyTable} {tenants : List String} (ht : t ∉ tenants) :
    Elsewhere t table (rowsOfTenants table tenants) := by
  intro h row hrow
  obtain ⟨hrow, hmem⟩ := get?_rowsOfTenants.mp hrow
  have hne : row.tenantId ≠ t := fun heq => ht (heq ▸ hmem)
  refine ⟨hne, fun row' hrow' => ?_⟩
  obtain rfl : row = row' := Option.some.inj (hrow.symm.trans hrow')
  exact hne

theorem current_read {full : Bool} {tenants : List String}
    (hway : Covers t full tenants ∨ RowsCached t s.table s.cache) :
    OnTheWay t { s with
      phase := .applying full tenants
        (if full then s.table else rowsOfTenants s.table tenants) } := by
  unfold OnTheWay
  by_cases hcov : Covers t full tenants
  · left
    refine ⟨hcov, ?_⟩
    cases full with
    | true => exact fun h row _ => Iff.rfl
    | false => exact sameRows_rowsOfTenants (hcov.resolve_left nofun)
  · right
    refine ⟨hcov, ?_, hway.resolve_left hcov⟩
    cases full with
    | true => exact absurd (Or.inl rfl) hcov
    | false => exact elsewhere_rowsOfTenants fun hmem => hcov (Or.inr hmem)

/-- Swapping other tenants' entries keeps a tenant's own. -/
theorem rowsCached_swap {tenants : List String} {table rows : KeyTable} {cache cache' : Store}
    (hswap : replaceTenantsInCache tenants (storeOf rows) cache = some cache')
    (hway : (t ∈ tenants ∧ SameRows t table rows) ∨
      (t ∉ tenants ∧ Elsewhere t table rows ∧ RowsCached t table cache)) :
    RowsCached t table cache' := by
  intro h entry
  rcases hway with ⟨ht, hsame⟩ | ⟨ht, helse, hcached⟩
  · rw [swap_own hswap ht]
    exact rowsCached_storeOf hsame h entry
  · cases hrow : rows.get? h with
    | none =>
      rw [swap_other hswap ht (by rw [get?_storeOf, hrow]; rfl)]
      exact hcached h entry
    | some row =>
      obtain ⟨hne, hfree⟩ := helse h row hrow
      have hnew : cache'.get? h = some (rowToMeta row) := by
        rw [get?_swap hswap h, get?_storeOf, hrow]
        rfl
      constructor
      · rintro ⟨hentry, howned⟩
        obtain rfl : rowToMeta row = entry := Option.some.inj (hnew.symm.trans hentry)
        exact absurd ((ownedBy_rowToMeta t row).mp howned) hne
      · rintro ⟨row', hrow', htenant, -⟩
        exact absurd htenant (hfree row' hrow')

theorem current_step {label : Label} (hcur : Current t s) (hkeeps : KeepsRowsOf t s label)
    (h : step s label = some s') : Current t s' := by
  cases stepTo_of_step h with
  | write table => exact current_write hcur hkeeps
  | requestAll => exact Or.inl (Or.inl rfl)
  | requestTenant u =>
    rcases hcur with hpend | hway
    · exact Or.inl (hpend.imp_right fun hmem => List.mem_insert_of_mem hmem)
    · exact Or.inr hway
  | checkIdle hp hidle =>
    -- nothing is requested, so the tenant's rows are cached
    rw [Current, OnTheWay, hp] at hcur
    simp only [State.pending, Bool.or_eq_false_iff, Bool.not_eq_false', List.isEmpty_iff] at hidle
    have hcached := hcur.resolve_left (by simp [Covers, hidle])
    exact Or.inr hcached
  | checkTake hp =>
    rw [Current, OnTheWay, hp] at hcur
    exact current_take hcur
  | woken hp =>
    rw [Current, OnTheWay, hp] at hcur
    exact current_take hcur
  | timeout hp => exact current_take (Or.inl (Or.inl rfl))
  | read hp =>
    rcases hcur with hpend | hway
    · exact Or.inl hpend
    · rw [OnTheWay, hp] at hway
      exact Or.inr (current_read hway)
  | applyAll hp =>
    rcases hcur with hpend | hway
    · exact Or.inl hpend
    · rw [OnTheWay, hp] at hway
      rcases hway with ⟨-, hsame⟩ | ⟨hcov, -⟩
      · exact Or.inr (rowsCached_storeOf hsame)
      · exact absurd (Or.inl rfl) hcov
  | @applyTenants tenants rows cache' hp hswap =>
    rcases hcur with hpend | hway
    · exact Or.inl hpend
    · rw [OnTheWay, hp] at hway
      have hcached' : RowsCached t s.table cache' := by
        apply rowsCached_swap hswap
        rcases hway with ⟨hcov, hsame⟩ | ⟨hcov, helse, hcached⟩
        · exact Or.inl ⟨hcov.resolve_left nofun, hsame⟩
        · exact Or.inr ⟨fun hmem => hcov (Or.inr hmem), helse, hcached⟩
      exact Or.inr hcached'
  | applyRaises hp => exact Or.inl (Or.inl rfl)
  | fail => exact Or.inl (Or.inl rfl)
  | retry hp =>
    rcases hcur with hpend | hway
    · exact Or.inl hpend
    · rw [OnTheWay, hp] at hway
      exact hway.elim
  | cancel => exact Or.inr trivial

theorem rowsCached_of_drained (hcur : Current t s) (hdrained : s.Drained) :
    RowsCached t s.table s.cache := by
  obtain ⟨hp, hfull, htenants⟩ := hdrained
  rcases hcur with hpend | hway
  · simp [Covers, hfull, htenants] at hpend
  · rw [OnTheWay, hp] at hway
    exact hway

/-! ## 6. The entries of the other tenants -/

/-- The hash is cached as a key of the tenant. -/
def CachedOf (u : String) (cache : Store) (h : String) : Prop :=
  ∃ entry, cache.get? h = some entry ∧ ownedBy u entry = true

def RowOf (u : String) (table : KeyTable) (h : String) : Prop :=
  ∃ row, table.get? h = some row ∧ row.tenantId = u

/-- A pass that read `table` for these requests turned `cache` into `cache'`. -/
structure PassKeeps (full : Bool) (tenants : List String) (table : KeyTable)
    (cache cache' : Store) : Prop where
  /-- what a tenant loses was not its row -/
  dropped : ∀ u h, CachedOf u cache h → ¬ CachedOf u cache' h → ¬ RowOf u table h
  /-- where only some tenants are read, another tenant's entry goes only with its hash -/
  other : full = false → ∀ u h, u ∉ tenants → CachedOf u cache h → ¬ CachedOf u cache' h →
    ∃ v ∈ tenants, RowOf v table h
  /-- what a tenant has now it had before, or it is its row -/
  taken : ∀ u h entry, cache'.get? h = some entry → ownedBy u entry = true →
    cache.get? h = some entry ∨
      ∃ row, table.get? h = some row ∧ row.tenantId = u ∧ rowToMeta row = entry

theorem PassKeeps.refl (full : Bool) (tenants : List String) (table : KeyTable) (cache : Store) :
    PassKeeps full tenants table cache cache where
  dropped _ _ hin hout := absurd hin hout
  other _ _ _ _ hin hout := absurd hin hout
  taken _ _ _ hentry _ := Or.inl hentry

theorem cachedOf_storeOf {u h : String} {table : KeyTable} (hrow : RowOf u table h) :
    CachedOf u (storeOf table) h := by
  obtain ⟨row, hrow, htenant⟩ := hrow
  refine ⟨rowToMeta row, ?_, (ownedBy_rowToMeta u row).mpr htenant⟩
  rw [get?_storeOf, hrow]
  rfl

theorem passKeeps_full (tenants : List String) (table : KeyTable) (cache : Store) :
    PassKeeps true tenants table cache (storeOf table) where
  dropped u h _ hout hrow := hout (cachedOf_storeOf hrow)
  other hfull := nomatch hfull
  taken u h entry hentry howned := by
    rw [get?_storeOf, Option.map_eq_some_iff] at hentry
    obtain ⟨row, hrow, rfl⟩ := hentry
    exact Or.inr ⟨row, hrow, (ownedBy_rowToMeta u row).mp howned, rfl⟩

/-- An entry that a swap takes from a tenant outside it stands where a new row is. -/
theorem rowOf_of_swapped {tenants : List String} {table : KeyTable} {cache cache' : Store}
    (hswap : replaceTenantsInCache tenants (storeOf (rowsOfTenants table tenants)) cache =
      some cache') {u h : String} (hu : u ∉ tenants) (hin : CachedOf u cache h)
    (hout : ¬ CachedOf u cache' h) : ∃ v ∈ tenants, RowOf v table h := by
  cases hnew : (rowsOfTenants table tenants).get? h with
  | some row =>
    obtain ⟨hrow, hmem⟩ := get?_rowsOfTenants.mp hnew
    exact ⟨row.tenantId, hmem, row, hrow, rfl⟩
  | none =>
    obtain ⟨entry, hentry⟩ := hin
    have hkept := (swap_other hswap hu (by rw [get?_storeOf, hnew]; rfl) entry).mpr hentry
    exact absurd ⟨entry, hkept⟩ hout

theorem passKeeps_swap {tenants : List String} {table : KeyTable} {cache cache' : Store}
    (hswap : replaceTenantsInCache tenants (storeOf (rowsOfTenants table tenants)) cache =
      some cache') : PassKeeps false tenants table cache cache' where
  dropped u h hin hout hrow := by
    by_cases hu : u ∈ tenants
    · obtain ⟨row, hrow, rfl⟩ := hrow
      refine hout ⟨rowToMeta row, (swap_own hswap hu h _).mpr ?_⟩
      rw [get?_storeOf, get?_rowsOfTenants.mpr ⟨hrow, hu⟩]
      exact ⟨rfl, (ownedBy_rowToMeta _ row).mpr rfl⟩
    · obtain ⟨v, hv, row', hrow', rfl⟩ := rowOf_of_swapped hswap hu hin hout
      obtain ⟨row, hrow, rfl⟩ := hrow
      obtain rfl : row = row' := Option.some.inj (hrow.symm.trans hrow')
      exact hu hv
  other _ u h hu hin hout := rowOf_of_swapped hswap hu hin hout
  taken u h entry hentry howned := by
    rw [get?_swap hswap h, get?_storeOf] at hentry
    cases hnew : (rowsOfTenants table tenants).get? h with
    | none =>
      rw [hnew] at hentry
      exact Or.inl (Option.filter_eq_some_iff.mp hentry).1
    | some row =>
      rw [hnew] at hentry
      cases hentry
      refine Or.inr ⟨row, (get?_rowsOfTenants.mp hnew).1, ?_, rfl⟩
      exact (ownedBy_rowToMeta u row).mp howned

/-- Until the next read the pass keeps the rows that it has, or is given up. -/
theorem applying_of_between {full : Bool} {tenants : List String} {rows : KeyTable}
    {between : List Label} (hbetween : ∀ a ∈ between, a.isRead = false)
    (hp : s.phase = .applying full tenants rows ∨ ∀ f ts rs, s.phase ≠ .applying f ts rs)
    (h : exec step s between = some s') :
    s'.phase = .applying full tenants rows ∨ ∀ f ts rs, s'.phase ≠ .applying f ts rs := by
  induction between generalizing s with
  | nil =>
    cases h
    exact hp
  | cons a as ih =>
    rw [exec_cons] at h
    obtain ⟨m, hm, h⟩ := Option.bind_eq_some_iff.mp h
    refine ih (fun b hb => hbetween b (List.mem_cons_of_mem a hb)) ?_ h
    have hnotRead := hbetween a List.mem_cons_self
    cases stepTo_of_step hm with
    | write table => exact hp
    | requestAll => exact hp
    | requestTenant u => exact hp
    | read hp' => cases hnotRead
    | _ => exact Or.inr nofun

/-! ## 7. The refresher -/

/-- Once the task has drained after a tenant's last change and its request, the tenant's
    cached entries are its rows. -/
def LosesNoChange (start : State) : Prop :=
  ∀ before after t s s', exec step start before = some s →
    exec step s (.request (some t) :: after) = some s' →
    AllSteps step (KeepsRowsOf t) s (.request (some t) :: after) →
    s'.Drained → RowsCached t s'.table s'.cache

/-- Every pass keeps the other tenants' entries, by the table as it read it. -/
def KeepsOthers (start : State) : Prop :=
  ∀ before between s s₁ s₂ s₃, exec step start before = some s → step s .read = some s₁ →
    (∀ a ∈ between, a.isRead = false) → exec step s₁ between = some s₂ →
    step s₂ .apply = some s₃ →
    ∃ full tenants, s.phase = .reading full tenants ∧
      PassKeeps full tenants s.table s₂.cache s₃.cache

theorem losesNoChange (start : State) : LosesNoChange start := by
  intro before after t s s' _ hrun hkeeps hdrained
  rw [exec_cons] at hrun
  obtain ⟨m, hm, hrun⟩ := Option.bind_eq_some_iff.mp hrun
  have hcur : Current t m := by
    cases hm
    exact Or.inl (Or.inr List.mem_insert_self)
  have halways := always_of_allSteps (fun _ _ _ hc hk hs => current_step hc hk hs) hcur
    (hkeeps m hm).2
  have hlast := (always_iff_prefixes m after).mp halways after [] s'
    (List.append_nil after).symm hrun
  exact rowsCached_of_drained hlast hdrained

theorem keepsOthers (start : State) : KeepsOthers start := by
  intro before between s s₁ s₂ s₃ _ hread hbetween hrun happly
  cases stepTo_of_step hread with
  | @read full tenants hp =>
    refine ⟨full, tenants, hp, ?_⟩
    have hp₂ := applying_of_between hbetween (Or.inl rfl) hrun
    cases stepTo_of_step happly with
    | applyAll hp' =>
      rcases hp₂ with hsame | hnone
      · rw [hp'] at hsame
        cases hsame
        exact passKeeps_full tenants s.table s₂.cache
      · exact absurd hp' (hnone _ _ _)
    | applyTenants hp' hswap =>
      rcases hp₂ with hsame | hnone
      · rw [hp'] at hsame
        cases hsame
        exact passKeeps_swap hswap
      · exact absurd hp' (hnone _ _ _)
    | applyRaises hp' => exact PassKeeps.refl _ _ _ _

/-- For every order of writes, requests, passes and failures. -/
theorem refresher_loses_no_change (table : KeyTable) (cache : Store) :
    LosesNoChange (State.start table cache) ∧ KeepsOthers (State.start table cache) :=
  ⟨losesNoChange _, keepsOthers _⟩

/-! ## 8. The task does drain -/

/-- A request never finds the task asleep without waking it. -/
def Wakes (s : State) : Prop := s.phase = .waiting → s.pending = true → s.wake = true

theorem wakes_step {label : Label} (hwakes : Wakes s) (h : step s label = some s') :
    Wakes s' := by
  intro hp hpend
  cases stepTo_of_step h with
  | write table => exact hwakes hp hpend
  | requestAll => rfl
  | requestTenant u => rfl
  | checkIdle hp' hidle =>
    rw [State.pending] at hidle hpend
    exact absurd hpend (by simp [hidle])
  | _ => cases hp

/-- What the task does by itself when nothing fails. -/
def Label.drains : Label → Bool
  | .check => true
  | .woken => true
  | .read => true
  | .apply => true
  | .retry => true
  | _ => false

def CanDrain (s : State) : Prop :=
  ∃ labels s', (∀ a ∈ labels, a.drains = true) ∧ exec step s labels = some s' ∧ s'.Drained

theorem CanDrain.of_step {a : Label} (ha : a.drains = true) (h : step s a = some s')
    (hdrain : CanDrain s') : CanDrain s := by
  obtain ⟨labels, s'', hlabels, hrun, hdrained⟩ := hdrain
  refine ⟨a :: labels, s'', fun b hb => ?_, ?_, hdrained⟩
  · rcases List.mem_cons.mp hb with rfl | hb
    · exact ha
    · exact hlabels b hb
  · rw [exec_cons, h]
    exact hrun

section Drain

variable {table : KeyTable} {cache : Store} {full wake : Bool} {tenants : List String}

theorem canDrain_idle : CanDrain ⟨table, cache, false, [], wake, .test⟩ :=
  CanDrain.of_step (a := .check) rfl rfl ⟨[], _, nofun, rfl, rfl, rfl, rfl⟩

/-- A full reload cannot fail to apply. -/
theorem canDrain_reading_full :
    CanDrain ⟨table, cache, false, [], wake, .reading true tenants⟩ :=
  CanDrain.of_step (a := .read) rfl rfl (CanDrain.of_step (a := .apply) rfl rfl canDrain_idle)

theorem canDrain_failed : CanDrain ⟨table, cache, true, [], wake, .sleeping⟩ :=
  CanDrain.of_step (a := .retry) rfl rfl
    (CanDrain.of_step (a := .check) rfl rfl canDrain_reading_full)

theorem canDrain_reading :
    CanDrain ⟨table, cache, false, [], wake, .reading full tenants⟩ := by
  cases full with
  | true => exact canDrain_reading_full
  | false =>
    refine CanDrain.of_step (a := .read) rfl rfl ?_
    -- the swap may raise on what the cache holds; then everything is reloaded
    cases hswap : replaceTenantsInCache tenants (storeOf (rowsOfTenants table tenants)) cache with
    | some cache' =>
      refine @CanDrain.of_step _ ⟨table, cache', false, [], wake, .test⟩ .apply rfl ?_
        canDrain_idle
      simp only [step, Bool.false_eq_true, if_false, hswap]
    | none =>
      refine @CanDrain.of_step _ ⟨table, cache, true, [], wake, .sleeping⟩ .apply rfl ?_
        canDrain_failed
      simp only [step, Bool.false_eq_true, if_false, hswap]
      rfl

theorem canDrain_test : CanDrain ⟨table, cache, full, tenants, wake, .test⟩ := by
  cases hpend : (full || !tenants.isEmpty) with
  | true =>
    refine @CanDrain.of_step _ ⟨table, cache, false, [], false, .reading full tenants⟩ .check rfl ?_
      canDrain_reading
    simp only [step, State.pending, hpend, if_true]
    rfl
  | false =>
    simp only [Bool.or_eq_false_iff, Bool.not_eq_false', List.isEmpty_iff] at hpend
    obtain ⟨rfl, rfl⟩ := hpend
    exact canDrain_idle

theorem canDrain_sleeping : CanDrain ⟨table, cache, full, tenants, wake, .sleeping⟩ :=
  CanDrain.of_step (a := .retry) rfl rfl canDrain_test

theorem canDrain_applying {full' : Bool} {tenants' : List String} {rows : KeyTable} :
    CanDrain ⟨table, cache, full, tenants, wake, .applying full' tenants' rows⟩ := by
  cases full' with
  | true => exact CanDrain.of_step (a := .apply) rfl rfl canDrain_test
  | false =>
    cases hswap : replaceTenantsInCache tenants' (storeOf rows) cache with
    | some cache' =>
      refine @CanDrain.of_step _ ⟨table, cache', full, tenants, wake, .test⟩ .apply rfl ?_
        canDrain_test
      simp only [step, hswap]
    | none =>
      refine @CanDrain.of_step _ ⟨table, cache, true, tenants, wake, .sleeping⟩ .apply rfl ?_
        canDrain_sleeping
      simp only [step, hswap]
      rfl

end Drain

theorem canDrain_of_wakes (hwakes : Wakes s) (halive : s.phase ≠ .cancelled) : CanDrain s := by
  obtain ⟨table, cache, full, tenants, wake, phase⟩ := s
  cases phase with
  | test => exact canDrain_test
  | waiting =>
    cases hpend : (full || !tenants.isEmpty) with
    | true =>
      obtain rfl : wake = true := hwakes rfl hpend
      exact CanDrain.of_step (a := .woken) rfl rfl canDrain_reading
    | false =>
      simp only [Bool.or_eq_false_iff, Bool.not_eq_false', List.isEmpty_iff] at hpend
      exact ⟨[], _, nofun, rfl, rfl, hpend⟩
  | reading full' tenants' => exact CanDrain.of_step (a := .read) rfl rfl canDrain_applying
  | applying full' tenants' rows => exact canDrain_applying
  | sleeping => exact canDrain_sleeping
  | cancelled => exact absurd rfl halive

/-- Whatever happened so far, the task drains once reads stop failing. -/
theorem refresher_drains (table : KeyTable) (cache : Store) (labels : List Label)
    (h : exec step (State.start table cache) labels = some s) (halive : s.phase ≠ .cancelled) :
    CanDrain s := by
  refine canDrain_of_wakes ?_ halive
  have hstart : Wakes (State.start table cache) := by
    intro hp
    cases hp
  exact exec_invariant (fun _ _ _ hw hs => wakes_step hw hs) hstart h

end TokenProxy.CacheRefresher
