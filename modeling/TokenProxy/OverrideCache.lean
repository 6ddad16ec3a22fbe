/-
  TokenProxy/OverrideCache.lean
  =============================
  **The cache of tenant overrides: loads, writes, invalidations and expiries in any order.**

  Source: `tenancy/config.py` (`TenantConfigLoader.invalidate`, `load`, `_get_overrides`).

  A load that misses the cache reads the tenant's row and stores it in two steps, with an await
  between them, so anything may happen in between: a write of the row, the invalidation after it,
  other loads.  A run is a list of such steps.

  The rows that were written are numbered, and with each cached value, each row read and each
  invalidation the state records its number; no branch reads these numbers.  An invalidated
  setting is not resurrected when every load gives a row numbered no lower than the last one
  before the invalidation.  A load's own read always is (`State.Inv.reads`), so what is left is the
  cache: it must not be filled from a row older than the last invalidation (`StoresFresh`).
-/
import TokenProxy.ConfigLayers
import TokenProxy.Execution
import Mathlib.Algebra.Order.Ring.Rat
import Mathlib.Tactic.Linarith

namespace TokenProxy.OverrideCache

open Execution

/-! ## 1. The loader -/

/-- The loader's TTL, and `json.loads(raw)` or `dict(raw)` of a column: `none` where it raises. -/
structure Loader where
  cacheTtl : ℚ
  decode : Json → Option Json

/-- An entry of `_cache`. -/
structure Cached where
  overrides : Option Json
  expires : ℚ
  version : ℕ

/-- A load that missed the cache, with the row once it has read it; `floor` is the number of the
    last row before the last invalidation when the load started. -/
structure Load where
  tenant : String
  config : Json
  now : ℚ
  floor : ℕ
  read : Option (ℕ × Option Json) := none

/-- A load that has returned: what it merged, if it got as far, and the config it left, `none`
    where the merge raised. -/
structure Returned where
  tenant : String
  config : Json
  floor : ℕ
  overrides : Option (Option Json)
  merged : Option Json

structure State where
  /-- the `config_overrides` columns that were written, in order -/
  rows : String → List Json
  cache : String → Option Cached
  floor : String → ℕ
  loads : List Load
  clock : ℚ

/-- The row number `k`; before the first write there is none. -/
def rowAt (rows : List Json) : ℕ → Option Json
  | 0 => none
  | k + 1 => rows[k]?

variable (loader : Loader)

/-- The overrides in a row; `none` where decoding them raises. -/
def overridesOf : Option Json → Option (Option Json)
  | none => some none
  | some column => if column.truthy then (loader.decode column).map some else some none

/-! ## 2. Steps -/

inductive Label where
  | start (tenant : String) (config : Json)
  | read (i : ℕ)
  | fail (i : ℕ)
  | finish (i : ℕ)
  | write (tenant : String) (column : Json)
  | invalidate (tenant : Option String)
  | tick (d : ℚ)

/-- What `load` makes of the overrides that it got. -/
def returned (tenant : String) (config : Json) (floor : ℕ) (overrides : Option (Option Json)) :
    Returned :=
  ⟨tenant, config, floor, overrides, Config.load true (overrides.getD none) config⟩

/-- `cached and now < cached[1]`. -/
def hit? (s : State) (tenant : String) : Option Cached :=
  (s.cache tenant).filter fun cached => decide (s.clock < cached.expires)

/-- `load`, up to where it awaits the database. -/
def start (s : State) (tenant : String) (config : Json) : State × Option Returned :=
  if Config.perTenantEnabled? config = some true then
    match hit? s tenant with
    | some cached => (s, some (returned tenant config (s.floor tenant) (some cached.overrides)))
    | none =>
      ({ s with loads := s.loads ++ [⟨tenant, config, s.clock, s.floor tenant, none⟩] }, none)
  else (s, some (returned tenant config (s.floor tenant) none))

/-- The row is read. -/
def readRow (s : State) (load : Load) : Load :=
  let rows := s.rows load.tenant
  { load with read := some (rows.length, rowAt rows rows.length) }

def State.store (s : State) (tenant : String) (cached : Cached) : State :=
  { s with cache := fun other => if other = tenant then some cached else s.cache other }

/-- `load`, from the row on: what it decodes is stored and merged. -/
def finish (s : State) (load : Load) (version : ℕ) (row : Option Json) : State × Returned :=
  match overridesOf loader row with
  | some overrides =>
    (s.store load.tenant ⟨overrides, load.now + loader.cacheTtl, version⟩,
      returned load.tenant load.config load.floor (some overrides))
  | none => (s, returned load.tenant load.config load.floor none)

/-- `invalidate(tenant_id)`, of one tenant or of all. -/
def invalidate (s : State) (tenant : Option String) : State :=
  { s with
    cache := fun other => if tenant = none ∨ tenant = some other then none else s.cache other
    floor := fun other =>
      if tenant = none ∨ tenant = some other then (s.rows other).length else s.floor other }

def write (s : State) (tenant : String) (column : Json) : State :=
  { s with rows := fun other =>
      if other = tenant then s.rows other ++ [column] else s.rows other }

/-- The label, taken, with what a load that returns has merged; `none` when it is not enabled. -/
def serve (s : State) : Label → Option (State × Option Returned)
  | .start tenant config => some (start s tenant config)
  | .read i =>
    match s.loads[i]? with
    | some load =>
      if load.read = none then some ({ s with loads := s.loads.set i (readRow s load) }, none)
      else none
    | none => none
  | .fail i =>
    -- the `except`: nothing is stored, nothing is merged
    match s.loads[i]? with
    | some load =>
      some ({ s with loads := s.loads.eraseIdx i },
        some (returned load.tenant load.config load.floor none))
    | none => none
  | .finish i =>
    match s.loads[i]? with
    | some load =>
      match load.read with
      | some (version, row) =>
        let finished := finish loader { s with loads := s.loads.eraseIdx i } load version row
        some (finished.1, some finished.2)
      | none => none
    | none => none
  | .write tenant column => some (write s tenant column, none)
  | .invalidate tenant => some (invalidate s tenant, none)
  | .tick d => if 0 ≤ d then some ({ s with clock := s.clock + d }, none) else none

def step (s : State) (label : Label) : Option State := (serve loader s label).map Prod.fst

/-- No load, no cached value; the tables hold what they hold. -/
def initial (rows : String → List Json) (clock : ℚ) : State :=
  ⟨rows, fun _ => none, fun _ => 0, [], clock⟩

/-! ## 3. Fresh loads -/

/-- The load merged a row no older than the last one before the last invalidation, if it merged
    any. -/
def Returned.Fresh (r : Returned) (rows : List Json) : Prop :=
  ∀ overrides, r.overrides = some overrides →
    ∃ k, r.floor ≤ k ∧ k ≤ rows.length ∧ overridesOf loader (rowAt rows k) = some overrides ∧
      r.merged = Config.load true overrides r.config

/-- Every load that returns in this step is fresh. -/
def ServesFresh (s : State) (label : Label) : Prop :=
  ∀ s' r, serve loader s label = some (s', some r) → r.Fresh loader (s'.rows r.tenant)

/-- A load that stores what it read has read no older a row than the last one before the last
    invalidation, or stores it already expired. -/
def StoresFresh (s : State) : Label → Prop
  | .finish i => ∀ load version row, s.loads[i]? = some load → load.read = some (version, row) →
      (overridesOf loader row).isSome = true →
      s.floor load.tenant ≤ version ∨ load.now + loader.cacheTtl ≤ s.clock
  | _ => True

/-! ## 4. The invariant -/

variable {loader}

/-- What a number says about the rows: the value that was decoded from the row with the number. -/
structure Cached.Inv (loader : Loader) (s : State) (tenant : String) (cached : Cached) : Prop where
  fresh : s.floor tenant ≤ cached.version ∨ cached.expires ≤ s.clock
  written : cached.version ≤ (s.rows tenant).length
  decoded : overridesOf loader (rowAt (s.rows tenant) cached.version) = some cached.overrides

structure Load.Inv (s : State) (load : Load) : Prop where
  floor : load.floor ≤ (s.rows load.tenant).length
  read : ∀ version row, load.read = some (version, row) →
    load.floor ≤ version ∧ version ≤ (s.rows load.tenant).length ∧
      rowAt (s.rows load.tenant) version = row

structure State.Inv (loader : Loader) (s : State) : Prop where
  floor : ∀ tenant, s.floor tenant ≤ (s.rows tenant).length
  cache : ∀ tenant cached, s.cache tenant = some cached → cached.Inv loader s tenant
  loads : ∀ load ∈ s.loads, load.Inv s

theorem initial_inv (rows : String → List Json) (clock : ℚ) :
    (initial rows clock).Inv loader where
  floor _ := Nat.zero_le _
  cache _ _ h := by cases h
  loads _ h := by cases h

theorem rowAt_append {rows more : List Json} {k : ℕ} (h : k ≤ rows.length) :
    rowAt (rows ++ more) k = rowAt rows k := by
  cases k with
  | zero => rfl
  | succ k => exact List.getElem?_append_left h

/-- The waiting loads are others, and the rest is as it was. -/
theorem State.Inv.withLoads {s : State} (h : s.Inv loader) {loads : List Load}
    (hloads : ∀ load ∈ loads, load.Inv s) : State.Inv loader { s with loads := loads } where
  floor := h.floor
  cache tenant cached hcached :=
    let hinv := h.cache tenant cached hcached
    ⟨hinv.fresh, hinv.written, hinv.decoded⟩
  loads load hload :=
    let hinv := hloads load hload
    ⟨hinv.floor, hinv.read⟩

theorem State.Inv.eraseLoad {s : State} (h : s.Inv loader) (i : ℕ) :
    State.Inv loader { s with loads := s.loads.eraseIdx i } :=
  h.withLoads fun load hload => h.loads load (List.mem_of_mem_eraseIdx hload)

theorem start_inv {s : State} (h : s.Inv loader) (tenant : String) (config : Json) :
    (start s tenant config).1.Inv loader := by
  rw [start]
  split
  · split
    · exact h
    · refine h.withLoads fun load hload => ?_
      rcases List.mem_append.mp hload with hload | hload
      · exact h.loads load hload
      · rw [List.mem_singleton.mp hload]
        exact ⟨h.floor tenant, fun _ _ hread => by cases hread⟩
  · exact h

theorem read_inv {s : State} (h : s.Inv loader) {i : ℕ} {load : Load}
    (hload : s.loads[i]? = some load) :
    State.Inv loader { s with loads := s.loads.set i (readRow s load) } := by
  refine h.withLoads fun other hother => ?_
  rcases List.mem_or_eq_of_mem_set hother with hother | rfl
  · exact h.loads other hother
  · have hfloor := (h.loads load (List.mem_of_getElem? hload)).floor
    refine ⟨hfloor, ?_⟩
    rintro _ _ ⟨⟩
    exact ⟨hfloor, le_rfl, rfl⟩

theorem State.Inv.store {s : State} (h : s.Inv loader) {tenant : String} {cached : Cached}
    (hcached : cached.Inv loader s tenant) : (s.store tenant cached).Inv loader := by
  have hsame : ∀ other (entry : Cached), entry.Inv loader s other →
      entry.Inv loader (s.store tenant cached) other :=
    fun other entry hinv => ⟨hinv.fresh, hinv.written, hinv.decoded⟩
  refine ⟨h.floor, fun other entry hentry => ?_, fun load hload => ?_⟩
  · by_cases hother : other = tenant
    · rw [hother] at hentry ⊢
      obtain rfl : cached = entry := Option.some.inj ((if_pos rfl).symm.trans hentry)
      exact hsame tenant cached hcached
    · exact hsame other entry (h.cache other entry ((if_neg hother).symm.trans hentry))
  · have hinv := h.loads load hload
    exact ⟨hinv.floor, hinv.read⟩

theorem finish_inv {s : State} (h : s.Inv loader) {load : Load} {version : ℕ} {row : Option Json}
    (hload : load.Inv s) (hread : load.read = some (version, row))
    (hfresh : (overridesOf loader row).isSome = true →
      s.floor load.tenant ≤ version ∨ load.now + loader.cacheTtl ≤ s.clock) :
    (finish loader s load version row).1.Inv loader := by
  obtain ⟨-, hwritten, hrow⟩ := hload.read version row hread
  rw [finish]
  split
  · next overrides hdecoded =>
    refine h.store ⟨hfresh (Option.isSome_of_eq_some hdecoded), hwritten, ?_⟩
    rw [hrow]
    exact hdecoded
  · exact h

/-- A write only adds a row. -/
theorem write_rows (s : State) (tenant : String) (column : Json) (other : String) :
    ∃ more, (write s tenant column).rows other = s.rows other ++ more := by
  rw [write]
  by_cases h : other = tenant
  · exact ⟨[column], if_pos h⟩
  · exact ⟨[], (if_neg h).trans (List.append_nil _).symm⟩

theorem write_inv {s : State} (h : s.Inv loader) (tenant : String) (column : Json) :
    (write s tenant column).Inv loader := by
  have hgrows : ∀ other, (s.rows other).length ≤ ((write s tenant column).rows other).length := by
    intro other
    obtain ⟨more, hmore⟩ := write_rows s tenant column other
    rw [hmore, List.length_append]
    exact Nat.le_add_right _ _
  have hkeeps : ∀ other k, k ≤ (s.rows other).length →
      rowAt ((write s tenant column).rows other) k = rowAt (s.rows other) k := by
    intro other k hk
    obtain ⟨more, hmore⟩ := write_rows s tenant column other
    rw [hmore, rowAt_append hk]
  refine ⟨fun other => (h.floor other).trans (hgrows other), fun other cached hcached => ?_,
    fun load hload => ?_⟩
  · have hinv := h.cache other cached hcached
    refine ⟨hinv.fresh, hinv.written.trans (hgrows other), ?_⟩
    rw [hkeeps other _ hinv.written]
    exact hinv.decoded
  · have hinv := h.loads load hload
    refine ⟨hinv.floor.trans (hgrows _), fun version row hread => ?_⟩
    obtain ⟨hfloor, hwritten, hrow⟩ := hinv.read version row hread
    exact ⟨hfloor, hwritten.trans (hgrows _), (hkeeps _ _ hwritten).trans hrow⟩

theorem invalidate_named (s : State) {tenant : Option String} {other : String}
    (h : tenant = none ∨ tenant = some other) : (invalidate s tenant).cache other = none ∧
      (invalidate s tenant).floor other = (s.rows other).length :=
  ⟨if_pos h, if_pos h⟩

theorem invalidate_unnamed (s : State) {tenant : Option String} {other : String}
    (h : ¬ (tenant = none ∨ tenant = some other)) :
    (invalidate s tenant).cache other = s.cache other ∧
      (invalidate s tenant).floor other = s.floor other :=
  ⟨if_neg h, if_neg h⟩

theorem invalidate_inv {s : State} (h : s.Inv loader) (tenant : Option String) :
    (invalidate s tenant).Inv loader := by
  refine ⟨fun other => ?_, fun other cached hcached => ?_, fun load hload => ?_⟩
  · by_cases hnamed : tenant = none ∨ tenant = some other
    · exact (invalidate_named s hnamed).2.le
    · exact (invalidate_unnamed s hnamed).2.le.trans (h.floor other)
  · by_cases hnamed : tenant = none ∨ tenant = some other
    · rw [(invalidate_named s hnamed).1] at hcached
      cases hcached
    · obtain ⟨hcache, hfloor⟩ := invalidate_unnamed s hnamed
      rw [hcache] at hcached
      have hinv := h.cache other cached hcached
      refine ⟨?_, hinv.written, hinv.decoded⟩
      rw [hfloor]
      exact hinv.fresh
  · have hinv := h.loads load hload
    exact ⟨hinv.floor, hinv.read⟩

theorem tick_inv {s : State} (h : s.Inv loader) {d : ℚ} (hd : 0 ≤ d) :
    State.Inv loader { s with clock := s.clock + d } := by
  refine ⟨h.floor, fun tenant cached hcached => ?_, fun load hload => ?_⟩
  · have hinv := h.cache tenant cached hcached
    refine ⟨hinv.fresh.imp_right fun hexpired => ?_, hinv.written, hinv.decoded⟩
    exact hexpired.trans (le_add_of_nonneg_right hd)
  · have hinv := h.loads load hload
    exact ⟨hinv.floor, hinv.read⟩

/-! ## 5. Runs -/

theorem returned_fresh_of_none {tenant : String} {config : Json} {floor : ℕ} {rows : List Json} :
    (returned tenant config floor none).Fresh loader rows := by
  rintro overrides ⟨⟩

/-- A load answered from the cache: an entry that has not expired is no older than the last row
    before the last invalidation. -/
theorem start_fresh {s : State} (h : s.Inv loader) {tenant : String} {config : Json}
    {s' : State} {r : Returned} (hstart : start s tenant config = (s', some r)) :
    r.Fresh loader (s'.rows r.tenant) := by
  rw [start] at hstart
  split at hstart
  · split at hstart
    · next cached hhit =>
      cases hstart
      obtain ⟨hcached, hlive⟩ := Option.filter_eq_some_iff.mp hhit
      have hinv := h.cache tenant cached hcached
      rintro _ ⟨⟩
      refine ⟨cached.version, ?_, hinv.written, hinv.decoded, rfl⟩
      exact hinv.fresh.resolve_right (not_le.mpr (of_decide_eq_true hlive))
    · cases hstart
  · cases hstart
    exact returned_fresh_of_none

/-- A load that has read the row itself. -/
theorem finish_fresh {s : State} {load : Load} {version : ℕ} {row : Option Json}
    (hload : load.Inv s) (hread : load.read = some (version, row)) :
    (finish loader s load version row).2.Fresh loader
      ((finish loader s load version row).1.rows
        (finish loader s load version row).2.tenant) := by
  obtain ⟨hfloor, hwritten, hrow⟩ := hload.read version row hread
  rw [finish]
  split
  · next overrides hdecoded =>
    rintro _ ⟨⟩
    refine ⟨version, hfloor, hwritten, ?_, rfl⟩
    rw [← hdecoded, ← hrow]
    rfl
  · exact returned_fresh_of_none

theorem serve_spec {s s' : State} {label : Label} {r : Option Returned} (h : s.Inv loader)
    (hok : StoresFresh loader s label) (hserve : serve loader s label = some (s', r)) :
    s'.Inv loader ∧ ∀ r', r = some r' → r'.Fresh loader (s'.rows r'.tenant) := by
  cases label with
  | start tenant config =>
    have hstart : start s tenant config = (s', r) := Option.some.inj hserve
    have hinv := start_inv h tenant config
    rw [hstart] at hinv
    refine ⟨hinv, ?_⟩
    rintro r' rfl
    exact start_fresh h hstart
  | read i =>
    rw [serve] at hserve
    split at hserve
    · next load hload =>
      split at hserve
      · cases hserve
        exact ⟨read_inv h hload, fun _ hr => by cases hr⟩
      · cases hserve
    · cases hserve
  | fail i =>
    rw [serve] at hserve
    split at hserve
    · next load hload =>
      cases hserve
      refine ⟨h.eraseLoad i, ?_⟩
      rintro _ ⟨⟩
      exact returned_fresh_of_none
    · cases hserve
  | finish i =>
    rw [serve] at hserve
    split at hserve
    · next load hload =>
      split at hserve
      · next version row hread =>
        cases hserve
        have hinv := h.loads load (List.mem_of_getElem? hload)
        have hwaiting : load.Inv { s with loads := s.loads.eraseIdx i } :=
          ⟨hinv.floor, hinv.read⟩
        refine ⟨finish_inv (h.eraseLoad i) hwaiting hread (hok load version row hload hread), ?_⟩
        rintro _ ⟨⟩
        exact finish_fresh hwaiting hread
      · cases hserve
    · cases hserve
  | write tenant column =>
    cases hserve
    exact ⟨write_inv h tenant column, fun _ hr => by cases hr⟩
  | invalidate tenant =>
    cases hserve
    exact ⟨invalidate_inv h tenant, fun _ hr => by cases hr⟩
  | tick d =>
    rw [serve] at hserve
    split at hserve
    · next hd =>
      cases hserve
      exact ⟨tick_inv h hd, fun _ hr => by cases hr⟩
    · cases hserve

/-- In a run in which no load stores a row older than the last invalidation, every load that
    starts after an invalidation merges the last row before it or a later one. -/
theorem loads_fresh_of_storesFresh {rows : String → List Json} {clock : ℚ} {labels : List Label}
    (h : AllSteps (step loader) (StoresFresh loader) (initial rows clock) labels) :
    AllSteps (step loader) (ServesFresh loader) (initial rows clock) labels := by
  refine h.imp_of_preserved (P := State.Inv loader) (fun s label s' hinv hok hstep => ?_)
    (initial_inv rows clock)
  obtain ⟨⟨_, r⟩, hserve, rfl⟩ := Option.map_eq_some_iff.mp hstep
  refine ⟨(serve_spec hinv hok hserve).1, fun s'' r' hserve' => ?_⟩
  exact (serve_spec hinv hok hserve').2 r' rfl

/-! ## 6. Two runs -/

/-- Columns that arrive decoded. -/
def sampleLoader : Loader := ⟨60, some⟩

def sampleColumn (limit : ℤ) : Json := .obj [("limit", .int limit)]

/-- One tenant with a row, at the time 0. -/
def sampleStart : State := initial (fun _ => [sampleColumn 1]) 0

/-- The first load is over before the write, the second reads what was written. -/
def loadedBefore : List Label :=
  [.start "acme" (.obj []), .read 0, .finish 0, .write "acme" (sampleColumn 2),
    .invalidate (some "acme"), .start "acme" (.obj []), .read 0, .finish 0]

theorem loads_fresh_loadedBefore :
    AllSteps (step sampleLoader) (ServesFresh sampleLoader) sampleStart loadedBefore := by
  apply loads_fresh_of_storesFresh
  refine allSteps_cons rfl trivial (allSteps_cons rfl trivial (allSteps_cons rfl ?_ ?_))
  · rintro load version row ⟨⟩ ⟨⟩ -
    exact Or.inl (Nat.zero_le _)
  · refine allSteps_cons rfl trivial (allSteps_cons rfl trivial (allSteps_cons rfl trivial
      (allSteps_cons rfl trivial (allSteps_cons rfl ?_ trivial))))
    rintro load version row ⟨⟩ ⟨⟩ -
    exact Or.inl (Nat.le_refl _)

/-- The load has read the row before the write, and stores it after the invalidation. -/
def loadedAcross : List Label :=
  [.start "acme" (.obj []), .read 0, .write "acme" (sampleColumn 2),
    .invalidate (some "acme"), .finish 0, .start "acme" (.obj [])]

theorem start_hit {s : State} {tenant : String} {config : Json} {cached : Cached}
    (henabled : Config.perTenantEnabled? config = some true) (h : s.cache tenant = some cached)
    (hlive : s.clock < cached.expires) :
    start s tenant config =
      (s, some (returned tenant config (s.floor tenant) (some cached.overrides))) := by
  rw [start, if_pos henabled, hit?, h, Option.filter_some, if_pos (decide_eq_true hlive)]

theorem not_loads_fresh :
    ¬ AllSteps (step sampleLoader) (ServesFresh sampleLoader) sampleStart loadedAcross := by
  intro h
  have hserves := ((((((h _ rfl).2 _ rfl).2 _ rfl).2 _ rfl).2 _ rfl).2 _ rfl).1
  have hfresh := hserves _ _ (congrArg some (start_hit rfl rfl (show (0 : ℚ) < 0 + 60 by norm_num)))
  obtain ⟨k, hfloor, hle, hdecoded, -⟩ := hfresh _ rfl
  obtain rfl : k = 2 := le_antisymm hle hfloor
  revert hdecoded
  decide

end TokenProxy.OverrideCache
