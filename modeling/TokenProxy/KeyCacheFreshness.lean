/-
  TokenProxy/KeyCacheFreshness.lean
  =================================
  **How old an answer of the key cache can be.**

  Lookups come one at a time here, and the store answers every call.  Then the entry that a lookup
  returns is the one of a store that was still current one check interval before the lookup began,
  give or take the time between a read of the store and the assignment of what it read: a key
  revoked by another instance stops working within the interval.

  The invariant says of each phase what the lookup already knows.  Outside a check and a load the
  cache is as fresh as the last version check (`State.Settled`); a check sets the time of the last
  check before it asks, so until its answer is there only the version numbers relate the cache to
  the store.
-/
import TokenProxy.KeyCache

namespace TokenProxy.KeyCache

open Execution KeyStore

variable {τ : Type} (cfg : Settings) (delay : ℚ)

/-! ## 1. Fresh caches -/

/-- The store is number `k` of these, from 0, and was still current at the time `x`. -/
structure CurrentAt (stores : List Written) (x : ℚ) (store : Store) (k : ℕ) : Prop where
  stored : (stores[k]?).map Written.store = some store
  later : ∀ (j : ℕ) (w : Written), k < j → stores[j]? = some w → x ≤ w.time

/-- The cache is a store that was current `delay` before `t` or later. -/
def FreshAt (s : State τ) (t : ℚ) : Prop :=
  t ≤ s.clock ∧ ∃ k, CurrentAt s.stores (t - delay) s.cache k

/-- The answer's entry is that of a store still current one interval before the lookup began. -/
def Answer.Fresh (stores : List Written) (a : Answer) : Prop :=
  ∃ k store, CurrentAt stores (a.asked - cfg.checkInterval - delay) store k ∧
    a.entry = entryOf store a.keyHash

/-- When the keys were read that are about to become the cache. -/
def Phase.readAt? : Phase → Option ℚ
  | .fetched _ _ _ readAt => some readAt
  | _ => none

/-- The steps of a quiet run: calls are answered, no lock times out, what was read is assigned
    within the delay, and this instance's own write refreshes the cache before a lookup has loaded
    a later store. -/
def Quiet (s : State τ) : Label τ → Prop
  | .advance i answered =>
    answered = true ∧ ∀ l ∈ s.lookups i, ∀ readAt ∈ l.phase.readAt?, s.clock - readAt ≤ delay
  | .refresh => ∀ own ∈ s.pending, s.clock - own.time ≤ delay ∧
      ∀ version ∈ s.cacheVersion, version ≤ own.number
  | .timeout _ => False
  | .tick _ | .write _ | .persist _ | .ask _ _ => True

instance (s : State τ) : ∀ label, Decidable (Quiet delay s label)
  | .advance _ _ => inferInstanceAs (Decidable (_ ∧ _))
  | .refresh => inferInstanceAs (Decidable (∀ own ∈ s.pending, _ ∧ _))
  | .timeout _ => inferInstanceAs (Decidable False)
  | .tick _ | .write _ | .persist _ | .ask _ _ => inferInstanceAs (Decidable True)

/-! ## 2. What each phase knows -/

/-- No check and no load is under way: the cache is as fresh as the last check says, and so is it
    as the last load says. -/
structure State.Settled (s : State τ) : Prop where
  order : s.lastLoadAttempt ≤ s.lastVersionCheck
  load : s.lastLoadAttempt ≠ 0 → FreshAt delay s s.lastLoadAttempt
  check : isCold s.cache = false → FreshAt delay s s.lastVersionCheck

/-- What is so at a phase of a lookup that began at `asked`. -/
def PhaseInv (s : State τ) (asked : ℚ) : Phase → Prop
  | .begun | .queued .cold | .queued .stale => s.Settled delay
  | .queued (.changed version) => s.cacheVersion ≠ some version ∧ s.lastLoadAttempt < asked
  | .queued .missed | .reading | .rereading =>
    s.Settled delay ∧ FreshAt delay s (asked - cfg.checkInterval)
  | .versioning _ => True
  | .fetching _ version => ∀ v, version = some v → v ≤ s.stores.length
  | .fetched _ version data readAt => asked ≤ readAt ∧ readAt ≤ s.clock ∧
      ∃ k, CurrentAt s.stores readAt data k ∧ ∀ v, version = some v → v ≤ k + 1
  | .checkDue | .checkQueued =>
    s.Settled delay ∧ (isCold s.cache = true → FreshAt delay s asked)
  | .asking => s.lastLoadAttempt < asked ∧ asked ≤ s.lastVersionCheck

/-- What is so whatever the lookup does. -/
structure State.Base (s : State τ) : Prop where
  stored : s.stores ≠ []
  check : s.lastVersionCheck ≤ s.clock
  attempt : s.lastLoadAttempt ≤ s.clock
  version : ∀ v, s.cacheVersion = some v →
    ∃ k, (s.stores[k]?).map Written.store = some s.cache ∧ v ≤ k + 1
  pending : ∀ own, s.pending = some own → own.time ≤ s.clock ∧
    ∃ k, CurrentAt s.stores own.time own.store k ∧ own.number = k + 1
  answers : ∀ a ∈ s.answers, a.asked ≤ s.clock ∧ a.Fresh cfg delay s.stores

structure State.Inv (s : State τ) : Prop where
  base : s.Base cfg delay
  clock : 0 < s.clock
  idle : (∀ i, s.lookups i = none) → s.Settled delay
  active : ∀ i l, s.lookups i = some l →
    0 < l.asked ∧ l.asked ≤ s.clock ∧ PhaseInv cfg delay s l.asked l.phase

/-! ## 3. What keeps an invariant -/

variable {cfg delay} {s s' : State τ} {stores : List Written} {x y t t' : ℚ} {store : Store} {k : ℕ}

theorem CurrentAt.mono (h : CurrentAt stores y store k) (hxy : x ≤ y) :
    CurrentAt stores x store k :=
  ⟨h.stored, fun j w hj hw => hxy.trans (h.later j w hj hw)⟩

theorem CurrentAt.append (h : CurrentAt stores x store k) {w : Written} (hw : x ≤ w.time) :
    CurrentAt (stores ++ [w]) x store k := by
  obtain ⟨v, hv, hstore⟩ := Option.map_eq_some_iff.mp h.stored
  have hk : k < stores.length := (List.getElem?_eq_some_iff.mp hv).1
  refine ⟨?_, fun j u hj hu => ?_⟩
  · rw [List.getElem?_append_left hk]
    exact h.stored
  · rw [List.getElem?_append] at hu
    split at hu
    · exact h.later j u hj hu
    · obtain rfl : w = u := by
        have hmem := List.mem_of_getElem? hu
        exact (List.mem_singleton.mp hmem).symm
      exact hw

/-- The last store of all is current at any time. -/
theorem currentAt_last (hk : k + 1 = stores.length)
    (hstored : (stores[k]?).map Written.store = some store) : CurrentAt stores x store k := by
  refine ⟨hstored, fun j w hj hw => ?_⟩
  have hlt := (List.getElem?_eq_some_iff.mp hw).1
  omega

theorem FreshAt.mono (h : FreshAt delay s t) (ht : t' ≤ t) : FreshAt delay s t' := by
  obtain ⟨hclock, k, hk⟩ := h
  exact ⟨ht.trans hclock, k, hk.mono (sub_le_sub_right ht delay)⟩

/-- From `s` to `s'` neither a check nor a load begins or ends; the cache is as it was, or as fresh
    as can be. -/
structure Keeps (delay : ℚ) (s s' : State τ) : Prop where
  attempt : s'.lastLoadAttempt = s.lastLoadAttempt
  check : s'.lastVersionCheck = s.lastVersionCheck
  version : s'.cacheVersion = s.cacheVersion
  clock : s.clock ≤ s'.clock
  stores : s.stores.length ≤ s'.stores.length
  current : ∀ x store k, x ≤ s.clock → CurrentAt s.stores x store k →
    CurrentAt s'.stores x store k
  cache : s'.cache = s.cache ∨ ∀ t ≤ s.clock, FreshAt delay s' t

namespace Keeps

variable (hdelay : 0 ≤ delay) (h : Keeps delay s s')
include h

include hdelay in
theorem freshAt (hfresh : FreshAt delay s t) : FreshAt delay s' t := by
  obtain ⟨hclock, k, hk⟩ := hfresh
  rcases h.cache with hcache | hcache
  · refine ⟨hclock.trans h.clock, k, ?_⟩
    rw [hcache]
    exact h.current _ _ _ (by linarith) hk
  · exact hcache t hclock

include hdelay in
theorem settled (hsettled : s.Settled delay) (hcheck : s.lastVersionCheck ≤ s.clock) :
    s'.Settled delay where
  order := by
    rw [h.attempt, h.check]
    exact hsettled.order
  load hne := by
    rw [h.attempt] at hne ⊢
    exact h.freshAt hdelay (hsettled.load hne)
  check hwarm := by
    rw [h.check]
    rcases h.cache with hcache | hcache
    · rw [hcache] at hwarm
      exact h.freshAt hdelay (hsettled.check hwarm)
    · exact hcache _ hcheck

include hdelay in
theorem phaseInv (hcheck : s.lastVersionCheck ≤ s.clock) {asked : ℚ} (hasked : asked ≤ s.clock)
    {phase : Phase} (hphase : PhaseInv cfg delay s asked phase) :
    PhaseInv cfg delay s' asked phase := by
  have hdue : s.Settled delay ∧ (isCold s.cache = true → FreshAt delay s asked) →
      s'.Settled delay ∧ (isCold s'.cache = true → FreshAt delay s' asked) := by
    rintro ⟨hsettled, hcold⟩
    refine ⟨h.settled hdelay hsettled hcheck, fun hcold' => ?_⟩
    rcases h.cache with hcache | hcache
    · rw [hcache] at hcold'
      exact h.freshAt hdelay (hcold hcold')
    · exact hcache _ hasked
  have hread : s.Settled delay ∧ FreshAt delay s (asked - cfg.checkInterval) →
      s'.Settled delay ∧ FreshAt delay s' (asked - cfg.checkInterval) :=
    fun hp => ⟨h.settled hdelay hp.1 hcheck, h.freshAt hdelay hp.2⟩
  cases phase with
  | begun => exact h.settled hdelay hphase hcheck
  | queued why =>
    cases why with
    | cold => exact h.settled hdelay hphase hcheck
    | stale => exact h.settled hdelay hphase hcheck
    | changed version =>
      refine ⟨?_, ?_⟩
      · rw [h.version]
        exact hphase.1
      · rw [h.attempt]
        exact hphase.2
    | missed => exact hread hphase
  | versioning why => trivial
  | fetching why version => exact fun v hv => (hphase v hv).trans h.stores
  | fetched why version data readAt =>
    obtain ⟨hbefore, hclock, k, hk, hv⟩ := hphase
    exact ⟨hbefore, hclock.trans h.clock, k, h.current _ _ _ hclock hk, hv⟩
  | checkDue => exact hdue hphase
  | checkQueued => exact hdue hphase
  | asking =>
    refine ⟨?_, ?_⟩
    · rw [h.attempt]
      exact hphase.1
    · rw [h.check]
      exact hphase.2
  | reading => exact hread hphase
  | rereading => exact hread hphase

end Keeps

/-- A cache that is fresh at every time is as fresh as the last check and the last load. -/
theorem settled_of_fresh (h : ∀ t ≤ s.clock, FreshAt delay s t)
    (horder : s.lastLoadAttempt ≤ s.lastVersionCheck) (hcheck : s.lastVersionCheck ≤ s.clock) :
    s.Settled delay where
  order := horder
  load _ := h _ (horder.trans hcheck)
  check _ := h _ hcheck

/-- And then a lookup may go on wherever a reload leaves it. -/
theorem phaseInv_next_of_fresh (hinterval : 0 ≤ cfg.checkInterval)
    (h : ∀ t ≤ s.clock, FreshAt delay s t) (hsettled : s.Settled delay) {asked : ℚ}
    (hasked : asked ≤ s.clock) (why : Why) : PhaseInv cfg delay s asked why.next := by
  have hread : FreshAt delay s (asked - cfg.checkInterval) := h _ (by linarith)
  cases why with
  | cold => exact ⟨hsettled, fun _ => h asked hasked⟩
  | stale => exact ⟨hsettled, fun _ => h asked hasked⟩
  | changed version => exact ⟨hsettled, hread⟩
  | missed => exact ⟨hsettled, hread⟩

theorem Answer.Fresh.mono {stores' : List Written} {a : Answer} (h : a.Fresh cfg delay stores)
    (hcurrent : ∀ x store k, x ≤ a.asked - cfg.checkInterval - delay →
      CurrentAt stores x store k → CurrentAt stores' x store k) :
    a.Fresh cfg delay stores' := by
  obtain ⟨k, store, hk, hentry⟩ := h
  exact ⟨k, store, hcurrent _ _ _ le_rfl hk, hentry⟩

/-- A reload that is not begun was not needed, or another one was begun after the lookup. -/
theorem refused_phaseInv [DecidableEq τ] {l : Lookup} (hpos : 0 < l.asked) {why : Why}
    (hphase : PhaseInv cfg delay s l.asked (.queued why))
    (hrefused : s.reloads cfg l why = false) : PhaseInv cfg delay s l.asked why.next := by
  have hcold : s.Settled delay → s.stillNeeded cfg l.keyHash .cold = false ∨
      l.asked ≤ s.lastLoadAttempt →
      s.Settled delay ∧ (isCold s.cache = true → FreshAt delay s l.asked) := by
    intro hsettled hwhy
    refine ⟨hsettled, fun hcold => ?_⟩
    rcases hwhy with hwhy | hwhy
    · simp [State.stillNeeded, hcold] at hwhy
    · exact (hsettled.load (by linarith)).mono hwhy
  cases why with
  | cold =>
    refine hcold hphase ?_
    simpa [State.reloads, or_iff_not_imp_left] using hrefused
  | stale =>
    refine hcold hphase ?_
    simpa [State.reloads, State.stillNeeded, or_iff_not_imp_left] using hrefused
  | changed version =>
    obtain ⟨hchanged, hlast⟩ := hphase
    simp [State.reloads, State.stillNeeded, hchanged, hlast] at hrefused
  | missed => exact hphase

/-- Not due: the cache is as fresh as the last check, or it was loaded for this lookup. -/
theorem notDue_phaseInv [DecidableEq τ] (hinterval : 0 ≤ cfg.checkInterval) {l : Lookup}
    (hphase : PhaseInv cfg delay s l.asked .checkDue)
    (hdue : s.versionCheckDue cfg l.asked = false) : PhaseInv cfg delay s l.asked .reading := by
  obtain ⟨hsettled, hcold⟩ := hphase
  refine ⟨hsettled, ?_⟩
  cases hwarm : isCold s.cache with
  | true => exact (hcold hwarm).mono (by linarith)
  | false =>
    simp only [State.versionCheckDue, hwarm, Bool.not_false, Bool.true_and,
      decide_eq_false_iff_not, not_le] at hdue
    exact (hsettled.check hwarm).mono (by linarith)

/-! ## 4. The steps of a lookup -/

section Lookup

variable [DecidableEq τ] [Subsingleton τ] {i : τ} {l : Lookup} (hdelay : 0 ≤ delay)
  (hinterval : 0 ≤ cfg.checkInterval) (hb : s.Base cfg delay) (hclock : 0 < s.clock)
  (hpos : 0 < l.asked) (hasked : l.asked ≤ s.clock)
include hdelay hb hclock hpos hasked

theorem goto_inv {phase : Phase} (hphase : PhaseInv cfg delay s l.asked phase) :
    (s.goto i l phase).Inv cfg delay where
  base := ⟨hb.stored, hb.check, hb.attempt, hb.version, hb.pending, hb.answers⟩
  clock := hclock
  idle hnone := by cases (State.goto_self phase).symm.trans (hnone i)
  active j m hj := by
    obtain rfl := Subsingleton.elim i j
    rw [State.goto_self] at hj
    obtain rfl := Option.some.inj hj
    have hkeeps : Keeps delay s (s.goto i l phase) :=
      ⟨rfl, rfl, rfl, le_rfl, le_rfl, fun _ _ _ _ h => h, .inl rfl⟩
    exact ⟨hpos, hasked, hkeeps.phaseInv hdelay hb.check hasked hphase⟩

/-- The locks play no part in what a phase knows. -/
theorem goto_unlocked_inv {phase : Phase} (hphase : PhaseInv cfg delay s l.asked phase)
    (load version : Option τ) :
    ({ s with loadLock := load, versionLock := version }.goto i l phase).Inv cfg delay := by
  have hkeeps : Keeps delay s { s with loadLock := load, versionLock := version } :=
    ⟨rfl, rfl, rfl, le_rfl, le_rfl, fun _ _ _ _ h => h, .inl rfl⟩
  have hbase : State.Base cfg delay { s with loadLock := load, versionLock := version } :=
    ⟨hb.stored, hb.check, hb.attempt, hb.version, hb.pending, hb.answers⟩
  exact goto_inv hdelay hbase hclock hpos hasked
    (hkeeps.phaseInv hdelay hb.check hasked hphase)

theorem resume_inv {why : Why} (hphase : PhaseInv cfg delay s l.asked why.next) :
    (s.resume i l why).Inv cfg delay :=
  goto_unlocked_inv hdelay hb hclock hpos hasked hphase s.loadLock _

theorem begin_inv (hphase : s.Settled delay) : (s.begin cfg i l).Inv cfg delay := by
  unfold State.begin
  split
  · exact goto_inv hdelay hb hclock hpos hasked hphase
  · next hwarm =>
    split
    · exact goto_inv hdelay hb hclock hpos hasked hphase
    · exact goto_inv hdelay hb hclock hpos hasked ⟨hphase, fun hcold => absurd hcold hwarm⟩

theorem beginReload_inv {why : Why} (hphase : PhaseInv cfg delay s l.asked (.queued why)) :
    (s.beginReload cfg i l why).Inv cfg delay := by
  unfold State.beginReload
  split
  · have hbase : State.Base cfg delay { s with
        loadLock := some i
        lastForcedReload := if why = Why.missed then l.asked else s.lastForcedReload
        lastLoadAttempt := s.clock
        attempts := ⟨why, l.asked, s.clock⟩ :: s.attempts } :=
      ⟨hb.stored, hb.check, le_rfl, hb.version, hb.pending, hb.answers⟩
    exact goto_inv hdelay hbase hclock hpos hasked trivial
  · next hrefused =>
    have hnext := refused_phaseInv hpos hphase
      (Bool.eq_false_iff.mpr hrefused)
    exact resume_inv hdelay hb hclock hpos hasked hnext

/-- What was read becomes the cache, and every test of its age starts over. -/
theorem install_inv (hinterval : 0 ≤ cfg.checkInterval) {why : Why} {version : Option ℕ}
    {data : Store} {readAt : ℚ}
    (hphase : PhaseInv cfg delay s l.asked (.fetched why version data readAt))
    (hread : s.clock - readAt ≤ delay) : (s.install i l why version data).Inv cfg delay := by
  obtain ⟨-, -, k, hk, hversion⟩ := hphase
  have hbase : State.Base cfg delay { s with
      loadLock := none
      cache := data
      loadedAt := s.clock
      cacheVersion := version
      lastVersionCheck := s.clock } :=
    ⟨hb.stored, le_rfl, hb.attempt, fun v hv => ⟨k, hk.stored, hversion v hv⟩, hb.pending,
      hb.answers⟩
  refine resume_inv hdelay hbase hclock hpos hasked ?_
  have hfresh : ∀ t ≤ s.clock, FreshAt delay { s with
      loadLock := none
      cache := data
      loadedAt := s.clock
      cacheVersion := version
      lastVersionCheck := s.clock } t :=
    fun t ht => ⟨ht, k, hk.mono (by linarith)⟩
  exact phaseInv_next_of_fresh hinterval hfresh (settled_of_fresh hfresh hb.attempt hbase.check)
    hasked why

theorem fetch_inv {why : Why} {version : Option ℕ}
    (hphase : PhaseInv cfg delay s l.asked (.fetching why version)) :
    (s.fetch i l why version true).Inv cfg delay := by
  obtain ⟨written, hlast⟩ : ∃ written, s.stores.getLast? = some written :=
    ⟨_, List.getLast?_eq_some_getLast hb.stored⟩
  have hlength : s.stores.length - 1 + 1 = s.stores.length :=
    Nat.sub_add_cancel (List.length_pos_iff.mpr hb.stored)
  have hfetch : s.fetch i l why version true =
      s.goto i l (.fetched why version written.store s.clock) := by
    unfold State.fetch
    rw [hlast]
    rfl
  rw [hfetch]
  refine goto_inv hdelay hb hclock hpos hasked
    ⟨hasked, le_rfl, s.stores.length - 1, currentAt_last hlength ?_, fun v hv => ?_⟩
  · rw [← List.getLast?_eq_getElem?, hlast]
    rfl
  · rw [hlength]
    exact hphase v hv

theorem beginCheck_inv (hinterval : 0 ≤ cfg.checkInterval)
    (hphase : PhaseInv cfg delay s l.asked .checkQueued) : (s.beginCheck i l).Inv cfg delay := by
  obtain ⟨hsettled, hcold⟩ := hphase
  unfold State.beginCheck
  split
  · next hchecked =>
    -- another lookup's check began after this one did
    refine goto_inv hdelay hb hclock hpos hasked ⟨hsettled, ?_⟩
    cases hwarm : isCold s.cache with
    | true => exact (hcold hwarm).mono (by linarith)
    | false => exact (hsettled.check hwarm).mono (by linarith)
  · next hchecked =>
    have hbase : State.Base cfg delay { s with
        versionLock := some i
        lastVersionCheck := s.clock
        checks := s.clock :: s.checks } :=
      ⟨hb.stored, le_rfl, hb.attempt, hb.version, hb.pending, hb.answers⟩
    exact goto_inv hdelay hbase hclock hpos hasked
      ⟨hsettled.order.trans_lt (not_le.mp hchecked), hasked⟩

theorem checked_inv (hinterval : 0 ≤ cfg.checkInterval)
    (hphase : PhaseInv cfg delay s l.asked .asking) : (s.checked i l true).Inv cfg delay := by
  obtain ⟨hlast, hbegun⟩ := hphase
  have hversion : s.storeVersion true = some s.stores.length := by
    simp [State.storeVersion, hb.stored]
  unfold State.checked
  rw [hversion]
  simp only
  split
  · next hchanged => exact goto_inv hdelay hb hclock hpos hasked ⟨hchanged, hlast⟩
  · next hsame =>
    -- the cache was loaded from the last store there is
    obtain ⟨k, hstored, hk⟩ := hb.version _ (not_not.mp hsame)
    obtain ⟨w, hw, -⟩ := Option.map_eq_some_iff.mp hstored
    have hlt := (List.getElem?_eq_some_iff.mp hw).1
    have hfresh : ∀ t ≤ s.clock, FreshAt delay s t :=
      fun t ht => ⟨ht, k, currentAt_last (by omega) hstored⟩
    have hsettled := settled_of_fresh hfresh (hlast.le.trans hbegun) hb.check
    have hreading : PhaseInv cfg delay s l.asked .reading := ⟨hsettled, hfresh _ (by linarith)⟩
    exact goto_unlocked_inv hdelay hb hclock hpos hasked hreading s.loadLock none

omit hpos in
theorem answer_inv (hphase : PhaseInv cfg delay s l.asked .reading) :
    (s.answer i l (entryOf s.cache l.keyHash)).Inv cfg delay := by
  obtain ⟨hsettled, -, k, hk⟩ := hphase
  have hkeeps : Keeps delay s (s.answer i l (entryOf s.cache l.keyHash)) :=
    ⟨rfl, rfl, rfl, le_rfl, le_rfl, fun _ _ _ _ h => h, .inl rfl⟩
  refine ⟨⟨hb.stored, hb.check, hb.attempt, hb.version, hb.pending, ?_⟩, hclock,
    fun _ => hkeeps.settled hdelay hsettled hb.check, fun j m hj => ?_⟩
  · intro a ha
    rcases List.mem_cons.mp ha with rfl | ha
    · exact ⟨hasked, k, s.cache, hk, rfl⟩
    · exact hb.answers a ha
  · obtain rfl := Subsingleton.elim i j
    cases (Function.update_self (β := fun _ => Option Lookup) ..).symm.trans hj

theorem readEntry_inv (hphase : PhaseInv cfg delay s l.asked .reading) :
    (s.readEntry i l).Inv cfg delay := by
  unfold State.readEntry
  split
  · next entry hentry =>
    rw [← hentry]
    exact answer_inv hdelay hb hclock hasked hphase
  · exact goto_inv hdelay hb hclock hpos hasked hphase

/-- Whatever a lookup does next, with its calls answered. -/
theorem advance_inv (hinterval : 0 ≤ cfg.checkInterval)
    (hphase : PhaseInv cfg delay s l.asked l.phase)
    (hread : ∀ readAt ∈ l.phase.readAt?, s.clock - readAt ≤ delay)
    (hs : s.advance cfg i l true = some s') : s'.Inv cfg delay := by
  unfold State.advance at hs
  split at hs
  · next heq =>
    rw [heq] at hphase
    cases hs
    exact begin_inv hdelay hb hclock hpos hasked hphase
  · next why heq =>
    rw [heq] at hphase
    split at hs
    · cases hs
      exact beginReload_inv hdelay hb hclock hpos hasked hphase
    · cases hs
  · next why heq =>
    cases hs
    refine goto_inv hdelay hb hclock hpos hasked fun v hv => ?_
    have hlength : s.stores.length = v := by simpa [State.storeVersion, hb.stored] using hv
    exact hlength.ge
  · next why version heq =>
    rw [heq] at hphase
    cases hs
    exact fetch_inv hdelay hb hclock hpos hasked hphase
  · next why version data readAt heq =>
    rw [heq] at hphase
    cases hs
    exact install_inv hdelay hb hclock hpos hasked hinterval hphase
      (hread readAt (by rw [heq]; rfl))
  · next heq =>
    rw [heq] at hphase
    cases hs
    split
    · exact goto_inv hdelay hb hclock hpos hasked hphase
    · next hdue =>
      exact goto_inv hdelay hb hclock hpos hasked
        (notDue_phaseInv hinterval hphase (Bool.eq_false_iff.mpr hdue))
  · next heq =>
    rw [heq] at hphase
    split at hs
    · cases hs
      exact beginCheck_inv hdelay hb hclock hpos hasked hinterval hphase
    · cases hs
  · next heq =>
    rw [heq] at hphase
    cases hs
    exact checked_inv hdelay hb hclock hpos hasked hinterval hphase
  · next heq =>
    rw [heq] at hphase
    cases hs
    exact readEntry_inv hdelay hb hclock hpos hasked hphase
  · next heq =>
    rw [heq] at hphase
    cases hs
    exact answer_inv hdelay hb hclock hasked hphase

end Lookup

/-! ## 5. The steps of the rest of the world -/

/-- A step that no lookup takes: the lookups stay where they are. -/
theorem Keeps.inv (hdelay : 0 ≤ delay) (h : s.Inv cfg delay) (hkeeps : Keeps delay s s')
    (hlookups : s'.lookups = s.lookups) (hbase : s'.Base cfg delay) : s'.Inv cfg delay where
  base := hbase
  clock := h.clock.trans_le hkeeps.clock
  idle hnone := by
    rw [hlookups] at hnone
    exact hkeeps.settled hdelay (h.idle hnone) h.base.check
  active i l hl := by
    rw [hlookups] at hl
    obtain ⟨hpos, hasked, hphase⟩ := h.active i l hl
    exact ⟨hpos, hasked.trans hkeeps.clock, hkeeps.phaseInv hdelay h.base.check hasked hphase⟩

theorem tick_inv (hdelay : 0 ≤ delay) (h : s.Inv cfg delay) {d : ℚ} (hd : 0 ≤ d) :
    State.Inv cfg delay { s with clock := s.clock + d } := by
  have hle : s.clock ≤ s.clock + d := le_add_of_nonneg_right hd
  have hb := h.base
  have hkeeps : Keeps delay s { s with clock := s.clock + d } :=
    ⟨rfl, rfl, rfl, hle, le_rfl, fun _ _ _ _ hk => hk, .inl rfl⟩
  refine hkeeps.inv hdelay h rfl
    ⟨hb.stored, hb.check.trans hle, hb.attempt.trans hle, hb.version, fun own hown => ?_,
      fun a ha => ?_⟩
  · obtain ⟨htime, hk⟩ := hb.pending own hown
    exact ⟨htime.trans hle, hk⟩
  · obtain ⟨hasked, hfresh⟩ := hb.answers a ha
    exact ⟨hasked.trans hle, hfresh⟩

theorem append_keeps (s : State τ) (store : Store) : Keeps delay s (s.append store) := by
  refine ⟨rfl, rfl, rfl, le_rfl, ?_, fun _ _ _ hx hk => hk.append hx, .inl rfl⟩
  rw [State.append, List.length_append]
  exact Nat.le_add_right _ _

/-- A written store is the last one, and those before it were current until now. -/
theorem append_base (hdelay : 0 ≤ delay) (hinterval : 0 ≤ cfg.checkInterval)
    (hb : s.Base cfg delay) (store : Store) : (s.append store).Base cfg delay where
  stored := List.append_ne_nil_of_right_ne_nil _ (List.cons_ne_nil _ _)
  check := hb.check
  attempt := hb.attempt
  version v hv := by
    obtain ⟨k, hstored, hk⟩ := hb.version v hv
    obtain ⟨w, hw, -⟩ := Option.map_eq_some_iff.mp hstored
    have hlt := (List.getElem?_eq_some_iff.mp hw).1
    refine ⟨k, ?_, hk⟩
    rw [State.append, List.getElem?_append_left hlt]
    exact hstored
  pending own hown := by
    obtain ⟨htime, k, hk, hnumber⟩ := hb.pending own hown
    exact ⟨htime, k, hk.append htime, hnumber⟩
  answers a ha := by
    obtain ⟨hasked, hfresh⟩ := hb.answers a ha
    exact ⟨hasked, hfresh.mono fun x _ _ hx hk => hk.append (show x ≤ s.clock by linarith)⟩

theorem persist_inv (hdelay : 0 ≤ delay) (hinterval : 0 ≤ cfg.checkInterval)
    (h : s.Inv cfg delay) (store : Store) :
    State.Inv cfg delay { s.append store with
      pending := some ⟨s.clock, store, s.stores.length + 1⟩ } := by
  have hb := append_base hdelay hinterval h.base store
  have ha : Keeps delay s (s.append store) := append_keeps s store
  have hkeeps : Keeps delay s { s.append store with
      pending := some ⟨s.clock, store, s.stores.length + 1⟩ } :=
    ⟨rfl, rfl, rfl, le_rfl, ha.stores, ha.current, .inl rfl⟩
  refine hkeeps.inv hdelay h rfl
    ⟨hb.stored, hb.check, hb.attempt, hb.version, ?_, hb.answers⟩
  rintro own ⟨⟩
  refine ⟨le_rfl, s.stores.length, currentAt_last ?_ ?_, rfl⟩
  · exact (@List.length_append _ s.stores [⟨s.clock, store⟩]).symm
  · rw [State.append, List.getElem?_concat_length]
    rfl

theorem refresh_inv (hdelay : 0 ≤ delay) (h : s.Inv cfg delay) {own : Pending}
    (hown : s.pending = some own) (htime : s.clock - own.time ≤ delay)
    (hversion : ∀ version, s.cacheVersion = some version → version ≤ own.number) :
    State.Inv cfg delay { s with pending := none, cache := own.store, loadedAt := s.clock } := by
  have hb := h.base
  obtain ⟨-, k, hk, hnumber⟩ := hb.pending own hown
  have hkeeps : Keeps delay s
      { s with pending := none, cache := own.store, loadedAt := s.clock } :=
    ⟨rfl, rfl, rfl, le_rfl, le_rfl, fun _ _ _ _ hk => hk,
      .inr fun t ht => ⟨ht, k, hk.mono (by linarith)⟩⟩
  refine hkeeps.inv hdelay h rfl
    ⟨hb.stored, hb.check, hb.attempt, fun v hv => ⟨k, hk.stored, ?_⟩, by simp, hb.answers⟩
  rw [← hnumber]
  exact hversion v hv

/-! ## 6. Quiet runs -/

variable [DecidableEq τ] [Subsingleton τ]

theorem ask_inv (hdelay : 0 ≤ delay) (h : s.Inv cfg delay) {i : τ} (hi : s.lookups i = none)
    (keyHash : String) : (s.goto i ⟨keyHash, s.clock, .begun⟩ .begun).Inv cfg delay := by
  have hnone : ∀ j, s.lookups j = none := fun j => Subsingleton.elim i j ▸ hi
  exact goto_inv (l := ⟨keyHash, s.clock, .begun⟩) hdelay h.base h.clock h.clock le_rfl
    (h.idle hnone)

theorem step_inv (hdelay : 0 ≤ delay) (hinterval : 0 ≤ cfg.checkInterval) {label : Label τ}
    (h : s.Inv cfg delay) (hquiet : Quiet delay s label) (hs : step cfg s label = some s') :
    s'.Inv cfg delay := by
  cases label with
  | tick d =>
    simp only [step, Option.ite_none_right_eq_some, Option.some.injEq] at hs
    rw [← hs.2]
    exact tick_inv hdelay h hs.1
  | write store =>
    cases hs
    exact (append_keeps s store).inv hdelay h rfl (append_base hdelay hinterval h.base store)
  | persist store =>
    simp only [step, Option.ite_none_right_eq_some, Option.some.injEq] at hs
    rw [← hs.2]
    exact persist_inv hdelay hinterval h store
  | refresh =>
    obtain ⟨own, hown, rfl⟩ := Option.map_eq_some_iff.mp hs
    obtain ⟨htime, hversion⟩ := hquiet own hown
    exact refresh_inv hdelay h hown htime hversion
  | ask i keyHash =>
    simp only [step] at hs
    split at hs
    · cases hs
    · next hi =>
      cases hs
      exact ask_inv hdelay h hi keyHash
  | advance i answered =>
    obtain ⟨l, hl, hadv⟩ := Option.bind_eq_some_iff.mp hs
    obtain ⟨rfl, hread⟩ := hquiet
    obtain ⟨hpos, hasked, hphase⟩ := h.active i l hl
    exact advance_inv hdelay h.base h.clock hpos hasked hinterval hphase (hread l hl) hadv
  | timeout i => cases hquiet

omit [DecidableEq τ] [Subsingleton τ] in
theorem start_inv {clock : ℚ} (hclock : 0 < clock) {stores : List Written} (hstores : stores ≠ []) :
    (State.start τ clock stores).Inv cfg delay where
  base := by
    refine ⟨hstores, hclock.le, hclock.le, ?_, ?_, ?_⟩
    · rintro _ ⟨⟩
    · rintro _ ⟨⟩
    · rintro _ ⟨⟩
  clock := hclock
  idle _ := ⟨le_rfl, fun hne => absurd rfl hne, fun hwarm => by cases hwarm⟩
  active _ _ hl := by cases hl

/-- **A changed key is seen within the check interval.**  With lookups one at a time and the store
    answering, whatever this instance and others write in between: the entry that a lookup
    returns, or its lack, is that of a store which was still current one check interval, and the
    delay, before the lookup began. -/
theorem answers_fresh (hdelay : 0 ≤ delay) (hinterval : 0 ≤ cfg.checkInterval) {clock : ℚ}
    (hclock : 0 < clock) {stores : List Written} (hstores : stores ≠ []) {labels : List (Label τ)}
    (hquiet : AllSteps (step cfg) (Quiet delay) (State.start τ clock stores) labels)
    (hrun : exec (step cfg) (State.start τ clock stores) labels = some s) :
    ∀ a ∈ s.answers, ∃ (k : ℕ) (store : Store),
      (s.stores[k]?).map Written.store = some store ∧ a.entry = entryOf store a.keyHash ∧
      ∀ (j : ℕ) (w : Written), k < j → s.stores[j]? = some w →
        a.asked - cfg.checkInterval - delay ≤ w.time := by
  have halways := always_of_allSteps (P := State.Inv cfg delay)
    (fun _ _ _ h hok hs => step_inv hdelay hinterval h hok hs) (start_inv hclock hstores) hquiet
  intro a ha
  obtain ⟨-, k, store, hk, hentry⟩ := (halways.last hrun).base.answers a ha
  exact ⟨k, store, hk.stored, hentry, hk.later⟩

/-! ## 7. A revocation -/

/-- The key is looked up, removed by another instance, and looked up twice more: two seconds
    later, when no check is due, and eight seconds later, when one is. -/
def revocation : List (Label Unit) :=
  [.ask () "h"] ++ moves 7 ++ [.write ∅, .tick 2, .ask () "h"] ++ moves 3 ++
    [.tick 6, .ask () "h"] ++ moves 11

theorem answers_fresh_revocation :
    ∃ s, exec (step sampleSettings) sampleStart revocation = some s ∧
      s.answers.map Answer.entry = [none, some (.str "alice"), some (.str "alice")] ∧
      ∀ a ∈ s.answers, ∃ (k : ℕ) (store : Store),
        (s.stores[k]?).map Written.store = some store ∧ a.entry = entryOf store a.keyHash ∧
        ∀ (j : ℕ) (w : Written), k < j → s.stores[j]? = some w → a.asked - 5 - 0 ≤ w.time := by
  have hrun : (exec (step sampleSettings) sampleStart revocation).map
      (fun s => s.answers.map Answer.entry) =
        some [none, some (.str "alice"), some (.str "alice")] := by decide +kernel
  obtain ⟨s, hs, hanswers⟩ := Option.map_eq_some_iff.mp hrun
  have hquiet : AllSteps (step sampleSettings) (Quiet 0) sampleStart revocation := by
    decide +kernel
  exact ⟨s, hs, hanswers, answers_fresh le_rfl (by decide) (by decide) (by simp) hquiet hs⟩

end TokenProxy.KeyCache
