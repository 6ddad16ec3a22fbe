/-
  TokenProxy/KeyCachePacing.lean
  ==============================
  **How often the key cache calls its store.**

  However many lookups run at once: one of them at most loads the keys and one at most checks the
  store's version; two checks are an interval apart; a reload for a stale cache keeps an interval
  from the load before it, and so does a reload for a missing key from the last one of its kind.

  A lookup tests the time of the last check, or of the last load, before it waits for the lock.
  What carries over to the time after the wait (`PhasePace`): either the test still holds, or
  another lookup's call began after this lookup did, and then this one makes none.
-/
import TokenProxy.KeyCache

namespace TokenProxy.KeyCache

open Execution KeyStore

variable {τ : Type}

/-! ## 1. Locks -/

/-- In `_load_key_cache`. -/
def Phase.loads : Phase → Bool
  | .versioning _ | .fetching _ _ | .fetched _ _ _ _ => true
  | _ => false

/-- In `_check_store_version`, past its lock. -/
def Phase.checks : Phase → Bool
  | .asking => true
  | .queued why | .versioning why | .fetching why _ | .fetched why _ _ _ => why.isChange
  | _ => false

/-- Each lock is held by the lookup that is where it is taken. -/
structure State.Locked (s : State τ) : Prop where
  load : ∀ i, s.loadLock = some i ↔ ∃ l ∈ s.lookups i, l.phase.loads = true
  version : ∀ i, s.versionLock = some i ↔ ∃ l ∈ s.lookups i, l.phase.checks = true

/-! ## 2. Intervals -/

/-- What a lookup that waits for a lock knows of the last call. -/
def PhasePace (cfg : Settings) (s : State τ) (asked : ℚ) : Phase → Prop
  | .queued .stale =>
    asked ≤ s.lastLoadAttempt ∨ cfg.missInterval ≤ asked - s.lastLoadAttempt
  | .checkQueued =>
    asked ≤ s.lastVersionCheck ∨ cfg.checkInterval ≤ asked - s.lastVersionCheck
  | _ => True

/-- The one load was begun this long after the other. -/
structure Attempt.After (cfg : Settings) (new old : Attempt) : Prop where
  later : old.begun < new.begun
  stale : new.why = .stale → old.begun + cfg.missInterval ≤ new.begun
  missed : new.why = .missed → old.why = .missed → old.asked + cfg.missInterval ≤ new.asked

/-- The log of the checks is spaced, and no entry is later than the times that the tests look
    at. -/
structure ChecksLogged (cfg : Settings) (checks : List ℚ) (last clock : ℚ) : Prop where
  spaced : checks.Pairwise fun new old => old + cfg.checkInterval ≤ new
  last : ∀ c ∈ checks, c ≤ last ∧ c ≤ clock

/-- And so is the log of the loads. -/
structure LoadsLogged (cfg : Settings) (attempts : List Attempt) (last lastForced : ℚ) :
    Prop where
  spaced : attempts.Pairwise (Attempt.After cfg)
  last : ∀ a ∈ attempts, a.begun ≤ last
  lastForced : ∀ a ∈ attempts, a.why = .missed → a.asked ≤ lastForced

structure State.Orderly (cfg : Settings) (s : State τ) : Prop where
  locked : s.Locked
  checks : ChecksLogged cfg s.checks s.lastVersionCheck s.clock
  loads : 0 ≤ cfg.missInterval →
    LoadsLogged cfg s.attempts s.lastLoadAttempt s.lastForcedReload
  paced : ∀ i, ∀ l ∈ s.lookups i, l.asked ≤ s.clock ∧ PhasePace cfg s l.asked l.phase

variable {cfg : Settings} {s s' : State τ}

/-- The last calls are as they were, or have just begun. -/
theorem PhasePace.mono {asked : ℚ} {phase : Phase} (hasked : asked ≤ s.clock)
    (hload : s'.lastLoadAttempt = s.lastLoadAttempt ∨ s'.lastLoadAttempt = s.clock)
    (hcheck : s'.lastVersionCheck = s.lastVersionCheck ∨ s'.lastVersionCheck = s.clock)
    (h : PhasePace cfg s asked phase) : PhasePace cfg s' asked phase := by
  have hstale : asked ≤ s.lastLoadAttempt ∨ cfg.missInterval ≤ asked - s.lastLoadAttempt →
      asked ≤ s'.lastLoadAttempt ∨ cfg.missInterval ≤ asked - s'.lastLoadAttempt := by
    rcases hload with hload | hload <;> rw [hload]
    · exact id
    · exact fun _ => .inl hasked
  have hdue : asked ≤ s.lastVersionCheck ∨ cfg.checkInterval ≤ asked - s.lastVersionCheck →
      asked ≤ s'.lastVersionCheck ∨ cfg.checkInterval ≤ asked - s'.lastVersionCheck := by
    rcases hcheck with hcheck | hcheck <;> rw [hcheck]
    · exact id
    · exact fun _ => .inl hasked
  cases phase with
  | queued why =>
    cases why with
    | stale => exact hstale h
    | cold => trivial
    | changed version => trivial
    | missed => trivial
  | checkQueued => exact hdue h
  | begun => trivial
  | versioning why => trivial
  | fetching why version => trivial
  | fetched why version data readAt => trivial
  | checkDue => trivial
  | asking => trivial
  | reading => trivial
  | rereading => trivial

/-! ## 3. One lookup moves -/

section Move

variable [DecidableEq τ] {i : τ} {l : Lookup} {next : Option Lookup}

/-- A lock goes from `old` to `new`, and the lookup `i` holds it now or not; for the others nothing
    changes. -/
structure Passes (i : τ) (holds : Prop) (old new : Option τ) : Prop where
  mine : new = some i ↔ holds
  others : ∀ j, j ≠ i → (new = some j ↔ old = some j)

omit [DecidableEq τ] in
theorem Passes.same {old : Option τ} {holds : Prop} (h : old = some i ↔ holds) :
    Passes i holds old old :=
  ⟨h, fun _ _ => Iff.rfl⟩

omit [DecidableEq τ] in
theorem Passes.taken {old : Option τ} {holds : Prop} (h : old = none) (hholds : holds) :
    Passes i holds old (some i) :=
  ⟨iff_of_true rfl hholds, fun j hj => by simp [h, hj.symm]⟩

omit [DecidableEq τ] in
theorem Passes.released {old : Option τ} {holds : Prop} (h : old = some i) (hholds : ¬ holds) :
    Passes i holds old none :=
  ⟨iff_of_false (by simp) hholds, fun j hj => by simp [h, hj.symm]⟩

omit [DecidableEq τ] in
theorem Passes.congr {old new : Option τ} {p q : Prop} (h : Passes i p old new) (hpq : p ↔ q) :
    Passes i q old new :=
  ⟨h.mine.trans hpq, h.others⟩

/-- Who holds a lock after a lookup has moved, if the lock is held in the phases of this kind. -/
theorem Passes.holder {kind : Phase → Bool} {old new : Option τ}
    (h : Passes i (∃ l ∈ next, kind l.phase = true) old new)
    (hold : ∀ j, old = some j ↔ ∃ l ∈ s.lookups j, kind l.phase = true)
    (hlookups : s'.lookups = Function.update s.lookups i next) (j : τ) :
    new = some j ↔ ∃ l ∈ s'.lookups j, kind l.phase = true := by
  rw [hlookups]
  by_cases hj : j = i
  · subst hj
    rw [Function.update_self]
    exact h.mine
  · rw [Function.update_of_ne hj]
    exact (h.others j hj).trans (hold j)

/-- What is left to show when a lookup moves: its locks, the logs, and its own pace. -/
theorem State.Orderly.move (h : s.Orderly cfg)
    (hlookups : s'.lookups = Function.update s.lookups i next) (hclock : s'.clock = s.clock)
    (hattempt : s'.lastLoadAttempt = s.lastLoadAttempt ∨ s'.lastLoadAttempt = s.clock)
    (hcheck : s'.lastVersionCheck = s.lastVersionCheck ∨ s'.lastVersionCheck = s.clock)
    (hload : Passes i (∃ l ∈ next, l.phase.loads = true) s.loadLock s'.loadLock)
    (hversion : Passes i (∃ l ∈ next, l.phase.checks = true) s.versionLock s'.versionLock)
    (hchecks : ChecksLogged cfg s'.checks s'.lastVersionCheck s'.clock)
    (hloads : 0 ≤ cfg.missInterval →
      LoadsLogged cfg s'.attempts s'.lastLoadAttempt s'.lastForcedReload)
    (hpace : ∀ m ∈ next, m.asked ≤ s.clock ∧ PhasePace cfg s' m.asked m.phase) :
    s'.Orderly cfg where
  locked := ⟨hload.holder h.locked.load hlookups, hversion.holder h.locked.version hlookups⟩
  checks := hchecks
  loads := hloads
  paced j m hm := by
    rw [hlookups] at hm
    rw [hclock]
    by_cases hj : j = i
    · subst hj
      rw [Function.update_self] at hm
      exact hpace m hm
    · rw [Function.update_of_ne hj] at hm
      obtain ⟨hasked, hphase⟩ := h.paced j m hm
      exact ⟨hasked, hphase.mono hasked hattempt hcheck⟩

/-- A lookup that takes no lock and gives none back. -/
theorem State.Orderly.goto (h : s.Orderly cfg) (hl : s.lookups i = some l) {phase : Phase}
    (hloads : phase.loads = l.phase.loads) (hchecks : phase.checks = l.phase.checks)
    (hpace : PhasePace cfg s l.asked phase) : (s.goto i l phase).Orderly cfg := by
  obtain ⟨hasked, -⟩ := h.paced i l hl
  refine h.move rfl rfl (.inl rfl) (.inl rfl) (.same ?_) (.same ?_) h.checks h.loads ?_
  · simp [h.locked.load i, hl, hloads]
  · simp [h.locked.version i, hl, hchecks]
  · rintro _ ⟨⟩
    refine ⟨hasked, ?_⟩
    exact hpace.mono hasked (.inl rfl) (.inl rfl)

/-- A reload is over: the check that it was for, if it was for one, gives its lock back. -/
theorem State.Orderly.resume (h : s.Orderly cfg) (hl : s.lookups i = some l) {why : Why}
    (hchecks : l.phase.checks = why.isChange) (hlookups : s'.lookups = s.lookups)
    (hclock : s'.clock = s.clock) (hattempt : s'.lastLoadAttempt = s.lastLoadAttempt)
    (hcheck : s'.lastVersionCheck = s.lastVersionCheck ∨ s'.lastVersionCheck = s.clock)
    (hload : Passes i False s.loadLock s'.loadLock) (hversion : s'.versionLock = s.versionLock)
    (hlogged : ChecksLogged cfg s'.checks s'.lastVersionCheck s'.clock)
    (hloaded : 0 ≤ cfg.missInterval →
      LoadsLogged cfg s'.attempts s'.lastLoadAttempt s'.lastForcedReload) :
    (s'.resume i l why).Orderly cfg := by
  obtain ⟨hasked, -⟩ := h.paced i l hl
  have hholds : s.versionLock = some i ↔ why.isChange = true := by
    simp [h.locked.version i, hl, hchecks]
  refine h.move (congrArg (Function.update · i _) hlookups) hclock (.inl hattempt) hcheck ?_ ?_
    hlogged hloaded ?_
  · have hnext : why.next.loads = false := by cases why <;> rfl
    exact hload.congr (by simp [hnext])
  · have hnext : why.next.checks = false := by cases why <;> rfl
    have hpasses : Passes i False s.versionLock
        (if why.isChange then none else s'.versionLock) := by
      rw [hversion]
      split
      · next hchange => exact .released (hholds.mpr hchange) id
      · next hkept => exact .same (iff_of_false (fun hheld => hkept (hholds.mp hheld)) id)
    exact hpasses.congr (by simp [hnext])
  · rintro _ ⟨⟩
    refine ⟨hasked, ?_⟩
    cases why <;> trivial

/-! ## 4. The steps of a lookup -/

theorem beginReload_orderly (h : s.Orderly cfg) (hl : s.lookups i = some l) {why : Why}
    (hphase : l.phase = .queued why) (hfree : s.loadLock = none) :
    (s.beginReload cfg i l why).Orderly cfg := by
  obtain ⟨hasked, hpace⟩ := h.paced i l hl
  have hchecks : l.phase.checks = why.isChange := by rw [hphase]; rfl
  unfold State.beginReload
  split
  · next hreloads =>
    simp only [State.reloads, Bool.and_eq_true, Bool.or_eq_true, decide_eq_true_eq] at hreloads
    obtain ⟨⟨-, hlast⟩, hforced⟩ := hreloads
    refine h.move rfl rfl (.inr rfl) (.inl rfl) (.taken hfree ⟨_, rfl, rfl⟩) (.same ?_)
      h.checks ?_ ?_
    · have hsame : (Phase.versioning why).checks = l.phase.checks := hchecks.symm
      simp [h.locked.version i, hl, hsame]
    · intro hmiss
      have hlogged := h.loads hmiss
      refine ⟨List.pairwise_cons.mpr ⟨fun old hold => ?_, hlogged.spaced⟩, ?_, ?_⟩
      · have hbefore := hlogged.last old hold
        refine ⟨by linarith, ?_, ?_⟩
        · rintro rfl
          rw [hphase] at hpace
          rcases hpace with hpace | hpace
          · linarith
          · change old.begun + cfg.missInterval ≤ s.clock
            linarith
        · rintro rfl hmissed
          have hafter := hlogged.lastForced old hold hmissed
          have hwait := hforced.resolve_left (by simp)
          change old.asked + cfg.missInterval ≤ l.asked
          linarith
      · rintro a ha
        rcases List.mem_cons.mp ha with rfl | ha
        · exact le_rfl
        · have hbefore := hlogged.last a ha
          change a.begun ≤ s.clock
          linarith
      · intro a ha hmissed
        change a.asked ≤ if why = Why.missed then l.asked else s.lastForcedReload
        split
        · next hforces =>
          rcases List.mem_cons.mp ha with rfl | ha
          · exact le_rfl
          · have hafter := hlogged.lastForced a ha hmissed
            have hwait := hforced.resolve_left (not_not.mpr hforces)
            linarith
        · next hother =>
          rcases List.mem_cons.mp ha with rfl | ha
          · exact absurd hmissed hother
          · exact hlogged.lastForced a ha hmissed
    · rintro _ ⟨⟩
      exact ⟨hasked, trivial⟩
  · exact h.resume hl hchecks rfl rfl rfl (.inl rfl)
      (.same (by simp [h.locked.load i, hl, hphase, Phase.loads])) rfl h.checks h.loads

theorem beginCheck_orderly (h : s.Orderly cfg) (hl : s.lookups i = some l)
    (hphase : l.phase = .checkQueued) (hfree : s.versionLock = none) :
    (s.beginCheck i l).Orderly cfg := by
  obtain ⟨hasked, hpace⟩ := h.paced i l hl
  unfold State.beginCheck
  split
  · exact h.goto hl (by rw [hphase]; rfl) (by rw [hphase]; rfl) trivial
  · next hdue =>
    have hwait : cfg.checkInterval ≤ l.asked - s.lastVersionCheck := by
      rw [hphase] at hpace
      exact hpace.resolve_left hdue
    refine h.move rfl rfl (.inl rfl) (.inr rfl) (.same ?_) (.taken hfree ⟨_, rfl, rfl⟩) ?_
      h.loads ?_
    · simp [h.locked.load i, hl, hphase, Phase.loads]
    · refine ⟨List.pairwise_cons.mpr ⟨fun old hold => ?_, h.checks.spaced⟩, ?_⟩
      · have hbefore := (h.checks.last old hold).1
        linarith
      · intro c hc
        rcases List.mem_cons.mp hc with rfl | hc
        · exact ⟨le_rfl, le_rfl⟩
        · have hclock := (h.checks.last c hc).2
          exact ⟨hclock, hclock⟩
    · rintro _ ⟨⟩
      exact ⟨hasked, trivial⟩

/-- A check whose store has not changed, or does not answer, gives the lock back. -/
theorem checkOver_orderly (h : s.Orderly cfg) (hl : s.lookups i = some l)
    (hphase : l.phase = .asking) :
    ({ s with versionLock := none }.goto i l .reading).Orderly cfg := by
  obtain ⟨hasked, -⟩ := h.paced i l hl
  refine h.move rfl rfl (.inl rfl) (.inl rfl) (.same ?_) (.released ?_ (by simp [Phase.checks]))
    h.checks h.loads ?_
  · simp [h.locked.load i, hl, hphase, Phase.loads]
  · exact (h.locked.version i).mpr ⟨l, hl, by rw [hphase]; rfl⟩
  · rintro _ ⟨⟩
    exact ⟨hasked, trivial⟩

theorem checked_orderly (h : s.Orderly cfg) (hl : s.lookups i = some l)
    (hphase : l.phase = .asking) (answered : Bool) : (s.checked i l answered).Orderly cfg := by
  have hover := checkOver_orderly h hl hphase
  unfold State.checked
  split
  · split
    · exact h.goto hl (by rw [hphase]; rfl) (by rw [hphase]; rfl) trivial
    · exact hover
  · exact hover

/-- A lookup that has loaded, with or without success, gives the lock back. -/
theorem loadOver_orderly (h : s.Orderly cfg) (hl : s.lookups i = some l) {why : Why}
    (hloads : l.phase.loads = true) (hchecks : l.phase.checks = why.isChange)
    (hlookups : s'.lookups = s.lookups) (hclock : s'.clock = s.clock)
    (hattempt : s'.lastLoadAttempt = s.lastLoadAttempt)
    (hcheck : s'.lastVersionCheck = s.lastVersionCheck ∨ s'.lastVersionCheck = s.clock)
    (hlock : s'.loadLock = none) (hversion : s'.versionLock = s.versionLock)
    (hlogged : ChecksLogged cfg s'.checks s'.lastVersionCheck s'.clock)
    (hloaded : 0 ≤ cfg.missInterval →
      LoadsLogged cfg s'.attempts s'.lastLoadAttempt s'.lastForcedReload) :
    (s'.resume i l why).Orderly cfg := by
  have hheld : s.loadLock = some i := (h.locked.load i).mpr ⟨l, hl, hloads⟩
  have hpass : Passes i False s.loadLock s'.loadLock := hlock ▸ .released hheld id
  exact h.resume hl hchecks hlookups hclock hattempt hcheck hpass hversion hlogged hloaded

theorem fetch_orderly (h : s.Orderly cfg) (hl : s.lookups i = some l) {why : Why}
    {version : Option ℕ} (hphase : l.phase = .fetching why version) (answered : Bool) :
    (s.fetch i l why version answered).Orderly cfg := by
  have hfailed : (s.loadFailed i l why).Orderly cfg :=
    loadOver_orderly h hl (by rw [hphase]; rfl) (by rw [hphase]; rfl) rfl rfl rfl (.inl rfl) rfl
      rfl h.checks h.loads
  unfold State.fetch
  split
  · split
    · exact h.goto hl (by rw [hphase]; rfl) (by rw [hphase]; rfl) trivial
    · exact hfailed
  · exact hfailed

theorem install_orderly (h : s.Orderly cfg) (hl : s.lookups i = some l) {why : Why}
    {version : Option ℕ} {data : Store} {readAt : ℚ}
    (hphase : l.phase = .fetched why version data readAt) :
    (s.install i l why version data).Orderly cfg := by
  refine loadOver_orderly h hl (by rw [hphase]; rfl) (by rw [hphase]; rfl) rfl rfl rfl (.inr rfl)
    rfl rfl ⟨h.checks.spaced, fun c hc => ?_⟩ h.loads
  have hclock := (h.checks.last c hc).2
  exact ⟨hclock, hclock⟩

theorem answer_orderly (h : s.Orderly cfg) (hl : s.lookups i = some l)
    (hloads : l.phase.loads = false) (hchecks : l.phase.checks = false) (entry : Option Json) :
    (s.answer i l entry).Orderly cfg := by
  refine h.move rfl rfl (.inl rfl) (.inl rfl) (.same ?_) (.same ?_) h.checks h.loads (by simp)
  · simp [h.locked.load i, hl, hloads]
  · simp [h.locked.version i, hl, hchecks]

theorem begin_orderly (h : s.Orderly cfg) (hl : s.lookups i = some l) (hphase : l.phase = .begun) :
    (s.begin cfg i l).Orderly cfg := by
  unfold State.begin
  split
  · exact h.goto hl (by rw [hphase]; rfl) (by rw [hphase]; rfl) trivial
  · split
    · next hstale =>
      simp only [Bool.and_eq_true, decide_eq_true_eq] at hstale
      exact h.goto hl (by rw [hphase]; rfl) (by rw [hphase]; rfl) (.inr hstale.2)
    · exact h.goto hl (by rw [hphase]; rfl) (by rw [hphase]; rfl) trivial

theorem checkDue_orderly (h : s.Orderly cfg) (hl : s.lookups i = some l)
    (hphase : l.phase = .checkDue) :
    (s.goto i l (if s.versionCheckDue cfg l.asked then .checkQueued else .reading)).Orderly
      cfg := by
  split
  · next hdue =>
    simp only [State.versionCheckDue, Bool.and_eq_true, decide_eq_true_eq] at hdue
    exact h.goto hl (by rw [hphase]; rfl) (by rw [hphase]; rfl) (.inr hdue.2)
  · exact h.goto hl (by rw [hphase]; rfl) (by rw [hphase]; rfl) trivial

theorem advance_orderly (h : s.Orderly cfg)
    (hl : s.lookups i = some l) {answered : Bool} (hs : s.advance cfg i l answered = some s') :
    s'.Orderly cfg := by
  unfold State.advance at hs
  split at hs
  · next hphase =>
    cases hs
    exact begin_orderly h hl hphase
  · next why hphase =>
    split at hs
    · next hfree =>
      cases hs
      exact beginReload_orderly h hl hphase hfree
    · cases hs
  · next why hphase =>
    cases hs
    exact h.goto hl (by rw [hphase]; rfl) (by rw [hphase]; rfl) trivial
  · next why version hphase =>
    cases hs
    exact fetch_orderly h hl hphase answered
  · next why version data readAt hphase =>
    cases hs
    exact install_orderly h hl hphase
  · next hphase =>
    cases hs
    exact checkDue_orderly h hl hphase
  · next hphase =>
    split at hs
    · next hfree =>
      cases hs
      exact beginCheck_orderly h hl hphase hfree
    · cases hs
  · next hphase =>
    cases hs
    exact checked_orderly h hl hphase answered
  · next hphase =>
    cases hs
    unfold State.readEntry
    split
    · exact answer_orderly h hl (by rw [hphase]; rfl) (by rw [hphase]; rfl) _
    · exact h.goto hl (by rw [hphase]; rfl) (by rw [hphase]; rfl) trivial
  · next hphase =>
    cases hs
    exact answer_orderly h hl (by rw [hphase]; rfl) (by rw [hphase]; rfl) _

theorem timeout_orderly (h : s.Orderly cfg) (hl : s.lookups i = some l)
    (hs : s.timeout i l = some s') : s'.Orderly cfg := by
  unfold State.timeout at hs
  split at hs
  · next why hphase =>
    split at hs
    · cases hs
    · cases hs
      exact h.resume hl (by rw [hphase]; rfl) rfl rfl rfl (.inl rfl)
        (.same (by simp [h.locked.load i, hl, hphase, Phase.loads])) rfl h.checks
        h.loads
  · next hphase =>
    split at hs
    · cases hs
    · cases hs
      exact h.goto hl (by rw [hphase]; rfl) (by rw [hphase]; rfl) trivial
  · cases hs

end Move

/-! ## 5. Runs -/

/-- The rest of the world takes no lock and calls nothing. -/
theorem elsewhere_orderly (h : s.Orderly cfg) (hlookups : s'.lookups = s.lookups)
    (hload : s'.loadLock = s.loadLock) (hversion : s'.versionLock = s.versionLock)
    (hclock : s.clock ≤ s'.clock) (hchecked : s'.lastVersionCheck = s.lastVersionCheck)
    (hattempted : s'.lastLoadAttempt = s.lastLoadAttempt)
    (hforced : s'.lastForcedReload = s.lastForcedReload) (hchecks : s'.checks = s.checks)
    (hattempts : s'.attempts = s.attempts) : s'.Orderly cfg where
  locked := by
    constructor
    · rw [hload, hlookups]
      exact h.locked.load
    · rw [hversion, hlookups]
      exact h.locked.version
  checks := by
    rw [hchecks, hchecked]
    exact ⟨h.checks.spaced, fun c hc =>
      ⟨(h.checks.last c hc).1, (h.checks.last c hc).2.trans hclock⟩⟩
  loads := by
    rw [hattempts, hattempted, hforced]
    exact h.loads
  paced i l hl := by
    rw [hlookups] at hl
    obtain ⟨hasked, hpace⟩ := h.paced i l hl
    exact ⟨hasked.trans hclock, hpace.mono hasked (.inl hattempted) (.inl hchecked)⟩

variable [DecidableEq τ]

theorem ask_orderly (h : s.Orderly cfg) {i : τ} (hi : s.lookups i = none) (keyHash : String) :
    (s.goto i ⟨keyHash, s.clock, .begun⟩ .begun).Orderly cfg := by
  refine h.move rfl rfl (.inl rfl) (.inl rfl) (.same ?_) (.same ?_) h.checks h.loads ?_
  · simp [h.locked.load i, hi, Phase.loads]
  · simp [h.locked.version i, hi, Phase.checks]
  · rintro _ ⟨⟩
    exact ⟨le_rfl, trivial⟩

theorem step_orderly {label : Label τ} (h : s.Orderly cfg) (hs : step cfg s label = some s') :
    s'.Orderly cfg := by
  cases label with
  | tick d =>
    simp only [step, Option.ite_none_right_eq_some, Option.some.injEq] at hs
    rw [← hs.2]
    exact elsewhere_orderly h rfl rfl rfl (le_add_of_nonneg_right hs.1) rfl rfl rfl rfl rfl
  | write store =>
    cases hs
    exact elsewhere_orderly h rfl rfl rfl le_rfl rfl rfl rfl rfl rfl
  | persist store =>
    simp only [step, Option.ite_none_right_eq_some, Option.some.injEq] at hs
    rw [← hs.2]
    exact elsewhere_orderly h rfl rfl rfl le_rfl rfl rfl rfl rfl rfl
  | refresh =>
    obtain ⟨own, -, rfl⟩ := Option.map_eq_some_iff.mp hs
    exact elsewhere_orderly h rfl rfl rfl le_rfl rfl rfl rfl rfl rfl
  | ask i keyHash =>
    simp only [step] at hs
    split at hs
    · cases hs
    · next hi =>
      cases hs
      exact ask_orderly h hi keyHash
  | advance i answered =>
    obtain ⟨l, hl, hadv⟩ := Option.bind_eq_some_iff.mp hs
    exact advance_orderly h hl hadv
  | timeout i =>
    obtain ⟨l, hl, hto⟩ := Option.bind_eq_some_iff.mp hs
    exact timeout_orderly h hl hto

omit [DecidableEq τ] in
theorem start_orderly (clock : ℚ) (stores : List Written) :
    (State.start τ clock stores).Orderly cfg where
  locked := ⟨fun _ => by simp [State.start], fun _ => by simp [State.start]⟩
  checks := ⟨.nil, by simp [State.start]⟩
  loads _ := ⟨.nil, by simp [State.start], by simp [State.start]⟩
  paced i l hl := by cases hl

/-- **The store is called by one lookup at a time, and seldom.**  However lookups interleave and
    whatever fails: no two lookups load the keys at once, and no two check the version; checks are
    an interval apart, a reload of a stale cache comes an interval after any load before it, and a
    reload for a missing key an interval after the last one of its kind. -/
theorem store_calls_paced (hmiss : 0 ≤ cfg.missInterval) {clock : ℚ} {stores : List Written}
    {labels : List (Label τ)}
    (hrun : exec (step cfg) (State.start τ clock stores) labels = some s) :
    (∀ i j l m, s.lookups i = some l → s.lookups j = some m → l.phase.loads = true →
      m.phase.loads = true → i = j) ∧
    (∀ i j l m, s.lookups i = some l → s.lookups j = some m → l.phase.checks = true →
      m.phase.checks = true → i = j) ∧
    (s.checks.Pairwise fun new old => old + cfg.checkInterval ≤ new) ∧
    s.attempts.Pairwise (Attempt.After cfg) := by
  have h := exec_invariant (fun _ _ _ => step_orderly) (start_orderly clock stores) hrun
  refine ⟨fun i j l m hi hj hl hm => ?_, fun i j l m hi hj hl hm => ?_, h.checks.spaced,
    (h.loads hmiss).spaced⟩
  · have hheld := (h.locked.load i).mpr ⟨l, hi, hl⟩
    exact Option.some.inj (hheld.symm.trans ((h.locked.load j).mpr ⟨m, hj, hm⟩))
  · have hheld := (h.locked.version i).mpr ⟨l, hi, hl⟩
    exact Option.some.inj (hheld.symm.trans ((h.locked.version j).mpr ⟨m, hj, hm⟩))

/-- Two lookups of an unknown key, one after the other: the second makes no call. -/
theorem store_calls_paced_twice : ∃ s,
    exec (step sampleSettings) sampleStart
      ([.ask () "x"] ++ moves 9 ++ [.tick 1, .ask () "x"] ++ moves 5) = some s ∧
      s.attempts.map Attempt.begun = [1] ∧ s.attempts.Pairwise (Attempt.After sampleSettings) := by
  have hrun : (exec (step sampleSettings) sampleStart
      ([.ask () "x"] ++ moves 9 ++ [.tick 1, .ask () "x"] ++ moves 5)).map
        (fun s => s.attempts.map Attempt.begun) = some [1] := by decide +kernel
  obtain ⟨s, hs, hattempts⟩ := Option.map_eq_some_iff.mp hrun
  exact ⟨s, hs, hattempts, (store_calls_paced (by decide) hs).2.2.2⟩

/-! ## 6. Progress -/

/-- How many steps a lookup has left, at most. -/
def Phase.rank : Phase → ℕ
  | .rereading => 1
  | .fetched .missed _ _ _ => 2
  | .fetching .missed _ => 3
  | .versioning .missed => 4
  | .queued .missed => 5
  | .reading => 6
  | .fetched (.changed _) _ _ _ => 7
  | .fetching (.changed _) _ => 8
  | .versioning (.changed _) => 9
  | .queued (.changed _) => 10
  | .asking => 11
  | .checkQueued => 12
  | .checkDue => 13
  | .fetched _ _ _ _ => 14
  | .fetching _ _ => 15
  | .versioning _ => 16
  | .queued _ => 17
  | .begun => 18

def rankOf (l : Option Lookup) : ℕ := (l.map fun l => l.phase.rank).getD 0

/-- The lookup takes this step. -/
def Label.moves (i : τ) : Label τ → Bool
  | .advance j _ | .timeout j => decide (j = i)
  | _ => false

def Label.asks (i : τ) : Label τ → Bool
  | .ask j _ => decide (j = i)
  | _ => false

/-- The lookup `i`, and no other, moves, and has fewer than `n` steps left. -/
def Moves (s s' : State τ) (i : τ) (n : ℕ) : Prop :=
  ∃ next, s'.lookups = Function.update s.lookups i next ∧ rankOf next < n

section Rank

variable {i : τ} {l : Lookup}

/-- The phases of a reload, in order. -/
theorem rank_reload (why : Why) (version version' : Option ℕ) (data : Store) (readAt : ℚ) :
    why.next.rank < (Phase.fetched why version data readAt).rank ∧
      (Phase.fetched why version data readAt).rank < (Phase.fetching why version').rank ∧
      (Phase.fetching why version').rank < (Phase.versioning why).rank ∧
      (Phase.versioning why).rank < (Phase.queued why).rank := by
  cases why <;> simp [Phase.rank, Why.next]

theorem begin_moves : Moves s (s.begin cfg i l) i Phase.begun.rank := by
  unfold State.begin
  split
  · exact ⟨_, rfl, by simp [rankOf, Phase.rank]⟩
  · split <;> exact ⟨_, rfl, by simp [rankOf, Phase.rank]⟩

theorem beginReload_moves (why : Why) :
    Moves s (s.beginReload cfg i l why) i (Phase.queued why).rank := by
  obtain ⟨hnext, hfetched, hfetching, hversioning⟩ := rank_reload why none none ∅ 0
  unfold State.beginReload
  split
  · exact ⟨_, rfl, hversioning⟩
  · exact ⟨_, rfl, hnext.trans (hfetched.trans (hfetching.trans hversioning))⟩

theorem fetch_moves (why : Why) (version : Option ℕ) (answered : Bool) :
    Moves s (s.fetch i l why version answered) i (Phase.fetching why version).rank := by
  have hreload := rank_reload why version version
  have hfailed : Moves s (s.loadFailed i l why) i (Phase.fetching why version).rank :=
    ⟨_, rfl, (hreload ∅ 0).1.trans (hreload ∅ 0).2.1⟩
  unfold State.fetch
  split
  · split
    · exact ⟨_, rfl, (hreload _ _).2.1⟩
    · exact hfailed
  · exact hfailed

theorem beginCheck_moves : Moves s (s.beginCheck i l) i Phase.checkQueued.rank := by
  unfold State.beginCheck
  split <;> exact ⟨_, rfl, by simp [rankOf, Phase.rank]⟩

theorem checked_moves (answered : Bool) :
    Moves s (s.checked i l answered) i Phase.asking.rank := by
  unfold State.checked
  split
  · split <;> exact ⟨_, rfl, by simp [rankOf, Phase.rank]⟩
  · exact ⟨_, rfl, by simp [rankOf, Phase.rank]⟩

theorem readEntry_moves : Moves s (s.readEntry i l) i Phase.reading.rank := by
  unfold State.readEntry
  split <;> exact ⟨_, rfl, by simp [rankOf, Phase.rank]⟩

theorem advance_moves {answered : Bool} (hs : s.advance cfg i l answered = some s') :
    Moves s s' i l.phase.rank := by
  unfold State.advance at hs
  split at hs
  · next hphase =>
    cases hs
    exact hphase ▸ begin_moves
  · next why hphase =>
    split at hs
    · cases hs
      exact hphase ▸ beginReload_moves why
    · cases hs
  · next why hphase =>
    cases hs
    exact ⟨_, rfl, hphase ▸ (rank_reload why none _ ∅ 0).2.2.1⟩
  · next why version hphase =>
    cases hs
    exact hphase ▸ fetch_moves why version answered
  · next why version data readAt hphase =>
    cases hs
    exact ⟨_, rfl, hphase ▸ (rank_reload why version none data readAt).1⟩
  · next hphase =>
    cases hs
    refine ⟨_, rfl, ?_⟩
    rw [hphase]
    split <;> simp [rankOf, Phase.rank]
  · next hphase =>
    split at hs
    · cases hs
      exact hphase ▸ beginCheck_moves
    · cases hs
  · next hphase =>
    cases hs
    exact hphase ▸ checked_moves answered
  · next hphase =>
    cases hs
    exact hphase ▸ readEntry_moves
  · next hphase =>
    cases hs
    exact ⟨none, rfl, by simp [rankOf, hphase, Phase.rank]⟩

theorem timeout_moves (hs : s.timeout i l = some s') : Moves s s' i l.phase.rank := by
  unfold State.timeout at hs
  split at hs
  · next why hphase =>
    obtain ⟨hnext, hfetched, hfetching, hversioning⟩ := rank_reload why none none ∅ 0
    split at hs
    · cases hs
    · cases hs
      exact ⟨_, rfl, hphase ▸ hnext.trans (hfetched.trans (hfetching.trans hversioning))⟩
  · next hphase =>
    split at hs
    · cases hs
    · cases hs
      exact ⟨_, rfl, by simp [rankOf, hphase, Phase.rank]⟩
  · cases hs

/-- A step of the lookup `i` takes one from what it has left; only a new question adds to it. -/
theorem step_rank {label : Label τ} (hs : step cfg s label = some s') (i : τ) :
    (label.moves i).toNat + rankOf (s'.lookups i) ≤
      rankOf (s.lookups i) + 18 * (label.asks i).toNat := by
  have hmoves : ∀ (j : τ) (l : Lookup), s.lookups j = some l → Moves s s' j l.phase.rank →
      (decide (j = i)).toNat + rankOf (s'.lookups i) ≤ rankOf (s.lookups i) := by
    rintro j l hl ⟨next, hnext, hrank⟩
    rw [hnext]
    by_cases hj : j = i
    · subst hj
      rw [Function.update_self, hl, decide_eq_true rfl]
      change 1 + rankOf next ≤ l.phase.rank
      omega
    · rw [Function.update_of_ne (Ne.symm hj), decide_eq_false hj]
      simp
  cases label with
  | tick d =>
    simp only [step, Option.ite_none_right_eq_some, Option.some.injEq] at hs
    rw [← hs.2]
    simp [Label.moves]
  | write store =>
    cases hs
    simp [Label.moves, State.append]
  | persist store =>
    simp only [step, Option.ite_none_right_eq_some, Option.some.injEq] at hs
    rw [← hs.2]
    simp [Label.moves, State.append]
  | refresh =>
    obtain ⟨own, -, rfl⟩ := Option.map_eq_some_iff.mp hs
    simp [Label.moves]
  | ask j keyHash =>
    simp only [step] at hs
    split at hs
    · cases hs
    · next hj =>
      cases hs
      by_cases hji : j = i
      · subst hji
        rw [State.goto_self, Label.asks, decide_eq_true rfl]
        simp [rankOf, Phase.rank, Label.moves]
      · rw [State.goto_of_ne _ (Ne.symm hji)]
        simp [Label.moves]
  | advance j answered =>
    obtain ⟨l, hl, hadv⟩ := Option.bind_eq_some_iff.mp hs
    exact Nat.le_add_right_of_le (hmoves j l hl (advance_moves hadv))
  | timeout j =>
    obtain ⟨l, hl, hto⟩ := Option.bind_eq_some_iff.mp hs
    exact Nat.le_add_right_of_le (hmoves j l hl (timeout_moves hto))

theorem run_rank {labels : List (Label τ)} (hrun : exec (step cfg) s labels = some s') (i : τ) :
    labels.countP (Label.moves i) + rankOf (s'.lookups i) ≤
      rankOf (s.lookups i) + 18 * labels.countP (Label.asks i) := by
  induction labels generalizing s with
  | nil =>
    cases hrun
    simp
  | cons label labels ih =>
    rw [exec_cons] at hrun
    obtain ⟨m, hm, hrun⟩ := Option.bind_eq_some_iff.mp hrun
    have hstep := step_rank hm i
    have hrest := ih hrun
    rw [List.countP_cons, List.countP_cons]
    cases hmoves : label.moves i <;> cases hasks : label.asks i <;>
      simp only [hmoves, hasks, Bool.toNat_true, Bool.toNat_false, if_true, if_false,
        Bool.false_eq_true] at hstep ⊢ <;> omega

end Rank

/-- The lookup waits for no lock that is held. -/
structure Free (s : State τ) (phase : Phase) : Prop where
  load : ∀ why, phase = .queued why → s.loadLock = none
  version : phase = .checkQueued → s.versionLock = none

theorem step_isSome_of_free {i : τ} {l : Lookup} (hl : s.lookups i = some l)
    (hfree : Free s l.phase) (answered : Bool) :
    (step cfg s (.advance i answered)).isSome = true := by
  rw [step, hl, Option.bind_some, State.advance]
  split
  all_goals try rfl
  · next why hphase =>
    rw [if_pos (hfree.load why hphase)]
    rfl
  · next hphase =>
    rw [if_pos (hfree.version hphase)]
    rfl

omit [DecidableEq τ] in
/-- No deadlock: a lookup that waits for a lock waits for one that can move. -/
theorem exists_free (h : s.Locked) {i : τ} {l : Lookup} (hl : s.lookups i = some l) :
    ∃ j m, s.lookups j = some m ∧ Free s m.phase := by
  have hloads : ∀ j, s.loadLock = some j → ∃ j m, s.lookups j = some m ∧ Free s m.phase := by
    intro j hj
    obtain ⟨m, hm, hphase⟩ := (h.load j).mp hj
    exact ⟨j, m, hm, ⟨fun why hq => by simp [hq, Phase.loads] at hphase,
      fun hq => by simp [hq, Phase.loads] at hphase⟩⟩
  -- the lock of the loads is taken last: a lookup that does not wait for it holds up no other
  have hqueued : ∀ j m, s.lookups j = some m → m.phase ≠ .checkQueued →
      ∃ j m, s.lookups j = some m ∧ Free s m.phase := by
    intro j m hm hphase
    cases hlock : s.loadLock with
    | none => exact ⟨j, m, hm, ⟨fun _ _ => hlock, fun hq => absurd hq hphase⟩⟩
    | some k => exact hloads k hlock
  by_cases hphase : l.phase = .checkQueued
  · cases hlock : s.versionLock with
    | none =>
      exact ⟨i, l, hl, ⟨fun why hq => absurd (hphase.symm.trans hq) (by simp), fun _ => hlock⟩⟩
    | some k =>
      obtain ⟨m, hm, hchecks⟩ := (h.version k).mp hlock
      exact hqueued k m hm fun hq => by simp [hq, Phase.checks] at hchecks
  · exact hqueued i l hl hphase

/-- **Every lookup is answered.**  In any run a lookup takes at most 18 steps for each question; and
    while some lookup is under way there is one that can move, whether its call is answered or not,
    so waiting for the two locks never deadlocks. -/
theorem lookups_progress {clock : ℚ} {stores : List Written} {labels : List (Label τ)}
    (hrun : exec (step cfg) (State.start τ clock stores) labels = some s) (i : τ) :
    labels.countP (Label.moves i) ≤ 18 * labels.countP (Label.asks i) ∧
      ∀ l, s.lookups i = some l → ∃ j m, s.lookups j = some m ∧
        ∀ answered, (step cfg s (.advance j answered)).isSome = true := by
  constructor
  · have hrank := run_rank hrun i
    have hidle : rankOf ((State.start τ clock stores).lookups i) = 0 := rfl
    omega
  · intro l hl
    have h := exec_invariant (fun _ _ _ => step_orderly) (start_orderly clock stores) hrun
    obtain ⟨j, m, hm, hfree⟩ := exists_free h.locked hl
    exact ⟨j, m, hm, step_isSome_of_free hm hfree⟩

theorem lookups_progress_waiting : ∃ s,
    exec (step sampleSettings) (State.start Bool 1 [⟨0, ∅⟩])
      [.ask true "x", .ask false "y", .advance true true, .advance false true,
        .advance true true] = some s ∧
      ∃ j m, s.lookups j = some m ∧
        ∀ answered, (step sampleSettings s (.advance j answered)).isSome = true := by
  have hrun : (exec (step sampleSettings) (State.start Bool 1 [⟨0, ∅⟩])
      [.ask true "x", .ask false "y", .advance true true, .advance false true,
        .advance true true]).map (fun s => (s.lookups false).isSome) = some true := by
    decide +kernel
  obtain ⟨s, hs, hwaiting⟩ := Option.map_eq_some_iff.mp hrun
  obtain ⟨l, hl⟩ := Option.isSome_iff_exists.mp hwaiting
  exact ⟨s, hs, (lookups_progress hs false).2 l hl⟩

end TokenProxy.KeyCache
