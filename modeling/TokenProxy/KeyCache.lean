/-
  TokenProxy/KeyCache.lean
  ========================
  **The key cache of one instance, over a blob store that other instances write too.**

  Source: `auth/api_key_manager.py` (`validate_proxy_key`, `_reload`, `_load_key_cache`,
  `_check_store_version`, `_version_check_due`, `_store_version`, `key_cached_and_fresh`, and the
  cache refresh of `_persist_store`), for the blob backends (a key file, Secret Manager).

  Lookups run in worker threads.  Each is a sequence of phases, cut where it takes a lock or calls
  the store; between two phases anything may happen: the clock moves, another instance writes the
  store, this one writes it and later refreshes its cache, other lookups move on.  A call of the
  store is answered or fails; a lock that another lookup holds may time out.

  The state keeps every store that was written, with its time: the number of stores so far is what
  `_store_version` tells them apart by.  It also logs the checks, the loads and the answers; no
  branch reads these logs.
-/
import TokenProxy.Execution
import TokenProxy.KeyStore
import Mathlib.Algebra.Order.Ring.Rat
import Mathlib.Tactic.Linarith

namespace TokenProxy.KeyCache

open Execution KeyStore

/-! ## 1. State -/

structure Settings where
  /-- `_CACHE_TTL_SECONDS` -/
  ttl : ℚ
  /-- `_FILE_CHECK_SECONDS` or `_SECRET_CHECK_SECONDS`, whichever the backend has -/
  checkInterval : ℚ
  /-- `_FORCED_RELOAD_MIN_INTERVAL` -/
  missInterval : ℚ

/-- What a reload is for; the code has one reload for `cold` and `stale`. -/
inductive Why where
  | cold
  | stale
  | changed (version : ℕ)
  | missed
deriving DecidableEq

/-- Where a lookup stands. -/
inductive Phase where
  /-- `now` is taken -/
  | begun
  /-- in `_reload`, at its lock -/
  | queued (why : Why)
  /-- in `_load_key_cache`, at `_store_version()` -/
  | versioning (why : Why)
  /-- at the read of the keys -/
  | fetching (why : Why) (version : Option ℕ)
  /-- the keys are there, the cache is as it was -/
  | fetched (why : Why) (version : Option ℕ) (data : Store) (readAt : ℚ)
  /-- before `_version_check_due` -/
  | checkDue
  /-- in `_check_store_version`, at its lock -/
  | checkQueued
  /-- there, at `_store_version()` -/
  | asking
  /-- at the first `_KEY_CACHE.get` -/
  | reading
  /-- at the second -/
  | rereading

/-- Where a lookup goes on after its reload. -/
def Why.next : Why → Phase
  | .cold | .stale => .checkDue
  | .changed _ => .reading
  | .missed => .rereading

def Why.isChange : Why → Bool
  | .changed _ => true
  | _ => false

structure Lookup where
  keyHash : String
  asked : ℚ
  phase : Phase

structure Written where
  time : ℚ
  store : Store

/-- A write of this instance that has not refreshed the cache yet; `number` is how many stores
    there were with it. -/
structure Pending where
  time : ℚ
  store : Store
  number : ℕ

/-- A load that was begun, with the time of the lookup that began it. -/
structure Attempt where
  why : Why
  asked : ℚ
  begun : ℚ

structure Answer where
  keyHash : String
  asked : ℚ
  entry : Option Json
deriving DecidableEq

structure State (τ : Type) where
  clock : ℚ
  stores : List Written
  pending : Option Pending
  cache : Store
  loadedAt : ℚ
  cacheVersion : Option ℕ
  lastVersionCheck : ℚ
  lastForcedReload : ℚ
  lastLoadAttempt : ℚ
  loadLock : Option τ
  versionLock : Option τ
  lookups : τ → Option Lookup
  checks : List ℚ
  attempts : List Attempt
  answers : List Answer

inductive Label (τ : Type) where
  | tick (d : ℚ)
  /-- another instance writes the store -/
  | write (store : Store)
  /-- `_persist_store`, up to the write -/
  | persist (store : Store)
  /-- `_persist_store`, its last two lines -/
  | refresh
  | ask (i : τ) (keyHash : String)
  /-- a lookup moves on; its call of the store, if that is what it is at, is answered or not -/
  | advance (i : τ) (answered : Bool)
  /-- a lookup gives up waiting for a lock -/
  | timeout (i : τ)

/-- A process that has just started. -/
def State.start (τ : Type) (clock : ℚ) (stores : List Written) : State τ where
  clock := clock
  stores := stores
  pending := none
  cache := ∅
  loadedAt := 0
  cacheVersion := none
  lastVersionCheck := 0
  lastForcedReload := 0
  lastLoadAttempt := 0
  loadLock := none
  versionLock := none
  lookups := fun _ => none
  checks := []
  attempts := []
  answers := []

/-! ## 2. The tests -/

/-- `not _KEY_CACHE`. -/
def isCold (cache : Store) : Bool := cache.entries.isEmpty

/-- `_KEY_CACHE.get(key_hash)`, where a null counts as missing. -/
def entryOf (cache : Store) (keyHash : String) : Option Json :=
  (cache.get? keyHash).filter fun entry => decide (entry ≠ .null)

variable {τ : Type} [DecidableEq τ] (cfg : Settings)

namespace State

/-- `_store_version`. -/
def storeVersion (s : State τ) (answered : Bool) : Option ℕ :=
  if answered && !s.stores.isEmpty then some s.stores.length else none

def isStale (s : State τ) (now : ℚ) : Bool := decide (cfg.ttl < now - s.loadedAt)

/-- `_version_check_due`. -/
def versionCheckDue (s : State τ) (now : ℚ) : Bool :=
  !isCold s.cache && decide (cfg.checkInterval ≤ now - s.lastVersionCheck)

/-- `key_cached_and_fresh`. -/
def keyCachedAndFresh (s : State τ) (keyHash : String) : Bool :=
  !isCold s.cache && !s.isStale cfg s.clock && !s.versionCheckDue cfg s.clock &&
    decide (keyHash ∈ s.cache)

/-- `still_needed`, of the reload for this. -/
def stillNeeded (s : State τ) (keyHash : String) : Why → Bool
  | .cold | .stale => isCold s.cache || s.isStale cfg s.clock
  | .changed version => decide (s.cacheVersion ≠ some version)
  | .missed => !decide (keyHash ∈ s.cache)

/-- The tests of `_reload` under its lock. -/
def reloads (s : State τ) (l : Lookup) (why : Why) : Bool :=
  s.stillNeeded cfg l.keyHash why && decide (s.lastLoadAttempt < l.asked) &&
    (decide (why ≠ Why.missed) || decide (cfg.missInterval ≤ l.asked - s.lastForcedReload))

/-! ## 3. One step -/

/-- The lookup is at this phase now. -/
def goto (s : State τ) (i : τ) (l : Lookup) (phase : Phase) : State τ :=
  { s with lookups := Function.update s.lookups i (some { l with phase := phase }) }

/-- The lookup comes back from `_reload`; a reload for a change is the end of its check. -/
def resume (s : State τ) (i : τ) (l : Lookup) (why : Why) : State τ :=
  { s with versionLock := if why.isChange then none else s.versionLock }.goto i l why.next

/-- `validate_proxy_key` returns. -/
def answer (s : State τ) (i : τ) (l : Lookup) (entry : Option Json) : State τ :=
  { s with
    lookups := Function.update s.lookups i none
    answers := ⟨l.keyHash, l.asked, entry⟩ :: s.answers }

/-- `_reload`, from its lock up to the first call of the store. -/
def beginReload (s : State τ) (i : τ) (l : Lookup) (why : Why) : State τ :=
  if s.reloads cfg l why then
    { s with
      loadLock := some i
      lastForcedReload := if why = Why.missed then l.asked else s.lastForcedReload
      lastLoadAttempt := s.clock
      attempts := ⟨why, l.asked, s.clock⟩ :: s.attempts }.goto i l (.versioning why)
  else s.resume i l why

/-- `_check_store_version`, from its lock up to the call of the store. -/
def beginCheck (s : State τ) (i : τ) (l : Lookup) : State τ :=
  if l.asked ≤ s.lastVersionCheck then s.goto i l .reading
  else
    { s with
      versionLock := some i
      lastVersionCheck := s.clock
      checks := s.clock :: s.checks }.goto i l .asking

/-- The end of `_load_key_cache`, with the lock released. -/
def install (s : State τ) (i : τ) (l : Lookup) (why : Why) (version : Option ℕ) (data : Store) :
    State τ :=
  { s with
    loadLock := none
    cache := data
    loadedAt := s.clock
    cacheVersion := version
    lastVersionCheck := s.clock }.resume i l why

/-- A load that failed leaves the cache. -/
def loadFailed (s : State τ) (i : τ) (l : Lookup) (why : Why) : State τ :=
  { s with loadLock := none }.resume i l why

/-- The read of the keys is answered, or fails. -/
def fetch (s : State τ) (i : τ) (l : Lookup) (why : Why) (version : Option ℕ) (answered : Bool) :
    State τ :=
  match s.stores.getLast? with
  | some written =>
    if answered then s.goto i l (.fetched why version written.store s.clock)
    else s.loadFailed i l why
  | none => s.loadFailed i l why

/-- The store's version is there, or not: a change is reloaded, and otherwise the check ends. -/
def checked (s : State τ) (i : τ) (l : Lookup) (answered : Bool) : State τ :=
  match s.storeVersion answered with
  | some version =>
    if s.cacheVersion ≠ some version then s.goto i l (.queued (.changed version))
    else { s with versionLock := none }.goto i l .reading
  | none => { s with versionLock := none }.goto i l .reading

/-- The first read of the cache: an entry is the answer, a miss is one more reload. -/
def readEntry (s : State τ) (i : τ) (l : Lookup) : State τ :=
  match entryOf s.cache l.keyHash with
  | some entry => s.answer i l (some entry)
  | none => s.goto i l (.queued .missed)

/-- The first test of `validate_proxy_key`. -/
def begin (s : State τ) (i : τ) (l : Lookup) : State τ :=
  if isCold s.cache then s.goto i l (.queued .cold)
  else if s.isStale cfg l.asked && decide (cfg.missInterval ≤ l.asked - s.lastLoadAttempt) then
    s.goto i l (.queued .stale)
  else s.goto i l .checkDue

/-- The lookup moves on by one phase; `none` while another one holds the lock that it needs. -/
def advance (s : State τ) (i : τ) (l : Lookup) (answered : Bool) : Option (State τ) :=
  match l.phase with
  | .begun => some (s.begin cfg i l)
  | .queued why => if s.loadLock = none then some (s.beginReload cfg i l why) else none
  | .versioning why => some (s.goto i l (.fetching why (s.storeVersion answered)))
  | .fetching why version => some (s.fetch i l why version answered)
  | .fetched why version data _ => some (s.install i l why version data)
  | .checkDue =>
    some (s.goto i l (if s.versionCheckDue cfg l.asked then .checkQueued else .reading))
  | .checkQueued => if s.versionLock = none then some (s.beginCheck i l) else none
  | .asking => some (s.checked i l answered)
  | .reading => some (s.readEntry i l)
  | .rereading => some (s.answer i l (entryOf s.cache l.keyHash))

/-- A lock was not to be had: answer from the cache as it is. -/
def timeout (s : State τ) (i : τ) (l : Lookup) : Option (State τ) :=
  match l.phase with
  | .queued why => if s.loadLock = none then none else some (s.resume i l why)
  | .checkQueued => if s.versionLock = none then none else some (s.goto i l .reading)
  | _ => none

def append (s : State τ) (store : Store) : State τ :=
  { s with stores := s.stores ++ [⟨s.clock, store⟩] }

end State

def step (s : State τ) : Label τ → Option (State τ)
  | .tick d => if 0 ≤ d then some { s with clock := s.clock + d } else none
  | .write store => some (s.append store)
  | .persist store =>
    if s.pending.isNone then
      some { s.append store with pending := some ⟨s.clock, store, s.stores.length + 1⟩ }
    else none
  | .refresh =>
    s.pending.map fun own =>
      { s with pending := none, cache := own.store, loadedAt := s.clock }
  | .ask i keyHash =>
    match s.lookups i with
    | some _ => none
    | none => some (s.goto i ⟨keyHash, s.clock, .begun⟩ .begun)
  | .advance i answered => (s.lookups i).bind fun l => s.advance cfg i l answered
  | .timeout i => (s.lookups i).bind fun l => s.timeout i l

/-! ## 4. What a step leaves alone -/

namespace State

variable {cfg} {s : State τ} {i : τ} {l : Lookup}

@[simp] theorem goto_self (phase : Phase) :
    (s.goto i l phase).lookups i = some { l with phase := phase } := Function.update_self ..

theorem goto_of_ne (phase : Phase) {j : τ} (h : j ≠ i) :
    (s.goto i l phase).lookups j = s.lookups j := Function.update_of_ne h ..

end State

/-! ## 5. An accepted key was stored -/

/-- The store was written. -/
def Stored (s : State τ) (store : Store) : Prop := ∃ written ∈ s.stores, written.store = store

/-- The answer's entry, if it has one, was in a store that was written. -/
def Answer.Known (s : State τ) (a : Answer) : Prop :=
  ∀ entry, a.entry = some entry → ∃ store, Stored s store ∧ entryOf store a.keyHash = some entry

structure State.Known (s : State τ) : Prop where
  cache : s.cache = ∅ ∨ Stored s s.cache
  pending : ∀ own, s.pending = some own → Stored s own.store
  fetched : ∀ i l why version data readAt, s.lookups i = some l →
    l.phase = .fetched why version data readAt → Stored s data
  answers : ∀ a ∈ s.answers, a.Known s

namespace State.Known

variable {cfg} {s : State τ} {i : τ} {l : Lookup}

/-- A lookup that has read no keys moves. -/
theorem goto (h : s.Known) {phase : Phase}
    (hphase : ∀ why version data readAt, phase = .fetched why version data readAt →
      Stored s data) : (s.goto i l phase).Known where
  cache := h.cache
  pending := h.pending
  fetched j m why version data readAt hj hm := by
    by_cases hji : j = i
    · subst hji
      rw [State.goto_self] at hj
      obtain rfl := Option.some.inj hj
      exact hphase why version data readAt hm
    · rw [State.goto_of_ne phase hji] at hj
      exact h.fetched j m why version data readAt hj hm
  answers := h.answers

theorem resume (h : s.Known) (why : Why) : (s.resume i l why).Known := by
  have hs : State.Known
      { s with versionLock := if why.isChange then none else s.versionLock } :=
    ⟨h.cache, h.pending, h.fetched, h.answers⟩
  refine hs.goto fun _ _ _ _ hfetched => ?_
  cases why <;> cases hfetched

theorem answer (h : s.Known) {entry : Option Json}
    (hentry : ∀ e, entry = some e → entryOf s.cache l.keyHash = some e) :
    (s.answer i l entry).Known where
  cache := h.cache
  pending := h.pending
  fetched j m why version data readAt hj hm := by
    by_cases hji : j = i
    · subst hji
      cases (Function.update_self (β := fun _ => Option Lookup) ..).symm.trans hj
    · refine h.fetched j m why version data readAt ?_ hm
      rw [← hj]
      exact (Function.update_of_ne hji ..).symm
  answers := by
    intro a ha
    rcases List.mem_cons.mp ha with rfl | ha
    · intro e he
      have hread := hentry e he
      rcases h.cache with hcache | hcache
      · rw [hcache] at hread
        cases hread
      · exact ⟨s.cache, hcache, hread⟩
    · exact h.answers a ha

theorem checked (h : s.Known) (answered : Bool) : (s.checked i l answered).Known := by
  have hreleased : State.Known { s with versionLock := none } :=
    ⟨h.cache, h.pending, h.fetched, h.answers⟩
  unfold State.checked
  split
  · split
    · exact h.goto (by simp)
    · exact hreleased.goto (by simp)
  · exact hreleased.goto (by simp)

theorem fetch (h : s.Known) (why : Why) (version : Option ℕ) (answered : Bool) :
    (s.fetch i l why version answered).Known := by
  have hreleased : State.Known { s with loadLock := none } :=
    ⟨h.cache, h.pending, h.fetched, h.answers⟩
  have hfailed : (s.loadFailed i l why).Known := hreleased.resume why
  unfold State.fetch
  split
  · next written hlast =>
    split
    · refine h.goto fun _ _ _ _ hp => ?_
      cases hp
      exact ⟨written, List.mem_of_getLast? hlast, rfl⟩
    · exact hfailed
  · exact hfailed

theorem beginReload (h : s.Known) (why : Why) : (s.beginReload cfg i l why).Known := by
  unfold State.beginReload
  split
  · have hbegun : State.Known { s with
        loadLock := some i
        lastForcedReload := if why = Why.missed then l.asked else s.lastForcedReload
        lastLoadAttempt := s.clock
        attempts := ⟨why, l.asked, s.clock⟩ :: s.attempts } :=
      ⟨h.cache, h.pending, h.fetched, h.answers⟩
    exact hbegun.goto (by simp)
  · exact h.resume why

/-- Whatever a lookup does next, and whether its call is answered or not. -/
theorem advance (h : s.Known) (hl : s.lookups i = some l) {answered : Bool} {s' : State τ}
    (hs : s.advance cfg i l answered = some s') : s'.Known := by
  have hgoto : ∀ phase, (∀ why version data readAt, phase ≠ .fetched why version data readAt) →
      (s.goto i l phase).Known :=
    fun phase hne => h.goto fun _ _ _ _ hp => absurd hp (hne _ _ _ _)
  unfold State.advance at hs
  split at hs
  · cases hs
    unfold State.begin
    split
    · exact hgoto _ (by simp)
    · split <;> exact hgoto _ (by simp)
  · split at hs
    · cases hs
      exact h.beginReload _
    · cases hs
  · cases hs
    exact hgoto _ (by simp)
  · cases hs
    exact h.fetch _ _ _
  · next why version data readAt hphase =>
    cases hs
    have hdata := h.fetched i l why version data readAt hl hphase
    have hinstalled : State.Known { s with
        loadLock := none
        cache := data
        loadedAt := s.clock
        cacheVersion := version
        lastVersionCheck := s.clock } := ⟨.inr hdata, h.pending, h.fetched, h.answers⟩
    exact hinstalled.resume why
  · cases hs
    split <;> exact hgoto _ (by simp)
  · split at hs
    · cases hs
      unfold State.beginCheck
      split
      · exact hgoto _ (by simp)
      · have hbegun : State.Known { s with
            versionLock := some i
            lastVersionCheck := s.clock
            checks := s.clock :: s.checks } := ⟨h.cache, h.pending, h.fetched, h.answers⟩
        exact hbegun.goto (by simp)
    · cases hs
  · cases hs
    exact h.checked answered
  · cases hs
    unfold State.readEntry
    split
    · next entry hentry => exact h.answer fun e he => hentry.trans he
    · exact hgoto _ (by simp)
  · cases hs
    exact h.answer fun e he => he

theorem timeout (h : s.Known) {s' : State τ} (hs : s.timeout i l = some s') : s'.Known := by
  unfold State.timeout at hs
  split at hs
  · split at hs
    · cases hs
    · cases hs
      exact h.resume _
  · split at hs
    · cases hs
    · cases hs
      exact h.goto (by simp)
  · cases hs

omit [DecidableEq τ] in
theorem append (h : s.Known) (store : Store) : (s.append store).Known := by
  have hmono : ∀ data, Stored s data → Stored (s.append store) data :=
    fun data ⟨written, hmem, heq⟩ => ⟨written, List.mem_append_left _ hmem, heq⟩
  refine ⟨h.cache.imp_right (hmono _), fun own hown => hmono _ (h.pending own hown), ?_, ?_⟩
  · exact fun j m why version data readAt hj hm =>
      hmono _ (h.fetched j m why version data readAt hj hm)
  · intro a ha entry hentry
    obtain ⟨data, hdata, hread⟩ := h.answers a ha entry hentry
    exact ⟨data, hmono _ hdata, hread⟩

end State.Known

theorem step_known {cfg : Settings} {s s' : State τ} {label : Label τ} (h : s.Known)
    (hs : step cfg s label = some s') : s'.Known := by
  cases label with
  | tick d =>
    simp only [step, Option.ite_none_right_eq_some, Option.some.injEq] at hs
    rw [← hs.2]
    exact ⟨h.cache, h.pending, h.fetched, h.answers⟩
  | write store =>
    cases hs
    exact h.append store
  | persist store =>
    simp only [step, Option.ite_none_right_eq_some, Option.some.injEq] at hs
    rw [← hs.2]
    have happ := h.append store
    refine ⟨happ.cache, ?_, happ.fetched, happ.answers⟩
    rintro own ⟨⟩
    exact ⟨⟨s.clock, store⟩, List.mem_append_right _ (List.mem_singleton_self _), rfl⟩
  | refresh =>
    obtain ⟨own, hown, rfl⟩ := Option.map_eq_some_iff.mp hs
    exact
      { cache := .inr (h.pending own hown)
        pending := by rintro _ ⟨⟩
        fetched := h.fetched
        answers := h.answers }
  | ask i keyHash =>
    simp only [step] at hs
    split at hs
    · cases hs
    · cases hs
      exact h.goto (by simp)
  | advance i answered =>
    obtain ⟨l, hl, hadv⟩ := Option.bind_eq_some_iff.mp hs
    exact h.advance hl hadv
  | timeout i =>
    obtain ⟨l, -, hto⟩ := Option.bind_eq_some_iff.mp hs
    exact h.timeout hto

omit [DecidableEq τ] in
theorem start_known (clock : ℚ) (stores : List Written) : (State.start τ clock stores).Known where
  cache := .inl rfl
  pending _ hown := by cases hown
  fetched _ _ _ _ _ _ hl := by cases hl
  answers _ ha := by cases ha

/-- **No key is accepted that was never stored.**  However lookups, writes of this instance and of
    others, failed calls and lock timeouts interleave, a lookup that accepts a key returns the
    entry that some written store has for it. -/
theorem accepted_was_stored (cfg : Settings) (clock : ℚ) (stores : List Written)
    (labels : List (Label τ)) (s : State τ)
    (hrun : exec (step cfg) (State.start τ clock stores) labels = some s) (a : Answer)
    (ha : a ∈ s.answers) (entry : Json) (hentry : a.entry = some entry) :
    ∃ written ∈ s.stores, entryOf written.store a.keyHash = some entry := by
  have hknown := exec_invariant (fun _ _ _ => step_known) (start_known clock stores) hrun
  obtain ⟨_, ⟨written, hmem, rfl⟩, hread⟩ := hknown.answers a ha entry hentry
  exact ⟨written, hmem, hread⟩

/-! ## 6. A lookup -/

def sampleSettings : Settings := ⟨300, 5, 5⟩

/-- One key, stored before the process starts at the time 1. -/
def sampleStart : State Unit :=
  State.start Unit 1 [⟨0, (∅ : Store).set "h" (.str "alice")⟩]

def moves (n : ℕ) : List (Label Unit) := List.replicate n (.advance () true)

theorem accepted_was_stored_cold : ∃ s,
    exec (step sampleSettings) sampleStart (.ask () "h" :: moves 7) = some s ∧
      ∃ written ∈ s.stores, entryOf written.store "h" = some (.str "alice") := by
  have hrun : (exec (step sampleSettings) sampleStart (.ask () "h" :: moves 7)).map
      (fun s => s.answers) = some [⟨"h", 1, some (.str "alice")⟩] := by decide +kernel
  obtain ⟨s, hs, hanswers⟩ := Option.map_eq_some_iff.mp hrun
  refine ⟨s, hs, accepted_was_stored _ _ _ _ s hs ⟨"h", 1, some (.str "alice")⟩ ?_ _ rfl⟩
  rw [hanswers]
  exact List.mem_singleton_self _

end TokenProxy.KeyCache
