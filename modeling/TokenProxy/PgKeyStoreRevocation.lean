/-
  TokenProxy/PgKeyStoreRevocation.lean
  ====================================
  **A revoked key stays out of the table, and a removed key is revoked.**

  `replace_all` takes no advisory lock and removes in two statements: it records
  the rows that its store lacks, and later deletes whatever it then sees.  And a
  statement keeps what it saw when it began.  So three interleavings break the
  revocation table:

    * another call commits a new key after the recording statement has begun and
      before the delete has, and the delete removes it without a record;
    * another call commits the record of a hash after a writer has asked whether
      that hash is recorded and before it writes it, and the hash is put back;
    * another call commits a row that it has deleted and written anew after a
      delete of the recorded row has begun, which then does not find it.

  These are the only three.  `Undisturbed` names them as a condition on the step
  that commits, and `revocation_of_undisturbed` proves that every run without them
  keeps both halves of the revocation rule in every committed state.

  The invariant says of each call in progress what its uncommitted writes are
  (`SessionOk`); a commit moves the tables under the other calls (`TablesMove`),
  and `SessionOk.stable` is the one lemma about that.
-/
import TokenProxy.Execution
import TokenProxy.PgKeyStore

namespace TokenProxy.PgKeyStore

open Execution KeyStore

/-! ## 1. The rule, and the condition on the steps -/

/-- Of every two states of the run, the later with the tables as they then are. -/
def RevocationKept (py : Builtins) (start : System) (labels : List Label) : Prop :=
  ∀ before between after s s', labels = before ++ between ++ after →
    exec (step py) start before = some s → exec (step py) s between = some s' →
    ∀ h, (h ∈ s.keys → h ∉ s'.keys → h ∈ s'.revoked) ∧ (h ∈ s'.revoked → h ∉ s'.keys)

/-- A `replace_all` that has begun to record what its store lacks, and has yet to delete, will
    not remove this hash without a record. -/
def Session.Spares (c : Session) (h : String) : Prop :=
  match c.phase with
  | .recordMissing store => c.snapshot.isSome → h ∈ store
  | .checkStore store => h ∈ store
  | .deleteAll store _ => c.snapshot.isNone → h ∈ store
  | _ => True

/-- The hashes that a call has found unrecorded and has yet to write. -/
def Session.toWrite (c : Session) : List String :=
  match c.phase with
  | .deleteAll store revoked => store.keys.filter fun h => h ∉ revoked
  | .insertKept entries _ => entries.map Prod.fst
  | .upsert entries _ _ => entries.map Prod.fst
  | .insertNew ((h, _) :: _) _ =>
    match c.snapshot with
    | some snapshot => if h ∈ snapshot.revoked then [] else [h]
    | none => []
  | _ => []

/-- The next statement is the `COMMIT` of a transaction. -/
def Phase.Commits : Phase → Prop
  | .insertKept [] _ => True
  | .upsert [] _ _ => True
  | _ => False

/-- What the next statement of the call commits to `proxy_keys`. -/
def Session.Publishes (py : Builtins) (s : System) (c : Session) (h : String) : Prop :=
  (c.phase.Commits ∧ ∃ row, c.keyWrites.get? h = some (some row)) ∨
    ∃ entry rest inserted, c.phase = .insertNew ((h, entry) :: rest) inserted ∧
      h ∉ s.seenRevoked c ∧ (rowArgs py entry).isSome

/-- What the next statement of the call commits to `revoked_proxy_keys`. -/
def Session.Revokes (c : Session) (h : String) : Prop := c.phase.Commits ∧ h ∈ c.revokedWrites

/-- The next statement of the call commits a new row in the place of one that it has deleted. -/
def Session.Renews (c : Session) (h : String) : Prop :=
  c.phase.Commits ∧ h ∈ c.deleted ∧ ∃ row, c.keyWrites.get? h = some (some row)

/-- No call commits a new key that a `replace_all` is about to delete unrecorded, none
    commits the record of a hash that another call is about to write, and none puts a new row
    in the place of one that another call has recorded and begun to delete. -/
def Undisturbed (py : Builtins) (s : System) : Label → Prop
  | .statement i => ∀ c, s.sessions[i]? = some c → ∀ d ∈ s.others i,
      (∀ h, c.Publishes py s h → h ∉ s.keys → d.Spares h) ∧
      (∀ h, c.Revokes h → h ∉ d.toWrite) ∧
      ∀ h, c.Renews h → d.snapshot.isSome → h ∉ d.revokedWrites
  | _ => True

/-! ## 2. What holds of a call in progress -/

/-- The rows that the call's coming `DELETE` selects, as far as it has recorded them. -/
def Phase.Deletes (p : Phase) (h : String) : Prop :=
  match p with
  | .checkStore _ => True
  | .deleteAll _ _ => True
  | .deleteRemoved removed _ _ _ => h ∈ removed
  | _ => False

def PhaseOk (keys : KeyTable) (revoked : RevokedTable) (c : Session) : Prop :=
  match c.phase with
  | .recordMissing store =>
    (∀ h, h ∉ c.keyWrites) ∧ (∀ h, h ∉ c.revokedWrites) ∧
      ∀ h ∈ keys, h ∈ c.seen keys ∨ h ∈ store
  | .checkStore store =>
    (∀ h, h ∉ c.keyWrites) ∧ (∀ h ∈ keys, h ∈ store ∨ h ∈ c.revokedWrites) ∧
      ∀ h ∈ c.revokedWrites, h ∉ store
  | .deleteAll store checked =>
    (∀ h, h ∉ c.keyWrites) ∧ (∀ h ∈ c.seen keys, h ∈ store ∨ h ∈ c.revokedWrites) ∧
      (∀ h ∈ c.revokedWrites, h ∉ store) ∧ ∀ h ∈ checked, h ∈ revoked
  | .recordRemoved removed upserts _ _ =>
    (∀ h, h ∉ c.keyWrites) ∧ (∀ h, h ∉ c.revokedWrites) ∧
      (∀ h ∈ removed, h ∈ c.seen keys ∨ h ∈ revoked) ∧ ∀ e ∈ upserts, e.1 ∉ removed
  | .deleteRemoved removed upserts _ _ =>
    (∀ h, h ∉ c.keyWrites) ∧ (∀ h ∈ removed, h ∈ c.revokedWrites ∨ h ∈ revoked) ∧
      (∀ h ∈ c.revokedWrites, h ∈ removed) ∧ ∀ e ∈ upserts, e.1 ∉ removed
  | .checkUpserts upserts _ _ => ∀ e ∈ upserts, e.1 ∉ c.revokedWrites
  | .insertKept _ _ => True
  | .upsert _ _ _ => True
  | _ => (∀ h, h ∉ c.keyWrites) ∧ ∀ h, h ∉ c.revokedWrites

structure SessionOk (keys : KeyTable) (revoked : RevokedTable) (c : Session) : Prop where
  removed : ∀ h, c.keyWrites.get? h = some none → h ∈ c.revokedWrites ∨ h ∈ c.toWrite
  written : ∀ h row, c.keyWrites.get? h = some (some row) → h ∉ revoked ∧ h ∉ c.revokedWrites
  toWrite : ∀ h ∈ c.toWrite, h ∉ revoked ∧ h ∉ c.revokedWrites
  recorded : ∀ h ∈ c.revokedWrites, c.keyWrites.get? h = some none ∨
    (c.phase.Deletes h ∧ h ∉ c.keyWrites ∧ h ∈ c.seen keys ∧ h ∉ c.gone)
  removedDeleted : ∀ h, c.keyWrites.get? h = some none → h ∈ c.deleted
  deletedWritten : ∀ h ∈ c.deleted, h ∈ c.keyWrites
  /-- what a statement that has begun sees leaves the table only with a record -/
  seenStays : ∀ h ∈ c.seen keys, h ∈ keys ∨ h ∈ revoked
  /-- what it still finds is in the table -/
  foundStays : ∀ h ∈ c.seen keys, h ∉ c.gone → h ∈ keys
  phase : PhaseOk keys revoked c

/-- A call that has begun no statement, without uncommitted writes: before its first write or after
its end. -/
theorem SessionOk.of_fresh {keys : KeyTable} {revoked : RevokedTable} {c : Session}
    (hkeys : ∀ h, h ∉ c.keyWrites) (hrevoked : ∀ h, h ∉ c.revokedWrites)
    (hdeleted : c.deleted = []) (hsnapshot : c.snapshot = none) (htodo : c.toWrite = [])
    (hphase : PhaseOk keys revoked c) : SessionOk keys revoked c where
  removed h hw := absurd (Dict.mem_iff.mpr ⟨_, hw⟩) (hkeys h)
  written h row hw := absurd (Dict.mem_iff.mpr ⟨_, hw⟩) (hkeys h)
  toWrite h hmem := by simp [htodo] at hmem
  recorded h hmem := absurd hmem (hrevoked h)
  removedDeleted h hw := absurd (Dict.mem_iff.mpr ⟨_, hw⟩) (hkeys h)
  deletedWritten h hmem := by simp [hdeleted] at hmem
  seenStays h hmem := by
    rw [Session.seen, hsnapshot] at hmem
    exact Or.inl hmem
  foundStays h hmem _ := by
    rw [Session.seen, hsnapshot] at hmem
    exact hmem
  phase := hphase

/-- How a commit that deletes these rows moves the tables under another call. -/
structure TablesMove (keys keys' : KeyTable) (revoked revoked' : RevokedTable)
    (deleted : List String) (d : Session) : Prop where
  recordStays : ∀ h ∈ revoked, h ∈ revoked'
  keyStays : ∀ h ∈ keys, h ∈ keys' ∨ h ∈ revoked'
  pendingStays : ∀ h ∈ keys, h ∈ d.revokedWrites → h ∈ keys'
  found : ∀ h ∈ deleted, d.snapshot.isSome → h ∉ d.revokedWrites
  lost : ∀ h ∈ keys, h ∉ keys' → h ∈ deleted
  added : ∀ h ∈ keys', h ∉ keys → d.Spares h
  recorded : ∀ h ∈ revoked', h ∉ revoked →
    h ∉ d.toWrite ∧ ∀ row, d.keyWrites.get? h ≠ some (some row)

section Lose

variable (deleted : List String) (d : Session)

@[simp] theorem lose_phase : (d.lose deleted).phase = d.phase := rfl

@[simp] theorem lose_keyWrites : (d.lose deleted).keyWrites = d.keyWrites := rfl

@[simp] theorem lose_revokedWrites : (d.lose deleted).revokedWrites = d.revokedWrites := rfl

@[simp] theorem lose_deleted : (d.lose deleted).deleted = d.deleted := rfl

@[simp] theorem lose_toWrite : (d.lose deleted).toWrite = d.toWrite := by
  unfold Session.toWrite Session.lose
  cases d.snapshot <;> rfl

theorem lose_nil : Session.lose [] = id := by
  funext d
  obtain ⟨phase, keyWrites, revokedWrites, gone, snapshot⟩ := d
  cases snapshot <;> simp [Session.lose]

theorem lose_of_none (h : d.snapshot = none) : d.lose deleted = d := by
  obtain ⟨phase, keyWrites, revokedWrites, gone, snapshot⟩ := d
  subst h
  rfl

end Lose

/-- What the statement of a call sees after the tables have moved. -/
theorem mem_seen_lose (keys : KeyTable) {keys' : KeyTable} {deleted : List String} {d : Session}
    {h : String} (hmem : h ∈ (d.lose deleted).seen keys') :
    (d.snapshot = none ∧ h ∈ keys') ∨ (d.snapshot.isSome ∧ h ∈ d.seen keys) := by
  unfold Session.seen Session.lose at hmem
  cases hsnapshot : d.snapshot with
  | none =>
    rw [hsnapshot] at hmem
    exact Or.inl ⟨rfl, hmem⟩
  | some snapshot =>
    rw [hsnapshot] at hmem
    rw [Session.seen, hsnapshot]
    exact Or.inr ⟨rfl, hmem⟩

theorem seen_lose_of_some (keys keys' : KeyTable) (deleted : List String) {d : Session}
    (hsome : d.snapshot.isSome) : (d.lose deleted).seen keys' = d.seen keys ∧
      (d.lose deleted).gone = d.gone ++ deleted := by
  obtain ⟨snapshot, hsnapshot⟩ := Option.isSome_iff_exists.mp hsome
  unfold Session.seen Session.gone Session.lose
  rw [hsnapshot]
  exact ⟨rfl, rfl⟩

theorem SessionOk.stable {keys keys' : KeyTable} {revoked revoked' : RevokedTable}
    {deleted : List String} {d : Session} (hok : SessionOk keys revoked d)
    (hmove : TablesMove keys keys' revoked revoked' deleted d) :
    SessionOk keys' revoked' (d.lose deleted) where
  removed h hw := by
    rw [lose_toWrite]
    exact hok.removed h hw
  written h row hw := by
    obtain ⟨hnot, hown⟩ := hok.written h row hw
    refine ⟨fun hmem => ?_, hown⟩
    exact (hmove.recorded h hmem hnot).2 row hw
  toWrite h hmem := by
    rw [lose_toWrite] at hmem
    obtain ⟨hnot, hown⟩ := hok.toWrite h hmem
    refine ⟨fun hrec => ?_, hown⟩
    exact (hmove.recorded h hrec hnot).1 hmem
  recorded h hmem := by
    rcases hok.recorded h hmem with hw | ⟨hdel, hfree, hseen, hfound⟩
    · exact Or.inl hw
    · refine Or.inr ⟨hdel, hfree, ?_⟩
      cases hsnapshot : d.snapshot with
      | none =>
        rw [lose_of_none deleted d hsnapshot]
        refine ⟨?_, hfound⟩
        have hkey := hok.foundStays h hseen hfound
        rw [Session.seen, hsnapshot]
        exact hmove.pendingStays h hkey hmem
      | some snapshot =>
        have hsome : d.snapshot.isSome := by rw [hsnapshot]; rfl
        obtain ⟨hsame, hgone⟩ := seen_lose_of_some keys keys' deleted hsome
        rw [hsame, hgone, List.mem_append, not_or]
        exact ⟨hseen, hfound, fun hdeleted => hmove.found h hdeleted hsome hmem⟩
  removedDeleted := hok.removedDeleted
  deletedWritten := hok.deletedWritten
  seenStays h hmem := by
    rcases mem_seen_lose keys hmem with ⟨-, hkey⟩ | ⟨-, hseen⟩
    · exact Or.inl hkey
    · rcases hok.seenStays h hseen with hkey | hrec
      · exact hmove.keyStays h hkey
      · exact Or.inr (hmove.recordStays h hrec)
  foundStays h hmem hfound := by
    rcases mem_seen_lose keys hmem with ⟨-, hkey⟩ | ⟨hsome, hseen⟩
    · exact hkey
    · rw [(seen_lose_of_some keys keys' deleted hsome).2, List.mem_append,
        not_or] at hfound
      have hkey := hok.foundStays h hseen hfound.1
      by_contra hnot
      exact hfound.2 (hmove.lost h hkey hnot)
  phase := by
    have hphase := hok.phase
    have hadded := hmove.added
    -- only the phases that speak of the tables have anything to show
    unfold PhaseOk at hphase ⊢
    rw [lose_phase]
    cases hp : d.phase with
    | recordMissing store =>
      simp only [hp] at hphase ⊢
      obtain ⟨hfree, hfresh, hcover⟩ := hphase
      refine ⟨hfree, hfresh, fun h hmem => ?_⟩
      cases hsnapshot : d.snapshot with
      | none =>
        left
        rw [lose_of_none deleted d hsnapshot, Session.seen, hsnapshot]
        exact hmem
      | some snapshot =>
        have hsome : d.snapshot.isSome := by rw [hsnapshot]; rfl
        rw [(seen_lose_of_some keys keys' deleted hsome).1]
        by_cases hold : h ∈ keys
        · exact hcover h hold
        · have hspared := hadded h hmem hold
          rw [Session.Spares, hp] at hspared
          exact Or.inr (hspared hsome)
    | checkStore store =>
      simp only [hp] at hphase ⊢
      obtain ⟨hfree, hcover, hown⟩ := hphase
      refine ⟨hfree, fun h hmem => ?_, hown⟩
      by_cases hold : h ∈ keys
      · exact hcover h hold
      · have hspared := hadded h hmem hold
        rw [Session.Spares, hp] at hspared
        exact Or.inl hspared
    | deleteAll store checked =>
      simp only [hp] at hphase ⊢
      obtain ⟨hfree, hcover, hown, hchecked⟩ := hphase
      refine ⟨hfree, fun h hmem => ?_, hown, fun h hmem => ?_⟩
      · rcases mem_seen_lose keys hmem with ⟨hnone, hkey⟩ | ⟨-, hseen⟩
        · by_cases hold : h ∈ keys
          · apply hcover h
            rw [Session.seen, hnone]
            exact hold
          · have hspared := hadded h hkey hold
            rw [Session.Spares, hp] at hspared
            exact Or.inl (hspared (by rw [hnone]; rfl))
        · exact hcover h hseen
      · exact hmove.recordStays h (hchecked h hmem)
    | recordRemoved removed upserts result after =>
      simp only [hp] at hphase ⊢
      obtain ⟨hfree, hfresh, hgone, hapart⟩ := hphase
      refine ⟨hfree, hfresh, fun h hmem => ?_, hapart⟩
      rcases hgone h hmem with hseen | hrec
      · cases hsnapshot : d.snapshot with
        | none =>
          rw [lose_of_none deleted d hsnapshot]
          rw [Session.seen, hsnapshot] at hseen ⊢
          exact hmove.keyStays h hseen
        | some snapshot =>
          have hsome : d.snapshot.isSome := by rw [hsnapshot]; rfl
          rw [(seen_lose_of_some keys keys' deleted hsome).1]
          exact Or.inl hseen
      · exact Or.inr (hmove.recordStays h hrec)
    | deleteRemoved removed upserts result after =>
      simp only [hp] at hphase ⊢
      obtain ⟨hfree, hgone, hsub, hapart⟩ := hphase
      refine ⟨hfree, fun h hmem => ?_, hsub, hapart⟩
      exact (hgone h hmem).imp_right (hmove.recordStays h)
    | insertKept entries written => trivial
    | upsert entries result after => trivial
    | _ =>
      simp only [hp] at hphase ⊢
      exact hphase

/-! ## 3. The invariant of the system -/

/-- Two transactions hold no row between them. -/
def Apart (c d : Session) : Prop :=
  (∀ h ∈ c.keyWrites, h ∉ d.keyWrites) ∧ ∀ h ∈ c.revokedWrites, h ∉ d.revokedWrites

theorem Apart.symm {c d : Session} (h : Apart c d) : Apart d c :=
  ⟨fun k hd hc => h.1 k hc hd, fun k hd hc => h.2 k hc hd⟩

theorem Apart.of_fresh {c d : Session} (hkeys : ∀ h, h ∉ c.keyWrites)
    (hrevoked : ∀ h, h ∉ c.revokedWrites) : Apart c d :=
  ⟨fun h hmem => absurd hmem (hkeys h), fun h hmem => absurd hmem (hrevoked h)⟩

structure SystemOk (s : System) : Prop where
  disjoint : ∀ h ∈ s.revoked, h ∉ s.keys
  session : ∀ (i : Nat) (c : Session), s.sessions[i]? = some c → SessionOk s.keys s.revoked c
  apart : ∀ (i : Nat) (c : Session), s.sessions[i]? = some c → ∀ d ∈ s.others i, Apart c d

theorem mem_others_iff {s : System} {i : Nat} {d : Session} :
    d ∈ s.others i ↔ ∃ j, j ≠ i ∧ s.sessions[j]? = some d :=
  List.mem_eraseIdx_iff_getElem?

/-- A session after the step of call `i`: that call's own, or another's as the commit leaves it. -/
theorem session_cases {sessions : List Session} {deleted : List String} {i j : Nat}
    {c' d : Session} (h : ((sessions.map (Session.lose deleted)).set i c')[j]? = some d) :
    (j = i ∧ d = c') ∨ ∃ d₀, j ≠ i ∧ sessions[j]? = some d₀ ∧ d = d₀.lose deleted := by
  rw [List.getElem?_set] at h
  split at h
  · rename_i heq
    split at h
    · cases h
      exact Or.inl ⟨heq.symm, rfl⟩
    · cases h
  · rename_i hne
    rw [List.getElem?_map] at h
    obtain ⟨d₀, hd₀, rfl⟩ := Option.map_eq_some_iff.mp h
    exact Or.inr ⟨d₀, Ne.symm hne, hd₀, rfl⟩

/-- The session of one call and the tables change; the other calls are looked at once. -/
theorem SystemOk.replace {s : System} (hinv : SystemOk s) {i : Nat} {c' : Session}
    {keys' : KeyTable} {revoked' : RevokedTable} (deleted : List String)
    (hdisjoint : ∀ h ∈ revoked', h ∉ keys') (hown : SessionOk keys' revoked' c')
    (hothers : ∀ d ∈ s.others i, SessionOk keys' revoked' (d.lose deleted))
    (hapart : ∀ d ∈ s.others i, Apart c' d) :
    SystemOk ⟨keys', revoked', (s.sessions.map (Session.lose deleted)).set i c'⟩ where
  disjoint := hdisjoint
  session j d hd := by
    rcases session_cases hd with ⟨-, rfl⟩ | ⟨d₀, hne, hd₀, rfl⟩
    · exact hown
    · exact hothers d₀ (mem_others_iff.mpr ⟨j, hne, hd₀⟩)
  apart j d hd e he := by
    obtain ⟨k, hkj, hk⟩ := mem_others_iff.mp he
    rcases session_cases hd with ⟨hj, rfl⟩ | ⟨d₀, hj, hd₀, rfl⟩
    · rcases session_cases hk with ⟨hk, -⟩ | ⟨e₀, hne, he₀, rfl⟩
      · exact absurd (hk.trans hj.symm) hkj
      · exact hapart e₀ (mem_others_iff.mpr ⟨k, hne, he₀⟩)
    · rcases session_cases hk with ⟨-, rfl⟩ | ⟨e₀, -, he₀, rfl⟩
      · exact (hapart d₀ (mem_others_iff.mpr ⟨j, hj, hd₀⟩)).symm
      · exact hinv.apart j d₀ hd₀ e₀ (mem_others_iff.mpr ⟨k, hkj, he₀⟩)

theorem SystemOk.others {s : System} (hinv : SystemOk s) {i : Nat} {d : Session}
    (hd : d ∈ s.others i) :
    SessionOk s.keys s.revoked d := by
  obtain ⟨j, -, hj⟩ := mem_others_iff.mp hd
  exact hinv.session j d hj

/-- A statement that commits nothing. -/
theorem SystemOk.become {s : System} (hinv : SystemOk s) {i : Nat} {c' : Session}
    (hown : SessionOk s.keys s.revoked c') (hapart : ∀ d ∈ s.others i, Apart c' d) :
    SystemOk (s.become i c') := by
  have hstays : ∀ d ∈ s.others i, SessionOk s.keys s.revoked (d.lose []) := by
    intro d hd
    rw [lose_nil]
    exact hinv.others hd
  have h := hinv.replace [] hinv.disjoint hown hstays hapart
  rwa [lose_nil, List.map_id] at h

/-- A session that goes on with the writes it had is still apart from the others. -/
theorem Apart.at {c d : Session} (h : Apart c d) (phase : Phase) : Apart (c.at phase) d := h

theorem SystemOk.rollback {s : System} (hinv : SystemOk s) (i : Nat) : SystemOk (s.rollback i) :=
  hinv.become
    (SessionOk.of_fresh Dict.notMem_empty Dict.notMem_empty rfl rfl rfl
      ⟨Dict.notMem_empty, Dict.notMem_empty⟩)
    fun _ _ => Apart.of_fresh Dict.notMem_empty Dict.notMem_empty

/-! ## 4. What a commit does -/

/-- A hash that the table or the record has is in one of them still. -/
def Accounted (h : String) (s : System) : Prop := h ∈ s.keys ∨ h ∈ s.revoked

section Commit

variable {s : System} {c : Session} (hok : SessionOk s.keys s.revoked c)
  (hcommits : c.phase.Commits)

omit hok hcommits in
theorem toWrite_of_commits {c : Session} (h : c.phase.Commits) : c.toWrite = [] := by
  unfold Phase.Commits at h
  unfold Session.toWrite
  split at h
  · rename_i hp
    rw [hp]
    rfl
  · rename_i hp
    rw [hp]
    rfl
  · exact h.elim

theorem not_deletes_of_commits {p : Phase} (h : p.Commits) (k : String) : ¬ p.Deletes k := by
  unfold Phase.Commits at h
  split at h
  · exact id
  · exact id
  · exact h.elim

include hok hcommits

theorem recorded_of_deleted {h : String} (hw : c.keyWrites.get? h = some none) :
    h ∈ c.revokedWrites := by
  rcases hok.removed h hw with hrec | htodo
  · exact hrec
  · simp [toWrite_of_commits hcommits] at htodo

theorem deleted_of_recorded {h : String} (hrec : h ∈ c.revokedWrites) :
    c.keyWrites.get? h = some none := by
  rcases hok.recorded h hrec with hw | ⟨hdel, -⟩
  · exact hw
  · exact absurd hdel (not_deletes_of_commits hcommits h)

/-- A row that the commit takes out of the table is in the call's own record. -/
theorem key_after_commit {h : String} (hmem : h ∈ s.keys) :
    h ∈ s.visibleKeys c ∨ h ∈ c.revokedWrites := by
  by_cases hw : h ∈ c.keyWrites
  · obtain ⟨w, hw⟩ := Dict.mem_iff.mp hw
    cases w with
    | none => exact Or.inr (recorded_of_deleted hok hcommits hw)
    | some row => exact Or.inl ((Dict.mem_overlay_of_get? hw).mpr rfl)
  · exact Or.inl ((Dict.mem_overlay_of_notMem hw).mpr hmem)

theorem accounted_commit {h : String} (hacc : Accounted h s) (i : Nat) (answer : Answer) :
    Accounted h (s.commit i c answer) := by
  rcases hacc with hkey | hrec
  · exact (key_after_commit hok hcommits hkey).imp_right fun hown =>
      Dict.mem_update.mpr (Or.inl hown)
  · exact Or.inr (Dict.mem_update.mpr (Or.inr hrec))

theorem disjoint_commit (hdisjoint : ∀ h ∈ s.revoked, h ∉ s.keys) :
    ∀ h ∈ s.visibleRevoked c, h ∉ s.visibleKeys c := by
  intro h hrec hkey
  rcases Dict.mem_update.mp hrec with hown | hold
  · have hw := deleted_of_recorded hok hcommits hown
    exact absurd ((Dict.mem_overlay_of_get? hw).mp hkey) (by simp)
  · by_cases hw : h ∈ c.keyWrites
    · obtain ⟨w, hw⟩ := Dict.mem_iff.mp hw
      cases w with
      | none => exact absurd ((Dict.mem_overlay_of_get? hw).mp hkey) (by simp)
      | some row => exact (hok.written h row hw).1 hold
    · exact hdisjoint h hold ((Dict.mem_overlay_of_notMem hw).mp hkey)

theorem tablesMove_commit {py : Builtins} {d : Session} (hapart : Apart c d)
    (hspares : ∀ h, c.Publishes py s h → h ∉ s.keys → d.Spares h)
    (htodo : ∀ h, c.Revokes h → h ∉ d.toWrite)
    (hrenews : ∀ h, c.Renews h → d.snapshot.isSome → h ∉ d.revokedWrites) :
    TablesMove s.keys (s.visibleKeys c) s.revoked (s.visibleRevoked c) c.deleted d where
  recordStays h hrec := Dict.mem_update.mpr (Or.inr hrec)
  keyStays h hkey := (key_after_commit hok hcommits hkey).imp_right fun hown =>
    Dict.mem_update.mpr (Or.inl hown)
  pendingStays h hkey hpending := by
    rcases key_after_commit hok hcommits hkey with hstays | hown
    · exact hstays
    · exact absurd hpending (hapart.2 h hown)
  found h hmem hbegun := by
    obtain ⟨w, hw⟩ := Dict.mem_iff.mp (hok.deletedWritten h hmem)
    cases w with
    | none => exact hapart.2 h (recorded_of_deleted hok hcommits hw)
    | some row => exact hrenews h ⟨hcommits, hmem, row, hw⟩ hbegun
  lost h hkey hgone := by
    by_cases hw : h ∈ c.keyWrites
    · obtain ⟨w, hw⟩ := Dict.mem_iff.mp hw
      cases w with
      | none => exact hok.removedDeleted h hw
      | some row => exact absurd ((Dict.mem_overlay_of_get? hw).mpr rfl) hgone
    · exact absurd ((Dict.mem_overlay_of_notMem hw).mpr hkey) hgone
  added h hmem hnot := by
    by_cases hw : h ∈ c.keyWrites
    · obtain ⟨w, hw⟩ := Dict.mem_iff.mp hw
      cases w with
      | none => exact absurd ((Dict.mem_overlay_of_get? hw).mp hmem) (by simp)
      | some row => exact hspares h (Or.inl ⟨hcommits, row, hw⟩) hnot
    · exact absurd ((Dict.mem_overlay_of_notMem hw).mp hmem) hnot
  recorded h hmem hnot := by
    rcases Dict.mem_update.mp hmem with hown | hold
    · refine ⟨htodo h ⟨hcommits, hown⟩, fun row hd => ?_⟩
      -- the recorder has deleted the row, so nobody else has a write on it
      have hw := deleted_of_recorded hok hcommits hown
      exact hapart.1 h (Dict.mem_iff.mpr ⟨_, hw⟩) (Dict.mem_iff.mpr ⟨_, hd⟩)
    · exact absurd hold hnot

end Commit

/-! ## 5. What the other statements do -/

section Statement

variable {s : System} (hinv : SystemOk s) {i : Nat} {c : Session} (hat : s.sessions[i]? = some c)
include hinv hat

theorem apart_record {c' : Session} {rows : KeyTable} (h : s.recordRows i c rows = some c') :
    ∀ d ∈ s.others i, Apart c' d := by
  obtain ⟨-, hkeys, -, hrecorded, hfree⟩ := recordRows_spec h
  intro d hd
  have hapart := hinv.apart i c hat d hd
  refine ⟨by rw [hkeys]; exact hapart.1, fun k hk => ?_⟩
  rcases (hrecorded k).mp hk with ⟨hrow, -⟩ | hold
  · exact hfree k hrow d hd
  · exact hapart.2 k hold

theorem apart_delete {c' : Session} {rows : KeyTable} (h : s.deleteRows i c rows = some c') :
    ∀ d ∈ s.others i, Apart c' d := by
  obtain ⟨-, hrevoked, hwrites, -, hfree⟩ := deleteRows_spec h
  intro d hd
  have hapart := hinv.apart i c hat d hd
  refine ⟨fun k hk => ?_, by rw [hrevoked]; exact hapart.2⟩
  by_cases hrow : k ∈ rows ∧ k ∉ c.gone
  · exact hfree k hrow.1 hrow.2 d hd
  · rw [Dict.mem_def, hwrites k, if_neg hrow] at hk
    exact hapart.1 k hk

theorem apart_put {h : String} (row : Row) (hfree : s.KeyFree i h) :
    ∀ d ∈ s.others i, Apart (c.put h row) d := by
  intro d hd
  have hapart := hinv.apart i c hat d hd
  refine ⟨fun k hk => ?_, hapart.2⟩
  rcases Dict.mem_set.mp hk with rfl | hold
  · exact hfree d hd
  · exact hapart.1 k hold

omit hinv hat in
/-- A call without writes of its own sees committed rows only. -/
theorem mem_seenKeys_of_fresh (hfree : ∀ h, h ∉ c.keyWrites) (h : String) :
    h ∈ s.seenKeys c ↔ h ∈ c.seen s.keys :=
  Dict.mem_overlay_of_notMem (hfree h)

omit hinv hat in
/-- What a call without writes of its own records of the rows that it sees. -/
theorem mem_recorded_of_fresh (hfree : ∀ h, h ∉ c.keyWrites) (hfresh : ∀ h, h ∉ c.revokedWrites)
    {gone : String → Prop} [DecidablePred gone] {c' : Session}
    (h : s.recordRows i c ((s.seenKeys c).filter fun h _ => decide (gone h)) = some c')
    (k : String) :
    k ∈ c'.revokedWrites ↔ k ∈ c.seen s.keys ∧ gone k ∧ k ∉ s.revoked := by
  rw [(recordRows_spec h).2.2.2.1 k, Dict.mem_filter_keys, mem_seenKeys_of_fresh hfree,
    decide_eq_true_eq, System.visibleRevoked, Dict.mem_update]
  simp only [hfresh k, or_false, false_or, and_assoc]

/-- A recorded row is in the table, and the statements to come see it. -/
theorem ok_recorded {next : Phase} (hfree : ∀ h, h ∉ c.keyWrites) (hdeleted : c.deleted = [])
    {c' : Session} (hkeys : c'.keyWrites = c.keyWrites) (hkept : c'.deleted = c.deleted)
    (hrec : ∀ k ∈ c'.revokedWrites, k ∈ c.seen s.keys ∧ next.Deletes k ∧ k ∉ s.revoked)
    (htodo : (c'.at next).toWrite = []) (hphase : PhaseOk s.keys s.revoked (c'.at next)) :
    SessionOk s.keys s.revoked (c'.at next) := by
  have hfree' : ∀ k, k ∉ c'.keyWrites := by rwa [hkeys]
  constructor
  · exact fun k hw => absurd (Dict.mem_iff.mpr ⟨_, hw⟩) (hfree' k)
  · exact fun k row hw => absurd (Dict.mem_iff.mpr ⟨_, hw⟩) (hfree' k)
  · intro k hk
    rw [htodo] at hk
    cases hk
  · intro k hk
    obtain ⟨hseen, hdel, hnot⟩ := hrec k hk
    have hkey := ((hinv.session i c hat).seenStays k hseen).resolve_right hnot
    exact Or.inr ⟨hdel, hfree' k, hkey, List.not_mem_nil⟩
  · exact fun k hw => absurd (Dict.mem_iff.mpr ⟨_, hw⟩) (hfree' k)
  · intro k hk
    rw [Session.at, hkept, hdeleted] at hk
    cases hk
  · exact fun k hk => Or.inl hk
  · exact fun k hk _ => hk
  · exact hphase

/-- A call that has written no row has deleted none. -/
theorem deleted_of_fresh (hfree : ∀ h, h ∉ c.keyWrites) : c.deleted = [] :=
  List.eq_nil_iff_forall_not_mem.mpr fun h hmem =>
    hfree h ((hinv.session i c hat).deletedWritten h hmem)

/-- `replace_all` records what its store lacks. -/
theorem ok_recordMissing {store : Store} (hp : c.phase = .recordMissing store) {c' : Session}
    (h : s.recordRows i c ((s.seenKeys c).filter fun h _ => decide (h ∉ store)) = some c') :
    SessionOk s.keys s.revoked (c'.at (.checkStore store)) := by
  obtain ⟨-, hkeys, hkept, -⟩ := recordRows_spec h
  have hphase := (hinv.session i c hat).phase
  simp only [PhaseOk, hp] at hphase
  obtain ⟨hfree, hfresh, hcover⟩ := hphase
  have hnew := mem_recorded_of_fresh hfree hfresh h
  have hfree' : ∀ k, k ∉ c'.keyWrites := by rwa [hkeys]
  refine ok_recorded hinv hat hfree (deleted_of_fresh hinv hat hfree) hkeys hkept ?_ rfl ?_
  · intro k hk
    obtain ⟨hseen, -, hnot⟩ := (hnew k).mp hk
    exact ⟨hseen, trivial, hnot⟩
  · refine ⟨hfree', fun k hk => ?_, fun k hk => ((hnew k).mp hk).2.1⟩
    by_cases hstore : k ∈ store
    · exact Or.inl hstore
    · have hseen := (hcover k hk).resolve_right hstore
      exact Or.inr ((hnew k).mpr ⟨hseen, hstore, fun hrec => hinv.disjoint k hrec hk⟩)

/-- It then asks which hashes of its store are recorded. -/
theorem ok_checkStore {store : Store} (hp : c.phase = .checkStore store) :
    SessionOk s.keys s.revoked
      (c.at (.deleteAll store (store.keys.filter fun h => h ∈ s.visibleRevoked c))) := by
  have hok := hinv.session i c hat
  have hphase := hok.phase
  simp only [PhaseOk, hp] at hphase
  obtain ⟨hfree, hcover, hown⟩ := hphase
  constructor
  · exact fun k hw => absurd (Dict.mem_iff.mpr ⟨_, hw⟩) (hfree k)
  · exact fun k row hw => absurd (Dict.mem_iff.mpr ⟨_, hw⟩) (hfree k)
  · intro k hk
    obtain ⟨hkept, hunseen⟩ := List.mem_filter.mp hk
    have hunseen : k ∉ s.visibleRevoked c := by
      intro hseen
      simp [hkept, hseen] at hunseen
    exact ⟨fun hrec => hunseen (Dict.mem_update.mpr (Or.inr hrec)),
      fun hrec => hunseen (Dict.mem_update.mpr (Or.inl hrec))⟩
  · intro k hk
    rcases hok.recorded k hk with hw | ⟨-, hrest, hseen, hfound⟩
    · exact Or.inl hw
    · exact Or.inr ⟨trivial, hrest, hok.foundStays k hseen hfound, List.not_mem_nil⟩
  · exact fun k hw => absurd (Dict.mem_iff.mpr ⟨_, hw⟩) (hfree k)
  · exact hok.deletedWritten
  · exact fun k hk => Or.inl hk
  · exact fun k hk _ => hk
  · refine ⟨hfree, hcover, hown, fun k hk => ?_⟩
    obtain ⟨hkept, hseen⟩ := List.mem_filter.mp hk
    rcases Dict.mem_update.mp (of_decide_eq_true hseen) with hrec | hrec
    · exact absurd (Dict.mem_keys_iff.mp hkept) (hown k hrec)
    · exact hrec

/-- The table is emptied: what its store lacks is recorded, the rest it will write again. -/
theorem ok_deleteAll {store : Store} {checked : List String}
    (hp : c.phase = .deleteAll store checked) {c' : Session}
    (h : s.deleteRows i c (s.seenKeys c) = some c') :
    SessionOk s.keys s.revoked
      (c'.at (.insertKept (store.entries.filter fun e => e.1 ∉ checked) 0)) := by
  obtain ⟨-, hrevoked, hwrites, hdeletes, -⟩ := deleteRows_spec h
  have hok := hinv.session i c hat
  have hphase := hok.phase
  simp only [PhaseOk, hp] at hphase
  obtain ⟨hfree, hcover, hown, hchecked⟩ := hphase
  have htodo : ∀ k, k ∈ (store.entries.filter fun e => e.1 ∉ checked).map Prod.fst ↔
      k ∈ c.toWrite := by
    intro k
    rw [Session.toWrite, hp]
    simp only [Dict.keys, List.mem_map, List.mem_filter]
    constructor
    · rintro ⟨e, ⟨he, hne⟩, rfl⟩
      exact ⟨⟨e, he, rfl⟩, hne⟩
    · rintro ⟨⟨e, he, rfl⟩, hne⟩
      exact ⟨e, ⟨he, hne⟩, rfl⟩
  have hremoved : ∀ k, (c'.at (.insertKept (store.entries.filter fun e => e.1 ∉ checked)
      0)).keyWrites.get? k = if k ∈ c.seen s.keys ∧ k ∉ c.gone then some none else none := by
    intro k
    rw [Session.at, hwrites k, Dict.notMem_iff.mp (hfree k)]
    simp only [mem_seenKeys_of_fresh hfree]
  constructor
  · intro k hw
    rw [hremoved] at hw
    split at hw
    · rename_i hsees
      have hkey := hok.foundStays k hsees.1 hsees.2
      rw [Session.at, hrevoked]
      rcases hcover k hsees.1 with hkept | hrec
      · refine Or.inr ((htodo k).mpr ?_)
        rw [Session.toWrite, hp]
        refine List.mem_filter.mpr ⟨Dict.mem_keys_iff.mpr hkept, ?_⟩
        -- a recorded hash is not in the table, so the delete did not remove it
        exact decide_eq_true fun hmem => hinv.disjoint k (hchecked k hmem) hkey
      · exact Or.inl hrec
    · cases hw
  · intro k row hw
    rw [hremoved] at hw
    split at hw <;> cases hw
  · intro k hk
    have := hok.toWrite k ((htodo k).mp hk)
    rwa [Session.at, hrevoked]
  · intro k hk
    rw [Session.at, hrevoked] at hk
    rcases hok.recorded k hk with hw | ⟨-, -, hsees⟩
    · exact absurd (Dict.mem_iff.mpr ⟨_, hw⟩) (hfree k)
    · left
      rw [hremoved, if_pos hsees]
  · intro k hw
    rw [hremoved] at hw
    split at hw
    · rename_i hsees
      exact (hdeletes k).mpr (Or.inr ⟨(mem_seenKeys_of_fresh hfree k).mpr hsees.1, hsees.2⟩)
    · cases hw
  · intro k hk
    rcases (hdeletes k).mp hk with hold | hsees
    · exact absurd (hok.deletedWritten k hold) (hfree k)
    · rw [mem_seenKeys_of_fresh hfree] at hsees
      exact Dict.mem_iff.mpr ⟨none, by rw [hremoved, if_pos hsees]⟩
  · exact fun k hk => Or.inl hk
  · exact fun k hk _ => hk
  · trivial

/-- A checked hash is written: an `INSERT` of `replace_all`, an upsert of `transact`. -/
theorem ok_put {h : String} {row : Row} {next : Phase} {rest : List String}
    (htodo : c.toWrite = h :: rest) (hrest : ((c.put h row).at next).toWrite = rest)
    (hdone : ∀ k, ¬ c.phase.Deletes k)
    (hnext : ∀ d : Session, d.phase = next → PhaseOk s.keys s.revoked d) :
    SessionOk s.keys s.revoked ((c.put h row).at next) := by
  have hok := hinv.session i c hat
  have hhead : h ∈ c.toWrite := by
    rw [htodo]
    exact List.mem_cons_self
  have hwrites : ∀ k, ((c.put h row).at next).keyWrites.get? k =
      if k = h then some (some row) else c.keyWrites.get? k :=
    fun k => Dict.get?_set c.keyWrites h k (some row)
  constructor
  · intro k hw
    rw [hwrites k] at hw
    split at hw
    · cases hw
    · rename_i hne
      rcases hok.removed k hw with hrec | hpending
      · exact Or.inl hrec
      · rw [hrest]
        rw [htodo] at hpending
        exact Or.inr ((List.mem_cons.mp hpending).resolve_left hne)
  · intro k row' hw
    rw [hwrites k] at hw
    split at hw
    · rename_i heq
      rw [heq]
      exact hok.toWrite h hhead
    · exact hok.written k row' hw
  · intro k hk
    rw [hrest] at hk
    refine hok.toWrite k ?_
    rw [htodo]
    exact List.mem_cons_of_mem h hk
  · intro k hk
    rcases hok.recorded k hk with hw | ⟨hdel, -⟩
    · have hne : k ≠ h := by
        rintro rfl
        exact (hok.toWrite k hhead).2 hk
      left
      rw [hwrites k, if_neg hne]
      exact hw
    · exact absurd hdel (hdone k)
  · intro k hw
    rw [hwrites k] at hw
    split at hw
    · cases hw
    · exact hok.removedDeleted k hw
  · exact fun k hk => Dict.mem_set.mpr (Or.inr (hok.deletedWritten k hk))
  · exact fun k hk => Or.inl hk
  · exact fun k hk _ => hk
  · exact hnext _ rfl

omit hinv hat in
theorem notMem_removed_of_mem_upserts {before after : Store} {e : String × Json}
    (he : e ∈ upsertsOf before after) : e.1 ∉ removedBy before after := by
  intro hmem
  have hgone := of_decide_eq_true (List.mem_filter.mp hmem).2
  have hentry := (List.mem_filter.mp he).1
  exact hgone (Dict.mem_keys_iff.mp (List.mem_map_of_mem (f := Prod.fst) hentry))

omit hinv hat in
/-- After its removals a call holds nothing but deletions that it has recorded. -/
theorem ok_afterRemovals {d : Session} {upserts : List (String × Json)} {result : OpResult}
    {after : Store} (hdeleted : ∀ h, d.keyWrites.get? h = some none → h ∈ d.revokedWrites)
    (hwritten : ∀ h row, d.keyWrites.get? h ≠ some (some row))
    (hrecorded : ∀ h ∈ d.revokedWrites, d.keyWrites.get? h = some none)
    (hremoved : ∀ h, d.keyWrites.get? h = some none ↔ h ∈ d.deleted)
    (hupserts : ∀ e ∈ upserts, e.1 ∉ d.revokedWrites) :
    SessionOk s.keys s.revoked (d.at (afterRemovals upserts result after)) := by
  have htodo : (d.at (afterRemovals upserts result after)).toWrite = [] := by
    unfold afterRemovals
    split <;> rfl
  constructor
  · exact fun k hw => Or.inl (hdeleted k hw)
  · exact fun k row hw => absurd hw (hwritten k row)
  · intro k hk
    rw [htodo] at hk
    cases hk
  · exact fun k hk => Or.inl (hrecorded k hk)
  · exact fun k hw => (hremoved k).mp hw
  · exact fun k hk => Dict.mem_iff.mpr ⟨none, (hremoved k).mpr hk⟩
  · exact fun k hk => Or.inl hk
  · exact fun k hk _ => hk
  · unfold Session.at afterRemovals
    split
    · trivial
    · exact hupserts

omit hinv hat in
/-- The mutation is applied to the rows that the call reads under its lock. -/
theorem ok_writeDiff (hfree : ∀ h, h ∉ c.keyWrites) (hfresh : ∀ h, h ∉ c.revokedWrites)
    (hdeleted : c.deleted = []) (after : Store) (result : OpResult) :
    SessionOk s.keys s.revoked
      (c.at (writeDiff (storeOf (s.visibleKeys c)) after result)) := by
  simp only [writeDiff]
  split
  · apply ok_afterRemovals
    · exact fun k hw => absurd (Dict.mem_iff.mpr ⟨_, hw⟩) (hfree k)
    · exact fun k row hw => absurd (Dict.mem_iff.mpr ⟨_, hw⟩) (hfree k)
    · exact fun k hk => absurd hk (hfresh k)
    · intro k
      rw [hdeleted, Dict.notMem_iff.mp (hfree k)]
      simp
    · exact fun e _ => hfresh e.1
  · refine SessionOk.of_fresh hfree hfresh hdeleted rfl rfl ⟨hfree, hfresh, fun k hk => ?_, ?_⟩
    · have hbefore := Dict.mem_keys_iff.mp (List.mem_filter.mp hk).1
      rw [storeOf, Dict.mem_map_iff] at hbefore
      exact Or.inl ((Dict.mem_overlay_of_notMem (hfree k)).mp hbefore)
    · exact fun e he => notMem_removed_of_mem_upserts he

theorem ok_recordRemoved {removed : List String} {upserts : List (String × Json)}
    {result : OpResult} {after : Store}
    (hp : c.phase = .recordRemoved removed upserts result after) {c' : Session}
    (h : s.recordRows i c ((s.seenKeys c).filter fun h _ => decide (h ∈ removed)) = some c') :
    SessionOk s.keys s.revoked (c'.at (.deleteRemoved removed upserts result after)) := by
  obtain ⟨-, hkeys, hkept, -⟩ := recordRows_spec h
  have hphase := (hinv.session i c hat).phase
  simp only [PhaseOk, hp] at hphase
  obtain ⟨hfree, hfresh, hgone, hapart⟩ := hphase
  have hnew := mem_recorded_of_fresh hfree hfresh h
  have hfree' : ∀ k, k ∉ c'.keyWrites := by rwa [hkeys]
  refine ok_recorded hinv hat hfree (deleted_of_fresh hinv hat hfree) hkeys hkept ?_ rfl ?_
  · exact fun k hk => (hnew k).mp hk
  · refine ⟨hfree', fun k hk => ?_, fun k hk => ((hnew k).mp hk).2.1, hapart⟩
    by_cases hrec : k ∈ s.revoked
    · exact Or.inr hrec
    · exact Or.inl ((hnew k).mpr ⟨(hgone k hk).resolve_right hrec, hk, hrec⟩)

theorem ok_deleteRemoved {removed : List String} {upserts : List (String × Json)}
    {result : OpResult} {after : Store}
    (hp : c.phase = .deleteRemoved removed upserts result after) {c' : Session}
    (h : s.deleteRows i c ((s.seenKeys c).filter fun h _ => decide (h ∈ removed)) = some c') :
    SessionOk s.keys s.revoked (c'.at (afterRemovals upserts result after)) := by
  obtain ⟨-, hrevoked, hwrites, hdeletes, -⟩ := deleteRows_spec h
  have hok := hinv.session i c hat
  have hphase := hok.phase
  simp only [PhaseOk, hp] at hphase
  obtain ⟨hfree, hgone, hsub, hapart⟩ := hphase
  have hrows : ∀ k, k ∈ (s.seenKeys c).filter (fun h _ => decide (h ∈ removed)) ↔
      k ∈ c.seen s.keys ∧ k ∈ removed := by
    intro k
    rw [Dict.mem_filter_keys, mem_seenKeys_of_fresh hfree, decide_eq_true_eq]
  have hremoved : ∀ k, c'.keyWrites.get? k =
      if (k ∈ c.seen s.keys ∧ k ∈ removed) ∧ k ∉ c.gone then some none else none := by
    intro k
    rw [hwrites k, Dict.notMem_iff.mp (hfree k)]
    simp only [hrows]
  apply ok_afterRemovals
  · intro k hw
    rw [hremoved k] at hw
    split at hw
    · rename_i hrow
      have hkey := hok.foundStays k hrow.1.1 hrow.2
      rw [hrevoked]
      exact (hgone k hrow.1.2).resolve_right fun hrec => hinv.disjoint k hrec hkey
    · cases hw
  · intro k row hw
    rw [hremoved k] at hw
    split at hw <;> cases hw
  · intro k hk
    rw [hrevoked] at hk
    rcases hok.recorded k hk with hw | ⟨-, -, hseen, hfound⟩
    · exact absurd (Dict.mem_iff.mpr ⟨_, hw⟩) (hfree k)
    · rw [hremoved k, if_pos ⟨⟨hseen, hsub k hk⟩, hfound⟩]
  · intro k
    rw [hdeletes, deleted_of_fresh hinv hat hfree, hremoved k, hrows]
    simp [and_assoc]
  · intro e he
    rw [hrevoked]
    exact fun hrec => hapart e he (hsub e.1 hrec)

theorem ok_checkUpserts {upserts : List (String × Json)} {result : OpResult}
    {after after' : Store} (hp : c.phase = .checkUpserts upserts result after) :
    SessionOk s.keys s.revoked (c.at (.upsert
      (upserts.filter fun e => e.1 ∉ (upserts.map Prod.fst).filter fun h =>
        h ∈ s.visibleRevoked c) result after')) := by
  have hok := hinv.session i c hat
  have hphase := hok.phase
  simp only [PhaseOk, hp] at hphase
  constructor
  · intro k hw
    refine Or.inl ((hok.removed k hw).resolve_right ?_)
    rw [Session.toWrite, hp]
    exact List.not_mem_nil
  · exact hok.written
  · intro k hk
    obtain ⟨e, he, rfl⟩ := List.mem_map.mp hk
    obtain ⟨hmem, hunseen⟩ := List.mem_filter.mp he
    refine ⟨fun hrec => of_decide_eq_true hunseen ?_, hphase e hmem⟩
    exact List.mem_filter.mpr ⟨List.mem_map_of_mem (f := Prod.fst) hmem,
      decide_eq_true (Dict.mem_update.mpr (Or.inr hrec))⟩
  · intro k hk
    rcases hok.recorded k hk with hw | ⟨hdel, -⟩
    · exact Or.inl hw
    · rw [hp] at hdel
      exact hdel.elim
  · exact hok.removedDeleted
  · exact hok.deletedWritten
  · exact fun k hk => Or.inl hk
  · exact fun k hk _ => hk
  · trivial

/-- The snapshot of a statement that begins now. -/
theorem toWrite_begin :
    Session.toWrite { c with snapshot := some ⟨s.keys, s.revoked, []⟩ } = c.toWrite ∨
      ((∀ k, k ∉ c.keyWrites) ∧
        ∀ k ∈ Session.toWrite { c with snapshot := some ⟨s.keys, s.revoked, []⟩ },
          k ∉ s.revoked ∧ k ∉ c.revokedWrites) := by
  have hphase := (hinv.session i c hat).phase
  unfold PhaseOk at hphase
  unfold Session.toWrite
  cases hp : c.phase with
  | insertNew entries inserted =>
    simp only [hp] at hphase
    refine Or.inr ⟨hphase.1, fun k hk => ?_⟩
    cases entries with
    | nil => cases hk
    | cons e rest =>
      dsimp only at hk
      split at hk
      · cases hk
      · rename_i hnot
        rw [List.mem_singleton.mp hk]
        exact ⟨hnot, hphase.2 _⟩
  | _ => exact Or.inl rfl

theorem ok_begin (hsnapshot : c.snapshot = none) :
    SessionOk s.keys s.revoked { c with snapshot := some ⟨s.keys, s.revoked, []⟩ } := by
  have hok := hinv.session i c hat
  have hseen : c.seen s.keys = s.keys := by rw [Session.seen, hsnapshot]
  have htodo := toWrite_begin hinv hat
  constructor
  · intro k hw
    rcases htodo with hsame | ⟨hfree, -⟩
    · rw [hsame]
      exact hok.removed k hw
    · exact absurd (Dict.mem_iff.mpr ⟨_, hw⟩) (hfree k)
  · exact hok.written
  · intro k hk
    rcases htodo with hsame | ⟨-, hunrecorded⟩
    · exact hok.toWrite k (hsame ▸ hk)
    · exact hunrecorded k hk
  · intro k hk
    rcases hok.recorded k hk with hw | ⟨hdel, hfree, hsees, hfound⟩
    · exact Or.inl hw
    · exact Or.inr ⟨hdel, hfree, hok.foundStays k hsees hfound, List.not_mem_nil⟩
  · exact hok.removedDeleted
  · exact hok.deletedWritten
  · exact fun k hk => Or.inl hk
  · exact fun k hk _ => hk
  · have hphase := hok.phase
    unfold PhaseOk at hphase ⊢
    rw [hseen] at hphase
    exact hphase

end Statement

/-! ## 6. One step, and the run -/

/-- A key sync goes on with what is left to insert. -/
theorem ok_insertNew {keys : KeyTable} {revoked : RevokedTable} {c : Session}
    (hkeys : ∀ h, h ∉ c.keyWrites) (hrevoked : ∀ h, h ∉ c.revokedWrites) (hdeleted : c.deleted = [])
    (entries : List (String × Json)) (inserted : Nat) :
    SessionOk keys revoked (c.at (.insertNew entries inserted)) := by
  have htodo : (c.at (.insertNew entries inserted)).toWrite = [] := by cases entries <;> rfl
  exact SessionOk.of_fresh hkeys hrevoked hdeleted rfl htodo ⟨hkeys, hrevoked⟩

/-- The hash that a key sync inserts has no record by now. -/
theorem unrecorded_of_unseen {s : System} {c : Session} {h : String} {entry : Json}
    {rest : List (String × Json)} {inserted : Nat} (hok : SessionOk s.keys s.revoked c)
    (hp : c.phase = .insertNew ((h, entry) :: rest) inserted) (hunseen : h ∉ s.seenRevoked c) :
    h ∉ s.revoked := by
  rw [System.seenRevoked] at hunseen
  cases hsnapshot : c.snapshot with
  | none =>
    rw [hsnapshot] at hunseen
    exact hunseen
  | some snapshot =>
    rw [hsnapshot] at hunseen
    have htodo : h ∈ c.toWrite := by
      unfold Session.toWrite
      rw [hp, hsnapshot]
      dsimp only
      rw [if_neg hunseen]
      exact List.mem_singleton_self h
    exact (hok.toWrite h htodo).1

variable {py : Builtins} {s s' : System}

section

variable (hinv : SystemOk s) {i : Nat} {c : Session} (hat : s.sessions[i]? = some c)
include hinv

/-- What changes one session only keeps the tables. -/
theorem become_ok {c' : Session} (hown : SessionOk s.keys s.revoked c')
    (hapart : ∀ d ∈ s.others i, Apart c' d) :
    SystemOk (s.become i c') ∧ ∀ k, Accounted k s → Accounted k (s.become i c') :=
  ⟨hinv.become hown hapart, fun _ hacc => hacc⟩

theorem rollback_ok (i : Nat) :
    SystemOk (s.rollback i) ∧ ∀ k, Accounted k s → Accounted k (s.rollback i) :=
  ⟨hinv.rollback i, fun _ hacc => hacc⟩

include hat

theorem commit_ok (hcond : Undisturbed py s (.statement i)) (hcommits : c.phase.Commits)
    (answer : Answer) :
    SystemOk (s.commit i c answer) ∧ ∀ k, Accounted k s → Accounted k (s.commit i c answer) := by
  have hok := hinv.session i c hat
  refine ⟨?_, fun k hacc => accounted_commit hok hcommits hacc i answer⟩
  refine hinv.replace c.deleted (disjoint_commit hok hcommits hinv.disjoint) ?_ ?_ ?_
  · exact SessionOk.of_fresh Dict.notMem_empty Dict.notMem_empty rfl rfl rfl
      ⟨Dict.notMem_empty, Dict.notMem_empty⟩
  · intro d hd
    obtain ⟨hspares, htodo, hrenews⟩ := hcond c hat d hd
    exact (hinv.others hd).stable
      (tablesMove_commit hok hcommits (hinv.apart i c hat d hd) hspares htodo hrenews)
  · exact fun _ _ => Apart.of_fresh Dict.notMem_empty Dict.notMem_empty

/-- A key sync puts a hash into the table that has no row and no record. -/
theorem inserted_ok (hcond : Undisturbed py s (.statement i)) {h : String} {entry : Json}
    {row : Row} {rest : List (String × Json)} {inserted : Nat}
    (hp : c.phase = .insertNew ((h, entry) :: rest) inserted)
    (hrow : rowArgs py entry = some row) (hunseen : h ∉ s.seenRevoked c) {c' : Session}
    (hown : ∀ keys, SessionOk keys s.revoked c') (hapart : ∀ d ∈ s.others i, Apart c' d) :
    let inserted : System := { s.become i c' with keys := s.keys.set h row }
    SystemOk inserted ∧ ∀ k, Accounted k s → Accounted k inserted := by
  have hrevoked := unrecorded_of_unseen (hinv.session i c hat) hp hunseen
  have hmove : ∀ d ∈ s.others i,
      TablesMove s.keys (s.keys.set h row) s.revoked s.revoked [] d := by
    intro d hd
    constructor
    · exact fun _ hl => hl
    · exact fun l hl => Or.inl (Dict.mem_set.mpr (Or.inr hl))
    · exact fun l hl _ => Dict.mem_set.mpr (Or.inr hl)
    · exact fun l hl => absurd hl List.not_mem_nil
    · exact fun l hl hnot => absurd (Dict.mem_set.mpr (Or.inr hl)) hnot
    · intro l hl hnot
      have heq := (Dict.mem_set.mp hl).resolve_right hnot
      refine (hcond c hat d hd).1 l ?_ hnot
      rw [heq]
      exact Or.inr ⟨entry, rest, inserted, hp, hunseen, by rw [hrow]; rfl⟩
    · exact fun l hl hnot => absurd hl hnot
  constructor
  · have hreplaced : SystemOk ⟨s.keys.set h row, s.revoked,
        (s.sessions.map (Session.lose [])).set i c'⟩ := by
      refine hinv.replace [] ?_ (hown _) ?_ hapart
      · intro l hl hmem
        rcases Dict.mem_set.mp hmem with rfl | hold
        · exact hrevoked hl
        · exact hinv.disjoint l hl hold
      · exact fun d hd => (hinv.others hd).stable (hmove d hd)
    rwa [lose_nil, List.map_id] at hreplaced
  · exact fun l hacc => hacc.imp_left fun hl => Dict.mem_set.mpr (Or.inr hl)

end

/-- A statement that the condition allows keeps the invariant, and loses no hash. -/
theorem statement_ok (hinv : SystemOk s) {i : Nat} {c : Session} (hat : s.sessions[i]? = some c)
    (hcond : Undisturbed py s (.statement i)) (h : s.statement py i c = some s') :
    SystemOk s' ∧ ∀ k, Accounted k s → Accounted k s' := by
  have hapart := hinv.apart i c hat
  have hdeleted : (∀ k, k ∉ c.keyWrites) → c.deleted = [] := deleted_of_fresh hinv hat
  have hphase := (hinv.session i c hat).phase
  unfold PhaseOk at hphase
  unfold System.statement at h
  cases hp : c.phase with
  | recordMissing store =>
    simp only [hp] at h hphase
    obtain ⟨c', hc', h⟩ := Option.bind_eq_some_iff.mp h
    cases h
    exact become_ok hinv (ok_recordMissing hinv hat hp hc')
      fun d hd => (apart_record hinv hat hc' d hd).at _
  | checkStore store =>
    simp only [hp] at h
    cases h
    exact become_ok hinv (ok_checkStore hinv hat hp) fun d hd => (hapart d hd).at _
  | deleteAll store checked =>
    simp only [hp] at h
    obtain ⟨c', hc', h⟩ := Option.bind_eq_some_iff.mp h
    cases h
    exact become_ok hinv (ok_deleteAll hinv hat hp hc')
      fun d hd => (apart_delete hinv hat hc' d hd).at _
  | insertKept entries written =>
    have hnone : ∀ l, ¬ c.phase.Deletes l := by
      intro l hdel
      rw [hp] at hdel
      exact hdel
    cases entries with
    | nil =>
      simp only [hp] at h
      cases h
      exact commit_ok hinv hat hcond (by rw [hp]; trivial) _
    | cons e rest =>
      obtain ⟨k, entry⟩ := e
      simp only [hp] at h
      split at h
      · cases h
        exact rollback_ok hinv i
      · rename_i row hrow
        split at h
        · rename_i hfree
          split at h
          · cases h
            exact rollback_ok hinv i
          · cases h
            refine become_ok hinv (ok_put hinv hat ?_ rfl hnone ?_)
              fun d hd => (apart_put hinv hat row hfree d hd).at _
            · rw [Session.toWrite, hp]
              exact List.map_cons
            · intro d hd
              rw [PhaseOk, hd]
              trivial
        · cases h
  | lock mutation =>
    simp only [hp] at h hphase
    split at h
    · cases h
      exact become_ok hinv
        (SessionOk.of_fresh hphase.1 hphase.2 (hdeleted hphase.1) rfl rfl hphase)
        fun d hd => (hapart d hd).at _
    · cases h
  | selectRows mutation =>
    simp only [hp] at h hphase
    split at h
    · cases h
      exact rollback_ok hinv i
    · rename_i changed result after hmutation
      cases h
      refine become_ok hinv ?_ fun d hd => (hapart d hd).at _
      cases changed with
      | true => exact ok_writeDiff hphase.1 hphase.2 (hdeleted hphase.1) after result
      | false =>
        exact SessionOk.of_fresh hphase.1 hphase.2 (hdeleted hphase.1) rfl rfl
          trivial
  | recordRemoved removed upserts result after =>
    simp only [hp] at h
    obtain ⟨c', hc', h⟩ := Option.bind_eq_some_iff.mp h
    cases h
    exact become_ok hinv (ok_recordRemoved hinv hat hp hc')
      fun d hd => (apart_record hinv hat hc' d hd).at _
  | deleteRemoved removed upserts result after =>
    simp only [hp] at h
    obtain ⟨c', hc', h⟩ := Option.bind_eq_some_iff.mp h
    cases h
    exact become_ok hinv (ok_deleteRemoved hinv hat hp hc')
      fun d hd => (apart_delete hinv hat hc' d hd).at _
  | checkUpserts upserts result after =>
    simp only [hp] at h
    cases h
    exact become_ok hinv (ok_checkUpserts hinv hat hp) fun d hd => (hapart d hd).at _
  | upsert entries result after =>
    have hnone : ∀ l, ¬ c.phase.Deletes l := by
      intro l hdel
      rw [hp] at hdel
      exact hdel
    cases entries with
    | nil =>
      simp only [hp] at h
      cases h
      exact commit_ok hinv hat hcond (by rw [hp]; trivial) _
    | cons e rest =>
      obtain ⟨k, entry⟩ := e
      simp only [hp] at h
      split at h
      · cases h
        exact rollback_ok hinv i
      · rename_i row hrow
        split at h
        · rename_i hfree
          cases h
          refine become_ok hinv (ok_put hinv hat ?_ rfl hnone ?_)
            fun d hd => (apart_put hinv hat row hfree d hd).at _
          · rw [Session.toWrite, hp]
            exact List.map_cons
          · intro d hd
            rw [PhaseOk, hd]
            trivial
        · cases h
  | insertNew entries inserted =>
    simp only [hp] at hphase
    obtain ⟨hkeys, hrevoked⟩ := hphase
    cases entries with
    | nil =>
      simp only [hp] at h
      cases h
      exact become_ok hinv (SessionOk.of_fresh hkeys hrevoked (hdeleted hkeys) rfl rfl
        ⟨hkeys, hrevoked⟩) fun d hd => (hapart d hd).at _
    | cons e rest =>
      obtain ⟨k, entry⟩ := e
      simp only [hp] at h
      split at h
      · cases h
        exact rollback_ok hinv i
      · rename_i row hrow
        split at h
        · cases h
          exact become_ok hinv (ok_insertNew hkeys hrevoked (hdeleted hkeys) rest inserted)
            fun d hd => (hapart d hd).at _
        · rename_i hunseen
          split at h
          · rename_i hfree
            split at h
            · cases h
              exact become_ok hinv (ok_insertNew hkeys hrevoked (hdeleted hkeys) rest inserted)
                fun d hd => (hapart d hd).at _
            · rename_i hnew
              cases h
              exact inserted_ok hinv hat hcond hp hrow hunseen
                (fun _ => ok_insertNew hkeys hrevoked (hdeleted hkeys) rest (inserted + 1))
                fun d hd => (hapart d hd).at _
          · cases h
  | ended answer =>
    simp only [hp] at h
    cases h

theorem fresh_ofCall (keys : KeyTable) (revoked : RevokedTable) (call : Call) :
    SessionOk keys revoked (Session.ofCall call) ∧ ∀ d, Apart (Session.ofCall call) d := by
  refine ⟨?_, fun _ => ?_⟩
  · cases call with
    | replaceAll store =>
      exact SessionOk.of_fresh Dict.notMem_empty Dict.notMem_empty rfl rfl rfl
        ⟨Dict.notMem_empty, Dict.notMem_empty, fun _ hmem => Or.inl hmem⟩
    | transact mutation =>
      exact SessionOk.of_fresh Dict.notMem_empty Dict.notMem_empty rfl rfl rfl
        ⟨Dict.notMem_empty, Dict.notMem_empty⟩
    | upsertKeys store =>
      exact @ok_insertNew keys revoked (Session.ofCall (.upsertKeys store)) Dict.notMem_empty
        Dict.notMem_empty rfl store.entries 0
  · cases call with
    | _ => exact Apart.of_fresh Dict.notMem_empty Dict.notMem_empty

/-- A new call has written nothing. -/
theorem SystemOk.call (hinv : SystemOk s) (call : Call) :
    SystemOk { s with sessions := s.sessions ++ [Session.ofCall call] } := by
  obtain ⟨hnew, hapart⟩ := fresh_ofCall s.keys s.revoked call
  have hget : ∀ (j : Nat) (d : Session), (s.sessions ++ [Session.ofCall call])[j]? = some d →
      s.sessions[j]? = some d ∨ (j = s.sessions.length ∧ d = Session.ofCall call) := by
    intro j d hd
    rcases lt_or_ge j s.sessions.length with hlt | hge
    · rw [List.getElem?_append_left hlt] at hd
      exact Or.inl hd
    · rw [List.getElem?_append_right hge] at hd
      obtain ⟨hj, hval⟩ := List.getElem?_eq_some_iff.mp hd
      have hj : j = s.sessions.length := by
        simp only [List.length_singleton] at hj
        omega
      exact Or.inr ⟨hj, by simpa using hval.symm⟩
  constructor
  · exact hinv.disjoint
  · intro j d hd
    rcases hget j d hd with hold | ⟨-, rfl⟩
    · exact hinv.session j d hold
    · exact hnew
  · intro j d hd e he
    obtain ⟨k, hkj, hk⟩ := mem_others_iff.mp he
    rcases hget j d hd with hold | ⟨rfl, rfl⟩
    · rcases hget k e hk with hkold | ⟨-, rfl⟩
      · exact hinv.apart j d hold e (mem_others_iff.mpr ⟨k, hkj, hkold⟩)
      · exact (hapart d).symm
    · exact hapart e

theorem step_ok (hinv : SystemOk s) {label : Label} (hcond : Undisturbed py s label)
    (h : step py s label = some s') : SystemOk s' ∧ ∀ k, Accounted k s → Accounted k s' := by
  cases label with
  | call call =>
    cases h
    exact ⟨hinv.call call, fun _ hacc => hacc⟩
  | begin i =>
    obtain ⟨c, hat, h⟩ := Option.bind_eq_some_iff.mp h
    rw [System.begin] at h
    split at h
    · rename_i hbegins
      cases h
      have hown := ok_begin hinv hat (Option.isNone_iff_eq_none.mp hbegins.2)
      exact ⟨hinv.become hown fun d hd => hinv.apart i c hat d hd, fun _ hacc => hacc⟩
    · cases h
  | statement i =>
    obtain ⟨c, hat, h⟩ := Option.bind_eq_some_iff.mp h
    exact statement_ok hinv hat hcond h
  | fail i =>
    simp only [step] at h
    split at h
    · cases h
    · split at h
      · cases h
      · cases h
        exact ⟨hinv.rollback i, fun _ hacc => hacc⟩

theorem start_ok {keys : KeyTable} {revoked : RevokedTable} (h : ∀ k ∈ revoked, k ∉ keys) :
    SystemOk (System.start keys revoked) where
  disjoint := h
  session _ _ hat := by simp [System.start] at hat
  apart _ _ hat := by simp [System.start] at hat

/-- In a run without the three disturbances every committed state keeps the rule. -/
theorem revocation_of_undisturbed (py : Builtins) (keys : KeyTable) (revoked : RevokedTable)
    (labels : List Label) (hstart : ∀ h ∈ revoked, h ∉ keys)
    (hcond : AllSteps (step py) (Undisturbed py) (System.start keys revoked) labels) :
    RevocationKept py (System.start keys revoked) labels := by
  intro before between after s s' heq hbefore hbetween h
  rw [List.append_assoc] at heq
  have hinv : SystemOk s := by
    have halways := always_of_allSteps (fun _ _ _ hp hc hs => (step_ok hp hc hs).1)
      (start_ok hstart) hcond
    exact (always_iff_prefixes _ _).mp halways before (between ++ after) s heq hbefore
  have hrest : AllSteps (step py) (Undisturbed py) s (between ++ after) :=
    (heq ▸ hcond).suffix hbefore
  have hlater : ∀ P : System → Prop, P s →
      (∀ s a s', (SystemOk s ∧ P s) → Undisturbed py s a → step py s a = some s' → P s') →
      SystemOk s' ∧ P s' := by
    intro P hp hstep
    have halways := always_of_allSteps (P := fun s => SystemOk s ∧ P s)
      (fun s a s' hi hc hs => ⟨(step_ok hi.1 hc hs).1, hstep s a s' hi hc hs⟩) ⟨hinv, hp⟩ hrest
    exact (always_iff_prefixes _ _).mp halways between after s' rfl hbetween
  constructor
  · intro hin hout
    have hacc := (hlater (Accounted h) (Or.inl hin)
      fun s a s' hi hc hs => (step_ok hi.1 hc hs).2 h hi.2).2
    exact hacc.resolve_left hout
  · exact (hlater (fun _ => True) trivial fun _ _ _ _ _ _ => trivial).1.disjoint h

/-! ## 7. The three disturbances -/

/-- `str` and `<` on strings only; the runs below need no more. -/
def plainBuiltins : Builtins := ⟨fun _ => "", fun _ _ => none⟩

def acmeEntry : Json := .obj [("tenant_id", .str "acme"), ("tier", .str "free")]

def storeOfHash (h : String) : Store := (∅ : Store).set h acmeEntry

def tableOfHash (h : String) : KeyTable :=
  (∅ : KeyTable).set h ⟨"acme", "free", false, false, none, .obj []⟩

/-- The blob import writes a store that holds `a`, and between its two removing statements
    the key sync inserts `b`. -/
def overtakenImport : List Label :=
  [.call (.replaceAll (storeOfHash "a")), .statement 0, .call (.upsertKeys (storeOfHash "b")),
    .statement 1]

def importEnds : List Label := [.statement 0, .statement 0, .statement 0, .statement 0]

/-- An offboarding revokes `a` after the full-store write has asked about it. -/
def overtakenCheck : List Label :=
  [.call (.replaceAll (storeOfHash "a")), .statement 0, .statement 0,
    .call (.transact (deleteTenantKeys "acme")), .statement 1, .statement 1, .statement 1,
    .statement 1, .statement 1]

def writeEnds : List Label := [.statement 0, .statement 0, .statement 0]

/-- The key sync's insert of `a` has begun when an offboarding of `a` commits. -/
def overtakenSync : List Label :=
  [.call (.transact (deleteTenantKeys "acme")), .statement 0, .statement 0, .statement 0,
    .statement 0, .call (.upsertKeys (storeOfHash "a")), .begin 1, .statement 0]

def syncEnds : List Label := [.statement 1]

/-- A full-store write replaces the row of `a`, which an offboarding has begun to delete. -/
def overtakenDelete : List Label :=
  [.call (.replaceAll (storeOfHash "a")), .statement 0, .statement 0, .statement 0, .statement 0,
    .call (.transact (deleteTenantKeys "acme")), .statement 1, .statement 1, .statement 1,
    .begin 1, .statement 0]

def deleteEnds : List Label := [.statement 1, .statement 1]

theorem not_kept_of_runs {py : Builtins} {start : System} {before between : List Label}
    {h : String} (hlost : ∃ s s', exec (step py) start before = some s ∧
      exec (step py) s between = some s' ∧
      ((h ∈ s.keys ∧ h ∉ s'.keys ∧ h ∉ s'.revoked) ∨ (h ∈ s'.revoked ∧ h ∈ s'.keys))) :
    ¬ RevocationKept py start (before ++ between) := by
  intro hkept
  obtain ⟨s, s', hs, hs', hbad⟩ := hlost
  have hrule := hkept before between [] s s' (List.append_nil _).symm hs hs' h
  rcases hbad with ⟨hin, hout, hnot⟩ | ⟨hrec, hkey⟩
  · exact hnot (hrule.1 hin hout)
  · exact hrule.2 hrec hkey

/-- A key is removed without a record, and a recorded key is put back. -/
theorem revocation_not_always_kept :
    ¬ RevocationKept plainBuiltins (System.start (tableOfHash "a") ∅)
        (overtakenImport ++ importEnds) ∧
      ¬ RevocationKept plainBuiltins (System.start (tableOfHash "a") ∅)
        (overtakenCheck ++ writeEnds) ∧
      ¬ RevocationKept plainBuiltins (System.start (tableOfHash "a") ∅)
        (overtakenSync ++ syncEnds) ∧
      ¬ RevocationKept plainBuiltins (System.start (tableOfHash "a") ∅)
        (overtakenDelete ++ deleteEnds) := by
  refine ⟨?_, ?_, ?_, ?_⟩
  · refine not_kept_of_runs (h := "b") ⟨_, _, rfl, rfl, Or.inl ?_⟩
    decide
  · refine not_kept_of_runs (h := "a") ⟨_, _, rfl, rfl, Or.inr ?_⟩
    decide
  · refine not_kept_of_runs (h := "a") ⟨_, _, rfl, rfl, Or.inr ?_⟩
    decide
  · refine not_kept_of_runs (h := "a") ⟨_, _, rfl, rfl, Or.inr ?_⟩
    decide

theorem undisturbed_of_others {py : Builtins} {s : System} {i : Nat}
    (h : ∀ d ∈ s.others i, (∀ k, d.Spares k) ∧ d.toWrite = [] ∧
      (d.snapshot.isSome → d.revokedWrites = ∅)) :
    Undisturbed py s (.statement i) := by
  intro c _ d hd
  obtain ⟨hspares, htodo, hrecords⟩ := h d hd
  refine ⟨fun k _ _ => hspares k, fun k _ => ?_, fun k _ hbegun => ?_⟩
  · rw [htodo]
    exact List.not_mem_nil
  · rw [hrecords hbegun]
    exact Dict.notMem_empty k

/-- An offboarding during whose statements the key sync inserts another key. -/
def offboardingWithSync : List Label :=
  [.call (.transact (deleteTenantKeys "acme")), .statement 0,
    .call (.upsertKeys (storeOfHash "b")), .statement 0, .begin 0, .statement 1, .statement 0,
    .statement 0, .statement 0]

theorem revocation_offboardingWithSync :
    RevocationKept plainBuiltins (System.start (tableOfHash "a") ∅) offboardingWithSync := by
  apply revocation_of_undisturbed
  · exact fun h hmem => absurd hmem (Dict.notMem_empty h)
  · refine allSteps_cons rfl trivial (allSteps_cons rfl (undisturbed_of_others ?_)
      (allSteps_cons rfl trivial (allSteps_cons rfl (undisturbed_of_others ?_)
        (allSteps_cons rfl trivial (allSteps_cons rfl (undisturbed_of_others ?_)
          (allSteps_cons rfl (undisturbed_of_others ?_)
            (allSteps_cons rfl (undisturbed_of_others ?_)
              (allSteps_cons rfl (undisturbed_of_others ?_) trivial))))))))
    all_goals
      intro d hd
      first
      | exact absurd hd List.not_mem_nil
      | obtain rfl := List.mem_singleton.mp hd
        exact ⟨fun _ => trivial, rfl, fun _ => rfl⟩

end TokenProxy.PgKeyStore
