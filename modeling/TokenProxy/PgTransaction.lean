/-
  TokenProxy/PgTransaction.lean
  =============================
  **The store that `transact` returns, and the one that a full load then reads**
  (`auth/pg_key_store.py`).

  `transact` returns the store as the mutation left it, less the hashes that it was
  refused; the caller puts that store into its cache.  The next full load reads the
  rows.  The two agree when every entry that was written is in the form that a row
  gives back (`Canonical`), and no hash that was refused has a row.

  `create_key` takes a blank tier for `free` before it strips it, so a tier of
  spaces is stored as the empty text, which a full load reads as `free`.

  Main result: `returned_is_stored_iff`, for every mutation.
-/
import TokenProxy.Execution
import TokenProxy.StoredEntries

namespace TokenProxy.PgKeyStore

open Execution KeyStore
open Json (SameValue)

variable (py : Builtins)

/-! ## 1. A transaction with no other beside it -/

/-- `load_all` after the commit gives every entry that the call has returned, and no other. -/
def SameStore (loaded returned : Store) : Prop :=
  ∀ h, SameValue (loaded.get? h) (returned.get? h)

/-- The statements of one call. -/
def alone (mutation : Mutation) (statements : Nat) : List Label :=
  .call (.transact mutation) :: List.replicate statements (.statement 0)

/-- The call returns this store, and leaves this table. -/
def Returns (keys : KeyTable) (revoked : RevokedTable) (mutation : Mutation) (result : OpResult)
    (after : Store) (keys' : KeyTable) : Prop :=
  ∃ statements s, exec (step py) (.start keys revoked) (alone mutation statements) = some s ∧
    s.keys = keys' ∧ s.sessions.map Session.phase = [.ended (some (.applied result after))]

/-! ## 2. What a call has done at each of its statements -/

/-- The writes that a call has made when it has upserted some of the entries. -/
structure Wrote (removed : List String) (done : List (String × Json)) (c : Session) : Prop where
  upserted : ∀ e ∈ done, ∃ row, rowArgs py e.2 = some row ∧ c.keyWrites.get? e.1 = some (some row)
  others : ∀ h, h ∉ done.map Prod.fst →
    c.keyWrites.get? h = if h ∈ removed then some none else none

/-- The table and the store after a call that changed something. -/
structure Committed (keys : KeyTable) (revoked : RevokedTable) (store : Store)
    (after : Store) (keys' : KeyTable) : Prop where
  written : ∀ e ∈ upsertsOf (storeOf keys) store, e.1 ∉ revoked →
    ∃ row, rowArgs py e.2 = some row ∧ keys'.get? e.1 = some row
  kept : ∀ h, h ∉ ((upsertsOf (storeOf keys) store).filter fun e => e.1 ∉ revoked).map Prod.fst →
    keys'.get? h = if h ∈ removedBy (storeOf keys) store then none else keys.get? h
  returned : ∀ h, after.get? h =
    if h ∈ (upsertsOf (storeOf keys) store).map Prod.fst ∧ h ∈ revoked then none
    else store.get? h

/-- Where the call is, and what its session holds. -/
inductive Stage (keys : KeyTable) (revoked : RevokedTable) (mutation : Mutation) :
    System → Prop where
  | locking : Stage keys revoked mutation ⟨keys, revoked, [{ phase := .lock mutation }]⟩
  | selecting : Stage keys revoked mutation ⟨keys, revoked, [{ phase := .selectRows mutation }]⟩
  | unchanged {result : OpResult} {after : Store}
      (h : mutation (storeOf keys) = .ok (false, result, after)) :
      Stage keys revoked mutation ⟨keys, revoked, [{ phase := .upsert [] result after }]⟩
  | recording {result : OpResult} {store : Store} {c : Session}
      (h : mutation (storeOf keys) = .ok (true, result, store))
      (hphase : c.phase = .recordRemoved (removedBy (storeOf keys) store)
        (upsertsOf (storeOf keys) store) result store)
      (hkeys : c.keyWrites = ∅) (hrevoked : c.revokedWrites = ∅) (hsnapshot : c.snapshot = none) :
      Stage keys revoked mutation ⟨keys, revoked, [c]⟩
  | deleting {result : OpResult} {store : Store} {c : Session}
      (h : mutation (storeOf keys) = .ok (true, result, store))
      (hphase : c.phase = .deleteRemoved (removedBy (storeOf keys) store)
        (upsertsOf (storeOf keys) store) result store)
      (hkeys : c.keyWrites = ∅) (hsnapshot : c.snapshot = none)
      (hrevoked : ∀ h ∈ c.revokedWrites, h ∈ removedBy (storeOf keys) store) :
      Stage keys revoked mutation ⟨keys, revoked, [c]⟩
  | checking {result : OpResult} {store : Store} {c : Session}
      (h : mutation (storeOf keys) = .ok (true, result, store))
      (hphase : c.phase = .checkUpserts (upsertsOf (storeOf keys) store) result store)
      (hwrote : Wrote py (removedBy (storeOf keys) store) [] c)
      (hrevoked : ∀ h ∈ c.revokedWrites, h ∈ removedBy (storeOf keys) store) :
      Stage keys revoked mutation ⟨keys, revoked, [c]⟩
  | upserting {result : OpResult} {store after : Store} {c : Session}
      {done entries : List (String × Json)}
      (h : mutation (storeOf keys) = .ok (true, result, store))
      (hphase : c.phase = .upsert entries result after)
      (hsplit : (upsertsOf (storeOf keys) store).filter (fun e => e.1 ∉ revoked) = done ++ entries)
      (hwrote : Wrote py (removedBy (storeOf keys) store) done c)
      (hafter : ∀ h, after.get? h =
        if h ∈ (upsertsOf (storeOf keys) store).map Prod.fst ∧ h ∈ revoked then none
        else store.get? h) :
      Stage keys revoked mutation ⟨keys, revoked, [c]⟩
  | rolledBack : Stage keys revoked mutation ⟨keys, revoked, [{ phase := .ended none }]⟩
  | kept {result : OpResult} {after : Store} {keys' : KeyTable} {revoked' : RevokedTable}
      (h : mutation (storeOf keys) = .ok (false, result, after)) (hkeys : keys' = keys) :
      Stage keys revoked mutation
        ⟨keys', revoked', [{ phase := .ended (some (.applied result after)) }]⟩
  | committed {result : OpResult} {store after : Store} {keys' : KeyTable}
      {revoked' : RevokedTable} (h : mutation (storeOf keys) = .ok (true, result, store))
      (hcommitted : Committed py keys revoked store after keys') :
      Stage keys revoked mutation
        ⟨keys', revoked', [{ phase := .ended (some (.applied result after)) }]⟩

variable {py} {keys : KeyTable} {revoked : RevokedTable} {mutation : Mutation}

/-- The part of the call behind the removals. -/
theorem stage_afterRemovals {result : OpResult} {store : Store} {c : Session}
    (h : mutation (storeOf keys) = .ok (true, result, store))
    (hwrote : Wrote py (removedBy (storeOf keys) store) [] c)
    (hrevoked : ∀ h ∈ c.revokedWrites, h ∈ removedBy (storeOf keys) store) :
    Stage py keys revoked mutation ⟨keys, revoked,
      [c.at (afterRemovals (upsertsOf (storeOf keys) store) result store)]⟩ := by
  rw [afterRemovals]
  split
  · rename_i hempty
    rw [List.isEmpty_iff] at hempty
    have hsplit : (upsertsOf (storeOf keys) store).filter (fun e => e.1 ∉ revoked) = [] ++ [] := by
      rw [hempty]
      rfl
    refine .upserting h rfl hsplit ?_ fun k => ?_
    · exact ⟨hwrote.upserted, hwrote.others⟩
    · rw [hempty, if_neg (by simp)]
  · exact .checking h rfl ⟨hwrote.upserted, hwrote.others⟩ hrevoked

theorem mem_removedBy {store : Store} {h : String} :
    h ∈ removedBy (storeOf keys) store ↔ h ∈ keys ∧ h ∉ store := by
  rw [removedBy, List.mem_filter, Dict.mem_keys_iff, storeOf, Dict.mem_map_iff, decide_eq_true_eq]

theorem mem_of_mem_upsertsOf {before store : Store} {h : String}
    (hmem : h ∈ (upsertsOf before store).map Prod.fst) : h ∈ store := by
  obtain ⟨e, he, rfl⟩ := List.mem_map.mp hmem
  exact Dict.mem_keys_iff.mp (List.mem_map_of_mem (List.mem_filter.mp he).1)

theorem nodup_upsertsOf (before store : Store) (p : String × Json → Bool) :
    (((upsertsOf before store).filter p).map Prod.fst).Nodup :=
  Assoc.nodup_filter (Assoc.nodup_filter store.nodup _) _

theorem Wrote.put {removed : List String} {done : List (String × Json)} {c : Session} {h : String}
    {entry : Json} {row : Row} {phase : Phase} (hwrote : Wrote py removed done c)
    (hrow : rowArgs py entry = some row) (hnew : h ∉ done.map Prod.fst) :
    Wrote py removed (done ++ [(h, entry)]) ((c.put h row).at phase) where
  upserted e he := by
    rcases List.mem_append.mp he with hold | hlast
    · have hne : e.1 ≠ h := by
        rintro rfl
        exact hnew (List.mem_map_of_mem hold)
      obtain ⟨row', hrow', hwrite⟩ := hwrote.upserted e hold
      exact ⟨row', hrow', (Dict.get?_set_of_ne c.keyWrites hne (some row)).trans hwrite⟩
    · rw [List.mem_singleton.mp hlast]
      exact ⟨row, hrow, by simp [Session.at, Session.put]⟩
  others k hk := by
    rw [List.map_append, List.mem_append, not_or] at hk
    have hne : k ≠ h := fun heq => hk.2 (List.mem_singleton.mpr heq)
    exact (Dict.get?_set_of_ne c.keyWrites hne (some row)).trans (hwrote.others k hk.1)

theorem stage_step {s s' : System} (h : Stage py keys revoked mutation s)
    (hstep : step py s (.statement 0) = some s') : Stage py keys revoked mutation s' := by
  cases h with
  | locking =>
    simp only [step, List.getElem?_cons_zero, Option.bind_some, System.statement] at hstep
    rw [if_pos (by intro d hd; cases hd)] at hstep
    cases hstep
    exact .selecting
  | selecting =>
    simp only [step, List.getElem?_cons_zero, Option.bind_some, System.statement] at hstep
    have hvisible : System.visibleKeys ⟨keys, revoked, [{ phase := .selectRows mutation }]⟩
        { phase := .selectRows mutation } = keys := rfl
    rw [hvisible] at hstep
    cases hmutation : mutation (storeOf keys) with
    | error err =>
      rw [hmutation] at hstep
      cases hstep
      exact .rolledBack
    | ok out =>
      obtain ⟨changed, result, store⟩ := out
      rw [hmutation] at hstep
      cases hstep
      cases changed with
      | false => exact .unchanged hmutation
      | true =>
        change Stage py keys revoked mutation ⟨keys, revoked,
          [Session.at _ (writeDiff (storeOf keys) store result)]⟩
        rw [writeDiff]
        split
        · rename_i hempty
          rw [List.isEmpty_iff] at hempty
          refine stage_afterRemovals hmutation ⟨fun e he => ?_, fun k _ => ?_⟩ fun k hk => ?_
          · cases he
          · rw [hempty]
            rfl
          · exact absurd hk (Dict.notMem_empty k)
        · exact .recording hmutation rfl rfl rfl rfl
  | unchanged h =>
    simp only [step, List.getElem?_cons_zero, Option.bind_some, System.statement] at hstep
    cases hstep
    exact .kept h rfl
  | recording h hphase hkeys hrevoked hsnapshot =>
    rename_i result store c
    simp only [step, List.getElem?_cons_zero, Option.bind_some, System.statement, hphase,
      Option.bind_eq_bind, Option.bind_eq_some_iff] at hstep
    obtain ⟨c', hrows, hs'⟩ := hstep
    cases hs'
    obtain ⟨-, hwrites, -, hrecorded, -⟩ := recordRows_spec hrows
    refine .deleting h rfl (hwrites.trans hkeys) rfl fun k hk => ?_
    rcases (hrecorded k).mp hk with ⟨hrow, -⟩ | hold
    · exact of_decide_eq_true (Dict.mem_filter_keys.mp hrow).2
    · rw [hrevoked] at hold
      exact absurd hold (Dict.notMem_empty k)
  | deleting h hphase hkeys hsnapshot hrevoked =>
    rename_i result store c
    simp only [step, List.getElem?_cons_zero, Option.bind_some, System.statement, hphase,
      Option.bind_eq_bind, Option.bind_eq_some_iff] at hstep
    obtain ⟨c', hrows, hs'⟩ := hstep
    cases hs'
    obtain ⟨-, hrecords, hwrites, -⟩ := deleteRows_spec hrows
    refine stage_afterRemovals h ⟨fun e he => ?_, fun k _ => ?_⟩ fun k hk => ?_
    · cases he
    · rw [hwrites, hkeys]
      refine ite_congr (propext ⟨fun hk => ?_, fun hk => ⟨?_, ?_⟩⟩) (fun _ => rfl) fun _ => rfl
      · exact of_decide_eq_true (Dict.mem_filter_keys.mp hk.1).2
      · refine Dict.mem_filter_keys.mpr ⟨?_, decide_eq_true hk⟩
        rw [System.seenKeys, Session.seen, hsnapshot, hkeys]
        exact (mem_removedBy.mp hk).1
      · rw [Session.gone, hsnapshot]
        exact List.not_mem_nil
    · rw [hrecords] at hk
      exact hrevoked k hk
  | checking h hphase hwrote hrevoked =>
    rename_i result store c
    simp only [step, List.getElem?_cons_zero, Option.bind_some, System.statement, hphase] at hstep
    cases hstep
    -- what the call has recorded itself is removed, so it is no upsert
    have hseen : ∀ k ∈ (upsertsOf (storeOf keys) store).map Prod.fst,
        k ∈ System.visibleRevoked ⟨keys, revoked, [c]⟩ c ↔ k ∈ revoked := by
      intro k hk
      rw [System.visibleRevoked, Dict.mem_update]
      refine or_iff_right fun hown => ?_
      exact (mem_removedBy.mp (hrevoked k hown)).2 (mem_of_mem_upsertsOf hk)
    have hkept : (upsertsOf (storeOf keys) store).filter (fun e => e.1 ∉
        ((upsertsOf (storeOf keys) store).map Prod.fst).filter fun k =>
          k ∈ System.visibleRevoked ⟨keys, revoked, [c]⟩ c) =
        [] ++ (upsertsOf (storeOf keys) store).filter (fun e => e.1 ∉ revoked) := by
      refine List.filter_congr fun e he => ?_
      have hmem := List.mem_map_of_mem (f := Prod.fst) he
      simp only [List.mem_filter, hmem, true_and, decide_eq_true_eq, hseen _ hmem]
    rw [hkept]
    refine .upserting h rfl rfl ⟨hwrote.upserted, hwrote.others⟩ fun k => ?_
    have hrefused : k ∈ ((upsertsOf (storeOf keys) store).map Prod.fst).filter (fun k =>
        k ∈ System.visibleRevoked ⟨keys, revoked, [c]⟩ c) ↔
          k ∈ (upsertsOf (storeOf keys) store).map Prod.fst ∧ k ∈ revoked := by
      rw [List.mem_filter]
      exact and_congr_right fun hmem => by rw [decide_eq_true_eq, hseen k hmem]
    rw [Dict.get?_filter]
    simp only [hrefused]
    by_cases hk : k ∈ (upsertsOf (storeOf keys) store).map Prod.fst ∧ k ∈ revoked
    · rw [if_pos hk, decide_eq_false (not_not.mpr hk)]
      cases store.get? k <;> rfl
    · rw [if_neg hk, decide_eq_true hk]
      cases store.get? k <;> rfl
  | upserting h hphase hsplit hwrote hafter =>
    rename_i result store after c done entries
    cases entries with
    | nil =>
      simp only [step, List.getElem?_cons_zero, Option.bind_some, System.statement, hphase]
        at hstep
      cases hstep
      rw [List.append_nil] at hsplit
      refine .committed h ⟨fun e he hfree => ?_, fun k hk => ?_, hafter⟩
      · obtain ⟨row, hrow, hwrite⟩ := hwrote.upserted e
          (hsplit ▸ List.mem_filter.mpr ⟨he, decide_eq_true hfree⟩)
        exact ⟨row, hrow, by rw [System.visibleKeys, Dict.get?_overlay, hwrite]; rfl⟩
      · rw [System.visibleKeys, Dict.get?_overlay, hwrote.others k (hsplit ▸ hk)]
        split <;> rfl
    | cons e rest =>
      obtain ⟨k, entry⟩ := e
      simp only [step, List.getElem?_cons_zero, Option.bind_some, System.statement, hphase]
        at hstep
      cases hrow : rowArgs py entry with
      | none =>
        rw [hrow] at hstep
        cases hstep
        exact .rolledBack
      | some row =>
        rw [hrow] at hstep
        dsimp only at hstep
        rw [if_pos (by intro d hd; cases hd)] at hstep
        cases hstep
        rw [List.append_cons] at hsplit
        refine .upserting h rfl hsplit (hwrote.put hrow ?_) hafter
        have hnodup := hsplit ▸ nodup_upsertsOf (storeOf keys) store fun e => e.1 ∉ revoked
        rw [List.map_append, List.map_append, List.map_singleton] at hnodup
        exact fun hmem => (List.nodup_append.mp (List.nodup_append.mp hnodup).1).2.2 k hmem k
          (List.mem_singleton_self k) rfl
  | rolledBack => cases hstep
  | kept h hkeys => cases hstep
  | committed h hcommitted => cases hstep

theorem stage_run (statements : Nat) {s s' : System} (h : Stage py keys revoked mutation s)
    (hrun : exec (step py) s (List.replicate statements (.statement 0)) = some s') :
    Stage py keys revoked mutation s' := by
  induction statements generalizing s with
  | zero =>
    cases hrun
    exact h
  | succ statements ih =>
    rw [List.replicate_succ, exec_cons] at hrun
    obtain ⟨s₁, hstep, hrest⟩ := Option.bind_eq_some_iff.mp hrun
    exact ih (stage_step h hstep) hrest

variable {result : OpResult} {after : Store} {keys' : KeyTable}

/-- What a call has done when it returns. -/
theorem returned_cases (h : Returns py keys revoked mutation result after keys') :
    (mutation (storeOf keys) = .ok (false, result, after) ∧ keys' = keys) ∨
      ∃ store, mutation (storeOf keys) = .ok (true, result, store) ∧
        Committed py keys revoked store after keys' := by
  obtain ⟨statements, s, hrun, rfl, hsessions⟩ := h
  rw [alone, exec_cons] at hrun
  have hstage : Stage py keys revoked mutation s := stage_run statements .locking hrun
  cases hstage with
  | unchanged hmutation => cases hsessions
  | recording hmutation hphase =>
    rw [List.map_singleton, hphase] at hsessions
    cases hsessions
  | deleting hmutation hphase =>
    rw [List.map_singleton, hphase] at hsessions
    cases hsessions
  | checking hmutation hphase =>
    rw [List.map_singleton, hphase] at hsessions
    cases hsessions
  | upserting hmutation hphase =>
    rw [List.map_singleton, hphase] at hsessions
    cases hsessions
  | kept hmutation hkeys =>
    cases hsessions
    exact Or.inl ⟨hmutation, hkeys⟩
  | committed hmutation hcommitted =>
    cases hsessions
    exact Or.inr ⟨_, hmutation, hcommitted⟩
  | _ => cases hsessions

/-! ## 3. When the two stores agree -/

/-- What the mutation has changed can be read back, and what is refused has no row. -/
def Storable (keys : KeyTable) (revoked : RevokedTable) (mutation : Mutation) : Prop :=
  match mutation (storeOf keys) with
  | .error _ => True
  | .ok (false, _, store) => SameStore (storeOf keys) store
  | .ok (true, _, store) =>
    -- an entry that is null counts as absent in the comparison
    (∀ h, store.get? h = some .null → h ∈ keys) ∧
      ∀ e ∈ upsertsOf (storeOf keys) store,
        (e.1 ∈ revoked → e.1 ∉ keys) ∧ (e.1 ∉ revoked → Canonical e.2)

/-- No dict in the store has a key twice. -/
def DistinctKeys (store : Store) : Prop :=
  ∀ h entry, store.get? h = some entry → entry.distinctKeys = true

theorem get?_storeOf (keys : KeyTable) (h : String) :
    (storeOf keys).get? h = (keys.get? h).map rowToMeta :=
  Dict.get?_map rowToMeta keys h

theorem mem_upsertsOf_iff {before store : Store} {h : String} {entry : Json} :
    (h, entry) ∈ upsertsOf before store ↔ store.get? h = some entry ∧
      ((before.get? h).getD .null).pyEq entry = false := by
  rw [upsertsOf, List.mem_filter, Dict.mem_entries_iff, Bool.not_eq_true']

theorem null_pyEq_iff (v : Json) : Json.null.pyEq v = true ↔ v = .null := by
  cases v <;> simp [Json.pyEq, Json.dictKey?]

/-- What is asked of one hash. -/
theorem sameValue_committed_iff {store : Store}
    (hcommitted : Committed py keys revoked store after keys') (hdistinct : DistinctKeys store)
    (h : String) : SameValue ((storeOf keys').get? h) (after.get? h) ↔
      (store.get? h = some .null → h ∈ keys) ∧
        ∀ entry, (h, entry) ∈ upsertsOf (storeOf keys) store →
          (h ∈ revoked → h ∉ keys) ∧ (h ∉ revoked → Canonical entry) := by
  have hupserted : ∀ k, k ∈ (upsertsOf (storeOf keys) store).map Prod.fst ↔
      ∃ entry, (k, entry) ∈ upsertsOf (storeOf keys) store := by
    intro k
    rw [List.mem_map]
    constructor
    · rintro ⟨e, he, rfl⟩
      exact ⟨e.2, he⟩
    · rintro ⟨entry, he⟩
      exact ⟨_, he, rfl⟩
  have hunwritten : (∀ entry, (h, entry) ∈ upsertsOf (storeOf keys) store → h ∈ revoked) →
      keys'.get? h = if h ∈ removedBy (storeOf keys) store then none else keys.get? h := by
    intro hall
    apply hcommitted.kept
    intro hmem
    obtain ⟨e, he, rfl⟩ := List.mem_map.mp hmem
    rw [List.mem_filter, decide_eq_true_eq] at he
    exact he.2 (hall e.2 he.1)
  rw [get?_storeOf, hcommitted.returned]
  cases hentry : store.get? h with
  | none =>
    have hnot : ∀ entry, (h, entry) ∉ upsertsOf (storeOf keys) store := by
      intro entry hmem
      rw [mem_upsertsOf_iff, hentry] at hmem
      cases hmem.1
    have hgone : keys'.get? h = none := by
      rw [hunwritten fun entry hmem => absurd hmem (hnot entry)]
      split
      · rfl
      · rename_i hstays
        rw [mem_removedBy, not_and_not_right] at hstays
        rw [← Dict.notMem_iff]
        exact fun hmem => Dict.notMem_iff.mpr hentry (hstays hmem)
    rw [hgone, ite_self]
    simp [SameValue, hnot]
  | some entry =>
    have hstays : h ∉ removedBy (storeOf keys) store :=
      fun hmem => (mem_removedBy.mp hmem).2 (Dict.mem_iff.mpr ⟨entry, hentry⟩)
    have hone : ∀ entry', (h, entry') ∈ upsertsOf (storeOf keys) store → entry' = entry := by
      intro entry' hmem
      rw [mem_upsertsOf_iff, hentry] at hmem
      exact (Option.some.inj hmem.1).symm
    by_cases hmem : (h, entry) ∈ upsertsOf (storeOf keys) store
    · have hold : entry = .null → h ∈ keys := by
        rintro rfl
        by_contra hnew
        have hdiffers := (mem_upsertsOf_iff.mp hmem).2
        rw [get?_storeOf, Dict.notMem_iff.mp hnew] at hdiffers
        cases hdiffers
      have hall : (∀ entry', (h, entry') ∈ upsertsOf (storeOf keys) store →
          (h ∈ revoked → h ∉ keys) ∧ (h ∉ revoked → Canonical entry')) ↔
            (h ∈ revoked → h ∉ keys) ∧ (h ∉ revoked → Canonical entry) :=
        ⟨fun hall => hall entry hmem, fun hone' entry' hmem' => hone entry' hmem' ▸ hone'⟩
      rw [hall, and_iff_right fun hnull => hold (Option.some.inj hnull)]
      by_cases hrevoked : h ∈ revoked
      · rw [if_pos ⟨(hupserted h).mpr ⟨entry, hmem⟩, hrevoked⟩, Json.sameValue_none_right,
          hunwritten fun _ _ => hrevoked, if_neg hstays, Option.map_eq_none_iff,
          ← Dict.notMem_iff]
        simp [hrevoked]
      · obtain ⟨row, hrow, hstored⟩ := hcommitted.written _ hmem hrevoked
        rw [if_neg (fun hboth => hrevoked hboth.2), hstored, Option.map_some,
          Json.sameValue_some_some, rowToMeta_eq_iff (hdistinct h entry hentry) hrow]
        simp [hrevoked]
    · have hsame : (((storeOf keys).get? h).getD .null).pyEq entry = true := by
        rw [mem_upsertsOf_iff, not_and] at hmem
        simpa using hmem hentry
      have hnot : ∀ entry', (h, entry') ∉ upsertsOf (storeOf keys) store :=
        fun entry' hmem' => hmem (hone entry' hmem' ▸ hmem')
      rw [if_neg (fun hboth => (hupserted h).mp hboth.1 |>.elim hnot),
        hunwritten fun entry' hmem' => absurd hmem' (hnot entry'), if_neg hstays]
      rw [get?_storeOf] at hsame
      cases hold : keys.get? h with
      | none =>
        rw [hold, Option.map_none, Option.getD_none, null_pyEq_iff] at hsame
        rw [Option.map_none, Json.sameValue_none_left]
        simp [hsame, Dict.notMem_iff.mpr hold]
      | some row =>
        rw [hold, Option.map_some, Option.getD_some] at hsame
        rw [Option.map_some, Json.sameValue_some_some]
        simp [hsame, hnot, Dict.mem_iff.mpr ⟨row, hold⟩]

theorem returned_is_stored_iff (h : Returns py keys revoked mutation result after keys')
    (hdistinct : ∀ changed result store,
      mutation (storeOf keys) = .ok (changed, result, store) → DistinctKeys store) :
    SameStore (storeOf keys') after ↔ Storable keys revoked mutation := by
  rcases returned_cases h with ⟨hmutation, rfl⟩ | ⟨store, hmutation, hcommitted⟩
  · rw [Storable, hmutation]
  · rw [Storable, hmutation, SameStore]
    simp only [sameValue_committed_iff hcommitted (hdistinct _ _ _ hmutation), Prod.forall]
    rw [forall_and]

end TokenProxy.PgKeyStore
