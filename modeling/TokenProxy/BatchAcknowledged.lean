/-
  TokenProxy/BatchAcknowledged.lean
  =================================
  **What a batch worker acknowledges has an answer on record.**

  An acknowledged entry is gone for good, so its request must have a result or be
  in a recorded job by then.  The workers acknowledge when a flush returns, and a
  flush returns also when a result or a job record could not be written, and when
  an error ended the loop over the items early: those requests are lost.

  `Careful` names these as conditions on the step, and `none_lost_of_careful`
  proves that the runs without them lose no request, whatever else fails.  What
  carries it is `PhaseOk`: of each entry that a worker holds, the request is
  answered or still among the items left of its flush.
-/
import TokenProxy.BatchWorker
import TokenProxy.Pointwise

namespace TokenProxy.BatchWorker

open Execution KeyStore Pointwise
open BatchPoller (ResultDoc storeResult)

variable {W : Type}

/-! ## 1. The property, and the condition on the steps -/

/-- A result is stored for the batch id, or a recorded job contains it. -/
def State.Answered (py : Builtins) (s : State W) (name : String) : Prop :=
  name ∈ s.results ∨ ∃ id job, s.jobs.get? id = some job ∧ job.Contains py name

/-- The item's request is answered; an item without a batch id has none. -/
def Settled (py : Builtins) (s : State W) (item : Json) : Prop :=
  ∀ name, batchId py item = some name → s.Answered py name

structure NoneLost (py : Builtins) (s : State W) : Prop where
  acked : ∀ id ∈ s.acked, ∀ fields name, s.entries.get? id = some fields →
    fields.batchId py = some name → s.Answered py name
  kept : ∀ id fields name, s.entries.get? id = some fields → fields.batchId py = some name →
    ¬ s.Answered py name → id ∈ s.unread ∨ id ∈ s.pending

variable (cfg : Config)

/-- The step leaves no request of a flush, and none that it gives up, without an answer. -/
def Careful (s : State W) : Label W → Prop
  | .item w outcome escapes => ∀ held groups item items todo,
    s.workers w = .flushing held groups (item :: items) todo →
      (outcome.stored = true ∨ Settled cfg.py s item) ∧
      (escapes = true ∨ outcome = .escaped → ∀ other ∈ items, Settled cfg.py s other)
  | .group w (.submitted _ recorded) => ∀ held group groups todo,
    s.workers w = .flushing held (group :: groups) [] todo →
      recorded = true ∨ ∀ item ∈ group.items, Settled cfg.py s item
  | .sweep w (.asked _ written) => ∀ id item left settled retry consumer delivered,
    s.workers w = .sweeping ((id, .payload item) :: left) settled retry →
      s.pending.get? id = some (consumer, delivered) → cfg.maxAttempts < delivered →
      written = true ∨ Settled cfg.py s item
  | _ => True

/-! ## 2. The invariant -/

/-- The entry's request is answered. -/
def EntrySettled (s : State W) (id : EntryId) : Prop :=
  ∃ fields, s.entries.get? id = some fields ∧
    ∀ name, fields.batchId cfg.py = some name → s.Answered cfg.py name

/-- The item is what the entry was queued with, as far as its batch id goes. -/
def HeldOk (s : State W) (held : Held) : Prop :=
  ∀ e ∈ held, ∃ fields, s.entries.get? e.1 = some fields ∧
    ∀ name, fields.batchId cfg.py = some name → batchId cfg.py e.2 = some name

def PhaseOk (s : State W) : Phase → Prop
  | .idle => True
  | .reading batches => ∀ held ∈ batches, HeldOk cfg s held
  | .flushing held groups items todo =>
    HeldOk cfg s held ∧ (∀ held ∈ todo, HeldOk cfg s held) ∧
      ∀ e ∈ held, Settled cfg.py s e.2 ∨ e.2 ∈ items ∨ ∃ group ∈ groups, e.2 ∈ group.items
  | .sweeping left settled retry =>
    (∀ e ∈ left, s.entries.get? e.1 = some e.2) ∧ (∀ id ∈ settled, EntrySettled cfg s id) ∧
      HeldOk cfg s retry

structure Keeps (s : State W) : Prop where
  known : ∀ id ∈ s.entries, id ∈ s.unread ∨ id ∈ s.pending ∨ id ∈ s.acked
  acked : ∀ id ∈ s.acked, EntrySettled cfg s id
  phase : ∀ w, PhaseOk cfg s (s.workers w)

variable {cfg}

theorem Keeps.noneLost {s : State W} (h : Keeps cfg s) : NoneLost cfg.py s where
  acked id hid fields name hfields hname := by
    obtain ⟨fields', hfields', hanswered⟩ := h.acked id hid
    obtain rfl : fields = fields' := Option.some.inj (hfields.symm.trans hfields')
    exact hanswered name hname
  kept id fields name hfields hname hnot := by
    rcases h.known id (Dict.mem_iff.mpr ⟨fields, hfields⟩) with hunread | hpending | hacked
    · exact Or.inl hunread
    · exact Or.inr hpending
    · obtain ⟨fields', hfields', hanswered⟩ := h.acked id hacked
      obtain rfl : fields = fields' := Option.some.inj (hfields.symm.trans hfields')
      exact absurd (hanswered name hname) hnot

/-! ## 3. What is on record stays -/

/-- No entry and no answer is taken back. -/
structure Extends (py : Builtins) (s s' : State W) : Prop where
  entries : ∀ id fields, s.entries.get? id = some fields → s'.entries.get? id = some fields
  answered : ∀ name, s.Answered py name → s'.Answered py name

section Extends

variable {s s' : State W} (hext : Extends cfg.py s s')
include hext

theorem Settled.mono {item : Json} (h : Settled cfg.py s item) : Settled cfg.py s' item :=
  fun name hname => hext.answered name (h name hname)

theorem EntrySettled.mono {id : EntryId} (h : EntrySettled cfg s id) : EntrySettled cfg s' id := by
  obtain ⟨fields, hfields, hanswered⟩ := h
  exact ⟨fields, hext.entries id fields hfields,
    fun name hname => hext.answered name (hanswered name hname)⟩

theorem HeldOk.mono {held : Held} (h : HeldOk cfg s held) : HeldOk cfg s' held := by
  intro e he
  obtain ⟨fields, hfields, hname⟩ := h e he
  exact ⟨fields, hext.entries e.1 fields hfields, hname⟩

theorem PhaseOk.mono {phase : Phase} (h : PhaseOk cfg s phase) : PhaseOk cfg s' phase := by
  cases phase with
  | idle => trivial
  | reading batches => exact fun held hheld => (h held hheld).mono hext
  | flushing held groups items todo =>
    obtain ⟨hheld, htodo, hcover⟩ := h
    refine ⟨hheld.mono hext, fun held hmem => (htodo held hmem).mono hext, fun e he => ?_⟩
    exact (hcover e he).imp_left fun hsettled => hsettled.mono hext
  | sweeping left settled retry =>
    obtain ⟨hleft, hsettled, hretry⟩ := h
    exact ⟨fun e he => hext.entries e.1 e.2 (hleft e he),
      fun id hid => (hsettled id hid).mono hext, hretry.mono hext⟩

variable [DecidableEq W] in
/-- A worker goes on, and what is on record is added to. -/
theorem Keeps.go (h : Keeps cfg s) {w : W} {phase : Phase}
    (hworkers : s'.workers = Function.update s.workers w phase)
    (hknown : ∀ id ∈ s'.entries, id ∈ s'.unread ∨ id ∈ s'.pending ∨ id ∈ s'.acked)
    (hacked : ∀ id ∈ s'.acked, id ∈ s.acked ∨ EntrySettled cfg s' id)
    (hphase : PhaseOk cfg s' phase) : Keeps cfg s' where
  known := hknown
  acked id hid := by
    rcases hacked id hid with hold | hnew
    · exact (h.acked id hold).mono hext
    · exact hnew
  phase v := by
    rw [hworkers]
    by_cases hv : v = w
    · subst hv
      rw [Function.update_self]
      exact hphase
    · rw [Function.update_of_ne hv]
      exact (h.phase v).mono hext

end Extends

variable [DecidableEq W] in
theorem Extends.refl (s : State W) (w : W) (phase : Phase) : Extends cfg.py s (s.at w phase) :=
  ⟨fun _ _ h => h, fun _ h => h⟩

variable [DecidableEq W] in
/-- A worker that only changes its phase. -/
theorem Keeps.at {s : State W} (h : Keeps cfg s) (w : W) {phase : Phase}
    (hphase : PhaseOk cfg s phase) : Keeps cfg (s.at w phase) :=
  h.go (Extends.refl s w phase) rfl h.known (fun _ hid => Or.inl hid)
    (hphase.mono (Extends.refl s w phase))

theorem mem_storeResult {results : Dict String ResultDoc} {name other : String}
    {doc : ResultDoc} : other ∈ storeResult results name doc ↔ other = name ∨ other ∈ results := by
  cases doc with
  | completed response baselineTokens => exact Dict.mem_set
  | failed error =>
    rw [storeResult]
    split
    · rename_i hcompleted
      have hmem : name ∈ results := by
        rw [Dict.mem_def]
        cases hget : results.get? name with
        | none => simp [hget] at hcompleted
        | some doc => rfl
      constructor
      · exact Or.inr
      · rintro (rfl | hold)
        · exact hmem
        · exact hold
    · exact Dict.mem_set

theorem mem_storeWhen {results : Dict String ResultDoc} {written : Bool} {name other : String}
    {doc : ResultDoc} : other ∈ storeWhen written name doc results ↔
      (written = true ∧ other = name) ∨ other ∈ results := by
  cases written with
  | true => simp [storeWhen, mem_storeResult]
  | false => simp [storeWhen]

/-- An item's outcome adds its own result at most, and does so when Redis takes it. -/
theorem mem_apply {item : Json} {results : Dict String ResultDoc} {outcome : ItemOutcome}
    {other : String} : other ∈ outcome.apply cfg item results ↔
      (outcome.stored = true ∧ other = resultName cfg item) ∨ other ∈ results := by
  cases outcome with
  | escaped => simp [ItemOutcome.apply, ItemOutcome.stored]
  | _ => exact mem_storeWhen

theorem resultName_of_batchId {item : Json} {name : String}
    (h : batchId cfg.py item = some name) : resultName cfg item = name := by
  obtain ⟨value, hvalue, rfl⟩ := Option.map_eq_some_iff.mp h
  rw [resultName, requestId, Json.getD, hvalue]
  rfl

/-! ## 4. The groups hold every item -/

theorem mem_addToGroups {provider : String} {tenantId item : Json} {groups : List Group}
    {other : Json} : (∃ group ∈ addToGroups provider tenantId item groups, other ∈ group.items) ↔
      other = item ∨ ∃ group ∈ groups, other ∈ group.items := by
  induction groups with
  | nil => simp [addToGroups]
  | cons group groups ih =>
    unfold addToGroups
    split
    · simp only [List.exists_mem_cons_iff, List.mem_append, List.mem_singleton]
      tauto
    · simp only [List.exists_mem_cons_iff, ih]
      tauto

theorem mem_groupItems {items : List Json} {groups groups' : List Group}
    (h : groupItems cfg groups items = some groups') {other : Json} :
    (∃ group ∈ groups', other ∈ group.items) ↔
      other ∈ items ∨ ∃ group ∈ groups, other ∈ group.items := by
  induction items generalizing groups with
  | nil =>
    cases h
    simp
  | cons item items ih =>
    simp only [groupItems, Option.bind_eq_bind, Option.bind_eq_some_iff] at h
    obtain ⟨fields, -, provider, -, key, -, h⟩ := h
    rw [ih h, mem_addToGroups, List.mem_cons]
    tauto

/-! ## 5. Delivery and acknowledgement -/

theorem mem_deliver {s : State W} {w : W} {ids : List EntryId} {id : EntryId} :
    id ∈ (s.deliver w ids).pending ↔ id ∈ ids ∨ id ∈ s.pending := by
  unfold State.deliver
  dsimp only
  induction ids generalizing s with
  | nil => simp
  | cons i ids ih =>
    rw [List.foldl_cons]
    have hrest := ih (s := { s with
      pending := s.pending.set i (w, ((s.pending.get? i).map Prod.snd).getD 0 + 1) })
    dsimp only at hrest
    rw [hrest, Dict.mem_set, List.mem_cons]
    tauto

/-- Delivering takes no entry off the record. -/
theorem known_deliver {s : State W} (h : Keeps cfg s) (w : W) (ids : List EntryId)
    {id : EntryId} (hid : id ∈ s.entries) :
    id ∈ (s.deliver w ids).unread ∨ id ∈ (s.deliver w ids).pending ∨ id ∈ s.acked := by
  by_cases hmem : id ∈ ids
  · exact Or.inr (Or.inl (mem_deliver.mpr (Or.inl hmem)))
  · rcases h.known id hid with hunread | hpending | hacked
    · exact Or.inl (List.mem_filter.mpr ⟨hunread, decide_eq_true hmem⟩)
    · exact Or.inr (Or.inl (mem_deliver.mpr (Or.inr hpending)))
    · exact Or.inr (Or.inr hacked)

theorem known_acknowledge {s : State W} (h : Keeps cfg s) (ids : List EntryId)
    {id : EntryId} (hid : id ∈ s.entries) :
    id ∈ s.unread ∨ id ∈ (s.acknowledge ids).pending ∨ id ∈ s.acked ++ ids := by
  by_cases hmem : id ∈ ids
  · exact Or.inr (Or.inr (List.mem_append_right _ hmem))
  · rcases h.known id hid with hunread | hpending | hacked
    · exact Or.inl hunread
    · exact Or.inr (Or.inl (Dict.mem_filter_keys.mpr ⟨hpending, decide_eq_true hmem⟩))
    · exact Or.inr (Or.inr (List.mem_append_left _ hacked))

theorem mem_fieldsOf {s : State W} {ids : List EntryId} {e : EntryId × Fields}
    (h : e ∈ s.fieldsOf ids) : s.entries.get? e.1 = some e.2 := by
  obtain ⟨id, -, hid⟩ := List.mem_filterMap.mp h
  obtain ⟨fields, hfields, rfl⟩ := Option.map_eq_some_iff.mp hid
  exact hfields

theorem parseEntry_batchId {e : EntryId × Fields} {e' : EntryId × Json}
    (h : parseEntry e = some e') :
    e'.1 = e.1 ∧ ∀ name, e.2.batchId cfg.py = some name → batchId cfg.py e'.2 = some name := by
  obtain ⟨id, fields⟩ := e
  cases fields with
  | noPayload =>
    cases h
    exact ⟨rfl, fun name hname => by cases hname⟩
  | unparsable => cases h
  | payload item =>
    cases h
    exact ⟨rfl, fun name hname => hname⟩

/-- What a worker has parsed is what was queued. -/
theorem heldOk_of_parsed {s : State W} {ids : List EntryId} {entries : Held}
    (h : (s.fieldsOf ids).mapM parseEntry = some entries) : HeldOk cfg s entries := by
  intro e he
  obtain ⟨raw, hraw, hparsed⟩ := exists_left_of_forall₂ (forall₂_of_mapM h) he
  obtain ⟨hid, hname⟩ := parseEntry_batchId hparsed
  exact ⟨raw.2, hid ▸ mem_fieldsOf hraw, hname⟩

theorem heldOk_byStream {s : State W} {entries : Held} (h : HeldOk cfg s entries) :
    ∀ held ∈ byStream entries, HeldOk cfg s held := by
  intro held hheld e he
  obtain ⟨stream, -, rfl⟩ := List.mem_map.mp hheld
  exact h e (List.mem_filter.mp he).1

/-! ## 6. One step -/

section Step

variable [DecidableEq W] {s s' : State W} (h : Keeps cfg s)
include h

omit [DecidableEq W] in
theorem keeps_enqueue {id : EntryId} {fields : Fields} (hnew : id ∉ s.entries) :
    Keeps cfg { s with entries := s.entries.set id fields, unread := s.unread ++ [id] } := by
  have hext : Extends cfg.py s
      { s with entries := s.entries.set id fields, unread := s.unread ++ [id] } := by
    refine ⟨fun other fields' hother => ?_, fun _ hname => hname⟩
    have hne : other ≠ id := by
      rintro rfl
      exact hnew (Dict.mem_iff.mpr ⟨fields', hother⟩)
    exact (Dict.get?_set_of_ne s.entries hne fields).trans hother
  constructor
  · intro other hother
    rcases Dict.mem_set.mp hother with rfl | hold
    · exact Or.inl (List.mem_append_right _ List.mem_cons_self)
    · exact (h.known other hold).imp_left (List.mem_append_left _)
  · exact fun other hother => (h.acked other hother).mono hext
  · exact fun w => (h.phase w).mono hext

theorem keeps_deliver (w : W) (ids : List EntryId) {phase : Phase} (hphase : PhaseOk cfg s phase) :
    Keeps cfg ((s.deliver w ids).at w phase) := by
  have hext : Extends cfg.py s ((s.deliver w ids).at w phase) := ⟨fun _ _ hid => hid, fun _ hn => hn⟩
  exact h.go hext rfl (fun _ hid => known_deliver h w ids hid) (fun _ hid => Or.inl hid)
    (hphase.mono hext)

/-- A worker acknowledges entries whose requests are answered. -/
theorem keeps_acknowledge (w : W) {ids : List EntryId} {phase : Phase}
    (hids : ∀ id ∈ ids, EntrySettled cfg s id) (hphase : PhaseOk cfg s phase) :
    Keeps cfg ((s.at w phase).acknowledge ids) := by
  have hext : Extends cfg.py s ((s.at w phase).acknowledge ids) :=
    ⟨fun _ _ hid => hid, fun _ hn => hn⟩
  refine h.go hext rfl (fun _ hid => known_acknowledge h ids hid) (fun id hid => ?_)
    (hphase.mono hext)
  exact (List.mem_append.mp hid).imp_right fun hmem => (hids id hmem).mono hext

/-- Results are added, and a worker goes on. -/
theorem keeps_results (w : W) {results : Dict String ResultDoc} {phase : Phase}
    (hresults : ∀ name ∈ s.results, name ∈ results)
    (hphase : PhaseOk cfg { s.at w phase with results := results } phase) :
    Keeps cfg { s.at w phase with results := results } := by
  have hext : Extends cfg.py s { s.at w phase with results := results } :=
    ⟨fun _ _ hid => hid, fun name hname => hname.imp_left (hresults name)⟩
  exact h.go hext rfl h.known (fun _ hid => Or.inl hid) hphase

theorem keeps_begin {w : W} (hstep : step cfg s (.begin w) = some s') : Keeps cfg s' := by
  have hphase := h.phase w
  simp only [step] at hstep
  split at hstep
  · cases hstep
    exact h.at w trivial
  · rename_i held todo hp
    rw [hp] at hphase
    have hheld := hphase held List.mem_cons_self
    have htodo := fun held' hmem => hphase held' (List.mem_cons_of_mem held hmem)
    have hitem : ∀ e ∈ held, e.2 ∈ held.map Prod.snd :=
      fun e he => List.mem_map_of_mem (f := Prod.snd) he
    split at hstep
    · split at hstep
      · rename_i groups hgroups
        cases hstep
        refine h.at w ⟨hheld, htodo, fun e he => Or.inr (Or.inr ?_)⟩
        exact (mem_groupItems hgroups).mpr (Or.inl (hitem e he))
      · cases hstep
        exact h.at w htodo
    · cases hstep
      exact h.at w ⟨hheld, htodo, fun e he => Or.inr (Or.inl (hitem e he))⟩
  · cases hstep

theorem keeps_group {w : W} {outcome : GroupOutcome} (hcareful : Careful cfg s (.group w outcome))
    (hstep : step cfg s (.group w outcome) = some s') : Keeps cfg s' := by
  have hphase := h.phase w
  simp only [step] at hstep
  split at hstep
  · rename_i held group groups todo hp
    rw [hp] at hphase
    obtain ⟨hheld, htodo, hcover⟩ := hphase
    -- an item of the flush is settled, in this group, or in a later one
    have hsplit : ∀ e ∈ held, Settled cfg.py s e.2 ∨ e.2 ∈ group.items ∨
        ∃ g ∈ groups, e.2 ∈ g.items := by
      intro e he
      rcases hcover e he with hsettled | hmem | hgroup
      · exact Or.inl hsettled
      · cases hmem
      · exact Or.inr ((List.exists_mem_cons_iff _ _ _).mp hgroup)
    cases outcome with
    | loop =>
      cases hstep
      exact h.at w ⟨hheld, htodo, hsplit⟩
    | raises =>
      cases hstep
      exact h.at w htodo
    | submitted job recorded =>
      simp only at hstep
      split at hstep
      · cases hstep
      · rename_i hnew
        cases recorded with
        | false =>
          cases hstep
          have hsettled := (hcareful held group groups todo hp).resolve_left nofun
          refine h.at w ⟨hheld, htodo, fun e he => ?_⟩
          rcases hsplit e he with hdone | hmem | hgroup
          · exact Or.inl hdone
          · exact Or.inl (hsettled e.2 hmem)
          · exact Or.inr (Or.inr hgroup)
        | true =>
          cases hstep
          set recordedJob := jobOf group.provider group.tenantId group.items
          set t : State W :=
            { s.at w (.flushing held groups [] todo) with jobs := s.jobs.set job recordedJob }
          have hext : Extends cfg.py s t := by
            refine ⟨fun _ _ hid => hid, fun name hname => hname.imp_right ?_⟩
            rintro ⟨id, old, hid, hcontains⟩
            have hne : id ≠ job := by
              rintro rfl
              exact hnew (Dict.mem_iff.mpr ⟨old, hid⟩)
            exact ⟨id, old, (Dict.get?_set_of_ne s.jobs hne recordedJob).trans hid, hcontains⟩
          refine h.go hext rfl h.known (fun _ hid => Or.inl hid)
            ⟨hheld.mono hext, fun held' hmem => (htodo held' hmem).mono hext, fun e he => ?_⟩
          rcases hsplit e he with hdone | hmem | hgroup
          · exact Or.inl (hdone.mono hext)
          · -- the job names every item of its group
            refine Or.inl fun name hname => Or.inr ⟨job, recordedJob, ?_, ?_⟩
            · exact Dict.get?_set_self s.jobs job recordedJob
            · refine List.mem_map.mpr ⟨requestId e.2, List.mem_map_of_mem hmem, ?_⟩
              exact resultName_of_batchId hname
          · exact Or.inr (Or.inr hgroup)
  · cases hstep

theorem keeps_item {w : W} {outcome : ItemOutcome} {escapes : Bool}
    (hcareful : Careful cfg s (.item w outcome escapes))
    (hstep : step cfg s (.item w outcome escapes) = some s') : Keeps cfg s' := by
  have hphase := h.phase w
  simp only [step] at hstep
  split at hstep
  · rename_i held groups item items todo hp
    rw [hp] at hphase
    obtain ⟨hheld, htodo, hcover⟩ := hphase
    obtain ⟨hown, hothers⟩ := hcareful held groups item items todo hp
    split at hstep
    · cases hstep
    · cases hstep
      have hresults : ∀ name ∈ s.results, name ∈ outcome.apply cfg item s.results :=
        fun name hname => mem_apply.mpr (Or.inr hname)
      apply keeps_results h w hresults
      set t : State W := { s.at w (.flushing held groups
        (if escapes || decide (outcome = .escaped) then [] else items) todo) with
        results := outcome.apply cfg item s.results }
      have hext : Extends cfg.py s t :=
        ⟨fun _ _ hid => hid, fun name hname => hname.imp_left (hresults name)⟩
      refine ⟨hheld.mono hext, fun held' hmem => (htodo held' hmem).mono hext, fun e he => ?_⟩
      rcases hcover e he with hdone | hmem | hgroup
      · exact Or.inl (hdone.mono hext)
      · rcases List.mem_cons.mp hmem with heq | hmem
        · left
          rw [heq]
          rcases hown with hstored | hdone
          · intro name hname
            exact Or.inl (mem_apply.mpr (Or.inl ⟨hstored, (resultName_of_batchId hname).symm⟩))
          · exact hdone.mono hext
        · by_cases hescape : escapes = true ∨ outcome = .escaped
          · exact Or.inl ((hothers hescape e.2 hmem).mono hext)
          · refine Or.inr (Or.inl ?_)
            rw [if_neg (by simpa using hescape)]
            exact hmem
      · exact Or.inr (Or.inr hgroup)
  · cases hstep

theorem keeps_sweep {w : W} {reply : SweepReply} (hcareful : Careful cfg s (.sweep w reply))
    (hstep : step cfg s (.sweep w reply) = some s') : Keeps cfg s' := by
  have hphase := h.phase w
  simp only [step] at hstep
  split at hstep
  · rename_i id fields left settled retry hp
    rw [hp] at hphase
    obtain ⟨hleft, hsettled, hretry⟩ := hphase
    have hentry := hleft (id, fields) List.mem_cons_self
    have hrest : ∀ e ∈ left, s.entries.get? e.1 = some e.2 :=
      fun e he => hleft e (List.mem_cons_of_mem (id, fields) he)
    clear hleft
    -- the entry is settled, or flushed again, or the sweep ends
    have settle : ∀ results : Dict String ResultDoc, (∀ name ∈ s.results, name ∈ results) →
        (∀ name, fields.batchId cfg.py = some name → name ∈ results ∨ s.Answered cfg.py name) →
        Keeps cfg { s.at w (.sweeping left (settled ++ [id]) retry) with results := results } := by
      intro results hresults hdone
      apply keeps_results h w hresults
      have hext : Extends cfg.py s
          { s.at w (.sweeping left (settled ++ [id]) retry) with results := results } :=
        ⟨fun _ _ hid => hid, fun name hname => hname.imp_left (hresults name)⟩
      refine ⟨hrest, fun id' hid' => ?_, hretry.mono hext⟩
      rcases List.mem_append.mp hid' with hold | hnew
      · exact (hsettled id' hold).mono hext
      · rw [List.mem_singleton.mp hnew]
        refine ⟨fields, hentry, fun name hname => ?_⟩
        rcases hdone name hname with hmem | hold
        · exact Or.inl hmem
        · exact hext.answered name hold
    have ends : Keeps cfg { s.at w .idle with results := s.results } :=
      @Keeps.at _ cfg _ s h w .idle trivial
    unfold sweepEntry at hstep
    cases fields with
    | noPayload =>
      cases hstep
      exact settle s.results (fun _ hname => hname) fun name hname => nomatch hname
    | unparsable =>
      cases hstep
      exact ends
    | payload item =>
      simp only at hstep
      split at hstep
      · -- the name that the sweep asks about is the batch id, when there is one
        have hname : ∀ name, batchId cfg.py item = some name →
            cfg.py.str (item.getD "request_id" (.str "unknown")) = name := by
          intro name hname
          obtain ⟨value, hvalue, rfl⟩ := Option.map_eq_some_iff.mp hname
          rw [Json.getD, hvalue]
          rfl
        cases reply with
        | raises =>
          cases hstep
          exact ends
        | asked read written =>
          simp only at hstep
          split at hstep
          · rename_i hcompleted
            cases hstep
            refine settle s.results (fun _ hmem => hmem) fun name hid => Or.inl ?_
            rw [Bool.and_eq_true] at hcompleted
            rw [← hname name hid, Dict.mem_def]
            cases hget : s.results.get? (cfg.py.str (item.getD "request_id" (.str "unknown"))) with
            | none => simp [hget] at hcompleted
            | some doc => rfl
          · split at hstep
            · cases hstep
              exact h.at w ⟨hrest, hsettled, hretry⟩
            · rename_i consumer delivered hpending
              split at hstep
              · rename_i hattempts
                cases hstep
                refine settle _ (fun _ hmem => mem_storeWhen.mpr (Or.inr hmem)) fun name hid => ?_
                rcases hcareful id item left settled retry consumer delivered hp hpending
                  hattempts with hwritten | hdone
                · exact Or.inl (mem_storeWhen.mpr (Or.inl ⟨hwritten, (hname name hid).symm⟩))
                · exact Or.inr (hdone name hid)
              · cases hstep
                refine h.at w ⟨hrest, hsettled, fun e he => ?_⟩
                rcases List.mem_append.mp he with hold | hnew
                · exact hretry e hold
                · rw [List.mem_singleton.mp hnew]
                  exact ⟨.payload item, hentry, fun name hid => hid⟩
      · cases hstep
        exact ends
  · cases hstep

theorem keeps_step {label : Label W} (hcareful : Careful cfg s label)
    (hstep : step cfg s label = some s') : Keeps cfg s' := by
  cases label with
  | enqueue id fields =>
    simp only [step] at hstep
    split at hstep
    · cases hstep
    · rename_i hnew
      cases hstep
      exact keeps_enqueue h hnew
  | read w ids =>
    simp only [step] at hstep
    split at hstep
    · split at hstep
      · cases hstep
        refine keeps_deliver h w ids ?_
        cases hparsed : (s.fieldsOf ids).mapM parseEntry with
        | none => exact fun held hheld => nomatch hheld
        | some entries => exact heldOk_byStream (heldOk_of_parsed hparsed)
      · cases hstep
    · cases hstep
  | begin w => exact keeps_begin h hstep
  | group w outcome => exact keeps_group h hcareful hstep
  | item w outcome escapes => exact keeps_item h hcareful hstep
  | ack w applied =>
    have hphase := h.phase w
    simp only [step] at hstep
    split at hstep
    · rename_i held todo hp
      rw [hp] at hphase
      obtain ⟨hheld, htodo, hcover⟩ := hphase
      cases applied with
      | false =>
        cases hstep
        exact h.at w htodo
      | true =>
        cases hstep
        refine keeps_acknowledge h w (fun id hid => ?_) htodo
        obtain ⟨e, he, rfl⟩ := List.mem_map.mp hid
        obtain ⟨fields, hfields, hname⟩ := hheld e he
        refine ⟨fields, hfields, fun name hid => ?_⟩
        -- nothing is left of the flush
        rcases hcover e he with hdone | hmem | ⟨group, hmem, -⟩
        · exact hdone name (hname name hid)
        · cases hmem
        · cases hmem
    · cases hstep
  | claim w ids =>
    simp only [step] at hstep
    split at hstep
    · split at hstep
      · cases hstep
        exact keeps_deliver h w ids
          ⟨fun e he => mem_fieldsOf he, fun _ hid => absurd hid List.not_mem_nil,
            fun _ he => absurd he List.not_mem_nil⟩
      · cases hstep
    · cases hstep
  | sweep w reply => exact keeps_sweep h hcareful hstep
  | settle w applied answered =>
    have hphase := h.phase w
    simp only [step] at hstep
    split at hstep
    · rename_i settled retry hp
      rw [hp] at hphase
      obtain ⟨-, hsettled, hretry⟩ := hphase
      have hnext : PhaseOk cfg s (if answered then .reading [retry] else .idle) := by
        cases answered with
        | true => exact fun held hheld => List.mem_singleton.mp hheld ▸ hretry
        | false => trivial
      cases applied with
      | false =>
        cases hstep
        exact h.at w hnext
      | true =>
        cases hstep
        exact keeps_acknowledge h w hsettled hnext
    · cases hstep
  | stop w =>
    cases hstep
    exact h.at w trivial

end Step

/-! ## 7. The run -/

theorem keeps_start : Keeps cfg (State.start : State W) where
  known id hid := absurd hid (Dict.notMem_empty id)
  acked _ hid := nomatch hid
  phase _ := trivial

/-- No run of careful steps loses a request. -/
theorem none_lost_of_careful [DecidableEq W] (cfg : Config) (labels : List (Label W))
    (hcareful : AllSteps (step cfg) (Careful cfg) (State.start : State W) labels) :
    Always (step cfg) (NoneLost cfg.py) (State.start : State W) labels :=
  (always_of_allSteps (fun _ _ _ h hc hs => keeps_step h hc hs) keeps_start hcareful).imp
    fun _ h => h.noneLost

/-! ## 8. Three requests that are lost -/

def loopConfig : Config where
  py := ⟨fun _ => "", fun _ _ => none⟩
  native := false
  defaultModel := "m"
  maxAttempts := 3
  adapterName := fun _ => some "openai"

def nativeConfig : Config := { loopConfig with native := true }

def requestOf (name : String) : Fields :=
  .payload (.obj [("request_id", .str name), ("model", .str "m")])

/-- The provider answers, and Redis does not take the answer. -/
def unwrittenResult : List (Label Unit) :=
  [.enqueue ("batch", 1) (requestOf "r1"), .read () [("batch", 1)], .begin (),
    .item () (.answered [] false) false, .ack () true]

/-- The provider takes the job, and Redis does not take its record. -/
def unrecordedJob : List (Label Unit) :=
  [.enqueue ("batch", 1) (requestOf "r1"), .read () [("batch", 1)], .begin (),
    .group () (.submitted "job" false), .ack () true]

/-- The key lookup of the first item raises, and the second is never looked at. -/
def skippedItem : List (Label Unit) :=
  [.enqueue ("batch", 1) (requestOf "r1"), .enqueue ("batch", 2) (requestOf "r2"),
    .read () [("batch", 1), ("batch", 2)], .begin (), .item () .escaped false, .ack () true]

theorem lost_of_acked {cfg : Config} {labels : List (Label Unit)} {id : EntryId} {name : String}
    (h : ∃ s', exec (step cfg) State.start labels = some s' ∧ id ∈ s'.acked ∧
      s'.entries.get? id = some (requestOf name) ∧ name ∉ s'.results ∧ s'.jobs = ∅)
    (hname : (requestOf name).batchId cfg.py = some name) :
    ¬ Always (step cfg) (NoneLost cfg.py) State.start labels := by
  intro halways
  obtain ⟨s', hrun, hacked, hentry, hresult, hjobs⟩ := h
  rcases (halways.last hrun).acked id hacked (requestOf name) name hentry hname with
    hmem | ⟨job, record, hjob, -⟩
  · exact hresult hmem
  · rw [hjobs] at hjob
    cases hjob

theorem requests_lost :
    ¬ Always (step loopConfig) (NoneLost loopConfig.py) State.start unwrittenResult ∧
      ¬ Always (step nativeConfig) (NoneLost nativeConfig.py) State.start unrecordedJob ∧
      ¬ Always (step loopConfig) (NoneLost loopConfig.py) State.start skippedItem := by
  refine ⟨?_, ?_, ?_⟩
  · exact @lost_of_acked _ _ ("batch", 1) _ ⟨_, rfl, by decide, rfl, by decide, rfl⟩ rfl
  · exact @lost_of_acked _ _ ("batch", 1) _ ⟨_, rfl, by decide, rfl, by decide, rfl⟩ rfl
  · exact @lost_of_acked _ _ ("batch", 2) _ ⟨_, rfl, by decide, rfl, by decide, rfl⟩ rfl

/-- A worker stops in the middle of a flush, and another answers the entry it left. -/
def takenOver : List (Label Bool) :=
  [.enqueue ("batch", 1) (requestOf "r1"), .read false [("batch", 1)], .begin false, .stop false,
    .claim true [("batch", 1)], .sweep true (.asked true true), .settle true true true,
    .begin true, .item true (.answered [] true) false, .ack true true]

theorem none_lost_takenOver :
    Always (step loopConfig) (NoneLost loopConfig.py) State.start takenOver := by
  apply none_lost_of_careful
  refine allSteps_cons rfl trivial (allSteps_cons rfl trivial (allSteps_cons rfl trivial
    (allSteps_cons rfl trivial (allSteps_cons rfl trivial (allSteps_cons rfl ?_
      (allSteps_cons rfl trivial (allSteps_cons rfl trivial (allSteps_cons rfl ?_
        (allSteps_cons rfl trivial trivial)))))))))
  · exact fun _ _ _ _ _ _ _ _ _ _ => Or.inl rfl
  · refine fun _ _ _ _ _ _ => ⟨Or.inl rfl, fun hescape => ?_⟩
    simp at hescape

end TokenProxy.BatchWorker
