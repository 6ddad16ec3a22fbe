/-
  TokenProxy/BatchBilling.lean
  ============================
  **How often a native batch answer is billed**, over every interleaving of the
  pollers of `TokenProxy.BatchPoller`.

  Nothing in the code claims a job: two passes that read it both add its costs,
  a pass that breaks off after the first addition leaves it to the next, and the
  client repeats an increment whose reply was lost.  `Careful` is the condition on
  a step that excludes these three, and `billedOnce_always` carries it to runs.
  The invariant is that a charged job which is still recorded is in the hands of
  one pass, and that this pass has the answers before it still unbilled.
-/
import TokenProxy.BatchPoller

namespace TokenProxy.BatchPoller

open Execution

variable (svc : Services)

/-! ## 1. The job that a pass is billing -/

/-- The job whose results a pass is going through. -/
def Phase.work? : Phase → Option Work
  | .answers w _ => some w
  | .charging w _ _ _ _ => some w
  | .missing w _ => some w
  | .dropping w => some w
  | _ => none

/-- The answers that a pass has not dealt with. -/
def Phase.left : Phase → List (BatchResult × Nat)
  | .answers _ left => left
  | .charging _ requestId body answer left => (⟨some requestId, .response body⟩, answer) :: left
  | _ => []

def costs (info : JobInfo) : BatchResult → Bool
  | ⟨some requestId, .response body⟩ =>
    decide (requestId ≠ "") && (answerCharge svc info requestId body).isSome
  | _ => false

/-- Some answer of the job has a cost to add. -/
def billable (w : Work) : Bool := (svc.results w.job).any (costs svc w.info)

/-- The billable job whose results a pass is going through. -/
def billing (phase : Phase) : Option String := (phase.work?.filter (billable svc)).map Work.job

variable {P : Type} [DecidableEq P]

/-- The poller is not billing a job that is still recorded and has been charged. -/
def Uncharged (s : State P) (p : P) : Prop :=
  ∀ job, billing svc (s.pollers p) = some job → (s.index.get? job).isSome = true →
    ∀ charge ∈ s.charges, charge.job ≠ job

/-- A pass takes up a job's results only while the job is recorded and no other pass is billing
    it; it does not break off with the job charged and recorded; no increment is repeated. -/
def Careful (s : State P) : Event P → Prop
  | .act p (.results true) => ∀ w, s.pollers p = .fetching w → billable svc w = true →
      (s.index.get? w.job).isSome = true ∧ ∀ q, billing svc (s.pollers q) ≠ some w.job
  | .act _ (.added times) => times ≤ 1
  | .act p (.removed .failed) => Uncharged svc s p
  | .breakOff p => Uncharged svc s p
  | _ => True

theorem billing_eq_some {phase : Phase} {job : String} :
    billing svc phase = some job ↔
      ∃ w, phase.work? = some w ∧ billable svc w = true ∧ w.job = job := by
  simp only [billing, Option.map_eq_some_iff, Option.filter_eq_some_iff]
  constructor
  · rintro ⟨w, ⟨hw, hbillable⟩, hjob⟩
    exact ⟨w, hw, hbillable, hjob⟩
  · rintro ⟨w, hw, hbillable, hjob⟩
    exact ⟨w, ⟨hw, hbillable⟩, hjob⟩

theorem billing_none {phase : Phase} (h : phase.work? = none) : billing svc phase = none := by
  rw [billing, h]
  rfl

theorem billing_congr {phase phase' : Phase} (h : phase'.work? = phase.work?) :
    billing svc phase' = billing svc phase := by
  rw [billing, h, billing]

/-! ## 2. What one step of a poller does -/

/-- The answers left are the last of the job's results. -/
def PhaseOk : Phase → Prop
  | .answers w left => left <:+ (svc.results w.job).zipIdx
  | .charging w requestId body answer left => requestId ≠ "" ∧
      (⟨some requestId, .response body⟩, answer) :: left <:+ (svc.results w.job).zipIdx
  | _ => True

def Effect.Quiet : Effect → Prop
  | .nothing => True
  | .store _ _ => True
  | _ => False

/-- The steps of a poller, as far as billing is concerned. -/
inductive Moves : Phase → Reply → Phase → Effect → Prop where
  | takesUp (w : Work) :
      Moves (.fetching w) (.results true) (.answers w (svc.results w.job).zipIdx) .nothing
  | goesOn {phase phase' : Phase} {reply : Reply} {effect : Effect}
      (work : phase'.work? = phase.work?) (left : phase'.left <:+ phase.left)
      (ok : PhaseOk svc phase → PhaseOk svc phase') (quiet : effect.Quiet) :
      Moves phase reply phase' effect
  | charges {w : Work} {requestId : String} {body : List (String × Json)} {answer : Nat}
      {left : List (BatchResult × Nat)} {spendPrefix : String} {cost : ℚ} (times : Nat)
      (charge : answerCharge svc w.info requestId body = some (spendPrefix, cost)) :
      Moves (.charging w requestId body answer left) (.added times) (.answers w left)
        (.charge ⟨w.job, answer, spendPrefix, cost⟩ times)
  | removes {phase phase' : Phase} {reply : Reply} {job : String}
      (work : phase'.work? = none) (own : ∀ w, phase.work? = some w → w.job = job) :
      Moves phase reply phase' (.remove job)
  | givesUp (phase : Phase) : Moves phase (.removed .failed) .idle .nothing

variable {svc}

theorem storeIf_quiet (written : Bool) (requestId : String) (doc : ResultDoc) :
    (storeIf written requestId doc).Quiet := by
  cases written <;> trivial

theorem phaseOk_of_outside {phase : Phase} (h : phase.work? = none) : PhaseOk svc phase := by
  cases phase with
  | answers w left => cases h
  | charging w requestId body answer left => cases h
  | _ => trivial

theorem left_of_outside {phase : Phase} (h : phase.work? = none) : phase.left = [] := by
  cases phase with
  | answers w left => cases h
  | charging w requestId body answer left => cases h
  | _ => rfl

/-- A step outside the results of a job stays outside. -/
theorem Moves.outside {phase phase' : Phase} {reply : Reply} {effect : Effect}
    (h : phase.work? = none) (h' : phase'.work? = none) (quiet : effect.Quiet) :
    Moves svc phase reply phase' effect :=
  .goesOn (h'.trans h.symm) (by rw [left_of_outside h']; exact List.nil_suffix)
    (fun _ => phaseOk_of_outside h') quiet

theorem moves_removal {phase : Phase} {job : String} {rest : List (String × JobRecord)}
    (own : ∀ w, phase.work? = some w → w.job = job) (removal : Removal) :
    Moves svc phase (.removed removal) (afterRemoval job rest removal).1
      (afterRemoval job rest removal).2 := by
  cases removal with
  | done => exact .removes rfl own
  | unanswered => exact .removes rfl own
  | failed => exact .givesUp phase

theorem moves_answer {w : Work} {result : BatchResult} {answer : Nat}
    {left : List (BatchResult × Nat)} {reply : Reply} {phase' : Phase} {effect : Effect}
    (h : answerStep w answer left result reply = some (phase', effect)) :
    Moves svc (.answers w ((result, answer) :: left)) reply phase' effect := by
  have hskip : ∀ {effect : Effect}, effect.Quiet →
      Moves svc (.answers w ((result, answer) :: left)) reply (.answers w left) effect :=
    fun quiet => .goesOn rfl (List.suffix_cons _ _)
      (fun hok => (List.suffix_cons _ _).trans hok) quiet
  obtain ⟨requestId, outcome⟩ := result
  cases requestId with
  | none =>
    cases reply with
    | proceed =>
      cases h
      exact hskip trivial
    | _ => cases h
  | some requestId =>
    by_cases hempty : requestId = ""
    · cases reply with
      | proceed =>
        simp only [answerStep, if_pos hempty, if_true, Option.some.injEq, Prod.mk.injEq] at h
        obtain ⟨rfl, rfl⟩ := h
        exact hskip trivial
      | _ => simp [answerStep, hempty] at h
    · cases outcome with
      | response body =>
        cases reply with
        | stored written =>
          simp only [answerStep, if_neg hempty, Option.some.injEq, Prod.mk.injEq] at h
          obtain ⟨rfl, rfl⟩ := h
          exact .goesOn rfl (List.suffix_refl _) (fun hok => ⟨hempty, hok⟩)
            (storeIf_quiet _ _ _)
        | _ => simp [answerStep, hempty] at h
      | error text =>
        cases reply with
        | stored written =>
          simp only [answerStep, if_neg hempty, Option.some.injEq, Prod.mk.injEq] at h
          obtain ⟨rfl, rfl⟩ := h
          exact hskip (storeIf_quiet _ _ _)
        | _ => simp [answerStep, hempty] at h

theorem move_moves {index : JobIndex} {phase phase' : Phase} {reply : Reply} {effect : Effect}
    (h : move svc index phase reply = some (phase', effect)) :
    Moves svc phase reply phase' effect := by
  cases phase with
  | idle =>
    cases reply with
    | index read =>
      cases read with
      | true => cases h; exact .outside rfl rfl trivial
      | false => cases h; exact .outside rfl rfl trivial
    | _ => cases h
  | scan jobs =>
    cases reply with
    | proceed =>
      cases jobs with
      | nil =>
        cases h
        exact .outside rfl rfl trivial
      | cons entry rest =>
        obtain ⟨job, record⟩ := entry
        cases record with
        | unparsable =>
          cases h
          exact .outside rfl rfl trivial
        | info info =>
          simp only [move, Option.some.injEq, Prod.mk.injEq] at h
          obtain ⟨rfl, rfl⟩ := h
          split
          · exact .outside rfl rfl trivial
          · exact .outside rfl rfl trivial
    | _ => rcases jobs with _ | ⟨⟨job, _ | info⟩, rest⟩ <;> cases h
  | asking w =>
    cases reply with
    | status status =>
      cases status with
      | unavailable => cases h; exact .outside rfl rfl trivial
      | pending => cases h; exact .outside rfl rfl trivial
      | completed => cases h; exact .outside rfl rfl trivial
      | ended status => cases h; exact .outside rfl rfl trivial
    | _ => cases h
  | fetching w =>
    cases reply with
    | results fetched =>
      cases fetched with
      | true => cases h; exact .takesUp w
      | false => cases h; exact .outside rfl rfl trivial
    | _ => cases h
  | answers w left =>
    cases left with
    | nil =>
      cases reply with
      | proceed =>
        cases h
        exact .goesOn rfl List.nil_suffix (fun _ => trivial) trivial
      | _ => cases h
    | cons entry left => exact moves_answer h
  | charging w requestId body answer left =>
    cases hcharge : answerCharge svc w.info requestId body with
    | none =>
      cases reply with
      | proceed =>
        simp only [move, hcharge, Option.some.injEq, Prod.mk.injEq] at h
        obtain ⟨rfl, rfl⟩ := h
        exact .goesOn rfl (List.suffix_cons _ _) (fun hok => (List.suffix_cons _ _).trans hok.2)
          trivial
      | _ => simp [move, hcharge] at h
    | some owed =>
      obtain ⟨spendPrefix, cost⟩ := owed
      cases reply with
      | added times =>
        simp only [move, hcharge, Option.some.injEq, Prod.mk.injEq] at h
        obtain ⟨rfl, rfl⟩ := h
        exact .charges times hcharge
      | _ => simp [move, hcharge] at h
  | missing w left =>
    cases left with
    | nil =>
      cases reply with
      | proceed =>
        cases h
        exact .goesOn rfl List.nil_suffix (fun _ => trivial) trivial
      | _ => cases h
    | cons requestId left =>
      cases reply with
      | stored written =>
        cases h
        exact .goesOn rfl List.nil_suffix (fun _ => trivial) (storeIf_quiet _ _ _)
      | _ => cases h
  | failing w status left =>
    cases left with
    | nil =>
      cases reply with
      | proceed => cases h; exact .outside rfl rfl trivial
      | _ => cases h
    | cons requestId left =>
      cases reply with
      | stored written => cases h; exact .outside rfl rfl (storeIf_quiet _ _ _)
      | _ => cases h
  | dropping w =>
    cases reply with
    | removed removal =>
      obtain ⟨rfl, rfl⟩ := Prod.mk.inj (Option.some.inj h)
      exact moves_removal (fun w' hw' => by cases hw'; rfl) removal
    | _ => cases h
  | discarding job rest =>
    cases reply with
    | removed removal =>
      obtain ⟨rfl, rfl⟩ := Prod.mk.inj (Option.some.inj h)
      exact moves_removal (fun w' hw' => by cases hw') removal
    | _ => cases h

/-! ## 3. The invariant -/

variable (svc)

structure Inv (s : State P) : Prop where
  phases : ∀ p, PhaseOk svc (s.pollers p)
  /-- A job is billed by one pass at a time. -/
  sole : ∀ p q job, billing svc (s.pollers p) = some job →
    billing svc (s.pollers q) = some job → p = q
  /-- A charged job is no longer recorded, or in the hands of a pass. -/
  covered : ∀ charge ∈ s.charges, (s.index.get? charge.job).isSome = true →
    ∃ p, billing svc (s.pollers p) = some charge.job
  /-- The answers before a pass are still unbilled. -/
  ahead : ∀ p job, billing svc (s.pollers p) = some job →
    ∀ entry ∈ (s.pollers p).left, s.timesCharged job entry.2 = 0
  once : BilledOnce s

variable {svc}

omit [DecidableEq P] in
theorem timesCharged_eq_zero {s : State P} {job : String}
    (h : ∀ charge ∈ s.charges, charge.job ≠ job) (answer : Nat) :
    s.timesCharged job answer = 0 := by
  apply List.countP_eq_zero.mpr
  intro charge hcharge
  simp [h charge hcharge]

@[simp] theorem at_self (s : State P) (p : P) (phase : Phase) : (s.at p phase).pollers p = phase := by
  simp [State.at]

theorem at_of_ne (s : State P) {p q : P} (h : q ≠ p) (phase : Phase) :
    (s.at p phase).pollers q = s.pollers q := by
  simp [State.at, h]

theorem phaseOk_at {s : State P} (h : ∀ q, PhaseOk svc (s.pollers q)) (p : P) {phase : Phase}
    (ok : PhaseOk svc phase) : ∀ q, PhaseOk svc ((s.at p phase).pollers q) := by
  intro q
  by_cases hq : q = p
  · rw [hq, at_self]
    exact ok
  · rw [at_of_ne s hq]
    exact h q

omit [DecidableEq P] in
theorem apply_pollers (s : State P) (effect : Effect) :
    (effect.apply s).pollers = s.pollers := by
  cases effect <;> rfl

omit [DecidableEq P] in
theorem Effect.Quiet.unchanged {effect : Effect} (quiet : effect.Quiet) (s : State P) :
    (effect.apply s).index = s.index ∧ (effect.apply s).charges = s.charges := by
  cases effect with
  | nothing => exact ⟨rfl, rfl⟩
  | store requestId doc => exact ⟨rfl, rfl⟩
  | charge added times => cases quiet
  | remove job => cases quiet

/-- A pass that stops billing keeps the invariant, if each job it leaves behind charged is no
    longer recorded. -/
theorem Inv.leaves {s s' : State P} {p : P} (h : Inv svc s) (hphase : PhaseOk svc (s'.pollers p))
    (hnone : billing svc (s'.pollers p) = none) (hother : ∀ q, q ≠ p → s'.pollers q = s.pollers q)
    (hcharges : s'.charges = s.charges)
    (hindex : ∀ job, (s'.index.get? job).isSome = true → (s.index.get? job).isSome = true)
    (hleft : ∀ job, billing svc (s.pollers p) = some job → (s'.index.get? job).isSome = true →
      ∀ charge ∈ s.charges, charge.job ≠ job) : Inv svc s' := by
  have hne : ∀ {q job}, billing svc (s'.pollers q) = some job → q ≠ p := by
    rintro q job hq rfl
    rw [hnone] at hq
    cases hq
  have htimes : ∀ job answer, s'.timesCharged job answer = s.timesCharged job answer := by
    intro job answer
    rw [State.timesCharged, hcharges, State.timesCharged]
  refine ⟨?_, ?_, ?_, ?_, ?_⟩
  · intro q
    by_cases hq : q = p
    · rw [hq]
      exact hphase
    · rw [hother q hq]
      exact h.phases q
  · intro q r job hq hr
    rw [hother q (hne hq)] at hq
    rw [hother r (hne hr)] at hr
    exact h.sole q r job hq hr
  · intro charge hcharge hsome
    rw [hcharges] at hcharge
    obtain ⟨q, hq⟩ := h.covered charge hcharge (hindex _ hsome)
    have hqp : q ≠ p := by
      rintro rfl
      exact hleft _ hq hsome charge hcharge rfl
    exact ⟨q, by rw [hother q hqp]; exact hq⟩
  · intro q job hq entry hentry
    have hsame := hother q (hne hq)
    rw [hsame] at hq hentry
    rw [htimes]
    exact h.ahead q job hq entry hentry
  · intro job answer
    rw [htimes]
    exact h.once job answer

theorem Inv.breaksOff {s : State P} {p : P} (h : Inv svc s) (hcareful : Uncharged svc s p) :
    Inv svc (s.at p .idle) := by
  apply h.leaves (p := p)
  · rw [at_self]
    trivial
  · rw [at_self]
    rfl
  · exact fun q hq => at_of_ne s hq _
  · rfl
  · exact fun _ hsome => hsome
  · exact hcareful

theorem Inv.removes {s : State P} {p : P} {phase' : Phase} {job : String} (h : Inv svc s)
    (work : phase'.work? = none)
    (own : ∀ w, (s.pollers p).work? = some w → w.job = job) :
    Inv svc ((Effect.apply s (.remove job)).at p phase') := by
  apply h.leaves (p := p)
  · rw [at_self]
    exact phaseOk_of_outside work
  · rw [at_self]
    exact billing_none svc work
  · exact fun q hq => at_of_ne _ hq _
  · rfl
  · intro job' hsome
    have hindex := Dict.get?_erase s.index job job'
    change ((s.index.erase job).get? job').isSome = true at hsome
    rw [hindex] at hsome
    split at hsome
    · cases hsome
    · exact hsome
  · intro job' hbilling hsome
    obtain ⟨w, hw, -, rfl⟩ := (billing_eq_some svc).mp hbilling
    change ((s.index.erase job).get? w.job).isSome = true at hsome
    rw [own w hw, Dict.get?_erase, if_pos rfl] at hsome
    cases hsome

/-- A step within the results of a job. -/
theorem Inv.goesOn {s : State P} {p : P} {phase' : Phase} {effect : Effect} (h : Inv svc s)
    (work : phase'.work? = (s.pollers p).work?) (left : phase'.left <:+ (s.pollers p).left)
    (ok : PhaseOk svc phase') (quiet : effect.Quiet) :
    Inv svc ((effect.apply s).at p phase') := by
  obtain ⟨hindex, hcharges⟩ := quiet.unchanged s
  have hpollers := apply_pollers s effect
  have hbilling : ∀ q, billing svc (((effect.apply s).at p phase').pollers q) =
      billing svc (s.pollers q) := by
    intro q
    by_cases hq : q = p
    · rw [hq, at_self]
      exact billing_congr svc work
    · rw [at_of_ne _ hq, hpollers]
  have htimes : ∀ job answer, ((effect.apply s).at p phase').timesCharged job answer =
      s.timesCharged job answer := by
    intro job answer
    change List.countP _ (effect.apply s).charges = _
    rw [hcharges]
    rfl
  refine ⟨phaseOk_at (by rw [hpollers]; exact h.phases) p ok, ?_, ?_, ?_, ?_⟩
  · intro q r job hq hr
    rw [hbilling] at hq hr
    exact h.sole q r job hq hr
  · intro charge hcharge hsome
    change charge ∈ (effect.apply s).charges at hcharge
    change ((effect.apply s).index.get? charge.job).isSome = true at hsome
    rw [hcharges] at hcharge
    rw [hindex] at hsome
    obtain ⟨q, hq⟩ := h.covered charge hcharge hsome
    exact ⟨q, by rw [hbilling]; exact hq⟩
  · intro q job hq entry hentry
    rw [hbilling] at hq
    rw [htimes]
    by_cases hqp : q = p
    · subst hqp
      rw [at_self] at hentry
      exact h.ahead q job hq entry (left.subset hentry)
    · rw [at_of_ne _ hqp, hpollers] at hentry
      exact h.ahead q job hq entry hentry
  · intro job answer
    rw [htimes]
    exact h.once job answer

/-- A pass that takes up the results of a recorded job which no other pass is billing. -/
theorem Inv.takesUp {s : State P} {p : P} {w : Work} (h : Inv svc s)
    (hp : s.pollers p = .fetching w)
    (hcareful : billable svc w = true → (s.index.get? w.job).isSome = true ∧
      ∀ q, billing svc (s.pollers q) ≠ some w.job) :
    Inv svc (s.at p (.answers w (svc.results w.job).zipIdx)) := by
  have hfree : ∀ job, billing svc (.answers w (svc.results w.job).zipIdx) = some job →
      (∀ q, billing svc (s.pollers q) ≠ some job) ∧ ∀ charge ∈ s.charges, charge.job ≠ job := by
    intro job hjob
    obtain ⟨w', hw', hbillable, rfl⟩ := (billing_eq_some svc).mp hjob
    cases hw'
    obtain ⟨hrecorded, hnone⟩ := hcareful hbillable
    refine ⟨hnone, ?_⟩
    intro charge hcharge heq
    rw [← heq] at hrecorded hnone
    obtain ⟨q, hq⟩ := h.covered charge hcharge hrecorded
    exact hnone q hq
  refine ⟨phaseOk_at h.phases p (List.suffix_refl _), ?_, ?_, ?_, h.once⟩
  · intro q r job hq hr
    by_cases hqp : q = p
    · by_cases hrp : r = p
      · rw [hqp, hrp]
      · rw [hqp, at_self] at hq
        rw [at_of_ne _ hrp] at hr
        exact absurd hr ((hfree job hq).1 r)
    · by_cases hrp : r = p
      · rw [hrp, at_self] at hr
        rw [at_of_ne _ hqp] at hq
        exact absurd hq ((hfree job hr).1 q)
      · rw [at_of_ne _ hqp] at hq
        rw [at_of_ne _ hrp] at hr
        exact h.sole q r job hq hr
  · intro charge hcharge hsome
    obtain ⟨q, hq⟩ := h.covered charge hcharge hsome
    have hqp : q ≠ p := by
      rintro rfl
      rw [hp, billing_none svc rfl] at hq
      cases hq
    exact ⟨q, by rw [at_of_ne _ hqp]; exact hq⟩
  · intro q job hq entry hentry
    by_cases hqp : q = p
    · rw [hqp, at_self] at hq
      exact timesCharged_eq_zero (hfree job hq).2 entry.2
    · rw [at_of_ne _ hqp] at hq hentry
      exact h.ahead q job hq entry hentry

/-! ### Adding a cost -/

omit [DecidableEq P] in
theorem timesCharged_charge (s : State P) (charge : Charge) (times : Nat) (job : String)
    (answer : Nat) :
    (Effect.apply s (.charge charge times)).timesCharged job answer =
      s.timesCharged job answer +
        if charge.job = job ∧ charge.answer = answer then times else 0 := by
  rw [State.timesCharged, State.timesCharged]
  change (s.charges ++ List.replicate times charge).countP _ = _
  rw [List.countP_append, List.countP_replicate]
  simp only [decide_eq_true_eq]

/-- The places of a job's results differ. -/
theorem answer_notMem_left {results : List BatchResult} {entry : BatchResult × Nat}
    {left : List (BatchResult × Nat)} (h : entry :: left <:+ results.zipIdx) :
    ∀ other ∈ left, other.2 ≠ entry.2 := by
  have hnodup : ((entry :: left).map Prod.snd).Nodup := by
    apply (h.sublist.map Prod.snd).nodup
    rw [List.zipIdx_map_snd]
    exact List.nodup_range'
  intro other hother heq
  rw [List.map_cons, List.nodup_cons] at hnodup
  exact hnodup.1 (heq ▸ List.mem_map_of_mem hother)

theorem billable_of_charge {w : Work} {requestId : String} {body : List (String × Json)}
    {answer : Nat} {left : List (BatchResult × Nat)} {owed : String × ℚ}
    (hphase : PhaseOk svc (.charging w requestId body answer left))
    (hcharge : answerCharge svc w.info requestId body = some owed) : billable svc w = true := by
  obtain ⟨hnonempty, hsuffix⟩ := hphase
  apply List.any_eq_true.mpr
  refine ⟨⟨some requestId, .response body⟩, ?_, ?_⟩
  · exact List.fst_mem_of_mem_zipIdx (hsuffix.subset List.mem_cons_self)
  · simp [costs, hnonempty, hcharge]

theorem Inv.charges {s : State P} {p : P} {w : Work} {requestId : String}
    {body : List (String × Json)} {answer times : Nat} {left : List (BatchResult × Nat)}
    {spendPrefix : String} {cost : ℚ} (h : Inv svc s)
    (hp : s.pollers p = .charging w requestId body answer left)
    (hcharge : answerCharge svc w.info requestId body = some (spendPrefix, cost))
    (htimes : times ≤ 1) :
    Inv svc ((Effect.apply s (.charge ⟨w.job, answer, spendPrefix, cost⟩ times)).at p
      (.answers w left)) := by
  have hphase := h.phases p
  rw [hp] at hphase
  have hbillable := billable_of_charge hphase hcharge
  have hbills : billing svc (s.pollers p) = some w.job :=
    (billing_eq_some svc).mpr ⟨w, by rw [hp]; rfl, hbillable, rfl⟩
  have hbilling : ∀ q, billing svc (((Effect.apply s (.charge ⟨w.job, answer, spendPrefix, cost⟩
      times)).at p (.answers w left)).pollers q) = billing svc (s.pollers q) := by
    intro q
    by_cases hq : q = p
    · rw [hq, at_self]
      exact billing_congr svc (by rw [hp]; rfl)
    · rw [at_of_ne _ hq]
      rfl
  have hzero : ∀ entry ∈ (s.pollers p).left, s.timesCharged w.job entry.2 = 0 :=
    h.ahead p w.job hbills
  rw [hp] at hzero
  have hcount : ∀ job answer', (((Effect.apply s (.charge ⟨w.job, answer, spendPrefix, cost⟩
      times)).at p (.answers w left)).timesCharged job answer') = s.timesCharged job answer' +
        if w.job = job ∧ answer = answer' then times else 0 :=
    timesCharged_charge s ⟨w.job, answer, spendPrefix, cost⟩ times
  refine ⟨phaseOk_at h.phases p ((List.suffix_cons _ _).trans hphase.2), ?_, ?_, ?_, ?_⟩
  · intro q r job hq hr
    rw [hbilling] at hq hr
    exact h.sole q r job hq hr
  · intro charge hmem hsome
    rcases List.mem_append.mp hmem with hold | hnew
    · obtain ⟨q, hq⟩ := h.covered charge hold hsome
      exact ⟨q, by rw [hbilling]; exact hq⟩
    · rw [List.eq_of_mem_replicate hnew]
      exact ⟨p, by rw [hbilling]; exact hbills⟩
  · intro q job hq entry hentry
    rw [hbilling] at hq
    rw [hcount]
    by_cases hqp : q = p
    · subst hqp
      rw [at_self] at hentry
      obtain rfl := Option.some.inj (hbills.symm.trans hq)
      rw [hzero entry (List.mem_cons_of_mem _ hentry),
        if_neg fun heq => answer_notMem_left hphase.2 entry hentry heq.2.symm]
    · rw [at_of_ne _ hqp] at hentry
      have hother : w.job ≠ job := by
        rintro rfl
        exact hqp (h.sole q p w.job hq hbills)
      rw [if_neg fun heq => hother heq.1]
      exact h.ahead q job hq entry hentry
  · intro job answer'
    rw [hcount]
    split
    · rename_i heq
      obtain ⟨rfl, rfl⟩ := heq
      have hfirst := hzero _ List.mem_cons_self
      dsimp only at hfirst
      omega
    · exact h.once job answer'

/-! ## 4. Steps and runs -/

omit [DecidableEq P] in
theorem Inv.records {s : State P} {job : String} {info : JobInfo} (h : Inv svc s)
    (hfresh : ∀ charge ∈ s.charges, charge.job ≠ job) :
    Inv svc { s with index := s.index.set job (.info info) } := by
  refine ⟨h.phases, h.sole, ?_, h.ahead, h.once⟩
  intro charge hcharge hsome
  apply h.covered charge hcharge
  rwa [Dict.get?_set_of_ne _ (hfresh charge hcharge)] at hsome

theorem inv_step {s s' : State P} {e : Event P} (h : Inv svc s) (hcareful : Careful svc s e)
    (hstep : step svc s e = some s') : Inv svc s' := by
  cases e with
  | record job info =>
    rw [step] at hstep
    split at hstep
    · rename_i hfresh
      cases hstep
      exact h.records hfresh.2
    · cases hstep
  | breakOff p =>
    cases hstep
    exact h.breaksOff hcareful
  | act p reply =>
    obtain ⟨⟨phase', effect⟩, hmove, rfl⟩ := Option.map_eq_some_iff.mp hstep
    have hmoves := move_moves hmove
    generalize hp : s.pollers p = phase at hmoves
    cases hmoves with
    | takesUp w => exact h.takesUp hp (hcareful w hp)
    | goesOn work left ok quiet =>
      apply h.goesOn
      · rw [hp]
        exact work
      · rw [hp]
        exact left
      · have hok := h.phases p
        rw [hp] at hok
        exact ok hok
      · exact quiet
    | charges times charge => exact h.charges hp charge hcareful
    | removes work own =>
      apply h.removes work
      rw [hp]
      exact own
    | givesUp => exact h.breaksOff hcareful

omit [DecidableEq P] in
theorem inv_start (index : JobIndex) (stored : Dict String ResultDoc) :
    Inv svc (State.start (P := P) index stored) := by
  refine ⟨fun _ => trivial, ?_, ?_, ?_, ?_⟩
  · intro p q job hp
    cases hp
  · intro charge hcharge
    cases hcharge
  · intro p job hp
    cases hp
  · intro job answer
    exact Nat.zero_le 1

variable (svc)

/-- **Every careful run.**  From any set of recorded jobs, the cost of each answer is added at
    most once, as long as each step of the run is careful. -/
theorem billedOnce_always (index : JobIndex) (stored : Dict String ResultDoc)
    (events : List (Event P))
    (h : AllSteps (step svc) (Careful svc) (State.start index stored) events) :
    Always (step svc) BilledOnce (State.start index stored) events :=
  (always_of_allSteps (fun _ _ _ hs hok hstep => inv_step hs hok hstep)
    (inv_start index stored) h).imp fun _ hs => hs.once

theorem not_always_of_charged {s : State P} {events : List (Event P)} (job : String)
    (answer : Nat) {times : Nat} (htimes : 1 < times)
    (h : (exec (step svc) s events).map (fun s' => s'.timesCharged job answer) = some times) :
    ¬ Always (step svc) BilledOnce s events := by
  intro halways
  obtain ⟨s', hrun, rfl⟩ := Option.map_eq_some_iff.mp h
  have honce := (always_iff_prefixes s events).mp halways events [] s'
    (List.append_nil events).symm hrun
  exact absurd (honce job answer) (by omega)

section

/-- One job, one answer, which costs half a dollar. -/
def oneAnswer : Services where
  hasAdapter _ := true
  results _ := [⟨some "r1", .response [("id", .str "answer")]⟩]
  price _ _ _ := some (1 / 2)

def oneAnswerJob : JobInfo where
  provider := "openai"
  tenantId := some "acme"
  requestIds := ["r1"]
  baselineTokens := ∅
  spend := (∅ : Dict String SpendOwed).set "r1" ⟨"tok_opt:acme:", some "gpt-4o"⟩

def oneJob : JobIndex := (∅ : JobIndex).set "batch-1" (.info oneAnswerJob)

/-- A pass up to its reading of the job's status. -/
def reads (p : Bool) : List (Event Bool) :=
  [.act p (.index true), .act p .proceed, .act p (.status .completed)]

/-- The rest of it, up to the addition of the answer's cost. -/
def bills (p : Bool) (times : Nat) : List (Event Bool) :=
  [.act p (.results true), .act p (.stored true), .act p (.added times)]

def finishes (p : Bool) : List (Event Bool) :=
  [.act p .proceed, .act p .proceed, .act p (.removed .done), .act p .proceed]

/-- A pass bills the job and removes it; the next pass of the other poller finds nothing. -/
theorem billedOnce_two_passes :
    Always (step oneAnswer) BilledOnce (State.start oneJob ∅)
      (reads true ++ bills true 1 ++ finishes true ++ [.act false (.index true)]) := by
  apply billedOnce_always
  simp only [reads, bills, finishes, List.cons_append, List.nil_append]
  refine fun s₁ h₁ => ⟨trivial, ?_⟩
  cases h₁
  refine fun s₂ h₂ => ⟨trivial, ?_⟩
  cases h₂
  refine fun s₃ h₃ => ⟨trivial, ?_⟩
  cases h₃
  refine fun s₄ h₄ => ⟨fun w hw _ => ?_, ?_⟩
  · cases hw
    refine ⟨rfl, fun q => ?_⟩
    cases q with
    | true => exact nofun
    | false => exact nofun
  -- from here on nothing depends on the state any more
  apply allSteps_of_forall
  intro e he s
  simp only [List.mem_cons, List.not_mem_nil, or_false] at he
  rcases he with rfl | rfl | rfl | rfl | rfl | rfl | rfl
  · trivial
  · exact Nat.le_refl 1
  all_goals trivial

/-- Two passes that overlap, a pass that breaks off before it removes the job, and an increment
    that the client repeats. -/
theorem not_billedOnce :
    ¬ Always (step oneAnswer) BilledOnce (State.start oneJob ∅)
        (reads true ++ reads false ++ bills true 1 ++ bills false 1) ∧
      ¬ Always (step oneAnswer) BilledOnce (State.start oneJob ∅)
        (reads true ++ bills true 1 ++ [.breakOff true] ++ reads true ++ bills true 1) ∧
      ¬ Always (step oneAnswer) BilledOnce (State.start oneJob ∅)
        (reads true ++ bills true 2) := by
  have htwice : 1 < 2 := by decide
  refine ⟨?_, ?_, ?_⟩
  · exact not_always_of_charged oneAnswer "batch-1" 0 htwice (by decide +kernel)
  · exact not_always_of_charged oneAnswer "batch-1" 0 htwice (by decide +kernel)
  · exact not_always_of_charged oneAnswer "batch-1" 0 htwice (by decide +kernel)

end

end TokenProxy.BatchPoller
