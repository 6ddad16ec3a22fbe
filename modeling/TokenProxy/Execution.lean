/-
  TokenProxy/Execution.lean
  =========================
  **Runs of a partial step function, and the rules that carry a step fact to a run.**

  A system is a function `step : σ → α → Option σ` on states `σ` and labels `α`;
  `none` says that the label is not enabled in that state.  A run is a list of
  labels.  Three rules are proved once here and used by name afterwards:

    * `always_of_step`      — an invariant kept by every step holds throughout;
    * `always_of_allSteps`  — the same, when only the steps that meet a side
      condition keep it;
    * `always_iff_allSteps` — when a step keeps the property *exactly* when it
      meets the condition, the runs that keep it are exactly those whose steps
      all meet it.
-/
import Mathlib.Data.List.Basic

namespace TokenProxy.Execution

variable {σ α : Type*}

/-! ## 1. Runs -/

/-- The state after the labels, in order; `none` when one of them is not enabled. -/
def exec (step : σ → α → Option σ) : σ → List α → Option σ
  | s, [] => some s
  | s, a :: as => (step s a).bind fun s' => exec step s' as

variable (step : σ → α → Option σ)

@[simp] theorem exec_nil (s : σ) : exec step s [] = some s := rfl

theorem exec_cons (s : σ) (a : α) (as : List α) :
    exec step s (a :: as) = (step s a).bind fun s' => exec step s' as := rfl

theorem exec_append (s : σ) (as bs : List α) :
    exec step s (as ++ bs) = (exec step s as).bind fun s' => exec step s' bs := by
  induction as generalizing s with
  | nil => rfl
  | cons a as ih =>
    rw [List.cons_append, exec_cons, exec_cons, Option.bind_assoc]
    congr 1
    funext s'
    exact ih s'

/-! ## 2. Properties of every state, conditions on every step -/

/-- `P` holds in every state of the run, the first and the last included. -/
def Always (P : σ → Prop) : σ → List α → Prop
  | s, [] => P s
  | s, a :: as => P s ∧ ∀ s', step s a = some s' → Always P s' as

/-- Every step that the run takes meets `Ok`. -/
def AllSteps (Ok : σ → α → Prop) : σ → List α → Prop
  | _, [] => True
  | s, a :: as => ∀ s', step s a = some s' → Ok s a ∧ AllSteps Ok s' as

/-- A run's steps can be tested one after the other. -/
instance decidableAllSteps (Ok : σ → α → Prop) [∀ s a, Decidable (Ok s a)] :
    ∀ s as, Decidable (AllSteps step Ok s as)
  | _, [] => isTrue trivial
  | s, a :: as =>
    match h : step s a with
    | none => isTrue fun s' hs' => by cases h.symm.trans hs'
    | some s₁ =>
      have := decidableAllSteps Ok s₁ as
      decidable_of_iff (Ok s a ∧ AllSteps step Ok s₁ as)
        ⟨fun hok s' hs' => by cases h.symm.trans hs'; exact hok, fun hall => hall s₁ h⟩

/-- So can its states. -/
instance decidableAlways (P : σ → Prop) [∀ s, Decidable (P s)] :
    ∀ s as, Decidable (Always step P s as)
  | s, [] => inferInstanceAs (Decidable (P s))
  | s, a :: as =>
    match h : step s a with
    | none =>
      decidable_of_iff (P s) ⟨fun hp => ⟨hp, fun s' hs' => by cases h.symm.trans hs'⟩, And.left⟩
    | some s₁ =>
      have := decidableAlways P s₁ as
      decidable_of_iff (P s ∧ Always step P s₁ as)
        ⟨fun hok => ⟨hok.1, fun s' hs' => by cases h.symm.trans hs'; exact hok.2⟩,
          fun hall => ⟨hall.1, hall.2 s₁ h⟩⟩

variable {step} {P : σ → Prop} {Ok : σ → α → Prop}

theorem Always.head {s : σ} {as : List α} (h : Always step P s as) : P s := by
  cases as with
  | nil => exact h
  | cons a as => exact h.1

theorem Always.imp {Q : σ → Prop} (himp : ∀ s, P s → Q s) {s : σ} {as : List α}
    (h : Always step P s as) : Always step Q s as := by
  induction as generalizing s with
  | nil => exact himp s h
  | cons a as ih => exact ⟨himp s h.1, fun s' hs' => ih (h.2 s' hs')⟩

theorem allSteps_of_forall {s : σ} {as : List α} (h : ∀ a ∈ as, ∀ s, Ok s a) :
    AllSteps step Ok s as := by
  induction as generalizing s with
  | nil => trivial
  | cons a as ih =>
    exact fun s' _ => ⟨h a List.mem_cons_self s, ih fun b hb => h b (List.mem_cons_of_mem a hb)⟩

theorem allSteps_cons {s s' : σ} {a : α} {as : List α} (h : step s a = some s') (hok : Ok s a)
    (hrest : AllSteps step Ok s' as) : AllSteps step Ok s (a :: as) := by
  intro s₁ hs₁
  obtain rfl : s' = s₁ := Option.some.inj (h.symm.trans hs₁)
  exact ⟨hok, hrest⟩

theorem allSteps_cons_iff {s s' : σ} {a : α} {as : List α} (h : step s a = some s') :
    AllSteps step Ok s (a :: as) ↔ Ok s a ∧ AllSteps step Ok s' as :=
  ⟨fun hall => hall s' h, fun hall => allSteps_cons h hall.1 hall.2⟩

theorem AllSteps.suffix {s s' : σ} {as bs : List α} (h : AllSteps step Ok s (as ++ bs))
    (hrun : exec step s as = some s') : AllSteps step Ok s' bs := by
  induction as generalizing s with
  | nil => cases hrun; exact h
  | cons a as ih =>
    rw [exec_cons] at hrun
    obtain ⟨m, hm, hrun⟩ := Option.bind_eq_some_iff.mp hrun
    exact ih (h m hm).2 hrun

/-- `Always` read off the states themselves: `P` holds after every prefix of the run. -/
theorem always_iff_prefixes (s : σ) (as : List α) :
    Always step P s as ↔
      ∀ bs cs s', as = bs ++ cs → exec step s bs = some s' → P s' := by
  induction as generalizing s with
  | nil =>
    constructor
    · intro h bs cs s' heq hrun
      obtain ⟨rfl, rfl⟩ := List.append_eq_nil_iff.mp heq.symm
      cases hrun
      exact h
    · intro h
      exact h [] [] s rfl rfl
  | cons a as ih =>
    constructor
    · rintro ⟨hhead, htail⟩ bs cs s' heq hrun
      cases bs with
      | nil => cases hrun; exact hhead
      | cons b bs =>
        obtain ⟨rfl, hrest⟩ := List.cons.inj heq
        rw [exec_cons] at hrun
        obtain ⟨m, hm, hrun⟩ := Option.bind_eq_some_iff.mp hrun
        exact (ih m).mp (htail m hm) bs cs s' hrest hrun
    · intro h
      refine ⟨h [] (a :: as) s rfl rfl, fun m hm => (ih m).mpr fun bs cs s' heq hrun => ?_⟩
      refine h (a :: bs) cs s' (by rw [heq, List.cons_append]) ?_
      rw [exec_cons, hm]
      exact hrun

/-- `AllSteps` read off the steps themselves. -/
theorem allSteps_iff_prefixes (s : σ) (as : List α) :
    AllSteps step Ok s as ↔ ∀ bs a cs s' s'', as = bs ++ a :: cs → exec step s bs = some s' →
      step s' a = some s'' → Ok s' a := by
  induction as generalizing s with
  | nil =>
    refine iff_of_true trivial ?_
    intro bs a cs s' s'' heq
    exact absurd heq.symm (List.append_ne_nil_of_right_ne_nil bs (List.cons_ne_nil a cs))
  | cons b as ih =>
    constructor
    · intro h bs a cs s' s'' heq hrun hstep
      cases bs with
      | nil =>
        cases hrun
        obtain ⟨rfl, -⟩ := List.cons.inj heq
        exact (h s'' hstep).1
      | cons b' bs =>
        obtain ⟨rfl, hrest⟩ := List.cons.inj heq
        rw [exec_cons] at hrun
        obtain ⟨m, hm, hrun⟩ := Option.bind_eq_some_iff.mp hrun
        exact (ih m).mp (h m hm).2 bs a cs s' s'' hrest hrun hstep
    · intro h m hm
      refine ⟨h [] b as s m rfl rfl hm, (ih m).mpr ?_⟩
      intro bs a cs s' s'' heq hrun hstep
      refine h (b :: bs) a cs s' s'' (by rw [heq, List.cons_append]) ?_ hstep
      rw [exec_cons, hm]
      exact hrun

theorem Always.last {s s' : σ} {as : List α} (h : Always step P s as)
    (hrun : exec step s as = some s') : P s' :=
  (always_iff_prefixes s as).mp h as [] s' (List.append_nil as).symm hrun

/-! ## 3. The three rules -/

/-- A property that the steps meeting `Ok` preserve holds throughout a run of such steps. -/
theorem always_of_allSteps
    (hstep : ∀ s a s', P s → Ok s a → step s a = some s' → P s')
    {s : σ} {as : List α} (h : P s) (hok : AllSteps step Ok s as) : Always step P s as := by
  induction as generalizing s with
  | nil => exact h
  | cons a as ih =>
    exact ⟨h, fun s' hs' => ih (hstep s a s' h (hok s' hs').1 hs') (hok s' hs').2⟩

/-- Where a property that holds throughout a run gives a fact about every step taken from there,
    all steps of the run have it. -/
theorem allSteps_of_always (hgives : ∀ s a, P s → Ok s a) {s : σ} {as : List α}
    (h : Always step P s as) : AllSteps step Ok s as := by
  induction as generalizing s with
  | nil => trivial
  | cons a as ih => exact fun s' hs' => ⟨hgives s a h.1, ih (h.2 s' hs')⟩

/-- A condition on the steps carries over to another one along a property that the steps meeting
    it preserve. -/
theorem AllSteps.imp_of_preserved {Good : σ → α → Prop}
    (hstep : ∀ s a s', P s → Ok s a → step s a = some s' → P s' ∧ Good s a)
    {s : σ} {as : List α} (h : P s) (hok : AllSteps step Ok s as) : AllSteps step Good s as := by
  induction as generalizing s with
  | nil => trivial
  | cons a as ih =>
    intro s' hs'
    obtain ⟨hhead, htail⟩ := hok s' hs'
    obtain ⟨hnext, hgood⟩ := hstep s a s' h hhead hs'
    exact ⟨hgood, ih hnext htail⟩

/-- An invariant holds throughout every run. -/
theorem always_of_step (hstep : ∀ s a s', P s → step s a = some s' → P s')
    {s : σ} (as : List α) (h : P s) : Always step P s as := by
  induction as generalizing s with
  | nil => exact h
  | cons a as ih => exact ⟨h, fun s' hs' => ih (hstep s a s' h hs')⟩

/-- An invariant holds in the last state of every run. -/
theorem exec_invariant (hstep : ∀ s a s', P s → step s a = some s' → P s')
    {s s' : σ} {as : List α} (h : P s) (hrun : exec step s as = some s') : P s' :=
  (always_iff_prefixes s as).mp (always_of_step hstep as h) as [] s'
    (List.append_nil as).symm hrun

/-- When a step from a good state stays good exactly if it meets `Ok`, the runs that
    stay good are exactly those whose steps all meet `Ok`. -/
theorem always_iff_allSteps
    (hstep : ∀ s a s', P s → step s a = some s' → (P s' ↔ Ok s a))
    {s : σ} (as : List α) (h : P s) : Always step P s as ↔ AllSteps step Ok s as := by
  constructor
  · intro hal
    induction as generalizing s with
    | nil => trivial
    | cons a as ih =>
      intro s' hs'
      have htail := hal.2 s' hs'
      exact ⟨(hstep s a s' h hs').mp htail.head, ih htail.head htail⟩
  · exact always_of_allSteps (fun s a s' hs hok hs' => (hstep s a s' hs hs').mpr hok) h

end TokenProxy.Execution
