/-
  TokenProxy/BreakerTiming.lean
  =============================
  **When an open breaker admits requests.**

  A run is a list of calls on one breaker, each with its clock value; a call is
  enabled only when the clock has not gone back.  Threshold and cooldown are
  those of the start state: no call changes them.  Three laws are at stake after
  the failure that trips a closed breaker at time `t`:

    * until a success is reported, nothing is admitted before
      `t + cooldown_seconds` (`NoEarlyAdmission`);
    * the first request from `t + cooldown_seconds` on is admitted, as a probe
      (`FirstRequestProbes`);
    * two probes are at least `cooldown_seconds` apart (`ProbesSpaced`).

  The first and the third hold of every run.  The second does not: a failure
  reported while the breaker is already OPEN (a call in flight, a fail-open
  attempt, a call made outside the resilience layer) starts the cooldown again.
-/
import TokenProxy.Execution
import TokenProxy.Resilience
import Mathlib.Tactic.Linarith
import Mathlib.Tactic.NormNum

namespace TokenProxy.BreakerTiming

open TokenProxy.Execution TokenProxy.Resilience

/-! ## 1. Calls on a breaker -/

inductive Signal where
  | allowRequest
  | recordSuccess
  | recordFailure
  | noteProviderOutcome (exc : Option ProviderError)
deriving DecidableEq, Repr

def Signal.reportsSuccess : Signal → Bool
  | .recordSuccess => true
  | .noteProviderOutcome none => true
  | _ => false

def Signal.reportsFailure : Signal → Bool
  | .recordFailure => true
  | .noteProviderOutcome (some exc) => isHealthFailure exc
  | _ => false

structure Event where
  signal : Signal
  now : Seconds
deriving DecidableEq, Repr

def Event.apply (cb : CircuitBreaker) (e : Event) : CircuitBreaker :=
  match e.signal with
  | .allowRequest => (cb.allowRequest e.now).2
  | .recordSuccess => cb.recordSuccess
  | .recordFailure => cb.recordFailure e.now
  | .noteProviderOutcome exc => cb.noteOutcome exc e.now

/-- A breaker and the clock value of the last call on it. -/
structure Clocked where
  cb : CircuitBreaker
  now : Seconds
deriving DecidableEq, Repr

/-- A call is enabled when the clock has not gone back. -/
def step (s : Clocked) (e : Event) : Option Clocked :=
  if s.now ≤ e.now then some ⟨e.apply s.cb, e.now⟩ else none

theorem step_eq_some {s s' : Clocked} {e : Event} :
    step s e = some s' ↔ s.now ≤ e.now ∧ s' = ⟨e.apply s.cb, e.now⟩ := by
  unfold step
  split
  · simp [*, eq_comm]
  · simp [*]

/-- A call asks for a request, reports a success, reports a failure, or leaves the breaker
    alone. -/
theorem apply_cases (cb : CircuitBreaker) (e : Event) :
    (e.signal = .allowRequest ∧ e.apply cb = (cb.allowRequest e.now).2) ∨
    (e.signal.reportsSuccess = true ∧ e.apply cb = cb.recordSuccess) ∨
    (e.signal.reportsFailure = true ∧ e.apply cb = cb.recordFailure e.now) ∨
    (e.signal.reportsFailure = false ∧ e.apply cb = cb) := by
  obtain ⟨signal, now⟩ := e
  cases signal with
  | allowRequest => exact Or.inl ⟨rfl, rfl⟩
  | recordSuccess => exact Or.inr (Or.inl ⟨rfl, rfl⟩)
  | recordFailure => exact Or.inr (Or.inr (Or.inl ⟨rfl, rfl⟩))
  | noteProviderOutcome exc =>
    cases exc with
    | none => exact Or.inr (Or.inl ⟨rfl, rfl⟩)
    | some err =>
      cases herr : isHealthFailure err with
      | true =>
        refine Or.inr (Or.inr (Or.inl ⟨herr, ?_⟩))
        simp [Event.apply, CircuitBreaker.noteOutcome, herr]
      | false =>
        refine Or.inr (Or.inr (Or.inr ⟨herr, ?_⟩))
        simp [Event.apply, CircuitBreaker.noteOutcome, herr]

theorem apply_cooldown (cb : CircuitBreaker) (e : Event) :
    (e.apply cb).cooldownSeconds = cb.cooldownSeconds := by
  rcases apply_cases cb e with ⟨_, h⟩ | ⟨_, h⟩ | ⟨_, h⟩ | ⟨_, h⟩
  · rw [h, CircuitBreaker.allowRequest_cooldown]
  · rw [h]; rfl
  · rw [h]; unfold CircuitBreaker.recordFailure; split_ifs <;> rfl
  · rw [h]

/-! ## 2. The laws -/

/-- The call moves the breaker from CLOSED to OPEN. -/
def Trips (s : Clocked) (e : Event) : Prop :=
  s.cb.state = .closed ∧ (e.apply s.cb).state = .opened

/-- The call is a request that is admitted. -/
def Admits (s : Clocked) (e : Event) : Prop :=
  e.signal = .allowRequest ∧ (s.cb.allowRequest e.now).1 = true

/-- The call is a request that is admitted as a half-open probe. -/
def AdmitsProbe (s : Clocked) (e : Event) : Prop :=
  Admits s e ∧ s.cb.state ≠ .closed ∧ (e.apply s.cb).state = .halfOpen

/-- The run trips the breaker with `trip`, and no success is reported in `between`, before
    `request`; `s₁` and `s₂` are the states at the trip and at the request. -/
structure AfterTrip (s : Clocked) (run : List Event) (s₁ : Clocked) (trip : Event)
    (between : List Event) (s₂ : Clocked) (request : Event) : Prop where
  split : ∃ before rest, run = before ++ trip :: (between ++ request :: rest) ∧
    exec step s before = some s₁
  trips : Trips s₁ trip
  reach : exec step s₁ (trip :: between) = some s₂
  noSuccess : ∀ e ∈ between, e.signal.reportsSuccess = false
  asks : request.signal = .allowRequest
  clock : s₂.now ≤ request.now

def NoEarlyAdmission (s : Clocked) (run : List Event) : Prop :=
  ∀ s₁ trip between s₂ request, AfterTrip s run s₁ trip between s₂ request →
    request.now < trip.now + s.cb.cooldownSeconds → ¬ Admits s₂ request

/-- `request` is the first one asked for once the cooldown after `trip` is over. -/
def FirstAfterCooldown (s : Clocked) (trip : Event) (between : List Event)
    (request : Event) : Prop :=
  trip.now + s.cb.cooldownSeconds ≤ request.now ∧
    ∀ e ∈ between, e.signal = .allowRequest → e.now < trip.now + s.cb.cooldownSeconds

def FirstRequestProbes (s : Clocked) (run : List Event) : Prop :=
  ∀ s₁ trip between s₂ request, AfterTrip s run s₁ trip between s₂ request →
    FirstAfterCooldown s trip between request → AdmitsProbe s₂ request

def ProbesSpaced (s : Clocked) (run : List Event) : Prop :=
  ∀ before probe between probe' rest s₁ s₂,
    run = before ++ probe :: (between ++ probe' :: rest) →
    exec step s before = some s₁ → AdmitsProbe s₁ probe →
    exec step s₁ (probe :: between) = some s₂ → s₂.now ≤ probe'.now → AdmitsProbe s₂ probe' →
    probe.now + s.cb.cooldownSeconds ≤ probe'.now

/-- The breaker's timing, as its docstring gives it. -/
def TimingLaw (s : Clocked) (run : List Event) : Prop :=
  NoEarlyAdmission s run ∧ FirstRequestProbes s run ∧ ProbesSpaced s run

/-- Between a trip and the first request after its cooldown, no failure is reported less than
    `cooldown_seconds` before that request. -/
def QuietWhileOpen (s : Clocked) (run : List Event) : Prop :=
  ∀ s₁ trip between s₂ request, AfterTrip s run s₁ trip between s₂ request →
    FirstAfterCooldown s trip between request →
    ∀ e ∈ between, e.signal.reportsFailure = true →
      e.now + s.cb.cooldownSeconds ≤ request.now

/-! ## 3. After a trip nothing is admitted early

Until a success is reported the breaker is OPEN since `t` or later, or HALF_OPEN with a
probe that was itself admitted at `t + cooldown_seconds` or later. -/

def Tripped (c t : Seconds) (s : Clocked) : Prop :=
  s.cb.cooldownSeconds = c ∧ t ≤ s.now ∧
    ((s.cb.state = .opened ∧ t ≤ s.cb.openedAt) ∨
      (s.cb.state = .halfOpen ∧
        ∃ q, s.cb.probeStartedAt = some q ∧ t + c ≤ q ∧ q ≤ s.now))

theorem Trips.apply_eq {s : Clocked} {e : Event} (h : Trips s e) :
    s.cb.failureThreshold ≤ s.cb.failures + 1 ∧
      e.apply s.cb =
        { s.cb with failures := s.cb.failures + 1, state := .opened, openedAt := e.now } := by
  obtain ⟨hclosed, hopened⟩ := h
  rcases apply_cases s.cb e with ⟨_, h⟩ | ⟨_, h⟩ | ⟨_, h⟩ | ⟨_, h⟩
  · rw [h, CircuitBreaker.allowRequest_closed hclosed, hclosed] at hopened
    cases hopened
  · rw [h] at hopened
    cases hopened
  · rw [h] at hopened ⊢
    unfold CircuitBreaker.recordFailure at hopened ⊢
    rw [if_neg (by rw [hclosed]; decide)] at hopened ⊢
    by_cases hthr : s.cb.failureThreshold ≤ s.cb.failures + 1
    · rw [if_pos hthr]
      exact ⟨hthr, rfl⟩
    · rw [if_neg hthr] at hopened
      rw [show s.cb.state = .opened from hopened] at hclosed
      cases hclosed
  · rw [h, hclosed] at hopened
    cases hopened

theorem Tripped.of_trips {s s' : Clocked} {e : Event} (h : Trips s e)
    (hstep : step s e = some s') : Tripped s.cb.cooldownSeconds e.now s' := by
  obtain ⟨_, rfl⟩ := step_eq_some.mp hstep
  refine ⟨apply_cooldown s.cb e, le_refl e.now, Or.inl ?_⟩
  rw [h.apply_eq.2]
  exact ⟨rfl, le_refl e.now⟩

theorem Tripped.admits {c t : Seconds} {s : Clocked} {e : Event} (h : Tripped c t s)
    (hclock : s.now ≤ e.now) (hadm : Admits s e) : t + c ≤ e.now := by
  obtain ⟨hc, _, hopened | ⟨_, q, _, hq, hqnow⟩⟩ := h
  · have hcool := hadm.2
    rw [CircuitBreaker.allowRequest_opened hopened.1, decide_eq_true_eq, hc] at hcool
    linarith [hopened.2]
  · linarith

theorem Tripped.step {c t : Seconds} {s s' : Clocked} {e : Event} (h : Tripped c t s)
    (hsucc : e.signal.reportsSuccess = false) (hstep : step s e = some s') :
    Tripped c t s' := by
  obtain ⟨hclock, rfl⟩ := step_eq_some.mp hstep
  have hadmits := h.admits hclock
  obtain ⟨hc, htnow, hstate⟩ := h
  refine ⟨(apply_cooldown s.cb e).trans hc, htnow.trans hclock, ?_⟩
  rcases apply_cases s.cb e with ⟨hask, h⟩ | ⟨hs, _⟩ | ⟨_, h⟩ | ⟨_, h⟩
  · rw [h]
    cases hadm : (s.cb.allowRequest e.now).1 with
    | false =>
      rw [CircuitBreaker.allowRequest_refused hadm]
      refine hstate.imp id ?_
      rintro ⟨hhalf, q, hq, htq, hqnow⟩
      exact ⟨hhalf, q, hq, htq, hqnow.trans hclock⟩
    | true =>
      -- an admitted request is a probe: the breaker is not closed
      have hopen : s.cb.state ≠ .closed := by
        rcases hstate with ⟨hst, _⟩ | ⟨hst, _⟩ <;> rw [hst] <;> decide
      rw [CircuitBreaker.allowRequest_probe hopen hadm]
      exact Or.inr ⟨rfl, e.now, rfl, hadmits ⟨hask, hadm⟩, le_refl e.now⟩
  · rw [hsucc] at hs
    cases hs
  · rw [h]
    refine Or.inl ?_
    unfold CircuitBreaker.recordFailure
    split_ifs with hhalf hthr
    · exact ⟨rfl, htnow.trans hclock⟩
    · exact ⟨rfl, htnow.trans hclock⟩
    · exact hstate.resolve_right fun hst => hhalf hst.1
  · rw [h]
    refine hstate.imp id ?_
    rintro ⟨hhalf, q, hq, htq, hqnow⟩
    exact ⟨hhalf, q, hq, htq, hqnow.trans hclock⟩

theorem Tripped.exec {c t : Seconds} {s s' : Clocked} {es : List Event} (h : Tripped c t s)
    (hsucc : ∀ e ∈ es, e.signal.reportsSuccess = false)
    (hrun : exec BreakerTiming.step s es = some s') : Tripped c t s' := by
  induction es generalizing s with
  | nil => cases hrun; exact h
  | cons e es ih =>
    rw [exec_cons] at hrun
    obtain ⟨m, hm, hrun⟩ := Option.bind_eq_some_iff.mp hrun
    exact ih (h.step (hsucc e List.mem_cons_self) hm)
      (fun e' he' => hsucc e' (List.mem_cons_of_mem e he')) hrun

theorem exec_cooldown {s s' : Clocked} {es : List Event} (hrun : exec step s es = some s') :
    s'.cb.cooldownSeconds = s.cb.cooldownSeconds := by
  refine exec_invariant (P := fun x => x.cb.cooldownSeconds = s.cb.cooldownSeconds) ?_ rfl hrun
  intro x e x' hx hstep
  obtain ⟨_, rfl⟩ := step_eq_some.mp hstep
  exact (apply_cooldown x.cb e).trans hx

theorem noEarlyAdmission (s : Clocked) (run : List Event) : NoEarlyAdmission s run := by
  intro s₁ trip between s₂ request h hearly hadm
  obtain ⟨before, rest, _, hbefore⟩ := h.split
  have hreach := h.reach
  rw [exec_cons] at hreach
  obtain ⟨m, hm, hreach⟩ := Option.bind_eq_some_iff.mp hreach
  have htripped := (Tripped.of_trips h.trips hm).exec h.noSuccess hreach
  rw [exec_cooldown hbefore] at htripped
  exact absurd (htripped.admits h.clock hadm) (not_le.mpr hearly)

/-! ## 4. Probes are a cooldown apart

After a probe at `p`, an OPEN breaker was opened at `p` or later and the probe on record of a
HALF_OPEN one started at `p` or later.  A success only closes the breaker; the next failure
opens it at the clock value of that moment. -/

def Probed (c p : Seconds) (s : Clocked) : Prop :=
  s.cb.cooldownSeconds = c ∧ p ≤ s.now ∧
    (s.cb.state = .opened → p ≤ s.cb.openedAt) ∧
    (s.cb.state = .halfOpen → ∃ q, s.cb.probeStartedAt = some q ∧ p ≤ q)

theorem Probed.admitsProbe {c p : Seconds} {s : Clocked} {e : Event} (h : Probed c p s)
    (hprobe : AdmitsProbe s e) : p + c ≤ e.now := by
  obtain ⟨hc, _, hopened, hhalf⟩ := h
  obtain ⟨⟨_, hadm⟩, hopen, _⟩ := hprobe
  cases hst : s.cb.state with
  | closed => exact absurd hst hopen
  | opened =>
    rw [CircuitBreaker.allowRequest_opened hst, decide_eq_true_eq, hc] at hadm
    linarith [hopened hst]
  | halfOpen =>
    obtain ⟨q, hq, hpq⟩ := hhalf hst
    have hfree : ¬ e.now - q < s.cb.cooldownSeconds := by
      intro hlt
      simp [CircuitBreaker.allowRequest, hst, CircuitBreaker.probeInFlight, hq, hlt] at hadm
    rw [hc] at hfree
    linarith [not_lt.mp hfree]

theorem Probed.step {c p : Seconds} {s s' : Clocked} {e : Event} (h : Probed c p s)
    (hstep : step s e = some s') : Probed c p s' := by
  obtain ⟨hclock, rfl⟩ := step_eq_some.mp hstep
  obtain ⟨hc, hpnow, hopened, hhalf⟩ := h
  have hpe : p ≤ e.now := hpnow.trans hclock
  refine ⟨(apply_cooldown s.cb e).trans hc, hpe, ?_⟩
  rcases apply_cases s.cb e with ⟨_, h⟩ | ⟨_, h⟩ | ⟨_, h⟩ | ⟨_, h⟩
  · rw [h]
    cases hadm : (s.cb.allowRequest e.now).1 with
    | false =>
      rw [CircuitBreaker.allowRequest_refused hadm]
      exact ⟨hopened, hhalf⟩
    | true =>
      by_cases hcl : s.cb.state = .closed
      · rw [CircuitBreaker.allowRequest_closed hcl]
        exact ⟨hopened, hhalf⟩
      · rw [CircuitBreaker.allowRequest_probe hcl hadm]
        refine ⟨nofun, ?_⟩
        intro _
        exact ⟨e.now, rfl, hpe⟩
  · rw [h]
    exact ⟨nofun, nofun⟩
  · rw [h]
    unfold CircuitBreaker.recordFailure
    split_ifs with hst hthr
    · exact ⟨fun _ => hpe, nofun⟩
    · exact ⟨fun _ => hpe, nofun⟩
    · exact ⟨hopened, hhalf⟩
  · rw [h]
    exact ⟨hopened, hhalf⟩

theorem Probed.of_admitsProbe {s s' : Clocked} {e : Event} (h : AdmitsProbe s e)
    (hstep : BreakerTiming.step s e = some s') : Probed s.cb.cooldownSeconds e.now s' := by
  obtain ⟨_, rfl⟩ := step_eq_some.mp hstep
  obtain ⟨⟨hask, hadm⟩, hopen, _⟩ := h
  refine ⟨apply_cooldown s.cb e, le_refl e.now, ?_⟩
  have happ : e.apply s.cb = (s.cb.allowRequest e.now).2 := by
    unfold Event.apply
    rw [hask]
  rw [happ, CircuitBreaker.allowRequest_probe hopen hadm]
  exact ⟨nofun, fun _ => ⟨e.now, rfl, le_refl e.now⟩⟩

theorem probesSpaced (s : Clocked) (run : List Event) : ProbesSpaced s run := by
  intro before probe between probe' rest s₁ s₂ _ hbefore hprobe hrun _ hprobe'
  rw [exec_cons] at hrun
  obtain ⟨m, hm, hrun⟩ := Option.bind_eq_some_iff.mp hrun
  have hm' := Probed.of_admitsProbe hprobe hm
  have hs₂ : Probed s₁.cb.cooldownSeconds probe.now s₂ :=
    exec_invariant (fun x e x' hx hstep => hx.step hstep) hm' hrun
  rw [exec_cooldown hbefore] at hs₂
  exact hs₂.admitsProbe hprobe'

/-! ## 5. The first request after the cooldown

While requests keep being refused the breaker stays OPEN, and `opened_at` is the time of the
last failure reported: the trip's own, or a later one's. -/

structure Cooling (c t : Seconds) (s : Clocked) : Prop where
  cooldown : s.cb.cooldownSeconds = c
  opened : s.cb.state = .opened
  threshold : s.cb.failureThreshold ≤ s.cb.failures
  since : t ≤ s.cb.openedAt
  clock : s.cb.openedAt ≤ s.now

theorem Cooling.of_trips {s s' : Clocked} {e : Event} (h : Trips s e)
    (hstep : step s e = some s') :
    Cooling s.cb.cooldownSeconds e.now s' ∧ s'.cb.openedAt = e.now := by
  obtain ⟨_, rfl⟩ := step_eq_some.mp hstep
  obtain ⟨hthr, happ⟩ := h.apply_eq
  refine ⟨⟨apply_cooldown s.cb e, ?_, ?_, ?_, ?_⟩, ?_⟩ <;> simp [happ, hthr]

/-- One call: the breaker is still OPEN, since the call itself if that is a failure. -/
theorem Cooling.step {c t : Seconds} {s s' : Clocked} {e : Event} (h : Cooling c t s)
    (hsucc : e.signal.reportsSuccess = false)
    (hearly : e.signal = .allowRequest → e.now < t + c) (hstep : step s e = some s') :
    Cooling c t s' ∧
      s'.cb.openedAt = if e.signal.reportsFailure then e.now else s.cb.openedAt := by
  obtain ⟨hclock, rfl⟩ := step_eq_some.mp hstep
  rcases apply_cases s.cb e with ⟨hask, happ⟩ | ⟨hs, _⟩ | ⟨hfail, happ⟩ | ⟨hfail, happ⟩
  · have hrefused : (s.cb.allowRequest e.now).1 = false := by
      rw [CircuitBreaker.allowRequest_opened h.opened, decide_eq_false_iff_not, h.cooldown]
      linarith [hearly hask, h.since]
    rw [CircuitBreaker.allowRequest_refused hrefused] at happ
    simp only [happ, hask, Signal.reportsFailure]
    exact ⟨⟨h.cooldown, h.opened, h.threshold, h.since, h.clock.trans hclock⟩, rfl⟩
  · rw [hsucc] at hs
    cases hs
  · have hthr : s.cb.failureThreshold ≤ s.cb.failures + 1 := by linarith [h.threshold]
    have happ' : e.apply s.cb =
        { s.cb with failures := s.cb.failures + 1, state := .opened, openedAt := e.now } := by
      rw [happ, CircuitBreaker.recordFailure, if_neg (by rw [h.opened]; decide), if_pos hthr]
    rw [if_pos hfail]
    simp only [happ']
    exact ⟨⟨h.cooldown, rfl, hthr, (h.since.trans h.clock).trans hclock, le_refl e.now⟩, trivial⟩
  · simp only [happ, hfail]
    exact ⟨⟨h.cooldown, h.opened, h.threshold, h.since, h.clock.trans hclock⟩, rfl⟩

/-- A run without an answered request: the cooldown that is running now is over at `now'`
    exactly when the one running before is, and that of every failure reported since. -/
theorem Cooling.exec {c t : Seconds} {s s' : Clocked} {es : List Event} (h : Cooling c t s)
    (hsucc : ∀ e ∈ es, e.signal.reportsSuccess = false)
    (hearly : ∀ e ∈ es, e.signal = .allowRequest → e.now < t + c)
    (hrun : exec BreakerTiming.step s es = some s') (now' : Seconds) :
    Cooling c t s' ∧
      (s'.cb.openedAt + c ≤ now' ↔
        s.cb.openedAt + c ≤ now' ∧
          ∀ e ∈ es, e.signal.reportsFailure = true → e.now + c ≤ now') := by
  induction es generalizing s with
  | nil =>
    cases hrun
    simp [h]
  | cons e es ih =>
    rw [exec_cons] at hrun
    obtain ⟨m, hm, hrun⟩ := Option.bind_eq_some_iff.mp hrun
    have hclock : s.now ≤ e.now := (step_eq_some.mp hm).1
    obtain ⟨hcool, hat⟩ :=
      h.step (hsucc e List.mem_cons_self) (hearly e List.mem_cons_self) hm
    obtain ⟨hs', hiff⟩ := ih hcool (fun e' he' => hsucc e' (List.mem_cons_of_mem e he'))
      (fun e' he' => hearly e' (List.mem_cons_of_mem e he')) hrun
    refine ⟨hs', hiff.trans ?_⟩
    rw [hat, List.forall_mem_cons]
    by_cases hfail : e.signal.reportsFailure = true
    · rw [if_pos hfail]
      have hlater : e.now + c ≤ now' → s.cb.openedAt + c ≤ now' := by
        intro hle
        linarith [h.clock]
      constructor
      · rintro ⟨hle, hrest⟩
        exact ⟨hlater hle, fun _ => hle, hrest⟩
      · rintro ⟨_, hle, hrest⟩
        exact ⟨hle hfail, hrest⟩
    · rw [if_neg hfail]
      constructor
      · rintro ⟨hle, hrest⟩
        exact ⟨hle, fun hf => absurd hf hfail, hrest⟩
      · rintro ⟨hle, _, hrest⟩
        exact ⟨hle, hrest⟩

theorem admitsProbe_iff_of_opened {s : Clocked} {e : Event} (hask : e.signal = .allowRequest)
    (hopened : s.cb.state = .opened) :
    AdmitsProbe s e ↔ s.cb.openedAt + s.cb.cooldownSeconds ≤ e.now := by
  have hadm : (s.cb.allowRequest e.now).1 =
      decide (s.cb.cooldownSeconds ≤ e.now - s.cb.openedAt) :=
    CircuitBreaker.allowRequest_opened hopened
  constructor
  · rintro ⟨⟨_, h⟩, _⟩
    rw [hadm, decide_eq_true_eq] at h
    linarith
  · intro hle
    have htrue : (s.cb.allowRequest e.now).1 = true := by
      rw [hadm, decide_eq_true_eq]
      linarith
    have hopen : s.cb.state ≠ .closed := by
      rw [hopened]
      decide
    refine ⟨⟨hask, htrue⟩, hopen, ?_⟩
    have happ : e.apply s.cb = (s.cb.allowRequest e.now).2 := by
      unfold Event.apply
      rw [hask]
    rw [happ, CircuitBreaker.allowRequest_probe hopen htrue]

theorem firstRequest_iff {s s₁ s₂ : Clocked} {run between : List Event} {trip request : Event}
    (h : AfterTrip s run s₁ trip between s₂ request)
    (hfirst : FirstAfterCooldown s trip between request) :
    AdmitsProbe s₂ request ↔
      ∀ e ∈ between, e.signal.reportsFailure = true →
        e.now + s.cb.cooldownSeconds ≤ request.now := by
  obtain ⟨before, rest, _, hbefore⟩ := h.split
  have hreach := h.reach
  rw [exec_cons] at hreach
  obtain ⟨m, hm, hreach⟩ := Option.bind_eq_some_iff.mp hreach
  obtain ⟨hcool, hat⟩ := Cooling.of_trips h.trips hm
  rw [exec_cooldown hbefore] at hcool
  obtain ⟨hs₂, hiff⟩ := hcool.exec h.noSuccess hfirst.2 hreach request.now
  rw [admitsProbe_iff_of_opened h.asks hs₂.opened, hs₂.cooldown, hiff, hat]
  exact and_iff_right hfirst.1

/-! ## 6. The timing law -/

theorem quietWhileOpen_of_firstRequestProbes {s : Clocked} {run : List Event}
    (hfirst : FirstRequestProbes s run) : QuietWhileOpen s run := by
  intro s₁ trip between s₂ request h hafter
  exact (firstRequest_iff h hafter).mp (hfirst s₁ trip between s₂ request h hafter)

theorem timingLaw_of_quietWhileOpen {s : Clocked} {run : List Event}
    (hquiet : QuietWhileOpen s run) : TimingLaw s run := by
  refine ⟨noEarlyAdmission s run, ?_, probesSpaced s run⟩
  intro s₁ trip between s₂ request h hafter
  exact (firstRequest_iff h hafter).mpr (hquiet s₁ trip between s₂ request h hafter)

/-- **The exact condition.**  A run keeps the timing law exactly when it is quiet while the
    breaker is open. -/
theorem timingLaw_iff_quietWhileOpen (s : Clocked) (run : List Event) :
    TimingLaw s run ↔ QuietWhileOpen s run := by
  constructor
  · intro hlaw
    exact quietWhileOpen_of_firstRequestProbes hlaw.2.1
  · intro hquiet
    exact timingLaw_of_quietWhileOpen hquiet

/-- A second failure ten seconds after the one that trips the breaker: the request at the end
    of the cooldown is refused. -/
theorem not_timingLaw_failure_while_open :
    ¬ TimingLaw ⟨{ failureThreshold := 1, cooldownSeconds := 30 }, 0⟩
      [⟨.recordFailure, 0⟩, ⟨.recordFailure, 10⟩, ⟨.allowRequest, 30⟩] := by
  intro hlaw
  have hten := quietWhileOpen_of_firstRequestProbes hlaw.2.1 ⟨{ failureThreshold := 1, cooldownSeconds := 30 }, 0⟩
    ⟨.recordFailure, 0⟩ [⟨.recordFailure, 10⟩]
    ⟨{ failureThreshold := 1, cooldownSeconds := 30, failures := 2, state := .opened,
       openedAt := 10 }, 10⟩ ⟨.allowRequest, 30⟩
    ⟨⟨[], [], rfl, rfl⟩, ⟨rfl, by decide⟩, by decide, by decide, rfl, by decide⟩
    ⟨by norm_num, by decide⟩ ⟨.recordFailure, 10⟩ (by decide) rfl
  norm_num at hten

end TokenProxy.BreakerTiming
