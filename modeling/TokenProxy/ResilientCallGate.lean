/-
  TokenProxy/ResilientCallGate.lean
  =================================
  **When a skipped target leaves the breakers alone** (the gate of
  `call_with_resilience`, `providers/resilience.py`).

  Asking a breaker is a write: `allow_request` takes the half-open slot when it
  admits a probe.  The gate is evaluated lazily "so a skipped target never
  consumes a HALF_OPEN probe".  That covers a target gated by its cooldown or by
  its provider's breaker, because a refusal changes nothing.  It does not cover a
  target gated by its model's lockout: the provider's breaker was asked before
  the model's, and may have given its probe away.

  `WastesProbe` describes that combination on the state before the target is
  considered, and `skipKeepsProbes_iff` says that it is the only one.
-/
import TokenProxy.ResilientCall
import Mathlib.Tactic.Linarith
import Mathlib.Tactic.NormNum

namespace TokenProxy.Resilience

/-! ## 1. What a breaker will answer -/

namespace CircuitBreaker

/-- The next request is refused: the cooldown runs, or a probe is out. -/
def refuses (cb : CircuitBreaker) (now : Seconds) : Bool :=
  match cb.state with
  | .opened => decide (now < cb.openedAt + cb.cooldownSeconds)
  | .closed => false
  | .halfOpen => cb.probeInFlight now

/-- The next request is admitted as a probe, and the slot is not already marked `now`. -/
def probeDue (cb : CircuitBreaker) (now : Seconds) : Bool :=
  match cb.state with
  | .opened => decide (cb.openedAt + cb.cooldownSeconds ≤ now)
  | .closed => false
  | .halfOpen => !cb.probeInFlight now && decide (cb.probeStartedAt ≠ some now)

theorem allowRequest_fst (cb : CircuitBreaker) (now : Seconds) :
    (cb.allowRequest now).1 = !cb.refuses now := by
  cases hs : cb.state with
  | opened =>
    have hiff : now < cb.openedAt + cb.cooldownSeconds ↔ now - cb.openedAt < cb.cooldownSeconds :=
      sub_lt_iff_lt_add'.symm
    by_cases hcool : now - cb.openedAt < cb.cooldownSeconds
    · simp [allowRequest, refuses, hs, hcool, hiff]
    · simp [allowRequest, refuses, hs, hcool, hiff]
  | closed => simp [allowRequest, refuses, hs]
  | halfOpen => cases hfl : cb.probeInFlight now <;> simp [allowRequest, refuses, hs, hfl]

/-- State and probe slot: what asking may change. -/
def probe (cb : CircuitBreaker) : BreakerState × Option Seconds := (cb.state, cb.probeStartedAt)

theorem probe_refused {cb : CircuitBreaker} {now : Seconds} (h : cb.refuses now = true) :
    (cb.allowRequest now).2.probe = cb.probe := by
  rw [allowRequest_refused (by rw [allowRequest_fst, h]; rfl)]

/-- A request that is not refused leaves state and slot alone exactly when no probe is due. -/
theorem probe_admitted {cb : CircuitBreaker} {now : Seconds} (h : cb.refuses now = false) :
    (cb.allowRequest now).2.probe = cb.probe ↔ cb.probeDue now = false := by
  have hadm : (cb.allowRequest now).1 = true := by rw [allowRequest_fst, h]; rfl
  cases hs : cb.state with
  | opened =>
    rw [allowRequest_probe (by rw [hs]; decide) hadm]
    have hdue : cb.probeDue now = true := by
      simpa [probeDue, refuses, hs] using h
    simp [probe, hs, hdue]
  | closed => simp [allowRequest_closed hs, probeDue, hs]
  | halfOpen =>
    rw [allowRequest_probe (by rw [hs]; decide) hadm]
    have hfree : cb.probeInFlight now = false := by simpa [refuses, hs] using h
    have hdue : cb.probeDue now = false ↔ cb.probeStartedAt = some now := by
      simp [probeDue, hs, hfree]
    rw [hdue, probe, probe, hs]
    exact ⟨fun h => (Prod.mk.inj h).2.symm, fun h => by rw [h]⟩

/-- A request that takes no probe leaves the breaker as it is. -/
theorem allowRequest_unprobed {cb : CircuitBreaker} {now : Seconds}
    (h : cb.refuses now = true ∨ cb.probeDue now = false) : (cb.allowRequest now).2 = cb := by
  cases hrefuse : cb.refuses now with
  | true => exact allowRequest_refused (by rw [allowRequest_fst, hrefuse]; rfl)
  | false =>
    have hnotDue : cb.probeDue now = false := by
      rcases h with h | h
      · rw [hrefuse] at h
        cases h
      · exact h
    obtain ⟨hstate, hslot⟩ := Prod.mk.inj ((probe_admitted hrefuse).mpr hnotDue)
    by_cases hs : cb.state = .closed
    · rw [allowRequest_closed hs]
    · have hadm : (cb.allowRequest now).1 = true := by rw [allowRequest_fst, hrefuse]; rfl
      rw [allowRequest_probe hs hadm] at hstate hslot ⊢
      dsimp only at hstate hslot
      rw [hstate, hslot]

end CircuitBreaker

/-! ## 2. The probe slots of a whole map of breakers -/

/-- A breaker that was never asked counts as a fresh one. -/
def probeAt (breakers : Dict String CircuitBreaker) (key : String) :
    BreakerState × Option Seconds :=
  ((breakers.get? key).getD {}).probe

/-- Every breaker of the one map has the state and the probe slot it has in the other. -/
def SameProbes (before after : Dict String CircuitBreaker) : Prop :=
  ∀ key, probeAt after key = probeAt before key

theorem probeAt_set (breakers : Dict String CircuitBreaker) (key : String)
    (cb : CircuitBreaker) (other : String) :
    probeAt (breakers.set key cb) other =
      if other = key then cb.probe else probeAt breakers other := by
  rw [probeAt, Dict.get?_set]
  split
  · rfl
  · rfl

/-- Writing back one breaker keeps all slots exactly when it keeps that breaker's. -/
theorem sameProbes_set_iff (breakers : Dict String CircuitBreaker) (key : String)
    (cb : CircuitBreaker) :
    SameProbes breakers (breakers.set key cb) ↔ cb.probe = probeAt breakers key := by
  constructor
  · intro h
    have hkey := h key
    rwa [probeAt_set, if_pos rfl] at hkey
  · intro h other
    rw [probeAt_set]
    split
    · rename_i heq
      rw [heq, h]
    · rfl

def ProbesKept (before after : ResilienceStore) : Prop :=
  SameProbes before.breakers after.breakers ∧
    SameProbes before.modelBreakers after.modelBreakers

/-! ## 3. The gate, branch by branch -/

/-- Reading a cooldown writes at most the cooldowns. -/
theorem inCooldown_snd (store : ResilienceStore) (redisPrefix provider : String)
    (now : Seconds) :
    (store.inCooldown redisPrefix provider now).2 =
      { store with cooldowns := (store.inCooldown redisPrefix provider now).2.cooldowns } := by
  unfold ResilienceStore.inCooldown
  split
  · rfl
  · split <;> rfl

variable {store : ResilienceStore} {redisPrefix : String} {target : CallTarget}
  {cfg : ResilienceConfig} {now : Seconds}

/-- The target's provider has a probe to give, and its model is locked out. -/
def GivesProbeAway (store : ResilienceStore) (redisPrefix : String) (target : CallTarget)
    (cfg : ResilienceConfig) (now : Seconds) : Prop :=
  (store.inCooldown redisPrefix target.provider now).1 = false ∧
    (store.breaker target.provider cfg).refuses now = false ∧
    (store.breaker target.provider cfg).probeDue now = true ∧
    cfg.modelLockout = true ∧
    (store.modelBreaker target.provider target.model cfg).refuses now = true

theorem gateCheck_cooled (h : (store.inCooldown redisPrefix target.provider now).1 = true) :
    gateCheck store redisPrefix target cfg now =
      (⟨true, false, false⟩, (store.inCooldown redisPrefix target.provider now).2) := by
  unfold gateCheck
  exact if_pos h

/-- Past the cooldown the provider's breaker is asked, and written back. -/
theorem gateCheck_uncooled (h : (store.inCooldown redisPrefix target.provider now).1 = false) :
    gateCheck store redisPrefix target cfg now =
      let provider := store.breaker target.provider cfg
      let model := store.modelBreaker target.provider target.model cfg
      let asked : ResilienceStore :=
        { store with
          cooldowns := (store.inCooldown redisPrefix target.provider now).2.cooldowns
          breakers := store.breakers.set target.provider (provider.allowRequest now).2 }
      if provider.refuses now = true then (⟨false, true, false⟩, asked)
      else if cfg.modelLockout = false then (⟨false, false, false⟩, asked)
      else (⟨false, false, model.refuses now⟩,
        { asked with
          modelBreakers := store.modelBreakers.set (modelKey target.provider target.model)
            (model.allowRequest now).2 }) := by
  unfold gateCheck
  dsimp only
  rw [if_neg (by rw [h]; simp), inCooldown_snd]
  simp only [askBreakers, ResilienceStore.allowProvider, ResilienceStore.allowModel,
    CircuitBreaker.allowRequest_fst, Bool.not_not, Bool.not_eq_true']
  rfl

/-- A gated target keeps every probe slot unless a probe was given away for it. -/
theorem gateCheck_gated_iff :
    ((gateCheck store redisPrefix target cfg now).1.gated = true →
        ProbesKept store (gateCheck store redisPrefix target cfg now).2) ↔
      ¬ GivesProbeAway store redisPrefix target cfg now := by
  unfold GivesProbeAway
  cases hcool : (store.inCooldown redisPrefix target.provider now).1 with
  | true =>
    rw [gateCheck_cooled hcool, inCooldown_snd]
    exact iff_of_true (fun _ => ⟨fun _ => rfl, fun _ => rfl⟩) (fun h => nomatch h.1)
  | false =>
    rw [gateCheck_uncooled hcool]
    dsimp only
    cases hprovider : (store.breaker target.provider cfg).refuses now with
    | true =>
      -- refused by the provider's breaker: nothing was given away
      refine iff_of_true (fun _ => ⟨?_, fun _ => rfl⟩) (fun h => nomatch h.2.1)
      exact (sameProbes_set_iff _ _ _).mpr (CircuitBreaker.probe_refused hprovider)
    | false =>
      cases hlock : cfg.modelLockout with
      | false => exact iff_of_true (fun hgated => nomatch hgated) (fun h => nomatch h.2.2.2.1)
      | true =>
        cases hmodel : (store.modelBreaker target.provider target.model cfg).refuses now with
        | false => exact iff_of_true (fun hgated => nomatch hgated) (fun h => nomatch h.2.2.2.2)
        | true =>
          -- admitted by the provider, refused by the model
          have hkept : SameProbes store.breakers (store.breakers.set target.provider
              ((store.breaker target.provider cfg).allowRequest now).2) ↔
                (store.breaker target.provider cfg).probeDue now = false :=
            (sameProbes_set_iff _ _ _).trans (CircuitBreaker.probe_admitted hprovider)
          have hmodels : SameProbes store.modelBreakers
              (store.modelBreakers.set (modelKey target.provider target.model)
                ((store.modelBreaker target.provider target.model cfg).allowRequest now).2) :=
            (sameProbes_set_iff _ _ _).mpr (CircuitBreaker.probe_refused hmodel)
          constructor
          · rintro h ⟨-, -, hdue, -, -⟩
            rw [hkept.mp (h rfl).1] at hdue
            cases hdue
          · intro h _
            refine ⟨hkept.mpr ?_, hmodels⟩
            cases hdue : (store.breaker target.provider cfg).probeDue now with
            | false => rfl
            | true => exact absurd ⟨rfl, rfl, hdue, rfl, rfl⟩ h

/-! ## 4. The targets that a call skips -/

namespace Call

variable {ρ : Type*} {c : Call ρ}

/-- Considering the next target records it as skipped. -/
def RecordsSkip (c : Call ρ) (store : ResilienceStore) (now : Seconds) : Prop :=
  c.phase = .considering ∧ ∃ target reason, c.targets[c.done]? = some target ∧
    (c.consider store now).1.attempts = c.attempts ++
      [{ provider := target.provider, model := target.model, outcome := reason }]

/-- The next target may be skipped, and the gate gives a probe away for it. -/
def WastesProbe (c : Call ρ) (store : ResilienceStore) (now : Seconds) : Prop :=
  c.phase = .considering ∧ ∃ target, c.targets[c.done]? = some target ∧
    target.hasKey = true ∧ c.cfg.enabled = true ∧ c.maySkip = true ∧
    GivesProbeAway store c.redisPrefix target c.cfg now

variable {target : CallTarget}

theorem consider_keyless (ht : c.targets[c.done]? = some target) (hkey : target.hasKey = false)
    (store : ResilienceStore) (now : Seconds) :
    c.consider store now = ((c.take target).skip target .skippedNoKey, store) := by
  unfold consider
  rw [ht]
  dsimp only
  rw [if_pos (by rw [hkey]; rfl)]

theorem consider_disabled (ht : c.targets[c.done]? = some target) (hkey : target.hasKey = true)
    (hoff : c.cfg.enabled = false) (store : ResilienceStore) (now : Seconds) :
    c.consider store now = ((c.take target).startAttempts target, store) := by
  unfold consider
  rw [ht]
  dsimp only
  rw [if_neg (by rw [hkey]; simp), if_pos (by rw [hoff]; rfl)]

theorem consider_gate (ht : c.targets[c.done]? = some target) (hkey : target.hasKey = true)
    (hon : c.cfg.enabled = true) (store : ResilienceStore) (now : Seconds) :
    c.consider store now =
      let checked := gateCheck store c.redisPrefix target c.cfg now
      if checked.1.gated && c.maySkip then
        ((c.take target).skip target checked.1.reason, checked.2)
      else ((c.take target).startAttempts target, checked.2) := by
  unfold consider
  rw [ht]
  dsimp only
  rw [if_neg (by rw [hkey]; simp), if_neg (by rw [hon]; simp)]

theorem startAttempts_attempts (c : Call ρ) (target : CallTarget) :
    (c.startAttempts target).attempts = c.attempts := by
  unfold startAttempts
  split <;> rfl

/-- A target that is attempted has no entry yet. -/
theorem not_recordsSkip_of_startAttempts {store : ResilienceStore} {now : Seconds}
    (h : (c.consider store now).1 = (c.take target).startAttempts target) :
    ¬ c.RecordsSkip store now := by
  rintro ⟨-, t, reason, -, hattempts⟩
  rw [h, startAttempts_attempts] at hattempts
  change c.attempts = c.attempts ++ [_] at hattempts
  exact absurd (List.append_right_eq_self.mp hattempts.symm) (List.cons_ne_nil _ _)

end Call

theorem GivesProbeAway.gated (h : GivesProbeAway store redisPrefix target cfg now) :
    (gateCheck store redisPrefix target cfg now).1.gated = true := by
  obtain ⟨hcool, hprovider, -, hlock, hmodel⟩ := h
  rw [gateCheck_uncooled hcool]
  dsimp only
  rw [if_neg (by rw [hprovider]; simp), if_neg (by rw [hlock]; simp), hmodel]
  rfl

namespace Call

variable {ρ : Type*} {c : Call ρ}

/-! ## 5. One target, and a whole call -/

theorem skipKeepsProbes_step_iff (c : Call ρ) (store : ResilienceStore) (now : Seconds) :
    (c.RecordsSkip store now → ProbesKept store (c.consider store now).2) ↔
      ¬ c.WastesProbe store now := by
  by_cases hphase : c.phase = .considering
  · cases ht : c.targets[c.done]? with
    | none =>
      constructor
      · rintro - ⟨-, t, ht', -⟩
        rw [ht] at ht'
        cases ht'
      · rintro - ⟨-, t, reason, ht', -⟩
        rw [ht] at ht'
        cases ht'
    | some target =>
      have hwaste : c.WastesProbe store now ↔ target.hasKey = true ∧ c.cfg.enabled = true ∧
          c.maySkip = true ∧ GivesProbeAway store c.redisPrefix target c.cfg now := by
        constructor
        · rintro ⟨-, t, ht', hrest⟩
          rw [ht] at ht'
          cases ht'
          exact hrest
        · intro hrest
          exact ⟨hphase, target, ht, hrest⟩
      rw [hwaste]
      cases hkey : target.hasKey with
      | false =>
        rw [consider_keyless ht hkey]
        exact iff_of_true (fun _ => ⟨fun _ => rfl, fun _ => rfl⟩) (fun h => nomatch h.1)
      | true =>
        cases hon : c.cfg.enabled with
        | false =>
          have hstart := consider_disabled ht hkey hon store now
          refine iff_of_true (fun hskip => ?_) (fun h => nomatch h.2.1)
          exact absurd hskip (not_recordsSkip_of_startAttempts (by rw [hstart]))
        | true =>
          have hgate := consider_gate ht hkey hon store now
          dsimp only at hgate
          by_cases hskip : ((gateCheck store c.redisPrefix target c.cfg now).1.gated &&
              c.maySkip) = true
          · rw [if_pos hskip] at hgate
            obtain ⟨hgated, hmay⟩ := Bool.and_eq_true_iff.mp hskip
            have hrec : c.RecordsSkip store now :=
              ⟨hphase, target, _, ht, by rw [hgate]; rfl⟩
            rw [hgate]
            constructor
            · rintro h ⟨-, -, -, haway⟩
              exact gateCheck_gated_iff.mp (fun _ => h hrec) haway
            · intro h _
              exact gateCheck_gated_iff.mpr (fun haway => h ⟨rfl, rfl, hmay, haway⟩) hgated
          · rw [if_neg hskip] at hgate
            refine iff_of_true (fun hrec => ?_) ?_
            · exact absurd hrec (not_recordsSkip_of_startAttempts (by rw [hgate]))
            · rintro ⟨-, -, hmay, haway⟩
              exact hskip (Bool.and_eq_true_iff.mpr ⟨haway.gated, hmay⟩)
  · exact iff_of_true (fun h => absurd h.1 hphase) (fun h => hphase h.1)

/-- Without model lockout no skipped target consumes a probe. -/
theorem skipKeepsProbes_of_no_lockout {store : ResilienceStore} {now : Seconds}
    (hlock : c.cfg.modelLockout = false) (hskip : c.RecordsSkip store now) :
    ProbesKept store (c.consider store now).2 := by
  refine (skipKeepsProbes_step_iff c store now).mpr ?_ hskip
  rintro ⟨-, target, -, -, -, -, -, -, -, hlocked, -⟩
  rw [hlock] at hlocked
  cases hlocked

/-- While a call considers its targets no other task runs. -/
theorem after_succ_considering {env : Env ρ} {start : Call ρ × ResilienceStore} {n : Nat}
    (hphase : (after env start n).1.phase = .considering) :
    after env start (n + 1) = (after env start n).1.consider (after env start n).2 (env.now n) := by
  have hfound : found env n (after env start n) = (after env start n).2 := by
    rw [found, hphase]
    rfl
  rw [after, hfound, resume, hphase]

/-- Every target that the call skips finds and leaves the same probe slots. -/
def SkipsKeepProbes (env : Env ρ) (start : Call ρ × ResilienceStore) : Prop :=
  ∀ n, (after env start n).1.RecordsSkip (after env start n).2 (env.now n) →
    ProbesKept (after env start n).2 (after env start (n + 1)).2

end Call

/-- **The exact condition.**  The skipped targets of a call consume no probe exactly when none
    of them is considered while its provider has a probe to give and its model is locked out. -/
theorem skipsKeepProbes_iff_no_probe_wasted {ρ : Type*} (env : Env ρ)
    (targets : List CallTarget) (cfg : ResilienceConfig) (redisPrefix : String)
    (sink : List Attempt) (store : ResilienceStore) :
    let start := ((Call.start targets cfg redisPrefix sink : Call ρ), store)
    Call.SkipsKeepProbes env start ↔
      ∀ n, ¬ (Call.after env start n).1.WastesProbe (Call.after env start n).2 (env.now n) := by
  intro start
  refine forall_congr' fun n => ?_
  rw [← Call.skipKeepsProbes_step_iff]
  refine imp_congr_right fun hskip => ?_
  rw [Call.after_succ_considering hskip.1]

/-- A server error at 0 opens the provider's breaker for 30 seconds and locks the model for 60.
    At 40 the target is skipped for its model, and the provider's probe is gone. -/
theorem not_skipsKeepProbes_model_locked :
    let cfg : ResilienceConfig :=
      { enabled := true, failureThreshold := 1, cooldownSeconds := 30, modelLockout := true,
        modelFailureThreshold := 1, modelLockoutSeconds := 60 }
    let target : CallTarget := { model := "gpt-4o", provider := "openai" }
    let other : CallTarget := { model := "claude", provider := "anthropic" }
    let store := noteFailedAttempt {} "t1" target cfg ⟨"InternalServerError", some 500⟩ true 0
    let env : Env Nat :=
      { now := fun _ => 40, outcome := fun n => .returned n, others := fun _ store => store }
    ¬ Call.SkipsKeepProbes env (Call.start [target, other] cfg "t1" [], store) := by
  intro cfg target other store env h
  have hkept := h 0 ⟨rfl, target, .skippedModelLockout, rfl, by decide +kernel⟩
  have hopenai : probeAt store.breakers "openai" = (.opened, none) := by decide +kernel
  have hafter : probeAt (Call.after env (Call.start [target, other] cfg "t1" [], store) 1).2.breakers
      "openai" = (.halfOpen, some 40) := by decide +kernel
  have heq : (BreakerState.halfOpen, some (40 : Seconds)) = (.opened, none) :=
    hafter.symm.trans ((hkept.1 "openai").trans hopenai)
  exact absurd heq (by decide)

end TokenProxy.Resilience
