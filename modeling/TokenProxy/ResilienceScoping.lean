/-
  TokenProxy/ResilienceScoping.lean
  =================================
  **What one tenant's errors do to another tenant** (`call_with_resilience`,
  `ResilienceStore` and `note_provider_outcome`, `providers/resilience.py`).

  One worker runs any number of calls of any tenants over one store; a turn
  resumes one of them, or reports an outcome that was observed outside the
  resilience layer.  Next to that run stands a second one, from which the failed
  attempts of one tenant are removed (`World.turnWithout`): that tenant's calls
  go on as they did, but all that reaches the second store are their successes
  and the gate checks that took a probe.  Everybody else's calls are run for real
  against the second store.

  When the tenant sees rate limits and client errors only, the two runs agree at
  every turn (`Agree`): on every breaker, on every cooldown but the tenant's own,
  and on every call.  A gate check that took a probe stays, because a probe that
  never reports holds its slot until it frees itself.
-/
import TokenProxy.Execution
import TokenProxy.ResilientCallGate
import TokenProxy.TextReplace

namespace TokenProxy.Resilience

open TokenProxy.Execution

variable {ρ : Type*}

/-! ## 1. Many calls over one store -/

structure World (ρ : Type*) where
  store : ResilienceStore
  calls : List (Call ρ)

inductive Turn (ρ : Type*) where
  | resume (call : Nat) (outcome : Outcome ρ) (now : Seconds)
  /-- `note_provider_outcome` for a request of `tenant` -/
  | noted (tenant provider : String) (exc : Option ProviderError) (cfg : ResilienceConfig)
      (now : Seconds)

namespace World

def turn (w : World ρ) : Turn ρ → World ρ
  | .resume call outcome now =>
    match w.calls[call]? with
    | none => w
    | some c =>
      let resumed := c.resume w.store outcome now
      { store := resumed.2, calls := w.calls.set call resumed.1 }
  | .noted _ provider exc cfg now =>
    { w with store := noteProviderOutcome w.store provider exc cfg now }

end World

/-! ## 2. The run without a tenant's failed attempts -/

/-- The gate check asks the breakers and one of them admits the target as its probe. -/
def takesProbe (store : ResilienceStore) (redisPrefix : String) (target : CallTarget)
    (cfg : ResilienceConfig) (now : Seconds) : Bool :=
  let provider := store.breaker target.provider cfg
  let model := store.modelBreaker target.provider target.model cfg
  !(store.inCooldown redisPrefix target.provider now).1 && !provider.refuses now &&
    (provider.probeDue now || (cfg.modelLockout && !model.refuses now && model.probeDue now))

theorem takesProbe_eq_false {store : ResilienceStore} {redisPrefix : String}
    {target : CallTarget} {cfg : ResilienceConfig} {now : Seconds}
    (hcool : (store.inCooldown redisPrefix target.provider now).1 = false)
    (h : takesProbe store redisPrefix target cfg now = false) :
    let provider := store.breaker target.provider cfg
    let model := store.modelBreaker target.provider target.model cfg
    (provider.refuses now = true ∨ provider.probeDue now = false) ∧
      (provider.refuses now = true ∨ cfg.modelLockout = false ∨
        model.refuses now = true ∨ model.probeDue now = false) := by
  intro provider model
  have hcases : (provider.refuses now = true ∨
      (provider.probeDue now = false ∧
        ((cfg.modelLockout = false ∨ model.refuses now = true) ∨
          model.probeDue now = false))) := by
    simpa [takesProbe, hcool, or_iff_not_imp_left] using h
  rcases hcases with hrefused | ⟨hdue, (hlock | hmodel) | hmodel⟩
  · exact ⟨Or.inl hrefused, Or.inl hrefused⟩
  · exact ⟨Or.inr hdue, Or.inr (Or.inl hlock)⟩
  · exact ⟨Or.inr hdue, Or.inr (Or.inr (Or.inl hmodel))⟩
  · exact ⟨Or.inr hdue, Or.inr (Or.inr (Or.inr hmodel))⟩

/-- What remains of a resumption of the tenant's call `c`: the probe it took, or its success.
    `store` is the store that the call found. -/
def keptOfResume (c : Call ρ) (store : ResilienceStore) (outcome : Outcome ρ) (now : Seconds)
    (other : ResilienceStore) : ResilienceStore :=
  match c.phase with
  | .considering =>
    match c.targets[c.done]? with
    | none => other
    | some target =>
      if target.hasKey && c.cfg.enabled && takesProbe store c.redisPrefix target c.cfg now then
        (askBreakers other target c.cfg now).2
      else other
  | .invoking target _ =>
    match outcome with
    | .returned _ => noteSuccess other target c.cfg
    | _ => other
  | _ => other

namespace World

/-- The turn in the second run; `w` is the first run's state. -/
def turnWithout (tenant : String) (w other : World ρ) : Turn ρ → World ρ
  | .resume call outcome now =>
    match w.calls[call]? with
    | none => other
    | some c =>
      if c.redisPrefix = tenant then
        { store := keptOfResume c w.store outcome now other.store
          calls := other.calls.set call (c.resume w.store outcome now).1 }
      else other.turn (.resume call outcome now)
  | .noted owner provider exc cfg now =>
    if owner = tenant ∧ exc.isSome = true then other
    else other.turn (.noted owner provider exc cfg now)

variable {w other : World ρ} {call : Nat} {c : Call ρ}

theorem turn_none (hc : w.calls[call]? = none) (outcome : Outcome ρ) (now : Seconds) :
    w.turn (.resume call outcome now) = w := by
  simp only [turn, hc]

theorem turn_some (hc : w.calls[call]? = some c) (outcome : Outcome ρ) (now : Seconds) :
    w.turn (.resume call outcome now) =
      { store := (c.resume w.store outcome now).2
        calls := w.calls.set call (c.resume w.store outcome now).1 } := by
  simp only [turn, hc]

theorem turnWithout_none (tenant : String) (hc : w.calls[call]? = none) (outcome : Outcome ρ)
    (now : Seconds) : turnWithout tenant w other (.resume call outcome now) = other := by
  simp only [turnWithout, hc]

theorem turnWithout_own {tenant : String} (hc : w.calls[call]? = some c)
    (hown : c.redisPrefix = tenant) (outcome : Outcome ρ) (now : Seconds) :
    turnWithout tenant w other (.resume call outcome now) =
      { store := keptOfResume c w.store outcome now other.store
        calls := other.calls.set call (c.resume w.store outcome now).1 } := by
  simp only [turnWithout, hc, if_pos hown]

theorem turnWithout_other {tenant : String} (hc : w.calls[call]? = some c)
    (hother : c.redisPrefix ≠ tenant) (outcome : Outcome ρ) (now : Seconds) :
    turnWithout tenant w other (.resume call outcome now) =
      other.turn (.resume call outcome now) := by
  simp only [turnWithout, hc, if_neg hother]

end World

/-- Both runs, side by side. -/
def pairStep (tenant : String) (p : World ρ × World ρ) (t : Turn ρ) :
    Option (World ρ × World ρ) :=
  some (p.1.turn t, World.turnWithout tenant p.1 p.2 t)

/-- A rate limit, or an error that the caller is to blame for. -/
def isScopedError (exc : ProviderError) : Bool :=
  isRateLimitError exc || !isRetryableError exc

/-- The error that the tenant sees at this turn, if it sees one, is scoped. -/
def SeesScopedError (tenant : String) (p : World ρ × World ρ) : Turn ρ → Prop
  | .resume call outcome _ =>
    ∀ c target attemptI exc, p.1.calls[call]? = some c → c.redisPrefix = tenant →
      c.phase = .invoking target attemptI → outcome = .raised exc → isScopedError exc = true
  | .noted owner _ exc _ _ =>
    ∀ err, owner = tenant → exc = some err → isScopedError err = true

theorem isHealthFailure_of_scoped {exc : ProviderError} (h : isScopedError exc = true) :
    isHealthFailure exc = false := by
  unfold isScopedError at h
  unfold isHealthFailure
  cases hretry : isRetryableError exc with
  | false => rfl
  | true =>
    rw [hretry] at h
    have hlimit : isRateLimitError exc = true := by simpa using h
    rw [hlimit]
    rfl

/-! ## 3. Cooldown keys -/

/-- A key belongs to one prefix only: neither prefix contains the separator. -/
theorem cooldownKey_prefix_inj {p q provider provider' : String} (hp : '|' ∉ p.toList)
    (hq : '|' ∉ q.toList) (h : cooldownKey p provider = cooldownKey q provider') : p = q := by
  have hlist := congrArg String.toList h
  simp only [cooldownKey, String.toList_append, List.append_assoc] at hlist
  exact String.toList_injective (TextReplace.append_cons_inj_of_notMem_left hp hq hlist).1

def OwnKey (tenant key : String) : Prop := ∃ provider, key = cooldownKey tenant provider

theorem not_ownKey_of_ne {tenant p : String} (ht : '|' ∉ tenant.toList) (hp : '|' ∉ p.toList)
    (hne : p ≠ tenant) (provider : String) : ¬ OwnKey tenant (cooldownKey p provider) := by
  rintro ⟨provider', h⟩
  exact hne (cooldownKey_prefix_inj hp ht h)

/-! ## 4. Stores that differ in the tenant's cooldowns only -/

structure StoreAgree (tenant : String) (s s' : ResilienceStore) : Prop where
  breakers : HealthEq s.breakers s'.breakers
  modelBreakers : HealthEq s.modelBreakers s'.modelBreakers
  cooldowns : ∀ key, ¬ OwnKey tenant key → s.cooldowns.get? key = s'.cooldowns.get? key

namespace StoreAgree

variable {tenant : String} {s s' : ResilienceStore}

theorem refl (s : ResilienceStore) : StoreAgree tenant s s :=
  ⟨HealthEq.refl _, HealthEq.refl _, fun _ _ => rfl⟩

theorem breaker_eq (h : StoreAgree tenant s s') (provider : String) (cfg : ResilienceConfig) :
    s.breaker provider cfg = s'.breaker provider cfg :=
  h.breakers.tuned_eq provider _ _

theorem modelBreaker_eq (h : StoreAgree tenant s s') (provider model : String)
    (cfg : ResilienceConfig) :
    s.modelBreaker provider model cfg = s'.modelBreaker provider model cfg :=
  h.modelBreakers.tuned_eq _ _ _

theorem setBreaker (h : StoreAgree tenant s s') (provider : String) (cb : CircuitBreaker) :
    StoreAgree tenant { s with breakers := s.breakers.set provider cb }
      { s' with breakers := s'.breakers.set provider cb } :=
  ⟨h.breakers.set provider cb, h.modelBreakers, h.cooldowns⟩

theorem setModelBreaker (h : StoreAgree tenant s s') (key : String) (cb : CircuitBreaker) :
    StoreAgree tenant { s with modelBreakers := s.modelBreakers.set key cb }
      { s' with modelBreakers := s'.modelBreakers.set key cb } :=
  ⟨h.breakers, h.modelBreakers.set key cb, h.cooldowns⟩

theorem recordProviderSuccess (h : StoreAgree tenant s s') (provider : String)
    (cfg : ResilienceConfig) : StoreAgree tenant (s.recordProviderSuccess provider cfg)
      (s'.recordProviderSuccess provider cfg) := by
  rw [ResilienceStore.recordProviderSuccess, h.breaker_eq]
  exact h.setBreaker _ _

theorem recordProviderFailure (h : StoreAgree tenant s s') (provider : String)
    (cfg : ResilienceConfig) (now : Seconds) :
    StoreAgree tenant (s.recordProviderFailure provider cfg now)
      (s'.recordProviderFailure provider cfg now) := by
  rw [ResilienceStore.recordProviderFailure, h.breaker_eq]
  exact h.setBreaker _ _

theorem recordModelSuccess (h : StoreAgree tenant s s') (provider model : String)
    (cfg : ResilienceConfig) : StoreAgree tenant (s.recordModelSuccess provider model cfg)
      (s'.recordModelSuccess provider model cfg) := by
  rw [ResilienceStore.recordModelSuccess, h.modelBreaker_eq]
  exact h.setModelBreaker _ _

theorem recordModelFailure (h : StoreAgree tenant s s') (provider model : String)
    (cfg : ResilienceConfig) (now : Seconds) :
    StoreAgree tenant (s.recordModelFailure provider model cfg now)
      (s'.recordModelFailure provider model cfg now) := by
  rw [ResilienceStore.recordModelFailure, h.modelBreaker_eq]
  exact h.setModelBreaker _ _

theorem setCooldown (h : StoreAgree tenant s s') (p provider : String) (ttl now : Seconds) :
    StoreAgree tenant (s.setCooldown p provider ttl now) (s'.setCooldown p provider ttl now) := by
  refine ⟨h.breakers, h.modelBreakers, fun key hkey => ?_⟩
  simp only [ResilienceStore.setCooldown, Dict.get?_set]
  split
  · rfl
  · exact h.cooldowns key hkey

/-- The tenant's own cooldown is invisible to this relation. -/
theorem setCooldown_left (h : StoreAgree tenant s s') (provider : String) (ttl now : Seconds) :
    StoreAgree tenant (s.setCooldown tenant provider ttl now) s' := by
  refine ⟨h.breakers, h.modelBreakers, fun key hkey => ?_⟩
  have hne : key ≠ cooldownKey tenant provider := fun heq => hkey ⟨provider, heq⟩
  rw [ResilienceStore.setCooldown, Dict.get?_set_of_ne _ hne]
  exact h.cooldowns key hkey

theorem noteProviderOutcome (h : StoreAgree tenant s s') (provider : String)
    (exc : Option ProviderError) (cfg : ResilienceConfig) (now : Seconds) :
    StoreAgree tenant (noteProviderOutcome s provider exc cfg now)
      (noteProviderOutcome s' provider exc cfg now) := by
  unfold Resilience.noteProviderOutcome
  split
  · exact h
  · split
    · exact h
    · cases exc with
      | none => exact h.recordProviderSuccess provider cfg
      | some err =>
        dsimp only
        split
        · exact h.recordProviderFailure provider cfg now
        · exact h

theorem noteSuccess (h : StoreAgree tenant s s') (target : CallTarget)
    (cfg : ResilienceConfig) :
    StoreAgree tenant (noteSuccess s target cfg) (noteSuccess s' target cfg) := by
  unfold Resilience.noteSuccess
  split
  · split
    · exact (h.recordProviderSuccess _ cfg).recordModelSuccess _ _ cfg
    · exact h.recordProviderSuccess _ cfg
  · exact h

theorem noteFailedAttempt (h : StoreAgree tenant s s') (p : String) (target : CallTarget)
    (cfg : ResilienceConfig) (exc : ProviderError) (last : Bool) (now : Seconds) :
    StoreAgree tenant (noteFailedAttempt s p target cfg exc last now)
      (noteFailedAttempt s' p target cfg exc last now) := by
  have hsignal : StoreAgree tenant
      (if cfg.enabled && isHealthFailure exc then
        let noted := s.recordProviderFailure target.provider cfg now
        if cfg.modelLockout then noted.recordModelFailure target.provider target.model cfg now
        else noted
      else s)
      (if cfg.enabled && isHealthFailure exc then
        let noted := s'.recordProviderFailure target.provider cfg now
        if cfg.modelLockout then noted.recordModelFailure target.provider target.model cfg now
        else noted
      else s') := by
    split
    · dsimp only
      split
      · exact (h.recordProviderFailure _ cfg now).recordModelFailure _ _ cfg now
      · exact h.recordProviderFailure _ cfg now
    · exact h
  unfold Resilience.noteFailedAttempt
  dsimp only at hsignal ⊢
  split
  · exact hsignal.setCooldown _ _ _ _
  · exact hsignal

theorem askBreakers (h : StoreAgree tenant s s') (target : CallTarget)
    (cfg : ResilienceConfig) (now : Seconds) :
    (askBreakers s target cfg now).1 = (askBreakers s' target cfg now).1 ∧
      StoreAgree tenant (askBreakers s target cfg now).2 (askBreakers s' target cfg now).2 := by
  have hprovider : StoreAgree tenant (s.allowProvider target.provider cfg now).2
      (s'.allowProvider target.provider cfg now).2 := by
    rw [ResilienceStore.allowProvider, h.breaker_eq]
    exact h.setBreaker _ _
  have hanswer : (s.allowProvider target.provider cfg now).1 =
      (s'.allowProvider target.provider cfg now).1 := by
    rw [ResilienceStore.allowProvider, h.breaker_eq]
    rfl
  unfold Resilience.askBreakers
  dsimp only
  rw [hanswer]
  split
  · exact ⟨rfl, hprovider⟩
  · split
    · exact ⟨rfl, hprovider⟩
    · rw [ResilienceStore.allowModel, hprovider.modelBreaker_eq]
      exact ⟨rfl, hprovider.setModelBreaker _ _⟩

theorem inCooldown (h : StoreAgree tenant s s') {p provider : String}
    (hkey : ¬ OwnKey tenant (cooldownKey p provider)) (now : Seconds) :
    (s.inCooldown p provider now).1 = (s'.inCooldown p provider now).1 ∧
      StoreAgree tenant (s.inCooldown p provider now).2 (s'.inCooldown p provider now).2 := by
  unfold ResilienceStore.inCooldown
  rw [h.cooldowns _ hkey]
  split
  · exact ⟨rfl, h⟩
  · split
    · refine ⟨rfl, h.breakers, h.modelBreakers, fun key hown => ?_⟩
      simp only [Dict.get?_erase]
      split
      · rfl
      · exact h.cooldowns key hown
    · exact ⟨rfl, h⟩

theorem inCooldown_left (h : StoreAgree tenant s s') (provider : String) (now : Seconds) :
    StoreAgree tenant (s.inCooldown tenant provider now).2 s' := by
  unfold ResilienceStore.inCooldown
  split
  · exact h
  · split
    · refine ⟨h.breakers, h.modelBreakers, fun key hown => ?_⟩
      have hne : key ≠ cooldownKey tenant provider := fun heq => hown ⟨provider, heq⟩
      simp only [Dict.get?_erase, if_neg hne]
      exact h.cooldowns key hown
    · exact h

/-- A target of another tenant finds the same gate. -/
theorem gateCheck (h : StoreAgree tenant s s') {p : String} {target : CallTarget}
    (hkey : ¬ OwnKey tenant (cooldownKey p target.provider)) (cfg : ResilienceConfig)
    (now : Seconds) :
    (gateCheck s p target cfg now).1 = (gateCheck s' p target cfg now).1 ∧
      StoreAgree tenant (gateCheck s p target cfg now).2 (gateCheck s' p target cfg now).2 := by
  obtain ⟨hanswer, hcooled⟩ := h.inCooldown hkey now
  unfold Resilience.gateCheck
  dsimp only
  rw [hanswer]
  split
  · exact ⟨rfl, hcooled⟩
  · exact hcooled.askBreakers target cfg now

/-- Writing back a breaker as it was is invisible. -/
theorem setBreaker_left (h : StoreAgree tenant s s') (provider : String)
    (cfg : ResilienceConfig) {cb : CircuitBreaker} (hcb : cb = s.breaker provider cfg) :
    StoreAgree tenant { s with breakers := s.breakers.set provider cb } s' := by
  rw [hcb]
  exact ⟨(HealthEq.set_tuned s.breakers provider _ _).trans h.breakers, h.modelBreakers,
    h.cooldowns⟩

theorem setModelBreaker_left (h : StoreAgree tenant s s') (provider model : String)
    (cfg : ResilienceConfig) {cb : CircuitBreaker}
    (hcb : cb = s.modelBreaker provider model cfg) :
    StoreAgree tenant
      { s with modelBreakers := s.modelBreakers.set (modelKey provider model) cb } s' := by
  rw [hcb]
  exact ⟨h.breakers, (HealthEq.set_tuned s.modelBreakers _ _ _).trans h.modelBreakers,
    h.cooldowns⟩

/-- The tenant's gate check takes no probe: the breakers stay as they were. -/
theorem gateCheck_left (h : StoreAgree tenant s s') (target : CallTarget)
    (cfg : ResilienceConfig) (now : Seconds)
    (hnone : takesProbe s tenant target cfg now = false) :
    StoreAgree tenant (Resilience.gateCheck s tenant target cfg now).2 s' := by
  have hcooled := h.inCooldown_left target.provider now
  cases hcool : (s.inCooldown tenant target.provider now).1 with
  | true =>
    rw [gateCheck_cooled hcool]
    exact hcooled
  | false =>
    obtain ⟨hprovider, hmodel⟩ := takesProbe_eq_false hcool hnone
    rw [inCooldown_snd] at hcooled
    have hasked := hcooled.setBreaker_left target.provider cfg
      (CircuitBreaker.allowRequest_unprobed hprovider)
    rw [gateCheck_uncooled hcool]
    dsimp only
    split
    · exact hasked
    · rename_i hpass
      split
      · exact hasked
      · rename_i hlock
        refine hasked.setModelBreaker_left _ _ cfg (CircuitBreaker.allowRequest_unprobed ?_)
        exact (hmodel.resolve_left hpass).resolve_left hlock

/-- The tenant's gate check takes a probe, in both runs. -/
theorem gateCheck_probe (h : StoreAgree tenant s s') (target : CallTarget)
    (cfg : ResilienceConfig) (now : Seconds)
    (hprobe : takesProbe s tenant target cfg now = true) :
    StoreAgree tenant (Resilience.gateCheck s tenant target cfg now).2
      (Resilience.askBreakers s' target cfg now).2 := by
  have hcool : (s.inCooldown tenant target.provider now).1 = false := by
    cases hcool : (s.inCooldown tenant target.provider now).1 with
    | false => rfl
    | true => simp [takesProbe, hcool] at hprobe
  have hgate : Resilience.gateCheck s tenant target cfg now =
      Resilience.askBreakers (s.inCooldown tenant target.provider now).2 target cfg now :=
    if_neg (by rw [hcool]; simp)
  rw [hgate]
  exact ((h.inCooldown_left target.provider now).askBreakers target cfg now).2

/-- A failed attempt whose error is scoped writes at most the tenant's own cooldown. -/
theorem noteFailedAttempt_left (h : StoreAgree tenant s s') (target : CallTarget)
    (cfg : ResilienceConfig) {exc : ProviderError} (hscoped : isScopedError exc = true)
    (last : Bool) (now : Seconds) :
    StoreAgree tenant (Resilience.noteFailedAttempt s tenant target cfg exc last now) s' := by
  unfold Resilience.noteFailedAttempt
  dsimp only
  rw [isHealthFailure_of_scoped hscoped, Bool.and_false, if_neg Bool.false_ne_true]
  split
  · exact h.setCooldown_left _ _ _
  · exact h

/-! ## 5. One resumption in both runs -/

variable {c : Call ρ}

/-- A call of another tenant goes the same way. -/
theorem resume (h : StoreAgree tenant s s')
    (hkey : ∀ provider, ¬ OwnKey tenant (cooldownKey c.redisPrefix provider))
    (outcome : Outcome ρ) (now : Seconds) :
    (c.resume s outcome now).1 = (c.resume s' outcome now).1 ∧
      StoreAgree tenant (c.resume s outcome now).2 (c.resume s' outcome now).2 := by
  unfold Call.resume
  cases hphase : c.phase with
  | considering =>
    dsimp only
    unfold Call.consider
    cases c.targets[c.done]? with
    | none => exact ⟨rfl, h⟩
    | some target =>
      obtain ⟨hgate, hstore⟩ := h.gateCheck (hkey target.provider) c.cfg now
      dsimp only
      rw [hgate]
      split
      · exact ⟨rfl, h⟩
      · split
        · exact ⟨rfl, h⟩
        · split <;> exact ⟨rfl, hstore⟩
  | invoking target attemptI =>
    cases outcome with
    | returned result => exact ⟨rfl, h.noteSuccess target c.cfg⟩
    | raised exc => exact ⟨rfl, h.noteFailedAttempt _ target c.cfg exc _ now⟩
    | cancelled => exact ⟨rfl, h⟩
  | sleeping target attemptI => cases outcome <;> exact ⟨rfl, h⟩
  | finished result => exact ⟨rfl, h⟩

/-- Of the tenant's own call only the kept part reaches the second store. -/
theorem resume_left (h : StoreAgree tenant s s') (hown : c.redisPrefix = tenant)
    {outcome : Outcome ρ}
    (hscoped : ∀ target attemptI exc, c.phase = .invoking target attemptI →
      outcome = .raised exc → isScopedError exc = true) (now : Seconds) :
    StoreAgree tenant (c.resume s outcome now).2 (keptOfResume c s outcome now s') := by
  subst hown
  unfold Call.resume keptOfResume
  cases hphase : c.phase with
  | considering =>
    dsimp only
    cases ht : c.targets[c.done]? with
    | none =>
      unfold Call.consider
      rw [ht]
      exact h
    | some target =>
      dsimp only
      cases hkey : target.hasKey with
      | false =>
        rw [Call.consider_keyless ht hkey]
        exact h
      | true =>
        cases hon : c.cfg.enabled with
        | false =>
          rw [Call.consider_disabled ht hkey hon]
          exact h
        | true =>
          have hsnd : (c.consider s now).2 =
              (Resilience.gateCheck s c.redisPrefix target c.cfg now).2 := by
            rw [Call.consider_gate ht hkey hon]
            dsimp only
            split <;> rfl
          rw [hsnd, Bool.and_self, Bool.true_and]
          cases hprobe : takesProbe s c.redisPrefix target c.cfg now with
          | true => exact h.gateCheck_probe target c.cfg now hprobe
          | false => exact h.gateCheck_left target c.cfg now hprobe
  | invoking target attemptI =>
    cases outcome with
    | returned result => exact h.noteSuccess target c.cfg
    | raised exc =>
      exact h.noteFailedAttempt_left target c.cfg
        (hscoped target attemptI exc hphase rfl) _ now
    | cancelled => exact h
  | sleeping target attemptI => cases outcome <;> exact h
  | finished result => exact h

end StoreAgree

/-! ## 6. The two runs -/

/-- The two runs agree: on the stores, the tenant's own cooldowns apart, and on every call. -/
structure Agree (tenant : String) (w w' : World ρ) : Prop where
  store : StoreAgree tenant w.store w'.store
  calls : w.calls = w'.calls

/-- No prefix contains the separator of the cooldown keys. -/
def PlainPrefixes (w : World ρ) : Prop := ∀ c ∈ w.calls, '|' ∉ c.redisPrefix.toList

theorem PlainPrefixes.turn {w : World ρ} (h : PlainPrefixes w) (t : Turn ρ) :
    PlainPrefixes (w.turn t) := by
  cases t with
  | noted owner provider exc cfg now => exact h
  | resume call outcome now =>
    cases hc : w.calls[call]? with
    | none =>
      rw [World.turn_none hc]
      exact h
    | some c =>
      rw [World.turn_some hc]
      intro c' hmem
      rcases List.mem_or_eq_of_mem_set hmem with hold | heq
      · exact h c' hold
      · rw [heq, (c.resume_frame w.store outcome now).2.2]
        exact h c (List.mem_of_getElem? hc)

theorem Agree.turn {tenant : String} (htenant : '|' ∉ tenant.toList) {w w' : World ρ}
    (h : Agree tenant w w') (hplain : PlainPrefixes w) {t : Turn ρ}
    (hscoped : SeesScopedError tenant (w, w') t) :
    Agree tenant (w.turn t) (World.turnWithout tenant w w' t) := by
  cases t with
  | noted owner provider exc cfg now =>
    unfold World.turnWithout
    dsimp only
    by_cases howner : owner = tenant ∧ exc.isSome = true
    · obtain ⟨err, hexc⟩ := Option.isSome_iff_exists.mp howner.2
      have herr := isHealthFailure_of_scoped (hscoped err howner.1 hexc)
      rw [if_pos howner]
      refine ⟨?_, h.calls⟩
      change StoreAgree tenant (noteProviderOutcome w.store provider exc cfg now) w'.store
      have hsame : noteProviderOutcome w.store provider exc cfg now = w.store := by
        unfold noteProviderOutcome
        rw [hexc]
        simp [herr]
      rw [hsame]
      exact h.store
    · rw [if_neg howner]
      exact ⟨h.store.noteProviderOutcome provider exc cfg now, h.calls⟩
  | resume call outcome now =>
    cases hc : w.calls[call]? with
    | none =>
      rw [World.turn_none hc, World.turnWithout_none tenant hc]
      exact h
    | some c =>
      rw [World.turn_some hc]
      by_cases hown : c.redisPrefix = tenant
      · rw [World.turnWithout_own hc hown, ← h.calls]
        refine ⟨h.store.resume_left hown ?_ now, rfl⟩
        intro target attemptI exc hphase hexc
        exact hscoped c target attemptI exc hc hown hphase hexc
      · have hbar := hplain c (List.mem_of_getElem? hc)
        obtain ⟨hframe, hstore⟩ := h.store.resume
          (fun provider => not_ownKey_of_ne htenant hbar hown provider) outcome now
        rw [World.turnWithout_other hc hown, World.turn_some (h.calls ▸ hc), ← h.calls]
        exact ⟨hstore, by rw [hframe]⟩

/-- Every target of every other tenant is gated the same in both runs. -/
def SameGates (tenant : String) (w w' : World ρ) : Prop :=
  ∀ c ∈ w.calls, c.redisPrefix ≠ tenant → ∀ target now,
    (gateCheck w.store c.redisPrefix target c.cfg now).1 =
      (gateCheck w'.store c.redisPrefix target c.cfg now).1

theorem Agree.sameGates {tenant : String} (htenant : '|' ∉ tenant.toList) {w w' : World ρ}
    (h : Agree tenant w w') (hplain : PlainPrefixes w) : SameGates tenant w w' := by
  intro c hmem hother target now
  have hkey := not_ownKey_of_ne htenant (hplain c hmem) hother target.provider
  exact (h.store.gateCheck hkey c.cfg now).1

/-- **Scoping.**  A tenant that sees rate limits and client errors only leaves every breaker,
    every other tenant's cooldowns and every other tenant's calls as they are without its
    failed attempts, at every point of every run. -/
theorem clientErrors_stay_with_tenant (tenant : String) (htenant : '|' ∉ tenant.toList)
    (w : World ρ) (hplain : ∀ c ∈ w.calls, '|' ∉ c.redisPrefix.toList) (run : List (Turn ρ))
    (hscoped : AllSteps (pairStep tenant) (SeesScopedError tenant) (w, w) run) :
    Always (pairStep tenant)
      (fun p => Agree tenant p.1 p.2 ∧ SameGates tenant p.1 p.2) (w, w) run := by
  have hinv : Always (pairStep tenant)
      (fun p => Agree tenant p.1 p.2 ∧ PlainPrefixes p.1) (w, w) run := by
    refine always_of_allSteps ?_ ⟨⟨StoreAgree.refl _, rfl⟩, hplain⟩ hscoped
    rintro ⟨v, v'⟩ t p' ⟨hagree, hbars⟩ hok hstep
    cases Option.some.inj hstep
    exact ⟨hagree.turn htenant hbars hok, hbars.turn t⟩
  rw [always_iff_prefixes] at hinv ⊢
  intro before after p hrun hexec
  obtain ⟨hagree, hbars⟩ := hinv before after p hrun hexec
  exact ⟨hagree, hagree.sameGates htenant hbars⟩

/-- One tenant is rate limited, then another one is gated. -/
theorem clientErrors_stay_with_tenant_limited :
    let cfg : ResilienceConfig := { enabled := true, numRetries := 0 }
    let target : CallTarget := { model := "gpt-4o", provider := "openai" }
    let w : World Nat :=
      { store := {}
        calls := [Call.start [target] cfg "acme" [], Call.start [target] cfg "globex" []] }
    let run : List (Turn Nat) :=
      [.resume 0 (.returned 0) 0, .resume 0 (.raised ⟨"RateLimitError", some 429⟩) 1,
        .resume 1 (.returned 0) 2, .resume 1 (.returned 7) 3]
    Always (pairStep "acme") (fun p => Agree "acme" p.1 p.2 ∧ SameGates "acme" p.1 p.2)
      (w, w) run := by
  intro cfg target w run
  refine clientErrors_stay_with_tenant "acme" (by decide) w ?_ run ?_
  · intro c hc
    rcases List.mem_cons.mp hc with rfl | hc
    · decide
    · rw [List.mem_singleton.mp hc]
      decide
  · have hanswer : ∀ p call r now,
        SeesScopedError "acme" p (.resume call (.returned r) now : Turn Nat) :=
      fun _ _ _ _ _ _ _ _ _ _ _ hexc => nomatch hexc
    refine fun _ _ => ⟨hanswer _ _ _ _, fun _ _ => ⟨?_, fun _ _ => ⟨hanswer _ _ _ _,
      fun _ _ => ⟨hanswer _ _ _ _, trivial⟩⟩⟩⟩
    rintro c t i exc - - - ⟨⟩
    decide

/-- The provider's breaker is open and its cooldown over.  `acme` takes the probe and fails
    with its own bad key; `globex` is then skipped.  Without that attempt, and also if it had
    been answered, `globex` is let through. -/
theorem not_sameGates_without_failed_probe :
    let cfg : ResilienceConfig := { enabled := true, numRetries := 0, failureThreshold := 1 }
    let target : CallTarget := { model := "gpt-4o", provider := "openai" }
    let other : CallTarget := { model := "claude", provider := "anthropic" }
    let w : World Nat :=
      { store := {}
        calls :=
          [Call.start [target] cfg "initech" [], Call.start [target] cfg "acme" [],
            Call.start [target, other] cfg "globex" []] }
    let outage : List (Turn Nat) :=
      [.resume 0 (.returned 0) 0, .resume 0 (.raised ⟨"InternalServerError", some 500⟩) 0]
    let attempt (outcome : Outcome Nat) : List (Turn Nat) :=
      [.resume 1 (.returned 0) 30, .resume 1 outcome 31]
    let after (run : List (Turn Nat)) : Option (List Attempt × Phase Nat) :=
      ((run.foldl World.turn w).calls[2]?).map fun c => (c.attempts, c.phase)
    let ask : List (Turn Nat) := [.resume 2 (.returned 0) 32]
    after (outage ++ attempt (.raised ⟨"AuthenticationError", some 401⟩) ++ ask) =
        some ([{ provider := "openai", model := "gpt-4o", outcome := .skippedBreaker }],
          .considering) ∧
      after (outage ++ ask) = some ([], .invoking target 0) ∧
      after (outage ++ attempt (.returned 0) ++ ask) = some ([], .invoking target 0) := by
  decide +kernel

end TokenProxy.Resilience
