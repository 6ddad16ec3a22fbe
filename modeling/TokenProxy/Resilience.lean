/-
  TokenProxy/Resilience.lean
  ==========================
  **Provider health state: error classes, circuit breakers, the resilience store**
  (`providers/resilience.py`, everything above `call_with_resilience`).

  A breaker is a pure state machine with the clock as an argument; the store
  keeps one per provider, one per (provider, model) and a cooldown map keyed by
  the tenant's `redis_prefix` and the provider.  Every access to a breaker first
  refreshes its two tunables from the caller's config, so what a breaker looks
  like to a caller is `breaker provider cfg`, whatever config it last saw:
  the lemmas of section 5 are stated through that view.

  Clock values and durations are rationals, and a clock is read once for each
  synchronous stretch of the code.
-/
import TokenProxy.Dict
import Mathlib.Data.Rat.Defs
import Mathlib.Algebra.Order.Ring.Rat

namespace TokenProxy.Resilience

/-- Seconds, exactly: clock values, cooldowns and delays. -/
abbrev Seconds := ℚ

/-! ## 1. Errors -/

/-- What the code reads of an exception: its class name and its `status_code`,
    when that is an integer. -/
structure ProviderError where
  typeName : String
  statusCode : Option Int
deriving DecidableEq, Repr

def retryableNon5xx : List Int := [408, 409, 425, 429]

def retryableNames : List String :=
  ["RateLimitError", "Timeout", "APITimeoutError", "APIConnectionError",
    "InternalServerError", "ServiceUnavailableError", "APIError"]

def isRetryableError (exc : ProviderError) : Bool :=
  match exc.statusCode with
  | some status => decide (500 ≤ status) || decide (status ∈ retryableNon5xx)
  | none => decide (exc.typeName ∈ retryableNames)

def isRateLimitError (exc : ProviderError) : Bool :=
  match exc.statusCode with
  | some status => decide (status = 429)
  | none => decide (exc.typeName = "RateLimitError")

/-- Class name and status only, never the exception's own text. -/
def describeError (exc : ProviderError) : String :=
  match exc.statusCode with
  | some status => exc.typeName ++ "(status=" ++ toString status ++ ")"
  | none => exc.typeName

/-- The one kind of error that feeds the breakers: retryable and not a rate limit. -/
def isHealthFailure (exc : ProviderError) : Bool :=
  isRetryableError exc && !isRateLimitError exc

/-! ## 2. The circuit breaker -/

inductive BreakerState where
  | closed
  | opened
  | halfOpen
deriving DecidableEq, Repr

structure CircuitBreaker where
  failureThreshold : Int := 5
  cooldownSeconds : Seconds := 30
  failures : Int := 0
  state : BreakerState := .closed
  openedAt : Seconds := 0
  probeStartedAt : Option Seconds := none
deriving DecidableEq, Repr

namespace CircuitBreaker

def configure (cb : CircuitBreaker) (failureThreshold : Int) (cooldownSeconds : Seconds) :
    CircuitBreaker :=
  { cb with failureThreshold, cooldownSeconds }

/-- Whether a probe admitted earlier still holds the half-open slot. -/
def probeInFlight (cb : CircuitBreaker) (now : Seconds) : Bool :=
  match cb.probeStartedAt with
  | some started => decide (now - started < cb.cooldownSeconds)
  | none => false

def allowRequest (cb : CircuitBreaker) (now : Seconds) : Bool × CircuitBreaker :=
  match cb.state with
  | .opened =>
    if now - cb.openedAt < cb.cooldownSeconds then (false, cb)
    else (true, { cb with state := .halfOpen, probeStartedAt := some now })
  | .closed => (true, cb)
  | .halfOpen =>
    if cb.probeInFlight now then (false, cb)
    else (true, { cb with probeStartedAt := some now })

def recordSuccess (cb : CircuitBreaker) : CircuitBreaker :=
  { cb with failures := 0, state := .closed }

def recordFailure (cb : CircuitBreaker) (now : Seconds) : CircuitBreaker :=
  if cb.state = .halfOpen then
    -- the probe failed: straight back to OPEN, and the cooldown starts again
    { cb with state := .opened, openedAt := now }
  else if cb.failureThreshold ≤ cb.failures + 1 then
    { cb with failures := cb.failures + 1, state := .opened, openedAt := now }
  else { cb with failures := cb.failures + 1 }

/-- What an outcome seen outside the resilience layer does to its provider's breaker:
    a 429 or a caller's error is no health signal and leaves it alone. -/
def noteOutcome (cb : CircuitBreaker) (exc : Option ProviderError) (now : Seconds) :
    CircuitBreaker :=
  match exc with
  | none => cb.recordSuccess
  | some err => if isHealthFailure err then cb.recordFailure now else cb

/-- A request that is refused changes nothing. -/
theorem allowRequest_refused {cb : CircuitBreaker} {now : Seconds}
    (h : (cb.allowRequest now).1 = false) : (cb.allowRequest now).2 = cb := by
  unfold allowRequest at *
  cases hs : cb.state with
  | opened => simp only [hs] at h ⊢; split at h <;> simp_all
  | closed => simp [hs] at h
  | halfOpen => simp only [hs] at h ⊢; split at h <;> simp_all

theorem allowRequest_closed {cb : CircuitBreaker} (h : cb.state = .closed) (now : Seconds) :
    cb.allowRequest now = (true, cb) := by
  simp [allowRequest, h]

/-- A request admitted while the breaker is not closed is a probe, and takes the slot. -/
theorem allowRequest_probe {cb : CircuitBreaker} {now : Seconds} (hs : cb.state ≠ .closed)
    (h : (cb.allowRequest now).1 = true) :
    (cb.allowRequest now).2 = { cb with state := .halfOpen, probeStartedAt := some now } := by
  unfold allowRequest at *
  cases hst : cb.state with
  | opened =>
    simp only [hst] at h ⊢
    split at h
    · cases h
    · rename_i hcool
      rw [if_neg hcool]
  | closed => exact absurd hst hs
  | halfOpen =>
    simp only [hst] at h ⊢
    split at h
    · cases h
    · rename_i hfree
      rw [if_neg hfree, ← hst]

theorem allowRequest_opened {cb : CircuitBreaker} {now : Seconds} (h : cb.state = .opened) :
    (cb.allowRequest now).1 = decide (cb.cooldownSeconds ≤ now - cb.openedAt) := by
  unfold allowRequest
  rw [h]
  by_cases hc : now - cb.openedAt < cb.cooldownSeconds
  · simp [hc]
  · simp [hc, not_lt.mp hc]

/-- Asking never touches the tunables. -/
@[simp] theorem allowRequest_cooldown (cb : CircuitBreaker) (now : Seconds) :
    (cb.allowRequest now).2.cooldownSeconds = cb.cooldownSeconds := by
  unfold allowRequest
  cases cb.state with
  | opened => dsimp only; split <;> rfl
  | closed => rfl
  | halfOpen => dsimp only; split <;> rfl

@[simp] theorem allowRequest_threshold (cb : CircuitBreaker) (now : Seconds) :
    (cb.allowRequest now).2.failureThreshold = cb.failureThreshold := by
  unfold allowRequest
  cases cb.state with
  | opened => dsimp only; split <;> rfl
  | closed => rfl
  | halfOpen => dsimp only; split <;> rfl

end CircuitBreaker

/-! ## 3. Config -/

/-- The resolved settings of one request, as far as this layer reads them. -/
structure ResilienceConfig where
  enabled : Bool := false
  numRetries : Int := 1
  failureThreshold : Int := 5
  cooldownSeconds : Seconds := 30
  retryBaseDelay : Seconds := 1 / 5
  modelLockout : Bool := false
  modelFailureThreshold : Int := 3
  modelLockoutSeconds : Seconds := 30
deriving DecidableEq, Repr

/-! ## 4. The store -/

structure ResilienceStore where
  breakers : Dict String CircuitBreaker := ∅
  /-- keyed by `provider|model` -/
  modelBreakers : Dict String CircuitBreaker := ∅
  /-- `redis_prefix|provider` to the clock value at which the cooldown ends -/
  cooldowns : Dict String Seconds := ∅
deriving DecidableEq

def modelKey (provider model : String) : String := provider ++ "|" ++ model

def cooldownKey (redisPrefix provider : String) : String := redisPrefix ++ "|" ++ provider

namespace ResilienceStore

/-- The breaker stored under `key`, tuned to this caller; a fresh one when there is none. -/
def tuned (breakers : Dict String CircuitBreaker) (key : String)
    (failureThreshold : Int) (cooldownSeconds : Seconds) : CircuitBreaker :=
  ((breakers.get? key).getD {}).configure failureThreshold cooldownSeconds

def breaker (store : ResilienceStore) (provider : String) (cfg : ResilienceConfig) :
    CircuitBreaker :=
  tuned store.breakers provider cfg.failureThreshold cfg.cooldownSeconds

def modelBreaker (store : ResilienceStore) (provider model : String)
    (cfg : ResilienceConfig) : CircuitBreaker :=
  tuned store.modelBreakers (modelKey provider model)
    cfg.modelFailureThreshold cfg.modelLockoutSeconds

def allowProvider (store : ResilienceStore) (provider : String) (cfg : ResilienceConfig)
    (now : Seconds) : Bool × ResilienceStore :=
  let asked := (store.breaker provider cfg).allowRequest now
  (asked.1, { store with breakers := store.breakers.set provider asked.2 })

def recordProviderSuccess (store : ResilienceStore) (provider : String)
    (cfg : ResilienceConfig) : ResilienceStore :=
  { store with
    breakers := store.breakers.set provider (store.breaker provider cfg).recordSuccess }

def recordProviderFailure (store : ResilienceStore) (provider : String)
    (cfg : ResilienceConfig) (now : Seconds) : ResilienceStore :=
  { store with
    breakers := store.breakers.set provider ((store.breaker provider cfg).recordFailure now) }

def allowModel (store : ResilienceStore) (provider model : String) (cfg : ResilienceConfig)
    (now : Seconds) : Bool × ResilienceStore :=
  let asked := (store.modelBreaker provider model cfg).allowRequest now
  (asked.1,
    { store with modelBreakers := store.modelBreakers.set (modelKey provider model) asked.2 })

def recordModelSuccess (store : ResilienceStore) (provider model : String)
    (cfg : ResilienceConfig) : ResilienceStore :=
  { store with
    modelBreakers := store.modelBreakers.set (modelKey provider model)
      (store.modelBreaker provider model cfg).recordSuccess }

def recordModelFailure (store : ResilienceStore) (provider model : String)
    (cfg : ResilienceConfig) (now : Seconds) : ResilienceStore :=
  { store with
    modelBreakers := store.modelBreakers.set (modelKey provider model)
      ((store.modelBreaker provider model cfg).recordFailure now) }

def setCooldown (store : ResilienceStore) (redisPrefix provider : String) (ttl now : Seconds) :
    ResilienceStore :=
  { store with cooldowns := store.cooldowns.set (cooldownKey redisPrefix provider) (now + ttl) }

/-- An expired entry is dropped by the read that finds it. -/
def inCooldown (store : ResilienceStore) (redisPrefix provider : String) (now : Seconds) :
    Bool × ResilienceStore :=
  match store.cooldowns.get? (cooldownKey redisPrefix provider) with
  | none => (false, store)
  | some expiry =>
    if expiry ≤ now then
      (false, { store with cooldowns := store.cooldowns.erase (cooldownKey redisPrefix provider) })
    else (true, store)

end ResilienceStore

/-- An outcome observed outside `call_with_resilience`, fed to the provider's breaker.
    `cfg` is the config resolved for the provider. -/
def noteProviderOutcome (store : ResilienceStore) (provider : String)
    (exc : Option ProviderError) (cfg : ResilienceConfig) (now : Seconds) : ResilienceStore :=
  if provider = "" then store
  else if !cfg.enabled then store
  else match exc with
    | none => store.recordProviderSuccess provider cfg
    | some err =>
      if isHealthFailure err then
        store.recordProviderFailure provider cfg now
      else store

/-! ## 5. What a caller can see of the breakers

Tunables are overwritten at every access, so two breaker maps that agree up to tunables
(`HealthEq`) are the same to every caller. -/

theorem tuned_eq (breakers : Dict String CircuitBreaker) (key : String) (t : Int)
    (c : Seconds) :
    ResilienceStore.tuned breakers key t c =
      (((breakers.get? key).getD {}).configure 0 0).configure t c := rfl

def HealthEq (bs bs' : Dict String CircuitBreaker) : Prop :=
  ∀ key, ((bs.get? key).getD {}).configure 0 0 = ((bs'.get? key).getD {}).configure 0 0

namespace HealthEq

variable {bs bs' bs'' : Dict String CircuitBreaker}

theorem refl (bs : Dict String CircuitBreaker) : HealthEq bs bs := fun _ => rfl

theorem symm (h : HealthEq bs bs') : HealthEq bs' bs := fun key => (h key).symm

theorem trans (h : HealthEq bs bs') (h' : HealthEq bs' bs'') : HealthEq bs bs'' :=
  fun key => (h key).trans (h' key)

theorem tuned_eq (h : HealthEq bs bs') (key : String) (t : Int) (c : Seconds) :
    ResilienceStore.tuned bs key t c = ResilienceStore.tuned bs' key t c := by
  rw [Resilience.tuned_eq, Resilience.tuned_eq, h key]

/-- Writing one breaker under one key keeps the two maps equal to every caller. -/
theorem set (h : HealthEq bs bs') (key : String) (cb : CircuitBreaker) :
    HealthEq (bs.set key cb) (bs'.set key cb) := by
  intro other
  rw [Dict.get?_set, Dict.get?_set]
  split
  · rfl
  · exact h other

/-- Tuning the breaker under a key, or creating it, is invisible. -/
theorem set_tuned (bs : Dict String CircuitBreaker) (key : String) (t : Int) (c : Seconds) :
    HealthEq (bs.set key (ResilienceStore.tuned bs key t c)) bs := by
  intro other
  rw [Dict.get?_set]
  split
  · rename_i h
    subst h
    rfl
  · rfl

end HealthEq

end TokenProxy.Resilience
