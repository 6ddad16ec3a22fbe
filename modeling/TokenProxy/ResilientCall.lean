/-
  TokenProxy/ResilientCall.lean
  =============================
  **`call_with_resilience` as a coroutine** (`providers/resilience.py`).

  A call runs synchronously between two awaits: the provider call
  (`target.invoke()`) and the back-off (`sleep`).  `Call` is its frame and
  `Call.resume` one synchronous stretch, from the point where it was suspended
  to the next one; the outcome of what was awaited is an argument.  While a call
  is suspended other tasks may change the store in any way, so a run of a call is
  driven by an environment that supplies, at each resumption, the clock, the
  outcome and what the others did to the store.

  Three fields log what the call does: `considered` the targets that the loop has
  taken up, `invocations` each `target.invoke()` with what came of it, `winners`
  each `on_success(target)`.
-/
import TokenProxy.Resilience

namespace TokenProxy.Resilience

/-! ## 1. Targets, attempts, outcomes -/

structure CallTarget where
  model : String
  provider : String
  hasKey : Bool := true
deriving DecidableEq, Repr

inductive AttemptOutcome where
  | success
  | error
  | skippedBreaker
  | skippedCooldown
  | skippedNoKey
  | skippedModelLockout
deriving DecidableEq, Repr

structure Attempt where
  provider : String
  model : String
  outcome : AttemptOutcome
  error : String := ""
  transient : Bool := false
deriving DecidableEq, Repr

/-- What came of an awaited call.  `cancelled` is a `CancelledError`, which is no `Exception`:
    the client is gone or the process is shutting down. -/
inductive Outcome (ρ : Type*) where
  | returned (result : ρ)
  | raised (exc : ProviderError)
  | cancelled
deriving DecidableEq, Repr

/-- How the call itself ends. -/
inductive CallResult (ρ : Type*) where
  | returned (result : ρ)
  | raised (exc : ProviderError)
  | allTargetsFailed (attempts : List Attempt) (lastError : Option ProviderError)
  | cancelled
deriving DecidableEq, Repr

inductive Phase (ρ : Type*) where
  | considering
  | invoking (target : CallTarget) (attemptI : Nat)
  | sleeping (target : CallTarget) (attemptI : Nat)
  | finished (result : CallResult ρ)
deriving DecidableEq, Repr

structure Call (ρ : Type*) where
  targets : List CallTarget
  cfg : ResilienceConfig
  redisPrefix : String := ""
  /-- targets dealt with; the loop is at `targets[done]` -/
  done : Nat := 0
  attempts : List Attempt := []
  lastError : Option ProviderError := none
  phase : Phase ρ := .considering
  considered : List CallTarget := []
  invocations : List (Nat × Outcome ρ) := []
  winners : List CallTarget := []
deriving DecidableEq

/-! ## 2. The gate -/

structure Gate where
  inCooldown : Bool
  breakerOpen : Bool
  modelLocked : Bool
deriving DecidableEq, Repr

def Gate.gated (g : Gate) : Bool := g.inCooldown || g.breakerOpen || g.modelLocked

def Gate.reason (g : Gate) : AttemptOutcome :=
  if g.inCooldown then .skippedCooldown
  else if g.breakerOpen then .skippedBreaker
  else .skippedModelLockout

/-- The provider's breaker, then the model's lockout, which is asked only when the provider
    lets the target pass. -/
def askBreakers (store : ResilienceStore) (target : CallTarget) (cfg : ResilienceConfig)
    (now : Seconds) : Gate × ResilienceStore :=
  let provider := store.allowProvider target.provider cfg now
  if !provider.1 then (⟨false, true, false⟩, provider.2)
  else if !cfg.modelLockout then (⟨false, false, false⟩, provider.2)
  else
    let model := provider.2.allowModel target.provider target.model cfg now
    (⟨false, false, !model.1⟩, model.2)

/-- A target that is in cooldown asks no breaker. -/
def gateCheck (store : ResilienceStore) (redisPrefix : String) (target : CallTarget)
    (cfg : ResilienceConfig) (now : Seconds) : Gate × ResilienceStore :=
  let cooled := store.inCooldown redisPrefix target.provider now
  if cooled.1 then (⟨true, false, false⟩, cooled.2)
  else askBreakers cooled.2 target cfg now

/-! ## 3. What an attempt writes to the store -/

/-- The health signals of a failed attempt, and the cooldown when it is the target's last. -/
def noteFailedAttempt (store : ResilienceStore) (redisPrefix : String) (target : CallTarget)
    (cfg : ResilienceConfig) (exc : ProviderError) (last : Bool) (now : Seconds) :
    ResilienceStore :=
  let signalled :=
    if cfg.enabled && isHealthFailure exc then
      let noted := store.recordProviderFailure target.provider cfg now
      if cfg.modelLockout then noted.recordModelFailure target.provider target.model cfg now
      else noted
    else store
  if last && (cfg.enabled && isRateLimitError exc) then
    signalled.setCooldown redisPrefix target.provider cfg.cooldownSeconds now
  else signalled

def noteSuccess (store : ResilienceStore) (target : CallTarget) (cfg : ResilienceConfig) :
    ResilienceStore :=
  if cfg.enabled then
    let noted := store.recordProviderSuccess target.provider cfg
    if cfg.modelLockout then noted.recordModelSuccess target.provider target.model cfg
    else noted
  else store

/-! ## 4. The coroutine -/

def maxTries (cfg : ResilienceConfig) : Nat :=
  if cfg.enabled then (cfg.numRetries + 1).toNat else 1

namespace Call

variable {ρ : Type*}

/-- The frame at the call; `sink` is the caller's `attempts_sink`. -/
def start (targets : List CallTarget) (cfg : ResilienceConfig) (redisPrefix : String)
    (sink : List Attempt) : Call ρ :=
  { targets, cfg, redisPrefix, attempts := sink }

/-- Take up the next target. -/
def take (c : Call ρ) (target : CallTarget) : Call ρ :=
  { c with considered := c.considered ++ [target] }

def laterViable (c : Call ρ) : Bool := (c.targets.drop (c.done + 1)).any CallTarget.hasKey

/-- A gated target may be skipped when that leaves something: a later target with a key, or
    an error already collected. -/
def maySkip (c : Call ρ) : Bool := c.laterViable || c.lastError.isSome

def skip (c : Call ρ) (target : CallTarget) (reason : AttemptOutcome) : Call ρ :=
  { c with
    done := c.done + 1
    attempts := c.attempts ++
      [{ provider := target.provider, model := target.model, outcome := reason }] }

/-- Enter `for attempt_i in range(max_tries)`; over an empty range it moves on at once. -/
def startAttempts (c : Call ρ) (target : CallTarget) : Call ρ :=
  if 0 < maxTries c.cfg then { c with phase := .invoking target 0 }
  else { c with done := c.done + 1 }

/-- Every target exhausted. -/
def exhausted (c : Call ρ) : CallResult ρ :=
  match c.lastError with
  | some exc =>
    if c.targets.length ≤ 1 then .raised exc else .allTargetsFailed c.attempts (some exc)
  | none => .allTargetsFailed c.attempts none

/-- The head of the loop: take the next target, check its gate, start its attempts. -/
def consider (c : Call ρ) (store : ResilienceStore) (now : Seconds) :
    Call ρ × ResilienceStore :=
  match c.targets[c.done]? with
  | none => ({ c with phase := .finished c.exhausted }, store)
  | some target =>
    let taken := c.take target
    if !target.hasKey then (taken.skip target .skippedNoKey, store)
    else if !c.cfg.enabled then (taken.startAttempts target, store)
    else
      let checked := gateCheck store c.redisPrefix target c.cfg now
      if checked.1.gated && c.maySkip then (taken.skip target checked.1.reason, checked.2)
      else (taken.startAttempts target, checked.2)

/-- Log what came of the provider call just awaited. -/
def logged (c : Call ρ) (outcome : Outcome ρ) : Call ρ :=
  { c with invocations := c.invocations ++ [(c.done, outcome)] }

/-- Whether this failure is retried on the same target. -/
def retries (c : Call ρ) (attemptI : Nat) (exc : ProviderError) : Bool :=
  isRetryableError exc && decide (attemptI + 1 < maxTries c.cfg)

/-- `except Exception as exc`. -/
def onError (c : Call ρ) (target : CallTarget) (attemptI : Nat) (exc : ProviderError) :
    Call ρ :=
  let failed : Call ρ := { c with lastError := some exc }
  if c.retries attemptI exc then { failed with phase := .sleeping target attemptI }
  else
    let recorded : Call ρ := { failed with
      done := c.done + 1
      attempts := c.attempts ++
        [{ provider := target.provider, model := target.model, outcome := .error,
           error := describeError exc, transient := isHealthFailure exc }] }
    if !isRetryableError exc && decide (c.done = 0) then
      -- the caller's own error on the primary: fail fast
      { recorded with phase := .finished (.raised exc) }
    else { recorded with phase := .considering }

/-- The `else` of the `try`: the target answered. -/
def onAnswer (c : Call ρ) (target : CallTarget) (result : ρ) : Call ρ :=
  { c with
    done := c.done + 1
    attempts := c.attempts ++
      [{ provider := target.provider, model := target.model, outcome := .success }]
    winners := c.winners ++ [target]
    phase := .finished (.returned result) }

/-- One synchronous stretch.  `outcome` is what came of the awaited call or sleep; it is not
    read where nothing was awaited. -/
def resume (c : Call ρ) (store : ResilienceStore) (outcome : Outcome ρ) (now : Seconds) :
    Call ρ × ResilienceStore :=
  match c.phase with
  | .considering => c.consider store now
  | .invoking target attemptI =>
    let logged := c.logged outcome
    match outcome with
    | .returned result => (logged.onAnswer target result, noteSuccess store target c.cfg)
    | .raised exc =>
      (logged.onError target attemptI exc,
        noteFailedAttempt store c.redisPrefix target c.cfg exc (!c.retries attemptI exc) now)
    | .cancelled => ({ logged with phase := .finished .cancelled }, store)
  | .sleeping target attemptI =>
    match outcome with
    | .cancelled => ({ c with phase := .finished .cancelled }, store)
    | _ => ({ c with phase := .invoking target (attemptI + 1) }, store)
  | .finished _ => (c, store)

end Call

/-! ## 5. What one resumption does to the frame -/

namespace Call

variable {ρ : Type*}

/-- What the head of the loop does to the frame. -/
theorem consider_cases (c : Call ρ) (store : ResilienceStore) (now : Seconds) :
    (c.targets[c.done]? = none ∧
      (c.consider store now).1 = { c with phase := .finished c.exhausted }) ∨
    ∃ target, c.targets[c.done]? = some target ∧
      ((∃ reason, (target.hasKey = false ∨ c.maySkip = true) ∧
          (c.consider store now).1 = (c.take target).skip target reason) ∨
        (target.hasKey = true ∧
          (c.consider store now).1 = (c.take target).startAttempts target)) := by
  unfold consider
  cases ht : c.targets[c.done]? with
  | none => exact Or.inl ⟨rfl, rfl⟩
  | some target =>
    refine Or.inr ⟨target, rfl, ?_⟩
    dsimp only
    cases hkey : target.hasKey with
    | false => exact Or.inl ⟨_, Or.inl rfl, rfl⟩
    | true =>
      rw [if_neg (by simp)]
      by_cases hoff : (!c.cfg.enabled) = true
      · rw [if_pos hoff]
        exact Or.inr ⟨rfl, rfl⟩
      · rw [if_neg hoff]
        by_cases hskip : ((gateCheck store c.redisPrefix target c.cfg now).1.gated &&
            c.maySkip) = true
        · rw [if_pos hskip]
          exact Or.inl ⟨_, Or.inr (Bool.and_eq_true_iff.mp hskip).2, rfl⟩
        · rw [if_neg hskip]
          exact Or.inr ⟨rfl, rfl⟩

/-- The frame that `onError` leaves: back to sleep, ended at once, or on to the next target. -/
theorem onError_cases (c : Call ρ) (target : CallTarget) (attemptI : Nat)
    (exc : ProviderError) :
    let entry : Attempt :=
      { provider := target.provider, model := target.model, outcome := .error,
        error := describeError exc, transient := isHealthFailure exc }
    (c.retries attemptI exc = true ∧ c.onError target attemptI exc =
      { c with lastError := some exc, phase := .sleeping target attemptI }) ∨
    (c.done = 0 ∧ c.onError target attemptI exc =
      { c with lastError := some exc, done := c.done + 1, attempts := c.attempts ++ [entry],
               phase := .finished (.raised exc) }) ∨
    c.onError target attemptI exc =
      { c with lastError := some exc, done := c.done + 1, attempts := c.attempts ++ [entry],
               phase := .considering } := by
  intro entry
  unfold onError
  cases hretry : c.retries attemptI exc with
  | true => exact Or.inl ⟨rfl, rfl⟩
  | false =>
    refine Or.inr ?_
    by_cases hfast : (!isRetryableError exc && decide (c.done = 0)) = true
    · rw [if_neg (by simp), if_pos hfast]
      exact Or.inl ⟨of_decide_eq_true (Bool.and_eq_true_iff.mp hfast).2, rfl⟩
    · rw [if_neg (by simp), if_neg hfast]
      exact Or.inr rfl

/-- What a call was asked to do never changes. -/
theorem resume_frame (c : Call ρ) (store : ResilienceStore) (outcome : Outcome ρ)
    (now : Seconds) : (c.resume store outcome now).1.cfg = c.cfg ∧
      (c.resume store outcome now).1.targets = c.targets ∧
      (c.resume store outcome now).1.redisPrefix = c.redisPrefix := by
  unfold resume
  cases hphase : c.phase with
  | considering =>
    rcases c.consider_cases store now with ⟨-, heq⟩ | ⟨target, -, ⟨reason, -, heq⟩ | ⟨-, heq⟩⟩
    · dsimp only; rw [heq]; exact ⟨rfl, rfl, rfl⟩
    · dsimp only; rw [heq]; exact ⟨rfl, rfl, rfl⟩
    · dsimp only
      rw [heq]
      unfold startAttempts
      split <;> exact ⟨rfl, rfl, rfl⟩
  | invoking target attemptI =>
    cases outcome with
    | returned result => exact ⟨rfl, rfl, rfl⟩
    | raised exc =>
      dsimp only
      rcases (c.logged (.raised exc)).onError_cases target attemptI exc with
        ⟨-, heq⟩ | ⟨-, heq⟩ | heq <;> rw [heq] <;> exact ⟨rfl, rfl, rfl⟩
    | cancelled => exact ⟨rfl, rfl, rfl⟩
  | sleeping target attemptI => cases outcome <;> exact ⟨rfl, rfl, rfl⟩
  | finished result => exact ⟨rfl, rfl, rfl⟩

end Call

/-! ## 6. Runs of one call -/

/-- What the world does at the `n`-th resumption of a call.  `others` is the effect of the
    other tasks on the store while the call was suspended. -/
structure Env (ρ : Type*) where
  now : Nat → Seconds
  outcome : Nat → Outcome ρ
  others : Nat → ResilienceStore → ResilienceStore

/-- Whether the call is suspended, so that other tasks run before it is resumed. -/
def Phase.suspended {ρ : Type*} : Phase ρ → Bool
  | .invoking _ _ => true
  | .sleeping _ _ => true
  | _ => false

namespace Call

variable {ρ : Type*}

/-- The store that the call finds at its `n`-th resumption. -/
def found (env : Env ρ) (n : Nat) (s : Call ρ × ResilienceStore) : ResilienceStore :=
  if s.1.phase.suspended then env.others n s.2 else s.2

/-- The call and the store after `n` resumptions. -/
def after (env : Env ρ) (start : Call ρ × ResilienceStore) : Nat → Call ρ × ResilienceStore
  | 0 => start
  | n + 1 =>
    let s := after env start n
    s.1.resume (found env n s) (env.outcome n) (env.now n)

/-- More resumptions than a call can take. -/
def bound (c : Call ρ) : Nat := c.targets.length * (2 * maxTries c.cfg + 2) + 1

/-- `call_with_resilience(targets, store, cfg, ..)`, run to its end. -/
def run (env : Env ρ) (c : Call ρ) (store : ResilienceStore) : Call ρ × ResilienceStore :=
  after env (c, store) c.bound

/-! ## 7. A call is answered once -/

/-- The invocations that completed, each with its target. -/
def answered (c : Call ρ) : List (CallTarget × ρ) :=
  c.invocations.filterMap fun inv =>
    match inv.2 with
    | .returned result => (c.targets[inv.1]?).map fun target => (target, result)
    | _ => none

/-- One invocation completed, the winner's, when the call has returned, and none otherwise. -/
def OneAnswer (c : Call ρ) : Prop :=
  match c.phase with
  | .finished (.returned result) => ∃ target, c.winners = [target] ∧ c.answered = [(target, result)]
  | .invoking target _ => (c.winners = [] ∧ c.answered = []) ∧ c.targets[c.done]? = some target
  | .sleeping target _ => (c.winners = [] ∧ c.answered = []) ∧ c.targets[c.done]? = some target
  | _ => c.winners = [] ∧ c.answered = []

theorem answered_logged (c : Call ρ) (outcome : Outcome ρ) :
    (c.logged outcome).answered = c.answered ++
      (match outcome with
        | .returned result => ((c.targets[c.done]?).map fun target => (target, result)).toList
        | _ => []) := by
  simp only [answered, logged, List.filterMap_append, List.filterMap_cons, List.filterMap_nil]
  rcases outcome with result | exc | _
  · rcases c.targets[c.done]? with _ | target <;> rfl
  · rfl
  · rfl

theorem exhausted_oneAnswer {c : Call ρ} (h : c.winners = [] ∧ c.answered = []) :
    OneAnswer { c with phase := .finished c.exhausted } := by
  unfold OneAnswer exhausted
  rcases c.lastError with _ | exc
  · exact h
  · by_cases hlen : c.targets.length ≤ 1
    · simp only [if_pos hlen]
      exact h
    · simp only [if_neg hlen]
      exact h

theorem consider_oneAnswer {c : Call ρ} (h : c.winners = [] ∧ c.answered = [])
    (hphase : c.phase = .considering) (store : ResilienceStore) (now : Seconds) :
    OneAnswer (c.consider store now).1 := by
  rcases c.consider_cases store now with ⟨-, heq⟩ | ⟨target, ht, ⟨reason, -, heq⟩ | ⟨-, heq⟩⟩
  · rw [heq]
    exact exhausted_oneAnswer h
  · rw [heq, OneAnswer, show ((c.take target).skip target reason).phase = .considering from hphase]
    exact h
  · rw [heq, startAttempts]
    by_cases hpos : 0 < maxTries (c.take target).cfg
    · rw [if_pos hpos]
      exact ⟨h, ht⟩
    · rw [if_neg hpos, OneAnswer, show (c.take target).phase = .considering from hphase]
      exact h

theorem onError_oneAnswer {c : Call ρ} (h : c.winners = [] ∧ c.answered = [])
    {target : CallTarget} (ht : c.targets[c.done]? = some target) (attemptI : Nat)
    (exc : ProviderError) : OneAnswer (c.onError target attemptI exc) := by
  rcases c.onError_cases target attemptI exc with ⟨-, heq⟩ | ⟨-, heq⟩ | heq
  · rw [heq]
    exact ⟨h, ht⟩
  · rw [heq]
    exact h
  · rw [heq]
    exact h

theorem resume_oneAnswer {c : Call ρ} (h : OneAnswer c) (store : ResilienceStore)
    (outcome : Outcome ρ) (now : Seconds) : OneAnswer (c.resume store outcome now).1 := by
  unfold resume
  cases hphase : c.phase with
  | considering =>
    rw [OneAnswer, hphase] at h
    exact consider_oneAnswer h hphase store now
  | invoking target attemptI =>
    rw [OneAnswer, hphase] at h
    have hlogged := c.answered_logged outcome
    rcases outcome with result | exc | _
    · refine ⟨target, ?_, ?_⟩
      · change c.winners ++ [target] = [target]
        rw [h.1.1, List.nil_append]
      · rw [h.1.2, h.2] at hlogged
        exact hlogged
    · rw [h.1.2] at hlogged
      exact onError_oneAnswer (c := c.logged (.raised exc)) ⟨h.1.1, hlogged⟩ h.2 attemptI exc
    · rw [h.1.2] at hlogged
      exact ⟨h.1.1, hlogged⟩
  | sleeping target attemptI =>
    rw [OneAnswer, hphase] at h
    rcases outcome with result | exc | _
    · exact h
    · exact h
    · exact h.1
  | finished result => exact h

/-- However often it is resumed, a call has completed at most one invocation, and that is the
    one it returns. -/
theorem run_oneAnswer (env : Env ρ) (targets : List CallTarget) (cfg : ResilienceConfig)
    (redisPrefix : String) (sink : List Attempt) (store : ResilienceStore) :
    OneAnswer ((Call.start targets cfg redisPrefix sink : Call ρ).run env store).1 := by
  have hstart : OneAnswer (Call.start targets cfg redisPrefix sink : Call ρ) := ⟨rfl, rfl⟩
  have hafter : ∀ n, OneAnswer
      (after env ((Call.start targets cfg redisPrefix sink : Call ρ), store) n).1 := by
    intro n
    induction n with
    | zero => exact hstart
    | succ n ih => exact resume_oneAnswer ih _ _ _
  exact hafter _

end Call

end TokenProxy.Resilience
