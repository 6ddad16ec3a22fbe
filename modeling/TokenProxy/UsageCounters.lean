/-
  TokenProxy/UsageCounters.lean
  =============================
  **The usage counters: what the recorder writes and what the gate reads**
  (`g00_rate_limit.py`, `_record_outcome` and `_bill_batch_deferred` of `main.py`,
  `_add_answer_cost` of `g13_batch.py`).

  A billed request schedules an increment of its tenant's quota, spend and trial counters;
  a batched one keeps the namespace of its counters, and its answer's cost is added when it
  arrives.  The increments run later, at the month of that moment.  `recorded` is the list
  of the increments that Redis accepted, each with the request it was for.

    * `Accounted` — what every run keeps: each counter holds the sum of the increments of
      its key, and none expires within its month;
    * `gateAgrees_of_keptApart` — the gate reads a tenant's own usage in every run that
      bills no request for the default tenant's namespace or, under another id, for the
      tenant's own.

  Dollars are rational numbers here; the sums that Redis rounds are exact.
-/
import TokenProxy.CalendarMonth
import TokenProxy.Execution
import TokenProxy.TenantIsolation
import Mathlib.Algebra.BigOperators.Group.List.Basic
import Mathlib.Algebra.Order.Field.Rat

namespace TokenProxy.Counters

open TokenProxy.Tenancy
open TokenProxy.Calendar (yearMonth lt_of_same_month)
open TokenProxy.Execution (Always AllSteps exec exec_cons always_of_allSteps allSteps_of_forall)
open TokenProxy.KeyStore (strip)

/-! ## 1. Keys and requests -/

inductive Limit where
  | quota
  | spend
  | trial
deriving DecidableEq, Repr

def quotaKey (redisPrefix : String) (now : Nat) : String :=
  redisPrefix ++ ("quota:" ++ yearMonth now)

def spendKey (redisPrefix : String) (now : Nat) : String :=
  redisPrefix ++ ("spend:" ++ yearMonth now)

def trialKey (redisPrefix : String) : String := redisPrefix ++ ("trial_used" ++ "")

def Limit.key : Limit → String → Nat → String
  | quota, redisPrefix, now => quotaKey redisPrefix now
  | spend, redisPrefix, now => spendKey redisPrefix now
  | trial, redisPrefix, _ => trialKey redisPrefix

/-- What a request's tenant is resolved from. -/
structure Request where
  headerTenant : String := ""
  keyTenantId : String
  keyTier : String := "free"
  keyIsAdmin : Bool := false
deriving DecidableEq

def Request.context (r : Request) : TenantContext :=
  resolveTenant r.headerTenant r.keyTenantId r.keyTier r.keyIsAdmin none

/-- The id of the tenant that the request is served for, as it was given. -/
def Request.tenant (r : Request) : String :=
  if strip r.headerTenant ≠ "" && r.keyIsAdmin then strip r.headerTenant
  else if r.keyTenantId ≠ "" then r.keyTenantId
  else "default"

/-- `_impersonated`: an admin key sent it as another tenant. -/
def Request.impersonated (r : Request) : Bool :=
  r.keyIsAdmin && decide (strip r.headerTenant ≠ "") &&
    decide (strip r.headerTenant ≠ r.keyTenantId)

/-! ## 2. Redis -/

structure Counter where
  value : ℚ
  expiresAt : Option Nat

abbrev Redis := String → Option Counter

/-- The counter at a key, unless it has expired by `now`. -/
def Redis.live (redis : Redis) (now : Nat) (key : String) : Option Counter :=
  (redis key).filter fun c => c.expiresAt.all (now < ·)

/-- `GET`, as a number; 0 for a missing key. -/
def Redis.get (redis : Redis) (now : Nat) (key : String) : ℚ :=
  ((redis.live now key).map Counter.value).getD 0

/-- `INCR` and `INCRBYFLOAT`: the expiry stays. -/
def Redis.incrBy (redis : Redis) (now : Nat) (key : String) (amount : ℚ) : Redis :=
  Function.update redis key
    (some ⟨redis.get now key + amount, (redis.live now key).bind Counter.expiresAt⟩)

def Redis.expire (redis : Redis) (key : String) (deadline : Nat) : Redis :=
  Function.update redis key ((redis key).map fun c => { c with expiresAt := some deadline })

/-- What Redis answers: it refuses the increment, or takes it and then takes or refuses
    the expiry. -/
inductive Reply where
  | refused
  | counted (expires : Bool)
deriving DecidableEq

def ttl : Nat := 40 * 86400

/-- An increment with its reply; `first` says, from the new total, that the expiry is due. -/
def increment (redis : Redis) (now : Nat) (key : String) (amount : ℚ) (first : ℚ → Bool) :
    Reply → Redis
  | .refused => redis
  | .counted expires =>
    let counted := redis.incrBy now key amount
    if first (counted.get now key) && expires then counted.expire key (now + ttl) else counted

/-- `_bump` of `_bump_quota_counter`. -/
def bumpQuota (redis : Redis) (now : Nat) (redisPrefix : String) (reply : Reply) : Redis :=
  increment redis now (quotaKey redisPrefix now) 1 (fun n => n = 1) reply

def addToSpend (redis : Redis) (now : Nat) (redisPrefix : String) (costUsd : ℚ) (reply : Reply) :
    Redis :=
  if 0 < costUsd then
    increment redis now (spendKey redisPrefix now) costUsd
      (fun total => total ≤ costUsd + 1 / 1000000000) reply
  else redis

/-- `_bump` of `_bump_trial_counter`. -/
def bumpTrial (redis : Redis) (now : Nat) (redisPrefix : String) (reply : Reply) : Redis :=
  increment redis now (trialKey redisPrefix) 1 (fun _ => false) reply

/-! ## 3. The recorder -/

/-- An after-response task, with the request that scheduled it. -/
structure Task where
  limit : Limit
  redisPrefix : String
  amount : ℚ
  request : Request

def Task.run (task : Task) (redis : Redis) (now : Nat) (reply : Reply) : Redis :=
  match task.limit with
  | .quota => bumpQuota redis now task.redisPrefix reply
  | .spend => addToSpend redis now task.redisPrefix task.amount reply
  | .trial => bumpTrial redis now task.redisPrefix reply

/-- `_bump_quota_counter`, `_bump_spend_counter` and `_bump_trial_counter`, for a request that
    is not impersonated; `trialActive` says that its config has an active trial. -/
def bumps (r : Request) (cost : ℚ) (trialActive : Bool) : List Task :=
  if r.impersonated then []
  else
    [⟨.quota, counterPrefix r.context, 1, r⟩] ++
      (if 0 < cost then [⟨.spend, counterPrefix r.context, cost, r⟩] else []) ++
      (if trialActive then [⟨.trial, counterPrefix r.context, 1, r⟩] else [])

/-- A queued request: `spend_prefix` of `_accumulate`, with the request it was. -/
structure Item where
  spendPrefix : String
  request : Request

def accumulate (r : Request) : Item :=
  { spendPrefix := if r.impersonated then "" else counterPrefix r.context
    request := r }

/-- An increment that Redis took, and the request it was for. -/
structure Usage where
  request : Request
  limit : Limit
  key : String
  time : Nat
  amount : ℚ

def taken (reply : Reply) (usage : Usage) : List Usage :=
  match reply with
  | .refused => []
  | .counted _ => [usage]

structure State where
  now : Nat
  redis : Redis
  afterResponse : List Task
  queued : List Item
  recorded : List Usage

def start (now : Nat) : State := ⟨now, fun _ => none, [], [], []⟩

inductive Event where
  | pass (seconds : Nat)
  /-- `_record_outcome` of a request that was answered. -/
  | served (r : Request) (cost : ℚ) (trialActive : Bool)
  /-- G13 queues a request, and `_bill_batch_deferred` bills it. -/
  | deferred (r : Request) (cost : ℚ) (trialActive : Bool)
  /-- A task runs. -/
  | task (i : Nat) (reply : Reply)
  /-- A task is cut off at shutdown. -/
  | lost (i : Nat)
  /-- `_add_answer_cost`, for a queued request; the queue may deliver it once more. -/
  | answered (i : Nat) (cost : ℚ) (reply : Reply)

def step (s : State) : Event → Option State
  | .pass seconds => some { s with now := s.now + seconds }
  | .served r cost trialActive =>
    some { s with afterResponse := s.afterResponse ++ bumps r cost trialActive }
  | .deferred r cost trialActive =>
    some { s with
      afterResponse := s.afterResponse ++ bumps r cost trialActive
      queued := s.queued ++ [accumulate r] }
  | .task i reply =>
    (s.afterResponse[i]?).map fun task =>
      { s with
        redis := task.run s.redis s.now reply
        afterResponse := s.afterResponse.eraseIdx i
        recorded := s.recorded ++ taken reply
          ⟨task.request, task.limit, task.limit.key task.redisPrefix s.now, s.now, task.amount⟩ }
  | .lost i => some { s with afterResponse := s.afterResponse.eraseIdx i }
  | .answered i cost reply =>
    (s.queued[i]?).map fun item =>
      if item.spendPrefix = "" || !decide (0 < cost) then s
      else
        { s with
          redis := addToSpend s.redis s.now item.spendPrefix cost reply
          recorded := s.recorded ++ taken reply
            ⟨item.request, .spend, spendKey item.spendPrefix s.now, s.now, cost⟩ }

/-! ## 4. The gate -/

/-- What `_check_quota`, `_check_spend` and `_check_trial` compare to the limit, for a request
    of this context. -/
def gateValue (s : State) (limit : Limit) (context : TenantContext) : ℚ :=
  s.redis.get s.now (limit.key context.redisPrefix s.now)

/-- The usage of a limit by the requests that `whose` names, in the month of `now`. -/
def usageOf (s : State) (limit : Limit) (whose : Request → Bool) : ℚ :=
  ((s.recorded.filter fun u => whose u.request && decide (u.limit = limit) &&
    (decide (limit = .trial) || decide (yearMonth u.time = yearMonth s.now))).map Usage.amount).sum

/-- The gate reads the counters that the recorder writes for this tenant. -/
structure GateAgrees (tenant : String) (s : State) : Prop where
  value : ∀ limit tier, gateValue s limit (.forTenant tenant tier) =
    usageOf s limit fun r => r.tenant = tenant
  key : ∀ u ∈ s.recorded, u.request.tenant = tenant →
    u.key = u.limit.key u.request.context.redisPrefix u.time
  own : ∀ u ∈ s.recorded, u.request.impersonated = false

/-- The request that an event serves or queues. -/
def Event.request? : Event → Option Request
  | .served r _ _ => some r
  | .deferred r _ _ => some r
  | _ => none

/-- Billed to the tenant's namespace, it is the tenant's, and the namespace is not the
    default tenant's. -/
def Own (tenant : String) (r : Request) : Prop :=
  r.impersonated = false → sanitiseTenantId r.tenant = sanitiseTenantId tenant →
    r.tenant = tenant ∧ sanitiseTenantId tenant ≠ "default"

def KeptApart (tenant : String) (e : Event) : Prop := ∀ r ∈ e.request?, Own tenant r

instance (tenant : String) (r : Request) : Decidable (Own tenant r) :=
  inferInstanceAs (Decidable (_ → _ → _ ∧ _))

instance (tenant : String) (e : Event) : Decidable (KeptApart tenant e) :=
  inferInstanceAs (Decidable (∀ r ∈ e.request?, Own tenant r))

/-! ## 5. Keys of one namespace -/

/-- The namespace of a sanitised id. -/
def space (safeId : String) : String := "t:" ++ safeId ++ ":"

def Limit.family : Limit → String
  | quota => "quota:"
  | spend => "spend:"
  | trial => "trial_used"

def Limit.suffix : Limit → Nat → String
  | quota, now => yearMonth now
  | spend, now => yearMonth now
  | trial, _ => ""

theorem Limit.key_eq (limit : Limit) (redisPrefix : String) (now : Nat) :
    limit.key redisPrefix now = redisPrefix ++ (limit.family ++ limit.suffix now) := by
  cases limit with
  | quota => rfl
  | spend => rfl
  | trial => rfl

theorem Limit.family_mem (limit : Limit) : limit.family ∈ startsOfKeys := by
  cases limit with
  | quota => decide
  | spend => decide
  | trial => decide

theorem Limit.family_injective {l l' : Limit} (h : l.family = l'.family) : l = l' := by
  cases l <;> cases l' <;> first | rfl | exact absurd h (by decide)

theorem Request.context_eq (r : Request) :
    r.context.tenantId = sanitiseTenantId r.tenant ∧
      r.context.redisPrefix = (TenantContext.forTenant r.tenant "free").redisPrefix := by
  have hdefault : sanitiseTenantId "default" = "default" := by decide +kernel
  rw [Request.context, Request.tenant, resolveTenant]
  by_cases hheader : (strip r.headerTenant ≠ "" && r.keyIsAdmin) = true
  · rw [if_pos hheader, if_pos hheader]
    simp only [TenantContext.forTenant, and_self]
  · rw [if_neg hheader, if_neg hheader]
    by_cases hkey : r.keyTenantId ≠ ""
    · rw [if_pos hkey, if_pos hkey]
      simp only [TenantContext.forTenant, and_self]
    · rw [if_neg hkey, if_neg hkey]
      simp only [TenantContext.forTenant, TenantContext.default, Option.getD_none, hdefault, ne_eq,
        not_true_eq_false, if_false, and_self]

/-- The recorder's namespace is that of the sanitised id, the default tenant's included. -/
theorem counterPrefix_context (r : Request) :
    counterPrefix r.context = space (sanitiseTenantId r.tenant) := by
  obtain ⟨htenant, hpre⟩ := r.context_eq
  simp only [counterPrefix, htenant, hpre, TenantContext.forTenant, space]
  by_cases h : sanitiseTenantId r.tenant = "default"
  · simp [h]
  · simp [h]

theorem redisPrefix_of_ne_default {id tier : String} (h : sanitiseTenantId id ≠ "default") :
    (TenantContext.forTenant id tier).redisPrefix = space (sanitiseTenantId id) := by
  simp [TenantContext.forTenant, space, h]

/-- A key tells its namespace, its limit and its month. -/
theorem key_inj {x y : String} {l l' : Limit} {t t' : Nat} (hx : ':' ∉ x.toList)
    (hy : ':' ∉ y.toList) (h : l.key (space x) t = l'.key (space y) t') :
    x = y ∧ l = l' ∧ l.suffix t = l'.suffix t' := by
  simp only [Limit.key_eq, space, String.append_assoc] at h
  have hrest := string_append_left_cancel h
  obtain rfl := segment_eq hx hy hrest
  have hkey := string_append_left_cancel (string_append_left_cancel hrest)
  obtain ⟨hfamily, hsuffix⟩ := family_eq l.family_mem l'.family_mem hkey
  exact ⟨rfl, Limit.family_injective hfamily, hsuffix⟩

/-- The keys that the gate reads for the default tenant are in no namespace. -/
theorem key_ne_of_empty (l l' : Limit) (t t' : Nat) (x : String) :
    l.key "" t ≠ l'.key (space x) t' := by
  intro h
  simp only [Limit.key_eq, space, String.append_assoc, String.empty_append] at h
  have hfamily := (family_eq l.family_mem (by decide) h).1
  cases l with
  | quota => exact absurd hfamily (by decide)
  | spend => exact absurd hfamily (by decide)
  | trial => exact absurd hfamily (by decide)

theorem suffix_eq_iff (l : Limit) (t t' : Nat) :
    l.suffix t = l.suffix t' ↔ l = .trial ∨ yearMonth t = yearMonth t' := by
  cases l with
  | quota => simp [Limit.suffix]
  | spend => simp [Limit.suffix]
  | trial => simp [Limit.suffix]

/-! ## 6. One increment -/

/-- The value at a key, expired or not. -/
def Redis.raw (redis : Redis) (key : String) : ℚ := ((redis key).map Counter.value).getD 0

def sumAt (recorded : List Usage) (key : String) : ℚ :=
  ((recorded.filter fun u => decide (u.key = key)).map Usage.amount).sum

/-- The counters hold what was recorded under their keys, and expire after their month. -/
structure Booked (now : Nat) (redis : Redis) (recorded : List Usage) : Prop where
  usages : ∀ u ∈ recorded, u.request.impersonated = false ∧
    u.key = u.limit.key (space (sanitiseTenantId u.request.tenant)) u.time
  values : ∀ key, redis.raw key = sumAt recorded key
  expiries : ∀ key c, redis key = some c → ∀ deadline, c.expiresAt = some deadline →
    ∃ (l : Limit) (x : String) (t : Nat), ':' ∉ x.toList ∧ l ≠ .trial ∧ t ≤ now ∧
      key = l.key (space x) t ∧ deadline = t + ttl

variable {now : Nat} {redis : Redis} {recorded : List Usage}

/-- A counter is there throughout its month. -/
theorem Booked.live_eq (h : Booked now redis recorded) {l : Limit} {x : String}
    (hx : ':' ∉ x.toList) : redis.live now (l.key (space x) now) = redis (l.key (space x) now) := by
  rw [Redis.live]
  cases hc : redis (l.key (space x) now) with
  | none => rfl
  | some c =>
    rw [Option.filter_some, if_pos]
    cases hexpires : c.expiresAt with
    | none => rfl
    | some deadline =>
      obtain ⟨l', y, t, hy, hl', -, hkey, hdeadline⟩ := h.expiries _ c hc deadline hexpires
      obtain ⟨-, heq, hsuffix⟩ := key_inj hx hy hkey
      rw [heq, suffix_eq_iff] at hsuffix
      have hlt := lt_of_same_month (hsuffix.resolve_left hl').symm
      rw [ttl] at hdeadline
      simp only [Option.all_some, decide_eq_true_eq]
      omega

theorem Booked.get_eq (h : Booked now redis recorded) {l : Limit} {x : String}
    (hx : ':' ∉ x.toList) :
    redis.get now (l.key (space x) now) = sumAt recorded (l.key (space x) now) := by
  rw [← h.values, Redis.get, h.live_eq hx]
  rfl

theorem Booked.later (h : Booked now redis recorded) {later : Nat} (hle : now ≤ later) :
    Booked later redis recorded := by
  refine ⟨h.usages, h.values, ?_⟩
  intro key c hc deadline hdeadline
  obtain ⟨l, x, t, hx, hl, ht, hkey, hat⟩ := h.expiries key c hc deadline hdeadline
  exact ⟨l, x, t, hx, hl, ht.trans hle, hkey, hat⟩

theorem sumAt_append (us vs : List Usage) (key : String) :
    sumAt (us ++ vs) key = sumAt us key + sumAt vs key := by
  simp [sumAt]

theorem sumAt_singleton (u : Usage) (key : String) :
    sumAt [u] key = if u.key = key then u.amount else 0 := by
  by_cases h : u.key = key
  · simp [sumAt, h]
  · simp [sumAt, h]

/-- What an increment that Redis took leaves at each key. -/
theorem increment_counted (redis : Redis) (now : Nat) (key : String) (amount : ℚ)
    (first : ℚ → Bool) (expires : Bool) :
    ∃ expiresAt, increment redis now key amount first (.counted expires) =
        Function.update redis key (some ⟨redis.get now key + amount, expiresAt⟩) ∧
      (expiresAt = (redis.live now key).bind Counter.expiresAt ∨
        (expiresAt = some (now + ttl) ∧ ∃ total, first total = true)) := by
  simp only [increment]
  split
  · next h =>
    refine ⟨some (now + ttl), ?_, Or.inr ⟨rfl, _, (Bool.and_eq_true_iff.mp h).1⟩⟩
    simp [Redis.expire, Redis.incrBy]
  · exact ⟨_, rfl, Or.inl rfl⟩

/-- **One increment**: of a key of this month's, for a request that is not impersonated. -/
theorem Booked.increment (h : Booked now redis recorded) {limit : Limit} {r : Request}
    (hown : r.impersonated = false) (amount : ℚ) {first : ℚ → Bool}
    (hfirst : limit = .trial → first = fun _ => false) (reply : Reply) {key : String}
    (hkey : key = limit.key (space (sanitiseTenantId r.tenant)) now) :
    Booked now (increment redis now key amount first reply)
      (recorded ++ taken reply ⟨r, limit, key, now, amount⟩) := by
  subst hkey
  cases reply with
  | refused => simpa [Counters.increment, taken] using h
  | counted expires =>
    obtain ⟨expiresAt, hredis, hexpires⟩ := increment_counted redis now
      (limit.key (space (sanitiseTenantId r.tenant)) now) amount first expires
    rw [hredis]
    refine ⟨?_, ?_, ?_⟩
    · intro u hu
      rcases List.mem_append.mp hu with hu | hu
      · exact h.usages u hu
      · rw [taken, List.mem_singleton] at hu
        subst hu
        exact ⟨hown, rfl⟩
    · intro key
      rw [taken, sumAt_append, sumAt_singleton, ← h.values key]
      by_cases hkey : limit.key (space (sanitiseTenantId r.tenant)) now = key
      · subst hkey
        rw [h.get_eq (colon_notMem_sanitiseTenantId _), ← h.values]
        simp [Redis.raw]
      · simp [Redis.raw, Function.update_of_ne (Ne.symm hkey), hkey]
    · intro key c hc deadline hdeadline
      by_cases hkey : key = limit.key (space (sanitiseTenantId r.tenant)) now
      · subst hkey
        rw [Function.update_self, Option.some_inj] at hc
        subst hc
        rcases hexpires with hold | ⟨hnew, total, htotal⟩
        · simp only at hdeadline
          rw [hold, h.live_eq (colon_notMem_sanitiseTenantId _),
            Option.bind_eq_some_iff] at hdeadline
          obtain ⟨c, hc, hdeadline⟩ := hdeadline
          exact h.expiries _ c hc deadline hdeadline
        · simp only at hdeadline
          rw [hnew, Option.some_inj] at hdeadline
          refine ⟨limit, _, now, colon_notMem_sanitiseTenantId _, ?_, le_rfl, rfl, hdeadline.symm⟩
          intro hlimit
          rw [hfirst hlimit] at htotal
          cases htotal
      · rw [Function.update_of_ne hkey] at hc
        exact h.expiries key c hc deadline hdeadline

/-! ## 7. Runs -/

/-- A task that one of the recorder's functions scheduled. -/
def Task.Scheduled (task : Task) : Prop :=
  ∃ cost trialActive, task ∈ bumps task.request cost trialActive

/-- The books are in order, and so is what is still to be written into them. -/
structure Accounted (s : State) : Prop where
  booked : Booked s.now s.redis s.recorded
  tasks : ∀ task ∈ s.afterResponse, task.Scheduled
  items : ∀ item ∈ s.queued, item = accumulate item.request

theorem accounted_start (now : Nat) : Accounted (start now) := by
  refine ⟨⟨?_, ?_, ?_⟩, ?_, ?_⟩
  · intro u hu
    cases hu
  · intro key
    rfl
  · intro key c hc
    cases hc
  · intro task htask
    cases htask
  · intro item hitem
    cases hitem

theorem scheduled_of_mem_bumps {r : Request} {cost : ℚ} {trialActive : Bool} {task : Task}
    (h : task ∈ bumps r cost trialActive) : task.request = r ∧ task.Scheduled := by
  have hrequest : task.request = r := by
    simp only [bumps] at h
    split at h
    · cases h
    · simp only [List.mem_append, List.mem_singleton, List.mem_ite_nil_right] at h
      rcases h with (rfl | ⟨-, rfl⟩) | ⟨-, rfl⟩
      · rfl
      · rfl
      · rfl
  refine ⟨hrequest, cost, trialActive, ?_⟩
  rw [hrequest]
  exact h

/-- A scheduled task is one increment of its request's own counter. -/
theorem Task.Scheduled.run_eq {task : Task} (h : task.Scheduled) (redis : Redis) (now : Nat)
    (reply : Reply) :
    task.request.impersonated = false ∧
      task.redisPrefix = space (sanitiseTenantId task.request.tenant) ∧
      ∃ first, (task.limit = .trial → first = fun _ => false) ∧
        task.run redis now reply =
          increment redis now (task.limit.key task.redisPrefix now) task.amount first reply := by
  obtain ⟨cost, trialActive, hmem⟩ := h
  simp only [bumps] at hmem
  split at hmem
  · cases hmem
  · next hown =>
    rw [← counterPrefix_context, ← Bool.not_eq_true]
    simp only [List.mem_append, List.mem_singleton, List.mem_ite_nil_right] at hmem
    generalize task.request = r at hmem hown ⊢
    rcases hmem with (rfl | ⟨hcost, rfl⟩) | ⟨-, rfl⟩
    · refine ⟨hown, by simp only, fun n => n = 1, ?_, ?_⟩
      · intro hlimit
        cases hlimit
      · simp only [Task.run, bumpQuota, Limit.key]
    · refine ⟨hown, by simp only, fun total => total ≤ cost + 1 / 1000000000, ?_, ?_⟩
      · intro hlimit
        cases hlimit
      · simp only [Task.run, addToSpend, hcost, if_true, Limit.key]
    · refine ⟨hown, by simp only, fun _ => false, fun _ => rfl, ?_⟩
      simp only [Task.run, bumpTrial, Limit.key]

/-- **One step** keeps the books in order. -/
theorem accounted_step {s s' : State} {e : Event} (h : Accounted s) (hstep : step s e = some s') :
    Accounted s' := by
  have hadd : ∀ r cost trialActive, ∀ task ∈ s.afterResponse ++ bumps r cost trialActive,
      task.Scheduled := by
    intro r cost trialActive task htask
    rcases List.mem_append.mp htask with htask | htask
    · exact h.tasks task htask
    · exact (scheduled_of_mem_bumps htask).2
  have hdrop : ∀ i, ∀ task ∈ s.afterResponse.eraseIdx i, task.Scheduled := by
    intro i task htask
    exact h.tasks task (List.mem_of_mem_eraseIdx htask)
  cases e with
  | pass seconds =>
    cases hstep
    exact ⟨h.booked.later (Nat.le_add_right _ _), h.tasks, h.items⟩
  | served r cost trialActive =>
    cases hstep
    exact ⟨h.booked, hadd r cost trialActive, h.items⟩
  | deferred r cost trialActive =>
    cases hstep
    refine ⟨h.booked, hadd r cost trialActive, ?_⟩
    intro item hitem
    rcases List.mem_append.mp hitem with hitem | hitem
    · exact h.items item hitem
    · rw [List.mem_singleton.mp hitem]
      rfl
  | task i reply =>
    obtain ⟨task, htask, rfl⟩ := Option.map_eq_some_iff.mp hstep
    obtain ⟨hown, hpre, first, hfirst, hrun⟩ :=
      (h.tasks task (List.mem_of_getElem? htask)).run_eq s.redis s.now reply
    refine ⟨?_, hdrop i, h.items⟩
    simp only [hrun]
    apply h.booked.increment hown _ hfirst
    rw [hpre]
  | lost i =>
    cases hstep
    exact ⟨h.booked, hdrop i, h.items⟩
  | answered i cost reply =>
    obtain ⟨item, hitem, rfl⟩ := Option.map_eq_some_iff.mp hstep
    have hitem := h.items item (List.mem_of_getElem? hitem)
    split
    · exact h
    · next hspends =>
      simp only [Bool.or_eq_true, decide_eq_true_eq, Bool.not_eq_true', decide_eq_false_iff_not,
        not_or, not_not] at hspends
      rw [hitem] at hspends
      have hown : item.request.impersonated = false := by
        cases hown : item.request.impersonated with
        | false => rfl
        | true => exact absurd (by simp [accumulate, hown]) hspends.1
      have hpre : item.spendPrefix = space (sanitiseTenantId item.request.tenant) := by
        rw [hitem, accumulate, hown, if_neg (by decide), counterPrefix_context]
      refine ⟨?_, h.tasks, h.items⟩
      simp only [addToSpend, hspends.2, if_true]
      apply h.booked.increment hown
      · intro hlimit
        cases hlimit
      · rw [hpre, Limit.key]

/-- The requests that the counters were or will be written for. -/
def State.requests (s : State) : List Request :=
  s.afterResponse.map Task.request ++ s.queued.map Item.request ++ s.recorded.map Usage.request

theorem requests_step {s s' : State} {e : Event} (hstep : step s e = some s') {r : Request}
    (hr : r ∈ s'.requests) : r ∈ s.requests ∨ e.request? = some r := by
  have hbumps : ∀ r' cost trialActive, r ∈ (bumps r' cost trialActive).map Task.request →
      r' = r := by
    intro r' cost trialActive hr
    obtain ⟨task, htask, rfl⟩ := List.mem_map.mp hr
    exact (scheduled_of_mem_bumps htask).1.symm
  have htaken : ∀ reply usage, r ∈ (taken reply usage).map Usage.request → r = usage.request := by
    intro reply usage hr
    cases reply with
    | refused => cases hr
    | counted expires => simpa [taken] using hr
  have herase : ∀ i, r ∈ (s.afterResponse.eraseIdx i).map Task.request →
      r ∈ s.afterResponse.map Task.request := by
    intro i hr
    obtain ⟨task, htask, rfl⟩ := List.mem_map.mp hr
    exact List.mem_map_of_mem (List.mem_of_mem_eraseIdx htask)
  simp only [State.requests, List.mem_append] at hr ⊢
  cases e with
  | pass seconds =>
    cases hstep
    exact Or.inl hr
  | served r' cost trialActive =>
    cases hstep
    rw [List.map_append, List.mem_append] at hr
    rcases hr with ((hr | hr) | hr) | hr
    · exact Or.inl (Or.inl (Or.inl hr))
    · exact Or.inr (by rw [Event.request?, hbumps r' cost trialActive hr])
    · exact Or.inl (Or.inl (Or.inr hr))
    · exact Or.inl (Or.inr hr)
  | deferred r' cost trialActive =>
    cases hstep
    rw [List.map_append, List.mem_append, List.map_append, List.mem_append] at hr
    rcases hr with ((hr | hr) | hr | hr) | hr
    · exact Or.inl (Or.inl (Or.inl hr))
    · exact Or.inr (by rw [Event.request?, hbumps r' cost trialActive hr])
    · exact Or.inl (Or.inl (Or.inr hr))
    · rw [List.map_singleton, List.mem_singleton] at hr
      exact Or.inr (by rw [hr]; rfl)
    · exact Or.inl (Or.inr hr)
  | task i reply =>
    obtain ⟨task, htask, rfl⟩ := Option.map_eq_some_iff.mp hstep
    rw [List.map_append, List.mem_append] at hr
    rcases hr with (hr | hr) | hr | hr
    · exact Or.inl (Or.inl (Or.inl (herase i hr)))
    · exact Or.inl (Or.inl (Or.inr hr))
    · exact Or.inl (Or.inr hr)
    · rw [htaken _ _ hr]
      exact Or.inl (Or.inl (Or.inl (List.mem_map_of_mem (List.mem_of_getElem? htask))))
  | lost i =>
    cases hstep
    exact Or.inl (hr.imp_left (Or.imp_left (herase i)))
  | answered i cost reply =>
    obtain ⟨item, hitem, rfl⟩ := Option.map_eq_some_iff.mp hstep
    split at hr
    · exact Or.inl hr
    · rw [List.map_append, List.mem_append] at hr
      rcases hr with hr | hr | hr
      · exact Or.inl (Or.inl hr)
      · exact Or.inl (Or.inr hr)
      · rw [htaken _ _ hr]
        exact Or.inl (Or.inl (Or.inr (List.mem_map_of_mem (List.mem_of_getElem? hitem))))

/-! ## 8. What the gate reads -/

/-- The key is one of the tenant's own, of this month. -/
theorem key_eq_iff {s : State} (h : Accounted s) {tenant : String}
    (hown : ∀ r ∈ s.requests, Own tenant r) (limit : Limit) {u : Usage} (hu : u ∈ s.recorded) :
    u.key = limit.key (space (sanitiseTenantId tenant)) s.now ↔
      u.request.tenant = tenant ∧ u.limit = limit ∧
        (limit = .trial ∨ yearMonth u.time = yearMonth s.now) := by
  obtain ⟨himp, hkey⟩ := h.booked.usages u hu
  have hmem : u.request ∈ s.requests :=
    List.mem_append.mpr (Or.inr (List.mem_map_of_mem hu))
  rw [hkey]
  constructor
  · intro heq
    obtain ⟨hid, hlimit, hsuffix⟩ := key_inj (colon_notMem_sanitiseTenantId _)
      (colon_notMem_sanitiseTenantId _) heq
    rw [hlimit, suffix_eq_iff] at hsuffix
    exact ⟨(hown _ hmem himp hid).1, hlimit, hsuffix⟩
  · rintro ⟨htenant, hlimit, hmonth⟩
    rw [htenant, hlimit, Limit.key_eq, Limit.key_eq, (suffix_eq_iff _ _ _).mpr hmonth]

theorem gate_value {s : State} (h : Accounted s) {tenant : String}
    (hown : ∀ r ∈ s.requests, Own tenant r) (limit : Limit) (tier : String) :
    gateValue s limit (.forTenant tenant tier) = usageOf s limit fun r => r.tenant = tenant := by
  by_cases hdefault : sanitiseTenantId tenant = "default"
  · have hpre : (TenantContext.forTenant tenant tier).redisPrefix = "" := by
      simp only [TenantContext.forTenant, hdefault, ne_eq, not_true_eq_false, if_false]
    have hraw : s.redis.raw (limit.key "" s.now) = 0 := by
      rw [h.booked.values, sumAt, List.filter_eq_nil_iff.mpr]
      · rfl
      · intro u hu
        rw [decide_eq_true_eq, (h.booked.usages u hu).2]
        exact (key_ne_of_empty _ _ _ _ _).symm
    have hget : s.redis.get s.now (limit.key "" s.now) = 0 := by
      rw [Redis.raw] at hraw
      rw [Redis.get, Redis.live]
      cases hc : s.redis (limit.key "" s.now) with
      | none => rfl
      | some c =>
        rw [hc] at hraw
        rw [Option.filter_some]
        split
        · exact hraw
        · rfl
    rw [gateValue, hpre, hget, usageOf, List.filter_eq_nil_iff.mpr]
    · rfl
    · intro u hu hmem
      rw [Bool.and_eq_true, Bool.and_eq_true, decide_eq_true_eq] at hmem
      have hreq : u.request ∈ s.requests :=
        List.mem_append.mpr (Or.inr (List.mem_map_of_mem hu))
      have htenant := congrArg sanitiseTenantId hmem.1.1
      exact (hown _ hreq (h.booked.usages u hu).1 htenant).2 hdefault
  · rw [gateValue, redisPrefix_of_ne_default hdefault,
      h.booked.get_eq (colon_notMem_sanitiseTenantId _), sumAt,
      usageOf]
    have hsame : ∀ u ∈ s.recorded,
        decide (u.key = limit.key (space (sanitiseTenantId tenant)) s.now) =
          (decide (u.request.tenant = tenant) && decide (u.limit = limit) &&
            (decide (limit = .trial) || decide (yearMonth u.time = yearMonth s.now))) := by
      intro u hu
      rw [Bool.eq_iff_iff, decide_eq_true_eq, key_eq_iff h hown limit hu]
      simp [and_assoc]
    rw [List.filter_congr hsame]

theorem gateAgrees_of_accounted {s : State} (h : Accounted s) {tenant : String}
    (hown : ∀ r ∈ s.requests, Own tenant r) : GateAgrees tenant s := by
  refine ⟨gate_value h hown, ?_, fun u hu => (h.booked.usages u hu).1⟩
  intro u hu htenant
  obtain ⟨himp, hkey⟩ := h.booked.usages u hu
  have hmem : u.request ∈ s.requests :=
    List.mem_append.mpr (Or.inr (List.mem_map_of_mem hu))
  have hdefault := (hown _ hmem himp (congrArg sanitiseTenantId htenant)).2
  rw [hkey, u.request.context_eq.2, htenant, redisPrefix_of_ne_default hdefault]

/-- **The gate reads what was recorded for the tenant**, in every run that keeps its namespace
    apart. -/
theorem gateAgrees_of_keptApart (tenant : String) (now : Nat) (events : List Event)
    (h : ∀ e ∈ events, KeptApart tenant e) :
    Always step (GateAgrees tenant) (start now) events := by
  have hinv : Always step (fun s => Accounted s ∧ ∀ r ∈ s.requests, Own tenant r) (start now)
      events := by
    have hsteps : AllSteps step (fun _ e => KeptApart tenant e) (start now) events :=
      allSteps_of_forall fun e he _ => h e he
    refine always_of_allSteps ?_ ?_ hsteps
    · rintro s e s' ⟨hs, hown⟩ he hstep
      refine ⟨accounted_step hs hstep, ?_⟩
      intro r hr
      rcases requests_step hstep hr with hr | hr
      · exact hown r hr
      · exact he r hr
    · refine ⟨accounted_start now, ?_⟩
      intro r hr
      cases hr
  exact hinv.imp fun s hs => gateAgrees_of_accounted hs.1 hs.2

/-- From 29 February 2024 into March: two requests of `acme`, one of them batched, and one that
    the operator sent as `acme`. -/
def acmeRun : List Event :=
  [.served { keyTenantId := "acme" } (1 / 4) true, .task 0 (.counted true),
    .task 0 (.counted true), .task 0 (.counted false),
    .served { headerTenant := "acme", keyTenantId := "admin", keyIsAdmin := true } 5 true,
    .deferred { keyTenantId := "acme" } 0 true, .task 0 (.counted true), .pass 86400,
    .task 0 (.counted true), .answered 0 (1 / 2) (.counted true)]

theorem gateAgrees_acme :
    Always step (GateAgrees "acme") (start 1709164800) acmeRun ∧
      (exec step (start 1709164800) acmeRun).map (fun s =>
        (gateValue s .quota (.forTenant "acme" "free"), gateValue s .spend (.forTenant "acme" "free"),
          gateValue s .trial (.forTenant "acme" "free"))) = some (0, 1 / 2, 2) :=
  ⟨gateAgrees_of_keptApart "acme" 1709164800 acmeRun (by decide +kernel), by decide +kernel⟩

def defaultRun : List Event :=
  [.served { keyTenantId := "default" } 0 false, .task 0 (.counted true)]

/-- The default tenant's requests are counted where its gate does not look. -/
theorem not_gateAgrees_default : ¬ Always step (GateAgrees "default") (start 0) defaultRun := by
  intro h
  have hread : (exec step (start 0) defaultRun).map (fun s =>
      (gateValue s .quota (.forTenant "default" "free"),
        usageOf s .quota fun r => r.tenant = "default")) = some (0, 1) := by decide +kernel
  obtain ⟨s, hrun, heq⟩ := Option.map_eq_some_iff.mp hread
  obtain ⟨hgate, hused⟩ := Prod.mk.inj heq
  have hvalue := (h.last hrun).value .quota "free"
  rw [hgate, hused] at hvalue
  exact absurd hvalue (by decide)

end TokenProxy.Counters
