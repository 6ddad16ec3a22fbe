/-
  TokenProxy/LoopControl.lean
  ===========================
  **The limits of an agent loop: the turns of a workflow and the time since its first one.**

  Source: `middleware/g17_loop_control.py` (`G17LoopControl.process_request`, for a request with
  a workflow id while Redis answers).

  Redis holds two keys for a workflow.  The turn counter is given a new hour on every turn; the
  start time is written once, with an hour, and never again while it is there.  While turns come
  less than an hour apart the counter therefore counts them all, and the start time is that of the
  last turn that found none: `seen` is the workflow as these two keys tell it, and `run_eq_seen`
  says that the code marks a turn by them.

  The iteration limit always stops the loop.  The wall-clock limit does exactly when it is
  negative or no turn comes both an hour and the limit after the first one
  (`staysStopped_iff`): the start time is gone by then, and the turn that writes a new one starts
  the clock again.

  A turn takes one moment of the clock, which the process and Redis share.
-/
import TokenProxy.ExpiringKeys
import Mathlib.Algebra.Order.Ring.Rat
import Mathlib.Data.List.Chain
import Mathlib.Tactic.Linarith

namespace TokenProxy.LoopControl

open ExpiringKeys

/-! ## 1. A turn -/

/-- `_scoped` with `_TURN_PREFIX`. -/
def turnKey (redisPrefix workflow : String) : String := redisPrefix ++ "tok_opt:turns:" ++ workflow

/-- `_scoped` with `_START_TIME_PREFIX`. -/
def startTimeKey (redisPrefix workflow : String) : String :=
  redisPrefix ++ "tok_opt:start_time:" ++ workflow

structure LoopConfig where
  maxIterations : ℚ := 10
  startingBudget : ℤ := 10000
  confidenceThreshold : ℚ := 95 / 100
  wallClockTimeout : ℚ := 300

/-- A text in Redis: the number that `str(time.time())` wrote, or the one that `INCR` counts. -/
inductive Value where
  | time (t : ℚ)
  | count (n : ℕ)

/-- `float(raw)`. -/
def Value.toFloat : Value → ℚ
  | .time t => t
  | .count n => n

abbrev Redis := Store String Value ℚ

structure Turn where
  now : ℚ
  tokensBefore : ℤ := 0
  confidence : Option ℚ := none

inductive StopReason where
  | wallClockTimeout (elapsed limit : ℚ)
  | maxIterations (count : ℕ) (limit : ℚ)
  | confidenceThreshold (score threshold : ℚ)
deriving DecidableEq

/-- An entry of `_token_opt_warnings`: a stop reason, or
    `Loop limit reached (count/limit turns)`. -/
inductive Warning where
  | stopped (reason : StopReason)
  | loopLimitReached (count : ℕ) (limit : ℚ)
deriving DecidableEq

/-- What a turn leaves in the request's parameters. -/
structure Marks where
  loopLimitReached : Bool := false
  warnings : List Warning := []
  stopReason : Option StopReason := none

def Marks.mark (marks : Marks) (reason : StopReason) (warning : Warning) : Marks :=
  ⟨true, marks.warnings ++ [warning], some reason⟩

def checkWallClock (cfg : LoopConfig) (elapsed : ℚ) (marks : Marks) : Marks :=
  if cfg.wallClockTimeout < elapsed then
    marks.mark (.wallClockTimeout elapsed cfg.wallClockTimeout)
      (.stopped (.wallClockTimeout elapsed cfg.wallClockTimeout))
  else marks

def checkIterations (cfg : LoopConfig) (count : ℕ) (marks : Marks) : Marks :=
  if cfg.maxIterations < count then
    marks.mark (marks.stopReason.getD (.maxIterations count cfg.maxIterations))
      (.loopLimitReached count cfg.maxIterations)
  else marks

def checkConfidence (cfg : LoopConfig) (confidence : Option ℚ) (marks : Marks) : Marks :=
  match confidence with
  | some score =>
    if cfg.confidenceThreshold ≤ score then
      let reason := marks.stopReason.getD (.confidenceThreshold score cfg.confidenceThreshold)
      marks.mark reason (.stopped reason)
    else marks
  | none => marks

/-- The three checks of a turn. -/
def checks (cfg : LoopConfig) (count : ℕ) (elapsed : ℚ) (confidence : Option ℚ) : Marks :=
  checkConfidence cfg confidence (checkIterations cfg count (checkWallClock cfg elapsed {}))

/-- Marked as over the loop limit. -/
def Marks.OverLimit (marks : Marks) : Prop :=
  marks.loopLimitReached = true ∧ ∃ count limit, .loopLimitReached count limit ∈ marks.warnings

/-- Marked as timed out. -/
def Marks.TimedOut (marks : Marks) : Prop :=
  marks.loopLimitReached = true ∧
    ∃ elapsed limit, .stopped (.wallClockTimeout elapsed limit) ∈ marks.warnings

/-- The confidence adds the stop reason there is, or one of its own, if it adds any. -/
theorem checkConfidence_eq (cfg : LoopConfig) (confidence : Option ℚ) (marks : Marks) :
    checkConfidence cfg confidence marks = marks ∨
      ∃ score reason, reason = marks.stopReason.getD (.confidenceThreshold score
        cfg.confidenceThreshold) ∧
        checkConfidence cfg confidence marks = marks.mark reason (.stopped reason) := by
  cases confidence with
  | none => exact Or.inl rfl
  | some score =>
    simp only [checkConfidence]
    split
    · exact Or.inr ⟨score, _, rfl, rfl⟩
    · exact Or.inl rfl

theorem checks_overLimit_iff {cfg : LoopConfig} {count : ℕ} {elapsed : ℚ}
    {confidence : Option ℚ} :
    (checks cfg count elapsed confidence).OverLimit ↔ cfg.maxIterations < count := by
  have hwall : ∀ c l, Warning.loopLimitReached c l ∉ (checkWallClock cfg elapsed {}).warnings := by
    intro c l
    rw [checkWallClock]
    split <;> simp [Marks.mark]
  rw [checks]
  generalize checkWallClock cfg elapsed {} = marks at hwall
  by_cases hcount : cfg.maxIterations < count
  · refine iff_of_true ?_ hcount
    rw [checkIterations, if_pos hcount]
    rcases checkConfidence_eq cfg confidence (marks.mark _ _) with h | ⟨score, reason, -, h⟩
    · rw [h]
      exact ⟨rfl, count, cfg.maxIterations, by simp [Marks.mark]⟩
    · rw [h]
      exact ⟨rfl, count, cfg.maxIterations, by simp [Marks.mark]⟩
  · refine iff_of_false (fun hover => ?_) hcount
    obtain ⟨c, l, hmem⟩ := hover.2
    rw [checkIterations, if_neg hcount] at hmem
    rcases checkConfidence_eq cfg confidence marks with h | ⟨score, reason, -, h⟩
    · rw [h] at hmem
      exact hwall c l hmem
    · rw [h] at hmem
      simp [Marks.mark, hwall] at hmem

theorem checkIterations_eq (cfg : LoopConfig) (count : ℕ) (marks : Marks) :
    checkIterations cfg count marks = marks ∨
      checkIterations cfg count marks =
        marks.mark (marks.stopReason.getD (.maxIterations count cfg.maxIterations))
          (.loopLimitReached count cfg.maxIterations) := by
  rw [checkIterations]
  split
  · exact Or.inr rfl
  · exact Or.inl rfl

theorem checks_timedOut_iff {cfg : LoopConfig} {count : ℕ} {elapsed : ℚ}
    {confidence : Option ℚ} :
    (checks cfg count elapsed confidence).TimedOut ↔ cfg.wallClockTimeout < elapsed := by
  rw [checks]
  by_cases htimeout : cfg.wallClockTimeout < elapsed
  · refine iff_of_true ?_ htimeout
    rw [checkWallClock, if_pos htimeout]
    refine ⟨?_, elapsed, cfg.wallClockTimeout, ?_⟩ <;>
      rcases checkConfidence_eq cfg confidence (checkIterations cfg count _) with
        h | ⟨score, reason, -, h⟩ <;>
      rcases checkIterations_eq cfg count (Marks.mark {} _ _) with h' | h' <;>
      rw [h, h'] <;> simp [Marks.mark]
  · refine iff_of_false (fun hout => ?_) htimeout
    obtain ⟨e, l, hmem⟩ := hout.2
    rw [checkWallClock, if_neg htimeout] at hmem
    rcases checkConfidence_eq cfg confidence (checkIterations cfg count {}) with
      h | ⟨score, reason, hreason, h⟩
    · rw [h] at hmem
      rcases checkIterations_eq cfg count {} with h' | h' <;> rw [h'] at hmem <;>
        simp [Marks.mark] at hmem
    · rw [h, hreason] at hmem
      rcases checkIterations_eq cfg count {} with h' | h' <;> rw [h'] at hmem <;>
        simp [Marks.mark] at hmem

/-- `InterAgentState`. -/
structure InterAgentState where
  tokenBudgetRemaining : ℤ
  workflowTurn : ℕ
  maxIterations : ℚ
  confidenceScore : Option ℚ
  wallClockElapsed : ℚ
  stopReason : Option StopReason

/-- What a turn is marked with, and the state it passes on. -/
structure Outcome where
  marks : Marks := {}
  state : Option InterAgentState := none

def outcome (cfg : LoopConfig) (turn : Turn) (count : ℕ) (elapsed : ℚ) : Outcome :=
  let marks := checks cfg count elapsed turn.confidence
  ⟨marks, some {
    tokenBudgetRemaining := max 0 (cfg.startingBudget - turn.tokensBefore)
    workflowTurn := count
    maxIterations := cfg.maxIterations
    confidenceScore := turn.confidence
    wallClockElapsed := elapsed
    stopReason := marks.stopReason }⟩

/-- What `INCR` makes of the counter; `none` where the text is no integer and it fails. -/
def incremented : Option Value → Option ℕ
  | none => some 1
  | some (.count n) => some (n + 1)
  | some (.time _) => none

/-- The start time, written now where there is none. -/
def startTime (redis : Redis) (key : String) (now : ℚ) : Redis × ℚ :=
  match redis.get now key with
  | none => (redis.set now key (.time now) 3600, now)
  | some raw => (redis, raw.toFloat)

/-- `process_request`. -/
def processRequest (cfg : LoopConfig) (redisPrefix workflow : String) (redis : Redis)
    (turn : Turn) : Redis × Outcome :=
  let started := startTime redis (startTimeKey redisPrefix workflow) turn.now
  let key := turnKey redisPrefix workflow
  match incremented (started.1.get turn.now key) with
  | some count =>
    ((started.1.update turn.now key fun _ => .count count).expire turn.now key 3600,
      outcome cfg turn count (turn.now - started.2))
  -- the `except`
  | none => (started.1, {})

/-- The turns of a workflow, each with what it is marked with. -/
def run (cfg : LoopConfig) (redisPrefix workflow : String) : Redis → List Turn →
    List (Turn × Outcome)
  | _, [] => []
  | redis, turn :: rest =>
    let processed := processRequest cfg redisPrefix workflow redis turn
    (turn, processed.2) :: run cfg redisPrefix workflow processed.1 rest

/-! ## 2. The workflow as its two keys tell it -/

/-- A turn, how many there have been, and the start time it is measured from. -/
structure Seen where
  turn : Turn
  count : ℕ
  start : ℚ

/-- The start time at a turn: the one before, for an hour. -/
def startAt (start now : ℚ) : ℚ := if now < start + 3600 then start else now

def seen (count : ℕ) (start : ℚ) : List Turn → List Seen
  | [] => []
  | turn :: rest =>
    ⟨turn, count + 1, startAt start turn.now⟩ :: seen (count + 1) (startAt start turn.now) rest

/-- How the code marks what was seen. -/
def Seen.marked (cfg : LoopConfig) (s : Seen) : Turn × Outcome :=
  (s.turn, outcome cfg s.turn s.count (s.turn.now - s.start))

/-- Each turn comes less than an hour after the one before. -/
def WithinHour : List Turn → Prop :=
  List.IsChain fun a b => a.now ≤ b.now ∧ b.now < a.now + 3600

/-- The keys after the turn at `last`: the counter, renewed then, and the start time. -/
structure Holds (redisPrefix workflow : String) (redis : Redis) (last : ℚ) (count : ℕ)
    (start : ℚ) : Prop where
  counter : redis (turnKey redisPrefix workflow) = some ⟨.count count, some (last + 3600)⟩
  startTime : redis (startTimeKey redisPrefix workflow) = some ⟨.time start, some (start + 3600)⟩

theorem startTimeKey_ne_turnKey (redisPrefix workflow : String) :
    startTimeKey redisPrefix workflow ≠ turnKey redisPrefix workflow := by
  intro h
  have hlengths := congrArg String.length h
  rw [startTimeKey, turnKey, String.length_append, String.length_append, String.length_append,
    String.length_append] at hlengths
  have hstart : "tok_opt:start_time:".length = 19 := by decide
  have hturns : "tok_opt:turns:".length = 14 := by decide
  omega

variable {cfg : LoopConfig} {redisPrefix workflow : String} {redis : Redis}

theorem startTime_of_none {key : String} {now : ℚ} (h : redis.get now key = none) :
    startTime redis key now = (redis.set now key (.time now) 3600, now) := by
  rw [startTime, h]

theorem startTime_of_some {key : String} {now : ℚ} {raw : Value}
    (h : redis.get now key = some raw) : startTime redis key now = (redis, raw.toFloat) := by
  rw [startTime, h]

/-- The start time is read, or written where it has expired, and the counter is left alone. -/
theorem startTime_spec {last start : ℚ} {count : ℕ}
    (h : Holds redisPrefix workflow redis last count start) (now : ℚ) :
    ∃ redis', startTime redis (startTimeKey redisPrefix workflow) now =
        (redis', startAt start now) ∧
      Holds redisPrefix workflow redis' last count (startAt start now) := by
  have hget : redis.get now (startTimeKey redisPrefix workflow) =
      if now < start + 3600 then some (.time start) else none := get_of_eq_some h.startTime
  rw [startAt]
  by_cases hlive : now < start + 3600
  · rw [if_pos hlive] at hget ⊢
    exact ⟨redis, startTime_of_some hget, h⟩
  · rw [if_neg hlive] at hget ⊢
    refine ⟨_, startTime_of_none hget, ?_, set_self⟩
    rw [set_of_ne (startTimeKey_ne_turnKey redisPrefix workflow).symm]
    exact h.counter

/-- A turn that finds its counter to be `count - 1`, with the start time in hand. -/
theorem processRequest_of_startTime (cfg : LoopConfig) {turn : Turn} {redis' : Redis}
    {count : ℕ} {start : ℚ}
    (hstart : startTime redis (startTimeKey redisPrefix workflow) turn.now = (redis', start))
    (hcount : incremented (redis'.get turn.now (turnKey redisPrefix workflow)) = some count)
    (hkey : redis' (startTimeKey redisPrefix workflow) = some ⟨.time start, some (start + 3600)⟩) :
    (processRequest cfg redisPrefix workflow redis turn).2 =
        outcome cfg turn count (turn.now - start) ∧
      Holds redisPrefix workflow (processRequest cfg redisPrefix workflow redis turn).1 turn.now
        count start := by
  have hprocess : processRequest cfg redisPrefix workflow redis turn =
      ((redis'.update turn.now (turnKey redisPrefix workflow) fun _ => .count count).expire
        turn.now (turnKey redisPrefix workflow) 3600,
        outcome cfg turn count (turn.now - start)) := by
    rw [processRequest, hstart]
    simp only [hcount]
  rw [hprocess]
  refine ⟨rfl, expire_update_self, ?_⟩
  have hne := startTimeKey_ne_turnKey redisPrefix workflow
  exact ((expire_of_ne hne).trans (update_of_ne hne)).trans hkey

theorem run_eq_seen {turn : Turn} {turns : List Turn} {count : ℕ} {start : ℚ}
    (h : Holds redisPrefix workflow redis turn.now count start)
    (hgaps : WithinHour (turn :: turns)) :
    run cfg redisPrefix workflow redis turns = (seen count start turns).map (Seen.marked cfg) := by
  induction turns generalizing redis turn count start with
  | nil => rfl
  | cons next rest ih =>
    obtain ⟨⟨-, hgap⟩, hrest⟩ := List.isChain_cons_cons.mp hgaps
    obtain ⟨redis', hstart, hholds⟩ := startTime_spec h next.now
    have hcounter : redis'.get next.now (turnKey redisPrefix workflow) = some (.count count) :=
      (get_of_eq_some hholds.counter).trans (if_pos hgap)
    obtain ⟨hmarks, hnext⟩ := processRequest_of_startTime cfg hstart
      (congrArg incremented hcounter) hholds.startTime
    rw [run, seen, List.map_cons, hmarks, ih hnext hrest]
    rfl

/-- The keys of the workflow are not there: the next turn is its first. -/
structure NoKeys (redisPrefix workflow : String) (redis : Redis) : Prop where
  counter : redis (turnKey redisPrefix workflow) = none
  startTime : redis (startTimeKey redisPrefix workflow) = none

theorem run_first (cfg : LoopConfig) {first : Turn} {turns : List Turn}
    (h : NoKeys redisPrefix workflow redis) (hgaps : WithinHour (first :: turns)) :
    run cfg redisPrefix workflow redis (first :: turns) =
      (⟨first, 1, first.now⟩ :: seen 1 first.now turns).map (Seen.marked cfg) := by
  have hne := startTimeKey_ne_turnKey redisPrefix workflow
  have hnone : redis.get first.now (startTimeKey redisPrefix workflow) = none :=
    get_of_eq_none h.startTime
  have hstart := startTime_of_none hnone
  have hcounter : (redis.set first.now (startTimeKey redisPrefix workflow) (.time first.now)
      3600).get first.now (turnKey redisPrefix workflow) = none :=
    get_of_eq_none ((set_of_ne hne.symm).trans h.counter)
  obtain ⟨hmarks, hnext⟩ := processRequest_of_startTime cfg hstart
    (congrArg incremented hcounter) set_self
  rw [run, List.map_cons, hmarks, run_eq_seen hnext hgaps]
  rfl

/-! ## 3. What was seen -/

theorem seen_count {turns : List Turn} {count i : ℕ} {start : ℚ} {s : Seen}
    (h : (seen count start turns)[i]? = some s) : s.count = count + 1 + i := by
  induction turns generalizing count i start with
  | nil => cases h
  | cons turn rest ih =>
    cases i with
    | zero =>
      cases h
      rfl
    | succ i =>
      rw [ih h]
      omega

theorem seen_turn {turns : List Turn} {count : ℕ} {start : ℚ} {s : Seen}
    (h : s ∈ seen count start turns) : s.turn ∈ turns := by
  induction turns generalizing count start with
  | nil => cases h
  | cons turn rest ih =>
    rcases List.mem_cons.mp h with rfl | h
    · exact List.mem_cons_self
    · exact List.mem_cons_of_mem turn (ih h)

theorem startAt_of_lt {start now : ℚ} (h : now < start + 3600) : startAt start now = start :=
  if_pos h

theorem startAt_of_le {start now : ℚ} (h : start + 3600 ≤ now) : startAt start now = now :=
  if_neg (not_lt.mpr h)

theorem startAt_le {start now : ℚ} (h : start ≤ now) : startAt start now ≤ now := by
  rw [startAt]
  split
  · exact h
  · exact le_rfl

theorem lt_startAt (start now : ℚ) : now < startAt start now + 3600 := by
  rw [startAt]
  split
  · assumption
  · linarith

def Sorted (turns : List Turn) : Prop := turns.Pairwise fun a b => a.now ≤ b.now

/-- A turn is measured from less than an hour before it. -/
theorem seen_start {turns : List Turn} {count : ℕ} {start : ℚ} {s : Seen} (hsorted : Sorted turns)
    (hstart : ∀ turn ∈ turns, start ≤ turn.now) (h : s ∈ seen count start turns) :
    s.start ≤ s.turn.now ∧ s.turn.now < s.start + 3600 := by
  induction turns generalizing count start with
  | nil => cases h
  | cons turn rest ih =>
    obtain ⟨hfirst, hrest⟩ := List.pairwise_cons.mp hsorted
    have hle := startAt_le (hstart turn List.mem_cons_self)
    rcases List.mem_cons.mp h with rfl | h
    · exact ⟨hle, lt_startAt start turn.now⟩
    · exact ih hrest (fun other hother => hle.trans (hfirst other hother)) h

/-- Within an hour of the start time it is not written anew. -/
theorem seen_start_eq {turns : List Turn} {count : ℕ} {start : ℚ} {s : Seen}
    (hsorted : Sorted turns) (h : s ∈ seen count start turns)
    (hhour : s.turn.now < start + 3600) : s.start = start := by
  induction turns generalizing count start with
  | nil => cases h
  | cons turn rest ih =>
    obtain ⟨hfirst, hrest⟩ := List.pairwise_cons.mp hsorted
    rcases List.mem_cons.mp h with rfl | h
    · exact startAt_of_lt hhour
    · have hturn : turn.now < start + 3600 := (hfirst s.turn (seen_turn h)).trans_lt hhour
      rw [startAt_of_lt hturn] at h
      exact ih hrest h hhour

/-- Where a turn comes an hour or more after the start time, one of those is measured from
    itself. -/
theorem exists_restart {turns : List Turn} (count : ℕ) {start : ℚ} {turn : Turn}
    (h : turn ∈ turns) (hhour : start + 3600 ≤ turn.now) :
    ∃ s ∈ seen count start turns, start + 3600 ≤ s.turn.now ∧ s.start = s.turn.now := by
  induction turns generalizing count start with
  | nil => cases h
  | cons first rest ih =>
    rcases lt_or_ge first.now (start + 3600) with hlive | hexpired
    · have hne : turn ≠ first := by
        rintro rfl
        exact absurd hhour (not_le.mpr hlive)
      have hkept := startAt_of_lt hlive
      obtain ⟨s, hs, hs'⟩ := ih (count + 1) ((List.mem_cons.mp h).resolve_left hne) hhour
      refine ⟨s, List.mem_cons_of_mem _ ?_, hs'⟩
      rw [hkept]
      exact hs
    · exact ⟨_, List.mem_cons_self, hexpired, startAt_of_le hexpired⟩

/-! ## 4. The limits -/

/-- A turn at which the wall-clock limit is over, counted from the workflow's first turn, is
    measured as over it. -/
def ClockHolds (timeout first : ℚ) (turns : List Seen) : Prop :=
  ∀ s ∈ turns, timeout < s.turn.now - first → timeout < s.turn.now - s.start

/-- No turn comes both an hour and the limit after the first one, or the limit is negative. -/
def WithinLimits (timeout first : ℚ) (turns : List Turn) : Prop :=
  timeout < 0 ∨ ∀ turn ∈ turns, turn.now < first + 3600 ∨ turn.now - first ≤ timeout

theorem exists_seen {turns : List Turn} (count : ℕ) (start : ℚ) {turn : Turn} (h : turn ∈ turns) :
    ∃ s ∈ seen count start turns, s.turn = turn := by
  induction turns generalizing count start with
  | nil => cases h
  | cons first rest ih =>
    rcases List.mem_cons.mp h with rfl | h
    · exact ⟨_, List.mem_cons_self, rfl⟩
    · obtain ⟨s, hs, hturn⟩ := ih (count + 1) (startAt start first.now) h
      exact ⟨s, List.mem_cons_of_mem _ hs, hturn⟩

theorem clockHolds_iff {timeout first : ℚ} {turns : List Turn} {count : ℕ}
    (hsorted : Sorted turns) (hfirst : ∀ turn ∈ turns, first ≤ turn.now) :
    ClockHolds timeout first (seen count first turns) ↔ WithinLimits timeout first turns := by
  constructor
  · intro h
    by_contra hout
    obtain ⟨hnonneg, hlate⟩ := not_or.mp hout
    simp only [not_lt, not_forall, not_or, not_le, exists_prop] at hnonneg hlate
    obtain ⟨turn, hturn, hhour, hlimit⟩ := hlate
    rcases lt_or_ge timeout 3600 with hshort | hlong
    · -- the first turn without a start time is measured from itself
      obtain ⟨s, hs, hs', hstart⟩ := exists_restart count hturn hhour
      have hover := h s hs (by linarith)
      rw [hstart, sub_self] at hover
      linarith
    · -- no turn is ever measured from an hour ago
      obtain ⟨s, hs, rfl⟩ := exists_seen count first hturn
      have hover := h s hs hlimit
      have hmeasured := (seen_start hsorted hfirst hs).2
      linarith
  · rintro (hneg | hwithin) s hs hover
    · have hmeasured := (seen_start hsorted hfirst hs).1
      linarith
    · rcases hwithin s.turn (seen_turn hs) with hhour | hlimit
      · rw [seen_start_eq hsorted hs hhour]
        exact hover
      · exact absurd hover (not_lt.mpr hlimit)

/-- Every turn after the limit is marked as over it, and every turn later than the timeout after
    the first one as timed out. -/
structure StaysStopped (cfg : LoopConfig) (first : ℚ) (marked : List (Turn × Outcome)) : Prop where
  loops : ∀ (i : ℕ) turn outcome, marked[i]? = some (turn, outcome) →
    cfg.maxIterations < (i + 1 : ℕ) → outcome.marks.OverLimit
  timeouts : ∀ turn outcome, (turn, outcome) ∈ marked →
    cfg.wallClockTimeout < turn.now - first → outcome.marks.TimedOut

theorem WithinHour.sorted {turns : List Turn} (h : WithinHour turns) : Sorted turns := by
  have htimes : (turns.map Turn.now).IsChain (· ≤ ·) :=
    List.isChain_map_of_isChain Turn.now (fun _ _ hab => hab.1) h
  exact List.pairwise_map.mp htimes.pairwise

theorem timeouts_iff {cfg : LoopConfig} {first : ℚ} {turns : List Seen} :
    (∀ turn outcome, (turn, outcome) ∈ turns.map (Seen.marked cfg) →
      cfg.wallClockTimeout < turn.now - first → outcome.marks.TimedOut) ↔
      ClockHolds cfg.wallClockTimeout first turns := by
  constructor
  · intro h s hs hlate
    exact checks_timedOut_iff.mp (h _ _ (List.mem_map_of_mem hs) hlate)
  · intro h turn outcome hmem hlate
    obtain ⟨s, hs, hmarked⟩ := List.mem_map.mp hmem
    cases hmarked
    exact checks_timedOut_iff.mpr (h s hs hlate)

/-- For turns less than an hour apart: the loop stays stopped exactly when no turn comes both an
    hour and the wall-clock limit after the first one, or that limit is negative. -/
theorem staysStopped_iff (cfg : LoopConfig) {first : Turn} {turns : List Turn}
    (h : NoKeys redisPrefix workflow redis) (hgaps : WithinHour (first :: turns)) :
    StaysStopped cfg first.now (run cfg redisPrefix workflow redis (first :: turns)) ↔
      WithinLimits cfg.wallClockTimeout first.now turns := by
  obtain ⟨hfirst, hsorted⟩ := List.pairwise_cons.mp hgaps.sorted
  rw [run_first cfg h hgaps, ← clockHolds_iff hsorted hfirst]
  constructor
  · intro hstopped s hs hlate
    have hclock := timeouts_iff.mp hstopped.timeouts
    exact hclock s (List.mem_cons_of_mem _ hs) hlate
  · intro hclock
    refine ⟨fun i turn outcome hmarked hlimit => ?_, timeouts_iff.mpr ?_⟩
    · rw [List.getElem?_map] at hmarked
      obtain ⟨s, hs, hturn⟩ := Option.map_eq_some_iff.mp hmarked
      cases hturn
      refine checks_overLimit_iff.mpr ?_
      cases i with
      | zero =>
        cases hs
        exact hlimit
      | succ i =>
        rw [seen_count hs]
        have hcount : 1 + 1 + i = i + 1 + 1 := by omega
        rw [hcount]
        exact hlimit
    · intro s hs hlate
      rcases List.mem_cons.mp hs with rfl | hs
      · exact hlate
      · exact hclock s hs hlate

/-! ## 5. Two workflows -/

def turnAt (now : ℚ) : Turn := { now := now }

theorem staysStopped_short :
    StaysStopped {} 0 (run {} "" "flow" (fun _ => none) [turnAt 0, turnAt 1000]) := by
  have hgaps : WithinHour [turnAt 0, turnAt 1000] :=
    List.isChain_cons_cons.mpr ⟨by norm_num [turnAt], List.isChain_singleton _⟩
  refine (staysStopped_iff {} ⟨rfl, rfl⟩ hgaps).mpr (Or.inr fun turn hturn => Or.inl ?_)
  rw [List.mem_singleton.mp hturn]
  norm_num [turnAt]

/-- The turn at 4000 finds no start time, and is not marked as timed out. -/
theorem not_staysStopped :
    ¬ StaysStopped {} 0 (run {} "" "flow" (fun _ => none)
      [turnAt 0, turnAt 3000, turnAt 4000]) := by
  have hgaps : WithinHour [turnAt 0, turnAt 3000, turnAt 4000] :=
    List.isChain_cons_cons.mpr ⟨by norm_num [turnAt],
      List.isChain_cons_cons.mpr ⟨by norm_num [turnAt], List.isChain_singleton _⟩⟩
  intro h
  rw [run_first {} ⟨rfl, rfl⟩ hgaps] at h
  have hclock := timeouts_iff.mp h.timeouts
  have hlast := hclock ⟨turnAt 4000, 3, 4000⟩ (by
    norm_num [seen, startAt, turnAt]) (by norm_num [turnAt])
  norm_num [turnAt] at hlast

end TokenProxy.LoopControl
