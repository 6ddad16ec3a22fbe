/-
  TokenProxy/BatchPoller.lean
  ===========================
  **The native batch pollers** (`poll_batch_jobs`, `start_batch_poller`,
  `_store_batch_result`, `_add_answer_cost` of `middleware/g13_batch.py`,
  `add_to_spend` of `middleware/g00_rate_limit.py`).

  Every worker process runs a poller over one Redis hash of outstanding jobs.  A
  pass reads the hash, and for each finished job fetches the provider's results,
  stores each one, adds its cost to the tenant's spend counter, and removes the
  job.  Each of these is an awaited step of its own, and nothing claims a job, so
  the steps of several pollers interleave freely and a pass can break off between
  any two of them.

  What the services answer comes in with the step.  `charges` lists the additions
  that the spend counters have received.
-/
import TokenProxy.Execution
import TokenProxy.PyJson

namespace TokenProxy.BatchPoller

/-! ## 1. Jobs, results, charges -/

/-- The counter that an answer's cost goes to, and the model it is priced at. -/
structure SpendOwed where
  spendPrefix : String
  model : Option String
deriving DecidableEq

structure JobInfo where
  provider : String
  tenantId : Option String
  requestIds : List String
  baselineTokens : Dict String Int
  spend : Dict String SpendOwed

/-- A value of the job hash: a record, or text that is no JSON. -/
inductive JobRecord where
  | unparsable
  | info (info : JobInfo)

abbrev JobIndex := Dict String JobRecord

inductive Outcome where
  | response (body : List (String × Json))
  | error (text : String)
deriving DecidableEq

structure BatchResult where
  requestId : Option String
  outcome : Outcome
deriving DecidableEq

inductive ResultDoc where
  | completed (response : Json) (baselineTokens : Int)
  | failed (error : String)
deriving DecidableEq

def ResultDoc.isCompleted : ResultDoc → Bool
  | .completed _ _ => true
  | .failed _ => false

/-- One addition to a spend counter: the cost of the answer at this place of the job's results. -/
structure Charge where
  job : String
  answer : Nat
  spendPrefix : String
  cost : ℚ
deriving DecidableEq

/-- The providers, and the price of an answer; `none` where pricing it raises. -/
structure Services where
  hasAdapter : String → Bool
  results : String → List BatchResult
  price : String → String → Json → Option ℚ

variable (svc : Services)

/-- The stored form of a response. -/
def markedResponse (requestId : String) (body : List (String × Json)) : Json :=
  (Json.obj body).set "_batch_request_id" (.str requestId)

/-- `_add_answer_cost`: what an answer adds to which counter, if anything. -/
def answerCharge (info : JobInfo) (requestId : String) (body : List (String × Json)) :
    Option (String × ℚ) := do
  let owed ← info.spend.get? requestId
  if owed.spendPrefix = "" then none
  else
    let cost ← svc.price info.provider (owed.model.getD "") (markedResponse requestId body)
    if 0 < cost then some (owed.spendPrefix, cost) else none

/-- `_store_batch_result`: a failure never replaces a completed answer. -/
def storeResult (stored : Dict String ResultDoc) (requestId : String) (doc : ResultDoc) :
    Dict String ResultDoc :=
  match doc with
  | .completed _ _ => stored.set requestId doc
  | .failed _ =>
    if (stored.get? requestId).any ResultDoc.isCompleted then stored else stored.set requestId doc

/-! ## 2. A pass -/

/-- The job in hand, and the jobs of the pass that come after it. -/
structure Work where
  job : String
  info : JobInfo
  rest : List (String × JobRecord)

/-- Where a poller is. -/
inductive Phase where
  | idle
  /-- At the head of the loop over the jobs. -/
  | scan (jobs : List (String × JobRecord))
  /-- About to resolve the key and ask for the job's status. -/
  | asking (w : Work)
  | fetching (w : Work)
  /-- About to store the first of these results. -/
  | answers (w : Work) (left : List (BatchResult × Nat))
  /-- About to add the cost of an answer just stored. -/
  | charging (w : Work) (requestId : String) (body : List (String × Json)) (answer : Nat)
      (left : List (BatchResult × Nat))
  /-- About to store a failure for the first of these requests. -/
  | missing (w : Work) (left : List String)
  /-- The same for a job that the provider did not complete. -/
  | failing (w : Work) (status : String) (left : List String)
  /-- About to remove a finished job. -/
  | dropping (w : Work)
  /-- About to remove a job that has no results. -/
  | discarding (job : String) (rest : List (String × JobRecord))

inductive BatchStatus where
  /-- No key at the moment, or the provider's call raised. -/
  | unavailable
  | pending
  | completed
  /-- Failed, expired or cancelled. -/
  | ended (status : String)
deriving DecidableEq

inductive Removal where
  | done
  /-- Removed, but the answer was lost, and the call raises. -/
  | unanswered
  | failed
deriving DecidableEq

/-- What the awaited call of a step came back with. -/
inductive Reply where
  /-- A step that awaits nothing. -/
  | proceed
  | index (read : Bool)
  | status (status : BatchStatus)
  | results (fetched : Bool)
  | stored (written : Bool)
  /-- How often the server applied the increment: not at all when it failed, and more than once
      when the client repeated it after a timeout (`retry_on_timeout`). -/
  | added (times : Nat)
  | removed (removal : Removal)
deriving DecidableEq

inductive Effect where
  | nothing
  | store (requestId : String) (doc : ResultDoc)
  | charge (charge : Charge) (times : Nat)
  | remove (job : String)

/-- The request ids that the results name. -/
def seenIds (results : List BatchResult) : List String :=
  (results.filterMap BatchResult.requestId).filter fun requestId => requestId ≠ ""

def storeIf (written : Bool) (requestId : String) (doc : ResultDoc) : Effect :=
  if written then .store requestId doc else .nothing

/-- `hdel`: a call that raises ends the pass. -/
def afterRemoval (job : String) (rest : List (String × JobRecord)) : Removal → Phase × Effect
  | .done => (.scan rest, .remove job)
  | .unanswered => (.idle, .remove job)
  | .failed => (.idle, .nothing)

/-- One result of a finished job. -/
def answerStep (w : Work) (answer : Nat) (left : List (BatchResult × Nat)) :
    BatchResult → Reply → Option (Phase × Effect)
  | ⟨none, _⟩, .proceed => some (.answers w left, .nothing)
  | ⟨some requestId, outcome⟩, reply =>
    if requestId = "" then
      if reply = .proceed then some (.answers w left, .nothing) else none
    else
      match outcome, reply with
      | .response body, .stored written =>
        some (.charging w requestId body answer left, storeIf written requestId
          (.completed (markedResponse requestId body)
            ((w.info.baselineTokens.get? requestId).getD 0)))
      | .error text, .stored written =>
        some (.answers w left, storeIf written requestId (.failed text))
      | _, _ => none
  | _, _ => none

/-- One step of a poller: where it goes, and what it does to Redis. -/
def move (index : JobIndex) : Phase → Reply → Option (Phase × Effect)
  | .idle, .index read => some (if read then .scan index.entries else .idle, .nothing)
  | .scan [], .proceed => some (.idle, .nothing)
  | .scan ((job, .unparsable) :: rest), .proceed => some (.discarding job rest, .nothing)
  | .scan ((job, .info info) :: rest), .proceed =>
    some (if svc.hasAdapter info.provider then .asking ⟨job, info, rest⟩
      else .discarding job rest, .nothing)
  | .asking w, .status .unavailable => some (.scan w.rest, .nothing)
  | .asking w, .status .pending => some (.scan w.rest, .nothing)
  | .asking w, .status .completed => some (.fetching w, .nothing)
  | .asking w, .status (.ended status) => some (.failing w status w.info.requestIds, .nothing)
  | .fetching w, .results fetched =>
    some (if fetched then .answers w (svc.results w.job).zipIdx else .scan w.rest, .nothing)
  | .answers w [], .proceed =>
    some (.missing w (w.info.requestIds.filter (· ∉ seenIds (svc.results w.job))), .nothing)
  | .answers w ((result, answer) :: left), reply => answerStep w answer left result reply
  | .charging w requestId body answer left, reply =>
    match answerCharge svc w.info requestId body, reply with
    | none, .proceed => some (.answers w left, .nothing)
    | some (spendPrefix, cost), .added times =>
      some (.answers w left, .charge ⟨w.job, answer, spendPrefix, cost⟩ times)
    | _, _ => none
  | .missing w [], .proceed => some (.dropping w, .nothing)
  | .missing w (requestId :: left), .stored written =>
    some (.missing w left, storeIf written requestId (.failed "missing from batch results"))
  | .failing w _ [], .proceed => some (.discarding w.job w.rest, .nothing)
  | .failing w status (requestId :: left), .stored written =>
    some (.failing w status left,
      storeIf written requestId (.failed ("batch job " ++ status)))
  | .dropping w, .removed removal => some (afterRemoval w.job w.rest removal)
  | .discarding job rest, .removed removal => some (afterRemoval job rest removal)
  | _, _ => none

/-! ## 3. The pollers together -/

variable {P : Type} [DecidableEq P]

structure State (P : Type) where
  index : JobIndex
  stored : Dict String ResultDoc
  charges : List Charge
  pollers : P → Phase

inductive Event (P : Type) where
  /-- A flush records a job that it has submitted. -/
  | record (job : String) (info : JobInfo)
  | act (p : P) (reply : Reply)
  /-- The worker process stops, or the pass raises; its poller starts over. -/
  | breakOff (p : P)

def Effect.apply (s : State P) : Effect → State P
  | .nothing => s
  | .store requestId doc => { s with stored := storeResult s.stored requestId doc }
  | .charge added times => { s with charges := s.charges ++ List.replicate times added }
  | .remove job => { s with index := s.index.erase job }

def State.at (s : State P) (p : P) (phase : Phase) : State P :=
  { s with pollers := Function.update s.pollers p phase }

/-- A provider never gives an id out twice, so a recorded job is neither outstanding nor billed. -/
def step (s : State P) : Event P → Option (State P)
  | .record job info =>
    if (s.index.get? job).isNone ∧ ∀ charge ∈ s.charges, charge.job ≠ job then
      some { s with index := s.index.set job (.info info) }
    else none
  | .act p reply =>
    (move svc s.index (s.pollers p) reply).map fun (phase, effect) =>
      (effect.apply s).at p phase
  | .breakOff p => some (s.at p .idle)

/-- The pollers start on the jobs that are outstanding. -/
def State.start (index : JobIndex) (stored : Dict String ResultDoc) : State P :=
  ⟨index, stored, [], fun _ => .idle⟩

/-- How often the cost of an answer has been added. -/
def State.timesCharged (s : State P) (job : String) (answer : Nat) : Nat :=
  s.charges.countP fun charge => charge.job = job ∧ charge.answer = answer

/-- The cost of each answer has been added at most once. -/
def BilledOnce (s : State P) : Prop := ∀ job answer, s.timesCharged job answer ≤ 1

/-! ## 4. A completed answer stays -/

def HasAnswer (stored : Dict String ResultDoc) (requestId : String) : Prop :=
  ∃ doc, stored.get? requestId = some doc ∧ doc.isCompleted = true

theorem hasAnswer_storeResult {stored : Dict String ResultDoc} {requestId : String}
    (h : HasAnswer stored requestId) (other : String) (doc : ResultDoc) :
    HasAnswer (storeResult stored other doc) requestId := by
  obtain ⟨old, hold, hcompleted⟩ := h
  by_cases hsame : requestId = other
  · subst hsame
    cases doc with
    | completed response baselineTokens => exact ⟨_, Dict.get?_set_self _ _ _, rfl⟩
    | failed error =>
      rw [storeResult, hold, Option.any_some, if_pos hcompleted]
      exact ⟨old, hold, hcompleted⟩
  · refine ⟨old, ?_, hcompleted⟩
    cases doc with
    | completed response baselineTokens =>
      rw [storeResult, Dict.get?_set_of_ne _ hsame, hold]
    | failed error =>
      rw [storeResult]
      split
      · exact hold
      · rw [Dict.get?_set_of_ne _ hsame, hold]

variable {svc}

theorem hasAnswer_step {s s' : State P} {e : Event P} {requestId : String}
    (h : HasAnswer s.stored requestId) (hstep : step svc s e = some s') :
    HasAnswer s'.stored requestId := by
  cases e with
  | record job info =>
    rw [step] at hstep
    split at hstep
    · cases hstep
      exact h
    · cases hstep
  | breakOff p =>
    cases hstep
    exact h
  | act p reply =>
    obtain ⟨⟨phase, effect⟩, -, rfl⟩ := Option.map_eq_some_iff.mp hstep
    cases effect with
    | store other doc => exact hasAnswer_storeResult h other doc
    | _ => exact h

/-- No run replaces a completed answer by a failure. -/
theorem hasAnswer_run {s s' : State P} {events : List (Event P)} {requestId : String}
    (h : HasAnswer s.stored requestId) (hrun : Execution.exec (step svc) s events = some s') :
    HasAnswer s'.stored requestId :=
  Execution.exec_invariant (P := fun s => HasAnswer s.stored requestId)
    (fun _ _ _ hs hstep => hasAnswer_step hs hstep) h hrun

end TokenProxy.BatchPoller
