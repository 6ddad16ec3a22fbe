/-
  TokenProxy/BatchWorker.lean
  ===========================
  **The batch workers** (`start_batch_consumer`, `_flush_held`, `_flush_batch`,
  `_flush_batch_native`, `_flush_batch_loop`, `_record_batch_job`,
  `_reclaim_stale_pel` of `middleware/g13_batch.py`).

  Deferred requests are entries of Redis streams, read by a consumer group: a
  delivered entry stays pending until some worker acknowledges it.  A worker reads
  new entries and flushes them stream by stream, or sweeps: it claims entries that
  another worker left pending, settles those with nothing left to do, and flushes
  the rest again.  A flush answers each item in turn (the loop lane) or submits
  each group as a native batch job; when it returns, its entries are acknowledged.

  The steps of the workers interleave.  What a provider, a key lookup or Redis
  answers comes in with the step, failures included; why a group takes the loop
  lane, and which pending entries count as stale, is left to the step.  What the
  poller makes of a recorded job is `BatchPoller.lean`; that results expire is not
  modelled, nor the deletion of acknowledged entries and of idle consumers.
-/
import TokenProxy.BatchPoller
import TokenProxy.KeyStore

namespace TokenProxy.BatchWorker

open BatchPoller (ResultDoc storeResult markedResponse)
open KeyStore (Builtins)

/-! ## 1. Entries, items, jobs -/

/-- A stream, and the number of an entry on it. -/
abbrev EntryId := String × Nat

/-- The fields of an entry: `payload` may be missing, or text that is no JSON. -/
inductive Fields where
  | noPayload
  | unparsable
  | payload (item : Json)
deriving DecidableEq

structure Config where
  py : Builtins
  native : Bool
  defaultModel : String
  maxAttempts : Nat
  /-- `get_adapter(model, providers).name`; `none` where it raises -/
  adapterName : Json → Option String

/-- `item.get("request_id")`. -/
def requestId (item : Json) : Json := item.getD "request_id" .null

/-- The batch id that an item's result is stored under, when it has one. -/
def batchId (py : Builtins) (item : Json) : Option String := (item.get? "request_id").map py.str

def Fields.batchId (py : Builtins) : Fields → Option String
  | .payload item => BatchWorker.batchId py item
  | _ => none

/-- A record of `_BATCH_JOBS_KEY`. -/
structure Job where
  provider : String
  tenantId : Json
  requestIds : List Json
  baselineTokens : List (Json × Json)
  /-- the counter that an answer's cost goes to, and the model it is priced at -/
  spend : List (Json × Json × Json)

def jobOf (provider : String) (tenantId : Json) (items : List Json) : Job where
  provider := provider
  tenantId := tenantId
  requestIds := items.map requestId
  baselineTokens := items.map fun item => (requestId item, item.getD "baseline_tokens" (.int 0))
  spend := (items.filter fun item => (item.getD "spend_prefix" .null).truthy).map fun item =>
    (requestId item, item.getD "spend_prefix" .null, item.getD "model" .null)

/-- The job record names the batch id. -/
def Job.Contains (py : Builtins) (job : Job) (name : String) : Prop :=
  name ∈ job.requestIds.map py.str

/-- The items of one provider and one tenant. -/
structure Group where
  provider : String
  tenantId : Json
  items : List Json

/-- `groups.setdefault((provider, tenant), []).append(item)`. -/
def addToGroups (provider : String) (tenantId item : Json) : List Group → List Group
  | [] => [⟨provider, tenantId, [item]⟩]
  | group :: groups =>
    if group.provider = provider ∧ group.tenantId.dictKey? = tenantId.dictKey? then
      { group with items := group.items ++ [item] } :: groups
    else group :: addToGroups provider tenantId item groups

variable (cfg : Config)

/-- The grouping loop of `_flush_batch_native`; `none` where it raises: the item is no dict,
    its model has no adapter, its tenant is not hashable. -/
def groupItems : List Group → List Json → Option (List Group)
  | groups, [] => some groups
  | groups, item :: items => do
    let fields ← item.fields?
    let provider ← cfg.adapterName ((Assoc.lookup "model" fields).getD (.str cfg.defaultModel))
    let tenantId := item.getD "tenant_id" (.str "default")
    let _ ← tenantId.dictKey?
    groupItems (addToGroups provider tenantId item groups) items

/-- The loop lane raises on this item before it has handled it: `item.get`, `model.lower()`. -/
def loopRaises (item : Json) : Bool :=
  !item.isObj || (item.getD "model" (.str cfg.defaultModel)).str?.isNone

/-- What comes of one item in the loop lane; `written` says whether Redis took the result. -/
inductive ItemOutcome where
  /-- no key for the tenant -/
  | unresolved (message : String) (written : Bool)
  | answered (body : List (String × Json)) (written : Bool)
  /-- the call failed -/
  | failed (error : String) (written : Bool)
  /-- an error before any result was stored, which ends the loop -/
  | escaped
deriving DecidableEq

/-- Redis took the item's result. -/
def ItemOutcome.stored : ItemOutcome → Bool
  | .unresolved _ written => written
  | .answered _ written => written
  | .failed _ written => written
  | .escaped => false

def storeWhen (written : Bool) (name : String) (doc : ResultDoc)
    (results : Dict String ResultDoc) : Dict String ResultDoc :=
  if written then storeResult results name doc else results

def baselineOf (item : Json) : Int :=
  match item.getD "baseline_tokens" (.int 0) with
  | .int n => n
  | _ => 0

/-- `f"{_RESULT_KEY_PREFIX}:{request_id}"`, less the constant part. -/
def resultName (item : Json) : String := cfg.py.str (requestId item)

/-- The results after an item of the loop lane. -/
def ItemOutcome.apply (item : Json) (results : Dict String ResultDoc) :
    ItemOutcome → Dict String ResultDoc
  | .unresolved message written =>
    storeWhen written (resultName cfg item) (.failed message) results
  | .answered body written =>
    storeWhen written (resultName cfg item)
      (.completed (markedResponse (resultName cfg item) body) (baselineOf item)) results
  | .failed error written => storeWhen written (resultName cfg item) (.failed error) results
  | .escaped => results

/-! ## 2. The workers -/

/-- Entries with their parsed payloads, held by one worker. -/
abbrev Held := List (EntryId × Json)

inductive Phase where
  | idle
  /-- the batches of this pass that are not flushed yet, one for each stream -/
  | reading (batches : List Held)
  /-- in a flush: the groups to dispatch, then the items left of the loop lane in hand -/
  | flushing (held : Held) (groups : List Group) (items : List Json) (todo : List Held)
  /-- in a sweep: the claimed entries to look at, those to settle, those to flush again -/
  | sweeping (left : List (EntryId × Fields)) (settled : List EntryId) (retry : Held)

inductive GroupOutcome where
  /-- not native, no key, a failed submit: the items go one by one -/
  | loop
  /-- an error that leaves the flush -/
  | raises
  /-- the provider took the job; `recorded` says whether Redis took its record -/
  | submitted (job : String) (recorded : Bool)

inductive SweepReply where
  /-- `_deliveries` or the store raises: the sweep of this stream ends -/
  | raises
  /-- whether the stored result could be read, and whether Redis took a failure -/
  | asked (read written : Bool)
deriving DecidableEq

variable {W : Type} [DecidableEq W]

inductive Label (W : Type) where
  | enqueue (id : EntryId) (fields : Fields)
  /-- `XREADGROUP` delivers these new entries -/
  | read (w : W) (ids : List EntryId)
  /-- start to flush the next batch -/
  | begin (w : W)
  | group (w : W) (outcome : GroupOutcome)
  /-- `escapes`: storing the result raised after all, which ends the loop -/
  | item (w : W) (outcome : ItemOutcome) (escapes : Bool)
  /-- `XACK` of a flush; `applied` says whether the server took it -/
  | ack (w : W) (applied : Bool)
  /-- `XAUTOCLAIM` hands these stale entries to the worker -/
  | claim (w : W) (ids : List EntryId)
  | sweep (w : W) (reply : SweepReply)
  /-- `XACK` of a sweep; `answered` says whether the call came back -/
  | settle (w : W) (applied answered : Bool)
  /-- the process stops -/
  | stop (w : W)

structure State (W : Type) where
  /-- every entry that was ever queued -/
  entries : Dict EntryId Fields
  unread : List EntryId
  /-- delivered and not acknowledged: the consumer, and how often it was delivered -/
  pending : Dict EntryId (W × Nat)
  acked : List EntryId
  results : Dict String ResultDoc
  jobs : Dict String Job
  workers : W → Phase

def State.start : State W := ⟨∅, [], ∅, [], ∅, ∅, fun _ => .idle⟩

def State.at (s : State W) (w : W) (phase : Phase) : State W :=
  { s with workers := Function.update s.workers w phase }

def State.deliver (s : State W) (w : W) (ids : List EntryId) : State W :=
  { s with
    unread := s.unread.filter (· ∉ ids)
    pending := ids.foldl (fun acc id => acc.set id (w, ((acc.get? id).map Prod.snd).getD 0 + 1))
      s.pending }

def State.acknowledge (s : State W) (ids : List EntryId) : State W :=
  { s with pending := s.pending.filter (fun id _ => decide (id ∉ ids)), acked := s.acked ++ ids }

/-- The entries with their fields, in this order. -/
def State.fieldsOf (s : State W) (ids : List EntryId) : List (EntryId × Fields) :=
  ids.filterMap fun id => (s.entries.get? id).map fun fields => (id, fields)

/-- `json.loads(fields.get("payload", "{}"))`. -/
def parseEntry : EntryId × Fields → Option (EntryId × Json)
  | (id, .noPayload) => some (id, .obj [])
  | (_, .unparsable) => none
  | (id, .payload item) => some (id, item)

/-- The entries of each stream, the streams in the order they come up in. -/
def byStream (entries : Held) : List Held :=
  (entries.map fun e => e.1.1).eraseDups.map fun stream => entries.filter fun e => e.1.1 = stream

/-- One entry of a sweep: what is stored, and where the worker goes. -/
def sweepEntry (s : State W) (id : EntryId) (fields : Fields) (left : List (EntryId × Fields))
    (settled : List EntryId) (retry : Held) (reply : SweepReply) :
    Dict String ResultDoc × Phase :=
  match fields with
  | .noPayload => (s.results, .sweeping left (settled ++ [id]) retry)
  | .unparsable => (s.results, .idle)
  | .payload item =>
    if item.isObj then
      let name := cfg.py.str (item.getD "request_id" (.str "unknown"))
      match reply with
      | .raises => (s.results, .idle)
      | .asked read written =>
        if read && (s.results.get? name).any ResultDoc.isCompleted then
          (s.results, .sweeping left (settled ++ [id]) retry)
        else
          match s.pending.get? id with
          -- acknowledged by its own consumer since the claim
          | none => (s.results, .sweeping left settled retry)
          | some (_, delivered) =>
            if cfg.maxAttempts < delivered then
              let error := "Batch item not processed after " ++ toString cfg.maxAttempts ++
                " attempts"
              (storeWhen written name (.failed error) s.results,
                .sweeping left (settled ++ [id]) retry)
            else (s.results, .sweeping left settled (retry ++ [(id, item)]))
    else (s.results, .idle)

def step (s : State W) : Label W → Option (State W)
  | .enqueue id fields =>
    if id ∈ s.entries then none
    else some { s with entries := s.entries.set id fields, unread := s.unread ++ [id] }
  | .read w ids =>
    match s.workers w with
    | .idle =>
      if ∀ id ∈ ids, id ∈ s.unread then
        -- a payload that is no JSON ends the pass: everything read stays pending
        let batches := ((s.fieldsOf ids).mapM parseEntry).map byStream
        some ((s.deliver w ids).at w (.reading (batches.getD [])))
      else none
    | _ => none
  | .begin w =>
    match s.workers w with
    | .reading [] => some (s.at w .idle)
    | .reading (held :: todo) =>
      let items := held.map Prod.snd
      if cfg.native then
        match groupItems cfg [] items with
        | some groups => some (s.at w (.flushing held groups [] todo))
        -- an error: the batch stays pending
        | none => some (s.at w (.reading todo))
      else some (s.at w (.flushing held [] items todo))
    | _ => none
  | .group w outcome =>
    match s.workers w with
    | .flushing held (group :: groups) [] todo =>
      match outcome with
      | .loop => some (s.at w (.flushing held groups group.items todo))
      | .raises => some (s.at w (.reading todo))
      | .submitted job recorded =>
        -- a provider never gives an id out twice
        if job ∈ s.jobs then none
        else
          let s := s.at w (.flushing held groups [] todo)
          if recorded then
            some { s with
              jobs := s.jobs.set job (jobOf group.provider group.tenantId group.items) }
          else some s
    | _ => none
  | .item w outcome escapes =>
    match s.workers w with
    | .flushing held groups (item :: items) todo =>
      if loopRaises cfg item && decide (outcome ≠ .escaped) then none
      else
        -- the loop's own handler swallows the error, and the items left are skipped
        let items := if escapes || decide (outcome = .escaped) then [] else items
        some { s.at w (.flushing held groups items todo) with
          results := outcome.apply cfg item s.results }
    | _ => none
  | .ack w applied =>
    match s.workers w with
    | .flushing held [] [] todo =>
      let s := s.at w (.reading todo)
      some (if applied then s.acknowledge (held.map Prod.fst) else s)
    | _ => none
  | .claim w ids =>
    match s.workers w with
    | .idle =>
      if ∀ id ∈ ids, id ∈ s.pending then
        some ((s.deliver w ids).at w (.sweeping (s.fieldsOf ids) [] []))
      else none
    | _ => none
  | .sweep w reply =>
    match s.workers w with
    | .sweeping ((id, fields) :: left) settled retry =>
      let (results, phase) := sweepEntry cfg s id fields left settled retry reply
      some { s.at w phase with results := results }
    | _ => none
  | .settle w applied answered =>
    match s.workers w with
    | .sweeping [] settled retry =>
      let s := s.at w (if answered then .reading [retry] else .idle)
      some (if applied then s.acknowledge settled else s)
    | _ => none
  | .stop w => some (s.at w .idle)

end TokenProxy.BatchWorker
