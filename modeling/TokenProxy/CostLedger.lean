/-
  TokenProxy/CostLedger.lean
  ==========================
  **The cost of one request** (`_serve_core`, `_process_and_serve`, `_stream_response` and
  `_price_stream` of `main.py`, `price_response` of `g18_observability.py`).

  `serveCore` follows a request from its first stage to its end, over every outcome of the
  provider calls.  `ledger` is what the request cost: the served call at its own price and
  every other completed call once, at list price.  `costActual_eq_ledger_iff` says when the
  recorded cost is that sum.  It is for every way to be served or deferred, except that an
  agent's or a tier's answer is charged by the adapter of the model that was routed first; a
  request that ends without an answer records nothing, whatever its stages and its cascade
  had paid.
-/
import Mathlib.Algebra.Order.BigOperators.Group.List
import TokenProxy.TierCascade

namespace TokenProxy.Ledger

open TokenCounter CallBook Resilience

/-! ## 1. Pricing a request -/

section Pricing

variable (env : Prices)

/-- `price_response`; `none` where the usage cannot be priced. -/
def priceResponse (ctx : Ctx) (response : Json) : Option Ctx :=
  (servedPrice env ctx.providerAdapter ctx.routedModel ctx.proxyOptimisedTokens response).map
    fun cost =>
      let extra := others ProviderCall.side ctx.providerCalls
      if extra.isEmpty then { ctx with costActual := cost }
      else
        { ctx with
          costActual := cost + priceCalls env extra ctx.routedModel
          providerCallCount := ctx.providerCalls.length
          providerCallPromptTokens := (ctx.providerCalls.map ProviderCall.promptTokens).sum }

/-- `price_billed_call`, with the caller's `except`. -/
def priceBilledCall (ctx : Ctx) (providerResponse response : Json) : Ctx :=
  (priceResponse env ctx (providerResponse.orElse response)).getD ctx

/-- `_price_calls_made_before_defer`. -/
def priceCallsMadeBeforeDefer (ctx : Ctx) : Ctx :=
  { ctx with costActual := ctx.costActual + priceCalls env ctx.providerCalls ctx.model }

end Pricing

/-! ## 2. A request and its world -/

inductive KeyLookup where
  | found
  | absent
  /-- `ProviderKeyError` -/
  | denied
  /-- `ProviderKeyDecryptError` -/
  | undecryptable
deriving DecidableEq, Repr

/-- What became of a stream that was established. -/
structure StreamEnd where
  /-- a chunk arrived -/
  served : Bool
  raised : Bool
  /-- the last usage chunk, `{}` when there was none -/
  usage : Json
  /-- everything the model generated -/
  generated : String

structure World where
  prices : Prices
  getAdapter : String → Adapter
  resolveProvider : String → String
  /-- `ResilienceConfig.resolve` for a provider -/
  resilience : String → ResilienceConfig
  fallbacks : String → List String

/-- How the request stages leave a request. -/
inductive Verdict where
  /-- a block, bypass or cache hit before any stage that calls a provider -/
  | shortCircuit
  /-- blocked by the stage that scans what was retrieved -/
  | refused
  | raised
  | deferred
  /-- answered by a downstream agent -/
  | agent (model : String) (response : Json)
  | proceed (plan : Option Cascade)

structure Request where
  model : String
  /-- the model that the routing stage picked -/
  routedModel : String
  currentTokenCount : Int
  proxyOptimisedTokens : Int
  /-- the side calls of the request stages, in order -/
  sideCalls : List SideKind := []
  verdict : Verdict
  /-- what comes of the calls that the resilience layer does not make -/
  outcomes : List (Option Json) := []
  providerKey : String → KeyLookup := fun _ => .found
  stream : Bool := false
  redisPrefix : String := ""
  store : ResilienceStore := {}
  whole : Env Json
  chunks : Env StreamEnd
  /-- a safety stage of the response fails -/
  safetyFails : Bool := false
  /-- the re-asks of the output-format stage -/
  repairs : List SideKind := []
  /-- what the response stages make of an answer -/
  processed : Json → Json := id
  /-- `G18.record` raises after it priced the call -/
  recordRaises : Bool := false

/-- How a request ends. -/
inductive Exit where
  | shortCircuit
  | refused
  | deferred
  | failed (status : Nat)
  | cancelled
  | served (answer : Answer)
  /-- a safety stage failed: the answer was paid for and is not sent -/
  | withheld (answer : Answer)
  | streamed (answer : Answer)
deriving DecidableEq

def Exit.answer? : Exit → Option Answer
  | .served answer => some answer
  | .withheld answer => some answer
  | .streamed answer => some answer
  | _ => none

/-! ## 3. Serving a request -/

variable (w : World) (r : Request)

/-- `_process_and_serve`, with the stages of `process_response` that pay or price. -/
def processAndServe (s : Run) (answer : Answer) : Exit × Run :=
  if r.safetyFails then
    (.withheld answer,
      { s with ctx := priceBilledCall w.prices s.ctx answer.response answer.response })
  else
    let repaired := s.sideCalls w.prices r.repairs
    let priced := priceBilledCall w.prices repaired.ctx answer.response
      (r.processed answer.response)
    let recorded :=
      if r.recordRaises then
        priceBilledCall w.prices priced answer.response (r.processed answer.response)
      else priced
    (.served answer, { repaired with ctx := recorded })

def targets (routedModel : String) : List CallTarget :=
  let target : String → CallTarget := fun model =>
    { model, provider := w.resolveProvider model }
  target routedModel ::
    if (w.resilience (w.resolveProvider routedModel)).enabled then
      ((w.fallbacks routedModel).filter fun model => model ≠ routedModel).map target
    else []

/-- `on_success`: the winner's model and adapter. -/
def pin (ctx : Ctx) (target : CallTarget) : Ctx :=
  { ctx with routedModel := target.model, providerAdapter := w.getAdapter target.model }

/-- `call_with_resilience` over the routed model and its fallbacks. -/
def resilientCall {ρ : Type} (ctx : Ctx) (env : Env ρ) : Call ρ :=
  ((Call.start (targets w ctx.routedModel)
    (w.resilience (w.resolveProvider ctx.routedModel)) r.redisPrefix []).run env r.store).1

def failureStatus (exc : ProviderError) : Nat :=
  if exc.typeName = "AuthenticationError" then 401
  else if exc.typeName = "RateLimitError" then 429
  else 502

/-- How a request ends when no target answered. -/
def failedExit {ρ : Type} : Phase ρ → Exit
  | .finished .cancelled => .cancelled
  | .finished (.raised exc) => .failed (failureStatus exc)
  | .finished (.allTargetsFailed _ (some exc)) =>
    .failed (if exc.typeName = "RateLimitError" then 429 else 502)
  | .finished (.allTargetsFailed _ none) => .failed 503
  | _ => .failed 502

/-- The plain call and its booking. -/
def callWhole (s : Run) : Exit × Run :=
  let call := resilientCall w r s.ctx r.whole
  let pinned := call.winners.foldl (pin w) s.ctx
  let completed := s.completed ++ call.answered.map fun a =>
    { model := a.1.model, site := .main, response := a.2, booked := some a.2 }
  match call.phase with
  | .finished (.returned response) =>
    let booked := recordProviderCall w.prices pinned pinned.routedModel response false
    processAndServe w r { s with ctx := booked, completed } ⟨s.completed.length, response⟩
  | phase => (failedExit phase, { s with ctx := pinned, completed })

/-- What `_price_stream` prices for a served stream and what it books; without a usage chunk an
    estimate, where the text can be counted. -/
def streamUsage (ctx : Ctx) (model : String) (e : StreamEnd) : Json × Option Json :=
  if e.usage.truthy then (.obj [("usage", e.usage)], some (.obj [("usage", e.usage)]))
  else
    match estimateTokens w.prices.rt (.str e.generated) (.str model) with
    | .ok completion =>
      (.obj [("usage", .obj [("completion_tokens", .int completion)])],
        some (.obj [("usage", .obj [("prompt_tokens", .int ctx.proxyOptimisedTokens),
          ("completion_tokens", .int completion)])]))
    | .error _ => (.obj [("usage", e.usage)], none)

/-- A stream's call, as logged: a stream that raised before its first chunk completed none. -/
def streamCall (ctx : Ctx) (a : CallTarget × StreamEnd) : Option Completed :=
  if a.2.served then
    let usage := streamUsage w ctx a.1.model a.2
    some { model := a.1.model, site := .main, response := usage.1, booked := usage.2 }
  else if a.2.raised then none
  else
    some { model := a.1.model, site := .main, response := .obj [("usage", a.2.usage)],
           booked := none }

/-- `_stream_response`. -/
def callStream (s : Run) : Exit × Run :=
  let call := resilientCall w r s.ctx r.chunks
  let pinned := call.winners.foldl (pin w) s.ctx
  let completed := s.completed ++ call.answered.filterMap (streamCall w s.ctx)
  match call.phase with
  | .finished (.returned e) =>
    if e.served then
      let usage := streamUsage w pinned pinned.routedModel e
      let answer := ⟨s.completed.length, usage.1⟩
      match usage.2 with
      | some booked =>
        let recorded := recordProviderCall w.prices pinned pinned.routedModel booked false
        (.streamed answer,
          { s with ctx := (priceResponse w.prices recorded usage.1).getD recorded, completed })
      | none => (.streamed answer, { s with ctx := pinned, completed })
    else (.failed 502, { s with ctx := pinned, completed })
  | phase => (failedExit phase, { s with ctx := pinned, completed })

/-- From the provider key to the answer. -/
def callProvider (s : Run) : Exit × Run :=
  match r.providerKey s.ctx.routedModel with
  | .undecryptable => (.failed 502, s)
  | .denied => (.failed 402, s)
  | .absent =>
    if (w.getAdapter s.ctx.routedModel).requiresApiKey then (.failed 503, s)
    else if r.stream then callStream w r s else callWhole w r s
  | .found => if r.stream then callStream w r s else callWhole w r s

/-- After a failed cascade: never the model that just failed. -/
def fallBack (k : Cascade) (s : Run) : Run :=
  if s.ctx.model ≠ "" ∧ k.tier1Model = some s.ctx.routedModel ∧
      k.tier1Model ≠ some s.ctx.model then
    { s with ctx := { s.ctx with routedModel := s.ctx.model } }
  else s

/-- The request after its stages, before `main.py` acts on the verdict. -/
def processRequest : Run :=
  let start : Run :=
    { ctx :=
        { model := r.model
          routedModel := r.routedModel
          providerAdapter := w.getAdapter r.routedModel
          currentTokenCount := r.currentTokenCount
          proxyOptimisedTokens := r.proxyOptimisedTokens }
      outcomes := r.outcomes }
  match r.verdict with
  | .shortCircuit => start
  | _ => start.sideCalls w.prices r.sideCalls

/-- An executed cascade, or the plain call it falls back to. -/
def serveCascade (k : Cascade) (s : Run) : Exit × Run :=
  match k.executeThreeTierCascade w.prices s with
  | (some (model, answer), s') =>
    if model ≠ "" ∧ answer.response.isObj = true ∧
        (answer.response.get? "error").isNone = true then
      processAndServe w r { s' with ctx := { s'.ctx with routedModel := model } } answer
    else callProvider w r (fallBack k s')
  | (none, s') => callProvider w r (fallBack k s')

def serveAgent (model : String) (response : Json) (s : Run) : Exit × Run :=
  let routed := { s with ctx := { s.ctx with routedModel := model } }
  let paid := routed.complete w.prices { model, site := .agent, response, booked := none }
  processAndServe w r paid.2 paid.1

def serveCore : Exit × Run :=
  let s := processRequest w r
  match r.verdict with
  | .shortCircuit => (.shortCircuit, s)
  | .refused => (.refused, s)
  | .raised => (.failed 500, s)
  | .deferred => (.deferred, { s with ctx := priceCallsMadeBeforeDefer w.prices s.ctx })
  | .agent model response => serveAgent w r model response s
  | .proceed none => callProvider w r s
  | .proceed (some k) => serveCascade w r k s

/-! ## 4. What the request cost -/

/-- What a completed call cost at list price, as its usage says. -/
def listPrice (env : Prices) (c : Completed) : ℚ :=
  match c.entry env with
  | some call => estimateCost env call.promptTokens call.completionTokens c.model
  | none => 0

/-- What the served call cost, read and charged as its own provider does. -/
def ownPrice (c : Completed) : Option ℚ :=
  servedPrice w.prices (w.getAdapter c.model) c.model r.proxyOptimisedTokens c.response

/-- The served call, if a call's answer was used at all, and every other completed call. -/
def ledger (out : Exit × Run) : ℚ :=
  match out.1.answer? with
  | some answer =>
    ((out.2.completed[answer.call]?).bind (ownPrice w r)).getD 0 +
      ((out.2.completed.eraseIdx answer.call).map (listPrice w.prices)).sum
  | none => (out.2.completed.map (listPrice w.prices)).sum

/-- Every call that the code books names its model and reported a usage that can be read. -/
def Bookable (env : Prices) (s : Run) : Prop :=
  ∀ c ∈ s.completed, c.site ≠ .agent → c.model ≠ "" ∧ (c.entry env).isSome = true

/-- The usages of a request's calls can be read. -/
structure Readable : Prop where
  bookable : Bookable w.prices (serveCore w r).2
  served : ∀ answer c, (serveCore w r).1.answer? = some answer →
    (serveCore w r).2.completed[answer.call]? = some c →
    c.response.truthy = true ∧ (ownPrice w r c).isSome = true ∧
      (servedPrice w.prices (serveCore w r).2.ctx.providerAdapter c.model
        r.proxyOptimisedTokens c.response).isSome = true

/-- Counts and rates are not negative. -/
structure Unsigned : Prop where
  rates : ∀ row ∈ w.prices.pricing, 0 ≤ row.2.input ∧ 0 ≤ row.2.output
  counts : ∀ c ∈ (serveCore w r).2.completed, ∀ call, c.entry w.prices = some call →
    0 ≤ call.promptTokens ∧ 0 ≤ call.completionTokens

/-- An answer that the resilience layer did not fetch, with its model: an agent's, or that of a
    tier of the cascade. -/
def unpinnedAnswer : Option (String × Json) :=
  match r.verdict with
  | .agent model response => some (model, response)
  | .proceed (some k) =>
    match (k.executeThreeTierCascade w.prices (processRequest w r)).1 with
    | some (model, answer) =>
      if model ≠ "" ∧ answer.response.isObj = true ∧
          (answer.response.get? "error").isNone = true then some (model, answer.response)
      else none
    | none => none
  | _ => none

/-- What a request has paid for before the resilience layer: the side calls of its stages, and
    the tiers and judges of its cascade. -/
def paidStages : List Completed :=
  match r.verdict with
  | .proceed (some k) => (k.executeThreeTierCascade w.prices (processRequest w r)).2.completed
  | _ => (processRequest w r).completed

/-- An agent's or a tier's answer is charged alike by the adapter of the model that was routed
    first and by that of the model that gave it; a request that ends without an answer is deferred,
    or every call of its stages and its cascade was free. -/
def Settles : Prop :=
  if ((serveCore w r).1.answer?).isSome then
    ∀ model response, unpinnedAnswer w r = some (model, response) →
      servedPrice w.prices (w.getAdapter r.routedModel) model r.proxyOptimisedTokens response =
        servedPrice w.prices (w.getAdapter model) model r.proxyOptimisedTokens response
  else (serveCore w r).1 = .deferred ∨ ∀ c ∈ paidStages w r, listPrice w.prices c = 0

/-! ## 5. The book and the log -/

variable {w r}

/-- A request that is under way: what completed is booked and nothing is priced yet. -/
structure Open (w : World) (r : Request) (s : Run) : Prop where
  booked : s.ctx.providerCalls = s.completed.filterMap (Completed.entry w.prices)
  noAgent : NoAgent s.completed
  unpriced : s.ctx.costActual = 0
  tokens : s.ctx.proxyOptimisedTokens = r.proxyOptimisedTokens

/-- The answer came from the call at its place, at the routed model; only side calls followed. -/
structure Answered (w : World) (r : Request) (s : Run) (answer : Answer) : Prop where
  booked : s.ctx.providerCalls = s.completed.filterMap (Completed.entry w.prices)
  tokens : s.ctx.proxyOptimisedTokens = r.proxyOptimisedTokens
  place : ∃ pre c post, s.completed = pre ++ c :: post ∧ answer = ⟨pre.length, c.response⟩ ∧
    s.ctx.routedModel = c.model ∧ Sides post ∧
      ((c.site = .main ∧ NoAgent pre) ∨
        (c.site = .agent ∧ c.entry w.prices = none ∧ Sides pre))

theorem Paid.booked {env : Prices} {s s' : Run} {xs : List Completed} (h : Paid env s s' xs)
    (hbooked : s.ctx.providerCalls = s.completed.filterMap (Completed.entry env)) :
    s'.ctx.providerCalls = s'.completed.filterMap (Completed.entry env) := by
  rw [h.calls, hbooked, h.completed, List.filterMap_append]

theorem Paid.tokens {env : Prices} {s s' : Run} {xs : List Completed} (h : Paid env s s' xs) :
    s'.ctx.proxyOptimisedTokens = s.ctx.proxyOptimisedTokens := by
  rw [h.frame]

theorem Open.called {s s' : Run} (h : Open w r s) (hcalled : Called w.prices s s') :
    Open w r s' := by
  obtain ⟨xs, hxs, hpaid⟩ := hcalled
  refine ⟨hpaid.booked h.booked, ?_, ?_, hpaid.tokens.trans h.tokens⟩
  · rw [hpaid.completed]
    exact h.noAgent.append hxs
  · rw [hpaid.frame]
    exact h.unpriced

theorem processRequest_open (w : World) (r : Request) : Open w r (processRequest w r) := by
  have hstart : ∀ s : Run, s.ctx.providerCalls = [] → s.completed = [] →
      s.ctx.costActual = 0 → s.ctx.proxyOptimisedTokens = r.proxyOptimisedTokens →
      Open w r s := by
    intro s hcalls hcompleted hcost htokens
    refine ⟨?_, ?_, hcost, htokens⟩
    · rw [hcalls, hcompleted]
      rfl
    · rw [hcompleted]
      exact sides_nil.noAgent
  unfold processRequest
  dsimp only
  split
  · exact hstart _ rfl rfl rfl rfl
  · obtain ⟨xs, hxs, hpaid⟩ := @Run.sideCalls_paid w.prices
      { ctx :=
          { model := r.model
            routedModel := r.routedModel
            providerAdapter := w.getAdapter r.routedModel
            currentTokenCount := r.currentTokenCount
            proxyOptimisedTokens := r.proxyOptimisedTokens }
        outcomes := r.outcomes } r.sideCalls
    exact (hstart _ rfl rfl rfl rfl).called ⟨xs, hxs.noAgent, hpaid⟩

/-- The cascade's answer, once its model is the routed one. -/
theorem Open.answeredLast {s s' : Run} {model : String} {answer : Answer} (h : Open w r s)
    (hlast : AnsweredLast w.prices s s' model answer) :
    Answered w r { s' with ctx := { s'.ctx with routedModel := model } } answer := by
  obtain ⟨pre, c, post, hpaid, rfl, hmodel, hsite, hpre, hpost⟩ := hlast
  refine ⟨hpaid.booked h.booked, hpaid.tokens.trans h.tokens,
    s.completed ++ pre, c, post, ?_, ?_, hmodel.symm, hpost,
    Or.inl ⟨hsite, h.noAgent.append hpre⟩⟩
  · rw [List.append_assoc]
    exact hpaid.completed
  · rw [List.length_append]

theorem Answered.sides {s s' : Run} {answer : Answer} {xs : List Completed}
    (h : Answered w r s answer) (hxs : Sides xs) (hpaid : Paid w.prices s s' xs) :
    Answered w r s' answer := by
  obtain ⟨pre, c, post, hsplit, hanswer, hmodel, hpost, hwho⟩ := h.place
  refine ⟨hpaid.booked h.booked, hpaid.tokens.trans h.tokens, pre, c, post ++ xs, ?_, hanswer,
    ?_, hpost.append hxs, hwho⟩
  · rw [hpaid.completed, hsplit, List.append_assoc]
    rfl
  · rw [hpaid.frame]
    exact hmodel

/-! ## 6. What is priced -/

/-- Pricing changes the figures and nothing that they are computed from. -/
structure Repriced (ctx ctx' : Ctx) : Prop where
  calls : ctx'.providerCalls = ctx.providerCalls
  adapter : ctx'.providerAdapter = ctx.providerAdapter
  model : ctx'.routedModel = ctx.routedModel
  tokens : ctx'.proxyOptimisedTokens = ctx.proxyOptimisedTokens

section Pricing

variable {env : Prices} {ctx ctx' : Ctx} {response : Json}

theorem priceResponse_repriced (h : priceResponse env ctx response = some ctx') :
    Repriced ctx ctx' := by
  rw [priceResponse, Option.map_eq_some_iff] at h
  obtain ⟨cost, -, rfl⟩ := h
  dsimp only
  split <;> exact ⟨rfl, rfl, rfl, rfl⟩

/-- The served call, and every other booked one. -/
theorem priceResponse_cost {cost : ℚ}
    (h : servedPrice env ctx.providerAdapter ctx.routedModel ctx.proxyOptimisedTokens response =
      some cost) :
    ∃ ctx', priceResponse env ctx response = some ctx' ∧ ctx'.costActual =
      cost + priceCalls env (others ProviderCall.side ctx.providerCalls) ctx.routedModel := by
  refine ⟨_, by rw [priceResponse, h]; rfl, ?_⟩
  dsimp only
  split
  · next hempty =>
    rw [List.isEmpty_iff.mp hempty]
    exact (add_zero cost).symm
  · rfl

/-- Pricing again gives the same figures. -/
theorem priceResponse_again (h : priceResponse env ctx response = some ctx') :
    priceResponse env ctx' response = some ctx' := by
  have hsame := priceResponse_repriced h
  rw [priceResponse, Option.map_eq_some_iff] at h
  obtain ⟨cost, hcost, heq⟩ := h
  rw [priceResponse, hsame.adapter, hsame.model, hsame.tokens, hcost, Option.map_some,
    hsame.calls]
  rw [← heq]
  dsimp only
  split <;> rfl

theorem entry_fields {c : Completed} {call : ProviderCall} (h : c.entry env = some call) :
    call.model = c.model ∧ call.side = decide (c.site = .side) := by
  rw [Completed.entry, Option.bind_eq_some_iff] at h
  obtain ⟨booked, -, hrecord⟩ := h
  exact recordOf_fields env hrecord

theorem sides_entries {xs : List Completed} (h : Sides xs) :
    ∀ call ∈ xs.filterMap (Completed.entry env), call.side = true := by
  intro call hcall
  obtain ⟨c, hc, hentry⟩ := List.mem_filterMap.mp hcall
  rw [(entry_fields hentry).2, h c hc]
  rfl

/-- Booked calls are priced one by one, each at its own model. -/
theorem priceCalls_entries {xs : List Completed} (model : String)
    (h : ∀ c ∈ xs, c.model ≠ "" ∧ (c.entry env).isSome = true) :
    priceCalls env (xs.filterMap (Completed.entry env)) model =
      (xs.map (listPrice env)).sum := by
  induction xs with
  | nil => rfl
  | cons c xs ih =>
    have hrest := ih fun x hx => h x (List.mem_cons_of_mem c hx)
    obtain ⟨hnamed, hsome⟩ := h c List.mem_cons_self
    obtain ⟨call, hcall⟩ := Option.isSome_iff_exists.mp hsome
    have hprice : callPrice env model call = listPrice env c := by
      rw [callPrice, (entry_fields hcall).1, if_neg hnamed, listPrice, hcall]
    rw [List.filterMap_cons, hcall, List.map_cons, List.sum_cons, ← hprice, ← hrest]
    rfl

end Pricing

/-- The calls added to the served one are all the others, each once. -/
theorem Answered.others_cost {s : Run} {answer : Answer} (h : Answered w r s answer)
    (hread : Bookable w.prices s) (model : String) :
    priceCalls w.prices (others ProviderCall.side s.ctx.providerCalls) model =
      ((s.completed.eraseIdx answer.call).map (listPrice w.prices)).sum := by
  obtain ⟨pre, c, post, hsplit, rfl, -, hpost, hwho⟩ := h.place
  have hpostEntries := @sides_entries w.prices _ hpost
  have hrest : (s.completed.eraseIdx pre.length) = pre ++ post := by
    rw [hsplit, eraseIdx_place]
  have hbook : ∀ x ∈ pre ++ post, x.site ≠ .agent →
      x.model ≠ "" ∧ (x.entry w.prices).isSome = true := by
    intro x hx
    apply hread x
    rw [hsplit]
    rcases List.mem_append.mp hx with hx | hx
    · exact List.mem_append_left _ hx
    · exact List.mem_append_right _ (List.mem_cons_of_mem c hx)
  rw [hrest, h.booked, hsplit, List.filterMap_append]
  rcases hwho with ⟨hsite, hpre⟩ | ⟨-, hnone, hpre⟩
  · have hall : ∀ x ∈ pre ++ post, x.site ≠ .agent := hpre.append hpost.noAgent
    have hc : c ∈ s.completed := by
      rw [hsplit]
      exact List.mem_append_right _ List.mem_cons_self
    obtain ⟨call, hcall⟩ := Option.isSome_iff_exists.mp
      (hread c hc (by rw [hsite]; intro heq; cases heq)).2
    have hmain : call.side = false := by
      rw [(entry_fields hcall).2, hsite]
      rfl
    rw [List.filterMap_cons, hcall, priceCalls, sum_others _ hmain hpostEntries,
      ← List.filterMap_append]
    exact priceCalls_entries model fun x hx => hbook x hx (hall x hx)
  · have hall : ∀ x ∈ pre ++ post, x.site ≠ .agent := hpre.noAgent.append hpost.noAgent
    rw [List.filterMap_cons, hnone, ← List.filterMap_append,
      others_of_sides (sides_entries (hpre.append hpost))]
    exact priceCalls_entries model fun x hx => hbook x hx (hall x hx)

/-! ## 7. Every way to end -/

/-- The answer was used and its call priced, with all the others. -/
structure Priced (w : World) (r : Request) (s : Run) (answer : Answer) : Prop where
  answered : Answered w r s answer
  cost : Bookable w.prices s → answer.response.truthy = true → ∀ cost,
    servedPrice w.prices s.ctx.providerAdapter s.ctx.routedModel r.proxyOptimisedTokens
      answer.response = some cost →
    s.ctx.costActual =
      cost + ((s.completed.eraseIdx answer.call).map (listPrice w.prices)).sum

/-- How a run ends: with an answer, priced, or with none and nothing recorded. -/
def Accounted (w : World) (r : Request) (out : Exit × Run) : Prop :=
  match out.1.answer? with
  | some answer => Priced w r out.2 answer
  | none => out.1 ≠ .deferred ∧ out.2.ctx.costActual = 0

theorem Repriced.refl (ctx : Ctx) : Repriced ctx ctx := ⟨rfl, rfl, rfl, rfl⟩

theorem getD_repriced (env : Prices) (ctx : Ctx) (response : Json) :
    Repriced ctx ((priceResponse env ctx response).getD ctx) := by
  rcases heq : priceResponse env ctx response with _ | ctx'
  · exact Repriced.refl ctx
  · exact priceResponse_repriced heq

theorem priceBilledCall_repriced (env : Prices) (ctx : Ctx) (providerResponse response : Json) :
    Repriced ctx (priceBilledCall env ctx providerResponse response) :=
  getD_repriced env ctx (providerResponse.orElse response)

theorem Answered.repriced {s : Run} {answer : Answer} {ctx' : Ctx} (h : Answered w r s answer)
    (hsame : Repriced s.ctx ctx') : Answered w r { s with ctx := ctx' } answer := by
  obtain ⟨pre, c, post, hsplit, hanswer, hmodel, hpost, hwho⟩ := h.place
  exact ⟨hsame.calls.trans h.booked, hsame.tokens.trans h.tokens, pre, c, post, hsplit, hanswer,
    hsame.model.trans hmodel, hpost, hwho⟩

/-- Pricing the answer prices the request. -/
theorem Answered.priced {s : Run} {answer : Answer} (h : Answered w r s answer)
    (processed : Json) :
    Priced w r
      { s with ctx := priceBilledCall w.prices s.ctx answer.response processed } answer := by
  have hsame := priceBilledCall_repriced w.prices s.ctx answer.response processed
  refine ⟨h.repriced hsame, ?_⟩
  intro hread htruthy cost hcost
  dsimp only at hread hcost ⊢
  rw [hsame.adapter, hsame.model, ← h.tokens] at hcost
  obtain ⟨ctx', hpriced, hfigure⟩ := priceResponse_cost hcost
  have hbilled : priceBilledCall w.prices s.ctx answer.response processed = ctx' := by
    rw [priceBilledCall, Json.orElse, if_pos htruthy, hpriced]
    rfl
  rw [hbilled, hfigure, h.others_cost hread]

theorem priceBilledCall_again (env : Prices) (ctx : Ctx) (providerResponse response : Json) :
    priceBilledCall env (priceBilledCall env ctx providerResponse response) providerResponse
      response = priceBilledCall env ctx providerResponse response := by
  unfold priceBilledCall
  rcases heq : priceResponse env ctx (providerResponse.orElse response) with _ | ctx'
  · rw [Option.getD_none, heq]
    rfl
  · rw [Option.getD_some, priceResponse_again heq]
    rfl

theorem processAndServe_accounted {s : Run} {answer : Answer} (h : Answered w r s answer) :
    Accounted w r (processAndServe w r s answer) := by
  unfold processAndServe
  split
  · exact h.priced answer.response
  · obtain ⟨xs, hxs, hpaid⟩ := @Run.sideCalls_paid w.prices s r.repairs
    have hrepaired := h.sides hxs hpaid
    dsimp only
    split
    · rw [priceBilledCall_again]
      exact hrepaired.priced (r.processed answer.response)
    · exact hrepaired.priced (r.processed answer.response)

/-- The calls of the resilience layer: its answer is from the one that completed, at the model
    pinned; where it has no answer none completed and nothing was pinned. -/
theorem resilientCall_cases {ρ : Type} (ctx : Ctx) (env : Env ρ) :
    (∃ target result, (resilientCall w r ctx env).phase = .finished (.returned result) ∧
      (resilientCall w r ctx env).winners = [target] ∧
      (resilientCall w r ctx env).answered = [(target, result)]) ∨
    ((∀ result, (resilientCall w r ctx env).phase ≠ .finished (.returned result)) ∧
      (resilientCall w r ctx env).winners = [] ∧ (resilientCall w r ctx env).answered = []) := by
  have hone : (resilientCall w r ctx env).OneAnswer := Call.run_oneAnswer env _ _ _ _ _
  rw [Call.OneAnswer] at hone
  rcases hphase : (resilientCall w r ctx env).phase with _ | ⟨t, i⟩ | ⟨t, i⟩ | result
  · rw [hphase] at hone
    refine Or.inr ⟨?_, hone⟩
    intro result h
    cases h
  · rw [hphase] at hone
    refine Or.inr ⟨?_, hone.1⟩
    intro result h
    cases h
  · rw [hphase] at hone
    refine Or.inr ⟨?_, hone.1⟩
    intro result h
    cases h
  · rw [hphase] at hone
    rcases result with result | exc | ⟨attempts, last⟩ | _
    · obtain ⟨target, hwinners, hanswered⟩ := hone
      exact Or.inl ⟨target, result, rfl, hwinners, hanswered⟩
    · refine Or.inr ⟨?_, hone⟩
      intro result h
      cases h
    · refine Or.inr ⟨?_, hone⟩
      intro result h
      cases h
    · refine Or.inr ⟨?_, hone⟩
      intro result h
      cases h

theorem accounted_of_unpriced {s : Run} {e : Exit} (he : e.answer? = none)
    (hne : e ≠ .deferred) (hcost : s.ctx.costActual = 0) : Accounted w r (e, s) := by
  rw [Accounted, he]
  exact ⟨hne, hcost⟩

theorem accounted_of_failed {ρ : Type} {s : Run} (phase : Phase ρ)
    (hcost : s.ctx.costActual = 0) : Accounted w r (failedExit phase, s) := by
  unfold failedExit
  split <;> exact accounted_of_unpriced rfl nofun hcost

/-- A call of the main code completes, at the model that is then the routed one. -/
theorem Open.answered {s : Run} {c : Completed} {ctx' : Ctx} (h : Open w r s)
    (hsite : c.site = .main)
    (hcalls : ctx'.providerCalls = s.ctx.providerCalls ++ (c.entry w.prices).toList)
    (hmodel : ctx'.routedModel = c.model)
    (htokens : ctx'.proxyOptimisedTokens = s.ctx.proxyOptimisedTokens) :
    Answered w r { s with ctx := ctx', completed := s.completed ++ [c] }
      ⟨s.completed.length, c.response⟩ := by
  refine ⟨?_, htokens.trans h.tokens, s.completed, c, [], rfl, rfl, hmodel, sides_nil,
    Or.inl ⟨hsite, h.noAgent⟩⟩
  dsimp only
  rw [hcalls, h.booked, List.filterMap_append, List.filterMap_cons, List.filterMap_nil]
  rcases c.entry w.prices with _ | call <;> rfl

theorem callWhole_accounted {s : Run} (h : Open w r s) : Accounted w r (callWhole w r s) := by
  unfold callWhole
  rcases resilientCall_cases (w := w) (r := r) s.ctx r.whole with
    ⟨target, response, hphase, hwinners, hanswered⟩ | ⟨hnone, hwinners, hanswered⟩
  · simp only [hphase, hwinners, hanswered, List.foldl_cons, List.foldl_nil, List.map_cons,
      List.map_nil]
    apply processAndServe_accounted
    let c : Completed :=
      { model := target.model, site := .main, response, booked := some response }
    have hrecorded := @recordProviderCall_frame w.prices (pin w s.ctx target)
      target.model response false
    refine h.answered (c := c) rfl ?_ ?_ ?_
    · exact recordProviderCall_calls (pin w s.ctx target) c rfl
    · change (recordProviderCall w.prices (pin w s.ctx target) target.model response
        false).routedModel = target.model
      rw [hrecorded]
      rfl
    · change (recordProviderCall w.prices (pin w s.ctx target) target.model response
        false).proxyOptimisedTokens = _
      rw [hrecorded]
      rfl
  · simp only [hwinners, List.foldl_nil]
    exact accounted_of_failed _ h.unpriced

/-- A stream's answer prices the request when its usage was reported or could be estimated. -/
theorem Answered.streamPriced {s : Run} {answer : Answer} (h : Answered w r s answer) :
    Priced w r
      { s with ctx := (priceResponse w.prices s.ctx answer.response).getD s.ctx } answer := by
  have hsame := getD_repriced w.prices s.ctx answer.response
  refine ⟨h.repriced hsame, ?_⟩
  intro hread _ cost hcost
  dsimp only at hread hcost ⊢
  rw [hsame.adapter, hsame.model, ← h.tokens] at hcost
  obtain ⟨ctx', hpriced, hfigure⟩ := priceResponse_cost hcost
  rw [hpriced, Option.getD_some, hfigure, h.others_cost hread]

theorem callStream_accounted {s : Run} (h : Open w r s) : Accounted w r (callStream w r s) := by
  unfold callStream
  rcases resilientCall_cases (w := w) (r := r) s.ctx r.chunks with
    ⟨target, e, hphase, hwinners, hanswered⟩ | ⟨hnone, hwinners, hanswered⟩
  · simp only [hphase, hwinners, hanswered, List.foldl_cons, List.foldl_nil]
    by_cases hserved : e.served = true
    · rw [if_pos hserved]
      let usage := streamUsage w s.ctx target.model e
      let c : Completed :=
        { model := target.model, site := .main, response := usage.1, booked := usage.2 }
      have hlogged : [(target, e)].filterMap (streamCall w s.ctx) = [c] := by
        simp only [List.filterMap_cons, List.filterMap_nil, streamCall, if_pos hserved, c, usage]
      have husage : streamUsage w (pin w s.ctx target) (pin w s.ctx target).routedModel e =
          usage := rfl
      rw [hlogged, husage]
      rcases hbooked : usage.2 with _ | booked
      · have hentry : c.entry w.prices = none := by
          rw [Completed.entry, show c.booked = none from hbooked]
          rfl
        have hanswered : Answered w r
            { s with ctx := pin w s.ctx target, completed := s.completed ++ [c] }
            ⟨s.completed.length, c.response⟩ := by
          refine h.answered rfl ?_ rfl rfl
          rw [hentry]
          exact (List.append_nil _).symm
        refine ⟨hanswered, ?_⟩
        intro hread
        -- a text that cannot be counted: the call is not booked either
        have hmain : c.site ≠ .agent := by
          intro hsite
          cases hsite
        have hlast := hread c (List.mem_append_right _ List.mem_cons_self) hmain
        rw [hentry] at hlast
        cases hlast.2
      · have hframe := @recordProviderCall_frame w.prices (pin w s.ctx target)
          target.model booked false
        have hanswered : Answered w r
            { s with
              ctx := recordProviderCall w.prices (pin w s.ctx target) target.model booked false
              completed := s.completed ++ [c] }
            ⟨s.completed.length, c.response⟩ := by
          refine h.answered rfl ?_ ?_ ?_
          · exact recordProviderCall_calls (pin w s.ctx target) c hbooked
          · rw [hframe]
            rfl
          · rw [hframe]
            rfl
        exact hanswered.streamPriced
    · rw [if_neg hserved]
      refine accounted_of_unpriced rfl ?_ h.unpriced
      intro hdeferred
      cases hdeferred
  · simp only [hwinners, List.foldl_nil]
    exact accounted_of_failed _ h.unpriced

/-- A call is made, streamed or not, or the request fails for want of a key. -/
theorem callProvider_cases (w : World) (r : Request) (s : Run) :
    (∃ status, callProvider w r s = (.failed status, s)) ∨
      callProvider w r s = if r.stream then callStream w r s else callWhole w r s := by
  unfold callProvider
  split
  · exact Or.inl ⟨502, rfl⟩
  · exact Or.inl ⟨402, rfl⟩
  · split
    · exact Or.inl ⟨503, rfl⟩
    · exact Or.inr rfl
  · exact Or.inr rfl

theorem callProvider_accounted {s : Run} (h : Open w r s) :
    Accounted w r (callProvider w r s) := by
  rcases callProvider_cases w r s with ⟨status, hfailed⟩ | hcalled
  · rw [hfailed]
    exact accounted_of_unpriced rfl nofun h.unpriced
  · rw [hcalled]
    split
    · exact callStream_accounted h
    · exact callWhole_accounted h

theorem Open.fallBack {s : Run} (h : Open w r s) (k : Cascade) : Open w r (fallBack k s) := by
  unfold Ledger.fallBack
  split
  · exact ⟨h.booked, h.noAgent, h.unpriced, h.tokens⟩
  · exact h

theorem serveCascade_accounted {s : Run} (h : Open w r s) (k : Cascade) :
    Accounted w r (serveCascade w r k s) := by
  have hsettled := @Cascade.executeThreeTierCascade_settled w.prices k s
  unfold serveCascade
  rcases hrun : k.executeThreeTierCascade w.prices s with ⟨_ | ⟨model, answer⟩, s'⟩
  · rw [hrun] at hsettled
    exact callProvider_accounted ((h.called hsettled).fallBack k)
  · rw [hrun] at hsettled
    have hlast : AnsweredLast w.prices s s' model answer := hsettled
    dsimp only
    split
    · exact processAndServe_accounted (h.answeredLast hlast)
    · exact callProvider_accounted ((h.called hlast.called).fallBack k)

/-- The agent's call is not booked: what is booked is added to its price as it stands. -/
theorem serveAgent_accounted {s : Run} (h : Open w r s) (hsides : Sides s.completed)
    (model : String) (response : Json) : Accounted w r (serveAgent w r model response s) := by
  let c : Completed := { model, site := .agent, response, booked := none }
  have hbooked : s.ctx.providerCalls =
      (s.completed ++ [c]).filterMap (Completed.entry w.prices) := by
    rw [List.filterMap_append, ← h.booked]
    exact (List.append_nil _).symm
  apply processAndServe_accounted
  exact ⟨hbooked, h.tokens, s.completed, c, [], rfl, rfl, rfl, sides_nil,
    Or.inr ⟨rfl, rfl, hsides⟩⟩

theorem processRequest_sides (w : World) (r : Request) : Sides (processRequest w r).completed := by
  unfold processRequest
  dsimp only
  split
  · exact sides_nil
  · obtain ⟨xs, hxs, hpaid⟩ := @Run.sideCalls_paid w.prices _ r.sideCalls
    rw [hpaid.completed]
    exact hxs

/-- Every run but a deferred one: answered and priced, or unanswered with nothing recorded. -/
theorem serveCore_accounted (w : World) (r : Request) (hdeferred : r.verdict ≠ .deferred) :
    Accounted w r (serveCore w r) := by
  have hopen := processRequest_open w r
  unfold serveCore
  dsimp only
  split
  · exact accounted_of_unpriced rfl nofun hopen.unpriced
  · exact accounted_of_unpriced rfl nofun hopen.unpriced
  · exact accounted_of_unpriced rfl nofun hopen.unpriced
  · next hverdict => exact absurd hverdict hdeferred
  · exact serveAgent_accounted hopen (processRequest_sides w r) _ _
  · exact callProvider_accounted hopen
  · exact serveCascade_accounted hopen _

/-! ## 8. Which adapter prices the answer -/

/-- The adapter in force is the routed model's own. -/
def Owned (w : World) (ctx : Ctx) : Prop := ctx.providerAdapter = w.getAdapter ctx.routedModel

theorem Owned.repriced {ctx ctx' : Ctx} (h : Owned w ctx) (hsame : Repriced ctx ctx') :
    Owned w ctx' := by
  rw [Owned, hsame.adapter, hsame.model]
  exact h

theorem Owned.recorded {ctx : Ctx} (h : Owned w ctx) (model : String) (response : Json)
    (side : Bool) : Owned w (recordProviderCall w.prices ctx model response side) := by
  rw [recordProviderCall_frame]
  exact h

theorem processAndServe_owned {s : Run} (h : Owned w s.ctx) (answer : Answer) :
    Owned w (processAndServe w r s answer).2.ctx := by
  unfold processAndServe
  split
  · exact h.repriced (priceBilledCall_repriced _ _ _ _)
  · obtain ⟨xs, -, hpaid⟩ := @Run.sideCalls_paid w.prices s r.repairs
    have hrepaired : Owned w (s.sideCalls w.prices r.repairs).ctx := by
      rw [Owned, hpaid.frame]
      exact h
    have hpriced := hrepaired.repriced
      (priceBilledCall_repriced w.prices _ answer.response (r.processed answer.response))
    dsimp only
    split
    · exact hpriced.repriced (priceBilledCall_repriced _ _ _ _)
    · exact hpriced

theorem failedExit_answer {ρ : Type} (phase : Phase ρ) : (failedExit phase).answer? = none := by
  unfold failedExit
  split <;> rfl

theorem callWhole_owned {s : Run} (hanswer : ((callWhole w r s).1.answer?).isSome = true) :
    Owned w (callWhole w r s).2.ctx := by
  unfold callWhole at hanswer ⊢
  rcases resilientCall_cases (w := w) (r := r) s.ctx r.whole with
    ⟨target, response, hphase, hwinners, -⟩ | ⟨hnone, hwinners, -⟩
  · have hpinned : Owned w (pin w s.ctx target) := rfl
    simp only [hphase, hwinners, List.foldl_cons, List.foldl_nil]
    exact processAndServe_owned (hpinned.recorded _ _ _) _
  · simp only [failedExit_answer] at hanswer
    cases hanswer

theorem callStream_owned {s : Run} (hanswer : ((callStream w r s).1.answer?).isSome = true) :
    Owned w (callStream w r s).2.ctx := by
  unfold callStream at hanswer ⊢
  rcases resilientCall_cases (w := w) (r := r) s.ctx r.chunks with
    ⟨target, e, hphase, hwinners, -⟩ | ⟨hnone, hwinners, -⟩
  · have hpinned : Owned w (pin w s.ctx target) := rfl
    simp only [hphase, hwinners, List.foldl_cons, List.foldl_nil] at hanswer ⊢
    split
    · split
      · exact (hpinned.recorded _ _ _).repriced (getD_repriced _ _ _)
      · exact hpinned
    · exact hpinned
  · simp only [failedExit_answer] at hanswer
    cases hanswer

theorem callProvider_owned {s : Run} (hanswer : ((callProvider w r s).1.answer?).isSome = true) :
    Owned w (callProvider w r s).2.ctx := by
  rcases callProvider_cases w r s with ⟨status, hfailed⟩ | hcalled
  · rw [hfailed] at hanswer
    cases hanswer
  · rw [hcalled] at hanswer ⊢
    split at hanswer
    · next hstream =>
      rw [if_pos hstream]
      exact callStream_owned hanswer
    · next hstream =>
      rw [if_neg hstream]
      exact callWhole_owned hanswer

/-! ## 9. The recorded cost -/

/-- The place of an answer, as the log has it. -/
theorem Answered.at_place {s : Run} {answer : Answer} (h : Answered w r s answer) :
    ∃ c, s.completed[answer.call]? = some c ∧ answer.response = c.response ∧
      s.ctx.routedModel = c.model := by
  obtain ⟨pre, c, post, hsplit, rfl, hmodel, -, -⟩ := h.place
  refine ⟨c, ?_, rfl, hmodel⟩
  rw [hsplit]
  exact getElem?_place pre post c

theorem processRequest_adapter (w : World) (r : Request) :
    (processRequest w r).ctx.providerAdapter = w.getAdapter r.routedModel := by
  unfold processRequest
  dsimp only
  split
  · rfl
  · obtain ⟨xs, -, hpaid⟩ := @Run.sideCalls_paid w.prices
      { ctx :=
          { model := r.model
            routedModel := r.routedModel
            providerAdapter := w.getAdapter r.routedModel
            currentTokenCount := r.currentTokenCount
            proxyOptimisedTokens := r.proxyOptimisedTokens }
        outcomes := r.outcomes } r.sideCalls
    rw [hpaid.frame]

theorem processAndServe_frame (s : Run) (answer : Answer) :
    (processAndServe w r s answer).1.answer? = some answer ∧
      (processAndServe w r s answer).2.ctx.providerAdapter = s.ctx.providerAdapter ∧
      (processAndServe w r s answer).2.ctx.routedModel = s.ctx.routedModel := by
  unfold processAndServe
  split
  · have hpriced := priceBilledCall_repriced w.prices s.ctx answer.response answer.response
    exact ⟨rfl, hpriced.adapter, hpriced.model⟩
  · obtain ⟨xs, -, hpaid⟩ := @Run.sideCalls_paid w.prices s r.repairs
    have hpriced := priceBilledCall_repriced w.prices (s.sideCalls w.prices r.repairs).ctx
      answer.response (r.processed answer.response)
    have hkept : (s.sideCalls w.prices r.repairs).ctx.providerAdapter = s.ctx.providerAdapter := by
      rw [hpaid.frame]
    have hrouted : (s.sideCalls w.prices r.repairs).ctx.routedModel = s.ctx.routedModel := by
      rw [hpaid.frame]
    have hadapter := hpriced.adapter.trans hkept
    have hmodel := hpriced.model.trans hrouted
    refine ⟨rfl, ?_⟩
    dsimp only
    split
    · have hagain := priceBilledCall_repriced w.prices
        (priceBilledCall w.prices (s.sideCalls w.prices r.repairs).ctx answer.response
          (r.processed answer.response)) answer.response (r.processed answer.response)
      exact ⟨hagain.adapter.trans hadapter, hagain.model.trans hmodel⟩
    · exact ⟨hadapter, hmodel⟩

/-- An agent's or a tier's answer is the one served, with the first adapter still in force. -/
theorem served_of_unpinned {model : String} {response : Json}
    (h : unpinnedAnswer w r = some (model, response)) :
    (∃ answer, (serveCore w r).1.answer? = some answer ∧ answer.response = response) ∧
      (serveCore w r).2.ctx.providerAdapter = w.getAdapter r.routedModel ∧
      (serveCore w r).2.ctx.routedModel = model := by
  have hadapter := processRequest_adapter w r
  unfold unpinnedAnswer at h
  unfold serveCore
  dsimp only
  split at h
  · rename_i hverdict
    cases h
    rw [hverdict]
    obtain ⟨hexit, hkept, hmodel⟩ := @processAndServe_frame w r
      ({ processRequest w r with
          ctx := { (processRequest w r).ctx with routedModel := model } }.complete w.prices
        { model, site := .agent, response, booked := none }).2
      ({ processRequest w r with
          ctx := { (processRequest w r).ctx with routedModel := model } }.complete w.prices
        { model, site := .agent, response, booked := none }).1
    exact ⟨⟨_, hexit, rfl⟩, hkept.trans hadapter, hmodel⟩
  · rename_i k hverdict
    rw [hverdict]
    dsimp only
    unfold serveCascade
    have hsettled := @Cascade.executeThreeTierCascade_settled w.prices k (processRequest w r)
    rcases hrun : k.executeThreeTierCascade w.prices (processRequest w r) with
      ⟨_ | ⟨model', answer⟩, s'⟩
    · rw [hrun] at h
      cases h
    · rw [hrun] at h hsettled
      have hlast : AnsweredLast w.prices (processRequest w r) s' model' answer := hsettled
      obtain ⟨xs, -, hpaid⟩ := hlast.called
      dsimp only at h ⊢
      split at h
      · rename_i htaken
        cases h
        rw [if_pos htaken]
        obtain ⟨hexit, hkept, hmodel⟩ := @processAndServe_frame w r
          { s' with ctx := { s'.ctx with routedModel := model } } answer
        refine ⟨⟨answer, hexit, rfl⟩, hkept.trans ?_, hmodel⟩
        dsimp only
        rw [hpaid.frame]
        exact hadapter
      · cases h
  · cases h

/-- Any other answer was fetched by the resilience layer, which pins the winner's adapter. -/
theorem owned_of_pinned (h : unpinnedAnswer w r = none)
    (hanswer : ((serveCore w r).1.answer?).isSome = true) : Owned w (serveCore w r).2.ctx := by
  unfold unpinnedAnswer at h
  unfold serveCore at hanswer ⊢
  dsimp only at hanswer ⊢
  cases hverdict : r.verdict with
  | agent model response =>
    rw [hverdict] at h
    cases h
  | proceed plan =>
    rw [hverdict] at hanswer
    cases plan with
    | none => exact callProvider_owned hanswer
    | some k =>
      rw [hverdict] at h
      dsimp only at h hanswer ⊢
      unfold serveCascade at hanswer ⊢
      rcases hrun : k.executeThreeTierCascade w.prices (processRequest w r) with
        ⟨_ | ⟨model, answer⟩, s'⟩
      · rw [hrun] at hanswer
        exact callProvider_owned hanswer
      · rw [hrun] at h hanswer
        dsimp only at h hanswer ⊢
        split at h
        · cases h
        · rename_i hrefused
          rw [if_neg hrefused] at hanswer ⊢
          exact callProvider_owned hanswer
  | _ =>
    rw [hverdict] at hanswer
    cases hanswer

theorem callWhole_unanswered {s : Run} (hnone : (callWhole w r s).1.answer? = none) :
    (callWhole w r s).2.completed = s.completed := by
  unfold callWhole at hnone ⊢
  rcases resilientCall_cases (w := w) (r := r) s.ctx r.whole with
    ⟨target, response, hphase, hwinners, -⟩ | ⟨hother, hwinners, hanswered⟩
  · simp only [hphase] at hnone
    rw [(processAndServe_frame _ _).1] at hnone
    cases hnone
  · dsimp only
    rw [hanswered]
    split
    · rename_i hphase
      exact absurd hphase (hother _)
    · exact List.append_nil _

theorem callStream_unanswered {s : Run} (hnone : (callStream w r s).1.answer? = none)
    (hread : Bookable w.prices (callStream w r s).2) :
    (callStream w r s).2.completed = s.completed := by
  unfold callStream at hnone hread ⊢
  rcases resilientCall_cases (w := w) (r := r) s.ctx r.chunks with
    ⟨target, e, hphase, hwinners, hanswered⟩ | ⟨hother, hwinners, hanswered⟩
  · simp only [hphase, hanswered] at hnone hread ⊢
    by_cases hserved : e.served = true
    · rw [if_pos hserved] at hnone
      split at hnone <;> cases hnone
    · rw [if_neg hserved] at hread ⊢
      dsimp only at hread ⊢
      rw [List.filterMap_cons, streamCall, if_neg hserved] at hread ⊢
      by_cases hraised : e.raised = true
      · rw [if_pos hraised]
        exact List.append_nil _
      · -- a stream that ended without a chunk is not booked
        rw [if_neg hraised] at hread
        have hlast := hread _ (List.mem_append_right _ List.mem_cons_self)
          (by intro hsite; cases hsite)
        cases hlast.2
  · dsimp only
    rw [hanswered]
    split
    · rename_i hphase
      exact absurd hphase (hother _)
    · exact List.append_nil _

theorem callProvider_unanswered {s : Run} (hnone : (callProvider w r s).1.answer? = none)
    (hread : Bookable w.prices (callProvider w r s).2) :
    (callProvider w r s).2.completed = s.completed := by
  rcases callProvider_cases w r s with ⟨status, hfailed⟩ | hcalled
  · rw [hfailed]
  · rw [hcalled] at hnone hread ⊢
    by_cases hstream : r.stream = true
    · rw [if_pos hstream] at hnone hread ⊢
      exact callStream_unanswered hnone hread
    · rw [if_neg hstream] at hnone ⊢
      exact callWhole_unanswered hnone

theorem fallBack_completed (k : Cascade) (s : Run) : (fallBack k s).completed = s.completed := by
  unfold fallBack
  split <;> rfl

/-- A request that ends without an answer has paid for its stages and its cascade. -/
theorem completed_of_unanswered (hnone : (serveCore w r).1.answer? = none)
    (hread : Bookable w.prices (serveCore w r).2) :
    (serveCore w r).2.completed = paidStages w r := by
  unfold paidStages
  unfold serveCore at hnone hread ⊢
  dsimp only at hnone hread ⊢
  cases hverdict : r.verdict with
  | agent model response =>
    rw [hverdict] at hnone
    dsimp only [serveAgent] at hnone
    rw [(processAndServe_frame _ _).1] at hnone
    cases hnone
  | proceed plan =>
    rw [hverdict] at hnone hread
    cases plan with
    | none => exact callProvider_unanswered hnone hread
    | some k =>
      dsimp only at hnone hread ⊢
      unfold serveCascade at hnone hread ⊢
      rcases hrun : k.executeThreeTierCascade w.prices (processRequest w r) with
        ⟨_ | ⟨model, answer⟩, s'⟩
      · rw [hrun] at hnone hread
        exact (callProvider_unanswered hnone hread).trans (fallBack_completed k s')
      · rw [hrun] at hnone hread
        dsimp only at hnone hread ⊢
        split at hnone
        · rw [(processAndServe_frame _ _).1] at hnone
          cases hnone
        · rename_i hrefused
          rw [if_neg hrefused] at hread ⊢
          exact (callProvider_unanswered hnone hread).trans (fallBack_completed k s')
  | _ => rfl

/-! ### Free calls -/

theorem bestRow_cases (env : Prices) (modelLower : String) (best : Option (String × Rates))
    (row : String × Rates) :
    bestRow env modelLower best row = best ∨ bestRow env modelLower best row = some row := by
  by_cases hdefault : row.1 = "default"
  · exact Or.inl (if_pos hdefault)
  · unfold bestRow
    rw [if_neg hdefault]
    generalize (contains (env.rt.lower row.1) modelLower && _) = better
    cases better with
    | true => exact Or.inr rfl
    | false => exact Or.inl rfl

theorem bestRow_mem {env : Prices} {modelLower : String} {row : String × Rates}
    {table : List (String × Rates)} {best : Option (String × Rates)}
    (h : table.foldl (bestRow env modelLower) best = some row) : row ∈ table ∨ best = some row := by
  induction table generalizing best with
  | nil => exact Or.inr h
  | cons head table ih =>
    rcases ih h with hmem | hbest
    · exact Or.inl (List.mem_cons_of_mem head hmem)
    · rcases bestRow_cases env modelLower best head with hkept | htaken
      · exact Or.inr (hkept.symm.trans hbest)
      · obtain rfl := Option.some.inj (htaken.symm.trans hbest)
        exact Or.inl List.mem_cons_self

theorem getCostPer1k_nonneg {env : Prices}
    (hrates : ∀ row ∈ env.pricing, 0 ≤ row.2.input ∧ 0 ≤ row.2.output) (model : String) :
    0 ≤ (getCostPer1k env model).input ∧ 0 ≤ (getCostPer1k env model).output := by
  unfold getCostPer1k
  split
  · rename_i row hrow
    exact hrates row ((bestRow_mem hrow).resolve_right (by intro h; cases h))
  · cases hdefault : env.pricing.find? fun row => row.1 = "default" with
    | none => exact ⟨by norm_num [Option.map_none], by norm_num [Option.map_none]⟩
    | some row => exact hrates row (List.mem_of_find?_eq_some hdefault)

theorem round8_nonneg {x : ℚ} (h : 0 ≤ x) : 0 ≤ round8 x := by
  have hfloor : 0 ≤ ⌊x * 100000000⌋ := Int.floor_nonneg.mpr (by positivity)
  unfold round8
  dsimp only
  apply div_nonneg
  · split
    · exact_mod_cast hfloor
    · split
      · exact_mod_cast (by omega : (0 : ℤ) ≤ ⌊x * 100000000⌋ + 1)
      · split
        · exact_mod_cast hfloor
        · exact_mod_cast (by omega : (0 : ℤ) ≤ ⌊x * 100000000⌋ + 1)
  · norm_num

theorem listPrice_nonneg (h : Unsigned w r) {c : Completed}
    (hc : c ∈ (serveCore w r).2.completed) : 0 ≤ listPrice w.prices c := by
  unfold listPrice
  split
  · rename_i call hcall
    obtain ⟨hprompt, hcompletion⟩ := h.counts c hc call hcall
    obtain ⟨hinput, houtput⟩ := getCostPer1k_nonneg h.rates c.model
    have hprompt : (0 : ℚ) ≤ call.promptTokens := by exact_mod_cast hprompt
    have hcompletion : (0 : ℚ) ≤ call.completionTokens := by exact_mod_cast hcompletion
    apply round8_nonneg
    positivity
  · exact le_refl 0

/-- Prices that are not negative add up to nothing exactly when each is nothing. -/
theorem sum_eq_zero_iff {xs : List ℚ} (h : ∀ x ∈ xs, 0 ≤ x) : xs.sum = 0 ↔ ∀ x ∈ xs, x = 0 := by
  constructor
  · intro hsum x hx
    exact List.all_zero_of_le_zero_le_of_sum_eq_zero h hsum hx
  · intro hzero
    exact List.sum_eq_zero hzero

/-- A deferred request records every call it has made so far. -/
theorem deferred_cost (w : World) (r : Request) (hverdict : r.verdict = .deferred)
    (hread : Bookable w.prices (serveCore w r).2) :
    (serveCore w r).1 = .deferred ∧ (serveCore w r).2.ctx.costActual =
      ((serveCore w r).2.completed.map (listPrice w.prices)).sum := by
  have hopen := processRequest_open w r
  have hserve : serveCore w r = (.deferred, { processRequest w r with
      ctx := priceCallsMadeBeforeDefer w.prices (processRequest w r).ctx }) := by
    rw [serveCore, hverdict]
  rw [hserve] at hread ⊢
  refine ⟨rfl, ?_⟩
  have hbook : ∀ c ∈ (processRequest w r).completed,
      c.model ≠ "" ∧ (c.entry w.prices).isSome = true := by
    intro c hc
    exact hread c hc (hopen.noAgent c hc)
  dsimp only [priceCallsMadeBeforeDefer]
  rw [hopen.unpriced, zero_add, hopen.booked]
  exact priceCalls_entries _ hbook

/-- The recorded cost is the price of the served call plus that of every other completed call,
    exactly when an answer that the resilience layer did not fetch is charged alike by the adapter
    of the model routed first and by its own, and a request without an answer was deferred or
    free. -/
theorem costActual_eq_ledger_iff (w : World) (r : Request) (h : Readable w r)
    (hunsigned : (serveCore w r).1.answer? = none → Unsigned w r) :
    (serveCore w r).2.ctx.costActual = ledger w r (serveCore w r) ↔ Settles w r := by
  by_cases hverdict : r.verdict = .deferred
  · obtain ⟨hexit, hcost⟩ := deferred_cost w r hverdict h.bookable
    have hledger : ledger w r (serveCore w r) =
        ((serveCore w r).2.completed.map (listPrice w.prices)).sum := by
      rw [ledger, hexit]
      rfl
    have hsettles : Settles w r := by
      rw [Settles, hexit]
      exact Or.inl rfl
    rw [hledger]
    exact iff_of_true hcost hsettles
  · have hacc := serveCore_accounted w r hverdict
    rcases hanswer : (serveCore w r).1.answer? with _ | answer
    · rw [Accounted, hanswer] at hacc
      have hsum := @sum_eq_zero_iff ((serveCore w r).2.completed.map (listPrice w.prices))
        (List.forall_mem_map.mpr fun c hc => listPrice_nonneg (hunsigned hanswer) hc)
      rw [ledger, hanswer, Settles, hanswer, hacc.2, if_neg (by simp), or_iff_right hacc.1,
        ← completed_of_unanswered hanswer h.bookable]
      dsimp only
      rw [eq_comm, hsum, List.forall_mem_map]
    · rw [Accounted, hanswer] at hacc
      obtain ⟨c, hplace, hresponse, hmodel⟩ := hacc.answered.at_place
      obtain ⟨htruthy, hown, hserved⟩ := h.served answer c hanswer hplace
      obtain ⟨own, hown⟩ := Option.isSome_iff_exists.mp hown
      obtain ⟨served, hserved⟩ := Option.isSome_iff_exists.mp hserved
      have hcost := hacc.cost h.bookable (by rw [hresponse]; exact htruthy) served
        (by rw [hresponse, hmodel]; exact hserved)
      have halike : served = own ↔ Settles w r := by
        rw [Settles, hanswer, if_pos Option.isSome_some]
        cases hunpinned : unpinnedAnswer w r with
        | none =>
          have howned := owned_of_pinned hunpinned (by rw [hanswer]; rfl)
          rw [howned, hmodel] at hserved
          refine iff_of_true (Option.some.inj (hserved.symm.trans hown)) ?_
          intro model response hsome
          cases hsome
        | some found =>
          obtain ⟨model, response⟩ := found
          obtain ⟨⟨answer', hanswer', hsame⟩, hadapter, hrouted⟩ := served_of_unpinned hunpinned
          obtain rfl := Option.some.inj (hanswer.symm.trans hanswer')
          obtain rfl : c.response = response := hresponse.symm.trans hsame
          obtain rfl : c.model = model := hmodel.symm.trans hrouted
          rw [hadapter] at hserved
          rw [ownPrice] at hown
          constructor
          · rintro rfl model response hsome
            cases hsome
            rw [hserved, hown]
          · intro halike
            have heq := halike c.model c.response rfl
            rw [hserved, hown] at heq
            exact Option.some.inj heq
      rw [ledger, hanswer, hcost]
      dsimp only
      rw [hplace, Option.bind_some, hown, Option.getD_some, add_left_inj]
      exact halike

/-! ## 10. A cascade that escalates, and a refusal after a paid call -/

def openAiPrices : Prices where
  rt := gateway
  pricing := [("default", {}), ("gpt-4o-mini", ⟨3 / 20000, 3 / 5000⟩),
    ("gpt-4o", ⟨1 / 400, 1 / 100⟩), ("llama-3", ⟨0, 0⟩)]
  reasoningRateMultiplier := 1
  batchDiscount := 1
  intOf := fun _ => none
  dictOf := fun _ => none

def openAi : Adapter where
  name := "openai"
  requiresApiKey := true
  extractUsage := extractUsage openAiPrices
  cacheReadCostMultiplier := 1 / 2
  cacheWriteCostMultiplier := 1
  cacheWrite1hCostMultiplier := 1

def openAiWorld : World where
  prices := openAiPrices
  getAdapter := fun _ => openAi
  resolveProvider := fun _ => "openai"
  resilience := fun _ => {}
  fallbacks := fun _ => []

/-- A chat completion with its usage. -/
def completion (content : String) (promptTokens completionTokens : Int) : Json :=
  .obj
    [("choices", .arr [.obj [("message", .obj [("content", .str content)]),
        ("finish_reason", .str "stop")]]),
      ("usage", .obj [("prompt_tokens", .int promptTokens),
        ("completion_tokens", .int completionTokens)])]

def noCalls {ρ : Type} : Env ρ where
  now := fun _ => 0
  outcome := fun _ => .cancelled
  others := fun _ store => store

/-- The routing judge is asked, and then what was retrieved is found to be poisoned. -/
def refusedAfterJudge : Request where
  model := "gpt-4o"
  routedModel := "gpt-4o-mini"
  currentTokenCount := 200
  proxyOptimisedTokens := 200
  sideCalls := [.chat "gpt-4o-mini"]
  verdict := .refused
  outcomes := [some (completion "simple" 1000 10)]
  whole := noCalls
  chunks := noCalls

def twoTiers : Cascade where
  simpleModels := ["gpt-4o-mini"]
  mediumModels := ["gpt-4o"]
  complexModels := []
  tier1Model := some "gpt-4o-mini"
  maxTierIdx := some 1
  selectFromTier := fun models _ => models.head?
  hasProviderKey := fun _ => true
  hasBudget := fun _ => false
  refuses := fun _ => false
  blank := fun content => decide (content = .str "")
  judgeVerdict := fun _ => 1 / 2

def escalated : Request where
  model := "gpt-4o"
  routedModel := "gpt-4o-mini"
  currentTokenCount := 200
  proxyOptimisedTokens := 200
  sideCalls := [.chat "gpt-4o-mini"]
  verdict := .proceed (some twoTiers)
  outcomes := [some (completion "medium" 1000 10), some (completion "" 200 0),
    some (completion "Paris." 200 4)]
  whole := noCalls
  chunks := noCalls

theorem readable_escalated : (serveCore openAiWorld escalated).1 =
      .served ⟨2, completion "Paris." 200 4⟩ ∧ Readable openAiWorld escalated := by
  have hexit : (serveCore openAiWorld escalated).1 =
      .served ⟨2, completion "Paris." 200 4⟩ := by
    decide +kernel
  have hplaced : (serveCore openAiWorld escalated).2.completed[2]? =
      some { model := "gpt-4o", site := .main, response := completion "Paris." 200 4,
             booked := some (completion "Paris." 200 4) } := by
    decide +kernel
  refine ⟨hexit, ?_, ?_⟩
  · unfold Bookable
    decide +kernel
  · intro answer c hanswer hplace
    rw [hexit] at hanswer
    obtain rfl := Option.some.inj hanswer
    rw [hplaced] at hplace
    obtain rfl := Option.some.inj hplace
    decide +kernel

/-- The same judge on a model that costs nothing. -/
def refusedAfterFreeJudge : Request := { refusedAfterJudge with sideCalls := [.chat "llama-3"] }

theorem readable_refused : (serveCore openAiWorld refusedAfterFreeJudge).1.answer? = none ∧
    Readable openAiWorld refusedAfterFreeJudge ∧ Unsigned openAiWorld refusedAfterFreeJudge ∧
      Settles openAiWorld refusedAfterFreeJudge := by
  have hexit : (serveCore openAiWorld refusedAfterFreeJudge).1.answer? = none := by
    decide +kernel
  refine ⟨hexit, ⟨?_, ?_⟩, ⟨by decide +kernel, by decide +kernel⟩, ?_⟩
  · unfold Bookable
    decide +kernel
  · intro answer c hanswer
    rw [hexit] at hanswer
    cases hanswer
  · rw [Settles, hexit]
    apply Or.inr
    decide +kernel

theorem costActual_eq_ledger_escalated :
    (serveCore openAiWorld escalated).2.ctx.costActual =
        ledger openAiWorld escalated (serveCore openAiWorld escalated) ∧
      (serveCore openAiWorld refusedAfterFreeJudge).2.ctx.costActual =
        ledger openAiWorld refusedAfterFreeJudge (serveCore openAiWorld refusedAfterFreeJudge) := by
  obtain ⟨hexit, hread⟩ := readable_escalated
  obtain ⟨-, hread', hunsigned, hsettles⟩ := readable_refused
  constructor
  · apply (costActual_eq_ledger_iff openAiWorld escalated hread ?_).mpr
    · rw [Settles, hexit]
      intro model response _
      rfl
    · intro hnone
      rw [hexit] at hnone
      cases hnone
  · exact (costActual_eq_ledger_iff openAiWorld refusedAfterFreeJudge hread'
      fun _ => hunsigned).mpr hsettles

/-- The judge was paid, the request is refused, and no cost is recorded. -/
theorem not_costActual_eq_ledger_refused :
    Bookable openAiPrices (serveCore openAiWorld refusedAfterJudge).2 ∧
      (serveCore openAiWorld refusedAfterJudge).2.ctx.costActual ≠
        ledger openAiWorld refusedAfterJudge (serveCore openAiWorld refusedAfterJudge) := by
  constructor
  · unfold Bookable
    decide +kernel
  · decide +kernel

end TokenProxy.Ledger
