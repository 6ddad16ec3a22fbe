/-
  TokenProxy/ProviderCalls.lean
  =============================
  **The provider calls of one request** (`RequestContext.provider_calls`,
  `record_provider_call`, `_timed_llm`, and the call of `main.py` through
  `call_with_resilience`).

  A request asks providers in an order of its own and what comes of each attempt is
  supplied from outside.  `Run.completed` logs every call that completed, whoever made it;
  `ctx.provider_calls` is what the code books.  `Paid` says what a stretch of the code
  adds to both, and everything the code does to its calls is a chain of such stretches.
-/
import TokenProxy.CallPricing
import TokenProxy.ResilientCall

namespace TokenProxy.Ledger

open TokenCounter CallBook

/-! ## 1. The context and the log -/

/-- What the code keeps of a request while it is under way. -/
structure Ctx where
  model : String
  routedModel : String
  providerAdapter : Adapter
  currentTokenCount : Int
  proxyOptimisedTokens : Int
  providerCalls : List ProviderCall := []
  /-- `savings.cost_actual_usd` -/
  costActual : ℚ := 0
  providerCallCount : Nat := 0
  providerCallPromptTokens : Int := 0

/-- Who made a call: the code that answers the request, the code around it (judges,
    extraction, summariser, repair), or the dispatch to an agent. -/
inductive Site where
  | main
  | side
  | agent
deriving DecidableEq, Repr

/-- A provider call that completed. -/
structure Completed where
  model : String
  site : Site
  /-- the answer, which prices the call when it is the one served -/
  response : Json
  /-- what `record_provider_call` is given, when it is called -/
  booked : Option Json
deriving DecidableEq

/-- A provider's answer, with the place of its call in the log. -/
structure Answer where
  call : Nat
  response : Json
deriving DecidableEq

structure Run where
  ctx : Ctx
  /-- what comes of the attempts still to be made; `none` for one that raises -/
  outcomes : List (Option Json)
  completed : List Completed := []

/-- The kinds of side call. -/
inductive SideKind where
  /-- a chat completion: a judge, schema extraction, the summariser, the repair re-ask -/
  | chat (model : String)
  | jev (label : String)
  /-- the embedding that the RouteLLM sidecar pays for -/
  | embedding
deriving DecidableEq, Repr

def SideKind.label : SideKind → Json → String
  | .chat model, _ => model
  | .jev label, _ => label
  | .embedding, result =>
    match (result.getD "embedding_usage" .null).getD "model" .null with
    | .str model => "openai/" ++ (if model = "" then "embedding" else model)
    | _ => "openai/embedding"

/-- What is given to `record_provider_call`; `none` where it is not called. -/
def SideKind.booking : SideKind → Json → Option Json
  | .chat _, response => some response
  | .jev _, body =>
    let usage := body.getD "usage" .null
    if usage.isObj then
      some (.obj [("usage", .obj
        [("prompt_tokens", (usage.getD "input_tokens" .null).orElse (.int 0)),
          ("completion_tokens", (usage.getD "output_tokens" .null).orElse (.int 0))])])
    else none
  | .embedding, result =>
    let usage := result.getD "embedding_usage" .null
    if usage.isObj then
      some (.obj [("usage", .obj
        [("prompt_tokens", (usage.getD "prompt_tokens" .null).orElse (.int 0))])])
    else none

variable (env : Prices)

def recordProviderCall (ctx : Ctx) (model : String) (response : Json) (side : Bool) : Ctx :=
  match recordOf env model response side with
  | some call => { ctx with providerCalls := ctx.providerCalls ++ [call] }
  | none => ctx

/-- The entry that a completed call has in the book. -/
def Completed.entry (c : Completed) : Option ProviderCall :=
  c.booked.bind fun response => recordOf env c.model response (decide (c.site = .side))

/-! ## 2. Making a call -/

namespace Run

/-- A call completes: it is logged, and booked where the code books it. -/
def complete (s : Run) (c : Completed) : Answer × Run :=
  let booked := match c.booked with
    | some response => recordProviderCall env s.ctx c.model response (decide (c.site = .side))
    | none => s.ctx
  (⟨s.completed.length, c.response⟩, { s with ctx := booked, completed := s.completed ++ [c] })

/-- The next attempt; `made` is the call that completes with an answer. -/
def attempt (s : Run) (made : Json → Completed) : Option Answer × Run :=
  match s.outcomes with
  | [] => (none, s)
  | none :: rest => (none, { s with outcomes := rest })
  | some response :: rest =>
    let paid := { s with outcomes := rest }.complete env (made response)
    (some paid.1, paid.2)

/-- `_timed_llm(ctx, litellm.acompletion(..), model=model)`: `if model` books the call. -/
def timedLlm (s : Run) (model : String) : Option Answer × Run :=
  s.attempt env fun response =>
    { model, site := .main, response, booked := if model = "" then none else some response }

/-- A call booked with `side=True`. -/
def sideCall (s : Run) (kind : SideKind) : Option Answer × Run :=
  s.attempt env fun response =>
    { model := kind.label response, site := .side, response, booked := kind.booking response }

/-- Side calls in turn, whatever becomes of each. -/
def sideCalls (s : Run) (kinds : List SideKind) : Run :=
  kinds.foldl (fun s kind => (s.sideCall env kind).2) s

end Run

/-! ## 3. What a stretch of the code adds -/

/-- From `s` to `s'` exactly the calls `xs` completed, each was booked where it can be, and
    of the context nothing else changed. -/
structure Paid (s s' : Run) (xs : List Completed) : Prop where
  completed : s'.completed = s.completed ++ xs
  calls : s'.ctx.providerCalls = s.ctx.providerCalls ++ xs.filterMap (Completed.entry env)
  frame : s'.ctx = { s.ctx with providerCalls := s'.ctx.providerCalls }

variable {env}

theorem Paid.refl (s : Run) : Paid env s s [] where
  completed := (List.append_nil _).symm
  calls := (List.append_nil _).symm
  frame := rfl

theorem Paid.trans {s s' s'' : Run} {xs ys : List Completed} (h : Paid env s s' xs)
    (h' : Paid env s' s'' ys) : Paid env s s'' (xs ++ ys) where
  completed := by rw [h'.completed, h.completed, List.append_assoc]
  calls := by rw [h'.calls, h.calls, List.filterMap_append, List.append_assoc]
  frame := by
    rw [h'.frame, h.frame]

theorem recordProviderCall_calls (ctx : Ctx) (c : Completed) {response : Json}
    (h : c.booked = some response) :
    (recordProviderCall env ctx c.model response (decide (c.site = .side))).providerCalls =
      ctx.providerCalls ++ (c.entry env).toList := by
  rw [Completed.entry, h, Option.bind_some, recordProviderCall]
  split
  · next call hcall => rw [hcall]; rfl
  · next hcall => rw [hcall]; exact (List.append_nil _).symm

theorem recordProviderCall_frame (ctx : Ctx) (model : String) (response : Json) (side : Bool) :
    recordProviderCall env ctx model response side =
      { ctx with
        providerCalls := (recordProviderCall env ctx model response side).providerCalls } := by
  unfold recordProviderCall
  split <;> rfl

theorem Run.complete_paid (s : Run) (c : Completed) :
    Paid env s (s.complete env c).2 [c] := by
  have hentry : [c].filterMap (Completed.entry env) = (c.entry env).toList := by
    rw [List.filterMap_cons, List.filterMap_nil]
    rcases c.entry env with _ | call <;> rfl
  rcases hbooked : c.booked with _ | response
  · refine ⟨rfl, ?_, ?_⟩
    · simp [Run.complete, hbooked, Completed.entry]
    · simp [Run.complete, hbooked]
  · refine ⟨rfl, ?_, ?_⟩
    · rw [hentry, Run.complete, hbooked]
      exact recordProviderCall_calls s.ctx c hbooked
    · rw [Run.complete, hbooked]
      exact recordProviderCall_frame s.ctx c.model response _

/-- An attempt raises, or its call completes and its answer is the last one logged. -/
theorem Run.attempt_cases (s : Run) (made : Json → Completed) :
    ((s.attempt env made).1 = none ∧ Paid env s (s.attempt env made).2 []) ∨
    ∃ response,
      (s.attempt env made).1 = some ⟨s.completed.length, (made response).response⟩ ∧
      Paid env s (s.attempt env made).2 [made response] := by
  unfold Run.attempt
  rcases s.outcomes with _ | ⟨_ | response, rest⟩
  · exact Or.inl ⟨rfl, Paid.refl s⟩
  · exact Or.inl ⟨rfl, ⟨(List.append_nil _).symm, (List.append_nil _).symm, rfl⟩⟩
  · refine Or.inr ⟨response, rfl, ?_⟩
    have hpaid : Paid env { s with outcomes := rest } _ _ :=
      Run.complete_paid { s with outcomes := rest } (made response)
    exact ⟨hpaid.completed, hpaid.calls, hpaid.frame⟩

/-- Only side calls. -/
def Sides (xs : List Completed) : Prop := ∀ x ∈ xs, x.site = .side

theorem Sides.append {xs ys : List Completed} (hxs : Sides xs) (hys : Sides ys) :
    Sides (xs ++ ys) := by
  intro x hx
  rcases List.mem_append.mp hx with h | h
  · exact hxs x h
  · exact hys x h

theorem sides_nil : Sides [] := by
  intro x hx
  cases hx

theorem sides_singleton {c : Completed} (h : c.site = .side) : Sides [c] := by
  intro x hx
  rw [List.mem_singleton.mp hx]
  exact h

theorem Run.sideCall_paid (s : Run) (kind : SideKind) :
    ∃ xs, Sides xs ∧ Paid env s (s.sideCall env kind).2 xs := by
  rcases s.attempt_cases _ with ⟨-, hpaid⟩ | ⟨response, -, hpaid⟩
  · exact ⟨[], sides_nil, hpaid⟩
  · exact ⟨_, sides_singleton rfl, hpaid⟩

theorem Run.sideCalls_paid (s : Run) (kinds : List SideKind) :
    ∃ xs, Sides xs ∧ Paid env s (s.sideCalls env kinds) xs := by
  induction kinds generalizing s with
  | nil => exact ⟨[], sides_nil, Paid.refl s⟩
  | cons kind kinds ih =>
    obtain ⟨xs, hxs, hfirst⟩ := @Run.sideCall_paid env s kind
    obtain ⟨ys, hys, hrest⟩ := ih (s.sideCall env kind).2
    exact ⟨xs ++ ys, hxs.append hys, hfirst.trans hrest⟩

end TokenProxy.Ledger
