/-
  TokenProxy/ToolEligibility.lean
  ===============================
  **The tool gate on a finished answer** (`G32ToolEligibility.process_response`,
  `middleware/g32_tool_eligibility.py`).

  The gate walks the choices of a chat completion and applies the tenant's policy
  to the `tool_calls` of each message.  A choice has a second place for a call,
  the legacy `function_call` object of its message; the gate does not look there,
  and what it says about a whole answer is exact only for answers whose legacy
  calls the policy allows anyway (`gate_enforces_iff`).
-/
import TokenProxy.ToolPolicy
import TokenProxy.Pointwise

namespace TokenProxy.Tools

/-! ## 1. The code -/

inductive GateMode where
  | off
  | flag
  | block
deriving DecidableEq, Repr

def defaultBlockMessage : String :=
  "A tool the model requested is not permitted by this workspace's tool policy, " ++
    "so it was not carried out."

structure GateConfig where
  enabled : Bool := true
  mode : GateMode := .flag
  blockMessage : Json := .str defaultBlockMessage

/-- The two ways in which the walk can raise; the pipeline then withholds the answer. -/
inductive PyError where
  | notIterable
  | unhashable
deriving DecidableEq, Repr

/-- What the gate leaves on the request context. -/
structure Eligibility where
  action : GateMode
  denied : List Json
  count : Nat
  noCache : Bool
deriving DecidableEq

/-- The function name of a `tool_calls` entry, or the empty string. -/
def callName (call : Json) : Json :=
  let fn := call.getD "function" .null
  if fn.isObj then (fn.getD "name" .null).orElse (.str "") else .str ""

def callAllowed (policy : ToolPolicy) (call : Json) : Bool :=
  (evaluateTool policy (callName call)).allowed

def message (choice : Json) : Json := choice.getD "message" .null

/-- The `tool_calls` of a message, when it is a list. -/
def messageCalls (msg : Json) : List Json :=
  (((msg.get? "tool_calls").bind Json.items?)).getD []

/-- The choice after a full denial: no `tool_calls`, and the message still well formed. -/
def withoutCalls (cfg : GateConfig) (choice msg : Json) : Json :=
  let bare := msg.pop "tool_calls"
  let choice :=
    if choice.get? "finish_reason" = some (.str "tool_calls") then
      choice.set "finish_reason" (.str "stop")
    else choice
  let msg :=
    if (bare.getD "content" .null).truthy then bare else bare.set "content" cfg.blockMessage
  choice.set "message" msg

structure Applied where
  choice : Json
  denied : List Json := []
  stripped : Bool := false

def applyToChoice (policy : ToolPolicy) (cfg : GateConfig) (choice : Json) : Applied :=
  let msg := message choice
  let calls := messageCalls msg
  if !msg.isObj then { choice }
  else if calls.isEmpty then { choice }
  else
    let denied := (calls.filter fun call => !callAllowed policy call).map fun call =>
      (callName call).orElse (.str "<unnamed>")
    let kept := if cfg.mode = .block then calls.filter (callAllowed policy) else calls
    if kept.length = calls.length then { choice, denied }
    else if kept.isEmpty then { choice := withoutCalls cfg choice msg, denied, stripped := true }
    else
      { choice := choice.set "message" (msg.set "tool_calls" (.arr kept))
        denied, stripped := true }

/-- Iterate over a value for dicts: the keys of a dict and the characters of a string are none. -/
def iterate : Json → Except PyError (List Json)
  | .arr items => .ok items
  | .obj _ => .ok []
  | .str _ => .ok []
  | _ => .error .notIterable

def iterChoices (response : Json) : Except PyError (List Json) :=
  iterate ((response.getD "choices" (.arr [])).orElse (.arr []))

/-- `list(dict.fromkeys(denied))`: the first of each key, in order. -/
def dedup : List Json → Except PyError (List Json)
  | [] => .ok []
  | name :: names => do
    let some key := name.dictKey? | .error .unhashable
    let rest ← dedup names
    return name :: rest.filter fun other => other.dictKey? ≠ some key

def modeText : GateMode → String
  | .off => "off"
  | .flag => "flag"
  | .block => "block"

def annotate (response : Json) (mode : GateMode) (denied : List Json) (stripped : Bool) : Json :=
  let opt := response.getD "_token_opt" (.obj [])
  if opt.isObj then
    response.set "_token_opt" (opt.set "tool_eligibility" (.obj
      [("mode", .str (modeText mode)), ("denied", .arr denied), ("stripped", .bool stripped)]))
  else response

/-- `process_response`, with the tenant's compiled policy. -/
def processResponse (policy : ToolPolicy) (cfg : GateConfig) (response : Json) :
    Except PyError (Json × Option Eligibility) :=
  if !cfg.enabled then .ok (response, none)
  else if cfg.mode = .off then .ok (response, none)
  else if !response.isObj then .ok (response, none)
  else if policy.isNoop then .ok (response, none)
  else do
    let choices ← iterChoices response
    let applied := choices.map (applyToChoice policy cfg)
    let denied := applied.flatMap Applied.denied
    let stripped := applied.any Applied.stripped
    if denied.isEmpty then return (response, none)
    let names ← dedup denied
    let walked := response.set "choices" (.arr (applied.map Applied.choice))
    return (annotate walked cfg.mode names stripped,
      some { action := cfg.mode, denied := names, count := denied.length, noCache := stripped })

/-! ## 2. What the gate owes an answer -/

def choices (response : Json) : List Json :=
  (response.getD "choices" (.arr [])).items?.getD []

/-- The legacy call of a choice. -/
def functionCall (choice : Json) : Json := (message choice).getD "function_call" .null

def legacyName (choice : Json) : Json := (functionCall choice).getD "name" .null

/-- No choice carries a call, in either shape, whose name the policy denies, and every call it
    allows is still there, in its place. -/
structure Enforced (policy : ToolPolicy) (before after : Json) : Prop where
  noDenied : ∀ choice ∈ choices after,
    (∀ call ∈ messageCalls (message choice), policy.denies (callName call) = false) ∧
      policy.denies (legacyName choice) = false
  kept : List.Forall₂ (fun choice choice' =>
    (messageCalls (message choice')).filter (callAllowed policy) =
        (messageCalls (message choice)).filter (callAllowed policy) ∧
      functionCall choice' = functionCall choice) (choices before) (choices after)

/-! ## 3. One choice -/

variable {policy : ToolPolicy} {cfg : GateConfig}

theorem messageCalls_set (fields : List (String × Json)) (calls : List Json) :
    messageCalls (Json.set (.obj fields) "tool_calls" (.arr calls)) = calls := by
  rw [messageCalls, Json.get?_set_self]
  rfl

theorem message_set (fields : List (String × Json)) (msg : Json) :
    message (Json.set (.obj fields) "message" msg) = msg := by
  rw [message, Json.getD, Json.get?_set_self]
  rfl

/-- A choice with a message is a dict, and stays one when its finish reason is corrected. -/
theorem choice_obj {choice : Json} (h : (message choice).isObj = true) :
    ∃ fields, choice = .obj fields := by
  cases choice with
  | obj fields => exact ⟨fields, rfl⟩
  | _ => cases h

theorem withoutCalls_message {choice : Json} (h : (message choice).isObj = true) :
    message (withoutCalls cfg choice (message choice)) =
      let bare := (message choice).pop "tool_calls"
      if (bare.getD "content" .null).truthy then bare else bare.set "content" cfg.blockMessage := by
  obtain ⟨fields, rfl⟩ := choice_obj h
  unfold withoutCalls
  dsimp only
  by_cases hreason : Json.get? (.obj fields) "finish_reason" = some (.str "tool_calls")
  · rw [if_pos hreason]
    exact message_set _ _
  · rw [if_neg hreason]
    exact message_set _ _

/-- After a full denial there are no calls left, and the legacy call is untouched. -/
theorem withoutCalls_calls {choice : Json} (h : (message choice).isObj = true) :
    messageCalls (message (withoutCalls cfg choice (message choice))) = [] ∧
      functionCall (withoutCalls cfg choice (message choice)) = functionCall choice := by
  have hcalls : ((message choice).pop "tool_calls").get? "tool_calls" = none := by
    rw [Json.get?_pop, if_pos rfl]
  have hlegacy : ((message choice).pop "tool_calls").get? "function_call" =
      (message choice).get? "function_call" := by
    rw [Json.get?_pop, if_neg (by decide)]
  unfold functionCall
  rw [withoutCalls_message h]
  dsimp only
  by_cases hcontent : (((message choice).pop "tool_calls").getD "content" .null).truthy = true
  · rw [if_pos hcontent, messageCalls, hcalls, Json.getD, hlegacy]
    exact ⟨rfl, rfl⟩
  · rw [if_neg hcontent, messageCalls, Json.get?_set_of_ne _ (by decide), hcalls, Json.getD,
      Json.get?_set_of_ne _ (by decide), hlegacy]
    exact ⟨rfl, rfl⟩

theorem messageCalls_of_not_obj {msg : Json} (h : ¬ msg.isObj = true) : messageCalls msg = [] := by
  cases msg with
  | obj fields => exact absurd rfl h
  | _ => rfl

/-- What block mode makes of a choice. -/
theorem applyToChoice_cases (policy : ToolPolicy) (hmode : cfg.mode = .block) (choice : Json) :
    let calls := messageCalls (message choice)
    let kept := calls.filter (callAllowed policy)
    (kept = calls ∧ (applyToChoice policy cfg choice).choice = choice) ∨
    (kept = [] ∧ (message choice).isObj = true ∧
      (applyToChoice policy cfg choice).choice = withoutCalls cfg choice (message choice)) ∨
    ((message choice).isObj = true ∧ (applyToChoice policy cfg choice).choice =
      choice.set "message" ((message choice).set "tool_calls" (.arr kept))) := by
  intro calls kept
  unfold applyToChoice
  simp only [if_pos hmode]
  by_cases hobj : (message choice).isObj = true
  · rw [if_neg (by rw [hobj]; simp)]
    by_cases hempty : calls.isEmpty = true
    · rw [if_pos hempty]
      have hnil : calls = [] := List.isEmpty_iff.mp hempty
      exact Or.inl ⟨by rw [show kept = calls.filter _ from rfl, hnil]; rfl, rfl⟩
    · rw [if_neg hempty]
      by_cases hlen : kept.length = calls.length
      · rw [if_pos hlen]
        exact Or.inl ⟨List.filter_sublist.eq_of_length hlen, rfl⟩
      · rw [if_neg hlen]
        by_cases hnone : kept.isEmpty = true
        · rw [if_pos hnone]
          exact Or.inr (Or.inl ⟨List.isEmpty_iff.mp hnone, hobj, rfl⟩)
        · rw [if_neg hnone]
          exact Or.inr (Or.inr ⟨hobj, rfl⟩)
  · rw [if_pos (by simpa using hobj)]
    have hnil : calls = [] := messageCalls_of_not_obj hobj
    exact Or.inl ⟨by rw [show kept = calls.filter _ from rfl, hnil]; rfl, rfl⟩

/-- In block mode exactly the allowed calls remain, in order. -/
theorem applyToChoice_block (policy : ToolPolicy) (hmode : cfg.mode = .block) (choice : Json) :
    messageCalls (message (applyToChoice policy cfg choice).choice) =
        (messageCalls (message choice)).filter (callAllowed policy) ∧
      functionCall (applyToChoice policy cfg choice).choice = functionCall choice := by
  rcases applyToChoice_cases policy hmode choice with
    ⟨hkept, heq⟩ | ⟨hkept, hobj, heq⟩ | ⟨hobj, heq⟩
  · rw [heq, hkept]
    exact ⟨rfl, rfl⟩
  · rw [heq, hkept]
    exact withoutCalls_calls hobj
  · obtain ⟨fields, rfl⟩ := choice_obj hobj
    obtain ⟨msgFields, hmsg⟩ : ∃ msgFields, message (.obj fields) = .obj msgFields := by
      cases hmsg : message (.obj fields) with
      | obj msgFields => exact ⟨msgFields, rfl⟩
      | _ => rw [hmsg] at hobj; cases hobj
    rw [heq, functionCall, message_set, hmsg, messageCalls_set, functionCall, hmsg, Json.getD,
      Json.get?_set_of_ne _ (by decide)]
    exact ⟨rfl, rfl⟩

/-- Every call that the policy does not allow is recorded. -/
theorem applyToChoice_denied (choice : Json) :
    (applyToChoice policy cfg choice).denied =
      ((messageCalls (message choice)).filter fun call => !callAllowed policy call).map fun call =>
        (callName call).orElse (.str "<unnamed>") := by
  unfold applyToChoice
  dsimp only
  by_cases hobj : (message choice).isObj = true
  · rw [if_neg (by rw [hobj]; simp)]
    by_cases hempty : (messageCalls (message choice)).isEmpty = true
    · rw [if_pos hempty, List.isEmpty_iff.mp hempty]
      rfl
    · rw [if_neg hempty]
      generalize (if cfg.mode = GateMode.block then (_ : List Json) else _) = kept
      split
      · rfl
      · split <;> rfl
  · rw [if_pos (by simpa using hobj), messageCalls_of_not_obj hobj]
    rfl

/-! ## 4. The whole answer -/

theorem iterate_ok {value : Json} {items : List Json} (h : iterate value = .ok items) :
    items = value.items?.getD [] := by
  cases value with
  | arr raws => exact (Except.ok.inj h).symm
  | obj fields => exact (Except.ok.inj h).symm
  | str text => exact (Except.ok.inj h).symm
  | _ => cases h

/-- A falsy value holds no items. -/
theorem items_orElse (value : Json) :
    (value.orElse (.arr [])).items?.getD [] = value.items?.getD [] := by
  unfold Json.orElse
  split
  · rfl
  · rename_i hfalsy
    cases value with
    | arr items =>
      cases items with
      | nil => rfl
      | cons item items => exact absurd rfl hfalsy
    | _ => rfl

theorem choices_of_iterChoices {response : Json} {items : List Json}
    (h : iterChoices response = .ok items) : items = choices response := by
  rw [iterate_ok h, items_orElse]
  rfl

theorem choices_annotate (response : Json) (mode : GateMode) (denied : List Json)
    (stripped : Bool) : choices (annotate response mode denied stripped) = choices response := by
  unfold annotate
  dsimp only
  split
  · rw [choices, Json.getD, Json.get?_set_of_ne _ (by decide)]
    rfl
  · rfl

theorem choices_set (fields : List (String × Json)) (items : List Json) :
    choices (Json.set (.obj fields) "choices" (.arr items)) = items := by
  rw [choices, Json.getD, Json.get?_set_self]
  rfl

/-- What block mode makes of an answer: it leaves it, having found no denied call, or it
    applies the policy to every choice. -/
theorem processResponse_cases (henabled : cfg.enabled = true) (hmode : cfg.mode = .block)
    {response out : Json} {record : Option Eligibility}
    (h : processResponse policy cfg response = .ok (out, record)) :
    (out = response ∧ ∀ choice ∈ choices response,
      ∀ call ∈ messageCalls (message choice), policy.denies (callName call) = false) ∨
    choices out = (choices response).map fun choice => (applyToChoice policy cfg choice).choice := by
  unfold processResponse at h
  rw [if_neg (by rw [henabled]; simp), if_neg (by rw [hmode]; decide)] at h
  by_cases hobj : response.isObj = true
  · rw [if_neg (by rw [hobj]; simp)] at h
    by_cases hnoop : policy.isNoop = true
    · rw [if_pos hnoop] at h
      cases h
      exact Or.inl ⟨rfl, fun _ _ call _ => not_denies_of_noop hnoop (callName call)⟩
    · rw [if_neg hnoop] at h
      cases hiter : iterChoices response with
      | error err => rw [hiter] at h; cases h
      | ok items =>
        obtain rfl := choices_of_iterChoices hiter
        rw [hiter] at h
        change (if _ then _ else _) = _ at h
        by_cases hnone : (((choices response).map (applyToChoice policy cfg)).flatMap
            Applied.denied).isEmpty = true
        · rw [if_pos hnone] at h
          cases h
          refine Or.inl ⟨rfl, fun choice hchoice call hcall => not_denies_of_allowed ?_⟩
          have hdenied := List.flatMap_eq_nil_iff.mp (List.isEmpty_iff.mp hnone) _
            (List.mem_map_of_mem hchoice)
          rw [applyToChoice_denied, List.map_eq_nil_iff, List.filter_eq_nil_iff] at hdenied
          simpa [callAllowed] using hdenied call hcall
        · rw [if_neg hnone] at h
          cases hnames : dedup (((choices response).map (applyToChoice policy cfg)).flatMap
              Applied.denied) with
          | error err => rw [hnames] at h; cases h
          | ok names =>
            rw [hnames] at h
            obtain ⟨hout, -⟩ := Prod.mk.inj (Except.ok.inj h)
            cases response with
            | obj fields =>
              refine Or.inr ?_
              rw [← hout, choices_annotate, choices_set, List.map_map]
              rfl
            | _ => cases hobj
  · rw [if_pos (by simpa using hobj)] at h
    cases h
    refine Or.inl ⟨rfl, fun choice hchoice => ?_⟩
    cases response with
    | obj fields => exact absurd rfl hobj
    | _ => cases hchoice

/-- **The exact condition.**  Block mode enforces the policy on an answer exactly when the
    policy denies none of its legacy calls. -/
theorem gate_enforces_iff (henabled : cfg.enabled = true) (hmode : cfg.mode = .block)
    {response out : Json} {record : Option Eligibility}
    (h : processResponse policy cfg response = .ok (out, record)) :
    Enforced policy response out ↔
      ∀ choice ∈ choices response, policy.denies (legacyName choice) = false := by
  constructor
  · intro henforced choice hchoice
    obtain ⟨choice', hchoice', -, hlegacy⟩ :=
      Pointwise.exists_right_of_forall₂ henforced.kept hchoice
    have hnone := (henforced.noDenied choice' hchoice').2
    rwa [legacyName, hlegacy] at hnone
  · intro hlegacy
    rcases processResponse_cases henabled hmode h with ⟨rfl, hcalls⟩ | hout
    · refine ⟨fun choice hchoice => ⟨hcalls choice hchoice, hlegacy choice hchoice⟩, ?_⟩
      exact List.forall₂_same.mpr fun choice _ => ⟨rfl, rfl⟩
    · constructor
      · intro choice hchoice
        rw [hout] at hchoice
        obtain ⟨before, hbefore, rfl⟩ := List.mem_map.mp hchoice
        obtain ⟨hkept, hsame⟩ := applyToChoice_block policy hmode before
        refine ⟨fun call hcall => ?_, ?_⟩
        · rw [hkept] at hcall
          exact not_denies_of_allowed (List.mem_filter.mp hcall).2
        · rw [legacyName, hsame]
          exact hlegacy before hbefore
      · rw [hout]
        refine List.forall₂_map_right_iff.mpr (List.forall₂_same.mpr fun choice _ => ?_)
        obtain ⟨hkept, hsame⟩ := applyToChoice_block policy hmode choice
        refine ⟨?_, hsame⟩
        rw [hkept, List.filter_filter]
        simp only [Bool.and_self]

/-- A denied call beside an allowed one, and an allowed legacy call. -/
theorem gate_enforces_mixed :
    let policy : ToolPolicy := { deny := ["shell_*"] }
    let call (name : String) : Json := .obj [("function", .obj [("name", .str name)])]
    let answer (calls : List Json) : Json := .obj [("choices", .arr [.obj [("message", .obj
      [("tool_calls", .arr calls), ("function_call", .obj [("name", .str "search")])])]])]
    let annotated := annotate (answer [call "search"]) .block [.str "shell_exec"] true
    Enforced policy (answer [call "shell_exec", call "search"]) annotated := by
  intro policy call answer annotated
  have hrun : processResponse policy { mode := .block }
      (answer [call "shell_exec", call "search"]) =
      .ok (annotated, some ⟨.block, [.str "shell_exec"], 1, true⟩) := by rfl
  refine (gate_enforces_iff rfl rfl hrun).mpr ?_
  intro choice hchoice
  rw [List.mem_singleton.mp hchoice]
  decide

/-- A denied legacy call passes the gate. -/
theorem not_enforced_legacy_call :
    let policy : ToolPolicy := { deny := ["shell_exec"] }
    let answer : Json := .obj [("choices", .arr [.obj
      [("finish_reason", .str "function_call"),
        ("message", .obj [("role", .str "assistant"), ("content", .null),
          ("function_call", .obj
            [("name", .str "shell_exec"), ("arguments", .str "ls")])])]])]
    processResponse policy { mode := .block } answer = .ok (answer, none) ∧
      ¬ Enforced policy answer answer := by
  intro policy answer
  refine ⟨rfl, fun h => ?_⟩
  have hnone := (h.noDenied _ List.mem_cons_self).2
  have hdenied : policy.denies (.str "shell_exec") = true := by decide
  rw [show legacyName _ = Json.str "shell_exec" from rfl, hdenied] at hnone
  cases hnone

end TokenProxy.Tools
