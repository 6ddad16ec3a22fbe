/-
  TokenProxy/AgentDispatch.lean
  =============================
  **What an agent can be made to reach** (`middleware/intent_orchestration.py`).

  A request whose text matches a registered agent is sent to the agent's url instead of a
  provider.  The registry is the operator's and, on top of it, the tenant's own, so the url
  is judged as written and by what its host resolves to, and a key is read from the server's
  environment only for an agent that the operator defines.

  Main result: `dispatch_confined`.  Url parsing, the classification of addresses, the
  resolver and the environment are whatever they are.
-/
import TokenProxy.OutgoingParams
import TokenProxy.PyJson
import Mathlib.Data.List.Infix

namespace TokenProxy.Orchestration

abbrev Fields := List (String × Json)

/-! ## 1. What lies outside -/

/-- An address as `ipaddress` classifies it. -/
structure Address where
  isGlobal : Bool
  isMulticast : Bool
deriving DecidableEq, Repr

/-- `urlparse`: the scheme and the host, `hostname` in lower case. -/
structure ParsedUrl where
  scheme : String
  hostname : Option String
deriving DecidableEq, Repr

structure Outside where
  /-- `get_config()`, the operator's own config; `none` where it raises -/
  operatorConfig : Option Json
  urlparse : String → Option ParsedUrl
  /-- `ipaddress.ip_address`; `none` raises `ValueError` -/
  ipAddress : String → Option Address
  /-- `_host_addresses`; `none` where the name does not resolve -/
  hostAddresses : String → Option (List String)
  /-- `os.environ` -/
  environ : String → Option String
  /-- `str(value)` -/
  str : Json → String
  /-- `str.strip`, then `str.lower` -/
  stripLower : String → String
  /-- `str.lower` -/
  lower : String → String
  /-- a search of the word between word boundaries in a text -/
  wordIn : String → String → Bool
  /-- `int(value)`; `none` raises -/
  int : Json → Option Int
  /-- `dict(value)` of what is no dict; `none` raises -/
  dictOf : Json → Option Fields

variable (o : Outside)

/-! ## 2. The registry -/

/-- `for x in value`; `none` raises. -/
def iterate : Json → Option (List Json)
  | .arr items => some items
  | .obj fields => some (fields.map fun f => .str f.1)
  | .str s => some (s.toList.map fun c => .str (String.ofList [c]))
  | _ => none

/-- `_orchestration_cfg`; `none` where it raises. -/
def orchestrationCfg (config : Json) (tenantId : String) : Option Fields := do
  let .obj _ := config | return []
  let global := (config.getD "orchestration" .null).orElse (.obj [])
  let base ← match global with
    | .obj fields => some fields
    | other => o.dictOf other
  let tenants ← ((config.getD "tenants" .null).orElse (.obj [])).fields?
  let tenant ← ((Assoc.lookup tenantId tenants).getD (.obj [])).fields?
  match (Assoc.lookup "orchestration" tenant).getD (.obj []) with
  | .obj overrides => return overrides.foldl (fun merged f => Assoc.insert f.1 f.2 merged) base
  | _ => return base

def agentsOf (cfg : Fields) : Json := ((Assoc.lookup "agents" cfg).getD .null).orElse (.arr [])

/-- `_operator_agents`. -/
def operatorAgents (tenantId : String) : Json :=
  match o.operatorConfig.bind fun config => orchestrationCfg o config tenantId with
  | some cfg => agentsOf cfg
  | none => .arr []

/-- An operator's agent with the same id and url. -/
def sameAgent (agent op : Json) : Bool :=
  op.isObj && (op.getD "id" .null).pyEq (agent.getD "id" .null) &&
    (op.getD "url" .null).pyEq (agent.getD "url" .null)

/-- `_operator_defines`; `none` where the operator's agents cannot be iterated. -/
def operatorDefines (agent : Json) (tenantId : String) : Option Bool :=
  (iterate (operatorAgents o tenantId)).map fun ops => ops.any (sameAgent agent)

/-- `_agent_key_env`. -/
def agentKeyEnv (agent : Json) (tenantId : String) : Option String :=
  let name := agent.getD "api_key_env" .null
  if name.truthy then
    (iterate (operatorAgents o tenantId)).map fun ops =>
      if ops.any fun op =>
          sameAgent agent op && (op.getD "api_key_env" .null).pyEq name then o.str name
      else ""
  else some ""

/-! ## 3. Urls -/

def blockedHostnames : List String := ["metadata.google.internal", "metadata", "localhost"]

def internalSuffixes : List String := [".internal", ".local", ".localdomain", ".home.arpa", ".svc"]

def endsWith (s suffix : String) : Bool := decide (suffix.toList <:+ s.toList)

/-- `host.rstrip(".")`. -/
def stripDots (host : String) : String :=
  String.ofList (host.toList.reverse.dropWhile fun c => c = '.').reverse

def isNumericPart : List Char → Bool
  | '0' :: 'x' :: rest =>
    rest.all fun c => c.isDigit || decide ('a' ≤ c ∧ c ≤ 'f')
  | part => !part.isEmpty && part.all Char.isDigit

/-- `_NUMERIC_HOST_RE.fullmatch(host)`. -/
def isNumericHost (host : String) : Bool :=
  let parts := host.toList.splitOn '.'
  decide (parts.length ≤ 4) && parts.all isNumericPart

/-- `_internal_address`. -/
def internalAddress (addr : Address) : Bool := !addr.isGlobal || addr.isMulticast

/-- `(urlparse(url).hostname or "").rstrip(".")`. -/
def hostOf (parsed : ParsedUrl) : String := stripDots (parsed.hostname.getD "")

/-- `validate_outbound_url` returns. -/
def validateOutboundUrl (url : String) (internalNamesOk : Bool) : Bool :=
  match o.urlparse url with
  | none => false
  | some parsed =>
    let host := hostOf parsed
    if parsed.scheme ≠ "http" && parsed.scheme ≠ "https" then false
    else if host = "" then false
    else if host ∈ blockedHostnames || endsWith host ".localhost" then false
    else
      match o.ipAddress host with
      | none =>
        if isNumericHost host then false
        else !(!internalNamesOk &&
          (!decide ('.' ∈ host.toList) || internalSuffixes.any (endsWith host)))
      | some addr => !internalAddress addr

/-- `check_resolved_host` returns. -/
def checkResolvedHost (url : String) : Bool :=
  match o.urlparse url with
  | none => false
  | some parsed =>
    let host := hostOf parsed
    match o.ipAddress host with
    | some _ => true
    | none =>
      match o.hostAddresses host with
      | none => false
      | some raws => raws.all fun raw => (o.ipAddress raw).any fun addr => !internalAddress addr

/-! ## 4. Dispatch -/

/-- What F2 reads of a request. -/
structure Ctx where
  /-- bypassed, a cache hit, blocked, with a cascade or its plan, or dispatched before -/
  shortCircuited : Bool
  /-- the effective config, the tenant's overrides in it -/
  config : Json
  tenantId : String
  model : String
  messages : List Json

/-- The call that is sent to an agent. -/
structure Call where
  agent : Json
  model : Json
  baseUrl : String
  apiKey : String
  maxTokens : Option Int
  timeout : Int
  messages : List Json

def maxAgentTimeoutSeconds : Int := 300

/-- `params["max_tokens"]`, where the agent has a budget; `none` raises. -/
def budgetOf (agent : Json) : Option (Option Int) :=
  let budget := agent.getD "max_tokens" .null
  if budget.truthy then (o.int budget).map some else some none

/-- The key of the variable, or litellm's placeholder. -/
def keyOf (keyEnv : String) : String :=
  let key := if keyEnv = "" then "" else (o.environ keyEnv).getD ""
  if key = "" then "no-key" else key

/-- `_dispatch`, up to the call; `none` where it raises before. -/
def dispatch (ctx : Ctx) (agent : Json) : Option Call :=
  match agent.getD "url" .null with
  | .str url =>
    if url = "" then none
    else
      (operatorDefines o agent ctx.tenantId).bind fun operatorAgent =>
        if validateOutboundUrl o url operatorAgent &&
            (operatorAgent || checkResolvedHost o url) then
          (agentKeyEnv o agent ctx.tenantId).bind fun keyEnv =>
            (budgetOf o agent).bind fun maxTokens =>
              (o.int (agent.getD "timeout_seconds" (.int 60))).map fun timeout =>
                { agent
                  model := (agent.getD "model" .null).orElse (.str ctx.model)
                  baseUrl := url
                  apiKey := keyOf o keyEnv
                  maxTokens
                  timeout := min timeout maxAgentTimeoutSeconds
                  -- `without_cache_markers`
                  messages := ctx.messages.map Providers.messageUnmarked }
        else none
  | _ => none

/-- The text of a part, for the parts that `_last_user_text` joins; `none` raises. -/
def partText (part : Json) : Option (Option String) :=
  if part.isObj && decide (part.getD "type" .null = .str "text") then
    match part.getD "text" (.str "") with
    | .str s => some (some s)
    | _ => none
  else some none

/-- `_last_user_text`, of the messages from the last; `none` raises. -/
def lastUserText : List Json → Option String
  | [] => some ""
  | msg :: earlier =>
    if !msg.isObj then none
    else if msg.getD "role" .null = .str "user" then
      match msg.getD "content" (.str "") with
      | .str s => some s
      | .arr parts => (parts.mapM partText).map fun texts => " ".intercalate (texts.filterMap id)
      -- a turn without text, such as one of null, is passed over
      | _ => lastUserText earlier
    else lastUserText earlier

/-- How many of an agent's keywords a text has; `none` raises. -/
def intentScore (low : String) (agent : Json) : Option Nat :=
  (iterate ((agent.getD "match" .null).orElse (.arr []))).map fun keywords =>
    keywords.countP fun keyword =>
      let word := o.stripLower (o.str keyword)
      decide (word ≠ "") && o.wordIn word low

/-- The loop of `classify_intent`: the best agent so far and its score. -/
def bestAgent (low : String) : Option Json × Nat → List Json → Option (Option Json × Nat)
  | best, [] => some best
  | best, agent :: rest =>
    if agent.isObj then
      (intentScore o low agent).bind fun score =>
        bestAgent low (if best.2 < score then (some agent, score) else best) rest
    else bestAgent low best rest

/-- `classify_intent`: the agent that the text is for, if any; `none` raises. -/
def classifyIntent (text : String) (agents threshold : Json) : Option (Option Json) :=
  if text = "" then some none
  else do
    let candidates ← iterate agents
    match ← bestAgent o (o.lower text) (none, 0) candidates with
    | (some agent, score) =>
      let least ← o.int threshold
      return if max 1 least ≤ score then some agent else none
    | (none, _) => return none

/-- The agent that a request goes to; `some none` for none, `none` where choosing raises. -/
def chosenAgent (ctx : Ctx) : Option (Option Json) :=
  if ctx.shortCircuited then some none
  else do
    let cfg ← orchestrationCfg o ctx.config ctx.tenantId
    if !((Assoc.lookup "enabled" cfg).getD (.bool false)).truthy then return none
    if !((Assoc.lookup "agents" cfg).getD .null).truthy then return none
    let text ← lastUserText ctx.messages.reverse
    classifyIntent o text (agentsOf cfg)
      ((Assoc.lookup "confidence_threshold" cfg).getD (.int 1))

/-- `IntentOrchestration.process_request`: the call that it sends, if any.  A dispatch that
raises leaves the request to the normal path. -/
def processRequest (ctx : Ctx) : Option Call :=
  match chosenAgent o ctx with
  | some (some agent) => dispatch o ctx agent
  | _ => none

/-! ## 5. Confinement -/

/-- A public unicast address. -/
def Address.Public (addr : Address) : Prop := addr.isGlobal = true ∧ addr.isMulticast = false

/-- The operator's own config defines an agent like this one for the tenant. -/
def DefinedByOperator (tenantId : String) (agent : Json) (more : Json → Prop) : Prop :=
  ∃ config cfg ops op, o.operatorConfig = some config ∧
    orchestrationCfg o config tenantId = some cfg ∧ iterate (agentsOf cfg) = some ops ∧
    op ∈ ops ∧ op.isObj = true ∧
    (op.getD "id" .null).pyEq (agent.getD "id" .null) = true ∧
    (op.getD "url" .null).pyEq (agent.getD "url" .null) = true ∧ more op

/-- What a host may be that a tenant names. -/
inductive OutsideHost (host : String) : Prop
  /-- a literal address, public -/
  | address (addr : Address) (haddr : o.ipAddress host = some addr) (hpublic : addr.Public)
  /-- a name of several labels that is not internal, and resolves to public addresses only -/
  | name (hname : o.ipAddress host = none) (hlabels : 2 ≤ (host.toList.splitOn '.').length)
      (hsuffix : ∀ suffix ∈ internalSuffixes, ¬ suffix.toList <:+ host.toList)
      (raws : List String) (hresolves : o.hostAddresses host = some raws)
      (hpublic : ∀ raw ∈ raws, ∃ addr, o.ipAddress raw = some addr ∧ addr.Public)

/-- The call goes to an agent of the operator's or to the outside, and carries a variable of
the server's only to an agent that the operator gave it to. -/
structure Confined (ctx : Ctx) (call : Call) : Prop where
  url : call.agent.getD "url" .null = .str call.baseUrl
  host : DefinedByOperator o ctx.tenantId call.agent (fun _ => True) ∨
    ∃ parsed, o.urlparse call.baseUrl = some parsed ∧ OutsideHost o (hostOf parsed)
  key : call.apiKey = "no-key" ∨
    call.apiKey = (o.environ (o.str (call.agent.getD "api_key_env" .null))).getD "" ∧
      DefinedByOperator o ctx.tenantId call.agent fun op =>
        (op.getD "api_key_env" .null).pyEq (call.agent.getD "api_key_env" .null) = true

/-! ## 6. What each check lets through -/

variable {o}

theorem public_of_not_internal {addr : Address} (h : internalAddress addr = false) :
    addr.Public := by
  rw [internalAddress, Bool.or_eq_false_iff] at h
  exact ⟨by simpa using h.1, h.2⟩

/-- A separator in the text makes two labels. -/
theorem two_le_length_splitOn {sep : Char} {cs : List Char} (h : sep ∈ cs) :
    2 ≤ (cs.splitOn sep).length := by
  obtain ⟨before, after, rfl⟩ := List.append_of_mem h
  rw [List.splitOn_append_cons_self, List.length_append]
  have hbefore := List.length_pos_of_ne_nil (List.splitOn_ne_nil sep before)
  have hafter := List.length_pos_of_ne_nil (List.splitOn_ne_nil sep after)
  omega

/-- A tenant's url passes both checks only for a host outside. -/
theorem outside_of_checked {url : String} (hvalid : validateOutboundUrl o url false = true)
    (hresolved : checkResolvedHost o url = true) :
    ∃ parsed, o.urlparse url = some parsed ∧ OutsideHost o (hostOf parsed) := by
  rw [validateOutboundUrl] at hvalid
  rw [checkResolvedHost] at hresolved
  cases hparsed : o.urlparse url with
  | none =>
    rw [hparsed] at hvalid
    cases hvalid
  | some parsed =>
    refine ⟨parsed, rfl, ?_⟩
    rw [hparsed] at hvalid hresolved
    dsimp only at hvalid hresolved
    cases haddr : o.ipAddress (hostOf parsed) with
    | some addr =>
      rw [haddr] at hvalid
      simp only [Bool.if_false_left, Bool.and_eq_true, Bool.not_eq_true'] at hvalid
      exact .address addr haddr (public_of_not_internal hvalid.2.2.2)
    | none =>
      rw [haddr] at hvalid hresolved
      simp only [Bool.if_false_left, Bool.and_eq_true, Bool.not_eq_true', Bool.not_false,
        Bool.true_and, Bool.or_eq_false_iff, Bool.not_eq_false', decide_eq_true_eq,
        List.any_eq_false] at hvalid
      obtain ⟨-, -, -, -, hdot, hsuffix⟩ := hvalid
      cases hraws : o.hostAddresses (hostOf parsed) with
      | none =>
        rw [hraws] at hresolved
        cases hresolved
      | some raws =>
        rw [hraws] at hresolved
        refine .name haddr (two_le_length_splitOn hdot) ?_ raws hraws ?_
        · intro suffix hmem hends
          exact hsuffix suffix hmem (decide_eq_true hends)
        · intro raw hraw
          have hall := List.all_eq_true.mp hresolved raw hraw
          obtain ⟨addr, haddr, hpublic⟩ := (Option.any_eq_true _ _).mp hall
          exact ⟨addr, haddr, public_of_not_internal (by simpa using hpublic)⟩

/-- What an operator's agent list shows is in the operator's own config. -/
theorem definedByOperator_of_mem {tenantId : String} {agent op : Json} {ops : List Json}
    {more : Json → Prop} (hops : iterate (operatorAgents o tenantId) = some ops) (hop : op ∈ ops)
    (hsame : sameAgent agent op = true) (hmore : more op) :
    DefinedByOperator o tenantId agent more := by
  rw [operatorAgents] at hops
  rw [sameAgent, Bool.and_eq_true, Bool.and_eq_true] at hsame
  cases hcfg : o.operatorConfig.bind fun config => orchestrationCfg o config tenantId with
  | none =>
    rw [hcfg] at hops
    cases hops
    cases hop
  | some cfg =>
    rw [hcfg] at hops
    obtain ⟨config, hconfig, hcfg⟩ := Option.bind_eq_some_iff.mp hcfg
    exact ⟨config, cfg, ops, op, hconfig, hcfg, hops, hop, hsame.1.1, hsame.1.2, hsame.2, hmore⟩

theorem definedByOperator_of_defines {tenantId : String} {agent : Json}
    (h : operatorDefines o agent tenantId = some true) :
    DefinedByOperator o tenantId agent fun _ => True := by
  obtain ⟨ops, hops, hany⟩ := Option.map_eq_some_iff.mp h
  obtain ⟨op, hop, hsame⟩ := List.any_eq_true.mp hany
  exact definedByOperator_of_mem hops hop hsame trivial

/-- A variable is named only for an agent that the operator gave it to. -/
theorem agentKeyEnv_cases {tenantId name : String} {agent : Json}
    (h : agentKeyEnv o agent tenantId = some name) : name = "" ∨
      name = o.str (agent.getD "api_key_env" .null) ∧
        DefinedByOperator o tenantId agent fun op =>
          (op.getD "api_key_env" .null).pyEq (agent.getD "api_key_env" .null) = true := by
  rw [agentKeyEnv] at h
  split_ifs at h
  · obtain ⟨ops, hops, hname⟩ := Option.map_eq_some_iff.mp h
    split_ifs at hname with hany
    · obtain ⟨op, hop, hboth⟩ := List.any_eq_true.mp hany
      rw [Bool.and_eq_true] at hboth
      exact Or.inr ⟨hname.symm, definedByOperator_of_mem hops hop hboth.1 hboth.2⟩
    · exact Or.inl hname.symm
  · exact Or.inl (Option.some.inj h).symm

/-- All that a dispatched call has passed. -/
theorem dispatch_cases {ctx : Ctx} {agent : Json} {call : Call}
    (h : dispatch o ctx agent = some call) :
    ∃ operatorAgent keyEnv, agent.getD "url" .null = .str call.baseUrl ∧
      operatorDefines o agent ctx.tenantId = some operatorAgent ∧
      validateOutboundUrl o call.baseUrl operatorAgent = true ∧
      (operatorAgent = false → checkResolvedHost o call.baseUrl = true) ∧
      agentKeyEnv o agent ctx.tenantId = some keyEnv ∧ call.agent = agent ∧
      call.apiKey = keyOf o keyEnv := by
  unfold dispatch at h
  split at h
  · next url hurl =>
    split_ifs at h
    obtain ⟨operatorAgent, hdefines, h⟩ := Option.bind_eq_some_iff.mp h
    split_ifs at h with hchecked
    obtain ⟨keyEnv, hkeyEnv, h⟩ := Option.bind_eq_some_iff.mp h
    obtain ⟨maxTokens, -, h⟩ := Option.bind_eq_some_iff.mp h
    obtain ⟨timeout, -, rfl⟩ := Option.map_eq_some_iff.mp h
    rw [Bool.and_eq_true, Bool.or_eq_true] at hchecked
    refine ⟨operatorAgent, keyEnv, hurl, hdefines, hchecked.1, ?_, hkeyEnv, rfl, rfl⟩
    intro htenant
    exact hchecked.2.resolve_left (by simp [htenant])
  · cases h

theorem keyOf_cases (keyEnv : String) : keyOf o keyEnv = "no-key" ∨
    keyEnv ≠ "" ∧ keyOf o keyEnv = (o.environ keyEnv).getD "" := by
  rw [keyOf]
  by_cases hname : keyEnv = ""
  · exact Or.inl (by simp [hname])
  · by_cases hvalue : (o.environ keyEnv).getD "" = ""
    · exact Or.inl (by simp [hname, hvalue])
    · exact Or.inr ⟨hname, by simp [hname, hvalue]⟩

theorem dispatch_confined_agent {ctx : Ctx} {agent : Json} {call : Call}
    (h : dispatch o ctx agent = some call) : Confined o ctx call := by
  obtain ⟨operatorAgent, keyEnv, hurl, hdefines, hvalid, hresolved, hkeyEnv, rfl, hkey⟩ :=
    dispatch_cases h
  refine ⟨hurl, ?_, ?_⟩
  · cases operatorAgent with
    | true => exact Or.inl (definedByOperator_of_defines hdefines)
    | false => exact Or.inr (outside_of_checked hvalid (hresolved rfl))
  · rw [hkey]
    rcases keyOf_cases keyEnv with hnone | ⟨hnamed, hvalue⟩
    · exact Or.inl hnone
    · rcases agentKeyEnv_cases hkeyEnv with hempty | ⟨hname, hdefined⟩
      · exact absurd hempty hnamed
      · rw [hvalue, hname]
        exact Or.inr ⟨rfl, hdefined⟩

/-- **Whatever the operator's config, the tenant's overrides and the resolver's answers, a call
to an agent is confined.** -/
theorem dispatch_confined (o : Outside) (ctx : Ctx) (call : Call)
    (h : processRequest o ctx = some call) : Confined o ctx call := by
  rw [processRequest] at h
  split at h
  · exact dispatch_confined_agent h
  · cases h

/-! ## 7. A tenant's agent on a public host -/

/-- A config with one agent for one tenant. -/
def registry (url keyword : String) : Json :=
  .obj [("orchestration", .obj [("enabled", .bool true),
    ("agents", .arr [.obj [("id", .str "billing"), ("url", .str url),
      ("match", .arr [.str keyword]), ("api_key_env", .str "LLM_KEY_OPENAI")]])])]

/-- The name resolves to one public address; the operator defines no agent. -/
def publicDns : Outside where
  operatorConfig := some (.obj [])
  urlparse := fun _ => some ⟨"https", some "agents.example.com"⟩
  ipAddress := fun host => if host = "203.0.114.7" then some ⟨true, false⟩ else none
  hostAddresses := fun _ => some ["203.0.114.7"]
  environ := fun _ => some "sk-operator"
  str := fun
    | .str s => s
    | _ => ""
  stripLower := id
  lower := id
  wordIn := fun word low => word == low
  int := fun
    | .int n => some n
    | _ => none
  dictOf := fun _ => none

def askBilling : Ctx where
  shortCircuited := false
  config := registry "https://agents.example.com/v1" "refund"
  tenantId := "acme"
  model := "gpt-4o-mini"
  messages := [.obj [("role", .str "user"), ("content", .str "refund")]]

theorem dispatch_confined_public :
    ∃ call, processRequest publicDns askBilling = some call ∧ call.apiKey = "no-key" ∧
      Confined publicDns askBilling call := by
  have hcall : ∃ call, processRequest publicDns askBilling = some call ∧
      call.apiKey = "no-key" := ⟨_, rfl, rfl⟩
  obtain ⟨call, hcall, hkey⟩ := hcall
  exact ⟨call, hcall, hkey, dispatch_confined publicDns askBilling call hcall⟩

end TokenProxy.Orchestration
