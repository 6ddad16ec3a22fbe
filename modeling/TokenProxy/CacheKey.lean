/-
  TokenProxy/CacheKey.lean
  ========================
  **Under which keys the response cache looks an answer up and files it
  (`middleware/g05_cache.py`).**

  The scope tags, the L1 key and the query text and scope of L2, as the code computes them.
  What the code leaves in `ctx.params` under names that start with `_g05_` is kept apart, in
  `Marks`: the ingress admits no such name and no other stage writes one.  `Caller` is what no
  stage rewrites, `Ctx` what any later stage may.

  A text with a lone surrogate cannot be encoded, so it has no digest: `Runtime.lone` says which
  characters stand for those.

  What an answer holds, how long it is kept and how near two questions have to be are left
  out; `L1Reply` and the reply of L2 say what a lookup found.
-/
import TokenProxy.ConfigLayers
import TokenProxy.JsonValue
import TokenProxy.KeyStore
import TokenProxy.ToolExchanges
import TokenProxy.TokenCounter

namespace TokenProxy.ResponseCache

open History JsonText

/-! ## 1. The request -/

/-- What no stage rewrites. -/
structure Caller where
  /-- the copy that `RequestContext.create` makes -/
  originalMessages : List Msg
  tenantId : String
  redisPrefix : String

/-- What the stages rewrite. -/
structure Ctx where
  messages : List Msg
  model : String
  params : List (String × Json)
  config : Json
  bypassed : Bool
  noCache : Bool
  agentDispatched : Bool

/-- What G05 notes of a request: its entries in `ctx.params`, and `ctx.cache_hit`. -/
structure Marks where
  l1CacheKey : Option String
  systemTag : Option String
  verbosityTag : Option String
  paramsTag : Option String
  cacheHit : Bool

def Marks.fresh : Marks := ⟨none, none, none, none, false⟩

def hexDigits : List Char := "0123456789abcdef".toList

/-- `hashlib.sha256(text.encode()).hexdigest()`. -/
structure Sha256 where
  hexdigest : String → String
  length_hexdigest : ∀ text, (hexdigest text).length = 64
  isHex : ∀ text, ∀ c ∈ (hexdigest text).toList, c ∈ hexDigits

/-- `hexdigest[:n]`. -/
def Sha256.short (sha : Sha256) (n : Nat) (text : String) : String :=
  String.ofList ((sha.hexdigest text).toList.take n)

/-- What the cache calls. -/
structure Runtime where
  sha256 : Sha256
  floats : Floats
  /-- `str.lower` -/
  lower : String → String
  /-- `str(value)` of what is no string -/
  repr : Json → String
  /-- `int(text)`; `none` where it raises -/
  intOf : String → Option Int
  /-- what `\d` matches -/
  decimal : Char → Bool
  /-- what stands for a lone surrogate -/
  lone : Char → Bool
  lone_ascii : ∀ c : Char, c.toNat < 128 → lone c = false
  /-- the suffix that G11 steers this request's verbosity with; empty without steering, and
      for a request that its holdout leaves alone -/
  verbositySuffix : Caller → Ctx → String
  /-- `DATABASE_URL` -/
  databaseUrl : String

variable (env : Runtime)

def Runtime.str : Json → String
  | .str s => s
  | value => env.repr value

/-- `text.encode("utf-8")` does not raise. -/
def Runtime.encodes (text : String) : Bool := text.toList.all fun c => !env.lone c

/-! ## 2. Texts -/

/-- `re.sub(r"\s+", " ", text)`, inside or outside a run of spaces. -/
def subSpaces : Bool → List Char → List Char
  | _, [] => []
  | true, c :: cs => if KeyStore.isSpace c then subSpaces true cs else c :: subSpaces false cs
  | false, c :: cs =>
    if KeyStore.isSpace c then ' ' :: subSpaces true cs else c :: subSpaces false cs

/-- `re.sub(r"\s+", " ", text).strip()`. -/
def collapse (text : String) : String :=
  KeyStore.strip (String.ofList (subSpaces false text.toList))

/-- The fields in the order of their names, at every level. -/
def insertField (field : String × Json) : List (String × Json) → List (String × Json)
  | [] => [field]
  | other :: rest =>
    if field.1 ≤ other.1 then field :: other :: rest else other :: insertField field rest

mutual

def sortKeys : Json → Json
  | .arr items => .arr (sortItems items)
  | .obj fields => .obj (sortFields fields)
  | other => other

def sortItems : List Json → List Json
  | [] => []
  | v :: vs => sortKeys v :: sortItems vs

def sortFields : List (String × Json) → List (String × Json)
  | [] => []
  | (k, v) :: rest => insertField (k, sortKeys v) (sortFields rest)

end

/-- `json.dumps(value, sort_keys=True, separators=(",", ":"), ensure_ascii=False)`. -/
def dumps (value : Json) : String := writeValue env.floats quoteRaw (sortKeys value)

def turnFields : List String := ["tool_calls", "function_call", "tool_call_id", "name"]

/-- `{k: msg[k] for k in _TURN_FIELDS if msg.get(k)}`. -/
def fieldsOfTurn (msg : Msg) : List (String × Json) :=
  turnFields.filterMap fun k => if (msg.get k).truthy then some (k, msg.get k) else none

/-- What `_normalise` makes of a `content`. -/
def contentText (msg : Msg) : String :=
  match (Json.obj msg.fields).getD "content" (.str "") with
  | .str text => env.lower (collapse text)
  | value => env.repr value

/-- What stands behind the role. -/
def turnBody (msg : Msg) : String :=
  let fields := fieldsOfTurn msg
  contentText env msg ++ if fields.isEmpty then "" else " " ++ dumps env (.obj fields)

def turnRole (msg : Msg) : String := env.str ((Json.obj msg.fields).getD "role" (.str ""))

/-- `_normalise`. -/
def normalise (messages : List Msg) : String :=
  "|".intercalate (messages.map fun msg => turnRole env msg ++ ":" ++ turnBody env msg)

/-- The text of a user turn; `none` where it carries anything but text. -/
def userText? (msg : Msg) : Option String :=
  match msg.get "content" with
  | .str text => some text
  | .arr parts => do
    let texts ← parts.mapM fun part =>
      match part.get? "type", part.get? "text" with
      | some (.str "text"), some (.str text) => some text
      | _, _ => none
    some ("\n".intercalate texts)
  | _ => none

/-- `_semantic_query_text`. -/
def semanticQueryText (messages : List Msg) : String :=
  match (messages.filter fun m => m.get "role" = .str "user").mapM userText? with
  | some texts =>
    "\n".intercalate ((texts.map fun text => env.lower (collapse text)).filter (· ≠ ""))
  | none => ""

/-- `_request_messages`. -/
def requestMessages (caller : Caller) (ctx : Ctx) : List Msg :=
  if caller.originalMessages.isEmpty then ctx.messages else caller.originalMessages

/-! ## 3. The configuration -/

/-- `config.get("groups", {}).get("G5_cache", {})`; `none` where it raises. -/
def g5Cache? (config : Json) : Option (List (String × Json)) :=
  match config with
  | .obj fields =>
    match (Json.obj fields).getD "groups" (.obj []) with
    | .obj groups =>
      match (Json.obj groups).getD "G5_cache" (.obj []) with
      | .obj cfg => some cfg
      | _ => none
    | _ => none
  | _ => none

/-- The same, of `config or {}`. -/
def g5CacheOr? (config : Json) : Option (List (String × Json)) := g5Cache? (config.orElse (.obj []))

def option (cfg : List (String × Json)) (key : String) (fallback : Json) : Json :=
  (Assoc.lookup key cfg).getD fallback

/-- `int(cfg.get("l2_max_embed_chars", 2000))`; `none` where it raises. -/
def maxEmbedChars (cfg : List (String × Json)) : Option Int :=
  match option cfg "l2_max_embed_chars" (.int 2000) with
  | .int n => some n
  | .bool b => some (if b then 1 else 0)
  | .float q => some (q.num.tdiv q.den)
  | .str text => env.intOf text
  | _ => none

/-- `_embed_input_truncates`. -/
def embedInputTruncates (queryText : String) (cfg : List (String × Json)) : Option Bool :=
  (maxEmbedChars env cfg).map fun maxChars =>
    decide (0 < maxChars) && decide (maxChars < (queryText.length : Int))

/-- `_LITERAL_RE.findall(text)`, in the middle of a literal: digits, and after them a point or
a comma that has a digit behind it. -/
def findLiterals : List Char → List Char → List (List Char)
  | literal, [] => if literal.isEmpty then [] else [literal]
  | literal, c :: cs =>
    if env.decimal c then findLiterals (literal ++ [c]) cs
    else if literal.isEmpty then findLiterals [] cs
    else if (c = '.' || c = ',') && (cs.head?.map env.decimal).getD false then
      findLiterals (literal ++ [c]) cs
    else literal :: findLiterals [] cs

/-- `_literal_scope_tag`. -/
def literalScopeTag (queryText : String) (cfg : List (String × Json)) : String :=
  let literals := findLiterals env [] queryText.toList
  if (option cfg "l2_literal_guard" (.bool true)).truthy && !literals.isEmpty then
    "literals=" ++ env.sha256.short 16 ("\x1f".intercalate (literals.map String.ofList))
  else ""

/-- `_is_multiturn_continuation`. -/
def isMultiturnContinuation (caller : Caller) (ctx : Ctx) : Bool :=
  (requestMessages caller ctx).any fun m =>
    decide (m.get "role" = .str "assistant" ∨ m.get "role" = .str "tool")

/-- `_semantic_cache_disabled`; `none` where it raises. -/
def semanticCacheDisabled (caller : Caller) (ctx : Ctx) : Option Bool :=
  if env.lower (env.str (option ctx.params "x_cache_semantic" (.bool true))) ∈
      ["false", "0", "no"] then some true
  else
    (g5CacheOr? ctx.config).map fun cfg =>
      (option cfg "semantic_skip_multiturn" (.bool true)).truthy &&
        isMultiturnContinuation caller ctx

inductive CacheScope where
  | tenant
  | tenantModel
  | tenantSystem
  | tenantModelSystem
deriving DecidableEq

/-- `"+model" in scope`. -/
def CacheScope.hasModel : CacheScope → Bool
  | tenantModel => true
  | tenantModelSystem => true
  | _ => false

/-- `"+system" in scope`. -/
def CacheScope.hasSystem : CacheScope → Bool
  | tenantSystem => true
  | tenantModelSystem => true
  | _ => false

/-- `_CACHE_SCOPE_CANONICAL`. -/
def cacheScopeCanonical : List (String × CacheScope) :=
  [("tenant", .tenant), ("tenant+model", .tenantModel), ("tenant_model", .tenantModel),
    ("model", .tenantModel), ("tenant+system", .tenantSystem), ("tenant_system", .tenantSystem),
    ("system", .tenantSystem), ("tenant+model+system", .tenantModelSystem),
    ("tenant+system+model", .tenantModelSystem), ("tenant_model_system", .tenantModelSystem),
    ("model+system", .tenantModelSystem), ("system+model", .tenantModelSystem)]

/-- `_resolve_cache_scope`. -/
def resolveCacheScope (caller : Caller) (ctx : Ctx) : CacheScope :=
  let cfg := Config.resolveGroupConfig ctx.config caller.tenantId "G5_cache"
  let raw := KeyStore.strip (env.lower (env.str (option cfg "cache_scope" (.str "tenant"))))
  (Assoc.lookup raw cacheScopeCanonical).getD .tenant

/-! ## 4. The tags and the keys -/

/-- `_model_scope_tag`. -/
def modelScopeTag (caller : Caller) (ctx : Ctx) : Json :=
  if (resolveCacheScope env caller ctx).hasModel then
    (Json.str ctx.model).orElse ((option ctx.params "model" .null).orElse (.str ""))
  else .str ""

/-- The texts of a system message's content. -/
def systemTexts (msg : Msg) : List String :=
  match msg.get "content" with
  | .str text => [text]
  | .arr parts =>
    parts.filterMap fun part =>
      match part.get? "type", part.get? "text" with
      | some (.str "text"), some (.str text) => some text
      | _, _ => none
  | _ => []

/-- The system prompt that is hashed. -/
def systemJoined (ctx : Ctx) : String :=
  collapse ("\n".intercalate ((ctx.messages.filter fun m => m.isSystem).flatMap systemTexts))

def systemFingerprint (caller : Caller) (ctx : Ctx) : String :=
  if (resolveCacheScope env caller ctx).hasSystem then env.sha256.short 12 (systemJoined ctx)
  else ""

/-- The fingerprint of the system prompt can be taken. -/
def systemEncodes (caller : Caller) (ctx : Ctx) : Bool :=
  !(resolveCacheScope env caller ctx).hasSystem || env.encodes (systemJoined ctx)

/-- `_system_scope_tag`; `none` where it raises. -/
def systemScopeTag (caller : Caller) (ctx : Ctx) (marks : Marks) : Option String × Marks :=
  match marks.systemTag with
  | some tag => (some tag, marks)
  | none =>
    if systemEncodes env caller ctx then
      let tag := systemFingerprint env caller ctx
      (some tag, { marks with systemTag := some tag })
    else (none, marks)

/-- `verbosity_cache_tag`, and the empty tag where it raises. -/
def verbosityCacheTag (caller : Caller) (ctx : Ctx) : String :=
  let suffix := env.verbositySuffix caller ctx
  if suffix = "" || !env.encodes suffix then "" else "vb" ++ env.sha256.short 8 suffix

/-- `_verbosity_scope_tag`. -/
def verbosityScopeTag (caller : Caller) (ctx : Ctx) (marks : Marks) : String × Marks :=
  match marks.verbosityTag with
  | some tag => (tag, marks)
  | none =>
    let tag := verbosityCacheTag env caller ctx
    (tag, { marks with verbosityTag := some tag })

/-- `_ANSWER_PARAMS`. -/
def answerParams : List String :=
  ["audio", "frequency_penalty", "function_call", "functions", "logit_bias", "logprobs",
    "max_completion_tokens", "max_tokens", "modalities", "n", "parallel_tool_calls",
    "presence_penalty", "reasoning_effort", "response_format", "seed", "stop",
    "temperature", "thinking", "thinking_config", "tool_choice", "tools", "top_k",
    "top_logprobs", "top_p", "verbosity", "web_search_options",
    "json_schema", "x_json_output",
    "rag_query", "x_rag_collection", "x_rag_top_k", "x_jit_retrieval",
    "session_id", "x_session_id"]

/-- The parameters that change the answer: those that are there and not null. -/
def chosenParams (params : List (String × Json)) : List (String × Json) :=
  answerParams.filterMap fun k =>
    match option params k .null with
    | .null => none
    | value => some (k, value)

def paramsFingerprint (params : List (String × Json)) : String :=
  let chosen := chosenParams params
  if chosen.isEmpty then "" else env.sha256.short 16 (dumps env (.obj chosen))

/-- The fingerprint of the parameters can be taken. -/
def paramsEncodes (params : List (String × Json)) : Bool :=
  let chosen := chosenParams params
  chosen.isEmpty || env.encodes (dumps env (.obj chosen))

/-- `_params_scope_tag`; `none` where it raises. -/
def paramsScopeTag (ctx : Ctx) (marks : Marks) : Option String × Marks :=
  match marks.paramsTag with
  | some tag => (some tag, marks)
  | none =>
    if paramsEncodes env ctx.params then
      let tag := paramsFingerprint env ctx.params
      (some tag, { marks with paramsTag := some tag })
    else (none, marks)

def tagged (name tag text : String) : String :=
  if tag = "" then text else name ++ "=" ++ tag ++ "\n" ++ text

/-- The text with the lines of the model, the verbosity, the system prompt and the parameters in
front. -/
def withTags (model : Json) (vtag stag ptag text : String) : String :=
  tagged "params" ptag (tagged "system" stag (tagged "verbosity" vtag
    (if model.truthy then tagged "model" (env.str model) text else text)))

/-- `_apply_model_scope`; `none` where it raises. -/
def applyModelScope (caller : Caller) (ctx : Ctx) (text : String) (marks : Marks) :
    Option String × Marks :=
  let tag := modelScopeTag env caller ctx
  let vtag := verbosityScopeTag env caller ctx marks
  let stag := systemScopeTag env caller ctx vtag.2
  match stag.1 with
  | none => (none, stag.2)
  | some system =>
    let ptag := paramsScopeTag env ctx stag.2
    (ptag.1.map fun params => withTags env tag vtag.1 system params text, ptag.2)

/-- `":".join(p for p in tags if p)`. -/
def joinTags (tags : List String) : String := ":".intercalate (tags.filter (· ≠ ""))

/-- What `join` takes: `none` where it raises, and nothing of what is falsy. -/
def joinable? (tag : Json) : Option String :=
  match tag with
  | .str text => some text
  | value => if value.truthy then none else some ""

/-- `_scope_value`; `none` where it raises. -/
def scopeValue (caller : Caller) (ctx : Ctx) (marks : Marks) : Option String × Marks :=
  let ptag := paramsScopeTag env ctx marks
  match ptag.1 with
  | none => (none, ptag.2)
  | some params =>
    let vtag := verbosityScopeTag env caller ctx ptag.2
    let stag := systemScopeTag env caller ctx vtag.2
    (stag.1.bind fun system => (joinable? (modelScopeTag env caller ctx)).map fun tag =>
      joinTags [tag, vtag.1, system, if params = "" then "" else "params=" ++ params], stag.2)

/-- `_l2_scope`. -/
def l2Scope (caller : Caller) (ctx : Ctx) (queryText : String) (cfg : List (String × Json))
    (marks : Marks) : Option String × Marks :=
  let value := scopeValue env caller ctx marks
  (value.1.map fun scope => joinTags [scope, literalScopeTag env queryText cfg], value.2)

/-- `_cache_key`; `none` where it raises. -/
def cacheKey (normalised pre : String) : Option String :=
  if env.encodes normalised then some (pre ++ "tok_opt:l1:" ++ env.sha256.hexdigest normalised)
  else none

/-! ## 5. Lookup and store -/

/-- What L2 is asked for, or given: a scope and the text that is embedded. -/
structure L2Row where
  scope : String
  queryText : String
deriving DecidableEq

/-- `_l2_lookup`, up to the embedding; `none` where it asks for nothing. -/
def l2Lookup (caller : Caller) (ctx : Ctx) (marks : Marks) : Option L2Row × Marks :=
  if semanticCacheDisabled env caller ctx = some false ∧ env.databaseUrl ≠ "" then
    let queryText := semanticQueryText env (requestMessages caller ctx)
    if queryText = "" then (none, marks)
    else
      match g5CacheOr? ctx.config with
      | none => (none, marks)
      | some cfg =>
        let scope := l2Scope env caller ctx queryText cfg marks
        match scope.1, embedInputTruncates env queryText cfg with
        | some value, some false => (some ⟨value, queryText⟩, scope.2)
        | _, _ => (none, scope.2)
  else (none, marks)

/-- The text whose digest is the `query_hash` of a row. -/
def hashedRow (caller : Caller) (row : L2Row) : String :=
  (if row.scope = "" then caller.tenantId else caller.tenantId ++ ":" ++ row.scope) ++ ":" ++
    row.queryText

/-- `_l2_store`, with the row it writes. -/
def l2Store (caller : Caller) (ctx : Ctx) (marks : Marks) : Option L2Row × Marks :=
  if semanticCacheDisabled env caller ctx = some false ∧ env.databaseUrl ≠ "" then
    let queryText := semanticQueryText env (requestMessages caller ctx)
    if queryText = "" then (none, marks)
    else
      match g5CacheOr? ctx.config with
      | none => (none, marks)
      | some cfg =>
        match embedInputTruncates env queryText cfg with
        | some false =>
          let scope := l2Scope env caller ctx queryText cfg marks
          ((scope.1.map fun value => L2Row.mk value queryText).filter fun row =>
            env.encodes (hashedRow caller row), scope.2)
        | _ => (none, marks)
  else (none, marks)

/-- What Redis has under an L1 key: nothing (or Redis does not answer), an answer, or a text
that is no JSON. -/
inductive L1Reply where
  | missing
  | answer
  | unreadable

/-- What the caches hold: L1 by key, L2 by row, and whether the step of this request is there. -/
structure Held where
  l1 : String → L1Reply
  l2 : L2Row → Bool
  step : Bool

/-- What a request was looked up under; no key where it could not be computed, and no row where L2
was not asked. -/
structure Lookup where
  key : Option String
  row : Option L2Row

structure Visit where
  ctx : Ctx
  marks : Marks
  lookup : Option Lookup

/-- `x_no_cache`. -/
def optsOut (ctx : Ctx) : Bool :=
  env.lower (env.str (option ctx.params "x_no_cache" (.str ""))) ∈ ["true", "1", "yes"]

/-- What follows the L1 lookup: L2, and the step cache. -/
def lookUpL2 (held : Held) (caller : Caller) (ctx : Ctx) (cfg : List (String × Json))
    (key : Option String) (marks : Marks) : Visit :=
  let asked := l2Lookup env caller ctx marks
  let found := (asked.1.map held.l2).getD false
  let stepped := (option cfg "step_cache_enabled" (.bool true)).truthy && held.step
  ⟨ctx, { asked.2 with cacheHit := asked.2.cacheHit || found || stepped }, some ⟨key, asked.1⟩⟩

def lookUp (held : Held) (caller : Caller) (ctx : Ctx) (cfg : List (String × Json))
    (key : String) (marks : Marks) : Visit :=
  match held.l1 key with
  | .answer => ⟨ctx, { marks with cacheHit := true }, some ⟨some key, none⟩⟩
  -- `cache_hit` is set before the entry is read
  | .unreadable => lookUpL2 env held caller ctx cfg (some key) { marks with cacheHit := true }
  | .missing => lookUpL2 env held caller ctx cfg (some key) marks

/-- `process_request`, after the count of the tokens; `none` where it raises. -/
def processRequest (held : Held) (caller : Caller) (ctx : Ctx) (marks : Marks) : Option Visit :=
  (g5Cache? ctx.config).map fun cfg =>
    if !(option cfg "enabled" (.bool false)).truthy then ⟨ctx, marks, none⟩
    else if optsOut env ctx then ⟨{ ctx with noCache := true }, marks, none⟩
    else if ctx.noCache then ⟨ctx, marks, none⟩
    else
      let source := applyModelScope env caller ctx (normalise env ctx.messages) marks
      match source.1.bind fun text => cacheKey env text caller.redisPrefix with
      | some key => lookUp env held caller ctx cfg key { source.2 with l1CacheKey := some key }
      -- the handler of the L1 lookup goes on without a key
      | none => lookUpL2 env held caller ctx cfg none source.2

/-- `is_empty_answer`. -/
def isEmptyAnswer (response : Json) : Bool :=
  match response.get? "choices" with
  | some (.arr (item :: _)) =>
    match item.get? "message" with
    | some (.obj message) =>
      if (option message "tool_calls" .null).truthy || (option message "function_call" .null).truthy
      then false
      else
        match option message "content" .null with
        | .null => true
        | .arr parts => parts.isEmpty
        | content => KeyStore.strip (env.str content) = ""
    | _ => true
  | _ => true

/-- What an answer is filed under. -/
structure Filed where
  key : String
  row : Option L2Row

/-- The key that the lookup has noted, or one made anew of the messages as sent; `none` where that
raises. -/
def storeKey (caller : Caller) (ctx : Ctx) (marks : Marks) : Option String × Marks :=
  match marks.l1CacheKey with
  | some key => (some key, marks)
  | none =>
    let source := applyModelScope env caller ctx (normalise env (requestMessages caller ctx)) marks
    (source.1.bind fun text => cacheKey env text caller.redisPrefix, source.2)

/-- `store_response`; `none` where nothing is stored. -/
def storeResponse (caller : Caller) (response : Json) (ctx : Ctx) (marks : Marks) :
    Option Filed :=
  if marks.cacheHit || ctx.bypassed || ctx.noCache || ctx.agentDispatched then none
  else if isEmptyAnswer env response then none
  else
    match g5Cache? ctx.config with
    | none => none
    | some cfg =>
      if !(option cfg "enabled" (.bool false)).truthy then none
      else
        let key := storeKey env caller ctx marks
        key.1.map fun own => ⟨own, (l2Store env caller ctx key.2).1⟩

/-! ## 6. A runtime to try things on -/

def zeroDigest : Sha256 where
  hexdigest := fun _ => String.ofList (List.replicate 64 '0')
  length_hexdigest := by
    intro text
    rw [← String.length_toList, String.toList_ofList, List.length_replicate]
  isHex := by
    intro text c hc
    rw [String.toList_ofList] at hc
    rw [List.eq_of_mem_replicate hc]
    decide

/-- A runtime for ASCII texts, without floats and without steering. -/
def asciiRuntime : Runtime where
  sha256 := zeroDigest
  floats := .unread
  lower := fun text => String.ofList (text.toList.map Char.toLower)
  repr := fun
    | .null => "None"
    | .bool b => if b then "True" else "False"
    | .int n => toString n
    | _ => ""
  intOf := fun _ => none
  decimal := Char.isDigit
  lone := fun _ => false
  lone_ascii := fun _ _ => rfl
  verbositySuffix := fun _ _ => ""
  databaseUrl := "postgresql://localhost/cache"

example : normalise asciiRuntime
    [⟨[("role", .str "system"), ("content", .str "  Be\n\tBrief. ")]⟩,
      ⟨[("role", .str "tool"), ("content", .null), ("tool_call_id", .str "C1")]⟩] =
    "system:be brief.|tool:None \x7b\"tool_call_id\":\"C1\"\x7d" := by rfl

example : findLiterals asciiRuntime [] "order 12.5, 7.".toList = ["12.5".toList, "7".toList] := by
  rfl

end TokenProxy.ResponseCache
