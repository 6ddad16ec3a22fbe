/-
  TokenProxy/Authentication.lean
  ==============================
  **Who a request is from** (`main._authenticate`).

  A proxy key comes as a bearer token, or in the header or the query parameter that its protocol
  names.  Its entry in the key store is who the request is from; then come the gates, each refusing
  on its own, and last the user id that an allow-listed header may put in the entry's place.  The
  principal is noted before that.

  A value of the configuration that is used as a dict or a list and is none raises.  What is logged
  is left out.
-/
import TokenProxy.IngressParams
import TokenProxy.IpAllowlist
import TokenProxy.PatternCheck
import TokenProxy.Raising

namespace TokenProxy.Authentication

open TokenProxy.ClientIp
open TokenProxy.IpAllowlist (ipAllowed listOf)
open TokenProxy.KeyStore (strip Builtins isSuspended isContractInactive)
open TokenProxy.Tools (fnmatchcase)
open TokenProxy.Ingress (Auth)

/-! ## 1. The request -/

/-- Where a protocol has its proxy key, beside the bearer token. -/
structure Protocol where
  credentialHeaders : List String := []
  credentialQueryParam : String := ""

def Protocol.openai : Protocol := {}

def Protocol.anthropic : Protocol := { credentialHeaders := ["x-api-key"] }

def Protocol.gemini : Protocol :=
  { credentialHeaders := ["x-goog-api-key"], credentialQueryParam := "key" }

/-- A connection as the application gets it, and the parameters of its query. -/
structure Request where
  scope : Scope
  query : List (String × String) := []

namespace Request

/-- `request.headers.get(name)`: the first; the server hands the names over in lower case. -/
def header? (r : Request) (name : String) : Option String :=
  (r.scope.headers.find? fun header => header.1 = name).map Prod.snd

/-- `request.query_params.get(name)`: the last. -/
def query? (r : Request) (name : String) : Option String :=
  (r.query.reverse.find? fun param => param.1 = name).map Prod.snd

def bearer : List Char := "Bearer ".toList

/-- The proxy key that a request carries, empty where it carries none. -/
def credential (r : Request) (proto : Protocol) : String :=
  let auth := ((r.header? "authorization").getD "").toList
  if bearer.isPrefixOf auth then strip (.ofList (auth.drop bearer.length))
  else
    let given := proto.credentialHeaders.findSome? fun name => (r.header? name).filter (· ≠ "")
    let apiKey := strip (given.getD "")
    if apiKey = "" && proto.credentialQueryParam ≠ "" then
      strip ((r.query? proto.credentialQueryParam).getD "")
    else apiKey

/-- `request_client_ip`: what the middleware stored, or else what the headers say. -/
def clientIp (r : Request) (env : Environ) (cfg : Json) : String :=
  match r.scope.clientIp.filter (·.1 ≠ "") with
  | some stored => stored.1
  | none =>
    let lines := (r.scope.headers.filter fun header => header.1 = "x-forwarded-for").map Prod.snd
    let hops := trustedProxyHops env cfg
    match clientIpMode env cfg with
    | .observe => firstEntry lines r.scope.client hops
    | .enforce => (resolve lines r.scope.client hops).1

end Request

/-! ## 2. The gates -/

inductive Refusal where
  | missingKey
  | invalidKey
  | noTenant
  | suspended
  | contractInactive
  | sourceIp
  | raised
deriving DecidableEq, Repr

/-- The status and the detail of the refusals that `_authenticate` makes itself. -/
def Refusal.answer : Refusal → Option (Nat × String)
  | .missingKey => some (401, "Missing proxy key. Use 'Authorization: Bearer <proxy-key>' " ++
      "(or x-api-key / x-goog-api-key / ?key= for native Anthropic/Gemini SDKs).")
  | .invalidKey => some (401, "Invalid proxy API key. Contact your platform team for a key.")
  | .noTenant => some (403, "This proxy key is not bound to a tenant.")
  | .suspended => some (403, "API key suspended. Contact your platform team.")
  | .contractInactive => some (403, "Contract inactive. Contact your account administrator.")
  | .sourceIp => some (403, "Source IP not allowed for this tenant.")
  | .raised => none

variable (py : Builtins) (env : Environ) (cfg : Json)

/-- The user and the metadata of an entry; a legacy one has no metadata. -/
def identity (entry : Json) : Json × Json :=
  if entry.isObj then (entry.getD "tenant_id" (.str "default"), entry) else (entry, .null)

/-- The record has a tenant id that scopes nothing. -/
def unbound (metadata : Json) : Bool :=
  (metadata.get? "tenant_id").any fun tenantId => !tenantId.truthy

/-- `get_ip_allowlist`. -/
def getIpAllowlist (metadata : Json) : List String :=
  (((metadata.getD "ip_allowlist" .null).items?).getD []).map py.str

/-- The configured list, while it is switched on. -/
def globalCidrs : Json :=
  let ipcfg := settings cfg "ip_allowlist"
  if (ipcfg.getD "enabled" .null).truthy then
    (ipcfg.getD "global_cidrs" (.arr [])).orElse (.arr [])
  else .arr []

/-- The request's address is on the lists, or there are none. -/
def checkSource (r : Request) (metadata : Json) : Except Refusal Unit :=
  if !(settings cfg "ip_allowlist").isObj then .error .raised
  else if (globalCidrs cfg).truthy || !(getIpAllowlist py metadata).isEmpty then
    match ipAllowed py (r.clientIp env cfg) (globalCidrs cfg) (getIpAllowlist py metadata) with
    | some true => .ok ()
    | some false => .error .sourceIp
    | none => .error .raised
  else .ok ()

/-- `any(fnmatch(user, pattern) for pattern in patterns)`; only a text is a pattern. -/
def matchesAny (user : String) : List Json → Except Refusal Bool
  | [] => .ok false
  | .str pattern :: patterns =>
    if fnmatchcase user pattern then .ok true else matchesAny user patterns
  | _ :: _ => .error .raised

/-- The pattern of the tenant's own e-mail domain. -/
def ownerPatterns (metadata : Json) : List Json :=
  let domain := metadata.getD "owner_domain" .null
  if domain.truthy then [.str ("*@" ++ py.str domain)] else []

/-- `cfg.get("proxy", {})` -/
def proxySettings : Json := cfg.getD "proxy" (.obj [])

def overrideAllowed : Bool :=
  ((proxySettings cfg).getD "allow_user_id_header_override" (.bool false)).truthy

def allowedUserIds : Json :=
  ((proxySettings cfg).getD "allowed_user_id_headers" (.arr [])).orElse (.arr [])

/-- The user id that the header puts in, if it may. -/
def overridden (r : Request) (metadata : Json) : Except Refusal (Option String) :=
  if !(proxySettings cfg).isObj then .error .raised
  else if overrideAllowed cfg then
    match (r.header? "x-user-id").filter (· ≠ "") with
    | none => .ok none
    | some user =>
      match listOf (allowedUserIds cfg) with
      | none => .error .raised
      | some patterns => do
        let allowed ← matchesAny user (patterns ++ ownerPatterns py metadata)
        return if allowed then some user else none
  else .ok none

/-- `if cond: raise HTTPException(…)` -/
def refuseIf (cond : Bool) (why : Refusal) : Except Refusal Unit :=
  if cond then .error why else .ok ()

/-- `_authenticate`.  `entryOf` is what `validate_proxy_key` finds for a key. -/
def authenticate (entryOf : String → Option Json) (proto : Protocol) (r : Request) :
    Except Refusal Auth :=
  let apiKey := r.credential proto
  if apiKey = "" then .error .missingKey
  else
    match entryOf apiKey with
    | none => .error .invalidKey
    | some entry => do
      let (user, metadata) := identity entry
      refuseIf (unbound metadata) .noTenant
      refuseIf (isSuspended metadata) .suspended
      refuseIf (isContractInactive metadata) .contractInactive
      checkSource py env cfg r metadata
      let header ← overridden py cfg r metadata
      return ⟨(header.map .str).getD user, apiKey, metadata, user⟩

/-! ## 3. What an authenticated request has passed -/

/-- The gates, as conditions. -/
structure Cleared (r : Request) (metadata : Json) : Prop where
  bound : unbound metadata = false
  active : isSuspended metadata = false
  contracted : isContractInactive metadata = false
  source : ipAllowed py (r.clientIp env cfg) (globalCidrs cfg) (getIpAllowlist py metadata) =
    some true

variable {py env cfg}

theorem ipAllowed_of_checkSource {r : Request} {metadata : Json}
    (h : checkSource py env cfg r metadata = .ok ()) :
    ipAllowed py (r.clientIp env cfg) (globalCidrs cfg) (getIpAllowlist py metadata) =
      some true := by
  unfold checkSource at h
  split at h
  · cases h
  · split at h
    · split at h
      · next hallowed => exact hallowed
      · cases h
      · cases h
    · next hnone =>
      simp only [Bool.or_eq_true, not_or, Bool.not_eq_true, Bool.not_eq_false'] at hnone
      simp [ipAllowed, hnone]

theorem refuseIf_eq_ok {cond : Bool} {why : Refusal} {u : Unit} :
    refuseIf cond why = .ok u ↔ cond = false := by
  cases cond with
  | true => simp [refuseIf]
  | false => simp [refuseIf]

/-- What an authenticated request has: a key whose entry passed every gate. -/
theorem authenticate_eq_ok {entryOf : String → Option Json} {proto : Protocol} {r : Request}
    {auth : Auth} (h : authenticate py env cfg entryOf proto r = .ok auth) :
    ∃ entry header, entryOf (r.credential proto) = some entry ∧
      Cleared py env cfg r (identity entry).2 ∧
      overridden py cfg r (identity entry).2 = .ok header ∧
      auth = ⟨(header.map .str).getD (identity entry).1, r.credential proto, (identity entry).2,
        (identity entry).1⟩ := by
  unfold authenticate at h
  simp only at h
  split at h
  · cases h
  · split at h
    · cases h
    · next entry hentry =>
      simp only [Raising.bind_eq_ok_iff, refuseIf_eq_ok] at h
      obtain ⟨_, hbound, _, hactive, _, hcontracted, _, hsource, header, hheader, h⟩ := h
      cases h
      exact ⟨entry, header, hentry,
        ⟨hbound, hactive, hcontracted, ipAllowed_of_checkSource hsource⟩, hheader, rfl⟩

/-! ## 4. The overriding user id -/

theorem matchesAny_eq_ok_true {user : String} {patterns : List Json}
    (h : matchesAny user patterns = .ok true) :
    ∃ pattern, .str pattern ∈ patterns ∧ fnmatchcase user pattern = true := by
  induction patterns with
  | nil => cases h
  | cons head patterns ih =>
    cases head with
    | str pattern =>
      rw [matchesAny] at h
      split at h
      · next hmatch => exact ⟨pattern, List.mem_cons_self, hmatch⟩
      · obtain ⟨pattern', hmem, hmatch⟩ := ih h
        exact ⟨pattern', List.mem_cons_of_mem _ hmem, hmatch⟩
    | _ => cases h

theorem overridden_eq_some {r : Request} {metadata : Json} {user : String}
    (h : overridden py cfg r metadata = .ok (some user)) :
    overrideAllowed cfg = true ∧ r.header? "x-user-id" = some user ∧ user ≠ "" ∧
      ∃ patterns pattern, listOf (allowedUserIds cfg) = some patterns ∧
        .str pattern ∈ patterns ++ ownerPatterns py metadata ∧
        fnmatchcase user pattern = true := by
  unfold overridden at h
  split at h
  · cases h
  · split at h
    · next henabled =>
      split at h
      · cases h
      · next user' hheader =>
        split at h
        · cases h
        · next patterns hpatterns =>
          obtain ⟨allowed, hallowed, h⟩ := Raising.bind_eq_ok_iff.mp h
          cases allowed with
          | false => cases h
          | true =>
            cases h
            obtain ⟨pattern, hmem, hmatch⟩ := matchesAny_eq_ok_true hallowed
            obtain ⟨hsent, hne⟩ := Option.filter_eq_some_iff.mp hheader
            exact ⟨henabled, hsent, by simpa using hne, patterns, pattern, hpatterns, hmem, hmatch⟩
    · cases h

/-- Without wildcards in the domain, the pattern of the domain is matched by what ends in it. -/
theorem fnmatchcase_domain {user domain : String}
    (hplain : ∀ c ∈ domain.toList, c ≠ '*' ∧ c ≠ '?' ∧ c ≠ '[') :
    fnmatchcase user ("*@" ++ domain) = true ↔ ∃ name, user = name ++ "@" ++ domain := by
  have hat : ∀ c ∈ '@' :: domain.toList, c ≠ '*' ∧ c ≠ '?' ∧ c ≠ '[' := by
    intro c hc
    rcases List.mem_cons.mp hc with rfl | hc
    · decide
    · exact hplain c hc
  have hpattern : ("*@" ++ domain).toList = '*' :: '@' :: domain.toList := by simp
  have hitems : Tools.translate ("*@" ++ domain) =
      .star :: ('@' :: domain.toList).map Tools.GlobItem.char := by
    rw [Tools.translate, hpattern, List.length_cons, ← Tools.translateFuel_plain _ hat]
    rfl
  rw [fnmatchcase, hitems, PatternCheck.matchesItems_star]
  simp only [Tools.matchesItems_plain]
  constructor
  · rintro ⟨_, ⟨name, hname⟩, rfl⟩
    refine ⟨.ofList name, ?_⟩
    rw [← String.toList_inj, ← hname]
    simp
  · rintro ⟨name, rfl⟩
    refine ⟨'@' :: domain.toList, ⟨name.toList, ?_⟩, rfl⟩
    simp

/-- **Whose user id a request is booked under**: its key's, or one that the operator lets a header
    say and that matches a listed pattern or is of the tenant's own domain. -/
theorem userId_eq_or_listed (entryOf : String → Option Json) (proto : Protocol) (r : Request)
    (auth : Auth) (h : authenticate py env cfg entryOf proto r = .ok auth) :
    auth.userId = auth.keyPrincipal ∨
      ∃ user patterns, auth.userId = .str user ∧ r.header? "x-user-id" = some user ∧
        overrideAllowed cfg = true ∧ listOf (allowedUserIds cfg) = some patterns ∧
        ((∃ pattern, .str pattern ∈ patterns ∧ fnmatchcase user pattern = true) ∨
          ∃ domain, auth.metadata.get? "owner_domain" = some domain ∧ domain.truthy = true ∧
            ((∀ c ∈ (py.str domain).toList, c ≠ '*' ∧ c ≠ '?' ∧ c ≠ '[') →
              ∃ name, user = name ++ "@" ++ py.str domain)) := by
  obtain ⟨entry, header, -, -, hheader, rfl⟩ := authenticate_eq_ok h
  cases header with
  | none => exact Or.inl rfl
  | some user =>
    right
    obtain ⟨henabled, hsent, -, patterns, pattern, hpatterns, hmem, hmatch⟩ :=
      overridden_eq_some hheader
    refine ⟨user, patterns, rfl, hsent, henabled, hpatterns, ?_⟩
    rcases List.mem_append.mp hmem with hlisted | howner
    · exact Or.inl ⟨pattern, hlisted, hmatch⟩
    · right
      unfold ownerPatterns at howner
      simp only at howner
      split at howner
      · next htruthy =>
        have hpattern := List.mem_singleton.mp howner
        cases hpattern
        cases hdomain : (identity entry).2.get? "owner_domain" with
        | none =>
          rw [Json.getD, hdomain] at htruthy
          cases htruthy
        | some domain =>
          rw [Json.getD, hdomain, Option.getD_some] at htruthy hmatch
          exact ⟨domain, rfl, htruthy, fun hplain => (fnmatchcase_domain hplain).mp hmatch⟩
      · cases howner

/-- `proxy: {allow_user_id_header_override: true}`. -/
def overridingConfig : Json :=
  .obj [("proxy", .obj [("allow_user_id_header_override", .bool true)])]

/-- The entry of a tenant with an e-mail domain. -/
def acmeEntry : Json := .obj [("tenant_id", .str "acme"), ("owner_domain", .str "acme.com")]

def plainBuiltins : Builtins := ⟨fun _ => "", fun _ _ => none⟩

/-- A request with a bearer token and a user id. -/
def namingRequest (user : String) : Request where
  scope :=
    { kind := .http
      headers := [("authorization", "Bearer tok-acme"), ("x-user-id", user)]
      client := some "9.9.9.9" }

theorem userId_eq_or_listed_acme :
    ∃ auth, authenticate plainBuiltins {} overridingConfig (fun _ => some acmeEntry) .openai
        (namingRequest "ann@acme.com") = .ok auth ∧
      (auth.userId = auth.keyPrincipal ∨ ∃ user, auth.userId = .str user) := by
  refine ⟨⟨.str "ann@acme.com", "tok-acme", acmeEntry, .str "acme"⟩, rfl, ?_⟩
  obtain heq | ⟨user, -, huser, -⟩ := userId_eq_or_listed (fun _ => some acmeEntry) .openai
    (namingRequest "ann@acme.com") ⟨.str "ann@acme.com", "tok-acme", acmeEntry, .str "acme"⟩
    (rfl : authenticate plainBuiltins {} overridingConfig _ _ _ = _)
  · exact Or.inl heq
  · exact Or.inr ⟨user, huser⟩

/-! ## 5. What a client writes about its address -/

theorem headers_callMiddleware {verify : Option (String → Bool)} {scope : Scope}
    (hkind : scope.kind ≠ .other) :
    (callMiddleware env cfg verify scope).headers =
      scope.headers.filter fun header => !strippedNames.any fun name => named name header := by
  have hkept := foldl_kept {} scope.headers
  rw [List.nil_append] at hkept
  rw [← hkept]
  cases hcase : scope.kind with
  | http => simp only [callMiddleware, hcase]
  | websocket => simp only [callMiddleware, hcase]
  | other => exact absurd hcase hkind

/-- A stored address is what the request's caller is. -/
theorem clientIp_of_stored {r : Request} {ip : String}
    (h : r.scope.clientIp.map Prod.fst = some ip) (hne : ip ≠ "") : r.clientIp env cfg = ip := by
  obtain ⟨stored, hstored, rfl⟩ := Option.map_eq_some_iff.mp h
  rw [Request.clientIp, hstored, Option.filter_some, if_pos (by simpa using hne)]

/-- Only the headers, the query and the caller's address count. -/
theorem authenticate_congr {r r' : Request} (hheaders : r.scope.headers = r'.scope.headers)
    (hquery : r.query = r'.query) (hip : r.clientIp env cfg = r'.clientIp env cfg)
    (entryOf : String → Option Json) (proto : Protocol) :
    authenticate py env cfg entryOf proto r = authenticate py env cfg entryOf proto r' := by
  have hheader : r.header? = r'.header? := by
    funext name
    rw [Request.header?, Request.header?, hheaders]
  have hparam : r.query? = r'.query? := by
    funext name
    rw [Request.query?, Request.query?, hquery]
  have hcredential : r.credential proto = r'.credential proto := by
    simp only [Request.credential, hheader, hparam]
  have hsource : checkSource py env cfg r = checkSource py env cfg r' := by
    funext metadata
    simp only [checkSource, hip]
  have hoverridden : overridden py cfg r = overridden py cfg r' := by
    funext metadata
    simp only [overridden, hheader]
  simp only [authenticate, hcredential, hsource, hoverridden]

/-- A connection behind one trusted hop that sends this line and a key. -/
def keyedScope (line : String) : Scope where
  kind := .http
  headers := [("authorization", "Bearer tok-acme"), ("x-user-id", "ann@acme.com"),
    ("x-forwarded-for", line)]
  client := some "9.9.9.9"

end TokenProxy.Authentication
