/-
  TokenProxy/CallerIdentity.lean
  ==============================
  **What the pipeline takes a request's caller to be** (`tenancy/resolver.py`, the head of
  `Pipeline.process_request`, the bucket of `g00_rate_limit.py`).

  From the parameters that the request core stamps and two headers come the tenant, the principal
  and the team.  `X-Tenant-ID` counts for an admin key and `X-Team` for a gateway key.  Buckets are
  named by all three, joined by colons.

  Main result: `same_bucket_iff`, for every other key: requests share a bucket exactly when their
  keys are of one tenant, whatever the requests say.
-/
import TokenProxy.Authentication
import TokenProxy.TenantIsolation

namespace TokenProxy.CallerIdentity

open TokenProxy.Authentication
open TokenProxy.ClientIp (Environ word)
open TokenProxy.Ingress
open TokenProxy.KeyStore (strip Builtins)
open TokenProxy.Tenancy

/-! ## 1. Tenants, teams and principals -/

/-- `_normalise_tier`; `none` for what is no text. -/
def normaliseTier (tier : Json) : Option String :=
  match tier.orElse (.str "") with
  | .str tier => some (if word tier = "enterprise".toList then "enterprise" else "free")
  | _ => none

/-- A tenant id as a text; `none` for what is no text. -/
def tenantText (tenantId : Json) : Option String :=
  match tenantId.orElse (.str "") with
  | .str tenantId => some tenantId
  | _ => none

def defaultTeam : String := "default"

/-- `resolve_team`. -/
def resolveTeam (headerTeam : Option String) (keyIsGateway : Bool) : String :=
  if !keyIsGateway then defaultTeam
  else
    let team := strip (headerTeam.getD "")
    if team = "" then defaultTeam else team

def maxTeamTagChars : Nat := 64

def safeTagChar (c : Char) : Bool := c.isAlphanum || c = '-' || c = '_' || c = '.'

variable (sha256Hex : String → String)

/-- `team_tag`. -/
def teamTag (team : String) : String :=
  if 0 < team.length && team.length ≤ maxTeamTagChars && team.toList.all safeTagChar then team
  else "h-" ++ .ofList ((sha256Hex team).toList.take 16)

/-- What the pipeline notes of a caller on the request's context. -/
structure Caller where
  tenant : TenantContext
  isAdminKey : Bool
  isGatewayKey : Bool
  keyPrincipal : String
  team : String
  impersonator : Option Json

/-- What the pipeline reads of the stamped parameters. -/
structure Stamped where
  tenantId : Json
  tier : Json
  admin : Bool
  gateway : Bool
  principal : Json
  keyHash : Json

def readStamps (params : Params) : Stamped where
  tenantId := (params.get? "_auth_tenant_id").getD .null
  tier := (params.get? "_auth_tier").getD (.str "free")
  admin := ((params.get? "_auth_admin").getD (.bool false)).truthy
  gateway := ((params.get? "_auth_gateway").getD (.bool false)).truthy
  principal := (params.get? "_auth_principal").getD .null
  keyHash := (params.get? "_api_key_hash").getD .null

/-- Whom an admin key acts for, and who notes it: `ctx.impersonator_tenant_id`. -/
def impersonator (stamped : Stamped) (headerTenant : String) : Option Json :=
  if stamped.admin && headerTenant ≠ "" &&
      stamped.tenantId.orElse (.str "") ≠ .str headerTenant then
    some (stamped.tenantId.orElse (.str "unknown"))
  else none

/-- The key's tenant as a text, where the header's does not stand in for it. -/
def ownTenant (stamped : Stamped) (headerTenant : String) : Option String :=
  if stamped.admin && headerTenant ≠ "" then some "" else tenantText stamped.tenantId

/-- The caller.  `registered` is the registry of legacy keys, by hash; a tier that is no text
    raises, and so does a tenant that is none and is asked for. -/
def resolveCaller (py : Speller) (registered : Json → Option TenantContext) (stamped : Stamped)
    (userId : Json) (r : Authentication.Request) : Option Caller := do
  let headerTenant := strip ((r.header? "x-tenant-id").getD "")
  let tier ← normaliseTier stamped.tier
  let keyTenant ← ownTenant stamped headerTenant
  some
    { tenant :=
        resolveTenant headerTenant keyTenant tier stamped.admin (registered stamped.keyHash)
      isAdminKey := stamped.admin
      isGatewayKey := stamped.gateway
      keyPrincipal :=
        py.str (((stamped.principal.orElse stamped.tenantId).orElse userId).orElse (.str ""))
      team := resolveTeam (r.header? "x-team") stamped.gateway
      impersonator := impersonator stamped headerTenant }

/-- The name of a caller's buckets, after `tok_opt:rate_limit:minute:` and `…:hour:`. -/
def bucketScope (py : Speller) (userId : Json) (caller : Caller) : String :=
  let principal := if caller.keyPrincipal ≠ "" then caller.keyPrincipal else py.str userId
  let team := if caller.team ≠ "" then caller.team else defaultTeam
  caller.tenant.tenantId ++ (":" ++ (principal ++ (":" ++ teamTag sha256Hex team)))

/-! ## 2. A request on its way to the pipeline -/

/-- What a request is served in: the interpreter, the settings, and what the key store and the
    registry of legacy keys say meanwhile. -/
structure World where
  builtins : Builtins
  speller : Speller
  sha256Hex : String → String
  env : Environ
  cfg : Json
  entryOf : String → Option Json
  registered : Json → Option TenantContext

/-- A request that was authenticated and parsed, and whose caller is resolved. -/
structure Served (w : World) where
  proto : Protocol
  request : Authentication.Request
  body : Ingress.Request
  auth : Auth
  params : Params
  caller : Caller
  authenticated : authenticate w.builtins w.env w.cfg w.entryOf proto request = .ok auth
  parsed : serveParams w.sha256Hex w.speller w.cfg auth request.scope.headers body = some params
  resolved : resolveCaller w.speller w.registered (readStamps params) auth.userId request =
    some caller

/-- A request on its way, unless it is refused, unreadable or raises. -/
def serve? (w : World) (proto : Protocol) (request : Authentication.Request)
    (body : Ingress.Request) : Option (Served w) :=
  match ha : authenticate w.builtins w.env w.cfg w.entryOf proto request with
  | .error _ => none
  | .ok auth =>
    match hp : serveParams w.sha256Hex w.speller w.cfg auth request.scope.headers body with
    | none => none
    | some params =>
      match hr : resolveCaller w.speller w.registered (readStamps params) auth.userId request with
      | none => none
      | some caller => some ⟨proto, request, body, auth, params, caller, ha, hp, hr⟩

namespace Served

variable {w : World}

/-- Its rate-limit bucket. -/
def bucket (x : Served w) : String := bucketScope w.sha256Hex w.speller x.auth.userId x.caller

/-- The entry of its key. -/
def entry? (x : Served w) : Option Json := w.entryOf (x.request.credential x.proto)

end Served

/-! ## 3. The caller of a record -/

variable {sha256Hex}

/-- What is stamped is there, whatever the client sent. -/
theorem get?_coreParams {py : Speller} {auth : Auth} {headers : List (String × String)}
    {p : Ingress.Parsed} {key : String} {value : Json}
    (h : Assoc.lookup key (stamps sha256Hex py auth) = some value) :
    (coreParams sha256Hex py auth headers p).get? key = some value := by
  have hnames : ((stamps sha256Hex py auth).map Prod.fst).Nodup := by
    change ["_api_key_hash", "_auth_tenant_id", "_auth_tier", "_auth_admin", "_auth_gateway",
      "_auth_principal"].Nodup
    decide
  rw [coreParams, Dict.get?_foldl_set _ hnames, h, Option.some_or]

/-- What the pipeline reads is the record's. -/
theorem readStamps_serveParams {py : Speller} {cfg : Json} {auth : Auth}
    {headers : List (String × String)} {body : Ingress.Request} {params : Params}
    (h : serveParams sha256Hex py cfg auth headers body = some params) :
    readStamps params =
      { tenantId := auth.record.getD "tenant_id" .null
        tier := auth.record.getD "tier" (.str "free")
        admin := (auth.record.getD "admin" (.bool false)).truthy
        gateway := isGatewayKey auth.metadata
        principal := auth.principal py
        keyHash := .str (sha256Hex auth.apiKey) } := by
  obtain ⟨p, -, rfl⟩ := Option.map_eq_some_iff.mp h
  rw [readStamps, get?_coreParams rfl, get?_coreParams rfl, get?_coreParams rfl,
    get?_coreParams rfl, get?_coreParams rfl, get?_coreParams rfl]
  rfl

theorem resolveCaller_eq_some {py : Speller} {registered : Json → Option TenantContext}
    {stamped : Stamped} {userId : Json} {r : Authentication.Request} {caller : Caller}
    (h : resolveCaller py registered stamped userId r = some caller) :
    ∃ tier keyTenant, ownTenant stamped (strip ((r.header? "x-tenant-id").getD "")) =
        some keyTenant ∧
      caller.tenant = resolveTenant (strip ((r.header? "x-tenant-id").getD "")) keyTenant tier
        stamped.admin (registered stamped.keyHash) ∧
      caller.keyPrincipal =
        py.str (((stamped.principal.orElse stamped.tenantId).orElse userId).orElse (.str "")) ∧
      caller.team = resolveTeam (r.header? "x-team") stamped.gateway := by
  simp only [resolveCaller, Option.bind_eq_bind, Option.bind_eq_some_iff, Option.some.injEq] at h
  obtain ⟨tier, -, keyTenant, hkey, hcaller⟩ := h
  refine ⟨tier, keyTenant, hkey, ?_⟩
  simp only [← hcaller, and_self]

/-- The record of a tenant's key that is neither an admin's nor a gateway's. -/
structure Ordinary (entry : Json) (tenantId : String) : Prop where
  bound : entry.get? "tenant_id" = some (.str tenantId)
  admin : (entry.getD "admin" (.bool false)).truthy = false
  gateway : isGatewayKey entry = false

theorem Ordinary.isObj {entry : Json} {tenantId : String} (h : Ordinary entry tenantId) :
    entry.isObj = true := by
  obtain ⟨fields, rfl⟩ := Json.isObj_of_get? h.bound
  rfl

theorem orElse_of_truthy {value fallback : Json} (h : value.truthy = true) :
    value.orElse fallback = value := if_pos h

/-- **The caller of an ordinary key** is its record's: the tenant, the principal and the team do not
    depend on what the request says. -/
theorem caller_of_ordinary {w : World} (x : Served w) {entry : Json} {tenantId : String}
    (hentry : x.entry? = some entry) (h : Ordinary entry tenantId) :
    tenantId ≠ "" ∧ x.caller.tenant.tenantId = sanitiseTenantId tenantId ∧
      x.caller.keyPrincipal = tenantId ∧ x.caller.team = defaultTeam := by
  obtain ⟨found, header, hfound, hcleared, -, hauth⟩ := authenticate_eq_ok x.authenticated
  have hsame : found = entry := Option.some.inj (hfound.symm.trans hentry)
  subst hsame
  have hidentity : identity found = (.str tenantId, found) := by
    rw [identity, if_pos h.isObj, Json.getD, h.bound]
    rfl
  rw [hidentity] at hcleared hauth
  have hbound := hcleared.bound
  have hne : tenantId ≠ "" := by
    simpa [unbound, h.bound, Json.truthy] using hbound
  have htruthy : (Json.str tenantId).truthy = true := by simpa [Json.truthy] using hne
  have hmetadata : x.auth.metadata = found := by rw [hauth]
  have hprincipal : x.auth.keyPrincipal = .str tenantId := by rw [hauth]
  have hrecord : x.auth.record = found := by
    rw [Auth.record, hmetadata, if_pos h.isObj]
  have htenant : found.getD "tenant_id" .null = .str tenantId := by
    rw [Json.getD, h.bound]
    rfl
  have hstr : x.auth.principal w.speller = .str tenantId := by
    rw [Auth.principal, hprincipal, orElse_of_truthy htruthy, orElse_of_truthy htruthy,
      orElse_of_truthy htruthy, w.speller.str_str]
  have hresolved := x.resolved
  rw [readStamps_serveParams x.parsed, hrecord, htenant, h.admin, hmetadata, h.gateway, hstr]
    at hresolved
  obtain ⟨tier, keyTenant, hkey, hcontext, hkeyed, hteam⟩ := resolveCaller_eq_some hresolved
  have hown : tenantId = keyTenant := by
    rw [ownTenant, Bool.false_and, if_neg Bool.false_ne_true, tenantText,
      orElse_of_truthy htruthy] at hkey
    exact Option.some.inj hkey
  refine ⟨hne, ?_, ?_, hteam⟩
  · rw [hcontext, ← hown, resolveTenant, Bool.and_false, if_neg Bool.false_ne_true, if_pos hne,
      TenantContext.forTenant_tenantId]
  · rw [hkeyed, orElse_of_truthy htruthy, orElse_of_truthy htruthy, orElse_of_truthy htruthy,
      w.speller.str_str]

theorem append_colon_inj {a b rest rest' : String} (ha : ':' ∉ a.toList) (hb : ':' ∉ b.toList)
    (h : a ++ (":" ++ rest) = b ++ (":" ++ rest')) : a = b ∧ rest = rest' := by
  have hsame := segment_eq ha hb h
  subst hsame
  exact ⟨rfl, string_append_left_cancel (string_append_left_cancel h)⟩

/-- The bucket of an ordinary key. -/
theorem bucket_of_ordinary {w : World} (x : Served w) {entry : Json} {tenantId : String}
    (hentry : x.entry? = some entry) (h : Ordinary entry tenantId) :
    x.bucket = sanitiseTenantId tenantId ++ (":" ++ (tenantId ++ (":" ++ defaultTeam))) := by
  obtain ⟨hne, htenant, hprincipal, hteam⟩ := caller_of_ordinary x hentry h
  have htag : teamTag w.sha256Hex defaultTeam = defaultTeam := if_pos (by decide)
  have hdefault : defaultTeam ≠ "" := by decide
  rw [Served.bucket, bucketScope, htenant, hprincipal, hteam]
  simp only [ne_eq, hne, not_false_eq_true, hdefault, if_true, htag]

/-- **Buckets are the tenants'**: two requests with keys that are neither an admin's nor a gateway's
    draw from one bucket exactly when their keys are of one tenant, whatever the requests say and
    whenever they come. -/
theorem same_bucket_iff {w w' : World} (x : Served w) (y : Served w') {entry entry' : Json}
    {tenantId tenantId' : String} (hx : x.entry? = some entry) (hy : y.entry? = some entry')
    (h : Ordinary entry tenantId) (h' : Ordinary entry' tenantId') :
    x.bucket = y.bucket ↔ tenantId = tenantId' := by
  rw [bucket_of_ordinary x hx h, bucket_of_ordinary y hy h']
  constructor
  · intro hsame
    obtain ⟨-, hrest⟩ := append_colon_inj (colon_notMem_sanitiseTenantId tenantId)
      (colon_notMem_sanitiseTenantId tenantId') hsame
    have hlist := congrArg String.toList hrest
    rw [String.toList_append, @String.toList_append tenantId'] at hlist
    exact String.toList_inj.mp (List.append_cancel_right hlist)
  · rintro rfl
    rfl

/-- One key, and no settings. -/
def acmeWorld : World where
  builtins := plainBuiltins
  speller := plainSpeller
  sha256Hex _ := "hash"
  env := {}
  cfg := .obj []
  entryOf _ := some acmeEntry
  registered _ := none

/-- A request that says it is of another tenant, team and user. -/
def claimingRequest (tenant : String) : Authentication.Request where
  scope :=
    { kind := .http
      headers := [("authorization", "Bearer tok-acme"), ("x-tenant-id", tenant),
        ("x-team", tenant), ("x-user-id", tenant)]
      client := some "9.9.9.9" }

def helloBody : Ingress.Request :=
  .openai (.obj [("model", .str "gpt-4o"),
    ("messages", .arr [.obj [("role", .str "user"), ("content", .str "hi")]])])

theorem same_bucket_iff_claimed : ∃ x y : Served acmeWorld,
    x.caller.tenant.tenantId = "acme" ∧ x.bucket = y.bucket := by
  have hx : (serve? acmeWorld .openai (claimingRequest "globex") helloBody).any
      (fun x => x.caller.tenant.tenantId = "acme") = true := by decide +kernel
  obtain ⟨x, -, hx⟩ := (Option.any_eq_true _ _).mp hx
  have hordinary : Ordinary acmeEntry "acme" := ⟨rfl, rfl, rfl⟩
  have hy : (serve? acmeWorld .openai (claimingRequest "initech") helloBody).isSome = true := by
    decide +kernel
  obtain ⟨y, -⟩ := Option.isSome_iff_exists.mp hy
  exact ⟨x, y, of_decide_eq_true hx, (same_bucket_iff x y rfl rfl hordinary hordinary).mpr rfl⟩

end TokenProxy.CallerIdentity
