/-
  TokenProxy/ClientIp.lean
  ========================
  **The caller's address** (`net/client_ip.py`).

  A client may write anything into `X-Forwarded-For`, and each trusted proxy appends the address
  its connection came from; the caller is the entry that as many places from the right as there are
  trusted hops.  Blank entries are dropped before the count, so the proxies' own entries have to be
  non-blank for it to be theirs.

  What is counted and logged is left out, and so is how a forwarder's token is verified; `verify`
  says which tokens are.
-/
import TokenProxy.IpAddress
import TokenProxy.TenantContext

namespace TokenProxy.ClientIp

open TokenProxy.IpAddress (ipAddress?)
open TokenProxy.KeyStore (strip)
open TokenProxy.Tenancy (strip_strip)

/-! ## 1. Parsing -/

/-- `INVALID`. -/
def invalid : String := "invalid"

inductive Source where
  | peer
  | forwarded
  | invalid
  | vouched
  | observe
deriving DecidableEq, Repr

/-- `[v6]`, `[v6]:port` and `v4:port` without the brackets and the port. -/
def bareAddress : List Char → Option (List Char)
  | '[' :: rest => if ']' ∈ rest then some (rest.takeWhile (· ≠ ']')) else none
  | v => some (if v.count ':' = 1 then v.takeWhile (· ≠ ':') else v)

/-- `normalise_ip`. -/
def normaliseIp (value : Option String) : Option String :=
  ((bareAddress (strip (value.getD "")).toList).bind ipAddress?).map fun addr =>
    addr.unmapped.toText

/-- `_peer`. -/
def peerAddress : Option String → String
  | none => "unknown"
  | some peer => if peer = "" then "unknown" else (normaliseIp peer).getD peer

/-- The entries of a line, stripped, without the blank ones. -/
def entriesOf (line : String) : List String :=
  ((line.toList.splitOn ',').map fun e => strip (.ofList e)).filter (· ≠ "")

/-- `_resolve`. -/
def resolve (xffLines : List String) (peer : Option String) (hops : Nat) : String × Source :=
  match xffLines with
  | [line] =>
    let entries := entriesOf line
    if hops = 0 || entries.length < hops then (peerAddress peer, .peer)
    else
      match normaliseIp entries[entries.length - hops]? with
      | some ip => (ip, .forwarded)
      | none => (invalid, .invalid)
  | _ => (peerAddress peer, .peer)

/-- `_first_entry`. -/
def firstEntry (xffLines : List String) (peer : Option String) (hops : Nat) : String :=
  match xffLines with
  | line :: _ =>
    let first := strip (.ofList (line.toList.takeWhile (· ≠ ',')))
    if hops = 0 || first = "" then peerAddress peer else first
  | [] => peerAddress peer

/-! ## 2. Settings -/

/-- The environment variables that are read; an unset one is empty. -/
structure Environ where
  kService : String := ""
  clientIpMode : String := ""

def autoHops (env : Environ) : Nat := if env.kService ≠ "" then 1 else 0

/-- `s.strip().lower()`, for comparing with a word in ASCII. -/
def word (s : String) : List Char := (strip s).toList.map Char.toLower

/-- `_as_bool`. -/
def asBool : Json → Bool
  | .str s => ["1", "true", "yes", "on"].any fun yes => word s = yes.toList
  | value => value.truthy

/-- `cfg.get(name) or {}` -/
def settings (cfg : Json) (name : String) : Json := (cfg.getD name .null).orElse (.obj [])

/-- `trusted_proxy_hops`. -/
def trustedProxyHops (env : Environ) (cfg : Json) : Nat :=
  match (settings cfg "network").getD "trusted_proxy_hops" .null with
  | .null =>
    match (settings cfg "ip_allowlist").getD "trust_x_forwarded_for" .null with
    | .null => autoHops env
    | legacy => if asBool legacy then 1 else 0
  | .int n => if 0 ≤ n then n.toNat else autoHops env
  | _ => autoHops env

inductive Mode where
  | enforce
  | observe
deriving DecidableEq, Repr

/-- `client_ip_mode`. -/
def clientIpMode (env : Environ) (cfg : Json) : Mode :=
  let configured := (settings cfg "network").getD "client_ip_mode" .null
  match if env.clientIpMode ≠ "" then .str env.clientIpMode else configured with
  | .str raw => if word raw = "observe".toList then .observe else .enforce
  | _ => .enforce

/-! ## 3. Resolution -/

/-- What a request says about its caller. -/
structure Asked where
  xffLines : List String := []
  peer : Option String
  vouchedIp : Option String := none
  token : Option String := none

/-- The address that a trusted forwarder vouches for. -/
def Asked.vouched? (verify : Option (String → Bool)) (asked : Asked) : Option String :=
  match asked.token, asked.vouchedIp, verify with
  | some token, some ip, some verify => if verify token then some ip else none
  | _, _, _ => none

/-- `_resolve_request`. -/
def resolveRequest (env : Environ) (cfg : Json) (verify : Option (String → Bool))
    (asked : Asked) : String × Source :=
  let hops := trustedProxyHops env cfg
  let found :=
    match asked.vouched? verify with
    | some ip => ((normaliseIp ip).getD invalid, .vouched)
    | none => resolve asked.xffLines asked.peer hops
  match clientIpMode env cfg with
  | .observe => (firstEntry asked.xffLines asked.peer hops, .observe)
  | .enforce => found

/-! ## 4. The middleware -/

inductive ScopeKind where
  | http
  | websocket
  | other
deriving DecidableEq, Repr

/-- A connection, with its headers decoded from Latin-1 and the host of its socket peer;
    `clientIp` is what is stored on the state. -/
structure Scope where
  kind : ScopeKind
  headers : List (String × String)
  client : Option String
  clientIp : Option (String × Source) := none

def clientIpHeader : String := "tokenlean-client-ip"

def forwarderTokenHeader : String := "tokenlean-forwarder-token"

/-- `_STRIPPED`. -/
def strippedNames : List String :=
  ["x-forwarded-for", "x-real-ip", "forwarded", clientIpHeader, forwarderTokenHeader]

/-- `name.lower()` is the header's name. -/
def named (name : String) (header : String × String) : Bool :=
  header.1.toList.map Char.toLower = name.toList

/-- The headers read so far: the lines, the vouch and the headers that are kept. -/
structure Read where
  xffLines : List String := []
  vouchedIp : Option String := none
  token : Option String := none
  kept : List (String × String) := []

def Read.step (read : Read) (header : String × String) : Read :=
  let read :=
    if named "x-forwarded-for" header then { read with xffLines := read.xffLines ++ [header.2] }
    else if named clientIpHeader header then { read with vouchedIp := some header.2 }
    else if named forwarderTokenHeader header then { read with token := some header.2 }
    else read
  if strippedNames.any fun name => named name header then read
  else { read with kept := read.kept ++ [header] }

def Read.asked (read : Read) (peer : Option String) : Asked :=
  { xffLines := read.xffLines, peer := peer, vouchedIp := read.vouchedIp, token := read.token }

/-- `ClientIPMiddleware.__call__`: the connection as the application gets it. -/
def callMiddleware (env : Environ) (cfg : Json) (verify : Option (String → Bool))
    (scope : Scope) : Scope :=
  match scope.kind with
  | .other => scope
  | _ =>
    let read := scope.headers.foldl Read.step {}
    { scope with
      headers := read.kept
      clientIp := some (resolveRequest env cfg verify (read.asked scope.client)) }

/-! ## 5. The entries of a line -/

/-- Behind a client's text and a comma, entries without a comma that are not blank come out as
    they are, stripped. -/
theorem entriesOf_appended {client : String} {entries : List String} (hne : entries ≠ [])
    (h : ∀ e ∈ entries, ',' ∉ e.toList ∧ strip e ≠ "") :
    entriesOf (client ++ "," ++ ",".intercalate entries) =
      entriesOf client ++ entries.map strip := by
  have hline : (client ++ "," ++ ",".intercalate entries).toList =
      client.toList ++ ',' :: [','].intercalate (entries.map String.toList) := by
    rw [String.toList_append, String.toList_append, String.toList_intercalate, List.append_assoc]
    rfl
  have hsplit : ([','].intercalate (entries.map String.toList)).splitOn ',' =
      entries.map String.toList := by
    refine List.splitOn_intercalate ',' (fun cs hcs => ?_) (List.map_eq_nil_iff.not.mpr hne)
    obtain ⟨e, he, rfl⟩ := List.mem_map.mp hcs
    exact (h e he).1
  have hread : (entries.map String.toList).map (fun cs => strip (.ofList cs)) =
      entries.map strip := by
    rw [List.map_map]
    refine List.map_congr_left fun e _ => ?_
    rw [Function.comp_apply, String.ofList_toList]
  have hkept : (entries.map strip).filter (· ≠ "") = entries.map strip := by
    rw [List.filter_eq_self]
    intro s hs
    obtain ⟨e, he, rfl⟩ := List.mem_map.mp hs
    exact decide_eq_true (h e he).2
  rw [entriesOf, hline, List.splitOn_append_cons_self, hsplit, List.map_append, hread,
    List.filter_append, hkept, entriesOf]

theorem normaliseIp_strip (value : String) : normaliseIp (strip value) = normaliseIp value := by
  rw [normaliseIp, normaliseIp, Option.getD_some, Option.getD_some, strip_strip]

theorem resolve_appended {client first : String} {rest : List String} (peer : Option String)
    (h : ∀ e ∈ first :: rest, ',' ∉ e.toList ∧ strip e ≠ "") :
    (resolve [client ++ "," ++ ",".intercalate (first :: rest)] peer (rest.length + 1)).1 =
      (normaliseIp first).getD invalid := by
  have hentries := @entriesOf_appended client _ (List.cons_ne_nil first rest) h
  have hlength : (entriesOf client ++ (first :: rest).map strip).length =
      (entriesOf client).length + (rest.length + 1) := by
    rw [List.length_append, List.length_map, List.length_cons]
  have hat : (entriesOf client ++ (first :: rest).map strip)[(entriesOf client).length]? =
      some (strip first) := by
    rw [List.getElem?_append_right (Nat.le_refl _), Nat.sub_self]
    rfl
  have henough : ¬ (rest.length + 1 = 0 ||
      (entriesOf client).length + (rest.length + 1) < rest.length + 1) = true := by
    simp only [Bool.or_eq_true, decide_eq_true_eq]
    omega
  rw [resolve, hentries, hlength, if_neg henough, Nat.add_sub_cancel, hat, normaliseIp_strip]
  cases hip : normaliseIp first with
  | none => rfl
  | some ip => rfl

theorem resolve_peer {xffLines : List String} {peer : Option String} {hops : Nat}
    (h : 2 ≤ xffLines.length ∨ hops = 0) :
    (resolve xffLines peer hops).1 = peerAddress peer := by
  rcases xffLines with _ | ⟨line, _ | ⟨line', lines⟩⟩
  · rfl
  · have hhops : hops = 0 := h.resolve_left (Nat.not_succ_le_self 1)
    subst hhops
    rfl
  · rfl

/-! ## 6. The caller's address -/

theorem resolveRequest_enforce {env : Environ} {cfg : Json} {verify : Option (String → Bool)}
    {asked : Asked} (henforce : clientIpMode env cfg = .enforce)
    (hvouched : asked.vouched? verify = none) :
    resolveRequest env cfg verify asked =
      resolve asked.xffLines asked.peer (trustedProxyHops env cfg) := by
  rw [resolveRequest, henforce, hvouched]

/-- **The caller's address**: where nothing is vouched and addresses are enforced, the entries that
    the trusted hops append to a single line, none of them blank, decide it whatever the client
    wrote before them: it is the first of them.  With several lines or without a trusted hop it is
    the socket peer's. -/
theorem resolved_address {env : Environ} {cfg : Json} {verify : Option (String → Bool)}
    {asked : Asked} (henforce : clientIpMode env cfg = .enforce)
    (hvouched : asked.vouched? verify = none) :
    (∀ client first rest, trustedProxyHops env cfg = (first :: rest).length →
      (∀ e ∈ first :: rest, ',' ∉ e.toList ∧ strip e ≠ "") →
      asked.xffLines = [client ++ "," ++ ",".intercalate (first :: rest)] →
      (resolveRequest env cfg verify asked).1 = (normaliseIp first).getD invalid) ∧
    (2 ≤ asked.xffLines.length ∨ trustedProxyHops env cfg = 0 →
      (resolveRequest env cfg verify asked).1 = peerAddress asked.peer) := by
  rw [resolveRequest_enforce henforce hvouched]
  constructor
  · intro client first rest hhops hentries hlines
    rw [hhops, hlines]
    exact resolve_appended asked.peer hentries
  · exact resolve_peer

/-- `network: {trusted_proxy_hops: n}`. -/
def withHops (n : Int) : Json := .obj [("network", .obj [("trusted_proxy_hops", .int n)])]

/-- A line of this client behind one hop. -/
def behindHop (line : String) : Asked := { xffLines := [line], peer := some "9.9.9.9" }

theorem resolved_address_one_hop :
    (resolveRequest {} (withHops 1) none (behindHop "203.0.113.9, 8.8.8.8")).1 = "8.8.8.8" ∧
    (resolveRequest {} (withHops 0) none (behindHop "203.0.113.9, 8.8.8.8")).1 = "9.9.9.9" := by
  have hfirst := (@resolved_address {} (withHops 1) none (behindHop "203.0.113.9, 8.8.8.8")
    (by decide +kernel) rfl).1 "203.0.113.9" " 8.8.8.8" [] (by decide +kernel) (by decide +kernel)
    (by decide +kernel)
  have hpeer := (@resolved_address {} (withHops 0) none (behindHop "203.0.113.9, 8.8.8.8")
    (by decide +kernel) rfl).2 (Or.inr (by decide +kernel))
  refine ⟨hfirst.trans (by decide +kernel), hpeer.trans (by decide +kernel)⟩

/-- A blank entry behind the client's text is dropped, and the address is the client's choice. -/
theorem blank_entry_resolved :
    ',' ∉ " ".toList ∧ " " ≠ "" ∧ clientIpMode {} (withHops 1) = .enforce ∧
    trustedProxyHops {} (withHops 1) = 1 ∧
    (resolveRequest {} (withHops 1) none (behindHop ("1.1.1.1" ++ "," ++ " "))).1 = "1.1.1.1" ∧
    (resolveRequest {} (withHops 1) none (behindHop ("2.2.2.2" ++ "," ++ " "))).1 = "2.2.2.2" := by
  decide +kernel

/-! ## 7. What the application gets -/

/-- What the headers of a connection say about its caller. -/
def Scope.asked (scope : Scope) : Asked := (scope.headers.foldl Read.step {}).asked scope.client

theorem step_xffLines (read : Read) (header : String × String) :
    (read.step header).xffLines =
      read.xffLines ++ if named "x-forwarded-for" header then [header.2] else [] := by
  have hsame : ∀ r : Read,
      (if strippedNames.any fun name => named name header then r
        else { r with kept := r.kept ++ [header] }).xffLines = r.xffLines := by
    intro r
    split
    · rfl
    · rfl
  rw [Read.step, hsame]
  by_cases hline : named "x-forwarded-for" header = true
  · rw [if_pos hline, if_pos hline]
  · rw [if_neg hline, if_neg hline, List.append_nil]
    split
    · rfl
    · split
      · rfl
      · rfl

theorem step_kept (read : Read) (header : String × String) :
    (read.step header).kept =
      read.kept ++ if strippedNames.any fun name => named name header then [] else [header] := by
  have hsame : ∀ r : Read, r.kept = read.kept →
      (if strippedNames.any fun name => named name header then r
        else { r with kept := r.kept ++ [header] }).kept =
      read.kept ++ if strippedNames.any fun name => named name header then [] else [header] := by
    intro r hr
    by_cases hstripped : (strippedNames.any fun name => named name header) = true
    · rw [if_pos hstripped, if_pos hstripped, hr, List.append_nil]
    · rw [if_neg hstripped, if_neg hstripped, hr]
  refine hsame _ ?_
  split
  · rfl
  · split
    · rfl
    · split
      · rfl
      · rfl

theorem foldl_kept (read : Read) (headers : List (String × String)) :
    (headers.foldl Read.step read).kept =
      read.kept ++
        headers.filter fun header => !strippedNames.any fun name => named name header := by
  induction headers generalizing read with
  | nil => rw [List.foldl_nil, List.filter_nil, List.append_nil]
  | cons header headers ih =>
    rw [List.foldl_cons, ih, step_kept, List.append_assoc]
    congr 1
    by_cases h : (strippedNames.any fun name => named name header) = true
    · rw [if_pos h, List.filter_cons_of_neg (by simp [h]), List.nil_append]
    · rw [if_neg h, List.filter_cons_of_pos (by simpa using h), List.singleton_append]

theorem foldl_xffLines (read : Read) (headers : List (String × String)) :
    (headers.foldl Read.step read).xffLines =
      read.xffLines ++ (headers.filter (named "x-forwarded-for")).map Prod.snd := by
  induction headers generalizing read with
  | nil => rw [List.foldl_nil, List.filter_nil, List.map_nil, List.append_nil]
  | cons header headers ih =>
    rw [List.foldl_cons, ih, step_xffLines, List.append_assoc]
    congr 1
    by_cases h : named "x-forwarded-for" header = true
    · rw [if_pos h, List.filter_cons_of_pos h, List.map_cons, List.singleton_append]
    · rw [if_neg h, List.filter_cons_of_neg h, List.nil_append]

/-- The application sees none of the forwarding headers. -/
theorem notMem_headers_callMiddleware {env : Environ} {cfg : Json}
    {verify : Option (String → Bool)} {scope : Scope} (hkind : scope.kind ≠ .other)
    {header : String × String} {name : String} (hname : name ∈ strippedNames)
    (h : named name header = true) :
    header ∉ (callMiddleware env cfg verify scope).headers := by
  have hheaders : (callMiddleware env cfg verify scope).headers =
      (scope.headers.foldl Read.step {}).kept := by
    cases hcase : scope.kind with
    | http => simp only [callMiddleware, hcase]
    | websocket => simp only [callMiddleware, hcase]
    | other => exact absurd hcase hkind
  intro hmem
  rw [hheaders, foldl_kept, List.nil_append, List.mem_filter] at hmem
  have hnone := hmem.2
  rw [Bool.not_eq_true', List.any_eq_false] at hnone
  exact hnone name hname h

theorem clientIp_callMiddleware {env : Environ} {cfg : Json} {verify : Option (String → Bool)}
    {scope : Scope} (hkind : scope.kind ≠ .other) :
    (callMiddleware env cfg verify scope).clientIp =
      some (resolveRequest env cfg verify scope.asked) := by
  cases hcase : scope.kind with
  | http => simp only [callMiddleware, hcase, Scope.asked]
  | websocket => simp only [callMiddleware, hcase, Scope.asked]
  | other => exact absurd hcase hkind

end TokenProxy.ClientIp
