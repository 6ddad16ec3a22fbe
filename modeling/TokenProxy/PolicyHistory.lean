/-
  TokenProxy/PolicyHistory.lean
  =============================
  **Which policy a request is checked against when its own is malformed
  (`_get_policy` of `middleware/g32_tool_eligibility.py`).**

  The gate compiles a tenant's policy and keeps the last good one in a map with a bound.  A
  request with a malformed policy is to be checked against that tenant's last good policy.
  The state carries, beside the map, what each tenant's last good policy was and how the last
  request was checked.

  Main result: `last_good_iff`, the runs in which every malformed request is checked so are
  those in which its tenant's entry is still in the map.
-/
import TokenProxy.Execution
import TokenProxy.ToolPolicy

namespace TokenProxy.Tools

/-! ## 1. Reading a policy -/

structure PolicyReader where
  /-- `str(value)` of what is no string -/
  str : Json → String
  /-- `text.strip().lower()` -/
  strippedLower : String → String
  /-- whether `re.compile` takes the translation of a glob -/
  compiles : String → Bool

variable (reader : PolicyReader)

/-- `_reject_unbalanced_class`: every class that is opened is closed. -/
def balancedFuel : Nat → List Char → Bool
  | 0, _ => true
  | _, [] => true
  | fuel + 1, '[' :: cs =>
    match classBody cs with
    | none => false
    | some (_, rest) => balancedFuel fuel rest
  | fuel + 1, _ :: cs => balancedFuel fuel cs

def balanced (pattern : String) : Bool :=
  balancedFuel pattern.toList.length pattern.toList

/-- `validate_pattern`; `none` where it raises. -/
def validatePattern : Json → Option String
  | .str pattern =>
    if pattern ≠ "" ∧ balanced pattern = true ∧ reader.compiles pattern = true then some pattern
    else none
  | _ => none

/-- Without the patterns that came before, in the order of the author. -/
def dedupe : List String → List String → List String
  | seen, [] => seen
  | seen, p :: ps => dedupe (if p ∈ seen then seen else seen ++ [p]) ps

/-- `_coerce_patterns`; `none` where it raises. -/
def coercePatterns : Json → Option (List String)
  | .null => some []
  | .str pattern => (validatePattern reader (.str pattern)).map fun p => [p]
  | .arr patterns => (patterns.mapM (validatePattern reader)).map (dedupe [])
  | _ => none

/-- `normalize_policy`; `none` where it raises. -/
def normalizePolicy (cfg : Json) : Option ToolPolicy :=
  match cfg.orElse (.obj []) with
  | .obj fields =>
    let default := (Json.obj fields).getD "default" (.str "allow")
    let text := match default with
      | .str s => s
      | value => reader.str value
    let default? := match reader.strippedLower text with
      | "allow" => some PolicyDefault.allow
      | "deny" => some PolicyDefault.deny
      | _ => none
    do
      let default ← default?
      let allow ← coercePatterns reader ((Json.obj fields).getD "allow" .null)
      let deny ← coercePatterns reader ((Json.obj fields).getD "deny" .null)
      some ⟨allow, deny, default⟩
  | _ => none

/-- The signature of a policy, `json.dumps(raw, sort_keys=True)`: policies of one signature
    read the same. -/
structure Signing (Text : Type) where
  of : Json → Text
  reads : ∀ {a b : Json}, of a = of b → normalizePolicy reader a = normalizePolicy reader b

/-! ## 2. The gate -/

def policyCacheMax : Nat := 512

def noopPolicy : ToolPolicy := {}

variable {Text : Type} [DecidableEq Text]

abbrev PolicyCache (Text : Type) := List (String × Text × ToolPolicy)

variable {reader} (signing : Signing reader Text)

/-- `_get_policy`: the policy that a request is checked against, and the map afterwards. -/
def getPolicy (cache : PolicyCache Text) (tenantId : String) (policy : Json) :
    ToolPolicy × PolicyCache Text :=
  let raw := policy.orElse (.obj [])
  let sig := signing.of raw
  let cached := Assoc.lookup tenantId cache
  let compiled := normalizePolicy reader raw
  match cached with
  | some (held, good) =>
    if held = sig then (good, cache)
    else
      match compiled with
      | some policy => (policy, Assoc.insert tenantId (sig, policy) cache)
      | none => (good, cache)
  | none =>
    match compiled with
    | some policy =>
      if policyCacheMax ≤ cache.length then (policy, [(tenantId, sig, policy)])
      else (policy, Assoc.insert tenantId (sig, policy) cache)
    | none => (noopPolicy, cache)

structure PolicyRequest where
  tenantId : String
  policy : Json

/-- What the request's own policy reads as. -/
def PolicyRequest.wellFormed? (r : PolicyRequest) (reader : PolicyReader) : Option ToolPolicy :=
  normalizePolicy reader (r.policy.orElse (.obj []))

structure PolicyState (Text : Type) where
  cache : PolicyCache Text
  /-- each tenant's most recent well-formed policy -/
  lastGood : String → Option ToolPolicy
  /-- the last request, if its policy was malformed, and what it was checked against -/
  malformed : Option (String × ToolPolicy)

def PolicyState.start : PolicyState Text := ⟨[], fun _ => none, none⟩

def checkRequest (s : PolicyState Text) (r : PolicyRequest) : Option (PolicyState Text) :=
  let used := getPolicy signing s.cache r.tenantId r.policy
  match r.wellFormed? reader with
  | some policy =>
    some ⟨used.2, fun t => if t = r.tenantId then some policy else s.lastGood t, none⟩
  | none => some ⟨used.2, s.lastGood, some (r.tenantId, used.1)⟩

/-- The last request, if its policy was malformed, was checked against its tenant's last good
one. -/
def CheckedAgainstLastGood (s : PolicyState Text) : Prop :=
  ∀ tenantId policy good, s.malformed = some (tenantId, policy) →
    s.lastGood tenantId = some good → policy = good

/-- A malformed request finds its tenant's entry, or there was never a good policy, or that
policy denies nothing either. -/
def EntryKept (reader : PolicyReader) (s : PolicyState Text) (r : PolicyRequest) : Prop :=
  r.wellFormed? reader = none → ∀ good, s.lastGood r.tenantId = some good →
    (Assoc.lookup r.tenantId s.cache).isSome = true ∨ good = noopPolicy

/-! ## 3. What the map holds -/

/-- Every entry is its tenant's last good policy, under a signature of it. -/
def EntriesLast (s : PolicyState Text) : Prop :=
  ∀ tenantId sig policy, Assoc.lookup tenantId s.cache = some (sig, policy) →
    s.lastGood tenantId = some policy ∧
      ∃ raw, signing.of raw = sig ∧ normalizePolicy reader raw = some policy

variable {signing}

omit [DecidableEq Text] in
theorem entriesLast_start : EntriesLast signing (.start : PolicyState Text) := by
  intro tenantId sig policy h
  cases h

/-- A well-formed request is checked against its own policy, and the map stays right. -/
theorem getPolicy_good {s : PolicyState Text} {tenantId : String} {raw : Json}
    {policy : ToolPolicy} (hentries : EntriesLast signing s)
    (hgood : normalizePolicy reader (raw.orElse (.obj [])) = some policy) :
    (getPolicy signing s.cache tenantId raw).1 = policy ∧
      ∀ t sig p, Assoc.lookup t (getPolicy signing s.cache tenantId raw).2 = some (sig, p) →
        t = tenantId ∧ p = policy ∧ (∃ raw', signing.of raw' = sig ∧
          normalizePolicy reader raw' = some p) ∨
        t ≠ tenantId ∧ Assoc.lookup t s.cache = some (sig, p) := by
  have hinsert : ∀ t sig p, Assoc.lookup t
      (Assoc.insert tenantId (signing.of (raw.orElse (.obj [])), policy) s.cache) =
        some (sig, p) →
      t = tenantId ∧ p = policy ∧ (∃ raw', signing.of raw' = sig ∧
          normalizePolicy reader raw' = some p) ∨
        t ≠ tenantId ∧ Assoc.lookup t s.cache = some (sig, p) := by
    intro t sig p hlookup
    rw [Assoc.lookup_insert] at hlookup
    split at hlookup
    · next heq =>
      cases hlookup
      exact Or.inl ⟨heq, rfl, _, rfl, hgood⟩
    · next hne => exact Or.inr ⟨hne, hlookup⟩
  rw [getPolicy, hgood]
  dsimp only
  split
  · next held good hcached =>
    obtain ⟨hlast, raw', hsig, hraw'⟩ := hentries tenantId held good hcached
    split
    · next hsame =>
      have hsame' : some good = some policy := by
        rw [← hraw', ← hgood]
        exact signing.reads (hsig.trans hsame)
      refine ⟨Option.some.inj hsame', ?_⟩
      intro t sig p hlookup
      by_cases ht : t = tenantId
      · rw [ht, hcached] at hlookup
        cases hlookup
        exact Or.inl ⟨ht, Option.some.inj hsame', raw', hsig, hraw'⟩
      · exact Or.inr ⟨ht, hlookup⟩
    · exact ⟨rfl, hinsert⟩
  · split
    · refine ⟨rfl, ?_⟩
      intro t sig p hlookup
      rw [Assoc.lookup_cons] at hlookup
      split at hlookup
      · next heq =>
        cases hlookup
        exact Or.inl ⟨heq.symm, rfl, _, rfl, hgood⟩
      · cases hlookup
    · exact ⟨rfl, hinsert⟩

/-- A malformed request is checked against the entry of its tenant, and changes nothing. -/
theorem getPolicy_malformed {cache : PolicyCache Text} {tenantId : String} {raw : Json}
    (hmalformed : normalizePolicy reader (raw.orElse (.obj [])) = none) :
    getPolicy signing cache tenantId raw =
      (((Assoc.lookup tenantId cache).map Prod.snd).getD noopPolicy, cache) := by
  rw [getPolicy, hmalformed]
  dsimp only
  cases hcached : Assoc.lookup tenantId cache with
  | none => rfl
  | some entry =>
    obtain ⟨held, good⟩ := entry
    simp

theorem entriesLast_step {s s' : PolicyState Text} {r : PolicyRequest} (h : EntriesLast signing s)
    (hstep : checkRequest signing s r = some s') : EntriesLast signing s' := by
  rw [checkRequest] at hstep
  cases hgood : r.wellFormed? reader with
  | some policy =>
    rw [hgood] at hstep
    cases hstep
    intro t sig p hlookup
    rcases (getPolicy_good h hgood).2 t sig p hlookup with ⟨ht, rfl, hraw⟩ | ⟨ht, hold⟩
    · exact ⟨if_pos ht, hraw⟩
    · obtain ⟨hlast, hraw⟩ := h t sig p hold
      exact ⟨(if_neg ht).trans hlast, hraw⟩
  | none =>
    rw [hgood] at hstep
    cases hstep
    intro t sig p hlookup
    dsimp only at hlookup
    rw [getPolicy_malformed hgood] at hlookup
    exact h t sig p hlookup

theorem checked_step_iff {s s' : PolicyState Text} {r : PolicyRequest}
    (hentries : EntriesLast signing s) (hstep : checkRequest signing s r = some s') :
    CheckedAgainstLastGood s' ↔ EntryKept reader s r := by
  rw [checkRequest] at hstep
  cases hgood : r.wellFormed? reader with
  | some policy =>
    rw [hgood] at hstep
    cases hstep
    constructor
    · intro _ hnone
      rw [hgood] at hnone
      cases hnone
    · intro _ tenantId policy good hmalformed
      cases hmalformed
  | none =>
    rw [hgood] at hstep
    cases hstep
    have hused : getPolicy signing s.cache r.tenantId r.policy =
        (((Assoc.lookup r.tenantId s.cache).map Prod.snd).getD noopPolicy, s.cache) :=
      getPolicy_malformed hgood
    constructor
    · intro hchecked _ good hlast
      have hsame := hchecked _ _ good rfl hlast
      rw [hused] at hsame
      cases hcached : Assoc.lookup r.tenantId s.cache with
      | none =>
        rw [hcached] at hsame
        exact Or.inr hsame.symm
      | some entry => exact Or.inl rfl
    · intro hkept tenantId policy good hmalformed hlast
      cases hmalformed
      rw [hused]
      cases hcached : Assoc.lookup r.tenantId s.cache with
      | none =>
        rcases hkept hgood good hlast with hsome | hnoop
        · rw [hcached] at hsome
          cases hsome
        · exact hnoop.symm
      | some entry =>
        obtain ⟨sig, held⟩ := entry
        have hheld := (hentries r.tenantId sig held hcached).1
        exact Option.some.inj (hheld.symm.trans hlast)

/-! ## 4. Runs -/

/-- **Every malformed request of a run is checked against its tenant's last good policy exactly
where that tenant's entry is still in the map.** -/
theorem last_good_iff (signing : Signing reader Text) (requests : List PolicyRequest) :
    Execution.Always (checkRequest signing) CheckedAgainstLastGood .start requests ↔
      Execution.AllSteps (checkRequest signing) (EntryKept reader) .start requests := by
  have hstep : ∀ s r s', EntriesLast signing s ∧ CheckedAgainstLastGood s →
      checkRequest signing s r = some s' →
      (EntriesLast signing s' ∧ CheckedAgainstLastGood s' ↔ EntryKept reader s r) := by
    rintro s r s' ⟨hentries, -⟩ hstep
    rw [← checked_step_iff hentries hstep]
    exact and_iff_right (entriesLast_step hentries hstep)
  have hstart : EntriesLast signing .start ∧ CheckedAgainstLastGood (.start : PolicyState Text) :=
    ⟨entriesLast_start, fun _ _ _ hmalformed => by cases hmalformed⟩
  rw [← Execution.always_iff_allSteps hstep requests hstart]
  constructor
  · intro hchecked
    have hentries : Execution.Always (checkRequest signing) (EntriesLast signing) .start requests :=
      Execution.always_of_step (fun s r s' h hstep => entriesLast_step h hstep) requests
        entriesLast_start
    rw [Execution.always_iff_prefixes] at hchecked hentries ⊢
    intro before after s heq hrun
    exact ⟨hentries before after s heq hrun, hchecked before after s heq hrun⟩
  · exact Execution.Always.imp fun s h => h.2

/-! ## 5. More tenants than the map holds -/

/-- Well-formed requests of tenants that the map has room for all get an entry. -/
theorem exec_fill {good : Json} {policy : ToolPolicy}
    (hgood : normalizePolicy reader (good.orElse (.obj [])) = some policy) :
    ∀ (tenants : List String) (s : PolicyState Text),
      s.cache.length + tenants.length ≤ policyCacheMax →
      (s.cache.map Prod.fst ++ tenants).Nodup →
      ∃ s', Execution.exec (checkRequest signing) s (tenants.map fun t => ⟨t, good⟩) = some s' ∧
        s'.cache.map Prod.fst = s.cache.map Prod.fst ++ tenants ∧
        ∀ t, t ∉ tenants → s'.lastGood t = s.lastGood t
  | [], s, _, _ => ⟨s, rfl, (List.append_nil _).symm, fun _ _ => rfl⟩
  | tenant :: tenants, s, hlength, hnodup => by
    have hfresh : tenant ∉ s.cache.map Prod.fst := by
      intro hmem
      exact (List.nodup_append.mp hnodup).2.2 tenant hmem tenant List.mem_cons_self rfl
    have hroom : ¬ policyCacheMax ≤ s.cache.length := by
      rw [List.length_cons] at hlength
      omega
    have hstep : checkRequest signing s ⟨tenant, good⟩ = some
        ⟨Assoc.insert tenant (signing.of (good.orElse (.obj [])), policy) s.cache,
          fun t => if t = tenant then some policy else s.lastGood t, none⟩ := by
      simp only [checkRequest, PolicyRequest.wellFormed?, getPolicy, hgood,
        (Assoc.lookup_eq_none_iff tenant s.cache).mpr hfresh, hroom, if_false]
    have hkeys : (Assoc.insert tenant (signing.of (good.orElse (.obj [])), policy) s.cache).map
        Prod.fst = s.cache.map Prod.fst ++ [tenant] := by
      rw [Assoc.map_fst_insert, if_neg hfresh]
    have hsize := congrArg List.length hkeys
    rw [List.length_map, List.length_append, List.length_map, List.length_singleton] at hsize
    obtain ⟨s', hrun, hcache, hlast⟩ := exec_fill hgood tenants
      ⟨Assoc.insert tenant (signing.of (good.orElse (.obj [])), policy) s.cache,
        fun t => if t = tenant then some policy else s.lastGood t, none⟩
      (by rw [List.length_cons] at hlength; dsimp only; omega)
      (by dsimp only; rw [hkeys, List.append_assoc]; exact hnodup)
    refine ⟨s', ?_, ?_, ?_⟩
    · rw [List.map_cons, Execution.exec_cons, hstep]
      exact hrun
    · rw [hcache, hkeys, List.append_assoc]
      rfl
    · intro t ht
      rw [List.mem_cons, not_or] at ht
      rw [hlast t ht.2]
      exact if_neg ht.1

def asciiReader : PolicyReader where
  str := fun _ => ""
  strippedLower := fun text => text
  compiles := fun _ => true

/-- A policy as its own signature. -/
def ownSigning : Signing asciiReader Json where
  of := id
  reads := by
    intro a b h
    rw [show a = b from h]

def denyShell : Json := .obj [("deny", .arr [.str "shell_*"])]

def denyNumber : Json := .obj [("deny", .arr [.int 5])]

/-- Tenants other than `acme`. -/
def otherTenant (n : Nat) : String := String.ofList (List.replicate n 'b')

def otherTenants (n : Nat) : List String := (List.range n).map otherTenant

theorem length_otherTenants (n : Nat) : (otherTenants n).length = n := by
  rw [otherTenants, List.length_map, List.length_range]

theorem otherTenants_succ (n : Nat) : otherTenants (n + 1) = otherTenants n ++ [otherTenant n] := by
  rw [otherTenants, List.range_succ, List.map_append, List.map_singleton]
  rfl

theorem nodup_otherTenants (n : Nat) : (otherTenants n).Nodup := by
  apply List.Nodup.map _ List.nodup_range
  intro m n h
  have hlength := congrArg (fun text : String => text.toList.length) h
  simpa [otherTenant] using hlength

theorem acme_not_mem_otherTenants (n : Nat) : "acme" ∉ otherTenants n := by
  intro h
  obtain ⟨n, -, hn⟩ := List.mem_map.mp h
  have ha : 'a' ∈ (otherTenant n).toList := by
    rw [hn]
    decide
  rw [otherTenant, String.toList_ofList] at ha
  exact absurd (List.eq_of_mem_replicate ha) (by decide)

/-- The requests: a good policy of `acme`, one of every other tenant, a malformed one of `acme`. -/
def crowdedRun : List PolicyRequest :=
  ⟨"acme", denyShell⟩ :: (otherTenants policyCacheMax).map (fun t => ⟨t, denyShell⟩) ++
    [⟨"acme", denyNumber⟩]

def shellPolicy : ToolPolicy := ⟨[], ["shell_*"], .allow⟩

theorem normalizePolicy_denyShell :
    normalizePolicy asciiReader (denyShell.orElse (.obj [])) = some shellPolicy := by decide

theorem normalizePolicy_denyNumber :
    normalizePolicy asciiReader (denyNumber.orElse (.obj [])) = none := by decide

/-- With `n` others in a map of `n + 1`, one more tenant leaves `acme` without its entry. -/
theorem acme_evicted {n : Nat} (hmax : policyCacheMax = n + 1) :
    ∃ s : PolicyState Json,
      Execution.exec (checkRequest ownSigning) .start
        (⟨"acme", denyShell⟩ :: (otherTenants (n + 1)).map fun t => ⟨t, denyShell⟩) = some s ∧
      Assoc.lookup "acme" s.cache = none ∧ s.lastGood "acme" = some shellPolicy := by
  have hstart : checkRequest ownSigning .start ⟨"acme", denyShell⟩ = some
      ⟨[("acme", denyShell, shellPolicy)],
        fun t => if t = "acme" then some shellPolicy else none, none⟩ := by
    simp only [checkRequest, PolicyRequest.wellFormed?, getPolicy, normalizePolicy_denyShell]
    rfl
  have hnot := acme_not_mem_otherTenants (n + 1)
  have hnodup := nodup_otherTenants (n + 1)
  rw [otherTenants_succ, List.mem_append, not_or, List.mem_singleton] at hnot
  rw [otherTenants_succ] at hnodup
  obtain ⟨hearly, -, hapart⟩ := List.nodup_append.mp hnodup
  -- the map is full with `acme` and the others but one
  obtain ⟨full, hfull, hkeys, hlast⟩ : ∃ s', Execution.exec (checkRequest ownSigning)
      ⟨[("acme", denyShell, shellPolicy)],
        fun t => if t = "acme" then some shellPolicy else none, none⟩
      ((otherTenants n).map fun t => ⟨t, denyShell⟩) = some s' ∧
      s'.cache.map Prod.fst = ["acme"] ++ otherTenants n ∧
      ∀ t, t ∉ otherTenants n →
        s'.lastGood t = if t = "acme" then some shellPolicy else none := by
    apply exec_fill normalizePolicy_denyShell
    · rw [length_otherTenants, hmax, List.length_singleton]
      omega
    · rw [List.map_singleton, List.singleton_append, List.nodup_cons]
      exact ⟨hnot.1, hearly⟩
  have hfresh : Assoc.lookup (otherTenant n) full.cache = none := by
    rw [Assoc.lookup_eq_none_iff, hkeys, List.singleton_append, List.mem_cons, not_or]
    refine ⟨fun heq => hnot.2 heq.symm, ?_⟩
    intro hmem
    exact hapart _ hmem _ (List.mem_singleton.mpr rfl) rfl
  have hsize : policyCacheMax ≤ full.cache.length := by
    have hlength := congrArg List.length hkeys
    rw [List.length_map, List.length_append, length_otherTenants, List.length_singleton] at hlength
    omega
  have hlate : checkRequest ownSigning full ⟨otherTenant n, denyShell⟩ = some
      ⟨[(otherTenant n, denyShell, shellPolicy)],
        fun t => if t = otherTenant n then some shellPolicy else full.lastGood t, none⟩ := by
    simp only [checkRequest, PolicyRequest.wellFormed?, getPolicy, normalizePolicy_denyShell,
      hfresh, hsize, if_true]
    rfl
  refine ⟨⟨[(otherTenant n, denyShell, shellPolicy)],
    fun t => if t = otherTenant n then some shellPolicy else full.lastGood t, none⟩, ?_, ?_, ?_⟩
  · rw [Execution.exec_cons, hstart, Option.bind_some, otherTenants_succ, List.map_append,
      Execution.exec_append, hfull, Option.bind_some, List.map_singleton, Execution.exec_cons,
      hlate]
    rfl
  · rw [Assoc.lookup_cons, if_neg fun heq => hnot.2 heq.symm, Assoc.lookup_nil]
  · dsimp only
    rw [if_neg hnot.2, hlast "acme" hnot.1, if_pos rfl]

/-- Once its entry has made room, a tenant's malformed policy denies nothing. -/
theorem last_good_lost :
    ¬ Execution.Always (checkRequest ownSigning) CheckedAgainstLastGood .start crowdedRun := by
  intro halways
  obtain ⟨s, hrun, hgone, hknown⟩ := acme_evicted (n := 511) rfl
  have hlast : Execution.exec (checkRequest ownSigning) .start crowdedRun = some
      ⟨s.cache, s.lastGood, some ("acme", noopPolicy)⟩ := by
    have hmax : policyCacheMax = 511 + 1 := rfl
    rw [crowdedRun, hmax, Execution.exec_append, hrun, Option.bind_some, Execution.exec_cons]
    simp only [checkRequest, PolicyRequest.wellFormed?, normalizePolicy_denyNumber,
      getPolicy_malformed normalizePolicy_denyNumber, hgone]
    rfl
  exact absurd (halways.last hlast "acme" noopPolicy shellPolicy rfl hknown) (by decide)

end TokenProxy.Tools
