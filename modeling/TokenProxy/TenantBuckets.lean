/-
  TokenProxy/TenantBuckets.lean
  =============================
  **Document buckets and the tenants they are attributed to** (`tenancy/context.py`,
  `/ingest-doc` in `main.py`).

  A bucket's name is a lossy transform of its tenant's id, undone by a dictionary over the
  registry, where the last of two tenants with one bucket wins (`get?_forward`).

  Main results: `tenantToBucket_valid`, every name is one that GCS takes, and
  `bucketsOwned_iff`, the registries for which an upload is only ever attributed to the
  one tenant whose bucket it came through.
-/
import TokenProxy.TenantContext

namespace TokenProxy.Tenancy

/-! ## 1. The source -/

def maxBucketNameLen : Nat := 63

def minBucketNameLen : Nat := 3

/-- The characters of `_BUCKET_NAME_DISALLOWED` are the others. -/
def bucketNameChar (c : Char) : Bool := c.isLower || c.isDigit || c = '-'

/-- `_BUCKET_NAME_DISALLOWED.sub("-", c.lower())`. -/
def slugChar (c : Char) : Char := if bucketNameChar c.toLower then c.toLower else '-'

/-- `re.sub(r"-{2,}", "-", text)`. -/
def collapseHyphens : List Char → List Char
  | [] => []
  | c :: cs => if c = '-' && (collapseHyphens cs).head? = some '-' then collapseHyphens cs
    else c :: collapseHyphens cs

/-- `text.strip("-")`. -/
def stripHyphens (cs : List Char) : List Char :=
  (cs.dropWhile (· = '-')).rdropWhile (· = '-')

/-- `text or "default"`. -/
def orDefault (cs : List Char) : List Char := if cs = [] then "default".toList else cs

def tenantToBucket (bucketPrefix tenantId : String) : String :=
  let slug := orDefault (stripHyphens (collapseHyphens
    ((sanitiseTenantId tenantId).toList.map slugChar)))
  let name := bucketPrefix.toList ++ slug
  let name :=
    if name.length > maxBucketNameLen then
      let keep := max 1 (maxBucketNameLen - bucketPrefix.toList.length)
      bucketPrefix.toList ++ orDefault (stripHyphens (slug.take keep))
    else name
  .ofList (if name.length < minBucketNameLen then name ++ "-x".toList else name)

/-- The ids of a registry that are no empty text. -/
def registered (registry : List String) : List String := registry.filter (· ≠ "")

/-- `{tenant_to_bucket(t): t for t in registry if t}`. -/
def forward (bucketPrefix : String) (registry : List String) : Dict String String :=
  (registered registry).foldl (fun d t => d.set (tenantToBucket bucketPrefix t) t) ∅

def bucketToTenant (bucketPrefix bucket : String) (registry : List String) : Option String :=
  if bucket = "" then none else (forward bucketPrefix registry).get? bucket

/-- The two tenants of a `ValueError`, and their bucket. -/
abbrev Collision := String × String × String

def validateFrom (bucketPrefix : String) (buckets : Dict String String) :
    List String → Except Collision Unit
  | [] => .ok ()
  | t :: ts =>
    let b := tenantToBucket bucketPrefix t
    match buckets.get? b with
    | some u =>
      if u ≠ t then .error (u, t, b) else validateFrom bucketPrefix (buckets.set b t) ts
    | none => validateFrom bucketPrefix (buckets.set b t) ts

def validateRegistryUnique (bucketPrefix : String) (registry : List String) :
    Except Collision Unit := validateFrom bucketPrefix ∅ (registered registry)

structure IngestCache where
  configured : Bool := false
  tenants : List String := []
  ts : ℚ := 0
  valid : Bool := false

/-- `_ingest_tenant_registry`; `rows` is what the query returns, `none` where it fails. -/
def ingestTenantRegistry (ttl now : ℚ) (cache : IngestCache) (databaseUrl : String)
    (rows : Option (List String)) : (Bool × List String) × IngestCache :=
  if cache.valid && now - cache.ts < ttl then ((cache.configured, cache.tenants), cache)
  else if databaseUrl = "" then
    ((false, []), { configured := false, tenants := [], ts := now, valid := true })
  else
    match rows with
    | some tenants =>
      ((true, tenants), { configured := true, tenants := tenants, ts := now, valid := true })
    -- the query failed: still configured, nothing cached
    | none => ((true, []), cache)

inductive IngestResult where
  | refused (status : Nat)
  | ingested (tenantId : String)
deriving DecidableEq

/-- `ingest_doc`: `verification` is the status that the token check refuses with, `bucket` and
    `object` are what the payload holds. -/
def ingestDoc (bucketPrefix : String) (verification : Option Nat) (bucket object : String)
    (registry : Bool × List String) : IngestResult :=
  match verification with
  | some status => .refused status
  | none =>
    if bucket = "" || object = "" then .refused 400
    else if registry.1 then
      match bucketToTenant bucketPrefix bucket registry.2 with
      | some tenantId => .ingested tenantId
      | none => .refused 403
    else .ingested "default"

/-! ## 2. Bucket names -/

structure ValidBucketName (name : List Char) : Prop where
  minLength : minBucketNameLen ≤ name.length
  maxLength : name.length ≤ maxBucketNameLen
  chars : ∀ c ∈ name, bucketNameChar c = true
  endsAlphanumeric : ∃ c, name.getLast? = some c ∧ c.isAlphanum = true

/-- A slug: its characters are a bucket name's, and no hyphen at either end. -/
structure IsSlug (cs : List Char) : Prop where
  nonempty : cs ≠ []
  chars : ∀ c ∈ cs, bucketNameChar c = true
  head : cs.head? ≠ some '-'
  last : cs.getLast? ≠ some '-'

theorem bucketNameChar_slugChar (c : Char) : bucketNameChar (slugChar c) = true := by
  by_cases h : bucketNameChar c.toLower = true
  · rw [slugChar, if_pos h, h]
  · rw [slugChar, if_neg h]
    rfl

theorem mem_collapseHyphens {c : Char} {cs : List Char} (h : c ∈ collapseHyphens cs) : c ∈ cs := by
  induction cs with
  | nil => simp [collapseHyphens] at h
  | cons d cs ih =>
    rw [collapseHyphens] at h
    split at h
    · exact List.mem_cons_of_mem d (ih h)
    · rcases List.mem_cons.mp h with rfl | h
      · exact List.mem_cons_self
      · exact List.mem_cons_of_mem d (ih h)

theorem mem_stripHyphens {c : Char} {cs : List Char} (h : c ∈ stripHyphens cs) : c ∈ cs :=
  List.dropWhile_subset _ ((List.rdropWhile_prefix _ _).subset h)

theorem stripHyphens_length_le (cs : List Char) : (stripHyphens cs).length ≤ cs.length :=
  (List.rdropWhile_prefix _ _).length_le.trans (List.dropWhile_suffix _).length_le

/-- Stripped, a text that is not all hyphens is a slug. -/
theorem isSlug_stripHyphens {cs : List Char} (hchars : ∀ c ∈ cs, bucketNameChar c = true)
    (hne : stripHyphens cs ≠ []) : IsSlug (stripHyphens cs) := by
  refine { nonempty := hne, chars := fun c hc => hchars c (mem_stripHyphens hc), head := ?_,
           last := ?_ }
  · have hpos : 0 < (stripHyphens cs).length := List.length_pos_of_ne_nil hne
    have hbefore := List.rdropWhile_prefix (· = '-') (l := cs.dropWhile (· = '-'))
    have hlt := Nat.lt_of_lt_of_le hpos hbefore.length_le
    have hnot := List.dropWhile_get_zero_not (fun c => decide (c = '-')) cs hlt
    intro h
    rw [List.head?_eq_getElem?, List.getElem?_eq_getElem hpos] at h
    have hget : (stripHyphens cs)[0] = (cs.dropWhile (· = '-'))[0] := hbefore.getElem hpos
    rw [hget] at h
    exact hnot (decide_eq_true (Option.some.inj h))
  · have hnot := List.rdropWhile_last_not (fun c => decide (c = '-'))
      (cs.dropWhile (· = '-')) hne
    intro h
    rw [List.getLast?_eq_some_getLast hne] at h
    exact hnot (decide_eq_true (Option.some.inj h))

theorem isSlug_default : IsSlug "default".toList where
  nonempty := by decide
  chars := List.all_eq_true.mp (by decide)
  head := by decide
  last := by decide

theorem isSlug_orDefault {cs : List Char} (hchars : ∀ c ∈ cs, bucketNameChar c = true) :
    IsSlug (orDefault (stripHyphens cs)) := by
  rw [orDefault]
  split
  · exact isSlug_default
  · next hne => exact isSlug_stripHyphens hchars hne

/-- A cut slug keeps its first character, so there is always something of it left. -/
theorem stripHyphens_take_ne_nil {cs : List Char} (h : IsSlug cs) {keep : Nat} (hkeep : 0 < keep) :
    stripHyphens (cs.take keep) ≠ [] := by
  obtain ⟨c, rest, rfl⟩ := List.exists_cons_of_ne_nil h.nonempty
  obtain ⟨k, rfl⟩ := Nat.exists_eq_succ_of_ne_zero (Nat.ne_of_gt hkeep)
  have hc : c ≠ '-' := by
    intro hc
    exact h.head (by simp [hc])
  rw [stripHyphens, Nat.succ_eq_add_one, List.take_succ_cons,
    List.dropWhile_cons_of_neg (by simp [hc])]
  rw [Ne, List.rdropWhile_eq_nil_iff]
  intro hall
  exact hc (of_decide_eq_true (hall c List.mem_cons_self))

theorem isAlphanum_of_bucketNameChar {c : Char} (h : bucketNameChar c = true) (hc : c ≠ '-') :
    c.isAlphanum = true := by
  simp only [bucketNameChar, Bool.or_eq_true, decide_eq_true_eq] at h
  rcases h with (h | h) | h
  · change ((c.isUpper || c.isLower) || c.isDigit) = true
    rw [h, Bool.or_true, Bool.true_or]
  · change ((c.isUpper || c.isLower) || c.isDigit) = true
    rw [h, Bool.or_true]
  · exact absurd h hc

/-- A prefix of the alphabet and a slug that fits behind it are a bucket name, padded where
    it is too short. -/
theorem validBucketName_append {bucketPrefix slug : List Char}
    (hwithin : ∀ c ∈ bucketPrefix, bucketNameChar c = true) (hslug : IsSlug slug)
    (hfits : (bucketPrefix ++ slug).length ≤ maxBucketNameLen) :
    ValidBucketName (if (bucketPrefix ++ slug).length < minBucketNameLen then
      bucketPrefix ++ slug ++ "-x".toList else bucketPrefix ++ slug) := by
  have hchars : ∀ c ∈ bucketPrefix ++ slug, bucketNameChar c = true := by
    intro c hc
    rcases List.mem_append.mp hc with hc | hc
    · exact hwithin c hc
    · exact hslug.chars c hc
  have hpad : ("-x".toList).length = 2 := by decide
  have hpos : 0 < slug.length := List.length_pos_of_ne_nil hslug.nonempty
  split
  · next hshort =>
    rw [List.length_append] at hshort
    simp only [minBucketNameLen] at hshort
    refine { minLength := ?_, maxLength := ?_, chars := ?_, endsAlphanumeric := ?_ }
    · simp only [List.length_append, hpad, minBucketNameLen]
      omega
    · simp only [List.length_append, hpad, maxBucketNameLen]
      omega
    · intro c hc
      rcases List.mem_append.mp hc with hc | hc
      · exact hchars c hc
      · have hpadChars : ∀ d ∈ "-x".toList, bucketNameChar d = true :=
          List.all_eq_true.mp (by decide)
        exact hpadChars c hc
    · exact ⟨'x', by rw [List.getLast?_append]; rfl, by decide⟩
  · next hlong =>
    refine { minLength := Nat.le_of_not_lt hlong, maxLength := hfits, chars := hchars,
             endsAlphanumeric := ?_ }
    have hlast := List.getLast?_eq_some_getLast hslug.nonempty
    refine ⟨slug.getLast hslug.nonempty, ?_, ?_⟩
    · rw [List.getLast?_append, hlast]
      rfl
    · refine isAlphanum_of_bucketNameChar (hslug.chars _ (List.getLast_mem hslug.nonempty)) ?_
      intro hc
      rw [hc] at hlast
      exact hslug.last hlast

/-- **Every bucket name is one that GCS takes**, for a prefix of the alphabet that leaves room
    for a slug. -/
theorem tenantToBucket_valid {bucketPrefix : String}
    (hwithin : ∀ c ∈ bucketPrefix.toList, bucketNameChar c = true)
    (hroom : bucketPrefix.toList.length < maxBucketNameLen) (tenantId : String) :
    ValidBucketName (tenantToBucket bucketPrefix tenantId).toList := by
  have hslug : IsSlug (orDefault (stripHyphens (collapseHyphens
      ((sanitiseTenantId tenantId).toList.map slugChar)))) := by
    refine isSlug_orDefault fun c hc => ?_
    obtain ⟨d, -, rfl⟩ := List.mem_map.mp (mem_collapseHyphens hc)
    exact bucketNameChar_slugChar d
  rw [tenantToBucket, String.toList_ofList]
  dsimp only
  generalize orDefault (stripHyphens (collapseHyphens
    ((sanitiseTenantId tenantId).toList.map slugChar))) = slug at hslug
  by_cases hlong : (bucketPrefix.toList ++ slug).length > maxBucketNameLen
  · have hkeep : 0 < max 1 (maxBucketNameLen - bucketPrefix.toList.length) := by omega
    have hne := stripHyphens_take_ne_nil hslug hkeep
    have hcut := isSlug_stripHyphens (fun c hc => hslug.chars c (List.mem_of_mem_take hc)) hne
    have hlength := (stripHyphens_length_le (slug.take
      (max 1 (maxBucketNameLen - bucketPrefix.toList.length)))).trans (List.length_take_le _ _)
    rw [if_pos hlong, orDefault, if_neg hne]
    refine validBucketName_append hwithin hcut ?_
    rw [List.length_append]
    omega
  · rw [if_neg hlong]
    exact validBucketName_append hwithin hslug (Nat.le_of_not_lt hlong)

/-! ## 3. The way back -/

/-- The ids of the registry whose bucket this is. -/
def ownersOf (bucketPrefix bucket : String) (registry : List String) : List String :=
  (registered registry).filter fun t => tenantToBucket bucketPrefix t = bucket

theorem mem_ownersOf {bucketPrefix bucket t : String} {registry : List String} :
    t ∈ ownersOf bucketPrefix bucket registry ↔
      t ∈ registered registry ∧ tenantToBucket bucketPrefix t = bucket := by
  simp [ownersOf]

/-- The last owner wins. -/
theorem get?_forward (bucketPrefix bucket : String) (registry : List String) :
    (forward bucketPrefix registry).get? bucket =
      (ownersOf bucketPrefix bucket registry).getLast? := by
  have hfold : ∀ (ts : List String) (d : Dict String String),
      (ts.foldl (fun d t => d.set (tenantToBucket bucketPrefix t) t) d).get? bucket =
        ((ts.filter fun t => tenantToBucket bucketPrefix t = bucket).getLast?).or
          (d.get? bucket) := by
    intro ts
    induction ts with
    | nil =>
      intro d
      rfl
    | cons t ts ih =>
      intro d
      rw [List.foldl_cons, ih, List.filter_cons]
      by_cases ht : tenantToBucket bucketPrefix t = bucket
      · rw [ht, Dict.get?_set_self, if_pos (by simp), List.getLast?_cons]
        cases (ts.filter fun t => tenantToBucket bucketPrefix t = bucket).getLast? with
        | none => rfl
        | some u => rfl
      · rw [Dict.get?_set_of_ne d (Ne.symm ht), if_neg (by simp [ht])]
  rw [forward, hfold, Dict.get?_empty, Option.or_none]
  rfl

/-- No two different ids of the registry have one bucket. -/
def Distinct (bucketPrefix : String) (registry : List String) : Prop :=
  ∀ t ∈ registered registry, ∀ u ∈ registered registry,
    tenantToBucket bucketPrefix t = tenantToBucket bucketPrefix u → t = u

instance (bucketPrefix : String) (registry : List String) :
    Decidable (Distinct bucketPrefix registry) :=
  inferInstanceAs (Decidable (∀ t ∈ registered registry, _))

theorem validateFrom_ok_iff (bucketPrefix : String) (ts : List String) (d : Dict String String) :
    validateFrom bucketPrefix d ts = .ok () ↔
      (∀ t ∈ ts, ∀ u, d.get? (tenantToBucket bucketPrefix t) = some u → u = t) ∧
      ∀ t ∈ ts, ∀ u ∈ ts, tenantToBucket bucketPrefix t = tenantToBucket bucketPrefix u → t = u := by
  induction ts generalizing d with
  | nil => simp [validateFrom]
  | cons t ts ih =>
    have hstep : validateFrom bucketPrefix d (t :: ts) = .ok () ↔
        (∀ u, d.get? (tenantToBucket bucketPrefix t) = some u → u = t) ∧
          validateFrom bucketPrefix (d.set (tenantToBucket bucketPrefix t) t) ts = .ok () := by
      rw [validateFrom]
      cases hget : d.get? (tenantToBucket bucketPrefix t) with
      | none => simp
      | some u =>
        by_cases hut : u = t
        · simp [hut]
        · simp [hut]
    rw [hstep, ih]
    constructor
    · rintro ⟨hhead, hrest, hpairs⟩
      -- a later id with the same bucket is the same id
      have htail : ∀ s ∈ ts, tenantToBucket bucketPrefix s = tenantToBucket bucketPrefix t →
          t = s := by
        intro s hs hbucket
        exact hrest s hs t (by rw [hbucket, Dict.get?_set_self])
      constructor
      · intro s hs u hget
        rcases List.mem_cons.mp hs with rfl | hs
        · exact hhead u hget
        · by_cases hbucket : tenantToBucket bucketPrefix s = tenantToBucket bucketPrefix t
          · rw [← htail s hs hbucket]
            rw [hbucket] at hget
            exact hhead u hget
          · exact hrest s hs u (by rwa [Dict.get?_set_of_ne d hbucket])
      · intro s hs u hu hbucket
        rcases List.mem_cons.mp hs with rfl | hs
        · rcases List.mem_cons.mp hu with rfl | hu
          · rfl
          · exact htail u hu hbucket.symm
        · rcases List.mem_cons.mp hu with hu | hu
          · rw [hu] at hbucket ⊢
            exact (htail s hs hbucket).symm
          · exact hpairs s hs u hu hbucket
    · rintro ⟨hdict, hpairs⟩
      refine ⟨hdict t List.mem_cons_self, ?_, ?_⟩
      · intro s hs u hget
        by_cases hbucket : tenantToBucket bucketPrefix s = tenantToBucket bucketPrefix t
        · rw [hbucket, Dict.get?_set_self] at hget
          rw [← Option.some.inj hget]
          exact hpairs t List.mem_cons_self s (List.mem_cons_of_mem t hs) hbucket.symm
        · rw [Dict.get?_set_of_ne d hbucket] at hget
          exact hdict s (List.mem_cons_of_mem t hs) u hget
      · intro s hs u hu
        exact hpairs s (List.mem_cons_of_mem t hs) u (List.mem_cons_of_mem t hu)

/-- The registries that the check accepts. -/
theorem validateRegistryUnique_ok_iff (bucketPrefix : String) (registry : List String) :
    validateRegistryUnique bucketPrefix registry = .ok () ↔ Distinct bucketPrefix registry := by
  rw [validateRegistryUnique, validateFrom_ok_iff]
  simp [Distinct]

/-- In such a registry every id is what its bucket leads back to. -/
theorem bucketToTenant_of_distinct {bucketPrefix : String} {registry : List String}
    (hdistinct : Distinct bucketPrefix registry) {t : String} (ht : t ∈ registered registry)
    (hne : tenantToBucket bucketPrefix t ≠ "") :
    bucketToTenant bucketPrefix (tenantToBucket bucketPrefix t) registry = some t := by
  rw [bucketToTenant, if_neg hne, get?_forward]
  have hmem : t ∈ ownersOf bucketPrefix (tenantToBucket bucketPrefix t) registry :=
    mem_ownersOf.mpr ⟨ht, rfl⟩
  have hnonempty := List.ne_nil_of_mem hmem
  rw [List.getLast?_eq_some_getLast hnonempty]
  have hlast := mem_ownersOf.mp (List.getLast_mem hnonempty)
  exact congrArg some (hdistinct _ hlast.1 t ht hlast.2)

/-! ## 4. Uploads -/

theorem ingestDoc_ingested {bucketPrefix bucket object t : String} {verification : Option Nat}
    {registry : List String}
    (h : ingestDoc bucketPrefix verification bucket object (true, registry) = .ingested t) :
    (ownersOf bucketPrefix bucket registry).getLast? = some t := by
  unfold ingestDoc at h
  split at h
  · cases h
  · split at h
    · cases h
    · rw [if_pos rfl] at h
      split at h
      · next tenantId hfound =>
        cases h
        rw [bucketToTenant] at hfound
        split at hfound
        · cases hfound
        · rwa [get?_forward] at hfound
      · cases h

/-- What the proxy owes a registry: an upload goes to the only tenant with that bucket; every
    id of a checked registry is led back to; and every name is a bucket name. -/
structure BucketsOwned (bucketPrefix : String) (registry : List String) : Prop where
  attributed : ∀ (ttl now : ℚ) (cache : IngestCache) (databaseUrl : String)
    (rows : Option (List String)),
    (ingestTenantRegistry ttl now cache databaseUrl rows).1 = (true, registry) →
    ∀ (verification : Option Nat) (bucket object t : String),
    ingestDoc bucketPrefix verification bucket object
      (ingestTenantRegistry ttl now cache databaseUrl rows).1 = .ingested t →
    t ∈ registered registry ∧ tenantToBucket bucketPrefix t = bucket ∧
      ∀ u ∈ registered registry, tenantToBucket bucketPrefix u = bucket → u = t
  roundTrip : validateRegistryUnique bucketPrefix registry = .ok () →
    ∀ t ∈ registered registry,
      bucketToTenant bucketPrefix (tenantToBucket bucketPrefix t) registry = some t
  names : ∀ tenantId, ValidBucketName (tenantToBucket bucketPrefix tenantId).toList

/-- **Ownership of buckets**: an upload is attributed to the one tenant it can be from exactly
    when no two registered ids share a bucket. -/
theorem bucketsOwned_iff {bucketPrefix : String}
    (hwithin : ∀ c ∈ bucketPrefix.toList, bucketNameChar c = true)
    (hroom : bucketPrefix.toList.length < maxBucketNameLen) (registry : List String) :
    BucketsOwned bucketPrefix registry ↔ Distinct bucketPrefix registry := by
  have hnames := tenantToBucket_valid hwithin hroom
  have hne : ∀ t, tenantToBucket bucketPrefix t ≠ "" := by
    intro t hempty
    have hmin := (hnames t).minLength
    rw [hempty] at hmin
    exact absurd hmin (by decide)
  constructor
  · intro howned t ht u hu hbucket
    -- an upload to their bucket goes to one of the two, and then both are that one
    have hmem : t ∈ ownersOf bucketPrefix (tenantToBucket bucketPrefix t) registry :=
      mem_ownersOf.mpr ⟨ht, rfl⟩
    obtain ⟨v, hv⟩ : ∃ v, (ownersOf bucketPrefix (tenantToBucket bucketPrefix t)
        registry).getLast? = some v :=
      ⟨_, List.getLast?_eq_some_getLast (List.ne_nil_of_mem hmem)⟩
    have hingest : ingestDoc bucketPrefix none (tenantToBucket bucketPrefix t) "doc"
        (true, registry) = .ingested v := by
      simp [ingestDoc, bucketToTenant, hne t, get?_forward, hv]
    obtain ⟨-, -, hall⟩ := howned.attributed 60 0 {} "postgresql" (some registry) rfl
      none _ _ _ hingest
    exact (hall t ht rfl).trans (hall u hu hbucket.symm).symm
  · intro hdistinct
    refine { attributed := ?_, roundTrip := ?_, names := hnames }
    · intro ttl now cache databaseUrl rows hread verification bucket object t h
      rw [hread] at h
      obtain ⟨ht, hbucket⟩ := mem_ownersOf.mp (List.mem_of_getLast? (ingestDoc_ingested h))
      exact ⟨ht, hbucket, fun u hu hub => hdistinct u hu t ht (hub.trans hbucket.symm)⟩
    · intro _ t ht
      exact bucketToTenant_of_distinct hdistinct ht (hne t)

/-- `NOVA_STG` and `NOVA-STG` share a bucket, and an upload to it is attributed to the last. -/
theorem not_bucketsOwned_nova :
    ingestDoc "token-opt-docs-" none "token-opt-docs-nova-stg" "contract.pdf"
      (true, ["NOVA_STG", "NOVA-STG"]) = .ingested "NOVA-STG" ∧
    tenantToBucket "token-opt-docs-" "NOVA_STG" = "token-opt-docs-nova-stg" ∧
    ¬ BucketsOwned "token-opt-docs-" ["NOVA_STG", "NOVA-STG"] := by
  have hingest : ingestDoc "token-opt-docs-" none "token-opt-docs-nova-stg" "contract.pdf"
      (true, ["NOVA_STG", "NOVA-STG"]) = .ingested "NOVA-STG" := by decide +kernel
  refine ⟨hingest, by decide +kernel, fun h => ?_⟩
  obtain ⟨-, -, hall⟩ := h.attributed 60 0 {} "postgresql" (some ["NOVA_STG", "NOVA-STG"]) rfl
    none _ _ _ hingest
  exact absurd (hall "NOVA_STG" (by decide) (by decide +kernel)) (by decide)

theorem bucketsOwned_nova : BucketsOwned "token-opt-docs-" ["NOVA-STG-01", "SHOP-STG-01"] :=
  (bucketsOwned_iff (List.all_eq_true.mp (by decide)) (by decide) _).mpr (by decide +kernel)

end TokenProxy.Tenancy
