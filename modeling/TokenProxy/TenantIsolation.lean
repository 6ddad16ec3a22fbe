/-
  TokenProxy/TenantIsolation.lean
  ===============================
  **Whether the names derived from tenant ids keep tenants apart.**

  `KeyOf` lists the Redis keys that a tenant's requests read and write: behind its prefix,
  behind its counters' namespace, or with its id as a segment of the key.  No two kinds of
  key start alike (`families_incomparable`), so a key that two tenants share carries one id.

  Main result: `separated_iff`, of two ids that `create_key` stored, which pairs keep their
  keys, collections and batch results apart.
-/
import TokenProxy.TenantContext

namespace TokenProxy.Tenancy

open TokenProxy.KeyStore (strip KeyOp KeyRequest Builtins Blob ReadOutcome newMetadata withAllowlist
  createKey_ok mutateStore)

/-! ## 1. The ids that are stored -/

/-- `create_key(raw)` succeeds, and the key it stores is bound to `id`. -/
def Creates (raw id : String) : Prop :=
  ∃ (py : Builtins) (request : KeyRequest) (keyHash createdAt : String) (blob : Option Blob)
    (read : ReadOutcome) (metadata : Json) (after : Option Blob),
    (KeyOp.createKey request keyHash createdAt).run py raw blob read true =
      (.ok (.created keyHash metadata), after) ∧
    metadata.get? "tenant_id" = some (.str id)

theorem get?_newMetadata_tenantId (id : String) (request : KeyRequest) (createdAt : String)
    (cidrs : List String) : (withAllowlist (newMetadata id request createdAt) cidrs).get?
      "tenant_id" = some (.str id) := by
  have hbase : ∀ value : Json, value.get? "tenant_id" = some (.str id) →
      ∀ (key : String) (v : Json), "tenant_id" ≠ key →
      (value.set key v).get? "tenant_id" = some (.str id) := by
    intro value h key v hne
    rw [Json.get?_set_of_ne value hne, h]
  have hnew : (newMetadata id request createdAt).get? "tenant_id" = some (.str id) := by
    rw [newMetadata]
    have hset := hbase _ (hbase _ (Json.get?_set_self
      (request.extra.filter fun field => field.1 ∉ KeyStore.reservedFields) "tenant_id" (.str id))
      "tier" (.str request.tier) (by decide)) "created_at" (.str createdAt) (by decide)
    by_cases hadmin : request.admin = true
    · have hset' := hbase _ hset "admin" (.bool true) (by decide)
      by_cases hgateway : request.gateway = true
      · simpa [hadmin, hgateway] using hbase _ hset' "gateway" (.bool true) (by decide)
      · simpa [hadmin, hgateway] using hset'
    · by_cases hgateway : request.gateway = true
      · simpa [hadmin, hgateway] using hbase _ hset "gateway" (.bool true) (by decide)
      · simpa [hadmin, hgateway] using hset
  rw [withAllowlist]
  split
  · exact hnew
  · exact hbase _ hnew _ _ (by decide)

theorem createKey_result {py : Builtins} {id keyHash createdAt : String} {request : KeyRequest}
    {store store' : KeyStore.Store} {changed : Bool} {result : KeyStore.OpResult}
    (h : KeyStore.createKey py id request keyHash createdAt store = .ok (changed, result, store')) :
    ∃ cidrs, result = .created keyHash (withAllowlist (newMetadata id request createdAt) cidrs) := by
  obtain ⟨hnew, -, cidrs, hcidrs, -⟩ := createKey_ok h
  rw [KeyStore.createKey, hnew, hcidrs] at h
  cases h
  exact ⟨cidrs, rfl⟩

/-- A stored id is not empty and has no blank at either end. -/
theorem stored_of_creates {raw id : String} (h : Creates raw id) :
    id = strip raw ∧ id ≠ "" ∧ strip id = id := by
  obtain ⟨py, request, keyHash, createdAt, blob, read, metadata, after, hrun, htenant⟩ := h
  rw [KeyOp.run] at hrun
  by_cases hempty : strip raw = ""
  · rw [if_pos (by simp [KeyOp.needsTenant, hempty])] at hrun
    cases hrun
  · rw [if_neg (by simp [hempty]), mutateStore] at hrun
    split at hrun
    · cases hrun
    · split at hrun
      · cases hrun
      · next store hload changed result store' hmut =>
        obtain ⟨cidrs, rfl⟩ := createKey_result hmut
        obtain ⟨-, rfl, -⟩ := createKey_ok hmut
        simp only [Bool.not_true, Bool.false_eq_true, if_false, if_true, Prod.mk.injEq,
          Except.ok.injEq] at hrun
        obtain ⟨hcreated, -⟩ := hrun
        cases hcreated
        rw [get?_newMetadata_tenantId] at htenant
        cases htenant
        exact ⟨rfl, hempty, strip_strip raw⟩

/-! ## 2. What a tenant's requests reach -/

/-- What the keys behind a tenant's Redis prefix start with. -/
def prefixedFamilies : List String :=
  ["tok_opt:l1:", "tok_opt:l2:warm:", "tok_opt:step:", "tok_opt:cache:ttl_stats:",
   "tok_opt:session:", "tok_opt:finetune:", "tok_opt:domain:", "tok_opt:g20:tpl:",
   "tok_opt:batch:", "tok_opt:template:meta:", "tok_opt:template:history:", "tok_opt:turns:",
   "tok_opt:start_time:", "tok_opt:turn_baseline:", "tok_opt:tool_calls",
   "tok_opt:tool:manifest:", "tok_opt:tool:usage:", "tok_opt:tool:pruning_lock",
   "tok_opt:max_tokens_history:", "tok_opt:max_tokens_floor:", "ccr:", "emb:", "g26:summary:",
   "cachefloor:", "quota:", "spend:", "trial_used", "trialexpired:", "trialwarn:",
   "budgetwarn:"]

/-- What the keys start with that carry the tenant's id as their next segment. -/
def segmentFamilies : List String :=
  ["tok_opt:rate_limit:minute:", "tok_opt:rate_limit:hour:", "tok_opt:bypass:stats:"]

/-- `counter_prefix`. -/
def counterPrefix (t : TenantContext) : String :=
  if t.redisPrefix ≠ "" then t.redisPrefix else "t:" ++ t.tenantId ++ ":"

/-- A Redis key that a request with this context reads or writes. -/
inductive KeyOf (t : TenantContext) : String → Prop where
  | named (family rest : String) (h : family ∈ prefixedFamilies) :
    KeyOf t (t.redisPrefix ++ (family ++ rest))
  | counter (family rest : String) (h : family ∈ prefixedFamilies) :
    KeyOf t (counterPrefix t ++ (family ++ rest))
  | segment (family rest : String) (h : family ∈ segmentFamilies) :
    KeyOf t (family ++ (t.tenantId ++ (":" ++ rest)))

/-- `_tenant_skills_collection`. -/
def tenantSkillsCollection (base tenantId : String) : String :=
  if tenantId = "" || tenantId = "default" then base
  else base ++ "_" ++ sanitiseTenantId tenantId

/-- The owner check of `batch_results`: the owner on record is the context's id, the caller
    is the key's own raw id. -/
def mayPoll (isAdmin : Bool) (owner : Option String) (callerTenantId : String) : Bool :=
  isAdmin || decide (owner = some callerTenantId)

/-- Requests of `a` in the context `t` and of `b` in the context `u` share nothing. -/
structure Separated (a b : String) (t u : TenantContext) : Prop where
  redisPrefix : t.redisPrefix ≠ u.redisPrefix
  keys : ∀ key, KeyOf t key → ¬ KeyOf u key
  collection : t.qdrantCollection ≠ u.qdrantCollection
  skills : ∀ base, tenantSkillsCollection base t.tenantId ≠ tenantSkillsCollection base u.tenantId
  ownResults : mayPoll false (some t.tenantId) b = false
  otherResults : mayPoll false (some u.tenantId) a = false

/-! ## 3. Keys that two tenants share -/

def startsOfKeys : List String := "t:" :: prefixedFamilies ++ segmentFamilies

theorem toList_cons {l : List Char} {names : List String} {ls : List (List Char)}
    (h : names.map String.toList = ls) :
    (String.ofList l :: names).map String.toList = l :: ls := by
  rw [List.map_cons, String.toList_ofList, h]

/-- Only families of one length start with one another. -/
theorem families_checked :
    (startsOfKeys.map String.toList).all fun f => (startsOfKeys.map String.toList).all fun g =>
      !f.isPrefixOf g || f.length == g.length := by
  obtain ⟨names, hnames, hchecked⟩ : ∃ names, startsOfKeys.map String.toList = names ∧
      (names.all fun f => names.all fun g => !f.isPrefixOf g || f.length == g.length) := by
    apply Exists.intro
    apply And.intro
    · repeat apply toList_cons
      exact List.map_nil
    · decide +kernel
  rw [hnames]
  exact hchecked

/-- No family starts with another. -/
theorem families_incomparable : ∀ f ∈ startsOfKeys, ∀ g ∈ startsOfKeys,
    f.toList <+: g.toList → f = g := by
  intro f hf g hg hstarts
  have hrow := List.all_eq_true.mp families_checked _ (List.mem_map_of_mem hf)
  have hpair := List.all_eq_true.mp hrow _ (List.mem_map_of_mem hg)
  rw [List.isPrefixOf_iff_prefix.mpr hstarts, Bool.not_true, Bool.false_or, beq_iff_eq] at hpair
  exact String.toList_inj.mp (hstarts.eq_of_length hpair)

/-- A key tells its family. -/
theorem family_eq {f g x y : String} (hf : f ∈ startsOfKeys) (hg : g ∈ startsOfKeys)
    (h : f ++ x = g ++ y) : f = g ∧ x = y := by
  have hlist : f.toList ++ x.toList = g.toList ++ y.toList := by
    rw [← String.toList_append, ← String.toList_append, h]
  have hfg : f = g := by
    have hprefix := List.prefix_append f.toList x.toList
    rw [hlist] at hprefix
    rcases List.prefix_or_prefix_of_prefix hprefix (List.prefix_append g.toList y.toList) with h | h
    · exact families_incomparable f hf g hg h
    · exact (families_incomparable g hg f hf h).symm
  subst hfg
  exact ⟨rfl, String.toList_inj.mp (List.append_cancel_left hlist)⟩

/-- A text up to its first colon. -/
theorem segment_eq {a b x y : String} (ha : ':' ∉ a.toList) (hb : ':' ∉ b.toList)
    (h : a ++ (":" ++ x) = b ++ (":" ++ y)) : a = b := by
  have hlist : a.toList ++ ':' :: x.toList = b.toList ++ ':' :: y.toList := by
    have hto := congrArg String.toList h
    simpa using hto
  have htake : ∀ (cs rest : List Char), ':' ∉ cs →
      (cs ++ ':' :: rest).takeWhile (fun c => decide (c ≠ ':')) = cs := by
    intro cs rest hcs
    induction cs with
    | nil => simp
    | cons c cs ih =>
      rw [List.mem_cons, not_or] at hcs
      rw [List.cons_append, List.takeWhile_cons_of_pos (by simp [Ne.symm hcs.1]), ih hcs.2]
  rw [← String.toList_inj, ← htake a.toList x.toList ha, hlist, htake b.toList y.toList hb]

/-- What every key of a tenant looks like. -/
inductive KeyShape (id : String) : String → Prop where
  | owned (family rest : String) (h : family ∈ "t:" :: segmentFamilies) :
    KeyShape id (family ++ (id ++ (":" ++ rest)))
  | common (family rest : String) (h : family ∈ prefixedFamilies) (hid : id = "default") :
    KeyShape id (family ++ rest)

theorem keyShape_of_keyOf {id tier key : String} (h : KeyOf (.forTenant id tier) key) :
    KeyShape (sanitiseTenantId id) key := by
  have howned : ∀ rest : String, KeyShape (sanitiseTenantId id)
      ("t:" ++ sanitiseTenantId id ++ ":" ++ rest) := by
    intro rest
    rw [String.append_assoc, String.append_assoc]
    exact .owned "t:" rest List.mem_cons_self
  cases h with
  | named family rest hfamily =>
    by_cases hdefault : sanitiseTenantId id = "default"
    · simp only [TenantContext.forTenant, hdefault, ne_eq, not_true_eq_false, if_false,
        String.empty_append]
      exact .common family rest hfamily rfl
    · simp only [TenantContext.forTenant, hdefault, ne_eq, not_false_eq_true, if_true]
      exact howned (family ++ rest)
  | counter family rest hfamily =>
    by_cases hdefault : sanitiseTenantId id = "default"
    · have howned := howned (family ++ rest)
      simp only [counterPrefix, TenantContext.forTenant, hdefault, ne_eq, not_true_eq_false,
        if_false] at howned ⊢
      exact howned
    · have hne : "t:" ++ sanitiseTenantId id ++ ":" ≠ "" := by
        rw [ne_eq, String.append_eq_empty_iff]
        rintro ⟨-, hcolon⟩
        exact absurd hcolon (by decide)
      simp only [counterPrefix, TenantContext.forTenant, hdefault, ne_eq, not_false_eq_true,
        if_true, hne]
      exact howned (family ++ rest)
  | segment family rest hfamily =>
    rw [TenantContext.forTenant_tenantId]
    exact .owned family rest (List.mem_cons_of_mem _ hfamily)

/-- A key of two tenants is a key of one id. -/
theorem id_of_shared_key {a b key : String} (ha : ':' ∉ a.toList) (hb : ':' ∉ b.toList)
    (h : KeyShape a key) (h' : KeyShape b key) : a = b := by
  have howned : ∀ f ∈ "t:" :: segmentFamilies, f ∈ startsOfKeys := by
    intro f hf
    rcases List.mem_cons.mp hf with rfl | hsegment
    · exact List.mem_append_left _ List.mem_cons_self
    · exact List.mem_append_right _ hsegment
  have hcommon : ∀ f ∈ prefixedFamilies, f ∈ startsOfKeys := by
    intro f hf
    exact List.mem_append_left _ (List.mem_cons_of_mem _ hf)
  have hdisjoint : ∀ f ∈ prefixedFamilies, f ∉ "t:" :: segmentFamilies := by decide +kernel
  generalize hkey : key = key' at h'
  cases h with
  | owned f rest hf =>
    cases h' with
    | owned g rest' hg => exact segment_eq ha hb (family_eq (howned f hf) (howned g hg) hkey).2
    | common g rest' hg _ =>
      obtain ⟨rfl, -⟩ := family_eq (howned f hf) (hcommon g hg) hkey
      exact absurd hf (hdisjoint f hg)
  | common f rest hf hid =>
    cases h' with
    | owned g rest' hg =>
      obtain ⟨rfl, -⟩ := family_eq (hcommon f hf) (howned g hg) hkey
      exact absurd hg (hdisjoint f hf)
    | common g rest' hg hid' => exact hid.trans hid'.symm

/-! ## 4. Which ids are kept apart -/

/-- The default tenant's collection carries another id's name. -/
def ShareDefaultCollection (a b : String) : Prop :=
  (a = "default" ∧ b = "docs") ∨ (a = "docs" ∧ b = "default")

/-- A stored id: not empty, and no blank at either end. -/
def Stored (id : String) : Prop := id ≠ "" ∧ strip id = id

theorem sanitised_eq_default {a : String} (ha : Stored a) :
    sanitiseTenantId a = "default" ↔ a = "default" := by
  constructor
  · exact eq_of_sanitise_eq ha.1 ha.2 (by decide) (by decide) (by decide)
  · rintro rfl
    decide

theorem sanitised_eq_docs {a : String} (ha : Stored a) :
    sanitiseTenantId a = "docs" ↔ a = "docs" := by
  constructor
  · exact eq_of_sanitise_eq ha.1 ha.2 (by decide) (by decide) (by decide)
  · rintro rfl
    decide

theorem colon_notMem_sanitised {a : String} (ha : Stored a) :
    ':' ∉ (sanitiseTenantId a).toList := by
  intro hmem
  exact absurd (allowed_of_mem_sanitised ha.1 ha.2 hmem) (by decide)

theorem colon_notMem_sanitiseTenantId (id : String) : ':' ∉ (sanitiseTenantId id).toList := by
  rw [← sanitise_strip]
  by_cases hne : strip id = ""
  · rw [hne]
    decide
  · exact colon_notMem_sanitised ⟨hne, strip_strip id⟩

theorem resolveTenant_of_stored {a : String} (ha : Stored a) (headerTenant tier : String)
    (registered : Option TenantContext) :
    resolveTenant headerTenant a tier false registered = .forTenant a tier := by
  rw [resolveTenant, Bool.and_false, if_neg (by decide), if_pos ha.1]

theorem string_append_left_cancel {s t u : String} (h : s ++ t = s ++ u) : t = u := by
  have hlist := congrArg String.toList h
  rw [String.toList_append, String.toList_append] at hlist
  exact String.toList_inj.mp (List.append_cancel_left hlist)

theorem redisPrefix_eq_iff {a b tierA tierB : String} (ha : Stored a) (hb : Stored b) :
    (TenantContext.forTenant a tierA).redisPrefix = (TenantContext.forTenant b tierB).redisPrefix ↔
      sanitiseTenantId a = sanitiseTenantId b := by
  simp only [TenantContext.forTenant]
  have hcolon : ∀ x : String, "t:" ++ x ++ ":" ≠ "" := by
    intro x h
    exact absurd (String.append_eq_empty_iff.mp h).2 (by decide)
  constructor
  · intro h
    by_cases hda : sanitiseTenantId a = "default"
    · by_cases hdb : sanitiseTenantId b = "default"
      · exact hda.trans hdb.symm
      · rw [if_neg (not_not.mpr hda), if_pos hdb] at h
        exact absurd h.symm (hcolon _)
    · by_cases hdb : sanitiseTenantId b = "default"
      · rw [if_pos hda, if_neg (not_not.mpr hdb)] at h
        exact absurd h (hcolon _)
      · rw [if_pos hda, if_pos hdb, String.append_assoc, String.append_assoc] at h
        exact segment_eq (x := "") (y := "") (colon_notMem_sanitised ha)
          (colon_notMem_sanitised hb) (by simpa using string_append_left_cancel h)
  · intro h
    rw [h]

theorem qdrantCollection_eq_iff {a b tierA tierB : String} (ha : Stored a) (hb : Stored b) :
    (TenantContext.forTenant a tierA).qdrantCollection =
        (TenantContext.forTenant b tierB).qdrantCollection ↔
      sanitiseTenantId a = sanitiseTenantId b ∨ ShareDefaultCollection a b := by
  have hdocs : ("rag_docs" : String) = "rag_" ++ "docs" := rfl
  simp only [TenantContext.forTenant, ShareDefaultCollection]
  by_cases hda : sanitiseTenantId a = "default"
  · have haeq := (sanitised_eq_default ha).mp hda
    by_cases hdb : sanitiseTenantId b = "default"
    · simp [hda, hdb]
    · rw [if_neg (not_not.mpr hda), if_pos hdb, hdocs]
      constructor
      · intro h
        exact Or.inr (Or.inl ⟨haeq, (sanitised_eq_docs hb).mp (string_append_left_cancel h).symm⟩)
      · rintro (h | ⟨-, hb'⟩ | ⟨ha', -⟩)
        · exact absurd (h.symm.trans hda) hdb
        · rw [(sanitised_eq_docs hb).mpr hb']
        · rw [haeq] at ha'
          exact absurd ha' (by decide)
  · by_cases hdb : sanitiseTenantId b = "default"
    · have hbeq := (sanitised_eq_default hb).mp hdb
      rw [if_pos hda, if_neg (not_not.mpr hdb), hdocs]
      constructor
      · intro h
        exact Or.inr (Or.inr ⟨(sanitised_eq_docs ha).mp (string_append_left_cancel h), hbeq⟩)
      · rintro (h | ⟨ha', -⟩ | ⟨ha', -⟩)
        · exact absurd (h.trans hdb) hda
        · exact absurd ((sanitised_eq_default ha).mpr ha') hda
        · rw [(sanitised_eq_docs ha).mpr ha']
    · rw [if_pos hda, if_pos hdb]
      constructor
      · intro h
        exact Or.inl (string_append_left_cancel h)
      · rintro (h | ⟨ha', -⟩ | ⟨-, hb'⟩)
        · rw [h]
        · exact absurd ((sanitised_eq_default ha).mpr ha') hda
        · exact absurd ((sanitised_eq_default hb).mpr hb') hdb

theorem tenantSkillsCollection_injective {a b base : String} (ha : Stored a) (hb : Stored b)
    (hab : sanitiseTenantId a ≠ sanitiseTenantId b) :
    tenantSkillsCollection base (sanitiseTenantId a) ≠
      tenantSkillsCollection base (sanitiseTenantId b) := by
  have hne : ∀ x : String, base ≠ base ++ "_" ++ x := by
    intro x h
    have hempty : "" ++ "" = "_" ++ x := by
      refine string_append_left_cancel (s := base) ?_
      rw [← String.append_assoc, ← String.append_assoc, String.append_empty, String.append_empty]
      exact h
    exact absurd (String.append_eq_empty_iff.mp hempty.symm).1 (by decide)
  have hcollection : ∀ {c : String}, Stored c →
      tenantSkillsCollection base (sanitiseTenantId c) =
        if sanitiseTenantId c = "default" then base else base ++ "_" ++ sanitiseTenantId c := by
    intro c hc
    rw [tenantSkillsCollection, sanitise_sanitise hc.1 hc.2]
    simp [(sanitised_stored hc.1 hc.2).1]
  rw [hcollection ha, hcollection hb]
  by_cases hda : sanitiseTenantId a = "default"
  · have hdb : sanitiseTenantId b ≠ "default" := fun hdb => hab (hda.trans hdb.symm)
    rw [if_pos hda, if_neg hdb]
    exact hne _
  · by_cases hdb : sanitiseTenantId b = "default"
    · rw [if_neg hda, if_pos hdb]
      exact (hne _).symm
    · rw [if_neg hda, if_neg hdb]
      intro h
      exact hab (string_append_left_cancel h)

/-- A batch result is served on the owner's raw id, so only to one whose names are the same. -/
theorem mayPoll_other {a b : String} (ha : Stored a) (hb : Stored b)
    (hab : sanitiseTenantId a ≠ sanitiseTenantId b) :
    mayPoll false (some (sanitiseTenantId a)) b = false := by
  rw [mayPoll, Bool.false_or, decide_eq_false_iff_not]
  intro h
  have hb' := sanitise_of_sanitised ha.1 ha.2 hb.1 hb.2 (Option.some.inj h)
  exact hab ((Option.some.inj h).trans hb'.symm)

/-- **Isolation**: two stored ids are kept apart unless the sanitiser confuses them, or one is
    `default` and the other `docs`. -/
theorem separated_iff {rawA rawB a b : String} (ha : Creates rawA a) (hb : Creates rawB b)
    (headerA tierA headerB tierB : String) (registeredA registeredB : Option TenantContext) :
    Separated a b (resolveTenant headerA a tierA false registeredA)
        (resolveTenant headerB b tierB false registeredB) ↔
      ¬ Confusable a b ∧ ¬ ShareDefaultCollection a b := by
  have hsa : Stored a := (stored_of_creates ha).2
  have hsb : Stored b := (stored_of_creates hb).2
  rw [resolveTenant_of_stored hsa, resolveTenant_of_stored hsb,
    ← sanitiseTenantId_eq_iff hsa.1 hsa.2 hsb.1 hsb.2]
  constructor
  · intro h
    refine ⟨fun hab => h.redisPrefix ((redisPrefix_eq_iff hsa hsb).mpr hab), fun hshare => ?_⟩
    exact h.collection ((qdrantCollection_eq_iff hsa hsb).mpr (Or.inr hshare))
  · rintro ⟨hab, hshare⟩
    refine { redisPrefix := ?_, keys := ?_, collection := ?_, skills := ?_, ownResults := ?_,
             otherResults := ?_ }
    · exact fun h => hab ((redisPrefix_eq_iff hsa hsb).mp h)
    · intro key hkey hkey'
      exact hab (id_of_shared_key (colon_notMem_sanitised hsa) (colon_notMem_sanitised hsb)
        (keyShape_of_keyOf hkey) (keyShape_of_keyOf hkey'))
    · intro h
      exact ((qdrantCollection_eq_iff hsa hsb).mp h).elim hab hshare
    · intro base
      rw [TenantContext.forTenant_tenantId, TenantContext.forTenant_tenantId]
      exact tenantSkillsCollection_injective hsa hsb hab
    · rw [TenantContext.forTenant_tenantId]
      exact mayPoll_other hsa hsb hab
    · rw [TenantContext.forTenant_tenantId]
      exact mayPoll_other hsb hsa (Ne.symm hab)

def anyBuiltins : Builtins where
  strOf := fun _ => ""
  less := fun _ _ => none

theorem creates_acmeDotEu : Creates "acme.eu" "acme.eu" :=
  ⟨anyBuiltins, {}, "hash", "2026-10-01", none, .succeeds, _, _, rfl, rfl⟩

theorem creates_acmeUnderscoreEu : Creates "acme_eu" "acme_eu" :=
  ⟨anyBuiltins, {}, "hash", "2026-10-01", none, .succeeds, _, _, rfl, rfl⟩

theorem creates_globex : Creates " globex " "globex" :=
  ⟨anyBuiltins, {}, "hash", "2026-10-01", none, .succeeds, _, _, rfl, rfl⟩

/-- `acme.eu` and `acme_eu` read and write the same keys, and the second is served the
    batch results of the first. -/
theorem not_separated_acme :
    Creates "acme.eu" "acme.eu" ∧ Creates "acme_eu" "acme_eu" ∧
    (resolveTenant "" "acme.eu" "free" false none).redisPrefix =
      (resolveTenant "" "acme_eu" "free" false none).redisPrefix ∧
    mayPoll false (some (resolveTenant "" "acme.eu" "free" false none).tenantId) "acme_eu" = true ∧
    ¬ Separated "acme.eu" "acme_eu" (resolveTenant "" "acme.eu" "free" false none)
      (resolveTenant "" "acme_eu" "free" false none) :=
  ⟨creates_acmeDotEu, creates_acmeUnderscoreEu, by decide +kernel, by decide +kernel,
    fun h => h.redisPrefix (by decide +kernel)⟩

theorem separated_acme_globex :
    Separated "acme.eu" "globex" (resolveTenant "globex" "acme.eu" "free" false none)
      (resolveTenant "" "globex" "enterprise" false none) :=
  (separated_iff creates_acmeDotEu creates_globex "globex" "free" "" "enterprise" none none).mpr
    ⟨fun h => absurd (h 0 (by decide)) (by decide), by simp [ShareDefaultCollection]⟩

end TokenProxy.Tenancy
