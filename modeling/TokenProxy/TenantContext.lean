/-
  TokenProxy/TenantContext.lean
  =============================
  **Tenant ids and the names derived from them** (`tenancy/context.py`,
  `tenancy/resolver.py`).

  Text is worked on as a list of characters.  An id is kept raw in the key record; every
  name derived from it goes through `sanitiseTenantId`.  Section 3 says what the sanitiser
  leaves of a stored id: at most the first 64 characters, a `t` in front where it would
  not start with a letter or digit, and one underscore for each character that it blurs.
-/
import TokenProxy.KeyStoreMutation
import Mathlib.Data.List.DropRight

namespace TokenProxy.Tenancy

open TokenProxy.KeyStore (strip isSpace)

/-! ## 1. The source -/

/-- `_TENANT_ID_DISALLOWED`. -/
def disallowed (c : Char) : Bool := !(c.isAlphanum || c = '_' || c = '-')

/-- `_TENANT_ID_DISALLOWED.sub("_", c)`. -/
def cleanChar (c : Char) : Char := if disallowed c then '_' else c

def maxTenantIdLen : Nat := 64

def sanitiseTenantId (tenantId : String) : String :=
  let tid := ((strip tenantId).toList.map cleanChar).take maxTenantIdLen
  match tid with
  | [] => "default"
  | c :: _ => if c.isAlphanum then .ofList tid else .ofList (('t' :: tid).take maxTenantIdLen)

structure TenantContext where
  tenantId : String
  pricingTier : String := "free"
  redisPrefix : String := ""
  qdrantCollection : String := "rag_docs"
deriving DecidableEq

def TenantContext.forTenant (tenantId pricingTier : String) : TenantContext :=
  let safeId := sanitiseTenantId tenantId
  { tenantId := safeId
    pricingTier := pricingTier
    redisPrefix := if safeId ≠ "default" then "t:" ++ safeId ++ ":" else ""
    qdrantCollection := if safeId ≠ "default" then "rag_" ++ safeId else "rag_docs" }

theorem TenantContext.forTenant_tenantId (id tier : String) :
    (forTenant id tier).tenantId = sanitiseTenantId id := by
  simp only [forTenant]

def TenantContext.default : TenantContext := { tenantId := "default" }

/-- The id that a request's context is built from: an admin key's X-Tenant-ID, else the
    key's own tenant. -/
def resolveTenant (headerTenant keyTenantId keyTier : String) (keyIsAdmin : Bool)
    (registered : Option TenantContext) : TenantContext :=
  if strip headerTenant ≠ "" && keyIsAdmin then
    .forTenant (strip headerTenant) keyTier
  else if keyTenantId ≠ "" then .forTenant keyTenantId keyTier
  else registered.getD .default

/-! ## 2. Stripping -/

/-- A text that `strip` leaves alone. -/
theorem strip_strip (s : String) : strip (strip s) = strip s := by
  have hlist : ∀ cs : List Char,
      ((cs.dropWhile isSpace).rdropWhile isSpace).dropWhile isSpace =
        (cs.dropWhile isSpace).rdropWhile isSpace := by
    intro cs
    rw [List.dropWhile_eq_self_iff]
    intro hpos
    have hwithin := List.rdropWhile_prefix isSpace (l := cs.dropWhile isSpace)
    have hne : 0 < (cs.dropWhile isSpace).length := Nat.lt_of_lt_of_le hpos hwithin.length_le
    have hget : ((cs.dropWhile isSpace).rdropWhile isSpace)[0] = (cs.dropWhile isSpace)[0] :=
      hwithin.getElem hpos
    rw [hget]
    exact List.dropWhile_get_zero_not isSpace cs hne
  have hstrip : ∀ t : String, strip t =
      .ofList ((t.toList.dropWhile isSpace).rdropWhile isSpace) := by
    intro t
    rfl
  rw [hstrip (strip s), hstrip s, String.toList_ofList, hlist, List.rdropWhile_idempotent]

theorem sanitise_strip (id : String) : sanitiseTenantId (strip id) = sanitiseTenantId id := by
  rw [sanitiseTenantId, sanitiseTenantId, strip_strip]

/-! ## 3. What the sanitiser leaves -/

/-- The characters that come out as an underscore. -/
def blurred (c : Char) : Bool := c = '_' || disallowed c

/-- The id with the `t` that is put in front of one that starts with no letter or digit. -/
def shown : List Char → List Char
  | [] => []
  | c :: cs => if c.isAlphanum then c :: cs else 't' :: c :: cs

theorem isAlphanum_cleanChar (c : Char) : (cleanChar c).isAlphanum = c.isAlphanum := by
  by_cases h : c.isAlphanum = true
  · simp [cleanChar, disallowed, h]
  · by_cases hc : c = '_' ∨ c = '-'
    · rcases hc with rfl | rfl
      · rfl
      · rfl
    · have hclean : cleanChar c = '_' := by
        simp only [not_or] at hc
        simp [cleanChar, disallowed, h, hc]
      rw [hclean, Bool.not_eq_true] at *
      rw [h]
      rfl

theorem cleanChar_eq_iff (c d : Char) :
    cleanChar c = cleanChar d ↔ c = d ∨ (blurred c = true ∧ blurred d = true) := by
  by_cases hc : disallowed c = true
  · by_cases hd : disallowed d = true
    · simp [cleanChar, blurred, hc, hd]
    · have hne : c ≠ d := by
        rintro rfl
        exact hd hc
      simp [cleanChar, blurred, hc, hd, hne, eq_comm]
  · by_cases hd : disallowed d = true
    · have hne : c ≠ d := by
        rintro rfl
        exact hc hd
      simp [cleanChar, blurred, hc, hd, hne]
    · simp only [cleanChar, blurred, hc, hd, Bool.or_false, decide_eq_true_eq]
      constructor
      · intro h
        exact Or.inl h
      · rintro (h | ⟨rfl, rfl⟩)
        · exact h
        · rfl

theorem toList_ne_nil {s : String} (h : s ≠ "") : s.toList ≠ [] := by
  intro hnil
  exact h (String.toList_inj.mp hnil)

/-- The sanitised id of a stored one, character by character. -/
theorem sanitiseTenantId_toList {id : String} (hne : id ≠ "") (hstrip : strip id = id) :
    (sanitiseTenantId id).toList = ((shown id.toList).map cleanChar).take maxTenantIdLen := by
  rw [sanitiseTenantId, hstrip]
  cases hid : id.toList with
  | nil => exact absurd hid (toList_ne_nil hne)
  | cons c cs =>
    have htake : ((c :: cs).map cleanChar).take maxTenantIdLen =
        cleanChar c :: (cs.map cleanChar).take 63 := rfl
    simp only [htake, isAlphanum_cleanChar, shown]
    by_cases h : c.isAlphanum = true
    · rw [if_pos h, if_pos h, String.toList_ofList, htake]
    · have ht : cleanChar 't' = 't' := rfl
      rw [if_neg h, if_neg h, String.toList_ofList, List.map_cons, ht, maxTenantIdLen,
        List.take_succ_cons, List.take_succ_cons, List.map_cons]
      congr 1
      rw [← List.take_succ_cons, List.take_succ_cons, List.take_succ_cons, List.take_take]
      rfl

/-! ## 4. Ids that come out the same -/

/-- At one position: the same character, or two that both come out as an underscore. -/
def alike : Option Char → Option Char → Bool
  | some c, some d => c = d || (blurred c && blurred d)
  | none, none => true
  | _, _ => false

/-- Nothing in the first 64 characters tells the ids apart. -/
def Confusable (a b : String) : Prop :=
  ∀ i < maxTenantIdLen, alike (shown a.toList)[i]? (shown b.toList)[i]? = true

instance (a b : String) : Decidable (Confusable a b) :=
  inferInstanceAs (Decidable (∀ i < maxTenantIdLen, _))

theorem map_cleanChar_eq_iff (x y : Option Char) :
    x.map cleanChar = y.map cleanChar ↔ alike x y = true := by
  rcases x with _ | c
  · rcases y with _ | d
    · exact ⟨fun _ => rfl, fun _ => rfl⟩
    · exact ⟨nofun, nofun⟩
  · rcases y with _ | d
    · exact ⟨nofun, nofun⟩
    · rw [Option.map_some, Option.map_some, Option.some_inj, cleanChar_eq_iff]
      change _ ↔ (decide (c = d) || (blurred c && blurred d)) = true
      rw [Bool.or_eq_true, Bool.and_eq_true, decide_eq_true_eq]

/-- The sanitiser tells two stored ids apart exactly when they are not confusable. -/
theorem sanitiseTenantId_eq_iff {a b : String} (ha : a ≠ "") (hsa : strip a = a) (hb : b ≠ "")
    (hsb : strip b = b) : sanitiseTenantId a = sanitiseTenantId b ↔ Confusable a b := by
  rw [← String.toList_inj, sanitiseTenantId_toList ha hsa, sanitiseTenantId_toList hb hsb,
    List.ext_getElem?_iff]
  constructor
  · intro h i hi
    have hat := h i
    rw [List.getElem?_take_of_lt hi, List.getElem?_take_of_lt hi, List.getElem?_map,
      List.getElem?_map] at hat
    exact (map_cleanChar_eq_iff _ _).mp hat
  · intro h i
    by_cases hi : i < maxTenantIdLen
    · rw [List.getElem?_take_of_lt hi, List.getElem?_take_of_lt hi, List.getElem?_map,
        List.getElem?_map]
      exact (map_cleanChar_eq_iff _ _).mpr (h i hi)
    · rw [List.getElem?_take_eq_none (Nat.le_of_not_lt hi),
        List.getElem?_take_eq_none (Nat.le_of_not_lt hi)]

theorem not_disallowed_cleanChar (c : Char) : disallowed (cleanChar c) = false := by
  by_cases h : disallowed c = true
  · rw [cleanChar, if_pos h]
    rfl
  · rw [cleanChar, if_neg h]
    exact Bool.eq_false_iff.mpr h

theorem cleanChar_of_allowed {c : Char} (h : disallowed c = false) : cleanChar c = c := by
  rw [cleanChar, h]
  rfl

/-- A sanitised id has no character that the sanitiser would replace. -/
theorem allowed_of_mem_sanitised {id : String} (hne : id ≠ "") (hstrip : strip id = id) {c : Char}
    (hc : c ∈ (sanitiseTenantId id).toList) : disallowed c = false := by
  rw [sanitiseTenantId_toList hne hstrip] at hc
  obtain ⟨d, -, rfl⟩ := List.mem_map.mp (List.mem_of_mem_take hc)
  exact not_disallowed_cleanChar d

theorem sanitised_length_le {id : String} (hne : id ≠ "") (hstrip : strip id = id) :
    (sanitiseTenantId id).toList.length ≤ maxTenantIdLen := by
  rw [sanitiseTenantId_toList hne hstrip]
  exact List.length_take_le _ _

/-- It starts with a letter or digit, so nothing is put in front of it. -/
theorem shown_sanitised {id : String} (hne : id ≠ "") (hstrip : strip id = id) :
    shown (sanitiseTenantId id).toList = (sanitiseTenantId id).toList := by
  rw [sanitiseTenantId_toList hne hstrip]
  cases hid : id.toList with
  | nil => exact absurd hid (toList_ne_nil hne)
  | cons c cs =>
    by_cases h : c.isAlphanum = true
    · have hclean : (cleanChar c).isAlphanum = true := by rw [isAlphanum_cleanChar, h]
      simp only [shown, h, if_true, maxTenantIdLen, List.map_cons, List.take_succ_cons, hclean]
    · have ht : (cleanChar 't').isAlphanum = true := rfl
      simp only [shown, h, maxTenantIdLen, List.map_cons, List.take_succ_cons, ht, if_true,
        Bool.false_eq_true, if_false]

/-- An id that is the sanitised form of another is its own. -/
theorem sanitise_of_sanitised {a b : String} (ha : a ≠ "") (hsa : strip a = a) (hb : b ≠ "")
    (hsb : strip b = b) (h : sanitiseTenantId a = b) : sanitiseTenantId b = b := by
  have hmap : (b.toList.map cleanChar) = b.toList := by
    refine (List.map_congr_left fun c hc => ?_).trans (List.map_id _)
    rw [← h] at hc
    exact cleanChar_of_allowed (allowed_of_mem_sanitised ha hsa hc)
  have hshown : shown b.toList = b.toList := by
    rw [← h]
    exact shown_sanitised ha hsa
  have hlength : b.toList.length ≤ maxTenantIdLen := by
    rw [← h]
    exact sanitised_length_le ha hsa
  rw [← String.toList_inj, sanitiseTenantId_toList hb hsb, hshown, hmap,
    List.take_of_length_le hlength]

theorem strip_eq_self {s : String} (h : ∀ c ∈ s.toList, isSpace c = false) : strip s = s := by
  have hdrop : ∀ cs : List Char, (∀ c ∈ cs, isSpace c = false) → cs.dropWhile isSpace = cs := by
    intro cs hcs
    cases cs with
    | nil => rfl
    | cons c cs => rw [List.dropWhile_cons_of_neg (by simp [hcs c List.mem_cons_self])]
  rw [strip, hdrop _ h, hdrop _ (by simpa using h), List.reverse_reverse, String.ofList_toList]

theorem bounds_of_isAlphanum {c : Char} (h : c.isAlphanum = true) :
    48 ≤ c.toNat ∧ c.toNat ≤ 122 := by
  change ((decide ('A'.val ≤ c.val ∧ c.val ≤ 'Z'.val) ||
    (decide ('a'.val ≤ c.val) && decide (c.val ≤ 'z'.val))) ||
    (decide ('0'.val ≤ c.val) && decide (c.val ≤ '9'.val))) = true at h
  simp only [Bool.or_eq_true, Bool.and_eq_true, decide_eq_true_eq,
    UInt32.le_iff_toNat_le] at h
  have hval : c.toNat = c.val.toNat := rfl
  have hbounds : 'A'.val.toNat = 65 ∧ 'Z'.val.toNat = 90 ∧ 'a'.val.toNat = 97 ∧
      'z'.val.toNat = 122 ∧ '0'.val.toNat = 48 ∧ '9'.val.toNat = 57 := by decide
  omega

theorem isSpace_of_allowed {c : Char} (h : disallowed c = false) : isSpace c = false := by
  have hrange : isSpace c = true → (c.toNat ≤ 32 ∨ 133 ≤ c.toNat) := by
    simp only [isSpace, Bool.or_eq_true, Bool.and_eq_true, decide_eq_true_eq]
    omega
  simp only [disallowed, Bool.not_eq_false', Bool.or_eq_true, decide_eq_true_eq] at h
  rw [Bool.eq_false_iff]
  intro hspace
  have hbound := hrange hspace
  rcases h with (h | rfl) | rfl
  · have hbounds := bounds_of_isAlphanum h
    omega
  · revert hbound
    decide
  · revert hbound
    decide

/-- A sanitised id is stored as it is, and is its own sanitised form. -/
theorem sanitised_stored {id : String} (hne : id ≠ "") (hstrip : strip id = id) :
    sanitiseTenantId id ≠ "" ∧ strip (sanitiseTenantId id) = sanitiseTenantId id := by
  constructor
  · intro h
    have hlist := sanitiseTenantId_toList hne hstrip
    rw [h] at hlist
    cases hid : id.toList with
    | nil => exact toList_ne_nil hne hid
    | cons c cs =>
      rw [hid, shown] at hlist
      split at hlist
      · cases hlist
      · cases hlist
  · exact strip_eq_self fun c hc => isSpace_of_allowed (allowed_of_mem_sanitised hne hstrip hc)

theorem sanitise_sanitise {id : String} (hne : id ≠ "") (hstrip : strip id = id) :
    sanitiseTenantId (sanitiseTenantId id) = sanitiseTenantId id :=
  sanitise_of_sanitised hne hstrip (sanitised_stored hne hstrip).1 (sanitised_stored hne hstrip).2
    rfl

/-- A short plain text, which does not start with `t`, is the sanitised form of no other id. -/
theorem eq_of_sanitise_eq {id s : String} (hne : id ≠ "") (hstrip : strip id = id)
    (hlength : s.toList.length < maxTenantIdLen) (hplain : '_' ∉ s.toList)
    (ht : s.toList.head? ≠ some 't') (h : sanitiseTenantId id = s) : id = s := by
  rw [← String.toList_inj, sanitiseTenantId_toList hne hstrip] at h
  have htake : ((shown id.toList).map cleanChar) = s.toList := by
    by_cases hle : ((shown id.toList).map cleanChar).length ≤ maxTenantIdLen
    · rwa [List.take_of_length_le hle] at h
    · have hcut := congrArg List.length h
      rw [List.length_take] at hcut
      omega
  have hself : (shown id.toList).map cleanChar = shown id.toList := by
    refine (List.map_congr_left fun c hc => ?_).trans (List.map_id _)
    have hmem : cleanChar c ∈ s.toList := by
      rw [← htake]
      exact List.mem_map_of_mem hc
    by_cases hdis : disallowed c = true
    · rw [cleanChar, if_pos hdis] at hmem
      exact absurd hmem hplain
    · exact cleanChar_of_allowed (Bool.eq_false_iff.mpr hdis)
  rw [hself] at htake
  rw [← String.toList_inj, ← htake]
  cases hid : id.toList with
  | nil => rfl
  | cons c cs =>
    by_cases hc : c.isAlphanum = true
    · simp [shown, hc]
    · rw [hid] at htake
      simp only [shown, hc] at htake
      rw [← htake] at ht
      exact absurd rfl ht

end TokenProxy.Tenancy
