/-
  TokenProxy/RetrievalCollection.lean
  ===================================
  **The collection a tenant's chunks are in, and the names retrieval accepts.**

  Source: `middleware/g07_retrieval.py` (`_VALID_COLLECTION_RE`, `_is_valid_collection_name`,
  `_quote_collection`) and `tenancy/context.py` (`sanitise_tenant_id`,
  `TenantContext.for_tenant`).

  Retrieval puts a collection's name between double quotes into its SQL, after it has matched an
  allowlist of a letter and up to 62 letters, digits, underscores and hyphens.  A tenant's own
  collection is `rag_` and up to 64 such characters, so the allowlist refuses it from 60 on.  The
  `$` of the allowlist also lets a newline at the end through: with a newline behind 63 characters
  a name is a byte longer than PostgreSQL's identifiers are, and denotes the table without the
  newline.
-/
import TokenProxy.Regex
import TokenProxy.TenantContext

namespace TokenProxy.Retrieval

open Tenancy
open TokenProxy.KeyStore (strip)

/-! ## 1. The allowlist -/

/-- `[A-Za-z0-9_-]` -/
def nameChar (c : Char) : Bool := c.isAlphanum || c = '_' || c = '-'

/-- `^` -/
def atStart : Regex Char := .look fun before _ => before.isEmpty

/-- `$`: the end, or the newline that the text ends in. -/
def atEnd : Regex Char := .look fun _ after => after.isEmpty || after = ['\n']

/-- `_VALID_COLLECTION_RE`: `^[A-Za-z][A-Za-z0-9_-]{0,62}$`. -/
def validCollectionRe : Regex Char :=
  .chain atStart [.cls Char.isAlpha, .upTo (.cls nameChar) 62, atEnd]

/-- `_is_valid_collection_name`. -/
def isValidCollectionName (name : String) : Bool :=
  decide (name ≠ "") && !(Regex.ends validCollectionRe [] name.toList).isEmpty

/-- `_quote_collection`. -/
def quoteCollection (name : String) : String := "\"" ++ name ++ "\""

theorem mem_ends_atEnd {before s : List Char} {e : Regex.Place Char} :
    e ∈ Regex.ends atEnd before s ↔ (s = [] ∨ s = ['\n']) ∧ e = (before, s) := by
  rw [atEnd, Regex.ends]
  by_cases h : s = [] ∨ s = ['\n']
  · rw [if_pos (by simpa using h), List.mem_singleton, and_iff_right h]
  · rw [if_neg (by simpa using h)]
    exact iff_of_false List.not_mem_nil fun he => h he.1

theorem exists_mem_ends_iff {s : List Char} :
    (∃ e, e ∈ Regex.ends validCollectionRe [] s) ↔
      ∃ c w, c.isAlpha = true ∧ w.length ≤ 62 ∧ (∀ d ∈ w, nameChar d = true) ∧
        (s = c :: w ∨ s = c :: w ++ ['\n']) := by
  have hstart : Regex.ends atStart [] s = [([], s)] := rfl
  rw [validCollectionRe, Regex.chain, Regex.ends, hstart, List.flatMap_singleton, Regex.chain,
    Regex.ends]
  cases s with
  | nil => simp [Regex.ends]
  | cons c cs =>
    by_cases hc : c.isAlpha = true
    · have hletter : Regex.ends (.cls Char.isAlpha) [] (c :: cs) = [([c], cs)] := if_pos hc
      rw [hletter, List.flatMap_singleton, Regex.chain, Regex.ends]
      constructor
      · rintro ⟨e, he⟩
        obtain ⟨m, hm, hend⟩ := List.mem_flatMap.mp he
        obtain ⟨w, rest, rfl, hlength, hall, rfl⟩ := Regex.mem_ends_upTo.mp hm
        refine ⟨c, w, hc, hlength, hall, ?_⟩
        rcases (mem_ends_atEnd.mp hend).1 with rfl | rfl
        · exact Or.inl (congrArg _ (List.append_nil w))
        · exact Or.inr rfl
      · rintro ⟨d, w, -, hlength, hall, hlist⟩
        obtain ⟨rest, hcs, hrest⟩ : ∃ rest, cs = w ++ rest ∧ (rest = [] ∨ rest = ['\n']) := by
          rcases hlist with hlist | hlist
          · exact ⟨[], (List.cons.inj hlist).2.trans (List.append_nil w).symm, Or.inl rfl⟩
          · exact ⟨['\n'], (List.cons.inj hlist).2, Or.inr rfl⟩
        exact ⟨_, List.mem_flatMap.mpr
          ⟨_, Regex.mem_ends_upTo.mpr ⟨w, rest, hcs, hlength, hall, rfl⟩,
            mem_ends_atEnd.mpr ⟨hrest, rfl⟩⟩⟩
    · have hletter : Regex.ends (.cls Char.isAlpha) [] (c :: cs) = [] := if_neg hc
      rw [hletter, List.flatMap_nil]
      refine iff_of_false (fun h => h.elim fun _ => List.not_mem_nil) ?_
      rintro ⟨d, w, hd, -, -, hlist | hlist⟩
      · rw [(List.cons.inj hlist).1] at hc
        exact hc hd
      · rw [(List.cons.inj hlist).1] at hc
        exact hc hd

/-- The allowlist, spelled out. -/
theorem isValidCollectionName_iff {name : String} :
    isValidCollectionName name = true ↔
      ∃ c w, c.isAlpha = true ∧ w.length ≤ 62 ∧ (∀ d ∈ w, nameChar d = true) ∧
        (name.toList = c :: w ∨ name.toList = c :: w ++ ['\n']) := by
  rw [← exists_mem_ends_iff, isValidCollectionName, Bool.and_eq_true, decide_eq_true_eq,
    Bool.not_eq_true', List.isEmpty_eq_false_iff_exists_mem]
  refine and_iff_right_of_imp fun h hname => ?_
  obtain ⟨c, w, -, -, -, hlist | hlist⟩ := exists_mem_ends_iff.mp h
  · rw [hname] at hlist
    cases hlist
  · rw [hname] at hlist
    cases hlist

/-! ## 2. PostgreSQL's identifiers -/

/-- The text of a quoted identifier from behind its opening quote on, and what follows it; a
    doubled quote stands for one. -/
def quotedBody : List Char → Option (List Char × List Char)
  | '"' :: '"' :: rest => (quotedBody rest).map fun p => ('"' :: p.1, p.2)
  | '"' :: rest => some ([], rest)
  | c :: rest => if c = '\x00' then none else (quotedBody rest).map fun p => (c :: p.1, p.2)
  | [] => none

/-- `NAMEDATALEN - 1`. -/
def maxIdentifierBytes : Nat := 63

/-- The longest part from the start with so many bytes in UTF-8. -/
def clip : Nat → List Char → List Char
  | _, [] => []
  | n, c :: rest => if c.utf8Size ≤ n then c :: clip (n - c.utf8Size) rest else []

/-- The table that a text denotes where it is one quoted identifier. -/
def table? (sql : String) : Option String :=
  match sql.toList with
  | '"' :: rest =>
    match quotedBody rest with
    | some (c :: cs, []) => some (.ofList (clip maxIdentifierBytes (c :: cs)))
    | _ => none
  | _ => none

/-! ## 3. Accepted names -/

/-- A character that stands for itself between the quotes, in one byte. -/
def Plain (c : Char) : Prop := c.utf8Size = 1 ∧ c ≠ '"' ∧ c ≠ '\x00'

theorem plain_of_nameChar {c : Char} (h : nameChar c = true) : Plain c := by
  refine ⟨?_, ?_, ?_⟩
  · rw [nameChar, Bool.or_eq_true, Bool.or_eq_true, decide_eq_true_eq, decide_eq_true_eq] at h
    rcases h with (h | rfl) | rfl
    · rw [Char.utf8Size_eq_one_iff, UInt32.le_iff_toNat_le]
      exact (bounds_of_isAlphanum h).2.trans (by decide)
    · rfl
    · rfl
  · rintro rfl
    cases h
  · rintro rfl
    cases h

theorem quotedBody_plain {cs : List Char} (h : ∀ c ∈ cs, Plain c) :
    quotedBody (cs ++ ['"']) = some (cs, []) := by
  induction cs with
  | nil => rfl
  | cons c cs ih =>
    obtain ⟨⟨-, hquote, hnul⟩, hcs⟩ := List.forall_mem_cons.mp h
    have hcons : quotedBody (c :: (cs ++ ['"'])) =
        (quotedBody (cs ++ ['"'])).map fun p => (c :: p.1, p.2) := by
      rw [quotedBody, if_neg hnul]
      · rintro rest hc -
        exact hquote hc
      · exact hquote
    rw [List.cons_append, hcons, ih hcs]
    rfl

theorem clip_plain {cs : List Char} (h : ∀ c ∈ cs, Plain c) (n : Nat) : clip n cs = cs.take n := by
  induction cs generalizing n with
  | nil => rw [clip, List.take_nil]
  | cons c cs ih =>
    obtain ⟨⟨hsize, -, -⟩, hcs⟩ := List.forall_mem_cons.mp h
    rw [clip, hsize]
    cases n with
    | zero => rfl
    | succ n =>
      rw [if_pos (Nat.le_add_left 1 n), Nat.add_sub_cancel, ih hcs]
      rfl

/-- Once quoted, a name of such characters is one identifier, cut after 63 of them. -/
theorem table?_quoteCollection {name : String} (hne : name ≠ "")
    (h : ∀ c ∈ name.toList, Plain c) :
    table? (quoteCollection name) = some (.ofList (name.toList.take maxIdentifierBytes)) := by
  have hlist : (quoteCollection name).toList = '"' :: (name.toList ++ ['"']) := by
    rw [quoteCollection, String.toList_append, String.toList_append]
    rfl
  cases hname : name.toList with
  | nil => exact absurd hname (toList_ne_nil hne)
  | cons c cs =>
    rw [hname] at h hlist
    rw [table?, hlist]
    simp only [quotedBody_plain h, clip_plain h]

/-! ## 4. Every tenant's collection, and the tables of two names -/

theorem nameChar_of_mem_sanitised {id : String} {c : Char} (h : c ∈ (sanitiseTenantId id).toList) :
    nameChar c = true := by
  rw [← sanitise_strip] at h
  by_cases hid : strip id = ""
  · rw [hid] at h
    have hdefault : sanitiseTenantId "" = "default" := by decide +kernel
    rw [hdefault] at h
    exact List.all_eq_true.mp (by decide) c h
  · have hallowed := allowed_of_mem_sanitised hid (strip_strip id) h
    rwa [disallowed, Bool.not_eq_false'] at hallowed

theorem isValidCollectionName_rag {s : String} (h : ∀ c ∈ s.toList, nameChar c = true) :
    isValidCollectionName ("rag_" ++ s) = true ↔ s.toList.length ≤ 59 := by
  have hlist : ("rag_" ++ s).toList = 'r' :: (['a', 'g', '_'] ++ s.toList) := String.toList_append
  rw [isValidCollectionName_iff, hlist]
  constructor
  · rintro ⟨c, w, -, hlength, -, heq | heq⟩
    · rw [← (List.cons.inj heq).2, List.length_append] at hlength
      exact Nat.le_of_add_le_add_left hlength
    · -- the sanitised id has no newline
      have hmem : '\n' ∈ ['a', 'g', '_'] ++ s.toList := by
        rw [(List.cons.inj heq).2]
        exact List.mem_append_right _ List.mem_cons_self
      rcases List.mem_append.mp hmem with hmem | hmem
      · exact absurd hmem (by decide)
      · cases h _ hmem
  · intro hlength
    refine ⟨'r', ['a', 'g', '_'] ++ s.toList, rfl, ?_, ?_, Or.inl rfl⟩
    · rw [List.length_append]
      exact Nat.add_le_add_left hlength 3
    · rw [List.forall_mem_append]
      exact ⟨List.all_eq_true.mp (by decide), h⟩

/-- A tenant's collection is accepted exactly when the tenant's id, stripped and with the `t` in
    front where it gets one, has at most 59 characters. -/
theorem isValidCollectionName_forTenant (id tier : String) :
    isValidCollectionName (TenantContext.forTenant id tier).qdrantCollection = true ↔
      (shown (strip id).toList).length ≤ 59 := by
  by_cases hid : strip id = ""
  · have hdefault : sanitiseTenantId id = "default" := by
      rw [← sanitise_strip, hid]
      decide +kernel
    have hcollection : (TenantContext.forTenant id tier).qdrantCollection = "rag_" ++ "docs" := by
      simp [TenantContext.forTenant, hdefault]
    rw [hcollection, isValidCollectionName_rag (List.all_eq_true.mp (by decide)), hid]
    decide
  · have hlist := sanitiseTenantId_toList hid (strip_strip id)
    rw [sanitise_strip] at hlist
    have hlength : (sanitiseTenantId id).toList.length =
        min maxTenantIdLen (shown (strip id).toList).length := by
      rw [hlist, List.length_take, List.length_map]
    rw [maxTenantIdLen] at hlength
    by_cases hdefault : sanitiseTenantId id = "default"
    · have hcollection : (TenantContext.forTenant id tier).qdrantCollection = "rag_" ++ "docs" := by
        simp [TenantContext.forTenant, hdefault]
      rw [hcollection, isValidCollectionName_rag (List.all_eq_true.mp (by decide))]
      have hseven : (sanitiseTenantId id).toList.length = 7 := by rw [hdefault]; rfl
      refine iff_of_true (by decide) ?_
      omega
    · have hcollection : (TenantContext.forTenant id tier).qdrantCollection =
          "rag_" ++ sanitiseTenantId id := by
        simp [TenantContext.forTenant, hdefault]
      rw [hcollection, isValidCollectionName_rag fun c hc => nameChar_of_mem_sanitised hc]
      omega

theorem plain_of_isValid {name : String} (h : isValidCollectionName name = true) :
    name ≠ "" ∧ ∀ c ∈ name.toList, Plain c := by
  obtain ⟨c, w, hc, -, hall, hlist⟩ := isValidCollectionName_iff.mp h
  have hcons : ∀ d ∈ c :: w, Plain d := by
    have hfirst : nameChar c = true := by
      rw [nameChar, Char.isAlphanum, hc]
      rfl
    exact List.forall_mem_cons.mpr
      ⟨plain_of_nameChar hfirst, fun d hd => plain_of_nameChar (hall d hd)⟩
  rcases hlist with hlist | hlist
  · refine ⟨?_, hlist ▸ hcons⟩
    rintro rfl
    cases hlist
  · refine ⟨?_, ?_⟩
    · rintro rfl
      cases hlist
    · rw [hlist, List.forall_mem_append]
      exact ⟨hcons, List.forall_mem_singleton.mpr ⟨rfl, by decide, by decide⟩⟩

theorem length_of_isValid {name : String} (h : isValidCollectionName name = true) :
    name.toList.length ≤ 63 ∨
      ∃ cs : List Char, cs.length = 63 ∧ name.toList = cs ++ ['\n'] := by
  obtain ⟨c, w, -, hlength, -, hlist | hlist⟩ := isValidCollectionName_iff.mp h
  · exact Or.inl (hlist ▸ Nat.succ_le_succ hlength)
  · by_cases hw : w.length = 62
    · exact Or.inr ⟨c :: w, congrArg (· + 1) hw, hlist⟩
    · refine Or.inl ?_
      rw [hlist, List.length_append, List.length_cons, List.length_singleton]
      omega

/-- A newline behind a name that is as long as PostgreSQL's identifiers are. -/
def NewlineBehind (a b : String) : Prop := a.toList.length = maxIdentifierBytes ∧ b = a ++ "\n"

theorem toList_newline (a : String) : (a ++ "\n").toList = a.toList ++ ['\n'] :=
  String.toList_append

theorem NewlineBehind.ne {a b : String} (h : NewlineBehind a b) : a ≠ b := by
  rintro rfl
  have hlength := congrArg (fun s => s.toList.length) h.2
  simp at hlength

/-- Two accepted names denote one table exactly when they are one name, or one of them is the
    other with a newline behind its 63 characters. -/
theorem table?_eq_iff {a b : String} (ha : isValidCollectionName a = true)
    (hb : isValidCollectionName b = true) :
    table? (quoteCollection a) = table? (quoteCollection b) ↔
      a = b ∨ NewlineBehind a b ∨ NewlineBehind b a := by
  obtain ⟨hane, haplain⟩ := plain_of_isValid ha
  obtain ⟨hbne, hbplain⟩ := plain_of_isValid hb
  rw [table?_quoteCollection hane haplain, table?_quoteCollection hbne hbplain, Option.some_inj,
    String.ofList_inj]
  have hcut : ∀ {s t : String}, NewlineBehind s t →
      s.toList.take maxIdentifierBytes = t.toList.take maxIdentifierBytes := by
    rintro s t ⟨hlength, rfl⟩
    rw [toList_newline, ← hlength, List.take_left, List.take_length]
  constructor
  · intro h
    rw [maxIdentifierBytes] at h
    rcases length_of_isValid ha with hashort | ⟨cs, hcs, halist⟩
    · rcases length_of_isValid hb with hbshort | ⟨ds, hds, hblist⟩
      · rw [List.take_of_length_le hashort, List.take_of_length_le hbshort] at h
        exact Or.inl (String.toList_inj.mp h)
      · rw [List.take_of_length_le hashort, hblist, ← hds, List.take_left] at h
        refine Or.inr (Or.inl ⟨h ▸ hds, String.toList_inj.mp ?_⟩)
        rw [hblist, toList_newline, h]
    · rcases length_of_isValid hb with hbshort | ⟨ds, hds, hblist⟩
      · rw [List.take_of_length_le hbshort, halist, ← hcs, List.take_left] at h
        refine Or.inr (Or.inr ⟨h ▸ hcs, String.toList_inj.mp ?_⟩)
        rw [halist, toList_newline, h]
      · have htake : ∀ {l : List Char}, l.length = 63 → (l ++ ['\n']).take 63 = l := by
          intro l hl
          rw [← hl, List.take_left]
        rw [halist, hblist, htake hcs, htake hds] at h
        refine Or.inl (String.toList_inj.mp ?_)
        rw [halist, hblist, h]
  · rintro (rfl | h | h)
    · rfl
    · exact hcut h
    · exact (hcut h).symm

/-- **Tenants' collections**: a tenant's own is accepted exactly when the tenant's id, stripped and
    with the `t` in front where it gets one, has at most 59 characters.  An accepted name is one
    identifier, and PostgreSQL leaves it whole unless it is a newline behind 63 characters; two of
    them denote one table only where one is the other with that newline. -/
theorem accepted_collections (id tier name a b : String) :
    (isValidCollectionName (TenantContext.forTenant id tier).qdrantCollection = true ↔
      (shown (strip id).toList).length ≤ 59) ∧
    (isValidCollectionName name = true →
      (∃ table, table? (quoteCollection name) = some table) ∧
        (table? (quoteCollection name) = some name ↔ name.toList.length ≤ maxIdentifierBytes)) ∧
    (isValidCollectionName a = true → isValidCollectionName b = true →
      ((table? (quoteCollection a) = table? (quoteCollection b) → a = b) ↔
        ¬ (NewlineBehind a b ∨ NewlineBehind b a))) := by
  refine ⟨isValidCollectionName_forTenant id tier, fun hname => ?_, fun ha hb => ?_⟩
  · obtain ⟨hne, hplain⟩ := plain_of_isValid hname
    rw [table?_quoteCollection hne hplain]
    refine ⟨⟨_, rfl⟩, ?_⟩
    rw [Option.some_inj, ← String.toList_inj, String.toList_ofList]
    exact ⟨fun h => h ▸ List.length_take_le _ _, List.take_of_length_le⟩
  · rw [table?_eq_iff ha hb]
    constructor
    · rintro h (hnewline | hnewline)
      · exact hnewline.ne (h (Or.inr (Or.inl hnewline)))
      · exact hnewline.ne (h (Or.inr (Or.inr hnewline))).symm
    · rintro h (heq | hnewline)
      · exact heq
      · exact absurd hnewline h

theorem accepted_collections_acme :
    isValidCollectionName (TenantContext.forTenant "acme" "free").qdrantCollection = true ∧
    table? (quoteCollection "rag_docs") = some "rag_docs" ∧
    table? (quoteCollection "rag_docs") ≠ table? (quoteCollection "rag_acme") := by
  have hdocs : isValidCollectionName "rag_docs" = true :=
    (isValidCollectionName_rag (s := "docs") (List.all_eq_true.mp (by decide))).mpr (by decide)
  have hacme : isValidCollectionName "rag_acme" = true :=
    (isValidCollectionName_rag (s := "acme") (List.all_eq_true.mp (by decide))).mpr (by decide)
  obtain ⟨hown, hwhole, hapart⟩ :=
    accepted_collections "acme" "free" "rag_docs" "rag_docs" "rag_acme"
  refine ⟨hown.mpr (by decide +kernel), (hwhole hdocs).2.mpr (by decide), fun h => ?_⟩
  have hlengths : ¬ (NewlineBehind "rag_docs" "rag_acme" ∨
      NewlineBehind "rag_acme" "rag_docs") := by
    rintro (h | h)
    · exact absurd h.1 (by decide)
    · exact absurd h.1 (by decide)
  exact absurd ((hapart hdocs hacme).mpr hlengths h) (by decide)

/-- So many letters. -/
def letters (n : Nat) : String := .ofList (.replicate n 'a')

theorem letters_toList (n : Nat) : (letters n).toList = List.replicate n 'a' :=
  String.toList_ofList

/-- A tenant whose id is 60 letters has a collection that is refused; 63 letters and the same with
    a newline are both accepted, and are one table. -/
theorem not_accepted_collections :
    isValidCollectionName (TenantContext.forTenant (letters 60) "free").qdrantCollection = false ∧
    isValidCollectionName (letters 63) = true ∧
    isValidCollectionName (letters 63 ++ "\n") = true ∧
    table? (quoteCollection (letters 63 ++ "\n")) ≠ some (letters 63 ++ "\n") ∧
    table? (quoteCollection (letters 63)) = table? (quoteCollection (letters 63 ++ "\n")) ∧
    letters 63 ≠ letters 63 ++ "\n" := by
  have hlength : ∀ n, (letters n).toList.length = n := by
    intro n
    rw [letters_toList, List.length_replicate]
  have hall : ∀ n, ∀ d ∈ List.replicate n 'a', nameChar d = true := by
    intro n d hd
    rw [List.eq_of_mem_replicate hd]
    rfl
  have hshort : isValidCollectionName (letters 63) = true :=
    isValidCollectionName_iff.mpr ⟨'a', List.replicate 62 'a', rfl,
      le_of_eq List.length_replicate, hall 62, Or.inl (letters_toList 63)⟩
  have hnewline : isValidCollectionName (letters 63 ++ "\n") = true := by
    refine isValidCollectionName_iff.mpr ⟨'a', List.replicate 62 'a', rfl,
      le_of_eq List.length_replicate, hall 62, Or.inr ?_⟩
    rw [toList_newline, letters_toList]
    rfl
  have hbehind : NewlineBehind (letters 63) (letters 63 ++ "\n") := ⟨hlength 63, rfl⟩
  have hsame := (table?_eq_iff hshort hnewline).mpr (Or.inr (Or.inl hbehind))
  refine ⟨?_, hshort, hnewline, ?_, hsame, hbehind.ne⟩
  · rw [Bool.eq_false_iff, ne_eq, isValidCollectionName_forTenant]
    have hstrip : strip (letters 60) = letters 60 := by
      refine strip_eq_self fun c hc => ?_
      rw [letters_toList] at hc
      rw [List.eq_of_mem_replicate hc]
      rfl
    have hshown : shown (List.replicate 60 'a') = List.replicate 60 'a' := rfl
    rw [hstrip, letters_toList, hshown, List.length_replicate]
    decide
  · obtain ⟨hshortne, hplain⟩ := plain_of_isValid hshort
    rw [← hsame, table?_quoteCollection hshortne hplain, maxIdentifierBytes,
      List.take_of_length_le (le_of_eq (hlength 63)), String.ofList_toList]
    exact fun h => hbehind.ne (Option.some.inj h)

end TokenProxy.Retrieval
