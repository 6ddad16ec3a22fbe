/-
  TokenProxy/CacheAgreement.lean
  ==============================
  **Whether an answer is filed under what it was looked up with.**

  Between the lookup and the store any stages rewrite the context.  The L1 key and three of
  the scope tags are noted at the lookup, and the query text comes from the messages as sent,
  so none of them moves.  The model tag, the literal tag and the guards of L2 are read again
  from the context as it is by then.  Where a lone surrogate keeps the key from being computed,
  nothing is noted, and the store makes a key of the context as it is by then.

  Main result: `filed_as_looked_up_iff`, the store agrees with the lookup exactly when those
  read the same, up to a model whose name spells a literal tag, and when no key can be made at
  the store that could not be made at the lookup.  `not_filed_as_looked_up` is the substitution
  of a model that is not configured.
-/
import TokenProxy.CacheKey

namespace TokenProxy.ResponseCache

open History

/-! ## 1. Joined tags -/

/-- Two texts of tags, joined. -/
def glue (a b : String) : String := if a = "" then b else if b = "" then a else a ++ ":" ++ b

@[simp] theorem glue_empty (a : String) : glue a "" = a := by
  rw [glue]
  split
  · next h => exact h.symm
  · rfl

@[simp] theorem empty_glue (b : String) : glue "" b = b := rfl

theorem glue_of_ne {a b : String} (ha : a ≠ "") (hb : b ≠ "") : glue a b = a ++ ":" ++ b := by
  rw [glue, if_neg ha, if_neg hb]

theorem append_colon_ne (a b : String) : a ++ ":" ++ b ≠ "" := by
  intro h
  have hcolon := (String.append_eq_empty_iff.mp (String.append_eq_empty_iff.mp h).1).2
  exact absurd hcolon (by decide)

theorem glue_ne_left {a : String} (ha : a ≠ "") (b : String) : glue a b ≠ "" := by
  by_cases hb : b = ""
  · rw [hb, glue_empty]
    exact ha
  · rw [glue_of_ne ha hb]
    exact append_colon_ne a b

theorem glue_assoc (a b c : String) : glue (glue a b) c = glue a (glue b c) := by
  by_cases ha : a = ""
  · rw [ha, empty_glue, empty_glue]
  · by_cases hb : b = ""
    · rw [hb, glue_empty, empty_glue]
    · by_cases hc : c = ""
      · rw [hc, glue_empty, glue_empty]
      · rw [glue_of_ne (glue_ne_left ha b) hc, glue_of_ne ha (glue_ne_left hb c),
          glue_of_ne ha hb, glue_of_ne hb hc]
        simp only [String.append_assoc]

theorem joinTags_nil : joinTags [] = "" := String.intercalate_nil

theorem joinTags_ne {tags : List String} (h : tags.filter (· ≠ "") ≠ []) : joinTags tags ≠ "" := by
  rw [joinTags]
  obtain ⟨tag, rest, htags⟩ := List.exists_cons_of_ne_nil h
  have htag : tag ≠ "" := by
    have hmem : tag ∈ tags.filter (· ≠ "") := by
      rw [htags]
      exact List.mem_cons_self
    simpa using (List.mem_filter.mp hmem).2
  rw [htags]
  cases rest with
  | nil =>
    rw [String.intercalate_singleton]
    exact htag
  | cons next rest =>
    rw [String.intercalate_cons_of_ne_nil (List.cons_ne_nil next rest)]
    exact append_colon_ne tag _

theorem joinTags_cons (tag : String) (tags : List String) :
    joinTags (tag :: tags) = glue tag (joinTags tags) := by
  by_cases htag : tag = ""
  · rw [htag, empty_glue]
    rfl
  · have hfilter : (tag :: tags).filter (· ≠ "") = tag :: tags.filter (· ≠ "") := by
      simp [htag]
    rw [joinTags, hfilter]
    by_cases hrest : tags.filter (· ≠ "") = []
    · rw [hrest, String.intercalate_singleton, joinTags, hrest, String.intercalate_nil, glue_empty]
    · rw [glue_of_ne htag (joinTags_ne hrest), String.intercalate_cons_of_ne_nil hrest]
      rfl

/-- A tag in front is known from the whole and what stands behind it. -/
theorem glue_cancel {a b c : String} (h : glue a c = glue b c) : a = b := by
  by_cases hc : c = ""
  · rw [hc, glue_empty, glue_empty] at h
    exact h
  · have longer : ∀ d : String, d ++ ":" ++ c ≠ c := by
      intro d heq
      have hlength := congrArg String.length heq
      simp only [String.length_append] at hlength
      have hcolon : ":".length = 1 := by decide
      omega
    by_cases ha : a = ""
    · by_cases hb : b = ""
      · rw [ha, hb]
      · rw [ha, empty_glue, glue_of_ne hb hc] at h
        exact absurd h.symm (longer b)
    · by_cases hb : b = ""
      · rw [hb, empty_glue, glue_of_ne ha hc] at h
        exact absurd h (longer a)
      · rw [glue_of_ne ha hc, glue_of_ne hb hc] at h
        exact (String.append_left_inj ":").mp ((String.append_left_inj c).mp h)

/-! ## 2. Tags apart -/

def IsHex (n : Nat) (text : String) : Prop :=
  text.length = n ∧ ∀ c ∈ text.toList, c ∈ hexDigits

theorem isHex_short (sha : Sha256) {n : Nat} (h : n ≤ 64) (text : String) :
    IsHex n (sha.short n text) := by
  constructor
  · have hlength := sha.length_hexdigest text
    rw [← String.length_toList] at hlength
    rw [Sha256.short, ← String.length_toList, String.toList_ofList, List.length_take, hlength]
    omega
  · intro c hc
    rw [Sha256.short, String.toList_ofList] at hc
    exact sha.isHex text c (List.mem_of_mem_take hc)

/-- The tags that are noted at the lookup. -/
inductive NotedTag : String → Prop
  | verbosity {digest : String} (h : IsHex 8 digest) : NotedTag ("vb" ++ digest)
  | system {digest : String} (h : IsHex 12 digest) : NotedTag digest
  | params {digest : String} (h : IsHex 16 digest) : NotedTag ("params=" ++ digest)

/-- The end of a literal tag, where it ends what a shorter text ends. -/
theorem mem_hexDigits_of_suffix {whole short long : List Char} {c : Char}
    (hshort : short <:+ whole) (hlong : long <:+ whole) (hlength : short.length ≤ long.length)
    (hhex : ∀ d ∈ long, d ∈ hexDigits) (hc : c ∈ short) : c ∈ hexDigits :=
  hhex c ((List.suffix_of_suffix_length_le hshort hlong hlength).subset hc)

theorem noted_ne_literals {a b tag digest : String} (htag : NotedTag tag) (hhex : IsHex 16 digest) :
    a ++ ":" ++ tag ≠ b ++ ("literals=" ++ digest) := by
  intro heq
  have hlist := congrArg String.toList heq
  have hlong : digest.toList <:+ (a ++ ":" ++ tag).toList := by
    rw [hlist, String.toList_append, String.toList_append, ← List.append_assoc]
    exact List.suffix_append _ _
  have hdigest : digest.toList.length = 16 := by
    rw [String.length_toList]
    exact hhex.1
  cases htag with
  | @verbosity short h =>
    have hshort : 'v' :: 'b' :: short.toList <:+ (a ++ ":" ++ ("vb" ++ short)).toList := by
      simp only [String.toList_append]
      exact List.suffix_append _ _
    have hlength : short.toList.length = 8 := by
      rw [String.length_toList]
      exact h.1
    have hv : 'v' ∈ hexDigits := by
      apply mem_hexDigits_of_suffix hshort hlong _ hhex.2 List.mem_cons_self
      simp only [List.length_cons]
      omega
    exact absurd hv (by decide)
  | system h =>
    have hshort : ':' :: tag.toList <:+ (a ++ ":" ++ tag).toList := by
      rw [String.append_assoc, String.toList_append, String.toList_append]
      exact List.suffix_append _ _
    have hlength : tag.toList.length = 12 := by
      rw [String.length_toList]
      exact h.1
    have hcolon : ':' ∈ hexDigits := by
      apply mem_hexDigits_of_suffix hshort hlong _ hhex.2 List.mem_cons_self
      simp only [List.length_cons]
      omega
    exact absurd hcolon (by decide)
  | @params short h =>
    have hlength : short.toList.length = digest.toList.length := by
      rw [hdigest, String.length_toList]
      exact h.1
    simp only [String.toList_append, ← List.append_assoc] at hlist
    have hnames := (List.append_inj' hlist hlength).1
    have hlast : (a.toList ++ ":par".toList) ++ "ams=".toList =
        (b.toList ++ "liter".toList) ++ "als=".toList := by
      rw [List.append_assoc, List.append_assoc]
      rw [List.append_assoc] at hnames
      exact hnames
    exact absurd (List.append_inj' hlast rfl).2 (by decide)

/-- Tags of which the last is a noted one. -/
inductive Ends : String → Prop
  | one {tag : String} (h : NotedTag tag) : Ends tag
  | more {tag : String} (before : String) (h : NotedTag tag) : Ends (before ++ ":" ++ tag)

theorem Ends.behind (a : String) {b : String} (h : Ends b) :
    ∃ before tag, NotedTag tag ∧ a ++ ":" ++ b = before ++ ":" ++ tag := by
  cases h with
  | one h => exact ⟨a, b, h, rfl⟩
  | @more tag before h =>
    refine ⟨a ++ ":" ++ before, tag, h, ?_⟩
    simp only [String.append_assoc]

theorem glue_ne_right (a : String) {b : String} (hb : b ≠ "") : glue a b ≠ "" := by
  by_cases ha : a = ""
  · rw [ha, empty_glue]
    exact hb
  · exact glue_ne_left ha b

theorem length_le_glue (a b : String) : b.length ≤ (glue a b).length := by
  by_cases ha : a = ""
  · rw [ha, empty_glue]
  · by_cases hb : b = ""
    · rw [hb, glue_empty]
      exact Nat.zero_le _
    · rw [glue_of_ne ha hb, String.length_append]
      omega

theorem Ends.glue (a : String) {b : String} (h : Ends b) (hne : b ≠ "") :
    Ends (ResponseCache.glue a b) := by
  by_cases ha : a = ""
  · rw [ha, empty_glue]
    exact h
  · obtain ⟨before, tag, htag, heq⟩ := h.behind a
    rw [glue_of_ne ha hne, heq]
    exact .more before htag

/-- No model's name makes up for a literal tag behind a noted tag. -/
theorem glue_ne_literals {a b noted digest : String} (hnoted : Ends noted) (hne : noted ≠ "")
    (hhex : IsHex 16 digest) :
    glue a noted ≠ glue (glue b noted) ("literals=" ++ digest) := by
  have hliterals : "literals=" ++ digest ≠ "" := by
    intro h
    exact absurd (String.append_eq_empty_iff.mp h).1 (by decide)
  intro heq
  rw [glue_of_ne (glue_ne_right b hne) hliterals] at heq
  by_cases ha : a = ""
  · rw [ha, empty_glue] at heq
    have hlength := congrArg String.length heq
    have hle := length_le_glue b noted
    have hcolon : ":".length = 1 := by decide
    simp only [String.length_append] at hlength
    omega
  · obtain ⟨before, tag, htag, hends⟩ := hnoted.behind a
    rw [glue_of_ne ha hne, hends] at heq
    exact noted_ne_literals htag hhex heq

/-! ## 3. When two scopes are the same -/

/-- A model's name that the other model's name and its literal tag make up. -/
def Spells (model literal model' literal' : String) : Prop :=
  literal' = "" ∧ model' = glue model literal ∨ literal = "" ∧ model = glue model' literal'

theorem scope_eq_iff {model model' noted literal literal' digest : String}
    (hnoted : noted = "" ∨ Ends noted) (hhex : IsHex 16 digest)
    (hliteral : literal = "" ∨ literal = "literals=" ++ digest)
    (hliteral' : literal' = "" ∨ literal' = "literals=" ++ digest) :
    glue (glue model noted) literal = glue (glue model' noted) literal' ↔
      model = model' ∧ literal = literal' ∨
        noted = "" ∧ Spells model literal model' literal' := by
  constructor
  · intro h
    by_cases hsame : literal = literal'
    · rw [hsame, glue_assoc, glue_assoc] at h
      exact Or.inl ⟨glue_cancel h, hsame⟩
    · by_cases hempty : noted = ""
      · rw [hempty, glue_empty, glue_empty] at h
        rcases hliteral with rfl | rfl
        · rw [glue_empty] at h
          exact Or.inr ⟨hempty, Or.inr ⟨rfl, h⟩⟩
        · rcases hliteral' with rfl | rfl
          · rw [glue_empty] at h
            exact Or.inr ⟨hempty, Or.inl ⟨rfl, h.symm⟩⟩
          · exact absurd rfl hsame
      · have hends := hnoted.resolve_left hempty
        rcases hliteral with rfl | rfl
        · rcases hliteral' with rfl | rfl
          · exact absurd rfl hsame
          · rw [glue_empty] at h
            exact absurd h (glue_ne_literals hends hempty hhex)
        · rcases hliteral' with rfl | rfl
          · rw [glue_empty] at h
            exact absurd h.symm (glue_ne_literals hends hempty hhex)
          · exact absurd rfl hsame
  · rintro (⟨rfl, rfl⟩ | ⟨rfl, ⟨rfl, rfl⟩ | ⟨rfl, rfl⟩⟩)
    · rfl
    · rw [glue_empty, glue_empty, glue_empty]
    · rw [glue_empty, glue_empty, glue_empty]

/-! ## 4. What is noted, and what is read again -/

variable (env : Runtime)

def paramsPart (ptag : String) : String := if ptag = "" then "" else "params=" ++ ptag

/-- The scope that is noted at the lookup. -/
def notedScope (caller : Caller) (ctx : Ctx) : String :=
  joinTags [verbosityCacheTag env caller ctx, systemFingerprint env caller ctx,
    paramsPart (paramsFingerprint env ctx.params)]

/-- What L2 is asked with, where its guards let a request through: the query text, and the
tags that are not noted. -/
structure Asked where
  queryText : String
  model : String
  literal : String

def asked? (caller : Caller) (ctx : Ctx) : Option Asked :=
  let queryText := semanticQueryText env (requestMessages caller ctx)
  if semanticCacheDisabled env caller ctx = some false ∧ env.databaseUrl ≠ "" ∧ queryText ≠ ""
  then
    match g5CacheOr? ctx.config, joinable? (modelScopeTag env caller ctx) with
    | some cfg, some model =>
      if embedInputTruncates env queryText cfg = some false then
        some ⟨queryText, model, literalScopeTag env queryText cfg⟩
      else none
    | _, _ => none
  else none

def Asked.row (asked : Asked) (noted : String) : L2Row :=
  ⟨glue (glue asked.model noted) asked.literal, asked.queryText⟩

variable {env}

theorem ends_notedScope {caller : Caller} {ctx : Ctx} :
    notedScope env caller ctx = "" ∨ Ends (notedScope env caller ctx) := by
  have hverbosity : verbosityCacheTag env caller ctx = "" ∨
      NotedTag (verbosityCacheTag env caller ctx) := by
    rw [verbosityCacheTag]
    split
    · exact Or.inl rfl
    · exact Or.inr (.verbosity (isHex_short env.sha256 (by decide) _))
  have hsystem : systemFingerprint env caller ctx = "" ∨
      NotedTag (systemFingerprint env caller ctx) := by
    rw [systemFingerprint]
    split
    · exact Or.inr (.system (isHex_short env.sha256 (by decide) _))
    · exact Or.inl rfl
  have hparams : paramsPart (paramsFingerprint env ctx.params) = "" ∨
      NotedTag (paramsPart (paramsFingerprint env ctx.params)) := by
    rw [paramsPart, paramsFingerprint]
    split_ifs with hnone hempty
    · exact Or.inl rfl
    · exact absurd rfl hempty
    · exact Or.inl rfl
    · exact Or.inr (.params (isHex_short env.sha256 (by decide) _))
  have hlast : ∀ a b : String, (a = "" ∨ NotedTag a) → (b = "" ∨ Ends b) →
      glue a b = "" ∨ Ends (glue a b) := by
    intro a b ha hb
    by_cases hempty : b = ""
    · rw [hempty, glue_empty]
      exact ha.imp_right .one
    · exact Or.inr ((hb.resolve_left hempty).glue a hempty)
  rw [notedScope, joinTags_cons, joinTags_cons, joinTags_cons, joinTags_nil, glue_empty]
  exact hlast _ _ hverbosity (hlast _ _ hsystem (hparams.imp_right .one))

/-- The marks carry these tags. -/
structure Marks.Carry (marks : Marks) (env : Runtime) (caller : Caller) (ctx : Ctx) : Prop where
  verbosity : marks.verbosityTag = some (verbosityCacheTag env caller ctx)
  system : marks.systemTag = some (systemFingerprint env caller ctx)
  params : marks.paramsTag = some (paramsFingerprint env ctx.params)

theorem l2Scope_of_carry {caller : Caller} {ctx ctx' : Ctx} {marks : Marks}
    (h : marks.Carry env caller ctx) (queryText : String) (cfg : List (String × Json)) :
    l2Scope env caller ctx' queryText cfg marks =
      ((joinable? (modelScopeTag env caller ctx')).map fun model =>
        glue (glue model (notedScope env caller ctx)) (literalScopeTag env queryText cfg),
        marks) := by
  have hvalue : scopeValue env caller ctx' marks =
      ((joinable? (modelScopeTag env caller ctx')).map fun model =>
        glue model (notedScope env caller ctx), marks) := by
    simp only [scopeValue, paramsScopeTag, verbosityScopeTag, systemScopeTag, h.params,
      h.verbosity, h.system, joinTags_cons, notedScope, paramsPart, Option.bind_some]
  rw [l2Scope, hvalue]
  simp only [Option.map_map, joinTags_cons, joinTags_nil, glue_empty]
  rfl

theorem l2Lookup_of_carry {caller : Caller} {ctx ctx' : Ctx} {marks : Marks}
    (h : marks.Carry env caller ctx) :
    l2Lookup env caller ctx' marks =
      ((asked? env caller ctx').map fun asked => asked.row (notedScope env caller ctx), marks) := by
  simp only [l2Lookup, asked?, l2Scope_of_carry h]
  by_cases hoff : semanticCacheDisabled env caller ctx' = some false ∧ env.databaseUrl ≠ ""
  · by_cases htext : semanticQueryText env (requestMessages caller ctx') = ""
    · simp [htext]
    · rw [if_pos hoff, if_neg htext, if_pos ⟨hoff.1, hoff.2, htext⟩]
      cases g5CacheOr? ctx'.config with
      | none => rfl
      | some cfg =>
        cases joinable? (modelScopeTag env caller ctx') with
        | none => rfl
        | some model =>
          simp only [Option.map_some]
          cases embedInputTruncates env
              (semanticQueryText env (requestMessages caller ctx')) cfg with
          | none => rfl
          | some truncates => cases truncates <;> rfl
  · rw [if_neg hoff, if_neg fun hall => hoff ⟨hall.1, hall.2.1⟩]
    rfl

theorem l2Store_of_carry {caller : Caller} {ctx ctx' : Ctx} {marks : Marks}
    (h : marks.Carry env caller ctx) :
    l2Store env caller ctx' marks =
      (((asked? env caller ctx').map fun asked => asked.row (notedScope env caller ctx)).filter
        fun row => env.encodes (hashedRow caller row), marks) := by
  simp only [l2Store, asked?, l2Scope_of_carry h]
  by_cases hoff : semanticCacheDisabled env caller ctx' = some false ∧ env.databaseUrl ≠ ""
  · by_cases htext : semanticQueryText env (requestMessages caller ctx') = ""
    · simp [htext]
    · rw [if_pos hoff, if_neg htext, if_pos ⟨hoff.1, hoff.2, htext⟩]
      cases g5CacheOr? ctx'.config with
      | none => rfl
      | some cfg =>
        cases joinable? (modelScopeTag env caller ctx') with
        | none =>
          simp only [Option.map_none]
          cases embedInputTruncates env
              (semanticQueryText env (requestMessages caller ctx')) cfg with
          | none => rfl
          | some truncates => cases truncates <;> rfl
        | some model =>
          simp only [Option.map_some]
          cases embedInputTruncates env
              (semanticQueryText env (requestMessages caller ctx')) cfg with
          | none => rfl
          | some truncates => cases truncates <;> rfl
  · rw [if_neg hoff, if_neg fun hall => hoff ⟨hall.1, hall.2.1⟩]
    rfl

/-! ## 5. When there is a key -/

section Encodes

@[simp] theorem encodes_append (a b : String) :
    env.encodes (a ++ b) = (env.encodes a && env.encodes b) := by
  rw [Runtime.encodes, String.toList_append, List.all_append]
  rfl

def isAscii (text : List Char) : Bool := text.all fun c => decide (c.toNat < 128)

theorem encodes_ascii {text : String} (h : isAscii text.toList = true) :
    env.encodes text = true := by
  rw [isAscii, List.all_eq_true] at h
  rw [Runtime.encodes, List.all_eq_true]
  intro c hc
  rw [env.lone_ascii c (of_decide_eq_true (h c hc))]
  rfl

theorem encodes_hex {n : Nat} {text : String} (h : IsHex n text) : env.encodes text = true := by
  have hdigits : isAscii hexDigits = true := by decide
  rw [isAscii, List.all_eq_true] at hdigits
  exact encodes_ascii (List.all_eq_true.mpr fun c hc => hdigits c (h.2 c hc))

theorem encodes_verbosityCacheTag (caller : Caller) (ctx : Ctx) :
    env.encodes (verbosityCacheTag env caller ctx) = true := by
  have hdigest := @encodes_hex env _ _ (isHex_short env.sha256 (n := 8) (by decide)
    (env.verbositySuffix caller ctx))
  have hname : env.encodes "vb" = true := encodes_ascii (by decide)
  rw [verbosityCacheTag]
  split
  · exact encodes_ascii (by decide)
  · rw [encodes_append, hname, hdigest]
    rfl

theorem encodes_systemFingerprint (caller : Caller) (ctx : Ctx) :
    env.encodes (systemFingerprint env caller ctx) = true := by
  rw [systemFingerprint]
  split
  · exact encodes_hex (isHex_short env.sha256 (by decide) _)
  · exact encodes_ascii (by decide)

theorem encodes_paramsFingerprint (params : List (String × Json)) :
    env.encodes (paramsFingerprint env params) = true := by
  rw [paramsFingerprint]
  split
  · exact encodes_ascii (by decide)
  · exact encodes_hex (isHex_short env.sha256 (by decide) _)

theorem encodes_tagged {name : String} (hname : isAscii name.toList = true)
    (tag text : String) :
    env.encodes (tagged name tag text) = (env.encodes tag && env.encodes text) := by
  have hend : env.encodes "\n" = true := encodes_ascii (by decide)
  have hsign : env.encodes "=" = true := encodes_ascii (by decide)
  rw [tagged]
  split
  · rename_i hempty
    have hnone : env.encodes "" = true := encodes_ascii (by decide)
    rw [hempty, hnone]
    rfl
  · simp only [encodes_append, encodes_ascii hname, hend, hsign, Bool.true_and, Bool.and_true]

theorem encodes_withTags {model : Json} {vtag stag ptag text : String}
    (hv : env.encodes vtag = true) (hs : env.encodes stag = true) (hp : env.encodes ptag = true) :
    env.encodes (withTags env model vtag stag ptag text) = true ↔
      (model.truthy = true → env.encodes (env.str model) = true) ∧ env.encodes text = true := by
  rw [withTags, encodes_tagged (by decide), encodes_tagged (by decide),
    encodes_tagged (by decide), hv, hs, hp]
  cases htruthy : model.truthy with
  | false => simp
  | true =>
    have hname : isAscii "model".toList = true := by decide
    simp only [if_true, encodes_tagged hname, Bool.true_and, Bool.and_eq_true, true_implies]

/-- The tags that are noted can be encoded. -/
structure Marks.Encode (marks : Marks) (env : Runtime) : Prop where
  verbosity : ∀ tag ∈ marks.verbosityTag, env.encodes tag = true
  system : ∀ tag ∈ marks.systemTag, env.encodes tag = true
  params : ∀ tag ∈ marks.paramsTag, env.encodes tag = true

theorem encode_fresh : Marks.fresh.Encode env := by
  constructor <;> intro tag htag <;> cases htag

variable {caller : Caller} {ctx : Ctx} {marks : Marks}

theorem encode_verbosityScopeTag (h : marks.Encode env) :
    env.encodes (verbosityScopeTag env caller ctx marks).1 = true ∧
      (verbosityScopeTag env caller ctx marks).2.Encode env := by
  have hown := @encodes_verbosityCacheTag env caller ctx
  rw [verbosityScopeTag]
  split
  · rename_i tag htag
    exact ⟨h.verbosity tag htag, h⟩
  · refine ⟨hown, ?_, h.system, h.params⟩
    rintro tag ⟨⟩
    exact hown

theorem encode_systemScopeTag (h : marks.Encode env) :
    (∀ tag ∈ (systemScopeTag env caller ctx marks).1, env.encodes tag = true) ∧
      (systemScopeTag env caller ctx marks).2.Encode env := by
  have hown := @encodes_systemFingerprint env caller ctx
  rw [systemScopeTag]
  split
  · rename_i tag htag
    exact ⟨fun other hother => h.system other (htag.trans hother), h⟩
  · split
    · refine ⟨?_, h.verbosity, ?_, h.params⟩ <;>
      · rintro tag ⟨⟩
        exact hown
    · exact ⟨by simp, h⟩

theorem encode_paramsScopeTag (h : marks.Encode env) :
    (∀ tag ∈ (paramsScopeTag env ctx marks).1, env.encodes tag = true) ∧
      (paramsScopeTag env ctx marks).2.Encode env := by
  have hown := @encodes_paramsFingerprint env ctx.params
  rw [paramsScopeTag]
  split
  · rename_i tag htag
    exact ⟨fun other hother => h.params other (htag.trans hother), h⟩
  · split
    · refine ⟨?_, h.verbosity, h.system, ?_⟩ <;>
      · rintro tag ⟨⟩
        exact hown
    · exact ⟨by simp, h⟩

/-- What a key of these messages takes, with the tags that are noted. -/
structure Keyable (env : Runtime) (caller : Caller) (messages : List Msg) (ctx : Ctx)
    (marks : Marks) : Prop where
  system : marks.systemTag.isSome = true ∨ systemEncodes env caller ctx = true
  params : marks.paramsTag.isSome = true ∨ paramsEncodes env ctx.params = true
  model : (modelScopeTag env caller ctx).truthy = true →
    env.encodes (env.str (modelScopeTag env caller ctx)) = true
  turns : env.encodes (normalise env messages) = true

theorem systemScopeTag_isSome : (systemScopeTag env caller ctx marks).1.isSome = true ↔
    marks.systemTag.isSome = true ∨ systemEncodes env caller ctx = true := by
  rw [systemScopeTag]
  cases marks.systemTag with
  | some tag => simp
  | none => cases systemEncodes env caller ctx <;> simp

theorem paramsScopeTag_isSome : (paramsScopeTag env ctx marks).1.isSome = true ↔
    marks.paramsTag.isSome = true ∨ paramsEncodes env ctx.params = true := by
  rw [paramsScopeTag]
  cases marks.paramsTag with
  | some tag => simp
  | none => cases paramsEncodes env ctx.params <;> simp

@[simp] theorem verbosityScopeTag_rest :
    (verbosityScopeTag env caller ctx marks).2.systemTag = marks.systemTag ∧
      (verbosityScopeTag env caller ctx marks).2.paramsTag = marks.paramsTag ∧
      (verbosityScopeTag env caller ctx marks).2.l1CacheKey = marks.l1CacheKey := by
  rw [verbosityScopeTag]
  split <;> exact ⟨rfl, rfl, rfl⟩

theorem systemScopeTag_rest :
    (systemScopeTag env caller ctx marks).2.paramsTag = marks.paramsTag ∧
      (systemScopeTag env caller ctx marks).2.l1CacheKey = marks.l1CacheKey := by
  rw [systemScopeTag]
  split
  · exact ⟨rfl, rfl⟩
  · split <;> exact ⟨rfl, rfl⟩

theorem paramsScopeTag_rest :
    (paramsScopeTag env ctx marks).2.l1CacheKey = marks.l1CacheKey := by
  rw [paramsScopeTag]
  split
  · rfl
  · split <;> rfl

/-- The key as it is made of the tags and the turns. -/
def madeKey (env : Runtime) (caller : Caller) (messages : List Msg) (ctx : Ctx)
    (marks : Marks) : Option String :=
  (applyModelScope env caller ctx (normalise env messages) marks).1.bind fun text =>
    cacheKey env text caller.redisPrefix

theorem madeKey_isSome (h : marks.Encode env) (messages : List Msg) :
    (madeKey env caller messages ctx marks).isSome = true ↔
      Keyable env caller messages ctx marks := by
  obtain ⟨hverbosity, hmarks⟩ := @encode_verbosityScopeTag env caller ctx _ h
  obtain ⟨hsystem, hmarks⟩ := @encode_systemScopeTag env caller ctx _ hmarks
  obtain ⟨hparams, -⟩ := @encode_paramsScopeTag env ctx _ hmarks
  have hs := @systemScopeTag_isSome env caller ctx (verbosityScopeTag env caller ctx marks).2
  have hp := @paramsScopeTag_isSome env ctx
    (systemScopeTag env caller ctx (verbosityScopeTag env caller ctx marks).2).2
  rw [verbosityScopeTag_rest.1] at hs
  rw [systemScopeTag_rest.1, verbosityScopeTag_rest.2.1] at hp
  rw [madeKey, applyModelScope]
  dsimp only
  cases hsys : (systemScopeTag env caller ctx (verbosityScopeTag env caller ctx marks).2).1 with
  | none =>
    rw [hsys] at hs
    apply iff_of_false (by simp)
    intro hkeyable
    cases hs.mpr hkeyable.system
  | some system =>
    rw [hsys] at hs hsystem
    have hkept := hs.mp rfl
    cases hpar : (paramsScopeTag env ctx
        (systemScopeTag env caller ctx (verbosityScopeTag env caller ctx marks).2).2).1 with
    | none =>
      rw [hpar] at hp
      apply iff_of_false (by simp)
      intro hkeyable
      cases hp.mpr hkeyable.params
    | some params =>
      rw [hpar] at hp hparams
      have htext := @encodes_withTags env (modelScopeTag env caller ctx) _ _ _
        (normalise env messages) hverbosity (hsystem system rfl) (hparams params rfl)
      simp only [Option.map_some, Option.bind_some, cacheKey]
      constructor
      · intro hsome
        have hencodes : env.encodes (withTags env (modelScopeTag env caller ctx)
            (verbosityScopeTag env caller ctx marks).1 system params
            (normalise env messages)) = true := by
          by_contra hnot
          rw [if_neg hnot] at hsome
          cases hsome
        obtain ⟨hmodel, hturns⟩ := htext.mp hencodes
        exact ⟨hkept, hp.mp rfl, hmodel, hturns⟩
      · intro hkeyable
        rw [if_pos (htext.mpr ⟨hkeyable.model, hkeyable.turns⟩)]
        rfl

end Encodes

/-! ## 6. The lookup and the store -/

/-- A key can be made of the request as the lookup finds it. -/
def Keyed (env : Runtime) (caller : Caller) (ctx : Ctx) : Prop :=
  Keyable env caller ctx.messages ctx .fresh

/-- What a lookup leaves behind, with a key. -/
structure LookedUp (env : Runtime) (caller : Caller) (ctx : Ctx) (visit : Visit)
    (lookup : Lookup) : Prop where
  ctx_eq : visit.ctx = ctx
  key_eq : ∃ key, visit.marks.l1CacheKey = some key ∧ lookup.key = some key
  carry : visit.marks.Carry env caller ctx
  row_eq : visit.marks.cacheHit = false →
    lookup.row = (asked? env caller ctx).map fun asked => asked.row (notedScope env caller ctx)

/-- What a lookup without a key leaves behind. -/
structure Unkeyed (env : Runtime) (ctx : Ctx) (visit : Visit) (lookup : Lookup) : Prop where
  ctx_eq : visit.ctx = ctx
  key_eq : lookup.key = none
  unnoted : visit.marks.l1CacheKey = none
  encode : visit.marks.Encode env

theorem lookedUp_lookUpL2 {held : Held} {caller : Caller} {ctx : Ctx}
    {cfg : List (String × Json)} {key : String} {marks : Marks}
    (hkey : marks.l1CacheKey = some key) (hcarry : marks.Carry env caller ctx) {lookup : Lookup}
    (hlookup : (lookUpL2 env held caller ctx cfg (some key) marks).lookup = some lookup) :
    LookedUp env caller ctx (lookUpL2 env held caller ctx cfg (some key) marks) lookup := by
  simp only [lookUpL2, l2Lookup_of_carry hcarry] at hlookup ⊢
  cases hlookup
  exact ⟨rfl, ⟨key, hkey, rfl⟩, ⟨hcarry.1, hcarry.2, hcarry.3⟩, fun _ => rfl⟩

theorem lookedUp_lookUp {held : Held} {caller : Caller} {ctx : Ctx}
    {cfg : List (String × Json)} {key : String} {marks : Marks}
    (hkey : marks.l1CacheKey = some key) (hcarry : marks.Carry env caller ctx) {lookup : Lookup}
    (hlookup : (lookUp env held caller ctx cfg key marks).lookup = some lookup) :
    LookedUp env caller ctx (lookUp env held caller ctx cfg key marks) lookup := by
  rw [lookUp] at hlookup ⊢
  cases hreply : held.l1 key with
  | answer =>
    rw [hreply] at hlookup
    cases hlookup
    exact ⟨rfl, ⟨key, hkey, rfl⟩, ⟨hcarry.1, hcarry.2, hcarry.3⟩, fun hmiss => by cases hmiss⟩
  | unreadable =>
    rw [hreply] at hlookup
    have hmarked : ({ marks with cacheHit := true } : Marks).Carry env caller ctx :=
      ⟨hcarry.1, hcarry.2, hcarry.3⟩
    have hnoted : ({ marks with cacheHit := true } : Marks).l1CacheKey = some key := hkey
    exact lookedUp_lookUpL2 hnoted hmarked hlookup
  | missing =>
    rw [hreply] at hlookup
    exact lookedUp_lookUpL2 hkey hcarry hlookup

/-- Where there is a key, all the tags are noted. -/
theorem carry_of_keyed {caller : Caller} {ctx : Ctx} (h : Keyed env caller ctx) (text : String) :
    (applyModelScope env caller ctx text .fresh).2.Carry env caller ctx := by
  have hsystem : systemEncodes env caller ctx = true := h.system.resolve_left (by decide)
  have hparams : paramsEncodes env ctx.params = true := h.params.resolve_left (by decide)
  simp only [applyModelScope, verbosityScopeTag, systemScopeTag, paramsScopeTag, Marks.fresh,
    hsystem, hparams, if_true]
  exact ⟨rfl, rfl, rfl⟩

theorem scopeValue_encode {caller : Caller} {ctx : Ctx} {marks : Marks} (h : marks.Encode env) :
    (scopeValue env caller ctx marks).2.Encode env ∧
      (scopeValue env caller ctx marks).2.l1CacheKey = marks.l1CacheKey := by
  have hparams := (@encode_paramsScopeTag env ctx _ h).2
  have hkey := @paramsScopeTag_rest env ctx marks
  rw [scopeValue]
  dsimp only
  split
  · exact ⟨hparams, hkey⟩
  · have hverbosity := (@encode_verbosityScopeTag env caller ctx _ hparams).2
    refine ⟨(encode_systemScopeTag hverbosity).2, ?_⟩
    exact systemScopeTag_rest.2.trans (verbosityScopeTag_rest.2.2.trans hkey)

theorem l2Lookup_encode {caller : Caller} {ctx : Ctx} {marks : Marks} (h : marks.Encode env) :
    (l2Lookup env caller ctx marks).2.Encode env ∧
      (l2Lookup env caller ctx marks).2.l1CacheKey = marks.l1CacheKey := by
  have hsame : marks.Encode env ∧ marks.l1CacheKey = marks.l1CacheKey := ⟨h, rfl⟩
  rw [l2Lookup]
  split
  · dsimp only
    split
    · exact hsame
    · split
      · exact hsame
      · split
        · exact scopeValue_encode h
        · exact scopeValue_encode h
  · exact hsame

theorem applyModelScope_encode {caller : Caller} {ctx : Ctx} (text : String) :
    (applyModelScope env caller ctx text .fresh).2.Encode env ∧
      (applyModelScope env caller ctx text .fresh).2.l1CacheKey = none := by
  have hverbosity := (@encode_verbosityScopeTag env caller ctx _ encode_fresh).2
  have hsystem := (@encode_systemScopeTag env caller ctx _ hverbosity).2
  have hkey := (@systemScopeTag_rest env caller ctx _).2.trans
    (@verbosityScopeTag_rest env caller ctx .fresh).2.2
  rw [applyModelScope]
  dsimp only
  split
  · exact ⟨hsystem, hkey⟩
  · exact ⟨(encode_paramsScopeTag hsystem).2, paramsScopeTag_rest.trans hkey⟩

theorem lookedUp_of_processRequest {held : Held} {caller : Caller} {ctx : Ctx} {visit : Visit}
    {lookup : Lookup} (h : processRequest env held caller ctx .fresh = some visit)
    (hlookup : visit.lookup = some lookup) :
    (Keyed env caller ctx → LookedUp env caller ctx visit lookup) ∧
      (¬ Keyed env caller ctx → Unkeyed env ctx visit lookup) := by
  obtain ⟨cfg, -, rfl⟩ := Option.map_eq_some_iff.mp h
  split at hlookup
  · cases hlookup
  · split at hlookup
    · cases hlookup
    · split at hlookup
      · cases hlookup
      · next henabled hout hno =>
        rw [if_neg henabled, if_neg hout, if_neg hno]
        have hkeyed := @madeKey_isSome env caller ctx .fresh encode_fresh ctx.messages
        obtain ⟨hencode, hunnoted⟩ := @applyModelScope_encode env caller ctx
          (normalise env ctx.messages)
        rw [madeKey] at hkeyed
        dsimp only at hlookup ⊢
        split at hlookup
        · next key hkey =>
          rw [hkey] at hkeyed
          refine ⟨fun hk => ?_, fun hnot => absurd (hkeyed.mp rfl) hnot⟩
          have hcarry := carry_of_keyed hk (normalise env ctx.messages)
          refine lookedUp_lookUp ?_ ?_ hlookup
          · rfl
          · exact ⟨hcarry.verbosity, hcarry.system, hcarry.params⟩
        · next hkey =>
          rw [hkey] at hkeyed
          refine ⟨fun hk => absurd (hkeyed.mpr hk) (by simp), fun _ => ?_⟩
          obtain ⟨hasked, hsame⟩ := @l2Lookup_encode env caller ctx _ hencode
          simp only [lookUpL2] at hlookup ⊢
          cases hlookup
          exact ⟨rfl, rfl, hsame.trans hunnoted, hasked.1, hasked.2, hasked.3⟩

/-- The store stores: G05 is on, and nothing keeps this answer out of the cache. -/
structure Stores (env : Runtime) (response : Json) (ctx : Ctx) (marks : Marks) : Prop where
  missed : marks.cacheHit = false
  bypassed : ctx.bypassed = false
  noCache : ctx.noCache = false
  agentDispatched : ctx.agentDispatched = false
  answers : isEmptyAnswer env response = false
  enabled : ∃ cfg, g5Cache? ctx.config = some cfg ∧
    (option cfg "enabled" (.bool false)).truthy = true

theorem storeResponse_eq_some {caller : Caller} {ctx : Ctx} {marks : Marks} {response : Json}
    {filed : Filed} :
    storeResponse env caller response ctx marks = some filed ↔
      Stores env response ctx marks ∧ ∃ key, (storeKey env caller ctx marks).1 = some key ∧
        filed = ⟨key, (l2Store env caller ctx (storeKey env caller ctx marks).2).1⟩ := by
  simp only [storeResponse]
  constructor
  · intro h
    split at h
    · cases h
    · next hout =>
      simp only [Bool.or_eq_true, not_or, Bool.not_eq_true] at hout
      split at h
      · cases h
      · next hanswers =>
        split at h
        · cases h
        · next cfg hcfg =>
          split at h
          · cases h
          · next henabled =>
            obtain ⟨key, hkey, rfl⟩ := Option.map_eq_some_iff.mp h
            refine ⟨⟨hout.1.1.1, hout.1.1.2, hout.1.2, hout.2, ?_, cfg, hcfg, ?_⟩, key, hkey, rfl⟩
            · simpa using hanswers
            · simpa using henabled
  · rintro ⟨hstores, key, hkey, rfl⟩
    obtain ⟨cfg, hcfg, henabled⟩ := hstores.enabled
    simp only [hstores.missed, hstores.bypassed, hstores.noCache, hstores.agentDispatched,
      hstores.answers, hcfg, henabled, hkey, Bool.or_self, Bool.not_true, Bool.false_eq_true,
      if_false, Option.map_some]

theorem storeResponse_iff {caller : Caller} {ctx ctx' : Ctx} {marks : Marks} {response : Json}
    {key : String} (hkey : marks.l1CacheKey = some key) (hcarry : marks.Carry env caller ctx)
    {filed : Filed} :
    storeResponse env caller response ctx' marks = some filed ↔
      Stores env response ctx' marks ∧
        filed = ⟨key, ((asked? env caller ctx').map fun asked =>
          asked.row (notedScope env caller ctx)).filter fun row =>
            env.encodes (hashedRow caller row)⟩ := by
  have hstoreKey : storeKey env caller ctx' marks = (some key, marks) := by
    rw [storeKey, hkey]
  rw [storeResponse_eq_some, hstoreKey, l2Store_of_carry hcarry]
  apply and_congr_right
  intro _
  constructor
  · rintro ⟨own, hown, rfl⟩
    cases hown
    rfl
  · rintro rfl
    exact ⟨key, rfl, rfl⟩

/-- Without a noted key the store files an answer exactly where it can make one. -/
theorem exists_storeResponse_iff {caller : Caller} {ctx : Ctx} {marks : Marks} {response : Json}
    (hkey : marks.l1CacheKey = none) (hencode : marks.Encode env) :
    (∃ filed, storeResponse env caller response ctx marks = some filed) ↔
      Stores env response ctx marks ∧
        Keyable env caller (requestMessages caller ctx) ctx marks := by
  have hstoreKey : (storeKey env caller ctx marks).1 =
      madeKey env caller (requestMessages caller ctx) ctx marks := by
    rw [storeKey, hkey]
    rfl
  simp only [storeResponse_eq_some, hstoreKey]
  rw [← madeKey_isSome hencode, Option.isSome_iff_exists]
  constructor
  · rintro ⟨filed, hstores, key, hmade, -⟩
    exact ⟨hstores, key, hmade⟩
  · rintro ⟨hstores, key, hmade⟩
    exact ⟨_, hstores, key, hmade, rfl⟩

/-! ## 7. Agreement -/

/-- The context after the later stages. -/
def later (stages : List (Ctx → Ctx)) (ctx : Ctx) : Ctx := stages.foldl (fun c stage => stage c) ctx

/-- An answer is filed under the key that it was looked up with, and in L2 under the row that
L2 was asked with. -/
def FiledAsLookedUp (env : Runtime) (held : Held) (caller : Caller) (ctx : Ctx)
    (stages : List (Ctx → Ctx)) (response : Json) : Prop :=
  ∀ visit lookup filed, processRequest env held caller ctx .fresh = some visit →
    visit.lookup = some lookup →
    storeResponse env caller response (later stages visit.ctx) visit.marks = some filed →
    some filed.key = lookup.key ∧ ∀ row, filed.row = some row → lookup.row = some row

/-- Where L2 is given a row, it was asked with the same text, and the model and the literals
read as they did.  Without a noted tag a model's name may also make up for a literal tag. -/
def Unmoved (env : Runtime) (caller : Caller) (ctx ctx' : Ctx) : Prop :=
  ∀ given, asked? env caller ctx' = some given →
    env.encodes (hashedRow caller (given.row (notedScope env caller ctx))) = true →
    ∃ asked, asked? env caller ctx = some asked ∧ asked.queryText = given.queryText ∧
      (asked.model = given.model ∧ asked.literal = given.literal ∨
        notedScope env caller ctx = "" ∧
          Spells asked.model asked.literal given.model given.literal)

theorem literal_of_asked {caller : Caller} {ctx : Ctx} {asked : Asked}
    (h : asked? env caller ctx = some asked) :
    ∃ cfg, asked.literal = literalScopeTag env asked.queryText cfg := by
  rw [asked?] at h
  split at h
  · split at h
    · next cfg model _ _ =>
      split at h
      · cases h
        exact ⟨cfg, rfl⟩
      · cases h
    · cases h
  · cases h

/-- The literal tag of a text, where it has one. -/
theorem literalScopeTag_cases (env : Runtime) (queryText : String) :
    ∃ digest, IsHex 16 digest ∧ ∀ cfg, literalScopeTag env queryText cfg = "" ∨
      literalScopeTag env queryText cfg = "literals=" ++ digest := by
  let literals := findLiterals env [] queryText.toList
  refine ⟨_, isHex_short env.sha256 (by decide)
    ("\x1f".intercalate (literals.map String.ofList)), ?_⟩
  intro cfg
  rw [literalScopeTag]
  split
  · exact Or.inr rfl
  · exact Or.inl rfl

theorem row_eq_iff {caller : Caller} {ctx ctx' : Ctx} {asked given : Asked}
    (hasked : asked? env caller ctx = some asked) (hgiven : asked? env caller ctx' = some given) :
    asked.row (notedScope env caller ctx) = given.row (notedScope env caller ctx) ↔
      asked.queryText = given.queryText ∧
        (asked.model = given.model ∧ asked.literal = given.literal ∨
          notedScope env caller ctx = "" ∧
            Spells asked.model asked.literal given.model given.literal) := by
  obtain ⟨cfg, hliteral⟩ := literal_of_asked hasked
  obtain ⟨cfg', hliteral'⟩ := literal_of_asked hgiven
  obtain ⟨digest, hhex, hcases⟩ := literalScopeTag_cases env asked.queryText
  rw [Asked.row, Asked.row, L2Row.mk.injEq, and_comm]
  apply and_congr_right
  intro htext
  rw [← htext] at hliteral'
  rw [hliteral, hliteral']
  exact scope_eq_iff ends_notedScope hhex (hcases cfg) (hcases cfg')

/-- What the context at the store has to be: with a key it reads the same, and without one none
can be made of it either. -/
def Agreeable (env : Runtime) (caller : Caller) (ctx ctx' : Ctx) (marks : Marks) : Prop :=
  (Keyed env caller ctx → Unmoved env caller ctx ctx') ∧
    (¬ Keyed env caller ctx → ¬ Keyable env caller (requestMessages caller ctx') ctx' marks)

theorem agreeable_of_filed {held : Held} {caller : Caller} {ctx : Ctx} {stages : List (Ctx → Ctx)}
    {response : Json} (hagrees : FiledAsLookedUp env held caller ctx stages response)
    {visit : Visit} (hvisit : processRequest env held caller ctx .fresh = some visit)
    {lookup : Lookup} (hlookup : visit.lookup = some lookup)
    (hstores : Stores env response (later stages ctx) visit.marks) :
    Agreeable env caller ctx (later stages ctx) visit.marks := by
  obtain ⟨hkeyed, hunkeyed⟩ := lookedUp_of_processRequest hvisit hlookup
  constructor
  · intro hk given hgiven hencodes
    have hlooked := hkeyed hk
    obtain ⟨key, hnoted, hkey⟩ := hlooked.key_eq
    have hfiled := (storeResponse_iff hnoted hlooked.carry).mpr ⟨hstores, rfl⟩
    rw [← hlooked.ctx_eq] at hfiled
    have hrow := (hagrees visit lookup _ hvisit hlookup hfiled).2
      (given.row (notedScope env caller ctx)) (by
        rw [hlooked.ctx_eq, hgiven, Option.map_some]
        dsimp only
        rw [Option.filter_some]
        exact if_pos hencodes)
    rw [hlooked.row_eq hstores.missed] at hrow
    obtain ⟨asked, hasked, hsame⟩ := Option.map_eq_some_iff.mp hrow
    exact ⟨asked, hasked, (row_eq_iff hasked hgiven).mp hsame⟩
  · intro hnot hkeyable
    have hlooked := hunkeyed hnot
    obtain ⟨filed, hfiled⟩ := (exists_storeResponse_iff hlooked.unnoted hlooked.encode).mpr
      ⟨hstores, hkeyable⟩
    rw [← hlooked.ctx_eq] at hfiled
    have hkey := (hagrees visit lookup filed hvisit hlookup hfiled).1
    rw [hlooked.key_eq] at hkey
    cases hkey

/-- **The store agrees with the lookup exactly where the context reads the same**, or where no key
can be made of the request at all. -/
theorem filed_as_looked_up_iff (env : Runtime) (held : Held) (caller : Caller) (ctx : Ctx)
    (stages : List (Ctx → Ctx)) (response : Json) :
    FiledAsLookedUp env held caller ctx stages response ↔
      ∀ visit, processRequest env held caller ctx .fresh = some visit →
        visit.lookup.isSome = true → Stores env response (later stages ctx) visit.marks →
        Agreeable env caller ctx (later stages ctx) visit.marks := by
  constructor
  · intro hagrees visit hvisit hsome hstores
    obtain ⟨lookup, hlookup⟩ := Option.isSome_iff_exists.mp hsome
    exact agreeable_of_filed hagrees hvisit hlookup hstores
  · intro hagreeable visit lookup filed hvisit hlookup hfiled
    have hsome : visit.lookup.isSome = true := Option.isSome_iff_exists.mpr ⟨lookup, hlookup⟩
    obtain ⟨hkeyed, hunkeyed⟩ := lookedUp_of_processRequest hvisit hlookup
    by_cases hk : Keyed env caller ctx
    · have hlooked := hkeyed hk
      obtain ⟨key, hnoted, hkey⟩ := hlooked.key_eq
      rw [hlooked.ctx_eq] at hfiled
      obtain ⟨hstores, rfl⟩ := (storeResponse_iff hnoted hlooked.carry).mp hfiled
      refine ⟨hkey.symm, ?_⟩
      intro row hrow
      obtain ⟨hrow, hencodes⟩ := Option.filter_eq_some_iff.mp hrow
      obtain ⟨given, hgiven, rfl⟩ := Option.map_eq_some_iff.mp hrow
      obtain ⟨asked, hasked, hsame⟩ :=
        (hagreeable visit hvisit hsome hstores).1 hk given hgiven hencodes
      rw [hlooked.row_eq hstores.missed, hasked, Option.map_some,
        (row_eq_iff hasked hgiven).mpr hsame]
    · have hlooked := hunkeyed hk
      rw [hlooked.ctx_eq] at hfiled
      obtain ⟨hstores, hkeyable⟩ :=
        (exists_storeResponse_iff hlooked.unnoted hlooked.encode).mp ⟨filed, hfiled⟩
      exact absurd hkeyable ((hagreeable visit hvisit hsome hstores).2 hk)

/-! ## 8. A model that is not configured -/

/-- `_record_substitution` of G06, as far as the cache sees it. -/
def recordSubstitution (substitute : String) (ctx : Ctx) : Ctx := { ctx with model := substitute }

def nothingHeld : Held := ⟨fun _ => .missing, fun _ => false, false⟩

def helloCaller : Caller :=
  ⟨[⟨[("role", .str "user"), ("content", .str "hello")]⟩], "default", ""⟩

def perModel : Json :=
  .obj [("groups", .obj [("G5_cache", .obj [("enabled", .bool true),
    ("cache_scope", .str "tenant+model")])])]

def helloCtx : Ctx := ⟨helloCaller.originalMessages, "gpt-5", [], perModel, false, false, false⟩

def helloAnswer : Json :=
  .obj [("choices", .arr [.obj [("message", .obj [("role", .str "assistant"),
    ("content", .str "hi")])]])]

/-- The answer of the substitute is filed under the substitute's scope. -/
theorem not_filed_as_looked_up :
    ¬ FiledAsLookedUp asciiRuntime nothingHeld helloCaller helloCtx
      [recordSubstitution "gpt-4o-mini"] helloAnswer := by
  intro h
  have hrow := (h _ _ _ rfl rfl rfl).2 _ rfl
  exact absurd hrow (by decide)

end TokenProxy.ResponseCache
