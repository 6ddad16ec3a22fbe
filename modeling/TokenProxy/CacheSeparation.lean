/-
  TokenProxy/CacheSeparation.lean
  ===============================
  **Which requests of one scope share an entry of the exact-match cache.**

  The text that is hashed into the L1 key joins the turns with bars and puts the tags on
  lines in front.  Nothing in it is escaped.  A bar inside a turn reads like the end of the
  turn, a content that is no text reads like the text that prints as it does, a text that
  ends in JSON reads like a tool call, and a role may read like a tag.

  Main result: `hashedApart_iff`.  Two requests that differ are told apart exactly when, going
  through their turns, some turn reads neither as the other's nor, up to a bar, as what the
  other's goes on with, or when their parameters are told apart.
-/
import TokenProxy.CacheAgreement
import TokenProxy.TextReplace

namespace TokenProxy.ResponseCache

open History

/-! ## 1. Texts joined with bars -/

/-- How the texts of one list read as those of another: they are the same, or one of them is the
other's, a bar, and a rest that reads as what follows there. -/
inductive ReadAs : List String → List String → Prop
  | nil : ReadAs [] []
  | same (text : String) {texts texts' : List String} (h : ReadAs texts texts') :
      ReadAs (text :: texts) (text :: texts')
  | held (text rest : String) {texts texts' : List String} (h : ReadAs texts (rest :: texts')) :
      ReadAs (text :: texts) ((text ++ "|" ++ rest) :: texts')
  | holds (text rest : String) {texts texts' : List String} (h : ReadAs (rest :: texts) texts') :
      ReadAs ((text ++ "|" ++ rest) :: texts) (text :: texts')

theorem ReadAs.nil_iff {texts texts' : List String} (h : ReadAs texts texts') :
    texts = [] ↔ texts' = [] := by
  cases h <;> simp

theorem join_cons (text : String) {texts : List String} (h : texts ≠ []) :
    "|".intercalate (text :: texts) = text ++ "|" ++ "|".intercalate texts :=
  String.intercalate_cons_of_ne_nil h

theorem ReadAs.join_eq {texts texts' : List String} (h : ReadAs texts texts') :
    "|".intercalate texts = "|".intercalate texts' := by
  induction h with
  | nil => rfl
  | @same text texts texts' hrest ih =>
    by_cases hnil : texts = []
    · rw [hnil, hrest.nil_iff.mp hnil]
    · rw [join_cons text hnil, join_cons text (mt hrest.nil_iff.mpr hnil), ih]
  | @held text rest texts texts' hrest ih =>
    have hnil : texts ≠ [] := mt hrest.nil_iff.mp (List.cons_ne_nil rest texts')
    rw [join_cons text hnil, ih]
    by_cases hlast : texts' = []
    · rw [hlast, String.intercalate_singleton, String.intercalate_singleton]
    · rw [join_cons _ hlast, join_cons _ hlast]
      simp only [String.append_assoc]
  | @holds text rest texts texts' hrest ih =>
    have hnil : texts' ≠ [] := mt hrest.nil_iff.mpr (List.cons_ne_nil rest texts)
    rw [join_cons text hnil, ← ih]
    by_cases hlast : texts = []
    · rw [hlast, String.intercalate_singleton, String.intercalate_singleton]
    · rw [join_cons _ hlast, join_cons _ hlast]
      simp only [String.append_assoc]

/-- Where two texts are cut at a bar each, the cuts are the same, or one is behind the other. -/
theorem bar_cases {a b c d : String} (h : a ++ "|" ++ b = c ++ "|" ++ d) :
    a = c ∧ b = d ∨ (∃ rest, c = a ++ "|" ++ rest ∧ b = rest ++ "|" ++ d) ∨
      ∃ rest, a = c ++ "|" ++ rest ∧ d = rest ++ "|" ++ b := by
  have hbar : "|".toList = ['|'] := rfl
  have hlists := congrArg String.toList h
  simp only [String.toList_append, hbar, List.append_assoc, List.singleton_append] at hlists
  have hback : ∀ x y : String, ∀ rest : List Char, x.toList = y.toList ++ '|' :: rest →
      x = y ++ "|" ++ String.ofList rest := by
    intro x y rest hx
    apply String.toList_inj.mp
    simp only [String.toList_append, hbar, String.toList_ofList, hx, List.append_assoc,
      List.singleton_append]
  have hbehind : ∀ x y : String, ∀ rest : List Char, x.toList = rest ++ '|' :: y.toList →
      x = String.ofList rest ++ "|" ++ y := by
    intro x y rest hx
    apply String.toList_inj.mp
    simp only [String.toList_append, hbar, String.toList_ofList, hx, List.append_assoc,
      List.singleton_append]
  rcases List.append_eq_append_iff.mp hlists with ⟨x, hc, hrest⟩ | ⟨x, ha, hrest⟩
  · cases x with
    | nil =>
      rw [List.nil_append] at hrest
      rw [List.append_nil] at hc
      exact Or.inl ⟨String.toList_inj.mp hc.symm, String.toList_inj.mp (List.cons.inj hrest).2⟩
    | cons first x =>
      obtain ⟨rfl, hb⟩ := List.cons.inj hrest
      exact Or.inr (Or.inl ⟨String.ofList x, hback c a x hc, hbehind b d x hb⟩)
  · cases x with
    | nil =>
      rw [List.nil_append] at hrest
      rw [List.append_nil] at ha
      exact Or.inl ⟨String.toList_inj.mp ha, String.toList_inj.mp (List.cons.inj hrest).2.symm⟩
    | cons first x =>
      obtain ⟨rfl, hd⟩ := List.cons.inj hrest
      exact Or.inr (Or.inr ⟨String.ofList x, hback a c x ha, hbehind d b x hd⟩)

theorem readAs_of_join {texts texts' : List String} (hne : texts ≠ []) (hne' : texts' ≠ [])
    (h : "|".intercalate texts = "|".intercalate texts') : ReadAs texts texts' := by
  obtain ⟨n, hn⟩ : ∃ n, texts.length + texts'.length ≤ n := ⟨_, le_rfl⟩
  induction n generalizing texts texts' with
  | zero => exact absurd (List.length_pos_iff.mpr hne) (by omega)
  | succ n ih =>
    obtain ⟨text, rest, rfl⟩ := List.exists_cons_of_ne_nil hne
    obtain ⟨text', rest', rfl⟩ := List.exists_cons_of_ne_nil hne'
    simp only [List.length_cons] at hn
    by_cases hrest : rest = []
    · by_cases hrest' : rest' = []
      · subst hrest hrest'
        rw [String.intercalate_singleton, String.intercalate_singleton] at h
        rw [h]
        exact .same text' .nil
      · rw [hrest, String.intercalate_singleton, join_cons text' hrest'] at h
        rw [h, hrest]
        apply ReadAs.holds
        apply ih (List.cons_ne_nil _ _) hrest' (String.intercalate_singleton ..)
        simp only [List.length_singleton]
        omega
    · by_cases hrest' : rest' = []
      · rw [hrest', String.intercalate_singleton, join_cons text hrest] at h
        rw [← h, hrest']
        apply ReadAs.held
        apply ih hrest (List.cons_ne_nil _ _) (String.intercalate_singleton ..).symm
        simp only [List.length_singleton]
        omega
      · rw [join_cons text hrest, join_cons text' hrest'] at h
        rcases bar_cases h with ⟨rfl, hjoin⟩ | ⟨more, rfl, hjoin⟩ | ⟨more, rfl, hjoin⟩
        · exact .same text (ih hrest hrest' hjoin (by omega))
        · rw [← join_cons more hrest'] at hjoin
          apply ReadAs.held
          apply ih hrest (List.cons_ne_nil _ _) hjoin
          simp only [List.length_cons]
          omega
        · rw [← join_cons more hrest] at hjoin
          apply ReadAs.holds
          apply ih (List.cons_ne_nil _ _) hrest' hjoin.symm
          simp only [List.length_cons]
          omega

theorem join_ne_empty {texts : List String} (hne : texts ≠ []) (h : ∀ text ∈ texts, text ≠ "") :
    "|".intercalate texts ≠ "" := by
  obtain ⟨text, rest, rfl⟩ := List.exists_cons_of_ne_nil hne
  have htext : text ≠ "" := h text List.mem_cons_self
  by_cases hrest : rest = []
  · rw [hrest, String.intercalate_singleton]
    exact htext
  · intro hjoined
    rw [join_cons text hrest] at hjoined
    exact htext (String.append_eq_empty_iff.mp (String.append_eq_empty_iff.mp hjoined).1).1

theorem join_eq_iff {texts texts' : List String} (h : ∀ text ∈ texts, text ≠ "")
    (h' : ∀ text ∈ texts', text ≠ "") :
    "|".intercalate texts = "|".intercalate texts' ↔ ReadAs texts texts' := by
  refine ⟨fun hjoin => ?_, ReadAs.join_eq⟩
  by_cases hne : texts = []
  · by_cases hne' : texts' = []
    · rw [hne, hne']
      exact .nil
    · rw [hne] at hjoin
      exact absurd hjoin.symm (join_ne_empty hne' h')
  · by_cases hne' : texts' = []
    · rw [hne'] at hjoin
      exact absurd hjoin (join_ne_empty hne h)
    · exact readAs_of_join hne hne' hjoin

/-- Texts without bars read as themselves. -/
theorem ReadAs.eq_of_unbarred {texts texts' : List String} (hread : ReadAs texts texts')
    (h : ∀ text ∈ texts, '|' ∉ text.toList) (h' : ∀ text ∈ texts', '|' ∉ text.toList) :
    texts = texts' := by
  have hbar : ∀ text rest : String, '|' ∈ (text ++ "|" ++ rest).toList := by
    intro text rest
    simp
  induction hread with
  | nil => rfl
  | same text hrest ih =>
    rw [ih (fun other hother => h other (List.mem_cons_of_mem _ hother))
      fun other hother => h' other (List.mem_cons_of_mem _ hother)]
  | held text rest hrest ih => exact absurd (hbar text rest) (h' _ List.mem_cons_self)
  | holds text rest hrest ih => exact absurd (hbar text rest) (h _ List.mem_cons_self)

/-! ## 2. What is hashed -/

variable (env : Runtime)

/-- A turn as the normalisation leaves it: the text without its spacing and its case, and what
is no text as it is. -/
structure Turn where
  role : Json
  content : Json
  fields : List (String × Json)

def turnContent (msg : Msg) : Json :=
  match (Json.obj msg.fields).getD "content" (.str "") with
  | .str text => .str (env.lower (collapse text))
  | value => value

def turn (msg : Msg) : Turn :=
  ⟨(Json.obj msg.fields).getD "role" (.str ""), turnContent env msg, sortFields (fieldsOfTurn msg)⟩

/-- The requests differ in their conversation, or in a parameter that changes the answer. -/
def Differ (ctx ctx' : Ctx) : Prop :=
  ctx.messages.map (turn env) ≠ ctx'.messages.map (turn env) ∨
    sortFields (chosenParams ctx.params) ≠ sortFields (chosenParams ctx'.params)

/-- The tags of the scope read the same. -/
structure SameScope (caller : Caller) (ctx : Ctx) (caller' : Caller) (ctx' : Ctx) : Prop where
  model : modelScopeTag env caller ctx = modelScopeTag env caller' ctx'
  verbosity : verbosityCacheTag env caller ctx = verbosityCacheTag env caller' ctx'
  system : systemFingerprint env caller ctx = systemFingerprint env caller' ctx'

/-- The text that `process_request` hashes into the L1 key; `none` where it raises before. -/
def hashed (caller : Caller) (ctx : Ctx) : Option String :=
  (applyModelScope env caller ctx (normalise env ctx.messages) .fresh).1.filter fun text =>
    env.encodes text

/-- The turns as they are joined. -/
def turnTexts (messages : List Msg) : List String :=
  messages.map fun msg => turnRole env msg ++ ":" ++ turnBody env msg

/-- The line of a tag. -/
def tagLine (name tag : String) : String := tagged name tag ""

/-- The lines of the scope. -/
def scopeLines (caller : Caller) (ctx : Ctx) : String :=
  let tag := modelScopeTag env caller ctx
  tagLine "system" (systemFingerprint env caller ctx) ++
    (tagLine "verbosity" (verbosityCacheTag env caller ctx) ++
      if tag.truthy then tagLine "model" (env.str tag) else "")

/-- A line in front of the first text. -/
def headed (line : String) : List String → List String
  | [] => [line]
  | text :: rest => (line ++ text) :: rest

/-- The digits of the parameters in the key. -/
def paramsDigits (params : List (String × Json)) : String :=
  env.sha256.short 16 (dumps env (.obj (chosenParams params)))

/-- Up to their order the parameters are the same, or there are some on both sides and the digits
of their digests are. -/
def AlikeParams (params params' : List (String × Json)) : Prop :=
  sortFields (chosenParams params) = sortFields (chosenParams params') ∨
    chosenParams params ≠ [] ∧ chosenParams params' ≠ [] ∧
      paramsDigits env params = paramsDigits env params'

/-- The first request has no parameters and no line of the scope, and its turns read as the line of
the other's parameters and the other's turns. -/
structure Poses (caller : Caller) (ctx ctx' : Ctx) : Prop where
  none : chosenParams ctx.params = []
  some : chosenParams ctx'.params ≠ []
  unscoped : scopeLines env caller ctx = ""
  turns : ReadAs (turnTexts env ctx.messages)
    (headed (tagLine "params" (paramsDigits env ctx'.params)) (turnTexts env ctx'.messages))

/-- The requests read alike. -/
def ReadAlike (caller : Caller) (ctx : Ctx) (caller' : Caller) (ctx' : Ctx) : Prop :=
  AlikeParams env ctx.params ctx'.params ∧
      ReadAs (turnTexts env ctx.messages) (turnTexts env ctx'.messages) ∨
    Poses env caller ctx ctx' ∨ Poses env caller' ctx' ctx

variable {env}

theorem tagged_eq (name tag text : String) : tagged name tag text = tagLine name tag ++ text := by
  rw [tagLine, tagged, tagged]
  split
  · exact String.empty_append.symm
  · rw [String.append_empty]

/-- The text of a key. -/
def keyText (env : Runtime) (caller : Caller) (ctx : Ctx) : String :=
  withTags env (modelScopeTag env caller ctx) (verbosityCacheTag env caller ctx)
    (systemFingerprint env caller ctx) (paramsFingerprint env ctx.params)
    (normalise env ctx.messages)

theorem hashed_eq_some {caller : Caller} {ctx : Ctx} {text : String} :
    hashed env caller ctx = some text ↔ Keyed env caller ctx ∧ keyText env caller ctx = text := by
  have hencodes : env.encodes (keyText env caller ctx) = true ↔ _ :=
    encodes_withTags (encodes_verbosityCacheTag caller ctx) (encodes_systemFingerprint caller ctx)
      (encodes_paramsFingerprint ctx.params)
  rw [hashed]
  simp only [applyModelScope, verbosityScopeTag, systemScopeTag, paramsScopeTag, Marks.fresh]
  cases hsystem : systemEncodes env caller ctx with
  | false =>
    apply iff_of_false (by simp)
    rintro ⟨hkeyed, -⟩
    rcases hkeyed.system with hnoted | hown
    · cases hnoted
    · cases hsystem.symm.trans hown
  | true =>
    cases hparams : paramsEncodes env ctx.params with
    | false =>
      apply iff_of_false (by simp)
      rintro ⟨hkeyed, -⟩
      rcases hkeyed.params with hnoted | hown
      · cases hnoted
      · cases hparams.symm.trans hown
    | true =>
      simp only [if_true, Option.map_some]
      change (some (keyText env caller ctx)).filter _ = some text ↔ _
      rw [Option.filter_eq_some_iff]
      constructor
      · rintro ⟨htext, hown⟩
        cases htext
        obtain ⟨hmodel, hturns⟩ := hencodes.mp hown
        exact ⟨⟨Or.inr hsystem, Or.inr hparams, hmodel, hturns⟩, rfl⟩
      · rintro ⟨hkeyed, rfl⟩
        exact ⟨rfl, hencodes.mpr ⟨hkeyed.model, hkeyed.turns⟩⟩

theorem keyText_eq (caller : Caller) (ctx : Ctx) :
    keyText env caller ctx = tagLine "params" (paramsFingerprint env ctx.params) ++
      (scopeLines env caller ctx ++ "|".intercalate (turnTexts env ctx.messages)) := by
  have hmodel : (if (modelScopeTag env caller ctx).truthy then
        tagged "model" (env.str (modelScopeTag env caller ctx)) (normalise env ctx.messages)
      else normalise env ctx.messages) =
      (if (modelScopeTag env caller ctx).truthy then
        tagLine "model" (env.str (modelScopeTag env caller ctx)) else "") ++
          normalise env ctx.messages := by
    split
    · exact tagged_eq _ _ _
    · exact String.empty_append.symm
  rw [keyText, withTags, hmodel]
  simp only [tagged_eq, scopeLines, String.append_assoc]
  rfl

theorem turnTexts_ne_empty (messages : List Msg) :
    ∀ text ∈ turnTexts env messages, text ≠ "" := by
  intro text htext
  obtain ⟨msg, -, rfl⟩ := List.mem_map.mp htext
  exact append_colon_ne _ _

theorem headed_ne_empty {line : String} (hline : line ≠ "") {texts : List String}
    (h : ∀ text ∈ texts, text ≠ "") : ∀ text ∈ headed line texts, text ≠ "" := by
  intro text htext
  cases texts with
  | nil =>
    rw [List.mem_singleton.mp htext]
    exact hline
  | cons first rest =>
    rcases List.mem_cons.mp htext with rfl | hrest
    · intro hempty
      exact hline (String.append_eq_empty_iff.mp hempty).1
    · exact h text (List.mem_cons_of_mem _ hrest)

theorem join_headed (line : String) (texts : List String) :
    "|".intercalate (headed line texts) = line ++ "|".intercalate texts := by
  cases texts with
  | nil => rw [headed, String.intercalate_singleton, String.intercalate_nil, String.append_empty]
  | cons first rest =>
    rw [headed]
    by_cases hrest : rest = []
    · rw [hrest, String.intercalate_singleton, String.intercalate_singleton]
    · rw [String.intercalate_cons_of_ne_nil hrest, String.intercalate_cons_of_ne_nil hrest]
      simp only [String.append_assoc]

/-! ## 3. The lines in front -/

theorem tagLine_empty (name : String) : tagLine name "" = "" := rfl

theorem tagLine_of_ne (name : String) {tag : String} (h : tag ≠ "") :
    tagLine name tag = name ++ "=" ++ tag ++ "\n" := by
  rw [tagLine, tagged, if_neg h, String.append_empty]

theorem tagLine_ne_empty (name : String) {tag : String} (h : tag ≠ "") : tagLine name tag ≠ "" := by
  rw [tagLine_of_ne name h]
  intro hempty
  exact absurd (String.append_eq_empty_iff.mp hempty).2 (by decide)

theorem isHex_paramsDigits (params : List (String × Json)) :
    IsHex 16 (paramsDigits env params) := isHex_short env.sha256 (by decide) _

theorem paramsDigits_ne_empty (params : List (String × Json)) : paramsDigits env params ≠ "" := by
  intro h
  have hlength := (@isHex_paramsDigits env params).1
  rw [h] at hlength
  exact absurd hlength (by decide)

theorem paramsFingerprint_of_nil {params : List (String × Json)} (h : chosenParams params = []) :
    paramsFingerprint env params = "" := by
  rw [paramsFingerprint, h]
  rfl

theorem paramsFingerprint_of_ne {params : List (String × Json)} (h : chosenParams params ≠ []) :
    paramsFingerprint env params = paramsDigits env params := by
  rw [paramsFingerprint]
  exact if_neg (by simpa using h)

theorem length_insertField (field : String × Json) (fields : List (String × Json)) :
    (insertField field fields).length = fields.length + 1 := by
  induction fields with
  | nil => rfl
  | cons other rest ih =>
    rw [insertField]
    split
    · rfl
    · rw [List.length_cons, ih, List.length_cons]

theorem length_sortFields (fields : List (String × Json)) :
    (sortFields fields).length = fields.length := by
  induction fields with
  | nil => rfl
  | cons field rest ih => rw [sortFields, length_insertField, ih, List.length_cons]

/-- The digits are those of the parameters up to their order. -/
theorem paramsFingerprint_eq_iff {params params' : List (String × Json)} :
    paramsFingerprint env params = paramsFingerprint env params' ↔
      AlikeParams env params params' := by
  have hsame : sortFields (chosenParams params) = sortFields (chosenParams params') →
      paramsDigits env params = paramsDigits env params' := by
    intro hsorted
    rw [paramsDigits, paramsDigits, dumps, dumps, sortKeys, sortKeys, hsorted]
  have hnil : sortFields (chosenParams params) = sortFields (chosenParams params') →
      (chosenParams params = [] ↔ chosenParams params' = []) := by
    intro hsorted
    have hlength := congrArg List.length hsorted
    rw [length_sortFields, length_sortFields] at hlength
    rw [← List.length_eq_zero_iff, hlength, List.length_eq_zero_iff]
  by_cases hnone : chosenParams params = []
  · by_cases hnone' : chosenParams params' = []
    · rw [paramsFingerprint_of_nil hnone, paramsFingerprint_of_nil hnone']
      exact iff_of_true rfl (Or.inl (by rw [hnone, hnone']))
    · rw [paramsFingerprint_of_nil hnone, paramsFingerprint_of_ne hnone']
      apply iff_of_false (paramsDigits_ne_empty params').symm
      rintro (hsorted | ⟨hsome, -⟩)
      · exact hnone' ((hnil hsorted).mp hnone)
      · exact hsome hnone
  · by_cases hnone' : chosenParams params' = []
    · rw [paramsFingerprint_of_ne hnone, paramsFingerprint_of_nil hnone']
      apply iff_of_false (paramsDigits_ne_empty params)
      rintro (hsorted | ⟨-, hsome, -⟩)
      · exact hnone ((hnil hsorted).mpr hnone')
      · exact hsome hnone'
    · rw [paramsFingerprint_of_ne hnone, paramsFingerprint_of_ne hnone']
      constructor
      · intro hdigits
        exact Or.inr ⟨hnone, hnone', hdigits⟩
      · rintro (hsorted | ⟨-, -, hdigits⟩)
        · exact hsame hsorted
        · exact hdigits

/-- Text that does not begin like a line of parameters. -/
def Unlike (text : String) : Prop := text.toList.head? ≠ some 'p'

theorem Unlike.append {text : String} (h : Unlike text) (hne : text ≠ "") (rest : String) :
    Unlike (text ++ rest) := by
  have hlist : text.toList ≠ [] := by
    simpa using hne
  obtain ⟨c, cs, hcs⟩ := List.exists_cons_of_ne_nil hlist
  rw [Unlike, hcs] at h
  rw [Unlike, String.toList_append, hcs]
  exact h

theorem Unlike.ne_params {text : String} (h : Unlike text) (hne : text ≠ "") {tag : String}
    (htag : tag ≠ "") (rest rest' : String) : text ++ rest ≠ tagLine "params" tag ++ rest' := by
  intro heq
  apply h.append hne rest
  rw [heq, tagLine_of_ne "params" htag]
  simp

theorem Unlike.behind {name : String} (hname : Unlike name) (hne : name ≠ "") (tag : String)
    {text : String} (htext : Unlike text) : Unlike (tagLine name tag ++ text) := by
  by_cases htag : tag = ""
  · rw [htag, tagLine_empty, String.empty_append]
    exact htext
  · rw [tagLine_of_ne name htag]
    simp only [String.append_assoc]
    exact hname.append hne _

theorem unlike_scopeLines (caller : Caller) (ctx : Ctx) : Unlike (scopeLines env caller ctx) := by
  have hmodel : Unlike (if (modelScopeTag env caller ctx).truthy then
      tagLine "model" (env.str (modelScopeTag env caller ctx)) else "") := by
    have hnone : Unlike "" := by
      simp [Unlike]
    have hname : Unlike "model" := by
      simp [Unlike]
    split
    · have hline := hname.behind (by decide) (env.str (modelScopeTag env caller ctx)) hnone
      rw [String.append_empty] at hline
      exact hline
    · exact hnone
  rw [scopeLines]
  apply Unlike.behind _ (by decide)
  · apply Unlike.behind _ (by decide) _ hmodel
    simp [Unlike]
  · simp [Unlike]

theorem SameScope.symm {caller caller' : Caller} {ctx ctx' : Ctx}
    (h : SameScope env caller ctx caller' ctx') : SameScope env caller' ctx' caller ctx :=
  ⟨h.model.symm, h.verbosity.symm, h.system.symm⟩

theorem SameScope.lines {caller caller' : Caller} {ctx ctx' : Ctx}
    (h : SameScope env caller ctx caller' ctx') :
    scopeLines env caller ctx = scopeLines env caller' ctx' := by
  rw [scopeLines, scopeLines, h.model, h.verbosity, h.system]

/-! ## 4. When the same text is hashed -/

theorem keyText_eq_iff_of_same {caller caller' : Caller} {ctx ctx' : Ctx}
    (hscope : SameScope env caller ctx caller' ctx')
    (hparams : paramsFingerprint env ctx.params = paramsFingerprint env ctx'.params) :
    keyText env caller ctx = keyText env caller' ctx' ↔
      ReadAs (turnTexts env ctx.messages) (turnTexts env ctx'.messages) := by
  rw [keyText_eq, keyText_eq, hparams, hscope.lines, String.append_right_inj,
    String.append_right_inj]
  exact join_eq_iff (turnTexts_ne_empty ctx.messages) (turnTexts_ne_empty ctx'.messages)

/-- Without parameters, the text has to bring the line itself. -/
theorem keyText_eq_iff_poses {caller caller' : Caller} {ctx ctx' : Ctx}
    (hscope : SameScope env caller ctx caller' ctx') (hnone : chosenParams ctx.params = [])
    (hsome : chosenParams ctx'.params ≠ []) :
    keyText env caller ctx = keyText env caller' ctx' ↔ Poses env caller ctx ctx' := by
  have hdigits := @paramsDigits_ne_empty env ctx'.params
  rw [keyText_eq, keyText_eq, paramsFingerprint_of_nil hnone, paramsFingerprint_of_ne hsome,
    tagLine_empty, String.empty_append, ← hscope.lines]
  by_cases hlines : scopeLines env caller ctx = ""
  · rw [hlines, String.empty_append, String.empty_append, ← join_headed,
      join_eq_iff (turnTexts_ne_empty _)
        (headed_ne_empty (tagLine_ne_empty _ hdigits) (turnTexts_ne_empty _))]
    exact ⟨fun hturns => ⟨hnone, hsome, hlines, hturns⟩, Poses.turns⟩
  · apply iff_of_false
    · exact (unlike_scopeLines caller ctx).ne_params hlines hdigits _ _
    · intro hposes
      exact hlines hposes.unscoped

theorem keyText_ne_of_digits {caller caller' : Caller} {ctx ctx' : Ctx}
    (hsome : chosenParams ctx.params ≠ []) (hsome' : chosenParams ctx'.params ≠ [])
    (hne : paramsDigits env ctx.params ≠ paramsDigits env ctx'.params) :
    keyText env caller ctx ≠ keyText env caller' ctx' := by
  intro heq
  have hlength := (@isHex_paramsDigits env ctx.params).1
  have hlength' := (@isHex_paramsDigits env ctx'.params).1
  rw [keyText_eq, keyText_eq, paramsFingerprint_of_ne hsome, paramsFingerprint_of_ne hsome',
    tagLine_of_ne "params" (paramsDigits_ne_empty _),
    tagLine_of_ne "params" (paramsDigits_ne_empty _)] at heq
  have hlists := congrArg String.toList heq
  simp only [String.toList_append, List.append_assoc, List.append_cancel_left_eq] at hlists
  apply hne
  rw [← String.toList_inj]
  apply (List.append_inj hlists _).1
  rw [String.length_toList, String.length_toList, hlength, hlength']

/-- **When the keys of two requests of one scope are made of the same text.** -/
theorem keyText_eq_iff {caller caller' : Caller} {ctx ctx' : Ctx}
    (hscope : SameScope env caller ctx caller' ctx') :
    keyText env caller ctx = keyText env caller' ctx' ↔
      ReadAlike env caller ctx caller' ctx' := by
  by_cases halike : AlikeParams env ctx.params ctx'.params
  · have hsame := paramsFingerprint_eq_iff.mpr halike
    rw [keyText_eq_iff_of_same hscope hsame]
    constructor
    · intro hturns
      exact Or.inl ⟨halike, hturns⟩
    · rintro (⟨-, hturns⟩ | hposes | hposes)
      · exact hturns
      · rw [paramsFingerprint_of_nil hposes.none, paramsFingerprint_of_ne hposes.some] at hsame
        exact absurd hsame.symm (paramsDigits_ne_empty _)
      · rw [paramsFingerprint_of_nil hposes.none, paramsFingerprint_of_ne hposes.some] at hsame
        exact absurd hsame (paramsDigits_ne_empty _)
  · have hposed : ReadAlike env caller ctx caller' ctx' ↔
        Poses env caller ctx ctx' ∨ Poses env caller' ctx' ctx :=
      ⟨fun hread => hread.resolve_left fun hboth => halike hboth.1, Or.inr⟩
    have hne : paramsFingerprint env ctx.params ≠ paramsFingerprint env ctx'.params :=
      mt paramsFingerprint_eq_iff.mp halike
    rw [hposed]
    by_cases hnone : chosenParams ctx.params = []
    · have hsome : chosenParams ctx'.params ≠ [] := by
        intro hnone'
        exact hne ((paramsFingerprint_of_nil hnone).trans (paramsFingerprint_of_nil hnone').symm)
      rw [keyText_eq_iff_poses hscope hnone hsome]
      exact ⟨Or.inl, fun hor => hor.resolve_right fun hposes => hposes.some hnone⟩
    · by_cases hnone' : chosenParams ctx'.params = []
      · rw [eq_comm, keyText_eq_iff_poses hscope.symm hnone' hnone]
        exact ⟨Or.inr, fun hor => hor.resolve_left fun hposes => hposes.some hnone'⟩
      · rw [paramsFingerprint_of_ne hnone, paramsFingerprint_of_ne hnone'] at hne
        apply iff_of_false (keyText_ne_of_digits hnone hnone' hne)
        rintro (hposes | hposes)
        · exact hnone hposes.none
        · exact hnone' hposes.none

/-! ## 5. Separation -/

/-- Requests that differ are hashed to different texts. -/
def Separated (env : Runtime) (caller : Caller) (ctx : Ctx) (caller' : Caller) (ctx' : Ctx) :
    Prop :=
  Differ env ctx ctx' → ∀ text, hashed env caller ctx = some text →
    hashed env caller' ctx' ≠ some text

theorem hashedApart_iff (env : Runtime) {caller caller' : Caller} {ctx ctx' : Ctx}
    (hscope : SameScope env caller ctx caller' ctx') :
    Separated env caller ctx caller' ctx' ↔
      (Differ env ctx ctx' → Keyed env caller ctx → Keyed env caller' ctx' →
        ¬ ReadAlike env caller ctx caller' ctx') := by
  rw [← keyText_eq_iff hscope, Separated]
  apply imp_congr_right
  intro _
  constructor
  · intro happart hkeyed hkeyed' hsame
    exact happart _ (hashed_eq_some.mpr ⟨hkeyed, rfl⟩)
      (hashed_eq_some.mpr ⟨hkeyed', hsame.symm⟩)
  · intro happart text htext htext'
    obtain ⟨hkeyed, rfl⟩ := hashed_eq_some.mp htext
    obtain ⟨hkeyed', hsame⟩ := hashed_eq_some.mp htext'
    exact happart hkeyed hkeyed' hsame.symm

/-! ## 6. Plain conversations -/

/-- A turn of text that the ingress of OpenAI lets in, without a bar. -/
structure Turn.Plain (env : Runtime) (msg : Msg) : Prop where
  role : ∃ role ∈ TokenCounter.openaiValidRoles,
    (Json.obj msg.fields).getD "role" (.str "") = .str role
  content : ∃ text, (Json.obj msg.fields).getD "content" (.str "") = .str text ∧
    '|' ∉ (env.lower (collapse text)).toList
  fields : fieldsOfTurn msg = []

theorem role_plain {role : String} (h : role ∈ TokenCounter.openaiValidRoles) :
    '|' ∉ role.toList ∧ ':' ∉ role.toList ∧ Unlike role ∧ role ≠ "" := by
  simp only [TokenCounter.openaiValidRoles, List.mem_cons, List.not_mem_nil, or_false] at h
  rcases h with rfl | rfl | rfl | rfl | rfl | rfl <;>
    exact ⟨by decide, by decide, by simp [Unlike], by decide⟩

theorem Turn.Plain.turnText {msg : Msg} (h : Turn.Plain env msg) :
    ∃ role ∈ TokenCounter.openaiValidRoles, ∃ text : String, '|' ∉ text.toList ∧
      turn env msg = ⟨.str role, .str text, []⟩ ∧
      turnRole env msg ++ ":" ++ turnBody env msg = role ++ ":" ++ text := by
  obtain ⟨role, hvalid, hrole⟩ := h.role
  obtain ⟨text, hcontent, hbar⟩ := h.content
  refine ⟨role, hvalid, env.lower (collapse text), hbar, ?_, ?_⟩
  · simp only [turn, turnContent, hrole, hcontent, h.fields]
    rfl
  · simp only [turnRole, turnBody, contentText, hrole, hcontent, h.fields, Runtime.str,
      List.isEmpty_nil, if_true, String.append_empty]

/-- The text of a plain turn gives the turn back. -/
theorem turn_of_turnText {msg msg' : Msg} (h : Turn.Plain env msg) (h' : Turn.Plain env msg')
    (htext : turnRole env msg ++ ":" ++ turnBody env msg =
      turnRole env msg' ++ ":" ++ turnBody env msg') : turn env msg = turn env msg' := by
  obtain ⟨role, hvalid, text, -, hturn, hread⟩ := h.turnText
  obtain ⟨role', hvalid', text', -, hturn', hread'⟩ := h'.turnText
  rw [hread, hread'] at htext
  have hlists := congrArg String.toList htext
  have hcolon : ":".toList = [':'] := rfl
  simp only [String.toList_append, hcolon, List.append_assoc, List.singleton_append] at hlists
  obtain ⟨hroles, htexts⟩ := TextReplace.append_cons_inj_of_notMem_left
    (role_plain hvalid).2.1 (role_plain hvalid').2.1 hlists
  rw [hturn, hturn', String.toList_inj.mp hroles, String.toList_inj.mp htexts]

theorem unlike_join {texts : List String} (h : ∀ text ∈ texts, Unlike text ∧ text ≠ "") :
    Unlike ("|".intercalate texts) := by
  cases texts with
  | nil => simp [Unlike]
  | cons text rest =>
    obtain ⟨hunlike, hne⟩ := h text List.mem_cons_self
    by_cases hrest : rest = []
    · rw [hrest, String.intercalate_singleton]
      exact hunlike
    · rw [String.intercalate_cons_of_ne_nil hrest, String.append_assoc]
      exact hunlike.append hne _

/-- No role that the ingress lets in begins like the line of the parameters. -/
theorem not_poses_of_plain {caller : Caller} {ctx ctx' : Ctx}
    (h : ∀ msg ∈ ctx.messages, Turn.Plain env msg) : ¬ Poses env caller ctx ctx' := by
  intro hposes
  have hjoined := hposes.turns.join_eq
  have hunlike : Unlike ("|".intercalate (turnTexts env ctx.messages)) := by
    apply unlike_join
    intro text htext
    refine ⟨?_, turnTexts_ne_empty ctx.messages text htext⟩
    obtain ⟨msg, hmsg, rfl⟩ := List.mem_map.mp htext
    obtain ⟨role, hvalid, text, -, -, hread⟩ := (h msg hmsg).turnText
    rw [hread, String.append_assoc]
    exact (role_plain hvalid).2.2.1.append (role_plain hvalid).2.2.2 _
  rw [join_headed, tagLine_of_ne "params" (paramsDigits_ne_empty _)] at hjoined
  apply hunlike
  rw [hjoined]
  simp

/-- The texts of plain turns give the turns back. -/
theorem turns_of_readAs {messages messages' : List Msg}
    (h : ∀ msg ∈ messages, Turn.Plain env msg) (h' : ∀ msg ∈ messages', Turn.Plain env msg)
    (hread : ReadAs (turnTexts env messages) (turnTexts env messages')) :
    messages.map (turn env) = messages'.map (turn env) := by
  have hunbarred : ∀ {messages : List Msg}, (∀ msg ∈ messages, Turn.Plain env msg) →
      ∀ text ∈ turnTexts env messages, '|' ∉ text.toList := by
    intro messages hplain text htext
    obtain ⟨msg, hmsg, rfl⟩ := List.mem_map.mp htext
    obtain ⟨role, hvalid, text, hbar, -, hread⟩ := (hplain msg hmsg).turnText
    rw [hread]
    simp [(role_plain hvalid).1, hbar]
  have htexts := hread.eq_of_unbarred (hunbarred h) (hunbarred h')
  clear hread
  induction messages generalizing messages' with
  | nil =>
    cases messages' with
    | nil => rfl
    | cons msg' rest' => cases htexts
  | cons msg rest ih =>
    cases messages' with
    | nil => cases htexts
    | cons msg' rest' =>
      obtain ⟨htext, hrest⟩ := List.cons.inj htexts
      rw [List.map_cons, List.map_cons,
        turn_of_turnText (h msg List.mem_cons_self) (h' msg' List.mem_cons_self) htext,
        ih (fun other hother => h other (List.mem_cons_of_mem _ hother))
          (fun other hother => h' other (List.mem_cons_of_mem _ hother)) hrest]

/-- **Plain conversations that differ are kept apart**, where the parameters do not. -/
theorem separated_of_plain {caller caller' : Caller} {ctx ctx' : Ctx}
    (hscope : SameScope env caller ctx caller' ctx')
    (h : ∀ msg ∈ ctx.messages, Turn.Plain env msg)
    (h' : ∀ msg ∈ ctx'.messages, Turn.Plain env msg)
    (hparams : sortFields (chosenParams ctx.params) = sortFields (chosenParams ctx'.params) ∨
      ¬ AlikeParams env ctx.params ctx'.params) :
    Separated env caller ctx caller' ctx' := by
  intro hdiffer text htext htext'
  obtain ⟨-, rfl⟩ := hashed_eq_some.mp htext
  obtain ⟨-, hsame⟩ := hashed_eq_some.mp htext'
  rcases (keyText_eq_iff hscope).mp hsame.symm with ⟨halike, hread⟩ | hposes | hposes
  · rcases hdiffer with hturns | hchosen
    · exact hturns (turns_of_readAs h h' hread)
    · exact hchosen (hparams.resolve_right (not_not_intro halike))
  · exact not_poses_of_plain h hposes
  · exact not_poses_of_plain h' hposes

/-! ## 7. A bar in a question -/

def unscoped (messages : List Msg) : Ctx :=
  ⟨messages, "gpt-5", [], .obj [], false, false, false⟩

def nobody : Caller := ⟨[], "default", ""⟩

def plainTurn (role text : String) : Msg := ⟨[("role", .str role), ("content", .str text)]⟩

/-- A user who writes the answer too. -/
def posed : Ctx := unscoped [plainTurn "user" "a|assistant:b"]

def answered : Ctx := unscoped [plainTurn "user" "a", plainTurn "assistant" "b"]

theorem differ_posed : Differ asciiRuntime posed answered := by
  apply Or.inl
  intro h
  exact absurd (congrArg List.length h) (by decide)

/-- A question with a bar in it and the two turns that it reads like share an entry. -/
theorem posed_not_separated : ¬ ∀ (env : Runtime) (caller caller' : Caller) (ctx ctx' : Ctx),
    SameScope env caller ctx caller' ctx' → Separated env caller ctx caller' ctx' := by
  intro h
  exact h asciiRuntime nobody nobody posed answered ⟨rfl, rfl, rfl⟩ differ_posed _ rfl rfl

theorem hashedApart_iff_posed :
    Separated asciiRuntime nobody posed nobody answered ↔
      (Differ asciiRuntime posed answered → Keyed asciiRuntime nobody posed →
        Keyed asciiRuntime nobody answered →
        ¬ ReadAlike asciiRuntime nobody posed nobody answered) :=
  hashedApart_iff asciiRuntime ⟨rfl, rfl, rfl⟩

end TokenProxy.ResponseCache
