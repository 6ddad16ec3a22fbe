/-
  TokenProxy/SecretRedaction.lean
  ===============================
  **What the redaction of log lines leaves of a credential.**

  The messages are those that show a credential in one of four ways wherever they have it
  (`ShownOnly`).

  A quoted field name is followed by its quote and not by `=` or `:`, and the value of
  `Authorization: Bearer …` is the scheme, so the first pattern takes only the credentials of
  `api_key=…`.  `not_infix_redactSecrets_iff` is the exact account of the rest: a credential is
  gone when each of its places is in a field that the first pattern takes, or has a mark inside.
-/
import TokenProxy.SecretPatterns

namespace TokenProxy.Redaction

open TokenProxy.KeyStore (isSpace)
open TokenProxy.SubScan

/-! ## 1. Credentials in a message -/

/-- The ways in which a message shows a credential. -/
inductive Shown
  | assigned | bearer | doubleQuoted | singleQuoted
  deriving DecidableEq, Repr

namespace Shown

/-- The field's name, in lower case. -/
def field : Shown → List Char
  | .bearer => "authorization".toList
  | _ => "api_key".toList

/-- What stands before the credential, with the field's name as the message spells it. -/
def lead (name : List Char) : Shown → List Char
  | .assigned => name ++ "=".toList
  | .bearer => name ++ ": Bearer ".toList
  | .doubleQuoted => '"' :: name ++ "\": \"".toList
  | .singleQuoted => '\'' :: name ++ "': '".toList

/-- What stands behind it. -/
def close : Shown → List Char
  | .doubleQuoted => "\"".toList
  | .singleQuoted => "'".toList
  | _ => []

/-- The place between `L` and `v ++ R` shows `v`, the lead after `before`. -/
def At (shown : Shown) (before L R : List Char) : Prop :=
  ∃ name, name.map Char.toLower = shown.field ∧ L = before ++ shown.lead name ∧
    shown.close <+: R

end Shown

/-- A text has `v`, and shows it wherever it has it. -/
def ShownOnly (v s : List Char) : Prop :=
  v <:+: s ∧ ∀ L R, s = L ++ (v ++ R) → ∃ (shown : Shown) (before : List Char), shown.At before L R

/-- The mark of a token inside `v`, at its start or behind a dash, with more of `v` behind it
and six characters of a token in all. -/
def MarkInside (v R : List Char) : Prop :=
  ∃ p mark q, v = p ++ (mark ++ ('-' :: q)) ∧ q ≠ [] ∧ mark.map fold ∈ tokenMarks ∧
    (p = [] ∨ p.getLast? = some '-') ∧ 6 ≤ ((q ++ R).takeWhile tokenChar).length

/-- The place of `v` between `L` and `R` is a field `api_key=…` whose name begins a word, or
is itself in the value of an earlier field. -/
def InField (py : Tables) (v L R : List Char) : Prop :=
  ∃ before name, name.map Char.toLower = Shown.assigned.field ∧ L = before ++ (name ++ ['=']) ∧
    (before.getLast?.any py.isWord = false ∨
      Inside (secretKv py) before (name ++ ('=' :: (v ++ R))))

/-! ## 2. Which places the fields take -/

/-- A match of the first pattern that goes on behind `M`. -/
theorem field_across {py : Tables} {prev : Option Char} {M : List Char} {c : Char}
    {cs : List Char} {keep k : Nat} (hk : 0 < k)
    (h : secretKv py prev (M ++ (c :: cs)) = some (keep, M.length + k)) :
    ∃ name gap sep gap' value rest B,
      FieldMatch (M ++ (c :: cs)) name gap sep gap' value rest ∧
        name ++ (gap ++ (sep :: (gap' ++ value))) = M ++ c :: B := by
  obtain ⟨name, gap, sep, gap', value, rest, hmatch, -, hlength⟩ := secretKv_spec h
  refine ⟨name, gap, sep, gap', value, rest, cs.take (k - 1), hmatch, ?_⟩
  have htaken : (M ++ (c :: cs)).take (M.length + k) = M ++ c :: cs.take (k - 1) := by
    rw [List.take_append, List.take_of_length_le (Nat.le_add_right _ _),
      Nat.add_sub_cancel_left]
    cases k with
    | zero => exact absurd hk (Nat.lt_irrefl 0)
    | succ k => rfl
  have hwhole : M.length + k = (name ++ (gap ++ (sep :: (gap' ++ value)))).length := by
    rw [hlength]
    simp only [List.length_append, List.length_cons]
    omega
  have htext : M ++ (c :: cs) = (name ++ (gap ++ (sep :: (gap' ++ value)))) ++ rest := by
    rw [hmatch.text]
    simp only [List.append_assoc, List.cons_append]
  rw [← htaken, hwhole, htext, List.take_left]

/-- A nonempty end of a text that begins with a character of a token is longer than an end
without one. -/
theorem longer_end {before tail L₁ M : List Char} {c : Char} {cs : List Char}
    (h : before ++ tail = L₁ ++ M) (hM : M = c :: cs) (hc : tokenChar c = true)
    (htail : ∀ x ∈ tail, tokenChar x = false) : ∃ M₀, M = M₀ ++ tail ∧ before = L₁ ++ M₀ := by
  rcases List.append_eq_append_iff.mp h with ⟨A, -, htail'⟩ | ⟨A, hbefore, hM'⟩
  · have hmem : c ∈ tail := by
      rw [htail', hM]
      exact List.mem_append_right A List.mem_cons_self
    rw [htail c hmem] at hc
    cases hc
  · exact ⟨A, hM', hbefore⟩

theorem shown_keyLike {v : List Char} (hkey : ∀ c ∈ v, keyLike c = true) {c : Char}
    {cs : List Char} (hv : v = c :: cs) : isSpace c = false ∧ c ≠ '=' ∧ c ≠ ':' := by
  have hc := hkey c (by rw [hv]; exact List.mem_cons_self)
  refine ⟨isSpace_eq_false (tokenChar_of_keyLike hc), ?_, ?_⟩
  · rintro rfl
    cases hc
  · rintro rfl
    cases hc

/-- The first pattern does not take what follows a scheme or a quote. -/
theorem not_inside_of_at {py : Tables} {shown : Shown} (hshown : shown ≠ .assigned)
    {before v L R : List Char} (hkey : ∀ c ∈ v, keyLike c = true) (hne : v ≠ [])
    (hat : shown.At before L R) : ¬ Inside (secretKv py) L (v ++ R) := by
  intro hin
  obtain ⟨c, cs, hv⟩ := List.exists_cons_of_ne_nil hne
  obtain ⟨hspace, hsep⟩ := shown_keyLike hkey hv
  obtain ⟨L₁, M, keep, hL, hM, hmatch⟩ := exists_match hin
  obtain ⟨d, ds, hMd⟩ := List.exists_cons_of_ne_nil hM
  rw [hv, List.cons_append] at hin hmatch
  obtain ⟨name, gap, sep, gap', value, rest, B, hfield, hsplit⟩ := field_across hin hmatch
  have hd : tokenChar d = true := by
    obtain ⟨n, ns, hname⟩ := List.exists_cons_of_ne_nil hfield.name_ne
    have hhead := hfield.text
    rw [hMd, hname, List.cons_append, List.cons_append, List.cons.injEq] at hhead
    rw [hhead.1]
    exact hfield.name_token n (by rw [hname]; exact List.mem_cons_self)
  have hquoted : ∀ (quote : Char) (front : List Char), tokenChar quote = false →
      isSpace quote = false → quote ≠ '=' ∧ quote ≠ ':' →
      L ≠ front ++ [quote, ':', ' ', quote] := by
    intro quote front hquote hquoteSpace hquoteSep hLfront
    have htail : ∀ x ∈ [quote, ':', ' ', quote], tokenChar x = false := by
      intro x hx
      simp only [List.mem_cons, List.not_mem_nil, or_false] at hx
      rcases hx with rfl | rfl | rfl | rfl
      · exact hquote
      · rfl
      · rfl
      · exact hquote
    obtain ⟨M₀, hM₀, -⟩ := longer_end (hLfront.symm.trans hL) hMd hd htail
    rw [hM₀, List.append_assoc] at hsplit
    have hsolid := hfield.no_space_behind hquote hquoteSpace hquoteSep hsplit ' '
      (List.mem_append_left _ (by simp))
    cases hsolid
  obtain ⟨spelled, -, hlead, -⟩ := hat
  cases shown with
  | assigned => exact hshown rfl
  | doubleQuoted =>
    refine hquoted '"' (before ++ ('"' :: spelled)) rfl rfl (by decide) ?_
    rw [hlead, List.append_assoc]
    rfl
  | singleQuoted =>
    refine hquoted '\'' (before ++ ('\'' :: spelled)) rfl rfl (by decide) ?_
    rw [hlead, List.append_assoc]
    rfl
  | bearer =>
    have hLfront : L = (before ++ spelled ++ ": Bearer".toList) ++ [' '] := by
      rw [hlead, List.append_assoc, List.append_assoc]
      rfl
    have htail : ∀ x ∈ [' '], tokenChar x = false := by
      intro x hx
      rw [List.mem_singleton.mp hx]
      rfl
    obtain ⟨M₀, hM₀, hfront⟩ := longer_end (hLfront.symm.trans hL) hMd hd htail
    have hM₀ne : M₀ ≠ [] := by
      rintro rfl
      rw [hMd, List.nil_append, List.cons.injEq] at hM₀
      rw [hM₀.1] at hd
      cases hd
    have hlast : M₀ = M₀.dropLast ++ ['r'] := by
      have hget := congrArg List.getLast? hfront
      rw [List.getLast?_append_of_ne_nil _ hM₀ne, List.getLast?_eq_some_getLast hM₀ne,
        List.getLast?_append_of_ne_nil _ (by decide)] at hget
      have hr : 'r' = M₀.getLast hM₀ne := Option.some.inj hget
      rw [hr, List.dropLast_append_getLast]
    rw [hM₀, hlast, List.append_assoc, List.append_assoc] at hsplit
    rcases hfield.space_at_separator rfl hsplit with (hr | hr) | hc | hc
    · cases hr
    · rcases hfield.sep_eq with hs | hs <;> rw [hs] at hr <;> cases hr
    · rw [hspace] at hc
      cases hc
    · rcases hfield.sep_eq with hs | hs
      · exact hsep.1 (hc.trans hs)
      · exact hsep.2 (hc.trans hs)

/-! ### Fields with `=` -/

theorem isWord_of_keyLike (py : Tables) {c : Char} (h : keyLike c = true) :
    py.isWord c = decide (c ≠ '-') := by
  have hascii := py.ascii c (toNat_of_keyLike h).1
  rw [Tables.isWord, hascii]
  by_cases hdash : c = '-'
  · subst hdash
    rfl
  · rw [keyLike, Bool.or_eq_true, decide_eq_true_eq] at h
    rw [decide_eq_true hdash]
    exact h.resolve_right hdash

theorem isWord_ascii (py : Tables) {c : Char} (h : c.toNat < 128) :
    py.isWord c = (c.isAlphanum || decide (c = '_')) := by
  rw [Tables.isWord, py.ascii c h]

theorem spelled_char {c : Char} {word : List Char} (hword : word.all keyLike = true)
    (h : c.toLower ∈ word) : keyLike c = true ∧ fold c = c.toLower := by
  have hlower := List.all_eq_true.mp hword c.toLower h
  have hdifferent : ∀ d : Char, keyLike d.toLower = false → c ≠ d := by
    intro d hd heq
    rw [← heq, hlower] at hd
    cases hd
  have hfold : fold c = c.toLower := by
    rw [fold, if_neg, if_neg (hdifferent _ (by decide)), if_neg (hdifferent _ (by decide))]
    rintro (heq | heq)
    · exact hdifferent _ (by decide) heq
    · exact hdifferent _ (by decide) heq
  refine ⟨?_, hfold⟩
  have htoken := fold_eq hlower hfold
  simp only [tokenChar, Bool.or_eq_true, decide_eq_true_eq] at htoken
  rcases htoken with (((hkey | hc) | hc) | hc) | hc
  · exact hkey
  all_goals exact absurd hc (hdifferent _ (by decide))

/-- A name in some case: its letters, all of them of words, are those of the pattern. -/
theorem assigned_name (py : Tables) {name : List Char}
    (h : name.map Char.toLower = Shown.assigned.field) :
    name.length = 7 ∧ name.map fold = "api_key".toList ∧
      ∀ c ∈ name, keyLike c = true ∧ py.isWord c = true := by
  have hfield : Shown.assigned.field.all keyLike = true := by decide
  have hchar : ∀ c ∈ name, keyLike c = true ∧ fold c = c.toLower := by
    intro c hc
    exact spelled_char hfield (h ▸ List.mem_map_of_mem hc)
  refine ⟨?_, ?_, ?_⟩
  · have hlength := congrArg List.length h
    rwa [List.length_map] at hlength
  · rw [← show name.map Char.toLower = "api_key".toList from h]
    exact List.map_congr_left fun c hc => (hchar c hc).2
  · intro c hc
    refine ⟨(hchar c hc).1, ?_⟩
    rw [isWord_of_keyLike py (hchar c hc).1, decide_eq_true_eq]
    rintro rfl
    have hmem : Char.toLower '-' ∈ Shown.assigned.field := h ▸ List.mem_map_of_mem hc
    exact absurd hmem (by decide)

/-- No field's name begins inside a word. -/
theorem skipAfter_of_word {py : Tables} {prev : Option Char} {word : List Char}
    (hprev : prev.any py.isWord = true) (hword : ∀ c ∈ word, py.isWord c = true)
    (rest : List Char) : skipAfter (secretKv py) 0 prev word rest = 0 := by
  induction word generalizing prev with
  | nil => rfl
  | cons c cs ih =>
    have hc := hword c List.mem_cons_self
    have hnone : secretKv py prev (c :: cs ++ rest) = none := by
      unfold secretKv
      rw [if_neg]
      rw [List.cons_append, List.head?_cons, Tables.boundary, hprev, Option.any_some, hc]
      decide
    rw [skipAfter, hnone]
    exact ih hc fun d hd => hword d (List.mem_cons_of_mem c hd)

/-- A name at the beginning of a word is a field's. -/
theorem secretKv_of_name {py : Tables} {prev : Option Char} {name : List Char}
    (hprev : prev.any py.isWord = false) (hname : name.map Char.toLower = Shown.assigned.field)
    {v R : List Char} (hkey : ∀ c ∈ v, keyLike c = true) (hne : v ≠ []) :
    (secretKv py prev (name ++ ('=' :: (v ++ R)))).isSome = true := by
  obtain ⟨hlength, hfold, hword⟩ := assigned_name py hname
  obtain ⟨c, cs, hv⟩ := List.exists_cons_of_ne_nil hne
  obtain ⟨hspace, -⟩ := shown_keyLike hkey hv
  have hnameNe : name ≠ [] := by
    intro hnil
    rw [hnil] at hlength
    cases hlength
  obtain ⟨n, ns, hns⟩ := List.exists_cons_of_ne_nil hnameNe
  have hbegin : py.boundary prev (name ++ ('=' :: (v ++ R))).head? = true := by
    rw [hns, List.cons_append, List.head?_cons, Tables.boundary, hprev, Option.any_some,
      (hword n (by rw [hns]; exact List.mem_cons_self)).2]
    rfl
  have hend : py.boundary name.getLast? ('=' :: (v ++ R)).head? = true := by
    rw [List.head?_cons, Tables.boundary, List.getLast?_eq_some_getLast hnameNe,
      Option.any_some, Option.any_some, (hword _ (List.getLast_mem hnameNe)).2,
      isWord_ascii py (by decide)]
    rfl
  have hvalue : ((('=' :: (v ++ R)).drop 1).dropWhile isSpace).takeWhile
      (fun c => !isSpace c) ≠ [] := by
    rw [List.drop_one, List.tail_cons, hv, List.cons_append, List.dropWhile_cons_of_neg
      (by rw [hspace]; exact Bool.false_ne_true), List.takeWhile_cons, hspace]
    exact List.cons_ne_nil c _
  unfold secretKv
  rw [if_pos hbegin, List.findSome?_isSome_iff]
  refine ⟨"api_key".toList, by decide, ?_⟩
  have htake : (name ++ ('=' :: (v ++ R))).take "api_key".toList.length = name := by
    rw [show "api_key".toList.length = name.length from hlength.symm, List.take_left]
  have hdrop : (name ++ ('=' :: (v ++ R))).drop "api_key".toList.length = '=' :: (v ++ R) := by
    rw [show "api_key".toList.length = name.length from hlength.symm, List.drop_left]
  have hspelled : spelledAt "api_key".toList (name ++ ('=' :: (v ++ R))) = true := by
    rw [spelledAt, htake, decide_eq_true_eq]
    exact hfold
  rw [if_pos hspelled, Option.isSome_map, htake, hdrop]
  unfold valueLength
  rw [if_pos hend]
  have hequals : isSpace '=' = false := rfl
  rw [List.dropWhile_cons_of_neg (by rw [hequals]; exact Bool.false_ne_true)]
  dsimp only
  rw [if_pos ⟨Or.inl rfl, hvalue⟩]
  rfl

/-- What is taken of a text without spaces is taken to the end of it. -/
theorem taken_past {solid : List Char} {k : Nat} {d : Char} {ds : List Char}
    (hsolid : ∀ c ∈ solid, isSpace c = false) (hd : isSpace d = false)
    (hend : AtSpace ((solid ++ (d :: ds)).drop k)) : solid.length < k := by
  by_contra hle
  have hle' : k ≤ solid.length := Nat.le_of_not_lt hle
  rw [List.drop_append_of_le_length hle'] at hend
  cases hdrop : solid.drop k with
  | nil =>
    rw [hdrop] at hend
    rw [hend d rfl] at hd
    cases hd
  | cons c cs =>
    rw [hdrop] at hend
    have hc := hsolid c (List.mem_of_mem_drop (by rw [hdrop]; exact List.mem_cons_self))
    rw [hend c rfl] at hc
    cases hc

theorem inside_assigned_iff {py : Tables} {before name v R : List Char}
    (hname : name.map Char.toLower = Shown.assigned.field) (hkey : ∀ c ∈ v, keyLike c = true)
    (hne : v ≠ []) :
    Inside (secretKv py) (before ++ (name ++ ['='])) (v ++ R) ↔
      before.getLast?.any py.isWord = false ∨
        Inside (secretKv py) before (name ++ ('=' :: (v ++ R))) := by
  obtain ⟨hlength, -, hword⟩ := assigned_name py hname
  obtain ⟨d, ds, hv⟩ := List.exists_cons_of_ne_nil hne
  obtain ⟨hspace, -⟩ := shown_keyLike hkey hv
  have hsolid : ∀ c ∈ name ++ ['='], isSpace c = false := by
    intro c hc
    rcases List.mem_append.mp hc with hc | hc
    · exact isSpace_eq_false (tokenChar_of_keyLike (hword c hc).1)
    · rw [List.mem_singleton.mp hc]
      rfl
  have hrest : (name ++ ['=']) ++ (v ++ R) = name ++ ('=' :: (v ++ R)) := by
    rw [List.append_assoc, List.singleton_append]
  have hlast : lastOr none before = before.getLast? := by
    rw [lastOr]
    cases before.getLast? <;> rfl
  unfold Inside
  rw [skipAfter_append, hrest, hlast]
  cases hskip : skipAfter (secretKv py) 0 none before (name ++ ('=' :: (v ++ R))) with
  | succ k =>
    have hin : 0 < skipAfter (secretKv py) 0 none before (name ++ ('=' :: (v ++ R))) := by
      rw [hskip]
      exact Nat.succ_pos k
    have hend := end_of_skip (ends_secretKv py) hin
    rw [hskip, ← hrest, hv, List.cons_append] at hend
    have hlong := taken_past hsolid hspace hend
    rw [skipAfter_of_le (Nat.le_of_lt hlong)]
    exact iff_of_true (Nat.sub_pos_of_lt hlong) (Or.inr (Nat.succ_pos k))
  | zero =>
    by_cases hprev : before.getLast?.any py.isWord = false
    · have hsome := secretKv_of_name (R := R) hprev hname hkey hne
      obtain ⟨⟨keep, length⟩, hhit⟩ := Option.isSome_iff_exists.mp hsome
      have hend := ends_secretKv py _ _ _ _ hhit
      rw [← hrest, hv, List.cons_append] at hend
      have hlong := taken_past hsolid hspace hend
      refine iff_of_true ?_ (Or.inl hprev)
      obtain ⟨n, ns, hns⟩ : ∃ n ns, name ++ ['='] = n :: ns :=
        List.exists_cons_of_ne_nil (List.append_ne_nil_of_right_ne_nil name (by decide))
      rw [hns, List.cons_append] at hrest
      rw [hns, List.length_cons] at hlong
      rw [hns, skipAfter, List.cons_append, hrest, hhit]
      simp only
      rw [skipAfter_of_le (by omega)]
      omega
    · rw [Bool.not_eq_false] at hprev
      have hzero : skipAfter (secretKv py) 0 before.getLast? (name ++ ['=']) (v ++ R) = 0 := by
        rw [skipAfter_append, skipAfter_of_word hprev (fun c hc => (hword c hc).2), skipAfter,
          List.singleton_append, secretKv_eq_none (by decide)]
        rfl
      rw [hzero]
      refine iff_of_false (Nat.lt_irrefl 0) ?_
      rintro (h | h)
      · rw [hprev] at h
        cases h
      · exact absurd h (Nat.lt_irrefl 0)

/-- The places of a shown credential that the first pattern takes. -/
theorem inside_iff {py : Tables} {shown : Shown} {before v L R : List Char}
    (hkey : ∀ c ∈ v, keyLike c = true) (hne : v ≠ []) (hat : shown.At before L R) :
    Inside (secretKv py) L (v ++ R) ↔ InField py v L R := by
  constructor
  · intro hin
    by_cases hshown : shown = .assigned
    · subst hshown
      obtain ⟨name, hname, hL, -⟩ := hat
      have hL' : L = before ++ (name ++ ['=']) := hL
      rw [hL'] at hin
      exact ⟨before, name, hname, hL', (inside_assigned_iff hname hkey hne).mp hin⟩
    · exact absurd hin (not_inside_of_at hshown hkey hne hat)
  · rintro ⟨before', name, hname, hL, htaken⟩
    rw [hL]
    exact (inside_assigned_iff hname hkey hne).mpr htaken

/-! ## 3. Words with a mark -/

/-- A mark in `v`, which the character before `v` may keep from its start. -/
def MarkFrom (py : Tables) (prev : Option Char) (v R : List Char) : Prop :=
  ∃ p mark q, v = p ++ (mark ++ ('-' :: q)) ∧ q ≠ [] ∧ mark.map fold ∈ tokenMarks ∧
    (lastOr prev p).any py.isWord = false ∧ 6 ≤ ((q ++ R).takeWhile tokenChar).length

theorem fenced_token : Fenced (fun c => keyLike c = true) redactedToken :=
  ⟨⟨'<', "redacted>".toList, rfl, by decide⟩, ⟨"<redacted".toList, '>', rfl, by decide⟩⟩

theorem fenced_field : Fenced (fun c => keyLike c = true) redactedField :=
  ⟨⟨'=', "<redacted>".toList, rfl, by decide⟩, ⟨"=<redacted".toList, '>', rfl, by decide⟩⟩

theorem secretToken_of_mark {py : Tables} {prev : Option Char} {mark q R : List Char}
    (hprev : prev.any py.isWord = false) (hkey : ∀ c ∈ mark, keyLike c = true)
    (hmark : mark.map fold ∈ tokenMarks)
    (hlong : 6 ≤ ((q ++ R).takeWhile tokenChar).length) :
    (secretToken py prev (mark ++ ('-' :: q) ++ R)).isSome = true := by
  obtain ⟨hne, hdash, -⟩ := mark_chars hmark
  obtain ⟨c, cs, hcons⟩ := List.exists_cons_of_ne_nil hne
  have hc : py.isWord c = true := by
    rw [isWord_of_keyLike py (hkey c (by rw [hcons]; exact List.mem_cons_self)),
      decide_eq_true_eq]
    rintro rfl
    exact hdash (by rw [hcons]; exact List.mem_cons_self)
  have hbegin : py.boundary prev (mark ++ ('-' :: q) ++ R).head? = true := by
    rw [hcons, List.cons_append, List.cons_append, List.head?_cons, Tables.boundary, hprev,
      Option.any_some, hc]
    rfl
  unfold secretToken
  rw [if_pos hbegin, List.findSome?_isSome_iff]
  refine ⟨mark.map fold, hmark, ?_⟩
  have htext : mark ++ ('-' :: q) ++ R = mark ++ ('-' :: (q ++ R)) := by
    rw [List.append_assoc, List.cons_append]
  have hspelled : spelledAt (mark.map fold) (mark ++ ('-' :: q) ++ R) = true := by
    rw [spelledAt, List.length_map, htext, List.take_left, decide_eq_true_eq]
  rw [if_pos hspelled, List.length_map, htext, List.drop_left]
  change (if 6 ≤ ((q ++ R).takeWhile tokenChar).length then
    some (mark.length + 1, mark.length + 1 + ((q ++ R).takeWhile tokenChar).length)
    else none).isSome = true
  rw [if_pos hlong]
  rfl

/-- What a scan puts out at the start of a word of the kind: the word itself, unless it has a
mark. -/
theorem kept_iff {py : Tables} {prev : Option Char} {v R : List Char}
    (hkey : ∀ c ∈ v, keyLike c = true) :
    v <+: subFrom (secretToken py) redactedToken 0 prev (v ++ R) ↔ ¬ MarkFrom py prev v R := by
  induction v generalizing prev with
  | nil =>
    refine iff_of_true List.nil_prefix ?_
    rintro ⟨p, mark, q, hv, -⟩
    have hlength := congrArg List.length hv
    simp only [List.length_append, List.length_cons, List.length_nil] at hlength
    omega
  | cons c v ih =>
    have ih' := @ih (some c) fun d hd => hkey d (List.mem_cons_of_mem c hd)
    rw [List.cons_append, subFrom]
    cases hm : secretToken py prev (c :: (v ++ R)) with
    | none =>
      simp only
      rw [List.cons_prefix_cons, and_iff_right rfl, ih', not_iff_not]
      constructor
      · rintro ⟨p, mark, q, hv, hq, hmark, hword, hlong⟩
        refine ⟨c :: p, mark, q, by rw [hv, List.cons_append], hq, hmark, ?_, hlong⟩
        rw [lastOr_cons]
        exact hword
      · rintro ⟨p, mark, q, hv, hq, hmark, hword, hlong⟩
        cases p with
        | nil =>
          -- a mark at the start would have been a match
          have hmarkKey : ∀ d ∈ mark, keyLike d = true := by
            intro d hd
            apply hkey
            rw [hv]
            exact List.mem_append_right [] (List.mem_append_left _ hd)
          have hsome := secretToken_of_mark (R := R) hword hmarkKey hmark hlong
          rw [← List.nil_append (mark ++ ('-' :: q)), ← hv, List.cons_append] at hsome
          change (secretToken py prev (c :: (v ++ R))).isSome = true at hsome
          rw [hm] at hsome
          cases hsome
        | cons d p =>
          rw [List.cons_append, List.cons.injEq] at hv
          refine ⟨p, mark, q, hv.2, hq, hmark, ?_, hlong⟩
          rw [lastOr_cons, ← hv.1] at hword
          exact hword
    | some hit =>
      obtain ⟨keep, length⟩ := hit
      obtain ⟨hboundary, mark, token, rest, hmatch, rfl, rfl⟩ := secretToken_spec hm
      obtain ⟨hmarkNe, hdash, -⟩ := mark_chars hmatch.is_mark
      simp only
      rw [hmatch.take_eq]
      constructor
      · rintro hout ⟨p, mark', q, hv, hq, -⟩
        have hfront : c :: v <+: mark ++ ['-'] := by
          obtain ⟨a, w, ha, hKa⟩ := fenced_token.first
          rw [ha] at hout
          exact prefix_of_append_fence (K := fun x => keyLike x = true) hKa hkey hout
        obtain ⟨z, hz⟩ := hfront
        have hsplit : mark ++ ['-'] = (p ++ mark') ++ '-' :: (q ++ z) := by
          rw [← hz, hv]
          simp only [List.append_assoc, List.cons_append]
        obtain ⟨A, -, hA⟩ := behind_of_not_mem hsplit hdash
        have hlength := congrArg List.length hA
        simp only [List.length_append, List.length_cons, List.length_nil] at hlength
        exact hq (List.length_eq_zero_iff.mp (by omega))
      · intro hunmarked
        have hpre : c :: v <+: c :: (v ++ R) := ⟨R, rfl⟩
        have hpre' : mark ++ ['-'] <+: c :: (v ++ R) := by
          refine ⟨token ++ rest, ?_⟩
          rw [hmatch.text, List.append_assoc, List.singleton_append]
        rcases List.prefix_or_prefix_of_prefix hpre hpre' with hshort | ⟨q, hq⟩
        · exact hshort.trans ((List.prefix_append _ _).trans (List.prefix_append _ _))
        · cases q with
          | nil =>
            rw [List.append_nil] at hq
            rw [hq, List.append_assoc]
            exact List.prefix_append _ _
          | cons d q =>
            refine absurd ⟨[], mark, d :: q, ?_, List.cons_ne_nil d q, hmatch.is_mark, ?_, ?_⟩
              hunmarked
            · rw [← hq, List.append_assoc, List.singleton_append, List.nil_append]
            · obtain ⟨n, ns, hns⟩ := List.exists_cons_of_ne_nil hmarkNe
              rw [hns, List.cons_append, List.cons_append, List.cons.injEq] at hq
              have hn : n ≠ '-' := by
                rintro rfl
                exact hdash (by rw [hns]; exact List.mem_cons_self)
              have hc : py.isWord c = true := by
                rw [isWord_of_keyLike py (hkey c List.mem_cons_self), ← hq.1]
                exact decide_eq_true hn
              rw [List.head?_cons, Tables.boundary, Option.any_some, hc] at hboundary
              change prev.any py.isWord = false
              simpa using hboundary
            · have htext := hmatch.text
              rw [← List.cons_append, ← hq, List.append_assoc, List.append_assoc,
                List.append_cancel_left_eq, List.singleton_append, List.cons.injEq] at htext
              rw [htext.2, hmatch.run]
              exact hmatch.long

theorem dash_of_markInside {v R : List Char} (h : MarkInside v R) : '-' ∈ v := by
  obtain ⟨p, mark, q, hv, -⟩ := h
  rw [hv]
  exact List.mem_append_right p (List.mem_append_right mark List.mem_cons_self)

theorem markFrom_iff {py : Tables} {e : Char} (he : py.isWord e = false) {v R : List Char}
    (hkey : ∀ c ∈ v, keyLike c = true) : MarkFrom py (some e) v R ↔ MarkInside v R := by
  have hstart : ∀ p : List Char, (∀ c ∈ p, keyLike c = true) →
      ((lastOr (some e) p).any py.isWord = false ↔ p = [] ∨ p.getLast? = some '-') := by
    intro p hp
    cases hlast : p.getLast? with
    | none =>
      have hnil : p = [] := List.getLast?_eq_none_iff.mp hlast
      rw [lastOr, hlast]
      exact iff_of_true he (Or.inl hnil)
    | some c =>
      have hne : p ≠ [] := by
        rintro rfl
        cases hlast
      rw [lastOr, hlast, Option.some_or, Option.any_some,
        isWord_of_keyLike py (hp c (List.mem_of_getLast? hlast)), decide_eq_false_iff_not,
        not_not, or_iff_right hne, Option.some.injEq]
  constructor
  · rintro ⟨p, mark, q, hv, hq, hmark, hword, hlong⟩
    have hp : ∀ c ∈ p, keyLike c = true := fun c hc =>
      hkey c (by rw [hv]; exact List.mem_append_left _ hc)
    exact ⟨p, mark, q, hv, hq, hmark, (hstart p hp).mp hword, hlong⟩
  · rintro ⟨p, mark, q, hv, hq, hmark, hword, hlong⟩
    have hp : ∀ c ∈ p, keyLike c = true := fun c hc =>
      hkey c (by rw [hv]; exact List.mem_append_left _ hc)
    exact ⟨p, mark, q, hv, hq, hmark, (hstart p hp).mpr hword, hlong⟩

/-- A word behind a character of no word and no token is kept, unless it has a mark. -/
theorem kept_of_unmarked {py : Tables} {e : Char} (htoken : tokenChar e = false)
    (hword : py.isWord e = false) {w : List Char} (hkey : ∀ c ∈ w, keyLike c = true)
    {L₀ R : List Char} (hunmarked : ¬ MarkInside w R) :
    w <:+: sub (secretToken py) redactedToken ((L₀ ++ [e]) ++ (w ++ R)) := by
  rw [sub, subFrom_append, skipAfter_secretToken htoken, lastOr_concat]
  have hkept : w <+: subFrom (secretToken py) redactedToken 0 (some e) (w ++ R) := by
    rw [kept_iff hkey, markFrom_iff hword hkey]
    exact hunmarked
  exact hkept.isInfix.trans (List.suffix_append _ _).isInfix

/-! ## 4. What is left of a credential -/

/-- The end of what stands before a credential. -/
theorem lead_last (py : Tables) (shown : Shown) (name : List Char) :
    ∃ front e, shown.lead name = front ++ [e] ∧ tokenChar e = false ∧ py.isWord e = false := by
  cases shown with
  | assigned => exact ⟨name, '=', rfl, rfl, by rw [isWord_ascii py (by decide)]; rfl⟩
  | bearer =>
    refine ⟨name ++ ": Bearer".toList, ' ', ?_, rfl, by rw [isWord_ascii py (by decide)]; rfl⟩
    rw [List.append_assoc]
    rfl
  | doubleQuoted =>
    refine ⟨'"' :: name ++ "\": ".toList, '"', ?_, rfl, by rw [isWord_ascii py (by decide)]; rfl⟩
    rw [List.append_assoc]
    rfl
  | singleQuoted =>
    refine ⟨'\'' :: name ++ "': ".toList, '\'', ?_, rfl, by
      rw [isWord_ascii py (by decide)]; rfl⟩
    rw [List.append_assoc]
    rfl

/-- What the first pass puts out up to a place that it does not take. -/
theorem outOf_place {py : Tables} {shown : Shown} {before v L R : List Char}
    (hkey : ∀ c ∈ v, keyLike c = true) (hne : v ≠ []) (hat : shown.At before L R)
    (hzero : skipAfter (secretKv py) 0 none L (v ++ R) = 0) :
    ∃ front e, outOf (secretKv py) redactedField 0 none L (v ++ R) = front ++ [e] ∧
      L.getLast? = some e ∧ tokenChar e = false ∧ py.isWord e = false := by
  obtain ⟨name, -, hL, -⟩ := hat
  obtain ⟨front, e, hlead, htoken, hword⟩ := lead_last py shown name
  obtain ⟨c, cs, hv⟩ := List.exists_cons_of_ne_nil hne
  obtain ⟨hspace, -⟩ := shown_keyLike hkey hv
  have hL' : L = (before ++ front) ++ [e] := by rw [hL, hlead, List.append_assoc]
  have hend : ¬ AtSpace (v ++ R) := by
    intro hend
    rw [hend c (by rw [hv]; rfl)] at hspace
    cases hspace
  rw [hL'] at hzero ⊢
  refine ⟨_, e, last_of_outOf (ends_secretKv py) (fun prev => secretKv_eq_none htoken prev _)
    hend hzero, List.getLast?_concat, htoken, hword⟩

/-- A mark is inside `v` as it was, whatever the first pass does behind `v`. -/
theorem markInside_congr {v R R' : List Char}
    (h : R.takeWhile tokenChar = R'.takeWhile tokenChar) (hkey : ∀ c ∈ v, keyLike c = true) :
    MarkInside v R ↔ MarkInside v R' := by
  have hrun : ∀ q : List Char, (∀ c ∈ q, c ∈ v) →
      (q ++ R).takeWhile tokenChar = (q ++ R').takeWhile tokenChar := by
    intro q hq
    have htoken : ∀ c ∈ q, tokenChar c = true := fun c hc =>
      tokenChar_of_keyLike (hkey c (hq c hc))
    rw [List.takeWhile_append_of_pos htoken, List.takeWhile_append_of_pos htoken, h]
  have hpart : ∀ p mark q : List Char, v = p ++ (mark ++ ('-' :: q)) → ∀ c ∈ q, c ∈ v := by
    intro p mark q hv c hc
    rw [hv]
    exact List.mem_append_right p (List.mem_append_right mark (List.mem_cons_of_mem '-' hc))
  constructor
  · rintro ⟨p, mark, q, hv, hq, hmark, hp, hlong⟩
    exact ⟨p, mark, q, hv, hq, hmark, hp, by rwa [← hrun q (hpart p mark q hv)]⟩
  · rintro ⟨p, mark, q, hv, hq, hmark, hp, hlong⟩
    exact ⟨p, mark, q, hv, hq, hmark, hp, by rwa [hrun q (hpart p mark q hv)]⟩

theorem takeWhile_behind {py : Tables} {prev : Option Char} {v R R₁ : List Char}
    (hkey : ∀ c ∈ v, keyLike c = true)
    (h : subFrom (secretKv py) redactedField 0 prev (v ++ R) = v ++ R₁) :
    R₁.takeWhile tokenChar = R.takeWhile tokenChar := by
  have htoken : ∀ c ∈ v, tokenChar c = true := fun c hc => tokenChar_of_keyLike (hkey c hc)
  have hrun : (subFrom (secretKv py) redactedField 0 prev (v ++ R)).takeWhile tokenChar =
      (v ++ R).takeWhile tokenChar :=
    takeWhile_subFrom takeWhile_secretKv ⟨'=', "<redacted>".toList, rfl, rfl⟩ prev (v ++ R)
  rw [h, List.takeWhile_append_of_pos htoken, List.takeWhile_append_of_pos htoken] at hrun
  exact List.append_cancel_left hrun

/-- A credential with no mark, at a place that the first pass does not take, stays. -/
theorem stays {py : Tables} {shown : Shown} {before v L R : List Char}
    (hkey : ∀ c ∈ v, keyLike c = true) (hne : v ≠ []) (hat : shown.At before L R)
    (hfield : ¬ InField py v L R) (hmark : ¬ MarkInside v R) :
    v <:+: sub (secretToken py) redactedToken
      (sub (secretKv py) redactedField (L ++ (v ++ R))) := by
  have hzero : skipAfter (secretKv py) 0 none L (v ++ R) = 0 := by
    rw [← inside_iff hkey hne hat, Inside, Nat.not_lt, Nat.le_zero] at hfield
    exact hfield
  obtain ⟨front, e, hout, hlast, htoken, hword⟩ := outOf_place hkey hne hat hzero
  have hrun : (subFrom (secretKv py) redactedField 0 (lastOr none L) (v ++ R)).takeWhile
      tokenChar = (v ++ R).takeWhile tokenChar :=
    takeWhile_subFrom takeWhile_secretKv ⟨'=', "<redacted>".toList, rfl, rfl⟩ _ (v ++ R)
  rw [List.takeWhile_append_of_pos fun c hc => tokenChar_of_keyLike (hkey c hc)] at hrun
  have hpre : v <+: subFrom (secretKv py) redactedField 0 (lastOr none L) (v ++ R) :=
    (hrun ▸ List.prefix_append v _).trans (List.takeWhile_prefix tokenChar)
  obtain ⟨R₁, hR₁⟩ := hpre
  rw [markInside_congr (takeWhile_behind hkey hR₁.symm).symm hkey] at hmark
  have hpass : sub (secretKv py) redactedField (L ++ (v ++ R)) =
      (front ++ [e]) ++ (v ++ R₁) := by
    rw [sub, subFrom_append, hzero, hout, ← hR₁]
  rw [hpass]
  exact kept_of_unmarked htoken hword hkey hmark

/-- What is in neither insert. -/
theorem not_infix_inserts {v : List Char} (hkey : ∀ c ∈ v, keyLike c = true) (hne : v ≠ [])
    (h : ¬ v <:+: "redacted".toList) : ¬ v <:+: redactedToken ∧ ¬ v <:+: redactedField := by
  obtain ⟨c, cs, hv⟩ := List.exists_cons_of_ne_nil hne
  have hc := hkey c (by rw [hv]; exact List.mem_cons_self)
  have hopen : ∀ {a : Char} {w : List Char}, keyLike a = false → ¬ v <+: a :: w := by
    intro a w ha hpre
    rw [hv, List.cons_prefix_cons] at hpre
    rw [hpre.1, ha] at hc
    cases hc
  have hbody : ¬ v <:+: "redacted>".toList := by
    intro hin
    rw [show "redacted>".toList = "redacted".toList ++ ['>'] from rfl,
      List.infix_concat_iff] at hin
    rcases hin with hsuffix | hin
    · obtain ⟨w, hw⟩ := hsuffix
      have hlast := congrArg List.getLast? hw
      rw [List.getLast?_append_of_ne_nil _ hne, List.getLast?_concat] at hlast
      have hclose := hkey '>' (List.mem_of_getLast? hlast)
      cases hclose
    · exact h hin
  have htoken : ¬ v <:+: redactedToken := by
    intro hin
    rcases List.infix_cons_iff.mp hin with hpre | hin
    · exact hopen rfl hpre
    · exact hbody hin
  refine ⟨htoken, ?_⟩
  intro hin
  rcases List.infix_cons_iff.mp hin with hpre | hin
  · exact hopen rfl hpre
  · exact htoken hin

/-- A word that both passes leave was in the message, at a place that neither takes. -/
theorem exists_place {py : Tables} {v s : List Char} (hkey : ∀ c ∈ v, keyLike c = true)
    (hne : v ≠ []) (hshown : ShownOnly v s) (hins : ¬ v <:+: "redacted".toList)
    (h : v <:+: sub (secretToken py) redactedToken (sub (secretKv py) redactedField s)) :
    ∃ L R, s = L ++ (v ++ R) ∧ ¬ InField py v L R ∧ ¬ MarkInside v R := by
  obtain ⟨hinsToken, hinsField⟩ := not_infix_inserts hkey hne hins
  obtain ⟨X, Y, hXY⟩ := h
  rw [List.append_assoc] at hXY
  obtain ⟨L₁, R₁, hs₁, hwhere₁⟩ :=
    exists_of_subFrom_eq (keeps_secretToken py) fenced_token hkey hne hinsToken hXY.symm
  obtain ⟨L, R, hs, hwhere⟩ :=
    exists_of_subFrom_eq (keeps_secretKv py) fenced_field hkey hne hinsField hs₁
  obtain ⟨shown, before, hat⟩ := hshown.2 L R hs
  rcases hwhere with ⟨hzero, hL₁, hout⟩ | ⟨l, hl, htoken⟩
  · obtain ⟨front, e, hfront, hlast, htoken, hword⟩ := outOf_place hkey hne hat hzero
    rw [hfront] at hL₁
    refine ⟨L, R, hs, ?_, ?_⟩
    · rw [← inside_iff hkey hne hat, Inside, hzero]
      exact Nat.lt_irrefl 0
    · rw [← markInside_congr (takeWhile_behind hkey hout) hkey]
      rcases hwhere₁ with ⟨hzero₁, -, hout₁⟩ | ⟨l, hl, hl'⟩
      · rw [← markFrom_iff hword hkey, ← kept_iff hkey]
        rw [hL₁, lastOr_concat] at hout₁
        rw [hout₁]
        exact List.prefix_append v Y
      · rw [hL₁, List.getLast?_concat, Option.some.injEq] at hl
        rw [hl, hl'] at htoken
        cases htoken
  · -- what stands before a shown credential is of no token
    obtain ⟨name, -, hL, -⟩ := hat
    obtain ⟨front, e, hlead, hnone, -⟩ := lead_last py shown name
    rw [hL, hlead, ← List.append_assoc, List.getLast?_concat, Option.some.injEq] at hl
    rw [hl, htoken] at hnone
    cases hnone

/-- **A shown credential is gone** exactly when it is no part of the word that is put in, and
each of its places is a field that the first pass takes, or has a mark of a token inside. -/
theorem not_infix_redactSecrets_iff {py : Tables} {v : List Char} {s : String}
    (hkey : ∀ c ∈ v, keyLike c = true) (hne : v ≠ []) (hshown : ShownOnly v s.toList) :
    ¬ v <:+: (redactSecrets py (some s)).toList ↔
      ¬ v <:+: "redacted".toList ∧
        ∀ L R, s.toList = L ++ (v ++ R) → InField py v L R ∨ MarkInside v R := by
  rw [redactSecrets, String.toList_ofList]
  constructor
  · intro hgone
    have hplaces : ∀ L R, s.toList = L ++ (v ++ R) → InField py v L R ∨ MarkInside v R := by
      intro L R hs
      by_contra hneither
      rw [not_or] at hneither
      obtain ⟨shown, before, hat⟩ := hshown.2 L R hs
      rw [hs] at hgone
      exact hgone (stays hkey hne hat hneither.1 hneither.2)
    refine ⟨?_, hplaces⟩
    intro hword
    obtain ⟨L, R, hs⟩ := hshown.1
    rw [List.append_assoc] at hs
    obtain ⟨shown, before, hat⟩ := hshown.2 L R hs.symm
    rcases hplaces L R hs.symm with hfield | hmark
    · -- the insert of the first pass is itself kept by the second
      rw [← inside_iff hkey hne hat] at hfield
      obtain ⟨A, B, hout⟩ := @insert_of_skip _ _ redactedField _ _ _ hfield
      have hpass : sub (secretKv py) redactedField s.toList =
          ((A ++ ['=']) ++ ['<']) ++ ("redacted".toList ++ ('>' :: B)) := by
        rw [sub, ← hs, hout, List.append_assoc, List.append_assoc]
        rfl
      have hnone : ¬ MarkInside "redacted".toList ('>' :: B) := fun hmark =>
        absurd (dash_of_markInside hmark) (by decide)
      apply hgone
      apply hword.trans
      rw [hpass]
      have hkeyWord : ∀ c ∈ "redacted".toList, keyLike c = true :=
        List.all_eq_true.mp (by decide)
      exact kept_of_unmarked rfl (by rw [isWord_ascii py (by decide)]; rfl) hkeyWord hnone
    · exact absurd (hword.subset (dash_of_markInside hmark)) (by decide)
  · rintro ⟨hins, hplaces⟩ hleft
    obtain ⟨L, R, hs, hfield, hmark⟩ := exists_place hkey hne hshown hins hleft
    exact (hplaces L R hs).elim hfield hmark

/-! ### A field and a scheme -/

section

theorem shownOnly_of_lead (shown : Shown) (name : List Char) {cs : List Char} {x : Char}
    (hname : name.map Char.toLower = shown.field) (hclose : shown.close = [])
    (hlead : x ∉ shown.lead name) (hcs : x ∉ cs) :
    ShownOnly (x :: cs) (shown.lead name ++ x :: cs) := by
  refine ⟨(List.suffix_append _ _).isInfix, ?_⟩
  intro L R hs
  obtain ⟨hL, -⟩ := place_unique hlead hcs hs
  refine ⟨shown, [], name, hname, hL, ?_⟩
  rw [hclose]
  exact List.nil_prefix

theorem not_infix_redactSecrets_field :
    ¬ "q7w8e9r0".toList <:+: (redactSecrets asciiTables (some "API_KEY=q7w8e9r0")).toList := by
  have hshown : ShownOnly "q7w8e9r0".toList "API_KEY=q7w8e9r0".toList :=
    shownOnly_of_lead .assigned "API_KEY".toList (by decide) rfl
      (by decide) (by decide)
  have hkey : ∀ c ∈ "q7w8e9r0".toList, keyLike c = true := List.all_eq_true.mp (by decide)
  refine (not_infix_redactSecrets_iff hkey (by decide) hshown).mpr ⟨by decide, ?_⟩
  intro L R hs
  obtain ⟨hL, -⟩ := place_unique (A := "API_KEY=".toList) (by decide) (by decide) hs
  exact Or.inl ⟨[], "API_KEY".toList, by decide, hL, Or.inl rfl⟩

/-- The value of the `Authorization` field is the scheme; what follows it stays. -/
theorem not_redacted_bearer :
    ¬ ∀ (py : Tables) (v : List Char) (s : String), (∀ c ∈ v, keyLike c = true) → v ≠ [] →
      ShownOnly v s.toList → ¬ v <:+: (redactSecrets py (some s)).toList := by
  intro h
  have hshown : ShownOnly "q7w8e9r0".toList "Authorization: Bearer q7w8e9r0".toList :=
    shownOnly_of_lead .bearer "Authorization".toList (by decide) rfl
      (by decide) (by decide)
  have hout : redactSecrets asciiTables (some "Authorization: Bearer q7w8e9r0") =
      "Authorization=<redacted> q7w8e9r0" := by
    decide +kernel
  have hkey : ∀ c ∈ "q7w8e9r0".toList, keyLike c = true := List.all_eq_true.mp (by decide)
  apply h asciiTables _ _ hkey (by decide) hshown
  rw [hout]
  exact ⟨"Authorization=<redacted> ".toList, [], by decide +kernel⟩

end

end TokenProxy.Redaction
