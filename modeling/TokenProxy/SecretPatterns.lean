/-
  TokenProxy/SecretPatterns.lean
  ==============================
  **The two patterns of the redaction of log lines.**

  `secretKv` takes the value of a field (`api_key=…`) up to the next space, `secretToken` a token
  that begins with a mark (`sk-…`) up to its last character; `redactSecrets` replaces the matches
  of the one and then of the other.

  Main results: `secretKv_spec` and `secretToken_spec`, the parts of a match (`FieldMatch`,
  `TokenMatch`), and what the scans need of them (`keeps_…`, `ends_…`, `takeWhile_…`).
-/
import TokenProxy.KeyStore
import TokenProxy.SubScan

namespace TokenProxy.Redaction

open TokenProxy.KeyStore (isSpace)
open TokenProxy.SubScan

/-! ## 1. The two patterns -/

/-- What the patterns read of the character tables. -/
structure Tables where
  isAlnum : Char → Bool
  ascii : ∀ c : Char, c.toNat < 128 → isAlnum c = c.isAlphanum

def asciiTables : Tables where
  isAlnum := Char.isAlphanum
  ascii _ _ := rfl

/-- `\w` -/
def Tables.isWord (py : Tables) (c : Char) : Bool := py.isAlnum c || c = '_'

/-- `\b` between two characters, either of which may be missing. -/
def Tables.boundary (py : Tables) (prev next : Option Char) : Bool :=
  prev.any py.isWord != next.any py.isWord

/-- The letter that a character stands for where case is ignored. -/
def fold (c : Char) : Char :=
  if c = 'İ' ∨ c = 'ı' then 'i'
  else if c = '\u212a' then 'k'
  else if c = 'ſ' then 's'
  else c.toLower

/-- `[A-Za-z0-9_\-]` -/
def keyLike (c : Char) : Bool := c.isAlphanum || c = '_' || c = '-'

/-- `[A-Za-z0-9_\-]` where case is ignored: four more letters have a letter of the class as
their other case. -/
def tokenChar (c : Char) : Bool :=
  keyLike c || c = 'İ' || c = 'ı' || c = '\u212a' || c = 'ſ'

/-- A text begins with a word in some case. -/
def spelledAt (word s : List Char) : Bool := (s.take word.length).map fold = word

/-- `api[_-]?key|authorization|bearer|access[_-]?token|secret|password|base[_-]?url` -/
def fieldNames : List (List Char) :=
  ["api_key".toList, "api-key".toList, "apikey".toList, "authorization".toList,
    "bearer".toList, "access_token".toList, "access-token".toList, "accesstoken".toList,
    "secret".toList, "password".toList, "base_url".toList, "base-url".toList, "baseurl".toList]

section

variable (py : Tables)

/-- The length of `\b\s*[=:]\s*\S+` behind a field's name. -/
def valueLength (last : Option Char) (s : List Char) : Option Nat :=
  if py.boundary last s.head? then
    match s.dropWhile isSpace with
    | sep :: rest =>
      let value := (rest.dropWhile isSpace).takeWhile (fun c => !isSpace c)
      if (sep = '=' ∨ sep = ':') ∧ value ≠ [] then
        some ((s.takeWhile isSpace).length + 1 + (rest.takeWhile isSpace).length + value.length)
      else none
    | [] => none
  else none

/-- `_SECRET_KV_RE`; what is kept is its group. -/
def secretKv : Pattern Char := fun prev s =>
  if py.boundary prev s.head? then
    fieldNames.findSome? fun name =>
      if spelledAt name s then
        (valueLength py (s.take name.length).getLast? (s.drop name.length)).map fun length =>
          (name.length, name.length + length)
      else none
  else none

/-- `sk|tok|rk|pk` -/
def tokenMarks : List (List Char) := ["sk".toList, "tok".toList, "rk".toList, "pk".toList]

/-- `_SECRET_TOKEN_RE`; what is kept is its group and the dash. -/
def secretToken : Pattern Char := fun prev s =>
  if py.boundary prev s.head? then
    tokenMarks.findSome? fun mark =>
      if spelledAt mark s then
        match s.drop mark.length with
        | '-' :: rest =>
          let token := rest.takeWhile tokenChar
          if 6 ≤ token.length then some (mark.length + 1, mark.length + 1 + token.length)
          else none
        | _ => none
      else none
  else none

/-- `f"{m.group(1)}=<redacted>"` and `f"{m.group(1)}-<redacted>"`, behind what is kept. -/
def redactedField : List Char := "=<redacted>".toList
def redactedToken : List Char := "<redacted>".toList

/-- `_redact_secrets`, of the `str(text)` that may fail. -/
def redactSecrets : Option String → String
  | none => "<unprintable>"
  | some s =>
    String.ofList
      (sub (secretToken py) redactedToken (sub (secretKv py) redactedField s.toList))

end

/-! ## 2. Characters -/

theorem isAlphanum_eq (c : Char) :
    c.isAlphanum = ((decide (c.val ≥ 'A'.val ∧ c.val ≤ 'Z'.val) ||
      (decide (c.val ≥ 'a'.val) && decide (c.val ≤ 'z'.val))) ||
        (decide (c.val ≥ '0'.val) && decide (c.val ≤ '9'.val))) := rfl

theorem fold_eq {c d : Char} (hd : keyLike d = true) (h : fold c = d) : tokenChar c = true := by
  unfold fold at h
  unfold tokenChar
  by_cases hi : c = 'İ' ∨ c = 'ı'
  · rcases hi with rfl | rfl <;> rfl
  rw [if_neg hi] at h
  by_cases hk : c = '\u212a'
  · subst hk
    rfl
  rw [if_neg hk] at h
  by_cases hs : c = 'ſ'
  · subst hs
    rfl
  rw [if_neg hs] at h
  have hkey : keyLike c = true := by
    unfold Char.toLower at h
    split at h
    · rename_i hupper
      rw [keyLike, isAlphanum_eq, decide_eq_true hupper]
      rfl
    · rw [h]
      exact hd
  rw [hkey]
  rfl

theorem tokenChar_of_keyLike {c : Char} (h : keyLike c = true) : tokenChar c = true := by
  rw [tokenChar, h]
  rfl

theorem toNat_of_keyLike {c : Char} (h : keyLike c = true) :
    c.toNat < 128 ∧ 45 ≤ c.toNat := by
  simp only [keyLike, isAlphanum_eq, Bool.or_eq_true, Bool.and_eq_true, decide_eq_true_eq] at h
  simp only [Char.toNat, ge_iff_le, UInt32.le_iff_toNat_le] at h ⊢
  rcases h with (((⟨h, h'⟩ | ⟨h, h'⟩) | ⟨h, h'⟩) | rfl) | rfl
  · exact ⟨Nat.lt_of_le_of_lt h' (by decide), Nat.le_trans (by decide) h⟩
  · exact ⟨Nat.lt_of_le_of_lt h' (by decide), Nat.le_trans (by decide) h⟩
  · exact ⟨Nat.lt_of_le_of_lt h' (by decide), Nat.le_trans (by decide) h⟩
  · decide
  · decide

/-- No space is part of a token. -/
theorem isSpace_eq_false {c : Char} (h : tokenChar c = true) : isSpace c = false := by
  simp only [tokenChar, Bool.or_eq_true, decide_eq_true_eq] at h
  rcases h with (((h | rfl) | rfl) | rfl) | rfl
  · obtain ⟨hhigh, hlow⟩ := toNat_of_keyLike h
    simp only [isSpace, Bool.or_eq_false_iff, Bool.and_eq_false_iff, decide_eq_false_iff_not]
    omega
  all_goals rfl

theorem spelledAt_spec {word s : List Char} (h : spelledAt word s = true) :
    ∃ spelled rest, s = spelled ++ rest ∧ spelled.length = word.length ∧
      spelled.map fold = word := by
  have hmap : (s.take word.length).map fold = word := of_decide_eq_true h
  refine ⟨s.take word.length, s.drop word.length, (List.take_append_drop _ _).symm, ?_, hmap⟩
  have hlength := congrArg List.length hmap
  rwa [List.length_map] at hlength

/-! ## 3. Matches of a field -/

/-- The kept part, spaces, a separator, spaces, and a value up to the next space. -/
structure FieldMatch (s name gap : List Char) (sep : Char) (gap' value rest : List Char) :
    Prop where
  text : s = name ++ (gap ++ (sep :: (gap' ++ (value ++ rest))))
  name_ne : name ≠ []
  name_token : ∀ c ∈ name, tokenChar c = true
  gap_space : ∀ c ∈ gap, isSpace c = true
  sep_eq : sep = '=' ∨ sep = ':'
  gap_space' : ∀ c ∈ gap', isSpace c = true
  value_ne : value ≠ []
  value_solid : ∀ c ∈ value, isSpace c = false
  ends : ∀ c, rest.head? = some c → isSpace c = true

theorem fieldNames_keyLike :
    (fieldNames.all fun name => name.all keyLike && !name.isEmpty) = true := by
  decide

theorem valueLength_spec {py : Tables} {last : Option Char} {s : List Char} {length : Nat}
    (h : valueLength py last s = some length) :
    ∃ gap sep gap' value rest, s = gap ++ (sep :: (gap' ++ (value ++ rest))) ∧
      length = gap.length + 1 + gap'.length + value.length ∧
      (∀ c ∈ gap, isSpace c = true) ∧ (sep = '=' ∨ sep = ':') ∧
      (∀ c ∈ gap', isSpace c = true) ∧ value ≠ [] ∧ (∀ c ∈ value, isSpace c = false) ∧
      ∀ c, rest.head? = some c → isSpace c = true := by
  unfold valueLength at h
  split at h
  · split at h
    · rename_i sep rest hs
      dsimp only at h
      split at h
      · rename_i hfits
        obtain ⟨hsep, hvalue⟩ := hfits
        refine ⟨s.takeWhile isSpace, sep, rest.takeWhile isSpace, _,
          (rest.dropWhile isSpace).dropWhile (fun c => !isSpace c), ?_,
          (Option.some.inj h).symm, fun c hc => List.mem_takeWhile_imp hc, hsep,
          fun c hc => List.mem_takeWhile_imp hc, hvalue, ?_, ?_⟩
        · rw [List.takeWhile_append_dropWhile, List.takeWhile_append_dropWhile, ← hs,
            List.takeWhile_append_dropWhile]
        · intro c hc
          have hsolid := List.mem_takeWhile_imp hc
          rwa [Bool.not_eq_true'] at hsolid
        · intro c hc
          have hstop := List.head?_dropWhile_not (fun c => !isSpace c) (rest.dropWhile isSpace)
          rw [hc] at hstop
          simpa using hstop
      · cases h
    · cases h
  · cases h

theorem secretKv_spec {py : Tables} {prev : Option Char} {s : List Char} {keep length : Nat}
    (h : secretKv py prev s = some (keep, length)) :
    ∃ name gap sep gap' value rest, FieldMatch s name gap sep gap' value rest ∧
      keep = name.length ∧
      length = name.length + (gap.length + 1 + gap'.length + value.length) := by
  unfold secretKv at h
  split at h
  · obtain ⟨word, hword, hhit⟩ := List.exists_of_findSome?_eq_some h
    split at hhit
    · rename_i hspelled
      obtain ⟨name, rest, hs, hlength, hfold⟩ := spelledAt_spec hspelled
      obtain ⟨value, hvalue, hkeep⟩ := Option.map_eq_some_iff.mp hhit
      have hwordOk := List.all_eq_true.mp fieldNames_keyLike word hword
      rw [Bool.and_eq_true, List.all_eq_true] at hwordOk
      obtain ⟨hkeyLike, hnonempty⟩ := hwordOk
      obtain ⟨gap, sep, gap', val, rest', hrest, hval, hgap, hsep, hgap', hne, hsolid, hends⟩ :=
        valueLength_spec hvalue
      have hdrop : s.drop word.length = rest := by
        rw [hs, ← hlength, List.drop_left]
      refine ⟨name, gap, sep, gap', val, rest', ⟨?_, ?_, ?_, hgap, hsep, hgap', hne, hsolid,
        hends⟩, ?_, ?_⟩
      · rw [hs, ← hdrop, hrest]
      · intro hnil
        rw [hnil] at hfold
        rw [← hfold] at hnonempty
        cases hnonempty
      · intro c hc
        exact fold_eq (hkeyLike (fold c) (hfold ▸ List.mem_map_of_mem hc)) rfl
      · rw [hlength]
        exact (congrArg Prod.fst hkeep).symm
      · rw [hlength, ← hval]
        exact (congrArg Prod.snd hkeep).symm
    · cases hhit
  · cases h

namespace FieldMatch

variable {s name gap gap' value rest : List Char} {sep : Char}

theorem drop_eq (h : FieldMatch s name gap sep gap' value rest) :
    s.drop (name.length + (gap.length + 1 + gap'.length + value.length)) = rest := by
  have hlength : name.length + (gap.length + 1 + gap'.length + value.length) =
      (name ++ (gap ++ (sep :: (gap' ++ value)))).length := by
    simp only [List.length_append, List.length_cons]
    omega
  have htext : s = (name ++ (gap ++ (sep :: (gap' ++ value)))) ++ rest := by
    rw [h.text]
    simp only [List.append_assoc, List.cons_append]
  rw [hlength, htext, List.drop_left]

theorem take_eq (h : FieldMatch s name gap sep gap' value rest) :
    s.take name.length = name := by
  rw [h.text, List.take_left]

/-- What follows the name is not of a token. -/
theorem takeWhile_eq (h : FieldMatch s name gap sep gap' value rest) :
    s.takeWhile tokenChar = name := by
  rw [h.text, List.takeWhile_append_of_pos h.name_token]
  have hstop : (gap ++ (sep :: (gap' ++ (value ++ rest)))).takeWhile tokenChar = [] := by
    cases hgap : gap with
    | nil =>
      rw [List.nil_append]
      rcases h.sep_eq with hsep | hsep <;> rw [hsep] <;> rfl
    | cons c cs =>
      have hspace := h.gap_space c (by rw [hgap]; exact List.mem_cons_self)
      have htoken : ¬ tokenChar c = true := by
        intro htoken
        rw [isSpace_eq_false htoken] at hspace
        cases hspace
      rw [List.cons_append, List.takeWhile_cons_of_neg htoken]
  rw [hstop, List.append_nil]

theorem length_le (h : FieldMatch s name gap sep gap' value rest) :
    name.length + (gap.length + 1 + gap'.length + value.length) ≤ s.length := by
  rw [h.text]
  simp only [List.length_append, List.length_cons]
  omega

end FieldMatch

theorem keeps_secretKv (py : Tables) : Keeps (secretKv py) (fun c => tokenChar c = true) := by
  intro prev s keep length h
  obtain ⟨name, gap, sep, gap', value, rest, hmatch, rfl, rfl⟩ := secretKv_spec h
  refine ⟨?_, ?_, hmatch.length_le⟩
  · rw [hmatch.take_eq]
    exact hmatch.name_token
  · omega

/-- A field's value goes up to a space or to the end. -/
def AtSpace (rest : List Char) : Prop := ∀ c, rest.head? = some c → isSpace c = true

theorem ends_secretKv (py : Tables) : Ends (secretKv py) AtSpace := by
  intro prev s keep length h
  obtain ⟨name, gap, sep, gap', value, rest, hmatch, rfl, rfl⟩ := secretKv_spec h
  rw [hmatch.drop_eq]
  exact hmatch.ends

theorem takeWhile_secretKv {py : Tables} (prev : Option Char) (s : List Char) (keep length : Nat)
    (h : secretKv py prev s = some (keep, length)) : s.takeWhile tokenChar = s.take keep := by
  obtain ⟨name, gap, sep, gap', value, rest, hmatch, rfl, rfl⟩ := secretKv_spec h
  rw [hmatch.takeWhile_eq, hmatch.take_eq]

/-- A field's name begins with a character of a token. -/
theorem secretKv_eq_none {py : Tables} {e : Char} (he : tokenChar e = false)
    (prev : Option Char) (rest : List Char) : secretKv py prev (e :: rest) = none := by
  cases h : secretKv py prev (e :: rest) with
  | none => rfl
  | some hit =>
    obtain ⟨name, gap, sep, gap', value, rest', hmatch, -, -⟩ := secretKv_spec h
    obtain ⟨c, cs, hname⟩ := List.exists_cons_of_ne_nil hmatch.name_ne
    have hhead := hmatch.text
    rw [hname, List.cons_append, List.cons.injEq] at hhead
    have htoken := hmatch.name_token c (by rw [hname]; exact List.mem_cons_self)
    rw [← hhead.1, he] at htoken
    cases htoken

namespace FieldMatch

variable {s name gap gap' value rest : List Char} {sep : Char}

/-- Behind a character that is no part of a name, a gap or a separator, a match has no space. -/
theorem no_space_behind (h : FieldMatch s name gap sep gap' value rest) {x : Char}
    {A B : List Char} (hx : tokenChar x = false) (hspace : isSpace x = false)
    (hsep : x ≠ '=' ∧ x ≠ ':')
    (hsplit : name ++ (gap ++ (sep :: (gap' ++ value))) = A ++ x :: B) :
    ∀ c ∈ B, isSpace c = false := by
  have hname : x ∉ name := by
    intro hmem
    rw [h.name_token x hmem] at hx
    cases hx
  have hgap : x ∉ gap := by
    intro hmem
    rw [h.gap_space x hmem] at hspace
    cases hspace
  have hgap' : x ∉ gap' := by
    intro hmem
    rw [h.gap_space' x hmem] at hspace
    cases hspace
  obtain ⟨A₁, -, h₁⟩ := behind_of_not_mem hsplit hname
  obtain ⟨A₂, -, h₂⟩ := behind_of_not_mem h₁ hgap
  have hne : x ∉ [sep] := by
    intro hmem
    rcases h.sep_eq with heq | heq
    · exact hsep.1 ((List.mem_singleton.mp hmem).trans heq)
    · exact hsep.2 ((List.mem_singleton.mp hmem).trans heq)
  obtain ⟨A₃, -, h₃⟩ := behind_of_not_mem (P := [sep]) h₂ hne
  obtain ⟨A₄, -, h₄⟩ := behind_of_not_mem h₃ hgap'
  intro c hc
  apply h.value_solid
  rw [h₄]
  exact List.mem_append_right A₄ (List.mem_cons_of_mem x hc)

/-- A space in a match is next to a space or to the separator. -/
theorem space_at_separator (h : FieldMatch s name gap sep gap' value rest) {x y c : Char}
    {A B : List Char} (hc : isSpace c = true)
    (hsplit : name ++ (gap ++ (sep :: (gap' ++ value))) = A ++ x :: c :: y :: B) :
    (isSpace x = true ∨ x = sep) ∨ isSpace y = true ∨ y = sep := by
  have hname : c ∉ name := by
    intro hmem
    rw [isSpace_eq_false (h.name_token c hmem)] at hc
    cases hc
  have hsep : sep ≠ c := by
    intro heq
    rcases h.sep_eq with hsep | hsep <;> rw [← heq, hsep] at hc <;> cases hc
  have hvalue : c ∉ value := by
    intro hmem
    rw [h.value_solid c hmem] at hc
    cases hc
  have hsplit' : name ++ (gap ++ (sep :: (gap' ++ value))) = (A ++ [x]) ++ c :: (y :: B) := by
    rw [hsplit, List.append_assoc, List.singleton_append]
  obtain ⟨A₁, hA₁, h₁⟩ := behind_of_not_mem hsplit' hname
  rcases List.append_eq_append_iff.mp h₁ with ⟨A₂, hA₂, h₂⟩ | ⟨G, hG, h₂⟩
  · cases A₂ with
    | nil =>
      rw [List.nil_append, List.cons.injEq] at h₂
      exact absurd h₂.1 hsep
    | cons a A₃ =>
      -- the space is behind the separator
      rw [List.cons_append, List.cons.injEq] at h₂
      obtain ⟨ha, h₃⟩ := h₂
      obtain ⟨B', hgap'⟩ := before_of_not_mem h₃ hvalue
      have hlast : (A ++ [x]).getLast? = (a :: A₃).getLast? := by
        rw [hA₁, hA₂, ← List.append_assoc,
          List.getLast?_append_of_ne_nil _ (List.cons_ne_nil a A₃)]
      rw [List.getLast?_concat] at hlast
      have hmem := List.mem_of_getLast? hlast.symm
      rcases List.mem_cons.mp hmem with hx | hx
      · exact Or.inl (Or.inr (hx.trans ha.symm))
      · refine Or.inl (Or.inl (h.gap_space' x ?_))
        rw [hgap']
        exact List.mem_append_left _ hx
  · cases G with
    | nil =>
      rw [List.nil_append, List.cons.injEq] at h₂
      exact absurd h₂.1.symm hsep
    | cons g G =>
      rw [List.cons_append, List.cons.injEq] at h₂
      cases G with
      | nil =>
        have hy := h₂.2
        rw [List.nil_append, List.cons.injEq] at hy
        exact Or.inr (Or.inr hy.1)
      | cons g' G =>
        have hy := h₂.2
        rw [List.cons_append, List.cons.injEq] at hy
        refine Or.inr (Or.inl (h.gap_space y ?_))
        rw [hG, hy.1]
        exact List.mem_append_right A₁ (List.mem_cons_of_mem g List.mem_cons_self)

end FieldMatch

/-! ## 4. Matches of a token -/

theorem marks_keyLike :
    (tokenMarks.all fun mark => mark.all (fun c => keyLike c && c != '-') && !mark.isEmpty) =
      true := by
  decide

theorem fold_dash : fold '-' = '-' := by decide

/-- A mark in some case: characters of a token, none of them a dash. -/
theorem mark_chars {mark : List Char} (h : mark.map fold ∈ tokenMarks) :
    mark ≠ [] ∧ '-' ∉ mark ∧ ∀ c ∈ mark, tokenChar c = true := by
  have hmark := List.all_eq_true.mp marks_keyLike _ h
  rw [Bool.and_eq_true, List.all_eq_true] at hmark
  obtain ⟨hchars, hne⟩ := hmark
  refine ⟨?_, ?_, ?_⟩
  · rintro rfl
    cases hne
  · intro hmem
    have hdash := hchars (fold '-') (List.mem_map_of_mem hmem)
    rw [fold_dash] at hdash
    cases hdash
  · intro c hc
    have hkey := hchars (fold c) (List.mem_map_of_mem hc)
    rw [Bool.and_eq_true] at hkey
    exact fold_eq hkey.1 rfl

/-- A mark, a dash, and six or more characters up to the first that is not of a token. -/
structure TokenMatch (s mark token rest : List Char) : Prop where
  text : s = mark ++ ('-' :: (token ++ rest))
  is_mark : mark.map fold ∈ tokenMarks
  long : 6 ≤ token.length
  run : (token ++ rest).takeWhile tokenChar = token

theorem secretToken_spec {py : Tables} {prev : Option Char} {s : List Char} {keep length : Nat}
    (h : secretToken py prev s = some (keep, length)) :
    py.boundary prev s.head? = true ∧ ∃ mark token rest, TokenMatch s mark token rest ∧
      keep = mark.length + 1 ∧ length = mark.length + 1 + token.length := by
  unfold secretToken at h
  split at h
  · rename_i hboundary
    refine ⟨hboundary, ?_⟩
    obtain ⟨word, hword, hhit⟩ := List.exists_of_findSome?_eq_some h
    split at hhit
    · rename_i hspelled
      obtain ⟨mark, rest, hs, hlength, hfold⟩ := spelledAt_spec hspelled
      split at hhit
      · rename_i tail hdrop
        dsimp only at hhit
        split at hhit
        · rename_i hlong
          rw [hs, ← hlength, List.drop_left] at hdrop
          have hsplit : tail.takeWhile tokenChar ++ tail.dropWhile tokenChar = tail :=
            List.takeWhile_append_dropWhile
          refine ⟨mark, tail.takeWhile tokenChar, tail.dropWhile tokenChar,
            ⟨?_, ?_, hlong, ?_⟩, ?_, ?_⟩
          · rw [hsplit, hs, hdrop]
          · rw [hfold]
            exact hword
          · rw [hsplit]
          · rw [hlength]
            exact (congrArg Prod.fst (Option.some.inj hhit)).symm
          · rw [hlength]
            exact (congrArg Prod.snd (Option.some.inj hhit)).symm
        · cases hhit
      · cases hhit
    · cases hhit
  · cases h

namespace TokenMatch

variable {s mark token rest : List Char}

theorem take_eq (h : TokenMatch s mark token rest) :
    s.take (mark.length + 1) = mark ++ ['-'] := by
  have htext : s = (mark ++ ['-']) ++ (token ++ rest) := by
    rw [h.text, List.append_assoc, List.singleton_append]
  have hlength : mark.length + 1 = (mark ++ ['-']).length := by
    rw [List.length_append, List.length_singleton]
  rw [hlength, htext, List.take_left]

theorem take_length_eq (h : TokenMatch s mark token rest) :
    s.take (mark.length + 1 + token.length) = mark ++ ('-' :: token) := by
  have htext : s = (mark ++ ('-' :: token)) ++ rest := by
    rw [h.text, List.append_assoc, List.cons_append]
  have hlength : mark.length + 1 + token.length = (mark ++ ('-' :: token)).length := by
    rw [List.length_append, List.length_cons]
    omega
  rw [hlength, htext, List.take_left]

theorem all_token (h : TokenMatch s mark token rest) :
    ∀ c ∈ mark ++ ('-' :: token), tokenChar c = true := by
  intro c hc
  rcases List.mem_append.mp hc with hc | hc
  · exact (mark_chars h.is_mark).2.2 c hc
  · rcases List.mem_cons.mp hc with hc | hc
    · rw [hc]
      rfl
    · rw [← h.run] at hc
      exact List.mem_takeWhile_imp hc

end TokenMatch

theorem keeps_secretToken (py : Tables) :
    Keeps (secretToken py) (fun c => tokenChar c = true) := by
  intro prev s keep length h
  obtain ⟨-, mark, token, rest, hmatch, rfl, rfl⟩ := secretToken_spec h
  have hlong := hmatch.long
  refine ⟨?_, by omega, ?_⟩
  · rw [hmatch.take_eq]
    intro c hc
    apply hmatch.all_token c
    rcases List.mem_append.mp hc with hc | hc
    · exact List.mem_append_left _ hc
    · rw [List.mem_singleton.mp hc]
      exact List.mem_append_right mark List.mem_cons_self
  · rw [hmatch.text]
    simp only [List.length_append, List.length_cons]
    omega

/-- A token is over where a character is not of one. -/
theorem skipAfter_secretToken {py : Tables} {L₀ rest : List Char} {e : Char}
    (he : tokenChar e = false) : skipAfter (secretToken py) 0 none (L₀ ++ [e]) rest = 0 := by
  by_contra hne
  obtain ⟨L₁, M, keep, hL, hM, hmatch⟩ := exists_match (Nat.pos_of_ne_zero hne)
  obtain ⟨-, mark, token, rest', htoken, -, hlength⟩ := secretToken_spec hmatch
  have hlast : M.getLast? = some e := by
    have hget := congrArg List.getLast? hL
    rwa [List.getLast?_concat, List.getLast?_append_of_ne_nil _ hM, eq_comm] at hget
  have htaken := htoken.take_length_eq
  rw [← hlength, List.take_append, List.take_of_length_le (Nat.le_add_right _ _)] at htaken
  have hmem : e ∈ mark ++ ('-' :: token) := by
    rw [← htaken]
    exact List.mem_append_left _ (List.mem_of_getLast? hlast)
  rw [htoken.all_token e hmem] at he
  cases he

end TokenProxy.Redaction
