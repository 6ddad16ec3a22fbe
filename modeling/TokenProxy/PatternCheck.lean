/-
  TokenProxy/PatternCheck.lean
  ============================
  **Checking the patterns of a tool policy** (`validate_pattern`, `_reject_unbalanced_class`,
  `guardrails/tool_policy.py`).

  A pattern with a class that is never closed is refused, by the same scan that the matching
  makes.  A class that no character is in is not: its ranges are the wrong way round, or it
  excludes every character, and a pattern with it matches no name.

  Main results: `validatePattern_unclosed`, an unclosed class is refused; `checked_iff`, when a
  pattern that is accepted matches some name.
-/
import TokenProxy.PolicyHistory

namespace TokenProxy.PatternCheck

open Tools

/-! ## 1. The check -/

inductive ToolPolicyError where
  | notNonEmptyString (pattern : Json)
  | unclosedClass (pattern : String)
  /-- the translated expression does not compile -/
  | invalidGlob (pattern : String)
deriving DecidableEq

/-- What follows the `]` that closes a class, if there is one. -/
def afterClass (cs : List Char) : Option (List Char) :=
  let cs := if cs.head? = some '!' then cs.tail else cs
  let cs := if cs.head? = some ']' then cs.tail else cs
  match cs.dropWhile (· ≠ ']') with
  | [] => none
  | _ :: rest => some rest

/-- The scan of `_reject_unbalanced_class`: whether it raises.  Every round uses up a
    character. -/
def unbalancedFuel : Nat → List Char → Bool
  | 0, _ => false
  | _, [] => false
  | fuel + 1, c :: cs =>
    if c = '[' then
      match afterClass cs with
      | none => true
      | some rest => unbalancedFuel fuel rest
    else unbalancedFuel fuel cs

def rejectUnbalancedClass (pattern : String) : Bool :=
  unbalancedFuel pattern.toList.length pattern.toList

/-- `validate_pattern`; `compiles` is `re.compile` of the translated pattern. -/
def validatePattern (compiles : String → Bool) : Json → Except ToolPolicyError String
  | .str pattern =>
    if pattern = "" then .error (.notNonEmptyString (.str pattern))
    else if rejectUnbalancedClass pattern then .error (.unclosedClass pattern)
    else if compiles pattern then .ok pattern
    else .error (.invalidGlob pattern)
  | pattern => .error (.notNonEmptyString pattern)

/-! ## 2. Unclosed classes -/

/-- In the reading of the matching, some `[` opens a class that is never closed. -/
inductive Unclosed : List Char → Prop
  | here {cs : List Char} : classBody cs = none → Unclosed ('[' :: cs)
  | plain {c : Char} {cs : List Char} : c ≠ '[' → Unclosed cs → Unclosed (c :: cs)
  | behind {cs body rest : List Char} :
      classBody cs = some (body, rest) → Unclosed rest → Unclosed ('[' :: cs)

/-- The check and the matching find the same end of a class. -/
theorem afterClass_eq (cs : List Char) : afterClass cs = (classBody cs).map Prod.snd := by
  have hspan (l : List Char) := List.span_eq_takeWhile_dropWhile (p := fun c => c ≠ ']') (l := l)
  rw [afterClass, classBody]
  by_cases hbang : cs.head? = some '!'
  · by_cases hbracket : cs.tail.head? = some ']'
    · simp only [hbang, hbracket, if_true, hspan]
      cases List.dropWhile (fun c => c ≠ ']') cs.tail.tail <;> rfl
    · simp only [hbang, hbracket, if_true, if_false, hspan]
      cases List.dropWhile (fun c => c ≠ ']') cs.tail <;> rfl
  · by_cases hbracket : cs.head? = some ']'
    · have hother : ¬ some ']' = some '!' := by decide
      simp only [hother, hbracket, if_true, if_false, hspan]
      cases List.dropWhile (fun c => c ≠ ']') cs.tail <;> rfl
    · simp only [hbang, hbracket, if_false, hspan]
      cases List.dropWhile (fun c => c ≠ ']') cs <;> rfl

theorem length_afterClass {cs rest : List Char} (h : afterClass cs = some rest) :
    rest.length ≤ cs.length := by
  have htail (l : List Char) (p : Prop) [Decidable p] :
      (if p then l.tail else l).length ≤ l.length := by
    split
    · rw [List.length_tail]
      exact Nat.sub_le _ _
    · exact Nat.le_refl _
  rw [afterClass] at h
  split at h
  · cases h
  · next c after hdrop =>
    cases h
    obtain ⟨l, hl, hle⟩ : ∃ l : List Char, l.dropWhile (· ≠ ']') = c :: rest ∧
        l.length ≤ cs.length := ⟨_, hdrop, Nat.le_trans (htail _ _) (htail _ _)⟩
    have hlength := (List.dropWhile_suffix (l := l) (fun c => decide (c ≠ ']'))).length_le
    rw [hl, List.length_cons] at hlength
    omega

theorem unbalancedFuel_iff {fuel : Nat} {cs : List Char} (h : cs.length ≤ fuel) :
    unbalancedFuel fuel cs = true ↔ Unclosed cs := by
  induction fuel generalizing cs with
  | zero =>
    rw [List.length_eq_zero_iff.mp (Nat.le_zero.mp h)]
    exact iff_of_false Bool.false_ne_true fun hnil => by cases hnil
  | succ fuel ih =>
    cases cs with
    | nil => exact iff_of_false Bool.false_ne_true fun hnil => by cases hnil
    | cons c cs =>
      have hle : cs.length ≤ fuel := Nat.le_of_succ_le_succ h
      rw [unbalancedFuel]
      split
      · next hopen =>
        subst hopen
        have heq := afterClass_eq cs
        cases hbody : classBody cs with
        | none =>
          rw [hbody, Option.map_none] at heq
          rw [heq]
          exact iff_of_true rfl (.here hbody)
        | some found =>
          obtain ⟨body, rest⟩ := found
          rw [hbody, Option.map_some] at heq
          rw [heq]
          refine (ih (Nat.le_trans (length_afterClass heq) hle)).trans ⟨.behind hbody, ?_⟩
          intro hunclosed
          cases hunclosed with
          | here hnone =>
            rw [hbody] at hnone
            cases hnone
          | plain hne => exact absurd rfl hne
          | behind hbody' hrest =>
            rw [hbody] at hbody'
            cases hbody'
            exact hrest
      · next hplain =>
        refine (ih hle).trans ⟨.plain hplain, ?_⟩
        intro hunclosed
        cases hunclosed with
        | here => exact absurd rfl hplain
        | plain _ hrest => exact hrest
        | behind => exact absurd rfl hplain

/-! ## 3. Usable patterns -/

/-- The pattern is refused, or some name matches it; and it is refused if it has an unclosed
    class. -/
structure Checked (compiles : String → Bool) (pattern : String) : Prop where
  usable : validatePattern compiles (.str pattern) = .ok pattern →
    ∃ name, name ≠ "" ∧ fnmatchcase name pattern = true
  closed : Unclosed pattern.toList →
    ∃ err, validatePattern compiles (.str pattern) = .error err

theorem validatePattern_unclosed (compiles : String → Bool) {pattern : String}
    (h : Unclosed pattern.toList) :
    ∃ err, validatePattern compiles (.str pattern) = .error err := by
  rw [validatePattern]
  split
  · exact ⟨_, rfl⟩
  · have hraises : rejectUnbalancedClass pattern = true :=
      (unbalancedFuel_iff (Nat.le_refl _)).mpr h
    rw [if_pos hraises]
    exact ⟨_, rfl⟩

theorem matchesItems_star (items : List GlobItem) (cs : List Char) :
    matchesItems (.star :: items) cs = true ↔
      ∃ rest, rest <:+ cs ∧ matchesItems items rest = true := by
  rw [matchesItems, List.any_eq_true]
  simp only [List.mem_tails]

theorem matchesItems_cons {item : GlobItem} (hne : item ≠ .star) (items : List GlobItem)
    (cs : List Char) : matchesItems (item :: items) cs = true ↔
      ∃ c rest, cs = c :: rest ∧ item.admits c = true ∧ matchesItems items rest = true := by
  cases cs with
  | nil =>
    rw [matchesItems]
    · refine iff_of_false Bool.false_ne_true ?_
      rintro ⟨c, rest, hcs, -⟩
      cases hcs
    · exact hne
  | cons c cs =>
    rw [matchesItems, Bool.and_eq_true]
    · constructor
      · exact fun h => ⟨c, cs, rfl, h⟩
      · rintro ⟨c', rest, hcs, h⟩
        cases hcs
        exact h
    · exact hne

theorem admits_of_matchesItems {items : List GlobItem} {cs : List Char}
    (h : matchesItems items cs = true) : ∀ item ∈ items, ∃ c, item.admits c = true := by
  induction items generalizing cs with
  | nil =>
    intro item hitem
    cases hitem
  | cons head items ih =>
    intro item hitem
    by_cases hstar : head = .star
    · obtain ⟨rest, -, hrest⟩ := (matchesItems_star items cs).mp (hstar ▸ h)
      rcases List.mem_cons.mp hitem with rfl | hitem
      · rw [hstar]
        exact ⟨'a', rfl⟩
      · exact ih hrest item hitem
    · obtain ⟨c, rest, -, hadmits, hrest⟩ := (matchesItems_cons hstar items cs).mp h
      rcases List.mem_cons.mp hitem with rfl | hitem
      · exact ⟨c, hadmits⟩
      · exact ih hrest item hitem

/-- One character for each item. -/
theorem exists_matchesItems {items : List GlobItem}
    (h : ∀ item ∈ items, ∃ c, item.admits c = true) :
    ∃ cs, cs.length = items.length ∧ matchesItems items cs = true := by
  induction items with
  | nil => exact ⟨[], rfl, rfl⟩
  | cons item items ih =>
    obtain ⟨c, hc⟩ := h item List.mem_cons_self
    obtain ⟨cs, hlength, hcs⟩ := ih fun i hi => h i (List.mem_cons_of_mem item hi)
    refine ⟨c :: cs, by rw [List.length_cons, hlength, List.length_cons], ?_⟩
    by_cases hstar : item = .star
    · rw [hstar, matchesItems_star]
      exact ⟨cs, List.suffix_cons c cs, hcs⟩
    · rw [matchesItems_cons hstar]
      exact ⟨c, cs, rfl, hc, hcs⟩

theorem translate_ne_nil {pattern : String} (h : pattern ≠ "") : translate pattern ≠ [] := by
  rw [Tools.translate]
  cases hcs : pattern.toList with
  | nil => exact absurd (String.toList_eq_nil_iff.mp hcs) h
  | cons c cs =>
    rw [List.length_cons]
    unfold translateFuel
    split
    · next hzero => cases hzero
    · next hnil _ => cases hnil
    · exact List.cons_ne_nil _ _
    · exact List.cons_ne_nil _ _
    · split <;> exact List.cons_ne_nil _ _
    · exact List.cons_ne_nil _ _

/-- Some name matches a pattern exactly when every class of it admits some character. -/
theorem exists_name_iff {pattern : String} (h : pattern ≠ "") :
    (∃ name, name ≠ "" ∧ fnmatchcase name pattern = true) ↔
      ∀ item ∈ translate pattern, ∃ c, item.admits c = true := by
  constructor
  · rintro ⟨name, -, hmatch⟩
    exact admits_of_matchesItems hmatch
  · intro hall
    obtain ⟨cs, hlength, hmatch⟩ := exists_matchesItems hall
    refine ⟨String.ofList cs, ?_, ?_⟩
    · intro hempty
      have hnil : cs = [] := by
        rw [← String.toList_ofList (l := cs), hempty]
        rfl
      rw [hnil, List.length_nil] at hlength
      exact translate_ne_nil h (List.length_eq_zero_iff.mp hlength.symm)
    · rw [fnmatchcase, String.toList_ofList]
      exact hmatch

theorem ne_empty_of_accepted {compiles : String → Bool} {pattern : String}
    (h : validatePattern compiles (.str pattern) = .ok pattern) : pattern ≠ "" := by
  rintro rfl
  rw [validatePattern, if_pos rfl] at h
  cases h

/-- **A pattern is usable if accepted, and refused if a class in it is unclosed, exactly when it
    is refused or every element of it admits some character.** -/
theorem checked_iff (compiles : String → Bool) (pattern : String) :
    Checked compiles pattern ↔
      (validatePattern compiles (.str pattern) = .ok pattern →
        ∀ item ∈ translate pattern, ∃ c, item.admits c = true) := by
  constructor
  · intro h haccepted
    exact (exists_name_iff (ne_empty_of_accepted haccepted)).mp (h.usable haccepted)
  · intro h
    refine ⟨fun haccepted => ?_, validatePattern_unclosed compiles⟩
    exact (exists_name_iff (ne_empty_of_accepted haccepted)).mpr (h haccepted)

/-- A range the wrong way round: accepted, and without a name. -/
theorem not_checked : ¬ ∀ (compiles : String → Bool) (pattern : String),
    Checked compiles pattern := by
  intro h
  obtain ⟨name, -, hmatch⟩ := (h (fun _ => true) "drop_[z-a]").usable (by decide +kernel)
  obtain ⟨c, hc⟩ := admits_of_matchesItems hmatch .never (by decide +kernel)
  cases hc

end TokenProxy.PatternCheck
