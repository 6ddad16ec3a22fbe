/-
  TokenProxy/RulesFailSafe.lean
  =============================
  **Rules that fail safe** (`middleware/g06_rules.py`).

  `wellFormed` says which match blocks the configuration reference describes, `applies` when
  such a block holds of a request.  A malformed block is read all the same: a condition of the
  wrong type is skipped, read character by character, or raises.  `fails` and `unreadable` say
  of a condition's value, whatever its type, which of these it comes to.

  Main result: `failsSafe_iff`, the lists of rules that are evaluated as if every malformed
  rule were absent.
-/
import TokenProxy.RoutingRules

namespace TokenProxy.Rules

variable (e : Engine) (search : Search) (req : Request)

/-! ## 1. What a rule says -/

def listKeys : List String := ["keywords", "patterns", "models", "user_ids"]

def boundKeys : List String := ["min_prompt_tokens", "max_prompt_tokens"]

/-- The conditions, in the order in which they are checked. -/
def conditionKeys : List String :=
  ["keywords", "patterns", "min_prompt_tokens", "max_prompt_tokens", "models", "has_tools",
    "params", "user_ids"]

/-- A condition of the type that its key asks for, and not empty. -/
def wellTyped (key : String) (value : Yaml) : Bool :=
  if key ∈ listKeys then
    match value with
    | .list (_ :: _) => true
    | _ => false
  else if key ∈ boundKeys then
    match value with
    | .int _ => true
    | .float _ => true
    | .str s => (e.intOf s).isSome
    | _ => false
  else if key = "has_tools" then
    match value with
    | .bool _ => true
    | _ => false
  else
    match value with
    | .dict (_ :: _) => true
    | _ => false

/-- A block with a condition, and every condition in it well typed. -/
def wellFormedBlock (entries : Entries) : Bool :=
  (conditionKeys.any fun key => (get? entries key).isSome) &&
    conditionKeys.all fun key => (get? entries key).all (wellTyped e key)

def wellFormed (rule : Rule) : Bool :=
  match get? rule "match" with
  | some (.dict entries) => wellFormedBlock e entries
  | _ => false

/-- A pattern whose search finds something in its time. -/
def patternFound : Yaml → Bool
  | .str pattern => usable e pattern && decide (search pattern = some true)
  | _ => false

/-- A well-typed condition holds. -/
def holds : String → Yaml → Bool
  | "keywords", .list items => items.any (keywordIn e req.text)
  | "patterns", .list items => items.any (patternFound e search)
  | "min_prompt_tokens", v =>
    (asInt e v).all fun n => decide (n = 0) || decide (n ≤ req.promptTokens)
  | "max_prompt_tokens", v =>
    (asInt e v).all fun n => decide (n = 0) || decide (req.promptTokens ≤ n)
  | "models", .list items => items.any (Yaml.isStr req.model)
  | "has_tools", v => req.hasTools == v.truthy
  | "params", .dict wanted => wanted.all fun entry => decide (paramHolds e req entry = some true)
  | "user_ids", .list items => items.any (Yaml.isStr req.userId)
  | _, _ => false

/-- Every condition of a block holds. -/
def conditionsHold (entries : Entries) : Bool :=
  conditionKeys.all fun key => (get? entries key).all (holds e search req key)

/-- A well-formed rule all of whose conditions hold. -/
def applies (rule : Rule) : Bool :=
  match get? rule "match" with
  | some (.dict entries) => wellFormedBlock e entries && conditionsHold e search req entries
  | _ => false

/-- The first rule that applies, from place `i` on. -/
def firstApplying (searches : Nat → Search) (i : Nat) : List Rule → Option Rule
  | [] => none
  | rule :: rest =>
    if applies e (searches i) req rule then some rule else firstApplying searches (i + 1) rest

/-! ## 2. What becomes of a condition -/

/-- What a loop goes over: the items of a list, the letters of a string, the keys of a mapping. -/
def items (v : Yaml) : List Yaml := v.elements.getD []

/-- Not empty, and nothing to go over. -/
def scalar : Yaml → Bool
  | .bool b => b
  | .int n => decide (n ≠ 0)
  | .float q => decide (q ≠ 0)
  | .infinite _ => true
  | .nan => true
  | .date _ => true
  | _ => false

/-- A string has the value in it, or a list or mapping has it among its items. -/
def names (value : String) : Yaml → Bool
  | .str s => isSubstring value s
  | v => (items v).any (Yaml.isStr value)

/-- The first parameter that does not hold. -/
def firstUnheld (wanted : Entries) : Option (Yaml × Yaml) :=
  wanted.find? fun entry => decide (paramHolds e req entry ≠ some true)

/-- A parameter is told not to hold. -/
def told (entry : Yaml × Yaml) : Bool :=
  decide (paramHolds e req entry = some false) && (e.strOf entry.1).isSome

/-- A condition of this value, whatever its type, fails. -/
def fails : String → Yaml → Bool
  | "keywords", v => !(items v).isEmpty && !(items v).any (keywordIn e req.text)
  | "patterns", v => !(items v).isEmpty && !(items v).any (patternFound e search)
  | "min_prompt_tokens", v =>
    (asInt e v).any fun n => decide (n ≠ 0) && decide (req.promptTokens < n)
  | "max_prompt_tokens", v =>
    (asInt e v).any fun n => decide (n ≠ 0) && decide (n < req.promptTokens)
  | "models", v => !(items v).isEmpty && !names req.model v
  | "has_tools", v => req.hasTools != v.truthy
  | "params", .dict wanted => (firstUnheld e req wanted).any (told e req)
  | "user_ids", v => !(items v).isEmpty && !names req.userId v
  | _, _ => false

/-- A condition of this value cannot be read: what is no number or list is gone over, an infinity
is taken for an integer, a parameter has no text. -/
def unreadable (key : String) (v : Yaml) : Bool :=
  if key ∈ listKeys then scalar v
  else if key ∈ boundKeys then
    match v with
    | .infinite _ => true
    | _ => false
  else if key = "params" then
    match v with
    | .dict wanted => (firstUnheld e req wanted).any fun entry => !told e req entry
    | _ => false
  else false

variable (entries : Entries)

/-- Where the condition under a key stands. -/
def failsAt (key : String) : Bool := (get? entries key).any (fails e search req key)

def unreadableAt (key : String) : Bool := (get? entries key).any (unreadable e req key)

/-- The condition passes, or is skipped, or there is none. -/
def Passes (key : String) : Prop :=
  failsAt e search req entries key = false ∧ unreadableAt e req entries key = false

/-- The first condition that does not pass, fails. -/
def FailsFirst : Prop :=
  ∃ before key after, conditionKeys = before ++ key :: after ∧
    (∀ other ∈ before, Passes e search req entries other) ∧
    failsAt e search req entries key = true ∧ unreadableAt e req entries key = false

/-- The first condition that does not pass, cannot be read. -/
def UnreadableFirst : Prop :=
  ∃ before key after, conditionKeys = before ++ key :: after ∧
    (∀ other ∈ before, Passes e search req entries other) ∧ unreadableAt e req entries key = true

/-- A rule has no block with entries, or a condition of it fails before any that cannot be read. -/
def Refused (rule : Rule) : Prop :=
  ∀ entry entries, get? rule "match" = some (.dict (entry :: entries)) →
    FailsFirst e search req (entry :: entries)

/-- A condition cannot be read, and none before it fails. -/
def Unreadable (rule : Rule) : Prop :=
  ∃ entry entries, get? rule "match" = some (.dict (entry :: entries)) ∧
    UnreadableFirst e search req (entry :: entries)

/-- Where a rule has a block with entries, not every condition passes. -/
def NotPassed (rule : Rule) : Prop :=
  ∀ entry entries, get? rule "match" = some (.dict (entry :: entries)) →
    ∃ key ∈ conditionKeys, ¬ Passes e search req (entry :: entries) key

/-! ## 3. What a check says -/

/-- A check passes, fails or raises as its condition does. -/
inductive Reads : Check → Bool → Bool → Prop
  | passes : Reads (some none) false false
  | fails (field : String) : Reads (some (some field)) true false
  | raises (failing : Bool) : Reads none failing true

theorem reads_checked (field : String) (passes : Bool) :
    Reads (checked field passes) (!passes) false := by
  cases passes with
  | true => exact .passes
  | false => exact .fails field

variable {e search req entries}

/-- A value is empty, or it can be gone over, or it cannot. -/
theorem value_cases (v : Yaml) :
    v.truthy = false ∧ items v = [] ∧ scalar v = false ∨
      v.truthy = true ∧ v.elements = some (items v) ∧ items v ≠ [] ∧ scalar v = false ∨
        v.truthy = true ∧ v.elements = none ∧ scalar v = true := by
  cases v with
  | null => exact Or.inl ⟨rfl, rfl, rfl⟩
  | bool b =>
    cases b with
    | false => exact Or.inl ⟨rfl, rfl, rfl⟩
    | true => exact Or.inr (Or.inr ⟨rfl, rfl, rfl⟩)
  | int n =>
    by_cases hn : n = 0
    · exact Or.inl ⟨by simp [Yaml.truthy, hn], rfl, by simp [scalar, hn]⟩
    · exact Or.inr (Or.inr ⟨by simp [Yaml.truthy, hn], rfl, by simp [scalar, hn]⟩)
  | float q =>
    by_cases hq : q = 0
    · exact Or.inl ⟨by simp [Yaml.truthy, hq], rfl, by simp [scalar, hq]⟩
    · exact Or.inr (Or.inr ⟨by simp [Yaml.truthy, hq], rfl, by simp [scalar, hq]⟩)
  | infinite negative => exact Or.inr (Or.inr ⟨rfl, rfl, rfl⟩)
  | nan => exact Or.inr (Or.inr ⟨rfl, rfl, rfl⟩)
  | date text => exact Or.inr (Or.inr ⟨rfl, rfl, rfl⟩)
  | str s =>
    by_cases hs : s = ""
    · exact Or.inl ⟨by simp [Yaml.truthy, hs], by simp [items, Yaml.elements, hs], rfl⟩
    · exact Or.inr (Or.inl ⟨by simp [Yaml.truthy, hs], rfl, by simpa [items, Yaml.elements], rfl⟩)
  | list l =>
    cases l with
    | nil => exact Or.inl ⟨rfl, rfl, rfl⟩
    | cons item rest => exact Or.inr (Or.inl ⟨rfl, rfl, List.cons_ne_nil item rest, rfl⟩)
  | dict l =>
    cases l with
    | nil => exact Or.inl ⟨rfl, rfl, rfl⟩
    | cons entry rest => exact Or.inr (Or.inl ⟨rfl, rfl, List.cons_ne_nil _ _, rfl⟩)

/-- A loop over the items. -/
theorem reads_loop (v : Yaml) (hit : List Yaml → Bool) (field : List Yaml → String) :
    Reads (if v.truthy then v.elements.bind fun l => checked (field l) (hit l) else some none)
      (!(items v).isEmpty && !hit (items v)) (scalar v) := by
  rcases value_cases v with ⟨htruthy, hitems, hscalar⟩ | ⟨htruthy, helements, hne, hscalar⟩ |
    ⟨htruthy, helements, hscalar⟩
  · rw [htruthy, hitems, hscalar]
    exact .passes
  · have hsome : (items v).isEmpty = false := by simpa using hne
    rw [htruthy, helements, hscalar, hsome]
    exact reads_checked _ _
  · rw [htruthy, helements, hscalar]
    exact .raises _

theorem searchPatterns_fst (timedOut : Bool) (items : List Yaml) :
    (searchPatterns e search timedOut items).1 = items.any (patternFound e search) := by
  induction items generalizing timedOut with
  | nil => rfl
  | cons item rest ih =>
    rw [List.any_cons]
    cases item with
    | str pattern =>
      rw [searchPatterns, patternFound]
      by_cases husable : usable e pattern = true
      · rw [if_pos husable, husable, Bool.true_and]
        rcases search pattern with _ | _ | _
        · exact (ih true).trans (by simp)
        · exact (ih timedOut).trans (by simp)
        · simp
      · rw [if_neg husable, Bool.eq_false_iff.mpr husable, Bool.false_and, Bool.false_or]
        exact ih timedOut
    | _ => exact ih timedOut

theorem reads_keywords : Reads (keywordsCheck e req entries)
    (failsAt e search req entries "keywords") (unreadableAt e req entries "keywords") := by
  rw [keywordsCheck, failsAt, unreadableAt]
  cases get? entries "keywords" with
  | none => exact .passes
  | some v => exact reads_loop v (fun l => l.any (keywordIn e req.text)) fun _ => "keywords"

theorem reads_patterns : Reads (patternsCheck e search entries)
    (failsAt e search req entries "patterns") (unreadableAt e req entries "patterns") := by
  rw [patternsCheck, failsAt, unreadableAt]
  cases get? entries "patterns" with
  | none => exact .passes
  | some v =>
    have hloop := reads_loop v (fun l => (searchPatterns e search false l).1) fun l =>
      if (searchPatterns e search false l).2 then "patterns (timed out)" else "patterns"
    rw [searchPatterns_fst] at hloop
    exact hloop

theorem unreadable_list {key : String} (hlist : key ∈ listKeys) (v : Yaml) :
    unreadable e req key v = scalar v := by
  unfold unreadable
  exact if_pos hlist

/-- A bound cannot be read where it is no integer. -/
theorem unreadable_bound {key : String} (hlist : key ∉ listKeys) (hbound : key ∈ boundKeys)
    (v : Yaml) : unreadable e req key v = (asInt e v).isNone := by
  unfold unreadable
  simp only [if_neg hlist, if_pos hbound]
  cases v with
  | infinite negative => rfl
  | _ => rfl

theorem reads_bound {field : String} (hfield : field ∈ boundKeys) {within outside : Int → Bool}
    (h : ∀ n, outside n = !within n) : Reads (boundCheck e entries field within)
      ((get? entries field).any fun v => (asInt e v).any fun n => decide (n ≠ 0) && outside n)
      (unreadableAt e req entries field) := by
  have hlist : field ∉ listKeys := by
    rcases List.mem_cons.mp hfield with rfl | hlast
    · decide
    · rw [List.mem_singleton.mp hlast]
      decide
  rw [boundCheck, unreadableAt]
  cases hget : get? entries field with
  | none => exact .passes
  | some v =>
    rw [Option.getD_some, Option.any_some, Option.any_some, unreadable_bound hlist hfield]
    cases hn : asInt e v with
    | none =>
      rw [Option.isNone_none]
      exact .raises _
    | some n =>
      rw [Option.isNone_some, Option.bind_some, Option.any_some, h n]
      have hpasses := reads_checked field (decide (n = 0) || within n)
      rw [Bool.not_or] at hpasses
      simpa using hpasses

theorem reads_member {field : String} (hfield : field = "models" ∨ field = "user_ids")
    (value : String) : Reads (memberCheck entries field value)
      ((get? entries field).any fun v => !(items v).isEmpty && !names value v)
      (unreadableAt e req entries field) := by
  have hlist : field ∈ listKeys := by
    rcases hfield with rfl | rfl <;> decide
  rw [memberCheck, unreadableAt]
  cases get? entries field with
  | none => exact .passes
  | some v =>
    rw [Option.any_some, Option.any_some, unreadable_list hlist]
    have hin : ∀ l, v.elements = some l → isIn value v = some (names value v) := by
      intro l hl
      cases v with
      | str s => rfl
      | list items => rfl
      | dict entries => rfl
      | _ => cases hl
    rcases value_cases v with ⟨htruthy, hitems, hscalar⟩ | ⟨htruthy, helements, hne, hscalar⟩ |
      ⟨htruthy, helements, hscalar⟩
    · dsimp only
      rw [htruthy, hitems, hscalar]
      exact .passes
    · have hsome : (items v).isEmpty = false := by simpa using hne
      dsimp only
      rw [htruthy, hin _ helements, hscalar, hsome]
      exact reads_checked _ _
    · have hraises : isIn value v = none := by
        cases v with
        | str s => cases helements
        | _ => simp_all [isIn]
      dsimp only
      rw [htruthy, hraises, hscalar]
      exact .raises _

theorem reads_hasTools : Reads (hasToolsCheck req entries)
    (failsAt e search req entries "has_tools") (unreadableAt e req entries "has_tools") := by
  rw [hasToolsCheck, failsAt, unreadableAt]
  cases get? entries "has_tools" with
  | none => exact .passes
  | some v => exact reads_checked _ _

theorem reads_checkParams (wanted : Entries) : Reads (checkParams e req wanted)
    ((firstUnheld e req wanted).any (told e req))
    ((firstUnheld e req wanted).any fun entry => !told e req entry) := by
  induction wanted with
  | nil => exact .passes
  | cons entry rest ih =>
    rw [checkParams, firstUnheld, List.find?_cons]
    cases hholds : paramHolds e req entry with
    | none =>
      have htold : told e req entry = false := by simp [told, hholds]
      simp [htold, Reads.raises]
    | some passed =>
      cases passed with
      | true => simpa [firstUnheld] using ih
      | false =>
        cases htext : e.strOf entry.1 with
        | none =>
          have htold : told e req entry = false := by simp [told, htext]
          simp [htold, Reads.raises]
        | some text =>
          have htold : told e req entry = true := by simp [told, hholds, htext]
          simp [htold, Reads.fails]

theorem reads_params : Reads (paramsCheck e req entries)
    (failsAt e search req entries "params") (unreadableAt e req entries "params") := by
  rw [paramsCheck, failsAt, unreadableAt]
  cases get? entries "params" with
  | none => exact .passes
  | some v =>
    cases v with
    | dict wanted => exact reads_checkParams wanted
    | _ => exact .passes

/-- The check of a condition. -/
def checkOf (e : Engine) (search : Search) (req : Request) (entries : Entries) : String → Check
  | "keywords" => keywordsCheck e req entries
  | "patterns" => patternsCheck e search entries
  | "min_prompt_tokens" => minCheck e req entries
  | "max_prompt_tokens" => maxCheck e req entries
  | "models" => modelsCheck req entries
  | "has_tools" => hasToolsCheck req entries
  | "params" => paramsCheck e req entries
  | "user_ids" => userIdsCheck req entries
  | _ => some none

theorem checks_eq : checks e search req entries =
    conditionKeys.map (checkOf e search req entries) := rfl

theorem decide_lt_eq_not (m n : Int) : decide (n < m) = !decide (m ≤ n) := by
  rw [← decide_not, decide_eq_decide]
  exact Int.not_le.symm

theorem reads_checkOf {key : String} (h : key ∈ conditionKeys) :
    Reads (checkOf e search req entries key) (failsAt e search req entries key)
      (unreadableAt e req entries key) := by
  simp only [conditionKeys, List.mem_cons, List.not_mem_nil, or_false] at h
  rcases h with rfl | rfl | rfl | rfl | rfl | rfl | rfl | rfl
  · exact reads_keywords
  · exact reads_patterns
  · exact reads_bound (by decide) fun n => decide_lt_eq_not n req.promptTokens
  · exact reads_bound (by decide) fun n => decide_lt_eq_not req.promptTokens n
  · exact reads_member (Or.inl rfl) req.model
  · exact reads_hasTools
  · exact reads_params
  · exact reads_member (Or.inr rfl) req.userId

theorem Reads.passes_iff {check : Check} {failing unread : Bool} (h : Reads check failing unread) :
    check = some none ↔ failing = false ∧ unread = false := by
  cases h <;> simp

theorem Reads.fails_iff {check : Check} {failing unread : Bool} (h : Reads check failing unread) :
    (∃ field, check = some (some field)) ↔ failing = true ∧ unread = false := by
  cases h <;> simp

theorem Reads.raises_iff {check : Check} {failing unread : Bool} (h : Reads check failing unread) :
    check = none ↔ unread = true := by
  cases h <;> simp

/-! ## 4. What becomes of a rule -/

theorem firstFailure_passes_iff {check : String → Check} {keys : List String} :
    firstFailure (keys.map check) = some none ↔ ∀ key ∈ keys, check key = some none := by
  induction keys with
  | nil => simp [firstFailure]
  | cons key rest ih =>
    rw [List.forall_mem_cons, List.map_cons]
    rcases check key with _ | _ | field
    · simp [firstFailure]
    · simpa [firstFailure] using ih
    · simp [firstFailure]

/-- A verdict that is not to pass is the first one that is not. -/
theorem firstFailure_eq_iff {check : String → Check} {keys : List String} {verdict : Check}
    (hverdict : verdict ≠ some none) : firstFailure (keys.map check) = verdict ↔
      ∃ before key after, keys = before ++ key :: after ∧
        (∀ other ∈ before, check other = some none) ∧ check key = verdict := by
  constructor
  · induction keys with
    | nil =>
      intro h
      exact absurd h.symm hverdict
    | cons key rest ih =>
      intro h
      rw [List.map_cons] at h
      by_cases hpasses : check key = some none
      · rw [hpasses, firstFailure] at h
        obtain ⟨before, found, after, rfl, hbefore, hfound⟩ := ih h
        exact ⟨key :: before, found, after, rfl, List.forall_mem_cons.mpr ⟨hpasses, hbefore⟩,
          hfound⟩
      · refine ⟨[], key, rest, rfl, by simp, ?_⟩
        rw [← h]
        rcases hcheck : check key with _ | _ | field
        · rfl
        · exact absurd hcheck hpasses
        · rfl
  · rintro ⟨before, key, after, rfl, hbefore, hkey⟩
    induction before with
    | nil =>
      rw [List.nil_append, List.map_cons, hkey]
      rcases verdict with _ | _ | field
      · rfl
      · exact absurd rfl hverdict
      · rfl
    | cons first before ih =>
      rw [List.forall_mem_cons] at hbefore
      rw [List.cons_append, List.map_cons, hbefore.1, firstFailure]
      exact ih hbefore.2

theorem mem_conditionKeys {before after : List String} {key : String}
    (h : conditionKeys = before ++ key :: after) :
    (∀ other ∈ before, other ∈ conditionKeys) ∧ key ∈ conditionKeys := by
  rw [h]
  exact ⟨fun other hother => List.mem_append_left _ hother,
    List.mem_append_right _ List.mem_cons_self⟩

theorem passes_iff {key : String} (h : key ∈ conditionKeys) :
    checkOf e search req entries key = some none ↔ Passes e search req entries key :=
  (reads_checkOf h).passes_iff

theorem ruleMatches_block {rule : Rule} {entry : Yaml × Yaml} {entries : Entries}
    (hmatch : get? rule "match" = some (.dict (entry :: entries))) :
    ruleMatches e search req rule =
      firstFailure (conditionKeys.map (checkOf e search req (entry :: entries))) := by
  rw [ruleMatches, hmatch, ← checks_eq]

theorem ruleMatches_noBlock {rule : Rule}
    (h : ∀ entry entries, get? rule "match" ≠ some (.dict (entry :: entries))) :
    ruleMatches e search req rule = some (some "match") := by
  rw [ruleMatches]
  split
  · next entry entries hmatch => exact absurd hmatch (h entry entries)
  · rfl

/-- Some rule's block has entries, or it has none to read. -/
theorem block_cases (rule : Rule) :
    (∃ entry entries, get? rule "match" = some (.dict (entry :: entries))) ∨
      ∀ entry entries, get? rule "match" ≠ some (.dict (entry :: entries)) := by
  by_cases h : ∃ entry entries, get? rule "match" = some (.dict (entry :: entries))
  · exact Or.inl h
  · exact Or.inr fun entry entries hmatch => h ⟨entry, entries, hmatch⟩

theorem refused_iff {rule : Rule} : Refused e search req rule ↔
    ∃ field, ruleMatches e search req rule = some (some field) := by
  rcases block_cases rule with ⟨entry, entries, hmatch⟩ | hno
  · rw [ruleMatches_block hmatch]
    constructor
    · intro h
      obtain ⟨before, key, after, hkeys, hbefore, hfails⟩ := h entry entries hmatch
      have hmem := mem_conditionKeys hkeys
      obtain ⟨field, hfield⟩ := (reads_checkOf hmem.2).fails_iff.mpr hfails
      exact ⟨field, (firstFailure_eq_iff (by simp)).mpr ⟨before, key, after, hkeys,
        fun other hother => (passes_iff (hmem.1 other hother)).mpr (hbefore other hother), hfield⟩⟩
    · rintro ⟨field, h⟩ entry' entries' hmatch'
      cases hmatch.symm.trans hmatch'
      obtain ⟨before, key, after, hkeys, hbefore, hfield⟩ := (firstFailure_eq_iff (by simp)).mp h
      have hmem := mem_conditionKeys hkeys
      exact ⟨before, key, after, hkeys,
        fun other hother => (passes_iff (hmem.1 other hother)).mp (hbefore other hother),
        (reads_checkOf hmem.2).fails_iff.mp ⟨field, hfield⟩⟩
  · constructor
    · intro _
      exact ⟨"match", ruleMatches_noBlock hno⟩
    · intro _ entry entries hmatch
      exact absurd hmatch (hno entry entries)

theorem unreadable_iff {rule : Rule} : Unreadable e search req rule ↔
    ruleMatches e search req rule = none := by
  rcases block_cases rule with ⟨entry, entries, hmatch⟩ | hno
  · rw [ruleMatches_block hmatch, firstFailure_eq_iff (by simp)]
    constructor
    · rintro ⟨entry', entries', hmatch', before, key, after, hkeys, hbefore, hkey⟩
      cases hmatch.symm.trans hmatch'
      have hmem := mem_conditionKeys hkeys
      exact ⟨before, key, after, hkeys,
        fun other hother => (passes_iff (hmem.1 other hother)).mpr (hbefore other hother),
        (reads_checkOf hmem.2).raises_iff.mpr hkey⟩
    · rintro ⟨before, key, after, hkeys, hbefore, hkey⟩
      have hmem := mem_conditionKeys hkeys
      exact ⟨entry, entries, hmatch, before, key, after, hkeys,
        fun other hother => (passes_iff (hmem.1 other hother)).mp (hbefore other hother),
        (reads_checkOf hmem.2).raises_iff.mp hkey⟩
  · rw [ruleMatches_noBlock hno]
    constructor
    · rintro ⟨entry, entries, hmatch, -⟩
      exact absurd hmatch (hno entry entries)
    · intro h
      cases h

theorem notPassed_iff {rule : Rule} : NotPassed e search req rule ↔
    ruleMatches e search req rule ≠ some none := by
  rcases block_cases rule with ⟨entry, entries, hmatch⟩ | hno
  · rw [ruleMatches_block hmatch, ne_eq, firstFailure_passes_iff]
    push Not
    constructor
    · intro h
      obtain ⟨key, hkey, hnot⟩ := h entry entries hmatch
      exact ⟨key, hkey, fun hpasses => hnot ((passes_iff hkey).mp hpasses)⟩
    · rintro ⟨key, hkey, hnot⟩ entry' entries' hmatch'
      cases hmatch.symm.trans hmatch'
      exact ⟨key, hkey, fun hpasses => hnot ((passes_iff hkey).mpr hpasses)⟩
  · rw [ruleMatches_noBlock hno]
    constructor
    · intro _ h
      cases h
    · intro _ entry entries hmatch
      exact absurd hmatch (hno entry entries)

/-! ## 5. Well-formed rules -/

/-- What a well-typed list condition looks like. -/
theorem list_of_wellTyped {key : String} {v : Yaml} (hkey : key ∈ listKeys)
    (h : wellTyped e key v = true) : ∃ item rest, v = .list (item :: rest) := by
  unfold wellTyped at h
  rw [if_pos hkey] at h
  cases v with
  | list l =>
    cases l with
    | nil => cases h
    | cons item rest => exact ⟨item, rest, rfl⟩
  | _ => cases h

theorem asInt_of_wellTyped {key : String} {v : Yaml} (hlist : key ∉ listKeys)
    (hkey : key ∈ boundKeys) (h : wellTyped e key v = true) : ∃ n, asInt e v = some n := by
  unfold wellTyped at h
  rw [if_neg hlist, if_pos hkey] at h
  cases v with
  | int n => exact ⟨_, rfl⟩
  | float q => exact ⟨_, rfl⟩
  | str s => exact ⟨_, rfl⟩
  | _ => cases h

theorem holds_params_iff (wanted : Entries) :
    ((firstUnheld e req wanted).any (told e req) = false ∧
      ((firstUnheld e req wanted).any fun entry => !told e req entry) = false) ↔
        (wanted.all fun entry => decide (paramHolds e req entry = some true)) = true := by
  rw [List.all_eq_true]
  cases hfind : firstUnheld e req wanted with
  | none =>
    rw [firstUnheld, List.find?_eq_none] at hfind
    simpa using hfind
  | some entry =>
    have hmem := List.mem_of_find?_eq_some hfind
    have hunheld := List.find?_some hfind
    constructor
    · intro h
      simp at h
    · intro h
      have hheld := h entry hmem
      simp_all

theorem list_holds_iff (item : Yaml) (rest : List Yaml) (hit : Bool) :
    ((!(item :: rest).isEmpty && !hit) = false ∧ false = false) ↔ hit = true := by
  cases hit <;> simp

/-- A well-typed condition passes where it holds. -/
theorem holds_iff {key : String} {v : Yaml} (hkey : key ∈ conditionKeys)
    (htyped : wellTyped e key v = true) :
    (fails e search req key v = false ∧ unreadable e req key v = false) ↔
      holds e search req key v = true := by
  simp only [conditionKeys, List.mem_cons, List.not_mem_nil, or_false] at hkey
  rcases hkey with rfl | rfl | rfl | rfl | rfl | rfl | rfl | rfl
  · obtain ⟨item, rest, rfl⟩ := list_of_wellTyped (by decide) htyped
    rw [unreadable_list (by decide)]
    exact list_holds_iff item rest _
  · obtain ⟨item, rest, rfl⟩ := list_of_wellTyped (by decide) htyped
    rw [unreadable_list (by decide)]
    exact list_holds_iff item rest _
  · obtain ⟨n, hn⟩ := asInt_of_wellTyped (by decide) (by decide) htyped
    rw [unreadable_bound (by decide) (by decide), hn]
    simpa [fails, holds, hn] using or_iff_not_imp_left.symm
  · obtain ⟨n, hn⟩ := asInt_of_wellTyped (by decide) (by decide) htyped
    rw [unreadable_bound (by decide) (by decide), hn]
    simpa [fails, holds, hn] using or_iff_not_imp_left.symm
  · obtain ⟨item, rest, rfl⟩ := list_of_wellTyped (by decide) htyped
    rw [unreadable_list (by decide)]
    exact list_holds_iff item rest _
  · simp [fails, holds, unreadable, listKeys, boundKeys]
  · cases v with
    | dict wanted => exact holds_params_iff wanted
    | _ => cases htyped
  · obtain ⟨item, rest, rfl⟩ := list_of_wellTyped (by decide) htyped
    rw [unreadable_list (by decide)]
    exact list_holds_iff item rest _

theorem wellFormed_iff {rule : Rule} : wellFormed e rule = true ↔
    ∃ entry entries, get? rule "match" = some (.dict (entry :: entries)) ∧
      wellFormedBlock e (entry :: entries) = true := by
  rw [wellFormed]
  constructor
  · intro h
    split at h
    · next entries hmatch =>
      cases entries with
      | nil => exact absurd h (by simp [wellFormedBlock, get?])
      | cons entry entries => exact ⟨entry, entries, hmatch, h⟩
    · cases h
  · rintro ⟨entry, entries, hmatch, h⟩
    rw [hmatch]
    exact h

/-- Every condition of a well-formed block passes where every one holds. -/
theorem conditionsHold_iff {entries : Entries} (h : wellFormedBlock e entries = true) :
    conditionsHold e search req entries = true ↔
      ∀ key ∈ conditionKeys, Passes e search req entries key := by
  rw [wellFormedBlock, Bool.and_eq_true, List.all_eq_true] at h
  rw [conditionsHold, List.all_eq_true]
  apply forall₂_congr
  intro key hkey
  have htyped := h.2 key hkey
  rw [Passes, failsAt, unreadableAt]
  cases hget : get? entries key with
  | none => simp
  | some v =>
    rw [hget] at htyped
    exact (holds_iff hkey htyped).symm

/-- A well-formed rule matches exactly where it applies. -/
theorem ruleMatches_wellFormed {rule : Rule} (h : wellFormed e rule = true) :
    ruleMatches e search req rule = some none ↔ applies e search req rule = true := by
  obtain ⟨entry, entries, hmatch, hblock⟩ := wellFormed_iff.mp h
  rw [ruleMatches_block hmatch, applies, hmatch, firstFailure_passes_iff]
  dsimp only
  rw [hblock, Bool.true_and, conditionsHold_iff hblock]
  exact forall₂_congr fun key hkey => passes_iff hkey

theorem wellFormed_of_applies {rule : Rule} (h : applies e search req rule = true) :
    wellFormed e rule = true := by
  rw [applies] at h
  rw [wellFormed]
  split at h
  · rw [Bool.and_eq_true] at h
    exact h.1
  · cases h

/-! ## 6. Lists of rules -/

variable (e req)

/-- Every rule that is reached, from place `i` on, can be read, and a malformed one is
refused. -/
def SafeWhereReached (searches : Nat → Search) : Nat → List Rule → Prop
  | _, [] => True
  | i, rule :: rest =>
    (wellFormed e rule = false → Refused e (searches i) req rule) ∧
      (wellFormed e rule = true → ¬ Unreadable e (searches i) req rule) ∧
        (applies e (searches i) req rule = false → SafeWhereReached searches (i + 1) rest)

variable {e req} {searches : Nat → Search}

theorem wellFormed_of_firstApplying {i : Nat} {rules : List Rule} {rule : Rule}
    (h : firstApplying e req searches i rules = some rule) : wellFormed e rule = true := by
  induction rules generalizing i with
  | nil => cases h
  | cons first rest ih =>
    rw [firstApplying] at h
    split at h
    · next happlies =>
      cases h
      exact wellFormed_of_applies happlies
    · exact ih h

theorem evaluateRules_refused {i : Nat} {rule : Rule} {rest : List Rule} {field : String}
    (h : ruleMatches e (searches i) req rule = some (some field)) :
    (evaluateRules e req searches false i (rule :: rest)).map Prod.fst =
      (evaluateRules e req searches false (i + 1) rest).map Prod.fst := by
  rw [evaluateRules, h, Option.bind_some]
  dsimp only
  rw [Option.map_map]
  rfl

/-- The first rule that applies is the one that is applied, where each rule on the way can be
read and each malformed one is refused, and nowhere else. -/
theorem evaluateRules_iff (i : Nat) (rules : List Rule) :
    (evaluateRules e req searches false i rules).map Prod.fst =
        some (firstApplying e req searches i rules) ↔
      SafeWhereReached e req searches i rules := by
  induction rules generalizing i with
  | nil => simp [evaluateRules, firstApplying, SafeWhereReached]
  | cons rule rest ih =>
    rw [SafeWhereReached, firstApplying, refused_iff, unreadable_iff]
    by_cases hwell : wellFormed e rule = true
    · have hmatches := @ruleMatches_wellFormed e (searches i) req rule hwell
      rcases hverdict : ruleMatches e (searches i) req rule with _ | _ | field
      · rw [evaluateRules, hverdict]
        simp [hwell]
      · rw [evaluateRules, hverdict, hmatches.mp hverdict]
        simp [hwell]
      · have happlies : applies e (searches i) req rule = false := by
          rw [Bool.eq_false_iff]
          intro happlies
          rw [hmatches.mpr happlies] at hverdict
          cases hverdict
        rw [evaluateRules_refused hverdict, happlies, if_neg Bool.false_ne_true, ih]
        simp [hwell]
    · have happlies : applies e (searches i) req rule = false :=
        Bool.eq_false_iff.mpr fun h => hwell (wellFormed_of_applies h)
      rw [happlies, if_neg Bool.false_ne_true]
      rcases hverdict : ruleMatches e (searches i) req rule with _ | _ | field
      · rw [evaluateRules, hverdict]
        simp [hwell]
      · -- a malformed rule is applied, which no well-formed one can be
        rw [evaluateRules, hverdict]
        constructor
        · intro h
          have hfirst : firstApplying e req searches (i + 1) rest = some rule :=
            (Option.some.inj h).symm
          exact absurd (wellFormed_of_firstApplying hfirst) hwell
        · rintro ⟨hrefused, -, -⟩
          obtain ⟨field, hfield⟩ := hrefused (Bool.eq_false_iff.mpr hwell)
          cases hfield
      · rw [evaluateRules_refused hverdict, ih]
        simp [hwell]

variable (e searches)

/-- No enabled rule has an infinite priority. -/
def PrioritiesFinite (cfg : Yaml) : Prop :=
  ∀ rule ∈ enabledRules cfg, ∀ negative, get? rule "priority" ≠ some (.infinite negative)

/-- Rules are evaluated, no malformed one matches, and what is applied is the first that
applies. -/
structure FailsSafe (ctx : Ctx) (cfg : Yaml) : Prop where
  applied : ∃ rules, normalizeRules e cfg = some rules ∧
    matchForCtx e searches ctx cfg = some (firstApplying e ctx.request searches 0 rules)
  malformed : ∀ rules, normalizeRules e cfg = some rules → ∀ (i : Nat) (rule : Rule),
    rules[i]? = some rule → wellFormed e rule = false →
    ruleMatches e (searches i) ctx.request rule ≠ some none

/-- Priorities are finite, every malformed rule that is reached has a condition that fails before
any that cannot be read, every well-formed one a condition that fails before a parameter without
text, and no other malformed rule has only conditions that pass. -/
structure Readable (ctx : Ctx) (cfg : Yaml) : Prop where
  priorities : PrioritiesFinite cfg
  notPassed : ∀ rules, normalizeRules e cfg = some rules → ∀ (i : Nat) (rule : Rule),
    rules[i]? = some rule → wellFormed e rule = false → NotPassed e (searches i) ctx.request rule
  reached : ∀ rules, normalizeRules e cfg = some rules →
    SafeWhereReached e ctx.request searches 0 rules

variable {e searches}

theorem asInt_eq_none_iff {v : Yaml} : asInt e v = none ↔ ∃ negative, v = .infinite negative := by
  constructor
  · intro h
    cases v with
    | infinite negative => exact ⟨negative, rfl⟩
    | _ => cases h
  · rintro ⟨negative, rfl⟩
    rfl

theorem normalizeRules_isSome_iff {cfg : Yaml} :
    (∃ rules, normalizeRules e cfg = some rules) ↔ PrioritiesFinite cfg := by
  have hpriority (rule : Rule) : (priority e rule).isSome = true ↔
      ∀ negative, get? rule "priority" ≠ some (.infinite negative) := by
    rw [Option.isSome_iff_ne_none, priority, ne_eq, asInt_eq_none_iff]
    cases get? rule "priority" with
    | none => simp
    | some v => simp
  rw [normalizeRules, PrioritiesFinite]
  by_cases hall : ((enabledRules cfg).all fun rule => (priority e rule).isSome) = true
  · rw [if_pos hall]
    rw [List.all_eq_true] at hall
    refine ⟨fun _ rule hrule => (hpriority rule).mp (hall rule hrule), fun _ => ⟨_, rfl⟩⟩
  · rw [if_neg hall]
    constructor
    · rintro ⟨rules, h⟩
      cases h
    · intro h
      rw [List.all_eq_true] at hall
      exact absurd (fun rule hrule => (hpriority rule).mpr (h rule hrule)) hall

theorem matchForCtx_eq {ctx : Ctx} {cfg : Yaml} {rules : List Rule}
    (h : normalizeRules e cfg = some rules) : matchForCtx e searches ctx cfg =
      (evaluateRules e ctx.request searches false 0 rules).map Prod.fst := by
  rw [matchForCtx, h, Option.bind_some]
  cases rules with
  | nil => rfl
  | cons rule rest => rfl

def asciiEngine : Engine where
  lower := fun s => s
  intOf := fun _ => none
  strOf := fun _ => some ""
  compiles := fun _ => false

/-- A request that says `ship it`. -/
def shipIt : Ctx where
  messages := [⟨.str "user", .str "ship it"⟩]
  currentTokenCount := 2
  model := "gpt-4o-mini"
  params := []
  routingHeaders := none
  userId := ""

/-- One rule with one entry in its match block. -/
def oneRule (key : String) (value : Yaml) : Rule :=
  [(.str "match", .dict [(.str key, value)]), (.str "action", .dict [(.str "tier", .str "simple")])]

def configOf (rule : Rule) : Yaml := .dict [(.str "rules", .list [.dict rule])]

theorem normalizeRules_configOf (key : String) (value : Yaml) :
    normalizeRules asciiEngine (configOf (oneRule key value)) = some [oneRule key value] := by
  have henabled : enabledRules (configOf (oneRule key value)) = [oneRule key value] := rfl
  rw [normalizeRules, henabled, List.mergeSort_singleton]
  rfl

end TokenProxy.Rules
