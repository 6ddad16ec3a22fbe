/-
  TokenProxy/ToolPolicy.lean
  ==========================
  **Tool-call eligibility: deny, then allow, then default**
  (`guardrails/tool_policy.py`).

  A policy is two lists of glob patterns and a default.  Section 1 is
  `fnmatch.fnmatchcase`: a pattern is translated to a list of items, one for each
  element of the regular expression that `fnmatch.translate` builds, and the
  items are matched against the whole name.  Section 2 is `evaluate_tool`.
-/
import TokenProxy.PyJson
import Mathlib.Data.List.Infix

namespace TokenProxy.Tools

/-! ## 1. Glob patterns -/

inductive ClassMember where
  | one (c : Char)
  | range (lo hi : Char)
deriving DecidableEq, Repr

inductive GlobItem where
  | star
  | anyOne
  | char (c : Char)
  | oneOf (negated : Bool) (members : List ClassMember)
  /-- a class whose ranges are all empty -/
  | never
deriving DecidableEq, Repr

def ClassMember.admits : ClassMember → Char → Bool
  | .one c, x => decide (x = c)
  | .range lo hi, x => decide (lo ≤ x) && decide (x ≤ hi)

def GlobItem.admits : GlobItem → Char → Bool
  | .star, _ => true
  | .anyOne, _ => true
  | .char c, x => decide (x = c)
  | .oneOf negated members, x => (members.any fun m => m.admits x) != negated
  | .never, _ => false

/-- What stands between `[` and its `]`, and what follows: a `!` and then a `]` in first
    position belong to the class.  `none` when the class is never closed. -/
def classBody (cs : List Char) : Option (List Char × List Char) :=
  let (bang, cs) := if cs.head? = some '!' then (['!'], cs.tail) else ([], cs)
  let (bracket, cs) := if cs.head? = some ']' then ([']'], cs.tail) else ([], cs)
  match cs.span (· ≠ ']') with
  | (_, []) => none
  | (body, _ :: rest) => some (bang ++ bracket ++ body, rest)

/-- Split at the hyphens that form a range.  The first `skip` characters are not looked at;
    after a range the next two are not. -/
def splitRanges : Nat → Nat → List Char → List (List Char)
  | 0, _, cs => [cs]
  | fuel + 1, skip, cs =>
    match (cs.drop skip).span (· ≠ '-') with
    | (_, []) => [cs]
    | (before, _ :: rest) => (cs.take skip ++ before) :: splitRanges fuel 2 rest

/-- A hyphen at the very end is a member, not a range. -/
def closeRanges (chunks : List (List Char)) : List (List Char) :=
  match chunks.reverse with
  | [] :: last :: earlier => ((last ++ ['-']) :: earlier).reverse
  | _ => chunks

/-- Remove the ranges whose bounds are the wrong way round, from the right. -/
def dropEmptyRanges : List (List Char) → List (List Char)
  | [] => []
  | chunk :: rest =>
    match dropEmptyRanges rest with
    | [] => [chunk]
    | next :: later =>
      match chunk.getLast?, next with
      | some lo, hi :: after =>
        if hi < lo then (chunk.dropLast ++ after) :: later else chunk :: next :: later
      | _, _ => chunk :: next :: later

/-- The members of a class: neighbouring chunks are joined by a range. -/
def classMembers : List Char → List (List Char) → List ClassMember
  | chunk, [] => chunk.map .one
  | chunk, next :: later =>
    match chunk.getLast?, next with
    | some lo, hi :: after => chunk.dropLast.map .one ++ .range lo hi :: classMembers after later
    | _, _ => chunk.map .one ++ .one '-' :: classMembers next later

def classItem (body : List Char) : GlobItem :=
  let chunks :=
    if '-' ∈ body then
      dropEmptyRanges
        (closeRanges (splitRanges body.length (if body.head? = some '!' then 2 else 1) body))
    else [body]
  match chunks with
  | [] => .never
  | [[]] => .never
  | [['!']] => .anyOne
  | ('!' :: chunk) :: later => .oneOf true (classMembers chunk later)
  | chunk :: later => .oneOf false (classMembers chunk later)

/-- `fnmatch.translate`; every round uses up a character of the pattern. -/
def translateFuel : Nat → List Char → List GlobItem
  | 0, _ => []
  | _, [] => []
  | fuel + 1, '*' :: cs => .star :: translateFuel fuel cs
  | fuel + 1, '?' :: cs => .anyOne :: translateFuel fuel cs
  | fuel + 1, '[' :: cs =>
    match classBody cs with
    | none => .char '[' :: translateFuel fuel cs
    | some (body, rest) => classItem body :: translateFuel fuel rest
  | fuel + 1, c :: cs => .char c :: translateFuel fuel cs

def translate (pattern : String) : List GlobItem :=
  translateFuel pattern.toList.length pattern.toList

def matchesItems : List GlobItem → List Char → Bool
  | [], cs => cs.isEmpty
  | .star :: items, cs => cs.tails.any (matchesItems items)
  | _ :: _, [] => false
  | item :: items, c :: cs => item.admits c && matchesItems items cs

def fnmatchcase (name pattern : String) : Bool := matchesItems (translate pattern) name.toList

theorem translateFuel_plain (cs : List Char)
    (hplain : ∀ c ∈ cs, c ≠ '*' ∧ c ≠ '?' ∧ c ≠ '[') :
    translateFuel cs.length cs = cs.map .char := by
  induction cs with
  | nil => rfl
  | cons c cs ih =>
    obtain ⟨hstar, hquestion, hbracket⟩ := hplain c List.mem_cons_self
    have htail := ih fun d hd => hplain d (List.mem_cons_of_mem c hd)
    rw [List.length_cons, List.map_cons, ← htail]
    rw [translateFuel]
    · exact fun h => hstar h
    · exact fun h => hquestion h
    · exact fun h => hbracket h

theorem matchesItems_plain (ps cs : List Char) :
    matchesItems (ps.map .char) cs = true ↔ cs = ps := by
  induction ps generalizing cs with
  | nil => simp [matchesItems]
  | cons p ps ih =>
    cases cs with
    | nil => simp [matchesItems]
    | cons c cs => simp [matchesItems, GlobItem.admits, ih cs]

example : fnmatchcase "db_delete" "*_delete" = true := by decide
example : fnmatchcase "x3" "x[!0-9]" = false := by decide
example : fnmatchcase "x]" "x[]a]" = true := by decide

/-! ## 2. Policies -/

inductive PolicyDefault where
  | allow
  | deny
deriving DecidableEq, Repr

structure ToolPolicy where
  allow : List String := []
  deny : List String := []
  default : PolicyDefault := .allow
deriving DecidableEq, Repr

/-- The policy can never deny anything. -/
def ToolPolicy.isNoop (policy : ToolPolicy) : Bool :=
  policy.allow.isEmpty && policy.deny.isEmpty && decide (policy.default = .allow)

inductive VerdictReason where
  | denyMatch
  | allowMatch
  | default
  | invalidName
deriving DecidableEq, Repr

structure ToolVerdict where
  allowed : Bool
  toolName : String := ""
  reason : VerdictReason := .default
  matchedPattern : Option String := none
deriving DecidableEq, Repr

/-- Deny, then allow, then the default; something that is no name is never allowed. -/
def evaluateTool (policy : ToolPolicy) (toolName : Json) : ToolVerdict :=
  match toolName with
  | .str name =>
    if name = "" then { allowed := false, reason := .invalidName }
    else
      match policy.deny.find? (fnmatchcase name) with
      | some pattern => ⟨false, name, .denyMatch, some pattern⟩
      | none =>
        match policy.allow.find? (fnmatchcase name) with
        | some pattern => ⟨true, name, .allowMatch, some pattern⟩
        | none => ⟨decide (policy.default = .allow), name, .default, none⟩
  | _ => { allowed := false, reason := .invalidName }

/-- The policy denies this function name. -/
def ToolPolicy.denies (policy : ToolPolicy) (name : Json) : Bool :=
  match name with
  | .str s => decide (s ≠ "") && !(evaluateTool policy name).allowed
  | _ => false

theorem not_denies_of_allowed {policy : ToolPolicy} {name : Json}
    (h : (evaluateTool policy name).allowed = true) : policy.denies name = false := by
  cases name with
  | str s => simp [ToolPolicy.denies, h]
  | _ => rfl

theorem not_denies_of_noop {policy : ToolPolicy} (h : policy.isNoop = true) (name : Json) :
    policy.denies name = false := by
  obtain ⟨allow, deny, default⟩ := policy
  simp only [ToolPolicy.isNoop, Bool.and_eq_true, List.isEmpty_iff, decide_eq_true_eq] at h
  obtain ⟨⟨rfl, rfl⟩, rfl⟩ := h
  cases name with
  | str s =>
    by_cases hs : s = ""
    · simp [ToolPolicy.denies, hs]
    · refine not_denies_of_allowed ?_
      simp [evaluateTool, hs]
  | _ => rfl

end TokenProxy.Tools
