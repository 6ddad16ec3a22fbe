/-
  TokenProxy/RoutingRules.lean
  ============================
  **Declarative routing rules** (`middleware/g06_rules.py`).

  A tenant's or the operator's rules are whatever stands in the config, of any shape.  The
  enabled ones are put in order of priority, and the first whose `match` block passes is
  applied.  A check reads one key of the block: it passes, fails, or raises.

  The time limit on pattern searches is the engine's: what a search of a rule reports, within
  what is left of the request's budget, comes in from outside by the rule's place.
-/
import Mathlib.Data.Rat.Defs
import Mathlib.Data.List.Infix
import Mathlib.Data.List.Sort

namespace TokenProxy.Rules

/-! ## 1. Values -/

/-- What YAML and JSON parse to in Python. -/
inductive Yaml where
  | null
  | bool (b : Bool)
  | int (n : Int)
  | float (q : ℚ)
  | infinite (negative : Bool)
  | nan
  | str (s : String)
  /-- a timestamp -/
  | date (text : String)
  | list (items : List Yaml)
  | dict (entries : List (Yaml × Yaml))

abbrev Entries := List (Yaml × Yaml)

namespace Yaml

def truthy : Yaml → Bool
  | .null => false
  | .bool b => b
  | .int n => decide (n ≠ 0)
  | .float q => decide (q ≠ 0)
  | .str s => decide (s ≠ "")
  | .list items => !items.isEmpty
  | .dict entries => !entries.isEmpty
  | .infinite _ => true
  | .nan => true
  | .date _ => true

def isStr (s : String) : Yaml → Bool
  | .str t => decide (t = s)
  | _ => false

/-- `for element in value`; `none` raises. -/
def elements : Yaml → Option (List Yaml)
  | .str s => some (s.toList.map fun c => .str (String.ofList [c]))
  | .list items => some items
  | .dict entries => some (entries.map Prod.fst)
  | _ => none

end Yaml

/-- `entries.get(key)`. -/
def get? (entries : Entries) (key : String) : Option Yaml :=
  (entries.find? fun entry => entry.1.isStr key).map Prod.snd

def isSubstring (sub s : String) : Bool := decide (sub.toList <:+: s.toList)

/-- `s in value`; `none` raises. -/
def isIn (s : String) : Yaml → Option Bool
  | .str t => some (isSubstring s t)
  | value => value.elements.map fun items => items.any (Yaml.isStr s)

/-- The strings and patterns of the interpreter. -/
structure Engine where
  /-- `str.lower` -/
  lower : String → String
  /-- `int(text)`; `none` raises `ValueError` -/
  intOf : String → Option Int
  /-- `str(value)`; `none` raises `ValueError`, as of an integer of more than 4300 digits -/
  strOf : Yaml → Option String
  /-- the pattern compiles -/
  compiles : String → Bool

variable (e : Engine)

/-- `_as_int`; `none` where `int` overflows. -/
def asInt : Yaml → Option Int
  | .bool b => some (if b then 1 else 0)
  | .int n => some n
  | .float q => some (q.num.tdiv q.den)
  | .infinite _ => none
  | .str s => some ((e.intOf s).getD 0)
  | _ => some 0

/-! ## 2. One rule -/

/-- What rules are matched against. -/
structure Request where
  text : String
  promptTokens : Int
  model : String
  hasTools : Bool
  params : List (String × Yaml)
  userId : String

/-- What a pattern search reports: found, not found, or out of time. -/
abbrev Search := String → Option Bool

abbrev Rule := Entries

def maxRules : Nat := 100
def maxPatternLen : Nat := 512
def maxMatchTextChars : Nat := 20000

/-- What a check says: `none` where it raises, else the field that failed, if any. -/
abbrev Check := Option (Option String)

/-- A passing check fails nothing. -/
def checked (field : String) (passes : Bool) : Check :=
  some (if passes then none else some field)

variable (search : Search) (req : Request) (entries : Entries)

def keywordIn (text : String) : Yaml → Bool
  | .str k => decide (k ≠ "") && isSubstring (e.lower k) (e.lower text)
  | _ => false

def keywordsCheck : Check :=
  match get? entries "keywords" with
  | none => some none
  | some keywords =>
    if keywords.truthy then
      keywords.elements.bind fun items => checked "keywords" (items.any (keywordIn e req.text))
    else some none

/-- `_compile_pattern` gives a pattern. -/
def usable (pattern : String) : Bool :=
  decide (pattern ≠ "") && decide (pattern.length ≤ maxPatternLen) && e.compiles pattern

/-- Whether a pattern hits, and whether one has run out of time before. -/
def searchPatterns : Bool → List Yaml → Bool × Bool
  | timedOut, [] => (false, timedOut)
  | timedOut, .str pattern :: rest =>
    if usable e pattern then
      match search pattern with
      | some true => (true, timedOut)
      | some false => searchPatterns timedOut rest
      | none => searchPatterns true rest
    else searchPatterns timedOut rest
  | timedOut, _ :: rest => searchPatterns timedOut rest

def patternsCheck : Check :=
  match get? entries "patterns" with
  | none => some none
  | some patterns =>
    if patterns.truthy then
      patterns.elements.bind fun items =>
        let found := searchPatterns e search false items
        checked (if found.2 then "patterns (timed out)" else "patterns") found.1
    else some none

/-- A token bound; `within` compares the prompt with it. -/
def boundCheck (field : String) (within : Int → Bool) : Check :=
  (asInt e ((get? entries field).getD .null)).bind fun n =>
    checked field (decide (n = 0) || within n)

def minCheck : Check :=
  boundCheck e entries "min_prompt_tokens" fun n => decide (n ≤ req.promptTokens)

def maxCheck : Check :=
  boundCheck e entries "max_prompt_tokens" fun n => decide (req.promptTokens ≤ n)

/-- `models` and `user_ids`: the request's own value is among them. -/
def memberCheck (field value : String) : Check :=
  match get? entries field with
  | none => some none
  | some values =>
    if values.truthy then (isIn value values).bind fun found => checked field found
    else some none

def modelsCheck : Check := memberCheck entries "models" req.model

def hasToolsCheck : Check :=
  match get? entries "has_tools" with
  | none => some none
  | some wanted => checked "has_tools" (req.hasTools == wanted.truthy)

/-- `any(str(actual) == str(w) for w in wanted)`; `none` raises. -/
def anyPrintsAs (actual : Yaml) : List Yaml → Option Bool
  | [] => some false
  | w :: rest => do
    let a ← e.strOf actual
    let b ← e.strOf w
    if a = b then some true else anyPrintsAs actual rest

/-- One parameter has one of the values that are wanted; `none` raises. -/
def paramHolds (entry : Yaml × Yaml) : Option Bool :=
  let actual := match entry.1 with
    | .str key => ((req.params.find? fun p => p.1 = key).map Prod.snd).getD .null
    | _ => .null
  let wanted := match entry.2 with
    | .list items => items
    | value => [value]
  anyPrintsAs e actual wanted

/-- The parameters in turn. -/
def checkParams : Entries → Check
  | [] => some none
  | entry :: rest =>
    match paramHolds e req entry with
    | some true => checkParams rest
    | some false => (e.strOf entry.1).map fun key => some ("params." ++ key)
    | none => none

def paramsCheck : Check :=
  match get? entries "params" with
  | some (.dict wanted) => checkParams e req wanted
  | _ => some none

def userIdsCheck : Check := memberCheck entries "user_ids" req.userId

def checks : List Check :=
  [keywordsCheck e req entries, patternsCheck e search entries, minCheck e req entries,
    maxCheck e req entries, modelsCheck req entries, hasToolsCheck req entries,
    paramsCheck e req entries, userIdsCheck req entries]

/-- The checks in turn, up to the first that fails or raises. -/
def firstFailure : List Check → Check
  | [] => some none
  | some none :: rest => firstFailure rest
  | verdict :: _ => verdict

/-- `rule_matches`: the field that failed; `some none` for a match. -/
def ruleMatches (rule : Rule) : Check :=
  match get? rule "match" with
  | some (.dict (entry :: entries)) => firstFailure (checks e search req (entry :: entries))
  | _ => some (some "match")

/-! ## 3. A list of rules -/

def isEnabled (rule : Rule) : Bool :=
  match get? rule "enabled" with
  | none => true
  | some enabled => enabled.truthy

/-- `_priority`; `none` raises. -/
def priority (rule : Rule) : Option Int := asInt e ((get? rule "priority").getD (.int 0))

/-- The rules that stand in the config and are not disabled. -/
def enabledRules (cfg : Yaml) : List Rule :=
  match cfg with
  | .dict cfg =>
    match get? cfg "rules" with
    | some (.list raw) => raw.filterMap fun
      | .dict rule => if isEnabled rule then some rule else none
      | _ => none
    | _ => []
  | _ => []

/-- `normalize_rules`; `none` where a priority cannot be read. -/
def normalizeRules (cfg : Yaml) : Option (List Rule) :=
  let rules := enabledRules cfg
  if rules.all fun rule => (priority e rule).isSome then
    some ((rules.mergeSort fun a b =>
      decide ((priority e b).getD 0 ≤ (priority e a).getD 0)).take maxRules)
  else none

structure TraceRow where
  id : Yaml
  matched : Bool
  failedOn : String

/-- `evaluate_rules`, from the rule at place `i`; `none` where a check raises. -/
def evaluateRules (searches : Nat → Search) (explain : Bool) (i : Nat) :
    List Rule → Option (Option Rule × List TraceRow)
  | [] => some (none, [])
  | rule :: rest =>
    (ruleMatches e (searches i) req rule).bind fun failed =>
      let row : List TraceRow :=
        if explain then
          [⟨(get? rule "id").getD (.str "?"), failed.isNone, failed.getD ""⟩]
        else []
      match failed with
      | none => some (some rule, row)
      | some _ =>
        (evaluateRules searches explain (i + 1) rest).map fun out => (out.1, row ++ out.2)

structure Message where
  role : Yaml
  content : Yaml

/-- `_match_text`. -/
def matchText (messages : List Message) : String :=
  let texts (ms : List Message) := ms.filterMap fun m =>
    match m.content with
    | .str s => some s
    | _ => none
  let query := texts (messages.filter fun m => !m.role.isStr "system")
  let text := " ".intercalate (if query.isEmpty then texts messages else query)
  String.ofList (text.toList.take maxMatchTextChars)

/-- What `match_for_ctx` reads of a request. -/
structure Ctx where
  messages : List Message
  currentTokenCount : Int
  model : String
  params : List (String × Yaml)
  /-- the caller's `X-*` headers, where the context has them -/
  routingHeaders : Option (List (String × Yaml))
  userId : String

/-- The primitives that rules see; a header wins over a parameter of its name. -/
def Ctx.request (ctx : Ctx) : Request where
  text := matchText ctx.messages
  promptTokens := ctx.currentTokenCount
  model := ctx.model
  hasTools := ((ctx.params.find? fun p => p.1 = "tools").map Prod.snd).any Yaml.truthy
  params := ctx.routingHeaders.getD [] ++ ctx.params
  userId := ctx.userId

/-- `match_for_ctx`: the rule to apply, if any; `none` where it raises. -/
def matchForCtx (searches : Nat → Search) (ctx : Ctx) (cfg : Yaml) : Option (Option Rule) :=
  (normalizeRules e cfg).bind fun rules =>
    if rules.isEmpty then some none
    else (evaluateRules e ctx.request searches false 0 rules).map Prod.fst

end TokenProxy.Rules
