/-
  TokenProxy/InjectionScanner.lean
  ================================
  **The prompt-injection scanner: its ruleset, the threshold, and what it reports.**

  Source: `guardrails/injection.py` (`DEFAULT_INJECTION_RULES`, `tenant_capped_threshold`,
  `InjectionScanner`) and `middleware/g30_guardrails.py` (`_config`, `_get_scanner`).

  A rule is compiled when the scanner is built; the rules that `re.compile` refuses with
  `re.error` are left out, and any other exception stops the building.  The threshold is capped
  at the strongest rule that was compiled.  A scan keeps the strongest rule that matches, so it
  reports a text exactly when *some* matching rule reaches the threshold (`scan_matched_iff`).

  The regular expressions are a parameter (`Re`): a source compiles to a pattern, is refused, or
  makes `re.compile` raise something else, and a pattern finds a first match or none.
-/
import TokenProxy.FloatOrder
import TokenProxy.HalfEven
import TokenProxy.PyJson
import TokenProxy.Raising
import Mathlib.Data.Rat.Floor
import Mathlib.Tactic.NormNum

namespace TokenProxy.Injection

open FloatOrder Raising

/-! ## 1. The shipped rules -/

def instructionOverride : String := "instruction_override"
def systemPromptExfil : String := "system_prompt_exfil"
def rolePlayJailbreak : String := "role_play_jailbreak"
def restrictionBypass : String := "restriction_bypass"

/-- A rule as the source writes it: `(id, category, severity, pattern)`. -/
structure RuleSource where
  id : String
  category : String
  severity : ℚ
  pattern : String

def RuleSource.toJson (rule : RuleSource) : Json :=
  .arr [.str rule.id, .str rule.category, .float rule.severity, .str rule.pattern]

/-- `DEFAULT_INJECTION_RULES`. -/
def defaultInjectionRules : List RuleSource := [
  ⟨"override.ignore_instructions", instructionOverride, 9 / 10,
    "\\b(?:ignore|disregard|forget|override|discard|bypass)\\b[^.\\n]\x7b0,40\x7d?\\b" ++
      "(?:previous|prior|earlier|above|preceding|all|any|the|your|these)?\\b" ++
      "[^.\\n]\x7b0,20\x7d?\\b(?:instructions?|prompts?|rules?|directions?|guidelines?|" ++
      "commands?|system\\s+prompt)\\b"⟩,
  ⟨"override.new_instructions_supersede", instructionOverride, 8 / 10,
    "\\b(?:from now on|new instructions?:|your real instructions?)\\b" ++
      "[^.\\n]\x7b0,40\x7d\\b(?:ignore|disregard|instead|override)\\b"⟩,
  ⟨"exfil.reveal_system_prompt", systemPromptExfil, 9 / 10,
    "\\b(?:reveal|show|print|repeat|output|display|reveal to me|tell me|give me|" ++
      "what\\s+(?:is|are))\\b[^.\\n]\x7b0,30\x7d?\\b(?:your\\s+)?(?:system\\s+prompt|" ++
      "initial\\s+instructions?|(?:the\\s+)?(?:hidden|secret|original)\\s+" ++
      "(?:instructions?|prompt))\\b"⟩,
  ⟨"exfil.repeat_text_above", systemPromptExfil, 8 / 10,
    "\\brepeat\\b[^.\\n]\x7b0,20\x7d\\b(?:the\\s+)?(?:words?|text|everything|prompt)\\b" ++
      "[^.\\n]\x7b0,10\x7d\\babove\\b"⟩,
  ⟨"jailbreak.dan_dev_mode", rolePlayJailbreak, 95 / 100,
    "\\b(?:DAN\\b|do anything now|developer mode|dev mode enabled|STAN\\b|AIM\\b)"⟩,
  ⟨"jailbreak.you_are_now_unrestricted", rolePlayJailbreak, 9 / 10,
    "\\byou are (?:now )?(?:DAN\\b|an?\\s+(?:unfiltered|unrestricted|uncensored|amoral|" ++
      "jailbroken)\\b)"⟩,
  ⟨"jailbreak.pretend_no_restrictions", rolePlayJailbreak, 85 / 100,
    "\\b(?:pretend|imagine|roleplay|role-play|act)\\b[^.\\n]\x7b0,40\x7d?\\b(?:no\\s+" ++
      "(?:restrictions?|rules?|filters?|limits?|guidelines?|morals?)|unfiltered|" ++
      "unrestricted|uncensored|jailbroken)\\b"⟩,
  ⟨"bypass.disable_safety", restrictionBypass, 9 / 10,
    "\\b(?:bypass|disable|turn off|switch off|circumvent|evade|deactivate|override)\\b" ++
      "[^.\\n]\x7b0,30\x7d?\\b(?:safety\\s+(?:filters?|guidelines?|guardrails?|settings?|" ++
      "measures?|protocols?|controls?|checks?)|guardrails?|content\\s+(?:filters?|policy|" ++
      "moderation)|moderation|restrictions?|safeguards?|content\\s+filters?)\\b"⟩,
  ⟨"bypass.without_restrictions", restrictionBypass, 8 / 10,
    "\\bwithout\\s+(?:any\\s+)?(?:restrictions?|filters?|censorship|limits?|" ++
      "guardrails?|safety|moral\\s+(?:constraints?|guidelines?))\\b"⟩,
  ⟨"bypass.jailbreak_literal", restrictionBypass, 85 / 100,
    "\\bjailbreak\\b"⟩]

/-- `min(r[2] for r in DEFAULT_INJECTION_RULES)`. -/
def maxTenantThreshold : ℚ :=
  ((defaultInjectionRules.map RuleSource.severity).min?).getD 0

/-- The severity of the strongest shipped rule. -/
def strongestShipped : ℚ :=
  ((defaultInjectionRules.map RuleSource.severity).max?).getD 0

theorem maxTenantThreshold_le {rule : RuleSource} (h : rule ∈ defaultInjectionRules) :
    maxTenantThreshold ≤ rule.severity := by
  obtain ⟨least, hleast⟩ := Option.isSome_iff_exists.mp
    (List.isSome_min?_of_mem (List.mem_map_of_mem (f := RuleSource.severity) h))
  rw [maxTenantThreshold, hleast]
  exact (List.min?_eq_some_iff.mp hleast).2 _ (List.mem_map_of_mem h)

theorem strongestShipped_eq : strongestShipped = 95 / 100 := by
  norm_num [strongestShipped, defaultInjectionRules, List.max?]

theorem exists_strongestShipped :
    ∃ rule ∈ defaultInjectionRules, rule.severity = strongestShipped := by
  obtain ⟨most, hmost⟩ := Option.isSome_iff_exists.mp
    (List.isSome_max?_of_ne_nil (l := defaultInjectionRules.map RuleSource.severity) nofun)
  rw [strongestShipped, hmost]
  exact List.mem_map.mp (List.max?_eq_some_iff.mp hmost).1

theorem severity_le_strongestShipped {rule : RuleSource} (h : rule ∈ defaultInjectionRules) :
    rule.severity ≤ strongestShipped := by
  obtain ⟨most, hmost⟩ := Option.isSome_iff_exists.mp
    (List.isSome_max?_of_mem (List.mem_map_of_mem (f := RuleSource.severity) h))
  rw [strongestShipped, hmost]
  exact (List.max?_eq_some_iff.mp hmost).2 _ (List.mem_map_of_mem h)

/-! ## 2. Python's numbers -/

inductive Raised where
  | typeError
  | valueError
  | overflowError
  | attributeError
  | recursionError
deriving DecidableEq

/-- The nearest double to an integer in range. -/
def nearestDouble (n : ℤ) : ℚ :=
  let unit : ℚ := 2 ^ (Nat.log2 n.natAbs - 52)
  HalfEven.halfEven ((n : ℚ) / unit) * unit

/-- Half a unit above the largest double, from where on an integer has no nearest double. -/
def doubleLimit : ℕ := 2 ^ 1024 - 2 ^ 970

/-- `float(value)`, with `parse` for what it reads in a text. -/
def toFloat (parse : String → Option PyFloat) : Json → Except Raised PyFloat
  | .bool b => .ok (.finite (if b then 1 else 0))
  | .int n =>
    if n.natAbs < doubleLimit then .ok (.finite (nearestDouble n)) else .error .overflowError
  | .float q => .ok (.finite q)
  | .str s =>
    match parse s with
    | some x => .ok x
    | none => .error .valueError
  | _ => .error .typeError

/-! ## 3. Compiling the rules -/

/-- What `re.compile` comes to. -/
inductive Compiled (π : Type) where
  | pattern (p : π)
  | reError
  | raises (e : Raised)

/-- The regular expressions, compiled without regard to case: `search` gives the text of the
    first match. -/
structure Re where
  Pattern : Type
  compile : String → Compiled Pattern
  search : Pattern → String → Option String

variable (re : Re)

/-- `rid, cat, sev, src = rule`. -/
def unpackRule : Json → Except Raised (Json × Json × Json × Json)
  | .arr [rid, cat, sev, src] => .ok (rid, cat, sev, src)
  | .str s =>
    match s.toList with
    | [rid, cat, sev, src] =>
      .ok (.str (String.singleton rid), .str (String.singleton cat),
        .str (String.singleton sev), .str (String.singleton src))
    | _ => .error .valueError
  | .obj [(rid, _), (cat, _), (sev, _), (src, _)] =>
    .ok (.str rid, .str cat, .str sev, .str src)
  | .arr _ => .error .valueError
  | .obj _ => .error .valueError
  | _ => .error .typeError

/-- A rule that was compiled, its severity as it came. -/
structure CompiledRule where
  id : Json
  category : Json
  severity : Json
  pattern : re.Pattern

/-- One turn of the loop that compiles the rules; `none` for `continue`. -/
def compileRule (rule : Json) : Except Raised (Option (CompiledRule re)) := do
  let (rid, cat, sev, src) ← unpackRule rule
  match src with
  | .str src =>
    match re.compile src with
    | .pattern p => .ok (some ⟨rid, cat, sev, p⟩)
    | .reError => .ok none
    | .raises e => .error e
  | _ => .error .typeError

/-- A rule in force. -/
structure Rule where
  id : Json
  category : Json
  severity : ℚ
  pattern : re.Pattern

/-- A severity that is no number cannot be compared with the threshold: `max` or `min` raises. -/
def withSeverity (rule : CompiledRule re) : Except Raised (Option (Rule re)) :=
  match rule.severity.number? with
  | some q => .ok (some ⟨rule.id, rule.category, q, rule.pattern⟩)
  | none => .error .typeError

/-! ## 4. The scanner -/

structure InjectionScanner where
  rules : List (Rule re)
  threshold : PyFloat

variable {re}

/-- `min(threshold, max((r[2] for r in compiled), default=threshold))`. -/
def cappedThreshold (threshold : PyFloat) : List (Rule re) → PyFloat
  | [] => threshold
  | rule :: rest => threshold.cap (extended (maxOf rule.severity (rest.map Rule.severity)))

variable (re)

/-- `InjectionScanner(rules, extra_rules=extra_rules, threshold=threshold)`. -/
def InjectionScanner.init (rules extraRules : List Json) (threshold : PyFloat) :
    Except Raised (InjectionScanner re) := do
  let compiled ← collectM (compileRule re) (rules ++ extraRules)
  let active ← collectM (withSeverity re) compiled
  .ok ⟨active, cappedThreshold threshold active⟩

variable {re}

structure InjectionVerdict where
  matched : Bool
  category : Option Json := none
  ruleId : Option Json := none
  score : ℚ := 0
  categories : List Json := []
  evidence : String := ""

/-- `if best is None or sev > best[2]: best = ...`. -/
def stronger (best : Option (Rule re × String)) (new : Rule re × String) : Rule re × String :=
  match best with
  | none => new
  | some b => if b.1.severity < new.1.severity then new else b

/-- The loop of `scan`: the strongest match so far, the earliest of equals, and the
    categories that fired. -/
def scanRules (text : String) :
    List (Rule re) → Option (Rule re × String) → List Json →
      Option (Rule re × String) × List Json
  | [], best, categories => (best, categories)
  | rule :: rest, best, categories =>
    match re.search rule.pattern text with
    | none => scanRules text rest best categories
    | some found =>
      let categories :=
        if categories.any (Json.pyEq rule.category) then categories
        else categories ++ [rule.category]
      scanRules text rest (some (stronger best (rule, found))) categories

def snippet (found : String) : String :=
  if 80 < found.length then String.ofList (found.toList.take 77) ++ "..." else found

def InjectionScanner.scan (scanner : InjectionScanner re) (text : String) : InjectionVerdict :=
  if text = "" then { matched := false }
  else
    match scanRules text scanner.rules none [] with
    | (none, categories) => { matched := false, categories := categories }
    | (some (rule, found), categories) =>
      if (PyFloat.finite rule.severity).lt scanner.threshold then
        { matched := false, categories := categories }
      else
        { matched := true
          category := some rule.category
          ruleId := some rule.id
          score := rule.severity
          categories := categories
          evidence := snippet found }

/-! ## 5. The scanner of a request -/

/-- The tenant's own settings for a group; `.get` on what is no dict raises. -/
def ownGroup (overrides : Json) (groupKey : String) : Except Raised Json :=
  match overrides with
  | .obj _ =>
    match (overrides.getD "groups" .null).orElse (.obj []) with
    | .obj groups => .ok (((Json.obj groups).getD groupKey .null).orElse (.obj []))
    | _ => .error .attributeError
  | _ => .ok (.obj [])

/-- The threshold in force, `0.5` where the group sets none. -/
def configured (cfg : Json) : Json := cfg.getD "threshold" (.float (1 / 2))

/-- The operator's value, or a value within the cap. -/
def keepsConfigured (parse : String → Option PyFloat) (cfg own : Json) : Except Raised Bool := do
  let inForce ← toFloat parse (configured cfg)
  let theirs ← toFloat parse own
  .ok (!inForce.eq theirs || inForce.le (PyFloat.finite maxTenantThreshold))

/-- The cap, unless the configured threshold stays; `except (TypeError, ValueError)` catches
    nothing else. -/
def withCap (cfg : Json) : Except Raised Bool → Except Raised Json
  | .ok true => .ok cfg
  | .ok false => .ok (cfg.set "threshold" (.float maxTenantThreshold))
  | .error .typeError => .ok cfg
  | .error .valueError => .ok cfg
  | .error e => .error e

def tenantCappedThreshold (parse : String → Option PyFloat) (cfg overrides : Json)
    (groupKey : String) : Except Raised Json := do
  let own ← ownGroup overrides groupKey
  match own.get? "threshold" with
  | none => .ok cfg
  | some threshold => withCap cfg (keepsConfigured parse cfg threshold)

/-- The lists of four in `cfg.get("extra_rules") or []`. -/
def extraTuples (cfg : Json) : Except Raised (List Json) :=
  match (cfg.getD "extra_rules" .null).orElse (.arr []) with
  | .arr rules => .ok (rules.filter fun rule => (rule.items?.map List.length) == some 4)
  | .str _ => .ok []
  | .obj _ => .ok []
  | _ => .error .typeError

variable (re)

/-- `DEFAULT_INJECTION_RULES`, as the scanner unpacks them. -/
def shippedRules : List Json := defaultInjectionRules.map RuleSource.toJson

def getScanner (parse : String → Option PyFloat) (cfg : Json) :
    Except Raised (InjectionScanner re) := do
  let threshold ← toFloat parse (configured cfg)
  let extra ← extraTuples cfg
  InjectionScanner.init re shippedRules extra threshold

/-- The scanner that G30 uses for a request: `_config`, then `_get_scanner`. -/
def guardrailScanner (parse : String → Option PyFloat) (cfg overrides : Json) :
    Except Raised (InjectionScanner re) := do
  let cfg ← tenantCappedThreshold parse cfg overrides "G30_guardrails"
  getScanner re parse cfg

variable {re}

/-! ## 6. What is built -/

variable (re)

/-- The rule in force that a value comes to, if it comes to one. -/
def ruleOf? (source : Json) : Option (Rule re) :=
  (found? (compileRule re) source).bind (found? (withSeverity re))

/-- The value is left out or comes to a rule: nothing raises on it. -/
def Readable (source : Json) : Prop :=
  Returns (compileRule re source) ∧
    ∀ rule, found? (compileRule re) source = some rule → Returns (withSeverity re rule)

variable {re}

theorem init_eq_ok_iff {rules extraRules : List Json} {threshold : PyFloat}
    {scanner : InjectionScanner re} :
    InjectionScanner.init re rules extraRules threshold = .ok scanner ↔
      (∀ source ∈ rules ++ extraRules, Readable re source) ∧
      scanner = ⟨(rules ++ extraRules).filterMap (ruleOf? re),
        cappedThreshold threshold ((rules ++ extraRules).filterMap (ruleOf? re))⟩ := by
  rw [InjectionScanner.init]
  generalize rules ++ extraRules = sources
  constructor
  · intro h
    obtain ⟨compiled, hcompiled, h⟩ := bind_eq_ok_iff.mp h
    obtain ⟨active, hactive, h⟩ := bind_eq_ok_iff.mp h
    obtain ⟨hread, rfl⟩ := collectM_eq_ok_iff.mp hcompiled
    obtain ⟨hnumber, rfl⟩ := collectM_eq_ok_iff.mp hactive
    rw [List.filterMap_filterMap] at h
    refine ⟨fun source hsource => ⟨hread source hsource, fun rule hrule => ?_⟩, ?_⟩
    · exact hnumber rule (List.mem_filterMap.mpr ⟨source, hsource, hrule⟩)
    · exact (Except.ok.inj h).symm
  · rintro ⟨hread, rfl⟩
    have hcompiled := collectM_eq_ok_iff.mpr ⟨fun source hs => (hread source hs).1, rfl⟩
    have hactive : collectM (withSeverity re) (sources.filterMap (found? (compileRule re))) =
        .ok (sources.filterMap (ruleOf? re)) := by
      refine collectM_eq_ok_iff.mpr ⟨fun rule hrule => ?_, (List.filterMap_filterMap ..).symm⟩
      obtain ⟨source, hsource, hfound⟩ := List.mem_filterMap.mp hrule
      exact (hread source hsource).2 rule hfound
    exact bind_eq_ok_iff.mpr ⟨_, hcompiled, bind_eq_ok_iff.mpr ⟨_, hactive, rfl⟩⟩

/-- A severity reaches the capped threshold when it reaches the threshold itself, or when no
    rule is stronger. -/
theorem atLeast_cappedThreshold_iff {q : ℚ} {threshold : PyFloat} {rules : List (Rule re)}
    (hne : rules ≠ []) :
    (cappedThreshold threshold rules).AtLeast (extended q) ↔
      threshold.AtLeast (extended q) ∨ ∀ rule ∈ rules, rule.severity ≤ q := by
  cases rules with
  | nil => exact absurd rfl hne
  | cons rule rest =>
    rw [cappedThreshold, MaybeNan.atLeast_cap_iff, extended_le_extended, maxOf_le_iff,
      List.forall_mem_map, List.forall_mem_cons]

/-! ## 7. What is reported -/

/-- The rule matches the text. -/
def Rule.Hits (rule : Rule re) (text : String) : Prop :=
  (re.search rule.pattern text).isSome = true

/-- The match in hand reaches the bound. -/
def BestReaches (bound : PyFloat) (best : Option (Rule re × String)) : Prop :=
  ∃ b, best = some b ∧ bound.AtLeast (extended b.1.severity)

theorem bestReaches_some {bound : PyFloat} {b : Rule re × String} :
    BestReaches bound (some b) ↔ bound.AtLeast (extended b.1.severity) := by
  constructor
  · rintro ⟨_, ⟨⟩, h⟩
    exact h
  · exact fun h => ⟨b, rfl, h⟩

/-- A match is only ever replaced by a stronger one. -/
theorem bestReaches_stronger_iff {bound : PyFloat} {best : Option (Rule re × String)}
    {new : Rule re × String} :
    BestReaches bound (some (stronger best new)) ↔
      BestReaches bound best ∨ bound.AtLeast (extended new.1.severity) := by
  cases best with
  | none =>
    rw [stronger, bestReaches_some]
    refine ⟨Or.inr, ?_⟩
    rintro (⟨_, ⟨⟩, _⟩ | h)
    exact h
  | some b =>
    rw [stronger, bestReaches_some, bestReaches_some]
    split
    · next h =>
      exact ⟨Or.inr, fun hor => hor.elim (fun hb => hb.mono (extended_le_extended.mpr h.le)) id⟩
    · next h =>
      exact ⟨Or.inl, fun hor =>
        hor.elim id fun hn => hn.mono (extended_le_extended.mpr (not_lt.mp h))⟩

theorem bestReaches_scanRules_iff {text : String} {bound : PyFloat} {rules : List (Rule re)}
    {best : Option (Rule re × String)} {categories : List Json} :
    BestReaches bound (scanRules text rules best categories).1 ↔
      BestReaches bound best ∨
        ∃ rule ∈ rules, rule.Hits text ∧ bound.AtLeast (extended rule.severity) := by
  induction rules generalizing best categories with
  | nil => simp [scanRules]
  | cons rule rest ih =>
    rw [scanRules, List.exists_mem_cons_iff, Rule.Hits]
    cases hfound : re.search rule.pattern text with
    | none =>
      rw [ih]
      simp
    | some found =>
      rw [ih, bestReaches_stronger_iff, or_assoc]
      simp

theorem scan_matched_iff {scanner : InjectionScanner re} {text : String} :
    (scanner.scan text).matched = true ↔
      text ≠ "" ∧ ∃ rule ∈ scanner.rules, rule.Hits text ∧
        scanner.threshold.AtLeast (extended rule.severity) := by
  have hloop := @bestReaches_scanRules_iff re text scanner.threshold scanner.rules none []
  have hstart : ¬ BestReaches scanner.threshold (none : Option (Rule re × String)) := by
    rintro ⟨_, ⟨⟩, _⟩
  rw [or_iff_right hstart] at hloop
  rw [← hloop, InjectionScanner.scan]
  by_cases htext : text = ""
  · rw [if_pos htext]
    exact iff_of_false Bool.false_ne_true fun h => h.1 htext
  · rw [if_neg htext, and_iff_right htext]
    split
    · next hbest =>
      rw [hbest]
      exact iff_of_false Bool.false_ne_true hstart
    · next rule found categories hbest =>
      rw [hbest, bestReaches_some, MaybeNan.AtLeast]
      split
      · next h =>
        refine iff_of_false Bool.false_ne_true fun hat => ?_
        rw [PyFloat.finite, hat] at h
        cases h
      · next h => exact iff_of_true rfl (Bool.eq_false_iff.mpr h)

end TokenProxy.Injection
