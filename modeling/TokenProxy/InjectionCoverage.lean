/-
  TokenProxy/InjectionCoverage.lean
  =================================
  **When extra rules and a tenant's threshold leave the shipped rules reported.**

  The shipped rules are compiled first and are all numbers, so what a scanner with extra rules
  does is decided by the extra ones:

    * it is built when each of them has four parts, a text that `re.compile` accepts or refuses
      with `re.error`, and, when accepted, a severity that is a number (`WellFormed`);
    * it reports what the scanner without them does unless the threshold lies above every
      shipped rule and an extra rule lies above them too: the cap then follows the extra rule,
      and a text that only the strongest shipped rules match needs an extra rule that matches
      and reaches the new cap (`NotOutranked`).

  A tenant's own threshold is capped at the weakest shipped rule, and everything is reported,
  unless it is an integer that no double can hold: `float` raises what nothing catches.
-/
import TokenProxy.InjectionScanner

namespace TokenProxy.Injection

open FloatOrder Raising

variable {re : Re}

/-! ## 1. The shipped rules compile -/

/-- What the shipped patterns are to `re`: they compile, and none matches the empty text. -/
structure Re.Shipped (re : Re) : Prop where
  compiles : ∀ rule ∈ defaultInjectionRules, ∃ p, re.compile rule.pattern = .pattern p
  search_empty : ∀ rule ∈ defaultInjectionRules, ∀ p,
    re.compile rule.pattern = .pattern p → re.search p "" = none

/-- The value is a rule that compiles, and these are its parts. -/
def Yields (re : Re) (source : Json) (rule : Rule re) : Prop :=
  ∃ sev src, unpackRule source = .ok (rule.id, rule.category, sev, .str src) ∧
    re.compile src = .pattern rule.pattern ∧ sev.number? = some rule.severity

def WellFormed (re : Re) (source : Json) : Prop :=
  ∃ rid cat sev src, unpackRule source = .ok (rid, cat, sev, .str src) ∧
    (re.compile src = .reError ∨ ∃ p, re.compile src = .pattern p ∧ sev.number?.isSome = true)

theorem compileRule_eq_ok_iff {source : Json} {found : Option (CompiledRule re)} :
    compileRule re source = .ok found ↔
      ∃ rid cat sev src, unpackRule source = .ok (rid, cat, sev, .str src) ∧
        ((re.compile src = .reError ∧ found = none) ∨
          ∃ p, re.compile src = .pattern p ∧ found = some ⟨rid, cat, sev, p⟩) := by
  rw [compileRule, bind_eq_ok_iff]
  constructor
  · rintro ⟨⟨rid, cat, sev, src⟩, hunpack, h⟩
    cases src with
    | str src =>
      refine ⟨rid, cat, sev, src, hunpack, ?_⟩
      cases hcompile : re.compile src with
      | pattern p => 
        simp only [hcompile, Except.ok.injEq] at h
        exact Or.inr ⟨p, rfl, h.symm⟩
      | reError => 
        simp only [hcompile, Except.ok.injEq] at h
        exact Or.inl ⟨rfl, h.symm⟩
      | raises e => 
        simp only [hcompile] at h
        cases h
    | _ => cases h
  · rintro ⟨rid, cat, sev, src, hunpack, h⟩
    refine ⟨_, hunpack, ?_⟩
    rcases h with ⟨hcompile, rfl⟩ | ⟨p, hcompile, rfl⟩
    · simp only [hcompile]
    · simp only [hcompile]

theorem withSeverity_eq_ok_iff {compiled : CompiledRule re} {found : Option (Rule re)} :
    withSeverity re compiled = .ok found ↔
      ∃ q, compiled.severity.number? = some q ∧
        found = some ⟨compiled.id, compiled.category, q, compiled.pattern⟩ := by
  rw [withSeverity]
  cases hnumber : compiled.severity.number? with
  | none =>
    constructor
    · intro h
      cases h
    · rintro ⟨q, hq, -⟩
      cases hq
  | some q =>
    constructor
    · intro h
      cases h
      exact ⟨q, rfl, rfl⟩
    · rintro ⟨q', hq, rfl⟩
      cases hq
      rfl

theorem found?_eq_some_iff {α β ε : Type} {f : α → Except ε (Option β)} {x : α} {y : β} :
    found? f x = some y ↔ f x = .ok (some y) := by
  rw [found?]
  cases f x with
  | error e => simp
  | ok found => simp

theorem ruleOf?_eq_some_iff {source : Json} {rule : Rule re} :
    ruleOf? re source = some rule ↔ Yields re source rule := by
  rw [ruleOf?, Option.bind_eq_some_iff]
  constructor
  · rintro ⟨compiled, hcompiled, hrule⟩
    obtain ⟨rid, cat, sev, src, hunpack, ⟨-, ⟨⟩⟩ | ⟨p, hp, ⟨⟩⟩⟩ :=
      compileRule_eq_ok_iff.mp (found?_eq_some_iff.mp hcompiled)
    obtain ⟨q, hq, ⟨⟩⟩ := withSeverity_eq_ok_iff.mp (found?_eq_some_iff.mp hrule)
    exact ⟨sev, src, hunpack, hp, hq⟩
  · rintro ⟨sev, src, hunpack, hp, hq⟩
    refine ⟨⟨rule.id, rule.category, sev, rule.pattern⟩, found?_eq_some_iff.mpr ?_,
      found?_eq_some_iff.mpr ?_⟩
    · exact compileRule_eq_ok_iff.mpr ⟨_, _, sev, src, hunpack, Or.inr ⟨_, hp, rfl⟩⟩
    · exact withSeverity_eq_ok_iff.mpr ⟨_, hq, rfl⟩

theorem readable_iff_wellFormed {source : Json} : Readable re source ↔ WellFormed re source := by
  constructor
  · rintro ⟨⟨found, hfound⟩, hnumber⟩
    obtain ⟨rid, cat, sev, src, hunpack, h⟩ := compileRule_eq_ok_iff.mp hfound
    refine ⟨rid, cat, sev, src, hunpack, ?_⟩
    rcases h with ⟨hcompile, -⟩ | ⟨p, hcompile, rfl⟩
    · exact Or.inl hcompile
    · obtain ⟨rule, hrule⟩ := hnumber _ (found?_eq_some_iff.mpr hfound)
      obtain ⟨q, hq, -⟩ := withSeverity_eq_ok_iff.mp hrule
      exact Or.inr ⟨p, hcompile, Option.isSome_of_eq_some hq⟩
  · rintro ⟨rid, cat, sev, src, hunpack, h⟩
    rcases h with hcompile | ⟨p, hcompile, hnumber⟩
    · have hfound := compileRule_eq_ok_iff.mpr ⟨rid, cat, sev, src, hunpack, Or.inl ⟨hcompile, rfl⟩⟩
      refine ⟨⟨none, hfound⟩, fun rule hrule => ?_⟩
      rw [found?_eq_some_iff, hfound] at hrule
      cases hrule
    · have hfound :=
        compileRule_eq_ok_iff.mpr ⟨rid, cat, sev, src, hunpack, Or.inr ⟨p, hcompile, rfl⟩⟩
      refine ⟨⟨_, hfound⟩, fun rule hrule => ?_⟩
      rw [found?_eq_some_iff, hfound] at hrule
      cases hrule
      obtain ⟨q, hq⟩ := Option.isSome_iff_exists.mp hnumber
      exact ⟨_, withSeverity_eq_ok_iff.mpr ⟨q, hq, rfl⟩⟩

/-! ## 2. What a scanner with extra rules reports -/

/-- The shipped rule matches the text. -/
def RuleSource.Hits (re : Re) (rule : RuleSource) (text : String) : Prop :=
  ∃ p, re.compile rule.pattern = .pattern p ∧ (re.search p text).isSome = true

/-- The rule that a shipped one becomes. -/
def RuleSource.compiled (source : RuleSource) (p : re.Pattern) : Rule re :=
  ⟨.str source.id, .str source.category, source.severity, p⟩

theorem yields_toJson_iff {source : RuleSource} {rule : Rule re} :
    Yields re source.toJson rule ↔
      ∃ p, re.compile source.pattern = .pattern p ∧ rule = source.compiled p := by
  constructor
  · obtain ⟨rid, cat, q, p⟩ := rule
    rintro ⟨sev, src, hunpack, hcompile, hnumber⟩
    cases hunpack
    cases hnumber
    exact ⟨p, hcompile, rfl⟩
  · rintro ⟨p, hcompile, rfl⟩
    exact ⟨.float source.severity, source.pattern, rfl, hcompile, rfl⟩

theorem Re.Shipped.wellFormed (hre : re.Shipped) {source : Json} (h : source ∈ shippedRules) :
    WellFormed re source := by
  obtain ⟨rule, hrule, rfl⟩ := List.mem_map.mp h
  obtain ⟨p, hp⟩ := hre.compiles rule hrule
  exact ⟨_, _, _, _, rfl, Or.inr ⟨p, hp, rfl⟩⟩

theorem Re.Shipped.ne_empty (hre : re.Shipped) {rule : RuleSource}
    (h : rule ∈ defaultInjectionRules) {text : String} (hhits : rule.Hits re text) : text ≠ "" := by
  rintro rfl
  obtain ⟨p, hp, hsome⟩ := hhits
  rw [hre.search_empty rule h p hp] at hsome
  cases hsome

/-- A severity reaches the threshold in force once the extra rules are in: it reaches the one
    that was asked for, or no rule is stronger. -/
def Reaches (re : Re) (extra : List Json) (threshold : PyFloat) (q : ℚ) : Prop :=
  threshold.AtLeast (extended q) ∨
    strongestShipped ≤ q ∧ ∀ source ∈ extra, ∀ rule, Yields re source rule → rule.severity ≤ q

theorem init_shipped_eq_ok_iff (hre : re.Shipped) {extra : List Json} {threshold : PyFloat}
    {scanner : InjectionScanner re} :
    InjectionScanner.init re shippedRules extra threshold = .ok scanner ↔
      (∀ source ∈ extra, WellFormed re source) ∧
      scanner = ⟨(shippedRules ++ extra).filterMap (ruleOf? re),
        cappedThreshold threshold ((shippedRules ++ extra).filterMap (ruleOf? re))⟩ := by
  rw [init_eq_ok_iff, List.forall_mem_append]
  simp only [readable_iff_wellFormed]
  rw [and_iff_right fun source h => hre.wellFormed h]

theorem mem_rules_iff {extra : List Json} {rule : Rule re} :
    rule ∈ (shippedRules ++ extra).filterMap (ruleOf? re) ↔
      (∃ source ∈ defaultInjectionRules, Yields re source.toJson rule) ∨
        ∃ source ∈ extra, Yields re source rule := by
  rw [List.mem_filterMap]
  simp only [ruleOf?_eq_some_iff, List.mem_append, or_and_right, exists_or, shippedRules,
    List.mem_map, exists_exists_and_eq_and]

theorem forall_severity_le_iff (hre : re.Shipped) {extra : List Json} {q : ℚ} :
    (∀ rule ∈ (shippedRules ++ extra).filterMap (ruleOf? re), rule.severity ≤ q) ↔
      strongestShipped ≤ q ∧
        ∀ source ∈ extra, ∀ rule, Yields re source rule → rule.severity ≤ q := by
  constructor
  · intro h
    constructor
    · obtain ⟨rule, hrule, hstrongest⟩ := exists_strongestShipped
      obtain ⟨p, hp⟩ := hre.compiles rule hrule
      rw [← hstrongest]
      exact h (rule.compiled p)
        (mem_rules_iff.mpr (Or.inl ⟨rule, hrule, yields_toJson_iff.mpr ⟨p, hp, rfl⟩⟩))
    · intro source hsource rule hyields
      exact h rule (mem_rules_iff.mpr (Or.inr ⟨source, hsource, hyields⟩))
  · rintro ⟨hshipped, hextra⟩ rule hrule
    rcases mem_rules_iff.mp hrule with ⟨source, hsource, hyields⟩ | ⟨source, hsource, hyields⟩
    · obtain ⟨p, -, rfl⟩ := yields_toJson_iff.mp hyields
      exact (severity_le_strongestShipped hsource).trans hshipped
    · exact hextra source hsource rule hyields

theorem reported_iff (hre : re.Shipped) {extra : List Json} {threshold : PyFloat}
    {scanner : InjectionScanner re}
    (h : InjectionScanner.init re shippedRules extra threshold = .ok scanner) {text : String} :
    (scanner.scan text).matched = true ↔ text ≠ "" ∧
      ((∃ rule ∈ defaultInjectionRules, rule.Hits re text ∧
          Reaches re extra threshold rule.severity) ∨
        ∃ source ∈ extra, ∃ rule, Yields re source rule ∧ rule.Hits text ∧
          Reaches re extra threshold rule.severity) := by
  obtain ⟨-, rfl⟩ := (init_shipped_eq_ok_iff hre).mp h
  rw [scan_matched_iff]
  refine and_congr_right fun _ => ?_
  have hreaches : ∀ rule ∈ (shippedRules ++ extra).filterMap (ruleOf? re),
      ((cappedThreshold threshold ((shippedRules ++ extra).filterMap (ruleOf? re))).AtLeast
        (extended rule.severity) ↔ Reaches re extra threshold rule.severity) := by
    intro rule hrule
    rw [atLeast_cappedThreshold_iff (List.ne_nil_of_mem hrule), forall_severity_le_iff hre, Reaches]
  constructor
  · rintro ⟨rule, hrule, hhits, hat⟩
    rw [hreaches rule hrule] at hat
    rcases mem_rules_iff.mp hrule with ⟨source, hsource, hyields⟩ | ⟨source, hsource, hyields⟩
    · obtain ⟨p, hp, rfl⟩ := yields_toJson_iff.mp hyields
      exact Or.inl ⟨source, hsource, ⟨p, hp, hhits⟩, hat⟩
    · exact Or.inr ⟨source, hsource, rule, hyields, hhits, hat⟩
  · rintro (⟨source, hsource, ⟨p, hp, hhits⟩, hat⟩ | ⟨source, hsource, rule, hyields, hhits, hat⟩)
    · have hmem : source.compiled p ∈ (shippedRules ++ extra).filterMap (ruleOf? re) :=
        mem_rules_iff.mpr (Or.inl ⟨source, hsource, yields_toJson_iff.mpr ⟨p, hp, rfl⟩⟩)
      exact ⟨_, hmem, hhits, (hreaches _ hmem).mpr hat⟩
    · have hmem := mem_rules_iff.mpr (Or.inr ⟨source, hsource, hyields⟩)
      exact ⟨rule, hmem, hhits, (hreaches rule hmem).mpr hat⟩

/-! ## 3. Extra rules -/

/-- The scanner is built, and reports what the one without the extra rules reports. -/
def KeepsReports (re : Re) (extra : List Json) (threshold : PyFloat) : Prop :=
  ∃ scanner, InjectionScanner.init re shippedRules extra threshold = .ok scanner ∧
    ∀ alone, InjectionScanner.init re shippedRules [] threshold = .ok alone →
      ∀ text, (alone.scan text).matched = true → (scanner.scan text).matched = true

/-- No extra rule lifts the cap above the shipped rules, or the extra rules that reach the new
    cap match whatever the strongest shipped ones do. -/
def NotOutranked (re : Re) (extra : List Json) (threshold : PyFloat) : Prop :=
  threshold.AtLeast (extended strongestShipped) ∨
    (∀ source ∈ extra, ∀ rule, Yields re source rule → rule.severity ≤ strongestShipped) ∨
    ∀ rule ∈ defaultInjectionRules, rule.severity = strongestShipped →
      ∀ text, rule.Hits re text →
        ∃ source ∈ extra, ∃ other, Yields re source other ∧ other.Hits text ∧
          Reaches re extra threshold other.severity

theorem exists_init_shipped (hre : re.Shipped) {extra : List Json} (threshold : PyFloat)
    (h : ∀ source ∈ extra, WellFormed re source) :
    ∃ scanner, InjectionScanner.init re shippedRules extra threshold = .ok scanner :=
  ⟨_, (init_shipped_eq_ok_iff hre).mpr ⟨h, rfl⟩⟩

theorem KeepsReports.notOutranked (hre : re.Shipped) {extra : List Json} {threshold : PyFloat}
    (h : KeepsReports re extra threshold) : NotOutranked re extra threshold := by
  obtain ⟨scanner, hscanner, hkeeps⟩ := h
  obtain ⟨alone, halone⟩ := exists_init_shipped hre threshold (List.forall_mem_nil _)
  by_cases hat : threshold.AtLeast (extended strongestShipped)
  · exact Or.inl hat
  by_cases hweaker : ∀ source ∈ extra, ∀ rule, Yields re source rule →
      rule.severity ≤ strongestShipped
  · exact Or.inr (Or.inl hweaker)
  refine Or.inr (Or.inr fun rule hrule hstrongest text hhits => ?_)
  have hne := hre.ne_empty hrule hhits
  have hreported : (alone.scan text).matched = true :=
    (reported_iff hre halone).mpr ⟨hne, Or.inl
      ⟨rule, hrule, hhits, Or.inr ⟨hstrongest.ge, List.forall_mem_nil _⟩⟩⟩
  -- above every shipped rule, only an extra one is left to report the text
  rcases ((reported_iff hre hscanner).mp (hkeeps alone halone text hreported)).2 with
    ⟨other, hother, -, hreaches | ⟨-, hreaches⟩⟩ | hextra
  · exact absurd (hreaches.mono (extended_le_extended.mpr (severity_le_strongestShipped hother)))
      hat
  · exact absurd (fun source hsource rule hyields => (hreaches source hsource rule hyields).trans
      (severity_le_strongestShipped hother)) hweaker
  · exact hextra

theorem keepsReports_iff (hre : re.Shipped) {extra : List Json} {threshold : PyFloat} :
    KeepsReports re extra threshold ↔
      (∀ source ∈ extra, WellFormed re source) ∧ NotOutranked re extra threshold := by
  constructor
  · intro h
    obtain ⟨scanner, hscanner, -⟩ := id h
    exact ⟨((init_shipped_eq_ok_iff hre).mp hscanner).1, h.notOutranked hre⟩
  · rintro ⟨hwf, hout⟩
    obtain ⟨scanner, hscanner⟩ := exists_init_shipped hre threshold hwf
    refine ⟨scanner, hscanner, fun alone halone text hreported => ?_⟩
    obtain ⟨hne, ⟨rule, hrule, hhits, hreaches⟩ | ⟨_, hnil, -⟩⟩ :=
      (reported_iff hre halone).mp hreported
    · refine (reported_iff hre hscanner).mpr ⟨hne, ?_⟩
      rcases hreaches with hat | ⟨hstrongest, -⟩
      · exact Or.inl ⟨rule, hrule, hhits, Or.inl hat⟩
      rcases hout with hat | hweaker | hcovered
      · exact Or.inl ⟨rule, hrule, hhits, Or.inl (hat.mono (extended_le_extended.mpr hstrongest))⟩
      · exact Or.inl ⟨rule, hrule, hhits, Or.inr ⟨hstrongest, fun source hsource other hyields =>
          (hweaker source hsource other hyields).trans hstrongest⟩⟩
      · exact Or.inr (hcovered rule hrule
          (le_antisymm (severity_le_strongestShipped hrule) hstrongest) text hhits)
    · cases hnil

/-! ## 4. The tenant's own threshold -/

/-- The threshold in force is the one that the tenant set. -/
def OwnThreshold (cfg overrides threshold : Json) : Prop :=
  configured cfg = threshold ∧
    ∃ own, ownGroup overrides "G30_guardrails" = .ok own ∧ own.get? "threshold" = some threshold

/-- The scanner is built, and reports every text that a shipped rule matches. -/
def ReportsShipped (re : Re) (parse : String → Option PyFloat) (cfg overrides : Json) : Prop :=
  ∃ scanner, guardrailScanner re parse cfg overrides = .ok scanner ∧
    ∀ rule ∈ defaultInjectionRules, ∀ text, rule.Hits re text →
      (scanner.scan text).matched = true

/-- A number that `float` takes: no integer beyond every double. -/
def FitsDouble (threshold : Json) : Prop := ∀ n, threshold = .int n → n.natAbs < doubleLimit

theorem returns_toFloat_iff {parse : String → Option PyFloat} {value : Json}
    (hnumber : value.number?.isSome = true) :
    Returns (toFloat parse value) ↔ FitsDouble value := by
  cases value with
  | int n =>
    rw [toFloat]
    constructor
    · rintro h m ⟨⟩
      split at h
      · assumption
      · exact absurd h (not_returns_error _)
    · intro h
      rw [if_pos (h n rfl)]
      exact returns_ok _
  | bool b => exact iff_of_true (returns_ok _) fun n h => by cases h
  | float q => exact iff_of_true (returns_ok _) fun n h => by cases h
  | _ => cases hnumber

/-- A threshold no higher than the weakest shipped rule. -/
def LetsShipped (threshold : PyFloat) : Prop :=
  ∀ q, maxTenantThreshold ≤ q → threshold.AtLeast (extended q)

theorem letsShipped_maxTenantThreshold : LetsShipped (.finite maxTenantThreshold) :=
  fun _ hq => MaybeNan.atLeast_value.mpr (extended_le_extended.mpr hq)

/-- What `tenant_capped_threshold` leaves as it is: `nan`, or a value within the cap. -/
theorem letsShipped_of_kept {x : PyFloat}
    (h : (!x.eq x || x.le (PyFloat.finite maxTenantThreshold)) = true) : LetsShipped x := by
  intro q hq
  cases x with
  | nan => exact MaybeNan.atLeast_nan _
  | value a =>
    have hle : a ≤ extended maxTenantThreshold := by
      simpa [MaybeNan.eq, MaybeNan.le, PyFloat.finite] using h
    exact MaybeNan.atLeast_value.mpr (hle.trans (extended_le_extended.mpr hq))

theorem LetsShipped.reported (hre : re.Shipped) {threshold : PyFloat} (h : LetsShipped threshold)
    {scanner : InjectionScanner re}
    (hscanner : InjectionScanner.init re shippedRules [] threshold = .ok scanner)
    {rule : RuleSource} (hrule : rule ∈ defaultInjectionRules) {text : String}
    (hhits : rule.Hits re text) : (scanner.scan text).matched = true :=
  (reported_iff hre hscanner).mpr ⟨hre.ne_empty hrule hhits,
    Or.inl ⟨rule, hrule, hhits, Or.inl (h rule.severity (maxTenantThreshold_le hrule))⟩⟩

theorem extraTuples_of_none {cfg : Json} (h : (cfg.getD "extra_rules" .null).truthy = false) :
    extraTuples cfg = .ok [] := by
  rw [extraTuples, Json.orElse, if_neg (by rw [h]; exact Bool.false_ne_true)]
  rfl

theorem exists_getScanner (hre : re.Shipped) {parse : String → Option PyFloat} {cfg : Json}
    {x : PyFloat} (hx : toFloat parse (configured cfg) = .ok x)
    (hextra : (cfg.getD "extra_rules" .null).truthy = false) :
    ∃ scanner, getScanner re parse cfg = .ok scanner ∧
      InjectionScanner.init re shippedRules [] x = .ok scanner := by
  obtain ⟨scanner, hscanner⟩ := exists_init_shipped hre x (List.forall_mem_nil _)
  refine ⟨scanner, ?_, hscanner⟩
  rw [getScanner, bind_eq_ok_iff]
  exact ⟨x, hx, bind_eq_ok_iff.mpr ⟨[], extraTuples_of_none hextra, hscanner⟩⟩

theorem tenantCappedThreshold_own (parse : String → Option PyFloat)
    {cfg overrides threshold : Json} (h : OwnThreshold cfg overrides threshold) :
    tenantCappedThreshold parse cfg overrides "G30_guardrails" =
      withCap cfg (keepsConfigured parse cfg threshold) := by
  obtain ⟨-, own, hown, hget⟩ := h
  simp only [tenantCappedThreshold, hown, bind, Except.bind, hget]

theorem keepsConfigured_own {parse : String → Option PyFloat} {cfg threshold : Json} {x : PyFloat}
    (hcfg : configured cfg = threshold) (hx : toFloat parse threshold = .ok x) :
    keepsConfigured parse cfg threshold =
      .ok (!x.eq x || x.le (PyFloat.finite maxTenantThreshold)) := by
  rw [keepsConfigured, hcfg]
  exact bind_eq_ok_iff.mpr ⟨x, hx, bind_eq_ok_iff.mpr ⟨x, hx, rfl⟩⟩

/-- Whatever `float` raises on the tenant's threshold, the group's threshold is left as it is
    or the error goes through. -/
theorem withCap_of_error {cfg cfg' : Json} {e : Raised}
    (h : withCap cfg (.error e) = .ok cfg') : cfg' = cfg := by
  cases e <;> cases h <;> rfl

/-- With the tenant's own threshold in force, the scanner's is one that lets every shipped rule
    through. -/
theorem exists_guardrailScanner (hre : re.Shipped) {parse : String → Option PyFloat}
    {fields : List (String × Json)} {overrides threshold : Json} {x : PyFloat}
    (hextra : ((Json.obj fields).getD "extra_rules" .null).truthy = false)
    (h : OwnThreshold (.obj fields) overrides threshold) (hx : toFloat parse threshold = .ok x) :
    ∃ scanner inForce, guardrailScanner re parse (.obj fields) overrides = .ok scanner ∧
      LetsShipped inForce ∧
      InjectionScanner.init re shippedRules [] inForce = .ok scanner := by
  have hcapped := tenantCappedThreshold_own parse h
  rw [keepsConfigured_own h.1 hx] at hcapped
  cases hkept : !x.eq x || x.le (PyFloat.finite maxTenantThreshold) with
  | true =>
    rw [hkept] at hcapped
    obtain ⟨scanner, hget, hinit⟩ := exists_getScanner hre (h.1 ▸ hx) hextra
    exact ⟨scanner, x, bind_eq_ok_iff.mpr ⟨_, hcapped, hget⟩, letsShipped_of_kept hkept, hinit⟩
  | false =>
    rw [hkept] at hcapped
    have hset : toFloat parse (configured ((Json.obj fields).set "threshold"
        (.float maxTenantThreshold))) = .ok (.finite maxTenantThreshold) := by
      rw [configured, Json.getD_set_self]
      rfl
    have hextra' : (((Json.obj fields).set "threshold" (.float maxTenantThreshold)).getD
        "extra_rules" .null).truthy = false := by
      rw [Json.getD_set_of_ne _ (by decide)]
      exact hextra
    obtain ⟨scanner, hget, hinit⟩ := exists_getScanner hre hset hextra'
    exact ⟨scanner, _, bind_eq_ok_iff.mpr ⟨_, hcapped, hget⟩, letsShipped_maxTenantThreshold,
      hinit⟩

theorem reportsShipped_iff (hre : re.Shipped) {parse : String → Option PyFloat}
    {fields : List (String × Json)} {overrides threshold : Json}
    (hextra : ((Json.obj fields).getD "extra_rules" .null).truthy = false)
    (h : OwnThreshold (.obj fields) overrides threshold) :
    ReportsShipped re parse (.obj fields) overrides ↔ Returns (toFloat parse threshold) := by
  constructor
  · rintro ⟨scanner, hscanner, -⟩
    obtain ⟨cfg, hcfg, hget⟩ := bind_eq_ok_iff.mp hscanner
    obtain ⟨y, hy, -⟩ := bind_eq_ok_iff.mp hget
    rw [tenantCappedThreshold_own parse h] at hcfg
    cases hx : toFloat parse threshold with
    | ok x => exact returns_ok x
    | error e =>
      have hraised : keepsConfigured parse (.obj fields) threshold = .error e := by
        rw [keepsConfigured, h.1, hx]
        rfl
      rw [hraised] at hcfg
      rw [withCap_of_error hcfg, h.1, hx] at hy
      cases hy
  · rintro ⟨x, hx⟩
    obtain ⟨scanner, inForce, hscanner, hlets, hinit⟩ := exists_guardrailScanner hre hextra h hx
    exact ⟨scanner, hscanner, fun rule hrule text hhits => hlets.reported hre hinit hrule hhits⟩

/-- A shipped rule stays reported, with any extra rules and under any threshold, exactly when
    every extra rule can be read and none outranks the shipped ones; under the tenant's own
    threshold, exactly when that number fits a double. -/
theorem shipped_rules_reported_iff (hre : re.Shipped) :
    (∀ extra threshold, KeepsReports re extra threshold ↔
      (∀ source ∈ extra, WellFormed re source) ∧ NotOutranked re extra threshold) ∧
    ∀ parse fields overrides threshold,
      ((Json.obj fields).getD "extra_rules" .null).truthy = false →
      OwnThreshold (.obj fields) overrides threshold → threshold.number?.isSome = true →
        (ReportsShipped re parse (.obj fields) overrides ↔ FitsDouble threshold) := by
  refine ⟨fun extra threshold => keepsReports_iff hre, ?_⟩
  intro parse fields overrides threshold hextra hown hnumber
  rw [reportsShipped_iff hre hextra hown, returns_toFloat_iff hnumber]

/-! ## 5. Inputs -/

def developerMode : String :=
  "\\b(?:DAN\\b|do anything now|developer mode|dev mode enabled|STAN\\b|AIM\\b)"

/-- `re` on the text `developer mode`: of the shipped patterns only one finds it, and a plain
    pattern that is no part of it finds nothing. -/
def sampleSearch (p text : String) : Option String :=
  if text = "developer mode" ∧ p = developerMode then some text else none

def sampleRe : Re := ⟨String, .pattern, sampleSearch⟩

theorem sampleSearch_empty (p : String) : sampleSearch p "" = none :=
  if_neg fun h => absurd h.1 (by decide)

theorem sampleSearch_developerMode :
    sampleSearch developerMode "developer mode" = some "developer mode" :=
  if_pos ⟨rfl, rfl⟩

theorem sampleSearch_pineapple : sampleSearch "pineapple protocol" "developer mode" = none :=
  if_neg fun h => absurd h.2 (by decide)

theorem sampleRe_shipped : sampleRe.Shipped where
  compiles rule _ := ⟨rule.pattern, rfl⟩
  search_empty _ _ p _ := sampleSearch_empty p

def pineappleRule (severity : Json) : Json :=
  .arr [.str "custom.pineapple", .str "custom_policy", severity, .str "pineapple protocol"]

def ownThreshold (threshold : Json) : Json :=
  .obj [("groups", .obj [("G30_guardrails", .obj [("threshold", threshold)])])]

theorem ownThreshold_own (threshold : Json) :
    OwnThreshold (.obj [("threshold", threshold)]) (ownThreshold threshold) threshold :=
  ⟨rfl, _, rfl, rfl⟩

theorem shipped_rules_reported_pineapple :
    KeepsReports sampleRe [pineappleRule (.float (9 / 10))] (.finite (1 / 2)) ∧
      ReportsShipped sampleRe (fun _ => none) (.obj [("threshold", .float (99 / 100))])
        (ownThreshold (.float (99 / 100))) := by
  obtain ⟨hextra, hown⟩ := shipped_rules_reported_iff sampleRe_shipped
  constructor
  · refine (hextra _ _).mpr ⟨?_, Or.inl ?_⟩
    · intro source hsource
      rw [List.mem_singleton.mp hsource]
      exact ⟨_, _, _, _, rfl, Or.inr ⟨_, rfl, rfl⟩⟩
    · refine MaybeNan.atLeast_value.mpr (extended_le_extended.mpr ?_)
      rw [strongestShipped_eq]
      norm_num
  · exact (hown _ _ _ _ rfl (ownThreshold_own _) rfl).mpr fun n h => by cases h

/-- A severity that is a text, an extra rule above every shipped one, and an integer threshold
    beyond every double. -/
theorem not_shipped_rules_reported :
    ¬ KeepsReports sampleRe [pineappleRule (.str "0.9")] (.finite (1 / 2)) ∧
      ¬ KeepsReports sampleRe [pineappleRule (.int 1)] (.finite 1) ∧
      ¬ ReportsShipped sampleRe (fun _ => none) (.obj [("threshold", .int doubleLimit)])
        (ownThreshold (.int doubleLimit)) := by
  refine ⟨fun h => ?_, fun h => ?_, fun h => ?_⟩
  · obtain ⟨rid, cat, sev, src, hunpack, hread⟩ :=
      ((keepsReports_iff sampleRe_shipped).mp h).1 _ (List.mem_singleton_self _)
    cases hunpack
    rcases hread with hcompile | ⟨p, -, hnumber⟩
    · cases hcompile
    · cases hnumber
  · rcases h.notOutranked sampleRe_shipped with hat | hweaker | hcovered
    · have hle := extended_le_extended.mp (MaybeNan.atLeast_value.mp hat)
      rw [strongestShipped_eq] at hle
      norm_num at hle
    · have hle := hweaker _ (List.mem_singleton_self _)
        ⟨.str "custom.pineapple", .str "custom_policy", 1, "pineapple protocol"⟩
        ⟨.int 1, _, rfl, rfl, rfl⟩
      rw [strongestShipped_eq] at hle
      norm_num at hle
    · have hrule : defaultInjectionRules[4] ∈ defaultInjectionRules := List.getElem_mem _
      have hhits : defaultInjectionRules[4].Hits sampleRe "developer mode" :=
        ⟨developerMode, rfl, congrArg Option.isSome sampleSearch_developerMode⟩
      obtain ⟨source, hsource, ⟨rid, cat, q, p⟩, ⟨sev, src, hunpack, hcompile, -⟩, hother, -⟩ :=
        hcovered _ hrule strongestShipped_eq.symm "developer mode" hhits
      rw [List.mem_singleton.mp hsource] at hunpack
      cases hunpack
      cases hcompile
      have hmiss := congrArg Option.isSome sampleSearch_pineapple
      exact Bool.false_ne_true (hmiss.symm.trans hother)
  · have hfits := (returns_toFloat_iff rfl).mp
      ((reportsShipped_iff sampleRe_shipped rfl (ownThreshold_own _)).mp h) _ rfl
    rw [Int.natAbs_natCast] at hfits
    exact lt_irrefl _ hfits

end TokenProxy.Injection
