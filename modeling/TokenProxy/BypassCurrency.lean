/-
  TokenProxy/BypassCurrency.lean
  ==============================
  **When the bypass rules that a request is matched against are the current ones.**

  The current rules are those of the latest database answer, while `database_first` is on and the
  answer is no older than the TTL and has rules, and else those of the request's own config
  (`Current`).  The loader may serve other rules in four ways, and each of them is one part of the
  condition under which it does not:

    * the config rules in force were loaded from another config (`FallbackOk`);
    * a request with `database_first` off put the config rules in the place of the database's,
      whose answer still counts (`RequestOk.notReplaced`);
    * the database is being asked anew, and meanwhile its expired rules are still served
      (`RequestOk.notExpired`);
    * a list of rules cannot be built, or a TTL is no number: the load raises.
-/
import TokenProxy.BypassRules
import Mathlib.Tactic.Linarith

namespace TokenProxy.Bypass

open Execution

variable {py : Py}

/-! ## 1. The current rules -/

/-- The answer counts for the request: it has rules and is at most the TTL old. -/
def Answer.Counts (a : Answer) (cfg : Json) (now : ℚ) : Prop :=
  databaseFirst cfg = true ∧ a.rows ≠ [] ∧ ∃ ttl, ttl? cfg = some ttl ∧ now - a.time ≤ ttl

/-- The rules that the request ought to be matched against. -/
def CurrentRules (latest : Option Answer) (cfg : Json) (now : ℚ) (rules : List (BypassRule py)) :
    Prop :=
  (∀ a, latest = some a → a.Counts cfg now → buildRules a.settings a.rows = some rules) ∧
    ((∀ a, latest = some a → ¬ a.Counts cfg now) → configRules cfg = some rules)

/-- The request is not matched against anything yet, or against the current rules. -/
def Current (latest : Option Answer) (cfg : Json) (now : ℚ) : Outcome py → Prop
  | .passed => True
  | .asking => True
  | .raised => False
  | .rules rules => CurrentRules latest cfg now rules

/-! ## 2. The condition -/

def Tenant.From (tenant : Tenant py) (source : Source) : Prop :=
  ∃ rules, tenant.loaded = some (source, rules)

/-- The config builds the rules that the config loaded last built, or builds some at all. -/
structure FallbackOk (tenant : Tenant py) (cfg : Json) : Prop where
  same : tenant.From .config → ∀ loaded, tenant.loadedConfig = some loaded →
    (configRules loaded : Option (List (BypassRule py))) = configRules cfg
  built : ¬ tenant.From .config →
    (configRules cfg : Option (List (BypassRule py))).isSome = true

/-- The database was asked at most the TTL ago. -/
def WithinTtl (tenant : Tenant py) (cfg : Json) (now : ℚ) : Prop :=
  databaseFirst cfg = true ∧ ∃ ttl, ttl? cfg = some ttl ∧ now - tenant.lastDbLoad ≤ ttl

structure RequestOk (tenant : Tenant py) (cfg : Json) (now : ℚ) : Prop where
  number : databaseFirst cfg = true → (ttl? cfg).isSome = true
  /-- Where the database has been asked since its latest answer, that answer still counts. -/
  notExpired : WithinTtl tenant cfg now → tenant.From .database →
    ∀ a, tenant.answer = some a → tenant.lastDbLoad ≤ a.time ∨ a.Counts cfg now
  /-- Where config rules are in force, no answer with rules still counts. -/
  notReplaced : WithinTtl tenant cfg now → ¬ tenant.From .database →
    ∀ a, tenant.answer = some a → ¬ a.Counts cfg now
  fallback : databaseFirst cfg = false ∨ (WithinTtl tenant cfg now ∧ ¬ tenant.From .database) →
    FallbackOk tenant cfg

structure AnswerOk (tenant : Tenant py) (cfg : Json) (rows : List Json) : Prop where
  built : rows ≠ [] →
    (buildRules (settings cfg) rows : Option (List (BypassRule py))).isSome = true
  nonneg : rows ≠ [] → ∀ ttl, ttl? cfg = some ttl → 0 ≤ ttl
  fallback : rows = [] → FallbackOk tenant cfg

/-- The condition on a label, in the state before it. -/
def LabelOk (s : State py) : Label → Prop
  | .request id cfg now => enabled cfg = true → RequestOk (s.tenants id) cfg now
  | .answer i rows _ => ∀ ask, s.asks[i]? = some ask → AnswerOk (s.tenants ask.tenant) ask.cfg rows

/-! ## 3. What the loader keeps true -/

/-- Rules from the database are those of its latest answer; rules from a config are those of the
    config that was loaded last. -/
structure Tenant.Inv (tenant : Tenant py) : Prop where
  database : ∀ rules, tenant.loaded = some (.database, rules) →
    ∃ a, tenant.answer = some a ∧ a.rows ≠ [] ∧ buildRules a.settings a.rows = some rules
  config : ∀ rules, tenant.loaded = some (.config, rules) →
    ∃ loaded, tenant.loadedConfig = some loaded ∧ configRules loaded = some rules

/-- What a step leaves for one tenant: the invariant, and the current rules to its request. -/
structure Served (cfg : Json) (now : ℚ) (served : Tenant py × Outcome py) : Prop where
  inv : served.1.Inv
  current : Current served.1.answer cfg now served.2

theorem inv_init : ({} : Tenant py).Inv where
  database _ h := by cases h
  config _ h := by cases h

theorem currentRules_of_config {latest : Option Answer} {cfg : Json} {now : ℚ}
    {rules : List (BypassRule py)} (hnone : ∀ a, latest = some a → ¬ a.Counts cfg now)
    (h : configRules cfg = some rules) : CurrentRules latest cfg now rules :=
  ⟨fun a ha hcounts => absurd hcounts (hnone a ha), fun _ => h⟩

theorem currentRules_of_answer {a : Answer} {cfg : Json} {now : ℚ}
    {rules : List (BypassRule py)} (hcounts : a.Counts cfg now)
    (h : buildRules a.settings a.rows = some rules) : CurrentRules (some a) cfg now rules := by
  refine ⟨?_, fun hnone => absurd hcounts (hnone a rfl)⟩
  rintro _ ⟨⟩ _
  exact h

/-- The rules in force, when they are a config's. -/
def Tenant.ConfigInv (tenant : Tenant py) : Prop :=
  ∀ rules, tenant.loaded = some (.config, rules) →
    ∃ loaded, tenant.loadedConfig = some loaded ∧ configRules loaded = some rules

theorem fallback_served {tenant : Tenant py} {cfg : Json} {now : ℚ} (hinv : tenant.ConfigInv)
    (hok : FallbackOk tenant cfg) (hnone : ∀ a, tenant.answer = some a → ¬ a.Counts cfg now) :
    Served cfg now (fallback tenant cfg) := by
  by_cases hfrom : tenant.From .config
  · obtain ⟨rules, hloaded⟩ := id hfrom
    obtain ⟨loaded, hconfig, hrules⟩ := hinv rules hloaded
    have hkept : fallback tenant cfg = (tenant, .rules rules) := by
      rw [fallback, hloaded]
    rw [hkept]
    refine ⟨⟨fun rules' h => ?_, hinv⟩, currentRules_of_config hnone ?_⟩
    · rw [hloaded] at h
      cases h
    · rw [← hok.same hfrom loaded hconfig, hrules]
  · obtain ⟨rules, hrules⟩ := Option.isSome_iff_exists.mp (hok.built hfrom)
    have hbuilt : fallback tenant cfg =
        ({ tenant with loaded := some (.config, rules), loadedConfig := some cfg },
          .rules rules) := by
      rw [fallback]
      split
      · next kept hloaded => exact absurd ⟨kept, hloaded⟩ hfrom
      · rw [hrules]
    rw [hbuilt]
    refine ⟨⟨fun rules' h => ?_, fun rules' h => ?_⟩, currentRules_of_config hnone hrules⟩
    · cases h
    · cases h
      exact ⟨cfg, rfl, hrules⟩

theorem loadRules_due {tenant : Tenant py} {cfg : Json} {now ttl : ℚ}
    (hfirst : databaseFirst cfg = true) (httl : ttl? cfg = some ttl)
    (hdue : ttl < now - tenant.lastDbLoad) :
    loadRules tenant cfg now = ({ tenant with lastDbLoad := now }, .asking) := by
  rw [loadRules, if_pos hfirst]
  simp only [httl]
  rw [if_pos hdue]

theorem loadRules_within {tenant : Tenant py} {cfg : Json} {now ttl : ℚ}
    (hfirst : databaseFirst cfg = true) (httl : ttl? cfg = some ttl)
    (hwithin : now - tenant.lastDbLoad ≤ ttl) :
    loadRules tenant cfg now = keptRules tenant cfg := by
  rw [loadRules, if_pos hfirst]
  simp only [httl]
  rw [if_neg (not_lt.mpr hwithin)]

theorem loadRules_served {tenant : Tenant py} {cfg : Json} {now : ℚ} (hinv : tenant.Inv)
    (hok : RequestOk tenant cfg now) : Served cfg now (loadRules tenant cfg now) := by
  by_cases hfirst : databaseFirst cfg = true
  · obtain ⟨ttl, httl⟩ := Option.isSome_iff_exists.mp (hok.number hfirst)
    rcases lt_or_ge ttl (now - tenant.lastDbLoad) with hdue | hle
    · rw [loadRules_due hfirst httl hdue]
      exact ⟨⟨hinv.database, hinv.config⟩, trivial⟩
    have hwithin : WithinTtl tenant cfg now := ⟨hfirst, ttl, httl, hle⟩
    rw [loadRules_within hfirst httl hle, keptRules]
    split
    · next rules hloaded =>
      obtain ⟨a, ha, hrows, hbuilt⟩ := hinv.database rules hloaded
      refine ⟨hinv, ?_⟩
      rw [ha]
      refine currentRules_of_answer ?_ hbuilt
      rcases hok.notExpired hwithin ⟨rules, hloaded⟩ a ha with hlast | hcounts
      · exact ⟨hfirst, hrows, ttl, httl, by linarith⟩
      · exact hcounts
    · next hloaded =>
      have hfrom : ¬ tenant.From .database := fun h => h.elim hloaded
      exact fallback_served hinv.config (hok.fallback (Or.inr ⟨hwithin, hfrom⟩))
        (hok.notReplaced hwithin hfrom)
  · rw [loadRules, if_neg hfirst]
    exact fallback_served hinv.config (hok.fallback (Or.inl (Bool.eq_false_iff.mpr hfirst)))
      fun a _ hcounts => hfirst hcounts.1

theorem resume_served {tenant : Tenant py} {cfg : Json} {rows : List Json} {now : ℚ}
    (hinv : tenant.Inv) (hfirst : databaseFirst cfg = true) (hnumber : (ttl? cfg).isSome = true)
    (hok : AnswerOk tenant cfg rows) : Served cfg now (resume tenant cfg rows now) := by
  cases rows with
  | nil =>
    have hsame := hok.fallback rfl
    refine fallback_served hinv.config ⟨hsame.same, hsame.built⟩ ?_
    rintro _ ⟨⟩ hcounts
    exact hcounts.2.1 rfl
  | cons row rows =>
    obtain ⟨rules, hrules⟩ := Option.isSome_iff_exists.mp (hok.built (List.cons_ne_nil row rows))
    obtain ⟨ttl, httl⟩ := Option.isSome_iff_exists.mp hnumber
    simp only [resume, hrules]
    refine ⟨⟨fun rules' h => ?_, fun rules' h => ?_⟩, ?_⟩
    · cases h
      exact ⟨_, rfl, List.cons_ne_nil row rows, hrules⟩
    · cases h
    · refine currentRules_of_answer ⟨hfirst, List.cons_ne_nil row rows, ttl, httl, ?_⟩ hrules
      rw [sub_self]
      exact hok.nonneg (List.cons_ne_nil row rows) ttl httl

/-! ## 4. Runs -/

/-- Every tenant keeps its invariant, and who waits for the database asked it. -/
structure State.Inv (s : State py) : Prop where
  tenants : ∀ id, (s.tenants id).Inv
  asks : ∀ ask ∈ s.asks, databaseFirst ask.cfg = true ∧ (ttl? ask.cfg).isSome = true

/-- The tenant and the config that a label is about, and when it is taken. -/
def Label.about (s : State py) : Label → Option (String × Json × ℚ)
  | .request id cfg now => some (id, cfg, now)
  | .answer i _ now => s.asks[i]?.map fun ask => (ask.tenant, ask.cfg, now)

/-- Whatever rules the label's request is matched against are the current ones. -/
def ServesCurrent (s : State py) (label : Label) : Prop :=
  ∀ s' outcome, serve s label = some (s', outcome) →
    ∀ id cfg now, label.about s = some (id, cfg, now) →
      Current (s'.tenants id).answer cfg now outcome

theorem State.Inv.setTenant {s : State py} (h : s.Inv) {id : String} {tenant : Tenant py}
    (htenant : tenant.Inv) : (s.setTenant id tenant).Inv where
  tenants other := by
    by_cases hother : other = id
    · rw [hother, State.setTenant_self]
      exact htenant
    · rw [State.setTenant_of_ne s hother]
      exact h.tenants other
  asks := h.asks

theorem State.inv_init : ({} : State py).Inv where
  tenants _ := Bypass.inv_init
  asks _ h := by cases h

/-- Only a request that asks the database is suspended. -/
theorem databaseFirst_of_asking {tenant : Tenant py} {cfg : Json} {now : ℚ}
    (h : (loadRules tenant cfg now).2 = .asking) :
    databaseFirst cfg = true ∧ (ttl? cfg).isSome = true := by
  have hfallback : (fallback tenant cfg).2 ≠ .asking := by
    intro hasking
    rw [fallback] at hasking
    split at hasking
    · cases hasking
    · split at hasking <;> cases hasking
  rw [loadRules] at h
  split at h
  · next hfirst =>
    split at h
    · cases h
    · next ttl httl => exact ⟨hfirst, Option.isSome_of_eq_some httl⟩
  · exact absurd h hfallback

@[simp] theorem State.suspend_tenants (s : State py) (ask : Ask) (outcome : Outcome py) :
    (s.suspend ask outcome).tenants = s.tenants := by
  cases outcome <;> rfl

theorem State.Inv.suspend {s : State py} (h : s.Inv) {ask : Ask} {outcome : Outcome py}
    (hask : outcome = .asking → databaseFirst ask.cfg = true ∧ (ttl? ask.cfg).isSome = true) :
    (s.suspend ask outcome).Inv := by
  cases outcome with
  | asking =>
    refine ⟨h.tenants, fun other hother => ?_⟩
    rcases List.mem_append.mp hother with hother | hother
    · exact h.asks other hother
    · rw [List.mem_singleton.mp hother]
      exact hask rfl
  | _ => exact h

theorem serve_request {s : State py} {id : String} {cfg : Json} {now : ℚ}
    {loaded : Tenant py × Outcome py} (henabled : enabled cfg = true)
    (h : loadRules (s.tenants id) cfg now = loaded) :
    serve s (.request id cfg now) =
      some ((s.setTenant id loaded.1).suspend ⟨id, cfg⟩ loaded.2, loaded.2) := by
  rw [serve, request, if_pos henabled, h]

theorem request_served {s : State py} {id : String} {cfg : Json} {now : ℚ} (hinv : s.Inv)
    (hok : enabled cfg = true → RequestOk (s.tenants id) cfg now) :
    (request s id cfg now).1.Inv ∧
      Current ((request s id cfg now).1.tenants id).answer cfg now (request s id cfg now).2 := by
  rw [request]
  by_cases henabled : enabled cfg = true
  · rw [if_pos henabled]
    have hserved := loadRules_served (hinv.tenants id) (hok henabled)
    refine ⟨(hinv.setTenant hserved.inv).suspend databaseFirst_of_asking, ?_⟩
    rw [State.suspend_tenants, State.setTenant_self]
    exact hserved.current
  · rw [if_neg henabled]
    exact ⟨hinv, trivial⟩

theorem serve_served {s s' : State py} {label : Label} {outcome : Outcome py} (hinv : s.Inv)
    (hok : LabelOk s label) (h : serve s label = some (s', outcome)) :
    s'.Inv ∧ ∀ id cfg now, label.about s = some (id, cfg, now) →
      Current (s'.tenants id).answer cfg now outcome := by
  cases label with
  | request id cfg now =>
    obtain ⟨rfl, rfl⟩ := Prod.mk.inj (Option.some.inj h)
    have hserved := request_served hinv hok
    refine ⟨hserved.1, ?_⟩
    rintro _ _ _ ⟨⟩
    exact hserved.2
  | answer i rows now =>
    rw [serve] at h
    split at h
    · next ask hask =>
      cases h
      obtain ⟨hfirst, hnumber⟩ := hinv.asks ask (List.mem_of_getElem? hask)
      have hserved : Served ask.cfg now (resume (s.tenants ask.tenant) ask.cfg rows now) :=
        resume_served (hinv.tenants ask.tenant) hfirst hnumber (hok ask hask)
      have hrest : ({ s with asks := s.asks.eraseIdx i } : State py).Inv :=
        ⟨hinv.tenants, fun other hother => hinv.asks other (List.mem_of_mem_eraseIdx hother)⟩
      refine ⟨hrest.setTenant hserved.inv, fun id cfg time habout => ?_⟩
      rw [Label.about, hask] at habout
      cases habout
      rw [State.setTenant_self]
      exact hserved.current
    · cases h

/-- In a run whose labels all meet the condition, every request is matched against the current
    rules. -/
theorem rules_current_of_labelOk {labels : List Label}
    (h : AllSteps step LabelOk ({} : State py) labels) :
    AllSteps step ServesCurrent ({} : State py) labels := by
  refine h.imp_of_preserved (P := State.Inv) (fun s label s' hinv hok hstep => ?_) State.inv_init
  obtain ⟨⟨_, outcome⟩, hserve, rfl⟩ := Option.map_eq_some_iff.mp hstep
  refine ⟨(serve_served hinv hok hserve).1, fun s'' outcome' hserve' => ?_⟩
  exact (serve_served hinv hok hserve').2

/-! ## 5. Runs that serve other rules -/

/-- Python on plain lower-case words. -/
def samplePy : Py := ⟨String, some, id⟩

def sampleRule (answer : String) : Json :=
  .obj [("name", .str answer), ("keywords", .arr [.str "hello"]), ("patterns", .arr []),
    ("static_response", .str answer)]

def sampleCfg (databaseFirst : Bool) (answer : String) : Json :=
  .obj [("enabled", .bool true), ("database_first", .bool databaseFirst),
    ("rules", .arr [sampleRule answer])]

/-- What the rule is built into, with the default settings. -/
def sampleRules (answer : String) : List (BypassRule samplePy) :=
  [⟨.str answer, [], ["hello"], .null, .str answer, .float (70 / 100), .str answer,
    .str "general", .float (4 / 10), .float (6 / 10)⟩]

/-- The tenant after the database's answer at 1000. -/
def answeredTenant : Tenant samplePy where
  loaded := some (.database, sampleRules "database")
  lastDbLoad := 1000
  answer := some ⟨1000, [sampleRule "database"], settings (sampleCfg true "config")⟩

/-- The config is reloaded. -/
def reloaded : List Label :=
  [.request "acme" (sampleCfg false "old") 1000, .request "acme" (sampleCfg false "new") 1001]

/-- A request with `database_first` off comes between two with it on. -/
def replaced : List Label :=
  [.request "acme" (sampleCfg true "config") 1000, .answer 0 [sampleRule "database"] 1000,
    .request "acme" (sampleCfg false "config") 1001,
    .request "acme" (sampleCfg true "config") 1002]

/-- Two requests come after the TTL, the second while the first waits. -/
def expired : List Label :=
  [.request "acme" (sampleCfg true "config") 1000, .answer 0 [sampleRule "database"] 1000,
    .request "acme" (sampleCfg true "config") 2000, .request "acme" (sampleCfg true "config") 2001]

/-- A request within the TTL of the database's answer. -/
def kept : List Label :=
  [.request "acme" (sampleCfg true "config") 1000, .answer 0 [sampleRule "database"] 1000,
    .request "acme" (sampleCfg true "config") 1030]

/-- The first request of a run waits for the database. -/
def waiting : State samplePy where
  tenants id := if id = "acme" then { lastDbLoad := 1000 } else {}
  asks := [⟨"acme", sampleCfg true "config"⟩]

theorem step_waiting :
    step ({} : State samplePy) (.request "acme" (sampleCfg true "config") 1000) = some waiting := by
  have hload : loadRules (({} : State samplePy).tenants "acme") (sampleCfg true "config") 1000 =
      ({ lastDbLoad := 1000 }, .asking) := loadRules_due rfl rfl (by norm_num)
  rw [step, serve_request rfl hload]
  rfl

theorem rules_current_of_labelOk_kept :
    AllSteps step ServesCurrent ({} : State samplePy) kept := by
  apply rules_current_of_labelOk
  refine allSteps_cons step_waiting ?_ (allSteps_cons rfl ?_ fun _ _ => ⟨?_, trivial⟩)
  · refine fun _ => ⟨fun _ => rfl, ?_, ?_, fun _ => ⟨?_, fun _ => rfl⟩⟩
    · rintro - ⟨rules, ⟨⟩⟩
    · rintro - - a ⟨⟩
    · rintro ⟨rules, ⟨⟩⟩
  · rintro _ ⟨⟩
    refine ⟨fun _ => rfl, ?_, fun h => absurd h (List.cons_ne_nil _ _)⟩
    rintro - ttl ⟨⟩
    norm_num
  · refine fun _ => ⟨fun _ => rfl, ?_, fun _ hfrom => ?_, fun _ => ⟨?_, fun _ => rfl⟩⟩
    · rintro - - a ⟨⟩
      exact Or.inl le_rfl
    · exact absurd ⟨sampleRules "database", rfl⟩ hfrom
    · rintro ⟨rules, ⟨⟩⟩

theorem not_rules_current :
    ¬ AllSteps step ServesCurrent ({} : State samplePy) reloaded ∧
      ¬ AllSteps step ServesCurrent ({} : State samplePy) replaced ∧
      ¬ AllSteps step ServesCurrent ({} : State samplePy) expired := by
  refine ⟨fun h => ?_, fun h => ?_, fun h => ?_⟩
  · have hserves := ((h _ rfl).2 _ rfl).1 _ _ rfl _ _ _ rfl
    have hrules := hserves.2 (fun a h => by cases h)
    have hnames := congrArg (Option.map (List.map BypassRule.name)) hrules
    revert hnames
    decide
  · have hserves := ((((h _ step_waiting).2 _ rfl).2 _ rfl).2 _ rfl).1
    have hload : loadRules { answeredTenant with
          loaded := some (.config, sampleRules "config")
          loadedConfig := some (sampleCfg false "config") } (sampleCfg true "config") 1002 =
        (_, .rules (sampleRules "config")) :=
      loadRules_within rfl rfl (show (1002 : ℚ) - 1000 ≤ 60 by norm_num)
    have hrules := (hserves _ _ (serve_request rfl hload) _ _ _ rfl).1 _ rfl
      ⟨rfl, List.cons_ne_nil _ _, 60, rfl, show (1002 : ℚ) - 1000 ≤ 60 by norm_num⟩
    have hnames := congrArg (Option.map (List.map BypassRule.name)) hrules
    revert hnames
    decide
  · have hdue : loadRules answeredTenant (sampleCfg true "config") 2000 =
        ({ answeredTenant with lastDbLoad := 2000 }, .asking) :=
      loadRules_due rfl rfl (show (60 : ℚ) < 2000 - 1000 by norm_num)
    have hload : loadRules { answeredTenant with lastDbLoad := 2000 } (sampleCfg true "config")
          2001 = (_, .rules (sampleRules "database")) :=
      loadRules_within rfl rfl (show (2001 : ℚ) - 2000 ≤ 60 by norm_num)
    have hserves := ((((h _ step_waiting).2 _ rfl).2 _
      (congrArg (Option.map Prod.fst) (serve_request rfl hdue))).2 _ rfl).1
    have hrules := (hserves _ _ (serve_request rfl hload) _ _ _ rfl).2 fun a ha hcounts => by
      cases ha
      obtain ⟨-, -, ttl, ⟨⟩, hle⟩ := hcounts
      have hlate : ¬ (2001 : ℚ) - 1000 ≤ 60 := by norm_num
      exact hlate hle
    have hnames := congrArg (Option.map (List.map BypassRule.name)) hrules
    revert hnames
    decide

end TokenProxy.Bypass
