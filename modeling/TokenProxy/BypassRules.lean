/-
  TokenProxy/BypassRules.lean
  ===========================
  **The bypass rules of a tenant: where they are loaded from and how long they are kept.**

  Source: `middleware/g04_bypass.py` (`BypassRule`, `G04Bypass._load_rules`, the part of
  `process_request` up to the loaded rules).

  The loader keeps, for each tenant, the rules in force, whether they came from the database or
  from a config, and when the database was last asked.  A request that asks the database is
  suspended until the answer arrives, and other requests are served meanwhile, so a request is
  two labels of the step function: `request`, and for some of them a later `answer`.

  Next to what the code keeps, a tenant's state records what the run has seen: the latest answer
  of the database and the config whose rules were loaded last.  No branch reads these two.
-/
import TokenProxy.PyJson
import TokenProxy.Execution

namespace TokenProxy.Bypass

/-! ## 1. Rules -/

/-- The parts of Python that a rule needs: `re.compile`, `none` where it raises, and
    `str.lower`. -/
structure Py where
  Pattern : Type
  compile : String → Option Pattern
  lower : String → String

/-- `for x in value`; `none` where that raises. -/
def iterate? : Json → Option (List Json)
  | .arr items => some items
  | .str s => some (s.toList.map fun c => .str (String.singleton c))
  | .obj fields => some (fields.map fun f => .str f.1)
  | _ => none

/-- What a config sets for each of its rules. -/
structure Settings where
  defaultConfidence : Json
  keywordWeight : Json
  patternWeight : Json

structure BypassRule (py : Py) where
  name : Json
  patterns : List py.Pattern
  keywords : List String
  backendUrl : Json
  staticResponse : Json
  confidenceThreshold : Json
  ruleId : Json
  category : Json
  keywordWeight : Json
  patternWeight : Json

variable {py : Py}

/-- `BypassRule(rule, default_confidence, keyword_weight, pattern_weight)`; `none` where a part
    of it raises. -/
def BypassRule.init (settings : Settings) : Json → Option (BypassRule py)
  | .obj fields => do
    let rule := Json.obj fields
    let patterns ← iterate? (rule.getD "patterns" (.arr []))
    let patterns ← patterns.mapM fun p => p.str?.bind py.compile
    let keywords ← iterate? (rule.getD "keywords" (.arr []))
    let keywords ← keywords.mapM fun k => k.str?.map py.lower
    some {
      name := rule.getD "name" (.str "")
      patterns := patterns
      keywords := keywords
      backendUrl := rule.getD "backend_url" .null
      staticResponse := rule.getD "static_response" .null
      confidenceThreshold := rule.getD "confidence_threshold" settings.defaultConfidence
      ruleId := rule.getD "rule_id" (rule.getD "name" (.str ""))
      category := rule.getD "category" (.str "general")
      keywordWeight := settings.keywordWeight
      patternWeight := settings.patternWeight }
  | _ => none

def buildRules (settings : Settings) (rules : List Json) : Option (List (BypassRule py)) :=
  rules.mapM (BypassRule.init settings)

/-! ## 2. The config of a request -/

def enabled (cfg : Json) : Bool := (cfg.getD "enabled" (.bool false)).truthy

def databaseFirst (cfg : Json) : Bool := (cfg.getD "database_first" (.bool true)).truthy

/-- `db_cache_ttl_seconds`, by default `_db_cache_ttl`; comparing with what is no number raises. -/
def ttl? (cfg : Json) : Option ℚ := (cfg.getD "db_cache_ttl_seconds" (.int 60)).number?

def settings (cfg : Json) : Settings where
  defaultConfidence := cfg.getD "default_confidence_threshold" (.float (70 / 100))
  keywordWeight := cfg.getD "keyword_weight" (.float (4 / 10))
  patternWeight := cfg.getD "pattern_weight" (.float (6 / 10))

/-- The rules of the config itself. -/
def configRules (cfg : Json) : Option (List (BypassRule py)) :=
  (iterate? (cfg.getD "rules" (.arr []))).bind (buildRules (settings cfg))

/-! ## 3. The loader -/

/-- `_rules_loaded_from`. -/
inductive Source where
  | config
  | database
deriving DecidableEq

/-- What the database answered, when, and the settings of the request that asked. -/
structure Answer where
  time : ℚ
  rows : List Json
  settings : Settings

/-- The loader's state for one tenant; `_rules` and `_rules_loaded_from` are always written
    together. -/
structure Tenant (py : Py) where
  loaded : Option (Source × List (BypassRule py)) := none
  lastDbLoad : ℚ := 0
  loadedConfig : Option Json := none
  answer : Option Answer := none

/-- What comes of a request: the group is off, it waits for the database, it raises, or it goes
    on to match the message against some rules. -/
inductive Outcome (py : Py) where
  | passed
  | asking
  | raised
  | rules (rules : List (BypassRule py))

/-- The config rules, which are built only when none are in force. -/
def fallback (tenant : Tenant py) (cfg : Json) : Tenant py × Outcome py :=
  match tenant.loaded with
  | some (.config, rules) => (tenant, .rules rules)
  | _ =>
    match configRules cfg with
    | some rules =>
      ({ tenant with loaded := some (.config, rules), loadedConfig := some cfg }, .rules rules)
    | none => (tenant, .raised)

/-- The rules while the database's answer is kept: its own, else the config's. -/
def keptRules (tenant : Tenant py) (cfg : Json) : Tenant py × Outcome py :=
  match tenant.loaded with
  | some (.database, rules) => (tenant, .rules rules)
  | _ => fallback tenant cfg

/-- `_load_rules`, up to where it awaits the database. -/
def loadRules (tenant : Tenant py) (cfg : Json) (now : ℚ) : Tenant py × Outcome py :=
  if databaseFirst cfg then
    match ttl? cfg with
    | none => (tenant, .raised)
    | some ttl =>
      if ttl < now - tenant.lastDbLoad then ({ tenant with lastDbLoad := now }, .asking)
      else keptRules tenant cfg
  else fallback tenant cfg

/-- `_load_rules`, from the answer on; no rows stand for an empty table and for an error. -/
def resume (tenant : Tenant py) (cfg : Json) (rows : List Json) (now : ℚ) :
    Tenant py × Outcome py :=
  let tenant := { tenant with answer := some ⟨now, rows, settings cfg⟩ }
  match rows with
  | [] => fallback tenant cfg
  | _ :: _ =>
    match buildRules (settings cfg) rows with
    | some rules => ({ tenant with loaded := some (.database, rules) }, .rules rules)
    | none => (tenant, .raised)

/-! ## 4. Runs -/

/-- A request that waits for the database. -/
structure Ask where
  tenant : String
  cfg : Json

structure State (py : Py) where
  tenants : String → Tenant py := fun _ => {}
  asks : List Ask := []

/-- A request arrives, or the answer to the `i`-th waiting one. -/
inductive Label where
  | request (tenant : String) (cfg : Json) (now : ℚ)
  | answer (i : ℕ) (rows : List Json) (now : ℚ)

def State.setTenant (s : State py) (id : String) (tenant : Tenant py) : State py :=
  { s with tenants := fun other => if other = id then tenant else s.tenants other }

@[simp] theorem State.setTenant_self (s : State py) (id : String) (tenant : Tenant py) :
    (s.setTenant id tenant).tenants id = tenant := if_pos rfl

theorem State.setTenant_of_ne (s : State py) {id other : String} (h : other ≠ id)
    (tenant : Tenant py) : (s.setTenant id tenant).tenants other = s.tenants other := if_neg h

/-- A request that asks the database waits. -/
def State.suspend (s : State py) (ask : Ask) : Outcome py → State py
  | .asking => { s with asks := s.asks ++ [ask] }
  | _ => s

/-- `process_request`, up to the rules or to where it awaits the database. -/
def request (s : State py) (id : String) (cfg : Json) (now : ℚ) : State py × Outcome py :=
  if enabled cfg then
    let loaded := loadRules (s.tenants id) cfg now
    ((s.setTenant id loaded.1).suspend ⟨id, cfg⟩ loaded.2, loaded.2)
  else (s, .passed)

/-- The label, taken; `none` when no request waits at this place. -/
def serve (s : State py) : Label → Option (State py × Outcome py)
  | .request id cfg now => some (request s id cfg now)
  | .answer i rows now =>
    match s.asks[i]? with
    | some ask =>
      let resumed := resume (s.tenants ask.tenant) ask.cfg rows now
      some ({ s with asks := s.asks.eraseIdx i }.setTenant ask.tenant resumed.1, resumed.2)
    | none => none

def step (s : State py) (label : Label) : Option (State py) := (serve s label).map Prod.fst

end TokenProxy.Bypass
