/-
  TokenProxy/ConfigReload.lean
  ============================
  **A reload of the config: applied whole, or refused (`config_loader.py`).**

  A reload parses the source, merges the files of `params_dir` into it and fills in the
  environment's variables; what comes out is refused where it lacks a section that the
  running config has.  Then the post-load steps work on it, and it goes live.

  A step is what it makes of the config that it is handed, whether it raises on the way or
  not.  The state carries, beside the running config, the source that last went live and the
  files and variables it was read with.

  Main result: `reloads_lawful_iff`, when a cut source is refused and an unchanged one
  accepted.
-/
import TokenProxy.Execution
import TokenProxy.PyJson

namespace TokenProxy.Config

abbrev Fields := List (String × Json)

/-! ## 1. From the source to a config -/

/-- `d.update(other)`. -/
def update (d other : Fields) : Fields :=
  other.foldl (fun d entry => Assoc.insert entry.1 entry.2 d) d

/-- `_merge_groups`. -/
def mergeGroups (groups fragment : Fields) : Fields :=
  fragment.foldl (fun groups entry =>
    match entry.2 with
    | .null => groups
    | .obj settings =>
      match Assoc.lookup entry.1 groups with
      | some (.obj current) => Assoc.insert entry.1 (.obj (update current settings)) groups
      | _ => Assoc.insert entry.1 (.obj settings) groups
    | settings => Assoc.insert entry.1 settings groups) groups

/-- `_GROUP_KEY.match(key)`. -/
def isGroupKey (key : String) : Bool :=
  match key.toList with
  | g :: d :: rest =>
    (g = 'G' || g = 'g') && d.isDigit && (rest.dropWhile Char.isDigit).head? = some '_'
  | _ => false

/-- `key in (groups or {})` raises: what is there is a number. -/
def membershipRaises (groups : Json) : Bool :=
  groups.truthy && match groups with
    | .bool _ => true
    | .int _ => true
    | .float _ => true
    | _ => false

/-- One file of `params_dir`; what an exception leaves of it is kept. -/
def mergeFile (result : Fields) : Fields → Fields
  | [] => result
  | (key, value) :: rest =>
    match key, value with
    | "groups", .obj fragment =>
      let groups := match Assoc.lookup "groups" result with
        | some (.obj groups) => groups
        | _ => []
      mergeFile (Assoc.insert "groups" (.obj (mergeGroups groups fragment)) result) rest
    | key, value =>
      if !isGroupKey key && membershipRaises ((Assoc.lookup "groups" result).getD .null) then result
      else
        match value, Assoc.lookup key result with
        | .obj v, some (.obj current) =>
          mergeFile (Assoc.insert key (.obj (update current v)) result) rest
        | v, _ => mergeFile (Assoc.insert key v result) rest

/-- What stands under `params_dir`. -/
inductive DirReply where
  /-- `os.path.isdir` raises -/
  | raises
  | missing
  /-- the values of the YAML files, in the order of their names; `none` of one that does not
      parse -/
  | files (values : List (Option Json))

/-- What a source is read with: the directories, and `${VAR}` placeholders in a string. -/
structure Surroundings where
  paramsDir : Json → DirReply
  expand : String → String

/-- `merge_params_dir`; `none` where it raises. -/
def mergeParamsDir (base : Fields) : DirReply → Option Fields
  | .raises => none
  | .missing => some base
  | .files values =>
    some (values.foldl (fun result value =>
      match value with
      | some (.obj data) => mergeFile result data
      | _ => result) base)

mutual

/-- `expand_env_vars`. -/
def expandEnvVars (expand : String → String) : Json → Json
  | .str s => .str (expand s)
  | .arr items => .arr (expandItems expand items)
  | .obj fields => .obj (expandFields expand fields)
  | other => other

def expandItems (expand : String → String) : List Json → List Json
  | [] => []
  | v :: vs => expandEnvVars expand v :: expandItems expand vs

def expandFields (expand : String → String) : Fields → Fields
  | [] => []
  | (k, v) :: rest => (k, expandEnvVars expand v) :: expandFields expand rest

end

/-- What a parsed source makes; `none` where loading raises. -/
def prepare (around : Surroundings) (raw : Json) : Option Fields :=
  match raw with
  | .obj fields =>
    let dir := (Assoc.lookup "params_dir" fields).getD (.str "")
    (if dir.truthy then mergeParamsDir fields (around.paramsDir dir) else some fields).map
      (expandFields around.expand)
  | _ => none

/-! ## 2. Reloading -/

/-- A post-load step: what it makes of the config, whether or not it raises. -/
abbrev Step := Fields → Fields

structure Reload where
  /-- the parsed source; `none` where it cannot be read or parsed -/
  source : Option Json
  around : Surroundings
  steps : List Step

structure Loader where
  running : Fields
  /-- the source that last went live, and what it was read with -/
  live : Option (Json × Surroundings)

def sections (config : Fields) : List String := config.map Prod.fst

/-- `_refuse_a_shrunken_reload` lets the new config pass. -/
def keepsSections (running new : Fields) : Bool :=
  (sections running).all fun name => decide (name ∈ sections new)

def applySteps (steps : List Step) (config : Fields) : Fields :=
  steps.foldl (fun config step => step config) config

/-- What a reload would put live, where it is not refused. -/
def Reload.accepted (r : Reload) (running : Fields) : Option Fields := do
  let raw ← r.source
  let new ← prepare r.around raw
  if keepsSections running new then some (applySteps r.steps new) else none

/-- `load_config`, of a reload. -/
def loadConfig (s : Loader) (r : Reload) : Option Loader :=
  some (match r.accepted s.running with
    | some config => ⟨config, r.source.map fun raw => (raw, r.around)⟩
    | none => s)

/-! ## 3. Sources that are cut -/

/-- The value with entries missing, at any depth; a mapping or a list that has lost all of
them parses to null. -/
inductive Trimmed : Json → Json → Prop
  | refl (v : Json) : Trimmed v v
  | emptyObj (fields : Fields) : Trimmed .null (.obj fields)
  | emptyArr (items : List Json) : Trimmed .null (.arr items)
  | field {k : String} {v w : Json} {fields rest : Fields} (hv : Trimmed v w)
      (hrest : Trimmed (.obj fields) (.obj rest)) : Trimmed (.obj ((k, v) :: fields))
        (.obj ((k, w) :: rest))
  | noField {k : String} {w : Json} {fields rest : Fields}
      (hrest : Trimmed (.obj fields) (.obj rest)) : Trimmed (.obj fields) (.obj ((k, w) :: rest))
  | item {v w : Json} {items rest : List Json} (hv : Trimmed v w)
      (hrest : Trimmed (.arr items) (.arr rest)) : Trimmed (.arr (v :: items)) (.arr (w :: rest))
  | noItem {w : Json} {items rest : List Json} (hrest : Trimmed (.arr items) (.arr rest)) :
      Trimmed (.arr items) (.arr (w :: rest))

/-- The reload reads the running source with entries missing. -/
def Cut (s : Loader) (r : Reload) : Prop :=
  ∃ raw live, r.source = some raw ∧ s.live = some (live, r.around) ∧ raw ≠ live ∧ Trimmed raw live

/-- The reload reads what last went live. -/
def Unchanged (s : Loader) (r : Reload) : Prop :=
  ∃ raw, r.source = some raw ∧ s.live = some (raw, r.around)

/-- A reload leaves the running config, or puts the complete new one live; one of a cut source
is refused, one of an unchanged source accepted. -/
structure Lawful (s : Loader) (r : Reload) : Prop where
  whole : ∀ s', loadConfig s r = some s' → s' = s ∨
    ∃ raw new, r.source = some raw ∧ prepare r.around raw = some new ∧
      s'.running = applySteps r.steps new ∧ s'.live = some (raw, r.around)
  cut : Cut s r → r.accepted s.running = none
  unchanged : Unchanged s r → (r.accepted s.running).isSome = true

/-- A cut source lacks a section of the running config, and an unchanged one has them all. -/
def SectionsTell (s : Loader) (r : Reload) : Prop :=
  (Cut s r → ∀ raw new, r.source = some raw → prepare r.around raw = some new →
    ∃ name ∈ sections s.running, name ∉ sections new) ∧
  (Unchanged s r → ∀ raw, r.source = some raw →
    ∃ new, prepare r.around raw = some new ∧ ∀ name ∈ sections s.running, name ∈ sections new)

theorem keepsSections_iff {running new : Fields} :
    keepsSections running new = true ↔ ∀ name ∈ sections running, name ∈ sections new := by
  simp [keepsSections]

theorem accepted_iff {r : Reload} {running config : Fields} :
    r.accepted running = some config ↔
      ∃ raw new, r.source = some raw ∧ prepare r.around raw = some new ∧
        (∀ name ∈ sections running, name ∈ sections new) ∧ applySteps r.steps new = config := by
  rw [Reload.accepted]
  simp only [Option.bind_eq_bind, Option.bind_eq_some_iff, Option.ite_none_right_eq_some,
    Option.some.injEq, keepsSections_iff]
  constructor
  · rintro ⟨raw, hraw, new, hnew, hkeeps, heq⟩
    exact ⟨raw, new, hraw, hnew, hkeeps, heq⟩
  · rintro ⟨raw, new, hraw, hnew, hkeeps, heq⟩
    exact ⟨raw, hraw, new, hnew, hkeeps, heq⟩

/-- A reload is refused, or puts the complete new config live. -/
theorem loadConfig_whole {s s' : Loader} {r : Reload} (h : loadConfig s r = some s') :
    s' = s ∨ ∃ raw new, r.source = some raw ∧ prepare r.around raw = some new ∧
      s'.running = applySteps r.steps new ∧ s'.live = some (raw, r.around) := by
  rw [loadConfig] at h
  cases haccepted : r.accepted s.running with
  | none =>
    rw [haccepted] at h
    cases h
    exact Or.inl rfl
  | some config =>
    rw [haccepted] at h
    cases h
    obtain ⟨raw, new, hraw, hnew, -, hconfig⟩ := accepted_iff.mp haccepted
    exact Or.inr ⟨raw, new, hraw, hnew, hconfig.symm, by rw [hraw]; rfl⟩

theorem lawful_iff (s : Loader) (r : Reload) : Lawful s r ↔ SectionsTell s r := by
  constructor
  · intro h
    refine ⟨?_, ?_⟩
    · intro hcut raw new hraw hnew
      by_contra hall
      push Not at hall
      have haccepted := accepted_iff.mpr ⟨raw, new, hraw, hnew, hall, rfl⟩
      rw [h.cut hcut] at haccepted
      cases haccepted
    · intro hunchanged raw hraw
      obtain ⟨config, hconfig⟩ := Option.isSome_iff_exists.mp (h.unchanged hunchanged)
      obtain ⟨raw', new, hraw', hnew, hall, -⟩ := accepted_iff.mp hconfig
      cases hraw.symm.trans hraw'
      exact ⟨new, hnew, hall⟩
  · rintro ⟨hcut, hunchanged⟩
    refine ⟨fun s' => loadConfig_whole, ?_, ?_⟩
    · intro hcuts
      rw [Option.eq_none_iff_forall_not_mem]
      intro config hconfig
      obtain ⟨raw, new, hraw, hnew, hall, -⟩ := accepted_iff.mp hconfig
      obtain ⟨name, hname, hno⟩ := hcut hcuts raw new hraw hnew
      exact hno (hall name hname)
    · intro hsame
      obtain ⟨raw, hraw, -⟩ := id hsame
      obtain ⟨new, hnew, hall⟩ := hunchanged hsame raw hraw
      exact Option.isSome_iff_exists.mpr ⟨_, accepted_iff.mpr ⟨raw, new, hraw, hnew, hall, rfl⟩⟩

/-- **Reloads are lawful, over any run, exactly where the sections of the running config tell a
cut source from an unchanged one.** -/
theorem reloads_lawful_iff (s : Loader) (reloads : List Reload) :
    Execution.AllSteps loadConfig Lawful s reloads ↔
      Execution.AllSteps loadConfig SectionsTell s reloads := by
  have hsame : Lawful = SectionsTell := by
    funext s r
    exact propext (lawful_iff s r)
  rw [hsame]

/-- A plugin's step puts its own section in. -/
def pluginStep : Step := fun config => config ++ [("plugins", .obj [])]

/-- `groups: {G05_cache: {enabled: …}}`, read with an empty environment. -/
def reloadOf (settings : Json) (steps : List Step) : Reload where
  source := some (.obj [("groups", settings)])
  around := ⟨fun _ => .missing, id⟩
  steps := steps

def cacheOff : Json := .obj [("G05_cache", .obj [("enabled", .bool false)])]

/-- A file read again as it is gets refused once a step has put a section in; and one that was
cut inside its last section goes live. -/
theorem reloads_unlawful :
    ¬ Execution.AllSteps loadConfig Lawful ⟨[], none⟩
        [reloadOf cacheOff [pluginStep], reloadOf cacheOff [pluginStep]] ∧
      ¬ Execution.AllSteps loadConfig Lawful ⟨[], none⟩
        [reloadOf cacheOff [], reloadOf .null []] := by
  constructor
  · intro hlawful
    have hsecond := ((hlawful _ rfl).2 _ rfl).1
    have haccepted := hsecond.unchanged ⟨_, rfl, rfl⟩
    cases haccepted
  · intro hlawful
    have hsecond := ((hlawful _ rfl).2 _ rfl).1
    have hcut : Trimmed (.obj [("groups", .null)]) (.obj [("groups", cacheOff)]) :=
      .field (.emptyObj _) (.refl _)
    have hrefused := hsecond.cut ⟨_, _, rfl, rfl, by simp [cacheOff], hcut⟩
    cases hrefused

end TokenProxy.Config
