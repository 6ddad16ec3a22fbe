/-
  TokenProxy/ToolPruning.lean
  ===========================
  **Are the tools that a request depends on still offered?** (`_named_by_request` and the tool
  selection of `middleware/g08_tool_loading.py`, `compress_descriptions_in_place` of
  `middleware/prose_compress.py`, `_select_tools` of `middleware/g16_agent_arch.py`).

  The first stage keeps what the request names, wherever the name stands.  The second cuts the
  list to a number of tools by their scores, and looks at no names at all.

  Main result: `required_kept_iff`, the tools that are named stay exactly when the list is not cut
  or each of them has its place among the tools that the cut keeps (`Spared`).
-/
import TokenProxy.TokenCounter
import Mathlib.Algebra.Order.Ring.Rat
import Mathlib.Data.List.Perm.Basic
import Mathlib.Data.List.Sort

namespace TokenProxy.ToolPruning

open TokenCounter (PyError iterate)

/-! ## 1. The names -/

/-- The name that a tool, a call or a choice has: that of its function, or its own. -/
def specName (spec : Json) : Option String :=
  if spec.isObj then
    let fn := spec.getD "function" .null
    match if fn.isObj then fn.getD "name" .null else spec.getD "name" .null with
    | .str s => if s = "" then none else some s
    | _ => none
  else none

structure ToolRequest where
  tools : List Json
  /-- `null` when it is missing -/
  toolChoice : Json
  functionCall : Json
  messages : List Json

def isAssistant (msg : Json) : Bool :=
  msg.isObj && decide (msg.getD "role" .null = .str "assistant")

/-- `msg.get("tool_calls") or []`. -/
def toolCalls (msg : Json) : Except PyError (List Json) :=
  iterate ((msg.getD "tool_calls" .null).orElse (.arr []))

def namesOfMessage (msg : Json) : Except PyError (List String) :=
  if isAssistant msg then do
    let calls ← toolCalls msg
    pure (calls.filterMap specName ++ (specName (msg.getD "function_call" .null)).toList)
  else pure []

/-- `_named_by_request`. -/
def namedByRequest (req : ToolRequest) : Except PyError (List String) := do
  let inHistory ← req.messages.mapM namesOfMessage
  pure ((specName req.toolChoice).toList ++ (specName req.functionCall).toList ++
    inHistory.flatten)

/-! ## 2. The selection -/

section

/-- What a prose compressor makes of a text, with the lengths before and after. -/
structure Prose where
  compress : String → String × Nat × Nat
  accept : String → String → Bool

variable (prose : Prose) (fields : List String)

/-- One named field of a dict. -/
def compressText (text : String) : String × Nat :=
  let res := prose.compress text
  if res.1 ≠ text && !prose.accept text res.1 then (text, 0)
  else (res.1, res.2.1 - res.2.2)

mutual

/-- `compress_descriptions_in_place`, with the characters saved. -/
def compressIn : Json → Json × Nat
  | .arr items =>
    let out := compressItems items
    (.arr out.1, out.2)
  | .obj entries =>
    let out := compressFields entries
    (.obj out.1, out.2)
  | v => (v, 0)

def compressItems : List Json → List Json × Nat
  | [] => ([], 0)
  | v :: vs =>
    let first := compressIn v
    let rest := compressItems vs
    (first.1 :: rest.1, first.2 + rest.2)

def compressFields : List (String × Json) → List (String × Json) × Nat
  | [] => ([], 0)
  | (k, .str s) :: entries =>
    let first := if k ∈ fields && s ≠ "" then compressText prose s else (s, 0)
    let rest := compressFields entries
    ((k, .str first.1) :: rest.1, first.2 + rest.2)
  | (k, v) :: entries =>
    let first := compressIn v
    let rest := compressFields entries
    ((k, first.1) :: rest.1, first.2 + rest.2)

end

end

/-- The configuration and the state that the selection reads. -/
structure Selection where
  enabled : Bool := true
  /-- the intents of the registry's or a manifest's entry for a name -/
  available : Json.DictKey → Option (List String)
  /-- the names that the scheduled pruning has marked -/
  pruned : Json.DictKey → Bool
  /-- `_classify_intent` -/
  intents : List String
  compressDescriptions : Bool := false
  prose : Prose
  descriptionFields : List String := ["description"]
  /-- the fields are descriptions -/
  describes : "name" ∉ descriptionFields
  /-- the prefix-cache floor holds the list whole, rather than this one -/
  holdsWhole : List Json → Bool

/-- `tool.get("function", {}).get("name", "")`. -/
def offeredName (tool : Json) : Except PyError Json :=
  if tool.isObj then
    match tool.getD "function" (.obj []) with
    | .obj fn => pure ((Json.obj fn).getD "name" (.str ""))
    | _ => .error .attributeError
  else pure (.str "")

def Selection.wanted (sel : Selection) (key : Json.DictKey) : Bool :=
  let toolIntents := (sel.available key).getD ["default"]
  sel.intents.any (fun i => toolIntents.contains i) || toolIntents.contains "default"

def isNamed (required : List String) : Json → Bool
  | .str s => s ≠ "" && required.contains s
  | _ => false

/-- A tool of the list is kept. -/
def selects (sel : Selection) (required : List String) (tool : Json) : Except PyError Bool := do
  let name ← offeredName tool
  if isNamed required name then pure true
  else
    match name.dictKey? with
    | some key =>
      -- only the names that the registry or a manifest has are looked up
      let known := name.truthy && (sel.available key).isSome
      pure (!(known && sel.pruned key) && sel.wanted key)
    | none => .error .typeError

def selectAll (sel : Selection) (required : List String) : List Json → Except PyError (List Json)
  | [] => pure []
  | tool :: tools => do
    let keep ← selects sel required tool
    let rest ← selectAll sel required tools
    pure (if keep then tool :: rest else rest)

/-- The tools that the first stage leaves. -/
def loadTools (sel : Selection) (req : ToolRequest) : Except PyError (List Json) :=
  if !sel.enabled || req.tools.isEmpty then pure req.tools
  else do
    let required ← namedByRequest req
    let kept ← selectAll sel required req.tools
    let (relevant, saved) := if sel.compressDescriptions && !kept.isEmpty then
      compressItems sel.prose sel.descriptionFields kept else (kept, 0)
    if relevant.length < req.tools.length || 0 < saved then
      pure (if sel.holdsWhole relevant then req.tools else relevant)
    else pure req.tools

/-! ## 3. The cut -/

structure ArchConfig where
  enabled : Bool := true
  maxToolsPerAgent : Int := 20
  /-- `tool_selection_strategy` is `relevance`, and not `order` -/
  byRelevance : Bool := true

/-- `xs[:n]`. -/
def sliceTo {α : Type} (n : Int) (xs : List α) : List α :=
  if 0 ≤ n then xs.take n.toNat else xs.take (xs.length + n).toNat

/-- The order of `(-score, i)`. -/
def Ahead (score : Nat → ℚ) (i j : Nat) : Prop :=
  score j < score i ∨ score i = score j ∧ i ≤ j

instance (score : Nat → ℚ) : DecidableRel (Ahead score) := fun i j =>
  inferInstanceAs (Decidable (score j < score i ∨ _))

def scoreAt (score : Json → ℚ) (tools : List Json) (i : Nat) : ℚ :=
  ((tools[i]?).map score).getD 0

def selectTools (score : Json → ℚ) (tools : List Json) (maxTools : Int) : List Json :=
  let ranked := (List.range tools.length).insertionSort (Ahead (scoreAt score tools))
  let keep := (sliceTo maxTools ranked).insertionSort (· ≤ ·)
  keep.filterMap fun i => tools[i]?

/-- The tools that the second stage leaves; `none` for the scores when the ranking raises. -/
def trimTools (cfg : ArchConfig) (score : Option (Json → ℚ)) (tools : List Json) : List Json :=
  if cfg.enabled && cfg.maxToolsPerAgent < tools.length then
    match if cfg.byRelevance then score else none with
    | some score => selectTools score tools cfg.maxToolsPerAgent
    | none => sliceTo cfg.maxToolsPerAgent tools
  else tools

def outgoingTools (sel : Selection) (cfg : ArchConfig) (score : Option (Json → ℚ))
    (req : ToolRequest) : Except PyError (List Json) := do
  let tools ← loadTools sel req
  pure (trimTools cfg score tools)

/-! ## 4. What is asked, and when it holds -/

/-- The names of the calls of a turn, in either shape. -/
def calledNames (msg : Json) : List String :=
  if isAssistant msg then
    ((msg.getD "tool_calls" .null).items?.getD []).filterMap specName ++
      (specName (msg.getD "function_call" .null)).toList
  else []

/-- The names that the request depends on. -/
def requires (req : ToolRequest) : List String :=
  (specName req.toolChoice).toList ++ (specName req.functionCall).toList ++
    req.messages.flatMap calledNames

def requiredName (named : List String) (tool : Json) : Option String :=
  (specName tool).filter fun n => named.contains n

/-- The names of the tools of the list that are named. -/
def requiredNames (named : List String) (tools : List Json) : List String :=
  tools.filterMap (requiredName named)

/-- As many tools as the request depends on, if they are no more than the maximum, go out. -/
def KeepsRequired (sel : Selection) (cfg : ArchConfig) (score : Option (Json → ℚ))
    (req : ToolRequest) : Prop :=
  ∀ out, outgoingTools sel cfg score req = .ok out →
    ((requiredNames (requires req) req.tools).length : Int) ≤ cfg.maxToolsPerAgent →
    requiredNames (requires req) out = requiredNames (requires req) req.tools

/-- How many tools the cut puts before the one at this place. -/
def place (cfg : ArchConfig) (score : Option (Json → ℚ)) (tools : List Json) (i : Nat) : Nat :=
  match if cfg.byRelevance then score else none with
  | some score =>
    ((List.range tools.length).filter fun j =>
      decide (j ≠ i) && decide (Ahead (scoreAt score tools) j i)).length
  | none => i

/-- The function of a tool is a dict of its own. -/
def Nested (tool : Json) : Prop := (tool.getD "function" .null).isObj = true

/-- Each tool that is named is taken by the first stage, as its name is where this stage looks or
the nameless are wanted; and the second cuts nothing, or puts fewer tools before it than it
keeps. -/
def Spared (sel : Selection) (cfg : ArchConfig) (score : Option (Json → ℚ))
    (req : ToolRequest) : Prop :=
  ∀ tools, loadTools sel req = .ok tools →
    ((requiredNames (requires req) req.tools).length : Int) ≤ cfg.maxToolsPerAgent →
    (tools = req.tools ∨ ∀ tool ∈ req.tools, (requiredName (requires req) tool).isSome = true →
      Nested tool ∨ sel.wanted (.text "") = true) ∧
    (cfg.enabled = false ∨ (tools.length : Int) ≤ cfg.maxToolsPerAgent ∨
      ∀ i tool, tools[i]? = some tool → (requiredName (requires req) tool).isSome = true →
        (place cfg score tools i : Int) < cfg.maxToolsPerAgent)

/-! ## 5. Lists that lose elements -/

section

variable {α β : Type}

/-- What `f` reads in a list is read in what is left of it exactly when nothing is lost that `f`
reads. -/
theorem filterMap_filter_eq_iff (f : α → Option β) (p : α → Bool) (xs : List α) :
    (xs.filter p).filterMap f = xs.filterMap f ↔ ∀ x ∈ xs, (f x).isSome = true → p x = true := by
  induction xs with
  | nil => simp
  | cons x xs ih =>
    rw [List.forall_mem_cons, ← ih]
    by_cases hp : p x = true
    · rw [List.filter_cons_of_pos hp]
      cases hf : f x with
      | none => simp [List.filterMap_cons_none hf]
      | some y => simp [List.filterMap_cons_some hf, hp]
    · rw [List.filter_cons_of_neg hp]
      cases hf : f x with
      | none => simp [List.filterMap_cons_none hf]
      | some y =>
        rw [List.filterMap_cons_some hf]
        apply iff_of_false
        · intro h
          have hle : ((xs.filter p).filterMap f).length ≤ (xs.filterMap f).length :=
            (List.filter_sublist.filterMap f).length_le
          rw [h, List.length_cons] at hle
          exact Nat.not_succ_le_self _ hle
        · rintro ⟨hkept, -⟩
          exact hp (hkept rfl)

/-- An element of a list in order is among the first `m` when fewer are ahead of it. -/
theorem mem_take_iff {r : α → α → Prop} [DecidableRel r] [DecidableEq α]
    (hantisymm : ∀ {x y}, r x y → r y x → x = y) {xs : List α} (hsorted : xs.Pairwise r)
    (hnodup : xs.Nodup) (m : Nat) (x : α) :
    x ∈ xs.take m ↔
      x ∈ xs ∧ (xs.filter fun y => decide (y ≠ x) && decide (r y x)).length < m := by
  induction xs generalizing m with
  | nil => simp
  | cons y ys ih =>
    obtain ⟨hahead, hsorted⟩ := List.pairwise_cons.mp hsorted
    obtain ⟨hnew, hnodup⟩ := List.nodup_cons.mp hnodup
    cases m with
    | zero => simp
    | succ m =>
      rw [List.take_succ_cons, List.mem_cons, List.mem_cons]
      by_cases hxy : x = y
      · subst hxy
        have hnone : (ys.filter fun y => decide (y ≠ x) && decide (r y x)) = [] := by
          rw [List.filter_eq_nil_iff]
          intro y hy hbefore
          simp only [Bool.and_eq_true, decide_eq_true_eq] at hbefore
          exact hbefore.1 (hantisymm hbefore.2 (hahead y hy))
        rw [List.filter_cons_of_neg (by simp), hnone]
        simp
      · rw [ih hsorted hnodup]
        by_cases hmem : x ∈ ys
        · rw [List.filter_cons_of_pos (by simp [Ne.symm hxy, hahead x hmem])]
          simp [hxy, hmem]
        · simp [hxy, hmem]

end

/-! ## 6. The first stage -/

theorem specName_of_not_obj {v : Json} (h : v.isObj = false) : specName v = none := by
  unfold specName
  rw [h]
  rfl

/-- What is iterated over is a list of calls, or names nothing. -/
theorem toolCalls_names {msg : Json} {calls : List Json} (h : toolCalls msg = .ok calls) :
    calls.filterMap specName =
      ((msg.getD "tool_calls" .null).items?.getD []).filterMap specName := by
  unfold toolCalls Json.orElse at h
  have hsilent : ∀ texts : List Json, (∀ v ∈ texts, v.isObj = false) →
      texts.filterMap specName = [] := by
    intro texts hall
    rw [List.filterMap_eq_nil_iff]
    exact fun v hv => specName_of_not_obj (hall v hv)
  generalize msg.getD "tool_calls" .null = value at h
  split at h
  · cases value with
    | arr items =>
      cases h
      rfl
    | str s =>
      cases h
      apply hsilent
      intro v hv
      obtain ⟨c, -, rfl⟩ := List.mem_map.mp hv
      rfl
    | obj fields =>
      cases h
      apply hsilent
      intro v hv
      obtain ⟨e, -, rfl⟩ := List.mem_map.mp hv
      rfl
    | _ => cases h
  · rename_i hfalsy
    cases h
    cases value with
    | arr items =>
      have hnil : items = [] := by
        cases items with
        | nil => rfl
        | cons item items => exact absurd rfl hfalsy
      rw [hnil]
      rfl
    | _ => rfl

theorem namesOfMessage_eq {msg : Json} {names : List String} (h : namesOfMessage msg = .ok names) :
    names = calledNames msg := by
  unfold namesOfMessage at h
  unfold calledNames
  split at h
  · rename_i hassistant
    rw [if_pos hassistant]
    cases hcalls : toolCalls msg with
    | error e =>
      rw [hcalls] at h
      cases h
    | ok calls =>
      rw [hcalls] at h
      cases h
      rw [toolCalls_names hcalls]
  · rename_i hassistant
    rw [if_neg hassistant]
    cases h
    rfl

theorem mapM_namesOfMessage {messages : List Json} {names : List (List String)}
    (h : messages.mapM namesOfMessage = .ok names) : names = messages.map calledNames := by
  induction messages generalizing names with
  | nil =>
    cases h
    rfl
  | cons msg messages ih =>
    rw [List.mapM_cons] at h
    cases hfirst : namesOfMessage msg with
    | error e =>
      rw [hfirst] at h
      cases h
    | ok first =>
      cases hrest : messages.mapM namesOfMessage with
      | error e =>
        rw [hfirst, hrest] at h
        cases h
      | ok rest =>
        rw [hfirst, hrest] at h
        cases h
        rw [List.map_cons, namesOfMessage_eq hfirst, ih hrest]

/-- What `_named_by_request` finds is what the request depends on. -/
theorem namedByRequest_eq {req : ToolRequest} {named : List String}
    (h : namedByRequest req = .ok named) : named = requires req := by
  unfold namedByRequest at h
  cases hmessages : req.messages.mapM namesOfMessage with
  | error e =>
    rw [hmessages] at h
    cases h
  | ok names =>
    rw [hmessages] at h
    cases h
    rw [requires, mapM_namesOfMessage hmessages, List.flatMap]

/-! ### Descriptions -/

section

variable (prose : Prose) {fields : List String}

/-- What becomes of the value under a key. -/
def compressEntry (fields : List String) (k : String) : Json → Json
  | .str s => .str (if k ∈ fields && s ≠ "" then compressText prose s else (s, 0)).1
  | v => (compressIn prose fields v).1

theorem lookup_compressFields (k : String) (entries : List (String × Json)) :
    Assoc.lookup k (compressFields prose fields entries).1 =
      (Assoc.lookup k entries).map (compressEntry prose fields k) := by
  induction entries with
  | nil => rfl
  | cons e entries ih =>
    obtain ⟨l, v⟩ := e
    have hcons : (compressFields prose fields ((l, v) :: entries)).1 =
        (l, compressEntry prose fields l v) :: (compressFields prose fields entries).1 := by
      cases v <;> rfl
    rw [hcons, Assoc.lookup_cons, Assoc.lookup_cons]
    split
    · rename_i heq
      rw [heq]
      rfl
    · exact ih

theorem isObj_compressIn (v : Json) : (compressIn prose fields v).1.isObj = v.isObj := by
  cases v <;> rfl

theorem isObj_compressEntry (k : String) (v : Json) :
    (compressEntry prose fields k v).isObj = v.isObj := by
  cases v <;> rfl

/-- The name that a dict has itself. -/
def ownName (v : Json) : Option String :=
  match v.getD "name" .null with
  | .str s => if s = "" then none else some s
  | _ => none

theorem specName_eq (spec : Json) : specName spec =
    if spec.isObj then
      if (spec.getD "function" .null).isObj then ownName (spec.getD "function" .null)
      else ownName spec
    else none := by
  unfold specName ownName
  dsimp only
  cases (spec.getD "function" .null).isObj <;> rfl

theorem ownName_compressIn (hname : "name" ∉ fields) (v : Json) :
    ownName (compressIn prose fields v).1 = ownName v := by
  cases v with
  | obj entries =>
    have hget : (compressIn prose fields (.obj entries)).1.getD "name" .null =
        ((Assoc.lookup "name" entries).map (compressEntry prose fields "name")).getD .null := by
      rw [← lookup_compressFields]
      rfl
    unfold ownName
    rw [hget]
    change _ = match ((Assoc.lookup "name" entries).getD .null) with
      | .str s => if s = "" then none else some s
      | _ => none
    cases Assoc.lookup "name" entries with
    | none => rfl
    | some w =>
      cases w with
      | str s =>
        have hsame : compressEntry prose fields "name" (.str s) = .str s := by
          simp [compressEntry, hname]
        rw [Option.map_some, hsame, Option.getD_some]
      | _ => rfl
  | _ => rfl

/-- Compressing descriptions leaves the name of a tool. -/
theorem specName_compressIn (hname : "name" ∉ fields) (v : Json) :
    specName (compressIn prose fields v).1 = specName v := by
  rw [specName_eq, specName_eq, isObj_compressIn, ownName_compressIn prose hname]
  cases v with
  | obj entries =>
    have hget : (compressIn prose fields (.obj entries)).1.getD "function" .null =
        ((Assoc.lookup "function" entries).map (compressEntry prose fields "function")).getD
          .null := by
      rw [← lookup_compressFields]
      rfl
    rw [hget]
    have hown : (Json.obj entries).getD "function" .null =
        (Assoc.lookup "function" entries).getD .null := rfl
    rw [hown]
    cases Assoc.lookup "function" entries with
    | none => rfl
    | some fn =>
      rw [Option.map_some, Option.getD_some, Option.getD_some, isObj_compressEntry]
      cases fn with
      | obj inner =>
        have hfn : compressEntry prose fields "function" (.obj inner) =
            (compressIn prose fields (.obj inner)).1 := rfl
        rw [hfn, ownName_compressIn prose hname]
      | _ => rfl
  | _ => rfl

theorem compressItems_eq (items : List Json) :
    (compressItems prose fields items).1 = items.map fun v => (compressIn prose fields v).1 := by
  induction items with
  | nil => rfl
  | cons v items ih => rw [compressItems, List.map_cons, ih]

theorem requiredNames_compressItems (hname : "name" ∉ fields) (named : List String)
    (items : List Json) : requiredNames named (compressItems prose fields items).1 =
      requiredNames named items := by
  rw [compressItems_eq, requiredNames, requiredNames, List.filterMap_map]
  apply List.filterMap_congr
  intro tool _
  rw [Function.comp_apply, requiredName, specName_compressIn prose hname]
  rfl

end

/-! ### The loop -/

/-- What the loop keeps of a tool. -/
def keepsTool (sel : Selection) (required : List String) (tool : Json) : Bool :=
  match selects sel required tool with
  | .ok keep => keep
  | .error _ => false

theorem selectAll_spec {sel : Selection} {required : List String} {tools kept : List Json}
    (h : selectAll sel required tools = .ok kept) :
    kept = tools.filter (keepsTool sel required) ∧
      ∀ tool ∈ tools, ∃ keep, selects sel required tool = .ok keep := by
  induction tools generalizing kept with
  | nil =>
    cases h
    exact ⟨rfl, fun tool htool => absurd htool List.not_mem_nil⟩
  | cons tool tools ih =>
    rw [selectAll] at h
    cases hfirst : selects sel required tool with
    | error e =>
      rw [hfirst] at h
      cases h
    | ok keep =>
      cases hrest : selectAll sel required tools with
      | error e =>
        rw [hfirst, hrest] at h
        cases h
      | ok rest =>
        rw [hfirst, hrest] at h
        cases h
        obtain ⟨rfl, hall⟩ := ih hrest
        constructor
        · have hkeeps : keepsTool sel required tool = keep := by rw [keepsTool, hfirst]
          rw [List.filter_cons, hkeeps]
        · intro tool' htool'
          rcases List.mem_cons.mp htool' with rfl | hlater
          · exact ⟨keep, hfirst⟩
          · exact hall tool' hlater

theorem offeredName_obj (entries : List (String × Json)) : offeredName (.obj entries) =
    match Assoc.lookup "function" entries with
    | none => pure (.str "")
    | some (.obj fn) => pure ((Json.obj fn).getD "name" (.str ""))
    | some _ => .error .attributeError := by
  have hobj : (Json.obj entries).isObj = true := rfl
  unfold offeredName
  rw [if_pos hobj]
  change (match (Assoc.lookup "function" entries).getD (.obj []) with
    | .obj fn => pure ((Json.obj fn).getD "name" (.str ""))
    | _ => .error .attributeError : Except PyError Json) = _
  cases Assoc.lookup "function" entries with
  | none => rfl
  | some fn => cases fn <;> rfl

theorem name_of_ownName {fn : List (String × Json)} {n : String}
    (h : ownName (.obj fn) = some n) : (Json.obj fn).getD "name" (.str "") = .str n ∧ n ≠ "" := by
  unfold ownName at h
  change (match (Assoc.lookup "name" fn).getD .null with
    | .str s => if s = "" then none else some s
    | _ => none) = some n at h
  change (Assoc.lookup "name" fn).getD (.str "") = .str n ∧ n ≠ ""
  cases hname : Assoc.lookup "name" fn with
  | none =>
    rw [hname] at h
    cases h
  | some v =>
    rw [hname] at h
    cases v with
    | str s =>
      rw [Option.getD_some] at h
      dsimp only at h
      split at h
      · cases h
      · rename_i hne
        cases h
        exact ⟨rfl, hne⟩
    | _ => cases h

/-- A tool that is named is kept where its name is in its function, and otherwise with the
nameless. -/
theorem keepsTool_of_named {sel : Selection} {named : List String} {tool : Json}
    (hnamed : (requiredName named tool).isSome = true) {keep : Bool}
    (hselects : selects sel named tool = .ok keep) :
    keepsTool sel named tool = true ↔ Nested tool ∨ sel.wanted (.text "") = true := by
  obtain ⟨n, hn⟩ := Option.isSome_iff_exists.mp hnamed
  obtain ⟨hspec, hmem⟩ := Option.filter_eq_some_iff.mp hn
  obtain ⟨entries, rfl⟩ : ∃ entries, tool = .obj entries := by
    cases tool with
    | obj entries => exact ⟨entries, rfl⟩
    | _ => cases hspec
  have hobj : (Json.obj entries).isObj = true := rfl
  rw [specName_eq, if_pos hobj] at hspec
  unfold Nested
  have hfn : (Json.obj entries).getD "function" .null =
      (Assoc.lookup "function" entries).getD .null := rfl
  have hoffered := offeredName_obj entries
  rw [hfn] at hspec ⊢
  cases hlookup : Assoc.lookup "function" entries with
  | none =>
    -- its name is read as empty
    rw [hlookup] at hoffered
    have hkeep : selects sel named (.obj entries) = .ok (sel.wanted (.text "")) := by
      unfold selects
      rw [hoffered]
      rfl
    rw [keepsTool, hkeep]
    simp [Json.isObj, Json.fields?]
  | some fn =>
    rw [hlookup] at hoffered hspec
    cases fn with
    | obj fn =>
      obtain ⟨hname, hne⟩ := name_of_ownName hspec
      have hkeep : selects sel named (.obj entries) = .ok true := by
        have hisNamed : isNamed named (.str n) = true := by
          simp only [isNamed, Bool.and_eq_true, decide_eq_true_eq]
          exact ⟨hne, hmem⟩
        unfold selects
        rw [hoffered]
        dsimp only
        rw [hname]
        change (if isNamed named (.str n) then pure true else _) = _
        rw [if_pos hisNamed]
        rfl
      rw [keepsTool, hkeep]
      simp [Json.isObj, Json.fields?]
    | _ =>
      unfold selects at hselects
      rw [hoffered] at hselects
      cases hselects

/-- What the first stage keeps of the names. -/
theorem loadTools_spec {sel : Selection} {req : ToolRequest} {tools : List Json}
    (h : loadTools sel req = .ok tools) :
    (requiredNames (requires req) tools).Sublist (requiredNames (requires req) req.tools) ∧
      (requiredNames (requires req) tools = requiredNames (requires req) req.tools ↔
        (tools = req.tools ∨ ∀ tool ∈ req.tools, (requiredName (requires req) tool).isSome = true →
          Nested tool ∨ sel.wanted (.text "") = true)) := by
  have hwhole : tools = req.tools →
      (requiredNames (requires req) tools).Sublist (requiredNames (requires req) req.tools) ∧
        (requiredNames (requires req) tools = requiredNames (requires req) req.tools ↔
          (tools = req.tools ∨ ∀ tool ∈ req.tools,
            (requiredName (requires req) tool).isSome = true →
            Nested tool ∨ sel.wanted (.text "") = true)) := by
    rintro rfl
    exact ⟨List.Sublist.refl _, iff_of_true rfl (Or.inl rfl)⟩
  unfold loadTools at h
  split at h
  · cases h
    exact hwhole rfl
  · cases hnamed : namedByRequest req with
    | error e =>
      rw [hnamed] at h
      cases h
    | ok named =>
      cases hkept : selectAll sel named req.tools with
      | error e =>
        rw [hnamed] at h
        change (selectAll sel named req.tools >>= _) = _ at h
        rw [hkept] at h
        cases h
      | ok kept =>
        obtain rfl := namedByRequest_eq hnamed
        obtain ⟨hfilter, hselects⟩ := selectAll_spec hkept
        -- the names of what is relevant are those of what is kept
        obtain ⟨relevant, hrelevant, htools⟩ : ∃ relevant,
            requiredNames (requires req) relevant = requiredNames (requires req) kept ∧
              (tools = req.tools ∨ tools = relevant) := by
          rw [hnamed] at h
          change (selectAll sel (requires req) req.tools >>= _) = _ at h
          rw [hkept] at h
          change (match if sel.compressDescriptions && !kept.isEmpty then
              compressItems sel.prose sel.descriptionFields kept else (kept, 0) with
            | (relevant, saved) =>
              if relevant.length < req.tools.length || 0 < saved then
                pure (if sel.holdsWhole relevant then req.tools else relevant)
              else pure req.tools) = Except.ok tools at h
          have hnames : ∀ out, (if sel.compressDescriptions && !kept.isEmpty then
              compressItems sel.prose sel.descriptionFields kept else (kept, 0)) = out →
              requiredNames (requires req) out.1 = requiredNames (requires req) kept := by
            intro out hout
            subst hout
            split
            · exact requiredNames_compressItems sel.prose sel.describes _ kept
            · rfl
          generalize hpair : (if sel.compressDescriptions && !kept.isEmpty then
            compressItems sel.prose sel.descriptionFields kept else (kept, 0)) = out at h
          obtain ⟨relevant, saved⟩ := out
          refine ⟨relevant, hnames _ hpair, ?_⟩
          dsimp only at h
          split at h
          · have hout := Except.ok.inj h
            rw [← hout]
            split
            · exact Or.inl rfl
            · exact Or.inr rfl
          · exact Or.inl (Except.ok.inj h).symm
        by_cases hsame : tools = req.tools
        · exact hwhole hsame
        · have hiff := filterMap_filter_eq_iff (requiredName (requires req))
            (keepsTool sel (requires req)) req.tools
          rw [← hfilter] at hiff
          rw [htools.resolve_left hsame, hrelevant]
          constructor
          · rw [hfilter]
            exact List.filter_sublist.filterMap _
          · rw [requiredNames, requiredNames, hiff, ← htools.resolve_left hsame]
            constructor
            · intro hall
              refine Or.inr fun tool htool hname => ?_
              obtain ⟨keep, hkeep⟩ := hselects tool htool
              exact (keepsTool_of_named hname hkeep).mp (hall tool htool hname)
            · intro hnested tool htool hname
              obtain ⟨keep, hkeep⟩ := hselects tool htool
              exact (keepsTool_of_named hname hkeep).mpr
                (hnested.resolve_left hsame tool htool hname)

/-! ## 7. The cut -/

theorem filterMap_getElem?_range {α : Type} (xs : List α) :
    (List.range xs.length).filterMap (fun i => xs[i]?) = xs := by
  induction xs with
  | nil => rfl
  | cons x xs ih =>
    rw [List.length_cons, List.range_succ_eq_map, List.filterMap_cons, List.filterMap_map]
    exact congrArg (x :: ·) ih

theorem take_eq_filter {α : Type} (m : Nat) (xs : List α) :
    xs.take m = ((List.range xs.length).filter fun i => decide (i < m)).filterMap
      (fun i => xs[i]?) := by
  induction xs generalizing m with
  | nil => simp
  | cons x xs ih =>
    rw [List.length_cons, List.range_succ_eq_map]
    cases m with
    | zero => simp
    | succ m =>
      have hshift : (List.range xs.length).filter ((fun i => decide (i < m + 1)) ∘ Nat.succ) =
          (List.range xs.length).filter fun i => decide (i < m) := by
        apply List.filter_congr
        intro i _
        simp
      rw [List.take_succ_cons, ih, List.filter_cons_of_pos (by simp), List.filterMap_cons,
        List.filter_map, List.filterMap_map, hshift]
      rfl

section

variable (score : Nat → ℚ)

instance : Std.Total (Ahead score) where
  total i j := by
    unfold Ahead
    rcases lt_trichotomy (score i) (score j) with hlt | heq | hgt
    · exact Or.inr (Or.inl hlt)
    · rcases Nat.le_total i j with hle | hle
      · exact Or.inl (Or.inr ⟨heq, hle⟩)
      · exact Or.inr (Or.inr ⟨heq.symm, hle⟩)
    · exact Or.inl (Or.inl hgt)

instance : IsTrans Nat (Ahead score) where
  trans i j k := by
    unfold Ahead
    rintro (hij | ⟨hij, hle⟩) (hjk | ⟨hjk, hle'⟩)
    · exact Or.inl (hjk.trans hij)
    · exact Or.inl (hjk ▸ hij)
    · exact Or.inl (hij ▸ hjk)
    · exact Or.inr ⟨hij.trans hjk, hle.trans hle'⟩

theorem Ahead.antisymm {i j : Nat} (h : Ahead score i j) (h' : Ahead score j i) : i = j := by
  unfold Ahead at h h'
  rcases h with hlt | ⟨heq, hle⟩
  · rcases h' with hlt' | ⟨heq', -⟩
    · exact absurd hlt (lt_asymm hlt')
    · exact absurd heq' hlt.ne
  · rcases h' with hlt' | ⟨-, hle'⟩
    · exact absurd heq hlt'.ne
    · exact Nat.le_antisymm hle hle'

end

/-- What the cut keeps, in its order, is what it puts fewer tools before than the maximum. -/
theorem selectTools_eq (score : Json → ℚ) (tools : List Json) {maxTools : Int}
    (hmax : 0 ≤ maxTools) : selectTools score tools maxTools =
      ((List.range tools.length).filter fun i =>
        decide (((List.range tools.length).filter fun j =>
          decide (j ≠ i) && decide (Ahead (scoreAt score tools) j i)).length <
            maxTools.toNat)).filterMap fun i => tools[i]? := by
  unfold selectTools
  dsimp only
  congr 1
  have hperm := List.perm_insertionSort (Ahead (scoreAt score tools)) (List.range tools.length)
  have hnodup := hperm.nodup_iff.mpr List.nodup_range
  have hsorted := List.pairwise_insertionSort (Ahead (scoreAt score tools))
    (List.range tools.length)
  generalize (List.range tools.length).insertionSort (Ahead (scoreAt score tools)) = ranked
    at hperm hnodup hsorted
  have hmem : ∀ i, i ∈ sliceTo maxTools ranked ↔ i ∈ (List.range tools.length).filter fun i =>
      decide (((List.range tools.length).filter fun j =>
        decide (j ≠ i) && decide (Ahead (scoreAt score tools) j i)).length <
          maxTools.toNat) := by
    intro i
    rw [sliceTo, if_pos hmax, mem_take_iff (Ahead.antisymm _) hsorted hnodup,
      List.mem_filter, decide_eq_true_eq, hperm.mem_iff, (hperm.filter _).length_eq]
  have hslice : (sliceTo maxTools ranked).Nodup := by
    rw [sliceTo, if_pos hmax]
    exact hnodup.sublist (List.take_sublist _ _)
  -- two increasing lists of the same places
  apply List.Perm.eq_of_pairwise' (r := (· ≤ ·))
  · exact List.pairwise_insertionSort _ _
  · exact (List.pairwise_le_range).filter _
  · apply (List.perm_insertionSort _ _).trans
    exact (List.perm_ext_iff_of_nodup hslice (List.nodup_range.filter _)).mpr hmem

/-- A cut keeps the tools whose place is below the maximum. -/
theorem trimTools_eq {cfg : ArchConfig} (score : Option (Json → ℚ)) {tools : List Json}
    (hon : cfg.enabled = true) (hlong : cfg.maxToolsPerAgent < tools.length)
    (hmax : 0 ≤ cfg.maxToolsPerAgent) : trimTools cfg score tools =
      ((List.range tools.length).filter fun i =>
        decide (place cfg score tools i < cfg.maxToolsPerAgent.toNat)).filterMap
          fun i => tools[i]? := by
  unfold trimTools place
  rw [if_pos (by simp [hon, hlong])]
  cases (if cfg.byRelevance then score else none) with
  | none =>
    change sliceTo cfg.maxToolsPerAgent tools = _
    rw [sliceTo, if_pos hmax, take_eq_filter]
  | some score => exact selectTools_eq score tools hmax

/-- What the cut keeps of the names. -/
theorem trimTools_spec (named : List String) {cfg : ArchConfig} (score : Option (Json → ℚ))
    (tools : List Json) (hmax : 0 ≤ cfg.maxToolsPerAgent) :
    (requiredNames named (trimTools cfg score tools)).Sublist (requiredNames named tools) ∧
      (requiredNames named (trimTools cfg score tools) = requiredNames named tools ↔
        (cfg.enabled = false ∨ (tools.length : Int) ≤ cfg.maxToolsPerAgent ∨
          ∀ i tool, tools[i]? = some tool → (requiredName named tool).isSome = true →
            (place cfg score tools i : Int) < cfg.maxToolsPerAgent)) := by
  by_cases hcut : cfg.enabled = true ∧ cfg.maxToolsPerAgent < tools.length
  · obtain ⟨hon, hlong⟩ := hcut
    have hwhole : requiredNames named tools =
        (List.range tools.length).filterMap fun i => (tools[i]?).bind (requiredName named) := by
      conv_lhs => rw [← filterMap_getElem?_range tools]
      exact List.filterMap_filterMap ..
    have hleft : requiredNames named (trimTools cfg score tools) =
        ((List.range tools.length).filter fun i =>
          decide (place cfg score tools i < cfg.maxToolsPerAgent.toNat)).filterMap
            fun i => (tools[i]?).bind (requiredName named) := by
      rw [trimTools_eq score hon hlong hmax]
      exact List.filterMap_filterMap ..
    rw [hleft, hwhole]
    refine ⟨List.filter_sublist.filterMap _, ?_⟩
    rw [filterMap_filter_eq_iff]
    constructor
    · intro h
      right
      right
      intro i tool htool hname
      have hplace := h i (List.mem_range.mpr (List.getElem?_eq_some_iff.mp htool).1)
        (by rw [htool]; exact hname)
      have hlt := of_decide_eq_true hplace
      omega
    · rintro (hoff | hshort | h) i - hname
      · rw [hon] at hoff
        cases hoff
      · omega
      · cases htool : tools[i]? with
        | none =>
          rw [htool] at hname
          cases hname
        | some tool =>
          rw [htool] at hname
          have hplace := h i tool htool hname
          exact decide_eq_true (by omega)
  · have hsame : trimTools cfg score tools = tools := by
      unfold trimTools
      rw [if_neg (by simpa using hcut)]
    rw [hsame]
    refine ⟨List.Sublist.refl _, iff_of_true rfl ?_⟩
    cases hon : cfg.enabled with
    | false => exact Or.inl rfl
    | true => exact Or.inr (Or.inl (Int.not_lt.mp fun hlong => hcut ⟨hon, hlong⟩))

/-! ## 8. The result -/

/-- **The tools that the request depends on stay**: exactly when each is where the first stage
looks, and the second cuts nothing or puts fewer tools before it than it keeps. -/
theorem required_kept_iff (sel : Selection) (cfg : ArchConfig) (score : Option (Json → ℚ))
    (req : ToolRequest) : KeepsRequired sel cfg score req ↔ Spared sel cfg score req := by
  have hout : ∀ tools, loadTools sel req = .ok tools →
      outgoingTools sel cfg score req = .ok (trimTools cfg score tools) := by
    intro tools htools
    unfold outgoingTools
    rw [htools]
    rfl
  have hstages : ∀ tools, loadTools sel req = .ok tools → 0 ≤ cfg.maxToolsPerAgent →
      (requiredNames (requires req) (trimTools cfg score tools) =
          requiredNames (requires req) req.tools ↔
        requiredNames (requires req) tools = requiredNames (requires req) req.tools ∧
          requiredNames (requires req) (trimTools cfg score tools) =
            requiredNames (requires req) tools) := by
    intro tools htools hmax
    have hfirst := (loadTools_spec htools).1
    have hsecond := (trimTools_spec (requires req) score tools hmax).1
    constructor
    · intro h
      -- a list between two equal ones
      rw [← h] at hfirst
      have hsame := hsecond.antisymm hfirst
      exact ⟨hsame.symm.trans h, hsame⟩
    · rintro ⟨hload, htrim⟩
      exact htrim.trans hload
  have hnonneg : ((requiredNames (requires req) req.tools).length : Int) ≤ cfg.maxToolsPerAgent →
      0 ≤ cfg.maxToolsPerAgent := fun hcount => (Int.natCast_nonneg _).trans hcount
  constructor
  · intro h tools htools hcount
    have hmax := hnonneg hcount
    obtain ⟨hload, htrim⟩ := (hstages tools htools hmax).mp (h _ (hout tools htools) hcount)
    exact ⟨(loadTools_spec htools).2.mp hload,
      (trimTools_spec (requires req) score tools hmax).2.mp htrim⟩
  · intro h out houtgoing hcount
    cases htools : loadTools sel req with
    | error e =>
      unfold outgoingTools at houtgoing
      rw [htools] at houtgoing
      cases houtgoing
    | ok tools =>
      have hmax := hnonneg hcount
      obtain ⟨hload, htrim⟩ := h tools htools hcount
      obtain rfl := Except.ok.inj ((hout tools htools).symm.trans houtgoing)
      exact (hstages tools htools hmax).mpr ⟨(loadTools_spec htools).2.mpr hload,
        (trimTools_spec (requires req) score tools hmax).2.mpr htrim⟩

/-! ### One tool at most -/

def namedTool (name : String) : Json :=
  .obj [("type", .str "function"), ("function", .obj [("name", .str name)])]

/-- The second of two tools is what the model is to call. -/
def bookingRequest : ToolRequest where
  tools := [namedTool "search", namedTool "book"]
  toolChoice := namedTool "book"
  functionCall := .null
  messages := [.obj [("role", .str "user"), ("content", .str "the usual, please")]]

def noRegistry : Selection where
  available := fun _ => none
  pruned := fun _ => false
  intents := ["default"]
  prose := ⟨fun text => (text, 0, 0), fun _ _ => true⟩
  describes := by decide
  holdsWhole := fun _ => false

/-- Two tools of the same score are cut to the first. -/
theorem required_not_kept :
    outgoingTools noRegistry { maxToolsPerAgent := 1 } (some fun _ => 0) bookingRequest =
        .ok [namedTool "search"] ∧
      requires bookingRequest = ["book"] ∧
      ¬ KeepsRequired noRegistry { maxToolsPerAgent := 1 } (some fun _ => 0) bookingRequest := by
  have hout : outgoingTools noRegistry { maxToolsPerAgent := 1 } (some fun _ => 0)
      bookingRequest = .ok [namedTool "search"] := by rfl
  refine ⟨hout, by decide +kernel, ?_⟩
  intro h
  have hkept := h _ hout (by decide +kernel)
  revert hkept
  decide +kernel

end TokenProxy.ToolPruning
