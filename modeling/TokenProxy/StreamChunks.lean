/-
  TokenProxy/StreamChunks.lean
  ============================
  **OpenAI chat completions and their stream chunks, as the edge translators read
  them** (`protocols/anthropic_ingress.py`, `protocols/gemini_ingress.py`).

  Section 1 is what both stream translators do with a chunk: pick the choice and
  collect tool-call fragments under their index.  Section 2 says what a completion
  and a chunk look like on the wire, and section 3 when a list of chunks is a
  completion cut into pieces: the text and the arguments anywhere, a call's id and
  name whole, each call under an index of its own.

  The result of the module is `collected_of_split`: however the calls were cut,
  the slots collected from the chunks, sorted by index, are the calls.
-/
import TokenProxy.KeyStore
import Mathlib.Data.List.Sort

namespace TokenProxy.Protocols

/-! ## 1. Reading a chunk -/

/-- `value.get(key)`; `none` where `value` is no dict and has no such method. -/
def getField (value : Json) (key : String) : Option Json :=
  value.fields?.map fun fields => (Assoc.lookup key fields).getD .null

/-- `value or {}`. -/
def orEmpty (value : Json) : Json := value.orElse (.obj [])

/-- `(body.get("choices") or [{}])[0]`. -/
def firstChoice (body : Json) : Option Json := do
  let choices ← getField body "choices"
  match choices.orElse (.arr [.obj []]) with
  | .arr (choice :: _) => some choice
  | _ => none

/-- The entries of `value or []`. -/
def itemsOf (value : Json) : Option (List Json) :=
  (KeyStore.pyList (value.orElse (.arr []))).toOption

/-- A tool call put together from its fragments. -/
structure Slot where
  id : Json := .str ""
  name : Json := .str ""
  args : String := ""
deriving DecidableEq

abbrev Slots := Dict Int Slot

/-- `tc.get("index") or 0`; an index that is no integer is not modelled. -/
def slotIndex (fragment : Json) : Option Int :=
  match (fragment.getD "index" .null).orElse (.int 0) with
  | .int n => some n
  | _ => none

/-- The slot with a fragment's id, name and piece of the arguments; Gemini keeps no id. -/
def Slot.note (keepId : Bool) (slot : Slot) (fragment fn : Json) : Slot :=
  let id := fragment.getD "id" .null
  let name := fn.getD "name" .null
  { id := if keepId && id.truthy then id else slot.id
    name := if name.truthy then name else slot.name
    args :=
      match fn.getD "arguments" .null with
      | .str piece => slot.args ++ piece
      | _ => slot.args }

/-- One pass of the loop over `delta["tool_calls"]`; an item that is no dict is skipped. -/
def noteFragment (keepId : Bool) (slots : Slots) (fragment : Json) : Option Slots :=
  if fragment.isObj then do
    let index ← slotIndex fragment
    let fn := orEmpty (fragment.getD "function" .null)
    if fn.isObj then
      some (slots.set index (((slots.get? index).getD {}).note keepId fragment fn))
    else none
  else some slots

/-- The slots in the order of their index: `sorted(self._tool_calls)`. -/
def sortedSlots (slots : Slots) : List Slot :=
  (slots.keys.insertionSort (· ≤ ·)).filterMap slots.get?

/-- The finish reason's name in a protocol: `table.get(reason, default)`. -/
def mapReason (table : List (String × String)) (default : String) : Json → Option String
  | .str reason => some ((Assoc.lookup reason table).getD default)
  | .arr _ => none
  | .obj _ => none
  | _ => some default

/-- The name known after a chunk: that of its own finish reason, where it has one. -/
def noteFinish (table : List (String × String)) (default known : String) (finish : Json) :
    Option String := if finish.truthy then mapReason table default finish else some known

/-- The prompt and completion counts after a chunk's usage: a count it lacks, or a zero,
    leaves the one known. -/
def noteUsage (counts : Json × Json) (body : Json) : Option (Json × Json) := do
  let usage := orEmpty (← getField body "usage")
  if usage.truthy then do
    let prompt := (← usage.fields?.map fun _ => usage.getD "prompt_tokens" counts.1)
    let completion := usage.getD "completion_tokens" counts.2
    some (prompt.orElse counts.1, completion.orElse counts.2)
  else some counts

/-- The counts of a whole completion. -/
def usageOf (body : Json) : Option (Json × Json) := do
  let usage := orEmpty (← getField body "usage")
  let prompt := (← usage.fields?.map fun _ => usage.getD "prompt_tokens" (.int 0))
  let completion := usage.getD "completion_tokens" (.int 0)
  some (prompt.orElse (.int 0), completion.orElse (.int 0))

/-- The input of a tool call in a whole completion: its parsed arguments, `{}` when they do
    not parse. -/
def toolInput (loads : String → Option Json) : Json → Json
  | .str args => (loads args).getD (.obj [])
  | args => orEmpty args

/-- Content blocks: text, and calls in the protocol's own shape. -/
inductive Block (α : Type) where
  | text (s : String)
  | call (c : α)
deriving DecidableEq

/-- What the client is served, whole or put together from a stream. -/
structure Served (α : Type) where
  content : List (Block α)
  stopReason : String
  /-- prompt and completion tokens -/
  usage : Json × Json
deriving DecidableEq

/-- The text block of a message, where it has text. -/
def textBlocks {α : Type} : Json → List (Block α)
  | .str s => if s ≠ "" then [.text s] else []
  | _ => []

/-- A stream translator fed its chunks, and what it emits; `none` where it raises. -/
def feed {σ ε : Type} (chunk : σ → Json → Option (List ε × σ)) :
    σ → List Json → Option (List ε × σ)
  | st, [] => some ([], st)
  | st, body :: bodies => do
    let (events, st') ← chunk st body
    let (rest, st'') ← feed chunk st' bodies
    some (events ++ rest, st'')

/-! ## 2. The wire -/

structure Call where
  id : String
  name : String
  args : String
deriving DecidableEq

/-- A completion with one choice. -/
structure Completion where
  text : Option String
  calls : List Call
  finishReason : Option String
  /-- prompt and completion tokens -/
  usage : Option (Nat × Nat)

structure Fragment where
  index : Int
  id : Option String
  name : Option String
  arguments : Option String

structure Chunk where
  text : Option String
  fragments : List Fragment
  finishReason : Option String
  usage : Option (Nat × Nat)

def optStr (s : Option String) : Json := (s.map Json.str).getD .null

/-- A list field, which may be null when it is empty. -/
def IsList {α : Type} (R : Json → α → Prop) (value : Json) (xs : List α) : Prop :=
  (value = .null ∧ xs = []) ∨ ∃ items, value = .arr items ∧ List.Forall₂ R items xs

def IsUsage (value : Json) (usage : Option (Nat × Nat)) : Prop :=
  (value = .null ∧ usage = none) ∨ ∃ prompt completion : Nat, usage = some (prompt, completion) ∧
    value.get? "prompt_tokens" = some (.int prompt) ∧
    value.get? "completion_tokens" = some (.int completion)

structure IsCall (item : Json) (call : Call) : Prop where
  id : item.getD "id" .null = .str call.id
  name : (item.getD "function" .null).getD "name" .null = .str call.name
  args : (item.getD "function" .null).getD "arguments" .null = .str call.args

structure IsCompletion (body : Json) (w : Completion) : Prop where
  choice : ∃ choice message, body.get? "choices" = some (.arr [choice]) ∧
    choice.get? "message" = some message ∧ message.isObj ∧
    choice.getD "finish_reason" .null = optStr w.finishReason ∧
    message.getD "content" .null = optStr w.text ∧
    IsList IsCall (message.getD "tool_calls" .null) w.calls
  usage : IsUsage (body.getD "usage" .null) w.usage

structure IsFragment (item : Json) (f : Fragment) : Prop where
  index : item.getD "index" .null = .int f.index
  id : item.getD "id" .null = optStr f.id
  fn : (orEmpty (item.getD "function" .null)).isObj
  name : (orEmpty (item.getD "function" .null)).getD "name" .null = optStr f.name
  arguments : (orEmpty (item.getD "function" .null)).getD "arguments" .null = optStr f.arguments

/-- A chunk: one choice, or none at all where it only brings the usage. -/
structure IsChunk (body : Json) (c : Chunk) : Prop where
  isObj : body.isObj
  choice : ∃ choice delta, firstChoice body = some choice ∧ choice.isObj ∧
    orEmpty (choice.getD "delta" .null) = delta ∧ delta.isObj ∧
    choice.getD "finish_reason" .null = optStr c.finishReason ∧
    delta.getD "content" .null = optStr c.text ∧
    IsList IsFragment (delta.getD "tool_calls" .null) c.fragments
  usage : IsUsage (body.getD "usage" .null) c.usage

/-! ## 3. Cutting a completion -/

def concat : List String → String
  | [] => ""
  | s :: rest => s ++ concat rest

theorem concat_append (ss ts : List String) : concat (ss ++ ts) = concat ss ++ concat ts := by
  induction ss with
  | nil => simp [concat]
  | cons s ss ih => simp [concat, ih, String.append_assoc]

def Chunk.piece (c : Chunk) : String := c.text.getD ""

/-- The pieces of text, one more chunk. -/
theorem concat_pieces_snoc (cs : List Chunk) (c : Chunk) :
    concat ((cs ++ [c]).map Chunk.piece) = concat (cs.map Chunk.piece) ++ c.piece := by
  rw [List.map_append, concat_append]
  simp [concat]

/-- The fragments under this index are the call, its arguments cut anywhere. -/
structure IsCut (fragments : List Fragment) (index : Int) (call : Call) : Prop where
  args : concat ((fragments.filter fun f => f.index = index).map fun f => f.arguments.getD "") =
    call.args
  id : ∀ f ∈ fragments, f.index = index → f.id.getD "" = "" ∨ f.id = some call.id
  name : ∀ f ∈ fragments, f.index = index → f.name.getD "" = "" ∨ f.name = some call.name
  hasId : ∃ f ∈ fragments, f.index = index ∧ f.id = some call.id
  hasName : ∃ f ∈ fragments, f.index = index ∧ f.name = some call.name

def allFragments (chunks : List Chunk) : List Fragment := chunks.flatMap Chunk.fragments

/-- The chunks are the completion, cut into pieces. -/
structure Splits (w : Completion) (chunks : List Chunk) : Prop where
  text : concat (chunks.map Chunk.piece) = w.text.getD ""
  calls : ∃ indices : List Int, indices.Pairwise (· < ·) ∧
    List.Forall₂ (IsCut (allFragments chunks)) indices w.calls ∧
    ∀ f ∈ allFragments chunks, f.index ∈ indices
  /-- every chunk that names a finish reason names the completion's -/
  finish : ∀ c ∈ chunks, c.finishReason = none ∨ c.finishReason = w.finishReason
  finished : w.finishReason.isSome → ∃ c ∈ chunks, c.finishReason = w.finishReason
  /-- the finish reason ends the choice: only the usage comes after it -/
  ends : chunks.Pairwise fun a b => a.finishReason.isSome → b.piece = "" ∧ b.fragments = []
  /-- the last usage is the completion's; counts before it may be partial -/
  usage : (chunks.filterMap Chunk.usage).getLast? = w.usage
  counts : ∀ u ∈ chunks.filterMap Chunk.usage, ∀ last, w.usage = some last →
    u.1 ≤ last.1 ∧ u.2 ≤ last.2

/-- The content without its empty texts. -/
def nonEmpty {α : Type} (content : List (Block α)) : List (Block α) :=
  content.filter fun block =>
    match block with
    | .text s => decide (s ≠ "")
    | .call _ => true

/-- The blocks of a whole message are its text and its calls, an empty text aside. -/
theorem nonEmpty_blocks {α : Type} (text : Option String) (calls : List (Block α)) :
    nonEmpty (if (textBlocks (optStr text) ++ calls).isEmpty then [.text ""]
      else textBlocks (optStr text) ++ calls) = nonEmpty (.text (text.getD "") :: calls) := by
  cases text with
  | none =>
    cases calls with
    | nil => rfl
    | cons call calls => simp [optStr, textBlocks, nonEmpty]
  | some s =>
    by_cases hs : s = ""
    · cases calls with
      | nil => simp [optStr, textBlocks, nonEmpty, hs]
      | cons call calls => simp [optStr, textBlocks, nonEmpty, hs]
    · simp [optStr, textBlocks, nonEmpty, hs]

/-- The calls that the translators have to agree on: ids and names, and arguments that are
    a JSON object. -/
def Callable (loads : String → Option Json) (call : Call) : Prop :=
  call.id ≠ "" ∧ call.name ≠ "" ∧ ∃ fields, loads call.args = some (.obj fields)

/-! ## 4. What is collected -/

/-- A fragment noted in a slot, on the wire's terms. -/
def Slot.add (keepId : Bool) (slot : Slot) (f : Fragment) : Slot where
  id := if keepId && decide (f.id.getD "" ≠ "") then .str (f.id.getD "") else slot.id
  name := if f.name.getD "" ≠ "" then .str (f.name.getD "") else slot.name
  args := slot.args ++ f.arguments.getD ""

def collect (keepId : Bool) (slots : Slots) (fragments : List Fragment) : Slots :=
  fragments.foldl
    (fun slots f => slots.set f.index (((slots.get? f.index).getD {}).add keepId f)) slots

theorem truthy_optStr (s : Option String) : (optStr s).truthy = decide (s.getD "" ≠ "") := by
  cases s with
  | none => simp [optStr, Json.truthy]
  | some s => simp [optStr, Json.truthy]

theorem optStr_of_ne {s : Option String} (h : s.getD "" ≠ "") : optStr s = .str (s.getD "") := by
  cases s with
  | none => simp at h
  | some s => rfl

theorem orElse_int (n : Int) : (Json.int n).orElse (.int 0) = .int n := by
  by_cases h : n = 0
  · simp [Json.orElse, Json.truthy, h]
  · simp [Json.orElse, Json.truthy, h]

/-- Noting a fragment reads it as it is on the wire. -/
theorem note_of_isFragment {item : Json} {f : Fragment} (h : IsFragment item f) (keepId : Bool)
    (slot : Slot) : slot.note keepId item (orEmpty (item.getD "function" .null)) =
      slot.add keepId f := by
  simp only [Slot.note, Slot.add, h.id, h.name, h.arguments, truthy_optStr, Slot.mk.injEq]
  refine ⟨?_, ?_, ?_⟩
  · by_cases hid : f.id.getD "" = ""
    · simp [hid]
    · rw [optStr_of_ne hid]
  · by_cases hname : f.name.getD "" = ""
    · simp [hname]
    · simp [hname, optStr_of_ne hname]
  · cases f.arguments with
    | none => simp [optStr]
    | some s => rfl

theorem noteFragment_of_isFragment {item : Json} {f : Fragment} (h : IsFragment item f)
    (keepId : Bool) (slots : Slots) : noteFragment keepId slots item =
      some (slots.set f.index (((slots.get? f.index).getD {}).add keepId f)) := by
  have hobj : item.isObj = true := by
    cases item with
    | obj fields => rfl
    | _ => exact absurd h.index (by simp [Json.getD, Json.get?])
  have hindex : slotIndex item = some f.index := by
    simp only [slotIndex, h.index, orElse_int]
  simp only [noteFragment, hobj, if_true, hindex, Option.bind_eq_bind, Option.bind_some, h.fn,
    note_of_isFragment h]

theorem foldlM_noteFragment {items : List Json} {fragments : List Fragment}
    (h : List.Forall₂ IsFragment items fragments) (keepId : Bool) (slots : Slots) :
    items.foldlM (noteFragment keepId) slots = some (collect keepId slots fragments) := by
  induction h generalizing slots with
  | nil => rfl
  | cons hf _ ih =>
    simp only [List.foldlM_cons, noteFragment_of_isFragment hf, Option.bind_eq_bind,
      Option.bind_some, ih]
    rfl

theorem collect_append (keepId : Bool) (slots : Slots) (fs gs : List Fragment) :
    collect keepId slots (fs ++ gs) = collect keepId (collect keepId slots fs) gs :=
  List.foldl_append

/-- A slot only hears of the fragments under its own index. -/
theorem get?_collect (keepId : Bool) (fs : List Fragment) (slots : Slots) (i : Int) :
    (collect keepId slots fs).get? i =
      if ∃ f ∈ fs, f.index = i then
        some ((fs.filter fun f => f.index = i).foldl (Slot.add keepId) ((slots.get? i).getD {}))
      else slots.get? i := by
  induction fs generalizing slots with
  | nil => simp [collect]
  | cons f fs ih =>
    have hstep : collect keepId slots (f :: fs) =
        collect keepId (slots.set f.index (((slots.get? f.index).getD {}).add keepId f)) fs := rfl
    rw [hstep, ih]
    by_cases hf : f.index = i
    · subst hf
      have hmem : ∃ g ∈ f :: fs, g.index = f.index := ⟨f, List.mem_cons_self, rfl⟩
      rw [if_pos hmem, Dict.get?_set_self]
      by_cases hfs : ∃ g ∈ fs, g.index = f.index
      · rw [if_pos hfs]
        simp
      · rw [if_neg hfs]
        have hnone : (fs.filter fun g => g.index = f.index) = [] := by
          rw [List.filter_eq_nil_iff]
          intro g hg hidx
          exact hfs ⟨g, hg, of_decide_eq_true hidx⟩
        simp [hnone]
    · rw [Dict.get?_set_of_ne _ (Ne.symm hf)]
      simp [hf]

theorem foldl_add_args (keepId : Bool) (fs : List Fragment) (slot : Slot) :
    (fs.foldl (Slot.add keepId) slot).args =
      slot.args ++ concat (fs.map fun f => f.arguments.getD "") := by
  induction fs generalizing slot with
  | nil => simp [concat]
  | cons f fs ih =>
    rw [List.foldl_cons, ih]
    simp [Slot.add, concat, String.append_assoc]

theorem foldl_add_name (keepId : Bool) {name : String} (hne : name ≠ "") {fs : List Fragment}
    (hall : ∀ f ∈ fs, f.name.getD "" = "" ∨ f.name = some name) (slot : Slot)
    (h : slot.name = .str name ∨ ∃ f ∈ fs, f.name = some name) :
    (fs.foldl (Slot.add keepId) slot).name = .str name := by
  induction fs generalizing slot with
  | nil => simpa using h
  | cons f fs ih =>
    refine ih (fun g hg => hall g (List.mem_cons_of_mem f hg)) _ ?_
    rcases hall f List.mem_cons_self with hf | hf
    · have hkept : (slot.add keepId f).name = slot.name := by simp [Slot.add, hf]
      rw [hkept]
      rcases h with h | ⟨g, hg, hname⟩
      · exact Or.inl h
      · rcases List.mem_cons.mp hg with rfl | hg
        · rw [hname] at hf
          exact absurd hf hne
        · exact Or.inr ⟨g, hg, hname⟩
    · exact Or.inl (by simp [Slot.add, hf, hne])

theorem foldl_add_id {id : String} (hne : id ≠ "") {fs : List Fragment}
    (hall : ∀ f ∈ fs, f.id.getD "" = "" ∨ f.id = some id) (slot : Slot)
    (h : slot.id = .str id ∨ ∃ f ∈ fs, f.id = some id) :
    (fs.foldl (Slot.add true) slot).id = .str id := by
  induction fs generalizing slot with
  | nil => simpa using h
  | cons f fs ih =>
    refine ih (fun g hg => hall g (List.mem_cons_of_mem f hg)) _ ?_
    rcases hall f List.mem_cons_self with hf | hf
    · have hkept : (slot.add true f).id = slot.id := by simp [Slot.add, hf]
      rw [hkept]
      rcases h with h | ⟨g, hg, hid⟩
      · exact Or.inl h
      · rcases List.mem_cons.mp hg with rfl | hg
        · rw [hid] at hf
          exact absurd hf hne
        · exact Or.inr ⟨g, hg, hid⟩
    · exact Or.inl (by simp [Slot.add, hf, hne])

theorem foldl_add_id_of_not_kept (fs : List Fragment) (slot : Slot) :
    (fs.foldl (Slot.add false) slot).id = slot.id := by
  induction fs generalizing slot with
  | nil => rfl
  | cons f fs ih => rw [List.foldl_cons, ih]; rfl

/-- The slot that a whole call leaves. -/
def slotOf (keepId : Bool) (call : Call) : Slot where
  id := .str (if keepId then call.id else "")
  name := .str call.name
  args := call.args

theorem foldl_add_of_isCut {keepId : Bool} {fs : List Fragment} {i : Int} {call : Call}
    (hcut : IsCut fs i call) (hid : call.id ≠ "") (hname : call.name ≠ "") :
    (fs.filter fun f => f.index = i).foldl (Slot.add keepId) {} = slotOf keepId call := by
  have hmem : ∀ f, f ∈ (fs.filter fun f => f.index = i) ↔ f ∈ fs ∧ f.index = i := by
    intro f
    simp
  have hargs := foldl_add_args keepId (fs.filter fun f => f.index = i) {}
  have hnameOf := @foldl_add_name keepId _ hname (fs.filter fun f => f.index = i)
    (fun f hf => hcut.name f ((hmem f).mp hf).1 ((hmem f).mp hf).2) {} (by
      obtain ⟨f, hf, hidx, hfn⟩ := hcut.hasName
      exact Or.inr ⟨f, (hmem f).mpr ⟨hf, hidx⟩, hfn⟩)
  have hidOf : ((fs.filter fun f => f.index = i).foldl (Slot.add keepId) {}).id =
      .str (if keepId then call.id else "") := by
    cases keepId with
    | false => exact foldl_add_id_of_not_kept _ _
    | true =>
      refine foldl_add_id hid (fun f hf => hcut.id f ((hmem f).mp hf).1 ((hmem f).mp hf).2) {} ?_
      obtain ⟨f, hf, hidx, hfi⟩ := hcut.hasId
      exact Or.inr ⟨f, (hmem f).mpr ⟨hf, hidx⟩, hfi⟩
  rw [hcut.args] at hargs
  calc (fs.filter fun f => f.index = i).foldl (Slot.add keepId) {}
      = ⟨((fs.filter fun f => f.index = i).foldl (Slot.add keepId) {}).id,
          ((fs.filter fun f => f.index = i).foldl (Slot.add keepId) {}).name,
          ((fs.filter fun f => f.index = i).foldl (Slot.add keepId) {}).args⟩ := rfl
    _ = slotOf keepId call := by
        rw [hidOf, hnameOf, hargs]
        simp [slotOf]

/-- An index has a slot exactly when a fragment came under it. -/
theorem mem_collect_iff (keepId : Bool) (fs : List Fragment) (i : Int) :
    i ∈ collect keepId ∅ fs ↔ ∃ f ∈ fs, f.index = i := by
  rw [Dict.mem_def, get?_collect]
  by_cases h : ∃ f ∈ fs, f.index = i
  · simp [h]
  · simp only [h, if_false, Dict.get?_empty]
    simp

/-- Sorted, the keys collected are the indices that fragments came under. -/
theorem sorted_keys_collect {keepId : Bool} {fs : List Fragment} {indices : List Int}
    (hsorted : indices.Pairwise (· < ·)) (hmem : ∀ i, i ∈ indices ↔ ∃ f ∈ fs, f.index = i) :
    (collect keepId ∅ fs).keys.insertionSort (· ≤ ·) = indices := by
  have hkeys : ∀ i, i ∈ (collect keepId ∅ fs).keys ↔ i ∈ indices := by
    intro i
    rw [Dict.mem_keys_iff, mem_collect_iff, hmem]
  have hnodup : indices.Nodup := hsorted.imp fun h => ne_of_lt h
  have hperm : ((collect keepId ∅ fs).keys.insertionSort (· ≤ ·)).Perm indices :=
    (List.perm_insertionSort _ _).trans
      ((List.perm_ext_iff_of_nodup (collect keepId ∅ fs).nodup hnodup).mpr hkeys)
  have hle : indices.Pairwise (· ≤ ·) := hsorted.imp fun h => le_of_lt h
  exact hperm.eq_of_pairwise (fun a b _ _ hab hba => le_antisymm hab hba)
    (List.pairwise_insertionSort _ _) hle

/-- The indices of the calls are those that fragments came under. -/
theorem mem_indices_iff {fs : List Fragment} {indices : List Int} {calls : List Call}
    (hcuts : List.Forall₂ (IsCut fs) indices calls) (hin : ∀ f ∈ fs, f.index ∈ indices) (i : Int) :
    i ∈ indices ↔ ∃ f ∈ fs, f.index = i := by
  constructor
  · intro hi
    obtain ⟨call, hcut⟩ : ∃ call, IsCut fs i call := by
      clear hin
      induction hcuts with
      | nil => simp at hi
      | cons hc _ ih =>
        rcases List.mem_cons.mp hi with rfl | hi
        · exact ⟨_, hc⟩
        · exact ih hi
    obtain ⟨f, hf, hidx, -⟩ := hcut.hasId
    exact ⟨f, hf, hidx⟩
  · rintro ⟨f, hf, rfl⟩
    exact hin f hf

/-- **However the calls were cut**, the slots collected, sorted by index, are the calls. -/
theorem collected_of_split {w : Completion} {chunks : List Chunk} (hsplit : Splits w chunks)
    (hids : ∀ call ∈ w.calls, call.id ≠ "") (hnames : ∀ call ∈ w.calls, call.name ≠ "")
    (keepId : Bool) :
    sortedSlots (collect keepId ∅ (allFragments chunks)) = w.calls.map (slotOf keepId) := by
  obtain ⟨indices, hsorted, hcuts, hin⟩ := hsplit.calls
  rw [sortedSlots, sorted_keys_collect hsorted (mem_indices_iff hcuts hin)]
  clear hsorted hin
  generalize w.calls = calls at hcuts hids hnames ⊢
  induction hcuts with
  | nil => rfl
  | @cons i call indices calls hcut _ ih =>
    have hget : (collect keepId ∅ (allFragments chunks)).get? i = some (slotOf keepId call) := by
      rw [get?_collect, if_pos]
      · rw [Dict.get?_empty]
        exact congrArg some (foldl_add_of_isCut hcut (hids call List.mem_cons_self)
          (hnames call List.mem_cons_self))
      · obtain ⟨f, hf, hidx, -⟩ := hcut.hasId
        exact ⟨f, hf, hidx⟩
    rw [List.filterMap_cons, hget, List.map_cons,
      ih (fun c hc => hids c (List.mem_cons_of_mem call hc))
        (fun c hc => hnames c (List.mem_cons_of_mem call hc))]

/-! ## 5. The finish reason and the usage -/

theorem getField_of_isObj {value : Json} (h : value.isObj = true) (key : String) :
    getField value key = some (value.getD key .null) := by
  cases value with
  | obj fields => rfl
  | _ => cases h

theorem isObj_of_get? {value v : Json} {key : String} (h : value.get? key = some v) :
    value.isObj = true := by
  obtain ⟨fields, rfl⟩ := Json.isObj_of_get? h
  rfl

theorem getD_of_get? {value v fallback : Json} {key : String} (h : value.get? key = some v) :
    value.getD key fallback = v := by
  rw [Json.getD, h]
  rfl

theorem truthy_of_get? {value v : Json} {key : String} (h : value.get? key = some v) :
    value.truthy = true := by
  obtain ⟨fields, rfl⟩ := Json.isObj_of_get? h
  cases fields with
  | nil => cases h
  | cons e fields => rfl

theorem get?_of_getD_str {value : Json} {key s : String} (h : value.getD key .null = .str s) :
    value.get? key = some (.str s) := by
  rw [Json.getD] at h
  cases hget : value.get? key with
  | none => rw [hget] at h; cases h
  | some v => rw [hget] at h; exact congrArg some h

theorem orEmpty_of_isObj {value : Json} (h : value.isObj = true) : orEmpty value = value := by
  cases value with
  | obj fields =>
    cases fields with
    | nil => rfl
    | cons e fields => rfl
  | _ => cases h

theorem orEmpty_of_get? {value v : Json} {key : String} (h : value.get? key = some v) :
    orEmpty value = value := by
  exact orEmpty_of_isObj (isObj_of_get? h)

theorem firstChoice_of_get? {body choice : Json}
    (h : body.get? "choices" = some (.arr [choice])) : firstChoice body = some choice := by
  rw [firstChoice, getField_of_isObj (isObj_of_get? h), Option.bind_eq_bind, Option.bind_some,
    getD_of_get? h]
  rfl

/-- A list field is read as the list it is. -/
theorem itemsOf_of_isList {α : Type} {R : Json → α → Prop} {value : Json} {xs : List α}
    (h : IsList R value xs) : ∃ items, itemsOf value = some items ∧ List.Forall₂ R items xs := by
  rcases h with ⟨rfl, rfl⟩ | ⟨items, rfl, hitems⟩
  · exact ⟨[], rfl, .nil⟩
  · cases items with
    | nil => exact ⟨[], rfl, hitems⟩
    | cons item items => exact ⟨item :: items, rfl, hitems⟩

/-- The counts after a chunk, on the wire's terms. -/
def addUsage (counts : Nat × Nat) : Option (Nat × Nat) → Nat × Nat
  | none => counts
  | some usage =>
    (if usage.1 = 0 then counts.1 else usage.1, if usage.2 = 0 then counts.2 else usage.2)

def jsonCounts (counts : Nat × Nat) : Json × Json := (.int counts.1, .int counts.2)

theorem orElse_int_int (n m : Nat) :
    (Json.int n).orElse (.int m) = .int (if n = 0 then m else n : Nat) := by
  by_cases h : n = 0
  · simp [Json.orElse, Json.truthy, h]
  · simp [Json.orElse, Json.truthy, h]

theorem noteUsage_of_isUsage {body : Json} {usage : Option (Nat × Nat)} (hobj : body.isObj = true)
    (h : IsUsage (body.getD "usage" .null) usage) (counts : Nat × Nat) :
    noteUsage (jsonCounts counts) body = some (jsonCounts (addUsage counts usage)) := by
  rw [noteUsage, getField_of_isObj hobj, Option.bind_eq_bind, Option.bind_some]
  rcases h with ⟨hnull, rfl⟩ | ⟨prompt, completion, rfl, hprompt, hcompletion⟩
  · rw [hnull]
    rfl
  · rw [orEmpty_of_get? hprompt, if_pos (truthy_of_get? hprompt), getD_of_get? hprompt,
      getD_of_get? hcompletion]
    obtain ⟨fields, hfields⟩ := Json.isObj_of_get? hprompt
    rw [hfields]
    simp [Json.fields?, jsonCounts, addUsage, orElse_int_int]

theorem usageOf_of_isUsage {body : Json} {usage : Option (Nat × Nat)} (hobj : body.isObj = true)
    (h : IsUsage (body.getD "usage" .null) usage) :
    usageOf body = some (jsonCounts (usage.getD (0, 0))) := by
  rw [usageOf, getField_of_isObj hobj, Option.bind_eq_bind, Option.bind_some]
  rcases h with ⟨hnull, rfl⟩ | ⟨prompt, completion, rfl, hprompt, hcompletion⟩
  · rw [hnull]
    rfl
  · dsimp only
    rw [orEmpty_of_get? hprompt, getD_of_get? hprompt, getD_of_get? hcompletion]
    obtain ⟨fields, hfields⟩ := Json.isObj_of_get? hprompt
    rw [hfields]
    simp [Json.fields?, jsonCounts, orElse_int]

theorem foldl_addUsage_filterMap (usages : List (Option (Nat × Nat))) (counts : Nat × Nat) :
    usages.foldl addUsage counts =
      (usages.filterMap id).foldl (fun c u => addUsage c (some u)) counts := by
  induction usages generalizing counts with
  | nil => rfl
  | cons usage usages ih =>
    cases usage with
    | none => rw [List.foldl_cons, ih]; rfl
    | some usage => rw [List.foldl_cons, ih]; rfl

theorem foldl_addUsage_le {usages : List (Nat × Nat)} {bound : Nat × Nat}
    (h : ∀ u ∈ usages, u.1 ≤ bound.1 ∧ u.2 ≤ bound.2) {counts : Nat × Nat}
    (hcounts : counts.1 ≤ bound.1 ∧ counts.2 ≤ bound.2) :
    (usages.foldl (fun c u => addUsage c (some u)) counts).1 ≤ bound.1 ∧
      (usages.foldl (fun c u => addUsage c (some u)) counts).2 ≤ bound.2 := by
  induction usages generalizing counts with
  | nil => exact hcounts
  | cons u usages ih =>
    refine ih (fun v hv => h v (List.mem_cons_of_mem u hv)) ?_
    have hu := h u List.mem_cons_self
    constructor
    · simp only [addUsage]
      split <;> omega
    · simp only [addUsage]
      split <;> omega

/-- The counts collected from the chunks are those of the completion. -/
theorem usage_of_split {w : Completion} {chunks : List Chunk} (hsplit : Splits w chunks) :
    (chunks.map Chunk.usage).foldl addUsage (0, 0) = w.usage.getD (0, 0) := by
  have hfilter : (chunks.map Chunk.usage).filterMap id = chunks.filterMap Chunk.usage := by
    rw [List.filterMap_map]
    rfl
  rw [foldl_addUsage_filterMap, hfilter]
  have hlast := hsplit.usage
  cases husage : w.usage with
  | none =>
    rw [husage, List.getLast?_eq_none_iff] at hlast
    rw [hlast]
    rfl
  | some last =>
    rw [husage] at hlast
    have hne : chunks.filterMap Chunk.usage ≠ [] := by
      intro h
      rw [h] at hlast
      cases hlast
    have hsplitLast := List.dropLast_append_getLast hne
    have hgetLast : (chunks.filterMap Chunk.usage).getLast hne = last := by
      rw [List.getLast?_eq_some_getLast hne] at hlast
      exact Option.some.inj hlast
    rw [hgetLast] at hsplitLast
    have hbound := @foldl_addUsage_le (chunks.filterMap Chunk.usage).dropLast last
      (fun u hu => hsplit.counts u (List.dropLast_subset _ hu) last husage) (0, 0)
      ⟨Nat.zero_le _, Nat.zero_le _⟩
    rw [← hsplitLast, List.foldl_append, List.foldl_cons, List.foldl_nil, Option.getD_some]
    generalize List.foldl (fun c u => addUsage c (some u)) (0, 0) _ = counts at hbound ⊢
    simp only [addUsage]
    refine Prod.ext ?_ ?_
    · by_cases h : last.1 = 0
      · simp only [h, if_true]
        omega
      · simp [h]
    · by_cases h : last.2 = 0
      · simp only [h, if_true]
        omega
      · simp [h]

/-- The finish reason known after a chunk: the last one named. -/
def addFinish (known : Option String) (c : Chunk) : Option String :=
  if c.finishReason.getD "" ≠ "" then c.finishReason else known

theorem foldl_addFinish {finishReason : Option String} {chunks : List Chunk}
    (hall : ∀ c ∈ chunks, c.finishReason = none ∨ c.finishReason = finishReason)
    {known : Option String} (hne : finishReason.getD "" ≠ "")
    (h : known = finishReason ∨ ∃ c ∈ chunks, c.finishReason = finishReason) :
    chunks.foldl addFinish known = finishReason := by
  induction chunks generalizing known with
  | nil => simpa using h
  | cons c chunks ih =>
    refine ih (fun d hd => hall d (List.mem_cons_of_mem c hd)) ?_
    rcases hall c List.mem_cons_self with hc | hc
    · have hkept : addFinish known c = known := by simp [addFinish, hc]
      rw [hkept]
      rcases h with h | ⟨d, hd, hdf⟩
      · exact Or.inl h
      · rcases List.mem_cons.mp hd with rfl | hd
        · rw [hc] at hdf
          rw [← hdf] at hne
          exact absurd rfl hne
        · exact Or.inr ⟨d, hd, hdf⟩
    · exact Or.inl (by simp [addFinish, hc, hne])

theorem foldl_addFinish_of_empty {chunks : List Chunk}
    (hall : ∀ c ∈ chunks, c.finishReason.getD "" = "") (known : Option String) :
    chunks.foldl addFinish known = known := by
  induction chunks generalizing known with
  | nil => rfl
  | cons c chunks ih =>
    have hc : addFinish known c = known := by
      simp [addFinish, hall c List.mem_cons_self]
    rw [List.foldl_cons, hc, ih fun d hd => hall d (List.mem_cons_of_mem c hd)]

/-- The finish reason that the chunks leave is the completion's, `stop` where it has none. -/
theorem finish_of_split {w : Completion} {chunks : List Chunk} (hsplit : Splits w chunks) :
    (chunks.foldl addFinish none).getD "stop" =
      if w.finishReason.getD "" ≠ "" then w.finishReason.getD "" else "stop" := by
  by_cases hne : w.finishReason.getD "" = ""
  · rw [foldl_addFinish_of_empty, if_neg (by simp [hne])]
    · rfl
    · intro c hc
      rcases hsplit.finish c hc with h | h
      · rw [h]
        rfl
      · rw [h, hne]
  · have hsome : w.finishReason.isSome := by
      cases hw : w.finishReason with
      | none => rw [hw] at hne; exact absurd rfl hne
      | some reason => rfl
    rw [foldl_addFinish hsplit.finish hne (Or.inr (hsplit.finished hsome)), if_pos hne]
    obtain ⟨reason, hreason⟩ := Option.isSome_iff_exists.mp hsome
    rw [hreason]
    rfl

/-- The name of the finish reason known, `default` being the name of `stop`. -/
def reasonName (table : List (String × String)) (default : String) (known : Option String) :
    String := (Assoc.lookup (known.getD "stop") table).getD default

theorem mapReason_str (table : List (String × String)) (default reason : String) :
    mapReason table default (.str reason) = some (reasonName table default (some reason)) := rfl

/-- A chunk's finish reason, read by a translator. -/
theorem noteFinish_of_chunk (table : List (String × String)) (default : String)
    (known : Option String) (c : Chunk) :
    noteFinish table default (reasonName table default known) (optStr c.finishReason) =
      some (reasonName table default (addFinish known c)) := by
  rw [noteFinish, truthy_optStr, addFinish]
  by_cases h : c.finishReason.getD "" = ""
  · simp [h]
  · obtain ⟨reason, hreason⟩ : ∃ reason, c.finishReason = some reason := by
      cases hc : c.finishReason with
      | none => rw [hc] at h; exact absurd rfl h
      | some reason => exact ⟨reason, rfl⟩
    rw [hreason] at h ⊢
    have hne : reason ≠ "" := h
    simp [hne, optStr, mapReason_str]

/-- The finish reason of a whole completion, read by a translator. -/
theorem mapReason_of_split {w : Completion} {chunks : List Chunk} (hsplit : Splits w chunks)
    (table : List (String × String)) (default : String) :
    mapReason table default ((optStr w.finishReason).orElse (.str "stop")) =
      some (reasonName table default (chunks.foldl addFinish none)) := by
  rw [reasonName, finish_of_split hsplit, Json.orElse, truthy_optStr]
  by_cases h : w.finishReason.getD "" = ""
  · simp [h, mapReason]
  · rw [if_pos (by simp [h]), if_pos h, optStr_of_ne h]
    rfl

end TokenProxy.Protocols
