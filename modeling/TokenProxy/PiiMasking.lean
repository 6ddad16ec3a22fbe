/-
  TokenProxy/PiiMasking.lean
  ==========================
  **Masking personal data in a request** (`mask_matches`, `unmask_text` of
  `guardrails/pii.py`; `process_request`, `_apply_to_message`, `_scan_text`,
  `_mask_escape_hatches` of `middleware/g29_pii_redaction.py`).

  The detector is a parameter: whatever finds them, its matches are slices of the
  text, and the names of its entity types have no brackets.  The text slots of a
  message are reached by `slotPaths`; scanning visits them in order with the
  counts and the vault of the request.
-/
import TokenProxy.PyJson
import TokenProxy.TextReplace
import Mathlib.Data.List.Sort

namespace TokenProxy.Pii

open TextReplace

/-! ## 1. Masking one text -/

structure PiiMatch where
  entityType : String
  start : Nat
  stop : Nat
  text : String
deriving DecidableEq, Repr

/-- `text[start:stop]`. -/
def slice (text : List Char) (start stop : Nat) : List Char := (text.take stop).drop start

def Bracketless (entityType : String) : Prop :=
  '[' ∉ entityType.toList ∧ ']' ∉ entityType.toList

instance (entityType : String) : Decidable (Bracketless entityType) :=
  inferInstanceAs (Decidable (_ ∧ _))

structure PiiMatch.Of (m : PiiMatch) (text : List Char) : Prop where
  ordered : m.start ≤ m.stop
  slice : m.text.toList = slice text m.start m.stop
  entity : Bracketless m.entityType

/-- A detector with what its callers rely on. -/
structure Detector where
  detect : String → List PiiMatch
  sound : ∀ text, ∀ m ∈ detect text, m.Of text.toList

/-- The placeholder of reversible masking. -/
def placeholder (entityType : String) (number : Nat) : String :=
  "[PII:" ++ entityType ++ ":" ++ toString number ++ "]"

structure RedactionResult where
  text : String
  found : List PiiMatch
  vault : Dict String String

/-- The loop of `mask_matches`: the output from `cursor` on, and the vault. -/
def maskLoop (reversible : Bool) (text : List Char) :
    List PiiMatch → Nat → Dict String Nat → Dict String String → List Char × Dict String String
  | [], cursor, _, vault => (text.drop cursor, vault)
  | m :: ms, cursor, counters, vault =>
    if m.start < cursor then maskLoop reversible text ms cursor counters vault
    else if reversible then
      let number := (counters.get? m.entityType).getD 0 + 1
      let token := placeholder m.entityType number
      let rest := maskLoop reversible text ms m.stop (counters.set m.entityType number)
        (vault.set token m.text)
      (slice text cursor m.start ++ token.toList ++ rest.1, rest.2)
    else
      let rest := maskLoop reversible text ms m.stop counters vault
      (slice text cursor m.start ++ ("[" ++ m.entityType ++ "]").toList ++ rest.1, rest.2)

def byStart (found : List PiiMatch) : List PiiMatch :=
  found.insertionSort fun a b => a.start ≤ b.start

def maskMatches (text : String) (found : List PiiMatch) (reversible : Bool) : RedactionResult :=
  let ordered := byStart found
  if ordered.isEmpty then ⟨text, [], ∅⟩
  else
    let out := maskLoop reversible text.toList ordered 0 ∅ ∅
    ⟨String.ofList out.1, ordered, out.2⟩

/-- Restore placeholders, the longest first. -/
def unmaskText (text : String) (vault : Dict String String) : String :=
  if vault.entries.isEmpty || decide (text = "") then text
  else
    let tokens := vault.entries.insertionSort fun a b => b.1.length ≤ a.1.length
    String.ofList (tokens.foldl (fun t e => replaceAll e.1.toList e.2.toList t) text.toList)

/-! ## 2. The text slots of a message -/

/-- Where texts stand in a message. -/
inductive Path where
  /-- The text under a key of a dict. -/
  | slot (name : String)
  /-- The text of a multimodal part that is a text. -/
  | textPart
  | key (name : String) (p : Path)
  | items (p : Path)
deriving DecidableEq

variable {σ : Type}

/-- Visit the elements of a list, with the state that each visit leaves. -/
def visitAll (f : Json → σ → Json × σ) : List Json → σ → List Json × σ
  | [], st => ([], st)
  | item :: items, st =>
    let first := f item st
    let rest := visitAll f items first.2
    (first.1 :: rest.1, rest.2)

/-- The text under a key, unless it is empty. -/
def slotText? (container : Json) (name : String) : Option String :=
  ((container.get? name).bind Json.str?).filter fun text => text ≠ ""

/-- `_slot`. -/
def visitSlot (f : String → σ → String × σ) (container : Json) (name : String) (st : σ) :
    Json × σ :=
  match slotText? container name with
  | some text =>
    let out := f text st
    (container.set name (.str out.1), out.2)
  | none => (container, st)

def isTextPart (part : Json) : Bool := decide (part.get? "type" = some (.str "text"))

/-- Visit the texts at a path, in place. -/
def Path.visit (f : String → σ → String × σ) : Path → Json → σ → Json × σ
  | .slot name, value, st => visitSlot f value name st
  | .textPart, part, st => if isTextPart part then visitSlot f part "text" st else (part, st)
  | .key name p, value, st =>
    match value.get? name with
    | some child =>
      let out := p.visit f child st
      (value.set name out.1, out.2)
    | none => (value, st)
  | .items p, .arr elements, st =>
    let out := visitAll (p.visit f) elements st
    (.arr out.1, out.2)
  | .items _, value, st => (value, st)

/-- Content as one text or as parts, the arguments of tool calls, and those of the legacy
    function call. -/
def slotPaths : List Path :=
  [.slot "content",
    .key "content" (.items .textPart),
    .key "tool_calls" (.items (.key "function" (.slot "arguments"))),
    .key "function_call" (.slot "arguments")]

def visitPaths (f : String → σ → String × σ) : List Path → Json → σ → Json × σ
  | [], msg, st => (msg, st)
  | p :: ps, msg, st =>
    let out := p.visit f msg st
    visitPaths f ps out.1 out.2

/-! ## 3. The request -/

inductive PiiMode where
  | off
  | flag
  | mask
  | block
deriving DecidableEq, Repr

structure PiiConfig where
  enabled : Bool := true
  mode : PiiMode := .flag
  reversible : Bool := true
  scanRoles : List String := ["user", "assistant", "tool"]
  blockMessage : String := "This request was blocked because it contained personal data " ++
    "and was not sent to the model."

/-- The counts by entity type, and the vault. -/
structure Scan where
  counts : Dict String Nat
  vault : Dict String String

/-- `_count`. -/
def countType (counts : Dict String Nat) (entityType : String) : Dict String Nat :=
  counts.set entityType ((counts.get? entityType).getD 0 + 1)

/-- `sum(counts.values())`. -/
def total (counts : Dict String Nat) : Nat := counts.values.foldr (fun count sum => count + sum) 0

/-- `_scan_text`, with the slot's new text; it stays as it is when nothing is masked. -/
def scanText (det : Detector) (doMask reversible : Bool) (text : String) (st : Scan) :
    String × Scan :=
  let found := det.detect text
  if found.isEmpty then (text, st)
  else
    let counts := (found.map PiiMatch.entityType).foldl countType st.counts
    if doMask then
      let result := maskMatches text found reversible
      (result.text, ⟨counts, st.vault.update result.vault⟩)
    else (text, ⟨counts, st.vault⟩)

def applyToMessage (det : Detector) (doMask reversible : Bool) (msg : Json) (st : Scan) :
    Json × Scan :=
  visitPaths (scanText det doMask reversible) slotPaths msg st

def hasRole (cfg : PiiConfig) (msg : Json) : Bool :=
  match msg.get? "role" with
  | some (.str role) => decide (role ∈ cfg.scanRoles)
  | _ => false

/-- The messages with a scanned role, in order. -/
def scanMessages (cfg : PiiConfig) (det : Detector) (messages : List Json) (st : Scan) :
    List Json × Scan :=
  visitAll (fun msg st => if hasRole cfg msg then
    applyToMessage det (cfg.mode = .mask) cfg.reversible msg st else (msg, st)) messages st

structure PiiRequest where
  messages : List Json
  originalMessages : List Json := []
  ragQuery : Option String := none

structure PiiOutcome where
  request : PiiRequest
  /-- The redactions by entity type; none are recorded when there are none. -/
  counts : Dict String Nat := ∅
  action : Option PiiMode := none
  piiVault : Dict String String := ∅
  noCache : Bool := false
  blocked : Option String := none

/-- `_mask_copy`. -/
def maskCopy (det : Detector) (reversible : Bool) (text : String) : String :=
  (scanText det true reversible text ⟨∅, ∅⟩).1

/-- `_mask_escape_hatches`: the copies are masked for themselves. -/
def maskEscapeHatches (det : Detector) (reversible : Bool) (req : PiiRequest) : PiiRequest :=
  { req with
    ragQuery := req.ragQuery.map fun text =>
      if text = "" then text else maskCopy det reversible text
    originalMessages := req.originalMessages.map fun msg =>
      if msg.isObj then (applyToMessage det true reversible msg ⟨∅, ∅⟩).1 else msg }

/-- `process_request`; the request's own vault starts empty. -/
def processRequest (cfg : PiiConfig) (det : Detector) (req : PiiRequest) : PiiOutcome :=
  if !cfg.enabled || cfg.mode = .off then { request := req }
  else
    let out := scanMessages cfg det req.messages ⟨∅, ∅⟩
    let req := { req with messages := out.1 }
    if total out.2.counts = 0 then { request := req }
    else
      match cfg.mode with
      | .mask =>
        { request := maskEscapeHatches det cfg.reversible req, counts := out.2.counts,
          action := some .mask, noCache := true,
          piiVault := if cfg.reversible then out.2.vault else ∅ }
      | .block =>
        { request := req, counts := out.2.counts, action := some .block,
          blocked := some cfg.blockMessage }
      | mode => { request := req, counts := out.2.counts, action := some mode }

end TokenProxy.Pii
