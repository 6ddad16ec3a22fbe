/-
  TokenProxy/PiiSlots.lean
  ========================
  **The text slots of a request, as a list and as a map.**

  Scanning walks over the messages with a state.  Here the walk is taken apart:
  when the new text of a slot does not depend on the state, the walk maps the slots
  and folds the state over the list of their texts (`scanMessages_eq`), and the
  slots of the result are the mapped slots (`slotTexts_mapMessages`).
-/
import TokenProxy.PiiMasking

namespace TokenProxy.Pii

/-! ## 1. The slots at one path -/

def mapSlot (f : String → String) (container : Json) (name : String) : Json :=
  match slotText? container name with
  | some text => container.set name (.str (f text))
  | none => container

def slotAt (container : Json) (name : String) : List String := (slotText? container name).toList

theorem slotText?_eq_some {container : Json} {name text : String} :
    slotText? container name = some text ↔
      container.get? name = some (.str text) ∧ text ≠ "" := by
  rw [slotText?, Option.filter_eq_some_iff, decide_eq_true_eq]
  refine and_congr_left fun _ => ?_
  cases container.get? name with
  | none => simp
  | some value => cases value <;> simp [Json.str?]

theorem slotText?_congr {container container' : Json} {name name' : String}
    (h : container'.get? name' = container.get? name) :
    slotText? container' name' = slotText? container name := by
  rw [slotText?, h, slotText?]

def Path.slots : Path → Json → List String
  | .slot name, value => slotAt value name
  | .textPart, part => if isTextPart part then slotAt part "text" else []
  | .key name p, value =>
    match value.get? name with
    | some child => p.slots child
    | none => []
  | .items p, .arr elements => elements.flatMap p.slots
  | .items _, _ => []

def Path.map (f : String → String) : Path → Json → Json
  | .slot name, value => mapSlot f value name
  | .textPart, part => if isTextPart part then mapSlot f part "text" else part
  | .key name p, value =>
    match value.get? name with
    | some child => value.set name (p.map f child)
    | none => value
  | .items p, .arr elements => .arr (elements.map (p.map f))
  | .items _, value => value

section

variable {σ : Type} {visit : String → σ → String × σ} {f : String → String}
  {next : σ → String → σ}

theorem visitAll_eq {walk : Json → σ → Json × σ} {map : Json → Json} {slots : Json → List String}
    (h : ∀ item st, walk item st = (map item, (slots item).foldl next st)) (items : List Json)
    (st : σ) : visitAll walk items st = (items.map map, (items.flatMap slots).foldl next st) := by
  induction items generalizing st with
  | nil => rfl
  | cons item items ih =>
    rw [visitAll, h item st]
    dsimp only
    rw [ih, List.map_cons, List.flatMap_cons, List.foldl_append]

variable (hvisit : ∀ text st, visit text st = (f text, next st text))

include hvisit in
theorem visitSlot_eq (container : Json) (name : String) (st : σ) :
    visitSlot visit container name st =
      (mapSlot f container name, (slotAt container name).foldl next st) := by
  unfold visitSlot mapSlot slotAt
  cases slotText? container name with
  | none => rfl
  | some text =>
    dsimp only
    rw [hvisit]
    rfl

include hvisit in
/-- A walk maps the slots and folds the state over their texts. -/
theorem Path.visit_eq (p : Path) (value : Json) (st : σ) :
    p.visit visit value st = (p.map f value, (p.slots value).foldl next st) := by
  induction p generalizing value st with
  | slot name => exact visitSlot_eq hvisit value name st
  | textPart =>
    rw [Path.visit, Path.map, Path.slots]
    split
    · exact visitSlot_eq hvisit value "text" st
    · rfl
  | key name p ih =>
    rw [Path.visit, Path.map, Path.slots]
    cases value.get? name with
    | none => rfl
    | some child =>
      dsimp only
      rw [ih]
  | items p ih =>
    cases value with
    | arr elements =>
      rw [Path.visit, Path.map, Path.slots, visitAll_eq ih]
    | _ => rfl

end

/-! ## 2. Slots after a map -/

variable {f : String → String}

theorem get?_mapSlot_of_ne (container : Json) {name other : String} (h : other ≠ name) :
    (mapSlot f container name).get? other = container.get? other := by
  unfold mapSlot
  split
  · exact Json.get?_set_of_ne container h _
  · rfl

/-- A slot that is mapped to a text that is not empty is a slot again. -/
theorem slotAt_mapSlot (hf : ∀ text, text ≠ "" → f text ≠ "") (container : Json)
    (name : String) : slotAt (mapSlot f container name) name = (slotAt container name).map f := by
  cases htext : slotText? container name with
  | none => simp [slotAt, mapSlot, htext]
  | some text =>
    obtain ⟨hget, hnonempty⟩ := slotText?_eq_some.mp htext
    obtain ⟨fields, rfl⟩ := Json.isObj_of_get? hget
    have hnew : slotText? (Json.set (.obj fields) name (.str (f text))) name = some (f text) :=
      slotText?_eq_some.mpr ⟨Json.get?_set_self fields name _, hf text hnonempty⟩
    simp [slotAt, mapSlot, htext, hnew]

/-- The slots at a path, mapped. -/
theorem Path.slots_map (hf : ∀ text, text ≠ "" → f text ≠ "") (p : Path) (value : Json) :
    p.slots (p.map f value) = (p.slots value).map f := by
  induction p generalizing value with
  | slot name => exact slotAt_mapSlot hf value name
  | textPart =>
    by_cases hpart : isTextPart value = true
    · have hstill : isTextPart (mapSlot f value "text") = true := by
        rw [isTextPart, get?_mapSlot_of_ne value (by decide)]
        exact hpart
      rw [Path.map, if_pos hpart, Path.slots, if_pos hstill, Path.slots, if_pos hpart]
      exact slotAt_mapSlot hf value "text"
    · rw [Path.map, if_neg hpart, Path.slots, if_neg hpart, List.map_nil]
  | key name p ih =>
    cases hget : value.get? name with
    | none => simp [Path.map, Path.slots, hget]
    | some child =>
      obtain ⟨fields, rfl⟩ := Json.isObj_of_get? hget
      simp only [Path.map, Path.slots, hget, Json.get?_set_self]
      exact ih child
  | items p ih =>
    cases value with
    | arr elements =>
      rw [Path.map, Path.slots, Path.slots, List.flatMap_map, List.map_flatMap]
      exact congrArg (elements.flatMap ·) (funext ih)
    | _ => rfl

/-- The key that a path starts with. -/
def Path.root : Path → Option String
  | .slot name => some name
  | .key name _ => some name
  | _ => none

theorem Path.get?_map_of_ne {p : Path} {name other : String} (hp : p.root = some name)
    (h : other ≠ name) (value : Json) : (p.map f value).get? other = value.get? other := by
  cases p with
  | slot name' =>
    cases hp
    exact get?_mapSlot_of_ne value h
  | key name' p =>
    cases hp
    rw [Path.map]
    split
    · exact Json.get?_set_of_ne value h _
    · rfl
  | _ => cases hp

theorem Path.slots_congr {p : Path} {name : String} (hp : p.root = some name)
    {value value' : Json} (h : value'.get? name = value.get? name) :
    p.slots value' = p.slots value := by
  cases p with
  | slot name' =>
    cases hp
    rw [Path.slots, Path.slots, slotAt, slotText?_congr h, slotAt]
  | key name' p =>
    cases hp
    rw [Path.slots, h, Path.slots]
  | _ => cases hp

/-- Mapping at one path leaves the slots at the other alone. -/
def Path.Apart (f : String → String) (p q : Path) : Prop :=
  ∀ value, q.slots (p.map f value) = q.slots value ∧ p.slots (q.map f value) = p.slots value

theorem Path.apart_of_root_ne {p q : Path} {name other : String} (hp : p.root = some name)
    (hq : q.root = some other) (h : name ≠ other) : p.Apart f q := fun value =>
  ⟨Path.slots_congr hq (Path.get?_map_of_ne hp h.symm value),
    Path.slots_congr hp (Path.get?_map_of_ne hq h value)⟩

/-- Content is a text or a list of parts. -/
theorem content_apart : Path.Apart f (.slot "content") (.key "content" (.items .textPart)) := by
  intro value
  by_cases htext : ∃ text, value.get? "content" = some (.str text)
  · obtain ⟨text, hget⟩ := htext
    obtain ⟨fields, rfl⟩ := Json.isObj_of_get? hget
    constructor
    · obtain ⟨text', hget'⟩ : ∃ text',
          (mapSlot f (.obj fields) "content").get? "content" = some (.str text') := by
        rw [mapSlot]
        split
        · exact ⟨_, Json.get?_set_self fields "content" _⟩
        · exact ⟨text, hget⟩
      rw [Path.map, Path.slots, hget', Path.slots, hget]
      rfl
    · apply Path.slots_congr rfl
      rw [Path.map, hget]
      exact Json.get?_set_self fields "content" _
  · have hnone : ∀ value' : Json, (¬ ∃ text, value'.get? "content" = some (.str text)) →
        slotText? value' "content" = none := by
      intro value' hvalue'
      apply Option.eq_none_iff_forall_ne_some.mpr
      intro text heq
      exact hvalue' ⟨text, (slotText?_eq_some.mp heq).1⟩
    constructor
    · rw [Path.map, mapSlot, hnone value htext]
    · rw [Path.map]
      cases hget : value.get? "content" with
      | none => rfl
      | some content =>
        obtain ⟨fields, rfl⟩ := Json.isObj_of_get? hget
        rw [Path.slots, Path.slots, slotAt, slotAt, hnone _ htext, hnone]
        rw [Json.get?_set_self]
        rintro ⟨text, heq⟩
        cases content with
        | str text => exact htext ⟨text, hget⟩
        | _ => cases heq

theorem slotPaths_apart : slotPaths.Pairwise (Path.Apart f) := by
  refine List.Pairwise.cons ?_ (List.Pairwise.cons ?_ (List.Pairwise.cons ?_
    (List.pairwise_singleton _ _)))
  · intro q hq
    simp only [List.mem_cons, List.not_mem_nil, or_false] at hq
    rcases hq with rfl | rfl | rfl
    · exact content_apart
    · exact Path.apart_of_root_ne rfl rfl (by decide)
    · exact Path.apart_of_root_ne rfl rfl (by decide)
  · intro q hq
    simp only [List.mem_cons, List.not_mem_nil, or_false] at hq
    rcases hq with rfl | rfl
    · exact Path.apart_of_root_ne rfl rfl (by decide)
    · exact Path.apart_of_root_ne rfl rfl (by decide)
  · intro q hq
    obtain rfl := List.mem_singleton.mp hq
    exact Path.apart_of_root_ne rfl rfl (by decide)

/-! ## 3. The slots of a message -/

def mapPaths (f : String → String) (ps : List Path) (msg : Json) : Json :=
  ps.foldl (fun msg p => p.map f msg) msg

theorem slots_mapPaths {p : Path} {ps : List Path} (h : ∀ q ∈ ps, p.Apart f q) (msg : Json) :
    p.slots (mapPaths f ps msg) = p.slots msg := by
  induction ps generalizing msg with
  | nil => rfl
  | cons q ps ih =>
    rw [mapPaths, List.foldl_cons]
    rw [← (h q List.mem_cons_self msg).2]
    exact ih (fun q' hq' => h q' (List.mem_cons_of_mem q hq')) (q.map f msg)

theorem flatMap_slots_map {p : Path} {ps : List Path} (h : ∀ q ∈ ps, p.Apart f q) (msg : Json) :
    (ps.flatMap fun q => q.slots (p.map f msg)) = ps.flatMap fun q => q.slots msg :=
  List.flatMap_congr fun q hq => (h q hq msg).1

theorem visitPaths_eq {σ : Type} {visit : String → σ → String × σ} {next : σ → String → σ}
    (hvisit : ∀ text st, visit text st = (f text, next st text)) {ps : List Path}
    (hps : ps.Pairwise (Path.Apart f)) (msg : Json) (st : σ) :
    visitPaths visit ps msg st =
      (mapPaths f ps msg, (ps.flatMap fun p => p.slots msg).foldl next st) := by
  induction ps generalizing msg st with
  | nil => rfl
  | cons p ps ih =>
    obtain ⟨hp, hps⟩ := List.pairwise_cons.mp hps
    rw [visitPaths, Path.visit_eq hvisit]
    dsimp only
    rw [ih hps, flatMap_slots_map hp, List.flatMap_cons, List.foldl_append]
    rfl

theorem flatMap_slots_mapPaths (hf : ∀ text, text ≠ "" → f text ≠ "") {ps : List Path}
    (hps : ps.Pairwise (Path.Apart f)) (msg : Json) :
    (ps.flatMap fun p => p.slots (mapPaths f ps msg)) =
      (ps.flatMap fun p => p.slots msg).map f := by
  induction ps generalizing msg with
  | nil => rfl
  | cons p ps ih =>
    obtain ⟨hp, hps⟩ := List.pairwise_cons.mp hps
    have hhead : p.slots (mapPaths f ps (p.map f msg)) = (p.slots msg).map f := by
      rw [slots_mapPaths hp, Path.slots_map hf]
    have htail := ih hps (p.map f msg)
    rw [flatMap_slots_map hp] at htail
    rw [List.flatMap_cons, List.flatMap_cons, List.map_append]
    exact congrArg₂ (· ++ ·) hhead htail

/-- Every text slot of a message, in the order in which they are scanned. -/
def slotsOf (msg : Json) : List String := slotPaths.flatMap fun p => p.slots msg

theorem slotsOf_mapPaths (hf : ∀ text, text ≠ "" → f text ≠ "") (msg : Json) :
    slotsOf (mapPaths f slotPaths msg) = (slotsOf msg).map f :=
  flatMap_slots_mapPaths hf slotPaths_apart msg

/-- Mapping the slots leaves the other keys of a message alone. -/
theorem get?_mapPaths_of_ne {name : String} {ps : List Path}
    (h : ∀ p ∈ ps, ∃ root, p.root = some root ∧ name ≠ root) (msg : Json) :
    (mapPaths f ps msg).get? name = msg.get? name := by
  induction ps generalizing msg with
  | nil => rfl
  | cons p ps ih =>
    obtain ⟨root, hroot, hne⟩ := h p List.mem_cons_self
    rw [mapPaths, List.foldl_cons]
    refine (ih (fun q hq => h q (List.mem_cons_of_mem p hq)) (p.map f msg)).trans ?_
    exact Path.get?_map_of_ne hroot hne msg

/-! ## 4. The slots of the messages -/

section

variable (cfg : PiiConfig)

/-- The slots that are scanned. -/
def scannedSlots (msg : Json) : List String := if hasRole cfg msg then slotsOf msg else []

def slotTexts (messages : List Json) : List String := messages.flatMap (scannedSlots cfg)

def mapMessage (f : String → String) (msg : Json) : Json :=
  if hasRole cfg msg then mapPaths f slotPaths msg else msg

theorem hasRole_mapPaths (msg : Json) :
    hasRole cfg (mapPaths f slotPaths msg) = hasRole cfg msg := by
  have hroots : ∀ p ∈ slotPaths, ∃ root, p.root = some root ∧ "role" ≠ root := by
    intro p hp
    simp only [slotPaths, List.mem_cons, List.not_mem_nil, or_false] at hp
    rcases hp with rfl | rfl | rfl | rfl
    · exact ⟨"content", rfl, by decide⟩
    · exact ⟨"content", rfl, by decide⟩
    · exact ⟨"tool_calls", rfl, by decide⟩
    · exact ⟨"function_call", rfl, by decide⟩
  rw [hasRole, get?_mapPaths_of_ne hroots, hasRole]

theorem slotTexts_mapMessages (hf : ∀ text, text ≠ "" → f text ≠ "") (messages : List Json) :
    slotTexts cfg (messages.map (mapMessage cfg f)) = (slotTexts cfg messages).map f := by
  rw [slotTexts, List.flatMap_map, slotTexts, List.map_flatMap]
  apply List.flatMap_congr
  intro msg _
  by_cases hrole : hasRole cfg msg = true
  · rw [mapMessage, if_pos hrole, scannedSlots, hasRole_mapPaths, if_pos hrole, scannedSlots,
      if_pos hrole, slotsOf_mapPaths hf]
  · rw [mapMessage, if_neg hrole, scannedSlots, if_neg hrole, List.map_nil]

end

/-! ## 5. Scanning -/

section

variable (det : Detector) (doMask reversible : Bool)

/-- The text that a slot has after it was scanned. -/
def maskedText (text : String) : String := (scanText det doMask reversible text ⟨∅, ∅⟩).1

def scanNext (st : Scan) (text : String) : Scan := (scanText det doMask reversible text st).2

theorem scanText_eq (text : String) (st : Scan) : scanText det doMask reversible text st =
    (maskedText det doMask reversible text, scanNext det doMask reversible st text) := by
  cases hfound : (det.detect text).isEmpty with
  | true => simp [scanText, maskedText, scanNext, hfound]
  | false => cases doMask <;> simp [scanText, maskedText, scanNext, hfound]

theorem scanMessages_eq (cfg : PiiConfig) (messages : List Json) (st : Scan) :
    scanMessages cfg det messages st =
      (messages.map (mapMessage cfg (maskedText det (cfg.mode = .mask) cfg.reversible)),
        (slotTexts cfg messages).foldl (scanNext det (cfg.mode = .mask) cfg.reversible) st) := by
  apply visitAll_eq
  intro msg st
  by_cases hrole : hasRole cfg msg = true
  · rw [if_pos hrole, mapMessage, if_pos hrole, scannedSlots, if_pos hrole, applyToMessage]
    exact visitPaths_eq (scanText_eq det _ _) slotPaths_apart msg st
  · rw [if_neg hrole, mapMessage, if_neg hrole, scannedSlots, if_neg hrole]
    rfl

end

end TokenProxy.Pii
