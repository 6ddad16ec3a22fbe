/-
  TokenProxy/CacheFloor.lean
  ==========================
  **The prefix-cache floor** (`middleware/cache_floor.py`, with the stages that
  measure the reserved span or rewrite it: `g01_compression.py`,
  `g20_prompt_optimizer.py`, `g07_retrieval.py`, `g08_tool_loading.py`,
  `g28_ccr.py`, `g19_headroom.py`).

  A reservation names its span by role and content.  A stage that rewrites messages
  has to take the snapshot again, or the span that the next stage measures is not
  the span that was reserved.  Each message carries a mark that no stage reads, that
  it descends from a reserved one; `Tracked` says that the snapshot covers exactly
  the marked messages, and `Upheld` what the floor owes at each stage that shrinks
  the span.

  One stage rewrites without a snapshot: the layered composition in front of G01.
  Runs in which no such rewrite touches the span, and in which no other message
  comes to look like one of the span, keep the floor at every stage
  (`floor_upheld`).
-/
import TokenProxy.PyJson
import TokenProxy.Execution
import Mathlib.Data.Rat.Defs
import Mathlib.Algebra.Order.Ring.Rat
import Mathlib.Tactic.NormNum

namespace TokenProxy.CacheFloor

/-! ## 1. The request -/

/-- A message; `reserved` is not the code's: the message descends from one of the reserved
    span. -/
structure Message where
  body : Json
  reserved : Bool := false
deriving DecidableEq

/-- `{**msg, "content": text}`. -/
def Message.withContent (m : Message) (text : String) : Message :=
  { m with body := m.body.set "content" (.str text) }

def Message.role (m : Message) : Json := m.body.getD "role" .null

def Message.content (m : Message) : Json := m.body.getD "content" .null

/-- What the stages call: the counters, the compressors, `hashlib` and `str`. -/
structure Runtime where
  sha256 : String → String
  strOf : Json → String
  /-- what one message adds to `count_messages_tokens` -/
  messageTokens : Json → Nat
  /-- `count_tools_tokens` -/
  toolsTokens : Json → Nat
  /-- `LayeredPromptComposer.compose` -/
  compose : Json → String
  /-- `_call_llmlingua` at a keep-fraction -/
  callLlmlingua : String → ℚ → Option String
  isFaithfulCompression : String → String → Bool
  /-- `round(rate, 4)` -/
  round4 : ℚ → ℚ
  lstrip : String → String

/-- The reservation. -/
structure Floor where
  active : Bool := false
  floor : Nat := 0
  spanTokens : Nat := 0
  readMult : ℚ := 1
  writeMult : ℚ := 1
  reuse : Nat := 1
  margin : ℚ := 5 / 100
  spanRoles : List String := []
  spanFingerprints : Option (List String) := none
  spanIsWholePrompt : Bool := false

inductive Action where
  | none
  | floored
  | preserved
deriving DecidableEq, Repr

structure Ctx where
  messages : List Message
  tools : Json := .null
  cacheFloor : Floor := {}
  cacheFloorAction : Action := .none
  cacheFloorStaleSnapshot : Bool := false

variable (rt : Runtime)

/-- `str(value)`. -/
def Runtime.text : Json → String
  | .str s => s
  | value => rt.strOf value

def messageFingerprint (message : Json) : String :=
  rt.sha256 (rt.text (message.getD "role" (.str "")) ++ "\u0000" ++
    rt.text (message.getD "content" .null))

def Floor.covers (fl : Floor) (message : Json) : Bool :=
  if !fl.active then false
  else if !(fl.spanFingerprints.all fun fps => decide (messageFingerprint rt message ∈ fps)) then
    false
  else if fl.spanIsWholePrompt then true
  else
    match message.getD "role" .null with
    | .str role => decide (role ∈ fl.spanRoles)
    | _ => false

/-! ## 2. The arithmetic -/

def compressIsCheaper (spanBefore spanAfter floor : Nat) (readMult writeMult : ℚ) (reuse : Nat)
    (canFloor : Bool) : Bool :=
  if floor = 0 || decide (reuse < 1) then true
  else if spanBefore < floor then true
  else if spanAfter ≥ floor then true
  else
    let kept := if canFloor then floor else spanBefore
    decide ((reuse : ℚ) * spanAfter ≤ writeMult * kept + ((reuse : ℚ) - 1) * readMult * kept)

def Floor.cheaper (fl : Floor) (spanBefore spanAfter : Nat) (canFloor : Bool) : Bool :=
  compressIsCheaper spanBefore spanAfter fl.floor fl.readMult fl.writeMult fl.reuse canFloor

/-- The answer, and the request with the snapshot marked stale where it measures nothing. -/
def allowsShrink (ctx : Ctx) (spanBefore spanAfter : Nat) (canFloor : Bool) : Bool × Ctx :=
  let fl := ctx.cacheFloor
  if !fl.active then (true, ctx)
  else if spanBefore = 0 ∧ 0 < fl.floor ∧ fl.floor ≤ fl.spanTokens then
    (false, { ctx with cacheFloorStaleSnapshot := true })
  else (fl.cheaper spanBefore spanAfter canFloor, ctx)

def targetRate (fl : Floor) (shrinkableTokens fixedTokens : Int) : Option ℚ :=
  if !fl.active || decide (shrinkableTokens ≤ 0) || fl.floor = 0 then none
  else
    let target := (fl.floor : ℚ) * (1 + fl.margin) - max 0 fixedTokens
    if target ≤ 0 then none
    else
      let rate := target / shrinkableTokens
      if 1 ≤ rate then none else some (rt.round4 rate)

/-! ## 3. Measuring the span -/

def countMessagesTokens (messages : List Message) : Nat :=
  (messages.map fun m => rt.messageTokens m.body).sum

def toolsTokens (tools : Json) : Nat := if tools.truthy then rt.toolsTokens tools else 0

def spanTokens (ctx : Ctx) : Nat :=
  if !ctx.cacheFloor.active then 0
  else countMessagesTokens rt (ctx.messages.filter fun m => ctx.cacheFloor.covers rt m.body) +
    toolsTokens rt ctx.tools

/-- The messages of `after` at the places where `before` is in the span. -/
def pairedSpan (fl : Floor) (before after : List Message) : List Message :=
  ((before.zip after).filter fun p => fl.covers rt p.1.body).map Prod.snd

def spanTokensPaired (ctx : Ctx) (after : List Message) : Nat :=
  if !ctx.cacheFloor.active then 0
  else countMessagesTokens rt (pairedSpan rt ctx.cacheFloor ctx.messages after) +
    toolsTokens rt ctx.tools

def resnapshot (before after : List Message) (ctx : Ctx) : Ctx :=
  if !ctx.cacheFloor.active then ctx
  else
    { ctx with
      cacheFloor :=
        { ctx.cacheFloor with
          spanFingerprints := some ((pairedSpan rt ctx.cacheFloor before after).map fun m =>
            messageFingerprint rt m.body) } }

/-- `ctx.messages = after`, and the snapshot of it. -/
def assign (after : List Message) (ctx : Ctx) : Ctx :=
  resnapshot rt ctx.messages after { ctx with messages := after }

/-! ## 4. The reservation -/

/-- How a provider measures its minimum: over the whole prompt, or over what stands in front of
    the marker, if markers are on. -/
inductive SpanRule where
  | wholePrompt
  | markedSystem (marker : Bool)

def isRetrievedContext (message : Json) : Bool :=
  decide (message.getD "role" .null = .str "system") &&
    match message.getD "content" .null with
    | .str content => "[Retrieved context]".toList.isPrefixOf (rt.lstrip content).toList
    | _ => false

/-- The message is one of `cacheable_span_messages`. -/
def SpanRule.inSpan : SpanRule → Json → Bool
  | .wholePrompt, _ => true
  | .markedSystem marker, message =>
    marker && decide (message.getD "role" .null = .str "system") && !isRetrievedContext rt message

structure Adapter where
  minCacheablePromptTokens : Nat
  span : SpanRule
  readMult : ℚ
  writeMult : ℚ

/-- `reserve`, past its switches, with the reuse that was counted; `none` where it is unknown. -/
def reserve (adapter : Adapter) (margin : ℚ) (assumed : Nat) (observed : Option Nat)
    (messages : List Json) (tools : Json) : Ctx :=
  let marked := messages.map fun body => { body, reserved := adapter.span.inSpan rt body : Message }
  let span := marked.filter Message.reserved
  let ctx : Ctx := { messages := marked, tools }
  if adapter.minCacheablePromptTokens = 0 then ctx
  else if !messages.isEmpty && span.isEmpty then ctx
  else
    let probe : Floor :=
      { active := true
        floor := adapter.minCacheablePromptTokens
        spanRoles := span.map fun m => rt.text (m.body.getD "role" (.str ""))
        spanFingerprints := some (span.map fun m => messageFingerprint rt m.body)
        spanIsWholePrompt := decide (span.length = messages.length) }
    let tokens := spanTokens rt { ctx with cacheFloor := probe }
    if tokens < probe.floor then ctx
    else
      match observed with
      | none => ctx
      | some seen =>
        { ctx with
          cacheFloor :=
            { probe with
              spanTokens := tokens
              readMult := adapter.readMult
              writeMult := adapter.writeMult
              reuse := max 1 (max assumed (seen + 1))
              margin := if margin < 0 then 5 / 100 else margin } }

/-! ## 5. The stages -/

/-- New contents, message by message; `none` leaves a message as it is. -/
def rewrite : List (Option String) → List Message → List Message
  | _, [] => []
  | [], messages => messages
  | new :: news, m :: messages =>
    (match new with
      | some text => m.withContent text
      | none => m) :: rewrite news messages

/-- What the floor decided at a stage. -/
inductive Verdict where
  | idle
  | taken
  | floored
  | refused
deriving DecidableEq, Repr

/-- `_compose_layers`: no snapshot is taken. -/
def composeLayer (enabled : Bool) (m : Message) : Message :=
  match m.body.get? "layer_context" with
  | none => m
  | some layerContext =>
    let bare := { m with body := m.body.pop "layer_context" }
    if enabled && decide (bare.role = .str "system") && layerContext.isObj then
      let composed := rt.compose layerContext
      if composed ≠ "" then bare.withContent composed else bare
    else bare

def composeLayers (enabled : Bool) (ctx : Ctx) : Ctx :=
  { ctx with messages := ctx.messages.map (composeLayer rt enabled) }

/-- The rewrites that are left when the span is held back. -/
def holdBack (fl : Floor) (stale : Bool) (new : List (Option String)) (messages : List Message) :
    List (Option String) :=
  List.zipWith (fun text m => if stale || fl.covers rt m.body then none else text) new messages

/-- The milder text for a message of the span, where there is one. -/
def milderText (rate : Option ℚ) (m : Message) : Option String :=
  match m.content, rate with
  | .str original, some rate =>
    (rt.callLlmlingua original rate).filter fun milder =>
      decide (milder.length < original.length) && rt.isFaithfulCompression original milder
  | _, _ => none

/-- The rewrites with those of the span made anew at the milder rate. -/
def floorSpan (fl : Floor) (rate : Option ℚ) (new : List (Option String))
    (messages : List Message) : List (Option String) :=
  List.zipWith (fun text m =>
    if fl.covers rt m.body then text.bind fun _ => milderText rt rate m else text) new messages

/-- G01, after its compressors have come up with `new`. -/
def compress (new : List (Option String)) (ctx : Ctx) : Verdict × Ctx :=
  if new.all Option.isNone then (.idle, ctx)
  else if !ctx.cacheFloor.active then (.taken, assign rt (rewrite new ctx.messages) ctx)
  else
    let fl := ctx.cacheFloor
    let rewritten := rewrite new ctx.messages
    let before := spanTokens rt ctx
    let after := spanTokensPaired rt ctx rewritten
    let first := allowsShrink ctx before after true
    if first.1 then (.taken, assign rt rewritten first.2)
    else
      let inSpan := ((new.zip ctx.messages).filter fun p =>
        p.1.isSome && fl.covers rt p.2.body).map Prod.snd
      let shrinkable := countMessagesTokens rt inSpan
      let rate := targetRate rt fl shrinkable (before - shrinkable : Int)
      let floored := rewrite (floorSpan rt fl rate new ctx.messages) ctx.messages
      if inSpan.any (fun m => (milderText rt rate m).isSome) &&
          decide (fl.floor ≤ spanTokensPaired rt ctx floored) then
        (.floored, assign rt floored { first.2 with cacheFloorAction := .floored })
      else
        let second := allowsShrink first.2 before after false
        if second.1 then (.taken, assign rt rewritten second.2)
        else
          let preserved := rewrite (holdBack rt fl false new ctx.messages) ctx.messages
          let ctx : Ctx := { second.2 with cacheFloorAction := .preserved }
          (.refused, if preserved = ctx.messages then ctx else assign rt preserved ctx)

/-- The place of G20's rewrite: the first system message, when it has a text. -/
def templateContents (optimised : String) : List Message → List (Option String)
  | [] => []
  | m :: messages =>
    if m.role = .str "system" then
      match m.content with
      | .str s => if s ≠ "" then [some optimised] else []
      | _ => []
    else none :: templateContents optimised messages

/-- G20, with the template it found. -/
def swapTemplate (optimised : Option String) (ctx : Ctx) : Ctx :=
  match optimised with
  | none => ctx
  | some text =>
    let new := templateContents text ctx.messages
    if new.any Option.isSome then assign rt (rewrite new ctx.messages) ctx else ctx

def isUser (m : Message) : Bool := decide (m.role = .str "user")

def insertBeforeLastUser (inserted : Message) : List Message → List Message
  | [] => [inserted]
  | m :: messages =>
    if messages.any isUser then m :: insertBeforeLastUser inserted messages
    else if isUser m then inserted :: m :: messages
    else m :: insertBeforeLastUser inserted messages

def retrievedContext (context : String) : Message where
  body := .obj [("role", .str "system"), ("content", .str ("[Retrieved context]\n" ++ context))]

/-- G07, with the documents it found: no snapshot is taken. -/
def injectContext (context : String) (ctx : Ctx) : Ctx :=
  { ctx with messages := insertBeforeLastUser (retrievedContext context) ctx.messages }

/-- G08, with the tools it would keep. -/
def trimTools (relevant : Json) (trimmed : Bool) (ctx : Ctx) : Verdict × Ctx :=
  if !trimmed then (.idle, ctx)
  else if !ctx.cacheFloor.active then (.taken, { ctx with tools := relevant })
  else
    let spanAfter := spanTokens rt { ctx with tools := relevant }
    let answer := allowsShrink ctx (spanTokens rt ctx) spanAfter false
    if answer.1 then (.taken, { answer.2 with tools := relevant })
    else (.refused, { answer.2 with cacheFloorAction := .preserved })

/-- G28, with the references it would put in, whether they are shorter, and its own tools. -/
def substitute (new : List (Option String)) (fewer : Bool) (tools : Option Json)
    (ctx : Ctx) : Ctx :=
  let ctx := if fewer then assign rt (rewrite new ctx.messages) ctx else ctx
  { ctx with tools := tools.getD ctx.tools }

/-- G19, after its compressors have come up with `new`. -/
def prune (new : List (Option String)) (ctx : Ctx) : Verdict × Ctx :=
  if new.all Option.isNone then (.idle, ctx)
  else if !ctx.cacheFloor.active then (.taken, assign rt (rewrite new ctx.messages) ctx)
  else
    let rewritten := rewrite new ctx.messages
    let answer := allowsShrink ctx (spanTokens rt ctx) (spanTokensPaired rt ctx rewritten) false
    if answer.1 then (.taken, assign rt rewritten answer.2)
    else
      let kept := holdBack rt ctx.cacheFloor answer.2.cacheFloorStaleSnapshot new ctx.messages
      let restored := rewrite kept ctx.messages
      let ctx : Ctx := { answer.2 with cacheFloorAction := .preserved }
      (.refused, if restored = ctx.messages then ctx else assign rt restored ctx)

/-! ## 6. Runs -/

/-- A piece of a list that some other stage leaves: an earlier message, as it was or with a new
    text, or a message of its own. -/
inductive Piece where
  | kept (i : Nat)
  | rewritten (i : Nat) (text : String)
  | inserted (body : Json)

def place (messages : List Message) : Piece → Option Message
  | .kept i => messages[i]?
  | .rewritten i text => (messages[i]?).map fun m => m.withContent text
  | .inserted body => some { body }

/-- The stages after the reservation.  `rearrange` is any stage that replaces the messages and
    takes no snapshot. -/
inductive Step where
  | composeLayers (enabled : Bool)
  | compress (new : List (Option String))
  | swapTemplate (optimised : Option String)
  | injectContext (context : String)
  | trimTools (relevant : Json) (trimmed : Bool)
  | substitute (new : List (Option String)) (fewer : Bool) (tools : Option Json)
  | prune (new : List (Option String))
  | rearrange (pieces : List Piece)

/-- What a stage decides and leaves; only G01, G08 and G19 ask the floor. -/
def Step.apply : Step → Ctx → Verdict × Ctx
  | .composeLayers enabled, ctx => (.idle, CacheFloor.composeLayers rt enabled ctx)
  | .compress new, ctx => CacheFloor.compress rt new ctx
  | .swapTemplate optimised, ctx => (.idle, CacheFloor.swapTemplate rt optimised ctx)
  | .injectContext context, ctx => (.idle, CacheFloor.injectContext context ctx)
  | .trimTools relevant trimmed, ctx => CacheFloor.trimTools rt relevant trimmed ctx
  | .substitute new fewer tools, ctx => (.idle, CacheFloor.substitute rt new fewer tools ctx)
  | .prune new, ctx => CacheFloor.prune rt new ctx
  | .rearrange pieces, ctx =>
    (.idle, { ctx with messages := pieces.filterMap (place ctx.messages) })

def step (ctx : Ctx) (s : Step) : Option Ctx := some (s.apply rt ctx).2

def Step.consumes : Step → Bool
  | .compress _ => true
  | .trimTools _ _ => true
  | .prune _ => true
  | _ => false

/-- The tokens of the messages that descend from the reserved ones, and of the tools. -/
def descendedTokens (ctx : Ctx) : Nat :=
  countMessagesTokens rt (ctx.messages.filter Message.reserved) + toolsTokens rt ctx.tools

/-- The lists have the same messages in the same places, but for their texts. -/
def InPlace (before after : List Message) : Prop :=
  List.Forall₂ (fun m m' => m'.reserved = m.reserved ∧ m'.role = m.role) before after

/-- What the floor owes at a stage that asks it, while a span is reserved. -/
structure Upheld (ctx : Ctx) (s : Step) : Prop where
  /-- the span measured is the span reserved, and so is that of a rewrite of it -/
  measured : spanTokens rt ctx = descendedTokens rt ctx
  paired : ∀ after, InPlace ctx.messages after →
    spanTokensPaired rt ctx after = descendedTokens rt { ctx with messages := after }
  /-- a span at the floor goes below it only where that is cheaper -/
  floored : ctx.cacheFloor.floor ≤ descendedTokens rt ctx →
    descendedTokens rt (s.apply rt ctx).2 < ctx.cacheFloor.floor →
      ∃ canFloor, ctx.cacheFloor.cheaper (descendedTokens rt ctx)
        (descendedTokens rt (s.apply rt ctx).2) canFloor = true
  /-- a refusal leaves the span and the tools as they are -/
  refused : (s.apply rt ctx).1 = .refused →
    (s.apply rt ctx).2.messages.filter Message.reserved =
        ctx.messages.filter Message.reserved ∧
      (s.apply rt ctx).2.tools = ctx.tools

def FloorUpheld : Ctx → List Step → Prop :=
  Execution.AllSteps (step rt) fun ctx s =>
    ctx.cacheFloor.active = true → s.consumes = true → Upheld rt ctx s

/-- The texts that a stage may write into a message. -/
def Step.offers (m : Message) (text : String) : Step → Prop
  | .compress new => some text ∈ new ∨ ∃ original rate,
      m.content = .str original ∧ rt.callLlmlingua original rate = some text
  | .swapTemplate optimised => optimised = some text
  | .substitute new _ _ => some text ∈ new
  | .prune new => some text ∈ new
  | _ => False

/-- A message of the request, or one with a text that the stage may write into it. -/
def Version (ctx : Ctx) (s : Step) (m' : Message) : Prop :=
  ∃ m ∈ ctx.messages, m' = m ∨ ∃ text, s.offers rt m text ∧ m' = m.withContent text

/-- What a stage may do to the messages.  A stage that takes no snapshot leaves the span its
    snapshot, and brings in nothing that the snapshot covers; a stage that takes one tells the
    span and the other messages apart. -/
def Admissible (ctx : Ctx) : Step → Prop
  | .composeLayers enabled => ∀ m ∈ ctx.messages,
      ctx.cacheFloor.covers rt (composeLayer rt enabled m).body = m.reserved
  | .injectContext context =>
      ctx.cacheFloor.covers rt (retrievedContext context).body = false
  | .rearrange pieces => ∀ piece ∈ pieces, ∀ m, place ctx.messages piece = some m →
      ctx.cacheFloor.covers rt m.body = m.reserved
  | s => ∀ m m', Version rt ctx s m → Version rt ctx s m' → m.reserved = true →
      m'.reserved = false → messageFingerprint rt m.body ≠ messageFingerprint rt m'.body

/-! ## 7. The invariant -/

/-- The snapshot covers the messages that descend from the reserved ones. -/
def Tracked (ctx : Ctx) : Prop :=
  ctx.cacheFloor.active = true →
    ∀ m ∈ ctx.messages, ctx.cacheFloor.covers rt m.body = m.reserved

variable {rt}

theorem InPlace.refl (messages : List Message) : InPlace messages messages :=
  List.forall₂_same.mpr fun _ _ => ⟨rfl, rfl⟩

@[simp] theorem Message.withContent_reserved (m : Message) (text : String) :
    (m.withContent text).reserved = m.reserved := rfl

@[simp] theorem Message.withContent_role (m : Message) (text : String) :
    (m.withContent text).role = m.role :=
  Json.getD_set_of_ne m.body (by decide) _ _

theorem inPlace_rewrite (new : List (Option String)) (messages : List Message) :
    InPlace messages (rewrite new messages) := by
  induction messages generalizing new with
  | nil =>
    cases new with
    | nil => exact .nil
    | cons _ _ => exact .nil
  | cons m messages ih =>
    cases new with
    | nil => exact InPlace.refl _
    | cons text new =>
      refine .cons ?_ (ih new)
      cases text with
      | none => exact ⟨rfl, rfl⟩
      | some text => exact ⟨rfl, m.withContent_role text⟩

/-- Under the invariant, membership by snapshot is membership by descent. -/
theorem filter_covers {ctx : Ctx} (h : Tracked rt ctx) (hactive : ctx.cacheFloor.active = true) :
    (ctx.messages.filter fun m => ctx.cacheFloor.covers rt m.body) =
      ctx.messages.filter Message.reserved :=
  List.filter_congr fun m hm => h hactive m hm

theorem pairedSpan_eq {fl : Floor} {before after : List Message}
    (hcovers : ∀ m ∈ before, fl.covers rt m.body = m.reserved) (h : InPlace before after) :
    pairedSpan rt fl before after = after.filter Message.reserved := by
  induction h with
  | nil => rfl
  | @cons m m' before after hm _ ih =>
    have htail := ih fun x hx => hcovers x (List.mem_cons_of_mem m hx)
    have hhead := hcovers m List.mem_cons_self
    simp only [pairedSpan] at htail ⊢
    rw [List.zip_cons_cons, List.filter_cons, List.filter_cons, hhead, hm.1]
    split
    · rw [List.map_cons, htail]
    · exact htail

theorem spanTokens_eq {ctx : Ctx} (h : Tracked rt ctx) (hactive : ctx.cacheFloor.active = true) :
    spanTokens rt ctx = descendedTokens rt ctx := by
  simp [spanTokens, descendedTokens, hactive, filter_covers h hactive]

theorem spanTokensPaired_eq {ctx : Ctx} (h : Tracked rt ctx)
    (hactive : ctx.cacheFloor.active = true) {after : List Message}
    (hinplace : InPlace ctx.messages after) :
    spanTokensPaired rt ctx after = descendedTokens rt { ctx with messages := after } := by
  simp [spanTokensPaired, descendedTokens, hactive, pairedSpan_eq (h hactive) hinplace]

theorem covers_congr_role {fl : Floor} {m m' : Message} (hrole : m'.role = m.role)
    (hactive : fl.active = true) (fps : List String)
    (hcovered : fl.covers rt m.body = true) :
    { fl with spanFingerprints := some fps : Floor }.covers rt m'.body =
      decide (messageFingerprint rt m'.body ∈ fps) := by
  simp only [Message.role] at hrole
  simp only [Floor.covers, hactive, Bool.not_true, Bool.false_eq_true, if_false,
    Option.all_some, hrole] at hcovered ⊢
  by_cases hmem : messageFingerprint rt m'.body ∈ fps
  · simp only [hmem, decide_true, Bool.not_true, Bool.false_eq_true, if_false]
    split at hcovered
    · cases hcovered
    · exact hcovered
  · simp [hmem]

theorem fingerprint_mem_of_covers {fl : Floor} {fps : List String} {m : Json}
    (h : { fl with spanFingerprints := some fps : Floor }.covers rt m = true) :
    messageFingerprint rt m ∈ fps := by
  by_contra hmem
  simp [Floor.covers, hmem] at h

@[simp] theorem assign_messages (after : List Message) (ctx : Ctx) :
    (assign rt after ctx).messages = after := by
  unfold assign resnapshot
  split <;> rfl

@[simp] theorem assign_tools (after : List Message) (ctx : Ctx) :
    (assign rt after ctx).tools = ctx.tools := by
  unfold assign resnapshot
  split <;> rfl

@[simp] theorem assign_active (after : List Message) (ctx : Ctx) :
    (assign rt after ctx).cacheFloor.active = ctx.cacheFloor.active := by
  unfold assign resnapshot
  split <;> rfl

theorem assign_of_active {ctx : Ctx} (hactive : ctx.cacheFloor.active = true)
    (after : List Message) : (assign rt after ctx).cacheFloor =
      { ctx.cacheFloor with
        spanFingerprints := some ((pairedSpan rt ctx.cacheFloor ctx.messages after).map fun m =>
          messageFingerprint rt m.body) } := by
  simp [assign, resnapshot, hactive]

theorem exists_before {before after : List Message} (h : InPlace before after) {m' : Message}
    (hm' : m' ∈ after) : ∃ m ∈ before, m'.reserved = m.reserved ∧ m'.role = m.role := by
  induction h with
  | nil => cases hm'
  | @cons m m₁ before after hm _ ih =>
    rcases List.mem_cons.mp hm' with rfl | hm'
    · exact ⟨m, List.mem_cons_self, hm⟩
    · obtain ⟨x, hx, hrel⟩ := ih hm'
      exact ⟨x, List.mem_cons_of_mem m hx, hrel⟩

/-- A snapshot taken over a rewrite in place covers the span again. -/
theorem tracked_assign {ctx : Ctx} (h : Tracked rt ctx) {after : List Message}
    (hinplace : InPlace ctx.messages after)
    (hapart : ∀ m ∈ after, ∀ m' ∈ after, m.reserved = true → m'.reserved = false →
      messageFingerprint rt m.body ≠ messageFingerprint rt m'.body) :
    Tracked rt (assign rt after ctx) := by
  intro hactive m' hm'
  rw [assign_active] at hactive
  rw [assign_messages] at hm'
  rw [assign_of_active hactive, pairedSpan_eq (h hactive) hinplace]
  obtain ⟨m, hm, hreserved, hrole⟩ := exists_before hinplace hm'
  cases hspan : m'.reserved with
  | true =>
    have hcovered : ctx.cacheFloor.covers rt m.body = true := by
      rw [h hactive m hm, ← hreserved, hspan]
    rw [covers_congr_role hrole hactive _ hcovered]
    refine decide_eq_true (List.mem_map_of_mem (List.mem_filter.mpr ⟨hm', hspan⟩))
  | false =>
    refine Bool.eq_false_iff.mpr fun hcovered => ?_
    obtain ⟨x, hx, hsame⟩ := List.mem_map.mp (fingerprint_mem_of_covers hcovered)
    obtain ⟨hx, hxspan⟩ := List.mem_filter.mp hx
    exact hapart x hx m' hm' hxspan hspan hsame

/-- The invariant looks at the messages and at the reservation only. -/
theorem tracked_congr {ctx ctx' : Ctx} (hmessages : ctx'.messages = ctx.messages)
    (hfloor : ctx'.cacheFloor = ctx.cacheFloor) (h : Tracked rt ctx) : Tracked rt ctx' := by
  intro hactive m hm
  rw [hfloor] at hactive ⊢
  rw [hmessages] at hm
  exact h hactive m hm

/-! ## 8. One stage -/

/-- The answer leaves the request as it is, up to the mark. -/
theorem allowsShrink_ctx (ctx : Ctx) (before after : Nat) (canFloor : Bool) :
    (allowsShrink ctx before after canFloor).2 = ctx ∨
      (allowsShrink ctx before after canFloor).2 =
        { ctx with cacheFloorStaleSnapshot := true } := by
  unfold allowsShrink
  dsimp only
  split
  · exact Or.inl rfl
  · split
    · exact Or.inr rfl
    · exact Or.inl rfl

@[simp] theorem allowsShrink_messages (ctx : Ctx) (before after : Nat) (canFloor : Bool) :
    (allowsShrink ctx before after canFloor).2.messages = ctx.messages := by
  rcases allowsShrink_ctx ctx before after canFloor with h | h <;> rw [h]

@[simp] theorem allowsShrink_tools (ctx : Ctx) (before after : Nat) (canFloor : Bool) :
    (allowsShrink ctx before after canFloor).2.tools = ctx.tools := by
  rcases allowsShrink_ctx ctx before after canFloor with h | h <;> rw [h]

@[simp] theorem allowsShrink_cacheFloor (ctx : Ctx) (before after : Nat) (canFloor : Bool) :
    (allowsShrink ctx before after canFloor).2.cacheFloor = ctx.cacheFloor := by
  rcases allowsShrink_ctx ctx before after canFloor with h | h <;> rw [h]

/-- A shrink that is allowed is cheaper. -/
theorem cheaper_of_allowsShrink {ctx : Ctx} (hactive : ctx.cacheFloor.active = true)
    {before after : Nat} {canFloor : Bool} (h : (allowsShrink ctx before after canFloor).1 = true) :
    ctx.cacheFloor.cheaper before after canFloor = true := by
  simp only [allowsShrink, hactive, Bool.not_true, Bool.false_eq_true, if_false] at h
  split at h
  · cases h
  · exact h

theorem rewrite_cons (text : Option String) (new : List (Option String)) (m : Message)
    (messages : List Message) : rewrite (text :: new) (m :: messages) =
      (match text with
        | some text => m.withContent text
        | none => m) :: rewrite new messages := rfl

/-- Every message after a rewrite is a message of before or has one of the new texts. -/
theorem mem_rewrite {new : List (Option String)} {messages : List Message} {m' : Message}
    (h : m' ∈ rewrite new messages) :
    ∃ m ∈ messages, m' = m ∨ ∃ text, some text ∈ new ∧ m' = m.withContent text := by
  induction messages generalizing new with
  | nil =>
    cases new with
    | nil => cases h
    | cons _ _ => cases h
  | cons m messages ih =>
    cases new with
    | nil => exact ⟨m', h, Or.inl rfl⟩
    | cons text new =>
      rcases List.mem_cons.mp h with rfl | h
      · cases text with
        | none => exact ⟨m, List.mem_cons_self, Or.inl rfl⟩
        | some text =>
          exact ⟨m, List.mem_cons_self, Or.inr ⟨text, List.mem_cons_self, rfl⟩⟩
      · obtain ⟨x, hx, hcase⟩ := ih h
        refine ⟨x, List.mem_cons_of_mem m hx, hcase.imp_right ?_⟩
        rintro ⟨t, ht, heq⟩
        exact ⟨t, List.mem_cons_of_mem text ht, heq⟩

/-- Holding the span back leaves it as it is. -/
theorem filter_rewrite_holdBack {fl : Floor} (stale : Bool) (new : List (Option String))
    {messages : List Message} (hcovers : ∀ m ∈ messages, fl.covers rt m.body = m.reserved) :
    (rewrite (holdBack rt fl stale new messages) messages).filter Message.reserved =
      messages.filter Message.reserved := by
  induction messages generalizing new with
  | nil => cases new <;> rfl
  | cons m messages ih =>
    cases new with
    | nil => rfl
    | cons text new =>
      have htail := ih new fun x hx => hcovers x (List.mem_cons_of_mem m hx)
      have hhead := hcovers m List.mem_cons_self
      simp only [holdBack] at htail ⊢
      rw [List.zipWith_cons_cons, rewrite_cons, List.filter_cons, List.filter_cons, htail, hhead]
      by_cases hspan : m.reserved = true
      · simp [hspan]
      · cases hstale : stale with
        | true => simp
        | false => cases text <;> simp [hspan]

/-- The texts of a rewrite that may be made anew at a milder rate are the stage's own. -/
theorem mem_floorSpan {fl : Floor} {rate : Option ℚ} {new : List (Option String)}
    {messages : List Message} {m' : Message}
    (h : m' ∈ rewrite (floorSpan rt fl rate new messages) messages) :
    ∃ m ∈ messages, m' = m ∨ ∃ text, (some text ∈ new ∨ milderText rt rate m = some text) ∧
      m' = m.withContent text := by
  induction messages generalizing new with
  | nil => cases new <;> cases h
  | cons m messages ih =>
    cases new with
    | nil => exact ⟨m', h, Or.inl rfl⟩
    | cons text new =>
      simp only [floorSpan] at h ih
      rw [List.zipWith_cons_cons, rewrite_cons] at h
      rcases List.mem_cons.mp h with h | h
      · refine ⟨m, List.mem_cons_self, ?_⟩
        by_cases hspan : fl.covers rt m.body = true
        · rw [if_pos hspan] at h
          cases text with
          | none => exact Or.inl h
          | some text =>
            cases hmilder : milderText rt rate m with
            | none =>
              rw [Option.bind_some, hmilder] at h
              exact Or.inl h
            | some milder =>
              rw [Option.bind_some, hmilder] at h
              exact Or.inr ⟨milder, Or.inr rfl, h⟩
        · rw [if_neg hspan] at h
          cases text with
          | none => exact Or.inl h
          | some text => exact Or.inr ⟨text, Or.inl List.mem_cons_self, h⟩
      · obtain ⟨x, hx, hcase⟩ := ih h
        refine ⟨x, List.mem_cons_of_mem m hx, hcase.imp_right ?_⟩
        rintro ⟨t, ht, heq⟩
        exact ⟨t, ht.imp_left (List.mem_cons_of_mem text), heq⟩

theorem mem_of_mem_holdBack {fl : Floor} {stale : Bool} {new : List (Option String)}
    {messages : List Message} {text : String}
    (h : some text ∈ holdBack rt fl stale new messages) : some text ∈ new := by
  obtain ⟨i, hi, hget⟩ := List.mem_iff_getElem.mp h
  simp only [holdBack, List.getElem_zipWith] at hget
  split at hget
  · cases hget
  · exact hget ▸ List.getElem_mem _

theorem mem_of_mem_templateContents {optimised text : String} {messages : List Message}
    (h : some text ∈ templateContents optimised messages) : text = optimised := by
  induction messages with
  | nil => cases h
  | cons m messages ih =>
    rw [templateContents] at h
    split at h
    · split at h
      · split at h
        · exact Option.some.inj (List.mem_singleton.mp h)
        · cases h
      · cases h
    · rcases List.mem_cons.mp h with h | h
      · cases h
      · exact ih h

theorem mem_insertBeforeLastUser {inserted m : Message} {messages : List Message}
    (h : m ∈ insertBeforeLastUser inserted messages) : m = inserted ∨ m ∈ messages := by
  induction messages with
  | nil => exact Or.inl (List.mem_singleton.mp h)
  | cons x messages ih =>
    rw [insertBeforeLastUser] at h
    split at h
    · rcases List.mem_cons.mp h with rfl | h
      · exact Or.inr List.mem_cons_self
      · exact (ih h).imp_right (List.mem_cons_of_mem x)
    · split at h
      · rcases List.mem_cons.mp h with rfl | h
        · exact Or.inl rfl
        · exact Or.inr h
      · rcases List.mem_cons.mp h with rfl | h
        · exact Or.inr List.mem_cons_self
        · exact (ih h).imp_right (List.mem_cons_of_mem x)

@[simp] theorem composeLayer_reserved (enabled : Bool) (m : Message) :
    (composeLayer rt enabled m).reserved = m.reserved := by
  unfold composeLayer
  split
  · rfl
  · dsimp only
    split
    · split <;> rfl
    · rfl

section

variable {ctx : Ctx}

theorem milderText_eq_some {rate : Option ℚ} {m : Message} {text : String}
    (h : milderText rt rate m = some text) :
    ∃ original rate, m.content = .str original ∧ rt.callLlmlingua original rate = some text := by
  unfold milderText at h
  split at h
  · rename_i original rate heq
    exact ⟨original, rate, heq, (Option.filter_eq_some_iff.mp h).1⟩
  · cases h

/-- The snapshot of a rewrite depends on the messages and the reservation before it only. -/
theorem assign_congr {ctx' : Ctx} (hmessages : ctx'.messages = ctx.messages)
    (hfloor : ctx'.cacheFloor = ctx.cacheFloor) (after : List Message) :
    (assign rt after ctx').cacheFloor = (assign rt after ctx).cacheFloor := by
  simp only [assign, resnapshot, hmessages, hfloor]
  split <;> rfl

/-- What a stage with a snapshot leaves: the messages as they were, or versions of them in
    their places and the snapshot of these. -/
def Leaves (rt : Runtime) (ctx : Ctx) (s : Step) (out : Ctx) : Prop :=
  (out.messages = ctx.messages ∧ out.cacheFloor = ctx.cacheFloor) ∨
    ∃ after, InPlace ctx.messages after ∧ (∀ m' ∈ after, Version rt ctx s m') ∧
      out.messages = after ∧ out.cacheFloor = (assign rt after ctx).cacheFloor

theorem leaves_assign {s : Step} {ctx' : Ctx} (hmessages : ctx'.messages = ctx.messages)
    (hfloor : ctx'.cacheFloor = ctx.cacheFloor) (new : List (Option String))
    (hversions : ∀ m' ∈ rewrite new ctx.messages, Version rt ctx s m') :
    Leaves rt ctx s (assign rt (rewrite new ctx.messages) ctx') :=
  Or.inr ⟨_, inPlace_rewrite new ctx.messages, hversions, assign_messages _ _,
    assign_congr hmessages hfloor _⟩

/-- The versions of a rewrite with texts that the stage offers. -/
theorem versions_of_rewrite {s : Step} {new : List (Option String)}
    (hoffers : ∀ m ∈ ctx.messages, ∀ text, some text ∈ new → s.offers rt m text) :
    ∀ m' ∈ rewrite new ctx.messages, Version rt ctx s m' := by
  intro m' hm'
  obtain ⟨m, hm, hcase⟩ := mem_rewrite hm'
  refine ⟨m, hm, hcase.imp_right ?_⟩
  rintro ⟨text, htext, heq⟩
  exact ⟨text, hoffers m hm text htext, heq⟩

theorem tracked_of_leaves (h : Tracked rt ctx) {s : Step} {out : Ctx} (hout : Leaves rt ctx s out)
    (hapart : ∀ m m', Version rt ctx s m → Version rt ctx s m' → m.reserved = true →
      m'.reserved = false → messageFingerprint rt m.body ≠ messageFingerprint rt m'.body) :
    Tracked rt out := by
  rcases hout with ⟨hmessages, hfloor⟩ | ⟨after, hinplace, hversions, hmessages, hfloor⟩
  · exact tracked_congr hmessages hfloor h
  · refine tracked_congr ?_ hfloor (tracked_assign h hinplace fun m hm m' hm' =>
      hapart m m' (hversions m hm) (hversions m' hm'))
    rw [hmessages, assign_messages]

theorem leaves_prune (new : List (Option String)) :
    Leaves rt ctx (.prune new) (prune rt new ctx).2 := by
  have hnew := @versions_of_rewrite rt ctx (.prune new) new fun _ _ _ htext => htext
  unfold prune
  split
  · exact Or.inl ⟨rfl, rfl⟩
  · split
    · exact leaves_assign rfl rfl new hnew
    · dsimp only
      split
      · exact leaves_assign (by simp) (by simp) new hnew
      · split
        · exact Or.inl ⟨by simp, by simp⟩
        · refine leaves_assign (by simp) (by simp) _ (versions_of_rewrite ?_)
          intro _ _ text htext
          exact mem_of_mem_holdBack htext

theorem leaves_compress (new : List (Option String)) :
    Leaves rt ctx (.compress new) (compress rt new ctx).2 := by
  have hnew := @versions_of_rewrite rt ctx (.compress new) new fun _ _ _ htext => Or.inl htext
  unfold compress
  split
  · exact Or.inl ⟨rfl, rfl⟩
  · split
    · exact leaves_assign rfl rfl new hnew
    · dsimp only
      split
      · exact leaves_assign (by simp) (by simp) new hnew
      · split
        · -- down to the floor, at the milder rate
          refine leaves_assign (by simp) (by simp) _ ?_
          intro m' hm'
          obtain ⟨m, hm, hcase⟩ := mem_floorSpan hm'
          refine ⟨m, hm, hcase.imp_right ?_⟩
          rintro ⟨text, htext, heq⟩
          exact ⟨text, htext.imp_right milderText_eq_some, heq⟩
        · split
          · exact leaves_assign (by simp) (by simp) new hnew
          · split
            · exact Or.inl ⟨by simp, by simp⟩
            · refine leaves_assign (by simp) (by simp) _ (versions_of_rewrite ?_)
              intro _ _ text htext
              exact Or.inl (mem_of_mem_holdBack htext)

theorem leaves_swapTemplate (optimised : Option String) :
    Leaves rt ctx (.swapTemplate optimised) (swapTemplate rt optimised ctx) := by
  cases optimised with
  | none => exact Or.inl ⟨rfl, rfl⟩
  | some text =>
    simp only [swapTemplate]
    split
    · refine leaves_assign rfl rfl _ (versions_of_rewrite ?_)
      intro _ _ t ht
      exact congrArg some (mem_of_mem_templateContents ht).symm
    · exact Or.inl ⟨rfl, rfl⟩

theorem leaves_substitute (new : List (Option String)) (fewer : Bool) (tools : Option Json) :
    Leaves rt ctx (.substitute new fewer tools) (substitute rt new fewer tools ctx) := by
  have hnew := @versions_of_rewrite rt ctx (.substitute new fewer tools) new
    fun _ _ _ htext => htext
  cases fewer with
  | false => exact Or.inl ⟨rfl, rfl⟩
  | true => exact leaves_assign rfl rfl new hnew

/-- **One step**: an admissible stage keeps the snapshot on the span. -/
theorem tracked_step (h : Tracked rt ctx) {s : Step} (hok : Admissible rt ctx s) :
    Tracked rt (s.apply rt ctx).2 := by
  cases s with
  | composeLayers enabled =>
    intro _ m' hm'
    obtain ⟨m, hm, rfl⟩ := List.mem_map.mp hm'
    rw [composeLayer_reserved]
    exact hok m hm
  | compress new => exact tracked_of_leaves h (leaves_compress new) hok
  | swapTemplate optimised => exact tracked_of_leaves h (leaves_swapTemplate optimised) hok
  | injectContext context =>
    intro hactive m' hm'
    rcases mem_insertBeforeLastUser hm' with rfl | hm'
    · exact hok
    · exact h hactive m' hm'
  | trimTools relevant trimmed =>
    refine tracked_congr ?_ ?_ h
    · simp only [Step.apply, trimTools]
      split
      · rfl
      · split
        · rfl
        · split <;> simp
    · simp only [Step.apply, trimTools]
      split
      · rfl
      · split
        · rfl
        · split <;> simp
  | substitute new fewer tools => exact tracked_of_leaves h (leaves_substitute new fewer tools) hok
  | prune new => exact tracked_of_leaves h (leaves_prune new) hok
  | rearrange pieces =>
    intro _ m' hm'
    obtain ⟨piece, hpiece, hplace⟩ := List.mem_filterMap.mp hm'
    exact hok piece hpiece m' hplace

/-! ## 9. What a consumer decides -/

/-- The ways a stage that asks the floor may end. -/
def Decided (rt : Runtime) (ctx : Ctx) (out : Verdict × Ctx) : Prop :=
  (out.1 = .taken ∧ ∃ canFloor, ctx.cacheFloor.cheaper (descendedTokens rt ctx)
      (descendedTokens rt out.2) canFloor = true) ∨
    (out.1 = .floored ∧ ctx.cacheFloor.floor ≤ descendedTokens rt out.2) ∨
    (out.2.messages.filter Message.reserved = ctx.messages.filter Message.reserved ∧
      out.2.tools = ctx.tools)

theorem upheld_of_decided (h : Tracked rt ctx) (hactive : ctx.cacheFloor.active = true) {s : Step}
    (hdecided : Decided rt ctx (s.apply rt ctx)) : Upheld rt ctx s where
  measured := spanTokens_eq h hactive
  paired _ hinplace := spanTokensPaired_eq h hactive hinplace
  floored := by
    intro hbefore hafter
    rcases hdecided with ⟨-, hcheaper⟩ | ⟨-, hfloored⟩ | ⟨hspan, htools⟩
    · exact hcheaper
    · omega
    · have hsame : descendedTokens rt (s.apply rt ctx).2 = descendedTokens rt ctx := by
        simp only [descendedTokens, hspan, htools]
      omega
  refused := by
    intro hrefused
    rcases hdecided with ⟨htaken, -⟩ | ⟨hfloored, -⟩ | hkept
    · rw [htaken] at hrefused
      cases hrefused
    · rw [hfloored] at hrefused
      cases hrefused
    · exact hkept

theorem descendedTokens_assign {ctx' : Ctx} (htools : ctx'.tools = ctx.tools)
    (after : List Message) : descendedTokens rt (assign rt after ctx') =
      descendedTokens rt { ctx with messages := after } := by
  simp [descendedTokens, htools]

theorem decided_prune (h : Tracked rt ctx) (hactive : ctx.cacheFloor.active = true)
    (new : List (Option String)) : Decided rt ctx (prune rt new ctx) := by
  have hpaired := spanTokensPaired_eq h hactive (inPlace_rewrite new ctx.messages)
  unfold prune
  rw [spanTokens_eq h hactive]
  simp only [hpaired]
  split
  · exact Or.inr (Or.inr ⟨rfl, rfl⟩)
  · rw [if_neg (by simp [hactive])]
    split
    · rename_i hallowed
      refine Or.inl ⟨rfl, false, ?_⟩
      rw [@descendedTokens_assign rt ctx _ (by simp)]
      exact cheaper_of_allowsShrink hactive hallowed
    · refine Or.inr (Or.inr ?_)
      split
      · exact ⟨by simp, by simp⟩
      · rw [assign_messages, assign_tools]
        exact ⟨filter_rewrite_holdBack _ new (h hactive), by simp⟩

theorem decided_compress (h : Tracked rt ctx) (hactive : ctx.cacheFloor.active = true)
    (new : List (Option String)) : Decided rt ctx (compress rt new ctx) := by
  have hpaired : ∀ contents, spanTokensPaired rt ctx (rewrite contents ctx.messages) =
      descendedTokens rt { ctx with messages := rewrite contents ctx.messages } :=
    fun contents => spanTokensPaired_eq h hactive (inPlace_rewrite contents ctx.messages)
  unfold compress
  rw [spanTokens_eq h hactive]
  simp only [hpaired]
  split
  · exact Or.inr (Or.inr ⟨rfl, rfl⟩)
  · rw [if_neg (by simp [hactive])]
    split
    · rename_i hallowed
      refine Or.inl ⟨rfl, true, ?_⟩
      rw [@descendedTokens_assign rt ctx _ (by simp)]
      exact cheaper_of_allowsShrink hactive hallowed
    · split
      · -- landed on the floor
        rename_i hlanded
        rw [Bool.and_eq_true, decide_eq_true_eq] at hlanded
        refine Or.inr (Or.inl ⟨rfl, ?_⟩)
        rw [@descendedTokens_assign rt ctx _ (by simp)]
        exact hlanded.2
      · split
        · rename_i hallowed
          refine Or.inl ⟨rfl, false, ?_⟩
          rw [@descendedTokens_assign rt ctx _ (by simp)]
          have hcheaper := cheaper_of_allowsShrink (by simpa using hactive) hallowed
          simpa using hcheaper
        · refine Or.inr (Or.inr ?_)
          split
          · exact ⟨by simp, by simp⟩
          · rw [assign_messages, assign_tools]
            exact ⟨filter_rewrite_holdBack _ new (h hactive), by simp⟩

theorem decided_trimTools (h : Tracked rt ctx) (hactive : ctx.cacheFloor.active = true)
    (relevant : Json) (trimmed : Bool) : Decided rt ctx (trimTools rt relevant trimmed ctx) := by
  have hafter : spanTokens rt { ctx with tools := relevant } =
      descendedTokens rt { ctx with tools := relevant } :=
    spanTokens_eq (tracked_congr rfl rfl h) hactive
  unfold trimTools
  rw [spanTokens_eq h hactive, hafter]
  split
  · exact Or.inr (Or.inr ⟨rfl, rfl⟩)
  · rw [if_neg (by simp [hactive])]
    dsimp only
    split
    · rename_i hallowed
      refine Or.inl ⟨rfl, false, ?_⟩
      have hsame : descendedTokens rt { (allowsShrink ctx (descendedTokens rt ctx)
          (descendedTokens rt { ctx with tools := relevant }) false).2 with tools := relevant } =
          descendedTokens rt { ctx with tools := relevant } := by
        simp only [descendedTokens, allowsShrink_messages]
      rw [hsame]
      exact cheaper_of_allowsShrink hactive hallowed
    · exact Or.inr (Or.inr ⟨by simp, by simp⟩)

/-- Where the snapshot is on the span, the floor is upheld at every stage that asks it. -/
theorem upheld_of_tracked (h : Tracked rt ctx) {s : Step} (hactive : ctx.cacheFloor.active = true)
    (hconsumes : s.consumes = true) : Upheld rt ctx s := by
  refine upheld_of_decided h hactive ?_
  cases s with
  | compress new => exact decided_compress h hactive new
  | trimTools relevant trimmed => exact decided_trimTools h hactive relevant trimmed
  | prune new => exact decided_prune h hactive new
  | _ => cases hconsumes

end

/-! ## 10. Whole runs -/

/-- The messages that the adapter picks can be told from the others. -/
def SpanDistinct (rt : Runtime) (adapter : Adapter) (messages : List Json) : Prop :=
  ∀ body ∈ messages, ∀ body' ∈ messages, adapter.span.inSpan rt body = true →
    adapter.span.inSpan rt body' = false →
    messageFingerprint rt body ≠ messageFingerprint rt body'

/-- A message of the span is covered by what `reserve` notes about the span. -/
theorem covers_of_inSpan {rule : SpanRule} {messages : List Json} {body : Json}
    (hmem : body ∈ messages) (hin : rule.inSpan rt body = true) {fl : Floor}
    (hactive : fl.active = true) {span : List Message}
    (hspan : span = (messages.map fun body =>
      { body, reserved := rule.inSpan rt body : Message }).filter Message.reserved)
    (hroles : fl.spanRoles = span.map fun m => rt.text (m.body.getD "role" (.str "")))
    (hfps : fl.spanFingerprints = some (span.map fun m => messageFingerprint rt m.body))
    (hwhole : fl.spanIsWholePrompt = decide (span.length = messages.length)) :
    fl.covers rt body = true := by
  have hmarked : { body, reserved := true : Message } ∈ span := by
    rw [hspan]
    refine List.mem_filter.mpr ⟨?_, rfl⟩
    exact List.mem_map.mpr ⟨body, hmem, by rw [hin]⟩
  have hfp : messageFingerprint rt body ∈ span.map fun m => messageFingerprint rt m.body :=
    List.mem_map.mpr ⟨_, hmarked, rfl⟩
  simp only [Floor.covers, hactive, Bool.not_true, Bool.false_eq_true, if_false, hfps,
    Option.all_some, hfp, decide_true]
  cases rule with
  | wholePrompt =>
    have hlength : span.length = messages.length := by
      rw [hspan, List.filter_eq_self.mpr, List.length_map]
      intro m hm
      obtain ⟨x, -, rfl⟩ := List.mem_map.mp hm
      rfl
    simp [hwhole, hlength]
  | markedSystem marker =>
    simp only [SpanRule.inSpan, Bool.and_eq_true, decide_eq_true_eq] at hin
    have hrole : body.getD "role" (.str "") = .str "system" := by
      have hget := hin.1.2
      rw [Json.getD] at hget ⊢
      cases hrole : body.get? "role" with
      | none => rw [hrole] at hget; cases hget
      | some role => rw [hrole] at hget; exact hget
    have hsystem : "system" ∈ fl.spanRoles := by
      rw [hroles]
      refine List.mem_map.mpr ⟨_, hmarked, ?_⟩
      rw [hrole]
      rfl
    split
    · rfl
    · rw [hin.1.2]
      exact decide_eq_true hsystem

/-- **The reservation** covers what it was taken over. -/
theorem tracked_reserve (adapter : Adapter) (margin : ℚ) (assumed : Nat) (observed : Option Nat)
    {messages : List Json} (tools : Json) (hdistinct : SpanDistinct rt adapter messages) :
    Tracked rt (reserve rt adapter margin assumed observed messages tools) := by
  intro hactive m hm
  simp only [reserve] at hactive hm ⊢
  split at hactive
  · cases hactive
  · rename_i hmin
    rw [if_neg hmin] at hm ⊢
    split at hactive
    · cases hactive
    · rename_i hspan
      rw [if_neg hspan] at hm ⊢
      split at hactive
      · cases hactive
      · rename_i htokens
        rw [if_neg htokens] at hm ⊢
        cases observed with
        | none => cases hactive
        | some seen =>
          obtain ⟨body, hbody, rfl⟩ := List.mem_map.mp hm
          dsimp only
          cases hin : adapter.span.inSpan rt body with
          | true => exact covers_of_inSpan hbody hin rfl rfl rfl rfl rfl
          | false =>
            refine Bool.eq_false_iff.mpr fun hcovered => ?_
            have hfp : messageFingerprint rt body ∈ ((messages.map fun body =>
                { body, reserved := adapter.span.inSpan rt body : Message }).filter
                  Message.reserved).map fun m => messageFingerprint rt m.body := by
              by_contra hnot
              simp [Floor.covers, hnot] at hcovered
            obtain ⟨x, hx, hsame⟩ := List.mem_map.mp hfp
            obtain ⟨hx, hxspan⟩ := List.mem_filter.mp hx
            obtain ⟨body', hbody', rfl⟩ := List.mem_map.mp hx
            exact hdistinct body' hbody' body hbody hxspan hin hsame

/-- **The floor is upheld** at every stage that asks it, in every run of admissible stages. -/
theorem floor_upheld (adapter : Adapter) (margin : ℚ) (assumed : Nat) (observed : Option Nat)
    {messages : List Json} (tools : Json) (hdistinct : SpanDistinct rt adapter messages)
    {steps : List Step}
    (hok : Execution.AllSteps (step rt) (Admissible rt)
      (reserve rt adapter margin assumed observed messages tools) steps) :
    FloorUpheld rt (reserve rt adapter margin assumed observed messages tools) steps := by
  have htracked := Execution.always_of_allSteps
    (fun ctx s ctx' h hs hstep => Option.some.inj hstep ▸ tracked_step h hs)
    (tracked_reserve adapter margin assumed observed tools hdistinct) hok
  exact Execution.allSteps_of_always
    (fun _ _ h hactive hconsumes => upheld_of_tracked h hactive hconsumes) htracked

/-! ## 11. A composed system prompt, and tools -/

namespace Composed

def runtime : Runtime where
  sha256 := id
  strOf _ := ""
  messageTokens body :=
    match body.getD "content" .null with
    | .str s => s.length
    | _ => 0
  toolsTokens _ := 3
  compose _ := "Be brief and kind."
  callLlmlingua _ _ := none
  isFaithfulCompression _ _ := true
  round4 := id
  lstrip := id

def adapter : Adapter where
  minCacheablePromptTokens := 10
  span := .wholePrompt
  readMult := 1 / 10
  writeMult := 5 / 4

def messages : List Json :=
  [.obj [("role", .str "system"), ("content", .str "Help the customer."),
    ("layer_context", .obj [])]]

/-- The request after 29 sightings of its span. -/
def start : Ctx := reserve runtime adapter (5 / 100) 1 (some 29) messages (.arr [.obj []])

theorem messages_distinct : SpanDistinct runtime adapter messages := by
  intro _ _ _ _ _ hout
  cases hout

theorem dearer (canFloor : Bool) :
    compressIsCheaper 21 5 10 (1 / 10) (5 / 4) 30 canFloor = false := by
  cases canFloor with
  | false => norm_num [compressIsCheaper]
  | true => norm_num [compressIsCheaper]

end Composed

theorem floor_upheld_without_layers :
    FloorUpheld Composed.runtime Composed.start [.composeLayers false, .prune [some "Be"]] := by
  refine floor_upheld Composed.adapter (5 / 100) 1 (some 29) (.arr [.obj []])
    Composed.messages_distinct ?_
  refine Execution.allSteps_cons rfl ?_ (Execution.allSteps_cons rfl ?_ trivial)
  · intro m hm
    rcases List.mem_singleton.mp hm with rfl
    decide
  · rintro m m' - ⟨x, hx, hcase⟩ - hout
    rcases List.mem_singleton.mp hx with rfl
    rcases hcase with rfl | ⟨text, -, rfl⟩
    · cases hout
    · cases hout

/-- The composed prompt is out of the snapshot and the tools alone are measured: G19 takes the
    span from 21 tokens to 5, under a floor of 10, which is not cheaper. -/
theorem composed_not_upheld :
    let composed := ((Step.composeLayers true).apply Composed.runtime Composed.start).2
    let pruned := (Step.prune [some "Be"]).apply Composed.runtime composed
    spanTokens Composed.runtime composed = 3 ∧ descendedTokens Composed.runtime composed = 21 ∧
      pruned.1 = .taken ∧ descendedTokens Composed.runtime pruned.2 = 5 ∧
      ¬ FloorUpheld Composed.runtime Composed.start
        [.composeLayers true, .prune [some "Be"]] := by
  have hbefore : descendedTokens Composed.runtime
      ((Step.composeLayers true).apply Composed.runtime Composed.start).2 = 21 := by decide
  have hafter : descendedTokens Composed.runtime ((Step.prune [some "Be"]).apply Composed.runtime
      ((Step.composeLayers true).apply Composed.runtime Composed.start).2).2 = 5 := by decide
  refine ⟨by decide, hbefore, by decide, hafter, ?_⟩
  intro h
  obtain ⟨-, hrest⟩ := h _ rfl
  obtain ⟨hprune, -⟩ := hrest _ rfl
  obtain ⟨canFloor, hcheaper⟩ := (hprune rfl rfl).floored (by decide) (by decide)
  rw [hbefore, hafter] at hcheaper
  have hdearer := Composed.dearer canFloor
  exact absurd hcheaper (Bool.eq_false_iff.mp hdearer)

end TokenProxy.CacheFloor
