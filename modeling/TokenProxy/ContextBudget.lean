/-
  TokenProxy/ContextBudget.lean
  =============================
  **Cutting a conversation down** (`middleware/history_utils.py`,
  `middleware/g26_context_budget.py`, `_apply_sliding_window` of `g10_memory.py`).

  G26 takes the span before the recent turns down a ladder of rungs; each rung is a
  function on the span, and its lemma says what is left of the span's exchanges
  (`Shrinks`).  What the rungs call outside this file (the token counter, the prose
  compressor, the JSON codec) is in `Collaborators`, with no assumption on any of it.

  Main result: `cuts_keep_pairs`, after G26's compaction and after G10's sliding window the
  tool messages are paired, and what is kept is kept with all its answers.
-/
import TokenProxy.KeyStore
import TokenProxy.ToolExchanges
import Mathlib.Algebra.Order.Ring.Unbundled.Rat

namespace TokenProxy.History

/-! ## 1. The window -/

/-- The loop of `safe_window_split`: back over a leading run of tool results. -/
def snapBack (turns : List Msg) : Nat → Nat
  | 0 => 0
  | start + 1 =>
    match turns[start + 1]? with
    | some m => if m.isTool then snapBack turns start else start + 1
    | none => start + 1

def safeWindowSplit (turns : List Msg) (keep : Int) : Nat :=
  if keep ≤ 0 then 0 else snapBack turns (turns.length - keep.toNat)

theorem snapBack_spec (turns : List Msg) (start : Nat) :
    snapBack turns start = 0 ∨ ∀ m, turns[snapBack turns start]? = some m → m.isTool = false := by
  induction start with
  | zero => exact Or.inl rfl
  | succ start ih =>
    rw [snapBack]
    cases hget : turns[start + 1]? with
    | none => simp [hget]
    | some m =>
      by_cases htool : m.isTool = true
      · simpa [htool] using ih
      · simp only [htool, Bool.false_eq_true, if_false, hget, Option.some.injEq]
        right
        rintro _ rfl
        simpa using htool

/-- The tail behind a cut starts with no tool message. -/
theorem safeWindowSplit_spec {turns : List Msg} {keep : Int} (h : safeWindowSplit turns keep ≠ 0) :
    ∀ m ∈ (turns.drop (safeWindowSplit turns keep)).head?, m.isTool = false := by
  rw [safeWindowSplit] at h ⊢
  split at h
  · exact absurd rfl h
  · next hkeep =>
    rw [if_neg hkeep]
    intro m hm
    rw [List.head?_drop] at hm
    exact (snapBack_spec turns _).resolve_left h m hm

/-- So a cut takes no exchange apart. -/
theorem exchanges_cut {turns : List Msg} {keep : Int} (h : safeWindowSplit turns keep ≠ 0) :
    exchanges turns = exchanges (turns.take (safeWindowSplit turns keep)) ++
      exchanges (turns.drop (safeWindowSplit turns keep)) := by
  have hsplit := List.splitBy_append (r := fun _ next => Msg.isTool next)
    (l := turns.take (safeWindowSplit turns keep)) (m := turns.drop (safeWindowSplit turns keep))
    fun _ _ m hm => safeWindowSplit_spec h m hm
  rwa [List.take_append_drop] at hsplit

/-! ## 2. The rungs -/

/-- What the rungs call elsewhere. -/
structure Collaborators where
  /-- `count_messages_tokens`; `none` where it raises -/
  countMessages : List Msg → Option Int
  compressText : String → String
  /-- whether `json.loads` accepts a text -/
  parses : String → Bool
  /-- `json.dumps(msg, sort_keys=True)` -/
  dumps : Msg → String
  /-- `str(value)` -/
  strOf : Json → String

variable (env : Collaborators)

def spanTokens (span : List Msg) : Option Int :=
  if span = [] then some 0 else env.countMessages span

def isDedupable (m : Msg) (minChars : Int) : Bool :=
  match m.get "content" with
  | .str s => decide (minChars ≤ s.length)
  | .arr parts =>
    let sizes := parts.map fun p =>
      if p.isObj && p.getD "type" .null = .str "text" then
        (env.strOf (p.getD "text" (.str ""))).length
      else 0
    decide (minChars ≤ (sizes.foldl (· + ·) 0 : Nat))
  | _ => false

def pairsTool (m : Msg) : Bool := (m.get "tool_calls").truthy || (m.get "tool_call_id").truthy

/-- A stale tool result, cut to the length that is kept. -/
def truncateResult (maxToolChars : Int) (m : Msg) : Msg × Bool :=
  match m.get "content" with
  | .str s =>
    if m.isTool && 0 < maxToolChars && maxToolChars < s.length then
      (m.set "content" (.str (.ofList (s.toList.take maxToolChars.toNat) ++ "\n…[truncated]")), true)
    else (m, false)
  | _ => (m, false)

/-- Dropping a message would leave two of one role in a row. -/
def welds (last next : Option Msg) : Bool :=
  match last, next with
  | some a, some b => !b.fields.isEmpty && (a.get "role").pyEq (b.get "role")
  | _, _ => false

/-- `_rung_prune`, with the last message put out and the signatures seen. -/
def rungPrune (maxToolChars minChars : Int) : Option Msg → List String → List Msg → List Msg × Bool
  | _, _, [] => ([], false)
  | last, seen, m :: rest =>
    let repeatable := !pairsTool m && isDedupable env m minChars
    if repeatable && env.dumps m ∈ seen && !welds last rest.head? then
      ((rungPrune maxToolChars minChars last seen rest).1, true)
    else
      let (out, truncated) := truncateResult maxToolChars m
      let seen := if repeatable then env.dumps m :: seen else seen
      let (outs, changed) := rungPrune maxToolChars minChars (some out) seen rest
      (out :: outs, truncated || changed)

def compressPart (part : Json) : Json × Bool :=
  match part.get? "text" with
  | some (.str text) =>
    let out := env.compressText text
    if part.getD "type" .null = .str "text" && out.length < text.length then
      (part.set "text" (.str out), true)
    else (part, false)
  | _ => (part, false)

def compressContent (content : Json) : Json × Bool :=
  match content with
  | .str text =>
    let out := env.compressText text
    if out.length < text.length then (.str out, true) else (content, false)
  | .arr parts =>
    let outs := parts.map (compressPart env)
    if outs.any Prod.snd then (.arr (outs.map Prod.fst), true) else (content, false)
  | _ => (content, false)

def looksStructured (text : String) : Bool :=
  match (text.toList.dropWhile KeyStore.isSpace).head? with
  | some c => (c = '{' || c = '[') && env.parses text
  | none => false

def isCompressible (m : Msg) : Bool :=
  if m.isTool || (m.get "tool_call_id").truthy then false
  else
    match m.get "content" with
    | .str text => !looksStructured env text
    | _ => true

def compressMsg (m : Msg) : Msg × Bool :=
  if isCompressible env m then
    let (content, did) := compressContent env (m.get "content")
    if did then (m.set "content" content, true) else (m, false)
  else (m, false)

def rungCompress (span : List Msg) : List Msg × Bool :=
  let outs := span.map (compressMsg env)
  (outs.map Prod.fst, outs.any Prod.snd)

/-- `_rung_drop`, in the inner loop or the outer one: what is left of the span, the count, and
    the number of messages dropped. -/
def rungDrop (target : ℚ) : Bool → List Msg → Int → Option (List Msg × Int × Nat)
  | _, [], current => some ([], current, 0)
  | inner, m :: rest, current =>
    if (inner && m.isTool) || decide (target < current) then do
      let tokens ← env.countMessages [m]
      let (span, current, dropped) ← rungDrop target true rest (current - tokens)
      some (span, current, dropped + 1)
    else some (m :: rest, current, 0)

/-! ## 3. The compaction -/

/-- G26's settings for a request. -/
structure BudgetConfig where
  /-- the context window less the output reservation -/
  usable : Int
  compactAtPct : ℚ := 85
  targetPct : ℚ := 60
  keepRecentTurns : Int := 6
  prune : Bool := true
  compress : Bool := true
  summarize : Bool := true
  drop : Bool := false
  toolResultMaxChars : Int := 4000
  pruneMinChars : Int := 200

/-- `_resolve_thresholds`: the target is clamped below the trigger. -/
def resolveThresholds (cfg : BudgetConfig) : ℚ × ℚ :=
  let compactAt := min 99 (max 10 (if cfg.compactAtPct = 0 then 85 else cfg.compactAtPct))
  let target := if cfg.targetPct = 0 then 60 else cfg.targetPct
  let target := if compactAt ≤ target then max 1 (compactAt - 10) else target
  (compactAt, max 1 target)

def summaryMarker : String := "[Conversation summary — earlier turns]"

def summaryUnavailable : String := "[summary unavailable]"

def summaryMsg (summary : String) : Msg :=
  ⟨[("role", .str "system"), ("content", .str (summaryMarker ++ "\n" ++ summary))]⟩

structure Ladder where
  span : List Msg
  current : Int
  applied : List String := []
  summary : Option Msg := none

/-- The rungs, each taken while the count is over the target; `fixed` is what G26 never
    touches. -/
def Ladder.prune (cfg : BudgetConfig) (target : ℚ) (fixed : Int) (l : Ladder) : Option Ladder :=
  if cfg.prune && decide (target < l.current) then do
    let (span, changed) := rungPrune env cfg.toolResultMaxChars cfg.pruneMinChars none [] l.span
    if changed then do
      let tokens ← spanTokens env span
      some { l with span := span, current := fixed + tokens, applied := l.applied ++ ["prune"] }
    else some { l with span := span }
  else some l

def Ladder.compress (cfg : BudgetConfig) (target : ℚ) (fixed : Int) (l : Ladder) : Option Ladder :=
  if cfg.compress && decide (target < l.current) then do
    let (span, changed) := rungCompress env l.span
    if changed then do
      let tokens ← spanTokens env span
      some { l with span := span, current := fixed + tokens, applied := l.applied ++ ["compress"] }
    else some { l with span := span }
  else some l

/-- `summary` is the answer of `_summary_for_span`, `none` where it raises. -/
def Ladder.summarize (cfg : BudgetConfig) (target : ℚ) (fixed : Int) (summary : Option String)
    (l : Ladder) : Option Ladder :=
  if cfg.summarize && decide (target < l.current) && decide (l.span ≠ []) then do
    let text ← summary
    if text ≠ "" && text ≠ summaryUnavailable then do
      let spanNow ← spanTokens env l.span
      let cost ← env.countMessages [summaryMsg text]
      if cost < spanNow then
        some { l with span := [], summary := some (summaryMsg text), current := fixed + cost,
                      applied := l.applied ++ ["summarize"] }
      else some l
    else some l
  else some l

def Ladder.drop (cfg : BudgetConfig) (target : ℚ) (l : Ladder) : Option Ladder :=
  if cfg.drop && decide (target < l.current) && decide (l.span ≠ []) then do
    let (span, current, dropped) ← rungDrop env target false l.span l.current
    some { l with span := span, current := current,
                  applied := if dropped = 0 then l.applied else l.applied ++ ["drop"] }
  else some l

def runLadder (cfg : BudgetConfig) (target : ℚ) (fixed : Int) (summary : Option String)
    (l : Ladder) : Option Ladder := do
  let l ← l.prune env cfg target fixed
  let l ← l.compress env cfg target fixed
  let l ← l.summarize env cfg target fixed summary
  l.drop env cfg target

/-- `_compact`: the messages of the request afterwards, `none` where it raises before it has
    assigned them. `used` is the full count. -/
def compact (cfg : BudgetConfig) (used : Int) (summary : Option String) (messages : List Msg) :
    Option (List Msg) :=
  if cfg.usable ≤ 0 then some messages
  else
    let (compactAt, targetPct) := resolveThresholds cfg
    if (used : ℚ) ≤ cfg.usable * compactAt / 100 then some messages
    else
      let systems := messages.filter Msg.isSystem
      let turns := messages.filter fun m => !m.isSystem
      let keep := max 1 (if cfg.keepRecentTurns = 0 then 6 else cfg.keepRecentTurns) * 2
      let cut := safeWindowSplit turns keep
      if cut = 0 then some messages
      else do
        let tokens ← spanTokens env (turns.take cut)
        let l ← runLadder env cfg (cfg.usable * targetPct / 100) (used - tokens) summary
          { span := turns.take cut, current := used }
        if l.applied = [] then some messages
        else some (systems ++ l.summary.toList ++ l.span ++ turns.drop cut)

/-- `process_request` of G26: an exception passes the request through. -/
def contextBudget (enabled bypassed cacheHit : Bool) (cfg : BudgetConfig) (used : Int)
    (summary : Option String) (messages : List Msg) : List Msg :=
  if !enabled || bypassed || cacheHit then messages
  else (compact env cfg used summary messages).getD messages

/-- `_apply_sliding_window`: the messages of the request afterwards. -/
def applySlidingWindow (window : Int) (summary : String) (messages : List Msg) : List Msg :=
  match env.countMessages messages with
  | none => messages
  | some _ =>
    let systems := messages.filter Msg.isSystem
    let turns := messages.filter fun m => !m.isSystem
    if turns.length ≤ window * 2 then messages
    else
      let start := safeWindowSplit turns (window * 2)
      if start = 0 then messages
      else systems ++ [summaryMsg summary] ++ turns.drop start

/-! ## 4. What the rungs leave -/

variable {env}

/-- Every tool message has an id that is not empty. -/
def Identified (ms : List Msg) : Prop :=
  ∀ t ∈ ms, t.isTool = true → (t.get "tool_call_id").truthy = true

theorem truncateResult_same (maxToolChars : Int) (m : Msg) :
    SameButContent m (truncateResult maxToolChars m).1 := by
  rw [truncateResult]
  split
  · split
    · exact .set_content m _
    · exact .refl m
  · exact .refl m

theorem compressMsg_same (m : Msg) : SameButContent m (compressMsg env m).1 := by
  rw [compressMsg]
  split
  · dsimp only
    split
    · exact .set_content m _
    · exact .refl m
  · exact .refl m

/-- A message that is half of a pair stays. -/
theorem rungPrune_pairs {m : Msg} (hpairs : pairsTool m = true) (maxToolChars minChars : Int)
    (last : Option Msg) (seen : List String) (rest : List Msg) :
    (rungPrune env maxToolChars minChars last seen (m :: rest)).1 =
      (truncateResult maxToolChars m).1 ::
        (rungPrune env maxToolChars minChars (some (truncateResult maxToolChars m).1) seen rest).1 := by
  simp [rungPrune, hpairs]

theorem pairsTool_of_answers {t a : Msg} (h : t.Answers a) : pairsTool a = true := by
  have htruthy : (a.get "tool_calls").truthy = true := by
    have hmem := h.2
    rw [Msg.callIds] at hmem
    split at hmem
    · next calls hcalls =>
      rw [hcalls]
      cases calls with
      | nil => exact absurd hmem (by simp)
      | cons call calls => rfl
    · exact absurd hmem (by simp)
  rw [pairsTool, htruthy, Bool.true_or]

/-- A run of messages that are each half of a pair. -/
theorem rungPrune_run {ms : List Msg} (hpairs : ∀ m ∈ ms, pairsTool m = true)
    (maxToolChars minChars : Int) (last : Option Msg) (seen : List String) (rest : List Msg) :
    ∃ last', (rungPrune env maxToolChars minChars last seen (ms ++ rest)).1 =
      ms.map (fun m => (truncateResult maxToolChars m).1) ++
        (rungPrune env maxToolChars minChars last' seen rest).1 := by
  induction ms generalizing last with
  | nil => exact ⟨last, rfl⟩
  | cons m ms ih =>
    obtain ⟨last', hrest⟩ := ih (fun x hx => hpairs x (List.mem_cons_of_mem m hx))
      (some (truncateResult maxToolChars m).1)
    refine ⟨last', ?_⟩
    rw [List.cons_append, rungPrune_pairs (hpairs m List.mem_cons_self), hrest]
    rfl

theorem same_map {f : Msg → Msg} (hf : ∀ m, SameButContent m (f m)) (e : List Msg) :
    SameExchange e (e.map f) := by
  induction e with
  | nil => exact .nil
  | cons m e ih => exact .cons (hf m) ih

/-- Rung 1 drops no part of an exchange that has tool messages. -/
theorem rungPrune_shrinks {es : List (List Msg)} (hes : ∀ e ∈ es, IsExchange e)
    (hids : Identified es.flatten) (maxToolChars minChars : Int) (last : Option Msg)
    (seen : List String) : ∃ es', (rungPrune env maxToolChars minChars last seen es.flatten).1 =
      es'.flatten ∧ Shrinks es es' := by
  induction es generalizing last seen with
  | nil => exact ⟨[], rfl, Shrinks.refl []⟩
  | cons e es ih =>
    have ih := ih (fun f hf => hes f (List.mem_cons_of_mem e hf))
      fun t ht => hids t (by rw [List.flatten_cons]; exact List.mem_append_right _ ht)
    obtain ⟨head, tools, rfl, hhead, htools⟩ := hes e List.mem_cons_self
    rw [List.flatten_cons]
    cases tools with
    | nil =>
      rw [List.singleton_append, rungPrune]
      split
      · obtain ⟨es', hout, hshrinks⟩ := ih last seen
        exact ⟨es', hout, hshrinks.skip [head]⟩
      · obtain ⟨es', hout, hshrinks⟩ := ih (some (truncateResult maxToolChars head).1)
          (if (!pairsTool head && isDedupable env head minChars) = true then env.dumps head :: seen
            else seen)
        refine ⟨[(truncateResult maxToolChars head).1] :: es', ?_, hshrinks.cons
          (.cons (truncateResult_same maxToolChars head) .nil)⟩
        rw [List.flatten_cons, ← hout]
        rfl
    | cons t tools =>
      have hpairs : ∀ m ∈ head :: t :: tools, pairsTool m = true := by
        intro m hm
        rcases List.mem_cons.mp hm with rfl | hm
        · exact pairsTool_of_answers (htools t List.mem_cons_self).2
        · have hmem : m ∈ ((head :: t :: tools) :: es).flatten := by
            rw [List.flatten_cons]
            exact List.mem_append_left _ (List.mem_cons_of_mem head hm)
          have hid := hids m hmem (htools m hm).1
          rw [pairsTool, hid, Bool.or_true]
      obtain ⟨last', hrun⟩ := @rungPrune_run env _ hpairs maxToolChars minChars last seen
        es.flatten
      obtain ⟨es', hout, hshrinks⟩ := ih last' seen
      refine ⟨_ :: es', ?_, hshrinks.cons (same_map (truncateResult_same maxToolChars) _)⟩
      rw [hrun, hout, List.flatten_cons]

theorem rungCompress_shrinks (es : List (List Msg)) :
    ∃ es', (rungCompress env es.flatten).1 = es'.flatten ∧ Shrinks es es' := by
  refine ⟨es.map (List.map fun m => (compressMsg env m).1), ?_, es, List.Sublist.refl es, ?_⟩
  · rw [rungCompress, List.map_map, List.map_flatten]
    rfl
  · induction es with
    | nil => exact .nil
    | cons e es ih => exact .cons (same_map compressMsg_same e) ih

/-- In its inner loop, rung 4 first takes the tool messages that lead. -/
theorem rungDrop_tools {target : ℚ} {tools rest span : List Msg} {current current' : Int}
    {dropped : Nat} (htools : ∀ t ∈ tools, t.isTool = true)
    (h : rungDrop env target true (tools ++ rest) current = some (span, current', dropped)) :
    ∃ current dropped, rungDrop env target true rest current = some (span, current', dropped) := by
  induction tools generalizing current dropped with
  | nil => exact ⟨current, dropped, h⟩
  | cons t tools ih =>
    rw [List.cons_append, rungDrop, if_pos (by simp [htools t List.mem_cons_self])] at h
    simp only [Option.bind_eq_bind, Option.bind_eq_some_iff, Option.some.injEq,
      Prod.mk.injEq] at h
    obtain ⟨tokens, -, ⟨span', current'', dropped'⟩, hrest, rfl, rfl, rfl⟩ := h
    exact ih (fun s hs => htools s (List.mem_cons_of_mem t hs)) hrest

/-- Rung 4 drops whole exchanges. -/
theorem rungDrop_shrinks {es : List (List Msg)} (hes : ∀ e ∈ es, IsExchange e) {target : ℚ}
    {inner : Bool} {span : List Msg} {current current' : Int} {dropped : Nat}
    (h : rungDrop env target inner es.flatten current = some (span, current', dropped)) :
    ∃ es', span = es'.flatten ∧ Shrinks es es' := by
  induction es generalizing inner current dropped with
  | nil =>
    cases h
    exact ⟨[], rfl, Shrinks.refl []⟩
  | cons e es ih =>
    have hrest := fun f hf => hes f (List.mem_cons_of_mem e hf)
    obtain ⟨head, tools, rfl, hhead, htools⟩ := hes e List.mem_cons_self
    rw [List.flatten_cons, List.cons_append, rungDrop] at h
    split at h
    · simp only [Option.bind_eq_bind, Option.bind_eq_some_iff, Option.some.injEq,
        Prod.mk.injEq] at h
      obtain ⟨tokens, -, ⟨span', current'', dropped'⟩, hrun, rfl, rfl, rfl⟩ := h
      obtain ⟨current, dropped, hleft⟩ := rungDrop_tools (fun t ht => (htools t ht).1) hrun
      obtain ⟨es', hspan, hshrinks⟩ := ih hrest hleft
      exact ⟨es', hspan, hshrinks.skip _⟩
    · cases h
      exact ⟨(head :: tools) :: es, by simp, Shrinks.refl _⟩

/-! ## 5. What the compaction leaves -/

/-- The ladder has whole exchanges of this span, or a summary of it. -/
structure Ladder.Sound (es : List (List Msg)) (l : Ladder) : Prop where
  span : ∃ es', l.span = es'.flatten ∧ Shrinks es es'
  summary : ∀ m ∈ l.summary, m.isSystem = true

theorem isSystem_summaryMsg (text : String) : (summaryMsg text).isSystem = true := by
  simp [summaryMsg, Msg.isSystem, Msg.get, Json.getD, Json.get?, Assoc.lookup]

theorem prune_sound {es : List (List Msg)} (hes : ∀ e ∈ es, IsExchange e)
    (hids : Identified es.flatten) {cfg : BudgetConfig} {target : ℚ} {fixed : Int} {l l' : Ladder}
    (hspan : l.span = es.flatten) (hsummary : l.summary = none)
    (h : l.prune env cfg target fixed = some l') : l'.Sound es := by
  have hnone : ∀ m ∈ l.summary, m.isSystem = true := by simp [hsummary]
  rw [Ladder.prune, hspan] at h
  split at h
  · have hrung := @rungPrune_shrinks env _ hes hids cfg.toolResultMaxChars cfg.pruneMinChars
      none []
    rcases hout : rungPrune env cfg.toolResultMaxChars cfg.pruneMinChars none [] es.flatten with
      ⟨span, changed⟩
    rw [hout] at h hrung
    dsimp only at h
    split at h
    · simp only [Option.bind_eq_bind, Option.bind_eq_some_iff, Option.some.injEq] at h
      obtain ⟨tokens, -, rfl⟩ := h
      exact ⟨hrung, hnone⟩
    · cases h
      exact ⟨hrung, hnone⟩
  · cases h
    exact ⟨⟨es, hspan, Shrinks.refl es⟩, hnone⟩

theorem compress_sound {es : List (List Msg)} {cfg : BudgetConfig} {target : ℚ} {fixed : Int}
    {l l' : Ladder} (hl : l.Sound es) (h : l.compress env cfg target fixed = some l') :
    l'.Sound es := by
  obtain ⟨⟨es', hspan, hshrinks⟩, hsummary⟩ := hl
  rw [Ladder.compress] at h
  split at h
  · obtain ⟨es'', hrung, hshrinks'⟩ := @rungCompress_shrinks env es'
    rw [← hspan] at hrung
    have hnew : ∃ fs, (rungCompress env l.span).1 = fs.flatten ∧ Shrinks es fs :=
      ⟨es'', hrung, hshrinks.trans hshrinks'⟩
    dsimp only at h
    split at h
    · simp only [Option.bind_eq_bind, Option.bind_eq_some_iff, Option.some.injEq] at h
      obtain ⟨tokens, -, rfl⟩ := h
      exact ⟨hnew, hsummary⟩
    · cases h
      exact ⟨hnew, hsummary⟩
  · cases h
    exact ⟨⟨es', hspan, hshrinks⟩, hsummary⟩

theorem summarize_sound {es : List (List Msg)} {cfg : BudgetConfig} {target : ℚ} {fixed : Int}
    {summary : Option String} {l l' : Ladder} (hl : l.Sound es)
    (h : l.summarize env cfg target fixed summary = some l') : l'.Sound es := by
  rw [Ladder.summarize] at h
  split at h
  · simp only [Option.bind_eq_bind, Option.bind_eq_some_iff] at h
    obtain ⟨text, -, h⟩ := h
    split at h
    · simp only [Option.bind_eq_some_iff] at h
      obtain ⟨spanNow, -, cost, -, h⟩ := h
      split at h
      · cases h
        exact ⟨⟨[], rfl, Shrinks.nil es⟩, by simp [isSystem_summaryMsg]⟩
      · cases h
        exact hl
    · cases h
      exact hl
  · cases h
    exact hl

theorem drop_sound {es : List (List Msg)} (hes : ∀ e ∈ es, IsExchange e) {cfg : BudgetConfig}
    {target : ℚ} {l l' : Ladder} (hl : l.Sound es) (h : l.drop env cfg target = some l') :
    l'.Sound es := by
  obtain ⟨⟨es', hspan, hshrinks⟩, hsummary⟩ := hl
  have hes' : ∀ e ∈ es', IsExchange e := hshrinks.forall (fun _ _ hsame => hsame.isExchange) hes
  rw [Ladder.drop, hspan] at h
  split at h
  · simp only [Option.bind_eq_bind, Option.bind_eq_some_iff, Option.some.injEq] at h
    obtain ⟨⟨span, current, dropped⟩, hrung, rfl⟩ := h
    obtain ⟨es'', hleft, hshrinks'⟩ := rungDrop_shrinks hes' hrung
    exact ⟨⟨es'', hleft, hshrinks.trans hshrinks'⟩, hsummary⟩
  · cases h
    exact ⟨⟨es', hspan, hshrinks⟩, hsummary⟩

theorem runLadder_sound {es : List (List Msg)} (hes : ∀ e ∈ es, IsExchange e)
    (hids : Identified es.flatten) {cfg : BudgetConfig} {target : ℚ} {fixed current : Int}
    {summary : Option String} {l : Ladder}
    (h : runLadder env cfg target fixed summary { span := es.flatten, current := current } =
      some l) : l.Sound es := by
  simp only [runLadder, Option.bind_eq_bind, Option.bind_eq_some_iff] at h
  obtain ⟨l₁, hprune, l₂, hcompress, l₃, hsummarize, hdrop⟩ := h
  have h₁ := prune_sound hes hids rfl rfl hprune
  have h₂ := compress_sound h₁ hcompress
  have h₃ := summarize_sound h₂ hsummarize
  exact drop_sound hes h₃ hdrop

/-- A list that is left as it is. -/
theorem keeps_self {ms : List Msg} (h : Paired ms) : Paired ms ∧ KeepsExchanges ms ms :=
  ⟨h, Shrinks.refl _⟩

/-- The turns before and behind a cut, as exchanges. -/
theorem cut_conversation {ms : List Msg} (h : Paired ms) {keep : Int}
    (hcut : safeWindowSplit (ms.filter fun m => !m.isSystem) keep ≠ 0) :
    let turns := ms.filter fun m => !m.isSystem
    let cut := safeWindowSplit turns keep
    conversation ms = exchanges (turns.take cut) ++ exchanges (turns.drop cut) := by
  have hturns := turns_of_paired h
  intro turns cut
  rw [← exchanges_cut hcut, hturns]
  exact (exchanges_flatten (isExchange_conversation h)).symm

theorem compact_keeps {cfg : BudgetConfig} {used : Int} {summary : Option String}
    {ms out : List Msg} (hpaired : Paired ms) (hids : Identified ms)
    (h : compact env cfg used summary ms = some out) : Paired out ∧ KeepsExchanges ms out := by
  rw [compact] at h
  split at h
  · cases h
    exact keeps_self hpaired
  · dsimp only at h
    generalize max 1 (if cfg.keepRecentTurns = 0 then 6 else cfg.keepRecentTurns) * 2 = keep at h
    split at h
    · cases h
      exact keeps_self hpaired
    · split at h
      · cases h
        exact keeps_self hpaired
      · next hcut =>
        simp only [Option.bind_eq_bind, Option.bind_eq_some_iff] at h
        obtain ⟨tokens, -, l, hladder, h⟩ := h
        split at h
        · cases h
          exact keeps_self hpaired
        · cases h
          have hconversation := cut_conversation hpaired hcut
          have hall := isExchange_conversation hpaired
          dsimp only at hconversation
          rw [hconversation] at hall
          generalize hturns : (ms.filter fun m => !m.isSystem) = turns at *
          have hspan : turns.take (safeWindowSplit turns keep) =
              (exchanges (turns.take (safeWindowSplit turns keep))).flatten :=
            (List.flatten_splitBy _ _).symm
          have hsub : ∀ m ∈ turns.take (safeWindowSplit turns keep), m ∈ ms := by
            intro m hm
            have hmem := List.mem_of_mem_take hm
            rw [← hturns] at hmem
            exact List.mem_of_mem_filter hmem
          rw [hspan] at hladder
          obtain ⟨⟨es', hleft, hshrinks⟩, hsummary⟩ := runLadder_sound
            (fun e he => hall e (List.mem_append_left _ he))
            (fun t ht => hids t (hsub t (by rwa [← hspan] at ht))) hladder
          have hkeeps := @keeps_of_shrinks _ (ms.filter Msg.isSystem ++ l.summary.toList)
            (es' ++ exchanges (turns.drop (safeWindowSplit turns keep))) hpaired
            (by
              intro m hm
              rcases List.mem_append.mp hm with hm | hm
              · exact (List.mem_filter.mp hm).2
              · exact hsummary m (by simpa using hm))
            (by
              rw [hconversation]
              exact hshrinks.append (Shrinks.refl _))
          have htail : (exchanges (turns.drop (safeWindowSplit turns keep))).flatten =
              turns.drop (safeWindowSplit turns keep) := List.flatten_splitBy _ _
          rw [List.flatten_append, htail, ← hleft, ← List.append_assoc] at hkeeps
          exact hkeeps

theorem applySlidingWindow_keeps (window : Int) (summary : String) {ms : List Msg}
    (hpaired : Paired ms) : Paired (applySlidingWindow env window summary ms) ∧
      KeepsExchanges ms (applySlidingWindow env window summary ms) := by
  rw [applySlidingWindow]
  split
  · exact keeps_self hpaired
  · dsimp only
    split
    · exact keeps_self hpaired
    · split
      · exact keeps_self hpaired
      · next hcut =>
        have hconversation := cut_conversation hpaired hcut
        dsimp only at hconversation
        generalize (ms.filter fun m => !m.isSystem) = turns at *
        have hkeeps := @keeps_of_shrinks _ (ms.filter Msg.isSystem ++ [summaryMsg summary])
          (exchanges (turns.drop (safeWindowSplit turns (window * 2)))) hpaired
          (by
            intro m hm
            rcases List.mem_append.mp hm with hm | hm
            · exact (List.mem_filter.mp hm).2
            · rw [List.mem_singleton.mp hm]
              exact isSystem_summaryMsg summary)
          (by
            rw [hconversation]
            exact (Shrinks.nil _).append (Shrinks.refl _))
        rwa [exchanges, List.flatten_splitBy] at hkeeps

/-- **Cuts keep the pairs**: every window of G10, and where every result names its call by an id
    that is not empty every compaction of G26, leaves the tool messages paired, and the exchanges
    it keeps whole. -/
theorem cuts_keep_pairs (env : Collaborators) {ms : List Msg} (hpaired : Paired ms) :
    (Identified ms → ∀ enabled bypassed cacheHit cfg used summary,
      Paired (contextBudget env enabled bypassed cacheHit cfg used summary ms) ∧
      KeepsExchanges ms (contextBudget env enabled bypassed cacheHit cfg used summary ms)) ∧
    ∀ window summary, Paired (applySlidingWindow env window summary ms) ∧
      KeepsExchanges ms (applySlidingWindow env window summary ms) := by
  constructor
  · intro hids enabled bypassed cacheHit cfg used summary
    rw [contextBudget]
    split
    · exact keeps_self hpaired
    · cases h : compact env cfg used summary ms with
      | none => exact keeps_self hpaired
      | some out => exact compact_keeps hpaired hids h
  · intro window summary
    exact applySlidingWindow_keeps window summary hpaired

/-! ## 6. An empty id -/

namespace EmptyId

def textOf : Json → String
  | .str s => s
  | _ => ""

/-- A counter of ten tokens a message, and no compressor. -/
def collaborators : Collaborators where
  countMessages := fun ms => some (10 * ms.length)
  compressText := fun text => text
  parses := fun _ => false
  dumps := fun m => textOf (m.get "role") ++ "/" ++ textOf (m.get "tool_call_id") ++ "/" ++
    textOf (m.get "content")
  strOf := textOf

def said (role content : String) : Msg := ⟨[("role", .str role), ("content", .str content)]⟩

def call (id : String) : Msg :=
  ⟨[("role", .str "assistant"), ("content", .null),
    ("tool_calls", .arr [.obj [("id", .str id), ("type", .str "function"),
      ("function", .obj [("name", .str "status"), ("arguments", .str "")])]])]⟩

def result (id : String) : Msg :=
  ⟨[("role", .str "tool"), ("tool_call_id", .str id), ("content", .str "all systems nominal")]⟩

/-- The same call twice, with the same result. -/
def messages (first second : String) : List Msg :=
  [said "user" "check", call first, result first, call second, result second,
   said "user" "again?", said "assistant" "no"]

def cfg : BudgetConfig where
  usable := 50
  keepRecentTurns := 1
  compress := false
  summarize := false
  pruneMinChars := 10

/-- Each message stands where its exchange starts, or right behind the call it answers. -/
theorem paired (first second : String) : Paired (messages first second) := by
  have hall : ∀ e ∈ [[said "user" "check"], [call first, result first],
      [call second, result second], [said "user" "again?"], [said "assistant" "no"]],
      IsExchange e := by
    intro e he
    simp only [List.mem_cons, List.not_mem_nil, or_false] at he
    rcases he with rfl | rfl | rfl | rfl | rfl
    · exact ⟨_, [], rfl, rfl, by simp⟩
    · refine ⟨_, [result first], rfl, rfl, fun t ht => ?_⟩
      rw [List.mem_singleton.mp ht]
      exact ⟨rfl, rfl, List.mem_cons_self⟩
    · refine ⟨_, [result second], rfl, rfl, fun t ht => ?_⟩
      rw [List.mem_singleton.mp ht]
      exact ⟨rfl, rfl, List.mem_cons_self⟩
    · exact ⟨_, [], rfl, rfl, by simp⟩
    · exact ⟨_, [], rfl, rfl, by simp⟩
  exact paired_flatten hall

end EmptyId

/-- Two results under the empty id: the second is pruned as a repeat of the first, and the
    assistant message that declared its call stays without it. -/
theorem pruned_result_of_empty_id :
    Paired (EmptyId.messages "" "") ∧
    contextBudget EmptyId.collaborators true false false EmptyId.cfg 70 none (EmptyId.messages "" "") =
      [EmptyId.said "user" "check", EmptyId.call "", EmptyId.result "", EmptyId.call "",
       EmptyId.said "user" "again?", EmptyId.said "assistant" "no"] ∧
    ¬ KeepsExchanges (EmptyId.messages "" "")
      (contextBudget EmptyId.collaborators true false false EmptyId.cfg 70 none (EmptyId.messages "" "")) := by
  have hout : contextBudget EmptyId.collaborators true false false EmptyId.cfg 70 none
      (EmptyId.messages "" "") =
      [EmptyId.said "user" "check", EmptyId.call "", EmptyId.result "", EmptyId.call "",
       EmptyId.said "user" "again?", EmptyId.said "assistant" "no"] := by
    decide +kernel
  refine ⟨EmptyId.paired "" "", hout, ?_⟩
  rw [hout]
  intro hkeeps
  have hin : conversation (EmptyId.messages "" "") =
      [[EmptyId.said "user" "check"], [EmptyId.call "", EmptyId.result ""],
       [EmptyId.call "", EmptyId.result ""], [EmptyId.said "user" "again?"],
       [EmptyId.said "assistant" "no"]] := by
    decide +kernel
  have hmem : [EmptyId.call ""] ∈ conversation
      [EmptyId.said "user" "check", EmptyId.call "", EmptyId.result "", EmptyId.call "",
       EmptyId.said "user" "again?", EmptyId.said "assistant" "no"] := by
    decide +kernel
  -- the call alone would have to be an exchange of the input
  have hbad := hkeeps.forall
    (P := fun e => e.length = 1 → ∀ m ∈ e, (m.get "tool_calls").truthy = false) ?_ ?_ _ hmem rfl
    (EmptyId.call "") List.mem_cons_self
  · exact absurd hbad (by decide)
  · intro e e' hsame he hlength m' hm'
    cases hsame with
    | nil => cases hm'
    | @cons m m'' rest rest' hm hrest =>
      have hnil : rest' = [] := List.eq_nil_of_length_eq_zero (by simpa using hlength)
      subst hnil
      cases hrest
      rw [List.mem_singleton.mp hm', hm "tool_calls" (by decide)]
      exact he rfl m List.mem_cons_self
  · rw [hin]
    decide

theorem cuts_keep_pairs_status :
    Paired (contextBudget EmptyId.collaborators true false false EmptyId.cfg 70 none
      (EmptyId.messages "call_1" "call_2")) ∧
    KeepsExchanges (EmptyId.messages "call_1" "call_2")
      (contextBudget EmptyId.collaborators true false false EmptyId.cfg 70 none
        (EmptyId.messages "call_1" "call_2")) :=
  (cuts_keep_pairs EmptyId.collaborators (EmptyId.paired "call_1" "call_2")).1
    (by
      have hids : ∀ t ∈ EmptyId.messages "call_1" "call_2", t.isTool = true →
          (t.get "tool_call_id").truthy = true := by decide
      exact hids) true false false EmptyId.cfg 70 none

end TokenProxy.History
