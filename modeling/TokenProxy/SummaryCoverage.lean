/-
  TokenProxy/SummaryCoverage.lean
  ===============================
  **What a stored summary was made from** (`middleware/history_utils.py`,
  `_summary_for_span` of `g26_context_budget.py`, `_apply_session_state` of `g10_memory.py`).

  The summariser is shown the first `max_turns` of what it is given, and of these the last
  that fit an input budget; what it answers is stored as the summary of everything.  G26 gives
  it the summary of an earlier prefix and the turns since, G10 the session's summary and this
  request's turns, so a turn that is left out once is out of every later summary too.

  A run is what the processes do to Redis, to their own copies and to the sessions; that an
  entry expires or is evicted is an event of its own, at any time.  Every summary that is
  stored is recorded with the text that the summariser was given.

  Main result: `stored_covered`, the runs whose summariser is asked, and shown all that it is
  given, store only summaries that were made from everything they stand for.
-/
import TokenProxy.SessionMemory
import TokenProxy.Execution
import TokenProxy.JoinedLists

namespace TokenProxy.History

open TokenProxy.Execution (Always AllSteps always_of_allSteps allSteps_cons)

/-! ## 1. What the summariser is shown -/

/-- What the summariser calls elsewhere. -/
structure Outside where
  /-- `str(value)` -/
  strOf : Json → String
  /-- `estimate_tokens(text, model)`; `none` where it raises -/
  estimateTokens : String → String → Option Nat
  /-- `_span_fingerprint` -/
  fingerprint : List Msg → String

variable (env : Outside)

def partToText (part : Json) : String :=
  if part.isObj then
    if part.getD "type" .null = .str "text" then env.strOf (part.getD "text" (.str ""))
    else "[" ++ env.strOf (part.getD "type" (.str "attachment")) ++ "]"
  else env.strOf part

def contentToText (content : Json) : String :=
  match content with
  | .null => ""
  | .str text => text
  | .arr parts => " ".intercalate ((parts.map (partToText env)).filter (· ≠ ""))
  | other => env.strOf other

/-- `str(m.get("role", ""))` -/
def roleText (m : Msg) : String :=
  match (Json.obj m.fields).getD "role" (.str "") with
  | .str role => role
  | other => env.strOf other

/-- A turn as the summariser sees it. -/
def line (m : Msg) : String := roleText env m ++ ": " ++ contentToText env (m.get "content")

/-- The loop of `_fit_turns_to_budget`. -/
def fitFrom (maxInput : Int) : List Msg → List Int → Int → List Msg
  | m :: m' :: rest, cost :: costs, total =>
    if maxInput < total then fitFrom maxInput (m' :: rest) costs (total - cost)
    else m :: m' :: rest
  | turns, _, _ => turns

def costsOf (model : String) (turns : List Msg) : Option (List Int) :=
  turns.mapM fun m =>
    (env.estimateTokens (contentToText env (m.get "content")) model).map fun n => (n : Int) + 4

def fitTurnsToBudget (model : String) (maxInput : Int) (turns : List Msg) : List Msg :=
  if maxInput ≤ 0 || turns.isEmpty then turns
  else
    match costsOf env model turns with
    | none => turns
    | some costs => fitFrom maxInput turns costs costs.sum

def selectTurns (model : String) (maxTurns maxInput : Int) (turns : List Msg) : List Msg :=
  fitTurnsToBudget env model maxInput (turns.take (max 1 maxTurns).toNat)

def summaryRequest : String :=
  "Summarise this conversation history in 3-4 compact sentences. " ++
    "Preserve key facts, decisions, and context:\n\n"

def summaryPrompt (turns : List Msg) : String :=
  summaryRequest ++ "\n".intercalate (turns.map (line env))

/-- `summarise_turns`, with the text that the summary model is given; `asked` is the reply, and
    none where there is no adapter or no key for the model. -/
def summarise (model : String) (maxTurns maxInput : Int) (asked : Option SummaryReply)
    (turns : List Msg) : String × Option String :=
  if turns.isEmpty then ("", none)
  else
    match asked with
    | none => (summaryUnavailable, none)
    | some reply =>
      (reply.reported, some (summaryPrompt env (selectTurns env model maxTurns maxInput turns)))

/-! ## 2. What is stored -/

/-- A summary that G26 stored: for which span, and from which text. -/
structure SpanRecord where
  redisPrefix : String
  summaryModel : String
  span : List Msg
  text : Option String
  summary : String

/-- A summary that G10 stored for a session: the one it replaces, and the turns folded in. -/
structure SessionRecord where
  previous : String
  turns : List Msg
  text : Option String
  summary : String

structure State where
  redis : String → Option String
  /-- `_LOCAL_SUMMARY_CACHE` of each process -/
  locals : Nat → String → Option String
  sessions : String → Option Session
  /-- newest first -/
  spans : List SpanRecord
  updates : List SessionRecord

def summaryCacheKey (redisPrefix summaryModel : String) (span : List Msg) : String :=
  redisPrefix ++ "g26:summary:" ++ summaryModel ++ ":" ++ env.fingerprint span

def SpanRecord.key (r : SpanRecord) : String :=
  summaryCacheKey env r.redisPrefix r.summaryModel r.span

/-- `_cached_summary_get`, as its callers read it; `up` says that Redis answers. -/
def cachedSummaryGet (s : State) (proc : Nat) (up : Bool) (key : String) : Option String :=
  let raw := if up then (s.redis key).filter (· ≠ "") else none
  raw.or ((s.locals proc key).filter (· ≠ ""))

def cachedSummaryPut (s : State) (proc : Nat) (up : Bool) (key value : String) : State :=
  if up then { s with redis := Function.update s.redis key (some value) }
  else { s with locals := Function.update s.locals proc
                  (Function.update (s.locals proc) key (some value)) }

/-- What `_summary_for_span` reads of the request, of G26's settings and of the outside: which
    lookups Redis answers, by the length of the prefix, and whether it takes the write. -/
structure SpanCall where
  proc : Nat
  redisPrefix : String
  model : String
  summaryModel : String
  prefixLookback : Int := 12
  maxTurns : Int := 80
  maxInputTokens : Int := 24000
  up : Nat → Bool
  writeUp : Bool
  asked : Option SummaryReply

/-- The lengths of the prefixes that are looked up, the longest first. -/
def lookedUp (lookback : Int) (length : Nat) : List Nat :=
  ((List.range length).drop (length - lookback.toNat)).reverse.takeWhile (0 < ·)

def SpanCall.get (c : SpanCall) (s : State) (span : List Msg) (n : Nat) : Option String :=
  cachedSummaryGet s c.proc (c.up n)
    (summaryCacheKey env c.redisPrefix c.summaryModel (span.take n))

/-- The newest cached summary of a proper prefix, with the prefix's length. -/
def baseSummary (c : SpanCall) (s : State) (span : List Msg) : Option (Nat × String) :=
  (lookedUp c.prefixLookback span.length).findSome? fun n => (c.get env s span n).map (n, ·)

def toSummarise (base : Option (Nat × String)) (span : List Msg) : List Msg :=
  match base with
  | some (n, summary) => summaryMsg summary :: span.drop n
  | none => span

/-- `int(cfg.get("summary_max_turns", 80) or 80)` -/
def SpanCall.turnLimit (c : SpanCall) : Int := if c.maxTurns = 0 then 80 else c.maxTurns

/-- `_summary_for_span`: what it returns, and the state it leaves. -/
def summaryForSpan (c : SpanCall) (span : List Msg) (s : State) : String × State :=
  match c.get env s span span.length with
  | some exact => (exact, s)
  | none =>
    let given := toSummarise (baseSummary env c s span) span
    let (summary, text) := summarise env c.model c.turnLimit c.maxInputTokens c.asked given
    if summary ≠ "" && summary ≠ summaryUnavailable then
      let s := cachedSummaryPut s c.proc c.writeUp
        (summaryCacheKey env c.redisPrefix c.summaryModel span) summary
      (summary, { s with spans := ⟨c.redisPrefix, c.summaryModel, span, text, summary⟩ :: s.spans })
    else (summary, s)

/-- The update of a session asks for a summary and stores it. -/
def updatesSession (r : Replies) (messages : List Msg) (stored : Option Session) : Bool :=
  r.read && r.write && !resent stored (turnsOf messages)

/-- `_apply_session_state`; `asked` is the reply to the update's call. -/
def sessionUpdate (key model : String) (window : Int) (r : Replies) (asked : Option SummaryReply)
    (messages : List Msg) (s : State) : State :=
  let stored := s.sessions key
  let r := { r with update := asked.getD .failed }
  let after := applySessionState window r messages stored
  let (summary, text) := summarise env model 20 0 asked (sessionContext stored ++ turnsOf messages)
  { s with
    sessions := Function.update s.sessions key after.stored
    updates :=
      if updatesSession r messages stored then
        ⟨storedSummary stored, turnsOf messages, text, summary⟩ :: s.updates
      else s.updates }

inductive Event where
  /-- an entry expires or is evicted -/
  | dropped (key : String)
  | droppedLocal (proc : Nat) (key : String)
  | sessionExpired (key : String)
  | span (c : SpanCall) (span : List Msg)
  | session (key model : String) (window : Int) (r : Replies) (asked : Option SummaryReply)
    (messages : List Msg)

def step (s : State) : Event → Option State
  | .dropped key => some { s with redis := Function.update s.redis key none }
  | .droppedLocal proc key =>
    some { s with locals := Function.update s.locals proc
                    (Function.update (s.locals proc) key none) }
  | .sessionExpired key => some { s with sessions := Function.update s.sessions key none }
  | .span c span => some (summaryForSpan env c span s).2
  | .session key model window r asked messages =>
    some (sessionUpdate env key model window r asked messages s)

/-! ## 3. What a summary stands for -/

def Contains (text part : String) : Prop := part.toList <:+: text.toList

/-- Every turn of the span is in the text, or in a prefix whose stored summary is. -/
def SpanRecord.Covered (earlier : List SpanRecord) (r : SpanRecord) : Prop :=
  ∃ text ∈ r.text, ∀ i turn, r.span[i]? = some turn →
    Contains text (line env turn) ∨
      ∃ n, i < n ∧ ∃ b ∈ earlier,
        b.key env = summaryCacheKey env r.redisPrefix r.summaryModel (r.span.take n) ∧
          Contains text b.summary

def SpansCovered : List SpanRecord → Prop
  | [] => True
  | r :: earlier => r.Covered env earlier ∧ SpansCovered earlier

/-- The summary that is replaced is in the text, and so is every turn folded in. -/
def SessionRecord.Covered (r : SessionRecord) : Prop :=
  (r.previous ≠ "" → ∃ text ∈ r.text, Contains text r.previous) ∧
    ∀ turn ∈ r.turns, ∃ text ∈ r.text, Contains text (line env turn)

/-- Every stored summary was made from all that it stands for. -/
def Covered (s : State) : Prop :=
  SpansCovered env s.spans ∧ ∀ r ∈ s.updates, r.Covered env

/-- The two limits leave nothing out. -/
def Whole (model : String) (maxTurns maxInput : Int) (turns : List Msg) : Prop :=
  turns.length ≤ max 1 maxTurns ∧
    (maxInput ≤ 0 ∨ turns.length ≤ 1 ∨
      ∀ costs, costsOf env model turns = some costs → costs.sum ≤ maxInput)

/-- The summariser is asked, where its answer is stored, and the limits leave nothing out. -/
def NothingLeftOut (s : State) : Event → Prop
  | .span c span => c.get env s span span.length = none →
      Whole env c.model c.turnLimit c.maxInputTokens (toSummarise (baseSummary env c s span) span)
  | .session key model _ r asked messages =>
      updatesSession r messages (s.sessions key) = true →
        sessionContext (s.sessions key) ++ turnsOf messages ≠ [] →
          asked.isSome ∧
            Whole env model 20 0 (sessionContext (s.sessions key) ++ turnsOf messages)
  | _ => True

/-! ## 4. What the limits leave out -/

variable {env}

theorem fitFrom_suffix (maxInput : Int) (turns : List Msg) (costs : List Int) (total : Int) :
    fitFrom maxInput turns costs total <:+ turns := by
  induction turns generalizing costs total with
  | nil => exact List.suffix_refl _
  | cons m rest ih =>
    cases rest with
    | nil => exact List.suffix_refl _
    | cons m' rest =>
      cases costs with
      | nil => exact List.suffix_refl _
      | cons cost costs =>
        rw [fitFrom]
        split
        · exact (ih costs (total - cost)).trans (List.suffix_cons m (m' :: rest))
        · exact List.suffix_refl _

theorem fitFrom_eq_self_iff {maxInput : Int} (hpos : 0 < maxInput) (turns : List Msg)
    (costs : List Int) :
    fitFrom maxInput turns costs costs.sum = turns ↔ turns.length ≤ 1 ∨ costs.sum ≤ maxInput := by
  match turns, costs with
  | [], costs => simp [fitFrom]
  | [m], costs => simp [fitFrom]
  | m :: m' :: rest, [] => simp [fitFrom, hpos.le]
  | m :: m' :: rest, cost :: costs =>
    rw [fitFrom]
    split
    · rename_i hover
      constructor
      · intro heq
        have hlength := (fitFrom_suffix maxInput (m' :: rest) costs
          ((cost :: costs).sum - cost)).length_le
        rw [heq] at hlength
        exact absurd hlength (Nat.not_succ_le_self _)
      · intro h
        rcases h with hlength | hsum
        · simp at hlength
        · omega
    · rename_i hunder
      exact iff_of_true rfl (Or.inr (Int.not_lt.mp hunder))

theorem fitTurnsToBudget_eq_self_iff (model : String) (maxInput : Int) (turns : List Msg) :
    fitTurnsToBudget env model maxInput turns = turns ↔
      (maxInput ≤ 0 ∨ turns.length ≤ 1 ∨
        ∀ costs, costsOf env model turns = some costs → costs.sum ≤ maxInput) := by
  rw [fitTurnsToBudget]
  by_cases hpos : maxInput ≤ 0
  · simp [hpos]
  · cases turns with
    | nil => simp
    | cons m rest =>
      simp only [hpos, decide_false, List.isEmpty_cons, Bool.or_self, Bool.false_eq_true, if_false,
        false_or]
      cases hcosts : costsOf env model (m :: rest) with
      | none => simp
      | some costs =>
        simp only [fitFrom_eq_self_iff (Int.not_le.mp hpos), Option.some.injEq, forall_eq']

/-- **The summariser is shown everything** exactly when the two limits leave nothing out. -/
theorem selectTurns_eq_self_iff (model : String) (maxTurns maxInput : Int) (turns : List Msg) :
    selectTurns env model maxTurns maxInput turns = turns ↔
      Whole env model maxTurns maxInput turns := by
  have hbound : (((max 1 maxTurns).toNat : Nat) : Int) = max 1 maxTurns :=
    Int.toNat_of_nonneg (by omega)
  rw [selectTurns, Whole]
  by_cases hlength : turns.length ≤ (max 1 maxTurns).toNat
  · rw [List.take_of_length_le hlength, fitTurnsToBudget_eq_self_iff]
    exact ⟨fun h => ⟨by omega, h⟩, fun h => h.2⟩
  · constructor
    · intro heq
      have hle : (selectTurns env model maxTurns maxInput turns).length ≤
          (turns.take (max 1 maxTurns).toNat).length := by
        rw [selectTurns, fitTurnsToBudget]
        split
        · exact Nat.le_refl _
        · split
          · exact Nat.le_refl _
          · exact (fitFrom_suffix _ _ _ _).length_le
      rw [selectTurns, heq, List.length_take] at hle
      omega
    · rintro ⟨hle, -⟩
      omega

/-- A part of what follows is a part of the whole. -/
theorem contains_append {before after part : String} (h : part.toList <:+: after.toList) :
    Contains (before ++ after) part := by
  rw [Contains, String.toList_append]
  exact h.trans (List.suffix_append _ _).isInfix

/-- A turn that is shown is in the text. -/
theorem contains_line {turns : List Msg} {m : Msg} (h : m ∈ turns) :
    Contains (summaryPrompt env turns) (line env m) := by
  apply contains_append
  rw [String.toList_intercalate]
  exact Joined.infix_intercalate (List.mem_map_of_mem (List.mem_map_of_mem h))

/-- The line of a message that carries a text, after some words of its own, has it whole. -/
theorem contains_of_line {text words carried : String} {m : Msg}
    (hcontent : m.get "content" = .str (words ++ carried)) (h : Contains text (line env m)) :
    Contains text carried := by
  have hline : Contains (line env m) carried := by
    rw [line, hcontent]
    exact contains_append (contains_append (List.infix_refl _))
  exact List.IsInfix.trans hline h

theorem summarise_text {model : String} {maxTurns maxInput : Int} {asked : Option SummaryReply}
    {turns : List Msg} (hasked : asked.isSome) (hne : turns ≠ [])
    (hwhole : Whole env model maxTurns maxInput turns) :
    (summarise env model maxTurns maxInput asked turns).2 = some (summaryPrompt env turns) := by
  obtain ⟨reply, rfl⟩ := Option.isSome_iff_exists.mp hasked
  simp only [summarise, List.isEmpty_iff, hne, if_false,
    (selectTurns_eq_self_iff _ _ _ _).mpr hwhole]

/-- A summary that is not the failure's text was asked for. -/
theorem asked_of_summarise {model : String} {maxTurns maxInput : Int}
    {asked : Option SummaryReply} {turns : List Msg}
    (hsome : (summarise env model maxTurns maxInput asked turns).1 ≠ "")
    (hfound : (summarise env model maxTurns maxInput asked turns).1 ≠ summaryUnavailable) :
    asked.isSome ∧ turns ≠ [] := by
  unfold summarise at hsome hfound
  split at hsome
  · exact absurd rfl hsome
  · rename_i hne
    rw [if_neg hne] at hfound
    cases asked with
    | none => exact absurd rfl hfound
    | some reply => exact ⟨rfl, by simpa using hne⟩

/-! ## 5. One step -/

/-- What the caches have under a key was stored under it. -/
def Known (env : Outside) (s : State) : Prop :=
  ∀ key value, (s.redis key = some value ∨ ∃ proc, s.locals proc key = some value) →
    ∃ r ∈ s.spans, r.key env = key ∧ r.summary = value

theorem cached_of_get {s : State} {proc : Nat} {up : Bool} {key value : String}
    (h : cachedSummaryGet s proc up key = some value) :
    s.redis key = some value ∨ ∃ proc, s.locals proc key = some value := by
  rw [cachedSummaryGet, Option.or_eq_some_iff] at h
  rcases h with hredis | ⟨-, hlocal⟩
  · split at hredis
    · exact Or.inl (Option.filter_eq_some_iff.mp hredis).1
    · cases hredis
  · exact Or.inr ⟨proc, (Option.filter_eq_some_iff.mp hlocal).1⟩

theorem baseSummary_eq_some {c : SpanCall} {s : State} {span : List Msg} {n : Nat}
    {summary : String} (h : baseSummary env c s span = some (n, summary)) :
    c.get env s span n = some summary := by
  obtain ⟨k, -, hk⟩ := List.exists_of_findSome?_eq_some h
  obtain ⟨found, hget, heq⟩ := Option.map_eq_some_iff.mp hk
  cases heq
  exact hget

theorem known_of_subset {s s' : State} (h : Known env s) (hspans : s'.spans = s.spans)
    (hredis : ∀ key value, s'.redis key = some value → s.redis key = some value)
    (hlocals : ∀ proc key value, s'.locals proc key = some value →
      s.locals proc key = some value) : Known env s' := by
  intro key value hcached
  rw [hspans]
  apply h key value
  rcases hcached with hr | ⟨proc, hl⟩
  · exact Or.inl (hredis key value hr)
  · exact Or.inr ⟨proc, hlocals proc key value hl⟩

theorem cachedSummaryPut_frame (s : State) (proc : Nat) (up : Bool) (key value : String) :
    (cachedSummaryPut s proc up key value).spans = s.spans ∧
      (cachedSummaryPut s proc up key value).updates = s.updates := by
  rw [cachedSummaryPut]
  split
  · exact ⟨rfl, rfl⟩
  · exact ⟨rfl, rfl⟩

theorem known_put {s : State} (h : Known env s) (proc : Nat) (up : Bool)
    (r : SpanRecord) :
    Known env
      { cachedSummaryPut s proc up (r.key env) r.summary with spans := r :: s.spans } := by
  intro key value hcached
  have hold : (s.redis key = some value ∨ ∃ proc, s.locals proc key = some value) →
      ∃ b ∈ r :: s.spans, b.key env = key ∧ b.summary = value := by
    intro hbefore
    obtain ⟨b, hb, hkey⟩ := h key value hbefore
    exact ⟨b, List.mem_cons_of_mem r hb, hkey⟩
  rw [cachedSummaryPut] at hcached
  rcases hcached with hredis | ⟨p, hlocal⟩
  · split at hredis
    · simp only [Function.update_apply] at hredis
      split at hredis
      · rename_i heq
        cases hredis
        exact ⟨r, List.mem_cons_self, heq.symm, rfl⟩
      · exact hold (Or.inl hredis)
    · exact hold (Or.inl hredis)
  · split at hlocal
    · exact hold (Or.inr ⟨p, hlocal⟩)
    · simp only [Function.update_apply] at hlocal
      split at hlocal
      · rename_i hproc
        simp only [Function.update_apply] at hlocal
        split at hlocal
        · rename_i heq
          cases hlocal
          exact ⟨r, List.mem_cons_self, heq.symm, rfl⟩
        · exact hold (Or.inr ⟨proc, hlocal⟩)
      · exact hold (Or.inr ⟨p, hlocal⟩)

/-- A text with everything that was given to the summariser covers the span. -/
theorem covered_whole {s : State} (h : Known env s) (c : SpanCall) (span : List Msg)
    {summary : String} :
    SpanRecord.Covered env s.spans ⟨c.redisPrefix, c.summaryModel, span,
      some (summaryPrompt env (toSummarise (baseSummary env c s span) span)), summary⟩ := by
  refine ⟨_, rfl, ?_⟩
  intro i turn hturn
  cases hbase : baseSummary env c s span with
  | none => exact Or.inl (contains_line (List.mem_of_getElem? hturn))
  | some base =>
    obtain ⟨n, found⟩ := base
    by_cases hi : i < n
    · obtain ⟨b, hb, hkey, hsummary⟩ := h _ _ (cached_of_get (baseSummary_eq_some hbase))
      right
      refine ⟨n, hi, b, hb, hkey, ?_⟩
      rw [hsummary]
      have hcontent : (summaryMsg found).get "content" =
          .str (summaryMarker ++ "\n" ++ found) := rfl
      exact contains_of_line hcontent (contains_line List.mem_cons_self)
    · left
      apply contains_line
      apply List.mem_cons_of_mem
      have hdrop : (span.drop n)[i - n]? = some turn := by
        rw [List.getElem?_drop, Nat.add_sub_cancel' (Nat.not_lt.mp hi)]
        exact hturn
      exact List.mem_of_getElem? hdrop

/-- **One step of G26**: what is stored covers its span. -/
theorem span_step {s : State} {c : SpanCall} {span : List Msg} (hknown : Known env s)
    (hcovered : SpansCovered env s.spans) (hok : NothingLeftOut env s (.span c span)) :
    Known env (summaryForSpan env c span s).2 ∧
      SpansCovered env (summaryForSpan env c span s).2.spans ∧
      (summaryForSpan env c span s).2.updates = s.updates := by
  rw [summaryForSpan]
  cases hexact : c.get env s span span.length with
  | some found => exact ⟨hknown, hcovered, rfl⟩
  | none =>
    have hwhole := hok hexact
    have hasked := @asked_of_summarise env c.model c.turnLimit c.maxInputTokens c.asked
      (toSummarise (baseSummary env c s span) span)
    simp only
    split
    · rename_i hstored
      rw [Bool.and_eq_true, decide_eq_true_eq, decide_eq_true_eq] at hstored
      obtain ⟨hreply, hne⟩ := hasked hstored.1 hstored.2
      rw [summarise_text hreply hne hwhole]
      generalize (summarise env c.model c.turnLimit c.maxInputTokens c.asked
        (toSummarise (baseSummary env c s span) span)).1 = summary
      obtain ⟨hspans, hupdates⟩ := cachedSummaryPut_frame s c.proc c.writeUp
        (summaryCacheKey env c.redisPrefix c.summaryModel span) summary
      simp only [hspans, hupdates]
      exact ⟨known_put hknown c.proc c.writeUp ⟨c.redisPrefix, c.summaryModel, span, _, summary⟩,
        ⟨covered_whole hknown c span, hcovered⟩, trivial⟩
    · exact ⟨hknown, hcovered, rfl⟩

/-- **One update of G10**: what is stored covers the old summary and the turns. -/
theorem session_step {s : State} {key model : String} {window : Int} {r : Replies}
    {asked : Option SummaryReply} {messages : List Msg}
    (hcovered : ∀ u ∈ s.updates, u.Covered env)
    (hok : NothingLeftOut env s (.session key model window r asked messages)) :
    ∀ u ∈ (sessionUpdate env key model window r asked messages s).updates, u.Covered env := by
  intro u hu
  simp only [sessionUpdate] at hu
  split at hu
  · rename_i hupdates
    rcases List.mem_cons.mp hu with rfl | hold
    · have hgiven : ∀ m ∈ sessionContext (s.sessions key) ++ turnsOf messages,
          ∃ text ∈ (summarise env model 20 0 asked
            (sessionContext (s.sessions key) ++ turnsOf messages)).2,
            Contains text (line env m) := by
        intro m hm
        have hne := List.ne_nil_of_mem hm
        obtain ⟨hasked, hwhole⟩ := hok hupdates hne
        exact ⟨_, summarise_text hasked hne hwhole, contains_line hm⟩
      constructor
      · intro hprevious
        have hcontext : contextMsg (storedSummary (s.sessions key)) ∈
            sessionContext (s.sessions key) := by
          rw [sessionContext, if_neg hprevious]
          exact List.mem_singleton_self _
        obtain ⟨text, htext, hline⟩ := hgiven _ (List.mem_append_left _ hcontext)
        have hcontent : (contextMsg (storedSummary (s.sessions key))).get "content" =
            .str ("[Session context]\n" ++ storedSummary (s.sessions key)) := rfl
        exact ⟨text, htext, contains_of_line hcontent hline⟩
      · intro turn hturn
        exact hgiven turn (List.mem_append_right _ hturn)
    · exact hcovered u hold
  · exact hcovered u hu

theorem covered_step {s s' : State} {e : Event} (hknown : Known env s)
    (hcovered : Covered env s) (hok : NothingLeftOut env s e) (hstep : step env s e = some s') :
    Known env s' ∧ Covered env s' := by
  cases e with
  | dropped key =>
    cases hstep
    refine ⟨known_of_subset hknown rfl ?_ fun _ _ _ h => h, hcovered⟩
    intro other value h
    simp only [Function.update_apply] at h
    split at h
    · cases h
    · exact h
  | droppedLocal proc key =>
    cases hstep
    refine ⟨known_of_subset hknown rfl (fun _ _ h => h) ?_, hcovered⟩
    intro p other value h
    simp only [Function.update_apply] at h
    split at h
    · rename_i hproc
      simp only [Function.update_apply] at h
      split at h
      · cases h
      · rw [hproc]
        exact h
    · exact h
  | sessionExpired key =>
    cases hstep
    exact ⟨known_of_subset hknown rfl (fun _ _ h => h) fun _ _ _ h => h, hcovered⟩
  | span c span =>
    cases hstep
    obtain ⟨hknown', hspans, hupdates⟩ := span_step hknown hcovered.1 hok
    refine ⟨hknown', hspans, ?_⟩
    rw [hupdates]
    exact hcovered.2
  | session key model window r asked messages =>
    cases hstep
    exact ⟨known_of_subset hknown rfl (fun _ _ h => h) fun _ _ _ h => h, hcovered.1,
      session_step hcovered.2 hok⟩

/-! ## 6. Runs -/

def start : State := ⟨fun _ => none, fun _ _ => none, fun _ => none, [], []⟩

/-- **A stored summary covers what it stands for**, throughout every run in which the
    summariser, where its answer is stored, is asked and shown all that it is given. -/
theorem stored_covered (env : Outside) (events : List Event)
    (h : AllSteps (step env) (NothingLeftOut env) start events) :
    Always (step env) (Covered env) start events := by
  have hstart : Known env start ∧ Covered env start := by
    refine ⟨?_, trivial, ?_⟩
    · rintro key value (hredis | ⟨proc, hlocal⟩)
      · cases hredis
      · cases hlocal
    · intro u hu
      cases hu
  have hrun := always_of_allSteps (P := fun s => Known env s ∧ Covered env s)
    (fun s e s' hs hok hstep => covered_step hs.1 hs.2 hok hstep) hstart h
  exact hrun.imp fun s hs => hs.2

/-! ## 7. Conversations that outgrow the limits -/

instance (text part : String) : Decidable (Contains text part) :=
  inferInstanceAs (Decidable (part.toList <:+: text.toList))

/-- A turn of the newest span record that neither the text nor any earlier summary in it has. -/
def lostSpanTurn (env : Outside) : List SpanRecord → Bool
  | [] => false
  | r :: earlier => r.text.all fun text => r.span.any fun turn =>
      !decide (Contains text (line env turn)) &&
        earlier.all fun b => !decide (Contains text b.summary)

theorem not_spansCovered_of_lost {records : List SpanRecord}
    (h : lostSpanTurn env records = true) : ¬ SpansCovered env records := by
  cases records with
  | nil => cases h
  | cons r earlier =>
    rintro ⟨⟨text, htext, hturns⟩, -⟩
    rw [Option.mem_def] at htext
    rw [lostSpanTurn, htext, Option.all_some, List.any_eq_true] at h
    obtain ⟨turn, hturn, hlost⟩ := h
    simp only [Bool.and_eq_true, Bool.not_eq_true', decide_eq_false_iff_not,
      List.all_eq_true] at hlost
    obtain ⟨i, hi⟩ := List.getElem?_of_mem hturn
    rcases hturns i turn hi with hline | ⟨n, -, b, hb, -, hbase⟩
    · exact hlost.1 hline
    · exact hlost.2 b hb hbase

theorem mem_summaryPrompt {turns : List Msg} {c : Char}
    (h : c ∈ (summaryPrompt env turns).toList) :
    c ∈ summaryRequest.toList ∨ c ∈ "\n".toList ∨ ∃ m ∈ turns, c ∈ (line env m).toList := by
  rw [summaryPrompt, String.toList_append, String.toList_intercalate] at h
  rcases List.mem_append.mp h with hrequest | hlines
  · exact Or.inl hrequest
  · right
    rcases Joined.mem_of_mem_intercalate hlines with hsep | ⟨l, hl, hc⟩
    · exact Or.inl (hsep ▸ List.mem_singleton_self _)
    · simp only [List.map_map, List.mem_map] at hl
      obtain ⟨m, hm, rfl⟩ := hl
      exact Or.inr ⟨m, hm, hc⟩

def said (role text : String) : Msg := ⟨[("role", .str role), ("content", .str text)]⟩

/-- Four characters a token; a conversation is known by its number of messages. -/
def sample : Outside where
  strOf _ := ""
  estimateTokens text _ := some (text.length / 4)
  fingerprint span := if span.length = 2 then "two" else "other"

/-- Twenty-one turns, the last of them with the only `z`. -/
def longHistory : List Msg := List.replicate 20 (said "user" "go") ++ [said "user" "my zip is 8047"]

/-- The first request of a session. -/
def longSession : List Event :=
  [.session "t:acme:s1" "gpt-4o" 50 ⟨true, true, .failed, .failed, .failed⟩
    (some (.text "Greetings.")) longHistory]

def spanCall (reply : String) : SpanCall where
  proc := 0
  redisPrefix := "t:acme:"
  model := "gpt-4o"
  summaryModel := "gpt-4o-mini"
  maxInputTokens := 12
  up _ := true
  writeUp := true
  asked := some (.text reply)

/-- A span that is summarised, and then grows by a turn. -/
def growingSpan : List Event :=
  [.span (spanCall "Gate 7.") [said "user" "gate 7?", said "assistant" "yes"],
    .span (spanCall "A delay.") [said "user" "gate 7?", said "assistant" "yes",
      said "user" "there is a delay"]]

theorem notMem_append_ofList {c : Char} {l l' : List Char} (h : c ∉ l) (h' : c ∉ l') :
    c ∉ (String.ofList l ++ String.ofList l').toList := by
  rw [String.toList_append, String.toList_ofList, String.toList_ofList, List.mem_append, not_or]
  exact ⟨h, h'⟩

theorem z_notMem_summaryRequest : 'z' ∉ summaryRequest.toList :=
  notMem_append_ofList (by decide) (by decide)

theorem not_stored_covered :
    ¬ Always (step sample) (Covered sample) start longSession ∧
      ¬ Always (step sample) (Covered sample) start growingSpan := by
  constructor
  · intro h
    have hrun : Execution.exec (step sample) start longSession =
        some (sessionUpdate sample "t:acme:s1" "gpt-4o" 50 ⟨true, true, .failed, .failed, .failed⟩
          (some (.text "Greetings.")) longHistory start) := rfl
    obtain ⟨text, htext, hline⟩ :=
      ((h.last hrun).2 _ List.mem_cons_self).2 (said "user" "my zip is 8047") (by decide)
    have hshown : text = summaryPrompt sample (List.replicate 20 (said "user" "go")) :=
      (Option.some.inj htext).symm
    have hz : 'z' ∈ (line sample (said "user" "my zip is 8047")).toList := by decide
    rw [hshown] at hline
    rcases mem_summaryPrompt (hline.subset hz) with hrequest | hsep | ⟨m, hm, hchar⟩
    · exact absurd hrequest z_notMem_summaryRequest
    · exact absurd hsep (by decide)
    · rw [List.eq_of_mem_replicate hm] at hchar
      exact absurd hchar (by decide)
  · intro h
    have hlost : (Execution.exec (step sample) start growingSpan).map
        (fun s => lostSpanTurn sample s.spans) = some true := by decide +kernel
    obtain ⟨s, hrun, hturn⟩ := Option.map_eq_some_iff.mp hlost
    exact not_spansCovered_of_lost hturn (h.last hrun).1

/-- A session of a question and an answer, and the next question of it. -/
def shortSession : List Event :=
  [.session "t:acme:s1" "gpt-4o" 50 ⟨true, true, .failed, .failed, .failed⟩ (some (.text "Gate 7"))
      [said "user" "gate 7?"],
    .session "t:acme:s1" "gpt-4o" 50 ⟨true, true, .failed, .failed, .failed⟩ (some (.text "Late."))
      [said "user" "is it late?"]]

theorem stored_covered_short : Always (step sample) (Covered sample) start shortSession := by
  apply stored_covered
  apply allSteps_cons rfl
  · intro _ _
    exact ⟨rfl, by decide, Or.inl (by decide)⟩
  · apply allSteps_cons rfl
    · intro _ _
      exact ⟨rfl, by decide +kernel, Or.inl (by decide)⟩
    · trivial

end TokenProxy.History
