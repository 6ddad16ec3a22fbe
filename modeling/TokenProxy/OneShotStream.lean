/-
  TokenProxy/OneShotStream.lean
  =============================
  **A whole completion sent as the stream that the client asked for**
  (`_completion_to_stream_chunk`, `_one_shot_stream`, `_openai_one_shot_stream` of `main.py`).

  A cache hit, a bypass or a refusal comes as one body, and its client may be reading a stream.
  The body is turned into one chunk: the message becomes the delta, and every tool call gets the
  index that the stream translators tell calls apart by.

  Main result: `one_shot_as_whole`, the chunk is the completion, uncut: through either translator
  the client is served what it would have been served without streaming, and an OpenAI client is
  sent the completion.
-/
import TokenProxy.StreamedAsWhole

namespace TokenProxy.Protocols

/-! ## 1. The chunk -/

/-- `{**tc, "index": tc.get("index", i)}`. -/
def stampCall (i : Nat) (tc : Json) : Option Json :=
  if tc.isObj then some (tc.set "index" (tc.getD "index" (.int i))) else none

/-- The calls from the one with the number `i` on. -/
def stampCalls : Nat → List Json → Option (List Json)
  | _, [] => some []
  | i, tc :: tcs =>
    (stampCall i tc).bind fun stamped => (stampCalls (i + 1) tcs).map (stamped :: ·)

/-- The delta that a message becomes. -/
def streamDelta (message : Json) : Option Json :=
  let delta := orEmpty message
  let tcs := delta.getD "tool_calls" .null
  if delta.isObj then
    if tcs.truthy then
      ((itemsOf tcs).bind (stampCalls 0)).map fun stamped => delta.set "tool_calls" (.arr stamped)
    else some delta
  else none

def streamChoice (choice : Json) : Option Json :=
  if choice.isObj then
    (streamDelta (choice.getD "message" .null)).map fun delta =>
      (choice.pop "message").set "delta" delta
  else none

/-- `_completion_to_stream_chunk`; `none` where it raises. -/
def completionToStreamChunk (body : Json) : Option Json :=
  if body.isObj then
    ((itemsOf (body.getD "choices" .null)).bind (List.mapM streamChoice)).map fun choices =>
      (body.pop "choices").set "choices" (.arr choices)
  else none

/-- The frames of `_openai_one_shot_stream`, before `[DONE]`. -/
def openaiOneShot (now : Int) (withholdUsage : Bool) (body : Json) : Option (List Json) := do
  let chunk ← completionToStreamChunk body
  let chunk := (chunk.set "object" (.str "chat.completion.chunk")).setDefault "created" (.int now)
  let usage := chunk.getD "usage" .null
  let chunk := chunk.pop "usage"
  let head := ["id", "object", "created", "model"].filterMap fun key =>
    (chunk.get? key).map fun value => (key, value)
  let last := ((Json.obj head).set "choices" (.arr [])).set "usage" usage
  some (if usage.truthy && !withholdUsage then [chunk, last] else [chunk])

/-- The tool calls of a completion with one choice. -/
def callsOf (body : Json) : List Json :=
  ((firstChoice body).bind fun choice =>
    itemsOf ((choice.getD "message" .null).getD "tool_calls" .null)).getD []

/-- The indices that calls are told apart by, their own where they have any. -/
def indicesFrom : Nat → List Json → List Json
  | _, [] => []
  | i, tc :: tcs => tc.getD "index" (.int i) :: indicesFrom (i + 1) tcs

/-- The calls carry no index, as in a completion, or indices in order, as in one that was put
    together from a stream. -/
def IndexedInOrder (body : Json) (indices : List Int) : Prop :=
  indicesFrom 0 (callsOf body) = indices.map Json.int ∧ indices.Pairwise (· < ·)

theorem indicesFrom_unindexed {tcs : List Json} (h : ∀ tc ∈ tcs, tc.get? "index" = none) (i : Nat) :
    indicesFrom i tcs = (List.range' i tcs.length).map fun n : Nat => Json.int n := by
  induction tcs generalizing i with
  | nil => rfl
  | cons tc tcs ih =>
    simp [indicesFrom, Json.getD, h tc List.mem_cons_self, List.range'_succ,
      ih (fun c hc => h c (List.mem_cons_of_mem tc hc)) (i + 1)]

/-- The calls of a completion carry no index. -/
theorem indexedInOrder_of_unindexed {body : Json}
    (h : ∀ tc ∈ callsOf body, tc.get? "index" = none) :
    IndexedInOrder body ((List.range (callsOf body).length).map Int.ofNat) := by
  constructor
  · rw [indicesFrom_unindexed h, List.range_eq_range', List.map_map]
    rfl
  · rw [List.pairwise_map]
    exact List.pairwise_lt_range.imp fun hlt => Int.ofNat_lt.mpr hlt

/-! ## 2. What the chunk says -/

/-- A call, whole, under its index. -/
def wholeCall (index : Int) (call : Call) : Fragment where
  index := index
  id := some call.id
  name := some call.name
  arguments := some call.args

/-- The completion in one chunk. -/
def Completion.oneChunk (w : Completion) (indices : List Int) : Chunk where
  text := w.text
  fragments := List.zipWith wholeCall indices w.calls
  finishReason := w.finishReason
  usage := w.usage

theorem index_mem_of_mem_zipWith {indices : List Int} {calls : List Call} {f : Fragment}
    (h : f ∈ List.zipWith wholeCall indices calls) : f.index ∈ indices := by
  induction indices generalizing calls with
  | nil => simp at h
  | cons index indices ih =>
    cases calls with
    | nil => simp at h
    | cons call calls =>
      rcases List.mem_cons.mp h with rfl | h
      · exact List.mem_cons_self
      · exact List.mem_cons_of_mem index (ih h)

/-- An index finds its call. -/
theorem filter_zipWith_wholeCall {indices : List Int} {calls : List Call}
    (hsorted : indices.Pairwise (· < ·)) (hlength : indices.length = calls.length) :
    List.Forall₂ (fun index call =>
      (List.zipWith wholeCall indices calls).filter (fun f => f.index = index) =
        [wholeCall index call]) indices calls := by
  induction indices generalizing calls with
  | nil =>
    obtain rfl := List.length_eq_zero_iff.mp hlength.symm
    exact .nil
  | cons index indices ih =>
    cases calls with
    | nil => cases hlength
    | cons call calls =>
      obtain ⟨hbelow, hsorted⟩ := List.pairwise_cons.mp hsorted
      constructor
      · have hnone : (List.zipWith wholeCall indices calls).filter
            (fun f => f.index = index) = [] := by
          rw [List.filter_eq_nil_iff]
          intro f hf
          have hlt := hbelow f.index (index_mem_of_mem_zipWith hf)
          simp [hlt.ne']
        simp [hnone, wholeCall]
      · have hrest := ih hsorted (Nat.succ.inj hlength)
        rw [List.forall₂_iff_zip] at hrest ⊢
        refine ⟨hrest.1, ?_⟩
        intro other otherCall hmem
        have hlt := hbelow other (List.of_mem_zip hmem).1
        have hne : index ≠ other := hlt.ne
        simpa [wholeCall, hne] using hrest.2 hmem

theorem isCut_of_filter {fragments : List Fragment} {index : Int} {call : Call}
    (h : fragments.filter (fun f => f.index = index) = [wholeCall index call]) :
    IsCut fragments index call := by
  have honly : ∀ f ∈ fragments, f.index = index → f = wholeCall index call := by
    intro f hf hindex
    have hmem : f ∈ fragments.filter (fun f => f.index = index) :=
      List.mem_filter.mpr ⟨hf, decide_eq_true hindex⟩
    rw [h] at hmem
    exact List.mem_singleton.mp hmem
  have hmem : wholeCall index call ∈ fragments := by
    have hfiltered : wholeCall index call ∈ fragments.filter (fun f => f.index = index) := by
      rw [h]
      exact List.mem_singleton_self _
    exact (List.mem_filter.mp hfiltered).1
  constructor
  · simp [h, wholeCall, concat]
  · intro f hf hindex
    rw [honly f hf hindex]
    exact Or.inr rfl
  · intro f hf hindex
    rw [honly f hf hindex]
    exact Or.inr rfl
  · exact ⟨_, hmem, rfl, rfl⟩
  · exact ⟨_, hmem, rfl, rfl⟩

theorem splits_oneChunk (w : Completion) {indices : List Int}
    (hsorted : indices.Pairwise (· < ·)) (hlength : indices.length = w.calls.length) :
    Splits w [w.oneChunk indices] := by
  have hfragments : allFragments [w.oneChunk indices] =
      List.zipWith wholeCall indices w.calls := by
    simp [allFragments, Completion.oneChunk]
  constructor
  · simp [concat, Chunk.piece, Completion.oneChunk]
  · rw [hfragments]
    refine ⟨indices, hsorted, ?_, fun f hf => index_mem_of_mem_zipWith hf⟩
    exact (filter_zipWith_wholeCall hsorted hlength).imp fun _ _ h => isCut_of_filter h
  · intro c hc
    rw [List.mem_singleton.mp hc]
    exact Or.inr rfl
  · intro _
    exact ⟨_, List.mem_singleton_self _, rfl⟩
  · exact List.pairwise_singleton _ _
  · cases husage : w.usage <;> simp [Completion.oneChunk, husage]
  · intro u hu last hlast
    have hu : u = last := by simpa [Completion.oneChunk, hlast, eq_comm] using hu
    rw [hu]
    exact ⟨le_refl _, le_refl _⟩

/-! ## 3. The chunk is it -/

theorem isObj_set {value : Json} (h : value.isObj = true) (key : String) (v : Json) :
    (value.set key v).isObj = true := by
  cases value with
  | obj fields => rfl
  | _ => cases h

theorem isObj_pop {value : Json} (h : value.isObj = true) (key : String) :
    (value.pop key).isObj = true := by
  cases value with
  | obj fields => rfl
  | _ => cases h

theorem get?_set_self_of_isObj {value : Json} (h : value.isObj = true) (key : String) (v : Json) :
    (value.set key v).get? key = some v := by
  cases value with
  | obj fields => exact Json.get?_set_self fields key v
  | _ => cases h

theorem stampCalls_of_isCall {items : List Json} {calls : List Call}
    (hitems : List.Forall₂ IsCall items calls) {i : Nat} {indices : List Int}
    (hindices : indicesFrom i items = indices.map Json.int) :
    ∃ stamped, stampCalls i items = some stamped ∧ indices.length = calls.length ∧
      List.Forall₂ IsFragment stamped (List.zipWith wholeCall indices calls) := by
  induction hitems generalizing i indices with
  | nil =>
    obtain rfl := List.map_eq_nil_iff.mp hindices.symm
    exact ⟨[], rfl, rfl, .nil⟩
  | @cons item call items calls hitem hitems ih =>
    cases indices with
    | nil => cases hindices
    | cons index indices =>
      obtain ⟨hindex, hindices⟩ := List.cons.inj hindices
      obtain ⟨stamped, hstamped, hlength, hfragments⟩ := ih hindices
      have hobj : item.isObj = true := isObj_of_get? (get?_of_getD_str hitem.id)
      have hfn := isObj_of_get? (get?_of_getD_str hitem.name)
      refine ⟨item.set "index" (.int index) :: stamped, ?_, by simp [hlength], ?_⟩
      · rw [stampCalls, stampCall, if_pos hobj, hindex, Option.bind_some, hstamped]
        rfl
      · refine .cons ?_ hfragments
        have hfunction : (item.set "index" (.int index)).getD "function" .null =
            item.getD "function" .null := Json.getD_set_of_ne item (by decide) _ _
        constructor
        · exact getD_of_get? (get?_set_self_of_isObj hobj _ _)
        · rw [Json.getD_set_of_ne item (by decide)]
          exact hitem.id
        · rw [hfunction, orEmpty_of_isObj hfn]
          exact hfn
        · rw [hfunction, orEmpty_of_isObj hfn]
          exact hitem.name
        · rw [hfunction, orEmpty_of_isObj hfn]
          exact hitem.args

/-- The delta of a message says what the message says. -/
theorem streamDelta_of_isList {message : Json} (hobj : message.isObj = true) {calls : List Call}
    (hcalls : IsList IsCall (message.getD "tool_calls" .null) calls) {indices : List Int}
    (hindices : indicesFrom 0 ((itemsOf (message.getD "tool_calls" .null)).getD []) =
      indices.map Json.int) :
    ∃ delta, streamDelta message = some delta ∧ delta.isObj = true ∧
      delta.getD "content" .null = message.getD "content" .null ∧
      indices.length = calls.length ∧
      IsList IsFragment (delta.getD "tool_calls" .null) (List.zipWith wholeCall indices calls) := by
  rcases hcalls with ⟨hnull, rfl⟩ | ⟨items, hitems, hcalls⟩
  · rw [hnull] at hindices
    have hnone : indices = [] := List.map_eq_nil_iff.mp hindices.symm
    refine ⟨message, ?_, hobj, rfl, by simp [hnone], Or.inl ⟨hnull, by simp⟩⟩
    simp [streamDelta, orEmpty_of_isObj hobj, hobj, hnull, Json.truthy]
  cases items with
  | nil =>
    cases hcalls
    rw [hitems] at hindices
    have hnone : indices = [] := List.map_eq_nil_iff.mp hindices.symm
    refine ⟨message, ?_, hobj, rfl, by simp [hnone], Or.inr ⟨[], hitems, by simp⟩⟩
    simp [streamDelta, orEmpty_of_isObj hobj, hobj, hitems, Json.truthy]
  | cons item items =>
    have hread : itemsOf (.arr (item :: items)) = some (item :: items) := rfl
    rw [hitems, hread] at hindices
    obtain ⟨stamped, hstamped, hlength, hfragments⟩ := stampCalls_of_isCall hcalls hindices
    refine ⟨message.set "tool_calls" (.arr stamped), ?_, isObj_set hobj _ _,
      Json.getD_set_of_ne message (by decide) _ _, hlength, Or.inr ⟨stamped, ?_, hfragments⟩⟩
    · simp [streamDelta, orEmpty_of_isObj hobj, hobj, hitems, hread, hstamped, Json.truthy]
    · exact getD_of_get? (get?_set_self_of_isObj hobj _ _)

/-- The chunk of a completion is the completion in one chunk. -/
theorem isChunk_completionToStreamChunk {resp : Json} {w : Completion} (h : IsCompletion resp w)
    {indices : List Int} (hindices : IndexedInOrder resp indices) :
    ∃ chunk, completionToStreamChunk resp = some chunk ∧ IsChunk chunk (w.oneChunk indices) ∧
      indices.length = w.calls.length := by
  obtain ⟨choice, message, hchoices, hmessage, hmessageObj, hfinish, htext, hcalls⟩ := h.choice
  have hresp := isObj_of_get? hchoices
  have hchoice := isObj_of_get? hmessage
  have hfirst := firstChoice_of_get? hchoices
  have hread := hindices.1
  rw [callsOf, hfirst, Option.bind_some, getD_of_get? hmessage] at hread
  obtain ⟨delta, hdelta, hdeltaObj, hcontent, hlength, hfragments⟩ :=
    streamDelta_of_isList hmessageObj hcalls hread
  have hpopped := isObj_pop hchoice "message"
  have hstreamed : streamChoice choice = some ((choice.pop "message").set "delta" delta) := by
    rw [streamChoice, if_pos hchoice, getD_of_get? hmessage, hdelta]
    rfl
  have hitems : itemsOf (.arr [choice]) = some [choice] := rfl
  refine ⟨(resp.pop "choices").set "choices"
    (.arr [(choice.pop "message").set "delta" delta]), ?_, ?_, hlength⟩
  · rw [completionToStreamChunk, if_pos hresp, getD_of_get? hchoices, hitems]
    simp [hstreamed]
  · refine ⟨isObj_set (isObj_pop hresp _) _ _, ?_, ?_⟩
    · refine ⟨_, delta, firstChoice_of_get? (get?_set_self_of_isObj (isObj_pop hresp _) _ _),
        isObj_set hpopped _ _, ?_, hdeltaObj, ?_, hcontent.trans htext, hfragments⟩
      · rw [getD_of_get? (get?_set_self_of_isObj hpopped _ _), orEmpty_of_isObj hdeltaObj]
      · rw [Json.getD_set_of_ne _ (by decide), Json.getD_pop_of_ne choice (by decide)]
        exact hfinish
    · rw [Json.getD_set_of_ne _ (by decide), Json.getD_pop_of_ne resp (by decide)]
      exact h.usage

/-! ## 4. The frames for an OpenAI client -/

/-- The completion that the client is told of. -/
def Completion.told (w : Completion) (withholdUsage : Bool) : Completion :=
  if withholdUsage then { w with usage := none } else w

/-- The usage comes last, in a chunk of its own. -/
theorem splits_usage_last {w : Completion} {c : Chunk} (h : Splits { w with usage := none } [c])
    {usage : Nat × Nat} (husage : w.usage = some usage) :
    Splits w [c, ⟨none, [], none, some usage⟩] := by
  have hfragments : allFragments [c, ⟨none, [], none, some usage⟩] = allFragments [c] := by
    simp [allFragments]
  have hnone : c.usage = none := by
    cases hc : c.usage with
    | none => rfl
    | some u => simpa [hc] using h.usage
  constructor
  · simpa [concat, Chunk.piece] using h.text
  · rw [hfragments]
    exact h.calls
  · intro chunk hchunk
    rcases List.mem_cons.mp hchunk with rfl | hchunk
    · exact h.finish chunk (List.mem_singleton_self _)
    · rw [List.mem_singleton.mp hchunk]
      exact Or.inl rfl
  · intro hsome
    obtain ⟨chunk, hchunk, hfinish⟩ := h.finished hsome
    exact ⟨chunk, by simp [List.mem_singleton.mp hchunk], hfinish⟩
  · exact List.pairwise_pair.mpr fun _ => ⟨rfl, rfl⟩
  · simp [hnone, husage]
  · intro u hu last hlast
    have hu : u = usage := by simpa [hnone] using hu
    have hlast : usage = last := Option.some.inj (husage.symm.trans hlast)
    rw [hu, hlast]
    exact ⟨le_refl _, le_refl _⟩

theorem firstChoice_congr {body body' : Json} (h : body.isObj = true) (h' : body'.isObj = true)
    (hchoices : body'.getD "choices" .null = body.getD "choices" .null) :
    firstChoice body' = firstChoice body := by
  rw [firstChoice, firstChoice, getField_of_isObj h, getField_of_isObj h', hchoices]

theorem isObj_setDefault {value : Json} (h : value.isObj = true) (key : String) (v : Json) :
    (value.setDefault key v).isObj = true := by
  rw [Json.setDefault]
  split
  · exact h
  · exact isObj_set h key v

theorem getD_setDefault_of_ne (value : Json) {key other : String} (h : other ≠ key)
    (v fallback : Json) :
    (value.setDefault key v).getD other fallback = value.getD other fallback := by
  rw [Json.setDefault]
  split
  · rfl
  · exact Json.getD_set_of_ne value h v fallback

theorem isChunk_usage {head : List (String × Json)} {value : Json} {usage : Option (Nat × Nat)}
    (h : IsUsage value usage) :
    IsChunk (((Json.obj head).set "choices" (.arr [])).set "usage" value)
      ⟨none, [], none, usage⟩ := by
  have hobj : ((Json.obj head).set "choices" (.arr [])).isObj = true := rfl
  have hchoices : (((Json.obj head).set "choices" (.arr [])).set "usage" value).getD "choices"
      .null = .arr [] := by
    rw [Json.getD_set_of_ne _ (by decide)]
    exact Json.getD_set_self head _ _ _
  constructor
  · exact isObj_set hobj _ _
  · refine ⟨.obj [], .obj [], ?_, rfl, rfl, rfl, rfl, rfl, Or.inl ⟨rfl, rfl⟩⟩
    rw [firstChoice, getField_of_isObj (isObj_set hobj _ _), hchoices]
    rfl
  · rw [getD_of_get? (get?_set_self_of_isObj hobj _ _)]
    exact h

theorem openaiOneShot_splits {resp : Json} {w : Completion} (h : IsCompletion resp w)
    {indices : List Int} (hindices : IndexedInOrder resp indices) (now : Int)
    (withholdUsage : Bool) :
    ∃ frames chunks, openaiOneShot now withholdUsage resp = some frames ∧
      List.Forall₂ IsChunk frames chunks ∧ Splits (w.told withholdUsage) chunks := by
  obtain ⟨chunk, hchunk, his, hlength⟩ := isChunk_completionToStreamChunk h hindices
  obtain ⟨choice, delta, hfirst, hrest⟩ := his.choice
  let named := (chunk.set "object" (.str "chat.completion.chunk")).setDefault "created" (.int now)
  have hnamed : named.isObj = true := isObj_setDefault (isObj_set his.isObj _ _) _ _
  have hkeep : ∀ key, key ≠ "object" → key ≠ "created" →
      named.getD key .null = chunk.getD key .null := by
    intro key hobject hcreated
    rw [getD_setDefault_of_ne _ hcreated, Json.getD_set_of_ne _ hobject]
  have husage : IsUsage (named.getD "usage" .null) w.usage := by
    rw [hkeep "usage" (by decide) (by decide)]
    exact his.usage
  have hbare : IsChunk (named.pop "usage")
      (Completion.oneChunk { w with usage := none } indices) := by
    refine ⟨isObj_pop hnamed _, ⟨choice, delta, ?_, hrest⟩, Or.inl ⟨?_, rfl⟩⟩
    · rw [← hfirst]
      apply firstChoice_congr his.isObj (isObj_pop hnamed _)
      rw [Json.getD_pop_of_ne _ (by decide)]
      exact hkeep "choices" (by decide) (by decide)
    · exact Json.getD_pop_self _ _ _
  have hsplits := splits_oneChunk { w with usage := none } hindices.2 hlength
  have hframes : openaiOneShot now withholdUsage resp = some
      (if (named.getD "usage" .null).truthy && !withholdUsage then
        [named.pop "usage", ((Json.obj (["id", "object", "created", "model"].filterMap fun key =>
          ((named.pop "usage").get? key).map fun value => (key, value))).set "choices"
            (.arr [])).set "usage" (named.getD "usage" .null)]
      else [named.pop "usage"]) := by
    rw [openaiOneShot, hchunk]
    rfl
  rw [hframes]
  rcases husage with ⟨hnull, hnone⟩ | ⟨prompt, completion, hsome, hprompt, hcompletion⟩
  · have htold : w.told withholdUsage = { w with usage := none } := by
      cases withholdUsage with
      | true => rfl
      | false =>
        rw [← hnone]
        rfl
    rw [hnull, htold]
    exact ⟨_, _, rfl, .cons hbare .nil, hsplits⟩
  · rw [truthy_of_get? hprompt]
    cases withholdUsage with
    | true => exact ⟨_, _, rfl, .cons hbare .nil, hsplits⟩
    | false =>
      have hlast : IsUsage (named.getD "usage" .null) (some (prompt, completion)) :=
        Or.inr ⟨prompt, completion, rfl, hprompt, hcompletion⟩
      exact ⟨_, _, rfl, .cons hbare (.cons (isChunk_usage hlast) .nil),
        splits_usage_last hsplits hsome⟩

/-! ## 5. Served as a whole -/

/-- **A completion sent as a stream is served as it is without one**: whatever completion comes
    from the cache or a short cut, its one chunk makes either translator emit a well-formed stream
    with the content, the reason and the usage of the whole message, and the frames for an OpenAI
    client are the completion, its usage last or withheld. -/
theorem one_shot_as_whole {loads : String → Option Json}
    -- a blank text is no JSON
    (hblank : ∀ s, KeyStore.strip s = "" → loads s = none)
    {w : Completion} {resp : Json} (hresp : IsCompletion resp w)
    (hcalls : ∀ call ∈ w.calls, Callable loads call)
    {indices : List Int} (hindices : IndexedInOrder resp indices)
    (now : Int) (withholdUsage : Bool) :
    ∃ chunk, completionToStreamChunk resp = some chunk ∧
      (∃ events served message, anthropicEvents [chunk] = some events ∧ WellFormed events ∧
        assembled loads events = some served ∧ serialiseAnthropic loads resp = some message ∧
        nonEmpty served.content = nonEmpty message.content ∧
        served.stopReason = message.stopReason ∧ served.usage = message.usage) ∧
      (∃ frames served message, geminiFrames loads [chunk] = some frames ∧
        assembledGemini frames = some served ∧ serialiseGemini loads resp = some message ∧
        nonEmpty (joined served.content) = nonEmpty message.content ∧
        served.stopReason = message.stopReason ∧ served.usage = message.usage) ∧
      ∃ frames chunks, openaiOneShot now withholdUsage resp = some frames ∧
        List.Forall₂ IsChunk frames chunks ∧ Splits (w.told withholdUsage) chunks := by
  obtain ⟨chunk, hchunk, his, hlength⟩ := isChunk_completionToStreamChunk hresp hindices
  have hsplit := splits_oneChunk w hindices.2 hlength
  have hbodies : List.Forall₂ IsChunk [chunk] [w.oneChunk indices] := .cons his .nil
  refine ⟨chunk, hchunk, ?_, ?_, openaiOneShot_splits hresp hindices now withholdUsage⟩
  · obtain ⟨events, hevents, hassembled⟩ := assembled_events hblank hsplit hcalls hbodies
    obtain ⟨message, hmessage, hcontent, hreason, husage⟩ :=
      @serialiseAnthropic_of_isCompletion loads _ _ _ hresp hsplit
    exact ⟨events, _, message, hevents, wellFormed_of_assembled hassembled, hassembled, hmessage,
      hcontent.symm, hreason.symm, husage.symm⟩
  · obtain ⟨frames, served, hframes, hassembled, hcontent, hreason, husage, -⟩ :=
      assembled_frames hblank hsplit hcalls hbodies
    obtain ⟨message, hmessage, hcontent', hreason', husage', -⟩ :=
      @serialiseGemini_of_isCompletion loads _ _ _ hresp hsplit
    exact ⟨frames, served, message, hframes, hassembled, hmessage, hcontent.trans hcontent'.symm,
      hreason.trans hreason'.symm, husage.trans husage'.symm⟩

theorem one_shot_as_whole_weather :
    ∃ chunk events served message, completionToStreamChunk WeatherCall.resp = some chunk ∧
      anthropicEvents [chunk] = some events ∧ WellFormed events ∧
      assembled WeatherCall.loads events = some served ∧
      serialiseAnthropic WeatherCall.loads WeatherCall.resp = some message ∧
      nonEmpty served.content = nonEmpty message.content ∧
      served.stopReason = message.stopReason ∧ served.usage = message.usage := by
  have hindices : IndexedInOrder WeatherCall.resp _ := indexedInOrder_of_unindexed (by decide)
  obtain ⟨chunk, hchunk, ⟨events, served, message, hserved⟩, -, -⟩ :=
    one_shot_as_whole WeatherCall.loads_blank WeatherCall.resp_isCompletion WeatherCall.callable
      hindices 0 false
  exact ⟨chunk, events, served, message, hchunk, hserved⟩

end TokenProxy.Protocols
