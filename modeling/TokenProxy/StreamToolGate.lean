/-
  TokenProxy/StreamToolGate.lean
  ==============================
  **The tool gate on a streamed answer** (`StreamToolGate`,
  `middleware/g32_tool_eligibility.py`, and its use in `main._stream_response`).

  Chunks arrive one by one; each carries fragments of tool calls, and a call is
  known by its choice and its index.  The gate keeps one verdict for each call,
  taken at the first name it sees there, and relays or drops every later fragment
  of that call by it.

  A chunk is reduced to what matters for that, the list of its fragments with
  their keys (`chunkCalls`); on these lists the gate is a small machine
  (`keepFlat`), and what it relays is decided by the first name alone
  (`mem_keepFlat_iff`).  So the gate keeps its promise exactly for the streams
  that name each call once and whole (`streamSafe_iff_steadyNames`).
-/
import TokenProxy.ToolEligibility

namespace TokenProxy.Tools

/-! ## 1. The gate -/

/-- A call: its choice and its index in that choice. -/
abbrev CallKey := Json.DictKey × Json.DictKey

structure StreamToolGate where
  mode : GateMode
  policy : ToolPolicy
  verdicts : Dict CallKey Bool := ∅
  held : Dict CallKey (List Json) := ∅
  denied : List Json := []
  stripped : Bool := false

def callKey? (choiceIdx entry : Json) : Option CallKey := do
  let choice ← choiceIdx.dictKey?
  let index ← (entry.getD "index" (.int 0)).dictKey?
  return (choice, index)

/-- The name that a fragment carries, `null` when it carries none. -/
def entryName (entry : Json) : Json :=
  let fn := entry.getD "function" .null
  if fn.isObj then fn.getD "name" .null else .null

namespace StreamToolGate

/-- Evaluate a name, and record it when it is denied. -/
def allowed (gate : StreamToolGate) (name : Json) : Bool × StreamToolGate :=
  if (evaluateTool gate.policy name).allowed then (true, gate)
  else (false, { gate with denied := gate.denied ++ [name.orElse (.str "<unnamed>")] })

/-- Whether one fragment may be relayed; the first name of a call settles all of them. -/
def keep (gate : StreamToolGate) (choiceIdx entry : Json) :
    Except PyError Bool × StreamToolGate :=
  if !entry.isObj then (.ok true, gate)
  else
    match callKey? choiceIdx entry with
    | none => (.error .unhashable, gate)
    | some idx =>
      match gate.verdicts.get? idx with
      | some verdict => (.ok verdict, gate)
      | none =>
        let name := entryName entry
        if name.truthy then
          let (ok, asked) := gate.allowed name
          (.ok ok, { asked with verdicts := asked.verdicts.set idx ok })
        else
          -- no name yet: it cannot be evaluated, so it is not relayed
          (.ok false, { gate with
            held := gate.held.set idx ((gate.held.get? idx).getD [] ++ [entry]) })

/-- `[c for c in calls if self._keep(choice_idx, c)]`. -/
def keepAll (choiceIdx : Json) : StreamToolGate → List Json →
    Except PyError (List Json) × StreamToolGate
  | gate, [] => (.ok [], gate)
  | gate, entry :: entries =>
    match gate.keep choiceIdx entry with
    | (.error err, gate) => (.error err, gate)
    | (.ok relayed, gate) =>
      match keepAll choiceIdx gate entries with
      | (.error err, gate) => (.error err, gate)
      | (.ok kept, gate) => (.ok (if relayed then entry :: kept else kept), gate)

end StreamToolGate

/-- The fragments of a choice, when its delta holds a list of them. -/
def deltaCalls (choice : Json) : List Json :=
  ((choice.getD "delta" .null).getD "tool_calls" .null).items?.getD []

/-- The choice with the fragments that are kept. -/
def strip (choice : Json) (kept : List Json) : Json :=
  let delta := choice.getD "delta" .null
  if !kept.isEmpty then choice.set "delta" (delta.set "tool_calls" (.arr kept))
  else
    let stripped := choice.set "delta" (delta.pop "tool_calls")
    if stripped.get? "finish_reason" = some (.str "tool_calls") then
      stripped.set "finish_reason" (.str "stop")
    else stripped

/-- The choices as the walk leaves them; an exception ends it where it stands. -/
structure Walk where
  choices : List Json
  touched : Bool := false
  raised : Option PyError := none
  gate : StreamToolGate

namespace StreamToolGate

def walk : StreamToolGate → List Json → Walk
  | gate, [] => { choices := [], gate }
  | gate, choice :: rest =>
    let calls := deltaCalls choice
    match gate.keepAll (choice.getD "index" (.int 0)) calls with
    | (.error err, gate) => { choices := choice :: rest, raised := some err, gate }
    | (.ok kept, gate) =>
      if kept.length = calls.length then
        let walked := gate.walk rest
        { walked with choices := choice :: walked.choices }
      else if gate.mode ≠ .block then
        let walked := gate.walk rest
        { walked with choices := choice :: walked.choices, touched := true }
      else
        let walked := { gate with stripped := true }.walk rest
        { walked with choices := strip choice kept :: walked.choices, touched := true }

/-- The choice still carries something for the client.  A delta that is no dict raises here,
    and the chunk goes out. -/
def carries (choice : Json) : Bool :=
  let delta := (choice.getD "delta" .null).orElse (.obj [])
  !delta.isObj || decide (delta.getD "content" .null ≠ .null) || (delta.getD "tool_calls" .null).truthy ||
    (choice.getD "finish_reason" .null).truthy

/-- `_tool_gate.filter(cd)` in the stream loop: what is relayed of the chunk, and the gate.  An
    exception is logged there and the chunk goes out as the walk left it. -/
def relay (gate : StreamToolGate) (chunk : Json) : Option Json × StreamToolGate :=
  if gate.mode = .off || !chunk.isObj then (some chunk, gate)
  else if (choices chunk).isEmpty then (some chunk, gate)
  else
    let walked := gate.walk (choices chunk)
    let chunk := chunk.set "choices" (.arr walked.choices)
    if walked.raised.isSome then (some chunk, walked.gate)
    else if !walked.touched || decide (gate.mode ≠ .block) then (some chunk, walked.gate)
    else if (walked.choices.filter Json.isObj).any carries then (some chunk, walked.gate)
    else (none, walked.gate)

/-- The chunks of a stream, as they reach the client. -/
def relayAll : StreamToolGate → List Json → List Json
  | _, [] => []
  | gate, chunk :: chunks =>
    let relayed := gate.relay chunk
    relayed.1.toList ++ relayAll relayed.2 chunks

end StreamToolGate

/-- `stream_gate` and the loop: a policy that can deny nothing builds no gate. -/
def relayStream (policy : ToolPolicy) (cfg : GateConfig) (chunks : List Json) : List Json :=
  if !cfg.enabled || decide (cfg.mode = .off) || policy.isNoop then chunks
  else StreamToolGate.relayAll { mode := cfg.mode, policy } chunks

/-! ## 2. The fragments of a chunk -/

/-- The fragments among `entries`, each with the call it belongs to. -/
def keyedCalls (choiceIdx : Json) (entries : List Json) : List (CallKey × Json) :=
  entries.filterMap fun entry =>
    if entry.isObj then (callKey? choiceIdx entry).map fun key => (key, entry) else none

def choiceCalls (choice : Json) : List (CallKey × Json) :=
  keyedCalls (choice.getD "index" (.int 0)) (deltaCalls choice)

def chunkCalls (chunk : Json) : List (CallKey × Json) := (choices chunk).flatMap choiceCalls

/-- Every fragment has a key: its indices are missing or can be dict keys, as integers can. -/
def Keyed (choice : Json) : Prop :=
  ∀ entry ∈ deltaCalls choice, entry.isObj = true →
    (callKey? (choice.getD "index" (.int 0)) entry).isSome = true

/-! ## 3. The gate as a machine on fragments -/

/-- One fragment: whether it is relayed, and the verdicts after it. -/
def judge (policy : ToolPolicy) (verdicts : Dict CallKey Bool) (call : CallKey × Json) :
    Bool × Dict CallKey Bool :=
  match verdicts.get? call.1 with
  | some verdict => (verdict, verdicts)
  | none =>
    if (entryName call.2).truthy then
      ((evaluateTool policy (entryName call.2)).allowed,
        verdicts.set call.1 (evaluateTool policy (entryName call.2)).allowed)
    else (false, verdicts)

def keepFlat (policy : ToolPolicy) :
    Dict CallKey Bool → List (CallKey × Json) → List (CallKey × Json)
  | _, [] => []
  | verdicts, call :: calls =>
    let judged := judge policy verdicts call
    if judged.1 then call :: keepFlat policy judged.2 calls else keepFlat policy judged.2 calls

def verdictsAfter (policy : ToolPolicy) (verdicts : Dict CallKey Bool)
    (calls : List (CallKey × Json)) : Dict CallKey Bool :=
  calls.foldl (fun v call => (judge policy v call).2) verdicts

theorem keepFlat_append (policy : ToolPolicy) (verdicts : Dict CallKey Bool)
    (xs ys : List (CallKey × Json)) :
    keepFlat policy verdicts (xs ++ ys) =
      keepFlat policy verdicts xs ++ keepFlat policy (verdictsAfter policy verdicts xs) ys := by
  induction xs generalizing verdicts with
  | nil => rfl
  | cons x xs ih =>
    simp only [List.cons_append, keepFlat, verdictsAfter, List.foldl_cons]
    split
    · rw [ih, List.cons_append]
      rfl
    · rw [ih]
      rfl

namespace StreamToolGate

/-- `after` has seen `calls` since `before`. -/
structure Tracks (before after : StreamToolGate) (calls : List (CallKey × Json)) : Prop where
  policy : after.policy = before.policy
  mode : after.mode = before.mode
  verdicts : after.verdicts = verdictsAfter before.policy before.verdicts calls

theorem Tracks.refl (gate : StreamToolGate) : Tracks gate gate [] := ⟨rfl, rfl, rfl⟩

theorem Tracks.trans {g g' g'' : StreamToolGate} {xs ys : List (CallKey × Json)}
    (h : Tracks g g' xs) (h' : Tracks g' g'' ys) : Tracks g g'' (xs ++ ys) := by
  refine ⟨h'.policy.trans h.policy, h'.mode.trans h.mode, ?_⟩
  rw [h'.verdicts, h.verdicts, h.policy, verdictsAfter, verdictsAfter, verdictsAfter,
    List.foldl_append]

/-- A fragment with a key is judged. -/
theorem keep_spec (gate : StreamToolGate) {choiceIdx entry : Json} {key : CallKey} (hobj : entry.isObj = true)
    (hkey : callKey? choiceIdx entry = some key) :
    (gate.keep choiceIdx entry).1 = .ok (judge gate.policy gate.verdicts (key, entry)).1 ∧
      Tracks gate (gate.keep choiceIdx entry).2 [(key, entry)] := by
  unfold keep judge
  rw [if_neg (by rw [hobj]; simp), hkey]
  dsimp only
  cases hv : gate.verdicts.get? key with
  | some verdict =>
    refine ⟨rfl, rfl, rfl, ?_⟩
    simp [verdictsAfter, judge, hv]
  | none =>
    dsimp only
    by_cases hname : (entryName entry).truthy = true
    · rw [if_pos hname, if_pos hname]
      unfold allowed
      cases hok : (evaluateTool gate.policy (entryName entry)).allowed with
      | true =>
        refine ⟨rfl, rfl, rfl, ?_⟩
        simp [verdictsAfter, judge, hv, hname, hok]
      | false =>
        refine ⟨rfl, rfl, rfl, ?_⟩
        simp [verdictsAfter, judge, hv, hname, hok]
    · rw [if_neg hname, if_neg hname]
      refine ⟨rfl, rfl, rfl, ?_⟩
      simp [verdictsAfter, judge, hv, hname]

/-- The entries of one choice: those kept are the fragments that the machine keeps, and what
    is no fragment stays. -/
theorem keepAll_spec (gate : StreamToolGate) {choiceIdx : Json} (entries : List Json)
    (hkeyed : ∀ entry ∈ entries, entry.isObj = true →
      (callKey? choiceIdx entry).isSome = true) :
    ∃ kept after, gate.keepAll choiceIdx entries = (.ok kept, after) ∧
      List.Sublist kept entries ∧ Tracks gate after (keyedCalls choiceIdx entries) ∧
      keyedCalls choiceIdx kept =
        keepFlat gate.policy gate.verdicts (keyedCalls choiceIdx entries) := by
  induction entries generalizing gate with
  | nil => exact ⟨[], gate, rfl, List.Sublist.slnil, Tracks.refl gate, rfl⟩
  | cons entry entries ih =>
    have htail : ∀ e ∈ entries, e.isObj = true → (callKey? choiceIdx e).isSome = true :=
      fun e he => hkeyed e (List.mem_cons_of_mem entry he)
    by_cases hobj : entry.isObj = true
    · obtain ⟨key, hkey⟩ := Option.isSome_iff_exists.mp (hkeyed entry List.mem_cons_self hobj)
      have hcons : ∀ es, keyedCalls choiceIdx (entry :: es) =
          (key, entry) :: keyedCalls choiceIdx es := fun es =>
        List.filterMap_cons_some (by rw [if_pos hobj, hkey]; rfl)
      obtain ⟨hjudged, htracks⟩ := keep_spec gate hobj hkey
      cases hkeep : gate.keep choiceIdx entry with
      | mk answer g' =>
        rw [hkeep] at hjudged htracks
        dsimp only at hjudged htracks
        obtain ⟨kept, after, hrest, hsub, hafter, hflat⟩ := ih g' htail
        have hverdicts : g'.verdicts = (judge gate.policy gate.verdicts (key, entry)).2 :=
          htracks.verdicts
        rw [htracks.policy, hverdicts] at hflat
        have hall : gate.keepAll choiceIdx (entry :: entries) =
            (.ok (if (judge gate.policy gate.verdicts (key, entry)).1 then entry :: kept
              else kept), after) := by
          rw [keepAll, hkeep, hjudged]
          dsimp only
          rw [hrest]
        rw [hcons entries]
        refine ⟨_, after, hall, ?_, htracks.trans hafter, ?_⟩
        · split
          · exact hsub.cons_cons entry
          · exact hsub.cons entry
        · rw [keepFlat]
          split
          · rw [hcons, hflat]
          · exact hflat
    · have hkeep : gate.keep choiceIdx entry = (.ok true, gate) := if_pos (by simpa using hobj)
      obtain ⟨kept, after, hrest, hsub, hafter, hflat⟩ := ih gate htail
      have hnone : ∀ es, keyedCalls choiceIdx (entry :: es) = keyedCalls choiceIdx es := fun es =>
        List.filterMap_cons_none (if_neg hobj)
      refine ⟨entry :: kept, after, ?_, hsub.cons_cons entry, ?_, ?_⟩
      · rw [keepAll, hkeep]
        dsimp only
        rw [hrest]
        rfl
      · rw [hnone]
        exact hafter
      · rw [hnone, hnone]
        exact hflat

end StreamToolGate

/-! ## 4. A choice, a chunk, a stream -/

theorem deltaCalls_ne_nil {choice : Json} (h : deltaCalls choice ≠ []) :
    ∃ fields delta, choice = .obj fields ∧ choice.getD "delta" .null = .obj delta := by
  cases choice with
  | obj fields =>
    cases hdelta : Json.getD (.obj fields) "delta" .null with
    | obj delta => exact ⟨fields, delta, rfl, rfl⟩
    | _ =>
      rw [deltaCalls, hdelta] at h
      exact absurd rfl h
  | _ => exact absurd rfl h

theorem choiceCalls_set (choice : Json) {key : String} (hindex : "index" ≠ key)
    (hdelta : "delta" ≠ key) (v : Json) : choiceCalls (choice.set key v) = choiceCalls choice := by
  rw [choiceCalls, deltaCalls, Json.getD_set_of_ne _ hindex, Json.getD_set_of_ne _ hdelta]
  rfl

theorem choiceCalls_setDelta (fields : List (String × Json)) (delta : Json) :
    choiceCalls (Json.set (.obj fields) "delta" delta) =
      keyedCalls (Json.getD (.obj fields) "index" (.int 0))
        ((delta.getD "tool_calls" .null).items?.getD []) := by
  rw [choiceCalls, deltaCalls, Json.getD_set_of_ne _ (by decide), Json.getD_set_self]

/-- Stripping a choice leaves the kept fragments, under the same choice index. -/
theorem choiceCalls_strip {choice : Json} (h : deltaCalls choice ≠ []) (kept : List Json) :
    choiceCalls (strip choice kept) = keyedCalls (choice.getD "index" (.int 0)) kept := by
  obtain ⟨fields, delta, rfl, hdelta⟩ := deltaCalls_ne_nil h
  unfold strip
  rw [hdelta]
  dsimp only
  by_cases hkept : kept.isEmpty = true
  · obtain rfl := List.isEmpty_iff.mp hkept
    have hnone : choiceCalls (Json.set (.obj fields) "delta"
        (Json.pop (.obj delta) "tool_calls")) = [] := by
      rw [choiceCalls_setDelta, Json.getD_pop_self]
      rfl
    rw [if_neg (by simp)]
    split
    · rw [choiceCalls_set _ (by decide) (by decide), hnone]
      rfl
    · exact hnone
  · rw [if_pos (by simpa using hkept), choiceCalls_setDelta, Json.getD_set_self]
    rfl

namespace StreamToolGate

/-- The walk over the choices, in block mode. -/
theorem walk_spec (gate : StreamToolGate) (hmode : gate.mode = .block) (cs : List Json)
    (hkeyed : ∀ choice ∈ cs, Keyed choice) :
    (gate.walk cs).raised = none ∧ Tracks gate (gate.walk cs).gate (cs.flatMap choiceCalls) ∧
      (gate.walk cs).choices.flatMap choiceCalls =
        keepFlat gate.policy gate.verdicts (cs.flatMap choiceCalls) := by
  induction cs generalizing gate with
  | nil => exact ⟨rfl, Tracks.refl gate, rfl⟩
  | cons choice rest ih =>
    obtain ⟨kept, after, hall, hsub, htracks, hflat⟩ :=
      keepAll_spec gate (deltaCalls choice) (hkeyed choice List.mem_cons_self)
    have hrest := fun g hg => ih g hg fun c hc => hkeyed c (List.mem_cons_of_mem choice hc)
    unfold walk
    dsimp only
    rw [hall]
    dsimp only
    by_cases hlen : kept.length = (deltaCalls choice).length
    · rw [if_pos hlen]
      obtain ⟨hraised, hafter, hchoices⟩ := hrest after (htracks.mode.trans hmode)
      have hsame : kept = deltaCalls choice := hsub.eq_of_length hlen
      refine ⟨hraised, htracks.trans hafter, ?_⟩
      rw [List.flatMap_cons, List.flatMap_cons, keepFlat_append, hchoices, htracks.policy,
        htracks.verdicts]
      rw [hsame] at hflat
      exact congrArg (· ++ _) hflat
    · have hne : deltaCalls choice ≠ [] := by
        intro hnil
        rw [hnil] at hsub hlen
        exact hlen (by rw [List.sublist_nil.mp hsub])
      rw [if_neg hlen, if_neg (by rw [htracks.mode, hmode]; simp)]
      obtain ⟨hraised, hafter, hchoices⟩ :=
        hrest { after with stripped := true } (htracks.mode.trans hmode)
      have hstripped : Tracks gate { after with stripped := true } (choiceCalls choice) :=
        ⟨htracks.policy, htracks.mode, htracks.verdicts⟩
      refine ⟨hraised, hstripped.trans hafter, ?_⟩
      rw [List.flatMap_cons, List.flatMap_cons, keepFlat_append, hchoices, choiceCalls_strip hne,
        hflat]
      dsimp only
      rw [htracks.policy, htracks.verdicts]
      rfl

/-- A choice that carries nothing has no fragments. -/
theorem choiceCalls_of_not_carries {choice : Json} (h : carries choice = false) :
    choiceCalls choice = [] := by
  have hfalsy : (((choice.getD "delta" .null).orElse (.obj [])).getD "tool_calls" .null).truthy =
      false := by
    simp only [carries, Bool.or_eq_false_iff] at h
    exact h.1.2
  have hnil : deltaCalls choice = [] := by
    rw [deltaCalls]
    unfold Json.orElse at hfalsy
    split at hfalsy
    · cases hcalls : (choice.getD "delta" .null).getD "tool_calls" .null with
      | arr items =>
        rw [hcalls] at hfalsy
        cases items with
        | nil => rfl
        | cons item items => cases hfalsy
      | _ => rfl
    · rename_i hdelta
      cases hobj : choice.getD "delta" .null with
      | obj fields =>
        rw [hobj] at hdelta
        cases fields with
        | nil => rfl
        | cons field fields => exact absurd rfl hdelta
      | _ => rfl
  rw [choiceCalls, hnil]
  rfl

theorem chunkCalls_set (fields : List (String × Json)) (cs : List Json) :
    chunkCalls (Json.set (.obj fields) "choices" (.arr cs)) = cs.flatMap choiceCalls := by
  rw [chunkCalls, choices_set]

/-- One chunk, in block mode: what reaches the client is what the machine keeps. -/
theorem relay_spec (gate : StreamToolGate) (hmode : gate.mode = .block) {chunk : Json}
    (hkeyed : ∀ choice ∈ choices chunk, Keyed choice) :
    Tracks gate (gate.relay chunk).2 (chunkCalls chunk) ∧
      (gate.relay chunk).1.toList.flatMap chunkCalls =
        keepFlat gate.policy gate.verdicts (chunkCalls chunk) := by
  have hpass : ∀ g : StreamToolGate, chunkCalls chunk = [] →
      Tracks g g (chunkCalls chunk) ∧ [chunk].flatMap chunkCalls =
        keepFlat g.policy g.verdicts (chunkCalls chunk) := by
    intro g hnil
    rw [hnil, List.flatMap_singleton, hnil]
    exact ⟨Tracks.refl g, rfl⟩
  unfold relay
  rw [hmode]
  by_cases hobj : chunk.isObj = true
  · rw [if_neg (by simp [hobj])]
    by_cases hempty : (choices chunk).isEmpty = true
    · rw [if_pos hempty]
      exact hpass gate (by rw [chunkCalls, List.isEmpty_iff.mp hempty]; rfl)
    · rw [if_neg hempty]
      obtain ⟨hraised, htracks, hflat⟩ := walk_spec gate hmode (choices chunk) hkeyed
      cases chunk with
      | obj fields =>
        have hemit : [Json.set (.obj fields) "choices"
            (.arr (gate.walk (choices (.obj fields))).choices)].flatMap chunkCalls =
            keepFlat gate.policy gate.verdicts (chunkCalls (.obj fields)) := by
          rw [List.flatMap_singleton, chunkCalls_set]
          exact hflat
        dsimp only
        rw [hraised, if_neg (by simp)]
        split
        · exact ⟨htracks, hemit⟩
        · split
          · exact ⟨htracks, hemit⟩
          · rename_i hnothing
            refine ⟨htracks, Eq.trans ?_ hflat⟩
            refine (List.flatMap_eq_nil_iff.mpr fun choice hchoice => ?_).symm
            by_cases hdict : choice.isObj = true
            · refine choiceCalls_of_not_carries ?_
              have hall := List.any_eq_false.mp (Bool.not_eq_true _ ▸ hnothing) choice
                (List.mem_filter.mpr ⟨hchoice, hdict⟩)
              simpa using hall
            · cases choice with
              | obj fields => exact absurd rfl hdict
              | _ => rfl
      | _ => cases hobj
  · rw [if_pos (by simpa using hobj)]
    refine hpass gate ?_
    cases chunk with
    | obj fields => exact absurd rfl hobj
    | _ => rfl

/-- The whole stream, in block mode. -/
theorem relayAll_spec (gate : StreamToolGate) (hmode : gate.mode = .block) (chunks : List Json)
    (hkeyed : ∀ chunk ∈ chunks, ∀ choice ∈ choices chunk, Keyed choice) :
    (gate.relayAll chunks).flatMap chunkCalls =
      keepFlat gate.policy gate.verdicts (chunks.flatMap chunkCalls) := by
  induction chunks generalizing gate with
  | nil => rfl
  | cons chunk chunks ih =>
    obtain ⟨htracks, hrelayed⟩ := relay_spec gate hmode (hkeyed chunk List.mem_cons_self)
    have hrest := ih (gate.relay chunk).2 (htracks.mode.trans hmode)
      fun c hc => hkeyed c (List.mem_cons_of_mem chunk hc)
    rw [relayAll, List.flatMap_append, hrelayed, hrest, List.flatMap_cons, keepFlat_append,
      htracks.policy, htracks.verdicts]

end StreamToolGate

/-! ## 5. The first name decides -/

/-- The first name sent for a call. -/
def firstName (key : CallKey) (calls : List (CallKey × Json)) : Option Json :=
  ((calls.filter fun call => call.1 = key).map fun call => entryName call.2).find? Json.truthy

/-- A name was sent for the call, and the policy allows the first one. -/
def firstNameAllowed (policy : ToolPolicy) (key : CallKey) (calls : List (CallKey × Json)) :
    Bool :=
  match firstName key calls with
  | some name => (evaluateTool policy name).allowed
  | none => false

theorem firstName_concat (key : CallKey) (calls : List (CallKey × Json))
    (call : CallKey × Json) :
    firstName key (calls ++ [call]) = (firstName key calls).or
      (if call.1 = key ∧ (entryName call.2).truthy = true then some (entryName call.2)
        else none) := by
  unfold firstName
  rw [List.filter_append, List.map_append, List.find?_append]
  congr 1
  by_cases hkey : call.1 = key
  · by_cases hname : (entryName call.2).truthy = true
    · simp [hkey, hname]
    · simp [hkey, hname]
  · simp [hkey]

/-- The table holds the verdict on the first name of every call seen so far. -/
def Settled (policy : ToolPolicy) (done : List (CallKey × Json)) (verdicts : Dict CallKey Bool) :
    Prop :=
  ∀ key, verdicts.get? key =
    (firstName key done).map fun name => (evaluateTool policy name).allowed

theorem Settled.judge {policy : ToolPolicy} {done : List (CallKey × Json)}
    {verdicts : Dict CallKey Bool} (h : Settled policy done verdicts) (call : CallKey × Json) :
    (judge policy verdicts call).1 = firstNameAllowed policy call.1 (done ++ [call]) ∧
      Settled policy (done ++ [call]) (judge policy verdicts call).2 := by
  have hkey := h call.1
  have hconcat := firstName_concat call.1 done call
  unfold Tools.judge firstNameAllowed
  cases hfirst : firstName call.1 done with
  | some name =>
    -- the call was named before: its verdict stands
    rw [hfirst, Option.map_some] at hkey
    rw [hfirst, Option.some_or] at hconcat
    rw [hkey, hconcat]
    refine ⟨rfl, fun key => ?_⟩
    rw [h key, firstName_concat]
    by_cases hsame : call.1 = key
    · rw [← hsame, hfirst]
      rfl
    · rw [if_neg (fun hc => hsame hc.1), Option.or_none]
  | none =>
    rw [hfirst, Option.map_none] at hkey
    rw [hfirst, Option.none_or] at hconcat
    rw [hkey, hconcat]
    dsimp only
    by_cases hname : (entryName call.2).truthy = true
    · -- this is the call's first name
      rw [if_pos hname, if_pos ⟨rfl, hname⟩]
      refine ⟨rfl, fun key => ?_⟩
      rw [Dict.get?_set, firstName_concat]
      by_cases hsame : key = call.1
      · rw [if_pos hsame, hsame, hfirst, if_pos ⟨rfl, hname⟩]
        rfl
      · rw [if_neg hsame, if_neg (fun hc => hsame hc.1.symm), Option.or_none]
        exact h key
    · rw [if_neg hname, if_neg (fun hc => hname hc.2)]
      refine ⟨rfl, fun key => ?_⟩
      rw [h key, firstName_concat, if_neg (fun hc => hname hc.2), Option.or_none]

/-- A fragment is relayed exactly when the first name of its call, up to and including this
    fragment, is allowed. -/
theorem mem_keepFlat_iff {policy : ToolPolicy} {done calls : List (CallKey × Json)}
    {verdicts : Dict CallKey Bool} (h : Settled policy done verdicts) (call : CallKey × Json) :
    call ∈ keepFlat policy verdicts calls ↔
      ∃ before after, calls = before ++ call :: after ∧
        firstNameAllowed policy call.1 (done ++ before ++ [call]) = true := by
  induction calls generalizing done verdicts with
  | nil => simp [keepFlat]
  | cons head calls ih =>
    obtain ⟨hjudged, hsettled⟩ := h.judge head
    have htail := ih hsettled
    have hsplit : (∃ before after, head :: calls = before ++ call :: after ∧
        firstNameAllowed policy call.1 (done ++ before ++ [call]) = true) ↔
        (call = head ∧ firstNameAllowed policy call.1 (done ++ [call]) = true) ∨
          call ∈ keepFlat policy (judge policy verdicts head).2 calls := by
      rw [htail]
      constructor
      · rintro ⟨before, after, heq, hallowed⟩
        cases before with
        | nil =>
          obtain ⟨rfl, -⟩ := List.cons.inj heq
          exact Or.inl ⟨rfl, by rwa [List.append_nil] at hallowed⟩
        | cons b before =>
          obtain ⟨rfl, hrest⟩ := List.cons.inj heq
          refine Or.inr ⟨before, after, hrest, ?_⟩
          rwa [List.append_assoc done, List.singleton_append]
      · rintro (⟨rfl, hallowed⟩ | ⟨before, after, heq, hallowed⟩)
        · exact ⟨[], calls, rfl, by rwa [List.append_nil]⟩
        · refine ⟨head :: before, after, by rw [heq]; rfl, ?_⟩
          rwa [List.append_assoc done, List.singleton_append] at hallowed
    rw [hsplit, keepFlat]
    split
    · rename_i hkept
      rw [List.mem_cons]
      constructor
      · rintro (rfl | hmem)
        · exact Or.inl ⟨rfl, hjudged ▸ hkept⟩
        · exact Or.inr hmem
      · rintro (⟨rfl, -⟩ | hmem)
        · exact Or.inl rfl
        · exact Or.inr hmem
    · rename_i hdropped
      constructor
      · exact Or.inr
      · rintro (⟨rfl, hallowed⟩ | hmem)
        · exact absurd (hjudged.trans hallowed) hdropped
        · exact hmem

/-! ## 6. What the gate owes a stream -/

/-- The names sent for a call, in order. -/
def sentNames (key : CallKey) (calls : List (CallKey × Json)) : List String :=
  ((calls.filter fun call => call.1 = key).filterMap fun call => (entryName call.2).str?).filter
    (· ≠ "")

def carriesArguments (entry : Json) : Bool :=
  let fn := entry.getD "function" .null
  fn.isObj && (fn.getD "arguments" .null).truthy

section

variable (policy : ToolPolicy) (assemble : List String → String)

/-- A fragment that may reach the client: it carries no denied name, and no arguments of a call
    whose name is denied.  `assemble` is how the client puts the names of a call together. -/
def FragmentSafe (calls : List (CallKey × Json)) (call : CallKey × Json) : Prop :=
  policy.denies (entryName call.2) = false ∧
    (carriesArguments call.2 = true →
      policy.denies (.str (assemble (sentNames call.1 calls))) = false)

def StreamSafe (sent relayed : List Json) : Prop :=
  ∀ call ∈ relayed.flatMap chunkCalls, FragmentSafe policy assemble (sent.flatMap chunkCalls) call

/-- Wherever the first name of a call is allowed, the call keeps to allowed names from there
    on, and goes by an allowed name as a whole if it sends arguments. -/
def SteadyNames (calls : List (CallKey × Json)) : Prop :=
  ∀ before call after, calls = before ++ call :: after →
    firstNameAllowed policy call.1 (before ++ [call]) = true →
      FragmentSafe policy assemble calls call

/-- **The exact condition.**  A gated stream is safe exactly when its calls are steadily
    named. -/
theorem streamSafe_iff_steadyNames (cfg : GateConfig) (henabled : cfg.enabled = true)
    (hmode : cfg.mode = .block) (chunks : List Json)
    (hkeyed : ∀ chunk ∈ chunks, ∀ choice ∈ choices chunk, Keyed choice) :
    StreamSafe policy assemble chunks (relayStream policy cfg chunks) ↔
      SteadyNames policy assemble (chunks.flatMap chunkCalls) := by
  unfold relayStream
  by_cases hnoop : policy.isNoop = true
  · have hsafe : ∀ call, FragmentSafe policy assemble (chunks.flatMap chunkCalls) call :=
      fun call => ⟨not_denies_of_noop hnoop _, fun _ => not_denies_of_noop hnoop _⟩
    exact iff_of_true (fun call _ => hsafe call) (fun _ call _ _ _ => hsafe call)
  · rw [if_neg (by simp [henabled, hmode, hnoop])]
    have hsettled : Settled policy [] (∅ : Dict CallKey Bool) := fun key => rfl
    have hrelayed := StreamToolGate.relayAll_spec { mode := cfg.mode, policy } hmode chunks hkeyed
    constructor
    · intro hsafe before call after heq hallowed
      refine hsafe call ?_
      rw [hrelayed]
      exact (mem_keepFlat_iff hsettled call).mpr ⟨before, after, heq, hallowed⟩
    · intro hsteady call hcall
      rw [hrelayed] at hcall
      obtain ⟨before, after, heq, hallowed⟩ := (mem_keepFlat_iff hsettled call).mp hcall
      exact hsteady before call after heq hallowed

end

/-- Two calls of one choice, each named once and whole; the second is dropped. -/
theorem streamSafe_iff_steadyNames_two_calls :
    let policy : ToolPolicy := { deny := ["shell_exec"] }
    let fragment (index : Int) (fields : List (String × Json)) : Json :=
      .obj [("index", .int index), ("function", .obj fields)]
    let chunk (calls : List Json) : Json :=
      .obj [("choices", .arr [.obj [("index", .int 0), ("delta",
        .obj [("tool_calls", .arr calls)])]])]
    let sent : List Json :=
      [chunk [fragment 0 [("name", .str "search")], fragment 1 [("name", .str "shell_exec")]],
        chunk [fragment 0 [("arguments", .str "cats")], fragment 1 [("arguments", .str "ls")]]]
    StreamSafe policy String.join sent (relayStream policy { mode := .block } sent) ↔
      SteadyNames policy String.join (sent.flatMap chunkCalls) := by
  intro policy fragment chunk sent
  refine streamSafe_iff_steadyNames policy String.join { mode := .block } rfl rfl sent ?_
  intro c hc choice hchoice entry hentry hobj
  rcases List.mem_cons.mp hc with rfl | hc
  · rw [List.mem_singleton.mp hchoice] at hentry ⊢
    rcases List.mem_cons.mp hentry with rfl | hentry
    · rfl
    · rw [List.mem_singleton.mp hentry]
      rfl
  · rw [List.mem_singleton.mp hc] at hchoice
    rw [List.mem_singleton.mp hchoice] at hentry ⊢
    rcases List.mem_cons.mp hentry with rfl | hentry
    · rfl
    · rw [List.mem_singleton.mp hentry]
      rfl

/-- An allowed name and then, under the same index, a denied one: both are relayed. -/
theorem not_streamSafe_index_reused :
    let policy : ToolPolicy := { deny := ["shell_exec"] }
    let chunk (name arguments : String) : Json :=
      .obj [("choices", .arr [.obj [("index", .int 0), ("delta",
        .obj [("tool_calls", .arr [.obj [("index", .int 0), ("function",
          .obj [("name", .str name), ("arguments", .str arguments)])]])])]])]
    let sent : List Json := [chunk "search" "cats", chunk "shell_exec" "ls"]
    relayStream policy { mode := .block } sent = sent ∧
      ¬ StreamSafe policy String.join sent (relayStream policy { mode := .block } sent) := by
  intro policy chunk sent
  have hrelayed : relayStream policy { mode := .block } sent = sent := by rfl
  refine ⟨hrelayed, fun hsafe => ?_⟩
  rw [hrelayed] at hsafe
  have hdenied : policy.denies (.str "shell_exec") = true := by decide
  have hnone := (hsafe ((.number 0, .number 0), .obj [("index", .int 0), ("function",
    .obj [("name", .str "shell_exec"), ("arguments", .str "ls")])]) (by decide)).1
  rw [show entryName _ = Json.str "shell_exec" from rfl, hdenied] at hnone
  cases hnone

end TokenProxy.Tools
