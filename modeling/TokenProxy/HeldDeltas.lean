/-
  TokenProxy/HeldDeltas.lean
  ==========================
  **Fragments that come before the name** (`StreamToolGate._keep`, `filter` and `finish`,
  `middleware/g32_tool_eligibility.py`).

  What a call sends before its name cannot be judged yet, and is held.  When the name comes and
  is allowed, only what follows is relayed: nothing takes the held fragments out again.

  Main result: `delivered_iff`, the arguments of every allowed call are delivered exactly when
  each such call sends its name with or before its first piece of arguments.
-/
import TokenProxy.GatedStream

namespace TokenProxy.Tools

/-! ## 1. What is owed -/

/-- The fragments of a call that carry arguments, in the order of the chunks. -/
def argumentFragments (key : CallKey) (chunks : List Json) : List (CallKey × Json) :=
  (chunks.flatMap chunkCalls).filter fun call => decide (call.1 = key) && carriesArguments call.2

/-- Every call whose first name is allowed has its arguments relayed: all of them, in order, and
    each once. -/
def Delivered (policy : ToolPolicy) (sent relayed : List Json) : Prop :=
  ∀ key, firstNameAllowed policy key (sent.flatMap chunkCalls) = true →
    argumentFragments key relayed = argumentFragments key sent

/-- An allowed call is named when its arguments begin. -/
def NamedFirst (policy : ToolPolicy) (calls : List (CallKey × Json)) : Prop :=
  ∀ before call after, calls = before ++ call :: after → carriesArguments call.2 = true →
    firstNameAllowed policy call.1 calls = true →
      (firstName call.1 (before ++ [call])).isSome = true

/-! ## 2. What the machine keeps -/

theorem keepFlat_sublist (policy : ToolPolicy) (verdicts : Dict CallKey Bool)
    (calls : List (CallKey × Json)) : (keepFlat policy verdicts calls).Sublist calls := by
  induction calls generalizing verdicts with
  | nil => exact List.Sublist.slnil
  | cons call calls ih =>
    rw [keepFlat]
    split
    · exact (ih _).cons_cons call
    · exact (ih _).cons call

/-- Of the fragments with a property all are kept exactly when each comes with or after an
    allowed first name. -/
theorem filter_keepFlat_iff {policy : ToolPolicy} {done calls : List (CallKey × Json)}
    {verdicts : Dict CallKey Bool} (h : Settled policy done verdicts)
    (p : CallKey × Json → Bool) :
    (keepFlat policy verdicts calls).filter p = calls.filter p ↔
      ∀ before call after, calls = before ++ call :: after → p call = true →
        firstNameAllowed policy call.1 (done ++ before ++ [call]) = true := by
  induction calls generalizing done verdicts with
  | nil =>
    refine iff_of_true rfl fun before call after hnil => ?_
    exact absurd hnil.symm (List.append_ne_nil_of_right_ne_nil _ (List.cons_ne_nil _ _))
  | cons head calls ih =>
    obtain ⟨hjudged, hsettled⟩ := h.judge head
    have htail := ih hsettled
    have hsplit : (∀ before call after, head :: calls = before ++ call :: after → p call = true →
        firstNameAllowed policy call.1 (done ++ before ++ [call]) = true) ↔
        (p head = true → firstNameAllowed policy head.1 (done ++ [head]) = true) ∧
          (keepFlat policy (judge policy verdicts head).2 calls).filter p = calls.filter p := by
      rw [htail]
      constructor
      · intro hall
        refine ⟨fun hp => ?_, fun before call after heq hp => ?_⟩
        · have hhead := hall [] head calls rfl hp
          rwa [List.append_nil] at hhead
        · have hlater := hall (head :: before) call after (by rw [heq]; rfl) hp
          rwa [List.append_assoc done, List.singleton_append]
      · rintro ⟨hhead, hlater⟩ before call after heq hp
        cases before with
        | nil =>
          obtain ⟨rfl, -⟩ := List.cons.inj heq
          rw [List.append_nil]
          exact hhead hp
        | cons b before =>
          obtain ⟨rfl, hrest⟩ := List.cons.inj heq
          have hafter := hlater before call after hrest hp
          rwa [List.append_assoc done, List.singleton_append] at hafter
    rw [hsplit, keepFlat, hjudged]
    cases hp : p head with
    | false =>
      rw [List.filter_cons_of_neg (by rw [hp]; exact Bool.false_ne_true)]
      split
      · rw [List.filter_cons_of_neg (by rw [hp]; exact Bool.false_ne_true)]
        exact ⟨fun heq => ⟨fun hcon => absurd hcon Bool.false_ne_true, heq⟩, fun h => h.2⟩
      · exact ⟨fun heq => ⟨fun hcon => absurd hcon Bool.false_ne_true, heq⟩, fun h => h.2⟩
    | true =>
      rw [List.filter_cons_of_pos hp]
      split
      · next hallowed =>
        rw [List.filter_cons_of_pos hp, List.cons.injEq]
        exact ⟨fun heq => ⟨fun _ => hallowed, heq.2⟩, fun h => ⟨rfl, h.2⟩⟩
      · next hdropped =>
        -- one fragment too few is left
        refine iff_of_false (fun heq => ?_) fun h => hdropped (h.1 rfl)
        have hle := ((keepFlat_sublist policy (judge policy verdicts head).2 calls).filter
          p).length_le
        rw [heq, List.length_cons] at hle
        omega

/-! ## 3. A gate that only flags -/

namespace StreamToolGate

theorem walk_of_not_block {gate : StreamToolGate} (hmode : gate.mode ≠ .block) (cs : List Json) :
    (gate.walk cs).choices = cs ∧ (gate.walk cs).gate.mode = gate.mode := by
  induction cs generalizing gate with
  | nil => exact ⟨rfl, rfl⟩
  | cons choice rest ih =>
    have hafter := gate.keepAll_mode (choice.getD "index" (.int 0)) (deltaCalls choice)
    unfold walk
    dsimp only
    split
    · next err g heq =>
      rw [heq] at hafter
      exact ⟨rfl, hafter⟩
    · next kept g heq =>
      rw [heq] at hafter
      dsimp only at hafter
      have hg : g.mode ≠ .block := by rwa [hafter]
      obtain ⟨hchoices, hgate⟩ := ih hg
      split
      · exact ⟨congrArg (choice :: ·) hchoices, hgate.trans hafter⟩
      · exact ⟨congrArg (choice :: ·) hchoices, hgate.trans hafter⟩

theorem relay_of_not_block {gate : StreamToolGate} (hmode : gate.mode ≠ .block) (chunk : Json) :
    (gate.relay chunk).1.toList.flatMap chunkCalls = chunkCalls chunk ∧
      (gate.relay chunk).2.mode = gate.mode := by
  obtain ⟨hchoices, hgate⟩ := walk_of_not_block hmode (choices chunk)
  have hpass : (some chunk).toList.flatMap chunkCalls = chunkCalls chunk :=
    List.flatMap_singleton chunkCalls chunk
  unfold relay
  split
  · exact ⟨hpass, rfl⟩
  · next hdict =>
    split
    · exact ⟨hpass, rfl⟩
    · have hobj : chunk.isObj = true := by
        rw [Bool.or_eq_true, not_or, Bool.not_eq_true', Bool.not_eq_false] at hdict
        exact hdict.2
      have hset : (some (chunk.set "choices"
          (.arr (gate.walk (choices chunk)).choices))).toList.flatMap chunkCalls =
            chunkCalls chunk := by
        rw [hchoices]
        cases chunk with
        | obj fields =>
          rw [Option.toList_some, List.flatMap_singleton, chunkCalls_set]
          rfl
        | _ => cases hobj
      dsimp only
      split
      · exact ⟨hset, hgate⟩
      · rw [if_pos (by rw [decide_eq_true hmode, Bool.or_true])]
        exact ⟨hset, hgate⟩

theorem relayAll_of_not_block {gate : StreamToolGate} (hmode : gate.mode ≠ .block)
    (chunks : List Json) :
    (gate.relayAll chunks).flatMap chunkCalls = chunks.flatMap chunkCalls := by
  induction chunks generalizing gate with
  | nil => rfl
  | cons chunk chunks ih =>
    obtain ⟨hrelayed, hafter⟩ := relay_of_not_block hmode chunk
    have hnext : (gate.relay chunk).2.mode ≠ .block := by rwa [hafter]
    rw [relayAll, List.flatMap_append, hrelayed, ih hnext, List.flatMap_cons]

end StreamToolGate

/-- A stream that is not gated has all its fragments. -/
theorem relayStream_of_not_gated {policy : ToolPolicy} {cfg : GateConfig}
    (h : ¬ Gated policy cfg) (chunks : List Json) :
    (relayStream policy cfg chunks).flatMap chunkCalls = chunks.flatMap chunkCalls := by
  unfold relayStream
  split
  · rfl
  · next hgate =>
    refine StreamToolGate.relayAll_of_not_block (fun hblock => h ?_) chunks
    simp only [Bool.or_eq_true, Bool.not_eq_true', decide_eq_true_eq, not_or,
      Bool.not_eq_false, Bool.not_eq_true] at hgate
    exact ⟨hgate.1.1, hblock, hgate.2⟩

/-! ## 4. The exact condition -/

theorem firstName_append (key : CallKey) (xs ys : List (CallKey × Json)) :
    firstName key (xs ++ ys) = (firstName key xs).or (firstName key ys) := by
  rw [firstName, List.filter_append, List.map_append, List.find?_append]
  rfl

/-- A call whose first name is allowed has an allowed one as soon as it has one. -/
theorem firstNameAllowed_append {policy : ToolPolicy} {key : CallKey}
    {xs ys : List (CallKey × Json)} (h : firstNameAllowed policy key (xs ++ ys) = true) :
    firstNameAllowed policy key xs = true ↔ (firstName key xs).isSome = true := by
  rw [firstNameAllowed, firstName_append] at h
  rw [firstNameAllowed]
  cases hname : firstName key xs with
  | none => exact iff_of_false Bool.false_ne_true Bool.false_ne_true
  | some name =>
    rw [hname, Option.some_or] at h
    exact iff_of_true h rfl

/-- **The arguments of every allowed call are delivered exactly when the stream is not gated, or
    each allowed call has its name when its arguments begin.** -/
theorem delivered_iff (policy : ToolPolicy) (cfg : GateConfig) (chunks : List Json)
    (hkeyed : ∀ chunk ∈ chunks, ∀ choice ∈ choices chunk, Keyed choice) :
    Delivered policy chunks (relayStream policy cfg chunks) ↔
      (Gated policy cfg → NamedFirst policy (chunks.flatMap chunkCalls)) := by
  by_cases hgated : Gated policy cfg
  · obtain ⟨henabled, hmode, hnoop⟩ := hgated
    have hstream : relayStream policy cfg chunks =
        StreamToolGate.relayAll { mode := cfg.mode, policy } chunks :=
      if_neg (by simp [henabled, hmode, hnoop])
    have hrelayed := StreamToolGate.relayAll_spec { mode := cfg.mode, policy } hmode chunks hkeyed
    have hsettled : Settled policy [] (∅ : Dict CallKey Bool) := fun key => rfl
    have hkept (key : CallKey) := @filter_keepFlat_iff policy [] (chunks.flatMap chunkCalls) ∅
      hsettled fun call => decide (call.1 = key) && carriesArguments call.2
    rw [imp_iff_right ⟨henabled, hmode, hnoop⟩, Delivered]
    simp only [argumentFragments, hstream, hrelayed]
    constructor
    · intro hdelivered before call after heq hargs hallowed
      have hcall := (hkept call.1).mp (hdelivered call.1 hallowed) before call after heq
        (by rw [hargs, Bool.and_true, decide_eq_true_eq])
      rw [heq, List.append_cons] at hallowed
      exact (firstNameAllowed_append hallowed).mp hcall
    · intro hnamed key hallowed
      refine (hkept key).mpr fun before call after heq hp => ?_
      rw [Bool.and_eq_true, decide_eq_true_eq] at hp
      obtain ⟨rfl, hargs⟩ := hp
      have hfirst := hnamed before call after heq hargs hallowed
      rw [heq, List.append_cons] at hallowed
      exact (firstNameAllowed_append hallowed).mpr hfirst
  · refine iff_of_true (fun key _ => ?_) fun h => absurd h hgated
    rw [argumentFragments, relayStream_of_not_gated hgated, argumentFragments]

/-! ### Arguments before the name -/

namespace LateName

def policy : ToolPolicy := { deny := ["shell_exec"] }

def cfg : GateConfig := { mode := .block }

def fragmentChunk (fields : List (String × Json)) : Json :=
  .obj [("choices", .arr [.obj [("index", .int 0), ("delta", .obj [("tool_calls",
    .arr [.obj [("index", .int 0), ("function", .obj fields)]])])]])]

theorem keyed_fragmentChunk (fields : List (String × Json)) :
    ∀ choice ∈ choices (fragmentChunk fields), Keyed choice := by
  intro choice hchoice entry hentry hobj
  rw [List.mem_singleton.mp hchoice] at hentry ⊢
  rw [List.mem_singleton.mp hentry]
  rfl

/-- The beginning of the arguments, and then the name with the rest of them. -/
def sent : List Json :=
  [fragmentChunk [("arguments", .str "cats ")],
    fragmentChunk [("name", .str "search"), ("arguments", .str "and dogs")]]

theorem keyed_sent : ∀ chunk ∈ sent, ∀ choice ∈ choices chunk, Keyed choice := by
  intro chunk hchunk
  rcases List.mem_pair.mp hchunk with rfl | rfl
  · exact keyed_fragmentChunk _
  · exact keyed_fragmentChunk _

theorem delivered_iff_sent :
    Delivered policy sent (relayStream policy cfg sent) ↔
      (Gated policy cfg → NamedFirst policy (sent.flatMap chunkCalls)) :=
  delivered_iff policy cfg sent keyed_sent

/-- The client has the end of the arguments only. -/
theorem not_delivered : ¬ ∀ (policy : ToolPolicy) (cfg : GateConfig) (chunks : List Json),
    (∀ chunk ∈ chunks, ∀ choice ∈ choices chunk, Keyed choice) →
      Delivered policy chunks (relayStream policy cfg chunks) := by
  intro h
  have hall := h policy cfg sent keyed_sent (.number 0, .number 0)
    (by decide +kernel)
  exact absurd (congrArg List.length hall) (by decide +kernel)

end LateName

end TokenProxy.Tools
