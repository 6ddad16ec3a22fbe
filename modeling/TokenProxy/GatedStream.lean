/-
  TokenProxy/GatedStream.lean
  ===========================
  **The gated stream against the gated completion** (`StreamToolGate` and
  `process_response`, `middleware/g32_tool_eligibility.py`).

  The same completion reaches a client in two ways: whole, after the gate has
  edited it, or in chunks, each of which the stream gate has let through or cut.
  What the client has in the end is an `Answer`, its calls and the reason it
  ended; `Agree` says that the two ways leave the same one.

  The two gates drop the calls of the same names.  They part in two places.  The
  stream gate keeps back what a call sends before its name, for good; and it
  corrects a finish reason only on a chunk that carries fragments itself, judged
  by these fragments alone.  `NamedInTime` is exactly what keeps a stream clear
  of both (`agree_iff`).
-/
import TokenProxy.StreamToolGate
import TokenProxy.GatedFragments

namespace TokenProxy.Tools

open Protocols

/-! ## 1. What a client has -/

structure Answer where
  calls : List Slot
  finish : Json
deriving DecidableEq

/-- A call in one piece, read as a fragment is. -/
def readCall (call : Json) : Slot :=
  ({} : Slot).note true call (orEmpty (call.getD "function" .null))

def wholeAnswer (response : Json) : Option Answer := do
  let choice ← firstChoice response
  some { calls := (messageCalls (message choice)).map readCall
         finish := (choice.getD "finish_reason" .null).orElse .null }

/-- One chunk of a stream: its fragments go to their slots, its finish reason replaces the one
    known. -/
def assembleChunk (known : Slots × Json) (body : Json) : Option (Slots × Json) := do
  let choice ← firstChoice body
  let items ← itemsOf ((orEmpty (choice.getD "delta" .null)).getD "tool_calls" .null)
  let slots ← items.foldlM (noteFragment true) known.1
  some (slots, (choice.getD "finish_reason" .null).orElse known.2)

def streamedAnswer (bodies : List Json) : Option Answer :=
  (bodies.foldlM assembleChunk (∅, .null)).map fun known =>
    { calls := sortedSlots known.1, finish := known.2 }

/-- The gated completion and the gated stream leave the client the same answer. -/
def Agree (policy : ToolPolicy) (cfg : GateConfig) (response : Json) (bodies : List Json) :
    Prop :=
  ∃ out record answer, processResponse policy cfg response = .ok (out, record) ∧
    wholeAnswer out = some answer ∧ streamedAnswer (relayStream policy cfg bodies) = some answer

/-! ## 2. A completion and its chunks -/

/-- A completion with one choice; its usage plays no part here. -/
def IsSingleChoice (body : Json) (w : Completion) : Prop :=
  ∃ choice msg, body.get? "choices" = some (.arr [choice]) ∧
    choice.get? "message" = some msg ∧ msg.isObj = true ∧
    choice.getD "finish_reason" .null = optStr w.finishReason ∧
    msg.getD "content" .null = optStr w.text ∧
    IsList IsCall (msg.getD "tool_calls" .null) w.calls

/-- The choice of a chunk, under the choice index `n`. -/
structure IsDeltaChoice (n : Int) (choice : Json) (c : Chunk) : Prop where
  isObj : choice.isObj = true
  index : choice.getD "index" (.int 0) = .int n
  delta : (orEmpty (choice.getD "delta" .null)).isObj = true
  finish : choice.getD "finish_reason" .null = optStr c.finishReason
  text : (orEmpty (choice.getD "delta" .null)).getD "content" .null = optStr c.text
  calls : IsList IsFragment ((orEmpty (choice.getD "delta" .null)).getD "tool_calls" .null)
    c.fragments

/-- A chunk of a stream with one choice, or with none where it only brings the usage. -/
structure IsDelta (n : Int) (body : Json) (c : Chunk) : Prop where
  isObj : body.isObj = true
  choice :
    ((body.getD "choices" .null).truthy = false ∧ c.text = none ∧ c.fragments = [] ∧
      c.finishReason = none) ∨
    ∃ choice, body.get? "choices" = some (.arr [choice]) ∧ IsDeltaChoice n choice c

variable {policy : ToolPolicy} {cfg : GateConfig} {n : Int}

/-! ## 3. The gate on a chunk -/

/-- The gate has seen these fragments, under the choice index `n`: its verdicts are those on
    the names that have come. -/
structure Judged (policy : ToolPolicy) (n : Int) (seen : List Fragment)
    (gate : StreamToolGate) : Prop where
  asked : gate.policy = policy
  mode : gate.mode = .block
  verdicts : ∀ i : Int, gate.verdicts.get? (.number n, .number i) =
    if sentName i seen = "" then none else some (passes policy i seen)

theorem isObj_of_isFragment {item : Json} {f : Fragment} (h : IsFragment item f) :
    item.isObj = true := by
  cases item with
  | obj fields => rfl
  | _ => exact absurd h.index (by simp [Json.getD, Json.get?])

theorem callKey_of_isFragment {item : Json} {f : Fragment} (h : IsFragment item f) :
    callKey? (.int n) item = some (.number n, .number f.index) := by
  have hindex : item.getD "index" (.int 0) = .int f.index := by
    have hget := h.index
    rw [Json.getD] at hget ⊢
    cases hfound : item.get? "index" with
    | none => rw [hfound] at hget; cases hget
    | some v => rw [hfound] at hget; exact hget
  rw [callKey?, hindex]
  rfl

/-- A falsy value has no fields. -/
theorem getD_of_falsy {value : Json} (h : value.truthy = false) (key : String) :
    value.getD key .null = .null := by
  cases value with
  | obj fields =>
    cases fields with
    | nil => rfl
    | cons field fields => cases h
  | _ => rfl

theorem getD_orEmpty (value : Json) (key : String) :
    (orEmpty value).getD key .null = value.getD key .null := by
  by_cases htruthy : value.truthy = true
  · simp [orEmpty, Json.orElse, htruthy]
  · have hempty : orEmpty value = .obj [] := by simp [orEmpty, Json.orElse, htruthy]
    rw [hempty, getD_of_falsy (Bool.eq_false_iff.mpr htruthy)]
    rfl

theorem entryName_of_isFragment {item : Json} {f : Fragment} (h : IsFragment item f) :
    entryName item = optStr f.name := by
  rw [← h.name, getD_orEmpty, entryName]
  cases item.getD "function" .null <;> rfl

/-- One fragment: it is let through when a name has come under its index and is allowed. -/
theorem keep_of_isFragment {seen : List Fragment} {gate : StreamToolGate}
    (hjudged : Judged policy n seen gate) {item : Json} {f : Fragment} (h : IsFragment item f) :
    (gate.keep (.int n) item).1 = .ok (passes policy f.index (seen ++ [f])) ∧
      Judged policy n (seen ++ [f]) (gate.keep (.int n) item).2 := by
  obtain ⟨hkept, htracks⟩ := gate.keep_spec (isObj_of_isFragment h) (@callKey_of_isFragment n _ _ h)
  have hverdicts : (gate.keep (.int n) item).2.verdicts =
      (judge gate.policy gate.verdicts ((.number n, .number f.index), item)).2 := htracks.verdicts
  have hname := entryName_of_isFragment h
  have hknown := hjudged.verdicts f.index
  have hjudge : (judge gate.policy gate.verdicts ((.number n, .number f.index), item)).1 =
        passes policy f.index (seen ++ [f]) ∧
      ∀ i : Int, (judge gate.policy gate.verdicts ((.number n, .number f.index), item)).2.get?
          (.number n, .number i) =
        if sentName i (seen ++ [f]) = "" then none else some (passes policy i (seen ++ [f])) := by
    by_cases hsent : sentName f.index seen = ""
    · by_cases hempty : f.name.getD "" = ""
      · -- nameless so far
        have hsame : ∀ i, sentName i (seen ++ [f]) = sentName i seen := by
          intro i
          rw [sentName_snoc]
          by_cases hi : sentName i seen = "" <;> simp [hi, hempty]
        simp [judge, hknown, hsent, hname, truthy_optStr, hempty, passes, hsame,
          hjudged.verdicts]
      · -- the first name under this index
        have hnow : sentName f.index (seen ++ [f]) = f.name.getD "" := by
          simp [sentName_snoc, hsent]
        have hother : ∀ i, i ≠ f.index → sentName i (seen ++ [f]) = sentName i seen := by
          intro i hi
          rw [sentName_snoc]
          by_cases hi' : sentName i seen = "" <;> simp [hi', Ne.symm hi]
        have htruthy : (Json.str (f.name.getD "")).truthy = true := decide_eq_true hempty
        simp only [judge, hknown, hsent, if_true, hname, optStr_of_ne hempty, htruthy,
          hjudged.asked]
        refine ⟨by rw [passes, hnow], fun i => ?_⟩
        by_cases hi : i = f.index
        · rw [hi, Dict.get?_set_self, hnow, if_neg hempty, passes, hnow]
        · rw [Dict.get?_set_of_ne _ (by simp [hi]), hjudged.verdicts, hother i hi, passes,
            passes, hother i hi]
    · -- the verdict stands
      have hsame : ∀ i, sentName i (seen ++ [f]) = sentName i seen := by
        intro i
        rw [sentName_snoc]
        by_cases hi : sentName i seen = ""
        · have hne : f.index ≠ i := by
            rintro rfl
            exact hsent hi
          simp [hi, hne]
        · simp [hi]
      simp [judge, hknown, hsent, passes, hsame, hjudged.verdicts]
  exact ⟨by rw [hkept, hjudge.1], htracks.policy.trans hjudged.asked,
    htracks.mode.trans hjudged.mode, fun i => by rw [hverdicts, hjudge.2]⟩

/-- The fragments of a chunk: those let through are kept. -/
theorem keepAll_of_isFragment {seen : List Fragment} {gate : StreamToolGate}
    (hjudged : Judged policy n seen gate) {items : List Json} {fs : List Fragment}
    (h : List.Forall₂ IsFragment items fs) :
    ∃ kept after, gate.keepAll (.int n) items = (.ok kept, after) ∧
      List.Forall₂ IsFragment kept (letThrough policy seen fs) ∧
      Judged policy n (seen ++ fs) after := by
  induction h generalizing seen gate with
  | nil => exact ⟨[], gate, rfl, .nil, by simpa using hjudged⟩
  | @cons item f items fs hf _ ih =>
    obtain ⟨hanswer, hafter⟩ := keep_of_isFragment hjudged hf
    obtain ⟨kept, after, hrest, hkept, hjudged'⟩ := ih hafter
    have hall : gate.keepAll (.int n) (item :: items) =
        (.ok (if passes policy f.index (seen ++ [f]) then item :: kept else kept), after) := by
      cases hkeep : gate.keep (.int n) item with
      | mk answer g =>
        rw [hkeep] at hanswer hrest
        dsimp only at hanswer hrest
        rw [StreamToolGate.keepAll, hkeep, hanswer]
        dsimp only
        rw [hrest]
    refine ⟨_, after, hall, ?_, by simpa using hjudged'⟩
    rw [letThrough]
    split
    · exact .cons hf hkept
    · exact hkept

section

variable {seen : List Fragment} {c : Chunk} {choice : Json}

theorem deltaCalls_of_isDeltaChoice (h : IsDeltaChoice n choice c) :
    List.Forall₂ IsFragment (deltaCalls choice) c.fragments := by
  have hcalls := h.calls
  rw [getD_orEmpty] at hcalls
  rcases hcalls with ⟨hnull, hnil⟩ | ⟨items, harr, hitems⟩
  · rw [deltaCalls, hnull, hnil]
    exact .nil
  · rw [deltaCalls, harr]
    exact hitems

theorem getD_eq_optStr_iff {value : Json} {key text : String} {s : Option String}
    (h : value.getD key .null = optStr s) : value.get? key = some (.str text) ↔ s = some text := by
  rw [Json.getD] at h
  cases hget : value.get? key with
  | none =>
    rw [hget] at h
    cases s with
    | none => simp
    | some s => cases h
  | some v =>
    rw [hget] at h
    change v = _ at h
    rw [h]
    cases s with
    | none => simp [optStr]
    | some s => simp [optStr]

/-- A choice that loses fragments is the choice of the gated chunk. -/
theorem isDeltaChoice_strip (h : IsDeltaChoice n choice c) (hne : c.fragments ≠ [])
    {kept : List Json} (hkept : List.Forall₂ IsFragment kept (letThrough policy seen c.fragments)) :
    IsDeltaChoice n (strip choice kept) (gatedChunk policy seen c) := by
  have hcalls : deltaCalls choice ≠ [] := by
    intro hnil
    have hlen := (deltaCalls_of_isDeltaChoice h).length_eq
    rw [hnil] at hlen
    exact hne (List.length_eq_zero_iff.mp hlen.symm)
  obtain ⟨fields, delta, rfl, hdelta⟩ := deltaCalls_ne_nil hcalls
  have htext := h.text
  rw [getD_orEmpty, hdelta] at htext
  have hindexNe : "index" ≠ "delta" := by decide
  have hfinishNe : "finish_reason" ≠ "delta" := by decide
  rw [strip, hdelta]
  dsimp only
  cases kept with
  | cons call kept =>
    have hthrough : letThrough policy seen c.fragments ≠ [] := by
      intro hnil
      rw [hnil] at hkept
      cases hkept
    rw [if_pos (by simp)]
    refine ⟨rfl, ?_, ?_, ?_, ?_, ?_⟩
    · rw [Json.getD_set_of_ne _ hindexNe, h.index]
    · rw [Json.getD_set_self]
      exact congrArg Json.isObj (orEmpty_of_isObj rfl)
    · rw [Json.getD_set_of_ne _ hfinishNe, h.finish]
      simp [gatedChunk, hthrough]
    · rw [Json.getD_set_self, getD_orEmpty, Json.getD_set_of_ne _ (by decide), htext]
      rfl
    · rw [Json.getD_set_self, getD_orEmpty, Json.getD_set_self]
      exact Or.inr ⟨_, rfl, hkept⟩
  | nil =>
    have hthrough : letThrough policy seen c.fragments = [] := by
      cases hthrough : letThrough policy seen c.fragments with
      | nil => rfl
      | cons f fs => rw [hthrough] at hkept; cases hkept
    have hreason : (Json.set (.obj fields) "delta" (Json.pop (.obj delta) "tool_calls")).get?
        "finish_reason" = some (.str "tool_calls") ↔ c.finishReason = some "tool_calls" := by
      rw [Json.get?_set_of_ne _ hfinishNe]
      exact getD_eq_optStr_iff h.finish
    have hpopped : IsDeltaChoice n (Json.set (.obj fields) "delta"
        (Json.pop (.obj delta) "tool_calls")) { c with fragments := [] } := by
      refine ⟨rfl, ?_, ?_, ?_, ?_, ?_⟩
      · rw [Json.getD_set_of_ne _ hindexNe, h.index]
      · rw [Json.getD_set_self]
        exact congrArg Json.isObj (orEmpty_of_isObj rfl)
      · rw [Json.getD_set_of_ne _ hfinishNe, h.finish]
      · rw [Json.getD_set_self, getD_orEmpty, Json.getD_pop_of_ne _ (by decide), htext]
      · rw [Json.getD_set_self, getD_orEmpty, Json.getD_pop_self]
        exact Or.inl ⟨rfl, rfl⟩
    rw [if_neg (by simp)]
    by_cases hcalled : c.finishReason = some "tool_calls"
    · have hgated : gatedChunk policy seen c =
          { c with fragments := [], finishReason := some "stop" } := by
        simp [gatedChunk, hthrough, hne, hcalled]
      rw [if_pos (hreason.mpr hcalled), hgated]
      refine ⟨rfl, ?_, ?_, ?_, ?_, ?_⟩
      · rw [Json.getD_set_of_ne _ (by decide), hpopped.index]
      · rw [Json.getD_set_of_ne _ (by decide)]
        exact hpopped.delta
      · exact Json.getD_set_self _ _ _ _
      · rw [Json.getD_set_of_ne _ (by decide)]
        exact hpopped.text
      · rw [Json.getD_set_of_ne _ (by decide)]
        exact hpopped.calls
    · have hgated : gatedChunk policy seen c = { c with fragments := [] } := by
        simp [gatedChunk, hthrough, hcalled]
      rw [if_neg fun hr => hcalled (hreason.mp hr), hgated]
      exact hpopped

/-- The chunk with this choice put in. -/
theorem isDelta_set {body : Json} (hobj : body.isObj = true) {c' : Chunk}
    (h : IsDeltaChoice n choice c') : IsDelta n (body.set "choices" (.arr [choice])) c' := by
  cases body with
  | obj fields => exact ⟨rfl, Or.inr ⟨choice, Json.get?_set_self _ _ _, h⟩⟩
  | _ => cases hobj

/-- A chunk as the client reads it. -/
theorem assembleChunk_of_isDelta {body : Json} (h : IsDelta n body c) (known : Slots × Json) :
    assembleChunk known body =
      some (collect true known.1 c.fragments, (optStr c.finishReason).orElse known.2) := by
  rcases h.choice with ⟨hfalsy, -, hnil, hfinish⟩ | ⟨choice, hget, hchoice⟩
  · have hfirst : firstChoice body = some (.obj []) := by
      rw [firstChoice, getField_of_isObj h.isObj, Option.bind_eq_bind, Option.bind_some,
        Json.orElse, if_neg (by simp [hfalsy])]
    rw [assembleChunk, hfirst, hnil, hfinish]
    rfl
  · obtain ⟨items, hitems, hfragments⟩ := itemsOf_of_isList hchoice.calls
    rw [assembleChunk, firstChoice_of_get? hget, Option.bind_eq_bind, Option.bind_some, hitems,
      Option.bind_eq_bind, Option.bind_some, foldlM_noteFragment hfragments, hchoice.finish]
    rfl

theorem choices_of_isDelta {body : Json} (h : IsDelta n body c) :
    (choices body = [] ∧ c.fragments = [] ∧ c.finishReason = none) ∨
      ∃ choice, choices body = [choice] ∧ IsDeltaChoice n choice c := by
  rcases h.choice with ⟨hfalsy, -, hnil, hfinish⟩ | ⟨choice, hget, hchoice⟩
  · refine Or.inl ⟨?_, hnil, hfinish⟩
    rw [Json.getD] at hfalsy
    rw [choices, Json.getD]
    cases hget : body.get? "choices" with
    | none => rfl
    | some value =>
      rw [hget, Option.getD_some] at hfalsy
      rw [Option.getD_some]
      cases value with
      | arr items =>
        cases items with
        | nil => rfl
        | cons item items => cases hfalsy
      | _ => rfl
  · refine Or.inr ⟨choice, ?_, hchoice⟩
    rw [choices, getD_of_get? hget]
    rfl

theorem gatedChunk_eq_self
    (hall : (letThrough policy seen c.fragments).length = c.fragments.length) :
    gatedChunk policy seen c = c := by
  have hsame : letThrough policy seen c.fragments = c.fragments :=
    (letThrough_sublist policy seen c.fragments).eq_of_length hall
  obtain ⟨text, fragments, finishReason, usage⟩ := c
  dsimp only at hsame
  cases fragments with
  | nil => simp [gatedChunk, hsame]
  | cons f fs => simp [gatedChunk, hsame]

/-- A choice that carries nothing adds nothing to what the client has. -/
theorem silent_of_not_carries (h : IsDeltaChoice n choice c)
    (hsilent : StreamToolGate.carries choice = false) :
    c.fragments = [] ∧ (optStr c.finishReason).truthy = false := by
  simp only [StreamToolGate.carries, Bool.or_eq_false_iff] at hsilent
  obtain ⟨⟨-, hcalls⟩, hfinish⟩ := hsilent
  refine ⟨?_, by rw [← h.finish]; exact hfinish⟩
  rcases h.calls with ⟨-, hnil⟩ | ⟨items, harr, hitems⟩
  · exact hnil
  · have hempty : (Json.arr items).truthy = false := harr ▸ hcalls
    cases items with
    | nil => exact List.length_eq_zero_iff.mp hitems.length_eq.symm
    | cons item items => cases hempty

/-- One chunk: what the gate relays of it is the gated chunk, to the client. -/
theorem relay_of_isDelta {gate : StreamToolGate} (hjudged : Judged policy n seen gate)
    {body : Json} (h : IsDelta n body c) (known : Slots × Json) :
    (gate.relay body).1.toList.foldlM assembleChunk known =
        some (collect true known.1 (gatedChunk policy seen c).fragments,
          (optStr (gatedChunk policy seen c).finishReason).orElse known.2) ∧
      Judged policy n (seen ++ c.fragments) (gate.relay body).2 := by
  have hpass : ∀ {b : Json} {c' : Chunk}, IsDelta n b c' →
      (some b).toList.foldlM assembleChunk known =
        some (collect true known.1 c'.fragments, (optStr c'.finishReason).orElse known.2) := by
    intro b c' hb
    simp [assembleChunk_of_isDelta hb known]
  rw [StreamToolGate.relay, hjudged.mode, if_neg (by simp [h.isObj])]
  rcases choices_of_isDelta h with ⟨hnone, hnil, hfinish⟩ | ⟨choice, hone, hchoice⟩
  · have hsame : gatedChunk policy seen c = c := gatedChunk_eq_self (by simp [hnil, letThrough])
    rw [hnone, if_pos List.isEmpty_nil, hsame]
    exact ⟨hpass h, by simpa [hnil] using hjudged⟩
  · have hitems := deltaCalls_of_isDeltaChoice hchoice
    obtain ⟨kept, after, hkeep, hkept, hafter⟩ := keepAll_of_isFragment hjudged hitems
    rw [hone, if_neg (by simp)]
    by_cases hall : kept.length = (deltaCalls choice).length
    · -- nothing is kept back
      have hwalk : gate.walk [choice] = { choices := [choice], gate := after } := by
        simp only [StreamToolGate.walk, hchoice.index, hkeep, hall, if_true]
      have hsame : gatedChunk policy seen c = c :=
        gatedChunk_eq_self (by rw [← hkept.length_eq, hall, hitems.length_eq])
      rw [hwalk, hsame]
      exact ⟨hpass (isDelta_set h.isObj hchoice), hafter⟩
    · have hwalk : gate.walk [choice] =
          { choices := [strip choice kept], touched := true
            gate := { after with stripped := true } } := by
        simp only [StreamToolGate.walk, hchoice.index, hkeep, hall, if_false, hafter.mode,
          ne_eq, not_true_eq_false]
      have hne : c.fragments ≠ [] := by
        intro hnil
        rw [hnil] at hkept hitems
        exact hall (hkept.length_eq.trans hitems.length_eq.symm)
      have hstrip : IsDeltaChoice n (strip choice kept) (gatedChunk policy seen c) :=
        isDeltaChoice_strip hchoice hne hkept
      have hstripped : Judged policy n (seen ++ c.fragments) { after with stripped := true } :=
        ⟨hafter.asked, hafter.mode, hafter.verdicts⟩
      rw [hwalk]
      by_cases hcarries : StreamToolGate.carries (strip choice kept) = true
      · simp only [Option.isSome_none, Bool.false_eq_true, if_false, Bool.not_true,
          ne_eq, not_true_eq_false, decide_false, Bool.or_self, List.filter_cons, hstrip.isObj,
          if_true, List.filter_nil, List.any_cons, hcarries, Bool.true_or]
        exact ⟨hpass (isDelta_set h.isObj hstrip), hstripped⟩
      · -- the whole chunk is dropped
        have hsilent := silent_of_not_carries hstrip (Bool.eq_false_iff.mpr hcarries)
        simp only [Option.isSome_none, Bool.false_eq_true, if_false, Bool.not_true,
          ne_eq, not_true_eq_false, decide_false, Bool.or_self, List.filter_cons, hstrip.isObj,
          if_true, List.filter_nil, List.any_cons, hcarries, List.any_nil, hsilent.1]
        refine ⟨?_, hstripped⟩
        rw [Json.orElse, if_neg (by simp [hsilent.2])]
        rfl

end

/-- A whole stream: the client has the gated chunks. -/
theorem relayAll_of_isDelta {seen : List Fragment} {gate : StreamToolGate}
    (hjudged : Judged policy n seen gate) {bodies : List Json} {chunks : List Chunk}
    (h : List.Forall₂ (IsDelta n) bodies chunks) (known : Slots × Json) :
    (gate.relayAll bodies).foldlM assembleChunk known =
      some (collect true known.1 (letThrough policy seen (allFragments chunks)),
        finishAfter known.2 (gatedChunks policy seen chunks)) := by
  induction h generalizing seen gate known with
  | nil => rfl
  | @cons body c bodies chunks hbody _ ih =>
    obtain ⟨hrelayed, hafter⟩ := relay_of_isDelta hjudged hbody known
    rw [StreamToolGate.relayAll, List.foldlM_append, hrelayed, Option.bind_eq_bind,
      Option.bind_some, ih hafter, allFragments_cons, letThrough_append, collect_append]
    rfl

/-- In flag mode the gate only takes notes. -/
theorem StreamToolGate.keep_mode (gate : StreamToolGate) (choiceIdx entry : Json) :
    (gate.keep choiceIdx entry).2.mode = gate.mode := by
  unfold StreamToolGate.keep
  split
  · rfl
  · split
    · rfl
    · split
      · rfl
      · dsimp only
        split
        · unfold StreamToolGate.allowed
          split <;> rfl
        · rfl

theorem StreamToolGate.keepAll_mode (gate : StreamToolGate) (choiceIdx : Json)
    (entries : List Json) :
    (gate.keepAll choiceIdx entries).2.mode = gate.mode := by
  induction entries generalizing gate with
  | nil => rfl
  | cons entry entries ih =>
    have hkeep := gate.keep_mode choiceIdx entry
    rw [StreamToolGate.keepAll]
    split
    · rename_i g heq
      rwa [heq] at hkeep
    · rename_i g heq
      rw [heq] at hkeep
      have hrest := ih g
      split
      · rename_i g' heq'
        rw [heq'] at hrest
        exact hrest.trans hkeep
      · rename_i g' heq'
        rw [heq'] at hrest
        exact hrest.trans hkeep

theorem relay_of_flag {gate : StreamToolGate} (hmode : gate.mode = .flag) {body : Json} {c : Chunk}
    (h : IsDelta n body c) :
    ∃ relayed, (gate.relay body).1 = some relayed ∧ IsDelta n relayed c ∧
      (gate.relay body).2.mode = .flag := by
  rw [StreamToolGate.relay, hmode, if_neg (by simp [h.isObj])]
  rcases choices_of_isDelta h with ⟨hnone, -, -⟩ | ⟨choice, hone, hchoice⟩
  · rw [hnone, if_pos List.isEmpty_nil]
    exact ⟨body, rfl, h, hmode⟩
  · have hafter := gate.keepAll_mode (choice.getD "index" (.int 0)) (deltaCalls choice)
    have hwalk : (gate.walk [choice]).choices = [choice] ∧
        (gate.walk [choice]).gate.mode = .flag := by
      rw [hmode] at hafter
      simp only [StreamToolGate.walk]
      split
      · rename_i g heq
        rw [heq] at hafter
        exact ⟨rfl, hafter⟩
      · rename_i g heq
        rw [heq] at hafter
        split
        · exact ⟨rfl, hafter⟩
        · rw [if_pos (by rw [hafter]; decide)]
          exact ⟨rfl, hafter⟩
    rw [hone, if_neg (by simp)]
    dsimp only
    rw [hwalk.1]
    refine ⟨body.set "choices" (.arr [choice]), ?_, isDelta_set h.isObj hchoice, ?_⟩
    · split
      · rfl
      · rw [if_pos (by simp)]
    · split
      · exact hwalk.2
      · rw [if_pos (by simp)]
        exact hwalk.2

theorem relayAll_of_flag {gate : StreamToolGate} (hmode : gate.mode = .flag) {bodies : List Json}
    {chunks : List Chunk} (h : List.Forall₂ (IsDelta n) bodies chunks) (known : Slots × Json) :
    (gate.relayAll bodies).foldlM assembleChunk known =
      some (collect true known.1 (allFragments chunks), finishAfter known.2 chunks) := by
  induction h generalizing gate known with
  | nil => rfl
  | @cons body c bodies chunks hbody _ ih =>
    obtain ⟨relayed, hrelay, hdelta, hafter⟩ := relay_of_flag hmode hbody
    rw [StreamToolGate.relayAll, hrelay, List.foldlM_append, Option.toList_some,
      List.foldlM_cons, assembleChunk_of_isDelta hdelta]
    simp only [Option.bind_eq_bind, Option.bind_some, List.foldlM_nil, pure, ih hafter,
      allFragments_cons, collect_append]
    rfl

/-- Without a gate the client has the chunks as they are. -/
theorem assemble_of_isDelta {bodies : List Json} {chunks : List Chunk}
    (h : List.Forall₂ (IsDelta n) bodies chunks) (known : Slots × Json) :
    bodies.foldlM assembleChunk known =
      some (collect true known.1 (allFragments chunks), finishAfter known.2 chunks) := by
  induction h generalizing known with
  | nil => rfl
  | @cons body c bodies chunks hbody _ ih =>
    rw [List.foldlM_cons, assembleChunk_of_isDelta hbody, Option.bind_eq_bind, Option.bind_some,
      ih, allFragments_cons, collect_append]
    rfl

/-! ## 4. The gate on the completion -/

theorem readCall_of_isCall {item : Json} {call : Call} (h : IsCall item call) :
    readCall item = slotOf true call := by
  have htruthy : ∀ s : String, (if (Json.str s).truthy = true then Json.str s else .str "") =
      .str s := by
    intro s
    by_cases hs : s = "" <;> simp [Json.truthy, hs]
  simp only [readCall, Slot.note, getD_orEmpty, h.id, h.name, h.args, Bool.true_and, htruthy,
    slotOf, if_true]
  simp

theorem callName_of_isCall {item : Json} {call : Call} (h : IsCall item call) :
    callName item = .str call.name := by
  obtain ⟨fields, hfn⟩ := Json.isObj_of_get? (get?_of_getD_str h.name)
  rw [callName, h.name, hfn]
  by_cases hs : call.name = ""
  · simp [Json.isObj, Json.fields?, Json.orElse, Json.truthy, hs]
  · simp [Json.isObj, Json.fields?, Json.orElse, Json.truthy, hs]

theorem callAllowed_of_isCall {item : Json} {call : Call} (h : IsCall item call) :
    callAllowed policy item = callPasses policy call := by
  rw [callAllowed, callName_of_isCall h]
  rfl

theorem readCall_kept {items : List Json} {calls : List Call}
    (h : List.Forall₂ IsCall items calls) :
    (items.filter (callAllowed policy)).map readCall =
      (calls.filter (callPasses policy)).map (slotOf true) := by
  induction h with
  | nil => rfl
  | cons hcall _ ih =>
    rw [List.filter_cons, List.filter_cons, callAllowed_of_isCall hcall]
    split
    · rw [List.map_cons, List.map_cons, readCall_of_isCall hcall, ih]
    · exact ih

theorem readCall_all {items : List Json} {calls : List Call}
    (h : List.Forall₂ IsCall items calls) : items.map readCall = calls.map (slotOf true) := by
  induction h with
  | nil => rfl
  | cons hcall _ ih => rw [List.map_cons, List.map_cons, readCall_of_isCall hcall, ih]

theorem length_kept {items : List Json} {calls : List Call} (h : List.Forall₂ IsCall items calls) :
    (items.filter (callAllowed policy)).length = (calls.filter (callPasses policy)).length := by
  have hread := congrArg List.length (@readCall_kept policy _ _ h)
  rwa [List.length_map, List.length_map] at hread

/-- What the gate makes of a choice, by mode. -/
theorem applyToChoice_choice (policy : ToolPolicy) (cfg : GateConfig) {choice : Json}
    (hobj : (message choice).isObj = true) :
    (applyToChoice policy cfg choice).choice =
      let calls := messageCalls (message choice)
      let kept := calls.filter (callAllowed policy)
      if cfg.mode ≠ .block ∨ kept.length = calls.length then choice
      else if kept = [] then withoutCalls cfg choice (message choice)
      else choice.set "message" ((message choice).set "tool_calls" (.arr kept)) := by
  unfold applyToChoice
  dsimp only
  rw [if_neg (by simp [hobj])]
  by_cases hmode : cfg.mode = .block
  · simp only [hmode, if_true, ne_eq, not_true_eq_false, false_or]
    by_cases hnil : messageCalls (message choice) = []
    · simp [hnil]
    · rw [if_neg (by simpa using hnil)]
      by_cases hlen : ((messageCalls (message choice)).filter (callAllowed policy)).length =
          (messageCalls (message choice)).length
      · rw [if_pos hlen, if_pos hlen]
      · rw [if_neg hlen, if_neg hlen]
        by_cases hkept : (messageCalls (message choice)).filter (callAllowed policy) = []
        · simp [hkept]
        · rw [if_neg (by simpa using hkept), if_neg hkept]
  · simp only [hmode, if_false, ne_eq, not_false_eq_true, true_or, if_true]
    split <;> rfl

theorem exists_dedup {names : List Json} (h : ∀ name ∈ names, ∃ s, name = .str s) :
    ∃ out, dedup names = .ok out := by
  induction names with
  | nil => exact ⟨[], rfl⟩
  | cons name names ih =>
    obtain ⟨s, rfl⟩ := h name List.mem_cons_self
    obtain ⟨out, hout⟩ := ih fun other hother => h other (List.mem_cons_of_mem _ hother)
    refine ⟨.str s :: out.filter fun other => other.dictKey? ≠ some (.text s), ?_⟩
    rw [dedup, hout]
    rfl

theorem firstChoice_annotate (response : Json) (mode : GateMode) (denied : List Json)
    (stripped : Bool) : firstChoice (annotate response mode denied stripped) =
      firstChoice response := by
  unfold annotate
  dsimp only
  split
  · cases response with
    | obj fields =>
      have hobj : ∀ v, (Json.set (.obj fields) "_token_opt" v).isObj = true := fun _ => rfl
      rw [firstChoice, firstChoice, getField_of_isObj (hobj _), getField_of_isObj rfl,
        Json.getD_set_of_ne _ (by decide)]
    | _ => rfl
  · rfl

section

variable {resp : Json} {w : Completion}

/-- The gated completion is the completion with its choice gone over. -/
theorem processResponse_of_isSingleChoice (policy : ToolPolicy) (cfg : GateConfig) {choice : Json}
    {items : List Json} (hget : resp.get? "choices" = some (.arr [choice]))
    (hobj : (message choice).isObj = true) (hitems : messageCalls (message choice) = items)
    (hcalls : List.Forall₂ IsCall items w.calls) :
    ∃ out record, processResponse policy cfg resp = .ok (out, record) ∧
      firstChoice out = some (if cfg.enabled = true ∧ cfg.mode ≠ .off ∧ policy.isNoop = false then
        (applyToChoice policy cfg choice).choice else choice) := by
  have hfirst : firstChoice resp = some choice := firstChoice_of_get? hget
  have hresp : resp.isObj = true := Protocols.isObj_of_get? hget
  unfold processResponse
  by_cases henabled : cfg.enabled = true
  · rw [if_neg (by simp [henabled])]
    by_cases hmode : cfg.mode = .off
    · rw [if_pos hmode, if_neg fun h => h.2.1 hmode]
      exact ⟨resp, none, rfl, hfirst⟩
    · rw [if_neg hmode, if_neg (by simp [hresp])]
      cases hnoop : policy.isNoop with
      | true =>
        rw [if_pos rfl, if_neg fun h => absurd h.2.2 (by decide)]
        exact ⟨resp, none, rfl, hfirst⟩
      | false =>
        rw [if_neg (by decide), if_pos ⟨henabled, hmode, rfl⟩]
        have hiter : iterChoices resp = .ok [choice] := by
          rw [iterChoices, getD_of_get? hget]
          rfl
        have hflat : ([choice].map (applyToChoice policy cfg)).flatMap Applied.denied =
            (applyToChoice policy cfg choice).denied := by simp
        rw [hiter]
        by_cases hnone : (applyToChoice policy cfg choice).denied = []
        · refine ⟨resp, none, ?_, ?_⟩
          · change (if _ then _ else _) = _
            rw [hflat, if_pos (by simp [hnone])]
            rfl
          · have hall : items.filter (callAllowed policy) = items := by
              rw [applyToChoice_denied, List.map_eq_nil_iff, List.filter_eq_nil_iff, hitems]
                at hnone
              exact List.filter_eq_self.mpr fun call hcall => by simpa using hnone call hcall
            rw [applyToChoice_choice policy cfg hobj, hitems, hfirst]
            simp [hall]
        · obtain ⟨names, hnames⟩ : ∃ names,
              dedup (applyToChoice policy cfg choice).denied = .ok names := by
            refine exists_dedup fun name hname => ?_
            rw [applyToChoice_denied, hitems] at hname
            obtain ⟨item, hitem, rfl⟩ := List.mem_map.mp hname
            obtain ⟨call, -, hcall⟩ :=
              Pointwise.exists_right_of_forall₂ hcalls (List.mem_filter.mp hitem).1
            rw [callName_of_isCall hcall]
            by_cases hs : call.name = "" <;> simp [Json.orElse, Json.truthy, hs]
          let stripped := ([choice].map (applyToChoice policy cfg)).any Applied.stripped
          let count := (([choice].map (applyToChoice policy cfg)).flatMap Applied.denied).length
          refine ⟨annotate (resp.set "choices" (.arr [(applyToChoice policy cfg choice).choice]))
            cfg.mode names stripped, some ⟨cfg.mode, names, count, stripped⟩, ?_, ?_⟩
          · rw [← hflat] at hnames
            change (if _ then _ else _) = _
            rw [if_neg (by simpa using hnone), hnames]
            rfl
          · rw [firstChoice_annotate]
            obtain ⟨fields, rfl⟩ := Json.isObj_of_get? hget
            exact firstChoice_of_get? (Json.get?_set_self _ _ _)
  · rw [if_pos (by simpa using henabled), if_neg fun h => henabled h.1]
    exact ⟨resp, none, rfl, hfirst⟩

/-- The gate is there and takes calls out. -/
def Gated (policy : ToolPolicy) (cfg : GateConfig) : Prop :=
  cfg.enabled = true ∧ cfg.mode = .block ∧ policy.isNoop = false

/-- The reason of a choice that has lost its calls. -/
theorem finish_withoutCalls {fields : List (String × Json)} {reason : Option String}
    (hreason : Json.getD (.obj fields) "finish_reason" .null = optStr reason) :
    (withoutCalls cfg (.obj fields) (message (.obj fields))).getD "finish_reason" .null =
      if reason = some "tool_calls" then .str "stop" else optStr reason := by
  rw [withoutCalls, Json.getD_set_of_ne _ (by decide)]
  by_cases hcalled : reason = some "tool_calls"
  · rw [if_pos ((getD_eq_optStr_iff hreason).mpr hcalled), if_pos hcalled]
    exact Json.getD_set_self _ _ _ _
  · rw [if_neg fun h => hcalled ((getD_eq_optStr_iff hreason).mp h), if_neg hcalled, hreason]

theorem calls_of_isList {msg : Json} {calls : List Call}
    (h : IsList IsCall (msg.getD "tool_calls" .null) calls) :
    List.Forall₂ IsCall (messageCalls msg) calls := by
  rcases h with ⟨hnull, hnil⟩ | ⟨items, harr, hitems⟩
  · have hnone : messageCalls msg = [] := by
      rw [Json.getD] at hnull
      rw [messageCalls]
      cases hcalls : msg.get? "tool_calls" with
      | none => rfl
      | some v =>
        rw [hcalls] at hnull
        change v = .null at hnull
        rw [hnull]
        rfl
    rw [hnone, hnil]
    exact .nil
  · have hsome : messageCalls msg = items := by
      rw [Json.getD] at harr
      rw [messageCalls]
      cases hcalls : msg.get? "tool_calls" with
      | none => rw [hcalls] at harr; cases harr
      | some v =>
        rw [hcalls] at harr
        change v = .arr items at harr
        rw [harr]
        rfl
    rw [hsome]
    exact hitems

theorem wholeAnswer_of_firstChoice {out choice : Json} (h : firstChoice out = some choice) :
    wholeAnswer out = some
      { calls := (messageCalls (message choice)).map readCall
        finish := (choice.getD "finish_reason" .null).orElse .null } := by
  rw [wholeAnswer, h]
  rfl

/-- A choice that comes out as it was. -/
theorem wholeAnswer_of_same {out choice : Json} (h : firstChoice out = some choice)
    (hcalls : List.Forall₂ IsCall (messageCalls (message choice)) w.calls)
    (hreason : choice.getD "finish_reason" .null = optStr w.finishReason) :
    wholeAnswer out = some
      { calls := w.calls.map (slotOf true), finish := (optStr w.finishReason).orElse .null } := by
  rw [wholeAnswer_of_firstChoice h, readCall_all hcalls, hreason]

/-- All calls are denied. -/
theorem wholeAnswer_of_denied {out choice : Json}
    (h : firstChoice out = some (withoutCalls cfg choice (message choice)))
    (hobj : (message choice).isObj = true)
    (hreason : choice.getD "finish_reason" .null = optStr w.finishReason) (hne : w.calls ≠ [])
    (hnone : w.calls.filter (callPasses policy) = []) :
    wholeAnswer out = some { calls := [], finish := gatedFinish policy w } := by
  have hdenied : ∀ call ∈ w.calls, callPasses policy call = false := fun call hcall => by
    simpa using List.filter_eq_nil_iff.mp hnone call hcall
  obtain ⟨fields, rfl⟩ := choice_obj hobj
  have hleft := (@withoutCalls_calls cfg (.obj fields) hobj).1
  rw [wholeAnswer_of_firstChoice h, hleft, finish_withoutCalls hreason, gatedFinish]
  by_cases hcalled : w.finishReason = some "tool_calls"
  · rw [if_pos hcalled, if_pos ⟨hcalled, hne, hdenied⟩]
    rfl
  · rw [if_neg hcalled, if_neg fun hall => hcalled hall.1]
    rfl

/-- Some are, some are not. -/
theorem wholeAnswer_of_kept {out choice : Json} {items : List Json} {kept : List Call}
    (h : firstChoice out =
      some (choice.set "message" ((message choice).set "tool_calls" (.arr items))))
    (hobj : (message choice).isObj = true) (hread : items.map readCall = kept.map (slotOf true)) :
    wholeAnswer out = some
      { calls := kept.map (slotOf true)
        finish := (choice.getD "finish_reason" .null).orElse .null } := by
  obtain ⟨fields, rfl⟩ := choice_obj hobj
  obtain ⟨msgFields, hmsgFields⟩ : ∃ msgFields, message (.obj fields) = .obj msgFields := by
    cases hm : message (.obj fields) with
    | obj msgFields => exact ⟨msgFields, rfl⟩
    | _ => rw [hm] at hobj; cases hobj
  rw [wholeAnswer_of_firstChoice h, message_set, hmsgFields, messageCalls_set, hread,
    Json.getD_set_of_ne _ (by decide)]

/-- The answer behind a gate that takes calls out. -/
theorem wholeAnswer_of_blocked {out choice : Json} (hmode : cfg.mode = .block)
    (h : firstChoice out = some (applyToChoice policy cfg choice).choice)
    (hobj : (message choice).isObj = true)
    (hcalls : List.Forall₂ IsCall (messageCalls (message choice)) w.calls)
    (hreason : choice.getD "finish_reason" .null = optStr w.finishReason) :
    wholeAnswer out = some
      { calls := (w.calls.filter (callPasses policy)).map (slotOf true)
        finish := gatedFinish policy w } := by
  rw [applyToChoice_choice policy cfg hobj] at h
  dsimp only at h
  have hlen := @length_kept policy _ _ hcalls
  by_cases hall : ((messageCalls (message choice)).filter (callAllowed policy)).length =
      (messageCalls (message choice)).length
  · -- all calls are allowed
    have hfilter : w.calls.filter (callPasses policy) = w.calls :=
      List.filter_sublist.eq_of_length (by rw [← hlen, hall, hcalls.length_eq])
    have hnot : ¬ (w.finishReason = some "tool_calls" ∧ w.calls ≠ [] ∧
        ∀ call ∈ w.calls, callPasses policy call = false) := by
      rintro ⟨-, hne, hdenied⟩
      refine hne (hfilter ▸ List.filter_eq_nil_iff.mpr fun call hcall => ?_)
      simp [hdenied call hcall]
    rw [if_pos (Or.inr hall)] at h
    rw [wholeAnswer_of_same h hcalls hreason, hfilter, gatedFinish, if_neg hnot]
  · have hne : w.calls ≠ [] := by
      intro hnil
      rw [hnil] at hlen hcalls
      exact hall (by rw [hlen, hcalls.length_eq]; rfl)
    rw [if_neg fun hkeep => hkeep.elim (fun hother => hother hmode) hall] at h
    have hkeptNil : (messageCalls (message choice)).filter (callAllowed policy) = [] ↔
        w.calls.filter (callPasses policy) = [] := by
      rw [← List.length_eq_zero_iff, hlen, List.length_eq_zero_iff]
    by_cases hnone : (messageCalls (message choice)).filter (callAllowed policy) = []
    · rw [if_pos hnone] at h
      rw [hkeptNil.mp hnone]
      exact wholeAnswer_of_denied h hobj hreason hne (hkeptNil.mp hnone)
    · have hsome : ¬ (w.finishReason = some "tool_calls" ∧ w.calls ≠ [] ∧
          ∀ call ∈ w.calls, callPasses policy call = false) := by
        rintro ⟨-, -, hdenied⟩
        exact hnone (hkeptNil.mpr (List.filter_eq_nil_iff.mpr fun call hcall => by
          simp [hdenied call hcall]))
      rw [if_neg hnone] at h
      rw [wholeAnswer_of_kept h hobj (readCall_kept hcalls), hreason, gatedFinish, if_neg hsome]

/-- The answer of the gated completion. -/
theorem wholeAnswer_of_isSingleChoice (policy : ToolPolicy) (cfg : GateConfig)
    (h : IsSingleChoice resp w) :
    ∃ out record, processResponse policy cfg resp = .ok (out, record) ∧
      (Gated policy cfg → wholeAnswer out = some
        { calls := (w.calls.filter (callPasses policy)).map (slotOf true)
          finish := gatedFinish policy w }) ∧
      (¬ Gated policy cfg → wholeAnswer out = some
        { calls := w.calls.map (slotOf true)
          finish := (optStr w.finishReason).orElse .null }) := by
  obtain ⟨choice, msg, hget, hmsg, hobj, hreason, -, hlist⟩ := h
  have hmessage : message choice = msg := getD_of_get? hmsg
  subst hmessage
  have hcalls := calls_of_isList hlist
  obtain ⟨out, record, hout, hfirst⟩ :=
    processResponse_of_isSingleChoice policy cfg hget hobj rfl hcalls
  refine ⟨out, record, hout, fun hgated => ?_, fun hopen => ?_⟩
  · rw [if_pos ⟨hgated.1, by rw [hgated.2.1]; decide, hgated.2.2⟩] at hfirst
    exact wholeAnswer_of_blocked hgated.2.1 hfirst hobj hcalls hreason
  · refine wholeAnswer_of_same (hfirst.trans (congrArg some ?_)) hcalls hreason
    split
    · rename_i hwalked
      rw [applyToChoice_choice policy cfg hobj, if_pos]
      exact Or.inl fun hmode => hopen ⟨hwalked.1, hmode, hwalked.2.2⟩
    · rfl

/-- **The exact condition.**  Behind a gate that takes calls out, the stream leaves the client
    the answer of the gated completion exactly when its calls are named in time; without one it
    always does. -/
theorem agree_iff (policy : ToolPolicy) (cfg : GateConfig) (hresp : IsSingleChoice resp w)
    {chunks : List Chunk} (hcut : Cut w chunks) {bodies : List Json}
    (hbodies : List.Forall₂ (IsDelta n) bodies chunks) :
    Agree policy cfg resp bodies ↔ (Gated policy cfg → NamedInTime policy w chunks) := by
  obtain ⟨out, record, hout, hgatedWhole, hopenWhole⟩ :=
    wholeAnswer_of_isSingleChoice policy cfg hresp
  have hagree : ∀ answer, wholeAnswer out = some answer → (Agree policy cfg resp bodies ↔
      streamedAnswer (relayStream policy cfg bodies) = some answer) := by
    intro answer hanswer
    constructor
    · rintro ⟨out', record', answer', hout', hanswer', hstreamed⟩
      rw [hout] at hout'
      obtain ⟨rfl, -⟩ := Prod.mk.inj (Except.ok.inj hout')
      rw [hanswer] at hanswer'
      rwa [Option.some.inj hanswer']
    · exact fun hstreamed => ⟨out, record, answer, hout, hanswer, hstreamed⟩
  by_cases hgated : Gated policy cfg
  · have hstart : Judged policy n [] { mode := cfg.mode, policy } :=
      ⟨rfl, hgated.2.1, fun i => rfl⟩
    have hstream : relayStream policy cfg bodies =
        StreamToolGate.relayAll { mode := cfg.mode, policy } bodies := by
      rw [relayStream, if_neg]
      simp [hgated.1, hgated.2.1, hgated.2.2]
    rw [hagree _ (hgatedWhole hgated), hstream, streamedAnswer,
      relayAll_of_isDelta hstart hbodies, Option.map_some, Option.some.injEq, Answer.mk.injEq,
      slots_of_gated_iff hcut, finish_of_gated_iff hcut]
    constructor
    · rintro ⟨⟨hargs, hids⟩, hfinish⟩ _
      exact ⟨hargs, hids, hfinish⟩
    · intro h
      exact ⟨⟨(h hgated).arguments, (h hgated).ids⟩, (h hgated).finish⟩
  · refine iff_of_true ?_ fun h => absurd h hgated
    rw [hagree _ (hopenWhole hgated), streamedAnswer]
    have hstream : (relayStream policy cfg bodies).foldlM assembleChunk (∅, .null) =
        some (collect true ∅ (allFragments chunks), finishAfter .null chunks) := by
      rw [relayStream]
      split
      · exact assemble_of_isDelta hbodies (∅, .null)
      · rename_i hopen
        simp only [Bool.or_eq_true, Bool.not_eq_true', decide_eq_true_eq, not_or] at hopen
        refine relayAll_of_flag ?_ hbodies (∅, .null)
        cases hmode : cfg.mode with
        | flag => rfl
        | off => exact absurd hmode hopen.1.2
        | block => exact absurd ⟨by simpa using hopen.1.1, hmode, by simpa using hopen.2⟩ hgated
    rw [hstream, Option.map_some, slots_of_cut hcut, finish_of_cut hcut]

end

/-! ## 5. A denied call, and the reason in a chunk of its own -/

namespace ShellCall

def denyShell : ToolPolicy := { deny := ["shell_exec"] }

def blocking : GateConfig := { mode := .block }

def completion : Completion where
  text := none
  calls := [⟨"call_1", "shell_exec", "ls"⟩]
  finishReason := some "tool_calls"
  usage := none

def resp : Json :=
  .obj [("choices", .arr [.obj
    [("index", .int 0),
     ("message", .obj [("content", .null), ("tool_calls", .arr [.obj
        [("id", .str "call_1"),
         ("function", .obj [("name", .str "shell_exec"), ("arguments", .str "ls")])]])]),
     ("finish_reason", .str "tool_calls")]])]

def chunks : List Chunk :=
  [⟨none, [⟨0, some "call_1", some "shell_exec", some ""⟩], none, none⟩,
   ⟨none, [⟨0, none, none, some "ls"⟩], none, none⟩,
   ⟨none, [], some "tool_calls", none⟩]

def bodies : List Json :=
  [.obj [("choices", .arr [.obj [("index", .int 0), ("delta", .obj [("tool_calls", .arr [.obj
      [("index", .int 0), ("id", .str "call_1"), ("function", .obj
        [("name", .str "shell_exec"), ("arguments", .str "")])]])])]])],
   .obj [("choices", .arr [.obj [("index", .int 0), ("delta", .obj [("tool_calls", .arr [.obj
      [("index", .int 0), ("function", .obj [("arguments", .str "ls")])]])])]])],
   .obj [("choices", .arr [.obj [("index", .int 0), ("delta", .obj []),
      ("finish_reason", .str "tool_calls")]])]]

theorem resp_isSingleChoice : IsSingleChoice resp completion :=
  ⟨_, _, rfl, rfl, rfl, rfl, rfl, Or.inr ⟨_, rfl, .cons ⟨rfl, rfl, rfl⟩ .nil⟩⟩

theorem chunks_cut : Cut completion chunks where
  text := by decide
  calls := by
    refine ⟨[0], by simp, .cons ⟨by decide, by decide, by decide, by decide, by decide⟩ .nil, ?_⟩
    decide
  finish := by decide
  finished := by decide

theorem bodies_areDeltas : List.Forall₂ (IsDelta 0) bodies chunks :=
  .cons ⟨rfl, Or.inr ⟨_, rfl, rfl, rfl, rfl, rfl, rfl,
    Or.inr ⟨_, rfl, .cons ⟨rfl, rfl, rfl, rfl, rfl⟩ .nil⟩⟩⟩ <|
  .cons ⟨rfl, Or.inr ⟨_, rfl, rfl, rfl, rfl, rfl, rfl,
    Or.inr ⟨_, rfl, .cons ⟨rfl, rfl, rfl, rfl, rfl⟩ .nil⟩⟩⟩ <|
  .cons ⟨rfl, Or.inr ⟨_, rfl, rfl, rfl, rfl, rfl, rfl, Or.inl ⟨rfl, rfl⟩⟩⟩ .nil

end ShellCall

theorem agree_iff_shellCall :
    Agree ShellCall.denyShell ShellCall.blocking ShellCall.resp ShellCall.bodies ↔
    (Gated ShellCall.denyShell ShellCall.blocking →
      NamedInTime ShellCall.denyShell ShellCall.completion ShellCall.chunks) :=
  agree_iff ShellCall.denyShell ShellCall.blocking ShellCall.resp_isSingleChoice
    ShellCall.chunks_cut ShellCall.bodies_areDeltas

/-- The whole answer says `stop`, the stream still says `tool_calls`. -/
theorem shellCall_disagrees :
    IsSingleChoice ShellCall.resp ShellCall.completion ∧
      Cut ShellCall.completion ShellCall.chunks ∧
      List.Forall₂ (IsDelta 0) ShellCall.bodies ShellCall.chunks ∧
      ¬ Agree ShellCall.denyShell ShellCall.blocking ShellCall.resp ShellCall.bodies := by
  refine ⟨ShellCall.resp_isSingleChoice, ShellCall.chunks_cut, ShellCall.bodies_areDeltas, ?_⟩
  rintro ⟨out, record, answer, hout, hwhole, hstreamed⟩
  have hgated : (processResponse ShellCall.denyShell ShellCall.blocking
      ShellCall.resp).toOption.bind (fun served => wholeAnswer served.1) =
        some ⟨[], .str "stop"⟩ := by decide
  have hrelayed : streamedAnswer
      (relayStream ShellCall.denyShell ShellCall.blocking ShellCall.bodies) =
      some ⟨[], .str "tool_calls"⟩ := by decide
  rw [hout] at hgated
  have hstop : answer = ⟨[], .str "stop"⟩ := by
    rw [← Option.some_inj, ← hwhole]
    exact hgated
  have hcalled : answer = ⟨[], .str "tool_calls"⟩ := by
    rw [← Option.some_inj, ← hstreamed]
    exact hrelayed
  rw [hstop] at hcalled
  exact absurd hcalled (by decide)

end TokenProxy.Tools
