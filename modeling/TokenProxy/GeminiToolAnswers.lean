/-
  TokenProxy/GeminiToolAnswers.lean
  =================================
  **Tool results of a translated Gemini request**, and of both protocols together.

  Gemini parts carry no ids.  The translator makes one up for each call and attaches a response
  to the oldest call of its function name that waits for one.  `Linked` is what holds of the
  messages and the waiting calls between two turns: the ids are `call_0`, `call_1`, … in order,
  and an id waits at most once, under its own name, and only while it is not answered.

  Main results: `linked_of_messages`, and `tool_results_answerable` for both protocols.
-/
import TokenProxy.ToolAnswers
import TokenProxy.TextReplace

namespace TokenProxy.Ingress

open Json (DictKey)
open History (Msg)
open Protocols (itemsOf getField)

/-! ## 1. Ids -/

/-- The ids that the messages declare, in order. -/
def declaredIds (out : List Msg) : List Json := out.flatMap Msg.callIds

/-- The ids that the tool messages answer, in order. -/
def answeredIds (out : List Msg) : List Json :=
  (out.filter Msg.isTool).map fun t => t.get "tool_call_id"

def functionName (call : Json) : Json := (call.getD "function" .null).getD "name" .null

/-- An assistant message declares a call with this id and function name. -/
def DeclaresAs (out : List Msg) (id : Json) (key : DictKey) : Prop :=
  ∃ a ∈ out, a.get "role" = .str "assistant" ∧ ∃ call ∈ toolCallsOf a,
    call.getD "id" .null = id ∧ (functionName call).dictKey? = some key

theorem callIds_eq (m : Msg) : m.callIds = (toolCallsOf m).map fun call => call.getD "id" .null := by
  rw [Msg.callIds, toolCallsOf]
  cases m.get "tool_calls" <;> rfl

theorem DeclaresAs.mono {out : List Msg} {id : Json} {key : DictKey} (h : DeclaresAs out id key)
    (more : List Msg) : DeclaresAs (out ++ more) id key := by
  obtain ⟨a, ha, hcall⟩ := h
  exact ⟨a, List.mem_append_left _ ha, hcall⟩

theorem DeclaresAs.mem {out : List Msg} {id : Json} {key : DictKey} (h : DeclaresAs out id key) :
    id ∈ declaredIds out := by
  obtain ⟨a, ha, -, call, hcall, rfl, -⟩ := h
  apply List.mem_flatMap.mpr ⟨a, ha, ?_⟩
  rw [callIds_eq]
  exact List.mem_map_of_mem hcall

theorem declaredIds_append (out more : List Msg) :
    declaredIds (out ++ more) = declaredIds out ++ declaredIds more := List.flatMap_append

theorem answeredIds_append (out more : List Msg) :
    answeredIds (out ++ more) = answeredIds out ++ answeredIds more := by
  rw [answeredIds, List.filter_append, List.map_append]
  rfl

theorem answeredIds_singleton {m : Msg} (h : m.isTool = false) : answeredIds [m] = [] := by
  simp [answeredIds, h]

namespace Gemini

theorem callId_injective {n n' : Nat} (h : callId n = callId n') : n = n' := by
  apply TextReplace.toString_injective
  have hlist := congrArg String.toList h
  rw [callId, callId, String.toList_append, String.toList_append] at hlist
  exact List.append_cancel_left hlist

/-- The first ids, in order. -/
def firstIds (n : Nat) : List Json := (List.range n).map fun i => .str (callId i)

theorem nodup_firstIds (n : Nat) : (firstIds n).Nodup := by
  apply List.Nodup.map_on ?_ List.nodup_range
  intro i _ j _ h
  exact callId_injective (Json.str.inj h)

theorem firstIds_succ (n : Nat) : firstIds (n + 1) = firstIds n ++ [.str (callId n)] := by
  rw [firstIds, List.range_succ, List.map_append]
  rfl

/-! ## 2. Waiting calls -/

/-- What holds of the calls that wait for a response. -/
structure Waiting (out : List Msg) (pending : Dict DictKey (List String)) : Prop where
  once : ∀ {key ids}, pending.get? key = some ids → ids.Nodup
  declared : ∀ {key ids id}, pending.get? key = some ids → id ∈ ids → DeclaresAs out (.str id) key
  unanswered : ∀ {key ids id}, pending.get? key = some ids → id ∈ ids →
    Json.str id ∉ answeredIds out
  apart : ∀ {key key' ids ids' id}, pending.get? key = some ids → pending.get? key' = some ids' →
    id ∈ ids → id ∈ ids' → key = key'

/-- Messages that answer nothing can follow. -/
theorem Waiting.append {out more : List Msg} {pending : Dict DictKey (List String)}
    (h : Waiting out pending) (hmore : answeredIds more = []) : Waiting (out ++ more) pending where
  once := h.once
  declared := fun hkey hid => (h.declared hkey hid).mono more
  unanswered := by
    intro key ids id hkey hid
    rw [answeredIds_append, hmore, List.append_nil]
    exact h.unanswered hkey hid
  apart := h.apart

/-- The oldest waiting call of a name is answered. -/
theorem Waiting.pop {out : List Msg} {pending : Dict DictKey (List String)} {key : DictKey}
    {id : String} {rest : List String} (h : Waiting out pending)
    (hkey : pending.get? key = some (id :: rest)) (content : String) :
    Waiting (out ++ [toolMessage (.str id) content]) (pending.set key rest) := by
  have hanswered : answeredIds (out ++ [toolMessage (.str id) content]) =
      answeredIds out ++ [.str id] := answeredIds_append _ _
  have hfresh := (List.nodup_cons.mp (h.once hkey)).1
  -- what waits after the step has waited before it, and is not the id that was taken
  have hback : ∀ {key' ids'}, (pending.set key rest).get? key' = some ids' →
      ∃ ids, pending.get? key' = some ids ∧ ids'.Sublist ids ∧ id ∉ ids' := by
    intro key' ids' hget
    rw [Dict.get?_set] at hget
    split at hget
    · rename_i heq
      cases hget
      rw [heq]
      exact ⟨_, hkey, List.sublist_cons_self _ _, hfresh⟩
    · rename_i hne
      refine ⟨ids', hget, List.Sublist.refl _, fun hmem => ?_⟩
      exact hne (h.apart hget hkey hmem List.mem_cons_self)
  exact {
    once := by
      intro key' ids' hget
      obtain ⟨ids, hids, hsub, -⟩ := hback hget
      exact (h.once hids).sublist hsub
    declared := by
      intro key' ids' id' hget hmem
      obtain ⟨ids, hids, hsub, -⟩ := hback hget
      exact (h.declared hids (hsub.subset hmem)).mono _
    unanswered := by
      intro key' ids' id' hget hmem
      obtain ⟨ids, hids, hsub, hnot⟩ := hback hget
      rw [hanswered, List.mem_append, List.mem_singleton, not_or]
      refine ⟨h.unanswered hids (hsub.subset hmem), fun heq => ?_⟩
      rw [Json.str.injEq] at heq
      exact hnot (heq ▸ hmem)
    apart := by
      intro k k' ids ids' id' hget hget' hmem hmem'
      obtain ⟨jds, hjds, hsub, -⟩ := hback hget
      obtain ⟨jds', hjds', hsub', -⟩ := hback hget'
      exact h.apart hjds hjds' (hsub.subset hmem) (hsub'.subset hmem') }

/-- A declared call that neither waits nor was answered begins to wait. -/
theorem Waiting.register {out : List Msg} {pending : Dict DictKey (List String)} {key : DictKey}
    {id : String} (h : Waiting out pending) (hdeclared : DeclaresAs out (.str id) key)
    (hfresh : ∀ {key' ids}, pending.get? key' = some ids → id ∉ ids)
    (hunanswered : Json.str id ∉ answeredIds out) :
    Waiting out (pending.set key ((pending.get? key).getD [] ++ [id])) := by
  -- what waits after the step is the new id, or has waited before it under the same name
  have hback : ∀ {key' ids' id'}, (pending.set key ((pending.get? key).getD [] ++ [id])).get? key' =
      some ids' → id' ∈ ids' →
      (id' = id ∧ key' = key) ∨ (id' ≠ id ∧ ∃ ids, pending.get? key' = some ids ∧ id' ∈ ids) := by
    intro key' ids' id' hget hmem
    by_cases hid : id' = id
    · rw [Dict.get?_set] at hget
      split at hget
      · rename_i heq
        exact Or.inl ⟨hid, heq⟩
      · exact absurd (hid ▸ hmem) (hfresh hget)
    · refine Or.inr ⟨hid, ?_⟩
      rw [Dict.get?_set] at hget
      split at hget
      · rename_i heq
        cases hget
        rcases List.mem_append.mp hmem with hold | hnew
        · cases hq : pending.get? key with
          | none =>
            rw [hq] at hold
            cases hold
          | some ids =>
            rw [hq] at hold
            exact ⟨ids, heq ▸ hq, hold⟩
        · exact absurd (List.mem_singleton.mp hnew) hid
      · exact ⟨ids', hget, hmem⟩
  exact {
    once := by
      intro key' ids' hget
      rw [Dict.get?_set] at hget
      split at hget
      · cases hget
        cases hq : pending.get? key with
        | none => exact List.nodup_singleton id
        | some ids =>
          rw [Option.getD_some, ← List.concat_eq_append]
          exact (h.once hq).concat (hfresh hq)
      · exact h.once hget
    declared := by
      intro key' ids' id' hget hmem
      obtain ⟨rfl, rfl⟩ | ⟨-, ids, hids, hmem⟩ := hback hget hmem
      · exact hdeclared
      · exact h.declared hids hmem
    unanswered := by
      intro key' ids' id' hget hmem
      obtain ⟨rfl, rfl⟩ | ⟨-, ids, hids, hmem⟩ := hback hget hmem
      · exact hunanswered
      · exact h.unanswered hids hmem
    apart := by
      intro k k' ids ids' id' hget hget' hmem hmem'
      obtain ⟨hid, rfl⟩ | ⟨hne, jds, hjds, hmem⟩ := hback hget hmem
      · obtain ⟨-, rfl⟩ | ⟨hne, -⟩ := hback hget' hmem'
        · rfl
        · exact absurd hid hne
      · obtain ⟨hid, -⟩ | ⟨-, jds', hjds', hmem'⟩ := hback hget' hmem'
        · exact absurd hid hne
        · exact h.apart hjds hjds' hmem hmem' }

/-- What holds of the messages and the waiting calls between two turns. -/
structure Linked (out : List Msg) (state : ToolState) : Prop where
  answerable : Answerable out
  ids : declaredIds out = firstIds state.counter
  waiting : Waiting out state.pending
  once : (answeredIds out).Nodup
  placed : ∀ id ∈ answeredIds out, id ∈ declaredIds out

/-- A message that is no result and declares nothing can follow. -/
theorem Linked.plain {out : List Msg} {state : ToolState} (h : Linked out state)
    (role content : Json) (hrole : role ≠ .str "tool") :
    Linked (out ++ [plainMessage role content]) state := by
  have hnot : (plainMessage role content).isTool = false := by
    rw [← Bool.not_eq_true, isTool_plainMessage]
    exact hrole
  have hdeclared : declaredIds (out ++ [plainMessage role content]) = declaredIds out := by
    rw [declaredIds_append]
    exact List.append_nil _
  have hanswered : answeredIds (out ++ [plainMessage role content]) = answeredIds out := by
    rw [answeredIds_append, answeredIds_singleton hnot, List.append_nil]
  exact {
    answerable := by
      rw [answerable_snoc]
      refine ⟨h.answerable, fun htool => ?_⟩
      rw [hnot] at htool
      cases htool
    ids := by rw [hdeclared, h.ids]
    waiting := h.waiting.append (answeredIds_singleton hnot)
    once := by
      rw [hanswered]
      exact h.once
    placed := by
      rw [hanswered, hdeclared]
      exact h.placed }

/-- A response is attached to the oldest waiting call of its name. -/
theorem Linked.pop {out : List Msg} {state : ToolState} {key : DictKey} {id : String}
    {rest : List String} (h : Linked out state) (hkey : state.pending.get? key = some (id :: rest))
    (content : String) : Linked (out ++ [toolMessage (.str id) content])
      { state with pending := state.pending.set key rest } := by
  have hdeclared : declaredIds (out ++ [toolMessage (.str id) content]) = declaredIds out := by
    rw [declaredIds_append]
    exact List.append_nil _
  have hanswered : answeredIds (out ++ [toolMessage (.str id) content]) =
      answeredIds out ++ [.str id] := answeredIds_append _ _
  have hcall := h.waiting.declared hkey List.mem_cons_self
  exact {
    answerable := by
      rw [answerable_snoc]
      refine ⟨h.answerable, fun _ => ?_⟩
      obtain ⟨a, ha, hrole, call, hmem, hid, -⟩ := hcall
      refine ⟨a, ha, .str id, .text id, rfl, rfl, hrole, call, hmem, ?_⟩
      rw [hid]
      rfl
    ids := by rw [hdeclared, h.ids]
    waiting := h.waiting.pop hkey content
    once := by
      rw [hanswered, ← List.concat_eq_append]
      exact h.once.concat (h.waiting.unanswered hkey List.mem_cons_self)
    placed := by
      rw [hanswered, hdeclared]
      intro id' hid'
      rcases List.mem_append.mp hid' with hold | hnew
      · exact h.placed id' hold
      · rw [List.mem_singleton.mp hnew]
        exact hcall.mem }

/-! ## 3. One turn -/

def isResponse (p : Json) : Bool :=
  p.isObj && !hasEither p "functionCall" "function_call" &&
    hasEither p "functionResponse" "function_response"

/-- The response in a part. -/
def responseOf (p : Json) : Json := eitherField p "functionResponse" "function_response"

/-- A tool message is the response in a part, attached to a call of its function name. -/
def AnswersPart (py : Interpreter) (out : List Msg) (p : Json) (t : Msg) : Prop :=
  t.get "content" =
      .str (safeJsonDumps py (((responseOf p).getD "response" .null).orElse (.obj []))) ∧
    ∃ key, ((responseOf p).getD "name" (.str "")).dictKey? = some key ∧
      DeclaresAs out (t.get "tool_call_id") key

/-- What a part adds to a turn. -/
theorem fanPart_cases {py : Interpreter} {role : Json} {fan fan' : FanOut} {state state' : ToolState}
    {p : Json} (h : fanPart py role (fan, state) p = some (fan', state')) :
    (role = .str "assistant" ∧ isResponse p = false ∧ ∃ name args,
      fan' = { fan with
        toolCalls := fan.toolCalls ++ [functionCall (.str (callId state.counter)) name args]
        newCalls := fan.newCalls ++ [(name, callId state.counter)] } ∧
      state' = { state with counter := state.counter + 1 }) ∨
    (isResponse p = true ∧ ∃ key id rest content,
      ((responseOf p).getD "name" (.str "")).dictKey? = some key ∧
      state.pending.get? key = some (id :: rest) ∧
      content = safeJsonDumps py (((responseOf p).getD "response" .null).orElse (.obj [])) ∧
      fan' = { fan with toolMsgs := fan.toolMsgs ++ [toolMessage (.str id) content] } ∧
      state' = { state with pending := state.pending.set key rest }) ∨
    ∃ residual, fan' = { fan with residual := residual } ∧ state' = state := by
  rw [fanPart] at h
  by_cases hobj : p.isObj = false
  · rw [if_pos hobj] at h
    cases h
    exact Or.inr (Or.inr ⟨fan.residual, rfl, rfl⟩)
  rw [if_neg hobj] at h
  rw [Bool.not_eq_false] at hobj
  by_cases hcall : hasEither p "functionCall" "function_call" = true
  · rw [if_pos hcall] at h
    have hno : isResponse p = false := by simp [isResponse, hcall]
    obtain ⟨name, -, h⟩ := Option.bind_eq_some_iff.mp h
    dsimp only at h
    split at h
    · rename_i hname
      cases h
      exact Or.inl ⟨hname.1, hno, name, _, rfl, rfl⟩
    · cases h
      exact Or.inr (Or.inr ⟨_, rfl, rfl⟩)
  rw [if_neg hcall] at h
  by_cases hresponse : hasEither p "functionResponse" "function_response" = true
  · rw [if_pos hresponse] at h
    have hyes : isResponse p = true := by simp [isResponse, hobj, hcall, hresponse]
    obtain ⟨name, hname, h⟩ := Option.bind_eq_some_iff.mp h
    obtain ⟨key, hkey, h⟩ := Option.bind_eq_some_iff.mp h
    obtain ⟨fields, -, hname⟩ := Option.map_eq_some_iff.mp hname
    split at h
    · rename_i id rest _ hqueue
      cases h
      have hget : state.pending.get? key = some (id :: rest) := by
        cases hq : state.pending.get? key with
        | none =>
          rw [hq] at hqueue
          cases hqueue
        | some ids =>
          rw [hq] at hqueue
          rw [show ids = id :: rest from hqueue]
      exact Or.inr (Or.inl ⟨hyes, key, id, rest, _, hname ▸ hkey, hget, rfl, rfl, rfl⟩)
    · cases h
      exact Or.inr (Or.inr ⟨_, rfl, rfl⟩)
  · rw [if_neg hresponse] at h
    cases h
    exact Or.inr (Or.inr ⟨_, rfl, rfl⟩)

/-- What the parts of a turn have come to, where the turn came after these messages. -/
structure Fanned (py : Interpreter) (role : Json) (out : List Msg) (state : ToolState)
    (ps : List Json) (fan : FanOut) (state' : ToolState) : Prop where
  linked : Linked (out ++ fan.toolMsgs) { state with pending := state'.pending }
  ids : firstIds state.counter ++ (fan.newCalls.map fun c => .str c.2) = firstIds state'.counter
  calls : fan.toolCalls.map (fun call => (functionName call, call.getD "id" .null)) =
    fan.newCalls.map fun c => (c.1, .str c.2)
  role : fan.toolCalls ≠ [] → role = .str "assistant"
  tools : ∀ t ∈ fan.toolMsgs, t.isTool = true
  responses : ∃ parts, parts.Sublist (ps.filter isResponse) ∧
    List.Forall₂ (AnswersPart py out) parts fan.toolMsgs

/-- What waits in a turn was declared before it: its results declare nothing. -/
theorem declaresAs_of_append_tools {out tools : List Msg} {id : Json} {key : DictKey}
    (htools : ∀ t ∈ tools, t.isTool = true) (h : DeclaresAs (out ++ tools) id key) :
    DeclaresAs out id key := by
  obtain ⟨a, ha, hrole, hcall⟩ := h
  rcases List.mem_append.mp ha with hout | htool
  · exact ⟨a, hout, hrole, hcall⟩
  · have hyes := htools a htool
    rw [Msg.isTool, hrole] at hyes
    exact absurd hyes (by decide)

theorem Fanned.snoc {py : Interpreter} {role : Json} {out : List Msg} {state₀ state state' : ToolState}
    {ps : List Json} {fan fan' : FanOut} {p : Json} (hfan : Fanned py role out state₀ ps fan state)
    (h : fanPart py role (fan, state) p = some (fan', state')) :
    Fanned py role out state₀ (ps ++ [p]) fan' state' := by
  obtain ⟨parts, hsub, hparts⟩ := hfan.responses
  have hkept : ∀ qs, parts.Sublist ((ps.filter isResponse) ++ qs) := fun qs =>
    hsub.trans (List.sublist_append_left _ _)
  obtain ⟨hrole, hno, name, args, rfl, rfl⟩ |
    ⟨hyes, key, id, rest, content, hkey, hget, hcontent, rfl, rfl⟩ | ⟨residual, rfl, rfl⟩ :=
    fanPart_cases h
  · exact {
      linked := hfan.linked
      ids := by
        rw [List.map_append, ← List.append_assoc, hfan.ids, firstIds_succ]
        rfl
      calls := by
        rw [List.map_append, List.map_append, hfan.calls]
        rfl
      role := fun _ => hrole
      tools := hfan.tools
      responses := by
        refine ⟨parts, ?_, hparts⟩
        rw [List.filter_append]
        exact hkept _ }
  · have hcall := declaresAs_of_append_tools hfan.tools
      (hfan.linked.waiting.declared hget List.mem_cons_self)
    exact {
      linked := by
        rw [← List.append_assoc]
        exact hfan.linked.pop hget content
      ids := hfan.ids
      calls := hfan.calls
      role := hfan.role
      tools := by
        intro t ht
        rcases List.mem_append.mp ht with hold | hnew
        · exact hfan.tools t hold
        · rw [List.mem_singleton.mp hnew]
          rfl
      responses := by
        refine ⟨parts ++ [p], ?_, ?_⟩
        · rw [List.filter_append, List.filter_cons_of_pos hyes]
          exact hsub.append (List.Sublist.refl _)
        · refine List.rel_append hparts (List.Forall₂.cons ⟨?_, key, hkey, hcall⟩ .nil)
          rw [← hcontent]
          rfl }
  · exact {
      linked := hfan.linked
      ids := hfan.ids
      calls := hfan.calls
      role := hfan.role
      tools := hfan.tools
      responses := by
        refine ⟨parts, ?_, hparts⟩
        rw [List.filter_append]
        exact hkept _ }

theorem fanned_of_foldlM {py : Interpreter} {role : Json} {out : List Msg} {state : ToolState}
    (hlinked : Linked out state) {ps : List Json} {acc : FanOut × ToolState}
    (h : ps.foldlM (fanPart py role) ({}, state) = some acc) :
    Fanned py role out state ps acc.1 acc.2 := by
  induction ps using List.reverseRecOn generalizing acc with
  | nil =>
    cases h
    exact {
      linked := by
        rw [List.append_nil]
        exact hlinked
      ids := List.append_nil _
      calls := rfl
      role := fun hne => absurd rfl hne
      tools := by
        intro t ht
        cases ht
      responses := ⟨[], List.Sublist.refl _, .nil⟩ }
  | append_singleton ps p ih =>
    obtain ⟨before, hbefore, hafter⟩ := Pointwise.exists_of_foldlM_concat h
    exact (ih hbefore).snoc hafter

theorem waiting_of_foldlM {out : List Msg} {calls : List (Json × String)}
    {pending pending' : Dict DictKey (List String)} (h : Waiting out pending)
    (hdeclared : ∀ c ∈ calls, ∀ key, c.1.dictKey? = some key → DeclaresAs out (.str c.2) key)
    (hnodup : (calls.map Prod.snd).Nodup)
    (hfresh : ∀ c ∈ calls, ∀ {key ids}, pending.get? key = some ids → c.2 ∉ ids)
    (hunanswered : ∀ c ∈ calls, Json.str c.2 ∉ answeredIds out)
    (hfold : calls.foldlM register pending = some pending') : Waiting out pending' := by
  induction calls generalizing pending with
  | nil =>
    cases hfold
    exact h
  | cons c calls ih =>
    rw [List.foldlM_cons] at hfold
    obtain ⟨next, hnext, hfold⟩ := Option.bind_eq_some_iff.mp hfold
    obtain ⟨key, hkey, rfl⟩ := Option.map_eq_some_iff.mp hnext
    obtain ⟨hfirst, hrest⟩ := List.nodup_cons.mp hnodup
    have hregistered := h.register (hdeclared c List.mem_cons_self key hkey)
      (hfresh c List.mem_cons_self) (hunanswered c List.mem_cons_self)
    apply ih hregistered (fun d hd => hdeclared d (List.mem_cons_of_mem _ hd)) hrest ?_
      (fun d hd => hunanswered d (List.mem_cons_of_mem _ hd)) hfold
    intro d hd key' ids hget
    have hne : d.2 ≠ c.2 := by
      intro heq
      exact hfirst (heq ▸ List.mem_map_of_mem hd)
    have hold := @hfresh d (List.mem_cons_of_mem _ hd)
    rw [Dict.get?_set] at hget
    split at hget
    · cases hget
      rw [List.mem_append, List.mem_singleton, not_or]
      refine ⟨?_, hne⟩
      cases hq : pending.get? key with
      | none =>
        intro hmem
        cases hmem
      | some queue => exact hold hq
    · exact hold hget

/-- The message of a turn that calls functions declares the next ids. -/
theorem Linked.declare {out : List Msg} {state : ToolState} (h : Linked out state) {counter : Nat}
    {content : Json} {calls : List Json} {newCalls : List (Json × String)}
    {pending : Dict DictKey (List String)}
    (hids : firstIds state.counter ++ (newCalls.map fun c => .str c.2) = firstIds counter)
    (hcalls : calls.map (fun call => (functionName call, call.getD "id" .null)) =
      newCalls.map fun c => (c.1, .str c.2))
    (hfold : newCalls.foldlM register state.pending = some pending) :
    Linked (out ++ [assistantMessage content calls]) ⟨counter, pending⟩ := by
  have hnot := not_isTool_assistantMessage content calls
  have hanswered : answeredIds (out ++ [assistantMessage content calls]) = answeredIds out := by
    rw [answeredIds_append, answeredIds_singleton hnot, List.append_nil]
  have hnew : declaredIds [assistantMessage content calls] = newCalls.map fun c => .str c.2 := by
    have hsecond := congrArg (List.map Prod.snd) hcalls
    rw [List.map_map, List.map_map] at hsecond
    rw [declaredIds, List.flatMap_singleton, callIds_eq]
    exact hsecond
  have hdeclared : declaredIds (out ++ [assistantMessage content calls]) = firstIds counter := by
    rw [declaredIds_append, hnew, h.ids, hids]
  have hnodup := nodup_firstIds counter
  rw [← hids, List.nodup_append] at hnodup
  obtain ⟨-, hnodup, hapart⟩ := hnodup
  have hold : ∀ c ∈ newCalls, Json.str c.2 ∉ declaredIds out := by
    intro c hc hmem
    rw [h.ids] at hmem
    exact hapart _ hmem _ (List.mem_map_of_mem hc) rfl
  exact {
    answerable := by
      rw [answerable_snoc]
      refine ⟨h.answerable, fun htool => ?_⟩
      rw [hnot] at htool
      cases htool
    ids := hdeclared
    waiting := by
      refine waiting_of_foldlM (h.waiting.append (answeredIds_singleton hnot)) ?_ ?_ ?_ ?_ hfold
      · intro c hc key hkey
        have hpair : (c.1, Json.str c.2) ∈
            calls.map fun call => (functionName call, call.getD "id" .null) := by
          rw [hcalls]
          exact List.mem_map_of_mem hc
        obtain ⟨call, hcall, heq⟩ := List.mem_map.mp hpair
        obtain ⟨hname, hid⟩ := Prod.mk.inj heq
        refine ⟨_, List.mem_append_right _ List.mem_cons_self, rfl, call, hcall, hid, ?_⟩
        rw [hname, hkey]
      · apply List.Nodup.of_map Json.str
        rw [List.map_map]
        exact hnodup
      · intro c hc key ids hget hmem
        exact hold c hc (h.waiting.declared hget hmem).mem
      · intro c hc hmem
        rw [hanswered] at hmem
        exact hold c hc (h.placed _ hmem)
    once := by
      rw [hanswered]
      exact h.once
    placed := by
      rw [hanswered, declaredIds_append]
      exact fun id hid => List.mem_append_left _ (h.placed id hid) }

/-- The responses in the parts of a turn. -/
def responsesIn : Json → List Json
  | .arr ps => ps.filter isResponse
  | _ => []

theorem AnswersPart.mono {py : Interpreter} {out : List Msg} {p : Json} {t : Msg}
    (h : AnswersPart py out p t) (more : List Msg) : AnswersPart py (out ++ more) p t := by
  obtain ⟨hcontent, key, hkey, hcall⟩ := h
  exact ⟨hcontent, key, hkey, hcall.mono more⟩

theorem linked_turn {py : Interpreter} {role parts : Json} {state state' : ToolState}
    {out turn : List Msg} (hlinked : Linked out state) (hrole : role ≠ .str "tool")
    (h : partsToOpenaiMessages py role parts state = some (turn, state')) :
    Linked (out ++ turn) state' ∧ ∃ answered, answered.Sublist (responsesIn parts) ∧
      List.Forall₂ (AnswersPart py (out ++ turn)) answered (turn.filter Msg.isTool) := by
  have hplain : ∀ collapsed, [plainMessage role collapsed].filter Msg.isTool = [] := by
    intro collapsed
    rw [List.filter_eq_nil_iff]
    intro m hm
    rw [List.mem_singleton.mp hm, isTool_plainMessage]
    exact hrole
  by_cases hlist : ∃ ps, parts = .arr ps
  · obtain ⟨ps, rfl⟩ := hlist
    obtain ⟨⟨fan, mid⟩, hfan, h⟩ := Option.bind_eq_some_iff.mp h
    obtain ⟨pending, hpending, h⟩ := Option.bind_eq_some_iff.mp h
    obtain ⟨collapsed, hcollapsed, heq⟩ := Option.bind_eq_some_iff.mp h
    cases heq
    have hfanned := fanned_of_foldlM hlinked hfan
    have hall := List.filter_eq_self.mpr hfanned.tools
    obtain ⟨answered, hsub, hanswered⟩ := hfanned.responses
    have hmono : ∀ more, List.Forall₂ (AnswersPart py (out ++ more)) answered fan.toolMsgs :=
      fun more => hanswered.imp fun _ _ hpart => hpart.mono more
    -- without a call in the turn nothing new waits
    have hquiet : ¬ (role = .str "assistant" ∧ fan.toolCalls ≠ []) →
        mid.counter = state.counter ∧ pending = mid.pending := by
      intro hnot
      have hnone : fan.toolCalls = [] := by
        by_contra hne
        exact hnot ⟨hfanned.role hne, hne⟩
      have hcalls := hfanned.calls
      rw [hnone, List.map_nil, eq_comm, List.map_eq_nil_iff] at hcalls
      have hids := congrArg List.length hfanned.ids
      rw [hcalls] at hids hpending
      cases hpending
      simp [firstIds] at hids
      exact ⟨hids.symm, rfl⟩
    obtain ⟨-, -, heq⟩ | ⟨hnot, -, heq⟩ | ⟨hnot, -, -, heq⟩ :=
      finalizeFanout_cases role collapsed fan.toolCalls fan.toolMsgs
    · rw [heq]
      refine ⟨?_, answered, hsub, ?_⟩
      · rw [← List.append_assoc]
        exact hfanned.linked.declare hfanned.ids hfanned.calls hpending
      · rw [List.filter_append, hall, List.filter_cons_of_neg (by simp [not_isTool_assistantMessage]),
          List.filter_nil, List.append_nil]
        exact hmono _
    · obtain ⟨hcounter, rfl⟩ := hquiet hnot
      rw [heq, hcounter]
      refine ⟨?_, answered, hsub, ?_⟩
      · rw [← List.append_assoc]
        exact hfanned.linked.plain role collapsed hrole
      · rw [List.filter_append, hall, hplain, List.append_nil]
        exact hmono _
    · obtain ⟨hcounter, rfl⟩ := hquiet hnot
      rw [heq, hcounter, hall]
      exact ⟨hfanned.linked, answered, hsub, hmono _⟩
  · have hturn : ∃ collapsed, turn = [plainMessage role collapsed] ∧ state' = state := by
      cases parts with
      | arr ps => exact absurd ⟨ps, rfl⟩ hlist
      | _ =>
        simp only [partsToOpenaiMessages, Option.bind_eq_bind, Option.bind_eq_some_iff] at h
        obtain ⟨collapsed, -, heq⟩ := h
        cases heq
        exact ⟨collapsed, rfl, rfl⟩
    obtain ⟨collapsed, rfl, rfl⟩ := hturn
    refine ⟨hlinked.plain role collapsed hrole, [], List.nil_sublist _, ?_⟩
    rw [hplain]
    exact .nil

/-! ## 4. A request -/

/-- The responses in the messages of a request, in order. -/
def responses (items : List Json) : List Json :=
  items.flatMap fun c => responsesIn (c.getD "parts" .null)

theorem roleIn_ne_tool {role role' : Json} (h : roleIn role = some role') : role' ≠ .str "tool" := by
  obtain ⟨key, -, rfl⟩ := Option.map_eq_some_iff.mp h
  split
  · decide
  · split <;> decide

theorem linked_of_foldlM {py : Interpreter} {first : List Msg} {items : List Json}
    {acc : List Msg × ToolState} (hfirst : Linked first {}) (hplain : first.filter Msg.isTool = [])
    (h : items.foldlM (addMessage py) (first, {}) = some acc) :
    Linked acc.1 acc.2 ∧ ∃ answered, answered.Sublist (responses items) ∧
      List.Forall₂ (AnswersPart py acc.1) answered (acc.1.filter Msg.isTool) := by
  induction items using List.reverseRecOn generalizing acc with
  | nil =>
    cases h
    refine ⟨hfirst, [], List.nil_sublist _, ?_⟩
    rw [hplain]
    exact .nil
  | append_singleton items c ih =>
    obtain ⟨before, hbefore, hafter⟩ := Pointwise.exists_of_foldlM_concat h
    obtain ⟨hlinked, answered, hsub, hanswered⟩ := ih hbefore
    rw [responses, List.flatMap_append]
    rw [addMessage] at hafter
    split at hafter
    · obtain ⟨role, hrole, hafter⟩ := Option.bind_eq_some_iff.mp hafter
      obtain ⟨⟨turn, state⟩, hturn, heq⟩ := Option.bind_eq_some_iff.mp hafter
      cases heq
      obtain ⟨hnext, more, hmore, hparts⟩ := linked_turn hlinked (roleIn_ne_tool hrole) hturn
      refine ⟨hnext, answered ++ more, hsub.append ?_, ?_⟩
      · rw [List.flatMap_singleton]
        exact hmore
      · rw [List.filter_append]
        exact List.rel_append (hanswered.imp fun _ _ hpart => hpart.mono turn) hparts
    · cases hafter
      exact ⟨hlinked, answered, hsub.trans (List.sublist_append_left _ _), hanswered⟩

theorem linked_nil : Linked [] {} where
  answerable := answerable_nil
  ids := rfl
  waiting := {
    once := by
      intro key ids hget
      cases hget
    declared := by
      intro key ids id hget
      cases hget
    unanswered := by
      intro key ids id hget
      cases hget
    apart := by
      intro key key' ids ids' id hget
      cases hget }
  once := List.nodup_nil
  placed := by
    intro id hid
    cases hid

/-- What holds of the messages of a translated request. -/
structure Answered (py : Interpreter) (items : List Json) (out : List Msg) : Prop where
  answerable : Answerable out
  /-- no id is made up twice -/
  distinct : (declaredIds out).Nodup
  /-- no call is answered twice -/
  once : (answeredIds out).Nodup
  /-- the tool messages are responses of the request, in order, each at a call of its name -/
  named : ∃ answered, answered.Sublist (responses items) ∧
    List.Forall₂ (AnswersPart py out) answered (out.filter Msg.isTool)

theorem linked_of_messages {py : Interpreter} {body : Json} {out : List Msg}
    (h : messages py body = some out) : ∃ items,
      itemsOf (body.getD "contents" (.arr [])) = some items ∧ Answered py items out := by
  obtain ⟨first, hfirst, h⟩ := Option.bind_eq_some_iff.mp h
  obtain ⟨items, hitems, h⟩ := Option.bind_eq_some_iff.mp h
  obtain ⟨acc, hacc, heq⟩ := Option.bind_eq_some_iff.mp h
  cases heq
  have hsystem : first = [] ∨ ∃ text, first = [plainMessage (.str "system") text] := by
    obtain ⟨inst, -, hfirst⟩ := Option.bind_eq_some_iff.mp hfirst
    dsimp only at hfirst
    split at hfirst
    · obtain ⟨text, -, hfirst⟩ := Option.bind_eq_some_iff.mp hfirst
      split at hfirst
      · split at hfirst
        · cases hfirst
          exact Or.inr ⟨_, rfl⟩
        · cases hfirst
          exact Or.inl rfl
      · cases hfirst
        exact Or.inl rfl
    · cases hfirst
      exact Or.inl rfl
  have hstart : Linked first {} ∧ first.filter Msg.isTool = [] := by
    rcases hsystem with rfl | ⟨text, rfl⟩
    · exact ⟨linked_nil, rfl⟩
    · exact ⟨linked_nil.plain (.str "system") text (by decide), rfl⟩
  obtain ⟨hlinked, hnamed⟩ := linked_of_foldlM hstart.1 hstart.2 hacc
  refine ⟨items, hitems, hlinked.answerable, ?_, hlinked.once, hnamed⟩
  rw [hlinked.ids]
  exact nodup_firstIds _

end Gemini

/-! ## 5. Both protocols -/

/-- **Translated tool results are answerable**: of a Gemini request always, of an Anthropic
    request exactly if its turns with role "tool" hold results of earlier calls and say
    nothing else. -/
theorem tool_results_answerable (py : Interpreter) :
    (∀ body out, Anthropic.messages py body = some out → ∃ items,
      itemsOf (body.getD "messages" (.arr [])) = some items ∧
      (Answerable out ↔ Anthropic.ToolTurnsAnswer items)) ∧
    ∀ body out, Gemini.messages py body = some out → ∃ items,
      itemsOf (body.getD "contents" (.arr [])) = some items ∧ Gemini.Answered py items out :=
  ⟨fun _ _ => Anthropic.answerable_iff, fun _ _ => Gemini.linked_of_messages⟩

/-- The calls of the request come before the results that name them. -/
def UsesPrecede (items : List Json) : Prop :=
  ∀ before m after blocks, items = before ++ m :: after → m.getD "content" .null = .arr blocks →
    ∀ block ∈ blocks, Anthropic.isBlock "tool_result" block = true →
      ∃ key ∈ before.flatMap Anthropic.declaredKeys,
        (block.getD "tool_use_id" (.str "")).dictKey? = some key

/-- A turn that says it is of a tool is handed on without an id. -/
theorem not_answerable_tool_role : ¬ ∀ (py : Interpreter) (body : Json) (items : List Json)
    (out : List Msg), Anthropic.messages py body = some out →
    itemsOf (body.getD "messages" (.arr [])) = some items → UsesPrecede items → Answerable out := by
  intro hclaim
  let m : Json := .obj [("role", .str "tool"), ("content", .str "12 degrees")]
  have hanswerable := hclaim plainInterpreter (.obj [("messages", .arr [m])]) [m]
    [plainMessage (.str "tool") (.str "12 degrees")] rfl rfl ?_
  · obtain ⟨a, ha, -⟩ := hanswerable [] _ [] rfl rfl
    cases ha
  · intro before m' after blocks heq hcontent
    have hm : m' ∈ [m] := heq ▸ List.mem_append_right _ List.mem_cons_self
    rw [List.mem_singleton.mp hm] at hcontent
    cases hcontent

end TokenProxy.Ingress
