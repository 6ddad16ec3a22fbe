/-
  TokenProxy/ToolExchanges.lean
  =============================
  **Conversations as exchanges**: a message with the tool results right behind it.

  A provider refuses a conversation in which a tool result does not follow the assistant
  message that declared its id.  `Paired` says this of the list of messages, and
  `paired_iff` of its exchanges, which is the form in which a cut, a filter or a dropped
  span is followed: whatever keeps whole exchanges keeps the pairs.
-/
import TokenProxy.PyJson
import Mathlib.Data.List.SplitBy
import Mathlib.Data.List.Forall2

namespace TokenProxy.History

/-! ## 1. Messages -/

/-- A chat message. -/
structure Msg where
  fields : List (String × Json)
deriving DecidableEq

namespace Msg

/-- `msg.get(key)`. -/
def get (m : Msg) (key : String) : Json := (Json.obj m.fields).getD key .null

/-- `msg = dict(msg); msg[key] = value`. -/
def set (m : Msg) (key : String) (value : Json) : Msg := ⟨Assoc.insert key value m.fields⟩

def isTool (m : Msg) : Bool := m.get "role" = .str "tool"

def isSystem (m : Msg) : Bool := m.get "role" = .str "system"

/-- The ids of the tool calls that a message declares. -/
def callIds (m : Msg) : List Json :=
  match m.get "tool_calls" with
  | .arr calls => calls.map fun call => call.getD "id" .null
  | _ => []

/-- The tool message is the result of a call that the assistant message declared. -/
def Answers (t a : Msg) : Prop :=
  a.get "role" = .str "assistant" ∧ t.get "tool_call_id" ∈ a.callIds

theorem get_set_of_ne (m : Msg) {key other : String} (h : other ≠ key) (v : Json) :
    (m.set key v).get other = m.get other :=
  Json.getD_set_of_ne (.obj m.fields) h v .null

theorem not_isTool_of_isSystem {m : Msg} (h : m.isSystem = true) : m.isTool = false := by
  have hrole : m.get "role" = .str "system" := of_decide_eq_true h
  simp [isTool, hrole]

theorem not_isSystem_of_isTool {m : Msg} (h : m.isTool = true) : m.isSystem = false := by
  have hrole : m.get "role" = .str "tool" := of_decide_eq_true h
  simp [isSystem, hrole]

theorem Answers.not_isTool {t a : Msg} (h : t.Answers a) : a.isTool = false := by
  simp [isTool, h.1]

theorem Answers.not_isSystem {t a : Msg} (h : t.Answers a) : a.isSystem = false := by
  simp [isSystem, h.1]

end Msg

/-! ## 2. Exchanges -/

/-- Every tool message follows, with only tool messages in between, the assistant message that
    declared its id. -/
def Paired (ms : List Msg) : Prop :=
  ∀ before t after, ms = before ++ t :: after → t.isTool = true →
    ∃ pre a tools, before = pre ++ a :: tools ∧ (∀ m ∈ tools, m.isTool = true) ∧ t.Answers a

/-- Each message with the tool messages right behind it. -/
def exchanges (ms : List Msg) : List (List Msg) := ms.splitBy fun _ next => next.isTool

/-- A message and the results of calls that it declared. -/
def IsExchange (e : List Msg) : Prop :=
  ∃ head tools, e = head :: tools ∧ head.isTool = false ∧
    ∀ t ∈ tools, t.isTool = true ∧ t.Answers head

theorem isChain_tools {head : Msg} {tools : List Msg} (h : ∀ t ∈ tools, t.isTool = true) :
    (head :: tools).IsChain fun _ next => next.isTool = true := by
  induction tools generalizing head with
  | nil => simp
  | cons t tools ih =>
    refine List.isChain_cons_cons.mpr ⟨h t List.mem_cons_self, ?_⟩
    exact ih fun s hs => h s (List.mem_cons_of_mem t hs)

theorem tools_of_isChain {head : Msg} {tools : List Msg}
    (h : (head :: tools).IsChain fun _ next => next.isTool = true) :
    ∀ t ∈ tools, t.isTool = true := by
  induction tools generalizing head with
  | nil => simp
  | cons s tools ih =>
    intro t ht
    obtain ⟨hs, hrest⟩ := List.isChain_cons_cons.mp h
    rcases List.mem_cons.mp ht with rfl | ht
    · exact hs
    · exact ih hrest t ht

/-- Exchanges strung together are taken apart again. -/
theorem exchanges_flatten {es : List (List Msg)} (h : ∀ e ∈ es, IsExchange e) :
    exchanges es.flatten = es := by
  refine List.splitBy_flatten ?_ ?_ ?_
  · intro hnil
    obtain ⟨head, tools, hcons, -⟩ := h [] hnil
    cases hcons
  · intro e he
    obtain ⟨head, tools, rfl, -, htools⟩ := h e he
    exact isChain_tools fun t ht => (htools t ht).1
  · induction es with
    | nil => simp
    | cons e es ih =>
      have hrest := ih fun f hf => h f (List.mem_cons_of_mem e hf)
      refine List.isChain_cons.mpr ⟨?_, hrest⟩
      intro f hf
      obtain ⟨head, tools, rfl, -, -⟩ := h e List.mem_cons_self
      obtain ⟨next, rest, rfl, hnext, -⟩ := h f (List.mem_cons_of_mem _ (List.mem_of_mem_head? hf))
      exact ⟨by simp, by simp, by simpa using hnext⟩

/-- The nearest message before a run of tool messages that is none. -/
theorem head_of_run {pre pre' tools tools' : List Msg} {a a' : Msg}
    (h : pre ++ a :: tools = pre' ++ a' :: tools') (ha : a.isTool = false)
    (ha' : a'.isTool = false) (htools : ∀ m ∈ tools, m.isTool = true)
    (htools' : ∀ m ∈ tools', m.isTool = true) : a = a' := by
  have hdrop : ∀ (p ts : List Msg) (b : Msg), b.isTool = false → (∀ m ∈ ts, m.isTool = true) →
      ((p ++ b :: ts).reverse.dropWhile Msg.isTool).head? = some b := by
    intro p ts b hb hts
    rw [List.reverse_append, List.reverse_cons, List.append_assoc,
      List.dropWhile_append_of_pos (by simpa using hts)]
    simp [hb]
  have heq := hdrop pre tools a ha htools
  rw [h, hdrop pre' tools' a' ha' htools'] at heq
  exact (Option.some.inj heq).symm

theorem isExchange_of_paired {ms : List Msg} (h : Paired ms) : ∀ e ∈ exchanges ms, IsExchange e := by
  intro e he
  obtain ⟨es, fs, hsplit⟩ := List.append_of_mem he
  have hms : ms = es.flatten ++ (e ++ fs.flatten) := by
    rw [← List.flatten_cons, ← List.flatten_append, ← hsplit]
    exact (List.flatten_splitBy _ ms).symm
  cases e with
  | nil => exact absurd he (List.nil_notMem_splitBy _ ms)
  | cons head tools =>
    have htools := tools_of_isChain (List.isChain_of_mem_splitBy he)
    -- a tool message at the head would follow an assistant's tool messages, so not start a group
    have hhead : head.isTool = false := by
      rw [Bool.eq_false_iff]
      intro htool
      obtain ⟨pre, a, run, hbefore, -, -⟩ := h es.flatten head (tools ++ fs.flatten)
        (by simpa using hms) htool
      have hchain := List.isChain_getLast_head_splitBy (fun _ next => Msg.isTool next) ms
      rw [exchanges] at hsplit
      rw [hsplit] at hchain
      rcases List.eq_nil_or_concat es with rfl | ⟨es', last, rfl⟩
      · rw [List.flatten_nil] at hbefore
        exact absurd hbefore (by simp)
      · rw [List.concat_eq_append, List.append_assoc, List.isChain_append] at hchain
        obtain ⟨-, hrest, -⟩ := hchain
        obtain ⟨⟨_, _, hnot⟩, -⟩ := List.isChain_cons_cons.mp hrest
        rw [List.head_cons, htool] at hnot
        cases hnot
    refine ⟨head, tools, rfl, hhead, fun t ht => ⟨htools t ht, ?_⟩⟩
    obtain ⟨ts, us, rfl⟩ := List.append_of_mem ht
    obtain ⟨pre, a, run, hbefore, hrun, hanswers⟩ := h (es.flatten ++ head :: ts) t
      (us ++ fs.flatten) (by simpa using hms) (htools t ht)
    have heq := head_of_run hbefore hhead hanswers.not_isTool
      (fun m hm => htools m (List.mem_append_left _ hm)) hrun
    rw [heq]
    exact hanswers

theorem paired_flatten {es : List (List Msg)} (h : ∀ e ∈ es, IsExchange e) : Paired es.flatten := by
  induction es with
  | nil =>
    intro before t after hms
    exact absurd hms (by simp)
  | cons e es ih =>
    have hrest := ih fun f hf => h f (List.mem_cons_of_mem e hf)
    obtain ⟨head, tools, rfl, hhead, htools⟩ := h e List.mem_cons_self
    intro before t after hms htool
    rw [List.flatten_cons, List.append_eq_append_iff] at hms
    rcases hms with ⟨mid, rfl, hmid⟩ | ⟨mid, hmid, hafter⟩
    · -- the tool message is in a later exchange
      obtain ⟨pre, a, run, rfl, hrun, hanswers⟩ := hrest mid t after hmid htool
      exact ⟨head :: tools ++ pre, a, run, by simp, hrun, hanswers⟩
    · cases mid with
      | nil =>
        obtain ⟨pre, a, run, hnil, -, -⟩ := hrest [] t after (by simpa using hafter.symm) htool
        exact absurd hnil (by simp)
      | cons m mid =>
        obtain ⟨rfl, -⟩ : t = m ∧ after = mid ++ es.flatten := by simpa using hafter
        cases before with
        | nil =>
          obtain ⟨rfl, -⟩ : head = t ∧ tools = mid := by simpa using hmid
          rw [hhead] at htool
          cases htool
        | cons b before =>
          obtain ⟨rfl, rfl⟩ : head = b ∧ tools = before ++ t :: mid := by simpa using hmid
          refine ⟨[], head, before, by simp, ?_, (htools t (by simp)).2⟩
          intro s hs
          exact (htools s (List.mem_append_left _ hs)).1

/-- **Pairs are exchanges**: the tool messages of a conversation are paired exactly when each of
    its exchanges is a message with results of its own calls. -/
theorem paired_iff (ms : List Msg) : Paired ms ↔ ∀ e ∈ exchanges ms, IsExchange e := by
  constructor
  · exact isExchange_of_paired
  · intro h
    have hflatten := paired_flatten h
    rwa [exchanges, List.flatten_splitBy] at hflatten

/-! ## 3. What a cut keeps -/

/-- The message with nothing but its content rewritten. -/
def SameButContent (m m' : Msg) : Prop := ∀ key, key ≠ "content" → m'.get key = m.get key

def SameExchange (e e' : List Msg) : Prop := List.Forall₂ SameButContent e e'

/-- An exchange that no system message is part of. -/
def spoken (e : List Msg) : Bool := e.all fun m => !m.isSystem

/-- The exchanges, system messages aside. -/
def conversation (ms : List Msg) : List (List Msg) := (exchanges ms).filter spoken

/-- Some of the exchanges, whole and in order, their contents rewritten. -/
def Shrinks (es es' : List (List Msg)) : Prop :=
  ∃ kept, kept.Sublist es ∧ List.Forall₂ SameExchange kept es'

/-- Whatever is kept of the conversation is kept with all the tool messages that answered it. -/
def KeepsExchanges (input output : List Msg) : Prop :=
  Shrinks (conversation input) (conversation output)

theorem SameButContent.refl (m : Msg) : SameButContent m m := fun _ _ => rfl

theorem SameButContent.trans {a b c : Msg} (hab : SameButContent a b) (hbc : SameButContent b c) :
    SameButContent a c := fun key hkey => (hbc key hkey).trans (hab key hkey)

theorem SameButContent.set_content (m : Msg) (v : Json) : SameButContent m (m.set "content" v) :=
  fun _ hkey => m.get_set_of_ne hkey v

theorem SameButContent.isTool_eq {m m' : Msg} (h : SameButContent m m') :
    m'.isTool = m.isTool := by
  rw [Msg.isTool, Msg.isTool, h "role" (by decide)]

theorem SameButContent.isSystem_eq {m m' : Msg} (h : SameButContent m m') :
    m'.isSystem = m.isSystem := by
  rw [Msg.isSystem, Msg.isSystem, h "role" (by decide)]

theorem SameButContent.answers {t t' a a' : Msg} (ht : SameButContent t t')
    (ha : SameButContent a a') (h : t.Answers a) : t'.Answers a' := by
  refine ⟨(ha "role" (by decide)).trans h.1, ?_⟩
  rw [ht "tool_call_id" (by decide), Msg.callIds, ha "tool_calls" (by decide)]
  exact h.2

theorem SameExchange.refl (e : List Msg) : SameExchange e e :=
  List.forall₂_same.mpr fun m _ => .refl m

theorem SameExchange.trans {e f g : List Msg} (hef : SameExchange e f) (hfg : SameExchange f g) :
    SameExchange e g := by
  induction hef generalizing g with
  | nil => exact hfg
  | cons hm _ ih =>
    cases hfg with
    | cons hm' hrest => exact .cons (hm.trans hm') (ih hrest)

theorem SameExchange.isExchange {e e' : List Msg} (h : SameExchange e e') (he : IsExchange e) :
    IsExchange e' := by
  obtain ⟨head, tools, rfl, hhead, htools⟩ := he
  cases h with
  | @cons _ head' _ tools' hsame hrest =>
    refine ⟨head', tools', rfl, hsame.isTool_eq.trans hhead, fun t' ht' => ?_⟩
    obtain ⟨t, ht, hsameTool⟩ : ∃ t ∈ tools, SameButContent t t' := by
      clear htools
      induction hrest with
      | nil => cases ht'
      | cons hs _ ih =>
        rcases List.mem_cons.mp ht' with rfl | ht'
        · exact ⟨_, List.mem_cons_self, hs⟩
        · obtain ⟨t, ht, hsame⟩ := ih ht'
          exact ⟨t, List.mem_cons_of_mem _ ht, hsame⟩
    exact ⟨hsameTool.isTool_eq.trans (htools t ht).1, hsameTool.answers hsame (htools t ht).2⟩

theorem SameExchange.spoken_eq {e e' : List Msg} (h : SameExchange e e') : spoken e' = spoken e := by
  induction h with
  | nil => rfl
  | cons hm _ ih =>
    rw [spoken, List.all_cons, ← spoken, ih, hm.isSystem_eq]
    rfl

theorem Shrinks.refl (es : List (List Msg)) : Shrinks es es :=
  ⟨es, List.Sublist.refl es, List.forall₂_same.mpr fun e _ => .refl e⟩

theorem Shrinks.nil (es : List (List Msg)) : Shrinks es [] := ⟨[], List.nil_sublist es, .nil⟩

theorem Shrinks.append {es es' fs fs' : List (List Msg)} (h : Shrinks es es') (h' : Shrinks fs fs') :
    Shrinks (es ++ fs) (es' ++ fs') := by
  obtain ⟨kept, hsub, hsame⟩ := h
  obtain ⟨kept', hsub', hsame'⟩ := h'
  exact ⟨kept ++ kept', hsub.append hsub', List.rel_append hsame hsame'⟩

theorem Shrinks.cons {e e' : List Msg} {es es' : List (List Msg)} (he : SameExchange e e')
    (h : Shrinks es es') : Shrinks (e :: es) (e' :: es') := by
  obtain ⟨kept, hsub, hsame⟩ := h
  exact ⟨e :: kept, hsub.cons_cons e, .cons he hsame⟩

theorem Shrinks.skip {es es' : List (List Msg)} (e : List Msg) (h : Shrinks es es') :
    Shrinks (e :: es) es' := by
  obtain ⟨kept, hsub, hsame⟩ := h
  exact ⟨kept, hsub.cons e, hsame⟩

theorem forall₂_of_sublist {α β : Type} {R : α → β → Prop} {xs : List α} {ys ys' : List β}
    (h : List.Forall₂ R xs ys) (hsub : ys'.Sublist ys) :
    ∃ xs' : List α, xs'.Sublist xs ∧ List.Forall₂ R xs' ys' := by
  induction h generalizing ys' with
  | nil =>
    rw [List.sublist_nil.mp hsub]
    exact ⟨[], List.Sublist.refl [], .nil⟩
  | @cons x y xs ys hxy _ ih =>
    cases hsub with
    | cons _ hrest =>
      obtain ⟨xs', hsub', hrel⟩ := ih hrest
      exact ⟨xs', hsub'.cons x, hrel⟩
    | cons_cons _ hrest =>
      obtain ⟨xs', hsub', hrel⟩ := ih hrest
      exact ⟨x :: xs', hsub'.cons_cons x, .cons hxy hrel⟩

theorem Shrinks.trans {es fs gs : List (List Msg)} (h : Shrinks es fs) (h' : Shrinks fs gs) :
    Shrinks es gs := by
  obtain ⟨kept, hsub, hsame⟩ := h
  obtain ⟨kept', hsub', hsame'⟩ := h'
  obtain ⟨kept'', hsub'', hrel⟩ := forall₂_of_sublist hsame hsub'
  refine ⟨kept'', hsub''.trans hsub, ?_⟩
  clear hsub''
  induction hrel generalizing gs with
  | nil => exact hsame'
  | cons he _ ih =>
    cases hsame' with
    | cons he' hrest =>
      exact .cons (SameExchange.trans he he') (ih (List.sublist_of_cons_sublist hsub') hrest)

/-- What every exchange had, and rewriting contents leaves, the kept ones have. -/
theorem Shrinks.forall {P : List Msg → Prop} (hP : ∀ e e', SameExchange e e' → P e → P e')
    {es es' : List (List Msg)} (h : Shrinks es es') (hes : ∀ e ∈ es, P e) : ∀ e ∈ es', P e := by
  obtain ⟨kept, hsub, hsame⟩ := h
  have hkept : ∀ e ∈ kept, P e := fun e he => hes e (hsub.subset he)
  clear hsub hes
  induction hsame with
  | nil => simp
  | cons he _ ih =>
    intro f hf
    rcases List.mem_cons.mp hf with rfl | hf
    · exact hP _ _ he (hkept _ List.mem_cons_self)
    · exact ih (fun g hg => hkept g (List.mem_cons_of_mem _ hg)) f hf

theorem spoken_or_system {e : List Msg} (he : IsExchange e) :
    spoken e = true ∨ ∃ m, e = [m] ∧ m.isSystem = true := by
  obtain ⟨head, tools, rfl, -, htools⟩ := he
  by_cases hsystem : head.isSystem = true
  · cases tools with
    | nil => exact Or.inr ⟨head, rfl, hsystem⟩
    | cons t tools =>
      have hanswers := (htools t List.mem_cons_self).2
      rw [hanswers.not_isSystem] at hsystem
      cases hsystem
  · refine Or.inl ?_
    rw [spoken, List.all_eq_true]
    intro m hm
    rcases List.mem_cons.mp hm with rfl | hm
    · simpa using hsystem
    · simp [Msg.not_isSystem_of_isTool (htools m hm).1]

/-- `[m for m in messages if m.get("role") != "system"]`, exchange by exchange. -/
theorem filter_turns {es : List (List Msg)} (h : ∀ e ∈ es, IsExchange e) :
    es.flatten.filter (fun m => !m.isSystem) = (es.filter spoken).flatten := by
  induction es with
  | nil => rfl
  | cons e es ih =>
    have hrest := ih fun f hf => h f (List.mem_cons_of_mem e hf)
    rw [List.flatten_cons, List.filter_append, hrest]
    rcases spoken_or_system (h e List.mem_cons_self) with hspoken | ⟨m, rfl, hsystem⟩
    · rw [List.filter_cons_of_pos hspoken, List.flatten_cons]
      have hall := List.all_eq_true.mp hspoken
      rw [List.filter_eq_self.mpr hall]
    · have hnot : ¬ spoken [m] = true := by simp [spoken, hsystem]
      rw [List.filter_cons_of_neg hnot]
      simp [hsystem]

/-- The turns of a paired list are its conversation. -/
theorem turns_of_paired {ms : List Msg} (h : Paired ms) :
    ms.filter (fun m => !m.isSystem) = (conversation ms).flatten := by
  have hturns := filter_turns (isExchange_of_paired h)
  rwa [exchanges, List.flatten_splitBy, ← exchanges] at hturns

theorem isExchange_conversation {ms : List Msg} (h : Paired ms) :
    ∀ e ∈ conversation ms, IsExchange e :=
  fun e he => isExchange_of_paired h e (List.mem_of_mem_filter he)

/-- **Putting a conversation back**: behind system messages, whole exchanges of a paired list are
    paired, and keep what answered them. -/
theorem keeps_of_shrinks {input systems : List Msg} {es : List (List Msg)} (h : Paired input)
    (hsystems : ∀ m ∈ systems, m.isSystem = true) (hshrinks : Shrinks (conversation input) es) :
    Paired (systems ++ es.flatten) ∧ KeepsExchanges input (systems ++ es.flatten) := by
  have hes : ∀ e ∈ es, IsExchange e :=
    hshrinks.forall (fun _ _ hsame => hsame.isExchange) (isExchange_conversation h)
  have hspoken : ∀ e ∈ es, spoken e = true :=
    hshrinks.forall (fun _ _ hsame hspoken => hsame.spoken_eq.trans hspoken)
      fun e he => (List.mem_filter.mp he).2
  have hsingles : ∀ e ∈ systems.map (fun m => [m]), IsExchange e ∧ spoken e = false := by
    intro e he
    obtain ⟨m, hm, rfl⟩ := List.mem_map.mp he
    have hsystem := hsystems m hm
    exact ⟨⟨m, [], rfl, Msg.not_isTool_of_isSystem hsystem, by simp⟩, by simp [spoken, hsystem]⟩
  have hall : ∀ e ∈ systems.map (fun m => [m]) ++ es, IsExchange e := by
    intro e he
    rcases List.mem_append.mp he with he | he
    · exact (hsingles e he).1
    · exact hes e he
  have hflatten : systems ++ es.flatten = (systems.map (fun m => [m]) ++ es).flatten := by
    rw [List.flatten_append]
    congr 1
    clear hsystems hsingles hall
    induction systems with
    | nil => rfl
    | cons m systems ih => simpa using ih
  have hconversation : conversation (systems ++ es.flatten) = es := by
    rw [hflatten, conversation, exchanges_flatten hall, List.filter_append]
    rw [List.filter_eq_nil_iff.mpr fun e he => by simp [(hsingles e he).2], List.nil_append]
    exact List.filter_eq_self.mpr hspoken
  constructor
  · rw [hflatten]
    exact paired_flatten hall
  · rw [KeepsExchanges, hconversation]
    exact hshrinks

end TokenProxy.History
