/-
  TokenProxy/CacheOrder.lean
  ==========================
  **The order of the messages for a prefix cache** (`g21_cache_alignment.py`, `align_prefix`
  of `openai_adapter.py`, `insert_before_last_user`).

  Retrieved documents go just before the last user message, and the caller's system messages
  to the front, unless there are as many system messages at the front as the caller has.  The
  shortcut does not ask whose they are: behind no message but the caller's, retrieved documents
  count as well.

  Main result: `cacheOrdered_iff`, when the order is the one that the cache needs.
-/
import TokenProxy.PrefixStability

namespace TokenProxy.CacheOrder

open TokenProxy.History (Msg)
open TokenProxy.KeyStore (isSpace)
open TokenProxy.PrefixStability (Pattern stabiliseSystemMessages)

/-! ## 1. The messages -/

def isUser (m : Msg) : Bool := m.get "role" = .str "user"

/-- `is_retrieved_context` -/
def isRetrievedContext (m : Msg) : Bool :=
  m.isSystem &&
    match m.get "content" with
    | .str content => "[Retrieved context]".toList.isPrefixOf (content.toList.dropWhile isSpace)
    | _ => false

/-- A system message of the caller. -/
def isCaller (m : Msg) : Bool := m.isSystem && !isRetrievedContext m

/-- What stands in front of the last user message, and what stands from it on; all is in front
    when there is none. -/
def splitLastUser : List Msg → List Msg × List Msg
  | [] => ([], [])
  | m :: rest =>
    let (front, back) := splitLastUser rest
    if back = [] ∧ isUser m = true then ([], m :: rest) else (m :: front, back)

/-- `insert_before_last_user` -/
def insertBeforeLastUser (messages inserted : List Msg) : List Msg :=
  (splitLastUser messages).1 ++ inserted ++ (splitLastUser messages).2

def moveRetrieved (messages : List Msg) : List Msg :=
  if messages.any isRetrievedContext then
    insertBeforeLastUser (messages.filter fun m => !isRetrievedContext m)
      (messages.filter isRetrievedContext)
  else messages

/-! ## 2. The reordering -/

/-- `align_prefix` of OpenAI's adapter: `ctx.messages` afterwards, and what it returns. -/
def alignPrefix (auto : Bool) (messages systemMsgs variableMsgs : List Msg) : List Msg × Bool :=
  if !auto then (messages, false)
  else if systemMsgs = [] then (messages, false)
  else
    let n := systemMsgs.length
    let alreadyContiguous := decide (n ≤ messages.length) && (messages.take n).all Msg.isSystem
    if alreadyContiguous then (messages, false) else (systemMsgs ++ variableMsgs, true)

def relocationNote (relocated : List (List Char)) : Msg where
  fields := [("role", .str "system"),
    ("content", .str ("Request-specific values (excluded from the cached prefix):" ++ " " ++
      " ".intercalate (relocated.map String.ofList)))]

/-- The messages in `process_request`; `stabilise` is set when the operator has turned the
    stabilisation of the prefix on. -/
def processRequest (auto : Bool) (stabilise : Option (List Pattern × Int))
    (messages : List Msg) : List Msg × Bool :=
  let messages := moveRetrieved messages
  let systemMsgs := messages.filter isCaller
  let variableMsgs := messages.filter fun m => !isCaller m
  match stabilise with
  | none => alignPrefix auto messages systemMsgs variableMsgs
  | some (patterns, maxRelocatedChars) =>
    let (systemMsgs, relocated) := stabiliseSystemMessages systemMsgs patterns maxRelocatedChars
    if relocated = [] then alignPrefix auto messages systemMsgs variableMsgs
    else
      let variableMsgs := variableMsgs ++ [relocationNote relocated]
      alignPrefix auto (systemMsgs ++ variableMsgs) systemMsgs variableMsgs

/-- The order for a prefix cache. -/
structure CacheOrdered (messages out : List Msg) : Prop where
  perm : out.Perm messages
  conversation : (out.filter fun m => !m.isSystem) = messages.filter fun m => !m.isSystem
  callersFirst : messages.filter isCaller <+: out

/-- The caller's system messages from the last user message on. -/
def lateCallers (messages : List Msg) : List Msg := (splitLastUser messages).2.filter isCaller

/-- The retrieved documents cannot stand in for system messages of the caller: there is
    conversation in front of them, no such message comes late, or there are fewer of them. -/
def NoneMistaken (messages : List Msg) : Prop :=
  (∃ m ∈ (splitLastUser messages).1, m.isSystem = false) ∨ lateCallers messages = [] ∨
    (messages.filter isRetrievedContext).length < (lateCallers messages).length

/-! ## 3. Where the retrieved documents go -/

theorem isSystem_of_isCaller {m : Msg} (h : isCaller m = true) : m.isSystem = true :=
  ((Bool.and_eq_true _ _).mp h).1

theorem isSystem_of_isRetrievedContext {m : Msg} (h : isRetrievedContext m = true) :
    m.isSystem = true :=
  ((Bool.and_eq_true _ _).mp h).1

theorem not_isSystem_of_isUser {m : Msg} (h : isUser m = true) : m.isSystem = false := by
  have hrole : m.get "role" = .str "user" := of_decide_eq_true h
  rw [Msg.isSystem, hrole]
  decide

theorem isRetrievedContext_of_isCaller {m : Msg} (h : isCaller m = true) :
    isRetrievedContext m = false := by
  have hnot := ((Bool.and_eq_true _ _).mp h).2
  rwa [Bool.not_eq_true'] at hnot

theorem splitLastUser_append (messages : List Msg) :
    (splitLastUser messages).1 ++ (splitLastUser messages).2 = messages := by
  induction messages with
  | nil => rfl
  | cons m rest ih =>
    rw [splitLastUser]
    dsimp only
    split
    · rfl
    · exact congrArg (m :: ·) ih

theorem head_splitLastUser (messages : List Msg) :
    ∀ m ∈ (splitLastUser messages).2.head?, isUser m = true := by
  induction messages with
  | nil =>
    intro m hm
    cases hm
  | cons m rest ih =>
    rw [splitLastUser]
    dsimp only
    split
    · next huser =>
      intro m' hm'
      cases hm'
      exact huser.2
    · exact ih

/-- Messages that are no user messages can be taken away before or after the split. -/
theorem splitLastUser_filter {p : Msg → Bool} (hp : ∀ m, isUser m = true → p m = true)
    (messages : List Msg) : splitLastUser (messages.filter p) =
      ((splitLastUser messages).1.filter p, (splitLastUser messages).2.filter p) := by
  induction messages with
  | nil => rfl
  | cons m rest ih =>
    have hback : (splitLastUser rest).2.filter p = [] ↔ (splitLastUser rest).2 = [] := by
      constructor
      · intro hnone
        cases hrest : (splitLastUser rest).2 with
        | nil => rfl
        | cons u more =>
          have huser := head_splitLastUser rest u (by rw [hrest]; rfl)
          rw [hrest, List.filter_cons_of_pos (hp u huser)] at hnone
          cases hnone
      · intro hnone
        rw [hnone, List.filter_nil]
    by_cases hm : p m = true
    · rw [List.filter_cons_of_pos hm, splitLastUser, splitLastUser, ih]
      simp only [hback]
      split
      · rw [List.filter_nil, List.filter_cons_of_pos hm]
      · rw [List.filter_cons_of_pos hm]
    · have hnot : isUser m ≠ true := fun huser => hm (hp m huser)
      rw [List.filter_cons_of_neg hm, splitLastUser, ih]
      dsimp only
      rw [if_neg (fun h => hnot h.2), List.filter_cons_of_neg hm]

/-- Where everything goes, also when there are no retrieved documents. -/
theorem moveRetrieved_eq (messages : List Msg) : moveRetrieved messages =
    ((splitLastUser messages).1.filter fun m => !isRetrievedContext m) ++
      messages.filter isRetrievedContext ++
        ((splitLastUser messages).2.filter fun m => !isRetrievedContext m) := by
  have huser : ∀ m, isUser m = true → (!isRetrievedContext m) = true := by
    intro m hm
    rw [Bool.not_eq_true', isRetrievedContext, not_isSystem_of_isUser hm, Bool.false_and]
  rw [moveRetrieved]
  split
  · rw [insertBeforeLastUser, splitLastUser_filter huser]
  · next hnone =>
    have hnot : ∀ m ∈ messages, ¬ isRetrievedContext m = true := by
      intro m hm hretrieved
      exact hnone (List.any_eq_true.mpr ⟨m, hm, hretrieved⟩)
    have hkeep : (messages.filter fun m => !isRetrievedContext m) = messages := by
      rw [List.filter_eq_self]
      intro m hm
      rw [Bool.not_eq_true', Bool.eq_false_iff]
      exact hnot m hm
    have hsplit := splitLastUser_append (messages.filter fun m => !isRetrievedContext m)
    rw [splitLastUser_filter huser, hkeep] at hsplit
    rw [List.filter_eq_nil_iff.mpr hnot, List.append_nil, hsplit]

theorem moveRetrieved_perm (messages : List Msg) : (moveRetrieved messages).Perm messages := by
  have hsplit := congrArg (List.filter fun m => !isRetrievedContext m)
    (splitLastUser_append messages)
  rw [List.filter_append] at hsplit
  have hmiddle : (moveRetrieved messages).Perm
      (messages.filter isRetrievedContext ++ messages.filter fun m => !isRetrievedContext m) := by
    rw [moveRetrieved_eq, ← hsplit, ← List.append_assoc]
    exact List.perm_append_comm.append_right _
  exact hmiddle.trans (List.filter_append_perm isRetrievedContext messages)

/-- What no retrieved document satisfies keeps its order. -/
theorem filter_moveRetrieved {p : Msg → Bool} (hp : ∀ m, isRetrievedContext m = true → p m = false)
    (messages : List Msg) : (moveRetrieved messages).filter p = messages.filter p := by
  have hnone : (messages.filter isRetrievedContext).filter p = [] := by
    rw [List.filter_eq_nil_iff]
    intro m hm
    rw [hp m (List.mem_filter.mp hm).2]
    exact Bool.false_ne_true
  have hkeep : ∀ l : List Msg, (l.filter fun m => !isRetrievedContext m).filter p = l.filter p := by
    intro l
    rw [List.filter_filter]
    refine List.filter_congr fun m _ => ?_
    cases hm : isRetrievedContext m with
    | true => rw [hp m hm, Bool.false_and]
    | false => rw [Bool.not_false, Bool.and_true]
  rw [moveRetrieved_eq, List.filter_append, List.filter_append, hnone, hkeep, hkeep,
    List.append_nil, ← List.filter_append, splitLastUser_append]

theorem callers_moveRetrieved (messages : List Msg) :
    (moveRetrieved messages).filter isCaller = messages.filter isCaller :=
  filter_moveRetrieved (fun m hm => by rw [isCaller, hm, Bool.not_true, Bool.and_false]) messages

theorem conversation_moveRetrieved (messages : List Msg) :
    ((moveRetrieved messages).filter fun m => !m.isSystem) =
      messages.filter fun m => !m.isSystem :=
  filter_moveRetrieved
    (fun m hm => by rw [isSystem_of_isRetrievedContext hm, Bool.not_true]) messages

/-! ## 4. The shortcut -/

/-- When the first of a list satisfy `p`, as many as there are, they stand in front. -/
theorem filter_prefix_of_take {p : Msg → Bool} {l : List Msg}
    (h : ∀ m ∈ l.take (l.filter p).length, p m = true) : l.filter p <+: l := by
  have hsplit := congrArg (List.filter p) (List.take_append_drop (l.filter p).length l)
  rw [List.filter_append, List.filter_eq_self.mpr h] at hsplit
  have hlength : (l.take (l.filter p).length).length = (l.filter p).length :=
    List.length_take_of_le (List.length_filter_le p l)
  have hfirst : l.take (l.filter p).length = l.filter p :=
    List.IsPrefix.eq_of_length ⟨_, hsplit⟩ hlength
  rw [← hfirst]
  exact List.take_prefix _ l

theorem length_callers (messages : List Msg) : (messages.filter isCaller).length =
    ((splitLastUser messages).1.filter isCaller).length + (lateCallers messages).length := by
  rw [lateCallers, ← List.length_append, ← List.filter_append, splitLastUser_append]

/-- In front of the last user message, only the caller's system messages are left. -/
theorem filter_front {messages : List Msg}
    (hfront : ∀ m ∈ (splitLastUser messages).1, m.isSystem = true) :
    ((splitLastUser messages).1.filter fun m => !isRetrievedContext m) =
      (splitLastUser messages).1.filter isCaller := by
  refine List.filter_congr fun m hm => ?_
  rw [isCaller, hfront m hm, Bool.true_and]

/-- A document that is mistaken for the caller's: the shortcut is taken, and the document is
    among the first messages. -/
theorem mistaken {messages : List Msg} (h : ¬ NoneMistaken messages) :
    messages.filter isCaller ≠ [] ∧
      (∀ m ∈ (moveRetrieved messages).take (messages.filter isCaller).length,
        m.isSystem = true) ∧
      ¬ messages.filter isCaller <+: moveRetrieved messages := by
  rw [NoneMistaken, not_or, not_or, Nat.not_lt] at h
  obtain ⟨hfront, hlate, hmany⟩ := h
  have hsystem : ∀ m ∈ (splitLastUser messages).1, m.isSystem = true := by
    intro m hm
    by_contra hnot
    exact hfront ⟨m, hm, Bool.eq_false_iff.mpr hnot⟩
  have hsome := List.length_pos_iff.mpr hlate
  have hcount := length_callers messages
  have hmoved := moveRetrieved_eq messages
  rw [filter_front hsystem] at hmoved
  refine ⟨fun hnone => ?_, fun m hm => ?_, fun hstart => ?_⟩
  · rw [hnone, List.length_nil] at hcount
    omega
  · rw [hmoved, hcount, List.append_assoc, List.take_length_add_append,
      List.take_append_of_le_length hmany] at hm
    rcases List.mem_append.mp hm with hm | hm
    · exact isSystem_of_isCaller (List.mem_filter.mp hm).2
    · exact isSystem_of_isRetrievedContext (List.mem_filter.mp (List.mem_of_mem_take hm)).2
  · cases hretrieved : messages.filter isRetrievedContext with
    | nil =>
      rw [hretrieved, List.length_nil] at hmany
      omega
    | cons document rest =>
      have hcallers := congrArg (List.filter isCaller) (splitLastUser_append messages)
      rw [List.filter_append, ← lateCallers] at hcallers
      rw [hmoved, hretrieved, ← hcallers, List.append_assoc, List.prefix_append_right_inj]
        at hstart
      cases hcaller : lateCallers messages with
      | nil => exact hlate hcaller
      | cons caller more =>
        rw [hcaller, List.cons_append, List.cons_prefix_cons] at hstart
        have hmem : caller ∈ lateCallers messages := by
          rw [hcaller]
          exact List.mem_cons_self
        have hdocument : document ∈ messages.filter isRetrievedContext := by
          rw [hretrieved]
          exact List.mem_cons_self
        have hnot := isRetrievedContext_of_isCaller (List.mem_filter.mp hmem).2
        rw [hstart.1, (List.mem_filter.mp hdocument).2] at hnot
        cases hnot

/-- Where no document is mistaken for the caller's, the shortcut is right. -/
theorem callers_first {messages : List Msg} (h : NoneMistaken messages)
    (hsystem : ∀ m ∈ (moveRetrieved messages).take (messages.filter isCaller).length,
      m.isSystem = true) : messages.filter isCaller <+: moveRetrieved messages := by
  have hmoved := moveRetrieved_eq messages
  have hcount := length_callers messages
  generalize hA : ((splitLastUser messages).1.filter fun m => !isRetrievedContext m) = front
    at hmoved
  generalize hB : ((splitLastUser messages).2.filter fun m => !isRetrievedContext m) = back
    at hmoved
  rw [List.append_assoc] at hmoved
  by_cases hfew : (messages.filter isCaller).length ≤ front.length
  · rw [← callers_moveRetrieved messages]
    refine filter_prefix_of_take fun m hm => ?_
    rw [callers_moveRetrieved] at hm
    have hs := hsystem m hm
    rw [hmoved, List.take_append_of_le_length hfew, ← hA] at hm
    rw [isCaller, hs, Bool.true_and]
    exact (List.mem_filter.mp (List.mem_of_mem_take hm)).2
  · exfalso
    have hfront : ∀ m ∈ (splitLastUser messages).1, m.isSystem = true := by
      intro m hm
      cases hm' : isRetrievedContext m with
      | true => exact isSystem_of_isRetrievedContext hm'
      | false =>
        refine hsystem m ?_
        rw [hmoved, List.take_append]
        refine List.mem_append_left _ ?_
        rw [List.take_of_length_le (by omega), ← hA, List.mem_filter, hm']
        exact ⟨hm, rfl⟩
    rw [filter_front hfront] at hA
    rw [hA] at hcount
    rcases h with ⟨m, hm, hnot⟩ | hnone | hlate
    · rw [hfront m hm] at hnot
      cases hnot
    · rw [hnone, List.length_nil] at hcount
      omega
    · cases hback : (splitLastUser messages).2 with
      | nil =>
        rw [lateCallers, hback, List.filter_nil, List.length_nil] at hlate
        omega
      | cons user rest =>
        have huser := head_splitLastUser messages user (by rw [hback]; rfl)
        have hs := not_isSystem_of_isUser huser
        rw [hback, List.filter_cons_of_pos (by
          rw [isRetrievedContext, hs, Bool.false_and, Bool.not_false])] at hB
        -- the last user message itself is among the first messages
        have hin : user ∈ (moveRetrieved messages).take (messages.filter isCaller).length := by
          rw [hmoved, hcount, List.take_length_add_append, List.take_append, ← hB]
          refine List.mem_append_right _ (List.mem_append_right _ ?_)
          obtain ⟨n, hn⟩ := Nat.exists_eq_add_of_lt hlate
          rw [hn, Nat.add_assoc, Nat.add_sub_cancel_left, List.take_succ_cons]
          exact List.mem_cons_self
        rw [hsystem user hin] at hs
        cases hs

/-! ## 5. The order -/

/-- **After the reordering for automatic prefix caching the messages are in the order that the
    cache needs exactly when no retrieved document is mistaken for the caller's.** -/
theorem cacheOrdered_iff (messages : List Msg) :
    CacheOrdered messages (processRequest true none messages).1 ↔ NoneMistaken messages := by
  rw [processRequest, callers_moveRetrieved, alignPrefix]
  simp only [Bool.not_true, Bool.false_eq_true, if_false]
  have hlong : (messages.filter isCaller).length ≤ (moveRetrieved messages).length := by
    rw [(moveRetrieved_perm messages).length_eq]
    exact List.length_filter_le isCaller messages
  have hsame (hfirst : messages.filter isCaller <+: moveRetrieved messages) :
      CacheOrdered messages (moveRetrieved messages) :=
    ⟨moveRetrieved_perm messages, conversation_moveRetrieved messages, hfirst⟩
  split
  · next hnone =>
    refine iff_of_true (hsame ?_) ?_
    · rw [hnone]
      exact List.nil_prefix
    · by_contra hmistaken
      exact (mistaken hmistaken).1 hnone
  · rw [decide_eq_true hlong, Bool.true_and]
    split
    · next hall =>
      have hsystem := List.all_eq_true.mp hall
      constructor
      · intro hordered
        by_contra hmistaken
        exact (mistaken hmistaken).2.2 hordered.callersFirst
      · exact fun h => hsame (callers_first h hsystem)
    · next hnot =>
      refine iff_of_true ⟨?_, ?_, List.prefix_append _ _⟩ ?_
      · rw [← callers_moveRetrieved messages]
        exact (List.filter_append_perm isCaller _).trans (moveRetrieved_perm messages)
      · have hcallers : ((messages.filter isCaller).filter fun m => !m.isSystem) = [] := by
          rw [List.filter_eq_nil_iff]
          intro m hm
          rw [isSystem_of_isCaller (List.mem_filter.mp hm).2]
          exact Bool.false_ne_true
        rw [List.filter_append, hcallers, List.nil_append, List.filter_filter,
          ← conversation_moveRetrieved messages]
        refine List.filter_congr fun m _ => ?_
        rw [isCaller]
        cases m.isSystem <;> rfl
      · by_contra hmistaken
        exact hnot (List.all_eq_true.mpr (mistaken hmistaken).2.1)

/-! ### A late instruction -/

def saying (role content : String) : Msg := ⟨[("role", .str role), ("content", .str content)]⟩

/-- The document comes first, and the caller's instruction stays last. -/
theorem not_cacheOrdered : ¬ ∀ messages : List Msg,
    CacheOrdered messages (processRequest true none messages).1 := by
  intro h
  have hfirst := (h [saying "user" "Which port?", saying "system" "Answer briefly.",
    saying "system" "[Retrieved context]\nThe port is 8080."]).callersFirst
  exact absurd hfirst (by decide +kernel)

end TokenProxy.CacheOrder
