/-
  TokenProxy/SessionMemory.lean
  =============================
  **What becomes of a session when the summariser fails (`middleware/g10_memory.py`).**

  A request is shortened to a window of turns, the older ones replaced by a summary, and a
  session keeps a summary from one request to the next.  A failed call to the summariser
  reports itself as an ordinary text, `summaryUnavailable`, which neither caller looks at.

  The token counts, which only feed the savings record, are left out; so are long-term
  memories and skills, which are system messages that are there before the window.

  Main result: `memory_kept_iff`, when a request keeps its turns and the session its summary.
-/
import TokenProxy.ContextBudget

namespace TokenProxy.History

/-! ## 1. The summariser -/

/-- What a call to the summary model comes to. -/
inductive SummaryReply where
  | text (content : String)
  /-- an answer whose `content` is null -/
  | noContent
  /-- no key, an exception or a timeout -/
  | failed
deriving DecidableEq

/-- What a call reports. -/
def SummaryReply.reported : SummaryReply → String
  | text content => content
  | noContent => ""
  | failed => summaryUnavailable

/-- `summarise_turns`. -/
def summariseTurns (turns : List Msg) (reply : SummaryReply) : String :=
  if turns.isEmpty then ""
  else reply.reported

/-- The call produced a summary. -/
def SummaryReply.produced : SummaryReply → Bool
  | .text content => decide (content ≠ "")
  | _ => false

/-! ## 2. The window -/

def turnsOf (messages : List Msg) : List Msg := messages.filter fun m => !m.isSystem

/-- How many turns the window cuts off. -/
def windowCut (window : Int) (turns : List Msg) : Nat :=
  if turns.length ≤ window * 2 then 0 else safeWindowSplit turns (window * 2)

/-- `_apply_sliding_window`. -/
def slidingWindow (window : Int) (reply : SummaryReply) (messages : List Msg) : List Msg :=
  let turns := turnsOf messages
  let start := windowCut window turns
  if start = 0 then messages
  else
    messages.filter Msg.isSystem ++ [summaryMsg (summariseTurns (turns.take start) reply)] ++
      turns.drop start

/-! ## 3. The session -/

/-- What Redis has of a session. -/
structure Session where
  summary : String
  turnCount : Int
deriving DecidableEq

def contextMsg (summary : String) : Msg :=
  ⟨[("role", .str "system"), ("content", .str ("[Session context]\n" ++ summary))]⟩

/-- What a request meets: whether Redis can be read and written, and what the summariser says
to the window, to the update, and to the window that follows an error. -/
structure Replies where
  read : Bool
  write : Bool
  window : SummaryReply
  update : SummaryReply
  fallback : SummaryReply

structure Remembered where
  messages : List Msg
  stored : Option Session

/-- The client resent its conversation. -/
def resent (stored : Option Session) (turns : List Msg) : Bool :=
  match stored with
  | some session => decide (session.turnCount < turns.length)
  | none => false

def storedSummary (stored : Option Session) : String := (stored.map Session.summary).getD ""

def sessionContext (stored : Option Session) : List Msg :=
  if storedSummary stored = "" then [] else [contextMsg (storedSummary stored)]

/-- The messages with the stored summary before the turns. -/
def prepend (stored : Option Session) (messages : List Msg) : List Msg :=
  if (sessionContext stored).isEmpty then messages
  else messages.filter Msg.isSystem ++ sessionContext stored ++ turnsOf messages

/-- `_apply_session_state`, and the window that follows where it raises. -/
def applySessionState (window : Int) (r : Replies) (messages : List Msg)
    (stored : Option Session) : Remembered :=
  if !r.read then ⟨slidingWindow window r.fallback messages, stored⟩
  else
    let turns := turnsOf messages
    if resent stored turns then
      let messages := slidingWindow window r.window messages
      if r.write then ⟨messages, some ⟨storedSummary stored, turns.length⟩⟩
      else ⟨slidingWindow window r.fallback messages, stored⟩
    else
      let messages := slidingWindow window r.window (prepend stored messages)
      let summary := summariseTurns (sessionContext stored ++ turns) r.update
      if r.write then ⟨messages, some ⟨summary, turns.length⟩⟩
      else ⟨slidingWindow window r.fallback messages, stored⟩

/-- The end of `process_request` of G10. -/
def remember (window : Int) (session : Bool) (r : Replies) (messages : List Msg)
    (stored : Option Session) : Remembered :=
  if session then applySessionState window r messages stored
  else ⟨slidingWindow window r.window messages, stored⟩

/-! ## 4. Windows one after another -/

theorem windowCut_le (window : Int) (turns : List Msg) : windowCut window turns ≤ turns.length := by
  rw [windowCut]
  split
  · exact Nat.zero_le _
  · rw [safeWindowSplit]
    split
    · exact Nat.zero_le _
    · have hsnap : ∀ start, snapBack turns start ≤ start := by
        intro start
        induction start with
        | zero => exact Nat.le_refl _
        | succ start ih =>
          rw [snapBack]
          split
          · split
            · omega
            · exact Nat.le_refl _
          · exact Nat.le_refl _
      have hle := hsnap (turns.length - (window * 2).toNat)
      omega

theorem turnsOf_systems (messages : List Msg) : turnsOf (messages.filter Msg.isSystem) = [] := by
  rw [turnsOf, List.filter_filter, List.filter_eq_nil_iff]
  intro m _
  simp

theorem turnsOf_append (xs ys : List Msg) : turnsOf (xs ++ ys) = turnsOf xs ++ turnsOf ys :=
  List.filter_append _ _

theorem turnsOf_system {m : Msg} (h : m.isSystem = true) : turnsOf [m] = [] := by
  simp [turnsOf, h]

theorem turnsOf_turnsOf (messages : List Msg) : turnsOf (turnsOf messages) = turnsOf messages := by
  simp [turnsOf]

theorem turnsOf_drop (messages : List Msg) (n : Nat) :
    turnsOf ((turnsOf messages).drop n) = (turnsOf messages).drop n := by
  rw [turnsOf, List.filter_eq_self]
  intro m hm
  exact (List.mem_filter.mp (List.mem_of_mem_drop hm)).2

theorem turnsOf_slidingWindow (window : Int) (reply : SummaryReply) (messages : List Msg) :
    turnsOf (slidingWindow window reply messages) =
      (turnsOf messages).drop (windowCut window (turnsOf messages)) := by
  rw [slidingWindow]
  split
  · next h => rw [h, List.drop_zero]
  · rw [turnsOf_append, turnsOf_append, turnsOf_systems, turnsOf_system (isSystem_summaryMsg _),
      turnsOf_drop]
    rfl

theorem isSystem_contextMsg (summary : String) : (contextMsg summary).isSystem = true := by
  simp [contextMsg, Msg.isSystem, Msg.get, Json.getD, Json.get?, Assoc.lookup]

theorem contextMsg_ne_summaryMsg (summary text : String) : contextMsg summary ≠ summaryMsg text := by
  intro h
  simp only [contextMsg, summaryMsg, Msg.mk.injEq, List.cons.injEq, Prod.mk.injEq, Json.str.injEq,
    and_true, true_and] at h
  have hlist := congrArg String.toList h
  simp only [String.toList_append, summaryMarker] at hlist
  have hsecond : some 'S' = some 'C' := congrArg (fun cs => cs[1]?) hlist
  exact absurd hsecond (by decide)

/-- The window leaves the system messages, and adds only a summary of its own. -/
theorem contextMsg_mem_slidingWindow {window : Int} {reply : SummaryReply} {messages : List Msg}
    {summary : String} :
    contextMsg summary ∈ slidingWindow window reply messages ↔ contextMsg summary ∈ messages := by
  rw [slidingWindow]
  split
  · rfl
  · have hturn : ∀ n, contextMsg summary ∉ (turnsOf messages).drop n := by
      intro n hmem
      have hspoken := (List.mem_filter.mp (List.mem_of_mem_drop hmem)).2
      rw [isSystem_contextMsg] at hspoken
      cases hspoken
    simp [hturn, contextMsg_ne_summaryMsg, isSystem_contextMsg]

theorem turnsOf_prepend (stored : Option Session) (messages : List Msg) :
    turnsOf (prepend stored messages) = turnsOf messages := by
  rw [prepend, sessionContext]
  split_ifs with hempty hnone
  · rfl
  · exact absurd rfl hnone
  · rfl
  · rw [turnsOf_append, turnsOf_append, turnsOf_systems,
      turnsOf_system (isSystem_contextMsg _), turnsOf_turnsOf]
    rfl

/-! ## 5. When memory is kept -/

/-- The windows of a request, with the messages that the first is applied to. -/
def windows (session : Bool) (r : Replies) : List SummaryReply :=
  if !session then [r.window]
  else if !r.read then [r.fallback]
  else if r.write then [r.window]
  else [r.window, r.fallback]

def framed (session : Bool) (r : Replies) (messages : List Msg) (stored : Option Session) :
    List Msg :=
  if session && r.read && !resent stored (turnsOf messages) then prepend stored messages
  else messages

/-- The request's own session is asked for a summary of this history. -/
def updates (session : Bool) (r : Replies) (messages : List Msg) (stored : Option Session) :
    Bool :=
  session && r.read && !resent stored (turnsOf messages) &&
    !(sessionContext stored ++ turnsOf messages).isEmpty

/-- A window cut turns off, and the summariser produced nothing for them. -/
def FailedCut (window : Int) : List SummaryReply → List Msg → Prop
  | [], _ => False
  | reply :: replies, turns =>
    windowCut window turns ≠ 0 ∧ reply.produced = false ∨
      FailedCut window replies (turns.drop (windowCut window turns))

/-- The old summary stands among the messages. -/
def Told (stored : Option Session) (messages : List Msg) : Prop :=
  storedSummary stored ≠ "" ∧ contextMsg (storedSummary stored) ∈ messages

/-- Where a window's call produced no summary, every turn is there or the old summary is told;
where the update's call produced none, the stored summary is as it was; and the failure's text
becomes no summary. -/
structure MemoryKept (window : Int) (session : Bool) (r : Replies) (messages : List Msg)
    (stored : Option Session) : Prop where
  turns : FailedCut window (windows session r) (turnsOf messages) →
    turnsOf (remember window session r messages stored).messages = turnsOf messages ∨
      Told stored (remember window session r messages stored).messages
  summary : updates session r messages stored = true → r.update.produced = false →
    storedSummary (remember window session r messages stored).stored = storedSummary stored
  placeholder :
    storedSummary (remember window session r messages stored).stored = summaryUnavailable →
    storedSummary stored = summaryUnavailable

def slide (window : Int) (replies : List SummaryReply) (messages : List Msg) : List Msg :=
  replies.foldl (fun ms reply => slidingWindow window reply ms) messages

theorem remember_messages (window : Int) (session : Bool) (r : Replies) (messages : List Msg)
    (stored : Option Session) :
    (remember window session r messages stored).messages =
      slide window (windows session r) (framed session r messages stored) := by
  rw [remember, applySessionState, windows, framed]
  cases session with
  | false => rfl
  | true =>
    cases hread : r.read with
    | false => simp [slide]
    | true =>
      cases hresent : resent stored (turnsOf messages) <;> cases hwrite : r.write <;>
        simp [slide, hresent]

theorem remember_stored (window : Int) (session : Bool) (r : Replies) (messages : List Msg)
    (stored : Option Session) :
    storedSummary (remember window session r messages stored).stored =
      if updates session r messages stored && r.write then r.update.reported
      else storedSummary stored := by
  rw [remember, applySessionState, updates]
  cases session with
  | false => rfl
  | true =>
    cases hread : r.read with
    | false => rfl
    | true =>
      cases hresent : resent stored (turnsOf messages) with
      | true => cases hwrite : r.write <;> simp [hresent, storedSummary]
      | false =>
        cases hwrite : r.write with
        | false => simp [hresent]
        | true =>
          by_cases hhistory : (sessionContext stored ++ turnsOf messages).isEmpty = true
          · have hnone : storedSummary stored = "" := by
              by_contra hsome
              simp [sessionContext, hsome] at hhistory
            simp only [List.isEmpty_iff] at hhistory
            simp [hresent, hhistory, summariseTurns, storedSummary] at hnone ⊢
            exact hnone
          · simp only [Bool.not_eq_true] at hhistory
            simp only [hresent, hhistory, summariseTurns, Bool.not_true, Bool.false_eq_true,
              if_false, if_true, Bool.not_false, Bool.and_self, storedSummary, Option.map_some,
              Option.getD_some]

theorem turnsOf_framed (session : Bool) (r : Replies) (messages : List Msg)
    (stored : Option Session) : turnsOf (framed session r messages stored) = turnsOf messages := by
  rw [framed]
  split
  · exact turnsOf_prepend stored messages
  · rfl

theorem told_slide {window : Int} {replies : List SummaryReply} {stored : Option Session}
    {messages : List Msg} : Told stored (slide window replies messages) ↔ Told stored messages := by
  induction replies generalizing messages with
  | nil => rfl
  | cons reply replies ih =>
    rw [slide, List.foldl_cons]
    refine Iff.trans ih ?_
    rw [Told, Told, contextMsg_mem_slidingWindow]

theorem length_turnsOf_slide {window : Int} {replies : List SummaryReply} {messages : List Msg} :
    (turnsOf (slide window replies messages)).length ≤ (turnsOf messages).length := by
  induction replies generalizing messages with
  | nil => exact Nat.le_refl _
  | cons reply replies ih =>
    rw [slide, List.foldl_cons]
    apply Nat.le_trans ih
    rw [turnsOf_slidingWindow, List.length_drop]
    exact Nat.sub_le _ _

/-- What a window has cut off does not come back. -/
theorem turnsOf_slide_ne {window : Int} {replies : List SummaryReply} {messages : List Msg}
    (h : FailedCut window replies (turnsOf messages)) :
    turnsOf (slide window replies messages) ≠ turnsOf messages := by
  intro heq
  have hlength : ∀ {replies : List SummaryReply} {messages : List Msg},
      FailedCut window replies (turnsOf messages) →
      (turnsOf (slide window replies messages)).length < (turnsOf messages).length := by
    intro replies
    induction replies with
    | nil => intro messages hcut; cases hcut
    | cons reply replies ih =>
      intro messages hcut
      have hle := windowCut_le window (turnsOf messages)
      have hslide : (turnsOf (slide window replies (slidingWindow window reply messages))).length ≤
          (turnsOf (slidingWindow window reply messages)).length := length_turnsOf_slide
      rw [turnsOf_slidingWindow, List.length_drop] at hslide
      rcases hcut with ⟨hne, -⟩ | hrest
      · change (turnsOf (slide window replies (slidingWindow window reply messages))).length < _
        omega
      · rw [← turnsOf_slidingWindow window reply messages] at hrest
        have hlt := ih hrest
        rw [turnsOf_slidingWindow, List.length_drop] at hlt
        change (turnsOf (slide window replies (slidingWindow window reply messages))).length < _
        omega
  have hlt := hlength h
  rw [heq] at hlt
  exact Nat.lt_irrefl _ hlt

/-- **A failed summary leaves memory alone exactly where no window lost turns to it without the
old summary being told, and the session was given no failed summary.** -/
theorem memory_kept_iff (window : Int) (session : Bool) (r : Replies) (messages : List Msg)
    (stored : Option Session) :
    MemoryKept window session r messages stored ↔
      (FailedCut window (windows session r) (turnsOf messages) →
        Told stored (framed session r messages stored)) ∧
      (updates session r messages stored = true → r.write = true →
        r.update.reported = storedSummary stored ∨
          r.update.produced = true ∧ r.update ≠ .text summaryUnavailable) := by
  have hmessages := remember_messages window session r messages stored
  have hstored := remember_stored window session r messages stored
  constructor
  · rintro ⟨hturns, hsummary, hplaceholder⟩
    constructor
    · intro hcut
      rw [hmessages, told_slide] at hturns
      rw [← turnsOf_framed session r messages stored] at hturns hcut
      exact (hturns hcut).resolve_left (turnsOf_slide_ne hcut)
    · intro hupdates hwrite
      rw [hstored, hupdates, hwrite] at hsummary hplaceholder
      cases hproduced : r.update.produced with
      | false => exact Or.inl (hsummary rfl hproduced)
      | true =>
        by_cases htext : r.update = .text summaryUnavailable
        · have hreported : r.update.reported = summaryUnavailable := by
            rw [htext]
            rfl
          exact Or.inl (hreported.trans (hplaceholder hreported).symm)
        · exact Or.inr ⟨rfl, htext⟩
  · rintro ⟨hcut, hupdate⟩
    refine ⟨?_, ?_, ?_⟩
    · intro hfailed
      rw [hmessages, told_slide]
      exact Or.inr (hcut hfailed)
    · intro hupdates hproduced
      rw [hstored, hupdates]
      cases hwrite : r.write with
      | false => rfl
      | true =>
        rcases hupdate hupdates hwrite with hsame | ⟨hother, -⟩
        · exact hsame
        · rw [hproduced] at hother
          cases hother
    · rw [hstored]
      intro hnew
      split at hnew
      · next hboth =>
        rw [Bool.and_eq_true] at hboth
        rcases hupdate hboth.1 hboth.2 with hsame | ⟨hproduced, hother⟩
        · exact hsame.symm.trans hnew
        · cases hreply : r.update with
          | text content =>
            rw [hreply] at hnew hother
            exact absurd (congrArg SummaryReply.text hnew) hother
          | noContent =>
            rw [hreply] at hproduced
            cases hproduced
          | failed =>
            rw [hreply] at hproduced
            cases hproduced
      · exact hnew

/-- A session that remembers an order is asked to go on while the summary model is down. -/
theorem memory_not_kept :
    ¬ MemoryKept 6 true ⟨true, true, .failed, .failed, .failed⟩
      [⟨[("role", .str "user"), ("content", .str "and when does it arrive?")]⟩]
      (some ⟨"Alice ordered a lamp.", 1⟩) := by
  intro h
  exact absurd (h.summary (by decide) rfl) (by decide)

end TokenProxy.History
