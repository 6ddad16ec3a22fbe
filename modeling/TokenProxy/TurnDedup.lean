/-
  TokenProxy/TurnDedup.lean
  =========================
  **Near-duplicate turns** (`g22_deduplication.py`).

  Of consecutive turns of one role that say nearly the same, the last is kept.  The turns wait in
  a buffer, which is emptied by what comes next: a dissimilar turn of the same role, or the end,
  drops all but the last of them; a turn of the other role, or a message that takes no part,
  keeps them all.

  Main result: `processRequest_eq_iff`, only the last of each run is kept exactly when every run
  of several turns is followed by a turn of the same role or by nothing.
-/
import TokenProxy.ToolExchanges

namespace TokenProxy.TurnDedup

open TokenProxy.History (Msg)

/-! ## 1. The messages -/

/-- `role in _SUMMARISED_ROLES` -/
def summarised (m : Msg) : Bool := m.get "role" = .str "user" || m.get "role" = .str "assistant"

/-- The content, where it is a text. -/
def text (m : Msg) : String :=
  match m.get "content" with
  | .str content => content
  | _ => ""

/-- The message takes part in the deduplication. -/
def eligible (m : Msg) : Bool := summarised m && decide (text m ≠ "")

structure Buffer where
  deduped : List Msg
  pendingGroup : List Msg

section

variable {S : Type*} [LE S] [DecidableLE S] (similarity : String → String → S) (threshold : S)

/-- A turn is compared with the last one that waits. -/
def stepTurn (buffer : Buffer) (msg : Msg) : Buffer :=
  match buffer.pendingGroup.getLast? with
  | none => { buffer with pendingGroup := [msg] }
  | some last =>
    if last.get "role" ≠ msg.get "role" then
      { deduped := buffer.deduped ++ buffer.pendingGroup, pendingGroup := [msg] }
    else if threshold ≤ similarity (text last) (text msg) then
      { buffer with pendingGroup := buffer.pendingGroup ++ [msg] }
    else { deduped := buffer.deduped ++ [last], pendingGroup := [msg] }

/-- The body of the loop.  A missing content counts as an empty text in the source, and is
    treated there as a list of parts is. -/
def step (buffer : Buffer) (msg : Msg) : Buffer :=
  match msg.get "content" with
  | .str content =>
    if !summarised msg || decide (content = "") then
      { deduped := buffer.deduped ++ buffer.pendingGroup ++ [msg], pendingGroup := [] }
    else stepTurn similarity threshold buffer msg
  | _ => { deduped := buffer.deduped ++ buffer.pendingGroup ++ [msg], pendingGroup := [] }

/-- What is left when the messages are through. -/
def finish (buffer : Buffer) : List Msg := buffer.deduped ++ buffer.pendingGroup.getLast?.toList

def processRequest (messages : List Msg) : List Msg :=
  if messages.length ≤ 1 then messages
  else
    let deduped := finish (messages.foldl (step similarity threshold) ⟨[], []⟩)
    if messages.length = deduped.length then messages else deduped

/-! ## 2. Runs -/

/-- Two turns of the same role that say nearly the same. -/
def nearDuplicate (last msg : Msg) : Bool :=
  eligible last && eligible msg && decide (last.get "role" = msg.get "role") &&
    decide (threshold ≤ similarity (text last) (text msg))

/-- The maximal runs of consecutive near-duplicates. -/
def runs (messages : List Msg) : List (List Msg) :=
  messages.splitBy (nearDuplicate similarity threshold)

/-- The input with all but the last message of each maximal run removed. -/
def lastOfRuns (messages : List Msg) : List Msg :=
  (runs similarity threshold messages).filterMap List.getLast?

/-- The next run begins with a turn of the role that this one has. -/
def sameTurn (run next : List Msg) : Bool :=
  match run.getLast?, next.head? with
  | some last, some msg => eligible msg && decide (last.get "role" = msg.get "role")
  | _, _ => false

/-- A run of several turns is followed by a turn of the same role, if by anything. -/
def RunsEndAtTurns (messages : List Msg) : Prop :=
  (runs similarity threshold messages).IsChain fun run next =>
    run.length ≤ 1 ∨ sameTurn run next = true

/-! ## 3. One message -/

theorem nearDuplicate_iff {last msg : Msg} : nearDuplicate similarity threshold last msg = true ↔
    eligible last = true ∧ eligible msg = true ∧ last.get "role" = msg.get "role" ∧
      threshold ≤ similarity (text last) (text msg) := by
  rw [nearDuplicate, Bool.and_eq_true, Bool.and_eq_true, Bool.and_eq_true, decide_eq_true_eq,
    decide_eq_true_eq, and_assoc, and_assoc]

/-- A message that takes no part goes out behind the whole buffer. -/
theorem step_of_not_eligible {msg : Msg} (h : eligible msg = false) (buffer : Buffer) :
    step similarity threshold buffer msg =
      ⟨buffer.deduped ++ buffer.pendingGroup ++ [msg], []⟩ := by
  rw [eligible, text] at h
  rw [step]
  split
  · next content hcontent =>
    rw [hcontent] at h
    rw [if_pos]
    cases hs : summarised msg with
    | false => rfl
    | true =>
      rw [hs, Bool.true_and] at h
      rw [Bool.not_true, Bool.false_or, decide_eq_true_eq]
      exact not_not.mp (of_decide_eq_false h)
  · rfl

theorem step_of_eligible {msg : Msg} (h : eligible msg = true) (buffer : Buffer) :
    step similarity threshold buffer msg = stepTurn similarity threshold buffer msg := by
  rw [eligible, Bool.and_eq_true, decide_eq_true_eq] at h
  obtain ⟨hs, hne⟩ := h
  rw [step]
  split
  · next content hcontent =>
    have htext : text msg = content := by rw [text, hcontent]
    rw [htext] at hne
    rw [if_neg (by simp [hs, hne])]
  · next hnot =>
    refine absurd ?_ hne
    rw [text]
    split
    · next content hcontent => exact absurd hcontent (hnot content)
    · rfl

/-- A turn that says nearly the same waits with the others. -/
theorem step_near {last msg : Msg} (h : nearDuplicate similarity threshold last msg = true)
    (deduped pending : List Msg) :
    step similarity threshold ⟨deduped, pending ++ [last]⟩ msg =
      ⟨deduped, pending ++ [last] ++ [msg]⟩ := by
  obtain ⟨-, helig, hrole, hsim⟩ := (nearDuplicate_iff similarity threshold).mp h
  rw [step_of_eligible similarity threshold helig, stepTurn, List.getLast?_concat]
  dsimp only
  rw [if_neg (not_not.mpr hrole), if_pos hsim]

/-! ## 4. One run -/

/-- The turns of a run wait together. -/
theorem foldl_step_run {last : Msg} {turns : List Msg}
    (h : (last :: turns).IsChain fun a b => nearDuplicate similarity threshold a b = true)
    (deduped pending : List Msg) :
    turns.foldl (step similarity threshold) ⟨deduped, pending ++ [last]⟩ =
      ⟨deduped, pending ++ last :: turns⟩ := by
  induction turns generalizing last pending with
  | nil => rfl
  | cons msg turns ih =>
    obtain ⟨hnear, hrest⟩ := List.isChain_cons_cons.mp h
    rw [List.foldl_cons, step_near similarity threshold hnear, ih hrest, List.append_assoc]
    rfl

/-- A run takes part as a whole, unless it is a single message. -/
theorem eligible_of_run {head : Msg} {turns : List Msg}
    (h : (head :: turns).IsChain fun a b => nearDuplicate similarity threshold a b = true) :
    eligible head = true ∨ turns = [] := by
  cases turns with
  | nil => exact Or.inr rfl
  | cons msg turns =>
    have hnear := (List.isChain_cons_cons.mp h).1
    exact Or.inl ((nearDuplicate_iff similarity threshold).mp hnear).1

theorem eligible_getLast {head last : Msg} {turns : List Msg} (helig : eligible head = true)
    (h : (head :: turns).IsChain fun a b => nearDuplicate similarity threshold a b = true)
    (hlast : (head :: turns).getLast? = some last) : eligible last = true := by
  induction turns generalizing head with
  | nil =>
    cases hlast
    exact helig
  | cons msg turns ih =>
    obtain ⟨hnear, hrest⟩ := List.isChain_cons_cons.mp h
    rw [List.getLast?_cons_cons] at hlast
    exact ih ((nearDuplicate_iff similarity threshold).mp hnear).2.1 hrest hlast

/-- What a run leaves behind when another follows. -/
def flush (run next : List Msg) : List Msg :=
  if sameTurn run next then run.getLast?.toList else run

/-- The message behind a run empties the buffer first. -/
theorem step_flush {run : List Msg} {last msg : Msg} (hlast : run.getLast? = some last)
    (helig : eligible last = true)
    (hbreak : nearDuplicate similarity threshold last msg = false) (deduped next : List Msg) :
    step similarity threshold ⟨deduped, run⟩ msg =
      step similarity threshold ⟨deduped ++ flush run (msg :: next), []⟩ msg := by
  have hturn : sameTurn run (msg :: next) =
      (eligible msg && decide (last.get "role" = msg.get "role")) := by
    rw [sameTurn, hlast, List.head?_cons]
  rw [flush, hturn]
  cases hmsg : eligible msg with
  | false =>
    rw [step_of_not_eligible _ _ hmsg, step_of_not_eligible _ _ hmsg, Bool.false_and,
      if_neg Bool.false_ne_true, List.append_nil]
  | true =>
    rw [step_of_eligible _ _ hmsg, step_of_eligible _ _ hmsg, stepTurn, stepTurn, hlast,
      Bool.true_and]
    dsimp only [List.getLast?_nil]
    by_cases hrole : last.get "role" = msg.get "role"
    · have hsim : ¬ threshold ≤ similarity (text last) (text msg) := by
        intro hsim
        rw [(nearDuplicate_iff similarity threshold).mpr ⟨helig, hmsg, hrole, hsim⟩] at hbreak
        cases hbreak
      rw [if_neg (not_not.mpr hrole), if_neg hsim, if_pos (decide_eq_true hrole)]
      rfl
    · rw [if_pos hrole, if_neg (by rw [decide_eq_true_eq]; exact hrole)]

/-! ## 5. All runs -/

/-- What the runs leave, one after the other. -/
def flushed : List (List Msg) → List Msg
  | [] => []
  | [run] => run.getLast?.toList
  | run :: next :: rest => flush run next ++ flushed (next :: rest)

/-- The groups are maximal runs. -/
structure MaximalRuns (groups : List (List Msg)) : Prop where
  nonempty : [] ∉ groups
  near : ∀ run ∈ groups, run.IsChain fun a b => nearDuplicate similarity threshold a b = true
  apart : groups.IsChain fun run next => ∀ last ∈ run.getLast?, ∀ msg ∈ next.head?,
    nearDuplicate similarity threshold last msg = false

theorem maximalRuns_runs (messages : List Msg) :
    MaximalRuns similarity threshold (runs similarity threshold messages) where
  nonempty := List.nil_notMem_splitBy _ messages
  near run hrun := List.isChain_of_mem_splitBy hrun
  apart := (List.isChain_getLast_head_splitBy _ messages).imp fun run next h => by
    obtain ⟨hrun, hnext, hnot⟩ := h
    intro last hlast msg hmsg
    rw [List.getLast?_eq_some_getLast hrun] at hlast
    rw [List.head?_eq_some_head hnext] at hmsg
    cases hlast
    cases hmsg
    exact hnot

theorem MaximalRuns.tail {run : List Msg} {rest : List (List Msg)}
    (h : MaximalRuns similarity threshold (run :: rest)) :
    MaximalRuns similarity threshold rest where
  nonempty hnil := h.nonempty (List.mem_cons_of_mem run hnil)
  near r hr := h.near r (List.mem_cons_of_mem run hr)
  apart := h.apart.tail

theorem finish_foldl_step {groups : List (List Msg)}
    (h : MaximalRuns similarity threshold groups) (deduped : List Msg) :
    finish (groups.flatten.foldl (step similarity threshold) ⟨deduped, []⟩) =
      deduped ++ flushed groups := by
  induction groups generalizing deduped with
  | nil => rfl
  | cons run rest ih =>
    cases run with
    | nil => exact absurd List.mem_cons_self h.nonempty
    | cons head turns =>
      have hchain := h.near _ List.mem_cons_self
      rw [List.flatten_cons, List.foldl_append]
      cases helig : eligible head with
      | false =>
        -- a single message, which does not wait
        have hturns : turns = [] := by
          rcases eligible_of_run similarity threshold hchain with h' | h'
          · rw [helig] at h'
            cases h'
          · exact h'
        rw [hturns, List.foldl_cons, List.foldl_nil, step_of_not_eligible _ _ helig, ih h.tail,
          List.append_nil, List.append_assoc]
        cases rest with
        | nil => rfl
        | cons next rest =>
          have hflush : flush [head] next = [head] := ite_id _
          rw [flushed, hflush]
      | true =>
        have hwait : (head :: turns).foldl (step similarity threshold) ⟨deduped, []⟩ =
            ⟨deduped, head :: turns⟩ := by
          rw [List.foldl_cons, step_of_eligible _ _ helig]
          exact foldl_step_run similarity threshold hchain deduped []
        rw [hwait]
        cases rest with
        | nil => rfl
        | cons next rest =>
          cases next with
          | nil => exact absurd (List.mem_cons_of_mem _ List.mem_cons_self) h.nonempty
          | cons msg more =>
            have hlast := List.getLast?_eq_some_getLast (List.cons_ne_nil head turns)
            have hbreak := (List.isChain_cons_cons.mp h.apart).1 _ hlast msg rfl
            have hstep := step_flush similarity threshold hlast
              (eligible_getLast similarity threshold helig hchain hlast) hbreak deduped more
            have hnext := ih h.tail (deduped ++ flush (head :: turns) (msg :: more))
            rw [List.flatten_cons, List.cons_append, List.foldl_cons] at hnext ⊢
            rw [hstep, hnext, flushed, List.append_assoc]

end

/-! ## 6. What is kept -/

theorem toList_getLast?_sublist (run : List Msg) : run.getLast?.toList.Sublist run := by
  cases hlast : run.getLast? with
  | none => exact List.nil_sublist run
  | some last => exact List.singleton_sublist.mpr (List.mem_of_getLast? hlast)

theorem flush_sublist (run next : List Msg) : (flush run next).Sublist run := by
  rw [flush]
  split
  · exact toList_getLast?_sublist run
  · exact List.Sublist.refl run

theorem flushed_sublist (groups : List (List Msg)) : (flushed groups).Sublist groups.flatten := by
  induction groups with
  | nil => exact List.Sublist.refl []
  | cons run rest ih =>
    cases rest with
    | nil =>
      rw [flushed, List.flatten_singleton]
      exact toList_getLast?_sublist run
    | cons next rest => exact (flush_sublist run next).append ih

theorem length_filterMap_getLast? {groups : List (List Msg)} (h : [] ∉ groups) :
    (groups.filterMap List.getLast?).length = groups.length := by
  rw [List.length_filterMap_eq_countP, List.countP_eq_length]
  intro run hrun
  rw [List.getLast?_isSome]
  rintro rfl
  exact h hrun

/-- Exactly when more than the last turn of some run is left, there are too many messages. -/
theorem flushed_spec {groups : List (List Msg)} (h : [] ∉ groups) :
    groups.length ≤ (flushed groups).length ∧
      ((flushed groups).length = groups.length →
        groups.IsChain fun run next => run.length ≤ 1 ∨ sameTurn run next = true) ∧
      ((groups.IsChain fun run next => run.length ≤ 1 ∨ sameTurn run next = true) →
        flushed groups = groups.filterMap List.getLast?) := by
  induction groups with
  | nil => exact ⟨Nat.le_refl 0, fun _ => .nil, fun _ => rfl⟩
  | cons run rest ih =>
    have hne : run ≠ [] := fun hnil => h (by rw [hnil]; exact List.mem_cons_self)
    have hlast := List.getLast?_eq_some_getLast hne
    have hpos := List.length_pos_iff.mpr hne
    obtain ⟨hle, hchain, hflushed⟩ := ih fun hnil => h (List.mem_cons_of_mem run hnil)
    rw [List.filterMap_cons_some hlast]
    cases rest with
    | nil =>
      rw [flushed, hlast]
      exact ⟨Nat.le_refl 1, fun _ => .singleton run, fun _ => rfl⟩
    | cons next rest =>
      rw [flushed, flush, List.isChain_cons_cons, List.length_append, List.length_cons]
      split
      · next hturn =>
        rw [hlast, Option.toList_some, List.length_singleton]
        refine ⟨by omega, fun heq => ⟨Or.inr hturn, hchain (by omega)⟩, fun hgood => ?_⟩
        rw [hflushed hgood.2]
        rfl
      · next hturn =>
        refine ⟨by omega, fun heq => ⟨Or.inl (by omega), hchain (by omega)⟩, fun hgood => ?_⟩
        have hone : run = [run.getLast hne] := by
          have hlength : run.length = 1 := by
            rcases hgood.1 with hone | hsame
            · omega
            · exact absurd hsame hturn
          obtain ⟨m, rfl⟩ := List.length_eq_one_iff.mp hlength
          rfl
        rw [hflushed hgood.2]
        exact congrArg (· ++ _) hone

section

variable {S : Type*} [LE S] [DecidableLE S] (similarity : String → String → S) (threshold : S)

theorem processRequest_eq_flushed (messages : List Msg) :
    processRequest similarity threshold messages =
      flushed (runs similarity threshold messages) := by
  have hflatten : (runs similarity threshold messages).flatten = messages :=
    List.flatten_splitBy _ messages
  have hsub := flushed_sublist (runs similarity threshold messages)
  have hloop := finish_foldl_step similarity threshold
    (maximalRuns_runs similarity threshold messages) []
  rw [hflatten] at hsub hloop
  rw [processRequest, hloop, List.nil_append]
  split
  · next hshort =>
    cases messages with
    | nil => rfl
    | cons m rest =>
      have hnil : rest = [] :=
        List.length_eq_zero_iff.mp (Nat.le_zero.mp (Nat.le_of_succ_le_succ hshort))
      rw [hnil, runs, List.splitBy_of_isChain (List.cons_ne_nil m []) (.singleton m)]
      rfl
  · dsimp only
    split
    · next hsame => exact (hsub.eq_of_length hsame.symm).symm
    · rfl

/-- **Only the last turn of each run is kept exactly when every run of several turns is followed
    by a turn of the same role, if by anything.** -/
theorem processRequest_eq_iff (messages : List Msg) :
    processRequest similarity threshold messages = lastOfRuns similarity threshold messages ↔
      RunsEndAtTurns similarity threshold messages := by
  have hnonempty := (maximalRuns_runs similarity threshold messages).nonempty
  obtain ⟨-, hchain, hflushed⟩ := flushed_spec hnonempty
  rw [processRequest_eq_flushed, lastOfRuns, RunsEndAtTurns]
  constructor
  · intro heq
    refine hchain ?_
    rw [heq, length_filterMap_getLast? hnonempty]
  · exact hflushed

end

/-! ### A question asked twice -/

def saying (role content : String) : Msg := ⟨[("role", .str role), ("content", .str content)]⟩

/-- Both are kept when an answer follows. -/
theorem not_lastOfRuns : ¬ ∀ (similarity : String → String → Nat) (threshold : Nat)
    (messages : List Msg), processRequest similarity threshold messages =
      lastOfRuns similarity threshold messages := by
  intro h
  have heq := h (fun a b => if a = b then 100 else 0) 97
    [saying "user" "What is the status?", saying "user" "What is the status?",
      saying "assistant" "All is well."]
  exact absurd (congrArg List.length heq) (by decide +kernel)

end TokenProxy.TurnDedup
