/-
  TokenProxy/PruneSeam.lean
  =========================
  **Turns that pruning brings together** (`_rung_prune` of `g26_context_budget.py`, and the seam
  between the span and the protected turns in `_compact`).

  The pruner looks at the next message before it drops one.  The last message of the span has
  none: the protected turns behind it are joined later.

  Main results: `welds_eq_false_of_pruned`, a message is dropped only between turns of two
  speakers; `noWeld_iff`, no two turns of one speaker are brought together exactly when none are
  at the seam.
-/
import TokenProxy.ContextBudget
import Mathlib.Algebra.GroupWithZero.Nat

namespace TokenProxy.History

/-! ## 1. What is kept -/

section

variable (env : Collaborators)

/-- The span as `_rung_prune` goes through it: each message, and whether it is kept. -/
def pruneMarks (maxToolChars minChars : Int) :
    Option Msg → List String → List Msg → List (Msg × Bool)
  | _, _, [] => []
  | last, seen, m :: rest =>
    let repeatable := !pairsTool m && isDedupable env m minChars
    if repeatable && env.dumps m ∈ seen && !welds last rest.head? then
      (m, false) :: pruneMarks maxToolChars minChars last seen rest
    else
      (m, true) :: pruneMarks maxToolChars minChars (some (truncateResult maxToolChars m).1)
        (if repeatable then env.dumps m :: seen else seen) rest

/-- How many turns `_compact` takes into the span. -/
def spanCut (cfg : BudgetConfig) (messages : List Msg) : Nat :=
  safeWindowSplit (messages.filter fun m => !m.isSystem)
    (max 1 (if cfg.keepRecentTurns = 0 then 6 else cfg.keepRecentTurns) * 2)

def spanOf (cfg : BudgetConfig) (messages : List Msg) : List Msg :=
  (messages.filter fun m => !m.isSystem).take (spanCut cfg messages)

def protectedTurns (cfg : BudgetConfig) (messages : List Msg) : List Msg :=
  (messages.filter fun m => !m.isSystem).drop (spanCut cfg messages)

def spanMarks (cfg : BudgetConfig) (messages : List Msg) : List (Msg × Bool) :=
  pruneMarks env cfg.toolResultMaxChars cfg.pruneMinChars none [] (spanOf cfg messages)

/-- The turns of a request after the prune rung, those that are dropped among them. -/
def prunedTurns (cfg : BudgetConfig) (messages : List Msg) : List (Msg × Bool) :=
  spanMarks env cfg messages ++ (protectedTurns cfg messages).map fun m => (m, true)

/-! ## 2. Turns of one speaker -/

def SameSpeaker (a b : Msg) : Prop :=
  (a.get "role" = .str "user" ∧ b.get "role" = .str "user") ∨
    a.get "role" = .str "assistant" ∧ b.get "role" = .str "assistant"

instance (a b : Msg) : Decidable (SameSpeaker a b) := inferInstanceAs (Decidable (_ ∨ _))

/-- Of two turns of one speaker with nothing kept between them, the one came right behind the
other to begin with. -/
def NoWeld (turns : List (Msg × Bool)) : Prop :=
  ∀ front a between b back, turns = front ++ (a, true) :: (between ++ (b, true) :: back) →
    (∀ x ∈ between, x.2 = false) → SameSpeaker a b → between = []

/-- The last message that is kept. -/
def lastKept (last : Option Msg) (turns : List (Msg × Bool)) : Option Msg :=
  turns.foldl (fun last x => if x.2 then some x.1 else last) last

/-- Where the span's last message is dropped, the one kept before it and the first protected
turn have two speakers. -/
def SeamClear (cfg : BudgetConfig) (messages : List Msg) : Prop :=
  (∃ d, (spanMarks env cfg messages).getLast? = some (d, false)) →
    ∀ a ∈ lastKept none (spanMarks env cfg messages), ∀ b ∈ (protectedTurns cfg messages).head?,
      ¬ SameSpeaker a b

end

variable {env : Collaborators}

/-! ## 3. The marks are the rung's -/

theorem rungPrune_eq_marks (maxToolChars minChars : Int) (span : List Msg) (last : Option Msg)
    (seen : List String) :
    (rungPrune env maxToolChars minChars last seen span).1 =
      ((pruneMarks env maxToolChars minChars last seen span).filter Prod.snd).map
        fun x => (truncateResult maxToolChars x.1).1 := by
  induction span generalizing last seen with
  | nil => rfl
  | cons m rest ih =>
    rw [rungPrune, pruneMarks]
    split
    · rw [List.filter_cons_of_neg Bool.false_ne_true]
      exact ih last seen
    · rw [List.filter_cons_of_pos rfl, List.map_cons, ← ih]

theorem map_fst_pruneMarks (maxToolChars minChars : Int) (span : List Msg) (last : Option Msg)
    (seen : List String) :
    (pruneMarks env maxToolChars minChars last seen span).map Prod.fst = span := by
  induction span generalizing last seen with
  | nil => rfl
  | cons m rest ih =>
    rw [pruneMarks]
    split <;> rw [List.map_cons, ih]

/-- `_compact`, in terms of the span and the protected turns. -/
theorem compact_eq (cfg : BudgetConfig) (used : Int) (summary : Option String)
    (messages : List Msg) :
    compact env cfg used summary messages =
      if cfg.usable ≤ 0 then some messages
      else if (used : ℚ) ≤ cfg.usable * (resolveThresholds cfg).1 / 100 then some messages
      else if spanCut cfg messages = 0 then some messages
      else (spanTokens env (spanOf cfg messages)).bind fun tokens =>
        (runLadder env cfg (cfg.usable * (resolveThresholds cfg).2 / 100) (used - tokens) summary
          { span := spanOf cfg messages, current := used }).bind fun l =>
          if l.applied = [] then some messages
          else some (messages.filter Msg.isSystem ++ l.summary.toList ++ l.span ++
            protectedTurns cfg messages) := rfl

/-- A compaction that changes something has gone down the ladder. -/
theorem compact_cases {cfg : BudgetConfig} {used : Int} {summary : Option String}
    {messages committed : List Msg} (h : compact env cfg used summary messages = some committed) :
    committed = messages ∨ ∃ target fixed l,
      runLadder env cfg target fixed summary { span := spanOf cfg messages, current := used } =
        some l ∧ l.applied ≠ [] ∧
      committed = messages.filter Msg.isSystem ++ l.summary.toList ++ l.span ++
        protectedTurns cfg messages := by
  rw [compact_eq] at h
  split at h
  · exact Or.inl (Option.some.inj h).symm
  · split at h
    · exact Or.inl (Option.some.inj h).symm
    · split at h
      · exact Or.inl (Option.some.inj h).symm
      · obtain ⟨tokens, -, h⟩ := Option.bind_eq_some_iff.mp h
        obtain ⟨l, hladder, h⟩ := Option.bind_eq_some_iff.mp h
        split at h
        · exact Or.inl (Option.some.inj h).symm
        · rename_i happlied
          exact Or.inr ⟨_, _, l, hladder, happlied, (Option.some.inj h).symm⟩

/-- The prune rung, where it changes something. -/
theorem ladder_prune_cases {cfg : BudgetConfig} {target : ℚ} {fixed : Int} {l l' : Ladder}
    (h : l.prune env cfg target fixed = some l') :
    l'.summary = l.summary ∧
      (l'.applied = l.applied ∧ (l'.span = l.span ∨ (rungPrune env cfg.toolResultMaxChars
          cfg.pruneMinChars none [] l.span).2 = false ∧ l'.span = (rungPrune env
          cfg.toolResultMaxChars cfg.pruneMinChars none [] l.span).1) ∨
        l'.applied = l.applied ++ ["prune"] ∧ l'.span = (rungPrune env cfg.toolResultMaxChars
          cfg.pruneMinChars none [] l.span).1) := by
  rw [Ladder.prune] at h
  split at h
  · rcases hrung : rungPrune env cfg.toolResultMaxChars cfg.pruneMinChars none [] l.span with
      ⟨out, changed⟩
    rw [hrung] at h
    cases changed with
    | true =>
      obtain ⟨tokens, -, hl⟩ := Option.bind_eq_some_iff.mp h
      rw [← Option.some.inj hl]
      exact ⟨rfl, Or.inr ⟨rfl, rfl⟩⟩
    | false =>
      rw [← Option.some.inj h]
      exact ⟨rfl, Or.inl ⟨rfl, Or.inr ⟨rfl, rfl⟩⟩⟩
  · rw [← Option.some.inj h]
    exact ⟨rfl, Or.inl ⟨rfl, Or.inl rfl⟩⟩

/-! ## 4. Inside the span -/

theorem welds_congr {a a' : Msg} (h : SameButContent a a') (next : Option Msg) :
    welds (some a') next = welds (some a) next := by
  cases next with
  | none => rfl
  | some b =>
    rw [welds, welds, h "role" (by decide)]

theorem welds_of_sameSpeaker {a b : Msg} (h : SameSpeaker a b) :
    welds (some a) (some b) = true := by
  have hrole : b.get "role" ≠ .null ∧ (a.get "role").pyEq (b.get "role") = true := by
    rcases h with ⟨ha, hb⟩ | ⟨ha, hb⟩
    · rw [ha, hb]
      exact ⟨by decide, by decide⟩
    · rw [ha, hb]
      exact ⟨by decide, by decide⟩
  have hfields : b.fields.isEmpty = false := by
    cases hb : b.fields with
    | nil =>
      refine absurd ?_ hrole.1
      rw [Msg.get, hb]
      rfl
    | cons entry rest => rfl
  rw [welds, hfields, hrole.2]
  rfl

theorem welds_lastKept {a a' : Msg} (h : SameButContent a a') (turns : List (Msg × Bool))
    (next : Option Msg) :
    welds (lastKept (some a') turns) next = welds (lastKept (some a) turns) next := by
  induction turns generalizing a a' with
  | nil => exact welds_congr h next
  | cons x turns ih =>
    obtain ⟨m, kept⟩ := x
    cases kept with
    | true => rfl
    | false => exact ih h

/-- **A message is dropped only where the one kept before it and the next one do not weld.** -/
theorem welds_eq_false_of_pruned {maxToolChars minChars : Int} {span : List Msg}
    {front back : List (Msg × Bool)} {d : Msg} {last : Option Msg} {seen : List String}
    (h : pruneMarks env maxToolChars minChars last seen span = front ++ (d, false) :: back) :
    welds (lastKept last front) (back.map Prod.fst).head? = false := by
  induction span generalizing front last seen with
  | nil =>
    rw [pruneMarks] at h
    exact absurd h.symm (List.append_ne_nil_of_right_ne_nil _ (List.cons_ne_nil _ _))
  | cons m rest ih =>
    rw [pruneMarks] at h
    cases front with
    | nil =>
      rw [List.nil_append] at h
      split at h
      · rename_i hdropped
        obtain ⟨-, hback⟩ := List.cons.inj h
        rw [← hback, map_fst_pruneMarks]
        rw [Bool.and_eq_true, Bool.not_eq_true'] at hdropped
        exact hdropped.2
      · cases congrArg Prod.snd (List.cons.inj h).1
    | cons x front =>
      rw [List.cons_append] at h
      split at h
      · obtain ⟨hx, htail⟩ := List.cons.inj h
        rw [← hx]
        have hih := ih htail
        exact hih
      · obtain ⟨hx, htail⟩ := List.cons.inj h
        rw [← hx]
        have hih := ih htail
        -- the rung looks at the message as it was put out, with the same role
        rw [welds_lastKept (truncateResult_same maxToolChars m)] at hih
        exact hih

theorem lastKept_append (last : Option Msg) (xs ys : List (Msg × Bool)) :
    lastKept last (xs ++ ys) = lastKept (lastKept last xs) ys := List.foldl_append

theorem lastKept_of_dropped (last : Option Msg) {turns : List (Msg × Bool)}
    (h : ∀ x ∈ turns, x.2 = false) : lastKept last turns = last := by
  induction turns generalizing last with
  | nil => rfl
  | cons x turns ih =>
    have hx := h x List.mem_cons_self
    rw [lastKept, List.foldl_cons, hx]
    exact ih last fun y hy => h y (List.mem_cons_of_mem x hy)

/-- Behind a kept message and dropped ones, the last one kept is that message. -/
theorem lastKept_between (last : Option Msg) (front : List (Msg × Bool)) (a : Msg)
    {between : List (Msg × Bool)} (h : ∀ x ∈ between, x.2 = false) :
    lastKept last (front ++ (a, true) :: between) = some a := by
  rw [lastKept_append]
  exact lastKept_of_dropped (some a) h

theorem exists_of_lastKept {turns : List (Msg × Bool)} {a : Msg}
    (h : lastKept none turns = some a) :
    ∃ front between, turns = front ++ (a, true) :: between ∧ ∀ x ∈ between, x.2 = false := by
  induction turns using List.reverseRecOn with
  | nil => cases h
  | append_singleton turns x ih =>
    obtain ⟨m, kept⟩ := x
    rw [lastKept_append] at h
    cases kept with
    | true =>
      have hm : m = a := Option.some.inj h
      exact ⟨turns, [], by rw [hm], fun x hx => absurd hx List.not_mem_nil⟩
    | false =>
      obtain ⟨front, between, heq, hdropped⟩ := ih h
      refine ⟨front, between ++ [(m, false)], ?_, ?_⟩
      · rw [heq, List.append_assoc, List.cons_append]
      · intro x hx
        rcases List.mem_append.mp hx with hx | hx
        · exact hdropped x hx
        · rw [List.mem_singleton.mp hx]

/-! ## 5. At the seam -/

theorem seam_of_noWeld {cfg : BudgetConfig} {messages : List Msg}
    (h : NoWeld (prunedTurns env cfg messages)) : SeamClear env cfg messages := by
  rintro ⟨d, hlast⟩ a ha b hb hspeaker
  obtain ⟨front, between, heq, hdropped⟩ := exists_of_lastKept ha
  obtain ⟨back, hback⟩ : ∃ back, protectedTurns cfg messages = b :: back :=
    List.head?_eq_some_iff.mp hb
  have hturns : prunedTurns env cfg messages = front ++ (a, true) ::
      (between ++ (b, true) :: back.map fun m => (m, true)) := by
    rw [prunedTurns, heq, hback, List.append_assoc, List.map_cons, List.cons_append]
  have hnil := h front a between b _ hturns hdropped hspeaker
  rw [heq, hnil, List.getLast?_concat] at hlast
  cases hlast

theorem mark_eq_true_of_protected {cfg : BudgetConfig} {messages : List Msg} {x : Msg × Bool}
    (h : x ∈ (protectedTurns cfg messages).map fun m => (m, true)) : x.2 = true := by
  obtain ⟨m, -, rfl⟩ := List.mem_map.mp h
  rfl

theorem noWeld_of_seam {cfg : BudgetConfig} {messages : List Msg}
    (h : SeamClear env cfg messages) : NoWeld (prunedTurns env cfg messages) := by
  intro front a between b back heq hdropped hspeaker
  induction between using List.reverseRecOn with
  | nil => rfl
  | append_singleton between x _ =>
    exfalso
    obtain ⟨d, kept⟩ := x
    have hkept : kept = false := hdropped (d, kept) (List.mem_append_right _ List.mem_cons_self)
    rw [hkept] at heq
    have hkeptBefore : ∀ last, lastKept last (front ++ (a, true) :: between) = some a :=
      fun last => lastKept_between last front a fun y hy =>
        hdropped y (List.mem_append_left _ hy)
    have hsplit : spanMarks env cfg messages ++
          (protectedTurns cfg messages).map (fun m => (m, true)) =
        (front ++ (a, true) :: between) ++ (d, false) :: (b, true) :: back := by
      rw [← prunedTurns, heq]
      simp
    rcases List.append_eq_append_iff.mp hsplit with ⟨extra, -, htail⟩ | ⟨rest, hspan, hrest⟩
    · -- the dropped message would be a protected one
      have hmem : (d, false) ∈ (protectedTurns cfg messages).map fun m => (m, true) := by
        rw [htail]
        exact List.mem_append_right _ List.mem_cons_self
      cases mark_eq_true_of_protected hmem
    · cases rest with
      | nil =>
        rw [List.nil_append] at hrest
        have hmem : (d, false) ∈ (protectedTurns cfg messages).map fun m => (m, true) := by
          rw [← hrest]
          exact List.mem_cons_self
        cases mark_eq_true_of_protected hmem
      | cons y rest =>
        rw [List.cons_append, List.cons.injEq] at hrest
        obtain ⟨rfl, hrest⟩ := hrest
        cases rest with
        | nil =>
          have hhead : (protectedTurns cfg messages).head? = some b := by
            cases hturns : protectedTurns cfg messages with
            | nil =>
              rw [hturns] at hrest
              cases hrest
            | cons m turns =>
              rw [hturns] at hrest
              rw [List.head?_cons, (Prod.mk.inj (List.cons.inj hrest).1).1]
          refine h ⟨d, ?_⟩ a ?_ b hhead hspeaker
          · rw [hspan, List.getLast?_concat]
          · rw [hspan, lastKept_append, hkeptBefore]
            rfl
        | cons z rest =>
          have hz : z = (b, true) := (List.cons.inj hrest).1.symm
          have hwelds := welds_eq_false_of_pruned hspan
          rw [hkeptBefore, hz, List.map_cons, List.head?_cons,
            welds_of_sameSpeaker hspeaker] at hwelds
          cases hwelds

/-- **Pruning brings no two turns of one speaker together exactly when it brings none together
at the seam.** -/
theorem noWeld_iff (env : Collaborators) (cfg : BudgetConfig) (messages : List Msg) :
    NoWeld (prunedTurns env cfg messages) ↔ SeamClear env cfg messages :=
  ⟨seam_of_noWeld, noWeld_of_seam⟩

/-! ### An answer that is repeated -/

section

def talk (role text : String) : Msg := ⟨[("role", .str role), ("content", .str text)]⟩

def textOf (m : Msg) : String := ((m.get "content").str?).getD ""

/-- A counter of characters. -/
def byLength : Collaborators where
  countMessages ms := some ((ms.map fun m => (textOf m).length).sum : Nat)
  compressText text := text
  parses _ := false
  dumps m := ((m.get "role").str?).getD "" ++ ": " ++ textOf m
  strOf _ := ""

def gateTalk : List Msg :=
  [talk "user" "When does gate 7 close?", talk "assistant" "It closes at 20:47 sharp.",
    talk "user" "Sorry, again?", talk "assistant" "It closes at 20:47 sharp.",
    talk "user" "Thanks.", talk "assistant" "You are welcome."]

def smallWindow : BudgetConfig where
  usable := 100
  keepRecentTurns := 1
  summarize := false
  pruneMinChars := 20

/-- The second answer is dropped as a repeat, and the questions on its two sides meet. -/
theorem not_noWeld :
    ¬ ∀ (env : Collaborators) (cfg : BudgetConfig) (used : Int) (summary : Option String)
      (messages committed : List Msg), compact env cfg used summary messages = some committed →
      committed ≠ messages → NoWeld (prunedTurns env cfg messages) := by
  intro h
  have hcommits : compact byLength smallWindow 109 none gateTalk =
      some [talk "user" "When does gate 7 close?", talk "assistant" "It closes at 20:47 sharp.",
        talk "user" "Sorry, again?", talk "user" "Thanks.",
        talk "assistant" "You are welcome."] := by
    decide +kernel
  have hturns : prunedTurns byLength smallWindow gateTalk =
      [(talk "user" "When does gate 7 close?", true),
        (talk "assistant" "It closes at 20:47 sharp.", true)] ++
      (talk "user" "Sorry, again?", true) ::
        ([(talk "assistant" "It closes at 20:47 sharp.", false)] ++
        (talk "user" "Thanks.", true) :: [(talk "assistant" "You are welcome.", true)]) := by
    decide +kernel
  have hnil := h _ _ _ _ _ _ hcommits (by decide +kernel) _ _ _ _ _ hturns
    (fun x hx => by rw [List.mem_singleton.mp hx]) (by decide)
  cases hnil

end

end TokenProxy.History
