/-
  TokenProxy/CompactionSize.lean
  ==============================
  **What a compaction costs in tokens** (the rungs and `_compact` of `g26_context_budget.py`).

  The compressor keeps a text only when it is shorter than before, the summary is taken only
  when it is smaller than the span, and the last rung only drops.  The prune rung cuts a stale
  tool result to its first characters and puts a mark of thirteen behind them, however many it
  has cut off.

  Main result: `neverInflates_iff`, no rung and no compaction makes a request larger exactly
  when every tool result that is cut has those thirteen characters to lose.
-/
import TokenProxy.PruneSeam
import Mathlib.Algebra.BigOperators.Group.List.Basic
import Mathlib.Algebra.GroupWithZero.Nat
import Mathlib.Algebra.Order.BigOperators.Group.List

namespace TokenProxy.History

/-! ## 1. Counters -/

/-- A part of a content, and what it becomes with a text that is no longer. -/
def ShorterPart (part original : Json) : Prop :=
  part = original ∨ ∃ s t, original.get? "text" = some (.str t) ∧ s.length ≤ t.length ∧
    part = original.set "text" (.str s)

/-- A content with no longer texts in the places of its texts. -/
inductive Shorter : Json → Json → Prop
  | text {s t : String} (h : s.length ≤ t.length) : Shorter (.str s) (.str t)
  | parts {parts originals : List Json} (h : List.Forall₂ ShorterPart parts originals) :
    Shorter (.arr parts) (.arr originals)

/-- A count of tokens per message that a longer text does not lower. -/
structure TextCounter where
  count : Msg → Nat
  mono : ∀ m content, Shorter content (m.get "content") →
    count (m.set "content" content) ≤ count m

namespace TextCounter

variable (c : TextCounter)

def total (ms : List Msg) : Nat := (ms.map c.count).sum

@[simp] theorem total_nil : c.total [] = 0 := rfl

@[simp] theorem total_cons (m : Msg) (ms : List Msg) :
    c.total (m :: ms) = c.count m + c.total ms :=
  List.sum_cons

@[simp] theorem total_append (ms ns : List Msg) :
    c.total (ms ++ ns) = c.total ms + c.total ns := by
  rw [total, total, total, List.map_append, List.sum_append]

theorem total_filter (p : Msg → Bool) (ms : List Msg) :
    c.total (ms.filter p) + c.total (ms.filter fun m => !p m) = c.total ms := by
  induction ms with
  | nil => rfl
  | cons m ms ih =>
    cases hp : p m with
    | true =>
      rw [List.filter_cons_of_pos hp, List.filter_cons_of_neg (by simp [hp]), total_cons,
        total_cons, ← ih, Nat.add_assoc]
    | false =>
      rw [List.filter_cons_of_neg (by simp [hp]), List.filter_cons_of_pos (by simp [hp]),
        total_cons, total_cons, ← ih, Nat.add_left_comm]

end TextCounter

/-- The collaborators with `count_messages_tokens` as the sum of a count per message. -/
def Collaborators.counting (env : Collaborators) (c : TextCounter) : Collaborators :=
  { env with countMessages := fun ms => some (c.total ms) }

/-- What is in the span and in the summary. -/
def Ladder.size (c : TextCounter) (l : Ladder) : Nat := c.total l.span + c.total l.summary.toList

/-! ## 2. A compaction that does not inflate -/

/-- The length of a message's text. -/
def textLength (m : Msg) : Nat :=
  match m.get "content" with
  | .str s => s.length
  | _ => 0

/-- A tool result that the prune rung cuts. -/
structure Stale (maxToolChars : Int) (m : Msg) : Prop where
  tool : m.isTool = true
  bound : 0 < maxToolChars
  text : ∃ s, m.get "content" = .str s
  long : maxToolChars < textLength m

/-- No tool result grows, no rung makes the ladder larger, and what is committed is no larger
than what came in. -/
structure NeverInflates (env : Collaborators) (c : TextCounter) (cfg : BudgetConfig) (used : Int)
    (summary : Option String) (messages : List Msg) : Prop where
  truncated : ∀ m, (m, true) ∈ spanMarks (env.counting c) cfg messages →
    textLength (truncateResult cfg.toolResultMaxChars m).1 ≤ textLength m
  prune : ∀ target fixed l, Ladder.prune (env.counting c) cfg target fixed
    { span := spanOf cfg messages, current := used } = some l →
    l.size c ≤ c.total (spanOf cfg messages)
  compress : ∀ target fixed l l', Ladder.compress (env.counting c) cfg target fixed l = some l' →
    l'.size c ≤ l.size c
  summarize : ∀ target fixed l l', l.summary = none →
    Ladder.summarize (env.counting c) cfg target fixed summary l = some l' →
    l'.size c ≤ l.size c
  drop : ∀ target l l', Ladder.drop (env.counting c) cfg target l = some l' →
    l'.size c ≤ l.size c
  commits : ∀ committed, compact (env.counting c) cfg used summary messages = some committed →
    c.total committed ≤ c.total messages

/-- Every tool result that is kept and cut has thirteen characters more than is kept of it. -/
def RoomForMark (env : Collaborators) (cfg : BudgetConfig) (messages : List Msg) : Prop :=
  ∀ m, (m, true) ∈ spanMarks env cfg messages → Stale cfg.toolResultMaxChars m →
    cfg.toolResultMaxChars + 13 ≤ textLength m

/-! ## 3. The prune rung -/

theorem truncateResult_of_not_stale {maxToolChars : Int} {m : Msg} (h : ¬ Stale maxToolChars m) :
    (truncateResult maxToolChars m).1 = m := by
  rw [truncateResult]
  split
  · next s hs =>
    split
    · next hcut =>
      simp only [Bool.and_eq_true, decide_eq_true_eq] at hcut
      refine absurd ⟨hcut.1.1, hcut.1.2, ⟨s, hs⟩, ?_⟩ h
      rw [textLength, hs]
      exact hcut.2
    · rfl
  · rfl

theorem truncateResult_of_stale {maxToolChars : Int} {m : Msg} (h : Stale maxToolChars m) :
    ∃ s t, m.get "content" = .str s ∧ textLength m = s.length ∧
      (truncateResult maxToolChars m).1 = m.set "content" (.str t) ∧
      (t.length : Int) = maxToolChars + 13 := by
  obtain ⟨s, hs⟩ := h.text
  have hlen : textLength m = s.length := by
    rw [textLength, hs]
  have hlong := h.long
  have hbound := h.bound
  rw [hlen] at hlong
  refine ⟨s, .ofList (s.toList.take maxToolChars.toNat) ++ "\n…[truncated]", hs, hlen, ?_, ?_⟩
  · rw [truncateResult, hs]
    dsimp only
    rw [if_pos (by simp [h.tool, hbound, hlong])]
  · have hmark : "\n…[truncated]".length = 13 := by decide
    rw [String.length_append, hmark, String.length_ofList, List.length_take, String.length_toList]
    omega

theorem textLength_set (m : Msg) (t : String) :
    textLength (m.set "content" (.str t)) = t.length := by
  have hget : (m.set "content" (.str t)).get "content" = .str t := by
    simp [Msg.get, Msg.set, Json.getD, Json.get?]
  rw [textLength, hget]

theorem count_truncateResult_le (c : TextCounter) {maxToolChars : Int} {m : Msg}
    (h : Stale maxToolChars m → maxToolChars + 13 ≤ textLength m) :
    c.count (truncateResult maxToolChars m).1 ≤ c.count m := by
  by_cases hstale : Stale maxToolChars m
  · obtain ⟨s, t, hs, hlen, hcut, ht⟩ := truncateResult_of_stale hstale
    have hroom := h hstale
    rw [hcut]
    apply c.mono
    rw [hs]
    exact .text (by omega)
  · rw [truncateResult_of_not_stale hstale]

/-- The messages that are kept, cut where they are stale, count no more than all of them. -/
theorem total_kept_le (c : TextCounter) (maxToolChars : Int) (marks : List (Msg × Bool))
    (h : ∀ m, (m, true) ∈ marks → Stale maxToolChars m → maxToolChars + 13 ≤ textLength m) :
    c.total ((marks.filter Prod.snd).map fun x => (truncateResult maxToolChars x.1).1) ≤
      c.total (marks.map Prod.fst) := by
  induction marks with
  | nil => exact le_rfl
  | cons x marks ih =>
    obtain ⟨m, kept⟩ := x
    have ih := ih fun m' hm' => h m' (List.mem_cons_of_mem _ hm')
    rw [List.map_cons, TextCounter.total_cons]
    cases kept with
    | true =>
      have hm := count_truncateResult_le c (h m List.mem_cons_self)
      rw [List.filter_cons_of_pos rfl, List.map_cons, TextCounter.total_cons]
      exact Nat.add_le_add hm ih
    | false =>
      rw [List.filter_cons_of_neg Bool.false_ne_true]
      exact ih.trans (Nat.le_add_left _ _)

variable {env : Collaborators} {c : TextCounter} {cfg : BudgetConfig} {messages : List Msg}

theorem prune_size_le (h : RoomForMark (env.counting c) cfg messages) {used : Int} {target : ℚ}
    {fixed : Int} {l : Ladder}
    (hprune : Ladder.prune (env.counting c) cfg target fixed
      { span := spanOf cfg messages, current := used } = some l) :
    l.size c ≤ c.total (spanOf cfg messages) ∧ l.summary = none := by
  have hkept := total_kept_le c cfg.toolResultMaxChars (spanMarks (env.counting c) cfg messages) h
  rw [spanMarks, map_fst_pruneMarks, ← rungPrune_eq_marks] at hkept
  obtain ⟨hsummary, hcases⟩ := ladder_prune_cases hprune
  refine ⟨?_, hsummary⟩
  rw [Ladder.size, hsummary, Option.toList_none, TextCounter.total_nil, Nat.add_zero]
  obtain ⟨-, hspan | ⟨-, hspan⟩⟩ | ⟨-, hspan⟩ := hcases
  · rw [hspan]
  · rw [hspan]
    exact hkept
  · rw [hspan]
    exact hkept

/-! ## 4. The other rungs -/

theorem shorterPart_compressPart (part : Json) : ShorterPart (compressPart env part).1 part := by
  rw [compressPart]
  split
  · next text htext =>
    dsimp only
    split
    · next hshorter =>
      rw [Bool.and_eq_true, decide_eq_true_eq] at hshorter
      exact Or.inr ⟨_, text, htext, of_decide_eq_true hshorter.2 |>.le, rfl⟩
    · exact Or.inl rfl
  · exact Or.inl rfl

theorem count_compressMsg_le (c : TextCounter) (m : Msg) :
    c.count (compressMsg env m).1 ≤ c.count m := by
  rw [compressMsg]
  split
  · cases hcontent : m.get "content" with
    | str text =>
      rw [compressContent]
      dsimp only
      split
      · next hshorter =>
        apply c.mono
        rw [hcontent]
        exact .text (Nat.le_of_lt hshorter)
      · exact le_rfl
    | arr parts =>
      rw [compressContent]
      dsimp only
      split
      · apply c.mono
        rw [hcontent, List.map_map]
        refine .parts ?_
        rw [List.forall₂_map_left_iff]
        exact List.forall₂_same.mpr fun part _ => shorterPart_compressPart part
      · exact le_rfl
    | _ => exact le_rfl
  · exact le_rfl

theorem total_map_le (c : TextCounter) {f : Msg → Msg} (h : ∀ m, c.count (f m) ≤ c.count m)
    (ms : List Msg) : c.total (ms.map f) ≤ c.total ms := by
  induction ms with
  | nil => exact le_rfl
  | cons m ms ih =>
    rw [List.map_cons, TextCounter.total_cons, TextCounter.total_cons]
    exact Nat.add_le_add (h m) ih

theorem compress_size_le {target : ℚ} {fixed : Int} {l l' : Ladder}
    (h : Ladder.compress (env.counting c) cfg target fixed l = some l') :
    l'.size c ≤ l.size c ∧ l'.summary = l.summary := by
  have hspan : c.total (rungCompress (env.counting c) l.span).1 ≤ c.total l.span := by
    rw [rungCompress, List.map_map]
    exact total_map_le c (fun m => count_compressMsg_le c m) l.span
  rw [Ladder.compress] at h
  split at h
  · dsimp only at h
    split at h
    · obtain ⟨tokens, -, hl⟩ := Option.bind_eq_some_iff.mp h
      rw [← Option.some.inj hl]
      exact ⟨Nat.add_le_add_right hspan _, rfl⟩
    · rw [← Option.some.inj h]
      exact ⟨Nat.add_le_add_right hspan _, rfl⟩
  · rw [← Option.some.inj h]
    exact ⟨le_rfl, rfl⟩

theorem summarize_size_le {target : ℚ} {fixed : Int} {summary : Option String} {l l' : Ladder}
    (hnone : l.summary = none)
    (h : Ladder.summarize (env.counting c) cfg target fixed summary l = some l') :
    l'.size c ≤ l.size c := by
  rw [Ladder.summarize] at h
  split at h
  · obtain ⟨text, -, h⟩ := Option.bind_eq_some_iff.mp h
    split at h
    · obtain ⟨spanNow, hnow, h⟩ := Option.bind_eq_some_iff.mp h
      obtain ⟨cost, hcost, h⟩ := Option.bind_eq_some_iff.mp h
      split at h
      · next hsmaller =>
        have hspan : spanNow = c.total l.span := by
          rw [spanTokens] at hnow
          split at hnow
          · next hnil =>
            rw [hnil]
            exact (Option.some.inj hnow).symm
          · exact (Option.some.inj hnow).symm
        have hsummary : cost = c.total [summaryMsg text] := (Option.some.inj hcost).symm
        rw [hspan, hsummary, Int.ofNat_lt] at hsmaller
        rw [← Option.some.inj h, Ladder.size, Ladder.size, hnone]
        simpa using hsmaller.le
      · rw [Option.some.inj h]
    · rw [Option.some.inj h]
  · rw [Option.some.inj h]

theorem rungDrop_suffix {target : ℚ} {inner : Bool} {span span' : List Msg}
    {current current' : Int} {dropped : Nat}
    (h : rungDrop env target inner span current = some (span', current', dropped)) :
    span' <:+ span := by
  induction span generalizing inner span' current current' dropped with
  | nil =>
    rw [rungDrop] at h
    obtain rfl := (Prod.mk.inj (Option.some.inj h)).1
    exact List.suffix_rfl
  | cons m rest ih =>
    rw [rungDrop] at h
    split at h
    · obtain ⟨tokens, -, h⟩ := Option.bind_eq_some_iff.mp h
      obtain ⟨⟨span₁, current₁, dropped₁⟩, hrest, h⟩ := Option.bind_eq_some_iff.mp h
      rw [← (Prod.mk.inj (Option.some.inj h)).1]
      exact (ih hrest).trans (List.suffix_cons m rest)
    · obtain rfl := (Prod.mk.inj (Option.some.inj h)).1
      exact List.suffix_rfl

theorem drop_size_le {target : ℚ} {l l' : Ladder}
    (h : Ladder.drop (env.counting c) cfg target l = some l') : l'.size c ≤ l.size c := by
  rw [Ladder.drop] at h
  split at h
  · obtain ⟨⟨span, current, dropped⟩, hrung, h⟩ := Option.bind_eq_some_iff.mp h
    obtain ⟨front, hfront⟩ := rungDrop_suffix hrung
    rw [← Option.some.inj h, Ladder.size, Ladder.size, ← hfront, TextCounter.total_append]
    exact Nat.add_le_add_right (Nat.le_add_left _ _) _
  · rw [Option.some.inj h]

/-! ## 5. The whole ladder -/

theorem compact_total_le (h : RoomForMark (env.counting c) cfg messages) {used : Int}
    {summary : Option String} {committed : List Msg}
    (hcompact : compact (env.counting c) cfg used summary messages = some committed) :
    c.total committed ≤ c.total messages := by
  rcases compact_cases hcompact with rfl | ⟨target, fixed, l, hladder, -, rfl⟩
  · exact le_rfl
  · obtain ⟨l₁, hprune, hladder⟩ := Option.bind_eq_some_iff.mp hladder
    obtain ⟨l₂, hcompress, hladder⟩ := Option.bind_eq_some_iff.mp hladder
    obtain ⟨l₃, hsummarize, hdrop⟩ := Option.bind_eq_some_iff.mp hladder
    obtain ⟨hsize₁, hnone₁⟩ := prune_size_le h hprune
    obtain ⟨hsize₂, hnone₂⟩ := compress_size_le hcompress
    have hsize : l.size c ≤ c.total (spanOf cfg messages) := calc
      l.size c ≤ l₃.size c := drop_size_le hdrop
      _ ≤ l₂.size c := summarize_size_le (hnone₂.trans hnone₁) hsummarize
      _ ≤ l₁.size c := hsize₂
      _ ≤ c.total (spanOf cfg messages) := hsize₁
    have hturns : c.total (spanOf cfg messages) + c.total (protectedTurns cfg messages) =
        c.total (messages.filter fun m => !m.isSystem) := by
      rw [← TextCounter.total_append, spanOf, protectedTurns, List.take_append_drop]
    have hmessages := c.total_filter Msg.isSystem messages
    rw [Ladder.size] at hsize
    simp only [TextCounter.total_append]
    omega

/-- **No rung and no compaction inflates exactly when every tool result that is cut has room for
the mark.** -/
theorem neverInflates_iff (env : Collaborators) (c : TextCounter) (cfg : BudgetConfig)
    (used : Int) (summary : Option String) (messages : List Msg) :
    NeverInflates env c cfg used summary messages ↔
      RoomForMark (env.counting c) cfg messages := by
  constructor
  · intro h m hkept hstale
    have hle := h.truncated m hkept
    obtain ⟨s, t, -, hlen, hcut, ht⟩ := truncateResult_of_stale hstale
    rw [hcut, textLength_set] at hle
    omega
  · intro h
    refine ⟨?_, ?_, ?_, ?_, ?_, ?_⟩
    · intro m hkept
      by_cases hstale : Stale cfg.toolResultMaxChars m
      · obtain ⟨s, t, -, hlen, hcut, ht⟩ := truncateResult_of_stale hstale
        have hroom := h m hkept hstale
        rw [hcut, textLength_set]
        omega
      · rw [truncateResult_of_not_stale hstale]
    · exact fun _ _ _ hprune => (prune_size_le h hprune).1
    · exact fun _ _ _ _ hcompress => (compress_size_le hcompress).1
    · exact fun _ _ _ _ hnone hsummarize => summarize_size_le hnone hsummarize
    · exact fun _ _ _ hdrop => drop_size_le hdrop
    · exact fun _ hcompact => compact_total_le h hcompact

/-! ### A tool result just over the bound -/

section

/-- The characters of a message's text. -/
def characters : TextCounter where
  count := textLength
  mono m content h := by
    cases hm : m.get "content" with
    | str t =>
      rw [hm] at h
      cases h with
      | text hle =>
        rw [textLength_set, textLength, hm]
        exact hle
    | arr originals =>
      rw [hm] at h
      cases h with
      | parts hparts => simp [textLength, Msg.get, Msg.set, Json.getD, Json.get?]
    | _ =>
      rw [hm] at h
      cases h

def toolResult (text : String) : Msg :=
  ⟨[("role", .str "tool"), ("tool_call_id", .str "call_1"), ("content", .str text)]⟩

def tightResults : BudgetConfig where
  usable := 60
  keepRecentTurns := 1
  summarize := false
  toolResultMaxChars := 10

/-- Of 15 characters ten are kept, and thirteen are put behind them. -/
theorem not_neverInflates :
    ¬ ∀ (env : Collaborators) (c : TextCounter) (cfg : BudgetConfig) (used : Int)
      (summary : Option String) (messages committed : List Msg),
      compact (env.counting c) cfg used summary messages = some committed →
      c.total committed ≤ c.total messages := by
  intro h
  have hcommits : compact (byLength.counting characters) tightResults 60 none
      [talk "user" "Which gate does it leave from?", toolResult "Gate 7 at 20:47",
        talk "user" "Thanks.", talk "assistant" "Welcome."] =
      some [talk "user" "Which gate does it leave from?",
        toolResult "Gate 7 at \n…[truncated]", talk "user" "Thanks.",
        talk "assistant" "Welcome."] := by
    decide +kernel
  exact absurd (h _ _ _ _ _ _ _ hcommits) (by decide +kernel)

end

end TokenProxy.History
