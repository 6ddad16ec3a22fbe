/-
  TokenProxy/PrefixStability.lean
  ===============================
  **Keeping the cached prefix stable** (`_stabilise_system_messages`,
  `g21_cache_alignment.py`).

  What the operator's patterns find in a system prompt is cut out of it, as long as the budget
  lasts, and put behind the cached prefix.  Afterwards the white space of the whole prompt is
  tidied, not only that around the holes.

  Main result: `lossless_iff_tidyOutside`, a prompt can be put together again exactly when there
  is nothing to tidy outside the spans that are cut out of it.
-/
import TokenProxy.CcrTenants
import TokenProxy.Excision
import TokenProxy.SubScan
import TokenProxy.ToolExchanges
import Mathlib.Algebra.GroupWithZero.Nat
import Mathlib.Data.List.Sort

namespace TokenProxy.PrefixStability

open TokenProxy.Ccr (stripBy stripBy_eq_self_iff stripBy_spec)
open TokenProxy.Excision
open TokenProxy.History (Msg)
open TokenProxy.KeyStore (isSpace)

/-! ## 1. Cutting -/

/-- A compiled pattern: where it matches in a text, from `start` up to `end`. -/
structure Pattern where
  finditer : List Char → List Span
  within : ∀ text, ∀ span ∈ finditer text, span.1 ≤ span.2 ∧ span.2 ≤ text.length

/-- The order of the spans: by their start, the longer one first. -/
def spanLe (a b : Span) : Prop := a.1 < b.1 ∨ a.1 = b.1 ∧ b.2 - b.1 ≤ a.2 - a.1

instance : DecidableRel spanLe := fun a b =>
  inferInstanceAs (Decidable (a.1 < b.1 ∨ a.1 = b.1 ∧ b.2 - b.1 ≤ a.2 - a.1))

def foundSpans (patterns : List Pattern) (content : List Char) : List Span :=
  (patterns.flatMap fun rx => rx.finditer content).filter fun span => decide (span.1 < span.2)

def mergedSpans (patterns : List Pattern) (content : List Char) : List Span :=
  join ((foundSpans patterns content).insertionSort spanLe)

/-- How far the cutting of a prompt has come. -/
structure CutState where
  budget : Int
  taken : List (List Char)
  newContent : List Char

/-- One span; it stays where it is when the budget is too small for all of it. -/
def cutSpan (content : List Char) (state : CutState) (span : Span) : CutState :=
  let fragment := slice content span
  if state.budget - fragment.length < 0 then state
  else
    { budget := state.budget - fragment.length
      taken := state.taken ++ [fragment]
      newContent := remove state.newContent span }

/-- The loop over the spans of a prompt, from the back. -/
def cutContent (patterns : List Pattern) (budget : Int) (content : List Char) : CutState :=
  (mergedSpans patterns content).reverse.foldl (cutSpan content) ⟨budget, [], content⟩

/-! ## 2. Tidying -/

def isBlank (c : Char) : Bool := c = ' ' || c = '\t'

/-- `[ \t]{2,}` -/
def blankRun : SubScan.Pattern Char := fun _ s =>
  let run := s.takeWhile isBlank
  if 2 ≤ run.length then some (0, run.length) else none

/-- `re.sub(r"[ \t]{2,}", " ", new_content).strip()` -/
def cleaned (newContent : List Char) : List Char :=
  stripBy isSpace (SubScan.sub blankRun [' '] newContent)

/-! ## 3. The prompts -/

/-- The loop of `_stabilise_system_messages`.  An empty content has no spans. -/
def stabiliseFrom (patterns : List Pattern) : Int → List Msg → List Msg × List (List Char)
  | _, [] => ([], [])
  | budget, msg :: rest =>
    match msg.get "content" with
    | .str content =>
      let cut := cutContent patterns budget content.toList
      let (out, relocated) := stabiliseFrom patterns cut.budget rest
      if cut.taken = [] then (msg :: out, relocated)
      else
        (msg.set "content" (.str (String.ofList (cleaned cut.newContent))) :: out,
          cut.taken.reverse ++ relocated)
    | _ =>
      let (out, relocated) := stabiliseFrom patterns budget rest
      (msg :: out, relocated)

/-- `_stabilise_system_messages` -/
def stabiliseSystemMessages (systemMsgs : List Msg) (patterns : List Pattern) (maxChars : Int) :
    List Msg × List (List Char) :=
  if patterns = [] then (systemMsgs, []) else stabiliseFrom patterns maxChars systemMsgs

/-- Every prompt is as it was, or becomes so when the next fragments are put back. -/
inductive Lossless : List Msg → List Msg → List (List Char) → Prop
  | nil : Lossless [] [] []
  | kept (msg : Msg) {before after : List Msg} {relocated : List (List Char)} :
      Lossless before after relocated → Lossless (msg :: before) (msg :: after) relocated
  | cut (msg : Msg) {content stable : String} {fragments : List (List Char)}
      {before after : List Msg} {relocated : List (List Char)} :
      msg.get "content" = .str content → Rebuilds fragments stable.toList content.toList →
        Lossless before after relocated →
          Lossless (msg :: before) (msg.set "content" (.str stable) :: after)
            (fragments ++ relocated)

/-- There is nothing to tidy: no two blanks side by side, and no white space at the ends. -/
structure Tidy (text : List Char) : Prop where
  apart : text.IsChain fun a b => ¬ (isBlank a = true ∧ isBlank b = true)
  first : ∀ c ∈ text.head?, isSpace c = false
  last : ∀ c ∈ text.getLast?, isSpace c = false

/-- Those of the spans that there is room for, in their order. -/
def roomFor : Int → List Span → List Span
  | _, [] => []
  | budget, span :: rest =>
    if budget - width span < 0 then roomFor budget rest
    else span :: roomFor (budget - width span) rest

/-- Every prompt is tidy outside the spans of it that there is room for, from the back. -/
def TidyOutside (patterns : List Pattern) : Int → List Msg → Prop
  | _, [] => True
  | budget, msg :: rest =>
    match msg.get "content" with
    | .str content =>
      let spans := roomFor budget (mergedSpans patterns content.toList).reverse
      (spans ≠ [] → Tidy (spans.foldl remove content.toList)) ∧
        TidyOutside patterns (budget - (spans.map width).sum) rest
    | _ => TidyOutside patterns budget rest

/-! ## 4. What tidying takes away -/

theorem length_takeWhile_le (s : List Char) : (s.takeWhile isBlank).length ≤ s.length :=
  (List.takeWhile_prefix isBlank).length_le

theorem length_subFrom_le (skip : Nat) (prev : Option Char) (s : List Char) :
    (SubScan.subFrom blankRun [' '] skip prev s).length ≤ s.length - skip := by
  induction s generalizing skip prev with
  | nil => cases skip <;> simp [SubScan.subFrom]
  | cons c cs ih =>
    cases skip with
    | succ skip =>
      rw [SubScan.subFrom]
      exact (ih skip (some c)).trans (by rw [List.length_cons]; omega)
    | zero =>
      rw [SubScan.subFrom]
      cases hm : blankRun prev (c :: cs) with
      | none =>
        have hrest := ih 0 (some c)
        simp only [List.length_cons]
        omega
      | some hit =>
        obtain ⟨keep, length⟩ := hit
        rw [blankRun] at hm
        split at hm
        · next htwo =>
          cases hm
          have hrest := ih ((List.takeWhile isBlank (c :: cs)).length - 1) (some c)
          have hle := length_takeWhile_le (c :: cs)
          simp only [List.take_zero, List.nil_append, List.length_append, List.length_nil,
            List.length_cons] at hle hrest ⊢
          omega
        · cases hm

/-- A run of blanks is made shorter; where there is none, nothing changes. -/
theorem sub_blankRun (prev : Option Char) (s : List Char) :
    (SubScan.subFrom blankRun [' '] 0 prev s = s ∧
        s.IsChain fun a b => ¬ (isBlank a = true ∧ isBlank b = true)) ∨
      ((SubScan.subFrom blankRun [' '] 0 prev s).length < s.length ∧
        ¬ s.IsChain fun a b => ¬ (isBlank a = true ∧ isBlank b = true)) := by
  induction s generalizing prev with
  | nil => exact Or.inl ⟨rfl, .nil⟩
  | cons c cs ih =>
    rw [SubScan.subFrom, List.isChain_cons]
    by_cases htwo : 2 ≤ (List.takeWhile isBlank (c :: cs)).length
    · have hm : blankRun prev (c :: cs) = some (0, (List.takeWhile isBlank (c :: cs)).length) :=
        if_pos htwo
      rw [hm]
      have hrest := length_subFrom_le ((List.takeWhile isBlank (c :: cs)).length - 1) (some c) cs
      have hle := length_takeWhile_le (c :: cs)
      refine Or.inr ⟨?_, fun hchain => ?_⟩
      · simp only [List.take_zero, List.nil_append, List.length_append, List.length_nil,
          List.length_cons] at hle hrest ⊢
        omega
      · cases cs with
        | nil =>
          have hone := length_takeWhile_le [c]
          rw [List.length_singleton] at hone
          omega
        | cons d cs =>
          refine hchain.1 d rfl ?_
          by_cases hc : isBlank c = true
          · by_cases hd : isBlank d = true
            · exact ⟨hc, hd⟩
            · simp [hc, hd] at htwo
          · simp [hc] at htwo
    · have hm : blankRun prev (c :: cs) = none := if_neg htwo
      rw [hm]
      have hapart : ∀ d ∈ cs.head?, ¬ (isBlank c = true ∧ isBlank d = true) := by
        rintro d hd ⟨hc, hblank⟩
        apply htwo
        cases cs with
        | nil => cases hd
        | cons e cs =>
          cases hd
          simp [hc, hblank]
      rcases ih (some c) with ⟨hsame, hchain⟩ | ⟨hlt, hnot⟩
      · exact Or.inl ⟨congrArg (c :: ·) hsame, hapart, hchain⟩
      · exact Or.inr ⟨Nat.succ_lt_succ hlt, fun hchain => hnot hchain.2⟩

theorem length_stripBy_le (s : List Char) : (stripBy isSpace s).length ≤ s.length := by
  obtain ⟨lead, trail, hs, -⟩ := stripBy_spec isSpace s
  have hlength := congrArg List.length hs
  simp only [List.length_append] at hlength
  omega

theorem cleaned_length_le (text : List Char) : (cleaned text).length ≤ text.length :=
  (length_stripBy_le _).trans (length_subFrom_le 0 none text)

theorem tidy_of_length {text : List Char} (h : (cleaned text).length = text.length) :
    Tidy text := by
  have hle := length_stripBy_le (SubScan.sub blankRun [' '] text)
  rcases sub_blankRun none text with ⟨hsame, hchain⟩ | ⟨hlt, -⟩
  · rw [cleaned, SubScan.sub, hsame] at h
    obtain ⟨lead, trail, htext, -⟩ := stripBy_spec isSpace text
    have hlength := congrArg List.length htext
    simp only [List.length_append] at hlength
    have hlead : lead = [] := List.length_eq_zero_iff.mp (by omega)
    have htrail : trail = [] := List.length_eq_zero_iff.mp (by omega)
    rw [hlead, htrail, List.nil_append, List.append_nil] at htext
    obtain ⟨hfirst, hlast⟩ := stripBy_eq_self_iff.mp htext.symm
    exact ⟨hchain, hfirst, hlast⟩
  · rw [SubScan.sub] at hle
    rw [cleaned, SubScan.sub] at h
    omega

theorem cleaned_of_tidy {text : List Char} (h : Tidy text) : cleaned text = text := by
  rcases sub_blankRun none text with ⟨hsame, -⟩ | ⟨-, hnot⟩
  · rw [cleaned, SubScan.sub, hsame]
    exact stripBy_eq_self_iff.mpr ⟨h.first, h.last⟩
  · exact absurd h.apart hnot

/-! ## 5. What the cuts leave -/

instance : Std.Total spanLe := ⟨fun a b => by unfold spanLe; omega⟩

instance : IsTrans Span spanLe := ⟨fun a b c => by unfold spanLe; omega⟩

theorem mergedSpans_within (patterns : List Pattern) (content : List Char) :
    ∀ span ∈ mergedSpans patterns content, span.1 ≤ span.2 ∧ span.2 ≤ content.length := by
  refine join_within fun span hspan => ?_
  rw [List.mem_insertionSort, foundSpans, List.mem_filter, List.mem_flatMap] at hspan
  obtain ⟨⟨rx, -, hmem⟩, -⟩ := hspan
  exact rx.within content span hmem

theorem mergedSpans_disjoint (patterns : List Pattern) (content : List Char) :
    (mergedSpans patterns content).Pairwise fun a b => a.2 ≤ b.1 := by
  refine join_disjoint ((List.pairwise_insertionSort spanLe _).imp fun hle => ?_)
  unfold spanLe at hle
  omega

/-- A cut behind a place, and what the spans in front of it still take. -/
theorem foldl_cutSpan {content : List Char} {spans : List Span}
    (hwithin : ∀ span ∈ spans, span.1 ≤ span.2 ∧ span.2 ≤ content.length)
    (happart : spans.Pairwise fun a b => b.2 ≤ a.1) {p : Nat} {state : CutState}
    (hbelow : ∀ span ∈ spans, span.2 ≤ p) (hp : p ≤ content.length)
    (h : CutDownTo content p state.newContent state.taken.reverse) :
    Rebuilds (spans.foldl (cutSpan content) state).taken.reverse
      (spans.foldl (cutSpan content) state).newContent content := by
  induction spans generalizing p state with
  | nil => exact h.rebuilds
  | cons span spans ih =>
    obtain ⟨hbefore, hrest⟩ := List.pairwise_cons.mp happart
    obtain ⟨hle, hlen⟩ := hwithin span List.mem_cons_self
    have hcut : CutDownTo content span.1 (cutSpan content state span).newContent
        (cutSpan content state span).taken.reverse := by
      have hspan := hbelow span List.mem_cons_self
      rw [cutSpan]
      split
      · exact h.lower (hle.trans hspan)
      · rw [List.reverse_append, List.reverse_singleton, List.singleton_append]
        exact h.remove hle hspan hp
    exact ih (fun s hs => hwithin s (List.mem_cons_of_mem span hs)) hrest hbefore
      (hle.trans hlen) hcut

/-- The loop cuts out the spans that there is room for. -/
theorem foldl_cutSpan_eq {content : List Char} {spans : List Span}
    (hwithin : ∀ span ∈ spans, span.2 ≤ content.length) (state : CutState) :
    spans.foldl (cutSpan content) state =
      { budget := state.budget - ((roomFor state.budget spans).map width).sum
        taken := state.taken ++ (roomFor state.budget spans).map (slice content)
        newContent := (roomFor state.budget spans).foldl remove state.newContent } := by
  induction spans generalizing state with
  | nil =>
    rw [List.foldl_nil, roomFor, List.map_nil, List.map_nil, List.append_nil, List.foldl_nil,
      List.sum_nil, Nat.cast_zero, Int.sub_zero]
  | cons span rest ih =>
    have hlength := length_slice (hwithin span List.mem_cons_self)
    rw [List.foldl_cons, ih fun s hs => hwithin s (List.mem_cons_of_mem span hs), cutSpan,
      roomFor, hlength]
    split
    · rfl
    · rw [List.map_cons, List.map_cons, List.sum_cons, List.foldl_cons, List.append_assoc,
        List.singleton_append, Nat.cast_add, Int.sub_sub]

theorem cutContent_eq (patterns : List Pattern) (budget : Int) (content : List Char) :
    cutContent patterns budget content =
      { budget := budget -
          ((roomFor budget (mergedSpans patterns content).reverse).map width).sum
        taken := (roomFor budget (mergedSpans patterns content).reverse).map (slice content)
        newContent :=
          (roomFor budget (mergedSpans patterns content).reverse).foldl remove content } := by
  rw [cutContent, foldl_cutSpan_eq, List.nil_append]
  intro span hspan
  exact (mergedSpans_within patterns content span (List.mem_reverse.mp hspan)).2

/-- Without the white space it takes, every cut can be undone. -/
theorem rebuilds_cutContent (patterns : List Pattern) (budget : Int) (content : List Char) :
    Rebuilds (cutContent patterns budget content).taken.reverse
      (cutContent patterns budget content).newContent content := by
  refine foldl_cutSpan ?_ ?_ ?_ le_rfl (CutDownTo.start content)
  · intro span hspan
    exact mergedSpans_within patterns content span (List.mem_reverse.mp hspan)
  · rw [List.pairwise_reverse]
    exact mergedSpans_disjoint patterns content
  · intro span hspan
    exact (mergedSpans_within patterns content span (List.mem_reverse.mp hspan)).2

/-! ## 6. What can be put together again -/

/-- The characters of the prompts. -/
def contentLength (msg : Msg) : Nat :=
  match msg.get "content" with
  | .str content => content.toList.length
  | _ => 0

theorem contentLength_set (msg : Msg) (content : String) :
    contentLength (msg.set "content" (.str content)) = content.toList.length := by
  have hget : (msg.set "content" (.str content)).get "content" = .str content :=
    Json.getD_set_self _ _ _ _
  rw [contentLength, hget]

theorem Lossless.length {before after : List Msg} {relocated : List (List Char)}
    (h : Lossless before after relocated) : (before.map contentLength).sum =
      (after.map contentLength).sum + relocated.flatten.length := by
  induction h with
  | nil => rfl
  | kept msg _ ih =>
    rw [List.map_cons, List.map_cons, List.sum_cons, List.sum_cons, ih, Nat.add_assoc]
  | cut msg hcontent hrebuilds _ ih =>
    have hlength := hrebuilds.length
    rw [List.map_cons, List.map_cons, List.sum_cons, List.sum_cons, ih, contentLength_set,
      contentLength, hcontent, List.flatten_append, List.length_append]
    dsimp only
    omega

/-- Nothing is lost exactly when the lengths add up, and then there was nothing to tidy. -/
theorem stabiliseFrom_spec (patterns : List Pattern) (budget : Int) (msgs : List Msg) :
    ((stabiliseFrom patterns budget msgs).1.map contentLength).sum +
        (stabiliseFrom patterns budget msgs).2.flatten.length ≤ (msgs.map contentLength).sum ∧
      ((msgs.map contentLength).sum =
          ((stabiliseFrom patterns budget msgs).1.map contentLength).sum +
            (stabiliseFrom patterns budget msgs).2.flatten.length →
        TidyOutside patterns budget msgs) ∧
      (TidyOutside patterns budget msgs →
        Lossless msgs (stabiliseFrom patterns budget msgs).1
          (stabiliseFrom patterns budget msgs).2) := by
  induction msgs generalizing budget with
  | nil => exact ⟨le_rfl, fun _ => trivial, fun _ => .nil⟩
  | cons msg rest ih =>
    rw [stabiliseFrom, TidyOutside]
    cases hcontent : msg.get "content" with
    | str content =>
      have hrebuilds := rebuilds_cutContent patterns budget content.toList
      rw [cutContent_eq] at hrebuilds
      dsimp only at hrebuilds ⊢
      rw [cutContent_eq]
      generalize roomFor budget (mergedSpans patterns content.toList).reverse = spans
        at hrebuilds ⊢
      obtain ⟨hle, htidy, hlossless⟩ := ih (budget - (spans.map width).sum)
      have hlength := hrebuilds.length
      have hclean := cleaned_length_le (spans.foldl remove content.toList)
      have hmsg : contentLength msg = content.toList.length := by
        rw [contentLength, hcontent]
      rw [ne_eq, ← @List.map_eq_nil_iff _ _ (slice content.toList)]
      split
      · next hnone =>
        simp only [List.map_cons, List.sum_cons]
        refine ⟨by omega, fun heq => ⟨fun hsome => absurd hnone hsome, htidy (by omega)⟩, ?_⟩
        exact fun h => .kept msg (hlossless h.2)
      · next hsome =>
        simp only [List.map_cons, List.sum_cons, contentLength_set, String.toList_ofList,
          List.flatten_append, List.length_append]
        refine ⟨by omega, fun heq => ⟨fun _ => tidy_of_length (by omega), htidy (by omega)⟩, ?_⟩
        intro h
        refine .cut msg hcontent ?_ (hlossless h.2)
        rw [String.toList_ofList, cleaned_of_tidy (h.1 hsome)]
        exact hrebuilds
    | _ =>
      obtain ⟨hle, htidy, hlossless⟩ := ih budget
      simp only [List.map_cons, List.sum_cons]
      exact ⟨by omega, fun heq => htidy (by omega), fun h => .kept msg (hlossless h)⟩

theorem lossless_refl (msgs : List Msg) : Lossless msgs msgs [] := by
  induction msgs with
  | nil => exact .nil
  | cons msg rest ih => exact .kept msg ih

theorem tidyOutside_of_no_patterns (budget : Int) (msgs : List Msg) :
    TidyOutside [] budget msgs := by
  induction msgs generalizing budget with
  | nil => trivial
  | cons msg rest ih =>
    rw [TidyOutside]
    split
    · exact ⟨fun hsome => absurd rfl hsome, ih _⟩
    · exact ih budget

/-- **The prompts can be put together again from what is left of them and the fragments exactly
    when each needs no tidying outside the spans that are cut out of it.** -/
theorem lossless_iff_tidyOutside (systemMsgs : List Msg) (patterns : List Pattern)
    (maxChars : Int) :
    Lossless systemMsgs (stabiliseSystemMessages systemMsgs patterns maxChars).1
        (stabiliseSystemMessages systemMsgs patterns maxChars).2 ↔
      TidyOutside patterns maxChars systemMsgs := by
  rw [stabiliseSystemMessages]
  split
  · next hnone =>
    rw [hnone]
    exact iff_of_true (lossless_refl systemMsgs) (tidyOutside_of_no_patterns maxChars systemMsgs)
  · obtain ⟨-, htidy, hlossless⟩ := stabiliseFrom_spec patterns maxChars systemMsgs
    exact ⟨fun h => htidy h.length, hlossless⟩

/-! ### Indented code -/

/-- Where a word stands in a text. -/
def wordSpans (word : List Char) : Nat → List Char → List Span
  | _, [] => []
  | place, c :: rest =>
    if word.isPrefixOf (c :: rest) then
      (place, place + word.length) :: wordSpans word (place + 1) rest
    else wordSpans word (place + 1) rest

theorem wordSpans_within (word : List Char) (place : Nat) (text : List Char) :
    ∀ span ∈ wordSpans word place text,
      span.1 ≤ span.2 ∧ span.2 ≤ place + text.length := by
  induction text generalizing place with
  | nil => simp [wordSpans]
  | cons c rest ih =>
    intro span hspan
    have hrest : span ∈ wordSpans word (place + 1) rest →
        span.1 ≤ span.2 ∧ span.2 ≤ place + (c :: rest).length := fun h => by
      have hwithin := ih (place + 1) span h
      rw [List.length_cons]
      omega
    rw [wordSpans] at hspan
    split at hspan
    · next hword =>
      rcases List.mem_cons.mp hspan with rfl | hspan
      · have hle := (List.isPrefixOf_iff_prefix.mp hword).length_le
        exact ⟨Nat.le_add_right _ _, Nat.add_le_add_left hle place⟩
      · exact hrest hspan
    · exact hrest hspan

/-- A pattern without special characters, none of whose matches overlap. -/
def literal (word : List Char) : Pattern where
  finditer := wordSpans word 0
  within text span h := by
    have hwithin := wordSpans_within word 0 text span h
    rwa [Nat.zero_add] at hwithin

def codePrompt : Msg :=
  ⟨[("role", .str "system"), ("content", .str "It is 10:47.\nif late:\n    stop()")]⟩

/-- The indentation of the code is tidied with the hole. -/
theorem not_lossless : ¬ ∀ (systemMsgs : List Msg) (patterns : List Pattern) (maxChars : Int),
    Lossless systemMsgs (stabiliseSystemMessages systemMsgs patterns maxChars).1
      (stabiliseSystemMessages systemMsgs patterns maxChars).2 := by
  intro h
  have hlength := (h [codePrompt] [literal "10:47".toList] 2000).length
  exact absurd hlength (by decide +kernel)

end TokenProxy.PrefixStability
