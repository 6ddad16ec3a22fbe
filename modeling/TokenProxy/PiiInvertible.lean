/-
  TokenProxy/PiiInvertible.lean
  =============================
  **Is reversible masking inverted by the request's vault?**

  A masked text is a template whose holes are placeholders, so by
  `TextReplace.foldl_replaceAll_fill` unmasking fills each hole with the vault's
  value.  But placeholders are numbered within one slot and the vault is one for
  all slots: the value is that of the *last* slot with a span of that type and
  number.  `Consistent` says that these values give each slot its own text, and
  `restored_iff_consistent` that this is what restoring comes to.
-/
import TokenProxy.PiiSlots

namespace TokenProxy.Pii

open TextReplace

/-! ## 1. A text cut at its spans -/

/-- A span that gets a placeholder, with the text before it and its number among the spans of its
    type. -/
structure Span where
  gap : List Char
  entityType : String
  number : Nat
  text : String

structure Cut where
  spans : List Span
  tail : List Char

def Span.token (s : Span) : String := placeholder s.entityType s.number

/-- The cut from `cursor` on; matches that begin before it are skipped. -/
def cutFrom (text : List Char) : List PiiMatch → Nat → Dict String Nat → Cut
  | [], cursor, _ => ⟨[], text.drop cursor⟩
  | m :: ms, cursor, counters =>
    if m.start < cursor then cutFrom text ms cursor counters
    else
      let number := (counters.get? m.entityType).getD 0 + 1
      let rest := cutFrom text ms m.stop (counters.set m.entityType number)
      ⟨⟨slice text cursor m.start, m.entityType, number, m.text⟩ :: rest.spans, rest.tail⟩

/-- Put a text in the place of each span. -/
def splice (value : Span → List Char) (c : Cut) : List Char :=
  (c.spans.flatMap fun s => s.gap ++ value s) ++ c.tail

def template (c : Cut) : List (Piece Char) :=
  (c.spans.flatMap fun s => [.text s.gap, .hole s.token.toList]) ++ [.text c.tail]

theorem splice_cons (value : Span → List Char) (s : Span) (spans : List Span)
    (tail : List Char) :
    splice value ⟨s :: spans, tail⟩ = s.gap ++ value s ++ splice value ⟨spans, tail⟩ := by
  simp [splice]

theorem fill_template (f : List Char → List Char) (c : Cut) :
    fill f (template c) = splice (fun s => f s.token.toList) c := by
  obtain ⟨spans, tail⟩ := c
  induction spans with
  | nil => simp [template, splice, fill]
  | cons s spans ih =>
    rw [splice_cons, ← ih]
    simp [template, fill]

theorem holes_template (c : Cut) : holes (template c) = c.spans.map fun s => s.token.toList := by
  obtain ⟨spans, tail⟩ := c
  induction spans with
  | nil => rfl
  | cons s spans ih =>
    rw [List.map_cons, ← ih]
    rfl

def addSpan (vault : Dict String String) (s : Span) : Dict String String :=
  vault.set s.token s.text

theorem maskLoop_eq (text : List Char) (ms : List PiiMatch) (cursor : Nat)
    (counters : Dict String Nat) (vault : Dict String String) :
    maskLoop true text ms cursor counters vault =
      (splice (fun s => s.token.toList) (cutFrom text ms cursor counters),
        (cutFrom text ms cursor counters).spans.foldl addSpan vault) := by
  induction ms generalizing cursor counters vault with
  | nil => rfl
  | cons m ms ih =>
    rw [maskLoop, cutFrom]
    split
    · exact ih cursor counters vault
    · rw [if_pos rfl]
      dsimp only
      rw [ih, splice_cons]
      rfl

theorem drop_eq_slice_append {text : List Char} {start stop : Nat} (h : start ≤ stop) :
    text.drop start = slice text start stop ++ text.drop stop := by
  have hsplit := congrArg (List.drop start) (List.take_append_drop stop text)
  rw [List.drop_append] at hsplit
  rcases Nat.le_total text.length stop with hlen | hlen
  · rw [slice, List.take_of_length_le hlen, List.drop_eq_nil_of_le hlen, List.append_nil]
  · rw [List.length_take, Nat.min_eq_left hlen, Nat.sub_eq_zero_of_le h, List.drop_zero] at hsplit
    exact hsplit.symm

/-- With its own spans a text is as it was. -/
theorem splice_own {text : List Char} {ms : List PiiMatch} (h : ∀ m ∈ ms, m.Of text)
    (cursor : Nat) (counters : Dict String Nat) :
    splice (fun s => s.text.toList) (cutFrom text ms cursor counters) = text.drop cursor := by
  induction ms generalizing cursor counters with
  | nil => simp [cutFrom, splice]
  | cons m ms ih =>
    have hrest : ∀ m' ∈ ms, m'.Of text := fun m' hm' => h m' (List.mem_cons_of_mem m hm')
    obtain ⟨hordered, hslice, -⟩ := h m List.mem_cons_self
    rw [cutFrom]
    split
    · exact ih hrest cursor counters
    · rename_i hstart
      dsimp only
      rw [splice_cons]
      dsimp only
      rw [ih hrest, hslice, List.append_assoc, ← drop_eq_slice_append hordered,
        ← drop_eq_slice_append (Nat.not_lt.mp hstart)]

/-! ## 2. Placeholders -/

theorem toList_placeholder (entityType : String) (number : Nat) :
    (placeholder entityType number).toList = '[' :: (['P', 'I', 'I', ':'] ++ entityType.toList ++
      ':' :: (toString number).toList ++ [']']) := by
  simp [placeholder, String.toList_append]

theorem bracketed_placeholder {entityType : String} (h : Bracketless entityType) (number : Nat) :
    Bracketed '[' ']' (placeholder entityType number).toList := by
  refine ⟨_, toList_placeholder entityType number, ?_, ?_⟩
  · simp only [List.mem_append, List.mem_cons, not_or]
    exact ⟨by simp [h.1], by decide, notMem_digits (by decide) number⟩
  · simp only [List.mem_append, List.mem_cons, not_or]
    exact ⟨by simp [h.2], by decide, notMem_digits (by decide) number⟩

/-- A placeholder determines its type and number. -/
theorem placeholder_injective {entityType entityType' : String} {number number' : Nat}
    (h : placeholder entityType number = placeholder entityType' number') :
    entityType = entityType' ∧ number = number' := by
  have hlists := congrArg String.toList h
  rw [toList_placeholder, toList_placeholder] at hlists
  have hcolon : ∀ n : Nat, ':' ∉ (toString n).toList.reverse := fun n hmem =>
    notMem_digits (by decide) n (List.mem_reverse.mp hmem)
  have hmiddle : entityType.toList ++ ':' :: (toString number).toList =
      entityType'.toList ++ ':' :: (toString number').toList := by
    have hbody := List.append_cancel_right (List.cons.inj hlists).2
    rw [List.append_assoc, List.append_assoc] at hbody
    exact List.append_cancel_left hbody
  -- the number has no colon, so the last colon is the one before it
  have hreverse := congrArg List.reverse hmiddle
  rw [List.reverse_append, List.reverse_cons, List.reverse_append, List.reverse_cons,
    List.append_assoc, List.append_assoc] at hreverse
  obtain ⟨hdigits, htype⟩ :=
    append_cons_inj_of_notMem_left (hcolon number) (hcolon number') hreverse
  exact ⟨String.toList_inj.mp (List.reverse_injective htype),
    toString_injective (List.reverse_injective hdigits)⟩

/-! ## 3. The vault -/

/-- The text of the last span that satisfies `p`. -/
def lastText (p : Span → Bool) : List Span → Option String
  | [] => none
  | s :: spans => (lastText p spans).or (if p s then some s.text else none)

theorem lastText_append (p : Span → Bool) (spans spans' : List Span) :
    lastText p (spans ++ spans') = (lastText p spans').or (lastText p spans) := by
  induction spans with
  | nil => simp [lastText]
  | cons s spans ih => rw [List.cons_append, lastText, ih, lastText, Option.or_assoc]

theorem lastText_isSome {p : Span → Bool} {spans : List Span} {s : Span} (hs : s ∈ spans)
    (hp : p s = true) : ∃ text, lastText p spans = some text := by
  induction spans with
  | nil => cases hs
  | cons s' spans ih =>
    rw [lastText]
    rcases List.mem_cons.mp hs with rfl | hmem
    · cases lastText p spans with
      | none => exact ⟨s.text, by rw [if_pos hp]; rfl⟩
      | some text => exact ⟨text, rfl⟩
    · obtain ⟨text, htext⟩ := ih hmem
      exact ⟨text, by rw [htext]; rfl⟩

theorem exists_of_lastText {p : Span → Bool} {spans : List Span} {text : String}
    (h : lastText p spans = some text) : ∃ s ∈ spans, p s = true ∧ s.text = text := by
  induction spans with
  | nil => cases h
  | cons s spans ih =>
    rw [lastText, Option.or_eq_some_iff] at h
    rcases h with hlater | ⟨-, hhere⟩
    · obtain ⟨s', hs', hp, htext⟩ := ih hlater
      exact ⟨s', List.mem_cons_of_mem s hs', hp, htext⟩
    · split at hhere
      · rename_i hp
        exact ⟨s, List.mem_cons_self, hp, Option.some.inj hhere⟩
      · cases hhere

def hasToken (token : String) (s : Span) : Bool := decide (s.token = token)

theorem get?_foldl_addSpan (spans : List Span) (vault : Dict String String) (token : String) :
    (spans.foldl addSpan vault).get? token =
      (lastText (hasToken token) spans).or (vault.get? token) := by
  induction spans generalizing vault with
  | nil => rfl
  | cons s spans ih =>
    rw [List.foldl_cons, ih, lastText, Option.or_assoc, addSpan, Dict.get?_set]
    by_cases htoken : s.token = token
    · simp [hasToken, htoken]
    · simp [hasToken, htoken, Ne.symm htoken]

section

variable (det : Detector)

def cut (text : String) : Cut := cutFrom text.toList (byStart (det.detect text)) 0 ∅

theorem mem_byStart {found : List PiiMatch} {m : PiiMatch} : m ∈ byStart found ↔ m ∈ found :=
  List.mem_insertionSort _

theorem splice_cut_own (text : String) :
    splice (fun s => s.text.toList) (cut det text) = text.toList :=
  splice_own (fun m hm => det.sound text m (mem_byStart.mp hm)) 0 ∅

/-- What masking one text gives. -/
theorem maskMatches_eq (text : String) (h : det.detect text ≠ []) :
    (maskMatches text (det.detect text) true).text =
        String.ofList (splice (fun s => s.token.toList) (cut det text)) ∧
      (maskMatches text (det.detect text) true).vault =
        (cut det text).spans.foldl addSpan ∅ := by
  have hordered : (byStart (det.detect text)).isEmpty = false := by
    obtain ⟨m, hm⟩ := List.exists_mem_of_ne_nil _ h
    rw [List.isEmpty_eq_false_iff]
    exact List.ne_nil_of_mem (mem_byStart.mpr hm)
  rw [maskMatches, hordered, maskLoop_eq]
  exact ⟨rfl, rfl⟩

theorem cut_nothing {text : String} (h : det.detect text = []) :
    cut det text = ⟨[], text.toList⟩ := by
  rw [cut, h]
  rfl

theorem maskedText_eq (text : String) :
    maskedText det true true text =
      String.ofList (splice (fun s => s.token.toList) (cut det text)) := by
  by_cases hfound : det.detect text = []
  · rw [cut_nothing det hfound]
    simp [maskedText, scanText, hfound, splice]
  · rw [← (maskMatches_eq det text hfound).1]
    simp [maskedText, scanText, hfound]

/-- The spans of several texts, in order. -/
def allSpans (texts : List String) : List Span := texts.flatMap fun text => (cut det text).spans

theorem allSpans_cons (text : String) (texts : List String) :
    allSpans det (text :: texts) = (cut det text).spans ++ allSpans det texts :=
  List.flatMap_cons

def scanAll (texts : List String) : Scan := texts.foldl (scanNext det true true) ⟨∅, ∅⟩

theorem get?_scanNext (text : String) (st : Scan) (token : String) :
    (scanNext det true true st text).vault.get? token =
      (lastText (hasToken token) (cut det text).spans).or (st.vault.get? token) := by
  by_cases hfound : det.detect text = []
  · rw [cut_nothing det hfound]
    simp [scanNext, scanText, hfound, lastText]
  · have hvault : (scanNext det true true st text).vault =
        st.vault.update ((cut det text).spans.foldl addSpan ∅) := by
      rw [← (maskMatches_eq det text hfound).2]
      simp [scanNext, scanText, hfound]
    rw [hvault, Dict.get?_update, get?_foldl_addSpan, Dict.get?_empty, Option.or_none]

/-- The vault holds, for each placeholder, the last span that got it. -/
theorem get?_scanAll (texts : List String) (token : String) :
    (scanAll det texts).vault.get? token = lastText (hasToken token) (allSpans det texts) := by
  have hfold : ∀ st : Scan, (texts.foldl (scanNext det true true) st).vault.get? token =
      (lastText (hasToken token) (allSpans det texts)).or (st.vault.get? token) := by
    induction texts with
    | nil => exact fun st => rfl
    | cons text texts ih =>
      intro st
      rw [List.foldl_cons, ih, get?_scanNext, allSpans_cons, lastText_append, Option.or_assoc]
  rw [scanAll, hfold, Dict.get?_empty, Option.or_none]

end

/-! ## 4. Unmasking -/

/-- What the vault has for a placeholder. -/
def valueIn (vault : Dict String String) (w : List Char) : List Char :=
  ((vault.get? (String.ofList w)).getD "").toList

def tokensOf (vault : Dict String String) : List (List Char) :=
  (vault.entries.insertionSort fun a b => b.1.length ≤ a.1.length).map fun e => e.1.toList

theorem mem_tokensOf {vault : Dict String String} {w : List Char} (h : w ∈ tokensOf vault) :
    ∃ token value, w = token.toList ∧ vault.get? token = some value := by
  obtain ⟨e, he, rfl⟩ := List.mem_map.mp h
  exact ⟨e.1, e.2, rfl, (vault.mem_entries_iff e.1 e.2).mp ((List.mem_insertionSort _).mp he)⟩

theorem token_mem_tokensOf {vault : Dict String String} {token value : String}
    (h : vault.get? token = some value) : token.toList ∈ tokensOf vault :=
  List.mem_map.mpr ⟨(token, value),
    (List.mem_insertionSort _).mpr ((vault.mem_entries_iff token value).mpr h), rfl⟩

theorem foldl_replaceAll_nil (value : List Char → List Char) (ws : List (List Char)) :
    ws.foldl (fun t w => replaceAll w (value w) t) [] = [] := by
  induction ws with
  | nil => rfl
  | cons w ws ih => exact ih

/-- Unmasking replaces the vault's placeholders one after another. -/
theorem unmaskText_eq (text : String) (vault : Dict String String) :
    unmaskText text vault = String.ofList
      ((tokensOf vault).foldl (fun t w => replaceAll w (valueIn vault w) t) text.toList) := by
  have hfold : (vault.entries.insertionSort fun a b => b.1.length ≤ a.1.length).foldl
      (fun t e => replaceAll e.1.toList e.2.toList t) text.toList =
      (tokensOf vault).foldl (fun t w => replaceAll w (valueIn vault w) t) text.toList := by
    rw [tokensOf, List.foldl_map]
    apply List.foldl_ext
    intro t e he
    have hvalue := (vault.mem_entries_iff e.1 e.2).mp ((List.mem_insertionSort _).mp he)
    rw [valueIn, String.ofList_toList, hvalue]
    rfl
  unfold unmaskText
  split
  · rename_i hnothing
    rcases Bool.or_eq_true_iff.mp hnothing with hvault | htext
    · rw [← hfold, List.isEmpty_iff.mp hvault]
      simp
    · rw [of_decide_eq_true htext]
      simp [foldl_replaceAll_nil]
  · exact congrArg String.ofList hfold

theorem unmask_template {c : Cut} {vault : Dict String String}
    (hspans : ∀ s ∈ c.spans, ∃ value, vault.get? s.token = some value)
    (htokens : ∀ token value, vault.get? token = some value → Bracketed '[' ']' token.toList ∧
      ¬ token.toList <:+: splice (fun s => valueIn vault s.token.toList) c) :
    (unmaskText (String.ofList (splice (fun s => s.token.toList) c)) vault).toList =
      splice (fun s => valueIn vault s.token.toList) c := by
  rw [unmaskText_eq, String.toList_ofList, String.toList_ofList]
  have hmasked : splice (fun s => s.token.toList) c = fill id (template c) :=
    (fill_template id c).symm
  rw [hmasked, ← fill_template]
  apply foldl_replaceAll_fill (by decide : '[' ≠ ']')
  · intro w hw
    obtain ⟨token, value, rfl, hvalue⟩ := mem_tokensOf hw
    rw [fill_template]
    exact htokens token value hvalue
  · intro w hw
    rw [holes_template] at hw
    obtain ⟨s, hs, rfl⟩ := List.mem_map.mp hw
    obtain ⟨value, hvalue⟩ := hspans s hs
    exact Or.inr ⟨rfl, token_mem_tokensOf hvalue⟩

/-! ## 5. The slots of a request -/

section

variable (det : Detector)

def sameName (s s' : Span) : Bool :=
  decide (s'.entityType = s.entityType ∧ s'.number = s.number)

/-- A text with each of its spans replaced by the last span, among those of all the texts, of the
    same type and number. -/
def crossSpliced (texts : List String) (text : String) : List Char :=
  splice (fun s => ((lastText (sameName s) (allSpans det texts)).getD "").toList) (cut det text)

/-- The last spans of each type and number give every text back. -/
def Consistent (texts : List String) : Prop :=
  ∀ text ∈ texts, crossSpliced det texts text = text.toList

def HasPlaceholder (text : List Char) : Prop :=
  ∃ entityType number, Bracketless entityType ∧ (placeholder entityType number).toList <:+: text

def Restored (cfg : PiiConfig) (req : PiiRequest) : Prop :=
  let out := processRequest cfg det req
  (slotTexts cfg out.request.messages).map (fun text => unmaskText text out.piiVault) =
    slotTexts cfg req.messages

theorem hasToken_token (s : Span) : hasToken s.token = sameName s := by
  funext s'
  rw [hasToken, sameName, decide_eq_decide]
  constructor
  · exact placeholder_injective
  · rintro ⟨htype, hnumber⟩
    rw [Span.token, Span.token, htype, hnumber]

theorem bracketless_of_cutFrom {text : List Char} {ms : List PiiMatch}
    (h : ∀ m ∈ ms, m.Of text) (cursor : Nat) (counters : Dict String Nat) :
    ∀ s ∈ (cutFrom text ms cursor counters).spans, Bracketless s.entityType := by
  induction ms generalizing cursor counters with
  | nil => exact fun s hs => nomatch hs
  | cons m ms ih =>
    have hrest : ∀ m' ∈ ms, m'.Of text := fun m' hm' => h m' (List.mem_cons_of_mem m hm')
    rw [cutFrom]
    split
    · exact ih hrest cursor counters
    · intro s hs
      rcases List.mem_cons.mp hs with rfl | hmem
      · exact (h m List.mem_cons_self).entity
      · exact ih hrest _ _ s hmem

theorem bracketless_of_allSpans {texts : List String} {s : Span} (hs : s ∈ allSpans det texts) :
    Bracketless s.entityType := by
  obtain ⟨text, -, hmem⟩ := List.mem_flatMap.mp hs
  exact bracketless_of_cutFrom (fun m hm => det.sound text m (mem_byStart.mp hm)) 0 ∅ s hmem

theorem crossSpliced_eq (texts : List String) (text : String) :
    crossSpliced det texts text =
      splice (fun s => valueIn (scanAll det texts).vault s.token.toList) (cut det text) := by
  refine congrArg (splice · (cut det text)) (funext fun s => ?_)
  rw [valueIn, String.ofList_toList, get?_scanAll, hasToken_token]

/-- Unmasking a masked text gives its cross-spliced text, when no placeholder arises in that. -/
theorem unmask_maskedText {texts : List String} {text : String} (htext : text ∈ texts)
    (hnone : ¬ HasPlaceholder (crossSpliced det texts text)) :
    (unmaskText (maskedText det true true text) (scanAll det texts).vault).toList =
      crossSpliced det texts text := by
  rw [maskedText_eq, crossSpliced_eq]
  apply unmask_template
  · intro s hs
    rw [get?_scanAll]
    exact lastText_isSome (List.mem_flatMap.mpr ⟨text, htext, hs⟩) (by simp [hasToken])
  · intro token value hvalue
    rw [get?_scanAll] at hvalue
    obtain ⟨s, hs, htoken, -⟩ := exists_of_lastText hvalue
    obtain rfl := of_decide_eq_true htoken
    have hplain := bracketless_of_allSpans det hs
    refine ⟨bracketed_placeholder hplain s.number, fun hwithin => hnone ?_⟩
    rw [crossSpliced_eq]
    exact ⟨s.entityType, s.number, hplain, hwithin⟩

end

/-! ## 6. The request -/

section

variable (det : Detector)

theorem maskedText_ne_empty {text : String} (h : text ≠ "") :
    maskedText det true true text ≠ "" := by
  rw [maskedText_eq]
  intro hempty
  have hnil : splice (fun s => s.token.toList) (cut det text) = [] := by
    rw [← String.toList_ofList (l := splice (fun s => s.token.toList) (cut det text)), hempty]
    rfl
  have hown := splice_cut_own det text
  generalize cut det text = c at hnil hown
  obtain ⟨spans, tail⟩ := c
  cases spans with
  | nil => exact h (String.toList_inj.mp (hown.symm.trans hnil))
  | cons s spans =>
    rw [splice_cons, List.append_eq_nil_iff, List.append_eq_nil_iff, Span.token,
      toList_placeholder] at hnil
    exact absurd hnil.1.2 (List.cons_ne_nil _ _)

/-- Some redaction has been counted. -/
def Counted (counts : Dict String Nat) : Prop :=
  ∃ entityType count, counts.get? entityType = some count ∧ 0 < count

theorem counted_foldl {types : List String} {counts : Dict String Nat}
    (h : Counted counts ∨ types ≠ []) : Counted (types.foldl countType counts) := by
  induction types generalizing counts with
  | nil => exact h.resolve_right (fun hne => hne rfl)
  | cons entityType types ih =>
    exact ih (Or.inl ⟨entityType, _, Dict.get?_set_self _ _ _, Nat.succ_pos _⟩)

theorem counted_scanNext {st : Scan} {text : String}
    (h : Counted st.counts ∨ det.detect text ≠ []) :
    Counted (scanNext det true true st text).counts := by
  by_cases hfound : det.detect text = []
  · simpa [scanNext, scanText, hfound] using h
  · have hcounts : (scanNext det true true st text).counts =
        ((det.detect text).map PiiMatch.entityType).foldl countType st.counts := by
      simp [scanNext, scanText, hfound]
    rw [hcounts]
    exact counted_foldl (Or.inr (by simpa using hfound))

theorem counted_scan {texts : List String} {st : Scan}
    (h : Counted st.counts ∨ ∃ text ∈ texts, det.detect text ≠ []) :
    Counted (texts.foldl (scanNext det true true) st).counts := by
  induction texts generalizing st with
  | nil => exact h.resolve_right (by simp)
  | cons text texts ih =>
    rw [List.foldl_cons]
    apply ih
    rcases h with hcounted | ⟨text', hmem, hfound⟩
    · exact Or.inl (counted_scanNext det (Or.inl hcounted))
    · rcases List.mem_cons.mp hmem with rfl | hlater
      · exact Or.inl (counted_scanNext det (Or.inr hfound))
      · exact Or.inr ⟨text', hlater, hfound⟩

theorem total_ne_zero_of_counted {counts : Dict String Nat} (h : Counted counts) :
    total counts ≠ 0 := by
  obtain ⟨entityType, count, hget, hpos⟩ := h
  have hmem := (counts.mem_values_iff count).mpr ⟨entityType, hget⟩
  unfold total
  generalize counts.values = values at hmem
  induction values with
  | nil => cases hmem
  | cons value values ih =>
    rw [List.foldr_cons]
    rcases List.mem_cons.mp hmem with rfl | hlater
    · omega
    · have hrest := ih hlater
      omega

/-- Without a redaction the vault is empty. -/
theorem scanAll_of_total_eq_zero {texts : List String}
    (h : total (scanAll det texts).counts = 0) : scanAll det texts = ⟨∅, ∅⟩ := by
  have hnothing : ∀ text ∈ texts, det.detect text = [] := by
    intro text htext
    by_contra hfound
    exact total_ne_zero_of_counted (counted_scan det (Or.inr ⟨text, htext, hfound⟩)) h
  clear h
  unfold scanAll
  induction texts with
  | nil => rfl
  | cons text texts ih =>
    have hnext : scanNext det true true ⟨∅, ∅⟩ text = ⟨∅, ∅⟩ := by
      simp [scanNext, scanText, hnothing text List.mem_cons_self]
    rw [List.foldl_cons, hnext]
    exact ih fun text' htext' => hnothing text' (List.mem_cons_of_mem text htext')

variable {cfg : PiiConfig}

/-- A request that is masked reversibly: its slots are masked, and its vault is what scanning
    them leaves. -/
theorem processRequest_mask (hon : cfg.enabled = true) (hmode : cfg.mode = .mask)
    (hreversible : cfg.reversible = true) (req : PiiRequest) :
    (processRequest cfg det req).request.messages =
        req.messages.map (mapMessage cfg (maskedText det true true)) ∧
      (processRequest cfg det req).piiVault = (scanAll det (slotTexts cfg req.messages)).vault := by
  have hscan : scanMessages cfg det req.messages ⟨∅, ∅⟩ =
      (req.messages.map (mapMessage cfg (maskedText det true true)),
        scanAll det (slotTexts cfg req.messages)) := by
    rw [scanMessages_eq, hmode, hreversible]
    rfl
  unfold processRequest
  rw [if_neg (by simp [hon, hmode]), hscan]
  dsimp only
  split
  · rename_i hsum
    rw [scanAll_of_total_eq_zero det hsum]
    exact ⟨rfl, rfl⟩
  · rw [hmode, hreversible]
    exact ⟨rfl, rfl⟩

theorem restored_iff (hon : cfg.enabled = true) (hmode : cfg.mode = .mask)
    (hreversible : cfg.reversible = true) (req : PiiRequest) :
    Restored det cfg req ↔ ∀ text ∈ slotTexts cfg req.messages,
      unmaskText (maskedText det true true text)
        (scanAll det (slotTexts cfg req.messages)).vault = text := by
  obtain ⟨hmessages, hvault⟩ := processRequest_mask det hon hmode hreversible req
  have hslots := slotTexts_mapMessages cfg (fun text htext => maskedText_ne_empty det htext)
    req.messages
  rw [Restored, hmessages, hvault, hslots, List.map_map]
  constructor
  · intro h
    exact List.map_inj_left.mp (h.trans (List.map_id _).symm)
  · intro h
    exact (List.map_congr_left h).trans (List.map_id _)

theorem restored_of_consistent (hon : cfg.enabled = true) (hmode : cfg.mode = .mask)
    (hreversible : cfg.reversible = true) {req : PiiRequest}
    (hliteral : ∀ text ∈ slotTexts cfg req.messages, ¬ HasPlaceholder text.toList)
    (hconsistent : Consistent det (slotTexts cfg req.messages)) : Restored det cfg req := by
  apply (restored_iff det hon hmode hreversible req).mpr
  intro text htext
  have hown := hconsistent text htext
  apply String.toList_inj.mp
  rw [← hown]
  apply unmask_maskedText det htext
  rw [hown]
  exact hliteral text htext

theorem consistent_of_restored (hon : cfg.enabled = true) (hmode : cfg.mode = .mask)
    (hreversible : cfg.reversible = true) {req : PiiRequest}
    (hnone : ∀ text ∈ slotTexts cfg req.messages,
      ¬ HasPlaceholder (crossSpliced det (slotTexts cfg req.messages) text))
    (hrestored : Restored det cfg req) : Consistent det (slotTexts cfg req.messages) := by
  intro text htext
  have hslot := (restored_iff det hon hmode hreversible req).mp hrestored text htext
  rw [← unmask_maskedText det htext (hnone text htext), hslot]

/-! ### One slot -/

/-! ### Any number of slots -/

/-- **Restoring and consistency.**  When no slot contains a placeholder to begin with, a request
    whose slots are consistent is restored; and when none arises in the cross-spliced texts either,
    a request that is restored is consistent. -/
theorem restored_iff_consistent (hon : cfg.enabled = true) (hmode : cfg.mode = .mask)
    (hreversible : cfg.reversible = true) (req : PiiRequest)
    (hliteral : ∀ text ∈ slotTexts cfg req.messages, ¬ HasPlaceholder text.toList) :
    (Consistent det (slotTexts cfg req.messages) → Restored det cfg req) ∧
      ((∀ text ∈ slotTexts cfg req.messages,
          ¬ HasPlaceholder (crossSpliced det (slotTexts cfg req.messages) text)) →
        (Restored det cfg req ↔ Consistent det (slotTexts cfg req.messages))) :=
  ⟨restored_of_consistent det hon hmode hreversible hliteral, fun hnone =>
    ⟨consistent_of_restored det hon hmode hreversible hnone,
      restored_of_consistent det hon hmode hreversible hliteral⟩⟩

end

section

/-- A detector that takes these texts for addresses, each as a whole. -/
def addressBook (addresses : List String) : Detector where
  detect text := if text ∈ addresses then [⟨"EMAIL", 0, text.length, text⟩] else []
  sound := by
    intro text m hm
    split at hm
    · obtain rfl := List.mem_singleton.mp hm
      have hplain : Bracketless "EMAIL" := by decide
      refine ⟨Nat.zero_le _, ?_, hplain⟩
      rw [slice, ← String.length_toList, List.take_length, List.drop_zero]
    · cases hm

def maskingOn : PiiConfig := { mode := .mask }

def userMessages (texts : List String) : PiiRequest where
  messages := texts.map fun text => .obj [("role", .str "user"), ("content", .str text)]

theorem not_hasPlaceholder_of_notMem {text : List Char} (h : '[' ∉ text) :
    ¬ HasPlaceholder text := by
  rintro ⟨entityType, number, -, hwithin⟩
  rw [toList_placeholder] at hwithin
  exact h (hwithin.subset List.mem_cons_self)

/-- One address, twice. -/
theorem restored_same_address :
    Restored (addressBook ["alice@example.com"]) maskingOn
      (userMessages ["alice@example.com", "hello", "alice@example.com"]) := by
  have hslots : slotTexts maskingOn
      (userMessages ["alice@example.com", "hello", "alice@example.com"]).messages =
        ["alice@example.com", "hello", "alice@example.com"] := by decide +kernel
  apply (restored_iff_consistent (addressBook ["alice@example.com"]) rfl rfl rfl
    (userMessages ["alice@example.com", "hello", "alice@example.com"]) ?_).1
  · rw [hslots]
    unfold Consistent
    decide +kernel
  · rw [hslots]
    intro text htext
    apply not_hasPlaceholder_of_notMem
    revert text
    decide +kernel

/-- Two addresses in two messages: both are `[PII:EMAIL:1]`, and the second is restored twice. -/
theorem not_restored_two_addresses :
    let det := addressBook ["alice@example.com", "bob@example.com"]
    let req := userMessages ["alice@example.com", "bob@example.com"]
    let out := processRequest maskingOn det req
    (∀ text ∈ slotTexts maskingOn req.messages, ¬ HasPlaceholder text.toList) ∧
      slotTexts maskingOn out.request.messages = ["[PII:EMAIL:1]", "[PII:EMAIL:1]"] ∧
      (slotTexts maskingOn out.request.messages).map (fun text => unmaskText text out.piiVault) =
        ["bob@example.com", "bob@example.com"] ∧
      ¬ Restored det maskingOn req := by
  intro det req out
  refine ⟨?_, by decide +kernel, by decide +kernel, ?_⟩
  · have hslots : slotTexts maskingOn req.messages = ["alice@example.com", "bob@example.com"] := by
      decide +kernel
    rw [hslots]
    intro text htext
    apply not_hasPlaceholder_of_notMem
    revert text
    decide +kernel
  · unfold Restored
    decide +kernel

end

end TokenProxy.Pii
