/-
  TokenProxy/ProseDeletion.lean
  =============================
  **Prose compression only deletes** (`_compress_prose`, `prose_compress.py`).

  A rule matches characters only, no sentinel, and what it puts for a match is shorter: nothing,
  the punctuation mark at its end, or white space.

  Main result: `compressText_onlyDeletes`.
-/
import TokenProxy.StashedText

namespace TokenProxy.ProseCompress

open TokenProxy.Ccr (stripBy stripBy_spec)
open TokenProxy.KeyStore (isSpace)
open TokenProxy.Regex

/-! ## 1. Taking characters away -/

/-- White space outside the spans. -/
def Tok.isBlank : Tok → Bool
  | .lit c => isSpace c
  | .span _ _ => false

def Tok.isSpan : Tok → Bool
  | .lit _ => false
  | .span _ _ => true

/-- Nothing but characters is taken away and nothing but white space put in; the spans are all
    there, in their order. -/
structure Trims (ts kept : List Tok) : Prop where
  deletes : (kept.filter fun t => !t.isBlank).Sublist (ts.filter fun t => !t.isBlank)
  spans : kept.filter Tok.isSpan = ts.filter Tok.isSpan
  clean : ∀ t ∈ kept, t ∈ ts ∨ ∃ c, c ≠ nul ∧ t = .lit c

theorem Trims.refl (ts : List Tok) : Trims ts ts where
  deletes := List.Sublist.refl _
  spans := rfl
  clean _ ht := Or.inl ht

theorem Trims.trans {ts us vs : List Tok} (h : Trims ts us) (h' : Trims us vs) : Trims ts vs where
  deletes := h'.deletes.trans h.deletes
  spans := h'.spans.trans h.spans
  clean t ht := (h'.clean t ht).elim (h.clean t) Or.inr

theorem Trims.append {ts ts' us us' : List Tok} (h : Trims ts ts') (h' : Trims us us') :
    Trims (ts ++ us) (ts' ++ us') where
  deletes := by
    rw [List.filter_append, List.filter_append]
    exact h.deletes.append h'.deletes
  spans := by rw [List.filter_append, List.filter_append, h.spans, h'.spans]
  clean t ht := by
    rcases List.mem_append.mp ht with hleft | hright
    · exact (h.clean t hleft).imp_left (List.mem_append_left us)
    · exact (h'.clean t hright).imp_left (List.mem_append_right ts)

/-- What stands for a match. -/
structure Replaces (w v : List Char) : Prop where
  shorter : v.length < w.length
  deletes : (v.filter fun c => !isSpace c).Sublist (w.filter fun c => !isSpace c)
  clean : nul ∉ v

theorem filter_lits (p : Tok → Bool) (cs : List Char) :
    (cs.map Tok.lit).filter p = (cs.filter fun c => p (.lit c)).map .lit := List.filter_map

theorem Replaces.trims {w v : List Char} (h : Replaces w v) :
    Trims (w.map .lit) (v.map .lit) where
  deletes := by
    rw [filter_lits, filter_lits]
    exact h.deletes.map _
  spans := by
    rw [filter_lits, filter_lits]
    simp only [Tok.isSpan, List.filter_false, List.map_nil]
  clean t ht := by
    obtain ⟨c, hc, rfl⟩ := List.mem_map.mp ht
    exact Or.inr ⟨c, fun heq => h.clean (heq ▸ hc), rfl⟩

/-! ## 2. The rules -/

structure Rule.Sound (rule : Rule) : Prop where
  respects : Respects rule.pattern
  avoids : avoids [nul] rule.pattern = true
  replaces : ∀ before w after, Matches rule.pattern before w after → Replaces w (rule.repl w)

/-- **A sound rule trims the tokens of a text.** -/
theorem Rule.Sound.trims {rule : Rule} (h : rule.Sound) (ts : List Tok) :
    ∃ kept, rule.apply (renderAll ts) = renderAll kept ∧ Trims ts kept := by
  obtain ⟨items, htoks, hparts, hhits⟩ := scan_render h.respects ts _ (Nat.le_refl _) []
  rw [Rule.apply, sub, finditer, ← hparts, ← htoks]
  clear htoks hparts
  induction items with
  | nil => exact ⟨[], rfl, Trims.refl []⟩
  | cons item items ih =>
    obtain ⟨kept, hkept, htrims⟩ := ih fun g hg => hhits g (List.mem_cons_of_mem item hg)
    rw [List.flatMap_cons, List.flatMap_cons, List.flatMap_append, hkept]
    cases item with
    | plain t =>
      refine ⟨t :: kept, ?_, (Trims.refl [t]).append htrims⟩
      rw [renderAll_cons, Item.parts, List.flatMap_map]
      congr 1
      exact List.flatMap_singleton' _
    | group g =>
      obtain ⟨before, after, hmatch⟩ := hhits g List.mem_cons_self
      have hlits := eq_lits_of_not_mem fun hmem =>
        hmatch.avoids h.avoids nul hmem List.mem_cons_self
      refine ⟨(rule.repl (renderAll g)).map .lit ++ kept, ?_, Trims.append ?_ htrims⟩
      · rw [renderAll_append, renderAll_lits, Item.parts, List.flatMap_singleton, Piece.replace]
      · have htrims := (h.replaces before _ after hmatch).trims
        rwa [← hlits] at htrims

theorem Rule.Sound.shorter {rule : Rule} (h : rule.Sound) (s : List Char) :
    (rule.apply s).length ≤ s.length ∧
      ((rule.apply s).length = s.length → NoHit (finditer rule.pattern s)) :=
  length_sub_le fun before w after hmatch => (h.replaces before w after hmatch).shorter

theorem removal_sound {pattern : Regex Char} (havoids : avoids [nul] pattern = true)
    (hleaves : leaves digits pattern = true) : (removal pattern).Sound where
  respects := respects_of_leaves havoids hleaves
  avoids := havoids
  replaces _ w _ hmatch := by
    obtain ⟨c, hc, -⟩ := hmatch.leaves hleaves
    exact ⟨List.length_pos_of_mem hc, List.nil_sublist _, List.not_mem_nil⟩

/-- A rule that puts white space for longer white space. -/
theorem blank_sound {pattern : Regex Char} {blank : List Char}
    (havoids : avoids [nul] pattern = true) (hleaves : leaves digits pattern = true)
    (hwidth : blank.length < width pattern) (hblank : ∀ c ∈ blank, isSpace c = true)
    (hclean : nul ∉ blank) : Rule.Sound ⟨pattern, fun _ => blank⟩ where
  respects := respects_of_leaves havoids hleaves
  avoids := havoids
  replaces _ w _ hmatch := by
    refine ⟨Nat.lt_of_lt_of_le hwidth hmatch.width, ?_, hclean⟩
    have hnil : (blank.filter fun c => !isSpace c) = [] :=
      List.filter_eq_nil_iff.mpr fun c hc hnot => by
        rw [hblank c hc] at hnot
        cases hnot
    rw [hnil]
    exact List.nil_sublist _

/-- A rule that keeps the last character of a match. -/
theorem last_sound {pattern : Regex Char} (havoids : avoids [nul] pattern = true)
    (hleaves : leaves digits pattern = true) (hwidth : 1 < width pattern) :
    Rule.Sound ⟨pattern, fun w => w.getLast?.toList⟩ where
  respects := respects_of_leaves havoids hleaves
  avoids := havoids
  replaces _ w _ hmatch := by
    have hlong := Nat.lt_of_lt_of_le hwidth hmatch.width
    have hne : w ≠ [] := List.length_pos_iff.mp (Nat.lt_trans Nat.zero_lt_one hlong)
    have hlast : w.getLast?.toList = [w.getLast hne] := by
      rw [List.getLast?_eq_some_getLast hne]
      rfl
    simp only [hlast]
    refine ⟨hlong, ?_, ?_⟩
    · exact (List.singleton_sublist.mpr (List.getLast_mem hne)).filter _
    · intro hmem
      have hnul := List.mem_singleton.mp hmem
      exact hmatch.avoids havoids nul (hnul ▸ List.getLast_mem hne) List.mem_cons_self

theorem rules_sound (py : Chars) : ∀ rule ∈ rules py, rule.Sound := by
  intro rule hrule
  simp only [rules, List.mem_cons, List.not_mem_nil, or_false] at hrule
  rcases hrule with rfl | rfl | rfl | rfl | rfl | rfl | rfl | rfl | rfl
  · exact removal_sound rfl rfl
  · exact removal_sound rfl rfl
  · exact removal_sound rfl rfl
  · exact removal_sound rfl rfl
  · exact removal_sound rfl rfl
  · exact removal_sound rfl rfl
  · exact blank_sound rfl rfl (by decide) (List.all_eq_true.mp rfl) (by decide)
  · exact last_sound rfl rfl (by decide)
  · exact blank_sound rfl rfl (by decide) (List.all_eq_true.mp rfl) (by decide)

/-! ## 3. The protection patterns -/

section

variable (py : Chars)

theorem isWord_nul : py.isWord nul = false := by
  rw [Redaction.Tables.isWord, py.ascii nul (by decide)]
  decide

theorem fences_respect : Respects (.alt (fence "\x60\x60\x60") (fence "~~~")) :=
  respects_of_endsOff rfl rfl

theorem inlineCode_respects : Respects inlineCode := respects_of_endsOff rfl rfl

theorem calls_respects : Respects calls := respects_of_endsOff rfl rfl

theorem paths_avoids : avoids [nul] (paths py) = true := by
  simp [paths, chain, avoids, isWord_nul]
  decide

theorem dottedNames_avoids : avoids [nul] (dottedNames py) = true := by
  simp [dottedNames, boundary, wordRun, plus, opt, nothing, chain, avoids, isWord_nul]
  decide

theorem camelNames_avoids : avoids [nul] (camelNames py) = true := by
  simp [camelNames, boundary, plus, chain, avoids, isWord_nul]
  decide

theorem versions_avoids : avoids [nul] (versions py) = true := by
  simp [versions, boundary, plus, chain, avoids, isDecimal_nul]
  decide

theorem underscoredNames_avoids : avoids [nul] (underscoredNames py) = true := by
  simp [underscoredNames, boundary, wordRun, plus, chain, avoids, isWord_nul]

theorem paths_respects : Respects (paths py) := respects_of_leaves (paths_avoids py) rfl

theorem dottedNames_respects : Respects (dottedNames py) := by
  refine respects_of_leaves (dottedNames_avoids py) ?_
  simp only [dottedNames, chain, leaves, Bool.or_eq_true]
  exact Or.inr (Or.inr (Or.inl (by decide)))

theorem camelNames_respects : Respects (camelNames py) :=
  respects_of_leaves (camelNames_avoids py) rfl

theorem versions_respects : Respects (versions py) := by
  refine respects_of_leaves (versions_avoids py) ?_
  simp only [versions, chain, leaves, Bool.or_eq_true]
  exact Or.inr (Or.inr (Or.inl (by decide)))

/-- The lookahead for an underscore sees past no sentinel. -/
theorem underscoredNames_respects : Respects (underscoredNames py) where
  start before ds after hds := by
    cases hmatch : matchAt (underscoredNames py) before (ds ++ nul :: after) with
    | none => rfl
    | some w =>
      obtain ⟨rest, hw, -, hmatches, -⟩ := matchAt_eq_some hmatch
      cases hmatches with
      | seq hboundary hname =>
        have hnil := hboundary.silent rfl
        subst hnil
        cases hname with
        | seq hahead _ =>
          have hnil := hahead.silent rfl
          subst hnil
          obtain ⟨v, rest', hv, hseen⟩ := hahead.of_ahead
          have hnul : nul ∉ v := fun hmem => by
            refine hseen.avoids (A := [nul]) ?_ nul hmem List.mem_cons_self
            simp [avoids, isWord_nul]
            decide
          obtain ⟨c, hc, hnot⟩ := hseen.leaves (A := digits) rfl
          exact absurd (digits_of_start (hv.symm.trans hw.symm) hnul hds c hc) hnot
  stop before w rest hmatch hwithin := by
    obtain ⟨rest', -, -, hmatches, -⟩ := matchAt_eq_some hmatch
    exact hmatches.avoids (underscoredNames_avoids py) nul (nul_mem_of_within hwithin)
      List.mem_cons_self

/-- A URL does not end within a sentinel, since it could have gone on. -/
theorem urls_respects : Respects (urls py) where
  start before _ after hds := start_of_startsOff rfl before after hds
  stop before w rest hmatch hwithin := by
    obtain ⟨rest', hsplit, -, -, hfirst⟩ := matchAt_eq_some hmatch
    obtain rfl : rest = rest' := List.append_cancel_left hsplit
    simp only [urls, chain] at hfirst
    obtain ⟨x, -, hfirst⟩ := head?_ends_seq hfirst
    obtain ⟨x, -, hfirst⟩ := head?_ends_seq hfirst
    obtain ⟨x, -, hfirst⟩ := head?_ends_seq hfirst
    obtain ⟨x, -, hfirst⟩ := head?_ends_seq hfirst
    have hurl : ∀ c, urlEnd c = true → urlBody c = true := fun c hc =>
      (Bool.and_eq_true_iff.mp hc).1
    obtain ⟨c, hc, hmem⟩ := next_of_within hwithin
    have hend : ∀ c ∈ holeChars, urlEnd c = true := List.all_eq_true.mp rfl
    have hstop := head?_ends_greedy hurl hfirst c hc
    rw [hend c hmem] at hstop
    cases hstop

/-- **The tokens of the working text**; no span is nested deeper than four levels. -/
theorem reads_stashAll {text : List Char} (h : nul ∉ text) :
    ∃ ts, Reads (stashAll (protectedPatterns py) text) 4 text ts := by
  obtain ⟨_, hfences⟩ := (Reads.start h).stash fences_respect
  obtain ⟨_, hcode⟩ := hfences.stash inlineCode_respects
  obtain ⟨_, hurls⟩ := hcode.stash (urls_respects py)
  obtain ⟨_, hpaths⟩ := hurls.stash_flat (paths_respects py) (paths_avoids py)
  obtain ⟨_, hdotted⟩ := hpaths.stash_flat (dottedNames_respects py) (dottedNames_avoids py)
  obtain ⟨_, hcalls⟩ := hdotted.stash calls_respects
  obtain ⟨_, hnames⟩ := hcalls.stash_flat (underscoredNames_respects py)
    (underscoredNames_avoids py)
  obtain ⟨_, hcamel⟩ := hnames.stash_flat (camelNames_respects py) (camelNames_avoids py)
  rw [stashAll, protectedPatterns]
  simp only [List.foldl_cons, List.foldl_nil]
  exact hcamel.stash_flat (versions_respects py) (versions_avoids py)

/-! ## 4. The text that is left -/

theorem apply_trims {rs : List Rule} (h : ∀ rule ∈ rs, rule.Sound) (ts : List Tok) :
    ∃ kept, rs.foldl (fun s rule => rule.apply s) (renderAll ts) = renderAll kept ∧
      Trims ts kept := by
  induction rs generalizing ts with
  | nil => exact ⟨ts, rfl, Trims.refl ts⟩
  | cons rule rs ih =>
    obtain ⟨us, hus, htrims⟩ := (h rule List.mem_cons_self).trims ts
    obtain ⟨kept, hkept, htrims'⟩ := ih (fun r hr => h r (List.mem_cons_of_mem rule hr)) us
    refine ⟨kept, ?_, htrims.trans htrims'⟩
    rw [List.foldl_cons, hus, hkept]

theorem isSpace_nul : isSpace nul = false := by decide

/-- White space goes. -/
theorem trims_nil {ts : List Tok} (h : ∀ c ∈ renderAll ts, isSpace c = true) : Trims ts [] := by
  have hnul : nul ∉ renderAll ts := fun hmem => by
    have hspace := h nul hmem
    rw [isSpace_nul] at hspace
    cases hspace
  have hlits := eq_lits_of_not_mem hnul
  refine ⟨List.nil_sublist _, ?_, fun t ht => absurd ht List.not_mem_nil⟩
  rw [hlits, filter_lits]
  simp only [Tok.isSpan, List.filter_false, List.map_nil, List.filter_nil]

theorem strip_trims (ts : List Tok) :
    ∃ kept, stripBy isSpace (renderAll ts) = renderAll kept ∧ Trims ts kept := by
  obtain ⟨lead, trail, hstrip, hspace⟩ := stripBy_spec isSpace (renderAll ts)
  have hnot : nul ∉ lead ++ trail := fun hmem => by
    have hnul := hspace nul hmem
    rw [isSpace_nul] at hnul
    cases hnul
  rw [List.mem_append, not_or] at hnot
  rw [List.append_assoc] at hstrip
  obtain ⟨front, back, rfl, rfl, hback⟩ := (split_render hstrip).resolve_right fun hwithin =>
    hnot.1 (nul_mem_of_within hwithin)
  have hnotWithin : ¬ Within (stripBy isSpace (renderAll (front ++ back))) trail := by
    rintro ⟨_, _, _, _, -, htrail, -⟩
    exact hnot.2 (htrail ▸ List.mem_append_right _ List.mem_cons_self)
  obtain ⟨kept, behind, rfl, hkept, rfl⟩ := (split_render hback.symm).resolve_right hnotWithin
  have hfront := trims_nil fun c hc => hspace c (List.mem_append_left _ hc)
  have hbehind := trims_nil fun c hc => hspace c (List.mem_append_right _ hc)
  refine ⟨kept, hkept, ?_⟩
  have htrims := hfront.append ((Trims.refl kept).append hbehind)
  rwa [List.nil_append, List.append_nil] at htrims

theorem compressProse_trims (ts : List Tok) :
    ∃ kept, compressProse py (renderAll ts) = renderAll kept ∧ Trims ts kept := by
  obtain ⟨us, hus, htrims⟩ := apply_trims (rules_sound py) ts
  obtain ⟨kept, hkept, htrims'⟩ := strip_trims us
  refine ⟨kept, ?_, htrims.trans htrims'⟩
  rw [compressProse, hus, hkept]

theorem filter_flattenAll (ts : List Tok) :
    (flattenAll ts).filter (fun c => !isSpace c) =
      (flattenAll (ts.filter fun t => !t.isBlank)).filter fun c => !isSpace c := by
  induction ts with
  | nil => rfl
  | cons t ts ih =>
    rw [flattenAll, List.filter_append, ih, List.filter_cons]
    split
    · rw [flattenAll, List.filter_append]
    · next hblank =>
      cases t with
      | span n inner => exact absurd rfl hblank
      | lit c =>
        have hspace : (!isSpace c) = false := Bool.eq_false_iff.mpr hblank
        rw [Tok.flatten, List.filter_singleton, hspace, cond_false, List.nil_append]

theorem flattenAll_sublist {ts us : List Tok} (h : us.Sublist ts) :
    (flattenAll us).Sublist (flattenAll ts) := by
  induction h with
  | slnil => exact List.Sublist.refl _
  | cons t _ ih =>
    rw [flattenAll]
    exact ih.trans (List.sublist_append_right _ _)
  | cons_cons t _ ih =>
    rw [flattenAll, flattenAll]
    exact (List.Sublist.refl _).append ih

theorem Trims.flattenAll {ts kept : List Tok} (h : Trims ts kept) :
    ((flattenAll kept).filter fun c => !isSpace c).Sublist
      ((flattenAll ts).filter fun c => !isSpace c) := by
  rw [filter_flattenAll kept, filter_flattenAll ts]
  exact (flattenAll_sublist h.deletes).filter _

theorem Trims.stored {ts kept : List Tok} (h : Trims ts kept) {segments : List (List Char)}
    {depth : Nat} (hstored : ∀ t ∈ ts, Stored segments depth t) :
    ∀ t ∈ kept, Stored segments depth t := by
  intro t ht
  rcases h.clean t ht with hold | ⟨c, hc, rfl⟩
  · exact hstored t hold
  · exact .lit hc

theorem nul_not_mem_flattenAll {ts : List Tok} (h : ∀ t ∈ ts, nul ∉ t.flatten) :
    nul ∉ flattenAll ts := by
  induction ts with
  | nil => exact List.not_mem_nil
  | cons t ts ih =>
    rw [ProseCompress.flattenAll, List.mem_append, not_or]
    exact ⟨h t List.mem_cons_self, ih fun t' ht' => h t' (List.mem_cons_of_mem t ht')⟩

theorem Stored.nul_not_mem {segments : List (List Char)} {depth : Nat} {t : Tok}
    (h : Stored segments depth t) : nul ∉ t.flatten := by
  induction h with
  | lit hc => exact fun hmem => hc (List.mem_singleton.mp hmem).symm
  | span _ _ ih =>
    rw [Tok.flatten]
    exact nul_not_mem_flattenAll ih

theorem flatten_within {ts : List Tok} {t : Tok} (h : t ∈ ts) : t.flatten <:+: flattenAll ts := by
  obtain ⟨front, back, rfl⟩ := List.append_of_mem h
  rw [flattenAll_append, ProseCompress.flattenAll, ← List.append_assoc]
  exact List.infix_append _ _ _

theorem mem_numbersAll {ts : List Tok} {n : Nat} (h : n ∈ numbersAll ts) :
    ∃ t ∈ ts, n ∈ t.numbers := by
  induction ts with
  | nil => cases h
  | cons t ts ih =>
    rw [numbersAll] at h
    rcases List.mem_append.mp h with hfirst | hrest
    · exact ⟨t, List.mem_cons_self, hfirst⟩
    · obtain ⟨t', ht', hmem⟩ := ih hrest
      exact ⟨t', List.mem_cons_of_mem t ht', hmem⟩

/-- A span in a token, at any level: its segment and its place. -/
theorem Stored.segment {segments : List (List Char)} {depth : Nat} {t : Tok}
    (h : Stored segments depth t) {n : Nat} (hn : n ∈ t.numbers) :
    ∃ inner, segments[n]? = some (renderAll inner) ∧
      (∀ u ∈ inner, Stored segments depth u) ∧ ProseCompress.flattenAll inner <:+: t.flatten := by
  induction h with
  | lit => cases hn
  | @span depth m inner hsegment hinner ih =>
    rw [Tok.numbers] at hn
    rw [Tok.flatten]
    rcases List.mem_cons.mp hn with rfl | hdeep
    · refine ⟨inner, hsegment, fun u hu => ?_, List.infix_refl _⟩
      have hup : Stored (segments ++ []) (depth + 1) u := (hinner u hu).mono (Nat.le_succ _)
      rwa [List.append_nil] at hup
    · obtain ⟨u, hu, hnumber⟩ := mem_numbersAll hdeep
      obtain ⟨inner', hsegment', hstored, hinfix⟩ := ih u hu hnumber
      refine ⟨inner', hsegment', fun v hv => ?_, hinfix.trans (flatten_within hu)⟩
      have hup : Stored (segments ++ []) (depth + 1) v := (hstored v hv).mono (Nat.le_succ _)
      rwa [List.append_nil] at hup

/-! ## 5. Compressing only deletes -/

theorem withProtectedSegments_eq (text : List Char) (transform : List Char → List Char) :
    withProtectedSegments py text transform =
      restoreLoop py (stashAll (protectedPatterns py) text).2 maxRestorePasses
        (transform (stashAll (protectedPatterns py) text).1) := by
  rw [withProtectedSegments]

theorem stashAll_nil (patterns : List (Regex Char)) : stashAll patterns [] = ([], []) := by
  rw [stashAll]
  induction patterns with
  | nil => rfl
  | cons pattern patterns ih => exact ih

theorem compressProse_nil : compressProse py [] = [] := by
  have hrules : ∀ rs : List Rule, rs.foldl (fun s rule => rule.apply s) [] = [] := by
    intro rs
    induction rs with
    | nil => rfl
    | cons rule rs ih => exact ih
  rw [compressProse, hrules]
  rfl

theorem compressText_eq (text : List Char) :
    compressText py text =
      withProtectedSegments py (text.filter fun c => c ≠ nul) (compressProse py) := by
  rw [compressText, compress]
  split
  · next hempty =>
    rw [hempty, List.filter_nil, withProtectedSegments_eq, stashAll_nil, compressProse_nil]
    have hrestored : restoreLoop py [] maxRestorePasses [] = [] :=
      @restoreLoop_render py [] maxRestorePasses [] fun t ht => absurd ht List.not_mem_nil
    simp only [hrestored]
  · dsimp only

/-- What is stashed of a text. -/
def stashed (text : List Char) : Stash :=
  stashAll (protectedPatterns py) (text.filter fun c => c ≠ nul)

/-- **Compressing a text only deletes.** -/
structure OnlyDeletes (text : List Char) : Prop where
  /-- what is no white space is left over from the text, in its order -/
  deletes : ((compressText py text).filter fun c => !isSpace c).Sublist
    (text.filter fun c => !isSpace c)
  /-- the stashed spans, within one another as they were found, are in the outcome as they are in
      the text, each in its place -/
  spans : ∃ depth ts kept, Reads (stashed py text) depth (text.filter fun c => c ≠ nul) ts ∧
    Trims ts kept ∧ flattenAll kept = compressText py text
  /-- so the text of every segment is there -/
  segments : ∀ segment ∈ (stashed py text).2,
    restoreLoop py (stashed py text).2 maxRestorePasses segment <:+: compressText py text
  noSentinel : nul ∉ compressText py text

/-- The tokens before and after. -/
theorem compressText_trims (text : List Char) :
    ∃ ts kept, Reads (stashed py text) 4 (text.filter fun c => c ≠ nul) ts ∧ Trims ts kept ∧
      compressProse py (renderAll ts) = renderAll kept ∧
        flattenAll kept = compressText py text := by
  have hclean : nul ∉ text.filter fun c => c ≠ nul := fun hmem =>
    of_decide_eq_true (List.mem_filter.mp hmem).2 rfl
  obtain ⟨ts, hreads⟩ := reads_stashAll py hclean
  obtain ⟨kept, hkept, htrims⟩ := compressProse_trims py ts
  refine ⟨ts, kept, hreads, htrims, hkept, ?_⟩
  have hstored : ∀ t ∈ kept, Stored (stashed py text).2 maxRestorePasses t := fun t ht => by
    have hup : Stored ((stashed py text).2 ++ []) maxRestorePasses t :=
      (htrims.stored hreads.stored t ht).mono (by decide)
    rwa [List.append_nil] at hup
  rw [compressText_eq, withProtectedSegments_eq, ← restoreLoop_render hstored, ← hkept,
    ← hreads.working, stashed]

theorem compressText_onlyDeletes (text : List Char) : OnlyDeletes py text := by
  obtain ⟨ts, kept, hreads, htrims, -, hout⟩ := compressText_trims py text
  have hstored := htrims.stored hreads.stored
  refine ⟨?_, ⟨4, ts, kept, hreads, htrims, hout⟩, fun segment hsegment => ?_, ?_⟩
  · rw [← hout]
    refine htrims.flattenAll.trans ?_
    rw [hreads.text]
    exact List.filter_sublist.filter _
  · obtain ⟨n, hn, heq⟩ := List.mem_iff_getElem.mp hsegment
    obtain ⟨t, ht, hnumber⟩ := mem_numbersAll (hreads.numbers.mem_iff.mpr (List.mem_range.mpr hn))
    obtain ⟨inner, hinner, hdeep, hinfix⟩ := (hreads.stored t ht).segment hnumber
    have hspan : t ∈ kept := by
      have hmem : t ∈ ts.filter Tok.isSpan := by
        refine List.mem_filter.mpr ⟨ht, ?_⟩
        cases t with
        | lit c => cases hnumber
        | span n inner => rfl
      rw [← htrims.spans] at hmem
      exact (List.mem_filter.mp hmem).1
    rw [List.getElem?_eq_getElem hn, heq] at hinner
    rw [Option.some.inj hinner, restoreLoop_render, ← hout]
    · exact hinfix.trans (flatten_within hspan)
    · intro u hu
      have hup : Stored ((stashed py text).2 ++ []) maxRestorePasses u :=
        (hdeep u hu).mono (by decide)
      rwa [List.append_nil] at hup
  · rw [← hout]
    exact nul_not_mem_flattenAll fun t ht => (hstored t ht).nul_not_mem

end

end TokenProxy.ProseCompress
