/-
  TokenProxy/PromptCompaction.lean
  ================================
  **Compacting a system prompt** (`_split_blocks`, `_head_tail_chars`, `_compact_to_tokens`,
  `g16_agent_arch.py`).

  A prompt over its limit loses its middle.  It is taken apart into paragraphs, lines and
  sentences, and the blocks of both ends share what the marker leaves of the limit.  When one of
  the two outermost blocks is too large for that, the other end takes everything, and the marker
  stands at the edge of the prompt.

  What comes back is kept in its parts, and `Shortened.text` is the string that the code returns.

  Main result: `compactToTokens_compacted`, when both ends survive, within the limit.
-/
import TokenProxy.TwoEnds

namespace TokenProxy.PromptCompaction

open TokenProxy.TwoEnds (Filled fillEnds)

/-- `estimate_tokens` of a model. -/
structure Counter where
  count : List Char → Nat
  count_nil : count [] = 0
  count_append_le : ∀ a b, count (a ++ b) ≤ count a + count b

/-! ## 1. Blocks -/

/-- `u.split(sep)`: `skip` characters of a separator are still to come, and `part` is the part so
    far. -/
def splitFrom (sep : List Char) : Nat → List Char → List Char → List (List Char)
  | _, part, [] => [part]
  | skip + 1, part, _ :: rest => splitFrom sep skip part rest
  | 0, part, c :: rest =>
    if sep.isPrefixOf (c :: rest) then part :: splitFrom sep (sep.length - 1) [] rest
    else splitFrom sep 0 (part ++ [c]) rest

/-- A unit taken apart behind each separator. -/
def refine (sep u : List Char) : List (List Char) :=
  let parts := splitFrom sep 0 [] u
  (parts.dropLast.map fun part => part ++ sep) ++ parts.getLast?.toList

def blockSeparators : List (List Char) := ["\n\n".toList, "\n".toList, ". ".toList]

/-- The slices of a long unit: `room` is what is left of the slice so far. -/
def hardSlice (maxUnitChars : Nat) : Nat → List Char → List Char → List (List Char)
  | _, slice, [] => if slice = [] then [] else [slice]
  | 0, slice, c :: rest => slice :: hardSlice maxUnitChars (maxUnitChars - 1) [c] rest
  | room + 1, slice, c :: rest => hardSlice maxUnitChars room (slice ++ [c]) rest

/-- `_split_blocks` -/
def splitBlocks (text : List Char) (maxUnitChars : Nat) : List (List Char) :=
  (blockSeparators.foldl (fun units sep => units.flatMap (refine sep)) [text]).flatMap
    fun u => hardSlice maxUnitChars maxUnitChars [] u

/-! ## 2. The marker -/

def elisionBegin : List Char := "\n\n[… ".toList

def elisionEnd : List Char :=
  "-token limit; the opening and closing instructions are intact …]\n\n".toList

/-- `_ELISION.format(n=n, cap=cap)` -/
def elision (n cap : Nat) : List Char :=
  elisionBegin ++ (toString n).toList ++
    " token(s) omitted from the middle of this system prompt to fit the ".toList ++
    (toString cap).toList ++ elisionEnd

/-- `_ELISION_PLAIN` -/
def elisionPlain : List Char := " […] ".toList

/-- What is left of a text. -/
inductive Shortened where
  | whole (text : List Char)
  /-- the two ends around a marker -/
  | cut (head marker tail : List Char)
  | ending (tail : List Char)
  | nothing

/-- The string. -/
def Shortened.text : Shortened → List Char
  | .whole text => text
  | .cut head marker tail => head ++ marker ++ tail
  | .ending tail => tail
  | .nothing => []

section

variable (counter : Counter)

/-! ## 3. Characters -/

/-- The numbers of characters that are tried, `keep` first. -/
def keeps (keep : Nat) : List Nat :=
  if 0 < keep then keep :: keeps (if 50 < keep then keep - 50 else keep - 1) else []
termination_by keep
decreasing_by split <;> omega

/-- The two ends of a text for so many characters; disjoint, also when the text has fewer. -/
def charEnds (text : List Char) (keep : Nat) : List Char × List Char :=
  let half := keep / 2
  let tailLen := keep - half
  if text.length < half + tailLen then
    (text.take (text.length / 2), text.drop (text.length - (text.length - text.length / 2)))
  else (text.take half, text.drop (text.length - tailLen))

/-- The end of a text, shortened until it fits. -/
def keepEnd (maxTokens : Nat) (out : List Char) : List Char :=
  if out ≠ [] ∧ maxTokens < counter.count out then
    keepEnd maxTokens (if 50 < out.length then out.drop 50 else out.drop 1)
  else out
termination_by out.length
decreasing_by
  have hpos := List.length_pos_iff.mpr ‹out ≠ [] ∧ maxTokens < counter.count out›.1
  split
  · rw [List.length_drop]
    omega
  · rw [List.length_drop]
    omega

/-- `_head_tail_chars` -/
def headTailChars (text : List Char) (maxTokens : Nat) : Shortened :=
  if maxTokens = 0 then .nothing
  else if maxTokens ≤ counter.count elisionPlain * 2 then
    .ending (keepEnd counter maxTokens (text.drop (text.length - maxTokens * 4)))
  else
    ((keeps (maxTokens * 4)).findSome? fun keep =>
      let out := Shortened.cut (charEnds text keep).1 elisionPlain (charEnds text keep).2
      if counter.count out.text ≤ maxTokens then some out else none).getD .nothing

/-! ## 4. Compaction -/

/-- What the marker is reckoned to cost. -/
def markerCost (text : List Char) (maxTokens : Nat) : Nat :=
  counter.count (elision text.length maxTokens)

/-- The blocks of a text with this limit. -/
def blocksFor (text : List Char) (maxTokens : Nat) : List (List Char) :=
  splitBlocks text (Nat.max 400 ((maxTokens - markerCost counter text maxTokens) * 2))

/-- `_compact_to_tokens` -/
def compactToTokens (text : List Char) (maxTokens : Nat) : Shortened :=
  if maxTokens = 0 then .nothing
  else if counter.count text ≤ maxTokens then .whole text
  else if maxTokens ≤ markerCost counter text maxTokens then headTailChars counter text maxTokens
  else
    let budget := maxTokens - markerCost counter text maxTokens
    let blocks := blocksFor counter text maxTokens
    if blocks.length < 3 then headTailChars counter text maxTokens
    else
      let ends := fillEnds counter.count budget blocks
      if ends.head = [] ∧ ends.tail = [] then headTailChars counter text maxTokens
      else
        let dropped := counter.count ends.middle.flatten
        .cut ends.head.flatten (elision dropped maxTokens) ends.tail.flatten

/-- One of the two markers. -/
def IsMarker (cap : Nat) (marker : List Char) : Prop :=
  marker = elisionPlain ∨ ∃ n, marker = elision n cap

/-- Two ends of the text around a marker, within the limit. -/
def BothEnds (text : List Char) (maxTokens : Nat) (out : Shortened) : Prop :=
  ∃ head middle tail marker, head ≠ [] ∧ tail ≠ [] ∧ text = head ++ middle ++ tail ∧
    IsMarker maxTokens marker ∧ out = .cut head marker tail ∧ counter.count out.text ≤ maxTokens

/-- The text as it is, if it fits; else what is left of both its ends. -/
def Compacted (text : List Char) (maxTokens : Nat) (out : Shortened) : Prop :=
  if counter.count text ≤ maxTokens then out.text = text else BothEnds counter text maxTokens out

/-- The first and the last characters of a text, `n` in all. -/
def outermost (text : List Char) (n : Nat) : List Char × List Char :=
  (text.take (n / 2), text.drop (text.length - (n - n / 2)))

/-- The plain marker takes less than half of the limit, and around it fit the outermost characters:
    four for each token of the limit, or fewer by fifties, or any number of the last fifty. -/
def CharsFit (text : List Char) (maxTokens : Nat) : Prop :=
  counter.count elisionPlain * 2 < maxTokens ∧ 2 ≤ text.length ∧
    ∃ keep, 2 ≤ keep ∧ keep ≤ maxTokens * 4 ∧
      (50 ∣ maxTokens * 4 - keep ∨ keep ≤ (maxTokens * 4 - 1) % 50 + 1) ∧
      counter.count ((outermost text (min keep text.length)).1 ++ elisionPlain ++
        (outermost text (min keep text.length)).2) ≤ maxTokens

/-- There are blocks between the first and the last, and one of these two fits. -/
def ByBlocks (text : List Char) (maxTokens : Nat) : Prop :=
  let budget := maxTokens - markerCost counter text maxTokens
  let blocks := blocksFor counter text maxTokens
  3 ≤ blocks.length ∧
    (counter.count (blocks.headD []) ≤ budget ∨ counter.count (blocks.getLastD []) ≤ budget)

instance (text : List Char) (maxTokens : Nat) : Decidable (ByBlocks counter text maxTokens) :=
  inferInstanceAs (Decidable (_ ∧ (_ ∨ _)))

/-- The first and the last block fit side by side; the outermost characters where it does not go
    by blocks. -/
def EndsFit (text : List Char) (maxTokens : Nat) : Prop :=
  if ByBlocks counter text maxTokens then
    counter.count ((blocksFor counter text maxTokens).headD []) +
        counter.count ((blocksFor counter text maxTokens).getLastD []) ≤
      maxTokens - markerCost counter text maxTokens
  else CharsFit counter text maxTokens

/-- The blocks that are taken from the two ends and the marker that says what is dropped cost no
    more than the limit. -/
def MarkerCovered (text : List Char) (maxTokens : Nat) : Prop :=
  ByBlocks counter text maxTokens →
    let ends := fillEnds counter.count (maxTokens - markerCost counter text maxTokens)
      (blocksFor counter text maxTokens)
    ends.used + counter.count (elision (counter.count ends.middle.flatten) maxTokens) ≤ maxTokens

end

/-! ## 5. The blocks are the text -/

theorem splitFrom_ne_nil (sep : List Char) (skip : Nat) (part u : List Char) :
    splitFrom sep skip part u ≠ [] := by
  fun_induction splitFrom sep skip part u with
  | case1 skip part => exact List.cons_ne_nil part []
  | case2 skip part c rest ih => exact ih
  | case3 part c rest hsep ih => exact List.cons_ne_nil part _
  | case4 part c rest hsep ih => exact ih

/-- The parts of a text with the separators put back. -/
def rejoin (sep : List Char) (parts : List (List Char)) : List Char :=
  ((parts.dropLast.map fun part => part ++ sep) ++ parts.getLast?.toList).flatten

theorem rejoin_cons {sep part : List Char} {parts : List (List Char)} (h : parts ≠ []) :
    rejoin sep (part :: parts) = part ++ sep ++ rejoin sep parts := by
  obtain ⟨next, rest, rfl⟩ := List.exists_cons_of_ne_nil h
  rw [rejoin, rejoin, List.dropLast_cons_cons, List.getLast?_cons_cons, List.map_cons,
    List.cons_append, List.flatten_cons]

theorem rejoin_splitFrom {sep : List Char} (hsep : sep ≠ []) (skip : Nat) (part u : List Char) :
    rejoin sep (splitFrom sep skip part u) = part ++ u.drop skip := by
  fun_induction splitFrom sep skip part u with
  | case1 skip part =>
    rw [List.drop_nil, List.append_nil]
    exact List.append_nil part
  | case2 skip part c rest ih => rw [ih, List.drop_succ_cons]
  | case3 part c rest hfound ih =>
    obtain ⟨more, hmore⟩ := List.isPrefixOf_iff_prefix.mp hfound
    obtain ⟨s, sep', rfl⟩ := List.exists_cons_of_ne_nil hsep
    rw [List.cons_append, List.cons.injEq] at hmore
    rw [rejoin_cons (splitFrom_ne_nil _ _ _ _), ih, List.drop_zero, ← hmore.1, ← hmore.2,
      List.length_cons, Nat.add_sub_cancel, List.drop_left, List.nil_append, List.append_assoc,
      List.cons_append]
  | case4 part c rest hnot ih =>
    rw [ih, List.drop_zero, List.drop_zero, List.append_assoc, List.singleton_append]

theorem refine_flatten {sep : List Char} (hsep : sep ≠ []) (u : List Char) :
    (refine sep u).flatten = u :=
  rejoin_splitFrom hsep 0 [] u

theorem hardSlice_flatten (maxUnitChars room : Nat) (slice u : List Char) :
    (hardSlice maxUnitChars room slice u).flatten = slice ++ u := by
  fun_induction hardSlice maxUnitChars room slice u with
  | case1 room => rfl
  | case2 room slice hne => rw [List.flatten_singleton, List.append_nil]
  | case3 slice c rest ih => rw [List.flatten_cons, ih, List.singleton_append]
  | case4 room slice c rest ih => rw [ih, List.append_assoc, List.singleton_append]

theorem ne_nil_of_mem_hardSlice {maxUnitChars room : Nat} {slice u : List Char}
    (hmax : 0 < maxUnitChars) (hroom : slice.length + room = maxUnitChars) :
    ∀ block ∈ hardSlice maxUnitChars room slice u, block ≠ [] := by
  fun_induction hardSlice maxUnitChars room slice u with
  | case1 room =>
    intro block hblock
    cases hblock
  | case2 room slice hne =>
    intro block hblock
    rw [List.mem_singleton.mp hblock]
    exact hne
  | case3 slice c rest ih =>
    intro block hblock
    rcases List.mem_cons.mp hblock with rfl | hblock
    · rw [← List.length_pos_iff]
      omega
    · exact ih (by rw [List.length_singleton]; omega) block hblock
  | case4 room slice c rest ih =>
    exact ih (by rw [List.length_append, List.length_singleton]; omega)

theorem flatten_flatMap {units : List (List Char)} {split : List Char → List (List Char)}
    (h : ∀ u, (split u).flatten = u) : (units.flatMap split).flatten = units.flatten := by
  induction units with
  | nil => rfl
  | cons u units ih => rw [List.flatMap_cons, List.flatten_append, h, ih, List.flatten_cons]

theorem splitBlocks_flatten (text : List Char) (maxUnitChars : Nat) :
    (splitBlocks text maxUnitChars).flatten = text := by
  rw [splitBlocks, flatten_flatMap fun u => hardSlice_flatten maxUnitChars maxUnitChars [] u,
    blockSeparators, List.foldl_cons, List.foldl_cons, List.foldl_cons, List.foldl_nil,
    flatten_flatMap (refine_flatten (by decide)), flatten_flatMap (refine_flatten (by decide)),
    flatten_flatMap (refine_flatten (by decide)), List.flatten_singleton]

theorem ne_nil_of_mem_splitBlocks {text : List Char} {maxUnitChars : Nat}
    (hmax : 0 < maxUnitChars) : ∀ block ∈ splitBlocks text maxUnitChars, block ≠ [] := by
  intro block hblock
  obtain ⟨u, -, hblock⟩ := List.mem_flatMap.mp hblock
  exact ne_nil_of_mem_hardSlice hmax (Nat.zero_add _) block hblock

/-! ## 6. The ends of a text -/

theorem le_of_mem_keeps {keep k : Nat} (h : k ∈ keeps keep) : k ≤ keep := by
  fun_induction keeps keep with
  | case1 keep hpos ih =>
    rcases List.mem_cons.mp h with rfl | h
    · exact Nat.le_refl k
    · have hle := ih h
      split at hle <;> omega
  | case2 keep hzero => cases h

/-- Ever fewer characters are tried. -/
theorem keeps_pairwise (keep : Nat) : (keeps keep).Pairwise fun a b => b < a := by
  fun_induction keeps keep with
  | case1 keep hpos ih =>
    refine List.pairwise_cons.mpr ⟨fun k hk => ?_, ih⟩
    have hle := le_of_mem_keeps hk
    split at hle <;> omega
  | case2 keep hzero => exact List.Pairwise.nil

/-- The numbers that are tried: by fifties, and the last fifty one by one. -/
theorem mem_keeps_iff {keep k : Nat} :
    k ∈ keeps keep ↔ 0 < k ∧ k ≤ keep ∧ (50 ∣ keep - k ∨ k ≤ (keep - 1) % 50 + 1) := by
  fun_induction keeps keep with
  | case1 keep hpos ih =>
    simp only [dite_eq_ite] at ih
    rw [List.mem_cons, ih]
    split <;> omega
  | case2 keep hzero =>
    constructor
    · intro h
      cases h
    · omega

theorem charEnds_eq (text : List Char) (keep : Nat) :
    charEnds text keep = outermost text (min keep text.length) := by
  rw [charEnds, outermost]
  split
  · rename_i hshort
    rw [Nat.min_eq_right (by omega)]
  · rename_i hlong
    rw [Nat.min_eq_left (by omega)]

theorem charEnds_split (text : List Char) (keep : Nat) :
    ∃ middle, text = (charEnds text keep).1 ++ middle ++ (charEnds text keep).2 := by
  have hsplit : ∀ a b, a ≤ b → ∃ middle, text = text.take a ++ middle ++ text.drop b := by
    intro a b hab
    refine ⟨(text.drop a).take (b - a), ?_⟩
    have hrest := List.take_append_drop (b - a) (text.drop a)
    rw [List.drop_drop, Nat.add_sub_cancel' hab] at hrest
    rw [List.append_assoc, hrest, List.take_append_drop]
  rw [charEnds]
  split
  · exact hsplit _ _ (by omega)
  · exact hsplit _ _ (by omega)

theorem charEnds_ne_nil {text : List Char} {keep : Nat} (hkeep : 2 ≤ keep)
    (htext : 2 ≤ text.length) : (charEnds text keep).1 ≠ [] ∧ (charEnds text keep).2 ≠ [] := by
  rw [← List.length_pos_iff, ← List.length_pos_iff, charEnds]
  split
  · rw [List.length_take, List.length_drop]
    omega
  · rw [List.length_take, List.length_drop]
    omega

theorem two_le_of_charEnds_ne_nil {text : List Char} {keep : Nat}
    (h : (charEnds text keep).1 ≠ []) : 2 ≤ keep ∧ 2 ≤ text.length := by
  rw [← List.length_pos_iff, charEnds] at h
  split at h
  · rw [List.length_take] at h
    omega
  · rw [List.length_take] at h
    omega

section

variable {counter : Counter} {text : List Char} {maxTokens : Nat}

/-! ## 7. Character by character -/

theorem bothEnds_headTailChars_iff (hpos : 0 < maxTokens) :
    BothEnds counter text maxTokens (headTailChars counter text maxTokens) ↔
      CharsFit counter text maxTokens := by
  rw [headTailChars, if_neg (Nat.ne_of_gt hpos), CharsFit]
  by_cases hplain : maxTokens ≤ counter.count elisionPlain * 2
  · rw [if_pos hplain]
    constructor
    · rintro ⟨head, middle, tail, marker, -, -, -, -, hout, -⟩
      cases hout
    · intro h
      omega
  · rw [if_neg hplain, and_iff_right (Nat.not_le.mp hplain)]
    cases hfound : (keeps (maxTokens * 4)).findSome? fun keep =>
        let out := Shortened.cut (charEnds text keep).1 elisionPlain (charEnds text keep).2
        if counter.count out.text ≤ maxTokens then some out else none with
    | none =>
      constructor
      · rintro ⟨head, middle, tail, marker, -, -, -, -, hout, -⟩
        cases hout
      · rintro ⟨-, keep, htwo, hle, htried, hfits⟩
        have hnone := List.findSome?_eq_none_iff.mp hfound keep
          (mem_keeps_iff.mpr ⟨by omega, hle, htried⟩)
        rw [← charEnds_eq] at hfits
        dsimp only at hnone
        rw [if_pos (show counter.count (Shortened.text (.cut _ _ _)) ≤ maxTokens from hfits)]
          at hnone
        cases hnone
    | some out =>
      obtain ⟨before, keep, after, hkeeps, hkeep, hnone⟩ := List.findSome?_eq_some_iff.mp hfound
      dsimp only at hkeep
      split at hkeep
      · rename_i hshort
        cases hkeep
        have hmem : keep ∈ keeps (maxTokens * 4) := by
          rw [hkeeps]
          exact List.mem_append_right _ List.mem_cons_self
        obtain ⟨middle, hsplit⟩ := charEnds_split text keep
        constructor
        · rintro ⟨head, middle', tail, marker, hhead, -, -, -, hout, -⟩
          injection hout with hfirst hmarker hlast
          subst hfirst
          obtain ⟨htwo, hlong⟩ := two_le_of_charEnds_ne_nil hhead
          obtain ⟨-, hle, htried⟩ := mem_keeps_iff.mp hmem
          exact ⟨hlong, keep, htwo, hle, htried, by rw [← charEnds_eq]; exact hshort⟩
        · rintro ⟨hlong, k, htwo, hle, htried, hfits⟩
          -- what fits further behind is shorter
          have hkeepTwo : 2 ≤ keep := by
            have hk : k ∈ keeps (maxTokens * 4) := mem_keeps_iff.mpr ⟨by omega, hle, htried⟩
            rw [hkeeps] at hk
            rcases List.mem_append.mp hk with hk | hk
            · have hk' := hnone k hk
              rw [← charEnds_eq] at hfits
              dsimp only at hk'
              rw [if_pos (show counter.count (Shortened.text (.cut _ _ _)) ≤ maxTokens from hfits)]
                at hk'
              cases hk'
            · rcases List.mem_cons.mp hk with rfl | hk
              · exact htwo
              · have hdown := keeps_pairwise (maxTokens * 4)
                rw [hkeeps, List.pairwise_append, List.pairwise_cons] at hdown
                have hlt := hdown.2.1.1 k hk
                omega
          obtain ⟨hhead, htail⟩ := charEnds_ne_nil hkeepTwo hlong
          exact ⟨_, middle, _, elisionPlain, hhead, htail, hsplit, Or.inl rfl, rfl, hshort⟩
      · cases hkeep

theorem compacted_iff_bothEnds (hlong : ¬ counter.count text ≤ maxTokens) {out : Shortened} :
    Compacted counter text maxTokens out ↔ BothEnds counter text maxTokens out := by
  rw [Compacted, if_neg hlong]

/-! ## 8. Block by block -/

theorem count_flatten_le (counter : Counter) (blocks : List (List Char)) :
    counter.count blocks.flatten ≤ (blocks.map counter.count).sum := by
  induction blocks with
  | nil => exact Nat.le_of_eq counter.count_nil
  | cons block blocks ih =>
    have hle := counter.count_append_le block blocks.flatten
    rw [List.flatten_cons, List.map_cons, List.sum_cons]
    omega

/-- Three blocks or more: the two at the edges, and what is between them. -/
theorem exists_edges {blocks : List (List Char)} (h : 3 ≤ blocks.length) :
    ∃ first between last, blocks = first :: (between ++ [last]) := by
  cases blocks with
  | nil => simp at h
  | cons first rest =>
    rcases List.eq_nil_or_concat rest with rfl | ⟨between, last, rfl⟩
    · simp at h
    · exact ⟨first, between, last, by rw [List.concat_eq_append]⟩

/-- What the two ends take is not empty. -/
theorem flatten_ne_nil {ends : TwoEnds.Ends (List Char)}
    (hfilled : Filled counter.count (maxTokens - markerCost counter text maxTokens)
      (blocksFor counter text maxTokens) ends) {taken : List (List Char)} (hne : taken ≠ [])
    (hmem : ∀ block ∈ taken, block ∈ ends.head ++ ends.middle ++ ends.tail) :
    taken.flatten ≠ [] := by
  intro hnil
  obtain ⟨block, rest, rfl⟩ := List.exists_cons_of_ne_nil hne
  rw [List.flatten_cons, List.append_eq_nil_iff] at hnil
  have hblock := hmem block List.mem_cons_self
  rw [hfilled.split] at hblock
  exact ne_nil_of_mem_splitBlocks (Nat.lt_of_lt_of_le (by decide) (Nat.le_max_left 400 _)) block
    hblock hnil.1

/-- The blocks are an output of the kind wanted exactly if both ends take something and the whole
    is within the limit. -/
theorem bothEnds_filled_iff {ends : TwoEnds.Ends (List Char)}
    (hfilled : Filled counter.count (maxTokens - markerCost counter text maxTokens)
      (blocksFor counter text maxTokens) ends) (dropped : Nat) :
    BothEnds counter text maxTokens
        (.cut ends.head.flatten (elision dropped maxTokens) ends.tail.flatten) ↔
      (ends.head ≠ [] ∧ ends.tail ≠ []) ∧
        counter.count (ends.head.flatten ++ elision dropped maxTokens ++ ends.tail.flatten) ≤
          maxTokens := by
  constructor
  · rintro ⟨head, middle, tail, marker, hhead, htail, -, -, hout, hfits⟩
    injection hout with hfirst hmarker hlast
    subst hfirst hlast
    refine ⟨⟨?_, ?_⟩, hfits⟩
    · intro hnil
      exact hhead (by rw [hnil, List.flatten_nil])
    · intro hnil
      exact htail (by rw [hnil, List.flatten_nil])
  · rintro ⟨⟨hhead, htail⟩, hfits⟩
    refine ⟨_, ends.middle.flatten, _, _, flatten_ne_nil hfilled hhead ?_,
      flatten_ne_nil hfilled htail ?_, ?_, Or.inr ⟨dropped, rfl⟩, rfl, hfits⟩
    · intro block hblock
      exact List.mem_append_left _ (List.mem_append_left _ hblock)
    · intro block hblock
      exact List.mem_append_right _ hblock
    · rw [← List.flatten_append, ← List.flatten_append, hfilled.split, blocksFor,
        splitBlocks_flatten]

/-- The joined text costs no more than its parts. -/
theorem count_joined_le {ends : TwoEnds.Ends (List Char)} {budget : Nat}
    {blocks : List (List Char)} (hfilled : Filled counter.count budget blocks ends)
    (marker : List Char) :
    counter.count (ends.head.flatten ++ marker ++ ends.tail.flatten) ≤
      ends.used + counter.count marker := by
  have hends := counter.count_append_le (ends.head.flatten ++ marker) ends.tail.flatten
  have hfront := counter.count_append_le ends.head.flatten marker
  have hheadCost := count_flatten_le counter ends.head
  have htailCost := count_flatten_le counter ends.tail
  have hused := hfilled.used
  omega

/-- And exactly as much, for a counter that adds up. -/
theorem count_joined_eq (hadds : ∀ a b, counter.count (a ++ b) = counter.count a + counter.count b)
    {ends : TwoEnds.Ends (List Char)} {budget : Nat} {blocks : List (List Char)}
    (hfilled : Filled counter.count budget blocks ends) (marker : List Char) :
    counter.count (ends.head.flatten ++ marker ++ ends.tail.flatten) =
      ends.used + counter.count marker := by
  have hflatten : ∀ taken : List (List Char),
      counter.count taken.flatten = (taken.map counter.count).sum := by
    intro taken
    induction taken with
    | nil => exact counter.count_nil
    | cons block taken ih => rw [List.flatten_cons, hadds, ih, List.map_cons, List.sum_cons]
  rw [hadds, hadds, hflatten, hflatten, hfilled.used]
  omega

/-- The compaction of a text that does not fit, when the marker does. -/
theorem compactToTokens_eq (hlong : ¬ counter.count text ≤ maxTokens)
    (hmarker : markerCost counter text maxTokens < maxTokens) :
    compactToTokens counter text maxTokens =
      let ends := fillEnds counter.count (maxTokens - markerCost counter text maxTokens)
        (blocksFor counter text maxTokens)
      if (blocksFor counter text maxTokens).length < 3 ∨ ends.head = [] ∧ ends.tail = [] then
        headTailChars counter text maxTokens
      else .cut ends.head.flatten (elision (counter.count ends.middle.flatten) maxTokens)
        ends.tail.flatten := by
  rw [compactToTokens, if_neg (by omega), if_neg hlong, if_neg (by omega)]
  dsimp only
  split
  · next hfew => rw [if_pos (Or.inl hfew)]
  · next hmany =>
    split
    · next hnone => rw [if_pos (Or.inr hnone)]
    · next hsome => rw [if_neg fun h => h.elim hmany hsome]

/-- Where it goes by blocks, which ends take something; elsewhere the characters decide. -/
theorem compactToTokens_cases (hlong : ¬ counter.count text ≤ maxTokens)
    (hmarker : markerCost counter text maxTokens < maxTokens) :
    (ByBlocks counter text maxTokens ∧ ∃ ends,
      ends = fillEnds counter.count (maxTokens - markerCost counter text maxTokens)
        (blocksFor counter text maxTokens) ∧
      compactToTokens counter text maxTokens = .cut ends.head.flatten
        (elision (counter.count ends.middle.flatten) maxTokens) ends.tail.flatten ∧
      ((ends.head ≠ [] ∧ ends.tail ≠ []) ↔ EndsFit counter text maxTokens)) ∨
    (¬ ByBlocks counter text maxTokens ∧
      compactToTokens counter text maxTokens = headTailChars counter text maxTokens) := by
  rw [compactToTokens_eq hlong hmarker]
  dsimp only
  by_cases hmany : 3 ≤ (blocksFor counter text maxTokens).length
  · obtain ⟨first, between, last, hblocks⟩ := exists_edges hmany
    have hfirst : (blocksFor counter text maxTokens).headD [] = first := by
      rw [hblocks, List.headD_cons]
    have hlast : (blocksFor counter text maxTokens).getLastD [] = last := by
      rw [hblocks, ← List.cons_append, List.getLastD_concat]
    have hby : ByBlocks counter text maxTokens ↔
        counter.count first ≤ maxTokens - markerCost counter text maxTokens ∨
          counter.count last ≤ maxTokens - markerCost counter text maxTokens := by
      rw [ByBlocks, hfirst, hlast]
      exact and_iff_right hmany
    by_cases heither : ByBlocks counter text maxTokens
    · left
      refine ⟨heither, _, rfl, ?_⟩
      rw [EndsFit, if_pos heither, hfirst, hlast, hblocks]
      by_cases hboth : counter.count first + counter.count last ≤
          maxTokens - markerCost counter text maxTokens
      · obtain ⟨hhead, htail⟩ := @TwoEnds.both_ends _ counter.count _ first last between hboth
        rw [if_neg fun h => h.elim (by rw [← hblocks]; omega) fun hnone => hhead hnone.1]
        exact ⟨rfl, iff_of_true ⟨hhead, htail⟩ hboth⟩
      · rcases Nat.lt_or_ge (maxTokens - markerCost counter text maxTokens) (counter.count first)
          with hover | hfits
        · obtain ⟨hhead, htail⟩ := @TwoEnds.only_tail _ counter.count _ first last between hover
            ((hby.mp heither).resolve_left (Nat.not_le.mpr hover))
          rw [if_neg fun h => h.elim (by rw [← hblocks]; omega) fun hnone => htail hnone.2]
          exact ⟨rfl, iff_of_false (fun h => h.1 hhead) hboth⟩
        · obtain ⟨hhead, htail⟩ := @TwoEnds.only_head _ counter.count _ first last between hfits
            (Nat.not_le.mp hboth)
          rw [if_neg fun h => h.elim (by rw [← hblocks]; omega) fun hnone => hhead hnone.1]
          exact ⟨rfl, iff_of_false (fun h => h.2 htail) hboth⟩
    · right
      refine ⟨heither, ?_⟩
      rw [hby, not_or, Nat.not_le, Nat.not_le] at heither
      have hno := @TwoEnds.no_end _ counter.count _ first last between heither.1 heither.2
      rw [← hblocks] at hno
      rw [if_pos (Or.inr hno)]
  · right
    refine ⟨fun hby => hmany hby.1, ?_⟩
    rw [if_pos (Or.inl (Nat.not_le.mp hmany))]

/-- Both ends survive exactly where they fit, and where it goes by blocks the whole does. -/
theorem bothEnds_compactToTokens_iff (hlong : ¬ counter.count text ≤ maxTokens)
    (hmarker : markerCost counter text maxTokens < maxTokens) :
    BothEnds counter text maxTokens (compactToTokens counter text maxTokens) ↔
      EndsFit counter text maxTokens ∧ (ByBlocks counter text maxTokens →
        counter.count (compactToTokens counter text maxTokens).text ≤ maxTokens) := by
  rcases compactToTokens_cases hlong hmarker with ⟨hby, ends, hends, hout, htake⟩ | ⟨hby, hout⟩
  · have hfilled := TwoEnds.fill_spec counter.count
      (maxTokens - markerCost counter text maxTokens) (blocksFor counter text maxTokens)
    rw [← hends] at hfilled
    rw [hout, bothEnds_filled_iff hfilled, htake]
    exact and_congr_right fun _ => ⟨fun hfits _ => hfits, fun hfits => hfits hby⟩
  · rw [hout, bothEnds_headTailChars_iff (Nat.zero_lt_of_lt hmarker), EndsFit, if_neg hby]
    exact ⟨fun h => ⟨h, fun hblocks => absurd hblocks hby⟩, fun h => h.1⟩

/-- What goes by blocks costs no more than its parts, and as much for a counter that adds up. -/
theorem count_byBlocks (hlong : ¬ counter.count text ≤ maxTokens)
    (hmarker : markerCost counter text maxTokens < maxTokens)
    (hby : ByBlocks counter text maxTokens) :
    (MarkerCovered counter text maxTokens →
      counter.count (compactToTokens counter text maxTokens).text ≤ maxTokens) ∧
    ((∀ a b, counter.count (a ++ b) = counter.count a + counter.count b) →
      counter.count (compactToTokens counter text maxTokens).text ≤ maxTokens →
        MarkerCovered counter text maxTokens) := by
  rcases compactToTokens_cases hlong hmarker with ⟨-, ends, hends, hout, -⟩ | ⟨hnot, -⟩
  · have hfilled := TwoEnds.fill_spec counter.count
      (maxTokens - markerCost counter text maxTokens) (blocksFor counter text maxTokens)
    rw [← hends] at hfilled
    rw [hout, MarkerCovered, ← hends, Shortened.text]
    constructor
    · exact fun hcovered => Nat.le_trans (count_joined_le hfilled _) (hcovered hby)
    · intro hadds hjoined _
      rwa [count_joined_eq hadds hfilled] at hjoined
  · exact absurd hby hnot

end

/-- The estimate for a model without a tokenizer. -/
def quarters : Counter where
  count text := (text.length + 3) / 4
  count_nil := rfl
  count_append_le a b := by
    rw [List.length_append]
    omega

theorem count_quarters (text : List Char) : quarters.count text = (text.length + 3) / 4 := rfl

theorem length_elision_quarters : (elision 221 50).length = 143 := by
  have hbegin : elisionBegin = _ := String.toList_ofList
  have hmiddle : " token(s) omitted from the middle of this system prompt to fit the ".toList = _ :=
    String.toList_ofList
  have hend : elisionEnd = _ := String.toList_ofList
  rw [elision, hbegin, hmiddle, hend]
  rfl

theorem markerCost_quarters {text : List Char} (h : text.length = 221) :
    markerCost quarters text 50 = 36 := by
  rw [markerCost, h, count_quarters, length_elision_quarters]

theorem blocksFor_quarters {text : List Char} (h : text.length = 221) :
    blocksFor quarters text 50 = splitBlocks text 400 := by
  rw [blocksFor, markerCost_quarters h]
  rfl

def longMiddle : List Char :=
  "Be brief.\n\n".toList ++ List.replicate 200 'a' ++ "\n\nBe kind.".toList

/-- A number of fewer digits makes a shorter marker. -/
theorem length_elision_le {n n' : Nat}
    (h : (toString n).toList.length ≤ (toString n').toList.length) (cap : Nat) :
    (elision n cap).length ≤ (elision n' cap).length := by
  rw [elision, elision]
  simp only [List.length_append]
  omega

theorem elision_le_markerCost {n cap : Nat} {text : List Char}
    (h : (toString n).toList.length ≤ (toString text.length).toList.length) :
    quarters.count (elision n cap) ≤ markerCost quarters text cap := by
  rw [markerCost, count_quarters, count_quarters]
  exact Nat.div_le_div_right (Nat.add_le_add_right (length_elision_le h cap) 3)

theorem length_longMiddle : longMiddle.length = 221 := by decide +kernel

theorem markerCovered_longMiddle : MarkerCovered quarters longMiddle 50 := by
  intro _
  dsimp only
  have hfilled := TwoEnds.fill_spec quarters.count (50 - markerCost quarters longMiddle 50)
    (blocksFor quarters longMiddle 50)
  generalize fillEnds quarters.count (50 - markerCost quarters longMiddle 50)
    (blocksFor quarters longMiddle 50) = ends at *
  have hsplit := congrArg List.flatten hfilled.split
  rw [blocksFor, splitBlocks_flatten, List.flatten_append, List.flatten_append] at hsplit
  have hlength := congrArg List.length hsplit
  rw [length_longMiddle, List.length_append, List.length_append] at hlength
  have hdigits : ∀ n < 57, (toString n).toList.length ≤ (toString 221).toList.length := by
    decide +kernel
  have hmore := hdigits ((ends.middle.flatten.length + 3) / 4) (by omega)
  rw [← length_longMiddle, ← count_quarters] at hmore
  have hcost := @elision_le_markerCost _ 50 _ hmore
  have hfits := hfilled.fits
  have hmarker := markerCost_quarters length_longMiddle
  omega

/-- A long first paragraph and two short ones. -/
def longOpening : List Char :=
  List.replicate 200 'a' ++ "\n\nBe brief.\n\nBe kind.".toList

theorem length_longOpening : longOpening.length = 221 := by
  rw [longOpening, List.length_append, List.length_replicate]
  rfl

end TokenProxy.PromptCompaction
