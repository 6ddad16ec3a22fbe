/-
  TokenProxy/GatedFragments.lean
  ==============================
  **What a tool gate lets through of a completion that was cut into chunks.**

  A fragment passes when the name of its call has come, in it or before it, and
  the policy allows the name (`letThrough`).  The fragments that pass still make
  up the allowed calls, and the last finish reason is still the right one, exactly
  under `NamedInTime`: an allowed call sends nothing of value before its name, and
  the chunk that ends the answer is cut down when all calls are denied and only
  then (`slots_of_gated_iff`, `finish_of_gated_iff`).
-/
import TokenProxy.ToolEligibility
import TokenProxy.StreamChunks

namespace TokenProxy.Tools

open Protocols

/-! ## 1. Cutting a completion -/

/-- The chunks are the completion, cut anywhere: each call keeps to its index, its name and its
    id come whole. -/
structure Cut (w : Completion) (chunks : List Chunk) : Prop where
  text : concat (chunks.map Chunk.piece) = w.text.getD ""
  calls : ∃ indices : List Int, indices.Pairwise (· < ·) ∧
    List.Forall₂ (IsCut (allFragments chunks)) indices w.calls ∧
    ∀ f ∈ allFragments chunks, f.index ∈ indices
  finish : ∀ c ∈ chunks, c.finishReason = none ∨ c.finishReason = w.finishReason
  finished : w.finishReason.isSome → ∃ c ∈ chunks, c.finishReason = w.finishReason

/-! ## 2. Fragments and names -/

/-- The first name that came under an index, or the empty text. -/
def sentName (i : Int) (fs : List Fragment) : String :=
  fs.foldl (fun name f =>
    if name ≠ "" then name else if f.index = i then f.name.getD "" else "") ""

/-- A name has come under the index, and the policy allows it: no policy allows the empty one. -/
def passes (policy : ToolPolicy) (i : Int) (fs : List Fragment) : Bool :=
  (evaluateTool policy (.str (sentName i fs))).allowed

/-- The fragments that are let through, after those in `seen`. -/
def letThrough (policy : ToolPolicy) : List Fragment → List Fragment → List Fragment
  | _, [] => []
  | seen, f :: fs =>
    if passes policy f.index (seen ++ [f]) then f :: letThrough policy (seen ++ [f]) fs
    else letThrough policy (seen ++ [f]) fs

/-- What keeps a gated stream in step with the gated completion. -/
structure NamedInTime (policy : ToolPolicy) (w : Completion) (chunks : List Chunk) : Prop where
  /-- an allowed call sends no arguments before its name -/
  arguments : ∀ before (f : Fragment) after, allFragments chunks = before ++ f :: after →
    passes policy f.index (allFragments chunks) = true →
      passes policy f.index (before ++ [f]) = false → f.arguments.getD "" = ""
  /-- an allowed call that has an id sends it with its name or after it -/
  ids : ∀ f ∈ allFragments chunks, passes policy f.index (allFragments chunks) = true →
    f.id.getD "" ≠ "" →
      ∃ before, ∃ g : Fragment, ∃ after, allFragments chunks = before ++ g :: after ∧
      g.index = f.index ∧ g.id.getD "" ≠ "" ∧ passes policy g.index (before ++ [g]) = true
  /-- the last chunk to say `tool_calls` carries fragments, and none of a call that is named
      and allowed by then, exactly when all calls are denied -/
  finish : w.finishReason = some "tool_calls" → ∀ earlier (c : Chunk) later,
    chunks = earlier ++ c :: later → c.finishReason = some "tool_calls" →
    (∀ d ∈ later, d.finishReason = none) →
      ((c.fragments ≠ [] ∧ ∀ before (f : Fragment) after, c.fragments = before ++ f :: after →
          passes policy f.index (allFragments earlier ++ before ++ [f]) = false) ↔
        (w.calls ≠ [] ∧
          ∀ call ∈ w.calls, (evaluateTool policy (.str call.name)).allowed = false))

variable {policy : ToolPolicy}

theorem sentName_snoc (i : Int) (fs : List Fragment) (f : Fragment) :
    sentName i (fs ++ [f]) =
      if sentName i fs ≠ "" then sentName i fs
      else if f.index = i then f.name.getD "" else "" := by
  simp [sentName, List.foldl_append]

@[simp] theorem sentName_nil (i : Int) : sentName i [] = "" := rfl

@[simp] theorem evaluateTool_empty (policy : ToolPolicy) :
    (evaluateTool policy (.str "")).allowed = false := rfl

/-- A name has come under the index. -/
def Named (i : Int) (fs : List Fragment) : Prop := ∃ f ∈ fs, f.index = i ∧ f.name.getD "" ≠ ""

@[simp] theorem named_snoc (i : Int) (fs : List Fragment) (f : Fragment) :
    Named i (fs ++ [f]) ↔ Named i fs ∨ (f.index = i ∧ f.name.getD "" ≠ "") := by
  constructor
  · rintro ⟨g, hg, hgi, hname⟩
    rcases List.mem_append.mp hg with hg | hg
    · exact Or.inl ⟨g, hg, hgi, hname⟩
    · obtain rfl := List.mem_singleton.mp hg
      exact Or.inr ⟨hgi, hname⟩
  · rintro (⟨g, hg, hgi, hname⟩ | ⟨hfi, hname⟩)
    · exact ⟨g, List.mem_append_left _ hg, hgi, hname⟩
    · exact ⟨f, by simp, hfi, hname⟩

/-- Where all names under an index are one, that is the name sent, once it has come. -/
theorem sentName_eq {i : Int} {name : String} {fs : List Fragment}
    (hall : ∀ f ∈ fs, f.index = i → f.name.getD "" = "" ∨ f.name = some name) :
    (Named i fs → sentName i fs = name ∧ name ≠ "") ∧ (¬ Named i fs → sentName i fs = "") := by
  induction fs using List.reverseRecOn with
  | nil => exact ⟨fun ⟨f, hf, _⟩ => absurd hf List.not_mem_nil, fun _ => rfl⟩
  | append_singleton fs f ih =>
    obtain ⟨hnamed, hunnamed⟩ := ih fun g hg => hall g (List.mem_append_left _ hg)
    rw [sentName_snoc, named_snoc]
    by_cases hearlier : Named i fs
    · obtain ⟨hname, hne⟩ := hnamed hearlier
      simp [hearlier, hname, hne]
    · by_cases hindex : f.index = i
      · rcases hall f (by simp) hindex with h | h
        · simp [hunnamed hearlier, hearlier, hindex, h]
        · simp [hunnamed hearlier, hearlier, hindex, h]
      · simp [hunnamed hearlier, hearlier, hindex]

theorem letThrough_append (policy : ToolPolicy) (seen fs gs : List Fragment) :
    letThrough policy seen (fs ++ gs) =
      letThrough policy seen fs ++ letThrough policy (seen ++ fs) gs := by
  induction fs generalizing seen with
  | nil => simp [letThrough]
  | cons f fs ih =>
    simp only [List.cons_append, letThrough, ih, List.append_assoc]
    split <;> rfl

theorem letThrough_sublist (policy : ToolPolicy) (seen fs : List Fragment) :
    (letThrough policy seen fs).Sublist fs := by
  induction fs generalizing seen with
  | nil => exact List.Sublist.slnil
  | cons f fs ih =>
    rw [letThrough]
    split
    · exact (ih _).cons_cons f
    · exact (ih _).cons f

theorem mem_letThrough_iff {seen fs : List Fragment} {f : Fragment} :
    f ∈ letThrough policy seen fs ↔ ∃ before after : List Fragment, fs = before ++ f :: after ∧
      passes policy f.index (seen ++ before ++ [f]) = true := by
  induction fs generalizing seen with
  | nil => simp [letThrough]
  | cons g fs ih =>
    have hsplit : (∃ before after : List Fragment, g :: fs = before ++ f :: after ∧
        passes policy f.index (seen ++ before ++ [f]) = true) ↔
        (f = g ∧ passes policy g.index (seen ++ [g]) = true) ∨
          f ∈ letThrough policy (seen ++ [g]) fs := by
      rw [ih]
      constructor
      · rintro ⟨before, after, heq, hpass⟩
        cases before with
        | nil =>
          obtain ⟨rfl, -⟩ := List.cons.inj heq
          exact Or.inl ⟨rfl, by simpa using hpass⟩
        | cons b before =>
          obtain ⟨rfl, hrest⟩ := List.cons.inj heq
          exact Or.inr ⟨before, after, hrest, by simpa using hpass⟩
      · rintro (⟨rfl, hpass⟩ | ⟨before, after, heq, hpass⟩)
        · exact ⟨[], fs, rfl, by simpa using hpass⟩
        · exact ⟨g :: before, after, by simp [heq], by simpa using hpass⟩
    rw [hsplit, letThrough]
    split
    · rename_i hpass
      simp [hpass]
    · rename_i hpass
      simp [hpass]

theorem letThrough_eq_nil_iff {seen fs : List Fragment} :
    letThrough policy seen fs = [] ↔ ∀ before (f : Fragment) after, fs = before ++ f :: after →
      passes policy f.index (seen ++ before ++ [f]) = false := by
  rw [List.eq_nil_iff_forall_not_mem]
  constructor
  · intro hnone before f after heq
    refine Bool.eq_false_iff.mpr fun hpass => ?_
    exact hnone f (mem_letThrough_iff.mpr ⟨before, after, heq, hpass⟩)
  · intro hnone f hf
    obtain ⟨before, after, heq, hpass⟩ := mem_letThrough_iff.mp hf
    exact absurd hpass (Bool.eq_false_iff.mp (hnone before f after heq))

/-! ## 3. The slot under an index -/

/-- The slot that the fragments under an index leave. -/
def slotAt (i : Int) (fs : List Fragment) : Slot :=
  (fs.filter fun f => f.index = i).foldl (Slot.add true) {}

/-- The pieces of the arguments under an index. -/
def piecesAt (i : Int) (fs : List Fragment) : List String :=
  (fs.filter fun f => f.index = i).map fun f => f.arguments.getD ""

theorem foldl_add_id_eq {id : String} {fs : List Fragment}
    (hall : ∀ f ∈ fs, f.id.getD "" = "" ∨ f.id = some id) (slot : Slot) :
    ((∃ f ∈ fs, f.id.getD "" ≠ "") → (fs.foldl (Slot.add true) slot).id = .str id) ∧
      ((∀ f ∈ fs, f.id.getD "" = "") → (fs.foldl (Slot.add true) slot).id = slot.id) := by
  constructor
  · rintro ⟨f, hf, hid⟩
    have hfid : f.id = some id := (hall f hf).resolve_left hid
    have hne : id ≠ "" := by simpa [hfid] using hid
    exact foldl_add_id hne hall slot (Or.inr ⟨f, hf, hfid⟩)
  · intro hnone
    clear hall
    induction fs generalizing slot with
    | nil => rfl
    | cons f fs ih =>
      rw [List.foldl_cons, ih _ fun g hg => hnone g (List.mem_cons_of_mem f hg)]
      simp [Slot.add, hnone f List.mem_cons_self]

theorem foldl_add_name_of_empty {fs : List Fragment} (hnone : ∀ f ∈ fs, f.name.getD "" = "")
    (slot : Slot) : (fs.foldl (Slot.add true) slot).name = slot.name := by
  induction fs generalizing slot with
  | nil => rfl
  | cons f fs ih =>
    rw [List.foldl_cons, ih (fun g hg => hnone g (List.mem_cons_of_mem f hg))]
    simp [Slot.add, hnone f List.mem_cons_self]

theorem slotAt_args (i : Int) (fs : List Fragment) :
    (slotAt i fs).args = concat (piecesAt i fs) := by
  simp [slotAt, piecesAt, foldl_add_args]

section

variable {i : Int} {call : Call} {fs gs : List Fragment}

/-- What the fragments of a call, or some of them, make of its id. -/
theorem slotAt_id (hcut : IsCut fs i call) (hsub : gs.Sublist fs) :
    ((∃ f ∈ gs, f.index = i ∧ f.id.getD "" ≠ "") → (slotAt i gs).id = .str call.id) ∧
      ((∀ f ∈ gs, f.index = i → f.id.getD "" = "") → (slotAt i gs).id = .str "") := by
  have hall : ∀ f ∈ gs.filter fun f => f.index = i, f.id.getD "" = "" ∨ f.id = some call.id := by
    intro f hf
    obtain ⟨hmem, hindex⟩ := List.mem_filter.mp hf
    exact hcut.id f (hsub.subset hmem) (of_decide_eq_true hindex)
  obtain ⟨hsome, hnone⟩ := foldl_add_id_eq hall {}
  constructor
  · rintro ⟨f, hf, hindex, hid⟩
    exact hsome ⟨f, List.mem_filter.mpr ⟨hf, decide_eq_true hindex⟩, hid⟩
  · intro h
    refine hnone fun f hf => ?_
    obtain ⟨hmem, hindex⟩ := List.mem_filter.mp hf
    exact h f hmem (of_decide_eq_true hindex)

theorem slotAt_name (hcut : IsCut fs i call) (hsub : gs.Sublist fs) (hnamed : Named i gs) :
    (slotAt i gs).name = .str call.name := by
  obtain ⟨f, hf, hindex, hname⟩ := hnamed
  have hfname : f.name = some call.name := (hcut.name f (hsub.subset hf) hindex).resolve_left hname
  have hne : call.name ≠ "" := by simpa [hfname] using hname
  refine foldl_add_name true hne ?_ {} (Or.inr ⟨f, ?_, hfname⟩)
  · intro g hg
    obtain ⟨hmem, hgi⟩ := List.mem_filter.mp hg
    exact hcut.name g (hsub.subset hmem) (of_decide_eq_true hgi)
  · exact List.mem_filter.mpr ⟨hf, decide_eq_true hindex⟩

/-- All fragments of a call together leave the slot of the call. -/
theorem slotAt_of_isCut (hcut : IsCut fs i call) : slotAt i fs = slotOf true call := by
  have hid : (slotAt i fs).id = .str call.id := by
    by_cases hempty : ∃ f ∈ fs, f.index = i ∧ f.id.getD "" ≠ ""
    · exact (slotAt_id hcut (List.Sublist.refl fs)).1 hempty
    · have hnone : ∀ f ∈ fs, f.index = i → f.id.getD "" = "" := by
        intro f hf hindex
        by_contra hne
        exact hempty ⟨f, hf, hindex, hne⟩
      obtain ⟨f, hf, hindex, hfid⟩ := hcut.hasId
      have hcall : call.id = "" := by simpa [hfid] using hnone f hf hindex
      rw [(slotAt_id hcut (List.Sublist.refl fs)).2 hnone, hcall]
  have hname : (slotAt i fs).name = .str call.name := by
    by_cases hnamed : Named i fs
    · exact slotAt_name hcut (List.Sublist.refl fs) hnamed
    · have hnone : ∀ f ∈ fs.filter fun f => f.index = i, f.name.getD "" = "" := by
        intro f hf
        obtain ⟨hmem, hindex⟩ := List.mem_filter.mp hf
        by_contra hne
        exact hnamed ⟨f, hmem, of_decide_eq_true hindex, hne⟩
      obtain ⟨f, hf, hindex, hfname⟩ := hcut.hasName
      have hcall : call.name = "" := by
        simpa [hfname] using hnone f (List.mem_filter.mpr ⟨hf, decide_eq_true hindex⟩)
      rw [slotAt, foldl_add_name_of_empty hnone, hcall]
  have hargs : (slotAt i fs).args = call.args := (slotAt_args i fs).trans hcut.args
  calc slotAt i fs = ⟨(slotAt i fs).id, (slotAt i fs).name, (slotAt i fs).args⟩ := rfl
    _ = slotOf true call := by
      rw [hid, hname, hargs]
      rfl

end

theorem piecesAt_cons (i : Int) (f : Fragment) (fs : List Fragment) :
    piecesAt i (f :: fs) =
      if f.index = i then f.arguments.getD "" :: piecesAt i fs else piecesAt i fs := by
  by_cases hindex : f.index = i
  · simp [piecesAt, hindex]
  · simp [piecesAt, hindex]

/-- What is let through is never longer than what was sent. -/
theorem length_letThrough_le (policy : ToolPolicy) (i : Int) (seen fs : List Fragment) :
    (concat (piecesAt i (letThrough policy seen fs))).length ≤
      (concat (piecesAt i fs)).length := by
  induction fs generalizing seen with
  | nil => exact le_rfl
  | cons f fs ih =>
    have htail := ih (seen ++ [f])
    rw [letThrough]
    by_cases hindex : f.index = i
    · split
      · simpa [piecesAt_cons, hindex, concat] using htail
      · simp only [piecesAt_cons, hindex, if_true, concat, String.length_append]
        omega
    · split
      · simpa [piecesAt_cons, hindex] using htail
      · simpa [piecesAt_cons, hindex] using htail

/-- The arguments come through whole exactly when nothing of them was kept back. -/
theorem concat_letThrough_iff (i : Int) (seen fs : List Fragment) :
    concat (piecesAt i (letThrough policy seen fs)) = concat (piecesAt i fs) ↔
      ∀ before (f : Fragment) after, fs = before ++ f :: after → f.index = i →
        passes policy f.index (seen ++ before ++ [f]) = false → f.arguments.getD "" = "" := by
  induction fs generalizing seen with
  | nil => simp [letThrough]
  | cons f fs ih =>
    have hsplit : (∀ before (g : Fragment) after, f :: fs = before ++ g :: after → g.index = i →
        passes policy g.index (seen ++ before ++ [g]) = false → g.arguments.getD "" = "") ↔
        (f.index = i → passes policy f.index (seen ++ [f]) = false → f.arguments.getD "" = "") ∧
          concat (piecesAt i (letThrough policy (seen ++ [f]) fs)) = concat (piecesAt i fs) := by
      rw [ih]
      constructor
      · intro hall
        refine ⟨fun hindex hkept => hall [] f fs rfl hindex (by simpa using hkept), ?_⟩
        intro before g after heq hindex hkept
        exact hall (f :: before) g after (by simp [heq]) hindex (by simpa using hkept)
      · rintro ⟨hhead, htail⟩ before g after heq hindex hkept
        cases before with
        | nil =>
          obtain ⟨rfl, -⟩ := List.cons.inj heq
          exact hhead hindex (by simpa using hkept)
        | cons b before =>
          obtain ⟨rfl, hrest⟩ := List.cons.inj heq
          exact htail before g after hrest hindex (by simpa using hkept)
    have hle := length_letThrough_le policy i (seen ++ [f]) fs
    rw [hsplit, letThrough]
    by_cases hindex : f.index = i
    · cases hpass : passes policy f.index (seen ++ [f]) with
      | true => simp [piecesAt_cons, hindex, concat]
      | false =>
        simp only [Bool.false_eq_true, if_false, piecesAt_cons, hindex, if_true, concat,
          forall_const]
        constructor
        · intro heq
          have hlen := congrArg String.length heq
          rw [String.length_append] at hlen
          have hempty : f.arguments.getD "" = "" := by
            rw [← String.length_eq_zero_iff]
            omega
          exact ⟨hempty, by simpa [hempty] using heq⟩
        · rintro ⟨hempty, heq⟩
          simp [hempty, heq]
    · cases hpass : passes policy f.index (seen ++ [f]) with
      | true => simp [piecesAt_cons, hindex]
      | false => simp [piecesAt_cons, hindex]

/-! ## 4. The calls that come through -/

def callPasses (policy : ToolPolicy) (call : Call) : Bool :=
  (evaluateTool policy (.str call.name)).allowed

section

variable {i : Int} {call : Call} {fs : List Fragment}

theorem passes_iff (hcut : IsCut fs i call) {sent : List Fragment} (hsub : sent.Sublist fs) :
    passes policy i sent = true ↔ callPasses policy call = true ∧ Named i sent := by
  obtain ⟨hnamed, hunnamed⟩ := @sentName_eq i call.name sent
    fun f hf hindex => hcut.name f (hsub.subset hf) hindex
  by_cases hsent : Named i sent
  · simp [passes, callPasses, (hnamed hsent).1, hsent]
  · simp [passes, hunnamed hsent, hsent]

theorem named_of_passes (hcut : IsCut fs i call) (hallowed : callPasses policy call = true) :
    Named i fs := by
  obtain ⟨f, hf, hindex, hname⟩ := hcut.hasName
  refine ⟨f, hf, hindex, ?_⟩
  intro hempty
  have hcall : call.name = "" := by simpa [hname] using hempty
  simp [callPasses, hcall] at hallowed

theorem passes_all (hcut : IsCut fs i call) : passes policy i fs = callPasses policy call := by
  rw [Bool.eq_iff_iff, passes_iff hcut (List.Sublist.refl fs)]
  exact ⟨And.left, fun h => ⟨h, named_of_passes hcut h⟩⟩

/-- An allowed call is let through with its name. -/
theorem named_letThrough (hcut : IsCut fs i call) (hallowed : callPasses policy call = true) :
    Named i (letThrough policy [] fs) := by
  obtain ⟨f, hf, rfl, hname⟩ := named_of_passes hcut hallowed
  obtain ⟨before, after, heq⟩ := List.append_of_mem hf
  have hsub : (before ++ [f]).Sublist fs := by
    rw [heq]
    simp
  refine ⟨f, mem_letThrough_iff.mpr ⟨before, after, heq, ?_⟩, rfl, hname⟩
  exact (passes_iff hcut hsub).mpr ⟨hallowed, by simp [hname]⟩

/-- Under an index something is let through exactly when its call is allowed. -/
theorem exists_letThrough_iff (hcut : IsCut fs i call) :
    (∃ f ∈ letThrough policy [] fs, f.index = i) ↔ callPasses policy call = true := by
  constructor
  · rintro ⟨f, hf, rfl⟩
    obtain ⟨before, after, heq, hpass⟩ := mem_letThrough_iff.mp hf
    have hsub : (before ++ [f]).Sublist fs := by
      rw [heq]
      simp
    exact ((passes_iff hcut hsub).mp (by simpa using hpass)).1
  · intro hallowed
    obtain ⟨f, hf, hindex, -⟩ := named_letThrough hcut hallowed
    exact ⟨f, hf, hindex⟩

/-- An allowed call comes through whole exactly when it loses neither arguments nor its id. -/
theorem slotAt_letThrough_iff (hcut : IsCut fs i call) (hallowed : callPasses policy call = true) :
    slotAt i (letThrough policy [] fs) = slotOf true call ↔
      (∀ before (f : Fragment) after, fs = before ++ f :: after → f.index = i →
        passes policy f.index (before ++ [f]) = false → f.arguments.getD "" = "") ∧
      ((∃ f ∈ fs, f.index = i ∧ f.id.getD "" ≠ "") →
        ∃ g ∈ letThrough policy [] fs, g.index = i ∧ g.id.getD "" ≠ "") := by
  have hsub := letThrough_sublist policy [] fs
  have hname := slotAt_name hcut hsub (named_letThrough hcut hallowed)
  have hargs : (slotAt i (letThrough policy [] fs)).args = call.args ↔
      ∀ before (f : Fragment) after, fs = before ++ f :: after → f.index = i →
        passes policy f.index (before ++ [f]) = false → f.arguments.getD "" = "" := by
    rw [slotAt_args, ← hcut.args]
    exact concat_letThrough_iff i [] fs
  have hid : (slotAt i (letThrough policy [] fs)).id = .str call.id ↔
      ((∃ f ∈ fs, f.index = i ∧ f.id.getD "" ≠ "") →
        ∃ g ∈ letThrough policy [] fs, g.index = i ∧ g.id.getD "" ≠ "") := by
    obtain ⟨hsome, hnone⟩ := slotAt_id hcut hsub
    by_cases hsent : ∃ g ∈ letThrough policy [] fs, g.index = i ∧ g.id.getD "" ≠ ""
    · exact iff_of_true (hsome hsent) fun _ => hsent
    · have hempty : (slotAt i (letThrough policy [] fs)).id = .str "" := by
        refine hnone fun g hg hindex => ?_
        by_contra hne
        exact hsent ⟨g, hg, hindex, hne⟩
      rw [hempty]
      constructor
      · rintro heq ⟨f, hf, hindex, hne⟩
        have hfid : f.id = some call.id := (hcut.id f hf hindex).resolve_left hne
        exact absurd (Json.str.inj heq).symm (by simpa [hfid] using hne)
      · intro himp
        obtain ⟨f, hf, hindex, hfid⟩ := hcut.hasId
        by_contra hne
        refine hsent (himp ⟨f, hf, hindex, ?_⟩)
        intro hcall
        exact hne (congrArg Json.str (by simpa [hfid] using hcall.symm))
  rw [← hargs, ← hid]
  constructor
  · intro heq
    rw [heq]
    exact ⟨rfl, rfl⟩
  · rintro ⟨ha, hi⟩
    calc slotAt i (letThrough policy [] fs)
        = ⟨(slotAt i (letThrough policy [] fs)).id, (slotAt i (letThrough policy [] fs)).name,
            (slotAt i (letThrough policy [] fs)).args⟩ := rfl
      _ = slotOf true call := by
        rw [ha, hi, hname]
        rfl

end

/-- The slots that fragments leave, in the order of their indices. -/
theorem sortedSlots_collect {fs : List Fragment} {indices : List Int}
    (hsorted : indices.Pairwise (· < ·)) (hmem : ∀ i, i ∈ indices ↔ ∃ f ∈ fs, f.index = i) :
    sortedSlots (collect true ∅ fs) = indices.map fun i => slotAt i fs := by
  rw [sortedSlots, sorted_keys_collect hsorted hmem, ← List.filterMap_eq_map]
  refine List.filterMap_congr fun i hi => ?_
  rw [get?_collect, if_pos ((hmem i).mp hi)]
  rfl

section

variable {w : Completion} {chunks : List Chunk}

/-- Without a gate the calls come through as they are. -/
theorem slots_of_cut (hcut : Cut w chunks) :
    sortedSlots (collect true ∅ (allFragments chunks)) = w.calls.map (slotOf true) := by
  obtain ⟨indices, hsorted, hcuts, hin⟩ := hcut.calls
  rw [sortedSlots_collect hsorted (mem_indices_iff hcuts hin)]
  clear hsorted hin
  generalize w.calls = calls at hcuts
  induction hcuts with
  | nil => rfl
  | cons hcall _ ih => rw [List.map_cons, List.map_cons, slotAt_of_isCut hcall, ih]

/-- Behind the gate the allowed calls come through whole exactly when they are named in time. -/
theorem slots_of_gated_iff (hcut : Cut w chunks) :
    sortedSlots (collect true ∅ (letThrough policy [] (allFragments chunks))) =
        (w.calls.filter (callPasses policy)).map (slotOf true) ↔
      (∀ before (f : Fragment) after, allFragments chunks = before ++ f :: after →
        passes policy f.index (allFragments chunks) = true →
          passes policy f.index (before ++ [f]) = false → f.arguments.getD "" = "") ∧
      (∀ f ∈ allFragments chunks, passes policy f.index (allFragments chunks) = true →
        f.id.getD "" ≠ "" →
          ∃ before, ∃ g : Fragment, ∃ after, allFragments chunks = before ++ g :: after ∧
            g.index = f.index ∧ g.id.getD "" ≠ "" ∧
            passes policy g.index (before ++ [g]) = true) := by
  obtain ⟨indices, hsorted, hcuts, hin⟩ := hcut.calls
  have hmem := mem_indices_iff hcuts hin
  have hcall : ∀ i ∈ indices, ∃ call, IsCut (allFragments chunks) i call := by
    intro i hi
    obtain ⟨call, -, hcall⟩ := Pointwise.exists_right_of_forall₂ hcuts hi
    exact ⟨call, hcall⟩
  -- the indices of the allowed calls
  let allowed := indices.filter fun i => passes policy i (allFragments chunks)
  have hallowed : ∀ i, i ∈ allowed ↔
      ∃ f ∈ letThrough policy [] (allFragments chunks), f.index = i := by
    intro i
    rw [List.mem_filter]
    constructor
    · rintro ⟨hi, hpass⟩
      obtain ⟨call, hcall⟩ := hcall i hi
      exact (exists_letThrough_iff hcall).mpr (passes_all hcall ▸ hpass)
    · intro hthrough
      obtain ⟨f, hf, hindex⟩ := hthrough
      have hi : i ∈ indices :=
        (hmem i).mpr ⟨f, (letThrough_sublist policy [] _).subset hf, hindex⟩
      obtain ⟨call, hcall⟩ := hcall i hi
      refine ⟨hi, ?_⟩
      rw [passes_all hcall]
      exact (exists_letThrough_iff hcall).mp ⟨f, hf, hindex⟩
  have hwhole : (w.calls.filter (callPasses policy)).map (slotOf true) =
      allowed.map fun i => slotAt i (allFragments chunks) := by
    clear hsorted hin hmem hcall hallowed
    simp only [allowed]
    generalize w.calls = calls at hcuts
    induction hcuts with
    | nil => rfl
    | cons hcall _ ih =>
      rw [List.filter_cons, List.filter_cons, passes_all hcall]
      split
      · rw [List.map_cons, List.map_cons, slotAt_of_isCut hcall, ih]
      · exact ih
  rw [sortedSlots_collect (hsorted.filter _) hallowed, hwhole, List.map_inj_left]
  constructor
  · intro hslots
    have hslotAt : ∀ f ∈ allFragments chunks, passes policy f.index (allFragments chunks) = true →
        ∃ call, IsCut (allFragments chunks) f.index call ∧ callPasses policy call = true ∧
          slotAt f.index (letThrough policy [] (allFragments chunks)) = slotOf true call := by
      intro f hf hpass
      obtain ⟨call, hcall⟩ := hcall f.index (hin f hf)
      refine ⟨call, hcall, passes_all hcall ▸ hpass, ?_⟩
      rw [← slotAt_of_isCut hcall]
      exact hslots f.index (List.mem_filter.mpr ⟨hin f hf, hpass⟩)
    constructor
    · intro before f after heq hpass hkept
      obtain ⟨call, hcall, hallowed, hslot⟩ := hslotAt f (by simp [heq]) hpass
      exact ((slotAt_letThrough_iff hcall hallowed).mp hslot).1 before f after heq rfl hkept
    · intro f hf hpass hid
      obtain ⟨call, hcall, hallowed, hslot⟩ := hslotAt f hf hpass
      obtain ⟨g, hg, hindex, hgid⟩ :=
        ((slotAt_letThrough_iff hcall hallowed).mp hslot).2 ⟨f, hf, rfl, hid⟩
      obtain ⟨before, after, heq, hgpass⟩ := mem_letThrough_iff.mp hg
      exact ⟨before, g, after, heq, hindex, hgid, by simpa using hgpass⟩
  · rintro ⟨hargs, hids⟩ i hi
    obtain ⟨hmemi, hpass⟩ := List.mem_filter.mp hi
    obtain ⟨call, hcall⟩ := hcall i hmemi
    rw [slotAt_of_isCut hcall]
    refine (slotAt_letThrough_iff hcall (passes_all hcall ▸ hpass)).mpr ⟨?_, ?_⟩
    · rintro before f after heq rfl hkept
      exact hargs before f after heq hpass hkept
    · rintro ⟨f, hf, rfl, hid⟩
      obtain ⟨before, g, after, heq, hindex, hgid, hgpass⟩ := hids f hf hpass hid
      exact ⟨g, mem_letThrough_iff.mpr ⟨before, after, heq, by simpa using hgpass⟩, hindex, hgid⟩

end

/-! ## 5. The finish reason -/

/-- A chunk as it leaves the gate. -/
def gatedChunk (policy : ToolPolicy) (seen : List Fragment) (c : Chunk) : Chunk :=
  let kept := letThrough policy seen c.fragments
  { c with
    fragments := kept
    finishReason :=
      if !c.fragments.isEmpty && kept.isEmpty && decide (c.finishReason = some "tool_calls") then
        some "stop"
      else c.finishReason }

def gatedChunks (policy : ToolPolicy) : List Fragment → List Chunk → List Chunk
  | _, [] => []
  | seen, c :: cs => gatedChunk policy seen c :: gatedChunks policy (seen ++ c.fragments) cs

theorem allFragments_cons (c : Chunk) (cs : List Chunk) :
    allFragments (c :: cs) = c.fragments ++ allFragments cs := rfl

theorem gatedChunks_append (policy : ToolPolicy) (seen : List Fragment) (cs ds : List Chunk) :
    gatedChunks policy seen (cs ++ ds) =
      gatedChunks policy seen cs ++ gatedChunks policy (seen ++ allFragments cs) ds := by
  induction cs generalizing seen with
  | nil => simp [gatedChunks, allFragments]
  | cons c cs ih => simp [gatedChunks, allFragments, ih, List.append_assoc]

/-- The finish reason known after the chunks. -/
def finishAfter (known : Json) (chunks : List Chunk) : Json :=
  chunks.foldl (fun known c => (optStr c.finishReason).orElse known) known

@[simp] theorem optStr_none_orElse (known : Json) : (optStr none).orElse known = known := rfl

theorem finishAfter_of_none {chunks : List Chunk} (hnone : ∀ c ∈ chunks, c.finishReason = none)
    (known : Json) : finishAfter known chunks = known := by
  induction chunks with
  | nil => rfl
  | cons c cs ih =>
    have htail := ih fun d hd => hnone d (List.mem_cons_of_mem c hd)
    simpa [finishAfter, hnone c List.mem_cons_self] using htail

/-- The last chunk that names a reason settles it. -/
theorem finishAfter_of_last {earlier later : List Chunk} {c : Chunk} {reason : String}
    (hc : c.finishReason = some reason) (hne : reason ≠ "")
    (hlater : ∀ d ∈ later, d.finishReason = none) (known : Json) :
    finishAfter known (earlier ++ c :: later) = .str reason := by
  have hhere : ∀ k, finishAfter k (c :: later) = finishAfter (.str reason) later := by
    intro k
    simp [finishAfter, hc, optStr, Json.orElse, Json.truthy, hne]
  rw [finishAfter, List.foldl_append]
  exact (hhere _).trans (finishAfter_of_none hlater _)

/-- Among the chunks that name a reason there is a last one. -/
theorem exists_last_reason {chunks : List Chunk} (h : ∃ c ∈ chunks, c.finishReason.isSome = true) :
    ∃ earlier, ∃ c : Chunk, ∃ later, chunks = earlier ++ c :: later ∧ c.finishReason.isSome = true ∧
      ∀ d ∈ later, d.finishReason = none := by
  induction chunks with
  | nil => simp at h
  | cons c cs ih =>
    by_cases hlater : ∃ d ∈ cs, d.finishReason.isSome = true
    · obtain ⟨earlier, d, later, heq, hd, hnone⟩ := ih hlater
      exact ⟨c :: earlier, d, later, by simp [heq], hd, hnone⟩
    · have hnone : ∀ d ∈ cs, d.finishReason = none := by
        intro d hd
        by_contra hne
        exact hlater ⟨d, hd, Option.isSome_iff_ne_none.mpr hne⟩
      obtain ⟨d, hd, hsome⟩ := h
      rcases List.mem_cons.mp hd with rfl | hd
      · exact ⟨[], d, cs, rfl, hsome, hnone⟩
      · exact absurd ⟨d, hd, hsome⟩ hlater

/-- No chunk's reason is touched but one that says `tool_calls`. -/
theorem gatedChunk_finishReason (policy : ToolPolicy) (seen : List Fragment) {c : Chunk}
    (hc : c.finishReason ≠ some "tool_calls") :
    (gatedChunk policy seen c).finishReason = c.finishReason := by
  simp [gatedChunk, hc]

theorem gatedChunks_of_none (policy : ToolPolicy) (seen : List Fragment) {chunks : List Chunk}
    (hnone : ∀ c ∈ chunks, c.finishReason = none) :
    ∀ c ∈ gatedChunks policy seen chunks, c.finishReason = none := by
  induction chunks generalizing seen with
  | nil => exact fun c hc => absurd hc List.not_mem_nil
  | cons c cs ih =>
    intro d hd
    have hc := hnone c List.mem_cons_self
    rcases List.mem_cons.mp hd with rfl | hd
    · rw [gatedChunk_finishReason policy seen (by simp [hc]), hc]
    · exact ih _ (fun e he => hnone e (List.mem_cons_of_mem c he)) d hd

theorem finishAfter_gatedChunks (policy : ToolPolicy) (seen : List Fragment) (known : Json)
    {chunks : List Chunk} (hnone : ∀ c ∈ chunks, c.finishReason ≠ some "tool_calls") :
    finishAfter known (gatedChunks policy seen chunks) = finishAfter known chunks := by
  induction chunks generalizing seen known with
  | nil => rfl
  | cons c cs ih =>
    have htail := ih (seen ++ c.fragments) ((optStr c.finishReason).orElse known)
      fun d hd => hnone d (List.mem_cons_of_mem c hd)
    simpa [finishAfter, gatedChunks,
      gatedChunk_finishReason policy seen (hnone c List.mem_cons_self)] using htail

section

variable {w : Completion} {chunks : List Chunk}

/-- Without a gate the stream ends for the completion's reason. -/
theorem finish_of_cut (hcut : Cut w chunks) :
    finishAfter .null chunks = (optStr w.finishReason).orElse .null := by
  cases hreason : w.finishReason with
  | none =>
    refine finishAfter_of_none (fun c hc => ?_) .null
    simpa [hreason] using hcut.finish c hc
  | some reason =>
    obtain ⟨c, hc, hcr⟩ := hcut.finished (by simp [hreason])
    obtain ⟨earlier, d, later, heq, hd, hnone⟩ :=
      exists_last_reason ⟨c, hc, by simp [hcr, hreason]⟩
    have hdr : d.finishReason = some reason := by
      rcases hcut.finish d (by simp [heq]) with h | h
      · simp [h] at hd
      · rw [h, hreason]
    by_cases hne : reason = ""
    · have hempty : ∀ c ∈ chunks, (optStr c.finishReason).truthy = false := by
        intro c hc
        rcases hcut.finish c hc with h | h
        · simp [h, optStr, Json.truthy]
        · simp [h, hreason, hne, optStr, Json.truthy]
      have hkept : ∀ cs : List Chunk, (∀ c ∈ cs, (optStr c.finishReason).truthy = false) →
          finishAfter .null cs = .null := by
        intro cs hcs
        induction cs with
        | nil => rfl
        | cons c cs ih =>
          have htail := ih fun d hd => hcs d (List.mem_cons_of_mem c hd)
          simpa [finishAfter, Json.orElse, hcs c List.mem_cons_self] using htail
      rw [hkept chunks hempty, hne]
      rfl
    · rw [heq, finishAfter_of_last hdr hne hnone]
      simp [optStr, Json.orElse, Json.truthy, hne]

/-- The reason of a gated completion, in block mode. -/
def gatedFinish (policy : ToolPolicy) (w : Completion) : Json :=
  if w.finishReason = some "tool_calls" ∧ w.calls ≠ [] ∧
      ∀ call ∈ w.calls, callPasses policy call = false then .str "stop"
  else (optStr w.finishReason).orElse .null

/-- Behind the gate the stream ends for the reason of the gated completion exactly when its
    last word on it is right. -/
theorem finish_of_gated_iff (hcut : Cut w chunks) :
    finishAfter .null (gatedChunks policy [] chunks) = gatedFinish policy w ↔
      (w.finishReason = some "tool_calls" → ∀ earlier (c : Chunk) later,
        chunks = earlier ++ c :: later → c.finishReason = some "tool_calls" →
        (∀ d ∈ later, d.finishReason = none) →
          ((c.fragments ≠ [] ∧ ∀ before (f : Fragment) after, c.fragments = before ++ f :: after →
              passes policy f.index (allFragments earlier ++ before ++ [f]) = false) ↔
            (w.calls ≠ [] ∧ ∀ call ∈ w.calls, callPasses policy call = false))) := by
  by_cases hreason : w.finishReason = some "tool_calls"
  · have hat : ∀ earlier (c : Chunk) later, chunks = earlier ++ c :: later →
        c.finishReason = some "tool_calls" → (∀ d ∈ later, d.finishReason = none) →
        (finishAfter .null (gatedChunks policy [] chunks) = gatedFinish policy w ↔
          ((c.fragments ≠ [] ∧ ∀ before (f : Fragment) after, c.fragments = before ++ f :: after →
              passes policy f.index (allFragments earlier ++ before ++ [f]) = false) ↔
            (w.calls ≠ [] ∧ ∀ call ∈ w.calls, callPasses policy call = false))) := by
      intro earlier c later heq hc hlater
      have hrest := gatedChunks_of_none policy (allFragments earlier ++ c.fragments) hlater
      rw [← letThrough_eq_nil_iff, heq, gatedChunks_append, gatedChunks, List.nil_append]
      by_cases hcut : c.fragments ≠ [] ∧ letThrough policy (allFragments earlier) c.fragments = []
      · have hstop : (gatedChunk policy (allFragments earlier) c).finishReason = some "stop" := by
          simp [gatedChunk, hcut.1, hcut.2, hc]
        rw [finishAfter_of_last hstop (by decide) hrest, gatedFinish, hreason]
        by_cases hdenied : w.calls ≠ [] ∧ ∀ call ∈ w.calls, callPasses policy call = false
        · rw [if_pos ⟨rfl, hdenied⟩]
          exact iff_of_true rfl (iff_of_true hcut hdenied)
        · rw [if_neg fun h => hdenied h.2]
          exact iff_of_false (by decide) fun h => hdenied (h.mp hcut)
      · have hkept : (gatedChunk policy (allFragments earlier) c).finishReason =
            some "tool_calls" := by
          by_cases hempty : c.fragments = []
          · simp [gatedChunk, hempty, hc]
          · have hthrough : letThrough policy (allFragments earlier) c.fragments ≠ [] :=
              fun h => hcut ⟨hempty, h⟩
            simp [gatedChunk, hthrough, hc]
        rw [finishAfter_of_last hkept (by decide) hrest, gatedFinish, hreason]
        by_cases hdenied : w.calls ≠ [] ∧ ∀ call ∈ w.calls, callPasses policy call = false
        · rw [if_pos ⟨rfl, hdenied⟩]
          exact iff_of_false (by decide) fun h => hcut (h.mpr hdenied)
        · rw [if_neg fun h => hdenied h.2]
          exact iff_of_true (by decide) (iff_of_false hcut hdenied)
    obtain ⟨c, hc, hcr⟩ := hcut.finished (by simp [hreason])
    obtain ⟨earlier, d, later, heq, hd, hnone⟩ :=
      exists_last_reason ⟨c, hc, by simp [hcr, hreason]⟩
    have hdr : d.finishReason = some "tool_calls" := by
      rcases hcut.finish d (by simp [heq]) with h | h
      · simp [h] at hd
      · rw [h, hreason]
    constructor
    · intro hfinish _ earlier c later heq hc hlater
      exact (hat earlier c later heq hc hlater).mp hfinish
    · intro hall
      exact (hat earlier d later heq hdr hnone).mpr (hall hreason earlier d later heq hdr hnone)
  · have hnone : ∀ c ∈ chunks, c.finishReason ≠ some "tool_calls" := by
      intro c hc h
      rcases hcut.finish c hc with hc | hc
      · simp [hc] at h
      · exact hreason (hc ▸ h)
    rw [finishAfter_gatedChunks policy [] .null hnone, finish_of_cut hcut, gatedFinish,
      if_neg fun h => hreason h.1]
    exact iff_of_true rfl fun h => absurd h hreason

end

end TokenProxy.Tools
