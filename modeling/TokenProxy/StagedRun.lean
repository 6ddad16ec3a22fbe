/-
  TokenProxy/StagedRun.lean
  =========================
  **Running stages one after another.**

  A program is a list of items.  An item names a stage; it may be skipped by what the state says
  when its turn comes; after it the run may stop, and its failure ends the run or is passed over.
  What a stage does is a parameter: it leaves a state, and may fail.

  The lemmas say which stages have run and what each was handed, for whatever the stages do.
-/
import Mathlib.Data.List.Basic

namespace TokenProxy.StagedRun

/-! ## 1. Programs and runs -/

structure Item (τ σ : Type) where
  name : τ
  /-- the state has this stage skipped -/
  skipped : σ → Bool := fun _ => false
  /-- the state that the stage leaves ends the run -/
  stops : σ → Bool := fun _ => false
  /-- a failure is passed over -/
  tolerant : Bool := false

/-- How a run ended. -/
inductive Ending (ε : Type) where
  | completed
  | stopped
  | failed (e : ε)

/-- The stages that ran, with the state each was handed; the last state; how it ended. -/
structure Outcome (τ σ ε : Type) where
  trace : List (τ × σ)
  final : σ
  ending : Ending ε

variable {τ σ ε : Type} (stage : τ → σ → σ × Option ε)

/-- The stage of an item is over: whether, and how, the run ends here. -/
def Item.after (item : Item τ σ) : σ × Option ε → Option (Ending ε)
  | (s, none) => if item.stops s then some .stopped else none
  | (s, some e) =>
    if !item.tolerant then some (.failed e) else if item.stops s then some .stopped else none

def run : List (Item τ σ) → σ → Outcome τ σ ε
  | [], s => ⟨[], s, .completed⟩
  | item :: items, s =>
    if item.skipped s then run items s
    else
      match item.after (stage item.name s) with
      | some ending => ⟨[(item.name, s)], (stage item.name s).1, ending⟩
      | none =>
        let rest := run items (stage item.name s).1
        { rest with trace := (item.name, s) :: rest.trace }

/-! ## 2. Which stages ran -/

variable {stage}

theorem run_skipped {item : Item τ σ} {s : σ} (h : item.skipped s = true)
    (items : List (Item τ σ)) : run stage (item :: items) s = run stage items s := by
  rw [run, if_pos h]

theorem run_ended {item : Item τ σ} {s : σ} {ending : Ending ε} (h : item.skipped s = false)
    (hafter : item.after (stage item.name s) = some ending) (items : List (Item τ σ)) :
    run stage (item :: items) s = ⟨[(item.name, s)], (stage item.name s).1, ending⟩ := by
  rw [run, if_neg (by simp [h]), hafter]

theorem run_went_on {item : Item τ σ} {s : σ} (h : item.skipped s = false)
    (hafter : item.after (stage item.name s) = none) (items : List (Item τ σ)) :
    run stage (item :: items) s =
      { run stage items (stage item.name s).1 with
        trace := (item.name, s) :: (run stage items (stage item.name s).1).trace } := by
  rw [run, if_neg (by simp [h]), hafter]

/-- Stages run in the program's order, each at most once. -/
theorem trace_sublist (items : List (Item τ σ)) (s : σ) :
    List.Sublist ((run stage items s).trace.map Prod.fst) (items.map Item.name) := by
  induction items generalizing s with
  | nil => exact List.Sublist.refl _
  | cons item items ih =>
    cases hskip : item.skipped s with
    | true =>
      rw [run_skipped hskip]
      exact (ih s).cons _
    | false =>
      cases hafter : item.after (stage item.name s) with
      | some ending =>
        rw [run_ended hskip hafter]
        simp
      | none =>
        rw [run_went_on hskip hafter]
        exact (ih _).cons_cons _

theorem mem_names_of_mem_trace {items : List (Item τ σ)} {s t : σ} {name : τ}
    (h : (name, t) ∈ (run stage items s).trace) : ∃ item ∈ items, item.name = name :=
  List.mem_map.mp ((trace_sublist items s).subset (List.mem_map_of_mem h))

theorem after_ne_completed (item : Item τ σ) (left : σ × Option ε) :
    item.after left ≠ some .completed := by
  rcases left with ⟨s, _ | e⟩
  · rw [Item.after]
    split <;> simp
  · rw [Item.after]
    split
    · simp
    · split <;> simp

/-- Where a stage ran that is none of those up to an item, or the whole run was completed, the
    item's stage ran before if it is never skipped, and the run did not end with it. -/
theorem ran_before_of_notMem {before after : List (Item τ σ)} {item : Item τ σ}
    (hnever : ∀ t, item.skipped t = false) {s : σ}
    (h : (run stage (before ++ item :: after) s).ending = .completed ∨
      ∃ pair ∈ (run stage (before ++ item :: after) s).trace,
        pair.1 ∉ (before ++ [item]).map Item.name) :
    ∃ t, (item.name, t) ∈ (run stage (before ++ item :: after) s).trace ∧
      item.after (stage item.name t) = none := by
  induction before generalizing s with
  | nil =>
    rw [List.nil_append] at h ⊢
    cases hafter : item.after (stage item.name s) with
    | some ending =>
      rw [run_ended (hnever s) hafter] at h
      rcases h with hcompleted | ⟨pair, hpair, hlater⟩
      · exact absurd (hafter.trans (congrArg some hcompleted)) (after_ne_completed _ _)
      · rw [List.mem_singleton.mp hpair] at hlater
        simp at hlater
    | none =>
      rw [run_went_on (hnever s) hafter]
      exact ⟨s, List.mem_cons_self, hafter⟩
  | cons first before ih =>
    rw [List.cons_append] at h ⊢
    cases hskip : first.skipped s with
    | true =>
      rw [run_skipped hskip] at h ⊢
      apply ih
      rcases h with hcompleted | ⟨pair, hpair, hlater⟩
      · exact Or.inl hcompleted
      · exact Or.inr ⟨pair, hpair, fun hmem => hlater (List.mem_cons_of_mem _ hmem)⟩
    | false =>
      cases hafter : first.after (stage first.name s) with
      | some ending =>
        rw [run_ended hskip hafter] at h
        rcases h with hcompleted | ⟨pair, hpair, hlater⟩
        · exact absurd (hafter.trans (congrArg some hcompleted)) (after_ne_completed _ _)
        · rw [List.mem_singleton.mp hpair] at hlater
          simp at hlater
      | none =>
        rw [run_went_on hskip hafter] at h ⊢
        have hrest : ∃ t, (item.name, t) ∈ (run stage (before ++ item :: after)
            (stage first.name s).1).trace ∧ item.after (stage item.name t) = none := by
          apply ih
          rcases h with hcompleted | ⟨pair, hpair, hlater⟩
          · exact Or.inl hcompleted
          · right
            rcases List.mem_cons.mp hpair with rfl | hpair
            · simp at hlater
            · exact ⟨pair, hpair, fun hmem => hlater (List.mem_cons_of_mem _ hmem)⟩
        obtain ⟨t, hmem, hwent⟩ := hrest
        exact ⟨t, List.mem_cons_of_mem _ hmem, hwent⟩

/-- In an order without repetitions, what stands behind an element is none of those up to it. -/
theorem notMem_of_pair_sublist {α : Type} {l l' : List α} {x y : α} (hnodup : (l ++ x :: l').Nodup)
    (h : List.Sublist [x, y] (l ++ x :: l')) : y ∉ l ++ [x] := by
  induction l with
  | nil =>
    intro hmem
    rw [List.nil_append, List.mem_singleton] at hmem
    subst hmem
    have htwice := h.nodup hnodup
    simp at htwice
  | cons a l ih =>
    rw [List.cons_append, List.nodup_cons] at hnodup
    have hne : x ≠ a := by
      rintro rfl
      exact hnodup.1 (by simp)
    have htail : List.Sublist [x, y] (l ++ x :: l') := by
      rcases List.sublist_cons_iff.mp h with htail | ⟨r, hr, -⟩
      · exact htail
      · exact absurd (List.cons.inj hr).1 hne
    have hy : y ≠ a := by
      rintro rfl
      exact hnodup.1 (htail.subset (by simp))
    rw [List.cons_append, List.mem_cons, not_or]
    exact ⟨hy, ih hnodup.2 htail⟩

/-- **What comes first has run**: a stage that is never skipped, and stands before one that ran or
    belongs to a completed run, ran too, and the run went on after it. -/
theorem ran_before {items : List (Item τ σ)} (hnodup : (items.map Item.name).Nodup)
    {item : Item τ σ} (hitem : item ∈ items) (hnever : ∀ t, item.skipped t = false) {s : σ}
    (h : (run stage items s).ending = .completed ∨
      ∃ later ∈ (run stage items s).trace.map Prod.fst,
        List.Sublist [item.name, later] (items.map Item.name)) :
    ∃ t, (item.name, t) ∈ (run stage items s).trace ∧
      item.after (stage item.name t) = none := by
  obtain ⟨before, after, rfl⟩ := List.append_of_mem hitem
  apply ran_before_of_notMem hnever
  rcases h with hcompleted | ⟨later, hlater, hsublist⟩
  · exact Or.inl hcompleted
  · right
    obtain ⟨pair, hpair, rfl⟩ := List.mem_map.mp hlater
    refine ⟨pair, hpair, ?_⟩
    rw [List.map_append, List.map_cons] at hnodup hsublist
    have hnot := notMem_of_pair_sublist hnodup hsublist
    simpa using hnot

/-! ## 3. What the stages are handed -/

/-- What every stage keeps, every stage is handed. -/
theorem handed {P : σ → Prop} {items : List (Item τ σ)}
    (hkeeps : ∀ item ∈ items, ∀ t, P t → P (stage item.name t).1) {s : σ} (hs : P s) :
    (∀ pair ∈ (run stage items s).trace, P pair.2) ∧ P (run stage items s).final := by
  induction items generalizing s with
  | nil => exact ⟨fun pair hpair => (by cases hpair), hs⟩
  | cons item items ih =>
    have hrest : ∀ item' ∈ items, ∀ t, P t → P (stage item'.name t).1 := fun item' hitem' =>
      hkeeps item' (List.mem_cons_of_mem _ hitem')
    have hleft := hkeeps item List.mem_cons_self s hs
    cases hskip : item.skipped s with
    | true =>
      rw [run_skipped hskip]
      exact ih hrest hs
    | false =>
      cases hafter : item.after (stage item.name s) with
      | some ending =>
        rw [run_ended hskip hafter]
        refine ⟨fun pair hpair => ?_, hleft⟩
        rw [List.mem_singleton.mp hpair]
        exact hs
      | none =>
        rw [run_went_on hskip hafter]
        obtain ⟨htrace, hfinal⟩ := ih hrest hleft
        refine ⟨fun pair hpair => ?_, hfinal⟩
        rcases List.mem_cons.mp hpair with rfl | hpair
        · exact hs
        · exact htrace pair hpair

/-- A stage whose failure ends the run: where it does not, the rest starts from what it left. -/
theorem run_strict {item : Item τ σ} (hnever : ∀ t, item.skipped t = false)
    (hstops : ∀ t, item.stops t = false) (hstrict : item.tolerant = false)
    (items : List (Item τ σ)) (s : σ) :
    (∃ e, (stage item.name s).2 = some e ∧
      run stage (item :: items) s = ⟨[(item.name, s)], (stage item.name s).1, .failed e⟩) ∨
    (stage item.name s).2 = none ∧
      run stage (item :: items) s =
        { run stage items (stage item.name s).1 with
          trace := (item.name, s) :: (run stage items (stage item.name s).1).trace } := by
  rcases hleft : stage item.name s with ⟨t, _ | e⟩
  · have hafter : item.after (stage item.name s) = none := by
      rw [hleft, Item.after, hstops, if_neg Bool.false_ne_true]
    right
    refine ⟨rfl, ?_⟩
    rw [run_went_on (hnever s) hafter, hleft]
  · have hafter : item.after (stage item.name s) = some (.failed e) := by
      rw [hleft, Item.after, hstrict]
      rfl
    left
    refine ⟨e, rfl, ?_⟩
    rw [run_ended (hnever s) hafter, hleft]

/-- A stage whose failure is passed over never ends the run. -/
theorem run_tolerant {item : Item τ σ} (hnever : ∀ t, item.skipped t = false)
    (hstops : ∀ t, item.stops t = false) (htolerant : item.tolerant = true)
    (items : List (Item τ σ)) (s : σ) :
    run stage (item :: items) s =
      { run stage items (stage item.name s).1 with
        trace := (item.name, s) :: (run stage items (stage item.name s).1).trace } := by
  have hafter : item.after (stage item.name s) = none := by
    rcases stage item.name s with ⟨t, _ | e⟩
    · rw [Item.after, hstops, if_neg Bool.false_ne_true]
    · rw [Item.after, htolerant, Bool.not_true, if_neg Bool.false_ne_true, hstops,
        if_neg Bool.false_ne_true]
  exact run_went_on (hnever s) hafter items

/-- A program of such stages runs to its end. -/
theorem run_all_tolerant {items : List (Item τ σ)}
    (hall : ∀ item ∈ items, (∀ t, item.skipped t = false) ∧ (∀ t, item.stops t = false) ∧
      item.tolerant = true) (s : σ) :
    (run stage items s).ending = .completed ∧
      (run stage items s).trace.map Prod.fst = items.map Item.name := by
  induction items generalizing s with
  | nil => exact ⟨rfl, rfl⟩
  | cons item items ih =>
    obtain ⟨hnever, hstops, htolerant⟩ := hall item List.mem_cons_self
    obtain ⟨hending, htrace⟩ := ih (fun item' hitem' => hall item' (List.mem_cons_of_mem _ hitem'))
      (stage item.name s).1
    rw [run_tolerant hnever hstops htolerant]
    exact ⟨hending, congrArg (item.name :: ·) htrace⟩

end TokenProxy.StagedRun
