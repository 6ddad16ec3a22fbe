/-
  TokenProxy/PriceLookup.lean
  ===========================
  **The row of the price table that is found for a model** (`get_cost_per_1k` of
  `savings/calculator.py`).

  The search keeps the longest key that the model's name contains and, of several of one
  length, the one it meets first.  Two keys of one length need not be the same word, so the
  order of the table can decide.

  Main result: `getCostPer1k_perm_iff`, the price is that of every order of the table exactly
  when all its longest rows have one price.
-/
import TokenProxy.CallPricing
import Mathlib.Data.List.MinMax

namespace TokenProxy.Ledger

open TokenCounter

/-! ## 1. The search -/

section

variable (env : Prices)

/-- A row whose key the model's name contains. -/
def rowMatches (modelLower : String) (row : String × Rates) : Bool :=
  decide (row.1 ≠ "default") && contains (env.rt.lower row.1) modelLower

/-- The rows among which the order decides. -/
structure Longest (model : String) (row : String × Rates) : Prop where
  mem : row ∈ env.pricing
  found : rowMatches env (env.rt.lower model) row = true
  longest : ∀ other ∈ env.pricing, rowMatches env (env.rt.lower model) other = true →
    other.1.length ≤ row.1.length

/-- The row of the first longest key, of a table. -/
def foundRow (model : String) : Option (String × Rates) :=
  (env.pricing.filter (rowMatches env (env.rt.lower model))).argmax fun row => row.1.length

variable {env}

theorem bestRow_of_matches {modelLower : String} {row : String × Rates}
    (h : rowMatches env modelLower row = true) (best : Option (String × Rates)) :
    bestRow env modelLower best row =
      List.argAux (fun b c => c.1.length < b.1.length) best row := by
  rw [rowMatches, Bool.and_eq_true, decide_eq_true_eq] at h
  cases best with
  | none => simp [bestRow, h.1, h.2, List.argAux]
  | some b => simp [bestRow, h.1, h.2, List.argAux]

theorem bestRow_of_not_matches {modelLower : String} {row : String × Rates}
    (h : rowMatches env modelLower row = false) (best : Option (String × Rates)) :
    bestRow env modelLower best row = best := by
  rw [rowMatches, Bool.and_eq_false_iff, decide_eq_false_iff_not, not_not] at h
  rcases h with hdefault | hother
  · simp [bestRow, hdefault]
  · simp [bestRow, hother]

theorem foldl_bestRow (modelLower : String) (rows : List (String × Rates))
    (best : Option (String × Rates)) :
    rows.foldl (bestRow env modelLower) best =
      (rows.filter (rowMatches env modelLower)).foldl
        (List.argAux fun b c => c.1.length < b.1.length) best := by
  induction rows generalizing best with
  | nil => rfl
  | cons row rows ih =>
    cases hrow : rowMatches env modelLower row with
    | true =>
      rw [List.filter_cons_of_pos hrow, List.foldl_cons, List.foldl_cons,
        bestRow_of_matches hrow, ih]
    | false =>
      rw [List.filter_cons_of_neg (by rw [hrow]; exact Bool.false_ne_true), List.foldl_cons,
        bestRow_of_not_matches hrow, ih]

theorem getCostPer1k_of_found {model : String} {row : String × Rates}
    (h : foundRow env model = some row) : getCostPer1k env model = row.2 := by
  have hfold : env.pricing.foldl (bestRow env (env.rt.lower model)) none = some row :=
    (foldl_bestRow _ _ none).trans h
  rw [getCostPer1k, hfold]

theorem getCostPer1k_of_missed {model : String} (h : foundRow env model = none) :
    getCostPer1k env model =
      ((env.pricing.find? fun row => row.1 = "default").map Prod.snd).getD {} := by
  have hfold : env.pricing.foldl (bestRow env (env.rt.lower model)) none = none :=
    (foldl_bestRow _ _ none).trans h
  rw [getCostPer1k, hfold]

theorem longest_of_found {model : String} {row : String × Rates}
    (h : foundRow env model = some row) : Longest env model row := by
  have hmem := List.mem_filter.mp (List.argmax_mem h)
  refine ⟨hmem.1, hmem.2, ?_⟩
  intro other hother hmatches
  have hfiltered : other ∈ env.pricing.filter (rowMatches env (env.rt.lower model)) :=
    List.mem_filter.mpr ⟨hother, hmatches⟩
  exact List.le_of_mem_argmax (f := fun row : String × Rates => row.1.length) hfiltered h

/-- A longest row at the front of the table is found. -/
theorem found_of_head {model : String} {row : String × Rates} (h : Longest env model row)
    {rest : List (String × Rates)} (hrest : env.pricing = row :: rest) :
    foundRow env model = some row := by
  refine List.argmax_eq_some_iff.mpr ⟨List.mem_filter.mpr ⟨h.mem, h.found⟩, ?_, ?_⟩
  · intro other hother
    obtain ⟨hmem, hmatches⟩ := List.mem_filter.mp hother
    exact h.longest other hmem hmatches
  · intro other _ _
    rw [hrest, List.filter_cons_of_pos h.found]
    simp

/-! ## 2. Tables in another order -/

theorem longest_perm {pricing : List (String × Rates)} (h : pricing.Perm env.pricing)
    (model : String) (row : String × Rates) :
    Longest { env with pricing } model row ↔ Longest env model row := by
  constructor
  · rintro ⟨hmem, hfound, hlongest⟩
    exact ⟨h.mem_iff.mp hmem, hfound, fun other hother => hlongest other (h.mem_iff.mpr hother)⟩
  · rintro ⟨hmem, hfound, hlongest⟩
    exact ⟨h.mem_iff.mpr hmem, hfound, fun other hother => hlongest other (h.mem_iff.mp hother)⟩

theorem found_isSome_perm {pricing : List (String × Rates)} (h : pricing.Perm env.pricing)
    (model : String) :
    foundRow { env with pricing } model = none ↔ foundRow env model = none := by
  rw [foundRow, foundRow, List.argmax_eq_none, List.argmax_eq_none]
  have hfilter := h.filter (rowMatches env (env.rt.lower model))
  constructor
  · intro hnil
    exact List.nil_perm.mp (hnil ▸ hfilter)
  · intro hnil
    exact List.perm_nil.mp (hnil ▸ hfilter)

/-- A key that stands in the table once is found in every order. -/
theorem find?_perm {rows rows' : List (String × Rates)} (h : rows'.Perm rows)
    (hkeys : (rows.map Prod.fst).Nodup) (key : String) :
    (rows'.find? fun row => row.1 = key) = rows.find? fun row => row.1 = key := by
  have hone : ∀ row ∈ rows, ∀ row' ∈ rows, row.1 = row'.1 → row = row' :=
    fun row hrow row' hrow' heq => List.inj_on_of_nodup_map hkeys hrow hrow' heq
  cases hfind : rows.find? fun row => row.1 = key with
  | none =>
    rw [List.find?_eq_none] at hfind ⊢
    exact fun row hrow => hfind row (h.mem_iff.mp hrow)
  | some row =>
    have hkey : row.1 = key := by simpa using List.find?_some hfind
    have hmem : row ∈ rows := List.mem_of_find?_eq_some hfind
    cases hfind' : rows'.find? fun row => row.1 = key with
    | none =>
      rw [List.find?_eq_none] at hfind'
      exact absurd (decide_eq_true hkey) (hfind' row (h.mem_iff.mpr hmem))
    | some row' =>
      have hkey' : row'.1 = key := by simpa using List.find?_some hfind'
      have hmem' : row' ∈ rows := h.mem_iff.mp (List.mem_of_find?_eq_some hfind')
      rw [hone row' hmem' row hmem (hkey'.trans hkey.symm)]

/-- **The price does not depend on the order of the table exactly when the longest rows that
match agree on it.** -/
theorem getCostPer1k_perm_iff (hkeys : (env.pricing.map Prod.fst).Nodup) (model : String) :
    (∀ pricing, pricing.Perm env.pricing →
        getCostPer1k { env with pricing } model = getCostPer1k env model) ↔
      ∀ row row', Longest env model row → Longest env model row' → row.2 = row'.2 := by
  constructor
  · intro h
    -- the table with a longest row moved to its front gives that row's price
    have hprice : ∀ row, Longest env model row → row.2 = getCostPer1k env model := by
      intro row hrow
      have hperm : (row :: env.pricing.erase row).Perm env.pricing :=
        (List.perm_cons_erase hrow.mem).symm
      have hfirst := found_of_head ((longest_perm hperm model row).mpr hrow) rfl
      rw [← h _ hperm, getCostPer1k_of_found hfirst]
    intro row row' hrow hrow'
    exact (hprice row hrow).trans (hprice row' hrow').symm
  · intro h pricing hperm
    cases hfound : foundRow env model with
    | none =>
      rw [getCostPer1k_of_missed hfound,
        getCostPer1k_of_missed ((found_isSome_perm hperm model).mpr hfound)]
      dsimp only
      rw [find?_perm hperm hkeys]
    | some row =>
      cases hfound' : foundRow { env with pricing } model with
      | none =>
        rw [(found_isSome_perm hperm model).mp hfound'] at hfound
        cases hfound
      | some row' =>
        rw [getCostPer1k_of_found hfound, getCostPer1k_of_found hfound']
        exact h row' row ((longest_perm hperm model row').mp (longest_of_found hfound'))
          (longest_of_found hfound)

end

/-! ### Two keys of one length -/

section

def pricedBy (pricing : List (String × Rates)) : Prices where
  rt := gateway
  pricing
  reasoningRateMultiplier := 1
  batchDiscount := 1
  intOf := fun _ => none
  dictOf := fun _ => none

/-- The longest key is the only one of its length. -/
theorem getCostPer1k_reordered :
    getCostPer1k (pricedBy [("gpt-4o-mini", ⟨3 / 20000, 3 / 5000⟩), ("gpt-4o", ⟨1 / 400, 1 / 100⟩)])
        "gpt-4o-mini" =
      getCostPer1k (pricedBy [("gpt-4o", ⟨1 / 400, 1 / 100⟩), ("gpt-4o-mini", ⟨3 / 20000, 3 / 5000⟩)])
        "gpt-4o-mini" := by
  have hkeys : ((pricedBy [("gpt-4o", ⟨1 / 400, 1 / 100⟩),
      ("gpt-4o-mini", ⟨3 / 20000, 3 / 5000⟩)]).pricing.map Prod.fst).Nodup := by
    decide
  refine (getCostPer1k_perm_iff hkeys "gpt-4o-mini").mpr ?_ _ (List.Perm.swap _ _ _)
  have hmini : ∀ row, Longest (pricedBy [("gpt-4o", ⟨1 / 400, 1 / 100⟩),
      ("gpt-4o-mini", ⟨3 / 20000, 3 / 5000⟩)]) "gpt-4o-mini" row →
      row.2 = ⟨3 / 20000, 3 / 5000⟩ := by
    intro row hrow
    rcases List.mem_cons.mp hrow.mem with rfl | hmem
    · have hle := hrow.longest ("gpt-4o-mini", ⟨3 / 20000, 3 / 5000⟩)
        (List.mem_cons_of_mem _ List.mem_cons_self) (by decide +kernel)
      exact absurd hle (by decide)
    · rw [List.mem_singleton.mp hmem]
  intro row row' hrow hrow'
  rw [hmini row hrow, hmini row' hrow']

/-- `deepseek` and `opencode` are both in the model's name, and both have eight letters. -/
theorem not_getCostPer1k_reordered :
    ¬ ∀ (env : Prices) (pricing : List (String × Rates)) (model : String),
      (env.pricing.map Prod.fst).Nodup → pricing.Perm env.pricing →
      getCostPer1k { env with pricing } model = getCostPer1k env model := by
  intro h
  have hsame := h (pricedBy [("deepseek", ⟨1 / 2000, 1 / 1000⟩), ("opencode", ⟨1 / 400, 1 / 100⟩)])
    [("opencode", ⟨1 / 400, 1 / 100⟩), ("deepseek", ⟨1 / 2000, 1 / 1000⟩)]
    "opencode/deepseek-v4-pro" (by decide) (List.Perm.swap _ _ _)
  have hfirst : getCostPer1k (pricedBy [("deepseek", ⟨1 / 2000, 1 / 1000⟩),
      ("opencode", ⟨1 / 400, 1 / 100⟩)]) "opencode/deepseek-v4-pro" =
      ⟨1 / 2000, 1 / 1000⟩ := by
    decide +kernel
  have hsecond : getCostPer1k (pricedBy [("opencode", ⟨1 / 400, 1 / 100⟩),
      ("deepseek", ⟨1 / 2000, 1 / 1000⟩)]) "opencode/deepseek-v4-pro" =
      ⟨1 / 400, 1 / 100⟩ := by
    decide +kernel
  have hprices : (⟨1 / 2000, 1 / 1000⟩ : Rates) = ⟨1 / 400, 1 / 100⟩ :=
    hfirst.symm.trans (hsame.symm.trans hsecond)
  exact absurd (congrArg Rates.input hprices) (by norm_num)

end

end TokenProxy.Ledger
