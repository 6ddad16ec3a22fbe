/-
  TokenProxy/SubScan.lean
  =======================
  **Substituting the matches of a pattern, from left to right.**

  A pattern looks at the symbol before a place and at what follows, and says how much of the
  match is kept and how long the match is; a fixed insert stands for the rest.  A scan is in a
  match as long as `skip` symbols of it are ahead.

  Main results: `subFrom_append`, a scan cut in two; `exists_of_subFrom_eq`, where a word in
  the outcome comes from, when the insert has neither the word nor, at its ends, a symbol of
  the word's kind; `exists_match`, the match that a scan is in.
-/
import Mathlib.Data.List.Infix
import Mathlib.Data.List.TakeWhile

namespace TokenProxy.SubScan

variable {α : Type*}

/-! ## 1. Scans -/

/-- How much of a match is kept, and how long it is. -/
abbrev Pattern (α : Type*) := Option α → List α → Option (Nat × Nat)

variable (m : Pattern α) (ins : List α)

def subFrom : Nat → Option α → List α → List α
  | _, _, [] => []
  | skip + 1, _, c :: cs => subFrom skip (some c) cs
  | 0, prev, c :: cs =>
    match m prev (c :: cs) with
    | some (keep, length) =>
      (c :: cs).take keep ++ ins ++ subFrom (length - 1) (some c) cs
    | none => c :: subFrom 0 (some c) cs

/-- `pattern.sub(…, text)` -/
def sub (s : List α) : List α := subFrom m ins 0 none s

/-- How much of a match is ahead after the first part of a text. -/
def skipAfter : Nat → Option α → List α → List α → Nat
  | skip, _, [], _ => skip
  | skip + 1, _, c :: cs, rest => skipAfter skip (some c) cs rest
  | 0, prev, c :: cs, rest =>
    match m prev (c :: cs ++ rest) with
    | some (_, length) => skipAfter (length - 1) (some c) cs rest
    | none => skipAfter 0 (some c) cs rest

/-- What is put out by the end of the first part of a text. -/
def outOf : Nat → Option α → List α → List α → List α
  | _, _, [], _ => []
  | skip + 1, _, c :: cs, rest => outOf skip (some c) cs rest
  | 0, prev, c :: cs, rest =>
    match m prev (c :: cs ++ rest) with
    | some (keep, length) =>
      (c :: cs ++ rest).take keep ++ ins ++ outOf (length - 1) (some c) cs rest
    | none => c :: outOf 0 (some c) cs rest

/-- The symbol before what follows a part. -/
def lastOr (prev : Option α) (s : List α) : Option α := s.getLast?.or prev

variable {m ins}

theorem lastOr_cons (prev : Option α) (c : α) (cs : List α) :
    lastOr prev (c :: cs) = lastOr (some c) cs := by
  cases cs with
  | nil => rfl
  | cons c' cs =>
    rw [lastOr, lastOr, List.getLast?_cons_cons]
    obtain ⟨last, hlast⟩ : ∃ last, (c' :: cs).getLast? = some last :=
      ⟨_, List.getLast?_eq_some_getLast (List.cons_ne_nil c' cs)⟩
    rw [hlast]
    rfl

theorem lastOr_concat (prev : Option α) (s : List α) (c : α) : lastOr prev (s ++ [c]) = some c := by
  rw [lastOr, List.getLast?_concat]
  rfl

theorem subFrom_append (skip : Nat) (prev : Option α) (s rest : List α) :
    subFrom m ins skip prev (s ++ rest) =
      outOf m ins skip prev s rest ++
        subFrom m ins (skipAfter m skip prev s rest) (lastOr prev s) rest := by
  induction s generalizing skip prev with
  | nil =>
    cases rest with
    | nil => cases skip <;> rfl
    | cons c cs => rfl
  | cons c cs ih =>
    rw [lastOr_cons]
    cases skip with
    | succ skip => exact ih skip (some c)
    | zero =>
      rw [List.cons_append, subFrom, outOf, skipAfter, ← List.cons_append]
      cases hm : m prev (c :: cs ++ rest) with
      | none =>
        simp only [List.cons_append]
        rw [ih 0 (some c)]
      | some hit =>
        obtain ⟨keep, length⟩ := hit
        simp only
        rw [ih (length - 1) (some c)]
        simp only [List.append_assoc, List.cons_append]

theorem skipAfter_append (skip : Nat) (prev : Option α) (s s' rest : List α) :
    skipAfter m skip prev (s ++ s') rest =
      skipAfter m (skipAfter m skip prev s (s' ++ rest)) (lastOr prev s) s' rest := by
  induction s generalizing skip prev with
  | nil =>
    cases s' with
    | nil => cases skip <;> rfl
    | cons c cs => rfl
  | cons c cs ih =>
    rw [lastOr_cons]
    cases skip with
    | succ skip => exact ih skip (some c)
    | zero =>
      rw [List.cons_append, skipAfter, skipAfter, List.cons_append, List.cons_append,
        List.append_assoc]
      cases hm : m prev (c :: (cs ++ (s' ++ rest))) with
      | none => exact ih 0 (some c)
      | some hit => exact ih (hit.2 - 1) (some c)

theorem outOf_append (skip : Nat) (prev : Option α) (s s' rest : List α) :
    outOf m ins skip prev (s ++ s') rest =
      outOf m ins skip prev s (s' ++ rest) ++
        outOf m ins (skipAfter m skip prev s (s' ++ rest)) (lastOr prev s) s' rest := by
  induction s generalizing skip prev with
  | nil =>
    cases s' with
    | nil => cases skip <;> rfl
    | cons c cs => rfl
  | cons c cs ih =>
    rw [lastOr_cons]
    cases skip with
    | succ skip => exact ih skip (some c)
    | zero =>
      rw [List.cons_append, outOf, outOf, skipAfter, List.cons_append, List.cons_append,
        List.append_assoc]
      cases hm : m prev (c :: (cs ++ (s' ++ rest))) with
      | none =>
        simp only [List.cons_append]
        rw [ih 0 (some c)]
      | some hit =>
        obtain ⟨keep, length⟩ := hit
        simp only
        rw [ih (length - 1) (some c)]
        simp only [List.append_assoc]

theorem skipAfter_of_le {skip : Nat} {s : List α} (h : s.length ≤ skip) (prev : Option α)
    (rest : List α) : skipAfter m skip prev s rest = skip - s.length := by
  induction s generalizing skip prev with
  | nil => cases skip <;> rfl
  | cons c cs ih =>
    cases skip with
    | zero => exact absurd h (Nat.not_succ_le_zero cs.length)
    | succ skip =>
      rw [skipAfter, ih (Nat.le_of_succ_le_succ h), List.length_cons, Nat.succ_sub_succ]

/-! ## 2. Where a word comes from -/

theorem behind_of_not_mem {P Q A B : List α} {x : α} (h : P ++ Q = A ++ x :: B)
    (hx : x ∉ P) : ∃ A', A = P ++ A' ∧ Q = A' ++ x :: B := by
  rcases List.append_eq_append_iff.mp h with ⟨A', hA, hQ⟩ | ⟨B', hP, hB⟩
  · exact ⟨A', hA, hQ⟩
  · cases B' with
    | nil =>
      rw [List.append_nil] at hP
      exact ⟨[], by rw [hP, List.append_nil], hB.symm⟩
    | cons b B' =>
      rw [List.cons_append, List.cons.injEq] at hB
      refine absurd ?_ hx
      rw [hP, hB.1]
      exact List.mem_append_right A List.mem_cons_self

/-- A part whose head stands there only once is in one place. -/
theorem place_unique {A cs L w R : List α} {x : α} (hA : x ∉ A) (hcs : x ∉ cs)
    (h : A ++ x :: cs = L ++ ((x :: w) ++ R)) : L = A ∧ cs = w ++ R := by
  obtain ⟨A', hL, htail⟩ := behind_of_not_mem h hA
  cases A' with
  | nil =>
    rw [List.append_nil] at hL
    rw [List.nil_append, List.cons.injEq] at htail
    exact ⟨hL, htail.2⟩
  | cons a A' =>
    rw [List.cons_append, List.cons.injEq] at htail
    refine absurd ?_ hcs
    rw [htail.2]
    exact List.mem_append_right A' List.mem_cons_self

theorem before_of_not_mem {P Q A B : List α} {x : α} (h : P ++ Q = A ++ x :: B)
    (hx : x ∉ Q) : ∃ B', P = A ++ x :: B' := by
  rcases List.append_eq_append_iff.mp h with ⟨A', hA, hQ⟩ | ⟨B', hP, hB⟩
  · refine absurd ?_ hx
    rw [hQ]
    exact List.mem_append_right A' List.mem_cons_self
  · cases B' with
    | nil =>
      refine absurd ?_ hx
      rw [← List.nil_append Q, ← hB]
      exact List.mem_cons_self
    | cons b B' =>
      rw [List.cons_append, List.cons.injEq] at hB
      exact ⟨B', by rw [hP, hB.1]⟩

/-- The kept part of every match is of symbols `T`, and a match is longer than what it keeps. -/
def Keeps (m : Pattern α) (T : α → Prop) : Prop :=
  ∀ prev s keep length, m prev s = some (keep, length) →
    (∀ c ∈ s.take keep, T c) ∧ keep < length ∧ length ≤ s.length

/-- An insert with no symbol of the kind at its ends. -/
structure Fenced (K : α → Prop) (ins : List α) : Prop where
  first : ∃ a w, ins = a :: w ∧ ¬ K a
  last : ∃ w b, ins = w ++ [b] ∧ ¬ K b

variable {K T : α → Prop} {v : List α}

/-- A word before a fence is before it altogether. -/
theorem prefix_of_append_fence {a : α} {w front rest : List α} (ha : ¬ K a) (hv : ∀ c ∈ v, K c)
    (h : v <+: front ++ a :: w ++ rest) : v <+: front := by
  induction front generalizing v with
  | nil =>
    cases v with
    | nil => exact List.nil_prefix
    | cons c v =>
      obtain ⟨tail, htail⟩ := h
      have hhead : c = a := by
        simp only [List.nil_append, List.cons_append, List.cons.injEq] at htail
        exact htail.1
      exact absurd (hhead ▸ hv c List.mem_cons_self) ha
  | cons b front ih =>
    cases v with
    | nil => exact List.nil_prefix
    | cons c v =>
      obtain ⟨tail, htail⟩ := h
      simp only [List.cons_append, List.cons.injEq] at htail
      obtain ⟨hcb, hrest⟩ := htail
      have hprefix : v <+: front := by
        apply ih (fun x hx => hv x (List.mem_cons_of_mem c hx))
        exact ⟨tail, by simpa using hrest⟩
      rw [hcb]
      exact List.cons_prefix_cons.mpr ⟨rfl, hprefix⟩

/-- A scan that puts out a word first has read it first. -/
theorem prefix_of_subFrom (hfence : Fenced K ins) (hv : ∀ c ∈ v, K c) {prev : Option α}
    {s Y : List α} (h : subFrom m ins 0 prev s = v ++ Y) : v <+: s := by
  induction s generalizing prev v with
  | nil =>
    have hnil : v = [] := by
      rw [subFrom] at h
      exact (List.append_eq_nil_iff.mp h.symm).1
    subst hnil
    exact List.nil_prefix
  | cons c cs ih =>
    rw [subFrom] at h
    cases hm : m prev (c :: cs) with
    | none =>
      rw [hm] at h
      cases v with
      | nil => exact List.nil_prefix
      | cons d v =>
        simp only [List.cons_append, List.cons.injEq] at h
        rw [h.1]
        exact List.cons_prefix_cons.mpr
          ⟨rfl, ih (fun x hx => hv x (List.mem_cons_of_mem d hx)) h.2⟩
    | some hit =>
      obtain ⟨keep, length⟩ := hit
      rw [hm] at h
      obtain ⟨a, w, hins, ha⟩ := hfence.first
      simp only [hins] at h
      have hfront : v <+: (c :: cs).take keep := by
        apply prefix_of_append_fence ha hv
        exact ⟨Y, h.symm⟩
      exact hfront.trans (List.take_prefix _ _)

/-- A word that begins inside an insert is inside it altogether. -/
theorem infix_of_split_insert (hfence : Fenced K ins) (hv : ∀ c ∈ v, K c)
    {before after rest Y : List α} (hsplit : ins = before ++ after) (hafter : after ≠ [])
    (h : v ++ Y = after ++ rest) : v <:+: ins := by
  obtain ⟨w, b, hins, hb⟩ := hfence.last
  have hlast : after = after.dropLast ++ [b] := by
    have hb' : after.getLast hafter = b := by
      have hget : (before ++ after).getLast? = (w ++ [b]).getLast? := by rw [← hsplit, hins]
      rw [List.getLast?_append_of_ne_nil before hafter, List.getLast?_concat,
        List.getLast?_eq_some_getLast hafter] at hget
      exact Option.some.inj hget
    rw [← hb', List.dropLast_append_getLast]
  have hfront : v <+: after.dropLast := by
    have hrest : after.dropLast ++ b :: [] ++ rest = v ++ Y := by
      rw [h]
      conv => rhs; rw [hlast]
    exact prefix_of_append_fence hb hv ⟨Y, hrest.symm⟩
  rw [hsplit]
  exact (hfront.trans (List.dropLast_prefix after)).isInfix.trans
    (List.suffix_append before after).isInfix

theorem exists_of_subFrom_eq (hkeeps : Keeps m T) (hfence : Fenced K ins)
    (hv : ∀ c ∈ v, K c) (hne : v ≠ []) (hins : ¬ v <:+: ins) {skip : Nat} {prev : Option α}
    {s X Y : List α} (h : subFrom m ins skip prev s = X ++ (v ++ Y)) :
    ∃ L R, s = L ++ (v ++ R) ∧
      ((skipAfter m skip prev L (v ++ R) = 0 ∧ X = outOf m ins skip prev L (v ++ R) ∧
          subFrom m ins 0 (lastOr prev L) (v ++ R) = v ++ Y) ∨
        ∃ l, L.getLast? = some l ∧ T l) := by
  induction s generalizing skip prev X with
  | nil =>
    have hnil : v = [] := by
      rw [show subFrom m ins skip prev [] = [] by cases skip <;> rfl] at h
      exact (List.append_eq_nil_iff.mp (List.append_eq_nil_iff.mp h.symm).2).1
    exact absurd hnil hne
  | cons c cs ih =>
    have hpast : ∀ {L : List α} {l : α}, L.getLast? = some l → (c :: L).getLast? = some l := by
      intro L l hl
      rw [List.getLast?_cons, hl]
      rfl
    cases skip with
    | succ skip =>
      obtain ⟨L, R, hs, hwhere⟩ := ih h
      refine ⟨c :: L, R, by rw [hs, List.cons_append], ?_⟩
      rcases hwhere with ⟨hskip, hX, hout⟩ | ⟨l, hl, hT⟩
      · exact Or.inl ⟨hskip, hX, by rw [lastOr_cons]; exact hout⟩
      · exact Or.inr ⟨l, hpast hl, hT⟩
    | zero =>
      cases X with
      | nil =>
        obtain ⟨R, hR⟩ := prefix_of_subFrom hfence hv h
        refine ⟨[], R, hR.symm, Or.inl ⟨rfl, rfl, ?_⟩⟩
        rw [hR]
        exact h
      | cons x X =>
        rw [subFrom] at h
        cases hm : m prev (c :: cs) with
        | none =>
          rw [hm] at h
          simp only [List.cons_append, List.cons.injEq] at h
          obtain ⟨hc, hrest⟩ := h
          obtain ⟨L, R, hs, hwhere⟩ := ih hrest
          refine ⟨c :: L, R, by rw [hs, List.cons_append], ?_⟩
          have hm' : m prev (c :: L ++ (v ++ R)) = none := by
            rw [List.cons_append, ← hs]
            exact hm
          rcases hwhere with ⟨hskip, hX, hout⟩ | ⟨l, hl, hT⟩
          · refine Or.inl ⟨?_, ?_, by rw [lastOr_cons]; exact hout⟩
            · rw [skipAfter, hm']
              exact hskip
            · rw [outOf, hm']
              simp only
              rw [hc, hX, ← hc]
          · exact Or.inr ⟨l, hpast hl, hT⟩
        | some hit =>
          obtain ⟨keep, length⟩ := hit
          obtain ⟨hT, hkeep, hlength⟩ := hkeeps _ _ _ _ hm
          rw [hm] at h
          simp only [List.append_assoc] at h
          have hafter : ∀ {B : List α}, x :: X = (c :: cs).take keep ++ (ins ++ B) →
              subFrom m ins (length - 1) (some c) cs = B ++ (v ++ Y) →
              ∃ L R, c :: cs = L ++ (v ++ R) ∧
                ((skipAfter m 0 prev L (v ++ R) = 0 ∧ x :: X = outOf m ins 0 prev L (v ++ R) ∧
                    subFrom m ins 0 (lastOr prev L) (v ++ R) = v ++ Y) ∨
                  ∃ l, L.getLast? = some l ∧ T l) := by
            intro B hX hrest
            obtain ⟨L, R, hs, hwhere⟩ := ih hrest
            refine ⟨c :: L, R, by rw [hs, List.cons_append], ?_⟩
            have hm' : m prev (c :: L ++ (v ++ R)) = some (keep, length) := by
              rw [List.cons_append, ← hs]
              exact hm
            rcases hwhere with ⟨hskip, hB, hout⟩ | ⟨l, hl, hl'⟩
            · refine Or.inl ⟨?_, ?_, by rw [lastOr_cons]; exact hout⟩
              · rw [skipAfter, hm']
                exact hskip
              · rw [outOf, hm']
                simp only
                rw [hX, hB, List.append_assoc, List.cons_append, ← hs]
            · exact Or.inr ⟨l, hpast hl, hl'⟩
          rcases List.append_eq_append_iff.mp h with ⟨A, hX, hrest⟩ | ⟨A, hkept, hrest⟩
          · rcases List.append_eq_append_iff.mp hrest with ⟨B, hA, hrest'⟩ | ⟨B, hsplit, hrest'⟩
            · exact hafter (by rw [hX, hA]) hrest'
            · cases B with
              | nil =>
                rw [List.append_nil] at hsplit
                exact hafter (B := []) (by rw [hX, hsplit, List.append_nil]) hrest'.symm
              | cons b B =>
                exact absurd
                  (infix_of_split_insert hfence hv hsplit (List.cons_ne_nil b B) hrest') hins
          · -- the word begins in what is kept, behind its first symbol
            obtain ⟨a, w, ha, hKa⟩ := hfence.first
            have hA : v <+: A := by
              apply prefix_of_append_fence hKa hv
              refine ⟨Y, ?_⟩
              rw [hrest, ha, List.append_assoc]
            obtain ⟨R, hR⟩ := hA
            refine ⟨x :: X, R ++ (c :: cs).drop keep, ?_, Or.inr ?_⟩
            · conv => lhs; rw [← List.take_append_drop keep (c :: cs), hkept, ← hR]
              simp only [List.append_assoc]
            · refine ⟨(x :: X).getLast (List.cons_ne_nil x X),
                List.getLast?_eq_some_getLast (List.cons_ne_nil x X), ?_⟩
              apply hT
              rw [hkept]
              exact List.mem_append_left A (List.getLast_mem (List.cons_ne_nil x X))

/-! ## 3. Inside a match -/

/-- A match covers the place between two parts of a text. -/
def Inside (m : Pattern α) (L R : List α) : Prop := 0 < skipAfter m 0 none L R

instance (L R : List α) : Decidable (Inside m L R) :=
  inferInstanceAs (Decidable (0 < skipAfter m 0 none L R))

theorem match_or_skip (skip : Nat) (prev : Option α) (L R : List α)
    (h : 0 < skipAfter m skip prev L R) :
    (L.length < skip ∧ skipAfter m skip prev L R = skip - L.length) ∨
      ∃ L₁ M keep, L = L₁ ++ M ∧ M ≠ [] ∧
        m (lastOr prev L₁) (M ++ R) = some (keep, M.length + skipAfter m skip prev L R) := by
  induction L generalizing skip prev with
  | nil =>
    rw [show skipAfter m skip prev [] R = skip by cases skip <;> rfl] at h ⊢
    exact Or.inl ⟨h, rfl⟩
  | cons c cs ih =>
    cases skip with
    | succ skip =>
      rw [skipAfter] at h ⊢
      rcases ih skip (some c) h with ⟨hlt, heq⟩ | ⟨L₁, M, keep, hL, hM, hm⟩
      · refine Or.inl ⟨Nat.succ_lt_succ hlt, ?_⟩
        rw [heq, List.length_cons, Nat.succ_sub_succ]
      · refine Or.inr ⟨c :: L₁, M, keep, by rw [hL, List.cons_append], hM, ?_⟩
        rw [lastOr_cons]
        exact hm
    | zero =>
      rw [skipAfter] at h ⊢
      cases hm : m prev (c :: cs ++ R) with
      | none =>
        rw [hm] at h
        rcases ih 0 (some c) h with ⟨hlt, -⟩ | ⟨L₁, M, keep, hL, hM, hmatch⟩
        · exact absurd hlt (Nat.not_lt_zero cs.length)
        · refine Or.inr ⟨c :: L₁, M, keep, by rw [hL, List.cons_append], hM, ?_⟩
          rw [lastOr_cons]
          exact hmatch
      | some hit =>
        obtain ⟨keep, length⟩ := hit
        rw [hm] at h
        rcases ih (length - 1) (some c) h with ⟨hlt, heq⟩ | ⟨L₁, M, keep', hL, hM, hmatch⟩
        · refine Or.inr ⟨[], c :: cs, keep, rfl, List.cons_ne_nil c cs, ?_⟩
          have hlength : (c :: cs).length + (length - 1 - cs.length) = length := by
            rw [List.length_cons]
            omega
          simp only
          rw [heq, hlength]
          exact hm
        · refine Or.inr ⟨c :: L₁, M, keep', by rw [hL, List.cons_append], hM, ?_⟩
          rw [lastOr_cons]
          exact hmatch

/-- The match that a scan is in. -/
theorem exists_match {prev : Option α} {L R : List α} (h : 0 < skipAfter m 0 prev L R) :
    ∃ L₁ M keep, L = L₁ ++ M ∧ M ≠ [] ∧
      m (lastOr prev L₁) (M ++ R) = some (keep, M.length + skipAfter m 0 prev L R) := by
  rcases match_or_skip 0 prev L R h with ⟨hlt, -⟩ | hmatch
  · exact absurd hlt (Nat.not_lt_zero L.length)
  · exact hmatch

theorem insert_of_skip {prev : Option α} {L R : List α} (h : 0 < skipAfter m 0 prev L R) :
    ∃ A B, subFrom m ins 0 prev (L ++ R) = A ++ (ins ++ B) := by
  induction L generalizing prev with
  | nil => exact absurd h (Nat.lt_irrefl 0)
  | cons c cs ih =>
    rw [skipAfter] at h
    rw [List.cons_append, subFrom, ← List.cons_append]
    cases hm : m prev (c :: cs ++ R) with
    | none =>
      rw [hm] at h
      obtain ⟨A, B, hAB⟩ := @ih (some c) h
      refine ⟨c :: A, B, ?_⟩
      simp only
      rw [hAB, List.cons_append]
    | some hit =>
      exact ⟨_, _, List.append_assoc _ _ _⟩

/-- A pattern all of whose matches end where `E` holds of the rest. -/
def Ends (m : Pattern α) (E : List α → Prop) : Prop :=
  ∀ prev s keep length, m prev s = some (keep, length) → E (s.drop length)

theorem end_of_skip {E : List α → Prop} (hends : Ends m E) {prev : Option α} {L R : List α}
    (h : 0 < skipAfter m 0 prev L R) : E (R.drop (skipAfter m 0 prev L R)) := by
  obtain ⟨L₁, M, keep, -, -, hm⟩ := exists_match h
  have hend := hends _ _ _ _ hm
  rwa [List.drop_append, List.drop_eq_nil_of_le (Nat.le_add_right _ _), List.nil_append,
    Nat.add_sub_cancel_left] at hend

/-- A symbol that no match begins with is put out, where none ends right behind it. -/
theorem last_of_outOf {E : List α → Prop} (hends : Ends m E) {e : α} {rest : List α}
    (hbegin : ∀ prev, m prev (e :: rest) = none) (hrest : ¬ E rest) {L₀ : List α}
    (h : skipAfter m 0 none (L₀ ++ [e]) rest = 0) :
    outOf m ins 0 none (L₀ ++ [e]) rest = outOf m ins 0 none L₀ (e :: rest) ++ [e] := by
  rw [skipAfter_append] at h
  rw [outOf_append]
  cases hskip : skipAfter m 0 none L₀ ([e] ++ rest) with
  | zero =>
    rw [outOf, List.singleton_append, hbegin]
    rfl
  | succ skip =>
    have hin : 0 < skipAfter m 0 none L₀ ([e] ++ rest) := by
      rw [hskip]
      exact Nat.succ_pos skip
    have hend := end_of_skip hends hin
    rw [hskip] at h hend
    rw [skipAfter] at h
    cases skip with
    | zero => exact absurd hend hrest
    | succ skip => exact absurd h (Nat.succ_ne_zero skip)

/-- The symbols of the kind `p` at the start of a text are those at the start of its outcome. -/
theorem takeWhile_subFrom {p : α → Bool}
    (hmatch : ∀ prev s keep length, m prev s = some (keep, length) → s.takeWhile p = s.take keep)
    (hins : ∃ a w, ins = a :: w ∧ p a = false) (prev : Option α) (s : List α) :
    (subFrom m ins 0 prev s).takeWhile p = s.takeWhile p := by
  induction s generalizing prev with
  | nil => rfl
  | cons c cs ih =>
    rw [subFrom]
    cases hm : m prev (c :: cs) with
    | none =>
      simp only [List.takeWhile_cons]
      rw [ih (some c)]
    | some hit =>
      obtain ⟨keep, length⟩ := hit
      obtain ⟨a, w, ha, hpa⟩ := hins
      have hkeep := hmatch _ _ _ _ hm
      have hall : ∀ x ∈ (c :: cs).take keep, p x = true := by
        intro x hx
        rw [← hkeep] at hx
        exact List.mem_takeWhile_imp hx
      simp only [ha, List.append_assoc, List.cons_append]
      rw [List.takeWhile_append_of_pos hall, List.takeWhile_cons, hpa, hkeep]
      exact List.append_nil _

end TokenProxy.SubScan
