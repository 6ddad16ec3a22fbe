/-
  TokenProxy/Regex.lean
  =====================
  **Regular expressions as a backtracking matcher tries them.**

  `ends` lists where a match may end, in the order in which the matcher tries them; the first one
  counts.  An assertion sees all that is before (the nearest symbol first) and all that follows.
  A repetition goes on only behind a round that takes something.

  Main results: `matches_of_mem_ends`, every end comes from a derivation (`Matches`); what a
  derivation says of the word it takes, read off the expression (`avoids`, `leaves`, `startsOff`,
  `endsOff`, `width`); `head?_ends_greedy`, a greedy run stops at the last end that there is;
  `text_finditer` and `length_sub_le`, what substituting the matches does to a text.
-/
import Mathlib.Data.List.Basic

namespace TokenProxy

variable {α : Type*}

inductive Regex (α : Type*) where
  /-- one symbol of a class -/
  | cls (p : α → Bool)
  /-- an assertion about what is before, the nearest symbol first, and what follows -/
  | look (q : List α → List α → Bool)
  /-- `(?=…)` -/
  | ahead (r : Regex α)
  | seq (r t : Regex α)
  | alt (r t : Regex α)
  | star (greedy : Bool) (r : Regex α)

namespace Regex

/-! ## 1. Expressions -/

def nothing : Regex α := .look fun _ _ => true

/-- `r?` -/
def opt (r : Regex α) : Regex α := .alt r nothing

/-- `r+` -/
def plus (r : Regex α) : Regex α := .seq r (.star true r)

/-- The symbols of a word one by one, each as `eq` compares it. -/
def word (eq : α → α → Bool) : List α → Regex α
  | [] => nothing
  | c :: cs => .seq (.cls (eq c)) (word eq cs)

/-- `r{0,n}` -/
def upTo (r : Regex α) : Nat → Regex α
  | 0 => nothing
  | n + 1 => opt (.seq r (upTo r n))

/-- The first expression or one of the others. -/
def oneOf (r : Regex α) : List (Regex α) → Regex α
  | [] => r
  | t :: rest => .alt r (oneOf t rest)

/-- One expression behind the other. -/
def chain (r : Regex α) : List (Regex α) → Regex α
  | [] => r
  | t :: rest => .seq r (chain t rest)

/-! ## 2. Matching -/

/-- What is before a place, the nearest symbol first, and what follows it. -/
abbrev Place (α : Type*) := List α × List α

/-- Rounds of a repetition. -/
def rounds (greedy : Bool) (one : List α → List α → List (Place α)) :
    Nat → List α → List α → List (Place α)
  | 0, before, s => [(before, s)]
  | fuel + 1, before, s =>
    let more := (one before s).flatMap fun e =>
      if e.2.length < s.length then rounds greedy one fuel e.1 e.2 else []
    if greedy then more ++ [(before, s)] else (before, s) :: more

/-- Where a match may end, in the order in which the ends are tried. -/
def ends : Regex α → List α → List α → List (Place α)
  | .cls _, _, [] => []
  | .cls p, before, c :: cs => if p c then [(c :: before, cs)] else []
  | .look q, before, s => if q before s then [(before, s)] else []
  | .ahead r, before, s => if (ends r before s).isEmpty then [] else [(before, s)]
  | .seq r t, before, s => (ends r before s).flatMap fun e => ends t e.1 e.2
  | .alt r t, before, s => ends r before s ++ ends t before s
  | .star greedy r, before, s => rounds greedy (ends r) s.length before s

/-- The word that is matched at a place, if it is not empty. -/
def matchAt (r : Regex α) (before s : List α) : Option (List α) :=
  ((ends r before s).head?.map fun e => s.take (s.length - e.2.length)).filter (· ≠ [])

/-- A text taken apart: a symbol outside the matches, or a match. -/
inductive Piece (α : Type*) where
  | lit (c : α)
  | hit (w : List α)

def Piece.text : Piece α → List α
  | .lit c => [c]
  | .hit w => w

def scan (r : Regex α) : Nat → List α → List α → List (Piece α)
  | 0, _, _ => []
  | _ + 1, _, [] => []
  | fuel + 1, before, c :: cs =>
    match matchAt r before (c :: cs) with
    | some w => .hit w :: scan r fuel (w.reverse ++ before) ((c :: cs).drop w.length)
    | none => .lit c :: scan r fuel (c :: before) cs

/-- `finditer`, with what is between the matches. -/
def finditer (r : Regex α) (s : List α) : List (Piece α) := scan r s.length [] s

/-- A part with its match replaced. -/
def Piece.replace (repl : List α → List α) : Piece α → List α
  | .lit c => [c]
  | .hit w => repl w

/-- `r.sub(repl, s)` -/
def sub (r : Regex α) (repl : List α → List α) (s : List α) : List α :=
  (finditer r s).flatMap (Piece.replace repl)

/-! ## 3. Derivations -/

/-- `Matches r before w after`: the expression takes `w` between the two. -/
inductive Matches : Regex α → List α → List α → List α → Prop
  | cls {p : α → Bool} {before after : List α} {c : α} :
      p c = true → Matches (.cls p) before [c] after
  | look {q : List α → List α → Bool} {before after : List α} :
      q before after = true → Matches (.look q) before [] after
  | ahead {r : Regex α} {before w after : List α} :
      Matches r before w after → Matches (.ahead r) before [] (w ++ after)
  | seq {r t : Regex α} {before w v after : List α} :
      Matches r before w (v ++ after) → Matches t (w.reverse ++ before) v after →
        Matches (.seq r t) before (w ++ v) after
  | left {r t : Regex α} {before w after : List α} :
      Matches r before w after → Matches (.alt r t) before w after
  | right {r t : Regex α} {before w after : List α} :
      Matches t before w after → Matches (.alt r t) before w after
  | stop {greedy : Bool} {r : Regex α} {before after : List α} :
      Matches (.star greedy r) before [] after
  | more {greedy : Bool} {r : Regex α} {before w v after : List α} :
      Matches r before w (v ++ after) → Matches (.star greedy r) (w.reverse ++ before) v after →
        Matches (.star greedy r) before (w ++ v) after

/-- An end is one of a derivation of the expression at the place. -/
def Derived (r : Regex α) (before s : List α) (e : Place α) : Prop :=
  ∃ w, s = w ++ e.2 ∧ e.1 = w.reverse ++ before ∧ Matches r before w e.2

theorem derived_of_mem_rounds {greedy : Bool} {r : Regex α}
    (hone : ∀ before s, ∀ e ∈ ends r before s, Derived r before s e) (fuel : Nat)
    (before s : List α) :
    ∀ e ∈ rounds greedy (ends r) fuel before s, Derived (.star greedy r) before s e := by
  induction fuel generalizing before s with
  | zero =>
    intro e he
    rw [rounds, List.mem_singleton] at he
    subst he
    exact ⟨[], rfl, rfl, .stop⟩
  | succ fuel ih =>
    intro e he
    rw [rounds] at he
    have hcases : e = (before, s) ∨ ∃ x ∈ ends r before s,
        e ∈ if x.2.length < s.length then rounds greedy (ends r) fuel x.1 x.2 else [] := by
      cases greedy with
      | true =>
        rcases List.mem_append.mp he with hmore | hstop
        · exact Or.inr (List.mem_flatMap.mp hmore)
        · exact Or.inl (List.mem_singleton.mp hstop)
      | false =>
        rcases List.mem_cons.mp he with hstop | hmore
        · exact Or.inl hstop
        · exact Or.inr (List.mem_flatMap.mp hmore)
    rcases hcases with rfl | ⟨x, hx, hmore⟩
    · exact ⟨[], rfl, rfl, .stop⟩
    · obtain ⟨w, hw, hbefore, hmatch⟩ := hone before s x hx
      split at hmore
      · obtain ⟨v, hv, hbefore', hrest⟩ := ih x.1 x.2 e hmore
        refine ⟨w ++ v, by rw [hw, hv, List.append_assoc], ?_, ?_⟩
        · rw [hbefore', hbefore, List.reverse_append, List.append_assoc]
        · rw [hbefore] at hrest
          rw [hv] at hmatch
          exact .more hmatch hrest
      · cases hmore

/-- **Every end comes from a derivation.** -/
theorem matches_of_mem_ends (r : Regex α) (before s : List α) :
    ∀ e ∈ ends r before s, Derived r before s e := by
  induction r generalizing before s with
  | cls p =>
    intro e he
    cases s with
    | nil => cases he
    | cons c cs =>
      rw [ends] at he
      split at he
      · next hc =>
        rw [List.mem_singleton] at he
        subst he
        exact ⟨[c], rfl, rfl, .cls hc⟩
      · cases he
  | look q =>
    intro e he
    rw [ends] at he
    split at he
    · next hq =>
      rw [List.mem_singleton] at he
      subst he
      exact ⟨[], rfl, rfl, .look hq⟩
    · cases he
  | ahead r ih =>
    intro e he
    rw [ends] at he
    split at he
    · cases he
    · next hsome =>
      rw [List.mem_singleton] at he
      subst he
      obtain ⟨x, hx⟩ : ∃ x, x ∈ ends r before s := by
        cases hends : ends r before s with
        | nil => exact absurd (by rw [hends]; rfl) hsome
        | cons x rest => exact ⟨x, List.mem_cons_self⟩
      obtain ⟨w, hw, -, hmatch⟩ := ih before s x hx
      refine ⟨[], rfl, rfl, ?_⟩
      rw [hw]
      exact .ahead hmatch
  | seq r t ihr iht =>
    intro e he
    rw [ends] at he
    obtain ⟨x, hx, hrest⟩ := List.mem_flatMap.mp he
    obtain ⟨w, hw, hbefore, hfirst⟩ := ihr before s x hx
    obtain ⟨v, hv, hbefore', hsecond⟩ := iht x.1 x.2 e hrest
    refine ⟨w ++ v, by rw [hw, hv, List.append_assoc], ?_, ?_⟩
    · rw [hbefore', hbefore, List.reverse_append, List.append_assoc]
    · rw [hbefore] at hsecond
      rw [hv] at hfirst
      exact .seq hfirst hsecond
  | alt r t ihr iht =>
    intro e he
    rw [ends] at he
    rcases List.mem_append.mp he with hleft | hright
    · obtain ⟨w, hw, hbefore, hmatch⟩ := ihr before s e hleft
      exact ⟨w, hw, hbefore, .left hmatch⟩
    · obtain ⟨w, hw, hbefore, hmatch⟩ := iht before s e hright
      exact ⟨w, hw, hbefore, .right hmatch⟩
  | star greedy r ih =>
    intro e he
    rw [ends] at he
    exact derived_of_mem_rounds ih s.length before s e he

theorem take_of_append {w rest s : List α} (h : s = w ++ rest) :
    s.take (s.length - rest.length) = w := by
  rw [h, List.length_append, Nat.add_sub_cancel, List.take_left]

/-- A match is the first end, of a derivation that takes something. -/
theorem matchAt_eq_some {r : Regex α} {before s w : List α} (h : matchAt r before s = some w) :
    ∃ rest, s = w ++ rest ∧ w ≠ [] ∧ Matches r before w rest ∧
      (ends r before s).head? = some (w.reverse ++ before, rest) := by
  rw [matchAt, Option.filter_eq_some_iff] at h
  obtain ⟨hfirst, hne⟩ := h
  obtain ⟨e, he, heq⟩ := Option.map_eq_some_iff.mp hfirst
  obtain ⟨v, hv, hbefore, hmatch⟩ := matches_of_mem_ends r before s e (List.mem_of_mem_head? he)
  rw [take_of_append hv] at heq
  subst heq
  refine ⟨e.2, hv, of_decide_eq_true hne, hmatch, ?_⟩
  rw [he, ← hbefore]

/-! ## 4. What an expression says of its words -/

section

variable (A : List α)

/-- No symbol of a match is one of `A`. -/
def avoids : Regex α → Bool
  | .cls p => A.all fun c => !p c
  | .look _ => true
  | .ahead _ => true
  | .seq r t => avoids r && avoids t
  | .alt r t => avoids r && avoids t
  | .star _ r => avoids r

/-- Some symbol of every match is none of `A`. -/
def leaves : Regex α → Bool
  | .cls p => A.all fun c => !p c
  | .look _ => false
  | .ahead _ => false
  | .seq r t => leaves r || leaves t
  | .alt r t => leaves r && leaves t
  | .star _ _ => false

/-- Nothing is taken. -/
def silent : Regex α → Bool
  | .cls _ => false
  | .look _ => true
  | .ahead _ => true
  | .seq r t => silent r && silent t
  | .alt r t => silent r && silent t
  | .star _ _ => false

/-- The first symbol of every match is none of `A`. -/
def startsOff : Regex α → Bool
  | .cls p => A.all fun c => !p c
  | .look _ => false
  | .ahead _ => false
  | .seq r t => startsOff r || silent r && startsOff t
  | .alt r t => startsOff r && startsOff t
  | .star _ _ => false

/-- The last symbol of every match is none of `A`. -/
def endsOff : Regex α → Bool
  | .cls p => A.all fun c => !p c
  | .look _ => false
  | .ahead _ => false
  | .seq r t => endsOff t || silent t && endsOff r
  | .alt r t => endsOff r && endsOff t
  | .star _ _ => false

/-- A length that every match has. -/
def width : Regex α → Nat
  | .cls _ => 1
  | .look _ => 0
  | .ahead _ => 0
  | .seq r t => width r + width t
  | .alt r t => min (width r) (width t)
  | .star _ _ => 0

end

variable {A : List α} {r : Regex α} {before w after : List α}

theorem not_mem_of_all {p : α → Bool} (h : (A.all fun c => !p c) = true) {c : α}
    (hc : p c = true) : c ∉ A := by
  intro hmem
  have hnot := List.all_eq_true.mp h c hmem
  rw [hc] at hnot
  cases hnot

theorem Matches.avoids (h : Matches r before w after) (havoids : avoids A r = true) :
    ∀ c ∈ w, c ∉ A := by
  induction h with
  | cls hc =>
    intro c hmem
    rw [List.mem_singleton.mp hmem]
    exact not_mem_of_all havoids hc
  | look | ahead | stop => exact fun c hmem => absurd hmem List.not_mem_nil
  | seq _ _ ihr iht =>
    rw [Regex.avoids, Bool.and_eq_true] at havoids
    intro c hmem
    exact (List.mem_append.mp hmem).elim (ihr havoids.1 c) (iht havoids.2 c)
  | left _ ih =>
    rw [Regex.avoids, Bool.and_eq_true] at havoids
    exact ih havoids.1
  | right _ ih =>
    rw [Regex.avoids, Bool.and_eq_true] at havoids
    exact ih havoids.2
  | more _ _ ihr iht =>
    intro c hmem
    exact (List.mem_append.mp hmem).elim (ihr havoids c) (iht havoids c)

theorem Matches.leaves (h : Matches r before w after) (hleaves : leaves A r = true) :
    ∃ c ∈ w, c ∉ A := by
  induction h with
  | cls hc => exact ⟨_, List.mem_singleton_self _, not_mem_of_all hleaves hc⟩
  | look | ahead | stop | more => cases hleaves
  | seq _ _ ihr iht =>
    rw [Regex.leaves, Bool.or_eq_true] at hleaves
    rcases hleaves with hfirst | hsecond
    · obtain ⟨c, hc, hnot⟩ := ihr hfirst
      exact ⟨c, List.mem_append_left _ hc, hnot⟩
    · obtain ⟨c, hc, hnot⟩ := iht hsecond
      exact ⟨c, List.mem_append_right _ hc, hnot⟩
  | left _ ih =>
    rw [Regex.leaves, Bool.and_eq_true] at hleaves
    exact ih hleaves.1
  | right _ ih =>
    rw [Regex.leaves, Bool.and_eq_true] at hleaves
    exact ih hleaves.2

theorem Matches.silent (h : Matches r before w after) (hsilent : silent r = true) : w = [] := by
  induction h with
  | cls | stop | more => cases hsilent
  | look | ahead => rfl
  | seq _ _ ihr iht =>
    rw [Regex.silent, Bool.and_eq_true] at hsilent
    rw [ihr hsilent.1, iht hsilent.2, List.append_nil]
  | left _ ih =>
    rw [Regex.silent, Bool.and_eq_true] at hsilent
    exact ih hsilent.1
  | right _ ih =>
    rw [Regex.silent, Bool.and_eq_true] at hsilent
    exact ih hsilent.2

theorem Matches.startsOff (h : Matches r before w after) (hstarts : startsOff A r = true) :
    ∃ c, w.head? = some c ∧ c ∉ A := by
  induction h with
  | cls hc => exact ⟨_, rfl, not_mem_of_all hstarts hc⟩
  | look | ahead | stop | more => cases hstarts
  | @seq _ _ _ w v _ hfirst _ ihr iht =>
    rw [Regex.startsOff, Bool.or_eq_true, Bool.and_eq_true] at hstarts
    rcases hstarts with hone | ⟨hsilent, htwo⟩
    · obtain ⟨c, hc, hnot⟩ := ihr hone
      refine ⟨c, ?_, hnot⟩
      rw [List.head?_append, hc, Option.some_or]
    · obtain ⟨c, hc, hnot⟩ := iht htwo
      refine ⟨c, ?_, hnot⟩
      rw [hfirst.silent hsilent]
      exact hc
  | left _ ih =>
    rw [Regex.startsOff, Bool.and_eq_true] at hstarts
    exact ih hstarts.1
  | right _ ih =>
    rw [Regex.startsOff, Bool.and_eq_true] at hstarts
    exact ih hstarts.2

theorem Matches.endsOff (h : Matches r before w after) (hends : endsOff A r = true) :
    ∃ c, w.getLast? = some c ∧ c ∉ A := by
  induction h with
  | cls hc => exact ⟨_, rfl, not_mem_of_all hends hc⟩
  | look | ahead | stop | more => cases hends
  | @seq _ _ _ w v _ _ hsecond ihr iht =>
    rw [Regex.endsOff, Bool.or_eq_true, Bool.and_eq_true] at hends
    rcases hends with hone | ⟨hsilent, htwo⟩
    · obtain ⟨c, hc, hnot⟩ := iht hone
      refine ⟨c, ?_, hnot⟩
      rw [List.getLast?_append, hc, Option.some_or]
    · obtain ⟨c, hc, hnot⟩ := ihr htwo
      refine ⟨c, ?_, hnot⟩
      rw [hsecond.silent hsilent, List.append_nil]
      exact hc
  | left _ ih =>
    rw [Regex.endsOff, Bool.and_eq_true] at hends
    exact ih hends.1
  | right _ ih =>
    rw [Regex.endsOff, Bool.and_eq_true] at hends
    exact ih hends.2

theorem Matches.width (h : Matches r before w after) : width r ≤ w.length := by
  induction h with
  | cls => exact Nat.le_refl 1
  | look | ahead | stop | more => exact Nat.zero_le _
  | seq _ _ ihr iht =>
    rw [Regex.width, List.length_append]
    exact Nat.add_le_add ihr iht
  | left _ ih => exact Nat.le_trans (Nat.min_le_left _ _) ih
  | right _ ih => exact Nat.le_trans (Nat.min_le_right _ _) ih

/-- A lookahead sees a word of its expression. -/
theorem Matches.of_ahead (h : Matches (.ahead r) before w after) :
    ∃ v rest, after = v ++ rest ∧ Matches r before v rest := by
  generalize hexpr : Regex.ahead r = x at h
  cases h with
  | ahead hmatch =>
    cases hexpr
    exact ⟨_, _, rfl, hmatch⟩
  | _ => cases hexpr

/-! ## 5. The first end -/

theorem head?_flatMap {β γ : Type*} {l : List β} {f : β → List γ} {e : γ}
    (h : (l.flatMap f).head? = some e) : ∃ x ∈ l, (f x).head? = some e := by
  induction l with
  | nil => cases h
  | cons x l ih =>
    rw [List.flatMap_cons, List.head?_append] at h
    cases hfirst : (f x).head? with
    | some e' =>
      rw [hfirst, Option.some_or] at h
      exact ⟨x, List.mem_cons_self, h ▸ hfirst⟩
    | none =>
      rw [hfirst, Option.none_or] at h
      obtain ⟨y, hy, hhead⟩ := ih h
      exact ⟨y, List.mem_cons_of_mem x hy, hhead⟩

/-- The first end of two expressions is the first one of the second, behind some end of the
    first. -/
theorem head?_ends_seq {t : Regex α} {s : List α} {e : Place α}
    (h : (ends (.seq r t) before s).head? = some e) :
    ∃ x, Derived r before s x ∧ (ends t x.1 x.2).head? = some e := by
  rw [ends] at h
  obtain ⟨x, hx, hhead⟩ := head?_flatMap h
  exact ⟨x, matches_of_mem_ends r before s x hx, hhead⟩

/-- A greedy run of a class and a symbol of a narrower class: behind the first end there is no
    other symbol of that class, where the run could have gone on to. -/
theorem head?_ends_greedy {p q : α → Bool} (hqp : ∀ c, q c = true → p c = true)
    {s : List α} {e : Place α}
    (h : (ends (.seq (.star true (.cls p)) (.cls q)) before s).head? = some e) :
    ∀ c ∈ e.2.head?, q c = false := by
  rw [ends, ends] at h
  induction s generalizing before with
  | nil => cases h
  | cons c cs ih =>
    rw [List.length_cons, rounds] at h
    simp only [if_true, List.flatMap_append, List.flatMap_singleton, List.head?_append] at h
    by_cases hpc : p c = true
    · have hone : ends (.cls p) before (c :: cs) = [(c :: before, cs)] := by
        rw [ends, if_pos hpc]
      have hlt : (c :: before, cs).2.length < (c :: cs).length := Nat.lt_succ_self _
      rw [hone, List.flatMap_singleton, if_pos hlt] at h
      cases hmore : ((rounds true (ends (.cls p)) cs.length (c :: before) cs).flatMap
          fun x => ends (.cls q) x.1 x.2).head? with
      | some e' =>
        rw [hmore, Option.some_or] at h
        exact ih (h ▸ hmore)
      | none =>
        -- no longer run has an end, so `c` is the symbol, and the next one is not of the class
        rw [hmore, Option.none_or, ends] at h
        split at h
        · cases h
          intro d hd
          cases cs with
          | nil => cases hd
          | cons d' ds =>
            cases hd
            have hnone := List.head?_eq_none_iff.mp hmore
            have hstop : (c :: before, d :: ds) ∈
                rounds true (ends (.cls p)) (d :: ds).length (c :: before) (d :: ds) := by
              rw [List.length_cons, rounds]
              exact List.mem_append_right _ (List.mem_singleton_self _)
            have hnil := List.flatMap_eq_nil_iff.mp hnone _ hstop
            rw [ends] at hnil
            split at hnil
            · cases hnil
            · next hq => exact Bool.eq_false_iff.mpr hq
        · cases h
    · have hone : ends (.cls p) before (c :: cs) = [] := by rw [ends, if_neg hpc]
      rw [hone, List.flatMap_nil, List.flatMap_nil, List.head?_nil, Option.none_or, ends] at h
      split at h
      · next hq => exact absurd (hqp c hq) hpc
      · cases h

/-- A run may stop anywhere. -/
theorem mem_ends_run (greedy : Bool) {p : α → Bool} {w : List α} (hw : ∀ c ∈ w, p c = true)
    (before rest : List α) :
    (w.reverse ++ before, rest) ∈ ends (.star greedy (.cls p)) before (w ++ rest) := by
  have hrounds : ∀ s before : List α,
      (before, s) ∈ rounds greedy (ends (.cls p)) s.length before s := by
    intro s before
    cases s with
    | nil => exact List.mem_singleton_self _
    | cons c cs =>
      rw [List.length_cons, rounds]
      cases greedy with
      | true => exact List.mem_append_right _ (List.mem_singleton_self _)
      | false => exact List.mem_cons_self
  rw [ends]
  induction w generalizing before with
  | nil => exact hrounds rest before
  | cons c w ih =>
    have hone : ends (.cls p) before (c :: (w ++ rest)) = [(c :: before, w ++ rest)] := by
      rw [ends, if_pos (hw c List.mem_cons_self)]
    have hlt : (c :: before, w ++ rest).2.length < (c :: (w ++ rest)).length := Nat.lt_succ_self _
    have hrest := ih (fun d hd => hw d (List.mem_cons_of_mem c hd)) (c :: before)
    rw [List.reverse_cons, List.append_assoc, List.cons_append, List.length_cons, rounds, hone,
      List.flatMap_singleton, if_pos hlt]
    cases greedy with
    | true => exact List.mem_append_left _ hrest
    | false => exact List.mem_cons_of_mem _ hrest

/-- Up to `n` symbols of a class: each of their runs is an end. -/
theorem mem_ends_upTo {p : α → Bool} {n : Nat} {s : List α} {e : Place α} {before : List α} :
    e ∈ ends (upTo (.cls p) n) before s ↔
      ∃ w rest, s = w ++ rest ∧ w.length ≤ n ∧ (∀ c ∈ w, p c = true) ∧
        e = (w.reverse ++ before, rest) := by
  induction n generalizing s before with
  | zero =>
    constructor
    · intro h
      exact ⟨[], s, rfl, Nat.le_refl _, fun _ hc => absurd hc List.not_mem_nil, List.mem_singleton.mp h⟩
    · rintro ⟨w, rest, rfl, hlength, -, rfl⟩
      rw [List.length_eq_zero_iff.mp (Nat.le_zero.mp hlength)]
      exact List.mem_singleton_self _
  | succ n ih =>
    have hsplit : e ∈ ends (upTo (.cls p) (n + 1)) before s ↔
        (∃ c cs, s = c :: cs ∧ p c = true ∧ e ∈ ends (upTo (.cls p) n) (c :: before) cs) ∨
          e = (before, s) := by
      rw [upTo, opt, ends, List.mem_append, nothing, ends, if_pos rfl, List.mem_singleton]
      refine or_congr_left ?_
      cases s with
      | nil => simp [ends]
      | cons c cs => by_cases hc : p c = true <;> simp [ends, hc]
    rw [hsplit]
    constructor
    · rintro (⟨c, cs, rfl, hc, he⟩ | rfl)
      · obtain ⟨w, rest, rfl, hlength, hall, rfl⟩ := ih.mp he
        refine ⟨c :: w, rest, rfl, Nat.succ_le_succ hlength, List.forall_mem_cons.mpr ⟨hc, hall⟩, ?_⟩
        rw [List.reverse_cons, List.append_assoc]
        rfl
      · exact ⟨[], s, rfl, Nat.zero_le _, fun _ hc => absurd hc List.not_mem_nil, rfl⟩
    · rintro ⟨w, rest, rfl, hlength, hall, rfl⟩
      cases w with
      | nil => exact Or.inr rfl
      | cons c w =>
        obtain ⟨hc, hall⟩ := List.forall_mem_cons.mp hall
        refine Or.inl ⟨c, w ++ rest, rfl, hc, ih.mpr ⟨w, rest, rfl, ?_, hall, ?_⟩⟩
        · exact Nat.le_of_succ_le_succ hlength
        · rw [List.reverse_cons, List.append_assoc]
          rfl

/-- Where an expression has an end and takes something, it matches. -/
theorem matchAt_of_mem {s : List α} {e : Place α} (h : e ∈ ends r before s) (hwidth : 0 < width r) :
    ∃ w, matchAt r before s = some w := by
  cases hends : ends r before s with
  | nil =>
    rw [hends] at h
    cases h
  | cons x rest =>
    obtain ⟨w, hw, -, hmatch⟩ := matches_of_mem_ends r before s x (hends ▸ List.mem_cons_self)
    have hne : w ≠ [] := List.length_pos_iff.mp (Nat.lt_of_lt_of_le hwidth hmatch.width)
    refine ⟨w, ?_⟩
    rw [matchAt, hends, List.head?_cons, Option.map_some, take_of_append hw, Option.filter_some,
      if_pos (decide_eq_true hne)]

/-! ## 6. Substituting -/

/-- The parts put together again are the text. -/
theorem text_scan {fuel : Nat} {s : List α} (h : s.length ≤ fuel) (before : List α) :
    (scan r fuel before s).flatMap Piece.text = s := by
  induction fuel generalizing before s with
  | zero =>
    rw [List.length_eq_zero_iff.mp (Nat.le_zero.mp h)]
    rfl
  | succ fuel ih =>
    cases s with
    | nil => rfl
    | cons c cs =>
      rw [scan]
      split
      · next w hmatch =>
        obtain ⟨rest, hw, hne, -, -⟩ := matchAt_eq_some hmatch
        rw [List.flatMap_cons, hw, List.drop_left, ih]
        · rfl
        · have hlength := congrArg List.length hw
          rw [List.length_append] at hlength
          have hpos := List.length_pos_iff.mpr hne
          omega
      · rw [List.flatMap_cons, ih (Nat.le_of_succ_le_succ h)]
        rfl

theorem text_finditer (s : List α) : (finditer r s).flatMap Piece.text = s :=
  text_scan (Nat.le_refl _) []

/-- Every match of a scan is one of the expression. -/
theorem matches_of_hit_mem {fuel : Nat} {s : List α} (hmem : .hit w ∈ scan r fuel before s) :
    ∃ before' after', Matches r before' w after' := by
  induction fuel generalizing before s with
  | zero => cases hmem
  | succ fuel ih =>
    cases s with
    | nil => cases hmem
    | cons c cs =>
      rw [scan] at hmem
      split at hmem
      · next v hmatch =>
        rcases List.mem_cons.mp hmem with heq | hrest
        · cases heq
          obtain ⟨rest, -, -, hmatches, -⟩ := matchAt_eq_some hmatch
          exact ⟨before, rest, hmatches⟩
        · exact ih hrest
      · rcases List.mem_cons.mp hmem with heq | hrest
        · cases heq
        · exact ih hrest

/-- No part is a match. -/
def NoHit (parts : List (Piece α)) : Prop := ∀ w, .hit w ∉ parts

theorem replace_eq_text {parts : List (Piece α)} (h : NoHit parts) (repl : List α → List α) :
    parts.flatMap (Piece.replace repl) = parts.flatMap Piece.text := by
  induction parts with
  | nil => rfl
  | cons part parts ih =>
    rw [List.flatMap_cons, List.flatMap_cons,
      ih fun w hmem => h w (List.mem_cons_of_mem part hmem)]
    cases part with
    | lit c => rfl
    | hit w => exact absurd List.mem_cons_self (h w)

theorem sub_eq_self {s : List α} (h : NoHit (finditer r s)) (repl : List α → List α) :
    sub r repl s = s := by
  rw [sub, replace_eq_text h, text_finditer]

theorem length_replace_le {repl : List α → List α} {parts : List (Piece α)}
    (h : ∀ w, .hit w ∈ parts → (repl w).length < w.length) :
    (parts.flatMap (Piece.replace repl)).length ≤ (parts.flatMap Piece.text).length ∧
      ((parts.flatMap (Piece.replace repl)).length = (parts.flatMap Piece.text).length →
        NoHit parts) := by
  induction parts with
  | nil => exact ⟨Nat.le_refl _, fun _ w hmem => absurd hmem List.not_mem_nil⟩
  | cons part parts ih =>
    obtain ⟨hle, hnone⟩ := ih fun w hmem => h w (List.mem_cons_of_mem part hmem)
    rw [List.flatMap_cons, List.flatMap_cons, List.length_append, List.length_append]
    cases part with
    | lit c =>
      refine ⟨Nat.add_le_add_left hle _, fun heq w hmem => ?_⟩
      rcases List.mem_cons.mp hmem with hlit | hrest
      · cases hlit
      · exact hnone (Nat.add_left_cancel heq) w hrest
    | hit w =>
      have hshort := h w List.mem_cons_self
      rw [Piece.replace, Piece.text]
      exact ⟨by omega, fun heq => by omega⟩

/-- **Where every replacement is shorter, a text keeps its length only without a match.** -/
theorem length_sub_le {repl : List α → List α} {s : List α}
    (h : ∀ before' w after', Matches r before' w after' → (repl w).length < w.length) :
    (sub r repl s).length ≤ s.length ∧
      ((sub r repl s).length = s.length → NoHit (finditer r s)) := by
  have hparts := @length_replace_le α repl (finditer r s) fun w hmem => by
    obtain ⟨before', after', hmatches⟩ := matches_of_hit_mem hmem
    exact h before' w after' hmatches
  rwa [text_finditer] at hparts

end Regex

end TokenProxy
