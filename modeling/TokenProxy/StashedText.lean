/-
  TokenProxy/StashedText.lean
  ===========================
  **Working texts read as tokens** (`_with_protected_segments`, `prose_compress.py`).

  A working text is made of characters and of stashed spans, each behind its sentinel and made
  of characters and spans itself.  Every place in the text is between two tokens or within one
  sentinel (`split_render`).  A pattern that respects the sentinels (`Respects`) matches whole
  tokens only, and a scan with it is a scan of tokens (`scan_render`).

  Main results: `Reads.stash`, what stashing the matches of such a pattern does to the tokens;
  `restoreLoop_render`, the sentinels are replaced by what they stand for, all the way down.
-/
import TokenProxy.ProseCompress
import Mathlib.Data.List.Perm.Basic

namespace TokenProxy.ProseCompress

open TokenProxy.Regex

/-! ## 1. Tokens -/

inductive Tok where
  | lit (c : Char)
  /-- a stashed span, its number and what is in it -/
  | span (n : Nat) (inner : List Tok)

def Tok.render : Tok → List Char
  | .lit c => [c]
  | .span n _ => sentinel n

/-- The working text. -/
def renderAll (ts : List Tok) : List Char := ts.flatMap Tok.render

mutual

/-- The text itself. -/
def Tok.flatten : Tok → List Char
  | .lit c => [c]
  | .span _ inner => flattenAll inner

def flattenAll : List Tok → List Char
  | [] => []
  | t :: ts => t.flatten ++ flattenAll ts

end

mutual

/-- The numbers of the spans, the inner ones too. -/
def Tok.numbers : Tok → List Nat
  | .lit _ => []
  | .span n inner => n :: numbersAll inner

def numbersAll : List Tok → List Nat
  | [] => []
  | t :: ts => t.numbers ++ numbersAll ts

end

/-- A token of these segments, whose spans are nested no deeper than this. -/
inductive Stored (segments : List (List Char)) : Nat → Tok → Prop
  | lit {depth : Nat} {c : Char} : c ≠ nul → Stored segments depth (.lit c)
  | span {depth n : Nat} {inner : List Tok} : segments[n]? = some (renderAll inner) →
      (∀ t ∈ inner, Stored segments depth t) → Stored segments (depth + 1) (.span n inner)

theorem flattenAll_append (ts us : List Tok) :
    flattenAll (ts ++ us) = flattenAll ts ++ flattenAll us := by
  induction ts with
  | nil => rfl
  | cons t ts ih => rw [List.cons_append, flattenAll, flattenAll, ih, List.append_assoc]

theorem numbersAll_append (ts us : List Tok) :
    numbersAll (ts ++ us) = numbersAll ts ++ numbersAll us := by
  induction ts with
  | nil => rfl
  | cons t ts ih => rw [List.cons_append, numbersAll, numbersAll, ih, List.append_assoc]

theorem renderAll_cons (t : Tok) (ts : List Tok) : renderAll (t :: ts) = t.render ++ renderAll ts :=
  List.flatMap_cons

theorem renderAll_append (ts us : List Tok) :
    renderAll (ts ++ us) = renderAll ts ++ renderAll us := List.flatMap_append

theorem renderAll_lits (cs : List Char) : renderAll (cs.map .lit) = cs := by
  induction cs with
  | nil => rfl
  | cons c cs ih => rw [List.map_cons, renderAll_cons, ih]; rfl

theorem flattenAll_lits (cs : List Char) : flattenAll (cs.map .lit) = cs := by
  induction cs with
  | nil => rfl
  | cons c cs ih => rw [List.map_cons, flattenAll, ih]; rfl

theorem numbersAll_lits (cs : List Char) : numbersAll (cs.map .lit) = [] := by
  induction cs with
  | nil => rfl
  | cons c cs ih => rw [List.map_cons, numbersAll, ih]; rfl

/-- Tokens without a NUL in their text are characters. -/
theorem eq_lits_of_not_mem {ts : List Tok} (h : nul ∉ renderAll ts) :
    ts = (renderAll ts).map .lit := by
  induction ts with
  | nil => rfl
  | cons t ts ih =>
    rw [renderAll_cons, List.mem_append, not_or] at h
    rw [renderAll_cons, List.map_append, ← ih h.2]
    cases t with
    | lit c => rfl
    | span n inner => exact absurd List.mem_cons_self h.1

theorem Stored.mono {segments more : List (List Char)} {depth depth' : Nat} {t : Tok}
    (h : Stored segments depth t) (hle : depth ≤ depth') : Stored (segments ++ more) depth' t := by
  induction h generalizing depth' with
  | lit hc => exact .lit hc
  | @span depth n inner hstored _ ih =>
    obtain ⟨d, rfl⟩ : ∃ d, depth' = d + 1 := ⟨depth' - 1, by omega⟩
    refine .span ?_ fun t ht => ih t ht (Nat.le_of_succ_le_succ hle)
    obtain ⟨hlt, -⟩ := List.getElem?_eq_some_iff.mp hstored
    rw [List.getElem?_append_left hlt, hstored]

/-! ## 2. Places in a working text -/

/-- The characters of a sentinel. -/
def digits : List Char := "0123456789".toList

def holeChars : List Char := nul :: digits

theorem mem_digits_of_isDigit {c : Char} (h : c.isDigit = true) : c ∈ digits := by
  obtain ⟨hlow, hhigh⟩ := Char.isDigit_iff_toNat.mp h
  change 48 ≤ c.toNat at hlow
  change c.toNat ≤ 57 at hhigh
  obtain ⟨k, hk⟩ : ∃ k : Fin 10, c.toNat = 48 + k := ⟨⟨c.toNat - 48, by omega⟩, by simp only; omega⟩
  have hall : ∀ k : Fin 10, Char.ofNat (48 + k) ∈ digits := by decide
  rw [← Char.ofNat_toNat c, hk]
  exact hall k

theorem mem_digits_of_mem_toDigits {n : Nat} {c : Char} (h : c ∈ Nat.toDigits 10 n) :
    c ∈ digits :=
  mem_digits_of_isDigit (Nat.isDigit_of_mem_toDigits (by decide) (by decide) h)

theorem nul_not_mem_digits : nul ∉ digits := by decide

/-- The place between the two is within a sentinel. -/
def Within (w rest : List Char) : Prop :=
  ∃ front back ds ds', w = renderAll front ++ nul :: ds ∧ rest = ds' ++ nul :: renderAll back ∧
    (∀ d ∈ ds, d ∈ digits) ∧ ∀ d ∈ ds', d ∈ digits

theorem Within.cons {t : Tok} {w rest : List Char} (h : Within w rest) :
    Within (t.render ++ w) rest := by
  obtain ⟨front, back, ds, ds', rfl, hrest, hds⟩ := h
  refine ⟨t :: front, back, ds, ds', ?_, hrest, hds⟩
  rw [renderAll_cons, List.append_assoc]

/-- A place in a sentinel. -/
theorem split_sentinel {n : Nat} {w rest : List Char} (h : sentinel n = w ++ rest) :
    w = [] ∨ rest = [] ∨ ∃ ds ds', w = nul :: ds ∧ rest = ds' ++ [nul] ∧
      (∀ d ∈ ds, d ∈ digits) ∧ ∀ d ∈ ds', d ∈ digits := by
  cases w with
  | nil => exact Or.inl rfl
  | cons c w =>
    right
    rw [sentinel, List.cons_append] at h
    obtain ⟨rfl, htail⟩ := List.cons.inj h
    rcases List.append_eq_append_iff.mp htail with ⟨a, hw, hnul⟩ | ⟨a, hdigits, hrest⟩
    · -- all digits are before the place
      cases a with
      | nil =>
        refine Or.inr ⟨w, [], rfl, by rw [List.nil_append, hnul, List.nil_append], ?_,
          fun d hd => absurd hd List.not_mem_nil⟩
        rw [hw, List.append_nil]
        exact fun d => mem_digits_of_mem_toDigits
      | cons x a =>
        rw [List.cons_append] at hnul
        exact Or.inl (List.append_eq_nil_iff.mp (List.cons.inj hnul).2.symm).2
    · refine Or.inr ⟨w, a, rfl, hrest, ?_, ?_⟩
      · exact fun d hd => mem_digits_of_mem_toDigits (hdigits ▸ List.mem_append_left a hd)
      · exact fun d hd => mem_digits_of_mem_toDigits (hdigits ▸ List.mem_append_right w hd)

/-- **Every place is between two tokens or within a sentinel.** -/
theorem split_render {ts : List Tok} {w rest : List Char} (h : renderAll ts = w ++ rest) :
    (∃ front back, ts = front ++ back ∧ w = renderAll front ∧ rest = renderAll back) ∨
      Within w rest := by
  induction ts generalizing w with
  | nil =>
    obtain ⟨rfl, rfl⟩ := List.append_eq_nil_iff.mp h.symm
    exact Or.inl ⟨[], [], rfl, rfl, rfl⟩
  | cons t ts ih =>
    rw [renderAll_cons] at h
    rcases List.append_eq_append_iff.mp h with ⟨v, hw, hts⟩ | ⟨v, ht, hrest⟩
    · -- the place is behind the first token
      subst hw
      rcases ih hts with ⟨front, back, rfl, rfl, rfl⟩ | hwithin
      · exact Or.inl ⟨t :: front, back, rfl, (renderAll_cons t front).symm, rfl⟩
      · exact Or.inr hwithin.cons
    · have hstart : w = [] → (∃ front back, t :: ts = front ++ back ∧ w = renderAll front ∧
          rest = renderAll back) ∨ Within w rest := by
        rintro rfl
        refine Or.inl ⟨[], t :: ts, rfl, rfl, ?_⟩
        rw [renderAll_cons, ht, hrest, List.nil_append]
      have hend : v = [] → (∃ front back, t :: ts = front ++ back ∧ w = renderAll front ∧
          rest = renderAll back) ∨ Within w rest := by
        rintro rfl
        refine Or.inl ⟨[t], ts, rfl, ?_, hrest⟩
        rw [renderAll_cons, ht, List.append_nil]
        exact (List.append_nil w).symm
      cases t with
      | lit c =>
        rw [Tok.render] at ht
        rcases List.singleton_eq_append_iff.mp ht with ⟨hw, -⟩ | ⟨-, hv⟩
        · exact hstart hw
        · exact hend hv
      | span n inner =>
        rw [Tok.render] at ht
        rcases split_sentinel ht with hw | hv | ⟨ds, ds', hw, hv, hds, hds'⟩
        · exact hstart hw
        · exact hend hv
        · refine Or.inr ⟨[], ts, ds, ds', hw, ?_, hds, hds'⟩
          rw [hrest, hv, List.append_assoc]
          rfl

/-! ## 3. Patterns that respect the sentinels -/

structure Respects (r : Regex Char) : Prop where
  /-- no match begins within a sentinel -/
  start : ∀ before ds after, (∀ d ∈ ds, d ∈ digits) → matchAt r before (ds ++ nul :: after) = none
  /-- a match that begins in front of a token does not end within a sentinel -/
  stop : ∀ before w rest, matchAt r before (w ++ rest) = some w → ¬ Within w rest

theorem nul_mem_of_within {w rest : List Char} (h : Within w rest) : nul ∈ w := by
  obtain ⟨front, back, ds, ds', rfl, -⟩ := h
  exact List.mem_append_right _ List.mem_cons_self

theorem last_of_within {w rest : List Char} (h : Within w rest) :
    ∃ c, w.getLast? = some c ∧ c ∈ holeChars := by
  obtain ⟨front, back, ds, ds', rfl, -, hds, -⟩ := h
  rw [List.getLast?_append]
  cases hlast : (nul :: ds).getLast? with
  | none => cases List.getLast?_eq_none_iff.mp hlast
  | some c =>
    refine ⟨c, rfl, ?_⟩
    rcases List.mem_cons.mp (List.mem_of_getLast? hlast) with rfl | hmem
    · exact List.mem_cons_self
    · exact List.mem_cons_of_mem nul (hds c hmem)

theorem next_of_within {w rest : List Char} (h : Within w rest) :
    ∃ c, rest.head? = some c ∧ c ∈ holeChars := by
  obtain ⟨front, back, ds, ds', -, rfl, -, hds'⟩ := h
  cases ds' with
  | nil => exact ⟨nul, rfl, List.mem_cons_self⟩
  | cons d ds' => exact ⟨d, rfl, List.mem_cons_of_mem nul (hds' d List.mem_cons_self)⟩

/-- A word without a NUL that begins within a sentinel is made of digits. -/
theorem digits_of_start {w rest ds after : List Char} (h : w ++ rest = ds ++ nul :: after)
    (hnul : nul ∉ w) (hds : ∀ d ∈ ds, d ∈ digits) : ∀ c ∈ w, c ∈ digits := by
  rcases List.append_eq_append_iff.mp h with ⟨a, hds', -⟩ | ⟨a, hw, hafter⟩
  · exact fun c hc => hds c (hds' ▸ List.mem_append_left a hc)
  · cases a with
    | nil =>
      rw [hw, List.append_nil]
      exact hds
    | cons x a =>
      obtain ⟨rfl, -⟩ := List.cons.inj hafter
      exact absurd (hw ▸ List.mem_append_right ds List.mem_cons_self) hnul

theorem respects_of_leaves {r : Regex Char} (havoids : avoids [nul] r = true)
    (hleaves : leaves digits r = true) : Respects r where
  start before ds after hds := by
    cases hmatch : matchAt r before (ds ++ nul :: after) with
    | none => rfl
    | some w =>
      obtain ⟨rest, hw, -, hmatches, -⟩ := matchAt_eq_some hmatch
      have hnul : nul ∉ w := fun hmem => hmatches.avoids havoids nul hmem List.mem_cons_self
      obtain ⟨c, hc, hnot⟩ := hmatches.leaves hleaves
      exact absurd (digits_of_start hw.symm hnul hds c hc) hnot
  stop before w rest hmatch hwithin := by
    obtain ⟨rest', -, -, hmatches, -⟩ := matchAt_eq_some hmatch
    exact hmatches.avoids havoids nul (nul_mem_of_within hwithin) List.mem_cons_self

theorem start_of_startsOff {r : Regex Char} (h : startsOff holeChars r = true)
    (before : List Char) {ds : List Char} (after : List Char) (hds : ∀ d ∈ ds, d ∈ digits) :
    matchAt r before (ds ++ nul :: after) = none := by
  cases hmatch : matchAt r before (ds ++ nul :: after) with
  | none => rfl
  | some w =>
    obtain ⟨rest, hw, -, hmatches, -⟩ := matchAt_eq_some hmatch
    obtain ⟨c, hc, hnot⟩ := hmatches.startsOff h
    have hhead : (ds ++ nul :: after).head? = some c := by
      rw [hw, List.head?_append, hc, Option.some_or]
    cases ds with
    | nil =>
      cases hhead
      exact absurd List.mem_cons_self hnot
    | cons d ds =>
      cases hhead
      exact absurd (List.mem_cons_of_mem nul (hds _ List.mem_cons_self)) hnot

theorem respects_of_endsOff {r : Regex Char} (hstarts : startsOff holeChars r = true)
    (hends : endsOff holeChars r = true) : Respects r where
  start before _ after hds := start_of_startsOff hstarts before after hds
  stop before w rest hmatch hwithin := by
    obtain ⟨rest', -, -, hmatches, -⟩ := matchAt_eq_some hmatch
    obtain ⟨c, hc, hnot⟩ := hmatches.endsOff hends
    obtain ⟨d, hd, hmem⟩ := last_of_within hwithin
    rw [hc] at hd
    cases hd
    exact hnot hmem

/-! ## 4. Scans of tokens -/

/-- A token that stays, or the tokens of a match. -/
inductive Item where
  | plain (t : Tok)
  | group (ts : List Tok)

def Item.toks : Item → List Tok
  | .plain t => [t]
  | .group ts => ts

def Item.parts : Item → List (Piece Char)
  | .plain t => t.render.map .lit
  | .group ts => [.hit (renderAll ts)]

theorem scan_nil (r : Regex Char) (fuel : Nat) (before : List Char) :
    scan r fuel before [] = [] := by
  cases fuel <;> rfl

/-- A scan passes the rest of a sentinel. -/
theorem scan_within {r : Regex Char} (hr : Respects r) {ds : List Char}
    (hds : ∀ d ∈ ds, d ∈ digits) (after : List Char) (fuel : Nat) (h : ds.length < fuel)
    (before : List Char) :
    ∃ before', scan r fuel before (ds ++ nul :: after) =
      (ds ++ [nul]).map .lit ++ scan r (fuel - ds.length - 1) before' after := by
  induction ds generalizing fuel before with
  | nil =>
    obtain ⟨fuel, rfl⟩ : ∃ f, fuel = f + 1 := ⟨fuel - 1, by simp only [List.length_nil] at h; omega⟩
    refine ⟨nul :: before, ?_⟩
    have hnone := hr.start before [] after hds
    rw [List.nil_append] at hnone ⊢
    rw [scan, hnone]
    rfl
  | cons d ds ih =>
    rw [List.length_cons] at h
    obtain ⟨fuel, rfl⟩ : ∃ f, fuel = f + 1 := ⟨fuel - 1, by omega⟩
    have hnone := hr.start before (d :: ds) after hds
    obtain ⟨before', hrest⟩ := ih (fun x hx => hds x (List.mem_cons_of_mem d hx)) fuel
      (Nat.lt_of_succ_lt_succ h) (d :: before)
    refine ⟨before', ?_⟩
    rw [List.cons_append] at hnone ⊢
    rw [scan, hnone]
    simp only [hrest, List.cons_append, List.map_cons, List.length_cons, Nat.add_sub_add_right]

/-- What a scan makes of the tokens of a text. -/
structure Itemised (r : Regex Char) (ts : List Tok) (parts : List (Piece Char))
    (items : List Item) : Prop where
  toks : items.flatMap Item.toks = ts
  parts : items.flatMap Item.parts = parts
  hits : ∀ g, .group g ∈ items → ∃ before after, Matches r before (renderAll g) after

theorem Itemised.plain {r : Regex Char} {ts : List Tok} {parts : List (Piece Char)}
    {items : List Item} (h : Itemised r ts parts items) (t : Tok) :
    Itemised r (t :: ts) (t.render.map .lit ++ parts) (.plain t :: items) where
  toks := by rw [List.flatMap_cons, h.toks]; rfl
  parts := by rw [List.flatMap_cons, h.parts]; rfl
  hits g hg := h.hits g ((List.mem_cons.mp hg).resolve_left fun heq => by cases heq)

/-- **A scan with a pattern that respects the sentinels is one of tokens.** -/
theorem scan_render {r : Regex Char} (hr : Respects r) (ts : List Tok) (fuel : Nat)
    (h : (renderAll ts).length ≤ fuel) (before : List Char) :
    ∃ items, Itemised r ts (scan r fuel before (renderAll ts)) items := by
  induction hlength : ts.length using Nat.strong_induction_on generalizing ts fuel before with
  | _ size ih =>
    cases ts with
    | nil =>
      refine ⟨[], rfl, ?_, fun g hg => absurd hg List.not_mem_nil⟩
      exact (scan_nil r fuel before).symm
    | cons t ts =>
      obtain ⟨c, cs, hcs⟩ : ∃ c cs, renderAll (t :: ts) = c :: cs := by
        cases t with
        | lit c => exact ⟨c, renderAll ts, rfl⟩
        | span n inner => exact ⟨nul, _, rfl⟩
      rw [hcs] at h
      obtain ⟨fuel, rfl⟩ : ∃ f, fuel = f + 1 := by
        rw [List.length_cons] at h
        exact ⟨fuel - 1, by omega⟩
      cases hmatch : matchAt r before (c :: cs) with
      | some w =>
        obtain ⟨rest, hw, hne, hmatches, -⟩ := matchAt_eq_some hmatch
        have hsplit := split_render (hcs.trans hw)
        have hnot := hr.stop before w rest (hw ▸ hmatch)
        obtain ⟨front, back, hts, rfl, rfl⟩ := hsplit.resolve_right hnot
        have hfront : 0 < front.length := by
          refine List.length_pos_iff.mpr fun hnil => hne ?_
          rw [hnil]
          rfl
        have hlengths := congrArg List.length hts
        have hchars := congrArg List.length hw
        rw [List.length_append] at hlengths hchars
        have hpos := List.length_pos_iff.mpr hne
        rw [List.length_cons] at hlengths hchars h hlength
        obtain ⟨items, hitems⟩ := ih back.length (by omega) back fuel (by omega)
          ((renderAll front).reverse ++ before) rfl
        refine ⟨.group front :: items, ?_, ?_, ?_⟩
        · rw [List.flatMap_cons, hitems.toks, hts]
          rfl
        · rw [List.flatMap_cons, hitems.parts, hcs, scan, hmatch]
          simp only [hw, List.drop_left]
          rfl
        · intro g hg
          rcases List.mem_cons.mp hg with heq | hmem
          · cases heq
            exact ⟨before, _, hmatches⟩
          · exact hitems.hits g hmem
      | none =>
        rw [List.length_cons] at hlength h
        cases t with
        | lit c' =>
          have hlit : c' :: renderAll ts = c :: cs := hcs
          obtain ⟨rfl, rfl⟩ := List.cons.inj hlit
          obtain ⟨items, hitems⟩ := ih ts.length (by omega) ts fuel (by omega)
            (c' :: before) rfl
          refine ⟨.plain (.lit c') :: items, ?_⟩
          rw [hcs, scan, hmatch]
          exact hitems.plain (.lit c')
        | span n inner =>
          have hspan : nul :: (Nat.toDigits 10 n ++ nul :: renderAll ts) = c :: cs := by
            rw [← hcs, renderAll_cons, Tok.render, sentinel, List.cons_append, List.append_assoc]
            rfl
          obtain ⟨rfl, rfl⟩ := List.cons.inj hspan
          rw [List.length_append, List.length_cons] at h
          obtain ⟨before', hpass⟩ := scan_within hr
            (fun d => mem_digits_of_mem_toDigits (n := n)) (renderAll ts) fuel (by omega)
            (nul :: before)
          obtain ⟨items, hitems⟩ := ih ts.length (by omega) ts
            (fuel - (Nat.toDigits 10 n).length - 1) (by omega) before' rfl
          refine ⟨.plain (.span n inner) :: items, ?_⟩
          rw [hcs, scan, hmatch]
          simp only [hpass]
          exact hitems.plain (.span n inner)

/-! ## 5. Stashing -/

/-- The tokens after a pass: every group has become a span, numbered from here on. -/
def regroup : List Item → Nat → List Tok
  | [], _ => []
  | .plain t :: items, n => t :: regroup items n
  | .group ts :: items, n => .span n ts :: regroup items (n + 1)

/-- What a pass stashes. -/
def Item.stashed : Item → List (List Char)
  | .plain _ => []
  | .group ts => [renderAll ts]

theorem stashParts_lits (cs : List Char) (parts : List (Piece Char)) (segments : List (List Char)) :
    stashParts (cs.map .lit ++ parts) segments =
      (cs ++ (stashParts parts segments).1, (stashParts parts segments).2) := by
  induction cs with
  | nil => rfl
  | cons c cs ih =>
    rw [List.map_cons, List.cons_append, stashParts, ih]
    rfl

theorem stashParts_items (items : List Item) (segments : List (List Char)) :
    stashParts (items.flatMap Item.parts) segments =
      (renderAll (regroup items segments.length), segments ++ items.flatMap Item.stashed) := by
  induction items generalizing segments with
  | nil =>
    rw [List.flatMap_nil, List.flatMap_nil, List.append_nil]
    rfl
  | cons item items ih =>
    rw [List.flatMap_cons, List.flatMap_cons]
    cases item with
    | plain t =>
      rw [Item.parts, stashParts_lits, ih, regroup, renderAll_cons]
      rfl
    | group ts =>
      have hlength : (segments ++ [renderAll ts]).length = segments.length + 1 :=
        List.length_append
      rw [Item.parts, List.cons_append, List.nil_append, stashParts, ih, hlength, regroup,
        renderAll_cons, List.append_assoc]
      rfl

theorem flattenAll_regroup (items : List Item) (n : Nat) :
    flattenAll (regroup items n) = flattenAll (items.flatMap Item.toks) := by
  induction items generalizing n with
  | nil => rfl
  | cons item items ih =>
    rw [List.flatMap_cons, flattenAll_append]
    cases item with
    | plain t =>
      rw [regroup, flattenAll, ih]
      congr 1
      exact (List.append_nil _).symm
    | group ts => rw [regroup, flattenAll, ih, Tok.flatten, Item.toks]

theorem numbersAll_regroup (items : List Item) (n : Nat) :
    (numbersAll (regroup items n)).Perm (numbersAll (items.flatMap Item.toks) ++
      List.range' n (items.flatMap Item.stashed).length) := by
  induction items generalizing n with
  | nil => exact List.Perm.refl _
  | cons item items ih =>
    rw [List.flatMap_cons, List.flatMap_cons, numbersAll_append, List.length_append]
    cases item with
    | plain t =>
      have hone : numbersAll (Item.plain t).toks = t.numbers := List.append_nil _
      rw [regroup, numbersAll, hone, List.append_assoc, Item.stashed, List.length_nil, Nat.zero_add]
      exact (ih n).append_left _
    | group ts =>
      rw [regroup, numbersAll, Tok.numbers, Item.toks, Item.stashed, List.length_singleton,
        Nat.add_comm 1, List.range'_succ, List.append_assoc, List.cons_append]
      refine ((((ih (n + 1)).append_left (numbersAll ts)).cons n).trans ?_)
      rw [← List.append_assoc, ← List.append_assoc]
      exact List.perm_middle.symm

/-- The segments of `base` are still there in `front`, and a pass adds its own. -/
theorem stored_regroup {base front : List (List Char)} {items : List Item} {inside depth : Nat}
    (hfront : base <+: front) (hplain : ∀ t, .plain t ∈ items → Stored base depth t)
    (hgroup : ∀ g, .group g ∈ items → ∀ t ∈ g, Stored base inside t) (hlt : inside + 1 ≤ depth) :
    ∀ t ∈ regroup items front.length, Stored (front ++ items.flatMap Item.stashed) depth t := by
  induction items generalizing front with
  | nil => exact fun t ht => absurd ht List.not_mem_nil
  | cons item items ih =>
    have hplain' := fun t ht => hplain t (List.mem_cons_of_mem item ht)
    have hgroup' := fun g hg => hgroup g (List.mem_cons_of_mem item hg)
    intro t ht
    cases item with
    | plain t' =>
      rcases List.mem_cons.mp ht with rfl | hmem
      · obtain ⟨more, rfl⟩ := hfront
        rw [List.append_assoc]
        exact (hplain t List.mem_cons_self).mono (Nat.le_refl _)
      · exact ih hfront hplain' hgroup' t hmem
    | group g =>
      have hstashed : front ++ (Item.group g :: items).flatMap Item.stashed =
          (front ++ [renderAll g]) ++ items.flatMap Item.stashed := by
        rw [List.flatMap_cons, List.append_assoc]
        rfl
      have hfront' : base <+: front ++ [renderAll g] := hfront.trans (List.prefix_append _ _)
      rw [hstashed]
      rcases List.mem_cons.mp ht with rfl | hmem
      · obtain ⟨d, rfl⟩ : ∃ d, depth = d + 1 := ⟨depth - 1, by omega⟩
        refine .span ?_ fun t ht => ?_
        · rw [List.append_assoc, List.getElem?_append_right (Nat.le_refl _), Nat.sub_self]
          rfl
        · obtain ⟨more, hmore⟩ := hfront'
          rw [← hmore, List.append_assoc]
          exact (hgroup g List.mem_cons_self t ht).mono (Nat.le_of_succ_le_succ hlt)
      · have hlength : (front ++ [renderAll g]).length = front.length + 1 := List.length_append
        have hrest := ih hfront' hplain' hgroup' t
        rw [hlength] at hrest
        exact hrest hmem

/-- The tokens of a working text and its segments: each segment is that of one span. -/
structure Reads (st : Stash) (depth : Nat) (text : List Char) (ts : List Tok) : Prop where
  working : st.1 = renderAll ts
  stored : ∀ t ∈ ts, Stored st.2 depth t
  text : flattenAll ts = text
  numbers : (numbersAll ts).Perm (List.range st.2.length)

/-- A text with nothing stashed. -/
theorem Reads.start {text : List Char} (h : nul ∉ text) :
    Reads (text, []) 0 text (text.map .lit) where
  working := (renderAll_lits text).symm
  stored t ht := by
    obtain ⟨c, hc, rfl⟩ := List.mem_map.mp ht
    exact .lit fun heq => h (heq ▸ hc)
  text := flattenAll_lits text
  numbers := by
    rw [numbersAll_lits]
    exact List.Perm.refl _

section

variable {st : Stash} {depth : Nat} {text : List Char} {ts : List Tok} {r : Regex Char}

theorem Reads.stash_of (inside : Nat) {depth' : Nat} (h : Reads st depth text ts) (hr : Respects r)
    (hinside : ∀ g : List Tok, (∀ t ∈ g, t ∈ ts) → (∃ before after,
      Matches r before (renderAll g) after) → ∀ t ∈ g, Stored st.2 inside t)
    (hlt : inside + 1 ≤ depth') (hle : depth ≤ depth') :
    ∃ ts', Reads (stashParts (finditer r st.1) st.2) depth' text ts' := by
  obtain ⟨working, segments⟩ := st
  obtain ⟨rfl, hstored, htext, hnumbers⟩ := h
  obtain ⟨items, htoks, hparts, hhits⟩ := scan_render hr ts _ (Nat.le_refl _) []
  have hmem : ∀ item ∈ items, ∀ t ∈ item.toks, t ∈ ts := fun item hitem t ht =>
    htoks ▸ List.mem_flatMap_of_mem hitem ht
  refine ⟨regroup items segments.length, ?_, ?_, ?_, ?_⟩
  · rw [finditer, ← hparts, stashParts_items]
  · rw [finditer, ← hparts, stashParts_items]
    refine stored_regroup (List.prefix_refl segments) (fun t ht => ?_) (fun g hg => ?_) hlt
    · have hkept : Stored (segments ++ []) depth' t :=
        (hstored t (hmem _ ht t (List.mem_singleton_self t))).mono hle
      rwa [List.append_nil] at hkept
    · exact hinside g (hmem _ hg) (hhits g hg)
  · rw [flattenAll_regroup, htoks, htext]
  · rw [finditer, ← hparts, stashParts_items]
    have hrange (n m : Nat) : List.range n ++ List.range' n m = List.range (n + m) := by
      rw [List.range_eq_range', List.range_eq_range', ← List.range'_append_1, Nat.zero_add]
    rw [List.length_append, ← hrange]
    refine (numbersAll_regroup items segments.length).trans ?_
    rw [htoks]
    exact hnumbers.append_right _

/-- **A pass** leaves the text as it is and adds a level at most. -/
theorem Reads.stash (h : Reads st depth text ts) (hr : Respects r) :
    ∃ ts', Reads (stashParts (finditer r st.1) st.2) (depth + 1) text ts' :=
  h.stash_of depth hr (fun _ hsub _ t ht => h.stored t (hsub t ht)) (Nat.le_refl _)
    (Nat.le_succ _)

/-- A pass whose matches have no sentinel in them adds none to a text that has a level. -/
theorem Reads.stash_flat (h : Reads st (depth + 1) text ts) (hr : Respects r)
    (havoids : avoids [nul] r = true) :
    ∃ ts', Reads (stashParts (finditer r st.1) st.2) (depth + 1) text ts' := by
  refine h.stash_of 0 hr (fun g hsub hmatches t ht => ?_) (by omega) (Nat.le_refl _)
  obtain ⟨before, after, hmatch⟩ := hmatches
  have hnul : nul ∉ renderAll g := fun hmem =>
    hmatch.avoids havoids nul hmem List.mem_cons_self
  rw [eq_lits_of_not_mem hnul] at ht
  obtain ⟨c, hc, rfl⟩ := List.mem_map.mp ht
  exact .lit fun heq => hnul (heq ▸ hc)

end

/-! ## 6. Restoring -/

section

variable (py : Chars)

theorem isDecimal_nul : py.isDecimal nul = false := by
  rw [py.asciiDecimal nul (by decide)]
  decide

theorem isDecimal_of_mem_toDigits {n : Nat} {c : Char} (h : c ∈ Nat.toDigits 10 n) :
    py.isDecimal c = true := by
  have hdigit : c.isDigit = true := Nat.isDigit_of_mem_toDigits (by decide) (by decide) h
  obtain ⟨-, hhigh⟩ := Char.isDigit_iff_toNat.mp hdigit
  rw [py.asciiDecimal c (Nat.lt_of_le_of_lt hhigh (by decide)), hdigit]

variable {py}

/-- A match of the sentinel pattern. -/
theorem sentinel_of_matches {before w after : List Char}
    (h : Matches (sentinelRe py) before w after) : ∃ ds, w = nul :: (ds ++ [nul]) ∧ nul ∉ ds := by
  cases h with
  | seq hopen hrest =>
    cases hopen with
    | cls hc =>
      cases hrest with
      | seq hdigits hclose =>
        cases hclose with
        | cls hc' =>
          refine ⟨_, ?_, fun hmem => hdigits.avoids (A := [nul]) ?_ nul hmem List.mem_cons_self⟩
          · rw [of_decide_eq_true hc, of_decide_eq_true hc']
            rfl
          · simp [plus, avoids, isDecimal_nul]

/-- Two texts up to their first NUL. -/
theorem eq_of_append_nul {v w rest rest' : List Char} (hv : nul ∉ v) (hw : nul ∉ w)
    (h : v ++ nul :: rest = w ++ nul :: rest') : v = w := by
  rcases List.append_eq_append_iff.mp h with ⟨a, hwa, hrest⟩ | ⟨a, hva, hrest⟩
  · cases a with
    | nil => rw [hwa, List.append_nil]
    | cons x a =>
      obtain ⟨rfl, -⟩ := List.cons.inj hrest
      exact absurd (hwa ▸ List.mem_append_right v List.mem_cons_self) hw
  · cases a with
    | nil => rw [hva, List.append_nil]
    | cons x a =>
      obtain ⟨rfl, -⟩ := List.cons.inj hrest
      exact absurd (hva ▸ List.mem_append_right w List.mem_cons_self) hv

theorem matchAt_sentinel (n : Nat) (before rest : List Char) :
    matchAt (sentinelRe py) before (sentinel n ++ rest) = some (sentinel n) := by
  have hnul : nul ∉ Nat.toDigits 10 n := fun hmem =>
    nul_not_mem_digits (mem_digits_of_mem_toDigits hmem)
  obtain ⟨d, ds, hds⟩ : ∃ d ds, Nat.toDigits 10 n = d :: ds :=
    List.exists_cons_of_ne_nil Nat.toDigits_ne_nil
  have htext : sentinel n ++ rest = nul :: (d :: (ds ++ nul :: rest)) := by
    rw [sentinel, hds]
    simp only [List.cons_append, List.append_assoc, List.nil_append]
  have hmem : (nul :: (ds.reverse ++ d :: nul :: before), rest) ∈
      ends (sentinelRe py) before (sentinel n ++ rest) := by
    have hdecimal := fun c (hc : c ∈ d :: ds) =>
      isDecimal_of_mem_toDigits py (n := n) (hds ▸ hc)
    have hrun := mem_ends_run true (fun c hc => hdecimal c (List.mem_cons_of_mem d hc))
      (d :: nul :: before) (nul :: rest)
    rw [htext]
    refine List.mem_flatMap.mpr ⟨(nul :: before, d :: (ds ++ nul :: rest)), ?_, ?_⟩
    · exact List.mem_singleton_self _
    · refine List.mem_flatMap.mpr ⟨(ds.reverse ++ d :: nul :: before, nul :: rest), ?_, ?_⟩
      · refine List.mem_flatMap.mpr ⟨(d :: nul :: before, ds ++ nul :: rest), ?_, hrun⟩
        rw [ends, if_pos (hdecimal d List.mem_cons_self)]
        exact List.mem_singleton_self _
      · exact List.mem_singleton_self _
  obtain ⟨w, hw⟩ := matchAt_of_mem hmem (Nat.zero_lt_succ _)
  obtain ⟨rest', hsplit, -, hmatches, -⟩ := matchAt_eq_some hw
  obtain ⟨ds', rfl, hnul'⟩ := sentinel_of_matches hmatches
  rw [sentinel, List.cons_append, List.cons_append, List.append_assoc, List.append_assoc] at hsplit
  rw [hw, sentinel, eq_of_append_nul hnul hnul' (List.cons.inj hsplit).2]

/-- A token as the sentinel pattern sees it. -/
def Tok.piece : Tok → Piece Char
  | .lit c => .lit c
  | .span n _ => .hit (sentinel n)

theorem scan_sentinels {ts : List Tok} (hclean : ∀ c, .lit c ∈ ts → c ≠ nul) (fuel : Nat)
    (h : (renderAll ts).length ≤ fuel) (before : List Char) :
    scan (sentinelRe py) fuel before (renderAll ts) = ts.map Tok.piece := by
  induction ts generalizing fuel before with
  | nil => exact scan_nil _ fuel before
  | cons t ts ih =>
    have hclean' := fun c hc => hclean c (List.mem_cons_of_mem t hc)
    rw [renderAll_cons, List.length_append] at h
    rw [renderAll_cons, List.map_cons]
    cases t with
    | lit c =>
      have hone : (Tok.lit c).render.length = 1 := rfl
      obtain ⟨fuel, rfl⟩ : ∃ f, fuel = f + 1 := ⟨fuel - 1, by omega⟩
      have hnone : matchAt (sentinelRe py) before (c :: renderAll ts) = none := by
        cases hmatch : matchAt (sentinelRe py) before (c :: renderAll ts) with
        | none => rfl
        | some w =>
          obtain ⟨rest, hw, -, hmatches, -⟩ := matchAt_eq_some hmatch
          obtain ⟨ds, rfl, -⟩ := sentinel_of_matches hmatches
          exact absurd (List.cons.inj hw).1 (hclean c List.mem_cons_self)
      rw [Tok.render, List.cons_append, List.nil_append, scan, hnone]
      simp only [ih hclean' fuel (by omega)]
      rfl
    | span n inner =>
      have hpos : 0 < (Tok.span n inner).render.length := Nat.zero_lt_succ _
      obtain ⟨fuel, rfl⟩ : ∃ f, fuel = f + 1 := ⟨fuel - 1, by omega⟩
      have hmatch := @matchAt_sentinel py n before (renderAll ts)
      rw [Tok.render] at h hpos ⊢
      obtain ⟨c, cs, hcs⟩ : ∃ c cs, sentinel n = c :: cs := ⟨nul, _, rfl⟩
      rw [hcs, List.cons_append] at hmatch ⊢
      rw [scan, hmatch]
      simp only [← List.cons_append, ← hcs, List.drop_left]
      rw [ih hclean' fuel (by omega)]
      rfl

theorem finditer_sentinels {ts : List Tok} (hclean : ∀ c, .lit c ∈ ts → c ≠ nul) :
    finditer (sentinelRe py) (renderAll ts) = ts.map Tok.piece :=
  scan_sentinels hclean _ (Nat.le_refl _) []

theorem restore_sentinel (segments : List (List Char)) (n : Nat) :
    restore py segments (sentinel n) = (segments[n]?).getD (sentinel n) := by
  have hgroup : (sentinel n).tail.dropLast = Nat.toDigits 10 n := List.dropLast_concat
  have hdigits : ∀ c ∈ Nat.toDigits 10 n, c.isDigit = true := fun c hc =>
    Nat.isDigit_of_mem_toDigits (by decide) (by decide) hc
  rw [restore, hgroup, py.asciiInt _ hdigits, Nat.ofDigitChars_ten_toDigits]

/-- What a token is replaced by. -/
def Tok.opened : Tok → List Tok
  | .lit c => [.lit c]
  | .span _ inner => inner

theorem flattenAll_opened (ts : List Tok) : flattenAll (ts.flatMap Tok.opened) = flattenAll ts := by
  induction ts with
  | nil => rfl
  | cons t ts ih =>
    rw [List.flatMap_cons, flattenAll_append, ih, flattenAll]
    cases t with
    | lit c => rfl
    | span n inner => rw [Tok.opened, Tok.flatten]

variable {segments : List (List Char)}

theorem ne_nul_of_stored {depth : Nat} {c : Char} (h : Stored segments depth (.lit c)) :
    c ≠ nul := by
  cases h with
  | lit hc => exact hc

/-- One pass over a text. -/
theorem sub_sentinels {depth : Nat} {ts : List Tok} (h : ∀ t ∈ ts, Stored segments depth t) :
    sub (sentinelRe py) (restore py segments) (renderAll ts) =
      renderAll (ts.flatMap Tok.opened) := by
  rw [sub, finditer_sentinels fun c hc => ne_nul_of_stored (h _ hc)]
  induction ts with
  | nil => rfl
  | cons t ts ih =>
    rw [List.map_cons, List.flatMap_cons, List.flatMap_cons, renderAll_append,
      ih fun t' ht' => h t' (List.mem_cons_of_mem t ht')]
    congr 1
    have ht := h t List.mem_cons_self
    cases ht with
    | lit hc => rfl
    | span hstored _ =>
      rw [Tok.piece, Piece.replace, restore_sentinel, hstored]
      rfl

theorem eq_flattenAll_of_lits {ts : List Tok} (h : ∀ t ∈ ts, ∃ c, t = .lit c) :
    renderAll ts = flattenAll ts := by
  induction ts with
  | nil => rfl
  | cons t ts ih =>
    obtain ⟨c, rfl⟩ := h t List.mem_cons_self
    rw [renderAll_cons, flattenAll, ih fun t' ht' => h t' (List.mem_cons_of_mem _ ht')]
    rfl

/-- **The passes put every stashed span back**, if there is one for each level. -/
theorem restoreLoop_render {passes : Nat} {ts : List Tok}
    (h : ∀ t ∈ ts, Stored segments passes t) :
    restoreLoop py segments passes (renderAll ts) = flattenAll ts := by
  induction passes generalizing ts with
  | zero =>
    refine eq_flattenAll_of_lits fun t ht => ?_
    cases h t ht with
    | lit _ => exact ⟨_, rfl⟩
  | succ passes ih =>
    rw [restoreLoop]
    split
    · rw [sub_sentinels h, ih, flattenAll_opened]
      intro t ht
      obtain ⟨t', ht', hopened⟩ := List.mem_flatMap.mp ht
      cases h t' ht' with
      | lit hc =>
        rw [List.mem_singleton.mp hopened]
        exact .lit hc
      | span _ hinner => exact hinner t hopened
    · next hnone =>
      refine eq_flattenAll_of_lits fun t ht => ?_
      cases t with
      | lit c => exact ⟨c, rfl⟩
      | span n inner =>
        rw [finditer_sentinels fun c hc => ne_nul_of_stored (h _ hc)] at hnone
        exact absurd (List.any_eq_true.mpr ⟨_, List.mem_map_of_mem ht, rfl⟩) hnone

end

end TokenProxy.ProseCompress
