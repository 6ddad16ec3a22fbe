/-
  TokenProxy/TextReplace.lean
  ===========================
  **Replacing all occurrences of a word, and templates with bracketed holes.**

  A template is a text with holes, each standing for a word that opens and closes
  with its own symbols and has neither inside.  Filling the holes by replacing one
  word after another, in any order, gives the same as filling them at once,
  provided none of the words occurs in the filled template
  (`foldl_replaceAll_fill`): an occurrence cannot straddle the edge of a hole,
  because a bracket would stand inside it.
-/
import Mathlib.Data.List.Infix
import Mathlib.Logic.Function.Basic

namespace TokenProxy.TextReplace

variable {α : Type*} [DecidableEq α]

/-! ## 1. Replacing a word -/

/-- `skip` symbols of the occurrence just replaced are still ahead. -/
def replaceFrom (old new : List α) : Nat → List α → List α
  | _, [] => []
  | skip + 1, _ :: cs => replaceFrom old new skip cs
  | 0, c :: cs =>
    if old <+: c :: cs then new ++ replaceFrom old new (old.length - 1) cs
    else c :: replaceFrom old new 0 cs

/-- Replace the occurrences of a non-empty word, leftmost first and none overlapping. -/
def replaceAll (old new : List α) (s : List α) : List α := replaceFrom old new 0 s

theorem replaceFrom_eq_drop (old new : List α) (skip : Nat) (s : List α) :
    replaceFrom old new skip s = replaceAll old new (s.drop skip) := by
  induction s generalizing skip with
  | nil => cases skip <;> rfl
  | cons c cs ih =>
    cases skip with
    | zero => rfl
    | succ skip => exact ih skip

@[simp] theorem replaceAll_nil (old new : List α) : replaceAll old new [] = [] := rfl

theorem replaceAll_cons_of_not_start {old : List α} (new : List α) {c : α} {cs : List α}
    (h : ¬ old <+: c :: cs) : replaceAll old new (c :: cs) = c :: replaceAll old new cs := by
  rw [replaceAll, replaceFrom, if_neg h]
  rfl

theorem replaceAll_append_self {old : List α} (hold : old ≠ []) (new rest : List α) :
    replaceAll old new (old ++ rest) = new ++ replaceAll old new rest := by
  cases old with
  | nil => exact absurd rfl hold
  | cons c cs =>
    have hstart : c :: cs <+: c :: (cs ++ rest) := List.prefix_append (c :: cs) rest
    rw [List.cons_append, replaceAll, replaceFrom, if_pos hstart, replaceFrom_eq_drop,
      List.length_cons, Nat.add_sub_cancel, List.drop_left]

theorem replaceAll_of_absent {old : List α} (new : List α) {s : List α}
    (h : ¬ old <:+: s) : replaceAll old new s = s := by
  induction s with
  | nil => rfl
  | cons c cs ih =>
    rw [replaceAll_cons_of_not_start new fun hstarts => h hstarts.isInfix,
      ih fun hwithin => h (hwithin.trans (List.suffix_cons c cs).isInfix)]

/-! ## 2. Bracketed words -/

omit [DecidableEq α] in
/-- Two texts cut at their first `c` have equal parts. -/
theorem append_cons_inj_of_notMem_left {c : α} {l l' r r' : List α} (hl : c ∉ l) (hl' : c ∉ l')
    (h : l ++ c :: r = l' ++ c :: r') : l = l' ∧ r = r' := by
  induction l generalizing l' with
  | nil =>
    cases l' with
    | nil => exact ⟨rfl, (List.cons.inj h).2⟩
    | cons d l' =>
      obtain ⟨rfl, -⟩ := List.cons.inj h
      exact absurd List.mem_cons_self hl'
  | cons d l ih =>
    cases l' with
    | nil =>
      obtain ⟨rfl, -⟩ := List.cons.inj h
      exact absurd List.mem_cons_self hl
    | cons d' l' =>
      obtain ⟨rfl, htail⟩ := List.cons.inj h
      obtain ⟨rfl, rfl⟩ := ih (fun hc => hl (List.mem_cons_of_mem d hc))
        (fun hc => hl' (List.mem_cons_of_mem d hc)) htail
      exact ⟨rfl, rfl⟩

/-- The word opens with `opn`, closes with `cls`, and has neither inside. -/
def Bracketed (opn cls : α) (w : List α) : Prop :=
  ∃ body, w = opn :: (body ++ [cls]) ∧ opn ∉ body ∧ cls ∉ body

variable {opn cls : α} {w t : List α}

omit [DecidableEq α] in
theorem Bracketed.ne_nil (h : Bracketed opn cls w) : w ≠ [] := by
  obtain ⟨body, rfl, -, -⟩ := h
  exact List.cons_ne_nil _ _

omit [DecidableEq α] in
theorem Bracketed.eq_cons (hne : opn ≠ cls) (h : Bracketed opn cls w) :
    ∃ tail, w = opn :: tail ∧ opn ∉ tail := by
  obtain ⟨body, rfl, hopn, -⟩ := h
  refine ⟨body ++ [cls], rfl, ?_⟩
  simp [hopn, hne]

omit [DecidableEq α] in
/-- A bracketed word that begins where another one begins is that word. -/
theorem Bracketed.eq_of_starts (hw : Bracketed opn cls w) (ht : Bracketed opn cls t)
    {rest : List α} (h : w <+: t ++ rest) : w = t := by
  obtain ⟨body, rfl, -, hbody⟩ := hw
  obtain ⟨body', rfl, -, hbody'⟩ := ht
  obtain ⟨more, hmore⟩ := h
  have heq : body ++ cls :: more = body' ++ cls :: rest := by simpa using hmore
  rw [(append_cons_inj_of_notMem_left hbody hbody' heq).1]

omit [DecidableEq α] in
/-- An occurrence that begins before a bracketed word does not reach into it. -/
theorem Bracketed.not_prefix_straddling (hne : opn ≠ cls) (hw : Bracketed opn cls w)
    (ht : Bracketed opn cls t) {c : α} {seg : List α} (rest : List α)
    (hseg : ¬ w <:+: c :: seg) : ¬ w <+: c :: seg ++ (t ++ rest) := by
  intro hstarts
  rcases Nat.le_total w.length (c :: seg).length with hlen | hlen
  · have hinside := List.prefix_of_prefix_length_le hstarts (List.prefix_append (c :: seg) _) hlen
    exact hseg hinside.isInfix
  · obtain ⟨beyond, rfl⟩ := List.prefix_of_prefix_length_le (List.prefix_append (c :: seg) _)
      hstarts hlen
    have hbeyond : beyond <+: t ++ rest := (List.prefix_append_right_inj _).mp hstarts
    obtain ⟨tail, htail, hopn⟩ := hw.eq_cons hne
    obtain ⟨ttail, rfl, -⟩ := ht.eq_cons hne
    cases beyond with
    | nil => exact hseg (by simp)
    | cons d beyond =>
      obtain ⟨rfl, -⟩ := List.cons_prefix_cons.mp hbeyond
      rw [List.cons_append] at htail
      obtain ⟨-, rfl⟩ := List.cons.inj htail
      exact hopn (by simp)

theorem replaceAll_append_of_notMem (hne : opn ≠ cls) (hw : Bracketed opn cls w) (v : List α)
    {seg : List α} (hseg : opn ∉ seg) (rest : List α) :
    replaceAll w v (seg ++ rest) = seg ++ replaceAll w v rest := by
  obtain ⟨tail, rfl, -⟩ := hw.eq_cons hne
  induction seg with
  | nil => rfl
  | cons c seg ih =>
    rw [List.mem_cons, not_or] at hseg
    rw [List.cons_append, replaceAll_cons_of_not_start v, ih hseg.2, List.cons_append]
    intro hstarts
    exact hseg.1 (List.cons_prefix_cons.mp hstarts).1

/-- Replacing a word in a text that begins with a bracketed word. -/
theorem replaceAll_bracketed_append (hne : opn ≠ cls) (hw : Bracketed opn cls w)
    (ht : Bracketed opn cls t) (v rest : List α) :
    replaceAll w v (t ++ rest) = (if t = w then v else t) ++ replaceAll w v rest := by
  split
  · rename_i heq
    rw [heq, replaceAll_append_self hw.ne_nil]
  · rename_i hdiff
    have hstart : ¬ w <+: t ++ rest := fun h => hdiff (hw.eq_of_starts ht h).symm
    obtain ⟨tail, rfl, hopn⟩ := ht.eq_cons hne
    rw [List.cons_append] at hstart
    rw [List.cons_append, replaceAll_cons_of_not_start v hstart,
      replaceAll_append_of_notMem hne hw v hopn, List.cons_append]

theorem replaceAll_append_bracketed (hne : opn ≠ cls) (hw : Bracketed opn cls w)
    (ht : Bracketed opn cls t) (v rest : List α) {seg : List α} (hseg : ¬ w <:+: seg) :
    replaceAll w v (seg ++ (t ++ rest)) = seg ++ replaceAll w v (t ++ rest) := by
  induction seg with
  | nil => rfl
  | cons c seg ih =>
    have hstart := hw.not_prefix_straddling hne ht rest hseg
    rw [List.cons_append] at hstart
    have hrest : ¬ w <:+: seg := fun h => hseg (h.trans (List.suffix_cons c seg).isInfix)
    rw [List.cons_append, replaceAll_cons_of_not_start v hstart, ih hrest, List.cons_append]

/-! ## 3. Templates -/

inductive Piece (α : Type*) where
  | text (s : List α)
  /-- Stands for a word. -/
  | hole (w : List α)

def fill (f : List α → List α) : List (Piece α) → List α
  | [] => []
  | .text s :: ps => s ++ fill f ps
  | .hole w :: ps => f w ++ fill f ps

def holes : List (Piece α) → List (List α)
  | [] => []
  | .text _ :: ps => holes ps
  | .hole w :: ps => w :: holes ps

omit [DecidableEq α] in
theorem fill_congr {f g : List α → List α} {ps : List (Piece α)}
    (h : ∀ w ∈ holes ps, f w = g w) : fill f ps = fill g ps := by
  induction ps with
  | nil => rfl
  | cons p ps ih =>
    cases p with
    | text s => rw [fill, fill, ih h]
    | hole w =>
      rw [fill, fill, h w List.mem_cons_self, ih fun w' hw' => h w' (List.mem_cons_of_mem w hw')]

section

variable {f g : List α → List α} {ps : List (Piece α)}

/-- Replacing one word fills its holes.  `seg` is the text since the last open hole; it is a part
    of the filled template. -/
theorem replaceAll_seg_fill (hne : opn ≠ cls) (hw : Bracketed opn cls w)
    (hopen : ∀ t ∈ holes ps, f t = g t ∨ (f t = t ∧ Bracketed opn cls t))
    (seg : List α) (hnone : ¬ w <:+: seg ++ fill g ps) :
    replaceAll w (g w) (seg ++ fill f ps) = seg ++ fill (Function.update f w (g w)) ps := by
  induction ps generalizing seg with
  | nil => exact replaceAll_of_absent (g w) hnone
  | cons p ps ih =>
    cases p with
    | text s =>
      rw [fill, fill, ← List.append_assoc, ← List.append_assoc]
      exact ih hopen (seg ++ s) (by rw [List.append_assoc]; exact hnone)
    | hole t =>
      have hrest : ∀ t' ∈ holes ps, f t' = g t' ∨ (f t' = t' ∧ Bracketed opn cls t') :=
        fun t' ht' => hopen t' (List.mem_cons_of_mem t ht')
      rw [fill, fill]
      rw [fill] at hnone
      rcases hopen t List.mem_cons_self with hfilled | ⟨hempty, ht⟩
      · have hsame : Function.update f w (g w) t = f t := by
          by_cases heq : t = w
          · rw [heq, Function.update_self, ← heq, hfilled]
          · exact Function.update_of_ne heq (g w) f
        rw [hsame, hfilled, ← List.append_assoc, ← List.append_assoc]
        exact ih hrest (seg ++ g t) (by rw [List.append_assoc]; exact hnone)
      · have hseg : ¬ w <:+: seg := fun h => hnone (h.trans (List.prefix_append seg _).isInfix)
        have htail : ¬ w <:+: [] ++ fill g ps := fun h => hnone
          (h.trans ((List.suffix_append (g t) _).trans (List.suffix_append seg _)).isInfix)
        have hvalue : (if t = w then g w else t) = Function.update f w (g w) t := by
          by_cases heq : t = w
          · rw [if_pos heq, heq, Function.update_self]
          · rw [if_neg heq, Function.update_of_ne heq, hempty]
        rw [hempty, replaceAll_append_bracketed hne hw ht (g w) _ hseg,
          replaceAll_bracketed_append hne hw ht, hvalue]
        exact congrArg (fun rest => seg ++ (_ ++ rest)) (ih hrest [] htail)

/-- **Replacing one word after another fills a template**, when none of the words occurs in the
    filled template and every hole is for one of them. -/
theorem foldl_replaceAll_fill (hne : opn ≠ cls) (ws : List (List α))
    (hws : ∀ w ∈ ws, Bracketed opn cls w ∧ ¬ w <:+: fill g ps)
    (hopen : ∀ t ∈ holes ps, f t = g t ∨ (f t = t ∧ t ∈ ws)) :
    ws.foldl (fun s w => replaceAll w (g w) s) (fill f ps) = fill g ps := by
  induction ws generalizing f with
  | nil =>
    apply fill_congr
    intro t ht
    rcases hopen t ht with hfilled | ⟨-, hmem⟩
    · exact hfilled
    · cases hmem
  | cons w ws ih =>
    obtain ⟨hw, hnone⟩ := hws w List.mem_cons_self
    have hstep : replaceAll w (g w) (fill f ps) = fill (Function.update f w (g w)) ps := by
      have hopen' : ∀ t ∈ holes ps, f t = g t ∨ (f t = t ∧ Bracketed opn cls t) :=
        fun t ht => (hopen t ht).imp_right fun h => ⟨h.1, (hws t h.2).1⟩
      simpa using replaceAll_seg_fill hne hw hopen' [] (by simpa using hnone)
    rw [List.foldl_cons, hstep]
    apply ih fun w' hw' => hws w' (List.mem_cons_of_mem w hw')
    intro t ht
    by_cases heq : t = w
    · exact Or.inl (by rw [heq, Function.update_self])
    · rw [Function.update_of_ne heq]
      exact (hopen t ht).imp_right fun h => ⟨h.1, (List.mem_cons.mp h.2).resolve_left heq⟩

end

/-! ## 4. Decimal numerals -/

theorem digits_plain (n : Nat) (c : Char) (hc : c ∈ (toString n).toList) : c.isDigit = true := by
  have hdigits : (toString n).toList = Nat.toDigits 10 n := Nat.toList_repr
  rw [hdigits] at hc
  exact Nat.isDigit_of_mem_toDigits (by decide) (by decide) hc

theorem notMem_digits {c : Char} (hc : c.isDigit = false) (n : Nat) :
    c ∉ (toString n).toList := by
  intro hmem
  rw [digits_plain n c hmem] at hc
  cases hc

theorem toString_injective {n n' : Nat} (h : (toString n).toList = (toString n').toList) :
    n = n' := by
  have hdigits : Nat.toDigits 10 n = Nat.toDigits 10 n' := by
    rw [← Nat.toList_repr, ← Nat.toList_repr]
    exact h
  rw [← @Nat.ofDigitChars_ten_toDigits n, hdigits, Nat.ofDigitChars_ten_toDigits]

end TokenProxy.TextReplace
