/-
  TokenProxy/ProseIdempotence.lean
  ================================
  **Compressing prose twice** (`prose_compress.py`, `_rung_compress`, `g26_context_budget.py`).

  Every rule runs once.  What one of them takes away can bring what an earlier one looks for to
  the place where it looks: without "please", "i will" is at the start of the line.

  Main result: `compressText_compressed_iff`, a text that has been compressed stays as it is
  exactly when no rule finds anything to do in it.
-/
import TokenProxy.ProseDeletion

namespace TokenProxy.ProseCompress

open TokenProxy.Ccr (stripBy stripBy_eq_self_iff stripBy_spec)
open TokenProxy.KeyStore (isSpace)
open TokenProxy.Regex

variable (py : Chars)

/-- No rule matches in a text whose protected spans are set aside, and no white space is at its
    ends. -/
structure Settled (text : List Char) : Prop where
  rules : ∀ rule ∈ rules py, NoHit (finditer rule.pattern (stashed py text).1)
  first : ∀ c ∈ (stashed py text).1.head?, isSpace c = false
  last : ∀ c ∈ (stashed py text).1.getLast?, isSpace c = false

/-! ## 1. Lengths -/

theorem length_renderAll (ts : List Tok) :
    (renderAll ts).length + (flattenAll (ts.filter Tok.isSpan)).length =
      (flattenAll ts).length + (renderAll (ts.filter Tok.isSpan)).length := by
  induction ts with
  | nil => rfl
  | cons t ts ih =>
    rw [renderAll_cons, flattenAll, List.length_append, List.length_append]
    cases t with
    | lit c =>
      have hone : (Tok.lit c).render.length = (Tok.lit c).flatten.length := rfl
      rw [List.filter_cons_of_neg (Bool.false_ne_true : ¬ (Tok.lit c).isSpan = true)]
      omega
    | span n inner =>
      rw [List.filter_cons_of_pos (rfl : (Tok.span n inner).isSpan = true), renderAll_cons,
        flattenAll, List.length_append, List.length_append]
      omega

/-- With the spans the same, the working texts are as long as each other when the texts are. -/
theorem Trims.length_renderAll {ts kept : List Tok} (h : Trims ts kept)
    (heq : (ProseCompress.flattenAll kept).length = (ProseCompress.flattenAll ts).length) :
    (renderAll kept).length = (renderAll ts).length := by
  have hkept := ProseCompress.length_renderAll kept
  have hts := ProseCompress.length_renderAll ts
  rw [h.spans] at hkept
  omega

/-! ## 2. Rules with nothing to do -/

theorem foldl_apply_eq_self {rs : List Rule} {s : List Char}
    (h : ∀ rule ∈ rs, NoHit (finditer rule.pattern s)) :
    rs.foldl (fun s rule => rule.apply s) s = s := by
  induction rs with
  | nil => rfl
  | cons rule rs ih =>
    rw [List.foldl_cons, Rule.apply, sub_eq_self (h rule List.mem_cons_self)]
    exact ih fun r hr => h r (List.mem_cons_of_mem rule hr)

/-- A text that keeps its length under the rules has no match of any. -/
theorem noHit_of_length {rs : List Rule} (hsound : ∀ rule ∈ rs, rule.Sound) (s : List Char) :
    (rs.foldl (fun s rule => rule.apply s) s).length ≤ s.length ∧
      ((rs.foldl (fun s rule => rule.apply s) s).length = s.length →
        ∀ rule ∈ rs, NoHit (finditer rule.pattern s)) := by
  induction rs generalizing s with
  | nil => exact ⟨Nat.le_refl _, fun _ rule hmem => absurd hmem List.not_mem_nil⟩
  | cons rule rs ih =>
    obtain ⟨hle, hnone⟩ := (hsound rule List.mem_cons_self).shorter s
    obtain ⟨hle', hnone'⟩ := ih (fun r hr => hsound r (List.mem_cons_of_mem rule hr)) (rule.apply s)
    rw [List.foldl_cons]
    refine ⟨hle'.trans hle, fun heq => ?_⟩
    have hfirst := hnone (by omega)
    have hsame : rule.apply s = s := sub_eq_self hfirst rule.repl
    rw [hsame] at hnone' heq
    intro r hr
    rcases List.mem_cons.mp hr with rfl | hmem
    · exact hfirst
    · exact hnone' heq r hmem

theorem length_stripBy_le (s : List Char) : (stripBy isSpace s).length ≤ s.length ∧
    ((stripBy isSpace s).length = s.length → stripBy isSpace s = s) := by
  obtain ⟨lead, trail, hs, -⟩ := stripBy_spec isSpace s
  have hlength := congrArg List.length hs
  rw [List.length_append, List.length_append] at hlength
  refine ⟨by omega, fun heq => ?_⟩
  have hlead : lead = [] := List.length_eq_zero_iff.mp (by omega)
  have htrail : trail = [] := List.length_eq_zero_iff.mp (by omega)
  rw [hlead, htrail, List.nil_append, List.append_nil] at hs
  exact hs.symm

/-- **The rules leave a working text as it is** when its length says so. -/
theorem compressProse_eq_self_iff (s : List Char) :
    (compressProse py s).length = s.length ↔
      (∀ rule ∈ rules py, NoHit (finditer rule.pattern s)) ∧ stripBy isSpace s = s := by
  obtain ⟨hle, hnone⟩ := noHit_of_length (rules_sound py) s
  obtain ⟨hle', hstrip⟩ := length_stripBy_le ((rules py).foldl (fun s rule => rule.apply s) s)
  rw [compressProse]
  constructor
  · intro heq
    have hrules := hnone (by omega)
    have hsame := hstrip (by omega)
    rw [foldl_apply_eq_self hrules] at hsame
    exact ⟨hrules, hsame⟩
  · rintro ⟨hrules, hsame⟩
    rw [foldl_apply_eq_self hrules, hsame]

/-! ## 3. Compressing twice -/

theorem compressText_eq_self_iff {text : List Char} (h : nul ∉ text) :
    compressText py text = text ↔ Settled py text := by
  have hclean : (text.filter fun c => c ≠ nul) = text :=
    List.filter_eq_self.mpr fun c hc => decide_eq_true fun heq => h (heq ▸ hc)
  obtain ⟨ts, kept, hreads, htrims, hkept, hout⟩ := compressText_trims py text
  have hworking : (stashed py text).1 = renderAll ts := hreads.working
  have hlength : compressText py text = text ↔
      (compressProse py (renderAll ts)).length = (renderAll ts).length := by
    rw [hkept]
    constructor
    · intro heq
      refine htrims.length_renderAll ?_
      rw [hout, heq, hreads.text, hclean]
    · intro heq
      rw [← hkept] at heq
      obtain ⟨hrules, hstrip⟩ := (compressProse_eq_self_iff py _).mp heq
      have hsame : compressProse py (renderAll ts) = renderAll ts := by
        rw [compressProse, foldl_apply_eq_self hrules, hstrip]
      have hstored : ∀ t ∈ ts, Stored (stashed py text).2 maxRestorePasses t := fun t ht => by
        have hup : Stored ((stashed py text).2 ++ []) maxRestorePasses t :=
          (hreads.stored t ht).mono (by decide)
        rwa [List.append_nil] at hup
      rw [compressText_eq, withProtectedSegments_eq, ← stashed, hworking, hsame,
        restoreLoop_render hstored, hreads.text, hclean]
  rw [hlength, compressProse_eq_self_iff, stripBy_eq_self_iff, ← hworking]
  exact ⟨fun hdone => ⟨hdone.1, hdone.2.1, hdone.2.2⟩,
    fun hsettled => ⟨hsettled.rules, hsettled.first, hsettled.last⟩⟩

end TokenProxy.ProseCompress
