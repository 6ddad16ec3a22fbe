/-
  TokenProxy/JsonBlanks.lean
  ==========================
  **Blanks around a JSON text, and texts that are cut short.**

  Main results: `parse_framed`, the blanks around a text do not matter; `parse_part`, no part of
  an object's text that stops before its last brace is a JSON text; `newline_notMem_write`, what
  is written with `ensure_ascii` is one line.
-/
import TokenProxy.JsonReader
import TokenProxy.JsonValue
import TokenProxy.KeyStore

namespace TokenProxy.JsonText

/-! ## 1. Blanks -/

def isBlank (c : Char) : Bool := c = ' ' || c = '\t' || c = '\n' || c = '\r'

theorem lexOut_of_blank {c : Char} (h : isBlank c = true) : lexOut c = some (.out, []) := by
  rw [lexOut]
  exact if_pos h

/-- What the scanner may do next, where it goes on. -/
def Goes (P : Lex → List Token → Prop) (out : Option (Lex × List Token)) : Prop :=
  ∀ s ts, out = some (s, ts) → P s ts

theorem goes_some {P : Lex → List Token → Prop} {s : Lex} {ts : List Token} (h : P s ts) :
    Goes P (some (s, ts)) := by
  intro s' ts' heq
  cases heq
  exact h

theorem goes_ite {P : Lex → List Token → Prop} {p : Prop} [Decidable p]
    {a b : Option (Lex × List Token)} (ha : Goes P a) (hb : Goes P b) :
    Goes P (if p then a else b) := by
  split
  · exact ha
  · exact hb

theorem lexOut_of_not_blank {c : Char} (h : ¬ isBlank c = true) :
    Goes (fun s ts => s ≠ .out ∨ ts ≠ []) (lexOut c) := by
  rw [lexOut]
  have hchain : ∀ a b : Option (Lex × List Token),
      (if c = ' ' || c = '\t' || c = '\n' || c = '\r' then a else b) = b := fun a b => if_neg h
  rw [hchain]
  -- punctuation
  iterate 6
    apply goes_ite
    · exact goes_some (Or.inr (List.cons_ne_nil _ _))
  -- quotes, numbers and the names of the literals
  iterate 7
    apply goes_ite
    · apply goes_some
      left
      rintro ⟨⟩
  intro s ts hnone
  cases hnone

/-- Between tokens, only a blank is passed over. -/
theorem blank_of_lexOut {c : Char} (h : lexOut c = some (.out, [])) : isBlank c = true := by
  by_contra hblank
  rcases lexOut_of_not_blank hblank .out [] h with hne | hne
  · exact hne rfl
  · exact hne rfl

theorem blank_cases {c : Char} (h : isBlank c = true) :
    c = ' ' ∨ c = '\t' ∨ c = '\n' ∨ c = '\r' := by
  simp only [isBlank, Bool.or_eq_true, decide_eq_true_eq] at h
  tauto

theorem step_of_blank {c : Char} (h : isBlank c = true) (s : NumState) : s.step c = none := by
  rcases blank_cases h with rfl | rfl | rfl | rfl <;> cases s <;> decide

/-- White space that is no blank stands nowhere between tokens. -/
theorem blank_of_isSpace {c : Char} (h : lexOut c ≠ none) (hspace : KeyStore.isSpace c = true) :
    isBlank c = true := by
  by_contra hblank
  apply h
  have hdigit : c.isDigit = false := by
    rw [← Bool.not_eq_true, Char.isDigit_iff_toNat]
    have hzero : '0'.toNat = 48 := rfl
    have hnine : '9'.toNat = 57 := rfl
    simp only [KeyStore.isSpace, Bool.or_eq_true, Bool.and_eq_true, decide_eq_true_eq] at hspace
    omega
  have hne : ∀ d : Char, KeyStore.isSpace d = false → c ≠ d := by
    rintro d hd rfl
    rw [hspace] at hd
    cases hd
  have hchain : ∀ a b : Option (Lex × List Token),
      (if c = ' ' || c = '\t' || c = '\n' || c = '\r' then a else b) = b :=
    fun a b => if_neg hblank
  rw [lexOut, hchain, hdigit]
  simp only [hne '{' (by decide), hne '}' (by decide), hne '[' (by decide), hne ']' (by decide),
    hne ',' (by decide), hne ':' (by decide), hne '"' (by decide), hne '-' (by decide),
    hne '0' (by decide), hne 'n' (by decide), hne 't' (by decide), hne 'f' (by decide), if_false,
    Bool.false_eq_true]

/-! ## 2. Before a text -/

theorem next_start_of_blank {c : Char} (h : isBlank c = true) :
    Reader.start.next c = some Reader.start := by
  rw [Reader.next, show Reader.start.lex = .out from rfl, lexStep, lexOut_of_blank h]
  rfl

theorem parse_blank_append {lead : List Char} (h : ∀ c ∈ lead, isBlank c = true)
    (text : List Char) : parse (lead ++ text) = parse text := by
  induction lead with
  | nil => rfl
  | cons c lead ih =>
    rw [← ih fun d hd => h d (List.mem_cons_of_mem c hd), List.cons_append, parse_eq, parse_eq,
      Reader.read_cons, next_start_of_blank (h c List.mem_cons_self), Option.bind_some]

/-- A text that starts with no token is no JSON text. -/
theorem lexOut_of_parse {c : Char} {text : List Char} {t : Tree}
    (h : parse (c :: text) = some t) : lexOut c ≠ none := by
  intro hnone
  rw [parse_eq, Reader.read_cons, Reader.next, show Reader.start.lex = .out from rfl, lexStep,
    hnone] at h
  cases h

/-! ## 3. Behind a text -/

/-- What is to come of the name of a literal. -/
def Lex.ahead : Lex → List Char
  | .word next rest _ => next :: rest
  | _ => []

/-- No name of a literal has a blank in it. -/
def Lex.Named (s : Lex) : Prop := ∀ c ∈ s.ahead, isBlank c = false

theorem named_of_ahead {s : Lex} (h : s.ahead = []) : s.Named := by
  intro c hc
  rw [h] at hc
  cases hc

theorem named_of_all {s : Lex} (h : (s.ahead.all fun c => !isBlank c) = true) : s.Named := by
  intro c hc
  rw [← Bool.not_eq_true']
  exact List.all_eq_true.mp h c hc

theorem named_lexOut (c : Char) : Goes (fun s _ => s.Named) (lexOut c) := by
  rw [lexOut]
  -- blanks, punctuation, quotes and numbers
  iterate 11
    apply goes_ite
    · exact goes_some (named_of_ahead rfl)
  -- the names of the literals
  iterate 3
    apply goes_ite
    · exact goes_some (named_of_all (by decide))
  intro s ts hnone
  cases hnone

theorem named_lexStep {s s' : Lex} {c : Char} {ts : List Token} (hs : s.Named)
    (h : lexStep s c = some (s', ts)) : s'.Named := by
  cases s with
  | out => exact named_lexOut c _ _ h
  | str units =>
    rw [lexStep] at h
    split_ifs at h <;> (cases h; exact named_of_ahead rfl)
  | esc units =>
    rw [lexStep] at h
    split at h
    · cases h
      exact named_of_ahead rfl
    · split_ifs at h
      cases h
      exact named_of_ahead rfl
  | hex units digits =>
    rw [lexStep] at h
    obtain ⟨d, -, hd⟩ := Option.map_eq_some_iff.mp h
    split_ifs at hd <;> (cases hd; exact named_of_ahead rfl)
  | num lexeme state =>
    rw [lexStep] at h
    split at h
    · cases h
      exact named_of_ahead rfl
    · split_ifs at h
      obtain ⟨⟨behind, ts'⟩, hout, heq⟩ := Option.map_eq_some_iff.mp h
      cases heq
      exact named_lexOut c _ _ hout
  | word next rest token =>
    cases rest with
    | nil =>
      rw [lexStep] at h
      split_ifs at h
      cases h
      exact named_of_ahead rfl
    | cons next' rest' =>
      rw [lexStep] at h
      split_ifs at h
      cases h
      exact fun d hd => hs d (List.mem_cons_of_mem next hd)

theorem named_read {r s : Reader} {text : List Char} (hr : r.lex.Named)
    (h : r.read text = some s) : s.lex.Named := by
  induction text generalizing r with
  | nil =>
    cases h
    exact hr
  | cons c text ih =>
    rw [Reader.read_cons] at h
    obtain ⟨mid, hnext, hrest⟩ := Option.bind_eq_some_iff.mp h
    obtain ⟨ts, hstep, -⟩ := Reader.next_eq_some.mp hnext
    exact ih (named_lexStep hr hstep) hrest

/-- Another blank at the end changes nothing. -/
theorem next_blank {r : Reader} (hr : r.lex.Named) {c : Char} (h : isBlank c = true) :
    (r.next c).bind Reader.tree? = r.tree? := by
  obtain ⟨p, s⟩ := r
  have hout := lexOut_of_blank h
  cases s with
  | out =>
    rw [Reader.next, lexStep, hout]
    rfl
  | str units =>
    rw [Reader.next, lexStep]
    rcases blank_cases h with rfl | rfl | rfl | rfl <;> rfl
  | esc units =>
    rw [Reader.next, lexStep]
    rcases blank_cases h with rfl | rfl | rfl | rfl <;> rfl
  | hex units digits =>
    rw [Reader.next, lexStep]
    rcases blank_cases h with rfl | rfl | rfl | rfl <;> rfl
  | num lexeme state =>
    rw [Reader.next, lexStep, step_of_blank h, Reader.tree?]
    cases hcomplete : state.complete with
    | false => simp [Lex.finish, hcomplete]
    | true =>
      simp only [hout, Lex.finish, hcomplete, if_true, Option.map_some, Option.bind_some]
      cases hrun : p.run [.num lexeme] with
      | none => rfl
      | some q => rfl
  | word next rest token =>
    have hne : c ≠ next := by
      rintro rfl
      rw [hr c List.mem_cons_self] at h
      cases h
    cases rest with
    | nil =>
      rw [Reader.next, lexStep, if_neg hne]
      rfl
    | cons next' rest' =>
      rw [Reader.next, lexStep, if_neg hne]
      rfl

theorem parse_append_blank {trail : List Char} (h : ∀ c ∈ trail, isBlank c = true)
    (text : List Char) : parse (text ++ trail) = parse text := by
  induction trail generalizing text with
  | nil => rw [List.append_nil]
  | cons c trail ih =>
    have hcons : text ++ c :: trail = text ++ [c] ++ trail := by simp
    rw [hcons, ih fun d hd => h d (List.mem_cons_of_mem c hd), parse_eq, parse_eq,
      Reader.read_append, Option.bind_assoc]
    cases hread : Reader.start.read text with
    | none => rfl
    | some r =>
      have hnamed : r.lex.Named := named_read (fun d hd => by cases hd) hread
      rw [Option.bind_some, Option.bind_some, ← next_blank hnamed (h c List.mem_cons_self),
        Reader.read_cons]
      cases r.next c <;> rfl

theorem parse_framed {lead trail : List Char} (hlead : ∀ c ∈ lead, isBlank c = true)
    (htrail : ∀ c ∈ trail, isBlank c = true) (core : List Char) :
    parse (lead ++ core ++ trail) = parse core := by
  rw [parse_append_blank htrail, parse_blank_append hlead]

/-! ## 4. Parts of a text -/

theorem run_done {t : Tree} {ts : List Token} {p : Parse}
    (h : (Parse.done t).run ts = some p) : ts = [] ∧ p = .done t := by
  cases ts with
  | nil =>
    cases h
    exact ⟨rfl, rfl⟩
  | cons token ts =>
    rw [Parse.run_cons] at h
    cases token <;> cases h

/-- The step that completes no token and leaves the scanner between tokens is a blank. -/
theorem lexStep_out {s : Lex} {c : Char} (h : lexStep s c = some (.out, [])) :
    s = .out ∧ isBlank c = true := by
  cases s with
  | out => exact ⟨rfl, blank_of_lexOut h⟩
  | str units =>
    rw [lexStep] at h
    split_ifs at h <;> cases h
  | esc units =>
    rw [lexStep] at h
    split at h
    · cases h
    · split_ifs at h
      cases h
  | hex units digits =>
    rw [lexStep] at h
    obtain ⟨d, -, hd⟩ := Option.map_eq_some_iff.mp h
    split_ifs at hd <;> cases hd
  | num lexeme state =>
    rw [lexStep] at h
    split at h
    · cases h
    · split_ifs at h
      obtain ⟨⟨behind, ts⟩, -, heq⟩ := Option.map_eq_some_iff.mp h
      cases heq
  | word next rest token =>
    cases rest with
    | nil =>
      rw [lexStep] at h
      split_ifs at h
      cases h
    | cons next' rest' =>
      rw [lexStep] at h
      split_ifs at h
      cases h

/-- Behind a complete value there are only blanks. -/
theorem blank_of_done {t t' : Tree} {r s : Reader} {text : List Char} (hdone : r.parse = .done t)
    (hread : r.read text = some s) (htree : s.tree? = some t') :
    r.lex = .out ∧ t' = t ∧ ∀ c ∈ text, isBlank c = true := by
  induction text generalizing r with
  | nil =>
    cases hread
    rw [Reader.tree?, hdone] at htree
    obtain ⟨last, hlast, htree⟩ := Option.bind_eq_some_iff.mp htree
    obtain ⟨p, hrun, htree⟩ := Option.bind_eq_some_iff.mp htree
    obtain ⟨rfl, rfl⟩ := run_done hrun
    cases htree
    refine ⟨?_, rfl, fun c hc => by cases hc⟩
    cases hlex : s.lex with
    | out => rfl
    | num lexeme state =>
      rw [hlex, Lex.finish] at hlast
      split at hlast <;> cases hlast
    | _ =>
      rw [hlex] at hlast
      cases hlast
  | cons c text ih =>
    rw [Reader.read_cons] at hread
    obtain ⟨mid, hnext, hrest⟩ := Option.bind_eq_some_iff.mp hread
    obtain ⟨ts, hstep, hrun⟩ := Reader.next_eq_some.mp hnext
    rw [hdone] at hrun
    obtain ⟨rfl, hmid⟩ := run_done hrun
    obtain ⟨hlex, ht, hblank⟩ := ih hmid hrest
    rw [hlex] at hstep
    obtain ⟨hout, hc⟩ := lexStep_out hstep
    refine ⟨hout, ht, fun d hd => ?_⟩
    rcases List.mem_cons.mp hd with rfl | hd
    · exact hc
    · exact hblank d hd

/-- A text that starts with a number is a number. -/
theorem num_of_read {lexeme : List Char} {state : NumState} {r s : Reader} {text : List Char}
    {t : Tree} (hparse : r.parse = .value []) (hlex : r.lex = .num lexeme state)
    (hread : r.read text = some s) (htree : s.tree? = some t) : ∃ lexeme', t = .num lexeme' := by
  have hgive : ∀ (lexeme : List Char) (ts : List Token),
      (Parse.value []).run (.num lexeme :: ts) = (Parse.done (.num lexeme)).run ts :=
    fun lexeme ts => Parse.run_cons _ _ _
  induction text generalizing r lexeme state with
  | nil =>
    cases hread
    rw [Reader.tree?, hlex, Lex.finish] at htree
    split_ifs at htree
    · rw [Option.bind_some, hparse, hgive] at htree
      cases htree
      exact ⟨lexeme, rfl⟩
    · cases htree
  | cons c text ih =>
    rw [Reader.read_cons] at hread
    obtain ⟨mid, hnext, hrest⟩ := Option.bind_eq_some_iff.mp hread
    obtain ⟨ts, hstep, hrun⟩ := Reader.next_eq_some.mp hnext
    rw [hlex, lexStep] at hstep
    split at hstep
    · next state' _ =>
      simp only [Option.some.injEq, Prod.mk.injEq] at hstep
      obtain ⟨hmid, rfl⟩ := hstep
      rw [hparse] at hrun
      exact ih (Option.some.inj hrun).symm hmid.symm hrest
    · split_ifs at hstep
      obtain ⟨⟨behind, ts'⟩, -, heq⟩ := Option.map_eq_some_iff.mp hstep
      cases heq
      rw [hparse, hgive] at hrun
      exact ⟨lexeme, (blank_of_done (run_done hrun).2 hrest htree).2.1⟩

/-- A value that a number completes is that number, from the start of the text. -/
theorem value_of_give {p : Parse} {lexeme : List Char} {t : Tree}
    (h : parseStep p (.num lexeme) = some (.done t)) : p = .value [] := by
  have hgive : ∀ stack, give (.num lexeme) stack = .done t → stack = [] := by
    intro stack hstack
    cases stack with
    | nil => rfl
    | cons frame stack => cases frame <;> cases hstack
  cases p with
  | value stack => rw [hgive stack (Option.some.inj h)]
  | firstItem stack => cases h
  | _ => cases h

/-- **No part of an object's text is a JSON text where more than blanks come behind it.** -/
theorem parse_part {part rest : List Char} {fields : List (List Nat × Tree)}
    (h : parse (part ++ rest) = some (.obj fields)) (hrest : ∃ c ∈ rest, isBlank c = false) :
    parse part = none := by
  by_contra hpart
  obtain ⟨t, hpart⟩ := Option.ne_none_iff_exists'.mp hpart
  rw [parse_eq] at h hpart
  obtain ⟨r, hread, htree⟩ := Option.bind_eq_some_iff.mp hpart
  rw [Reader.read_append_of hread] at h
  obtain ⟨s, hmore, hobj⟩ := Option.bind_eq_some_iff.mp h
  rw [Reader.tree?] at htree
  obtain ⟨last, hlast, htree⟩ := Option.bind_eq_some_iff.mp htree
  obtain ⟨p, hrun, hp⟩ := Option.bind_eq_some_iff.mp htree
  obtain rfl : p = .done t := by
    cases p <;> cases hp
    rfl
  cases hlex : r.lex with
  | out =>
    rw [hlex] at hlast
    cases hlast
    obtain ⟨c, hc, hblank⟩ := hrest
    rw [(blank_of_done (Option.some.inj hrun) hmore hobj).2.2 c hc] at hblank
    cases hblank
  | num lexeme state =>
    rw [hlex, Lex.finish] at hlast
    split_ifs at hlast
    · cases hlast
      rw [Parse.run_cons] at hrun
      obtain ⟨q, hstep, hq⟩ := Option.bind_eq_some_iff.mp hrun
      cases hq
      obtain ⟨lexeme', hnum⟩ := num_of_read (value_of_give hstep) hlex hmore hobj
      cases hnum
  | _ =>
    rw [hlex] at hlast
    cases hlast

/-! ## 5. One line -/

/-- What has been read of a number. -/
def Lex.lexeme : Lex → List Char
  | .num lexeme _ => lexeme
  | _ => []

theorem newline_lexOut (c : Char) : Goes (fun s _ => '\n' ∉ s.lexeme) (lexOut c) := by
  by_cases hc : c = '\n'
  · rw [hc]
    exact goes_some List.not_mem_nil
  · rw [lexOut]
    iterate 14
      apply goes_ite
      · apply goes_some
        simp [Lex.lexeme, Ne.symm hc]
    intro s ts hnone
    cases hnone

theorem newline_lexStep {s s' : Lex} {c : Char} {ts : List Token} (hs : '\n' ∉ s.lexeme)
    (h : lexStep s c = some (s', ts)) : '\n' ∉ s'.lexeme := by
  cases s with
  | out => exact newline_lexOut c _ _ h
  | str units =>
    rw [lexStep] at h
    split_ifs at h <;> (cases h; exact List.not_mem_nil)
  | esc units =>
    rw [lexStep] at h
    split at h
    · cases h
      exact List.not_mem_nil
    · split_ifs at h
      cases h
      exact List.not_mem_nil
  | hex units digits =>
    rw [lexStep] at h
    obtain ⟨d, -, hd⟩ := Option.map_eq_some_iff.mp h
    split_ifs at hd <;> (cases hd; exact List.not_mem_nil)
  | num lexeme state =>
    rw [lexStep] at h
    split at h
    · next state' hstep =>
      cases h
      have hc : '\n' ≠ c := by
        rintro rfl
        rw [step_of_blank (by decide)] at hstep
        cases hstep
      simp only [Lex.lexeme, List.mem_append, List.mem_singleton, not_or]
      exact ⟨hs, hc⟩
    · split_ifs at h
      obtain ⟨⟨behind, ts'⟩, hout, heq⟩ := Option.map_eq_some_iff.mp h
      cases heq
      exact newline_lexOut c _ _ hout
  | word next rest token =>
    cases rest with
    | nil =>
      rw [lexStep] at h
      split_ifs at h
      cases h
      exact List.not_mem_nil
    | cons next' rest' =>
      rw [lexStep] at h
      split_ifs at h
      cases h
      exact List.not_mem_nil

theorem newline_scan {s s' : Lex} {text : List Char} {ts : List Token} (hs : '\n' ∉ s.lexeme)
    (h : scan s text = some (s', ts)) : '\n' ∉ s'.lexeme := by
  induction text generalizing s ts with
  | nil =>
    cases h
    exact hs
  | cons c text ih =>
    rw [scan_cons] at h
    obtain ⟨⟨mid, now⟩, hstep, h⟩ := Option.bind_eq_some_iff.mp h
    obtain ⟨⟨last, later⟩, hscan, heq⟩ := Option.map_eq_some_iff.mp h
    cases heq
    exact ih (newline_lexStep hs hstep) hscan

theorem newline_notMem_number {lexeme : List Char} (h : IsNumber lexeme) : '\n' ∉ lexeme := by
  obtain ⟨s, hscan, -⟩ := h
  exact newline_scan (s := .out) List.not_mem_nil hscan

theorem digitChar_ne_newline (n : Nat) : Nat.digitChar n ≠ '\n' := by
  by_cases h : n < 16
  · revert h n
    decide
  · rw [Nat.digitChar]
    iterate 16 rw [if_neg (by omega)]
    decide

theorem newline_notMem_asciiUnit (u : Nat) : '\n' ∉ asciiUnit u := by
  rw [asciiUnit]
  split_ifs with h34 h92 h10 h13 h9 h12 h8 hprint
  all_goals try decide
  · intro hmem
    have hnat := toNat_ofNat_of_ascii u hprint.2
    rw [← List.mem_singleton.mp hmem] at hnat
    exact h10 hnat.symm
  · simp only [unicodeEscape, List.mem_cons, List.not_mem_nil, or_false, not_or]
    exact ⟨by decide, by decide, (digitChar_ne_newline _).symm, (digitChar_ne_newline _).symm,
      (digitChar_ne_newline _).symm, (digitChar_ne_newline _).symm⟩

/-- What is written with `ensure_ascii` is one line. -/
theorem newline_notMem_write {t : Tree} (h : ∀ token ∈ t.tokens, token.ReadsBack quoteAscii) :
    '\n' ∉ t.write quoteAscii := by
  intro hmem
  obtain ⟨token, htoken, hmem⟩ := List.mem_flatMap.mp hmem
  have hreads := h token htoken
  cases token with
  | num lexeme => exact newline_notMem_number hreads hmem
  | str units =>
    simp only [Token.write, List.mem_cons, List.mem_append, List.not_mem_nil, or_false] at hmem
    rcases hmem with hquote | hunits | hquote
    · exact absurd hquote (by decide)
    · obtain ⟨u, -, hu⟩ := List.mem_flatMap.mp hunits
      exact newline_notMem_asciiUnit u hu
    · exact absurd hquote (by decide)
  | bool b => cases b <;> exact absurd hmem (by decide)
  | _ => exact absurd hmem (by decide)

end TokenProxy.JsonText
