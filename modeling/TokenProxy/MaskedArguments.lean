/-
  TokenProxy/MaskedArguments.lean
  ===============================
  **Are tool-call arguments still JSON of the same structure when they are masked?**

  `_apply_to_message` masks the arguments as text, whatever the JSON around a match is.  A
  placeholder is a bracket and a name, which only a string takes: a match that is a number, or
  begins behind a backslash, leaves no JSON.  A match in a key leaves JSON with another key.

  Main result: `keepsArguments_iff`, the structure is kept exactly when every match that is
  masked begins in a string that is no key.
-/
import TokenProxy.JsonReader
import TokenProxy.PiiInvertible

namespace TokenProxy.Pii

open JsonText (Reader Parse Lex Inert Alike)
open TextReplace

/-! ## 1. Matches and placeholders -/

/-- A character of an entity type's name: a capital, a digit or an underscore. -/
def NameChar (c : Char) : Prop :=
  65 ≤ c.toNat ∧ c.toNat ≤ 90 ∨ 48 ≤ c.toNat ∧ c.toNat ≤ 57 ∨ c = '_'

instance (c : Char) : Decidable (NameChar c) := inferInstanceAs (Decidable (_ ∨ _ ∨ _))

/-- The name begins with a capital. -/
def Named (entityType : String) : Prop :=
  ∃ c cs, entityType.toList = c :: cs ∧ (65 ≤ c.toNat ∧ c.toNat ≤ 90) ∧
    ∀ d ∈ c :: cs, NameChar d

/-- What the patterns match: at least one character, and no quote, no backslash, no bracket
and no control character. -/
structure PiiMatch.Plain (m : PiiMatch) : Prop where
  ne_nil : m.text.toList ≠ []
  inert : ∀ c ∈ m.text.toList, Inert c
  bracketless : '[' ∉ m.text.toList
  named : Named m.entityType

def Detector.Plain (det : Detector) : Prop := ∀ text, ∀ m ∈ det.detect text, m.Plain

/-- The entity types of the patterns. -/
def entityTypes : List String :=
  ["EMAIL", "US_SSN", "CREDIT_CARD", "PHONE", "IP_ADDRESS", "DEA", "NPI", "MRN", "ICD10"]

/-- A character that some pattern matches: what `\d` takes, a letter or a digit of ASCII, the two
letters that `IGNORECASE` adds to these, or a mark of an address or a number. -/
def patternChar (decimal : Char → Bool) (c : Char) : Bool :=
  decimal c || decide (48 ≤ c.toNat ∧ c.toNat ≤ 57) || decide (65 ≤ c.toNat ∧ c.toNat ≤ 90) ||
    decide (97 ≤ c.toNat ∧ c.toNat ≤ 122) || decide (c.toNat = 0x17F) ||
    decide (c.toNat = 0x212A) || "._%+-@ ()".toList.contains c

/-- What `finditer` gives for the patterns. -/
def Detector.Patterned (decimal : Char → Bool) (det : Detector) : Prop :=
  ∀ text, ∀ m ∈ det.detect text, m.entityType ∈ entityTypes ∧ m.text.toList ≠ [] ∧
    ∀ c ∈ m.text.toList, patternChar decimal c = true

/-- A bracket, a capital, and text that stands for itself in a string. -/
def IsMark (token : List Char) : Prop :=
  ∃ c rest, token = '[' :: c :: rest ∧ (65 ≤ c.toNat ∧ c.toNat ≤ 90) ∧ ∀ d ∈ token, Inert d

theorem inert_of_range {c : Char} (h : 48 ≤ c.toNat) (h' : c.toNat ≤ 90) : Inert c := by
  refine ⟨?_, ?_, ?_⟩
  · rintro rfl
    exact absurd h (by decide)
  · rintro rfl
    exact absurd h' (by decide)
  · omega

theorem inert_of_nameChar {c : Char} (h : NameChar c) : Inert c := by
  rcases h with ⟨hlow, hhigh⟩ | ⟨hlow, hhigh⟩ | rfl
  · exact inert_of_range (by omega) hhigh
  · exact inert_of_range hlow (by omega)
  · exact ⟨by decide, by decide, by decide⟩

theorem inert_of_isDigit {c : Char} (h : c.isDigit = true) : Inert c := by
  obtain ⟨hlow, hhigh⟩ := Char.isDigit_iff_toNat.mp h
  have hzero : '0'.toNat = 48 := rfl
  have hnine : '9'.toNat = 57 := rfl
  exact inert_of_range (by omega) (by omega)

theorem named_of_all {c : Char} {cs : List Char} {entityType : String}
    (h : entityType.toList = c :: cs) (hc : 65 ≤ c.toNat ∧ c.toNat ≤ 90)
    (hall : ((c :: cs).all fun d => decide (NameChar d)) = true) : Named entityType := by
  refine ⟨c, cs, h, hc, ?_⟩
  intro d hd
  exact of_decide_eq_true (List.all_eq_true.mp hall d hd)

theorem named_of_mem {entityType : String} (h : entityType ∈ entityTypes) : Named entityType := by
  simp only [entityTypes, List.mem_cons, List.not_mem_nil, or_false] at h
  rcases h with rfl | rfl | rfl | rfl | rfl | rfl | rfl | rfl | rfl <;>
    exact named_of_all rfl (by decide) (by decide)

theorem harmless_of_patternChar {decimal : Char → Bool}
    (hdecimal : ∀ c, decimal c = true → Inert c ∧ c ≠ '[') {c : Char}
    (h : patternChar decimal c = true) : Inert c ∧ c ≠ '[' := by
  have hcode : ∀ n, c.toNat = n → n ≠ 34 → n ≠ 91 → n ≠ 92 → 32 ≤ n → Inert c ∧ c ≠ '[' := by
    rintro n rfl hquote hbracket hslash hlow
    refine ⟨⟨?_, ?_, hlow⟩, ?_⟩
    · rintro rfl
      exact hquote rfl
    · rintro rfl
      exact hslash rfl
    · rintro rfl
      exact hbracket rfl
  simp only [patternChar, Bool.or_eq_true, decide_eq_true_eq] at h
  rcases h with (((((h | h) | h) | h) | h) | h) | h
  · exact hdecimal c h
  · exact hcode _ rfl (by omega) (by omega) (by omega) (by omega)
  · exact hcode _ rfl (by omega) (by omega) (by omega) (by omega)
  · exact hcode _ rfl (by omega) (by omega) (by omega) (by omega)
  · exact hcode _ h (by decide) (by decide) (by decide) (by decide)
  · exact hcode _ h (by decide) (by decide) (by decide) (by decide)
  · have hmarks : ("._%+-@ ()".toList.all fun d => decide (Inert d ∧ d ≠ '[')) = true := by decide
    exact of_decide_eq_true (List.all_eq_true.mp hmarks c (List.contains_iff_mem.mp h))

/-- The matches of the patterns are plain. -/
theorem Detector.Patterned.plain {decimal : Char → Bool} {det : Detector}
    (hdecimal : ∀ c, decimal c = true → Inert c ∧ c ≠ '[') (h : det.Patterned decimal) :
    det.Plain := by
  intro text m hm
  obtain ⟨htype, hne, hchars⟩ := h text m hm
  refine ⟨hne, ?_, ?_, named_of_mem htype⟩
  · intro c hc
    exact (harmless_of_patternChar hdecimal (hchars c hc)).1
  · intro hmem
    exact (harmless_of_patternChar hdecimal (hchars '[' hmem)).2 rfl

theorem isMark_bare {entityType : String} (h : Named entityType) :
    IsMark ("[" ++ entityType ++ "]").toList := by
  obtain ⟨c, cs, hname, hcapital, hchars⟩ := h
  have hshape : ("[" ++ entityType ++ "]").toList = ['['] ++ (c :: cs ++ [']']) := by
    simp [String.toList_append, hname]
  rw [hshape]
  refine ⟨c, cs ++ [']'], rfl, hcapital, ?_⟩
  intro d hd
  simp only [List.mem_append] at hd
  rcases hd with hd | hd | hd
  · exact JsonText.inert_of_all (by decide) d hd
  · exact inert_of_nameChar (hchars d hd)
  · exact JsonText.inert_of_all (by decide) d hd

theorem isMark_placeholder {entityType : String} (h : Named entityType) (number : Nat) :
    IsMark (placeholder entityType number).toList := by
  obtain ⟨c, cs, hname, hcapital, hchars⟩ := h
  have hshape : (placeholder entityType number).toList = ['[', 'P', 'I', 'I', ':'] ++
      (c :: cs ++ ([':'] ++ ((toString number).toList ++ [']']))) := by
    simp [toList_placeholder, hname]
  rw [hshape]
  refine ⟨'P', _, rfl, by decide, ?_⟩
  intro d hd
  simp only [List.mem_append] at hd
  rcases hd with hd | hd | hd | hd | hd
  · exact JsonText.inert_of_all (by decide) d hd
  · exact inert_of_nameChar (hchars d hd)
  · exact JsonText.inert_of_all (by decide) d hd
  · exact inert_of_isDigit (digits_plain number d hd)
  · exact JsonText.inert_of_all (by decide) d hd

/-- The matches that are masked: the others begin in one that is. -/
def keptFrom : List PiiMatch → Nat → List PiiMatch
  | [], _ => []
  | m :: ms, cursor => if m.start < cursor then keptFrom ms cursor else m :: keptFrom ms m.stop

def kept (found : List PiiMatch) : List PiiMatch := keptFrom (byStart found) 0

/-- What the loop writes for a match that is masked. -/
theorem maskLoop_kept (reversible : Bool) (text : List Char) {m : PiiMatch} (ms : List PiiMatch)
    {cursor : Nat} (hstart : ¬ m.start < cursor) (hm : Named m.entityType)
    (counters : Dict String Nat) (vault : Dict String String) :
    ∃ token counters' vault', IsMark token ∧
      (maskLoop reversible text (m :: ms) cursor counters vault).1 =
        slice text cursor m.start ++
          (token ++ (maskLoop reversible text ms m.stop counters' vault').1) := by
  rw [maskLoop, if_neg hstart]
  cases reversible with
  | true =>
    let number := (counters.get? m.entityType).getD 0 + 1
    refine ⟨_, counters.set m.entityType number,
      vault.set (placeholder m.entityType number) m.text, isMark_placeholder hm number, ?_⟩
    rw [← List.append_assoc]
    rfl
  | false =>
    refine ⟨_, counters, vault, isMark_bare hm, ?_⟩
    rw [← List.append_assoc]
    rfl

/-! ## 2. One text -/

/-- The reader is in a string that is no key. -/
def InString (r : Reader) : Prop := (∃ units, r.lex = .str units) ∧ r.parse.wantsKey = false

/-- The text is read up to a string that is no key. -/
def InValue (text : List Char) (start : Nat) : Prop :=
  ∃ r, Reader.start.read (text.take start) = some r ∧ InString r

/-- What this text is read to has that shape. -/
def ReadsTo (r : Reader) (text : List Char) (t : JsonText.Tree) : Prop :=
  ∃ t', (r.read text).bind Reader.tree? = some t' ∧ t'.shape = t.shape

theorem take_eq_append_slice (text : List Char) {start stop : Nat} (h : start ≤ stop) :
    text.take stop = text.take start ++ slice text start stop := by
  have hsplit := (List.take_append_drop start (text.take stop)).symm
  rw [List.take_take, Nat.min_eq_left h] at hsplit
  exact hsplit

theorem readsTo_append {r s : Reader} {xs : List Char} (h : r.read xs = some s)
    (ys : List Char) (t : JsonText.Tree) : ReadsTo r (xs ++ ys) t ↔ ReadsTo s ys t := by
  rw [ReadsTo, Reader.read_append_of h, ReadsTo]

theorem lettered_start {text : List Char} {r : Reader} (h : Reader.start.read text = some r) :
    r.lex.Lettered := by
  have hout : Reader.start.lex.Lettered := trivial
  exact JsonText.lettered_read hout h

/-- Outside a string, a placeholder leaves no JSON. -/
theorem not_readsTo_of_out {r r' : Reader} (h : Alike r r') (hr : r.lex.Lettered)
    (hout : ¬ ∃ units, r.lex = .str units) {token : List Char} (htoken : IsMark token)
    (rest : List Char) (t : JsonText.Tree) : ¬ ReadsTo r' (token ++ rest) t := by
  obtain ⟨c, cs, rfl, hcapital, -⟩ := htoken
  have hout' : ∀ units, r'.lex ≠ .str units := by
    intro units hr'
    have hlex := h.lex
    rw [hr'] at hlex
    cases hlex' : r.lex with
    | str units' => exact hout ⟨units', hlex'⟩
    | _ =>
      rw [hlex'] at hlex
      cases hlex
  rintro ⟨t', hread, -⟩
  rw [List.cons_append, List.cons_append,
    JsonText.read_bracketed (JsonText.lettered_alike h.lex hr) hout' hcapital] at hread
  cases hread

theorem read_in_string {r : Reader} {units : List Nat} (hlex : r.lex = .str units)
    {text : List Char} (h : ∀ c ∈ text, Inert c) :
    r.read text = some ⟨r.parse, .str (units ++ text.flatMap JsonText.utf16)⟩ := by
  obtain ⟨parse, lex⟩ := r
  cases hlex
  exact JsonText.read_inert h

/-- In a key, a placeholder leaves another key. -/
theorem not_readsTo_of_key {r r' : Reader} {t : JsonText.Tree} (h : Alike r r')
    (hkey : r.parse.wantsKey = true) {units : List Nat} (hlex : r.lex = .str units)
    {own : List Char} (hne : own ≠ []) (hown : ∀ c ∈ own, Inert c) (hbracket : '[' ∉ own)
    {token : List Char} (htoken : IsMark token) (rest rest' : List Char)
    (ht : (r.read (own ++ rest)).bind Reader.tree? = some t) :
    ¬ ReadsTo r' (token ++ rest') t := by
  rintro ⟨t', ht', hshape⟩
  have hlex' : r'.lex = .str units := (h.key hkey).symm.trans hlex
  have hkey' : r'.parse.wantsKey = true := (JsonText.wantsKey_congr h.parse).symm.trans hkey
  have hplace : r'.parse.keys = r.parse.keys := by
    rw [← Parse.keys_shape, ← h.parse, Parse.keys_shape]
  have hkeys : t'.keys = t.keys := by
    rw [← JsonText.keys_shape, hshape, JsonText.keys_shape]
  obtain ⟨c, cs, rfl⟩ := List.exists_cons_of_ne_nil hne
  obtain ⟨d, ds, rfl, -, hinert⟩ := htoken
  rw [Reader.read_append_of (read_in_string hlex hown)] at ht
  rw [Reader.read_append_of (read_in_string hlex' hinert)] at ht'
  obtain ⟨k, hk, hprefix⟩ := JsonText.exists_key (r := ⟨r.parse, .str _⟩) hkey rfl ht
  obtain ⟨k', hk', hprefix'⟩ := JsonText.exists_key (r := ⟨r'.parse, .str _⟩) hkey' rfl ht'
  have hsame : k = k' := by
    dsimp only at hk hk'
    rw [hplace, hkeys, hk] at hk'
    exact Option.some.inj hk'
  have hc : c ≠ '[' := by
    rintro rfl
    exact hbracket List.mem_cons_self
  obtain ⟨u, us, hu, hother⟩ := @JsonText.utf16_head c '[' (by decide) hc
  rw [hsame, List.flatMap_cons, hu] at hprefix
  rw [List.flatMap_cons] at hprefix'
  exact JsonText.not_both_prefixes hother hprefix hprefix'

/-- **Masking one text** keeps its structure where every match that is masked begins in a string
that is no key, and nowhere else. -/
theorem readsTo_maskLoop_iff (reversible : Bool) {text : List Char} {ms : List PiiMatch}
    (hms : ∀ m ∈ ms, m.Of text ∧ m.Plain) {cursor : Nat} {r r' : Reader} {t : JsonText.Tree}
    (hr : Reader.start.read (text.take cursor) = some r) (h : Alike r r')
    (ht : (r.read (text.drop cursor)).bind Reader.tree? = some t)
    (counters : Dict String Nat) (vault : Dict String String) :
    ReadsTo r' (maskLoop reversible text ms cursor counters vault).1 t ↔
      ∀ m ∈ keptFrom ms cursor, InValue text m.start := by
  induction ms generalizing cursor r r' counters vault with
  | nil =>
    apply iff_of_true
    · obtain ⟨s, hs, htree⟩ := Option.bind_eq_some_iff.mp ht
      obtain ⟨s', hs', halike⟩ := JsonText.read_alike h hs
      obtain ⟨t', ht', hshape⟩ := JsonText.tree?_alike halike htree
      refine ⟨t', ?_, hshape.symm⟩
      rw [maskLoop, hs']
      exact ht'
    · intro m hm
      cases hm
  | cons m ms ih =>
    have hrest : ∀ m' ∈ ms, m'.Of text ∧ m'.Plain := fun m' hm' =>
      hms m' (List.mem_cons_of_mem m hm')
    obtain ⟨hof, hplain⟩ := hms m List.mem_cons_self
    by_cases hskip : m.start < cursor
    · rw [maskLoop, if_pos hskip, keptFrom, if_pos hskip]
      exact ih hrest hr h ht counters vault
    · rw [keptFrom, if_neg hskip, List.forall_mem_cons]
      obtain ⟨token, counters', vault', htoken, hloop⟩ :=
        maskLoop_kept reversible text ms hskip hplain.named counters vault
      have hstart := Nat.not_lt.mp hskip
      rw [drop_eq_slice_append hstart, drop_eq_slice_append hof.ordered, ← hof.slice,
        Reader.read_append, Option.bind_assoc] at ht
      obtain ⟨s, hs, ht⟩ := Option.bind_eq_some_iff.mp ht
      obtain ⟨s', hs', halike⟩ := JsonText.read_alike h hs
      have hread : Reader.start.read (text.take m.start) = some s := by
        rw [take_eq_append_slice text hstart, Reader.read_append_of hr]
        exact hs
      have hvalue : InValue text m.start ↔ InString s := by
        rw [InValue, hread]
        simp
      rw [hloop, readsTo_append hs', hvalue]
      by_cases hstr : ∃ units, s.lex = .str units
      · obtain ⟨units, hlex⟩ := hstr
        cases hkey : s.parse.wantsKey with
        | true =>
          apply iff_of_false
          · exact not_readsTo_of_key halike hkey hlex hplain.ne_nil hplain.inert
              hplain.bracketless htoken _ _ ht
          · rintro ⟨⟨-, hno⟩, -⟩
            rw [hkey] at hno
            cases hno
        | false =>
          obtain ⟨units', hlex'⟩ : ∃ units', s'.lex = .str units' := by
            have hstring := halike.lex
            rw [hlex] at hstring
            exact hstring.of_str
          obtain ⟨-, -, -, -, hinert⟩ := htoken
          have hown := read_in_string hlex hplain.inert
          have hmask := read_in_string hlex' hinert
          rw [Reader.read_append_of hown] at ht
          have hstop : Reader.start.read (text.take m.stop) = some
              ⟨s.parse, .str (units ++ m.text.toList.flatMap JsonText.utf16)⟩ := by
            rw [take_eq_append_slice text hof.ordered, Reader.read_append_of hread, ← hof.slice]
            exact hown
          have hnext : Alike
              ⟨s.parse, .str (units ++ m.text.toList.flatMap JsonText.utf16)⟩
              ⟨s'.parse, .str (units' ++ token.flatMap JsonText.utf16)⟩ := by
            refine ⟨halike.parse, .str _ _, ?_⟩
            intro hwants
            exact absurd (hkey.symm.trans hwants) (by decide)
          rw [readsTo_append hmask, ih hrest hstop hnext ht counters' vault']
          exact ⟨fun hall => ⟨⟨⟨units, hlex⟩, hkey⟩, hall⟩, fun hall => hall.2⟩
      · apply iff_of_false
        · exact not_readsTo_of_out halike (lettered_start hread) hstr htoken _ _
        · rintro ⟨⟨hin, -⟩, -⟩
          exact hstr hin

/-! ## 3. The arguments of a message -/

/-- The text after masking is JSON of the same structure, if the text before it is JSON. -/
def Keeps (before after : String) : Prop :=
  ∀ t, JsonText.parse before.toList = some t →
    ∃ t', JsonText.parse after.toList = some t' ∧ t'.shape = t.shape

/-- The arguments of the tool calls, and those of the legacy function call. -/
def argumentPaths : List Path :=
  [.key "tool_calls" (.items (.key "function" (.slot "arguments"))),
    .key "function_call" (.slot "arguments")]

def argumentsOf (msg : Json) : List String := argumentPaths.flatMap fun p => p.slots msg

/-- Whatever was scanned before, masking the message keeps the structure of its arguments. -/
def KeepsArguments (det : Detector) (reversible : Bool) (msg : Json) : Prop :=
  ∀ st, List.Forall₂ Keeps (argumentsOf msg)
    (argumentsOf (applyToMessage det true reversible msg st).1)

variable {det : Detector}

theorem maskedText_eq_maskLoop (det : Detector) (reversible : Bool) (text : String) :
    maskedText det true reversible text = String.ofList
      (maskLoop reversible text.toList (byStart (det.detect text)) 0 ∅ ∅).1 := by
  by_cases hfound : det.detect text = []
  · rw [maskedText, scanText, hfound]
    exact String.ofList_toList.symm
  · have hordered : (byStart (det.detect text)).isEmpty = false := by
      obtain ⟨m, hm⟩ := List.exists_mem_of_ne_nil _ hfound
      rw [List.isEmpty_eq_false_iff]
      exact List.ne_nil_of_mem (mem_byStart.mpr hm)
    simp [maskedText, scanText, maskMatches, hfound, hordered]

theorem plain_byStart (hdet : det.Plain) (text : String) :
    ∀ m ∈ byStart (det.detect text), m.Of text.toList ∧ m.Plain := by
  intro m hm
  have hfound := mem_byStart.mp hm
  exact ⟨det.sound text m hfound, hdet text m hfound⟩

theorem keeps_maskedText_iff (hdet : det.Plain) (reversible : Bool) (text : String) :
    Keeps text (maskedText det true reversible text) ↔
      ((JsonText.parse text.toList).isSome = true →
        ∀ m ∈ kept (det.detect text), InValue text.toList m.start) := by
  have hone : ∀ t, JsonText.parse text.toList = some t →
      ((∃ t', JsonText.parse (maskedText det true reversible text).toList = some t' ∧
          t'.shape = t.shape) ↔
        ∀ m ∈ kept (det.detect text), InValue text.toList m.start) := by
    intro t ht
    rw [JsonText.parse_eq] at ht
    rw [maskedText_eq_maskLoop, String.toList_ofList, JsonText.parse_eq]
    exact readsTo_maskLoop_iff reversible (plain_byStart hdet text) rfl (Alike.refl _) ht ∅ ∅
  constructor
  · intro hkeeps hsome
    obtain ⟨t, ht⟩ := Option.isSome_iff_exists.mp hsome
    exact (hone t ht).mp (hkeeps t ht)
  · intro hvalues t ht
    exact (hone t ht).mpr (hvalues (Option.isSome_iff_exists.mpr ⟨t, ht⟩))

theorem drop_eq_nil_of_maskLoop {reversible : Bool} {text : List Char} {ms : List PiiMatch}
    (hms : ∀ m ∈ ms, Named m.entityType) {cursor : Nat} {counters : Dict String Nat}
    {vault : Dict String String}
    (h : (maskLoop reversible text ms cursor counters vault).1 = []) : text.drop cursor = [] := by
  induction ms generalizing cursor counters vault with
  | nil => exact h
  | cons m ms ih =>
    by_cases hskip : m.start < cursor
    · rw [maskLoop, if_pos hskip] at h
      exact ih (fun m' hm' => hms m' (List.mem_cons_of_mem m hm')) h
    · obtain ⟨token, counters', vault', ⟨c, rest, rfl, -⟩, hloop⟩ :=
        maskLoop_kept reversible text ms hskip (hms m List.mem_cons_self) counters vault
      rw [hloop] at h
      exact absurd (List.append_eq_nil_iff.mp h).2 (List.cons_ne_nil _ _)

theorem maskedText_ne_empty_of_plain (hdet : det.Plain) (reversible : Bool) {text : String}
    (h : text ≠ "") : maskedText det true reversible text ≠ "" := by
  rw [maskedText_eq_maskLoop]
  intro hempty
  have hnil : (maskLoop reversible text.toList (byStart (det.detect text)) 0 ∅ ∅).1 = [] := by
    rw [← String.toList_ofList (l := (maskLoop reversible text.toList _ 0 ∅ ∅).1), hempty]
    rfl
  have hdrop := drop_eq_nil_of_maskLoop
    (fun m hm => (plain_byStart hdet text m hm).2.named) hnil
  rw [List.drop_zero] at hdrop
  exact h (String.toList_inj.mp hdrop)

/-- Mapping the slots of a message maps those at each path. -/
theorem slots_mapPaths_of_mem {f : String → String} (hf : ∀ text, text ≠ "" → f text ≠ "")
    {p : Path} {ps : List Path} (hps : ps.Pairwise (Path.Apart f)) (hp : p ∈ ps) (msg : Json) :
    p.slots (mapPaths f ps msg) = (p.slots msg).map f := by
  induction ps generalizing msg with
  | nil => cases hp
  | cons q ps ih =>
    obtain ⟨hq, hrest⟩ := List.pairwise_cons.mp hps
    change p.slots (mapPaths f ps (q.map f msg)) = _
    rcases List.mem_cons.mp hp with rfl | hmem
    · rw [slots_mapPaths hq, Path.slots_map hf]
    · rw [ih hrest hmem, (hq p hmem msg).1]

theorem argumentsOf_masked (hdet : det.Plain) (reversible : Bool) (msg : Json) (st : Scan) :
    argumentsOf (applyToMessage det true reversible msg st).1 =
      (argumentsOf msg).map (maskedText det true reversible) := by
  rw [applyToMessage, visitPaths_eq (scanText_eq det true reversible) slotPaths_apart,
    argumentsOf, argumentsOf, List.map_flatMap]
  apply List.flatMap_congr
  intro p hp
  apply slots_mapPaths_of_mem _ slotPaths_apart
  · simp only [argumentPaths, List.mem_cons, List.not_mem_nil, or_false] at hp
    rcases hp with rfl | rfl <;> simp [slotPaths]
  · intro text htext
    exact maskedText_ne_empty_of_plain hdet reversible htext

/-- **When masking a message keeps its arguments JSON of the same structure.** -/
theorem keepsArguments_iff (hdet : det.Plain) (reversible : Bool) (msg : Json) :
    KeepsArguments det reversible msg ↔
      ∀ text ∈ argumentsOf msg, (JsonText.parse text.toList).isSome = true →
        ∀ m ∈ kept (det.detect text), InValue text.toList m.start := by
  have hall : KeepsArguments det reversible msg ↔
      ∀ text ∈ argumentsOf msg, Keeps text (maskedText det true reversible text) := by
    simp only [KeepsArguments, argumentsOf_masked hdet, List.forall₂_map_right_iff,
      List.forall₂_same]
    exact ⟨fun h => h ⟨∅, ∅⟩, fun h _ => h⟩
  rw [hall]
  apply forall₂_congr
  intro text _
  exact keeps_maskedText_iff hdet reversible text

/-! ## 4. An address in a string, and a bare card number -/

/-- A detector that knows one text. -/
def knows (text : String) (m : PiiMatch) (h : m.Of text.toList) : Detector where
  detect other := if other = text then [m] else []
  sound := by
    intro other m' hm'
    split at hm'
    · next hsame =>
      rw [hsame, List.mem_singleton.mp hm']
      exact h
    · cases hm'

theorem plain_knows {text : String} {m : PiiMatch} (h : m.Of text.toList) (hm : m.Plain) :
    (knows text m h).Plain := by
  intro other m' hm'
  simp only [knows] at hm'
  split at hm'
  · rw [List.mem_singleton.mp hm']
    exact hm
  · cases hm'

theorem kept_knows {text : String} {m : PiiMatch} (h : m.Of text.toList) :
    kept ((knows text m h).detect text) = [m] := by
  simp [knows, kept, byStart, keptFrom]

def calling (args : String) : Json :=
  .obj [("role", .str "assistant"), ("content", .null),
    ("tool_calls", .arr [.obj [("id", .str "c1"), ("type", .str "function"),
      ("function", .obj [("name", .str "send"), ("arguments", .str args)])]])]

def mailArgs : String := "\x7b\"to\":\"alice@example.com\"\x7d"

def address : PiiMatch := ⟨"EMAIL", 7, 24, "alice@example.com"⟩

theorem address_of : address.Of mailArgs.toList := ⟨by decide, by decide, by decide⟩

theorem address_plain : address.Plain where
  ne_nil := by decide
  inert := JsonText.inert_of_all (by decide)
  bracketless := by decide
  named := @named_of_all 'E' "MAIL".toList _ rfl (by decide) (by decide)

theorem keepsArguments_address :
    KeepsArguments (knows mailArgs address address_of) true (calling mailArgs) := by
  apply (keepsArguments_iff (plain_knows address_of address_plain) true (calling mailArgs)).mpr
  intro text htext _ m hm
  have harguments : argumentsOf (calling mailArgs) = [mailArgs] := by decide
  rw [harguments] at htext
  obtain rfl := List.mem_singleton.mp htext
  rw [kept_knows] at hm
  obtain rfl := List.mem_singleton.mp hm
  exact ⟨_, rfl, ⟨_, rfl⟩, rfl⟩

def cardArgs : String := "\x7b\"card\":4111111111111111\x7d"

def card : PiiMatch := ⟨"CREDIT_CARD", 8, 24, "4111111111111111"⟩

theorem card_of : card.Of cardArgs.toList := ⟨by decide, by decide, by decide⟩

theorem card_plain : card.Plain where
  ne_nil := by decide
  inert := JsonText.inert_of_all (by decide)
  bracketless := by decide
  named := @named_of_all 'C' "REDIT_CARD".toList _ rfl (by decide) (by decide)

/-- A card number that is a JSON number becomes a placeholder without quotes. -/
theorem not_keepsArguments_card : ¬ ∀ (det : Detector) (reversible : Bool) (msg : Json),
    det.Plain → KeepsArguments det reversible msg := by
  intro h
  have hkeeps := h (knows cardArgs card card_of) true (calling cardArgs)
    (plain_knows card_of card_plain) ⟨∅, ∅⟩
  have harguments : argumentsOf (calling cardArgs) = [cardArgs] := by decide
  rw [argumentsOf_masked (plain_knows card_of card_plain), harguments, List.map_singleton]
    at hkeeps
  have hjson : (JsonText.parse cardArgs.toList).isSome = true := rfl
  have hvalue : InValue cardArgs.toList card.start := by
    apply (keeps_maskedText_iff (plain_knows card_of card_plain) true cardArgs).mp
      (List.forall₂_cons.mp hkeeps).1 hjson card
    rw [kept_knows]
    exact List.mem_singleton_self card
  -- the scanner stands between tokens, behind the colon
  obtain ⟨r, hread, ⟨units, hlex⟩, -⟩ := hvalue
  have hout : (Reader.start.read (cardArgs.toList.take card.start)).map Reader.lex = some .out :=
    rfl
  rw [hread, Option.map_some, hlex] at hout
  cases hout

end TokenProxy.Pii
