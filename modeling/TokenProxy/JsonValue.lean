/-
  TokenProxy/JsonValue.lean
  =========================
  **What JSON texts stand for: `json.loads` and `json.dumps` between texts and values.**

  `readValue` takes the tree of a text to a value: units to characters, a number to an int or
  a float, the fields of an object to a dict in which a later field replaces an earlier one of
  its name.  `writeValue` takes a value to its text.  How the interpreter spells a float is a
  parameter with the law that a float it read is spelled so that it reads the same.

  A text with a lone surrogate, or with a number out of a float's range, stands for no value
  here.  `PyJson` is the module `json` of an interpreter: it reads and writes these values, or
  refuses (a limit on the digits of an integer, or on nesting), and is open on other texts.

  Main result: `readValue_writeValue`, a value that was read is written so that it is read
  back.
-/
import TokenProxy.JsonText
import TokenProxy.PyJson
import Mathlib.Data.List.Nodup

namespace TokenProxy.JsonText

/-! ## 1. Characters and units -/

def utf16s (cs : List Char) : List Nat := cs.flatMap utf16

def isHigh (u : Nat) : Bool := 0xD800 ≤ u && u < 0xDC00

def isLow (u : Nat) : Bool := 0xDC00 ≤ u && u < 0xE000

/-- The characters of units; a surrogate on its own is none. -/
def ofUtf16 : List Nat → Option (List Char)
  | [] => some []
  | [u] => if isHigh u || isLow u then none else some [Char.ofNat u]
  | u :: v :: us =>
    if isHigh u then
      if isLow v then
        (ofUtf16 us).map (Char.ofNat (0x10000 + (u - 0xD800) * 0x400 + (v - 0xDC00)) :: ·)
      else none
    else if isLow u then none
    else (ofUtf16 (v :: us)).map (Char.ofNat u :: ·)

theorem ofUtf16_cons_plain {u : Nat} (hhigh : isHigh u = false) (hlow : isLow u = false)
    (us : List Nat) : ofUtf16 (u :: us) = (ofUtf16 us).map (Char.ofNat u :: ·) := by
  cases us with
  | nil => simp [ofUtf16, hhigh, hlow]
  | cons v us => simp [ofUtf16, hhigh, hlow]

theorem ofUtf16_cons_pair {u v : Nat} (hhigh : isHigh u = true) (hlow : isLow v = true)
    (us : List Nat) : ofUtf16 (u :: v :: us) =
      (ofUtf16 us).map (Char.ofNat (0x10000 + (u - 0xD800) * 0x400 + (v - 0xDC00)) :: ·) := by
  simp [ofUtf16, hhigh, hlow]

theorem not_surrogate (c : Char) : c.toNat < 0xD800 ∨ 0xDFFF < c.toNat ∧ c.toNat < 0x110000 :=
  c.valid

theorem ofUtf16_utf16_append (c : Char) (us : List Nat) :
    ofUtf16 (utf16 c ++ us) = (ofUtf16 us).map (c :: ·) := by
  have hvalid := not_surrogate c
  by_cases hplane : c.toNat < 0x10000
  · have hhigh : isHigh c.toNat = false := by
      simp only [isHigh, Bool.and_eq_false_iff, decide_eq_false_iff_not]
      omega
    have hlow : isLow c.toNat = false := by
      simp only [isLow, Bool.and_eq_false_iff, decide_eq_false_iff_not]
      omega
    rw [utf16, if_pos hplane, List.singleton_append, ofUtf16_cons_plain hhigh hlow,
      Char.ofNat_toNat]
  · have hhigh : isHigh (0xD800 + (c.toNat - 0x10000) / 0x400) = true := by
      simp only [isHigh, Bool.and_eq_true, decide_eq_true_eq]
      omega
    have hlow : isLow (0xDC00 + (c.toNat - 0x10000) % 0x400) = true := by
      simp only [isLow, Bool.and_eq_true, decide_eq_true_eq]
      omega
    have hcode : 0x10000 + (0xD800 + (c.toNat - 0x10000) / 0x400 - 0xD800) * 0x400 +
        (0xDC00 + (c.toNat - 0x10000) % 0x400 - 0xDC00) = c.toNat := by omega
    rw [utf16, if_neg hplane, List.cons_append, List.singleton_append,
      ofUtf16_cons_pair hhigh hlow, hcode, Char.ofNat_toNat]

theorem ofUtf16_utf16s (cs : List Char) : ofUtf16 (utf16s cs) = some cs := by
  induction cs with
  | nil => rfl
  | cons c cs ih =>
    rw [utf16s, List.flatMap_cons, ofUtf16_utf16_append]
    change (ofUtf16 (utf16s cs)).map _ = _
    rw [ih]
    rfl

theorem utf16_lt {c : Char} {u : Nat} (h : u ∈ utf16 c) : u < 0x10000 := by
  have hvalid := not_surrogate c
  rw [utf16] at h
  split at h
  · simp only [List.mem_singleton] at h
    omega
  · simp only [List.mem_cons, List.not_mem_nil, or_false] at h
    omega

theorem utf16s_lt {cs : List Char} {u : Nat} (h : u ∈ utf16s cs) : u < 0x10000 := by
  obtain ⟨c, -, hc⟩ := List.mem_flatMap.mp h
  exact utf16_lt hc

/-! ## 2. Strings in ASCII -/

/-- A unit as a `\u` escape, in lower case. -/
def unicodeEscape (u : Nat) : List Char :=
  ['\\', 'u', Nat.digitChar (u / 4096), Nat.digitChar (u / 256 % 16),
   Nat.digitChar (u / 16 % 16), Nat.digitChar (u % 16)]

/-- `ESCAPE_DCT` of `json.encoder`, and `\u` for what is no printable ASCII. -/
def asciiUnit (u : Nat) : List Char :=
  if u = 34 then ['\\', '"'] else if u = 92 then ['\\', '\\'] else if u = 10 then ['\\', 'n']
  else if u = 13 then ['\\', 'r'] else if u = 9 then ['\\', 't'] else if u = 12 then ['\\', 'f']
  else if u = 8 then ['\\', 'b'] else if 32 ≤ u ∧ u < 127 then [Char.ofNat u]
  else unicodeEscape u

/-- A string with `ensure_ascii`. -/
def quoteAscii (units : List Nat) : List Char := units.flatMap asciiUnit

theorem hexValue_digitChar : ∀ d < 16, hexValue (Nat.digitChar d) = some d := by decide

theorem scan_unicodeEscape (acc : List Nat) {u : Nat} (h : u < 0x10000) :
    scan (.str acc) (unicodeEscape u) = some (.str (acc ++ [u]), []) := by
  have hfirst := hexValue_digitChar (u / 4096) (by omega)
  have hsecond := hexValue_digitChar (u / 256 % 16) (by omega)
  have hthird := hexValue_digitChar (u / 16 % 16) (by omega)
  have hfourth := hexValue_digitChar (u % 16) (by omega)
  have hunit : ((((16 * 0 + u / 4096) * 16) + u / 256 % 16) * 16 + u / 16 % 16) * 16 + u % 16 = u := by
    omega
  have hescape : simpleEscape 'u' = none := by decide
  simp [unicodeEscape, scan_cons, scan_nil, lexStep, hescape, hfirst, hsecond, hthird, hfourth]
  omega

theorem toNat_ofNat_of_ascii : ∀ u < 127, (Char.ofNat u).toNat = u := by decide

theorem scan_printable (acc : List Nat) {u : Nat} (hquote : u ≠ 34) (hslash : u ≠ 92)
    (hlow : 32 ≤ u) (hhigh : u < 127) :
    scan (.str acc) [Char.ofNat u] = some (.str (acc ++ [u]), []) := by
  have hcode := toNat_ofNat_of_ascii u hhigh
  have hnotQuote : Char.ofNat u ≠ '"' := by
    intro heq
    rw [heq] at hcode
    exact hquote hcode.symm
  have hnotSlash : Char.ofNat u ≠ '\\' := by
    intro heq
    rw [heq] at hcode
    exact hslash hcode.symm
  have hutf : utf16 (Char.ofNat u) = [u] := by
    rw [utf16, hcode, if_pos (by omega)]
  rw [scan_cons, lexStep, if_neg hnotQuote, if_neg hnotSlash, hcode, if_neg (by omega), hutf]
  rfl

theorem scan_asciiUnit (acc : List Nat) {u : Nat} (h : u < 0x10000) :
    scan (.str acc) (asciiUnit u) = some (.str (acc ++ [u]), []) := by
  rw [asciiUnit]
  split_ifs with h34 h92 h10 h13 h9 h12 h8 hplain
  · rw [h34]; rfl
  · rw [h92]; rfl
  · rw [h10]; rfl
  · rw [h13]; rfl
  · rw [h9]; rfl
  · rw [h12]; rfl
  · rw [h8]; rfl
  · exact scan_printable acc h34 h92 hplain.1 hplain.2
  · exact scan_unicodeEscape acc h

/-- Units of two bytes are read back. -/
theorem quotes_quoteAscii {units : List Nat} (h : ∀ u ∈ units, u < 0x10000) :
    Quotes quoteAscii units := by
  induction units with
  | nil =>
    intro acc
    rw [List.append_nil]
    rfl
  | cons u us ih =>
    intro acc
    have hrest := ih fun v hv => h v (List.mem_cons_of_mem _ hv)
    rw [quoteAscii, List.flatMap_cons, scan_append_of (scan_asciiUnit acc (h u List.mem_cons_self))]
    change (scan (.str (acc ++ [u])) (quoteAscii us)).map _ = _
    rw [hrest, List.append_assoc]
    rfl

/-! ## 3. Strings as they are -/

/-- A character without `ensure_ascii`: escaped only where it has to be. -/
def rawChar (c : Char) : List Char :=
  if c.toNat < 32 ∨ c = '"' ∨ c = '\\' then asciiUnit c.toNat else [c]

/-- A string without `ensure_ascii`. -/
def quoteRaw (units : List Nat) : List Char := ((ofUtf16 units).getD []).flatMap rawChar

theorem utf16_of_low {c : Char} (h : c.toNat < 0x10000) : utf16 c = [c.toNat] := if_pos h

theorem scan_rawChar (acc : List Nat) (c : Char) :
    scan (.str acc) (rawChar c) = some (.str (acc ++ utf16 c), []) := by
  rw [rawChar]
  split_ifs with hescaped
  · have hlow : c.toNat < 0x10000 := by
      rcases hescaped with hcontrol | rfl | rfl
      · omega
      · decide
      · decide
    rw [utf16_of_low hlow]
    exact scan_asciiUnit acc hlow
  · push Not at hescaped
    rw [scan_cons, lexStep, if_neg hescaped.2.1, if_neg hescaped.2.2,
      if_neg (Nat.not_lt.mpr hescaped.1)]
    rfl

theorem scan_rawChars (acc : List Nat) (cs : List Char) :
    scan (.str acc) (cs.flatMap rawChar) = some (.str (acc ++ utf16s cs), []) := by
  induction cs generalizing acc with
  | nil => simp [utf16s, scan_nil]
  | cons c cs ih =>
    rw [List.flatMap_cons, scan_append_of (scan_rawChar acc c), ih]
    simp [utf16s]

theorem quotes_quoteRaw (s : String) : Quotes quoteRaw (utf16s s.toList) := by
  intro acc
  rw [quoteRaw, ofUtf16_utf16s, Option.getD_some]
  exact scan_rawChars acc s.toList

/-! ## 4. Numbers -/

def intText (n : Int) : List Char :=
  if n < 0 then '-' :: Nat.toDigits 10 n.natAbs else Nat.toDigits 10 n.natAbs

def readInt : List Char → Int
  | '-' :: ds => -(Nat.ofDigitChars 10 ds 0 : Nat)
  | ds => (Nat.ofDigitChars 10 ds 0 : Nat)

/-- A number without fraction and exponent is read as an int. -/
def isInt (lexeme : List Char) : Bool := lexeme.all fun c => c ≠ '.' && c ≠ 'e' && c ≠ 'E'

theorem isDigit_of_mem_toDigits {n : Nat} {c : Char} (h : c ∈ Nat.toDigits 10 n) :
    c.isDigit = true := Nat.isDigit_of_mem_toDigits (by decide) (by decide) h

theorem scan_digits (lexeme : List Char) {ds : List Char} (h : ∀ c ∈ ds, c.isDigit = true) :
    scan (.num lexeme .int) ds = some (.num (lexeme ++ ds) .int, []) := by
  induction ds generalizing lexeme with
  | nil => rw [List.append_nil]; rfl
  | cons c ds ih =>
    have hstep : lexStep (.num lexeme .int) c = some (.num (lexeme ++ [c]) .int, []) := by
      simp [lexStep, NumState.step, h c List.mem_cons_self]
    rw [scan_cons, hstep, Option.bind_some, ih _ fun d hd => h d (List.mem_cons_of_mem _ hd),
      List.append_assoc]
    rfl

theorem digitChar_ten : ∀ d < 10, d ≠ 0 →
    lexOut (Nat.digitChar d) = some (.num [Nat.digitChar d] .int, []) ∧
      NumState.minus.step (Nat.digitChar d) = some .int := by decide

/-- The digits of a number that is not zero start with a digit that is not zero. -/
theorem toDigits_head {n : Nat} (h : n ≠ 0) :
    ∃ d ds, Nat.toDigits 10 n = Nat.digitChar d :: ds ∧ d < 10 ∧ d ≠ 0 := by
  induction n using Nat.strongRecOn with
  | ind n ih =>
    by_cases hsmall : n < 10
    · exact ⟨n, [], Nat.toDigits_of_lt_base hsmall, hsmall, h⟩
    · obtain ⟨d, ds, hds, hd, hne⟩ := ih (n / 10) (by omega) (by omega)
      refine ⟨d, ds ++ [(n % 10).digitChar], ?_, hd, hne⟩
      rw [Nat.toDigits_of_base_le (by decide) (by omega), hds, List.cons_append]

theorem isNumber_intText (n : Int) : IsNumber (intText n) := by
  by_cases hzero : n = 0
  · rw [hzero]
    exact ⟨.zero, rfl, rfl⟩
  · obtain ⟨d, ds, hds, hd, hne⟩ := toDigits_head (n := n.natAbs) (by omega)
    have hdigits : ∀ c ∈ ds, c.isDigit = true := by
      intro c hc
      apply isDigit_of_mem_toDigits (n := n.natAbs)
      rw [hds]
      exact List.mem_cons_of_mem _ hc
    obtain ⟨hout, hminus⟩ := digitChar_ten d hd hne
    refine ⟨.int, ?_, rfl⟩
    rw [intText, hds]
    split
    · have hfirst : lexStep .out '-' = some (.num ['-'] .minus, []) := rfl
      have hsecond : lexStep (.num ['-'] .minus) (Nat.digitChar d) =
          some (.num ['-', Nat.digitChar d] .int, []) := by
        simp [lexStep, hminus]
      rw [scan_cons, hfirst, Option.bind_some, scan_cons, hsecond, Option.bind_some,
        scan_digits _ hdigits]
      rfl
    · have hfirst : lexStep .out (Nat.digitChar d) = some (.num [Nat.digitChar d] .int, []) := hout
      rw [scan_cons, hfirst, Option.bind_some, scan_digits _ hdigits]
      rfl

theorem mem_intText {n : Int} {c : Char} (h : c ∈ intText n) : c = '-' ∨ c.isDigit = true := by
  rw [intText] at h
  split at h
  · rcases List.mem_cons.mp h with hminus | hdigit
    · exact Or.inl hminus
    · exact Or.inr (isDigit_of_mem_toDigits hdigit)
  · exact Or.inr (isDigit_of_mem_toDigits h)

theorem isInt_intText (n : Int) : isInt (intText n) = true := by
  rw [isInt, List.all_eq_true]
  intro c hc
  have hdigit := mem_intText hc
  have hpoint : c ≠ '.' ∧ c ≠ 'e' ∧ c ≠ 'E' := by
    refine ⟨?_, ?_, ?_⟩ <;> · rintro rfl; revert hdigit; decide
  simp [hpoint]

theorem readInt_intText (n : Int) : readInt (intText n) = n := by
  rw [intText]
  split
  · rw [readInt, Nat.ofDigitChars_ten_toDigits]
    omega
  · rw [readInt, Nat.ofDigitChars_ten_toDigits]
    · omega
    · intro ds hds
      have hminus : '-' ∈ Nat.toDigits 10 n.natAbs := by
        rw [hds]
        exact List.mem_cons_self
      have hdigit := isDigit_of_mem_toDigits hminus
      revert hdigit
      decide

/-- How an interpreter spells and reads floats.  No float is read where the number is out of
    their range, and one that was read is spelled so that it reads the same. -/
structure Floats where
  read : List Char → Option ℚ
  repr : ℚ → List Char
  isNumber : ∀ lexeme q, read lexeme = some q → IsNumber (repr q)
  isFloat : ∀ lexeme q, read lexeme = some q → isInt (repr q) = false
  read_repr : ∀ lexeme q, read lexeme = some q → read (repr q) = some q

/-- Floats that are never met. -/
def Floats.unread : Floats where
  read := fun _ => none
  repr := fun _ => []
  isNumber := by
    intro lexeme q h
    cases h
  isFloat := by
    intro lexeme q h
    cases h
  read_repr := by
    intro lexeme q h
    cases h

/-! ## 5. Values -/

def stringOf (units : List Nat) : Option String := (ofUtf16 units).map String.ofList

def unitsOf (s : String) : List Nat := utf16s s.toList

theorem stringOf_unitsOf (s : String) : stringOf (unitsOf s) = some s := by
  rw [stringOf, unitsOf, ofUtf16_utf16s, Option.map_some, String.ofList_toList]

section Values

variable (floats : Floats)

mutual

def valueOf : Tree → Option Json
  | .null => some .null
  | .bool b => some (.bool b)
  | .num lexeme =>
    if isInt lexeme then some (.int (readInt lexeme)) else (floats.read lexeme).map .float
  | .str units => (stringOf units).map .str
  | .arr items => (itemsOf items).map .arr
  | .obj fields => (fieldsOf [] fields).map .obj

def itemsOf : List Tree → Option (List Json)
  | [] => some []
  | t :: ts => do
    let v ← valueOf t
    let vs ← itemsOf ts
    some (v :: vs)

/-- The dict after more fields: one of a name it has replaces that field's value. -/
def fieldsOf (dict : List (String × Json)) : List (List Nat × Tree) →
    Option (List (String × Json))
  | [] => some dict
  | (key, t) :: fs => do
    let k ← stringOf key
    let v ← valueOf t
    fieldsOf (Assoc.insert k v dict) fs

end

mutual

def treeOf : Json → Tree
  | .null => .null
  | .bool b => .bool b
  | .int n => .num (intText n)
  | .float q => .num (floats.repr q)
  | .str s => .str (unitsOf s)
  | .arr items => .arr (treesOf items)
  | .obj fields => .obj (fieldTreesOf fields)

def treesOf : List Json → List Tree
  | [] => []
  | v :: vs => treeOf v :: treesOf vs

def fieldTreesOf : List (String × Json) → List (List Nat × Tree)
  | [] => []
  | (k, v) :: rest => (unitsOf k, treeOf v) :: fieldTreesOf rest

end

mutual

/-- What a text can stand for: its floats are ones that are read, and a dict has a key once. -/
def Readable : Json → Prop
  | .float q => ∃ lexeme, floats.read lexeme = some q
  | .arr items => ReadableItems items
  | .obj fields => (fields.map Prod.fst).Nodup ∧ ReadableFields fields
  | _ => True

def ReadableItems : List Json → Prop
  | [] => True
  | v :: vs => Readable v ∧ ReadableItems vs

def ReadableFields : List (String × Json) → Prop
  | [] => True
  | (_, v) :: rest => Readable v ∧ ReadableFields rest

end

variable {floats}

theorem readableFields_insert {k : String} {v : Json} (hv : Readable floats v) :
    ∀ {dict : List (String × Json)}, ReadableFields floats dict →
      ReadableFields floats (Assoc.insert k v dict)
  | [], _ => by
    simp [Assoc.insert, ReadableFields, hv]
  | (l, w) :: rest, h => by
    rw [Assoc.insert]
    split
    · exact ⟨hv, h.2⟩
    · exact ⟨h.1, readableFields_insert hv h.2⟩

mutual

theorem readable_of_valueOf : ∀ {t : Tree} {v : Json}, valueOf floats t = some v → Readable floats v
  | .null, _, h => by cases h; trivial
  | .bool _, _, h => by cases h; trivial
  | .num lexeme, v, h => by
    rw [valueOf] at h
    split at h
    · cases h; trivial
    · obtain ⟨q, hq, rfl⟩ := Option.map_eq_some_iff.mp h
      exact ⟨lexeme, hq⟩
  | .str _, _, h => by
    obtain ⟨s, -, rfl⟩ := Option.map_eq_some_iff.mp h
    trivial
  | .arr items, _, h => by
    obtain ⟨vs, hvs, rfl⟩ := Option.map_eq_some_iff.mp h
    exact readableItems_of_itemsOf hvs
  | .obj fields, _, h => by
    obtain ⟨dict, hdict, rfl⟩ := Option.map_eq_some_iff.mp h
    exact @readableFields_of_fieldsOf _ [] _ ⟨List.nodup_nil, trivial⟩ hdict

theorem readableItems_of_itemsOf : ∀ {ts : List Tree} {vs : List Json},
    itemsOf floats ts = some vs → ReadableItems floats vs
  | [], _, h => by cases h; trivial
  | t :: ts, _, h => by
    rw [itemsOf] at h
    obtain ⟨v, hv, h⟩ := Option.bind_eq_some_iff.mp h
    obtain ⟨vs, hvs, h⟩ := Option.bind_eq_some_iff.mp h
    cases h
    exact ⟨readable_of_valueOf hv, readableItems_of_itemsOf hvs⟩

theorem readableFields_of_fieldsOf : ∀ {fs : List (List Nat × Tree)}
    {dict result : List (String × Json)},
    (dict.map Prod.fst).Nodup ∧ ReadableFields floats dict →
    fieldsOf floats dict fs = some result →
    (result.map Prod.fst).Nodup ∧ ReadableFields floats result
  | [], _, _, hdict, h => by cases h; exact hdict
  | (key, t) :: fs, dict, result, hdict, h => by
    rw [fieldsOf] at h
    obtain ⟨k, hk, h⟩ := Option.bind_eq_some_iff.mp h
    obtain ⟨v, hv, h⟩ := Option.bind_eq_some_iff.mp h
    exact readableFields_of_fieldsOf ⟨Assoc.nodup_insert hdict.1 k v,
      readableFields_insert (readable_of_valueOf hv) hdict.2⟩ h

end

theorem insert_of_fresh {k : String} (v : Json) : ∀ {dict : List (String × Json)},
    k ∉ dict.map Prod.fst → Assoc.insert k v dict = dict ++ [(k, v)]
  | [], _ => rfl
  | (l, w) :: rest, h => by
    rw [List.map_cons, List.mem_cons, not_or] at h
    rw [Assoc.insert, if_neg fun heq => h.1 heq.symm, insert_of_fresh v h.2]
    rfl

mutual

theorem valueOf_treeOf : ∀ {v : Json}, Readable floats v → valueOf floats (treeOf floats v) = some v
  | .null, _ => rfl
  | .bool _, _ => rfl
  | .int n, _ => by
    rw [treeOf, valueOf, if_pos (isInt_intText n), readInt_intText]
  | .float q, h => by
    obtain ⟨lexeme, hq⟩ := h
    have hfloat := floats.isFloat lexeme q hq
    rw [treeOf, valueOf, hfloat, floats.read_repr lexeme q hq]
    rfl
  | .str s, _ => by
    rw [treeOf, valueOf, stringOf_unitsOf, Option.map_some]
  | .arr items, h => by
    rw [treeOf, valueOf, itemsOf_treesOf h, Option.map_some]
  | .obj fields, h => by
    rw [treeOf, valueOf, fieldsOf_fieldTreesOf [] h.2 h.1, Option.map_some, List.nil_append]

theorem itemsOf_treesOf : ∀ {vs : List Json}, ReadableItems floats vs →
    itemsOf floats (treesOf floats vs) = some vs
  | [], _ => rfl
  | v :: vs, h => by
    rw [treesOf, itemsOf, valueOf_treeOf h.1, itemsOf_treesOf h.2]
    rfl

theorem fieldsOf_fieldTreesOf (dict : List (String × Json)) : ∀ {fields : List (String × Json)},
    ReadableFields floats fields → ((dict ++ fields).map Prod.fst).Nodup →
    fieldsOf floats dict (fieldTreesOf floats fields) = some (dict ++ fields)
  | [], _, _ => by rw [fieldTreesOf, fieldsOf, List.append_nil]
  | (k, v) :: rest, h, hnd => by
    have hfresh : k ∉ dict.map Prod.fst := by
      rw [List.map_append, List.map_cons] at hnd
      intro hmem
      exact (List.nodup_append.mp hnd).2.2 k hmem k List.mem_cons_self rfl
    rw [fieldTreesOf, fieldsOf, stringOf_unitsOf, valueOf_treeOf h.1, Option.bind_eq_bind,
      Option.bind_some, Option.bind_eq_bind, Option.bind_some, insert_of_fresh v hfresh,
      fieldsOf_fieldTreesOf _ h.2 (by rwa [List.append_assoc]), List.append_assoc]
    rfl

end

/-! ## 6. Texts -/

variable (floats)

/-- The value of a JSON text. -/
def readValue (text : String) : Option Json := (parse text.toList).bind (valueOf floats)

def writeValue (quote : List Nat → List Char) (v : Json) : String :=
  String.ofList ((treeOf floats v).write quote)

variable {floats} {quote : List Nat → List Char}

mutual

theorem readsBack_treeOf (hquote : ∀ s : String, Quotes quote (unitsOf s)) : ∀ {v : Json},
    Readable floats v → ∀ token ∈ (treeOf floats v).tokens, token.ReadsBack quote
  | .null, _, token, hmem => by
    rw [List.mem_singleton.mp hmem]; trivial
  | .bool _, _, token, hmem => by
    rw [List.mem_singleton.mp hmem]; trivial
  | .int n, _, token, hmem => by
    rw [List.mem_singleton.mp hmem]
    exact isNumber_intText n
  | .float q, h, token, hmem => by
    obtain ⟨lexeme, hq⟩ := h
    rw [List.mem_singleton.mp hmem]
    exact floats.isNumber lexeme q hq
  | .str s, _, token, hmem => by
    rw [List.mem_singleton.mp hmem]
    exact hquote s
  | .arr [], _, token, hmem => by
    rcases List.mem_pair.mp hmem with rfl | rfl <;> trivial
  | .arr (v :: vs), h, token, hmem => by
    rw [treeOf, treesOf, Tree.tokens, List.mem_cons, List.mem_append, List.mem_append,
      List.mem_singleton] at hmem
    rcases hmem with rfl | hhead | htail | rfl
    · trivial
    · exact readsBack_treeOf hquote h.1 token hhead
    · exact readsBack_treesOf hquote h.2 token htail
    · trivial
  | .obj [], _, token, hmem => by
    rcases List.mem_pair.mp hmem with rfl | rfl <;> trivial
  | .obj ((k, v) :: rest), h, token, hmem => by
    rw [treeOf, fieldTreesOf, Tree.tokens, List.mem_cons, List.mem_cons, List.mem_cons,
      List.mem_append, List.mem_append, List.mem_singleton] at hmem
    rcases hmem with rfl | rfl | rfl | hhead | htail | rfl
    · trivial
    · exact hquote k
    · trivial
    · exact readsBack_treeOf hquote h.2.1 token hhead
    · exact readsBack_fieldTreesOf hquote h.2.2 token htail
    · trivial

theorem readsBack_treesOf (hquote : ∀ s : String, Quotes quote (unitsOf s)) : ∀ {vs : List Json},
    ReadableItems floats vs → ∀ token ∈ itemTokens (treesOf floats vs), token.ReadsBack quote
  | [], _, token, hmem => by cases hmem
  | v :: vs, h, token, hmem => by
    rw [treesOf, itemTokens, List.mem_cons, List.mem_append] at hmem
    rcases hmem with rfl | hhead | htail
    · trivial
    · exact readsBack_treeOf hquote h.1 token hhead
    · exact readsBack_treesOf hquote h.2 token htail

theorem readsBack_fieldTreesOf (hquote : ∀ s : String, Quotes quote (unitsOf s)) :
    ∀ {fields : List (String × Json)}, ReadableFields floats fields →
    ∀ token ∈ fieldTokens (fieldTreesOf floats fields), token.ReadsBack quote
  | [], _, token, hmem => by cases hmem
  | (k, v) :: rest, h, token, hmem => by
    rw [fieldTreesOf, fieldTokens, List.mem_cons, List.mem_cons, List.mem_cons,
      List.mem_append] at hmem
    rcases hmem with rfl | rfl | rfl | hhead | htail
    · trivial
    · exact hquote k
    · trivial
    · exact readsBack_treeOf hquote h.1 token hhead
    · exact readsBack_fieldTreesOf hquote h.2 token htail

end

/-- **A value is read back from what is written of it.** -/
theorem readValue_writeValue (hquote : ∀ s : String, Quotes quote (unitsOf s)) {v : Json}
    (h : Readable floats v) : readValue floats (writeValue floats quote v) = some v := by
  rw [readValue, writeValue, String.toList_ofList, parse_write (readsBack_treeOf hquote h),
    Option.bind_some, valueOf_treeOf h]

theorem readable_of_readValue {text : String} {v : Json} (h : readValue floats text = some v) :
    Readable floats v := by
  obtain ⟨t, -, hvalue⟩ := Option.bind_eq_some_iff.mp h
  exact readable_of_valueOf hvalue

theorem quotes_unitsOf (s : String) : Quotes quoteAscii (unitsOf s) :=
  quotes_quoteAscii fun _ hu => utf16s_lt hu

end Values

/-! ## 7. The module `json` -/

/-- `json.loads` and `json.dumps` of an interpreter.  On the values of this model they do what
    is above, or raise where a limit of the interpreter is reached. -/
structure PyJson where
  floats : Floats
  /-- `none` where it raises -/
  loads : String → Option Json
  dumps : Json → Option String
  loads_eq : ∀ {text v}, readValue floats text = some v → loads text = none ∨ loads text = some v
  dumps_eq : ∀ {v text}, dumps v = some text → text = writeValue floats quoteAscii v

/-- The interpreter that raises nowhere, of these floats. -/
def PyJson.unlimited (floats : Floats) : PyJson where
  floats := floats
  loads := readValue floats
  dumps := fun v => some (writeValue floats quoteAscii v)
  loads_eq := Or.inr
  dumps_eq := by
    intro v text h
    cases h
    rfl

mutual

/-- The integers of the value are below the bound. -/
def intsBelow (bound : Nat) : Json → Bool
  | .int n => n.natAbs < bound
  | .arr items => intsBelowItems bound items
  | .obj fields => intsBelowFields bound fields
  | _ => true

def intsBelowItems (bound : Nat) : List Json → Bool
  | [] => true
  | v :: vs => intsBelow bound v && intsBelowItems bound vs

def intsBelowFields (bound : Nat) : List (String × Json) → Bool
  | [] => true
  | (_, v) :: rest => intsBelow bound v && intsBelowFields bound rest

end

/-- The interpreter that raises on integers from the bound on, and nowhere else. -/
def PyJson.limited (floats : Floats) (bound : Nat) : PyJson where
  floats := floats
  loads := fun text => (readValue floats text).filter (intsBelow bound)
  dumps := fun v => if intsBelow bound v then some (writeValue floats quoteAscii v) else none
  loads_eq := by
    intro text v h
    rw [h, Option.filter_some]
    split
    · exact Or.inr rfl
    · exact Or.inl rfl
  dumps_eq := by
    intro v text h
    split at h
    · cases h
      rfl
    · cases h

/-- What `json.dumps` makes of a value that was read stands for that value. -/
theorem PyJson.readValue_dumps (py : PyJson) {v : Json} {text : String}
    (h : Readable py.floats v) (hdumps : py.dumps v = some text) :
    readValue py.floats text = some v := by
  rw [py.dumps_eq hdumps]
  exact readValue_writeValue quotes_unitsOf h

end TokenProxy.JsonText
