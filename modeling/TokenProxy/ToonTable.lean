/-
  TokenProxy/ToonTable.lean
  =========================
  **Does a TOON table determine its rows?** (`_toon_cell`, `_toon_safe`,
  `_encode_block_to_toon` of `middleware/g13_batch.py`).

  A table is the line of its columns and a line for each row.  No cell has the delimiter or a
  line break, so a text gives back its cells; but a string is written bare, and one that spells
  a number or a boolean is the same cell as the number or the boolean.

  Main result: `toon_determines_iff`, two tables that differ have different texts unless they
  differ only in such strings (`Confusable`).
-/
import TokenProxy.JoinedLists
import TokenProxy.JsonValue
import TokenProxy.Pointwise
import TokenProxy.TextReplace

namespace TokenProxy.Toon

open JsonText (Floats PyJson intText quoteRaw unitsOf readValue Readable)

/-- The fields of a row. -/
abbrev Row := List (String × Json)

/-! ## 1. The encoder -/

structure ToonConfig where
  minRows : Int := 2
  /-- `modal_count / len(data) < uniform_threshold`, in floats -/
  belowThreshold : Nat → Nat → Bool := fun modalCount rows => decide (modalCount < rows)
  allowNested : Bool := false
  requireNetSavings : Bool := true
  maxBlockChars : Nat := 20000

/-- What the encoder calls; `none` where it raises. -/
structure Interpreter where
  json : PyJson
  /-- `json.dumps(value, ensure_ascii=False, separators=(",", ":"))` of a nested value -/
  dumpsNested : Json → Option String
  /-- `estimate_tokens(text, model)` -/
  estimateTokens : String → Option Int

def isNested : Json → Bool
  | .arr _ => true
  | .obj _ => true
  | _ => false

/-- `json.dumps(value, ensure_ascii=False)` of a string. -/
def dumpsStr (s : String) : String := String.ofList ('"' :: quoteRaw (unitsOf s) ++ ['"'])

/-- A string is its own cell, unless that would read as no cell, as null or as JSON. -/
def strCell (s : String) : String :=
  if s = "" ∨ s = "null" ∨ ['"'] <+: s.toList then dumpsStr s else s

/-- `_toon_safe`. -/
def toonSafe (text : String) : Bool := text.toList.all fun c => c ≠ '|' && c ≠ '\n' && c ≠ '\r'

section

variable (py : Interpreter)

def toonCell : Json → Option String
  | .null => some "null"
  | .bool b => some (if b then "true" else "false")
  | .str s => some (strCell s)
  | .int n => some (String.ofList (intText n))
  | .float q => some (String.ofList (py.json.floats.repr q))
  | .arr items => py.dumpsNested (.arr items)
  | .obj fields => py.dumpsNested (.obj fields)

/-- The cell of a column; a key that the row lacks is the empty cell. -/
def cellOf (row : Row) (k : String) : Option String :=
  match Assoc.lookup k row with
  | some v => toonCell py v
  | none => some ""

def sameKeys (a b : Row) : Bool :=
  (a.all fun e => (b.map Prod.fst).contains e.1) && b.all fun e => (a.map Prod.fst).contains e.1

/-- `Counter(keysets).most_common(1)[0][1]`. -/
def modalCount (rows : List Row) : Nat :=
  (rows.map fun row => (rows.filter (sameKeys row)).length).foldr max 0

def addKey (keys : List String) (k : String) : List String :=
  if k ∈ keys then keys else keys ++ [k]

/-- The union of the keys, in the order in which they are first seen. -/
def columns (rows : List Row) : List String :=
  (rows.flatMap fun row => row.map Prod.fst).foldl addKey []

def joinWith (sep : Char) (texts : List String) : List Char :=
  [sep].intercalate (texts.map String.toList)

def tableText (keys : List String) (cells : List (List String)) : String :=
  String.ofList ("schema:".toList ++ (joinWith '|' keys ++ '\n' ::
    ['\n'].intercalate (cells.map (joinWith '|'))))

/-- The eligible table, once its rows are known: `none` where the encoder raises. -/
def encodeTable (cfg : ToonConfig) (jsonStr : String) (rows : List Row) : Option (Option String) :=
  if rows.isEmpty then none
  else if cfg.belowThreshold (modalCount rows) rows.length then some none
  else if !cfg.allowNested && rows.any fun row => row.any fun e => isNested e.2 then some none
  else do
    let keys := columns rows
    let cells ← rows.mapM fun row => keys.mapM (cellOf py row)
    if !keys.all toonSafe || !cells.all fun row => row.all toonSafe then some none
    else
      let toon := tableText keys cells
      if cfg.requireNetSavings then do
        let after ← py.estimateTokens toon
        let before ← py.estimateTokens jsonStr
        if before ≤ after then some none else some (some toon)
      else some (some toon)

/-- `_encode_block_to_toon`. -/
def encodeBlock (cfg : ToonConfig) (jsonStr : String) : Option (Option String) :=
  match py.json.loads jsonStr with
  | some (.arr items) =>
    if items.length < cfg.minRows then some none
    else
      match items.mapM Json.fields? with
      | some rows => encodeTable py cfg jsonStr rows
      | none => some none
  | _ => some none

end

/-! ## 2. What is asked, and when it holds -/

/-- The same dict: every key has the same value, or none. -/
def SameRow (a b : Row) : Prop := ∀ k, Assoc.lookup k a = Assoc.lookup k b

/-- The text of a scalar that is no string. -/
def bareText (floats : Floats) : Json → Option String
  | .null => some "null"
  | .bool b => some (if b then "true" else "false")
  | .int n => some (String.ofList (intText n))
  | .float q => some (String.ofList (floats.repr q))
  | _ => none

/-- The string is how the boolean or the number is spelled. -/
def Spells (floats : Floats) (v : Json) (s : String) : Prop :=
  v ≠ .null ∧ bareText floats v = some s

/-- Two cells that read alike: the same, or a string and what it spells. -/
inductive AlikeCell (floats : Floats) : Option Json → Option Json → Prop
  | same (cell : Option Json) : AlikeCell floats cell cell
  | spelled {v : Json} {s : String} (h : Spells floats v s) :
      AlikeCell floats (some (.str s)) (some v)
  | spelling {v : Json} {s : String} (h : Spells floats v s) :
      AlikeCell floats (some v) (some (.str s))

/-- Two tables that differ, though they have the same columns and each two cells are alike. -/
def Confusable (floats : Floats) (rows₁ rows₂ : List Row) : Prop :=
  columns rows₁ = columns rows₂ ∧
    List.Forall₂ (fun a b => ∀ k, AlikeCell floats (Assoc.lookup k a) (Assoc.lookup k b))
      rows₁ rows₂ ∧
    ¬ List.Forall₂ SameRow rows₁ rows₂

/-- The encoder takes the text of these flat rows to a table. -/
structure Accepts (py : Interpreter) (cfg : ToonConfig) (text : String) (rows : List Row)
    (toon : String) : Prop where
  read : readValue py.json.floats text = some (.arr (rows.map .obj))
  flat : ∀ row ∈ rows, ∀ e ∈ row, isNested e.2 = false
  encoded : encodeBlock py cfg text = some (some toon)

/-! ## 3. Cells -/

/-- Within a string the scanner gives no token, or has given that of the string. -/
def inString : JsonText.Lex → Bool
  | .str _ => true
  | .esc _ => true
  | .hex _ _ => true
  | _ => false

theorem lexStep_inString {s s' : JsonText.Lex} {c : Char} {ts : List JsonText.Token}
    (hs : inString s = true) (h : JsonText.lexStep s c = some (s', ts)) :
    inString s' = true ∨ ts ≠ [] := by
  cases s with
  | str units =>
    rw [JsonText.lexStep] at h
    split_ifs at h
    · cases h
      exact Or.inr (List.cons_ne_nil _ _)
    · cases h
      exact Or.inl rfl
    · cases h
      exact Or.inl rfl
  | esc units =>
    rw [JsonText.lexStep] at h
    split at h
    · cases h
      exact Or.inl rfl
    · split_ifs at h
      cases h
      exact Or.inl rfl
  | hex units digits =>
    obtain ⟨d, -, hd⟩ := Option.map_eq_some_iff.mp h
    split_ifs at hd
    · cases hd
      exact Or.inl rfl
    · cases hd
      exact Or.inl rfl
  | _ => cases hs

theorem scan_inString {s s' : JsonText.Lex} {cs : List Char} {ts : List JsonText.Token}
    (hs : inString s = true) (h : JsonText.scan s cs = some (s', ts)) :
    inString s' = true ∨ ts ≠ [] := by
  induction cs generalizing s ts with
  | nil =>
    cases h
    exact Or.inl hs
  | cons c cs ih =>
    rw [JsonText.scan_cons] at h
    obtain ⟨⟨s₁, ts₁⟩, hstep, h⟩ := Option.bind_eq_some_iff.mp h
    obtain ⟨⟨s₂, ts₂⟩, hrest, heq⟩ := Option.map_eq_some_iff.mp h
    cases heq
    rcases lexStep_inString hs hstep with hstays | htoken
    · rcases ih hstays hrest with hstays | htoken
      · exact Or.inl hstays
      · exact Or.inr (List.append_ne_nil_of_right_ne_nil _ htoken)
    · exact Or.inr (List.append_ne_nil_of_left_ne_nil htoken _)

/-- No number begins with a quote. -/
theorem not_quote_of_isNumber {lexeme : List Char} (h : JsonText.IsNumber lexeme) :
    ¬ ['"'] <+: lexeme := by
  rintro ⟨cs, rfl⟩
  obtain ⟨st, hscan, -⟩ := h
  rw [List.singleton_append, JsonText.scan_cons] at hscan
  have hopen : JsonText.lexStep .out '"' = some (.str [], []) := rfl
  rw [hopen, Option.bind_some] at hscan
  obtain ⟨⟨s', ts⟩, hrest, heq⟩ := Option.map_eq_some_iff.mp hscan
  obtain ⟨rfl, hnone⟩ := Prod.mk.inj heq
  rcases scan_inString rfl hrest with hstays | htoken
  · cases hstays
  · exact htoken hnone

theorem not_isNumber_of_scan {lexeme : List Char} {ts : List JsonText.Token}
    (h : JsonText.scan .out lexeme = some (.out, ts)) : ¬ JsonText.IsNumber lexeme := by
  rintro ⟨st, hscan, -⟩
  cases h.symm.trans hscan

theorem unitsOf_injective : Function.Injective unitsOf := by
  intro s s' h
  have hread := congrArg JsonText.stringOf h
  rw [JsonText.stringOf_unitsOf, JsonText.stringOf_unitsOf] at hread
  exact Option.some.inj hread

theorem toList_dumpsStr (s : String) :
    (dumpsStr s).toList = '"' :: quoteRaw (unitsOf s) ++ ['"'] := String.toList_ofList

theorem dumpsStr_injective : Function.Injective dumpsStr := by
  intro s s' h
  have hlists := congrArg String.toList h
  rw [toList_dumpsStr, toList_dumpsStr] at hlists
  have hquoted := List.append_cancel_right (List.cons.inj hlists).2
  have hscan := JsonText.quotes_quoteRaw s []
  have hscan' := JsonText.quotes_quoteRaw s' []
  unfold unitsOf at hquoted
  rw [hquoted, hscan'] at hscan
  apply unitsOf_injective
  injection hscan with hpair
  injection (Prod.mk.inj hpair).1 with hunits
  exact hunits.symm

theorem quote_dumpsStr (s : String) : ['"'] <+: (dumpsStr s).toList := by
  rw [toList_dumpsStr]
  exact ⟨_, rfl⟩

/-- A text that no string but itself can be the cell of. -/
structure Bare (x : String) : Prop where
  ne_empty : x ≠ ""
  unquoted : ¬ ['"'] <+: x.toList

theorem dumpsStr_ne_bare {s x : String} (h : Bare x) : dumpsStr s ≠ x := by
  intro heq
  apply h.unquoted
  rw [← heq]
  exact quote_dumpsStr s

theorem strCell_eq_iff {s x : String} (h : Bare x) : strCell s = x ↔ s = x ∧ x ≠ "null" := by
  unfold strCell
  split
  · rename_i hquoted
    apply iff_of_false (dumpsStr_ne_bare h)
    rintro ⟨rfl, hnull⟩
    rcases hquoted with hempty | hnull' | hquote
    · exact h.ne_empty hempty
    · exact hnull hnull'
    · exact h.unquoted hquote
  · rename_i hplain
    constructor
    · rintro rfl
      exact ⟨rfl, fun hnull => hplain (Or.inr (Or.inl hnull))⟩
    · exact And.left

theorem strCell_ne_empty (s : String) : strCell s ≠ "" := by
  unfold strCell
  split
  · intro h
    have hquote := quote_dumpsStr s
    rw [h] at hquote
    exact List.cons_ne_nil _ _ (List.prefix_nil.mp hquote)
  · rename_i hplain
    exact fun h => hplain (Or.inl h)

theorem strCell_injective : Function.Injective strCell := by
  intro s s' h
  by_cases hquoted : s = "" ∨ s = "null" ∨ ['"'] <+: s.toList
  · have hcell : strCell s = dumpsStr s := if_pos hquoted
    by_cases hquoted' : s' = "" ∨ s' = "null" ∨ ['"'] <+: s'.toList
    · have hcell' : strCell s' = dumpsStr s' := if_pos hquoted'
      exact dumpsStr_injective (hcell.symm.trans (h.trans hcell'))
    · have hcell' : strCell s' = s' := if_neg hquoted'
      have hdumps : dumpsStr s = s' := hcell.symm.trans (h.trans hcell')
      exact absurd (Or.inr (Or.inr (hdumps ▸ quote_dumpsStr s))) hquoted'
  · have hcell : strCell s = s := if_neg hquoted
    by_cases hquoted' : s' = "" ∨ s' = "null" ∨ ['"'] <+: s'.toList
    · have hcell' : strCell s' = dumpsStr s' := if_pos hquoted'
      have hdumps : s = dumpsStr s' := hcell.symm.trans (h.trans hcell')
      exact absurd (Or.inr (Or.inr (hdumps ▸ quote_dumpsStr s'))) hquoted
    · have hcell' : strCell s' = s' := if_neg hquoted'
      exact hcell.symm.trans (h.trans hcell')

theorem bare_of_isNumber {lexeme : List Char} (h : JsonText.IsNumber lexeme) :
    Bare (String.ofList lexeme) where
  ne_empty := by
    intro hempty
    have hnil : lexeme = [] := by
      rw [← String.toList_ofList (l := lexeme), hempty]
      rfl
    subst hnil
    exact not_isNumber_of_scan rfl h
  unquoted := by
    rw [String.toList_ofList]
    exact not_quote_of_isNumber h

section

variable {floats : Floats}

theorem isNumber_of_readable {q : ℚ} (h : Readable floats (.float q)) :
    JsonText.IsNumber (floats.repr q) := by
  obtain ⟨lexeme, hread⟩ := h
  exact floats.isNumber lexeme q hread

theorem bare_bareText {v : Json} (hv : Readable floats v) {x : String}
    (h : bareText floats v = some x) : Bare x := by
  cases v with
  | null =>
    cases h
    exact ⟨by decide, by decide⟩
  | bool b =>
    cases h
    cases b with
    | false => exact ⟨by decide, by decide⟩
    | true => exact ⟨by decide, by decide⟩
  | int n =>
    cases h
    exact bare_of_isNumber (JsonText.isNumber_intText n)
  | float q =>
    cases h
    exact bare_of_isNumber (isNumber_of_readable hv)
  | _ => cases h

/-- What the text of a scalar is, read back. -/
def readBare (floats : Floats) (x : String) : Option Json :=
  if x = "null" then some .null
  else if x = "true" then some (.bool true)
  else if x = "false" then some (.bool false)
  else if JsonText.isInt x.toList then some (.int (JsonText.readInt x.toList))
  else (floats.read x.toList).map .float

theorem ne_of_isNumber {lexeme : List Char} (h : JsonText.IsNumber lexeme) {x : String}
    {ts : List JsonText.Token} (hx : JsonText.scan .out x.toList = some (.out, ts)) :
    String.ofList lexeme ≠ x := by
  rintro rfl
  rw [String.toList_ofList] at hx
  exact not_isNumber_of_scan hx h

theorem readBare_of_isNumber {lexeme : List Char} (h : JsonText.IsNumber lexeme) :
    readBare floats (String.ofList lexeme) =
      if JsonText.isInt lexeme then some (.int (JsonText.readInt lexeme))
      else (floats.read lexeme).map .float := by
  have hnull : String.ofList lexeme ≠ "null" := ne_of_isNumber h rfl
  have htrue : String.ofList lexeme ≠ "true" := ne_of_isNumber h rfl
  have hfalse : String.ofList lexeme ≠ "false" := ne_of_isNumber h rfl
  rw [readBare, if_neg hnull, if_neg htrue, if_neg hfalse, String.toList_ofList]

theorem readBare_bareText {v : Json} (hv : Readable floats v) {x : String}
    (h : bareText floats v = some x) : readBare floats x = some v := by
  cases v with
  | null =>
    cases h
    rfl
  | bool b =>
    cases h
    cases b with
    | false => rfl
    | true => rfl
  | int n =>
    cases h
    rw [readBare_of_isNumber (JsonText.isNumber_intText n), if_pos (JsonText.isInt_intText n),
      JsonText.readInt_intText]
  | float q =>
    cases h
    obtain ⟨lexeme, hread⟩ := hv
    rw [readBare_of_isNumber (floats.isNumber lexeme q hread), floats.isFloat lexeme q hread,
      floats.read_repr lexeme q hread]
    rfl
  | _ => cases h

theorem bareText_ne_null {v : Json} (hv : Readable floats v) {x : String}
    (h : bareText floats v = some x) (hne : v ≠ .null) : x ≠ "null" := by
  rintro rfl
  have hread := readBare_bareText hv h
  exact hne (Option.some.inj hread).symm

/-- A cell as it is written when it is flat. -/
def cellText (floats : Floats) : Option Json → String
  | none => ""
  | some (.str s) => strCell s
  | some v => (bareText floats v).getD ""

/-- What a flat cell can be: missing, a string, or another scalar. -/
inductive FlatCell (floats : Floats) : Option Json → Prop
  | missing : FlatCell floats none
  | string (s : String) : FlatCell floats (some (.str s))
  | bare {v : Json} {x : String} (hv : Readable floats v) (hx : bareText floats v = some x) :
      FlatCell floats (some v)

theorem cellText_bare {v : Json} {x : String} (h : bareText floats v = some x) :
    cellText floats (some v) = x := by
  cases v with
  | str s => cases h
  | _ => rw [cellText, h, Option.getD_some]; all_goals (intro s hs; cases hs)

theorem alikeCell_str_bare {v : Json} {s x : String} (hv : Readable floats v)
    (hx : bareText floats v = some x) : strCell s = x ↔ Spells floats v s := by
  rw [strCell_eq_iff (bare_bareText hv hx)]
  constructor
  · rintro ⟨rfl, hnull⟩
    refine ⟨?_, hx⟩
    rintro rfl
    exact hnull (Option.some.inj hx).symm
  · rintro ⟨hne, hs⟩
    obtain rfl := Option.some.inj (hs.symm.trans hx)
    exact ⟨rfl, bareText_ne_null hv hx hne⟩

theorem cellText_ne_empty {v : Json} (h : FlatCell floats (some v)) :
    cellText floats (some v) ≠ "" := by
  cases h with
  | string s => exact strCell_ne_empty s
  | bare hv hx =>
    rw [cellText_bare hx]
    exact (bare_bareText hv hx).ne_empty

theorem not_spells_str {s t : String} : ¬ Spells floats (.str t) s := by
  rintro ⟨-, h⟩
  cases h

/-- Two cells have one text when they are the same or a string spells the other. -/
theorem cellText_eq_iff {a b : Option Json} (ha : FlatCell floats a) (hb : FlatCell floats b) :
    cellText floats a = cellText floats b ↔ AlikeCell floats a b := by
  constructor
  · intro h
    cases ha with
    | missing =>
      cases b with
      | none => exact .same none
      | some w => exact absurd h.symm (cellText_ne_empty hb)
    | string s =>
      cases hb with
      | missing => exact absurd h (strCell_ne_empty s)
      | string s' =>
        rw [strCell_injective h]
        exact .same _
      | bare hw hy =>
        rw [cellText_bare hy] at h
        exact .spelled ((alikeCell_str_bare hw hy).mp h)
    | bare hv hx =>
      rw [cellText_bare hx] at h
      cases hb with
      | missing => exact absurd h (bare_bareText hv hx).ne_empty
      | string s' => exact .spelling ((alikeCell_str_bare hv hx).mp h.symm)
      | bare hw hy =>
        rw [cellText_bare hy] at h
        subst h
        rw [Option.some.inj ((readBare_bareText hv hx).symm.trans (readBare_bareText hw hy))]
        exact .same _
  · intro h
    cases h with
    | same cell => rfl
    | spelled hspells =>
      cases hb with
      | string s' => exact absurd hspells not_spells_str
      | bare hw hy =>
        rw [cellText_bare hy]
        exact (alikeCell_str_bare hw hy).mpr hspells
    | spelling hspells =>
      cases ha with
      | string s' => exact absurd hspells not_spells_str
      | bare hv hx =>
        rw [cellText_bare hx]
        exact ((alikeCell_str_bare hv hx).mpr hspells).symm

end

/-! ## 4. Tables -/

theorem notMem_of_toonSafe {text : String} (h : toonSafe text = true) :
    '|' ∉ text.toList ∧ '\n' ∉ text.toList := by
  have hall := List.all_eq_true.mp h
  constructor
  · intro hbar
    exact absurd (hall _ hbar) (by decide)
  · intro hbreak
    exact absurd (hall _ hbreak) (by decide)

theorem notMem_joinWith {sep c : Char} (hne : c ≠ sep) {texts : List String}
    (h : ∀ text ∈ texts, c ∉ text.toList) : c ∉ joinWith sep texts := by
  intro hmem
  rcases Joined.mem_of_mem_intercalate hmem with hsep | ⟨l, hl, hc⟩
  · exact hne hsep
  · obtain ⟨text, htext, rfl⟩ := List.mem_map.mp hl
    exact h text htext hc

theorem map_injective_of_mem {α β : Type} {f : α → β} {xs ys : List α}
    (hf : ∀ x ∈ xs, ∀ y ∈ ys, f x = f y → x = y) (h : xs.map f = ys.map f) : xs = ys := by
  induction xs generalizing ys with
  | nil => exact (List.map_eq_nil_iff.mp h.symm).symm
  | cons x xs ih =>
    cases ys with
    | nil => cases h
    | cons y ys =>
      obtain ⟨hhead, htail⟩ := List.cons.inj h
      have hrest := ih (fun x' hx' y' hy' =>
        hf x' (List.mem_cons_of_mem x hx') y' (List.mem_cons_of_mem y hy')) htail
      rw [hf x List.mem_cons_self y List.mem_cons_self hhead, hrest]

theorem unbarred_of_safe {texts : List String} (h : ∀ text ∈ texts, toonSafe text = true) :
    ∀ l ∈ texts.map String.toList, '|' ∉ l := by
  intro l hl
  obtain ⟨text, htext, rfl⟩ := List.mem_map.mp hl
  exact (notMem_of_toonSafe (h text htext)).1

theorem eq_of_joined {texts texts' : List String} (hne : texts ≠ []) (hne' : texts' ≠ [])
    (h : ∀ text ∈ texts, toonSafe text = true) (h' : ∀ text ∈ texts', toonSafe text = true)
    (hjoin : joinWith '|' texts = joinWith '|' texts') : texts = texts' := by
  have hlists := Joined.intercalate_injective (by simpa using hne) (by simpa using hne')
    (unbarred_of_safe h) (unbarred_of_safe h') hjoin
  exact List.map_injective_iff.mpr (fun _ _ => String.toList_inj.mp) hlists

/-- As many texts without bars are read back from the line they are joined to. -/
theorem joinWith_injective {row row' : List String} (hlength : row.length = row'.length)
    (h : ∀ c ∈ row, toonSafe c = true) (h' : ∀ c ∈ row', toonSafe c = true)
    (hjoin : joinWith '|' row = joinWith '|' row') : row = row' := by
  by_cases hrow : row = []
  · subst hrow
    exact (List.length_eq_zero_iff.mp hlength.symm).symm
  · have hrow' : row' ≠ [] := by
      rintro rfl
      exact hrow (List.length_eq_zero_iff.mp hlength)
    exact eq_of_joined hrow hrow' h h' hjoin

/-- What the encoder lays out: a row for each object and a cell for each column, of which some is
not empty, with no delimiter and no line break. -/
structure Laid (keys : List String) (cells : List (List String)) : Prop where
  keys_safe : ∀ k ∈ keys, toonSafe k = true
  cells_safe : ∀ row ∈ cells, ∀ c ∈ row, toonSafe c = true
  rows : cells ≠ []
  width : ∀ row ∈ cells, row.length = keys.length
  used : keys ≠ [] → ∃ row ∈ cells, ∃ c ∈ row, c ≠ ""

/-- The lines of a table that is laid out have no line break. -/
theorem Laid.unbroken {keys : List String} {cells : List (List String)} (h : Laid keys cells) :
    ∀ l ∈ cells.map (joinWith '|'), '\n' ∉ l := by
  intro l hl
  obtain ⟨row, hrow, rfl⟩ := List.mem_map.mp hl
  apply notMem_joinWith (by decide)
  intro c hc
  exact (notMem_of_toonSafe (h.cells_safe row hrow c hc)).2

/-- A table with an empty header and empty lines has no columns. -/
theorem Laid.no_columns {keys : List String} {cells : List (List String)} (h : Laid keys cells)
    (hheader : joinWith '|' keys = []) (hlines : ∀ row ∈ cells, joinWith '|' row = []) :
    keys = [] := by
  by_contra hkeys
  obtain ⟨row, hrow, c, hc, hne⟩ := h.used hkeys
  have hone : keys.length = 1 := by
    rcases Joined.eq_of_intercalate_eq_nil hheader with hnil | hblank
    · exact absurd (List.map_eq_nil_iff.mp hnil) hkeys
    · rw [← List.length_map (f := String.toList), hblank]
      rfl
  obtain ⟨c', rfl⟩ := List.length_eq_one_iff.mp ((h.width row hrow).trans hone)
  obtain rfl := List.mem_singleton.mp hc
  have hline := hlines _ hrow
  rw [joinWith, List.map_singleton, List.intercalate_singleton] at hline
  exact hne (String.toList_inj.mp hline)

theorem Laid.keys_nil {keys₁ keys₂ : List String} {cells₁ cells₂ : List (List String)}
    (h₁ : Laid keys₁ cells₁) (h₂ : Laid keys₂ cells₂)
    (hheader : joinWith '|' keys₁ = joinWith '|' keys₂)
    (hlines : cells₁.map (joinWith '|') = cells₂.map (joinWith '|')) (hkeys : keys₁ = []) :
    keys₂ = [] := by
  subst hkeys
  apply h₂.no_columns hheader.symm
  intro row hrow
  have hmem : joinWith '|' row ∈ cells₁.map (joinWith '|') := by
    rw [hlines]
    exact List.mem_map_of_mem hrow
  obtain ⟨row₁, hrow₁, hjoin⟩ := List.mem_map.mp hmem
  rw [← hjoin, List.length_eq_zero_iff.mp (h₁.width row₁ hrow₁)]
  rfl

/-- **The text of a table determines its columns and its cells.** -/
theorem tableText_injective {keys₁ keys₂ : List String} {cells₁ cells₂ : List (List String)}
    (h₁ : Laid keys₁ cells₁) (h₂ : Laid keys₂ cells₂)
    (h : tableText keys₁ cells₁ = tableText keys₂ cells₂) : keys₁ = keys₂ ∧ cells₁ = cells₂ := by
  have hlists := List.append_cancel_left (String.ofList_inj.mp h)
  obtain ⟨hheader, hbody⟩ := TextReplace.append_cons_inj_of_notMem_left
    (notMem_joinWith (by decide) fun k hk => (notMem_of_toonSafe (h₁.keys_safe k hk)).2)
    (notMem_joinWith (by decide) fun k hk => (notMem_of_toonSafe (h₂.keys_safe k hk)).2) hlists
  have hlines : cells₁.map (joinWith '|') = cells₂.map (joinWith '|') :=
    Joined.intercalate_injective (by simpa using h₁.rows) (by simpa using h₂.rows) h₁.unbroken
      h₂.unbroken hbody
  have hkeys : keys₁ = keys₂ := by
    by_cases hnil : keys₁ = []
    · rw [hnil, h₁.keys_nil h₂ hheader hlines hnil]
    · have hnil₂ : keys₂ ≠ [] := fun h => hnil (h₂.keys_nil h₁ hheader.symm hlines.symm h)
      exact eq_of_joined hnil hnil₂ h₁.keys_safe h₂.keys_safe hheader
  refine ⟨hkeys, map_injective_of_mem ?_ hlines⟩
  intro row hrow row' hrow' hjoin
  apply joinWith_injective _ (h₁.cells_safe row hrow) (h₂.cells_safe row' hrow') hjoin
  rw [h₁.width row hrow, h₂.width row' hrow', hkeys]

/-! ## 5. What is accepted -/

section

variable {py : Interpreter} {cfg : ToonConfig} {text toon : String} {rows : List Row}

theorem mem_foldl_addKey {k : String} (ks keys : List String) :
    k ∈ ks.foldl addKey keys ↔ k ∈ keys ∨ k ∈ ks := by
  induction ks generalizing keys with
  | nil => simp
  | cons l ks ih =>
    rw [List.foldl_cons, ih, addKey, List.mem_cons]
    split
    · rename_i hmem
      constructor
      · rintro (hk | hk)
        · exact Or.inl hk
        · exact Or.inr (Or.inr hk)
      · rintro (hk | rfl | hk)
        · exact Or.inl hk
        · exact Or.inl hmem
        · exact Or.inr hk
    · rw [List.mem_append, List.mem_singleton, or_assoc]

/-- The columns are the keys of the rows. -/
theorem mem_columns_iff {k : String} :
    k ∈ columns rows ↔ ∃ row ∈ rows, (Assoc.lookup k row).isSome = true := by
  rw [columns, mem_foldl_addKey, List.mem_flatMap]
  simp only [List.not_mem_nil, false_or, Assoc.isSome_lookup_iff]

theorem mapM_fields (rows : List Row) : (rows.map Json.obj).mapM Json.fields? = some rows := by
  induction rows with
  | nil => rfl
  | cons row rows ih =>
    rw [List.map_cons, List.mapM_cons, ih]
    rfl

/-- What an encoder that gives a table has checked. -/
theorem encodeTable_eq_some (h : encodeTable py cfg text rows = some (some toon)) :
    rows ≠ [] ∧ ∃ cells,
      rows.mapM (fun row => (columns rows).mapM (cellOf py row)) = some cells ∧
      (∀ k ∈ columns rows, toonSafe k = true) ∧
      (∀ row ∈ cells, ∀ c ∈ row, toonSafe c = true) ∧ toon = tableText (columns rows) cells := by
  unfold encodeTable at h
  split at h
  · cases h
  · rename_i hrows
    refine ⟨fun hnil => hrows (by rw [hnil]; rfl), ?_⟩
    split at h
    · cases h
    · split at h
      · cases h
      · obtain ⟨cells, hcells, h⟩ := Option.bind_eq_some_iff.mp h
        split at h
        · cases h
        · rename_i hsafe
          simp only [Bool.or_eq_true, Bool.not_eq_true', not_or, Bool.not_eq_false,
            List.all_eq_true] at hsafe
          refine ⟨cells, hcells, hsafe.1, hsafe.2, ?_⟩
          dsimp only at h
          split at h
          · obtain ⟨after, -, h⟩ := Option.bind_eq_some_iff.mp h
            obtain ⟨before, -, h⟩ := Option.bind_eq_some_iff.mp h
            split at h
            · cases h
            · exact (Option.some.inj (Option.some.inj h)).symm
          · exact (Option.some.inj (Option.some.inj h)).symm

theorem Accepts.table (h : Accepts py cfg text rows toon) :
    encodeTable py cfg text rows = some (some toon) := by
  have hencoded := h.encoded
  unfold encodeBlock at hencoded
  rcases py.json.loads_eq h.read with hnone | hsome
  · rw [hnone] at hencoded
    cases hencoded
  · rw [hsome] at hencoded
    dsimp only at hencoded
    split at hencoded
    · cases hencoded
    · rw [mapM_fields] at hencoded
      exact hencoded

/-! ### The cells of flat rows -/

theorem readable_of_lookup {floats : Floats} {k : String} {v : Json} :
    ∀ {row : Row}, JsonText.ReadableFields floats row → Assoc.lookup k row = some v →
      Readable floats v
  | [], _, h => by cases h
  | (l, w) :: row, hrow, h => by
    rw [Assoc.lookup_cons] at h
    split at h
    · cases h
      exact hrow.1
    · exact readable_of_lookup hrow.2 h

theorem readable_of_mem {floats : Floats} {row : Row} :
    ∀ {rows : List Row}, JsonText.ReadableItems floats (rows.map .obj) → row ∈ rows →
      JsonText.ReadableFields floats row
  | [], _, h => by cases h
  | first :: rows, hrows, h => by
    rcases List.mem_cons.mp h with rfl | hlater
    · exact hrows.1.2
    · exact readable_of_mem hrows.2 hlater

theorem flatCell_of_value {floats : Floats} {v : Json} (hflat : isNested v = false)
    (hv : Readable floats v) : FlatCell floats (some v) := by
  cases v with
  | str s => exact .string s
  | arr items => cases hflat
  | obj fields => cases hflat
  | _ => exact .bare hv rfl

theorem Accepts.flatCell (h : Accepts py cfg text rows toon) {row : Row} (hrow : row ∈ rows)
    (k : String) : FlatCell py.json.floats (Assoc.lookup k row) := by
  cases hcell : Assoc.lookup k row with
  | none => exact .missing
  | some v =>
    have hreadable : Readable py.json.floats (.arr (rows.map .obj)) :=
      JsonText.readable_of_readValue h.read
    exact flatCell_of_value (h.flat row hrow (k, v) (Assoc.mem_of_lookup hcell))
      (readable_of_lookup (readable_of_mem hreadable hrow) hcell)

theorem cellOf_flat {row : Row} {k : String}
    (h : FlatCell py.json.floats (Assoc.lookup k row)) :
    cellOf py row k = some (cellText py.json.floats (Assoc.lookup k row)) := by
  unfold cellOf
  generalize Assoc.lookup k row = cell at h
  cases h with
  | missing => rfl
  | string s => rfl
  | @bare v x hv hx =>
    rw [cellText_bare hx]
    cases v with
    | str s => cases hx
    | arr items => cases hx
    | obj fields => cases hx
    | _ => exact hx

/-- The cells that the rows are laid out in. -/
def cellsOf (floats : Floats) (keys : List String) (rows : List Row) : List (List String) :=
  rows.map fun row => keys.map fun k => cellText floats (Assoc.lookup k row)

theorem Accepts.laid (h : Accepts py cfg text rows toon) :
    Laid (columns rows) (cellsOf py.json.floats (columns rows) rows) ∧
      toon = tableText (columns rows) (cellsOf py.json.floats (columns rows) rows) := by
  obtain ⟨hrows, cells, hcells, hkeys, hsafe, htoon⟩ := encodeTable_eq_some h.table
  have heq : rows.mapM (fun row => (columns rows).mapM (cellOf py row)) =
      some (cellsOf py.json.floats (columns rows) rows) := by
    apply Pointwise.mapM_eq_map
    intro row hrow
    apply Pointwise.mapM_eq_map
    intro k _
    exact cellOf_flat (h.flatCell hrow k)
  obtain rfl := Option.some.inj (hcells.symm.trans heq)
  refine ⟨⟨hkeys, hsafe, ?_, ?_, ?_⟩, htoon⟩
  · simpa [cellsOf] using hrows
  · intro line hline
    obtain ⟨row, -, rfl⟩ := List.mem_map.mp hline
    exact List.length_map ..
  · intro hne
    obtain ⟨k, hk⟩ := List.exists_mem_of_ne_nil _ hne
    obtain ⟨row, hrow, hsome⟩ := mem_columns_iff.mp hk
    obtain ⟨v, hv⟩ := Option.isSome_iff_exists.mp hsome
    have hcell := h.flatCell hrow k
    rw [hv] at hcell
    refine ⟨_, List.mem_map_of_mem hrow, _, List.mem_map_of_mem hk, ?_⟩
    rw [hv]
    exact cellText_ne_empty hcell

end

/-! ## 6. The result -/

theorem forall₂_congr_of_mem {α β : Type} {R S : α → β → Prop} {xs : List α} {ys : List β}
    (h : ∀ x ∈ xs, ∀ y ∈ ys, (R x y ↔ S x y)) :
    List.Forall₂ R xs ys ↔ List.Forall₂ S xs ys := by
  induction xs generalizing ys with
  | nil => cases ys <;> simp
  | cons x xs ih =>
    cases ys with
    | nil => simp
    | cons y ys =>
      rw [List.forall₂_cons, List.forall₂_cons, h x List.mem_cons_self y List.mem_cons_self,
        ih fun x' hx' y' hy' => h x' (List.mem_cons_of_mem x hx') y' (List.mem_cons_of_mem y hy')]

section

variable {py : Interpreter} {cfg₁ cfg₂ : ToonConfig} {text₁ text₂ toon₁ toon₂ : String}
  {rows₁ rows₂ : List Row}

/-- Two accepted tables have one text when their columns are the same and their cells alike. -/
theorem toon_eq_iff (h₁ : Accepts py cfg₁ text₁ rows₁ toon₁)
    (h₂ : Accepts py cfg₂ text₂ rows₂ toon₂) :
    toon₁ = toon₂ ↔ columns rows₁ = columns rows₂ ∧
      List.Forall₂ (fun a b => ∀ k,
        AlikeCell py.json.floats (Assoc.lookup k a) (Assoc.lookup k b)) rows₁ rows₂ := by
  obtain ⟨hlaid₁, htoon₁⟩ := h₁.laid
  obtain ⟨hlaid₂, htoon₂⟩ := h₂.laid
  -- once the columns are the same, the cells are compared column by column
  have hcells : columns rows₁ = columns rows₂ →
      (cellsOf py.json.floats (columns rows₁) rows₁ =
          cellsOf py.json.floats (columns rows₁) rows₂ ↔
        List.Forall₂ (fun a b => ∀ k,
          AlikeCell py.json.floats (Assoc.lookup k a) (Assoc.lookup k b)) rows₁ rows₂) := by
    intro hkeys
    rw [cellsOf, cellsOf, ← List.forall₂_eq_eq_eq, List.forall₂_map_left_iff,
      List.forall₂_map_right_iff]
    apply forall₂_congr_of_mem
    intro a ha b hb
    rw [List.map_inj_left]
    constructor
    · intro hline k
      by_cases hk : k ∈ columns rows₁
      · exact (cellText_eq_iff (h₁.flatCell ha k) (h₂.flatCell hb k)).mp (hline k hk)
      · have hnone₁ : Assoc.lookup k a = none := by
          by_contra hsome
          exact hk (mem_columns_iff.mpr ⟨a, ha, Option.isSome_iff_ne_none.mpr hsome⟩)
        have hnone₂ : Assoc.lookup k b = none := by
          by_contra hsome
          rw [hkeys] at hk
          exact hk (mem_columns_iff.mpr ⟨b, hb, Option.isSome_iff_ne_none.mpr hsome⟩)
        rw [hnone₁, hnone₂]
        exact .same none
    · intro halike k _
      exact (cellText_eq_iff (h₁.flatCell ha k) (h₂.flatCell hb k)).mpr (halike k)
  constructor
  · intro h
    rw [htoon₁, htoon₂] at h
    obtain ⟨hkeys, heq⟩ := tableText_injective hlaid₁ hlaid₂ h
    rw [← hkeys] at heq
    exact ⟨hkeys, (hcells hkeys).mp heq⟩
  · rintro ⟨hkeys, halike⟩
    rw [htoon₁, htoon₂, ← hkeys, (hcells hkeys).mpr halike]

/-- **Different tables have different texts**, unless they differ only in strings that spell the
number or the boolean of the other table. -/
theorem toon_determines_iff (h₁ : Accepts py cfg₁ text₁ rows₁ toon₁)
    (h₂ : Accepts py cfg₂ text₂ rows₂ toon₂) :
    (¬ List.Forall₂ SameRow rows₁ rows₂ → toon₁ ≠ toon₂) ↔
      ¬ Confusable py.json.floats rows₁ rows₂ := by
  have htexts := toon_eq_iff h₁ h₂
  constructor
  · rintro h ⟨hkeys, halike, hdiffer⟩
    exact h hdiffer (htexts.mpr ⟨hkeys, halike⟩)
  · intro h hdiffer htoon
    obtain ⟨hkeys, halike⟩ := htexts.mp htoon
    exact h ⟨hkeys, halike, hdiffer⟩

end

/-! ### Numbers, and the same numbers as strings -/

section

/-- Four characters for a token. -/
def plainInterpreter : Interpreter where
  json := PyJson.unlimited .unread
  dumpsNested := fun _ => none
  estimateTokens := fun text => some ((text.length + 3) / 4)

def quantities (a b : Json) : List Row := [[("qty", a)], [("qty", b)]]

theorem flat_quantities {a b : Json} (ha : isNested a = false) (hb : isNested b = false) :
    ∀ row ∈ quantities a b, ∀ e ∈ row, isNested e.2 = false := by
  intro row hrow e he
  simp only [quantities, List.mem_cons, List.not_mem_nil, or_false] at hrow
  rcases hrow with rfl | rfl
  · rw [List.mem_singleton.mp he]
    exact ha
  · rw [List.mem_singleton.mp he]
    exact hb

/-- The tree of two rows with a quantity. -/
def quantityTree (t t' : JsonText.Tree) : JsonText.Tree :=
  .arr [.obj [(unitsOf "qty", t)], .obj [(unitsOf "qty", t')]]

theorem accepts_quantities {text toon : String} (t t' : JsonText.Tree) {a b : Json}
    (hparse : JsonText.parse text.toList = some (quantityTree t t'))
    (hvalue : JsonText.valueOf .unread (quantityTree t t') =
      some (.arr ((quantities a b).map .obj)))
    (ha : isNested a = false) (hb : isNested b = false)
    (htable : encodeTable plainInterpreter {} text (quantities a b) = some (some toon)) :
    Accepts plainInterpreter {} text (quantities a b) toon := by
  have hread : readValue .unread text = some (.arr ((quantities a b).map .obj)) := by
    rw [readValue, hparse, Option.bind_some, hvalue]
  refine ⟨hread, flat_quantities ha hb, ?_⟩
  have hloads : plainInterpreter.json.loads text =
      some (.arr ((quantities a b).map .obj)) := hread
  have hlength : ¬ (((quantities a b).map Json.obj).length : Int) < (2 : Int) :=
    Int.not_lt.mpr (Int.le_refl 2)
  unfold encodeBlock
  rw [hloads]
  dsimp only
  rw [if_neg hlength, mapM_fields]
  exact htable

theorem accepts_one_two : Accepts plainInterpreter {}
    "[\x7b\"qty\":1\x7d,\x7b\"qty\":2\x7d]" (quantities (.int 1) (.int 2))
    "schema:qty\n1\n2" :=
  accepts_quantities (.num ['1']) (.num ['2']) rfl (by decide +kernel) rfl rfl
    (by decide +kernel)

theorem accepts_one_three : Accepts plainInterpreter {}
    "[\x7b\"qty\":1\x7d,\x7b\"qty\":3\x7d]" (quantities (.int 1) (.int 3))
    "schema:qty\n1\n3" :=
  accepts_quantities (.num ['1']) (.num ['3']) rfl (by decide +kernel) rfl rfl
    (by decide +kernel)

theorem accepts_spelled : Accepts plainInterpreter {}
    "[\x7b\"qty\":\"1\"\x7d,\x7b\"qty\":2\x7d]" (quantities (.str "1") (.int 2))
    "schema:qty\n1\n2" :=
  accepts_quantities (.str [49]) (.num ['2']) rfl (by decide +kernel) rfl rfl
    (by decide +kernel)

theorem toon_determines_quantities :
    ¬ List.Forall₂ SameRow (quantities (.int 1) (.int 2)) (quantities (.int 1) (.int 3)) ∧
      "schema:qty\n1\n2" ≠ "schema:qty\n1\n3" := by
  have hdiffer : ¬ List.Forall₂ SameRow (quantities (.int 1) (.int 2))
      (quantities (.int 1) (.int 3)) := by
    intro h
    obtain ⟨-, hrest⟩ := List.forall₂_cons.mp h
    have hcell := (List.forall₂_cons.mp hrest).1 "qty"
    cases hcell
  refine ⟨hdiffer, (toon_determines_iff accepts_one_two accepts_one_three).mpr ?_ hdiffer⟩
  rintro ⟨-, halike, -⟩
  obtain ⟨-, hrest⟩ := List.forall₂_cons.mp halike
  have hcell := (List.forall₂_cons.mp hrest).1 "qty"
  cases hcell

/-- One text for a number and for the string that spells it. -/
theorem toon_not_determines :
    Accepts plainInterpreter {} "[\x7b\"qty\":1\x7d,\x7b\"qty\":2\x7d]"
        (quantities (.int 1) (.int 2)) "schema:qty\n1\n2" ∧
      Accepts plainInterpreter {} "[\x7b\"qty\":\"1\"\x7d,\x7b\"qty\":2\x7d]"
        (quantities (.str "1") (.int 2)) "schema:qty\n1\n2" ∧
      ¬ List.Forall₂ SameRow (quantities (.int 1) (.int 2)) (quantities (.str "1") (.int 2)) := by
  refine ⟨accepts_one_two, accepts_spelled, ?_⟩
  intro h
  have hcell := (List.forall₂_cons.mp h).1 "qty"
  cases hcell

end

end TokenProxy.Toon
