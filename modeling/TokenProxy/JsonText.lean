/-
  TokenProxy/JsonText.lean
  ========================
  **JSON texts: a scanner, a parser, and what both make of a written tree.**

  The scanner goes over a text one character at a time: `lexStep` says where it stands after a
  character and which tokens the character completes.  The parser goes over the tokens in the
  same way, with the open containers on a stack.  Both are total on their states, so what a
  text is depends on a prefix of it only through the state that the prefix leads to.

  A string is kept as its UTF-16 code units and a number as it is spelled; what values they
  stand for is left to the reader of the tree.

  Main result: `parse_write`, a tree whose tokens are written so that each reads back is what
  the written text parses to.
-/
import Mathlib.Data.List.Basic
import Mathlib.Data.Option.Basic

namespace TokenProxy.JsonText

/-! ## 1. Tokens -/

inductive Token where
  | lbrace
  | rbrace
  | lbrack
  | rbrack
  | comma
  | colon
  | null
  | bool (b : Bool)
  | num (lexeme : List Char)
  | str (units : List Nat)
deriving DecidableEq

/-- Where the scanner stands in a number: after a minus, after a leading zero, in the integer,
    after the point, in the fraction, after the `e`, after its sign, in the exponent. -/
inductive NumState where
  | minus
  | zero
  | int
  | point
  | frac
  | e
  | sign
  | exp
deriving DecidableEq

/-- A number may end here. -/
def NumState.complete : NumState → Bool
  | zero => true
  | int => true
  | frac => true
  | exp => true
  | _ => false

def NumState.step (s : NumState) (c : Char) : Option NumState :=
  match s with
  | minus => if c = '0' then some zero else if c.isDigit then some int else none
  | zero => if c = '.' then some point else if c = 'e' || c = 'E' then some e else none
  | int =>
    if c.isDigit then some int else if c = '.' then some point
    else if c = 'e' || c = 'E' then some e else none
  | point => if c.isDigit then some frac else none
  | frac => if c.isDigit then some frac else if c = 'e' || c = 'E' then some e else none
  | e => if c = '+' || c = '-' then some sign else if c.isDigit then some exp else none
  | sign => if c.isDigit then some exp else none
  | exp => if c.isDigit then some exp else none

/-- The UTF-16 code units of a character. -/
def utf16 (c : Char) : List Nat :=
  if c.toNat < 0x10000 then [c.toNat]
  else [0xD800 + (c.toNat - 0x10000) / 0x400, 0xDC00 + (c.toNat - 0x10000) % 0x400]

/-- What a character after a backslash stands for. -/
def simpleEscape (c : Char) : Option Nat :=
  if c = '"' then some 34 else if c = '\\' then some 92 else if c = '/' then some 47
  else if c = 'b' then some 8 else if c = 'f' then some 12 else if c = 'n' then some 10
  else if c = 'r' then some 13 else if c = 't' then some 9 else none

def hexValue (c : Char) : Option Nat :=
  if '0' ≤ c ∧ c ≤ '9' then some (c.toNat - 48)
  else if 'a' ≤ c ∧ c ≤ 'f' then some (c.toNat - 87)
  else if 'A' ≤ c ∧ c ≤ 'F' then some (c.toNat - 55)
  else none

/-! ## 2. The scanner -/

inductive Lex where
  /-- between tokens -/
  | out
  /-- in a string, after these units -/
  | str (units : List Nat)
  /-- after a backslash -/
  | esc (units : List Nat)
  /-- after `\u` and these digits, fewer than four -/
  | hex (units digits : List Nat)
  | num (lexeme : List Char) (s : NumState)
  /-- in the name of a literal, with this much of it to come -/
  | word (next : Char) (rest : List Char) (token : Token)
deriving DecidableEq

/-- A character between tokens. -/
def lexOut (c : Char) : Option (Lex × List Token) :=
  if c = ' ' || c = '\t' || c = '\n' || c = '\r' then some (.out, [])
  else if c = '{' then some (.out, [.lbrace])
  else if c = '}' then some (.out, [.rbrace])
  else if c = '[' then some (.out, [.lbrack])
  else if c = ']' then some (.out, [.rbrack])
  else if c = ',' then some (.out, [.comma])
  else if c = ':' then some (.out, [.colon])
  else if c = '"' then some (.str [], [])
  else if c = '-' then some (.num ['-'] .minus, [])
  else if c = '0' then some (.num ['0'] .zero, [])
  else if c.isDigit then some (.num [c] .int, [])
  else if c = 'n' then some (.word 'u' ['l', 'l'] .null, [])
  else if c = 't' then some (.word 'r' ['u', 'e'] (.bool true), [])
  else if c = 'f' then some (.word 'a' ['l', 's', 'e'] (.bool false), [])
  else none

def lexStep : Lex → Char → Option (Lex × List Token)
  | .out, c => lexOut c
  | .str units, c =>
    if c = '"' then some (.out, [.str units])
    else if c = '\\' then some (.esc units, [])
    else if c.toNat < 32 then none
    else some (.str (units ++ utf16 c), [])
  | .esc units, c =>
    match simpleEscape c with
    | some u => some (.str (units ++ [u]), [])
    | none => if c = 'u' then some (.hex units [], []) else none
  | .hex units digits, c =>
    (hexValue c).map fun d =>
      if digits.length = 3 then
        (.str (units ++ [(digits ++ [d]).foldl (fun n d => 16 * n + d) 0]), [])
      else (.hex units (digits ++ [d]), [])
  | .num lexeme s, c =>
    match s.step c with
    | some s' => some (.num (lexeme ++ [c]) s', [])
    | none =>
      if s.complete then (lexOut c).map fun r => (r.1, .num lexeme :: r.2) else none
  | .word next rest token, c =>
    if c = next then
      match rest with
      | [] => some (.out, [token])
      | next' :: rest' => some (.word next' rest' token, [])
    else none

/-- The tokens that the end of the text completes. -/
def Lex.finish : Lex → Option (List Token)
  | .out => some []
  | .num lexeme s => if s.complete then some [.num lexeme] else none
  | _ => none

def scan : Lex → List Char → Option (Lex × List Token)
  | s, [] => some (s, [])
  | s, c :: cs => do
    let (s', now) ← lexStep s c
    let (s'', later) ← scan s' cs
    some (s'', now ++ later)

def tokens (text : List Char) : Option (List Token) := do
  let (s, before) ← scan .out text
  let last ← s.finish
  some (before ++ last)

theorem scan_nil (s : Lex) : scan s [] = some (s, []) := rfl

theorem scan_cons (s : Lex) (c : Char) (cs : List Char) :
    scan s (c :: cs) = (lexStep s c).bind fun r =>
      (scan r.1 cs).map fun r' => (r'.1, r.2 ++ r'.2) := by
  rw [scan]
  cases lexStep s c with
  | none => rfl
  | some r =>
    cases hscan : scan r.1 cs with
    | none => simp [hscan]
    | some r' => simp [hscan]

theorem scan_append (s : Lex) (xs ys : List Char) :
    scan s (xs ++ ys) = (scan s xs).bind fun r =>
      (scan r.1 ys).map fun r' => (r'.1, r.2 ++ r'.2) := by
  induction xs generalizing s with
  | nil => simp [scan_nil]
  | cons c cs ih =>
    rw [List.cons_append, scan_cons, scan_cons]
    cases lexStep s c with
    | none => rfl
    | some r =>
      simp only [Option.bind_some, ih]
      cases scan r.1 cs with
      | none => rfl
      | some r' =>
        simp only [Option.bind_some, Option.map_some]
        cases scan r'.1 ys with
        | none => rfl
        | some r'' => simp [List.append_assoc]

theorem scan_append_of {s s' : Lex} {xs : List Char} {ts : List Token}
    (h : scan s xs = some (s', ts)) (ys : List Char) :
    scan s (xs ++ ys) = (scan s' ys).map fun r => (r.1, ts ++ r.2) := by
  rw [scan_append, h]
  rfl

/-! ## 3. Trees and the parser -/

inductive Tree where
  | null
  | bool (b : Bool)
  | num (lexeme : List Char)
  | str (units : List Nat)
  | arr (items : List Tree)
  | obj (fields : List (List Nat × Tree))

/-- A container that the parser is in: the items so far, or the fields so far and a key. -/
inductive Frame where
  | item (items : List Tree)
  | field (fields : List (List Nat × Tree)) (key : List Nat)

inductive Parse where
  | value (stack : List Frame)
  /-- after `[` -/
  | firstItem (stack : List Frame)
  | afterItem (items : List Tree) (stack : List Frame)
  /-- after an opening brace -/
  | firstKey (stack : List Frame)
  /-- after a comma between fields -/
  | key (fields : List (List Nat × Tree)) (stack : List Frame)
  | colon (fields : List (List Nat × Tree)) (key : List Nat) (stack : List Frame)
  | afterField (fields : List (List Nat × Tree)) (stack : List Frame)
  | done (t : Tree)

/-- A value is complete. -/
def give (t : Tree) : List Frame → Parse
  | [] => .done t
  | .item items :: stack => .afterItem (items ++ [t]) stack
  | .field fields key :: stack => .afterField (fields ++ [(key, t)]) stack

def startValue (stack : List Frame) : Token → Option Parse
  | .null => some (give .null stack)
  | .bool b => some (give (.bool b) stack)
  | .num lexeme => some (give (.num lexeme) stack)
  | .str units => some (give (.str units) stack)
  | .lbrack => some (.firstItem stack)
  | .lbrace => some (.firstKey stack)
  | _ => none

def parseStep : Parse → Token → Option Parse
  | .value stack, token => startValue stack token
  | .firstItem stack, .rbrack => some (give (.arr []) stack)
  | .firstItem stack, token => startValue (.item [] :: stack) token
  | .afterItem items stack, .comma => some (.value (.item items :: stack))
  | .afterItem items stack, .rbrack => some (give (.arr items) stack)
  | .firstKey stack, .rbrace => some (give (.obj []) stack)
  | .firstKey stack, .str key => some (.colon [] key stack)
  | .key fields stack, .str key => some (.colon fields key stack)
  | .colon fields key stack, .colon => some (.value (.field fields key :: stack))
  | .afterField fields stack, .comma => some (.key fields stack)
  | .afterField fields stack, .rbrace => some (give (.obj fields) stack)
  | _, _ => none

def Parse.run (p : Parse) (ts : List Token) : Option Parse := ts.foldlM parseStep p

def Parse.tree? : Parse → Option Tree
  | .done t => some t
  | _ => none

/-- The tree of a JSON text. -/
def parse (text : List Char) : Option Tree := do
  let ts ← tokens text
  let p ← Parse.run (.value []) ts
  p.tree?

theorem Parse.run_nil (p : Parse) : p.run [] = some p := rfl

theorem Parse.run_cons (p : Parse) (token : Token) (ts : List Token) :
    p.run (token :: ts) = (parseStep p token).bind fun p' => p'.run ts := by
  simp only [run, List.foldlM_cons, Option.bind_eq_bind]

theorem Parse.run_append (p : Parse) (ts us : List Token) :
    p.run (ts ++ us) = (p.run ts).bind fun p' => p'.run us := by
  simp only [run, List.foldlM_append, Option.bind_eq_bind]

/-! ## 4. The tokens of a tree -/

mutual

def Tree.tokens : Tree → List Token
  | .null => [.null]
  | .bool b => [.bool b]
  | .num lexeme => [.num lexeme]
  | .str units => [.str units]
  | .arr [] => [.lbrack, .rbrack]
  | .arr (t :: ts) => .lbrack :: (t.tokens ++ (itemTokens ts ++ [.rbrack]))
  | .obj [] => [.lbrace, .rbrace]
  | .obj ((key, t) :: fs) =>
    .lbrace :: .str key :: .colon :: (t.tokens ++ (fieldTokens fs ++ [.rbrace]))

def itemTokens : List Tree → List Token
  | [] => []
  | t :: ts => .comma :: (t.tokens ++ itemTokens ts)

def fieldTokens : List (List Nat × Tree) → List Token
  | [] => []
  | (key, t) :: fs => .comma :: .str key :: .colon :: (t.tokens ++ fieldTokens fs)

end

/-- No value starts with a closing bracket. -/
theorem run_firstItem (t : Tree) (stack : List Frame) :
    (Parse.firstItem stack).run t.tokens = (Parse.value (.item [] :: stack)).run t.tokens := by
  have hsame : ∀ token ts, token ≠ .rbrack → (Parse.firstItem stack).run (token :: ts) =
      (Parse.value (.item [] :: stack)).run (token :: ts) := by
    intro token ts h
    rw [Parse.run_cons, Parse.run_cons]
    cases token with
    | rbrack => exact absurd rfl h
    | _ => rfl
  cases t with
  | null => exact hsame _ _ (by decide)
  | bool b => exact hsame _ _ (by simp)
  | num lexeme => exact hsame _ _ (by simp)
  | str units => exact hsame _ _ (by simp)
  | arr items =>
    cases items with
    | nil => exact hsame _ _ (by decide)
    | cons t ts => exact hsame _ _ (by decide)
  | obj fields =>
    cases fields with
    | nil => exact hsame _ _ (by decide)
    | cons f fs => exact hsame _ _ (by decide)

mutual

/-- The parser reads a tree off its tokens. -/
theorem run_tokens : ∀ (t : Tree) (stack : List Frame),
    (Parse.value stack).run t.tokens = some (give t stack)
  | .null, _ => rfl
  | .bool _, _ => rfl
  | .num _, _ => rfl
  | .str _, _ => rfl
  | .arr [], _ => rfl
  | .arr (t :: ts), stack => by
    rw [Tree.tokens, Parse.run_cons]
    change (Parse.firstItem stack).run _ = _
    rw [Parse.run_append, run_firstItem, run_tokens t]
    change (Parse.afterItem [t] stack).run _ = _
    rw [Parse.run_append, run_itemTokens ts]
    rfl
  | .obj [], _ => rfl
  | .obj ((key, t) :: fs), stack => by
    rw [Tree.tokens, Parse.run_cons]
    change (Parse.value (.field [] key :: stack)).run _ = _
    rw [Parse.run_append, run_tokens t]
    change (Parse.afterField [(key, t)] stack).run _ = _
    rw [Parse.run_append, run_fieldTokens fs]
    rfl

theorem run_itemTokens : ∀ (ts items : List Tree) (stack : List Frame),
    (Parse.afterItem items stack).run (itemTokens ts) = some (.afterItem (items ++ ts) stack)
  | [], items, stack => by rw [itemTokens, Parse.run_nil, List.append_nil]
  | t :: ts, items, stack => by
    rw [itemTokens, Parse.run_cons]
    change (Parse.value (.item items :: stack)).run _ = _
    rw [Parse.run_append, run_tokens t]
    change (Parse.afterItem (items ++ [t]) stack).run _ = _
    rw [run_itemTokens ts, List.append_assoc]
    rfl

theorem run_fieldTokens : ∀ (fs fields : List (List Nat × Tree)) (stack : List Frame),
    (Parse.afterField fields stack).run (fieldTokens fs) = some (.afterField (fields ++ fs) stack)
  | [], fields, stack => by rw [fieldTokens, Parse.run_nil, List.append_nil]
  | (key, t) :: fs, fields, stack => by
    rw [fieldTokens, Parse.run_cons]
    change (Parse.value (.field fields key :: stack)).run _ = _
    rw [Parse.run_append, run_tokens t]
    change (Parse.afterField (fields ++ [(key, t)]) stack).run _ = _
    rw [run_fieldTokens fs, List.append_assoc]
    rfl

end

/-! ## 5. Writing -/

section Writing

variable (quote : List Nat → List Char)

def Token.write : Token → List Char
  | lbrace => ['{']
  | rbrace => ['}']
  | lbrack => ['[']
  | rbrack => [']']
  | comma => [',']
  | colon => [':']
  | null => ['n', 'u', 'l', 'l']
  | bool true => ['t', 'r', 'u', 'e']
  | bool false => ['f', 'a', 'l', 's', 'e']
  | num lexeme => lexeme
  | str units => '"' :: (quote units ++ ['"'])

/-- The text of a tree, with no blanks. -/
def Tree.write (t : Tree) : List Char := t.tokens.flatMap (Token.write quote)

/-- A spelling of a number. -/
def IsNumber (lexeme : List Char) : Prop :=
  ∃ s, scan .out lexeme = some (.num lexeme s, []) ∧ s.complete = true

/-- The scanner reads the units back from what is written between the quotes. -/
def Quotes (units : List Nat) : Prop :=
  ∀ acc, scan (.str acc) (quote units) = some (.str (acc ++ units), [])

def Token.ReadsBack : Token → Prop
  | num lexeme => IsNumber lexeme
  | str units => Quotes quote units
  | _ => True

variable {quote}

theorem scan_write {token : Token} (h : token.ReadsBack quote)
    (hnum : ∀ lexeme, token ≠ .num lexeme) :
    scan .out (token.write quote) = some (.out, [token]) := by
  cases token with
  | lbrace => rfl
  | rbrace => rfl
  | lbrack => rfl
  | rbrack => rfl
  | comma => rfl
  | colon => rfl
  | null => rfl
  | bool b =>
    cases b with
    | false => rfl
    | true => rfl
  | num lexeme => exact absurd rfl (hnum lexeme)
  | str units =>
    have hopen : lexStep .out '"' = some (.str [], []) := rfl
    have hclose : ∀ us, scan (.str us) ['"'] = some (.out, [.str us]) := fun us => rfl
    rw [Token.write, scan_cons, hopen, Option.bind_some, scan_append_of (h []), hclose]
    rfl

/-- A token that can follow a value. -/
def Token.follows : Token → Bool
  | comma => true
  | rbrack => true
  | rbrace => true
  | _ => false

theorem follows_of_give {t : Tree} {stack : List Frame} {token : Token} {p : Parse}
    (h : parseStep (give t stack) token = some p) : token.follows = true := by
  cases stack with
  | nil => cases h
  | cons frame stack =>
    cases frame with
    | item items =>
      cases token with
      | comma => rfl
      | rbrack => rfl
      | _ => cases h
    | field fields key =>
      cases token with
      | comma => rfl
      | rbrace => rfl
      | _ => cases h

theorem give_of_num {p p' : Parse} {lexeme : List Char}
    (h : parseStep p (.num lexeme) = some p') : ∃ t stack, p' = give t stack := by
  cases p with
  | value stack =>
    cases h
    exact ⟨_, _, rfl⟩
  | firstItem stack =>
    cases h
    exact ⟨_, _, rfl⟩
  | _ => cases h

/-- The text of tokens that can follow one another scans to these tokens. -/
theorem tokens_write {p q : Parse} {ts : List Token} (hrun : p.run ts = some q)
    (h : ∀ token ∈ ts, token.ReadsBack quote) :
    ∃ s before last, scan .out (ts.flatMap (Token.write quote)) = some (s, before) ∧
      s.finish = some last ∧ before ++ last = ts := by
  induction ts generalizing p with
  | nil => exact ⟨.out, [], [], rfl, rfl, rfl⟩
  | cons token ts ih =>
    rw [Parse.run_cons] at hrun
    obtain ⟨p', hp', hrun⟩ := Option.bind_eq_some_iff.mp hrun
    obtain ⟨s, before, last, hscan, hfinish, hts⟩ := ih hrun fun u hu =>
      h u (List.mem_cons_of_mem _ hu)
    by_cases hnum : ∃ lexeme, token = .num lexeme
    · obtain ⟨lexeme, rfl⟩ := hnum
      obtain ⟨st, hlexeme, hcomplete⟩ : IsNumber lexeme := h _ List.mem_cons_self
      obtain ⟨t, stack, rfl⟩ := give_of_num hp'
      rw [List.flatMap_cons, Token.write, scan_append_of hlexeme]
      cases ts with
      | nil =>
        refine ⟨.num lexeme st, [], [.num lexeme], rfl, ?_, rfl⟩
        rw [Lex.finish, if_pos hcomplete]
      | cons next ts =>
        -- the number ends at the next token's character, which the scanner reads as between tokens
        rw [Parse.run_cons] at hrun
        obtain ⟨p'', hp'', -⟩ := Option.bind_eq_some_iff.mp hrun
        have hnext : ∃ c tail, next.write quote = c :: tail ∧ ∀ s : NumState, s.step c = none := by
          have hfollows := follows_of_give hp''
          cases next with
          | comma => exact ⟨',', [], rfl, fun s => by cases s <;> rfl⟩
          | rbrack => exact ⟨']', [], rfl, fun s => by cases s <;> rfl⟩
          | rbrace => exact ⟨'}', [], rfl, fun s => by cases s <;> rfl⟩
          | _ => cases hfollows
        obtain ⟨c, tail, hwrite, hstop⟩ := hnext
        rw [List.flatMap_cons, hwrite, List.cons_append, scan_cons] at hscan
        rw [List.flatMap_cons, hwrite, List.cons_append, scan_cons]
        have hstep : lexStep (.num lexeme st) c =
            (lexOut c).map fun r => (r.1, .num lexeme :: r.2) := by
          simp only [lexStep, hstop st, hcomplete, if_true]
        rw [hstep]
        change ((lexOut c).bind _) = _ at hscan
        cases hout : lexOut c with
        | none =>
          rw [hout] at hscan
          cases hscan
        | some r =>
          rw [hout, Option.bind_some, Option.map_eq_some_iff] at hscan
          obtain ⟨r', hr', heq⟩ := hscan
          cases heq
          refine ⟨r'.1, .num lexeme :: (r.2 ++ r'.2), last, ?_, hfinish, ?_⟩
          · simp [hr']
          · rw [List.cons_append, hts]
    · have hplain := scan_write (h token List.mem_cons_self) fun lexeme heq => hnum ⟨lexeme, heq⟩
      refine ⟨s, token :: before, last, ?_, hfinish, by rw [List.cons_append, hts]⟩
      rw [List.flatMap_cons, scan_append_of hplain, hscan]
      rfl

/-- **A written tree is read back.** -/
theorem parse_write {t : Tree} (h : ∀ token ∈ t.tokens, token.ReadsBack quote) :
    parse (t.write quote) = some t := by
  have hrun := run_tokens t []
  obtain ⟨s, before, last, hscan, hfinish, hts⟩ := tokens_write hrun h
  have htokens : tokens (t.write quote) = some t.tokens := by
    simp [tokens, Tree.write, hscan, hfinish, hts]
  simp [parse, htokens, hrun, give, Parse.tree?]

end Writing

end TokenProxy.JsonText
