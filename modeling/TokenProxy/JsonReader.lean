/-
  TokenProxy/JsonReader.lean
  ==========================
  **The scanner and the parser in one reader, and texts that read alike.**

  The reader takes one character at a time, so a text can be read up to a place, and another
  text from there on.  The shape of a tree forgets its strings and its numbers but not its
  keys.  Readers of one shape stay of one shape (`read_alike`); a key that is being read ends
  up among the keys of the tree with all that was read of it (`exists_key`).
-/
import TokenProxy.JsonText

namespace TokenProxy.JsonText

/-! ## 1. The reader -/

structure Reader where
  parse : Parse
  lex : Lex

def Reader.start : Reader := ⟨.value [], .out⟩

def Reader.next (r : Reader) (c : Char) : Option Reader :=
  (lexStep r.lex c).bind fun out => (r.parse.run out.2).map fun p => ⟨p, out.1⟩

def Reader.read : Reader → List Char → Option Reader
  | r, [] => some r
  | r, c :: cs => (r.next c).bind fun r' => r'.read cs

/-- The tree, where the text ends here. -/
def Reader.tree? (r : Reader) : Option Tree :=
  r.lex.finish.bind fun last => (r.parse.run last).bind Parse.tree?

theorem Reader.read_nil (r : Reader) : r.read [] = some r := rfl

theorem Reader.read_cons (r : Reader) (c : Char) (cs : List Char) :
    r.read (c :: cs) = (r.next c).bind fun r' => r'.read cs := rfl

theorem Reader.read_append (r : Reader) (xs ys : List Char) :
    r.read (xs ++ ys) = (r.read xs).bind fun r' => r'.read ys := by
  induction xs generalizing r with
  | nil => rfl
  | cons c cs ih =>
    rw [List.cons_append, read_cons, read_cons]
    cases r.next c with
    | none => rfl
    | some r' => exact ih r'

theorem Reader.read_append_of {r r' : Reader} {xs : List Char} (h : r.read xs = some r')
    (ys : List Char) : r.read (xs ++ ys) = r'.read ys := by
  rw [read_append, h]
  rfl

theorem Reader.read_eq (r : Reader) (text : List Char) :
    r.read text = (scan r.lex text).bind fun out =>
      (r.parse.run out.2).map fun p => ⟨p, out.1⟩ := by
  induction text generalizing r with
  | nil => rfl
  | cons c cs ih =>
    rw [read_cons, next, scan_cons]
    cases lexStep r.lex c with
    | none => rfl
    | some out =>
      simp only [Option.bind_some]
      cases hrun : r.parse.run out.2 with
      | none => cases scan out.1 cs <;> simp [Parse.run_append, hrun]
      | some p =>
        simp only [Option.map_some, Option.bind_some, ih]
        cases scan out.1 cs <;> simp [Parse.run_append, hrun]

theorem parse_eq (text : List Char) :
    JsonText.parse text = (Reader.start.read text).bind Reader.tree? := by
  rw [Reader.read_eq]
  change ((scan .out text).bind fun out => out.1.finish.bind fun last =>
    some (out.2 ++ last)).bind (fun ts => (Parse.run (.value []) ts).bind Parse.tree?) =
    ((scan .out text).bind fun out => ((Parse.value []).run out.2).map fun p =>
      (⟨p, out.1⟩ : Reader)).bind Reader.tree?
  cases scan .out text with
  | none => rfl
  | some out =>
    simp only [Option.bind_some]
    cases hfinish : out.1.finish with
    | none => cases (Parse.value []).run out.2 <;> simp [Reader.tree?, hfinish]
    | some last =>
      simp only [Option.bind_some, Parse.run_append]
      cases (Parse.value []).run out.2 <;> simp [Reader.tree?, hfinish]

/-! ## 2. Shapes -/

mutual

/-- The tree without what its strings and numbers say. -/
def Tree.shape : Tree → Tree
  | .null => .null
  | .bool b => .bool b
  | .num _ => .str []
  | .str _ => .str []
  | .arr items => .arr (shapes items)
  | .obj fields => .obj (fieldShapes fields)

def shapes : List Tree → List Tree
  | [] => []
  | t :: ts => t.shape :: shapes ts

def fieldShapes : List (List Nat × Tree) → List (List Nat × Tree)
  | [] => []
  | (key, t) :: fs => (key, t.shape) :: fieldShapes fs

end

theorem shapes_append (ts us : List Tree) : shapes (ts ++ us) = shapes ts ++ shapes us := by
  induction ts with
  | nil => rfl
  | cons t ts ih => rw [List.cons_append, shapes, ih, shapes, List.cons_append]

theorem fieldShapes_append (fs gs : List (List Nat × Tree)) :
    fieldShapes (fs ++ gs) = fieldShapes fs ++ fieldShapes gs := by
  induction fs with
  | nil => rfl
  | cons f fs ih => rw [List.cons_append, fieldShapes, ih, fieldShapes, List.cons_append]

def Frame.shape : Frame → Frame
  | .item items => .item (shapes items)
  | .field fields key => .field (fieldShapes fields) key

def Parse.shape : Parse → Parse
  | .value stack => .value (stack.map Frame.shape)
  | .firstItem stack => .firstItem (stack.map Frame.shape)
  | .afterItem items stack => .afterItem (shapes items) (stack.map Frame.shape)
  | .firstKey stack => .firstKey (stack.map Frame.shape)
  | .key fields stack => .key (fieldShapes fields) (stack.map Frame.shape)
  | .colon fields k stack => .colon (fieldShapes fields) k (stack.map Frame.shape)
  | .afterField fields stack => .afterField (fieldShapes fields) (stack.map Frame.shape)
  | .done t => .done t.shape

/-- The next token, if it is a string, is a key. -/
def Parse.wantsKey : Parse → Bool
  | .firstKey _ => true
  | .key _ _ => true
  | _ => false

/-- The token without what a string or a number says. -/
def Token.bare : Token → Token
  | .num _ => .str []
  | .str _ => .str []
  | token => token

theorem wantsKey_shape (p : Parse) : p.shape.wantsKey = p.wantsKey := by
  cases p <;> rfl

theorem give_shape (t : Tree) (stack : List Frame) :
    (give t stack).shape = give t.shape (stack.map Frame.shape) := by
  cases stack with
  | nil => rfl
  | cons frame stack =>
    cases frame with
    | item items =>
      simp only [give, Parse.shape, List.map_cons, Frame.shape, shapes_append]
      rfl
    | field fields key =>
      simp only [give, Parse.shape, List.map_cons, Frame.shape, fieldShapes_append]
      rfl

theorem startValue_shape (stack : List Frame) (token : Token) :
    (startValue stack token).map Parse.shape =
      startValue (stack.map Frame.shape) token.bare := by
  cases token with
  | lbrace => rfl
  | lbrack => rfl
  | rbrace => rfl
  | rbrack => rfl
  | comma => rfl
  | colon => rfl
  | null => exact congrArg some (give_shape .null stack)
  | bool b => exact congrArg some (give_shape (.bool b) stack)
  | num lexeme => exact congrArg some (give_shape (.num lexeme) stack)
  | str units => exact congrArg some (give_shape (.str units) stack)

theorem parseStep_firstItem {stack : List Frame} {token : Token} (h : token ≠ .rbrack) :
    parseStep (.firstItem stack) token = startValue (.item [] :: stack) token := by
  cases token with
  | rbrack => exact absurd rfl h
  | _ => rfl

/-- The parser reads a value by its shape. -/
theorem parseStep_shape {p : Parse} (h : p.wantsKey = false) (token : Token) :
    (parseStep p token).map Parse.shape = parseStep p.shape token.bare := by
  cases p with
  | value stack => exact startValue_shape stack token
  | firstItem stack =>
    by_cases hend : token = .rbrack
    · rw [hend]
      exact congrArg some (give_shape (.arr []) stack)
    · have hbare : token.bare ≠ .rbrack := by
        cases token with
        | rbrack => exact hend
        | _ => nofun
      rw [parseStep_firstItem hend, startValue_shape, Parse.shape, parseStep_firstItem hbare]
      rfl
  | afterItem items stack =>
    cases token with
    | rbrack => exact congrArg some (give_shape (.arr items) stack)
    | _ => rfl
  | firstKey stack => cases h
  | key fields stack => cases h
  | colon fields key stack => cases token <;> rfl
  | afterField fields stack =>
    cases token with
    | rbrace => exact congrArg some (give_shape (.obj fields) stack)
    | _ => rfl
  | done t => cases token <;> rfl

theorem parseStep_key_shape {p : Parse} (h : p.wantsKey = true) (token : Token) :
    (parseStep p token).map Parse.shape = parseStep p.shape token := by
  cases p with
  | firstKey stack =>
    cases token with
    | rbrace => exact congrArg some (give_shape (.obj []) stack)
    | _ => rfl
  | key fields stack => cases token <;> rfl
  | _ => cases h

/-! ## 3. Texts that read alike -/

/-- Scanners that differ at most in the units of a string. -/
inductive LexAlike : Lex → Lex → Prop
  | same (s : Lex) : LexAlike s s
  | str (units units' : List Nat) : LexAlike (.str units) (.str units')
  | esc (units units' : List Nat) : LexAlike (.esc units) (.esc units')
  | hex (units units' digits : List Nat) : LexAlike (.hex units digits) (.hex units' digits)

theorem LexAlike.of_str {units : List Nat} {s : Lex} (h : LexAlike (.str units) s) :
    ∃ units', s = .str units' := by
  cases h with
  | same => exact ⟨units, rfl⟩
  | str _ units' => exact ⟨units', rfl⟩

/-- Readers of one shape, which agree on a key that they are in. -/
structure Alike (r r' : Reader) : Prop where
  parse : r.parse.shape = r'.parse.shape
  lex : LexAlike r.lex r'.lex
  key : r.parse.wantsKey = true → r.lex = r'.lex

theorem Alike.refl (r : Reader) : Alike r r := ⟨rfl, .same r.lex, fun _ => rfl⟩

theorem wantsKey_congr {p p' : Parse} (h : p.shape = p'.shape) : p.wantsKey = p'.wantsKey := by
  rw [← wantsKey_shape, h, wantsKey_shape]

theorem parseStep_alike {p p' q : Parse} {token token' : Token} (h : p.shape = p'.shape)
    (htoken : token = token' ∨ p.wantsKey = false ∧ token.bare = token'.bare)
    (hstep : parseStep p token = some q) :
    ∃ q', parseStep p' token' = some q' ∧ q.shape = q'.shape := by
  have hshapes : (parseStep p token).map Parse.shape = (parseStep p' token').map Parse.shape := by
    by_cases hkey : p.wantsKey = true
    · obtain rfl : token = token' := by
        rcases htoken with heq | ⟨hno, -⟩
        · exact heq
        · exact absurd (hkey.symm.trans hno) (by decide)
      rw [parseStep_key_shape hkey, parseStep_key_shape ((wantsKey_congr h).symm.trans hkey), h]
    · rw [Bool.not_eq_true] at hkey
      have hbare : token.bare = token'.bare := by
        rcases htoken with heq | ⟨-, heq⟩
        · rw [heq]
        · exact heq
      rw [parseStep_shape hkey, parseStep_shape ((wantsKey_congr h).symm.trans hkey), h, hbare]
  rw [hstep, Option.map_some] at hshapes
  obtain ⟨q', hstep', hq⟩ := Option.map_eq_some_iff.mp hshapes.symm
  exact ⟨q', hstep', hq.symm⟩

theorem run_alike {p p' q : Parse} {ts : List Token} (h : p.shape = p'.shape)
    (hrun : p.run ts = some q) : ∃ q', p'.run ts = some q' ∧ q.shape = q'.shape := by
  induction ts generalizing p p' with
  | nil =>
    cases hrun
    exact ⟨p', rfl, h⟩
  | cons token ts ih =>
    rw [Parse.run_cons] at hrun
    obtain ⟨mid, hstep, hrest⟩ := Option.bind_eq_some_iff.mp hrun
    obtain ⟨mid', hstep', hmid⟩ := parseStep_alike h (Or.inl rfl) hstep
    obtain ⟨q', hrest', hq⟩ := ih hmid hrest
    refine ⟨q', ?_, hq⟩
    rw [Parse.run_cons, hstep']
    exact hrest'

theorem Reader.next_eq_some {r s : Reader} {c : Char} :
    r.next c = some s ↔
      ∃ ts, lexStep r.lex c = some (s.lex, ts) ∧ r.parse.run ts = some s.parse := by
  rw [Reader.next]
  constructor
  · intro h
    obtain ⟨⟨lex, ts⟩, hlex, hrun⟩ := Option.bind_eq_some_iff.mp h
    obtain ⟨p, hp, rfl⟩ := Option.map_eq_some_iff.mp hrun
    exact ⟨ts, hlex, hp⟩
  · rintro ⟨ts, hlex, hrun⟩
    rw [hlex, Option.bind_some, hrun]
    rfl

/-- What a scanner in a string does: it stays in the string, or the string is complete. -/
theorem lexStep_alike {s s' t : Lex} {c : Char} {ts : List Token} (h : LexAlike s s')
    (hne : s ≠ s') (hstep : lexStep s c = some (t, ts)) :
    (∃ t', lexStep s' c = some (t', []) ∧ ts = [] ∧ LexAlike t t') ∨
      ∃ units units', lexStep s' c = some (.out, [.str units']) ∧ t = .out ∧
        ts = [.str units] := by
  cases h with
  | same => exact absurd rfl hne
  | str units units' =>
    rw [lexStep] at hstep ⊢
    split at hstep
    · next hquote =>
      cases hstep
      exact Or.inr ⟨units, units', by rw [if_pos hquote], rfl, rfl⟩
    · next hquote =>
      rw [if_neg hquote]
      split at hstep
      · next hslash =>
        cases hstep
        exact Or.inl ⟨.esc units', by rw [if_pos hslash], rfl, .esc _ _⟩
      · next hslash =>
        split at hstep
        · cases hstep
        · next hlow =>
          cases hstep
          exact Or.inl ⟨_, by rw [if_neg hslash, if_neg hlow], rfl, .str _ _⟩
  | esc units units' =>
    rw [lexStep] at hstep ⊢
    cases hsimple : simpleEscape c with
    | some u =>
      rw [hsimple] at hstep
      cases hstep
      exact Or.inl ⟨_, rfl, rfl, .str _ _⟩
    | none =>
      simp only [hsimple] at hstep ⊢
      split at hstep
      · next hu =>
        cases hstep
        exact Or.inl ⟨_, by rw [if_pos hu], rfl, .hex _ _ _⟩
      · cases hstep
  | hex units units' digits =>
    rw [lexStep] at hstep ⊢
    obtain ⟨d, hd, hout⟩ := Option.map_eq_some_iff.mp hstep
    rw [hd, Option.map_some]
    split at hout
    · next hlength =>
      cases hout
      exact Or.inl ⟨_, by rw [if_pos hlength], rfl, .str _ _⟩
    · next hlength =>
      cases hout
      exact Or.inl ⟨_, by rw [if_neg hlength], rfl, .hex _ _ _⟩

theorem next_alike {r r' s : Reader} {c : Char} (h : Alike r r') (hnext : r.next c = some s) :
    ∃ s', r'.next c = some s' ∧ Alike s s' := by
  obtain ⟨ts, hlex, hrun⟩ := Reader.next_eq_some.mp hnext
  by_cases hsame : r.lex = r'.lex
  · obtain ⟨p', hrun', hp⟩ := run_alike h.parse hrun
    refine ⟨⟨p', s.lex⟩, Reader.next_eq_some.mpr ⟨ts, ?_, hrun'⟩, hp, .same _, fun _ => rfl⟩
    rw [← hsame]
    exact hlex
  · have hvalue : r.parse.wantsKey = false := by
      rw [← Bool.not_eq_true]
      exact fun hkey => hsame (h.key hkey)
    rcases lexStep_alike h.lex hsame hlex with ⟨t', hlex', rfl, halike⟩ |
      ⟨units, units', hlex', hout, rfl⟩
    · have hparse : r.parse = s.parse := Option.some.inj hrun
      refine ⟨⟨r'.parse, t'⟩, Reader.next_eq_some.mpr ⟨[], hlex', rfl⟩, ?_, halike, ?_⟩
      · rw [← hparse]
        exact h.parse
      · intro hkey
        rw [← hparse, hvalue] at hkey
        cases hkey
    · rw [Parse.run_cons] at hrun
      obtain ⟨p, hstep, hp⟩ := Option.bind_eq_some_iff.mp hrun
      obtain rfl : p = s.parse := Option.some.inj hp
      have hbare : (Token.str units).bare = (Token.str units').bare := rfl
      obtain ⟨p', hstep', hshape⟩ := parseStep_alike h.parse (Or.inr ⟨hvalue, hbare⟩) hstep
      refine ⟨⟨p', .out⟩, Reader.next_eq_some.mpr ⟨_, hlex', ?_⟩, hshape, ?_, fun _ => hout⟩
      · rw [Parse.run_cons, hstep']
        rfl
      · rw [hout]
        exact .same _

/-- **Readers of one shape stay of one shape.** -/
theorem read_alike {r r' s : Reader} {text : List Char} (h : Alike r r')
    (hread : r.read text = some s) : ∃ s', r'.read text = some s' ∧ Alike s s' := by
  induction text generalizing r r' with
  | nil =>
    cases hread
    exact ⟨r', rfl, h⟩
  | cons c cs ih =>
    rw [Reader.read_cons] at hread
    obtain ⟨mid, hnext, hrest⟩ := Option.bind_eq_some_iff.mp hread
    obtain ⟨mid', hnext', hmid⟩ := next_alike h hnext
    obtain ⟨s', hrest', hs⟩ := ih hmid hrest
    refine ⟨s', ?_, hs⟩
    rw [Reader.read_cons, hnext']
    exact hrest'

/-- No text ends in a string. -/
theorem eq_of_finish {s s' : Lex} {last : List Token} (h : LexAlike s s')
    (hfinish : s.finish = some last) : s' = s := by
  cases h with
  | same => rfl
  | _ => cases hfinish

theorem tree?_alike {r r' : Reader} {t : Tree} (h : Alike r r') (htree : r.tree? = some t) :
    ∃ t', r'.tree? = some t' ∧ t.shape = t'.shape := by
  rw [Reader.tree?] at htree
  obtain ⟨last, hfinish, hparse⟩ := Option.bind_eq_some_iff.mp htree
  obtain ⟨q, hrun, hq⟩ := Option.bind_eq_some_iff.mp hparse
  have hlex := eq_of_finish h.lex hfinish
  obtain ⟨q', hrun', hshape⟩ := run_alike h.parse hrun
  cases q with
  | done u =>
    obtain rfl : u = t := Option.some.inj hq
    cases q' with
    | done u' =>
      refine ⟨u', ?_, Parse.done.inj hshape⟩
      rw [Reader.tree?, hlex, hfinish, Option.bind_some, hrun']
      rfl
    | _ => cases hshape
  | _ => cases hq

/-! ## 4. The keys of a tree -/

mutual

/-- The keys in the order of the text. -/
def Tree.keys : Tree → List (List Nat)
  | .arr items => itemKeys items
  | .obj fields => fieldKeys fields
  | _ => []

def itemKeys : List Tree → List (List Nat)
  | [] => []
  | t :: ts => t.keys ++ itemKeys ts

def fieldKeys : List (List Nat × Tree) → List (List Nat)
  | [] => []
  | (key, t) :: fs => key :: (t.keys ++ fieldKeys fs)

end

mutual

theorem keys_shape : ∀ t : Tree, t.shape.keys = t.keys
  | .null => rfl
  | .bool _ => rfl
  | .num _ => rfl
  | .str _ => rfl
  | .arr items => itemKeys_shapes items
  | .obj fields => fieldKeys_shapes fields

theorem itemKeys_shapes : ∀ ts : List Tree, itemKeys (shapes ts) = itemKeys ts
  | [] => rfl
  | t :: ts => by rw [shapes, itemKeys, keys_shape t, itemKeys_shapes ts, itemKeys]

theorem fieldKeys_shapes : ∀ fs : List (List Nat × Tree),
    fieldKeys (fieldShapes fs) = fieldKeys fs
  | [] => rfl
  | (key, t) :: fs => by
    rw [fieldShapes, fieldKeys, keys_shape t, fieldKeys_shapes fs, fieldKeys]

end

theorem itemKeys_append (ts us : List Tree) : itemKeys (ts ++ us) = itemKeys ts ++ itemKeys us := by
  induction ts with
  | nil => rfl
  | cons t ts ih => rw [List.cons_append, itemKeys, ih, itemKeys, List.append_assoc]

theorem fieldKeys_append (fs gs : List (List Nat × Tree)) :
    fieldKeys (fs ++ gs) = fieldKeys fs ++ fieldKeys gs := by
  induction fs with
  | nil => rfl
  | cons f fs ih =>
    rw [List.cons_append, fieldKeys, ih, fieldKeys, List.cons_append, List.append_assoc]

def stackKeys : List Frame → List (List Nat)
  | [] => []
  | .item items :: stack => stackKeys stack ++ itemKeys items
  | .field fields key :: stack => stackKeys stack ++ (fieldKeys fields ++ [key])

/-- The keys that the parser has read. -/
def Parse.keys : Parse → List (List Nat)
  | .value stack => stackKeys stack
  | .firstItem stack => stackKeys stack
  | .afterItem items stack => stackKeys stack ++ itemKeys items
  | .firstKey stack => stackKeys stack
  | .key fields stack => stackKeys stack ++ fieldKeys fields
  | .colon fields k stack => stackKeys stack ++ (fieldKeys fields ++ [k])
  | .afterField fields stack => stackKeys stack ++ fieldKeys fields
  | .done t => t.keys

theorem stackKeys_shape (stack : List Frame) :
    stackKeys (stack.map Frame.shape) = stackKeys stack := by
  induction stack with
  | nil => rfl
  | cons frame stack ih =>
    cases frame with
    | item items => rw [List.map_cons, Frame.shape, stackKeys, ih, itemKeys_shapes, stackKeys]
    | field fields key =>
      rw [List.map_cons, Frame.shape, stackKeys, ih, fieldKeys_shapes, stackKeys]

theorem Parse.keys_shape (p : Parse) : p.shape.keys = p.keys := by
  cases p <;> simp only [Parse.shape, Parse.keys, stackKeys_shape, itemKeys_shapes,
    fieldKeys_shapes, JsonText.keys_shape]

theorem keys_give (t : Tree) (stack : List Frame) :
    (give t stack).keys = stackKeys stack ++ t.keys := by
  cases stack with
  | nil => rfl
  | cons frame stack =>
    cases frame with
    | item items =>
      rw [give, Parse.keys, itemKeys_append, stackKeys, List.append_assoc]
      simp only [itemKeys, List.append_nil]
    | field fields key =>
      rw [give, Parse.keys, fieldKeys_append, stackKeys, List.append_assoc, List.append_assoc]
      simp only [fieldKeys, List.append_nil, List.singleton_append]

theorem prefix_startValue {stack : List Frame} {token : Token} {p : Parse}
    (h : startValue stack token = some p) : stackKeys stack <+: p.keys := by
  cases token with
  | lbrace =>
    cases h
    exact List.prefix_refl _
  | lbrack =>
    cases h
    exact List.prefix_refl _
  | null =>
    cases h
    rw [keys_give]
    exact List.prefix_append _ _
  | bool b =>
    cases h
    rw [keys_give]
    exact List.prefix_append _ _
  | num lexeme =>
    cases h
    rw [keys_give]
    exact List.prefix_append _ _
  | str units =>
    cases h
    rw [keys_give]
    exact List.prefix_append _ _
  | _ => cases h

/-- The parser forgets no key. -/
theorem prefix_parseStep {p q : Parse} {token : Token} (h : parseStep p token = some q) :
    p.keys <+: q.keys := by
  cases p with
  | value stack => exact prefix_startValue h
  | firstItem stack =>
    by_cases hend : token = .rbrack
    · rw [hend] at h
      cases h
      rw [keys_give]
      exact List.prefix_append _ _
    · rw [parseStep_firstItem hend] at h
      have hstack := prefix_startValue h
      rw [stackKeys, itemKeys, List.append_nil] at hstack
      exact hstack
  | afterItem items stack =>
    cases token with
    | comma =>
      cases h
      exact List.prefix_refl _
    | rbrack =>
      cases h
      rw [keys_give]
      exact List.prefix_refl _
    | _ => cases h
  | firstKey stack =>
    cases token with
    | rbrace =>
      cases h
      rw [keys_give]
      exact List.prefix_append _ _
    | str k =>
      cases h
      exact List.prefix_append _ _
    | _ => cases h
  | key fields stack =>
    cases token with
    | str k =>
      cases h
      exact List.prefix_append_right_inj _ |>.mpr (List.prefix_append _ _)
    | _ => cases h
  | colon fields k stack =>
    cases token with
    | colon =>
      cases h
      exact List.prefix_refl _
    | _ => cases h
  | afterField fields stack =>
    cases token with
    | comma =>
      cases h
      exact List.prefix_refl _
    | rbrace =>
      cases h
      rw [keys_give]
      exact List.prefix_refl _
    | _ => cases h
  | done t => cases token <;> cases h

theorem prefix_run {p q : Parse} {ts : List Token} (h : p.run ts = some q) : p.keys <+: q.keys := by
  induction ts generalizing p with
  | nil =>
    cases h
    exact List.prefix_refl _
  | cons token ts ih =>
    rw [Parse.run_cons] at h
    obtain ⟨mid, hstep, hrest⟩ := Option.bind_eq_some_iff.mp h
    exact (prefix_parseStep hstep).trans (ih hrest)

/-- A key is read. -/
theorem keys_parseStep_key {p q : Parse} {k : List Nat} (h : p.wantsKey = true)
    (hstep : parseStep p (.str k) = some q) : q.keys = p.keys ++ [k] := by
  cases p with
  | firstKey stack =>
    cases hstep
    rfl
  | key fields stack =>
    cases hstep
    exact (List.append_assoc _ _ _).symm
  | _ => cases h

/-! ## 5. A key that is being read -/

/-- What has been read of a string. -/
def Lex.units? : Lex → Option (List Nat)
  | .str units => some units
  | .esc units => some units
  | .hex units _ => some units
  | _ => none

theorem lexStep_units {s t : Lex} {c : Char} {ts : List Token} {w : List Nat}
    (h : s.units? = some w) (hstep : lexStep s c = some (t, ts)) :
    t = .out ∧ ts = [.str w] ∨ ts = [] ∧ ∃ w', t.units? = some w' ∧ w <+: w' := by
  cases s with
  | str units =>
    cases h
    rw [lexStep] at hstep
    split at hstep
    · cases hstep
      exact Or.inl ⟨rfl, rfl⟩
    · split at hstep
      · cases hstep
        exact Or.inr ⟨rfl, _, rfl, List.prefix_refl _⟩
      · split at hstep
        · cases hstep
        · cases hstep
          exact Or.inr ⟨rfl, _, rfl, List.prefix_append _ _⟩
  | esc units =>
    cases h
    rw [lexStep] at hstep
    split at hstep
    · cases hstep
      exact Or.inr ⟨rfl, _, rfl, List.prefix_append _ _⟩
    · split at hstep
      · cases hstep
        exact Or.inr ⟨rfl, _, rfl, List.prefix_refl _⟩
      · cases hstep
  | hex units digits =>
    cases h
    rw [lexStep] at hstep
    obtain ⟨d, -, hout⟩ := Option.map_eq_some_iff.mp hstep
    split at hout
    · cases hout
      exact Or.inr ⟨rfl, _, rfl, List.prefix_append _ _⟩
    · cases hout
      exact Or.inr ⟨rfl, _, rfl, List.prefix_refl _⟩
  | _ => cases h

theorem prefix_tree? {r : Reader} {t : Tree} (h : r.tree? = some t) : r.parse.keys <+: t.keys := by
  rw [Reader.tree?] at h
  obtain ⟨last, -, hparse⟩ := Option.bind_eq_some_iff.mp h
  obtain ⟨q, hrun, hq⟩ := Option.bind_eq_some_iff.mp hparse
  have hkeys := prefix_run hrun
  cases q with
  | done u =>
    cases hq
    exact hkeys
  | _ => cases hq

theorem prefix_read {r s : Reader} {text : List Char} (h : r.read text = some s) :
    r.parse.keys <+: s.parse.keys := by
  induction text generalizing r with
  | nil =>
    cases h
    exact List.prefix_refl _
  | cons c cs ih =>
    rw [Reader.read_cons] at h
    obtain ⟨mid, hnext, hrest⟩ := Option.bind_eq_some_iff.mp h
    obtain ⟨ts, -, hrun⟩ := Reader.next_eq_some.mp hnext
    exact (prefix_run hrun).trans (ih hrest)

/-- **A key that is being read** is a key of the tree, with all that was read of it. -/
theorem exists_key {r : Reader} {text : List Char} {t : Tree} {w : List Nat}
    (hkey : r.parse.wantsKey = true) (hlex : r.lex.units? = some w)
    (h : (r.read text).bind Reader.tree? = some t) :
    ∃ k, t.keys[r.parse.keys.length]? = some k ∧ w <+: k := by
  induction text generalizing r w with
  | nil =>
    have hfinish : r.lex.finish = none := by
      cases hr : r.lex with
      | str units => rfl
      | esc units => rfl
      | hex units digits => rfl
      | _ =>
        rw [hr] at hlex
        cases hlex
    rw [Reader.read_nil, Option.bind_some, Reader.tree?, hfinish] at h
    cases h
  | cons c cs ih =>
    obtain ⟨s, hread, htree⟩ := Option.bind_eq_some_iff.mp h
    rw [Reader.read_cons] at hread
    obtain ⟨mid, hnext, hrest⟩ := Option.bind_eq_some_iff.mp hread
    obtain ⟨ts, hstep, hrun⟩ := Reader.next_eq_some.mp hnext
    rcases lexStep_units hlex hstep with ⟨-, rfl⟩ | ⟨rfl, w', hw', hprefix⟩
    · rw [Parse.run_cons] at hrun
      obtain ⟨p, hparse, hp⟩ := Option.bind_eq_some_iff.mp hrun
      obtain rfl : p = mid.parse := Option.some.inj hp
      have hkeys := (prefix_read hrest).trans (prefix_tree? htree)
      rw [keys_parseStep_key hkey hparse] at hkeys
      obtain ⟨more, hmore⟩ := hkeys
      refine ⟨w, ?_, List.prefix_refl _⟩
      rw [← hmore, List.append_assoc, List.getElem?_append_right (Nat.le_refl _), Nat.sub_self]
      rfl
    · have hparse : r.parse = mid.parse := Option.some.inj hrun
      rw [hparse] at hkey ⊢
      obtain ⟨k, hk, hw⟩ := ih hkey hw' (by rw [hrest]; exact htree)
      exact ⟨k, hk, hprefix.trans hw⟩

/-! ## 6. Text that only a string takes -/

/-- A character that stands for itself in a string. -/
def Inert (c : Char) : Prop := c ≠ '"' ∧ c ≠ '\\' ∧ 32 ≤ c.toNat

instance (c : Char) : Decidable (Inert c) := inferInstanceAs (Decidable (_ ∧ _ ∧ _))

theorem inert_of_all {text : List Char} (h : (text.all fun c => decide (Inert c)) = true) :
    ∀ c ∈ text, Inert c := by
  intro c hc
  exact of_decide_eq_true (List.all_eq_true.mp h c hc)

theorem read_inert {p : Parse} {units : List Nat} {text : List Char} (h : ∀ c ∈ text, Inert c) :
    (⟨p, .str units⟩ : Reader).read text = some ⟨p, .str (units ++ text.flatMap utf16)⟩ := by
  induction text generalizing units with
  | nil => rw [Reader.read_nil, List.flatMap_nil, List.append_nil]
  | cons c cs ih =>
    obtain ⟨hquote, hslash, hlow⟩ := h c List.mem_cons_self
    have hnext : (⟨p, .str units⟩ : Reader).next c = some ⟨p, .str (units ++ utf16 c)⟩ := by
      apply Reader.next_eq_some.mpr
      refine ⟨[], ?_, rfl⟩
      rw [lexStep, if_neg hquote, if_neg hslash, if_neg (Nat.not_lt.mpr hlow)]
    rw [Reader.read_cons, hnext, Option.bind_some,
      ih fun d hd => h d (List.mem_cons_of_mem _ hd), List.flatMap_cons, List.append_assoc]

theorem utf16_head {c d : Char} (hd : d.toNat < 0xD800) (hne : c ≠ d) :
    ∃ u us, utf16 c = u :: us ∧ u ≠ d.toNat := by
  rw [utf16]
  split
  · exact ⟨_, _, rfl, fun heq => hne (Char.toNat_inj.mp heq)⟩
  · exact ⟨_, _, rfl, by omega⟩

/-- A string is not read on in two ways. -/
theorem not_both_prefixes {units xs ys k : List Nat} {u v : Nat} (hne : u ≠ v)
    (hx : units ++ u :: xs <+: k) (hy : units ++ v :: ys <+: k) : False := by
  obtain ⟨more, rfl⟩ := hx
  obtain ⟨more', heq⟩ := hy
  rw [List.append_assoc, List.append_assoc, List.append_cancel_left_eq] at heq
  exact hne (List.cons.inj heq).1.symm

/-- No bracket is to come in the name of a literal. -/
def Lex.Lettered : Lex → Prop
  | .word next rest _ => '[' ≠ next ∧ '[' ∉ rest
  | _ => True

/-- The scanner stays lettered, if it goes on. -/
def GoesOnLettered (out : Option (Lex × List Token)) : Prop :=
  ∀ t ts, out = some (t, ts) → t.Lettered

theorem goesOnLettered_some {t : Lex} (h : t.Lettered) (ts : List Token) :
    GoesOnLettered (some (t, ts)) := by
  intro t' ts' heq
  cases heq
  exact h

theorem goesOnLettered_ite {p : Prop} [Decidable p] {a b : Option (Lex × List Token)}
    (ha : GoesOnLettered a) (hb : GoesOnLettered b) : GoesOnLettered (if p then a else b) := by
  split
  · exact ha
  · exact hb

theorem lettered_lexOut {c : Char} {t : Lex} {ts : List Token} (h : lexOut c = some (t, ts)) :
    t.Lettered := by
  have hall : GoesOnLettered (lexOut c) := by
    unfold lexOut
    -- blanks, punctuation, quotes and numbers
    iterate 11
      apply goesOnLettered_ite
      · apply goesOnLettered_some
        trivial
    -- the names of the literals
    iterate 3
      apply goesOnLettered_ite
      · apply goesOnLettered_some
        exact ⟨by decide, by decide⟩
    nofun
  exact hall t ts h

theorem lettered_lexStep {s t : Lex} {c : Char} {ts : List Token} (hs : s.Lettered)
    (h : lexStep s c = some (t, ts)) : t.Lettered := by
  cases s with
  | out => exact lettered_lexOut h
  | str units =>
    rcases lexStep_units rfl h with ⟨rfl, -⟩ | ⟨-, w, hw, -⟩
    · trivial
    · cases t with
      | word next rest token => cases hw
      | _ => trivial
  | esc units =>
    rcases lexStep_units rfl h with ⟨rfl, -⟩ | ⟨-, w, hw, -⟩
    · trivial
    · cases t with
      | word next rest token => cases hw
      | _ => trivial
  | hex units digits =>
    rcases lexStep_units rfl h with ⟨rfl, -⟩ | ⟨-, w, hw, -⟩
    · trivial
    · cases t with
      | word next rest token => cases hw
      | _ => trivial
  | num lexeme state =>
    rw [lexStep] at h
    split at h
    · cases h
      trivial
    · split at h
      · obtain ⟨⟨t', ts'⟩, hout, heq⟩ := Option.map_eq_some_iff.mp h
        cases heq
        exact lettered_lexOut hout
      · cases h
  | word next rest token =>
    cases rest with
    | nil =>
      rw [lexStep] at h
      split at h
      · cases h
        trivial
      · cases h
    | cons next' rest' =>
      rw [lexStep] at h
      split at h
      · cases h
        exact not_or.mp fun hmem => hs.2 (List.mem_cons.mpr hmem)
      · cases h

theorem lettered_read {r s : Reader} {text : List Char} (hr : r.lex.Lettered)
    (h : r.read text = some s) : s.lex.Lettered := by
  induction text generalizing r with
  | nil =>
    cases h
    exact hr
  | cons c cs ih =>
    rw [Reader.read_cons] at h
    obtain ⟨mid, hnext, hrest⟩ := Option.bind_eq_some_iff.mp h
    obtain ⟨ts, hstep, -⟩ := Reader.next_eq_some.mp hnext
    exact ih (lettered_lexStep hr hstep) hrest

theorem lettered_alike {s s' : Lex} (h : LexAlike s s') (hs : s.Lettered) : s'.Lettered := by
  cases h with
  | same => exact hs
  | _ => trivial

/-- No token begins with a capital. -/
theorem lexOut_capital {c : Char} (h : 65 ≤ c.toNat ∧ c.toNat ≤ 90) : lexOut c = none := by
  have hne : ∀ d : Char, d.toNat < 65 ∨ 90 < d.toNat → c ≠ d := by
    rintro d hd rfl
    omega
  have hdigit : c.isDigit = false := by
    rw [← Bool.not_eq_true, Char.isDigit_iff_toNat]
    rintro ⟨-, hnine⟩
    have hcode : '9'.toNat = 57 := rfl
    omega
  simp [lexOut, hne ' ' (by decide), hne '\t' (by decide), hne '\n' (by decide),
    hne '\r' (by decide), hne '\x7b' (by decide), hne '\x7d' (by decide), hne '[' (by decide),
    hne ']' (by decide), hne ',' (by decide), hne ':' (by decide), hne '"' (by decide),
    hne '-' (by decide), hne '0' (by decide), hne 'n' (by decide), hne 't' (by decide),
    hne 'f' (by decide), hdigit]

/-- A bracket outside a string opens a list, or is no JSON. -/
theorem lexStep_bracket {s t : Lex} {ts : List Token} (hs : s.Lettered)
    (hout : ∀ units, s ≠ .str units) (h : lexStep s '[' = some (t, ts)) : t = .out := by
  cases s with
  | out =>
    cases h
    rfl
  | str units => exact absurd rfl (hout units)
  | esc units => cases h
  | hex units digits => cases h
  | num lexeme state =>
    have hnone : state.step '[' = none := by
      cases state <;> rfl
    simp only [lexStep, hnone] at h
    split at h
    · cases h
      rfl
    · cases h
  | word next rest token =>
    cases rest with
    | nil =>
      rw [lexStep, if_neg hs.1] at h
      cases h
    | cons next' rest' =>
      rw [lexStep, if_neg hs.1] at h
      cases h

/-- **A bracket and a capital** are only read in a string. -/
theorem read_bracketed {r : Reader} (hr : r.lex.Lettered) (hout : ∀ units, r.lex ≠ .str units)
    {c : Char} (hc : 65 ≤ c.toNat ∧ c.toNat ≤ 90) (rest : List Char) :
    r.read ('[' :: c :: rest) = none := by
  rw [Reader.read_cons]
  cases hnext : r.next '[' with
  | none => rfl
  | some mid =>
    obtain ⟨ts, hstep, -⟩ := Reader.next_eq_some.mp hnext
    have hmid := lexStep_bracket hr hout hstep
    have hfails : mid.next c = none := by
      rw [Reader.next, hmid, lexStep, lexOut_capital hc]
      rfl
    rw [Option.bind_some, Reader.read_cons, hfails]
    rfl

end TokenProxy.JsonText
