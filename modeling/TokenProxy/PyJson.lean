/-
  TokenProxy/PyJson.lean
  ======================
  **JSON values as the code handles them: nested dicts, lists and scalars.**

  A dict is an association list in insertion order, read and written through
  `TokenProxy.Assoc`.  The accessors are Python's: `get?` on something that is no
  dict finds nothing, `truthy` is `bool(value)`.
-/
import TokenProxy.Dict
import Mathlib.Data.Rat.Defs

namespace TokenProxy

inductive Json where
  | null
  | bool (b : Bool)
  | int (n : Int)
  | float (q : ℚ)
  | str (s : String)
  | arr (items : List Json)
  | obj (fields : List (String × Json))

namespace Json

/-! ## 1. Equality -/

mutual

def decEqJson : (a b : Json) → Decidable (a = b)
  | .null, b => by cases b with
    | null => exact isTrue rfl
    | _ => exact isFalse nofun
  | .bool a, b => by cases b with
    | bool b => exact decidable_of_iff (a = b) (by simp)
    | _ => exact isFalse nofun
  | .int a, b => by cases b with
    | int b => exact decidable_of_iff (a = b) (by simp)
    | _ => exact isFalse nofun
  | .float a, b => by cases b with
    | float b => exact decidable_of_iff (a = b) (by simp)
    | _ => exact isFalse nofun
  | .str a, b => by cases b with
    | str b => exact decidable_of_iff (a = b) (by simp)
    | _ => exact isFalse nofun
  | .arr a, b => by cases b with
    | arr b => exact @decidable_of_iff _ (a = b) (by simp) (decEqItems a b)
    | _ => exact isFalse nofun
  | .obj a, b => by cases b with
    | obj b => exact @decidable_of_iff _ (a = b) (by simp) (decEqFields a b)
    | _ => exact isFalse nofun

def decEqItems : (as bs : List Json) → Decidable (as = bs)
  | [], [] => isTrue rfl
  | [], _ :: _ => isFalse nofun
  | _ :: _, [] => isFalse nofun
  | a :: as, b :: bs =>
    match decEqJson a b, decEqItems as bs with
    | isTrue h₁, isTrue h₂ => isTrue (by rw [h₁, h₂])
    | isFalse h, _ => isFalse fun e => h (List.cons.inj e).1
    | _, isFalse h => isFalse fun e => h (List.cons.inj e).2

def decEqFields : (as bs : List (String × Json)) → Decidable (as = bs)
  | [], [] => isTrue rfl
  | [], _ :: _ => isFalse nofun
  | _ :: _, [] => isFalse nofun
  | (k, a) :: as, (l, b) :: bs =>
    match decEq k l, decEqJson a b, decEqFields as bs with
    | isTrue h₁, isTrue h₂, isTrue h₃ => isTrue (by rw [h₁, h₂, h₃])
    | isFalse h, _, _ => isFalse fun e => h (Prod.mk.inj (List.cons.inj e).1).1
    | _, isFalse h, _ => isFalse fun e => h (Prod.mk.inj (List.cons.inj e).1).2
    | _, _, isFalse h => isFalse fun e => h (List.cons.inj e).2

end

instance : DecidableEq Json := decEqJson

/-! ## 2. Python's accessors -/

/-- `bool(value)`. -/
def truthy : Json → Bool
  | .null => false
  | .bool b => b
  | .int n => decide (n ≠ 0)
  | .float q => decide (q ≠ 0)
  | .str s => decide (s ≠ "")
  | .arr items => !items.isEmpty
  | .obj fields => !fields.isEmpty

/-- `value or default`. -/
def orElse (value fallback : Json) : Json := if value.truthy then value else fallback

def fields? : Json → Option (List (String × Json))
  | .obj fields => some fields
  | _ => none

def items? : Json → Option (List Json)
  | .arr items => some items
  | _ => none

def str? : Json → Option String
  | .str s => some s
  | _ => none

def isObj (value : Json) : Bool := value.fields?.isSome

/-- `d.get(key)`, with `none` for a missing key. -/
def get? (value : Json) (key : String) : Option Json :=
  match value with
  | .obj fields => Assoc.lookup key fields
  | _ => none

/-- `d.get(key, default)`. -/
def getD (value : Json) (key : String) (fallback : Json) : Json :=
  (value.get? key).getD fallback

/-- `d[key] = v`. -/
def set (value : Json) (key : String) (v : Json) : Json :=
  match value with
  | .obj fields => .obj (Assoc.insert key v fields)
  | other => other

/-- `d.pop(key, None)`. -/
def pop (value : Json) (key : String) : Json :=
  match value with
  | .obj fields => .obj (Assoc.erase key fields)
  | other => other

/-- What a value counts as when it is a dict key: `1`, `1.0` and `True` are one key. -/
inductive DictKey where
  | none
  | number (q : ℚ)
  | text (s : String)
deriving DecidableEq

/-- The key that a value is, when it is hashable. -/
def dictKey? : Json → Option DictKey
  | .null => some .none
  | .bool b => some (.number (if b then 1 else 0))
  | .int n => some (.number n)
  | .float q => some (.number q)
  | .str s => some (.text s)
  | .arr _ => none
  | .obj _ => none

/-- The number that a value compares as. -/
def number? (value : Json) : Option ℚ :=
  match value.dictKey? with
  | some (.number q) => some q
  | _ => none

/-- `d.setdefault(key, v)`. -/
def setDefault (value : Json) (key : String) (v : Json) : Json :=
  if (value.get? key).isSome then value else value.set key v

mutual

/-- `a == b`: numbers by value, dicts whatever their order. -/
def pyEq : Json → Json → Bool
  | .arr as, .arr bs => pyEqItems as bs
  | .obj as, .obj bs => decide (as.length = bs.length) && pyEqFields as bs
  | a, b =>
    match a.dictKey?, b.dictKey? with
    | some x, some y => decide (x = y)
    | _, _ => false

def pyEqItems : List Json → List Json → Bool
  | [], [] => true
  | a :: as, b :: bs => pyEq a b && pyEqItems as bs
  | _, _ => false

def pyEqFields : List (String × Json) → List (String × Json) → Bool
  | [], _ => true
  | (k, a) :: as, bs =>
    (match Assoc.lookup k bs with
      | some b => pyEq a b
      | none => false) && pyEqFields as bs

end

/-- Only a dict has keys. -/
theorem isObj_of_get? {value v : Json} {key : String} (h : value.get? key = some v) :
    ∃ fields, value = .obj fields := by
  cases value with
  | obj fields => exact ⟨fields, rfl⟩
  | _ => cases h

theorem get?_set_self (fields : List (String × Json)) (key : String) (v : Json) :
    (set (.obj fields) key v).get? key = some v :=
  Assoc.lookup_insert_self key v fields

theorem get?_set_of_ne (value : Json) {key other : String} (h : other ≠ key) (v : Json) :
    (value.set key v).get? other = value.get? other := by
  cases value with
  | obj fields => exact Assoc.lookup_insert_of_ne h v fields
  | _ => rfl

theorem get?_pop (value : Json) (key other : String) :
    (value.pop key).get? other = if other = key then none else value.get? other := by
  cases value with
  | obj fields => exact Assoc.lookup_erase key other fields
  | _ => exact (ite_self _).symm

theorem getD_set_self (fields : List (String × Json)) (key : String) (v fallback : Json) :
    (set (.obj fields) key v).getD key fallback = v := by
  rw [getD, get?_set_self]
  rfl

theorem getD_set_of_ne (value : Json) {key other : String} (h : other ≠ key)
    (v fallback : Json) : (value.set key v).getD other fallback = value.getD other fallback := by
  rw [getD, get?_set_of_ne value h]
  rfl

theorem getD_pop_self (value : Json) (key : String) (fallback : Json) :
    (value.pop key).getD key fallback = fallback := by
  rw [getD, get?_pop, if_pos rfl]
  rfl

theorem getD_pop_of_ne (value : Json) {key other : String} (h : other ≠ key) (fallback : Json) :
    (value.pop key).getD other fallback = value.getD other fallback := by
  rw [getD, get?_pop, if_neg h]
  rfl

end Json

end TokenProxy
