/-
  TokenProxy/Base64.lean
  ======================
  **Base64, as Python writes and reads it.**

  `encode` is `base64.b64encode`.  `decode` is `base64.b64decode` as it reads by default: an
  automaton with its place in the group of four and the bits that are left over, which skips
  characters that are not of the alphabet, stops at the padding that ends a group, and fails on a
  group that is not complete.

  Main result: `decode_encode`, what was written is read back.
-/
import Mathlib.Data.List.Basic
import Mathlib.Data.UInt

namespace TokenProxy.Base64

/-! ## 1. The alphabet -/

def alphabet : List Char :=
  "ABCDEFGHIJKLMNOPQRSTUVWXYZabcdefghijklmnopqrstuvwxyz0123456789+/".toList

def charOf (value : Nat) : Char := alphabet.getD value 'A'

def valueOf? (c : Char) : Option Nat := alphabet.idxOf? c

theorem valueOf?_charOf : ∀ value < 64, valueOf? (charOf value) = some value := by
  decide +kernel

theorem charOf_ne_pad : ∀ value < 64, charOf value ≠ '=' := by decide +kernel

theorem charOf_ascii : ∀ value < 64, (charOf value).toNat < 128 := by decide +kernel

/-! ## 2. Writing and reading -/

/-- `base64.b64encode`. -/
def encode : List UInt8 → List Char
  | [] => []
  | [a] => [charOf (a.toNat / 4), charOf (a.toNat % 4 * 16), '=', '=']
  | [a, b] =>
    [charOf (a.toNat / 4), charOf (a.toNat % 4 * 16 + b.toNat / 16),
      charOf (b.toNat % 16 * 4), '=']
  | a :: b :: c :: rest =>
    charOf (a.toNat / 4) :: charOf (a.toNat % 4 * 16 + b.toNat / 16) ::
      charOf (b.toNat % 16 * 4 + c.toNat / 64) :: charOf (c.toNat % 64) :: encode rest

/-- The place in a group of four. -/
inductive Place where
  | first
  | second
  | third
  | fourth
deriving DecidableEq

/-- The characters of the group that are read already. -/
def Place.index : Place → Nat
  | first => 0
  | second => 1
  | third => 2
  | fourth => 3

/-- The automaton; `left` are the bits that wait for the next character, and `pads` the padding
    since the last one. -/
def read : Place → Nat → Nat → List Char → Option (List UInt8)
  | place, _, _, [] => if place = .first then some [] else none
  | place, left, pads, c :: rest =>
    if c = '=' then
      if place.index < 2 then read place left pads rest
      else if 4 ≤ place.index + (pads + 1) then some []
      else read place left (pads + 1) rest
    else
      match valueOf? c with
      | none => read place left pads rest
      | some value =>
        match place with
        | .first => read .second value 0 rest
        | .second =>
          (read .third (value % 16) 0 rest).map
            (UInt8.ofNat (left * 4 + value / 16) :: ·)
        | .third =>
          (read .fourth (value % 4) 0 rest).map
            (UInt8.ofNat (left * 16 + value / 4) :: ·)
        | .fourth => (read .first 0 0 rest).map (UInt8.ofNat (left * 64 + value) :: ·)

/-- `base64.b64decode`; `none` where it raises. -/
def decode (text : List Char) : Option (List UInt8) :=
  if text.all fun c => decide (c.toNat < 128) then read .first 0 0 text else none

/-! ## 3. Reading back -/

section

variable {value left pads : Nat} {rest : List Char}

theorem read_first (h : value < 64) :
    read .first left pads (charOf value :: rest) = read .second value 0 rest := by
  rw [read, if_neg (charOf_ne_pad value h), valueOf?_charOf value h]

theorem read_second (h : value < 64) :
    read .second left pads (charOf value :: rest) =
      (read .third (value % 16) 0 rest).map (UInt8.ofNat (left * 4 + value / 16) :: ·) := by
  rw [read, if_neg (charOf_ne_pad value h), valueOf?_charOf value h]

theorem read_third (h : value < 64) :
    read .third left pads (charOf value :: rest) =
      (read .fourth (value % 4) 0 rest).map (UInt8.ofNat (left * 16 + value / 4) :: ·) := by
  rw [read, if_neg (charOf_ne_pad value h), valueOf?_charOf value h]

theorem read_fourth (h : value < 64) :
    read .fourth left pads (charOf value :: rest) =
      (read .first 0 0 rest).map (UInt8.ofNat (left * 64 + value) :: ·) := by
  rw [read, if_neg (charOf_ne_pad value h), valueOf?_charOf value h]

end

/-- A byte of which the parts were written in two characters. -/
theorem ofNat_eq {a : UInt8} {n : Nat} (h : n = a.toNat) : UInt8.ofNat n = a := by
  rw [h]
  exact UInt8.ofNat_toNat

theorem first_byte (a : UInt8) {n : Nat} (h : n < 16) :
    UInt8.ofNat (a.toNat / 4 * 4 + (a.toNat % 4 * 16 + n) / 16) = a :=
  ofNat_eq (by omega)

theorem second_byte (a b : UInt8) {n : Nat} (h : n < 4) :
    UInt8.ofNat ((a.toNat % 4 * 16 + b.toNat / 16) % 16 * 16 + (b.toNat % 16 * 4 + n) / 4) = b := by
  have hb := b.toNat_lt
  exact ofNat_eq (by omega)

theorem third_byte (b c : UInt8) :
    UInt8.ofNat ((b.toNat % 16 * 4 + c.toNat / 64) % 4 * 64 + c.toNat % 64) = c := by
  have hc := c.toNat_lt
  exact ofNat_eq (by omega)

theorem read_encode (bytes : List UInt8) : read .first 0 0 (encode bytes) = some bytes := by
  induction bytes using encode.induct with
  | case1 => rfl
  | case2 a =>
    have ha := a.toNat_lt
    have hfirst := @first_byte a 0 (by omega)
    rw [Nat.add_zero] at hfirst
    rw [encode, read_first (by omega), read_second (by omega), hfirst, read, if_pos rfl,
      if_neg (by decide), if_neg (by decide), read, if_pos rfl, if_neg (by decide),
      if_pos (by decide), Option.map_some]
  | case3 a b =>
    have ha := a.toNat_lt
    have hb := b.toNat_lt
    have hsecond := @second_byte a b 0 (by omega)
    rw [Nat.add_zero] at hsecond
    rw [encode, read_first (by omega), read_second (by omega), first_byte a (by omega),
      read_third (by omega), hsecond, read, if_pos rfl, if_neg (by decide), if_pos (by decide),
      Option.map_some, Option.map_some]
  | case4 a b c rest ih =>
    have ha := a.toNat_lt
    have hb := b.toNat_lt
    have hc := c.toNat_lt
    rw [encode, read_first (by omega), read_second (by omega), first_byte a (by omega),
      read_third (by omega), second_byte a b (by omega), read_fourth (by omega), third_byte, ih,
      Option.map_some, Option.map_some, Option.map_some]

theorem encode_ascii (bytes : List UInt8) : ∀ c ∈ encode bytes, c.toNat < 128 := by
  induction bytes using encode.induct with
  | case1 => simp [encode]
  | case2 a =>
    have ha := a.toNat_lt
    have h₁ := charOf_ascii (a.toNat / 4) (by omega)
    have h₂ := charOf_ascii (a.toNat % 4 * 16) (by omega)
    simp [encode, h₁, h₂]
  | case3 a b =>
    have ha := a.toNat_lt
    have hb := b.toNat_lt
    have h₁ := charOf_ascii (a.toNat / 4) (by omega)
    have h₂ := charOf_ascii (a.toNat % 4 * 16 + b.toNat / 16) (by omega)
    have h₃ := charOf_ascii (b.toNat % 16 * 4) (by omega)
    simp [encode, h₁, h₂, h₃]
  | case4 a b c rest ih =>
    have ha := a.toNat_lt
    have hb := b.toNat_lt
    have hc := c.toNat_lt
    have h₁ := charOf_ascii (a.toNat / 4) (by omega)
    have h₂ := charOf_ascii (a.toNat % 4 * 16 + b.toNat / 16) (by omega)
    have h₃ := charOf_ascii (b.toNat % 16 * 4 + c.toNat / 64) (by omega)
    have h₄ := charOf_ascii (c.toNat % 64) (by omega)
    intro d hd
    rw [encode] at hd
    simp only [List.mem_cons] at hd
    rcases hd with rfl | rfl | rfl | rfl | hd
    · exact h₁
    · exact h₂
    · exact h₃
    · exact h₄
    · exact ih d hd

theorem length_encode (bytes : List UInt8) :
    (encode bytes).length = (bytes.length + 2) / 3 * 4 := by
  induction bytes using encode.induct with
  | case1 => rfl
  | case2 a => simp [encode]
  | case3 a b => simp [encode]
  | case4 a b c rest ih =>
    rw [encode]
    simp only [List.length_cons]
    omega

/-- **What was written is read back.** -/
theorem decode_encode (bytes : List UInt8) : decode (encode bytes) = some bytes := by
  rw [decode, if_pos, read_encode]
  apply List.all_eq_true.mpr
  intro c hc
  exact decide_eq_true (encode_ascii bytes c hc)

end TokenProxy.Base64
