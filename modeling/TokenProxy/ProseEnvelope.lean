/-
  TokenProxy/ProseEnvelope.lean
  =============================
  **Prose in an envelope** (`_compress_text`, `_largest_string_leaf` and `_swap` of
  `_compress_prose_envelope`, `g19_headroom.py`).

  A JSON payload that is mostly one string is not compacted by its structure: the string is said
  without its repeated sentences, wherever it stands.

  Main results: `says_largestStringLeaf`, the longest string stands in the payload, and
  `not_says_swapLeaf`, once it is said shorter it no longer does.
-/
import TokenProxy.CcrTenants
import TokenProxy.JsonValue
import TokenProxy.SignificantDigits

namespace TokenProxy.Headroom

open TokenProxy.Ccr (stripBy)
open TokenProxy.KeyStore (isSpace)
open TokenProxy.SignificantDigits (nearestDouble)

/-! ## 1. Prose -/

structure TextStrategy where
  dedupeSentences : Bool := true
  maxSentenceLen : Int := 0

/-- A character goes in front of the first piece. -/
def onFirst (c : Char) : List (List Char) → List (List Char)
  | [] => [[c]]
  | piece :: pieces => (c :: piece) :: pieces

/-- `re.split(r"(?<=[.!?])\s+", text)`, in the blanks of a match or behind the end of a
sentence. -/
def sentencesFrom (inBlanks ended : Bool) : List Char → List (List Char)
  | [] => [[]]
  | c :: rest =>
    if isSpace c && inBlanks then sentencesFrom true false rest
    else if isSpace c && ended then [] :: sentencesFrom true false rest
    else onFirst c (sentencesFrom false (c = '.' || c = '!' || c = '?') rest)

/-- `s[:k]`. -/
def upTo (k : Int) (s : List Char) : List Char :=
  s.take (if 0 ≤ k then k else s.length + k).toNat

variable (st : TextStrategy)

/-- A sentence, cut where it is too long. -/
def cutSentence (s : List Char) : List Char :=
  if st.maxSentenceLen ≠ 0 ∧ st.maxSentenceLen < s.length then upTo st.maxSentenceLen s ++ ['…']
  else s

/-- The sentences that are said, behind those that have been `seen`. -/
def said (seen : List (List Char)) : List (List Char) → List (List Char)
  | [] => []
  | raw :: rest =>
    let stripped := stripBy isSpace raw
    if stripped = [] then said seen rest
    else
      let s := cutSentence st stripped
      if st.dedupeSentences && decide (s ∈ seen) then said seen rest
      else s :: said (s :: seen) rest

/-- `_compress_text`. -/
def compressText (text : String) : Option String :=
  let result := said st [] (sentencesFrom false false (stripBy isSpace text.toList))
  let compressed := String.ofList ([' '].intercalate result)
  if result = [] then none
  else if compressed.length < text.length then some compressed
  else none

/-! ## 2. The longest string -/

mutual

/-- `_largest_string_leaf`. -/
def largestStringLeaf : Json → String
  | .str s => s
  | .arr items => largestOfItems "" items
  | .obj fields => largestOfFields "" fields
  | _ => ""

def largestOfItems (best : String) : List Json → String
  | [] => best
  | v :: vs =>
    let leaf := largestStringLeaf v
    largestOfItems (if best.length < leaf.length then leaf else best) vs

def largestOfFields (best : String) : List (String × Json) → String
  | [] => best
  | (_, v) :: rest =>
    let leaf := largestStringLeaf v
    largestOfFields (if best.length < leaf.length then leaf else best) rest

end

/-- `_ENVELOPE_DOMINANCE`, the double 0.7. -/
def envelopeDominance : ℚ := 6305039478318694 / 2 ^ 53

/-- A string carries the payload. -/
def dominates (leaf text : String) : Bool :=
  decide (leaf ≠ "") &&
    !decide ((leaf.length : ℚ) < nearestDouble (envelopeDominance * nearestDouble text.length))

mutual

/-- `_swap`. -/
def swapLeaf (leaf compressed : String) : Json → Json
  | .str s => .str (if s = leaf then compressed else s)
  | .arr items => .arr (swapItems leaf compressed items)
  | .obj fields => .obj (swapFields leaf compressed fields)
  | other => other

def swapItems (leaf compressed : String) : List Json → List Json
  | [] => []
  | v :: vs => swapLeaf leaf compressed v :: swapItems leaf compressed vs

def swapFields (leaf compressed : String) : List (String × Json) → List (String × Json)
  | [] => []
  | (k, v) :: rest => (k, swapLeaf leaf compressed v) :: swapFields leaf compressed rest

end

/-- A string stands somewhere in a value. -/
inductive Says (s : String) : Json → Prop
  | str : Says s (.str s)
  | item {items : List Json} {x : Json} (hx : x ∈ items) (h : Says s x) : Says s (.arr items)
  | field {fields : List (String × Json)} {k : String} {x : Json}
      (hx : Assoc.lookup k fields = some x) (h : Says s x) : Says s (.obj fields)

/-! ## 3. What is said -/

theorem swapItems_eq (leaf compressed : String) (items : List Json) :
    swapItems leaf compressed items = items.map (swapLeaf leaf compressed) := by
  induction items with
  | nil => rfl
  | cons v vs ih => rw [swapItems, ih, List.map_cons]

theorem swapFields_eq (leaf compressed : String) (fields : List (String × Json)) :
    swapFields leaf compressed fields =
      fields.map fun f => (f.1, swapLeaf leaf compressed f.2) := by
  induction fields with
  | nil => rfl
  | cons f rest ih => rw [swapFields, ih, List.map_cons]

theorem lookup_swapFields (leaf compressed k : String) (fields : List (String × Json)) :
    Assoc.lookup k (swapFields leaf compressed fields) =
      (Assoc.lookup k fields).map (swapLeaf leaf compressed) := by
  induction fields with
  | nil => rfl
  | cons f rest ih =>
    rw [swapFields, Assoc.lookup_cons, Assoc.lookup_cons, ih]
    split <;> rfl

/-- A string that is said otherwise is not said. -/
theorem not_says_swapLeaf {leaf compressed : String} (hne : compressed ≠ leaf) (v : Json) :
    ¬ Says leaf (swapLeaf leaf compressed v) := by
  intro h
  generalize hw : swapLeaf leaf compressed v = w at h
  induction h generalizing v with
  | str =>
    cases v with
    | str s =>
      rw [swapLeaf, Json.str.injEq] at hw
      split at hw
      · exact hne hw
      · next hs => exact hs hw
    | _ => cases hw
  | item hx _ ih =>
    cases v with
    | arr items =>
      rw [swapLeaf, Json.arr.injEq, swapItems_eq] at hw
      subst hw
      obtain ⟨y, -, hy⟩ := List.mem_map.mp hx
      exact ih y hy
    | _ => cases hw
  | field hx _ ih =>
    cases v with
    | obj fields =>
      rw [swapLeaf, Json.obj.injEq] at hw
      subst hw
      rw [lookup_swapFields] at hx
      obtain ⟨y, -, hy⟩ := Option.map_eq_some_iff.mp hx
      exact ih y hy
    | _ => cases hw

section Readable

variable {floats : JsonText.Floats}

open JsonText

mutual

theorem says_largestStringLeaf : ∀ {v : Json}, Readable floats v →
    largestStringLeaf v = "" ∨ Says (largestStringLeaf v) v
  | .null, _ => Or.inl rfl
  | .bool _, _ => Or.inl rfl
  | .int _, _ => Or.inl rfl
  | .float _, _ => Or.inl rfl
  | .str _, _ => Or.inr .str
  | .arr items, h => by
    rcases says_largestOfItems "" h with hbest | ⟨x, hx, hsays⟩
    · exact Or.inl hbest
    · exact Or.inr (.item hx hsays)
  | .obj fields, h => by
    rcases says_largestOfFields "" h.2 with hbest | ⟨f, hf, hsays⟩
    · exact Or.inl hbest
    · exact Or.inr (.field (Assoc.lookup_of_mem h.1 hf) hsays)

/-- The best of a list is what was best before, or stands in one of its items. -/
theorem says_largestOfItems (best : String) : ∀ {items : List Json}, ReadableItems floats items →
    largestOfItems best items = best ∨ ∃ x ∈ items, Says (largestOfItems best items) x
  | [], _ => Or.inl rfl
  | v :: vs, h => by
    rw [largestOfItems]
    rcases says_largestOfItems (if best.length < (largestStringLeaf v).length
      then largestStringLeaf v else best) h.2 with hbest | ⟨x, hx, hsays⟩
    · rw [hbest]
      by_cases hlonger : best.length < (largestStringLeaf v).length
      · rw [if_pos hlonger]
        rcases says_largestStringLeaf h.1 with hempty | hsays
        · rw [hempty] at hlonger
          exact absurd hlonger (Nat.not_lt_zero _)
        · exact Or.inr ⟨v, List.mem_cons_self, hsays⟩
      · exact Or.inl (if_neg hlonger)
    · exact Or.inr ⟨x, List.mem_cons_of_mem _ hx, hsays⟩

theorem says_largestOfFields (best : String) : ∀ {fields : List (String × Json)},
    ReadableFields floats fields → largestOfFields best fields = best ∨
      ∃ f ∈ fields, Says (largestOfFields best fields) f.2
  | [], _ => Or.inl rfl
  | (k, v) :: rest, h => by
    rw [largestOfFields]
    rcases says_largestOfFields (if best.length < (largestStringLeaf v).length
      then largestStringLeaf v else best) h.2 with hbest | ⟨f, hf, hsays⟩
    · rw [hbest]
      by_cases hlonger : best.length < (largestStringLeaf v).length
      · rw [if_pos hlonger]
        rcases says_largestStringLeaf h.1 with hempty | hsays
        · rw [hempty] at hlonger
          exact absurd hlonger (Nat.not_lt_zero _)
        · exact Or.inr ⟨(k, v), List.mem_cons_self, hsays⟩
      · exact Or.inl (if_neg hlonger)
    · exact Or.inr ⟨f, List.mem_cons_of_mem _ hf, hsays⟩

end

mutual

theorem readable_swapLeaf (leaf compressed : String) : ∀ {v : Json}, Readable floats v →
    Readable floats (swapLeaf leaf compressed v)
  | .null, _ => trivial
  | .bool _, _ => trivial
  | .int _, _ => trivial
  | .float _, h => h
  | .str _, _ => trivial
  | .arr _, h => readableItems_swapItems leaf compressed h
  | .obj fields, h => by
    refine ⟨?_, readableFields_swapFields leaf compressed h.2⟩
    rw [swapFields_eq, List.map_map]
    exact h.1

theorem readableItems_swapItems (leaf compressed : String) : ∀ {items : List Json},
    ReadableItems floats items → ReadableItems floats (swapItems leaf compressed items)
  | [], _ => trivial
  | _ :: _, h =>
    ⟨readable_swapLeaf leaf compressed h.1, readableItems_swapItems leaf compressed h.2⟩

theorem readableFields_swapFields (leaf compressed : String) : ∀ {fields : List (String × Json)},
    ReadableFields floats fields → ReadableFields floats (swapFields leaf compressed fields)
  | [], _ => trivial
  | _ :: _, h =>
    ⟨readable_swapLeaf leaf compressed h.1, readableFields_swapFields leaf compressed h.2⟩

end

end Readable

theorem length_lt_of_compressText {st : TextStrategy} {text compressed : String}
    (h : compressText st text = some compressed) : compressed.length < text.length := by
  simp only [compressText] at h
  split at h
  · cases h
  · split at h
    · next hlt =>
      cases h
      exact hlt
    · cases h

end TokenProxy.Headroom
