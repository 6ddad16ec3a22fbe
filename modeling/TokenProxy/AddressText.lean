/-
  TokenProxy/AddressText.lean
  ===========================
  **An address is what its text is the address of.**

  What `ip_address` accepts is well formed (four octets, or eight hextets and perhaps a scope id),
  and the text of a well-formed address is accepted again, as that address: so two texts that are
  written back alike are texts of the same address.

  The text of an IPv6 address with a `::` is its hextets before the run of zeros, an empty part, and
  those after it, joined by colons; where nothing is before or after, an empty part stands for it
  (`side`).
-/
import TokenProxy.IpAddress
import TokenProxy.JoinedLists
import TokenProxy.Pointwise
import Mathlib.Algebra.Group.Nat.Defs
import Mathlib.Data.List.Basic
import Mathlib.Data.List.Nodup
import Mathlib.Data.List.Range
import Mathlib.Data.List.TakeWhile

namespace TokenProxy.IpAddress

/-! ## 1. Digits -/

theorem ofDigits_append (base : Nat) (digit : Char → Nat) (digits : List Char) (c : Char) :
    ofDigits base digit (digits ++ [c]) = base * ofDigits base digit digits + digit c := by
  simp [ofDigits]

theorem ofDigits_toDigits {base : Nat} (hbase : 1 < base) {digit : Char → Nat}
    (hdigit : ∀ d < base, digit (Nat.digitChar d) = d) (n : Nat) :
    ofDigits base digit (Nat.toDigits base n) = n := by
  induction n using Nat.strongRecOn with
  | ind n ih =>
    by_cases h : n < base
    · rw [Nat.toDigits_of_lt_base h]
      simp [ofDigits, hdigit n h]
    · have hle : base ≤ n := Nat.le_of_not_lt h
      have hdiv : n / base < n := Nat.div_lt_self (by omega) hbase
      rw [Nat.toDigits_of_base_le hbase hle, ofDigits_append, ih _ hdiv,
        hdigit _ (Nat.mod_lt n (by omega))]
      exact Nat.div_add_mod n base

theorem mem_toDigits {base n : Nat} (hbase : 1 < base) {c : Char}
    (hc : c ∈ Nat.toDigits base n) : ∃ d < base, c = Nat.digitChar d := by
  induction n using Nat.strongRecOn with
  | ind n ih =>
    by_cases h : n < base
    · rw [Nat.toDigits_of_lt_base h, List.mem_singleton] at hc
      exact ⟨n, h, hc⟩
    · have hle : base ≤ n := Nat.le_of_not_lt h
      rw [Nat.toDigits_of_base_le hbase hle, List.mem_append, List.mem_singleton] at hc
      rcases hc with hc | hc
      · exact ih _ (Nat.div_lt_self (by omega) hbase) hc
      · exact ⟨n % base, Nat.mod_lt n (by omega), hc⟩

/-- Only the number 0 is written with a leading zero. -/
theorem head?_toDigits {base n : Nat} (hbase : 1 < base)
    (h : (Nat.toDigits base n).head? = some '0') : n = 0 := by
  induction n using Nat.strongRecOn with
  | ind n ih =>
    by_cases hlt : n < base
    · rw [Nat.toDigits_of_lt_base hlt] at h
      exact Nat.digitChar_eq_zero.mp (Option.some.inj h)
    · have hle : base ≤ n := Nat.le_of_not_lt hlt
      have hdiv : 0 < n / base := Nat.div_pos hle (by omega)
      rw [Nat.toDigits_of_base_le hbase hle, List.head?_append_of_ne_nil _ Nat.toDigits_ne_nil] at h
      have hzero := ih _ (Nat.div_lt_self (by omega) hbase) h
      omega

theorem hexDigit_digitChar : ∀ d < 16,
    isHexDigit (Nat.digitChar d) = true ∧ hexDigit (Nat.digitChar d) = d := by decide

theorem decimalDigit_digitChar : ∀ d < 10,
    (Nat.digitChar d).isDigit = true ∧ decimalDigit (Nat.digitChar d) = d := by decide

theorem isHexDigit_of_mem {n : Nat} {c : Char} (hc : c ∈ Nat.toDigits 16 n) :
    isHexDigit c = true := by
  obtain ⟨d, hd, rfl⟩ := mem_toDigits (by decide) hc
  exact (hexDigit_digitChar d hd).1

theorem parseHextet_toDigits {n : Nat} (hn : n ≤ 0xffff) :
    parseHextet (Nat.toDigits 16 n) = some n := by
  have hlength : (Nat.toDigits 16 n).length ≤ 4 :=
    (Nat.length_toDigits_le_iff (by decide) (by decide)).mpr (by omega)
  have hall : (Nat.toDigits 16 n).all isHexDigit = true :=
    List.all_eq_true.mpr fun c hc => isHexDigit_of_mem hc
  have hempty : (Nat.toDigits 16 n).isEmpty = false := by simp
  have hvalue := ofDigits_toDigits (by decide) (fun d hd => (hexDigit_digitChar d hd).2) n
  rw [parseHextet, hempty, hall, hvalue]
  simp [hlength]

theorem parseOctet_toDigits {n : Nat} (hn : n ≤ 255) :
    parseOctet (Nat.toDigits 10 n) = some n := by
  have hlength : (Nat.toDigits 10 n).length ≤ 3 :=
    (Nat.length_toDigits_le_iff (by decide) (by decide)).mpr (by omega)
  have hall : (Nat.toDigits 10 n).all Char.isDigit = true := by
    refine List.all_eq_true.mpr fun c hc => ?_
    obtain ⟨d, hd, rfl⟩ := mem_toDigits (by decide) hc
    exact (decimalDigit_digitChar d hd).1
  have hempty : (Nat.toDigits 10 n).isEmpty = false := by simp
  have hvalue := ofDigits_toDigits (by decide) (fun d hd => (decimalDigit_digitChar d hd).2) n
  have hzero : ¬ (Nat.toDigits 10 n ≠ ['0'] ∧ (Nat.toDigits 10 n).head? = some '0') := by
    rintro ⟨hne, hhead⟩
    rw [head?_toDigits (by decide) hhead] at hne
    exact hne rfl
  rw [parseOctet, hempty, hall, hvalue]
  simpa [hlength, Nat.not_lt.mpr hn] using hzero

/-! ## 2. Well-formed addresses -/

/-- The octets are bytes; there are eight hextets of two bytes; a scope id is neither empty nor has
    it a `%` or a `/`. -/
def Address.WellFormed : Address → Prop
  | .v4 a b c d => a ≤ 255 ∧ b ≤ 255 ∧ c ≤ 255 ∧ d ≤ 255
  | .v6 hextets scope => hextets.length = 8 ∧ (∀ h ∈ hextets, h ≤ 0xffff) ∧
      ∀ id ∈ scope, id ≠ [] ∧ '%' ∉ id ∧ '/' ∉ id

/-! ## 3. The run of zeros -/

/-- Here the hextets have a run of this many zeros. -/
def ZerosAt (hextets : List Nat) (run : Nat × Nat) : Prop :=
  run.1 + run.2 ≤ hextets.length ∧
    (hextets.drop run.1).take run.2 = List.replicate run.2 0

theorem zerosAt_run (hextets : List Nat) {start : Nat} (hstart : start ≤ hextets.length) :
    ZerosAt hextets (start, ((hextets.drop start).takeWhile (· = 0)).length) := by
  constructor
  · have hle := (List.takeWhile_prefix (l := hextets.drop start) (p := (· = 0))).length_le
    rw [List.length_drop] at hle
    change start + _ ≤ _
    omega
  · have hprefix := List.takeWhile_prefix (l := hextets.drop start) (p := (· = 0))
    rw [← List.prefix_iff_eq_take.mp hprefix, List.eq_replicate_iff]
    exact ⟨rfl, fun h hh => by simpa using List.mem_takeWhile_imp hh⟩

theorem zerosAt_longestZeros (hextets : List Nat) : ZerosAt hextets (longestZeros hextets) := by
  refine List.foldlRecOn _ _ ⟨Nat.zero_le _, rfl⟩ fun best hbest start hstart => ?_
  change ZerosAt hextets (if _ then _ else _)
  split
  · exact zerosAt_run hextets (List.mem_range.mp hstart).le
  · exact hbest

/-- The hextets around a run of zeros. -/
theorem ZerosAt.eq {hextets : List Nat} {run : Nat × Nat} (h : ZerosAt hextets run) :
    hextets.take run.1 ++ List.replicate run.2 0 ++ hextets.drop (run.1 + run.2) = hextets := by
  rw [← h.2, List.append_assoc, ← List.drop_drop, List.take_append_drop, List.take_append_drop]

/-! ## 4. The parts of an IPv6 text -/

def digitsOf (hextets : List Nat) : List (List Char) := hextets.map (Nat.toDigits 16)

theorem digitsOf_ne_nil {hextets : List Nat} {part : List Char} (h : part ∈ digitsOf hextets) :
    part ≠ [] := by
  obtain ⟨n, -, rfl⟩ := List.mem_map.mp h
  exact Nat.toDigits_ne_nil

theorem isHexDigit_of_mem_digitsOf {hextets : List Nat} {part : List Char}
    (h : part ∈ digitsOf hextets) {c : Char} (hc : c ∈ part) : isHexDigit c = true := by
  obtain ⟨n, -, rfl⟩ := List.mem_map.mp h
  exact isHexDigit_of_mem hc

/-- The hextets on one side of a `::`, as the parts of its text: no hextet is an empty part. -/
def side (hextets : List Nat) : List (List Char) :=
  if hextets = [] then [[]] else digitsOf hextets

theorem side_ne_nil (hextets : List Nat) : side hextets ≠ [] := by
  unfold side
  split
  · simp
  · next h => simpa [digitsOf] using h

theorem isHexDigit_of_mem_side {hextets : List Nat} {part : List Char} (h : part ∈ side hextets)
    {c : Char} (hc : c ∈ part) : isHexDigit c = true := by
  unfold side at h
  split at h
  · rw [List.mem_singleton.mp h] at hc
    cases hc
  · exact isHexDigit_of_mem_digitsOf h hc

theorem length_side (hextets : List Nat) :
    (side hextets).length = max 1 hextets.length := by
  unfold side
  split
  · next h => simp [h]
  · next h =>
    have hpos := List.length_pos_iff.mpr h
    rw [digitsOf, List.length_map]
    omega

theorem joinHextets_eq_side (hextets : List Nat) :
    joinHextets hextets = [':'].intercalate (side hextets) := by
  unfold side
  split
  · next h => rw [h]; rfl
  · rfl

/-- An empty part is alone on its side. -/
theorem getElem?_side {hextets : List Nat} {i : Nat} (h : (side hextets)[i]? = some []) :
    i = 0 ∧ (side hextets).length = 1 := by
  unfold side at h ⊢
  split
  · next hnil =>
    rw [if_pos hnil] at h
    have hlt := (List.getElem?_eq_some_iff.mp h).1
    simp only [List.length_singleton] at hlt
    exact ⟨by omega, rfl⟩
  · next hcons =>
    rw [if_neg hcons] at h
    exact absurd rfl (digitsOf_ne_nil (List.mem_of_getElem? h))

theorem intercalate_append {α : Type*} (sep : List α) {xs ys : List (List α)} (hxs : xs ≠ [])
    (hys : ys ≠ []) :
    sep.intercalate (xs ++ ys) = sep.intercalate xs ++ sep ++ sep.intercalate ys := by
  induction xs with
  | nil => exact absurd rfl hxs
  | cons x xs ih =>
    by_cases h : xs = []
    · subst h
      rw [List.singleton_append, List.intercalate_cons_of_ne_nil hys, List.intercalate_singleton,
        List.append_assoc]
    · have hne : xs ++ ys ≠ [] := by simp [h]
      rw [List.cons_append, List.intercalate_cons_of_ne_nil hne, ih h,
        List.intercalate_cons_of_ne_nil h]
      simp only [List.append_assoc]

/-- The parts of the text of the hextets. -/
def textParts (hextets : List Nat) : List (List Char) :=
  let run := longestZeros hextets
  if 1 < run.2 then
    side (hextets.take run.1) ++ [[]] ++ side (hextets.drop (run.1 + run.2))
  else digitsOf hextets

theorem compress_eq_textParts (hextets : List Nat) :
    compress hextets = [':'].intercalate (textParts hextets) := by
  unfold compress textParts
  simp only
  split
  · rw [joinHextets_eq_side, joinHextets_eq_side,
      intercalate_append _ (by simp) (side_ne_nil _),
      intercalate_append _ (side_ne_nil _) (by simp), List.intercalate_singleton]
    simp
  · rfl

theorem isHexDigit_of_mem_textParts {hextets : List Nat} {part : List Char}
    (h : part ∈ textParts hextets) {c : Char} (hc : c ∈ part) : isHexDigit c = true := by
  unfold textParts at h
  simp only at h
  split at h
  · rcases List.mem_append.mp h with h | h
    · rcases List.mem_append.mp h with h | h
      · exact isHexDigit_of_mem_side h hc
      · rw [List.mem_singleton.mp h] at hc
        cases hc
    · exact isHexDigit_of_mem_side h hc
  · exact isHexDigit_of_mem_digitsOf h hc

theorem splitOn_compress {hextets : List Nat} (hne : hextets ≠ []) :
    (compress hextets).splitOn ':' = textParts hextets := by
  rw [compress_eq_textParts]
  refine List.splitOn_intercalate ':' (fun part hpart hcolon => ?_) ?_
  · have hhex := isHexDigit_of_mem_textParts hpart hcolon
    revert hhex
    decide
  · unfold textParts
    simp only
    split
    · simp
    · simpa [digitsOf] using hne

/-! ## 5. An IPv6 text is read back -/

theorem parts_mapM {hextets : List Nat} (h : ∀ n ∈ hextets, n ≤ 0xffff) :
    (digitsOf hextets).mapM parseHextet = some hextets := by
  rw [digitsOf, List.mapM_map]
  have hread : ∀ n ∈ hextets, (parseHextet ∘ Nat.toDigits 16) n = some (id n) :=
    fun n hn => parseHextet_toDigits (h n hn)
  have hall := Pointwise.mapM_eq_map hread
  rwa [List.map_id] at hall

theorem besideSkip_of_ne_nil {parts : List (List Char)} (h : ∀ part ∈ parts, part ≠ []) :
    besideSkip parts = some parts := by
  cases parts with
  | nil => rfl
  | cons part rest =>
    cases part with
    | nil => exact absurd rfl (h [] List.mem_cons_self)
    | cons c cs => rfl

theorem besideSkip_side (hextets : List Nat) :
    besideSkip (side hextets) = some (digitsOf hextets) := by
  unfold side
  split
  · next h => rw [h]; rfl
  · exact besideSkip_of_ne_nil fun part => digitsOf_ne_nil

theorem besideSkip_side_reverse (hextets : List Nat) :
    besideSkip (side hextets).reverse = some (digitsOf hextets).reverse := by
  unfold side
  split
  · next h => rw [h]; rfl
  · exact besideSkip_of_ne_nil fun part hpart => digitsOf_ne_nil (List.mem_reverse.mp hpart)

theorem expandIpv4_of_hex {parts : List (List Char)}
    (h : ∀ part ∈ parts, ∀ c ∈ part, isHexDigit c = true) : expandIpv4 parts = some parts := by
  have hlast : '.' ∉ parts.getLast?.getD [] := by
    intro hdot
    cases hparts : parts.getLast? with
    | none => rw [hparts] at hdot; cases hdot
    | some last =>
      rw [hparts] at hdot
      have hhex := h last (List.mem_of_getLast? hparts) '.' hdot
      revert hhex
      decide
  rw [expandIpv4, if_neg hlast]

/-- The one number below `n` with a property. -/
theorem filter_range_eq {n k : Nat} (hk : k < n) {p : Nat → Bool}
    (hp : ∀ i < n, p i = true ↔ i = k) : (List.range n).filter p = [k] := by
  have hcongr : (List.range n).filter p = (List.range n).filter (· == k) :=
    List.filter_congr fun i hi => by
      rw [Bool.eq_iff_iff, hp i (List.mem_range.mp hi), beq_iff_eq]
  rw [hcongr, List.filter_beq, List.count_eq_one_of_mem List.nodup_range (List.mem_range.mpr hk),
    List.replicate_one]

/-- Between two sides, only the part between them is empty and not at an end. -/
theorem skips_sides (above below : List Nat) :
    (List.range (side above ++ [[]] ++ side below).length).filter (fun i =>
      0 < i && i + 1 < (side above ++ [[]] ++ side below).length &&
        (side above ++ [[]] ++ side below)[i]? = some []) = [(side above).length] := by
  have habove : 0 < (side above).length := List.length_pos_iff.mpr (side_ne_nil above)
  have hbelow : 0 < (side below).length := List.length_pos_iff.mpr (side_ne_nil below)
  have hlength : (side above ++ [[]] ++ side below).length =
      (side above).length + 1 + (side below).length := by simp [Nat.add_assoc, Nat.add_comm 1]
  rw [hlength]
  refine filter_range_eq (by omega) fun i hi => ?_
  simp only [Bool.and_eq_true, decide_eq_true_eq]
  constructor
  · rintro ⟨⟨hpos, hend⟩, hnil⟩
    rcases Nat.lt_trichotomy i (side above).length with hlt | heq | hgt
    · rw [List.append_assoc, List.getElem?_append_left hlt] at hnil
      exact absurd (getElem?_side hnil).1 (by omega)
    · exact heq
    · have hle : (side above ++ [[]]).length ≤ i := by simp; omega
      rw [List.getElem?_append_right hle] at hnil
      have hside := getElem?_side hnil
      simp only [List.length_append, List.length_singleton] at hside
      omega
  · rintro rfl
    refine ⟨⟨habove, by omega⟩, ?_⟩
    rw [List.append_assoc, List.getElem?_append_right le_rfl]
    simp

/-- Between digits there is no empty part. -/
theorem skips_digits (hextets : List Nat) :
    (List.range (digitsOf hextets).length).filter (fun i =>
      0 < i && i + 1 < (digitsOf hextets).length && (digitsOf hextets)[i]? = some []) = [] := by
  refine List.filter_eq_nil_iff.mpr fun i _ hi => ?_
  simp only [Bool.and_eq_true, decide_eq_true_eq] at hi
  exact digitsOf_ne_nil (List.mem_of_getElem? hi.2) rfl

/-- The hextets around a `::` in the parts are read, and zeros put between them. -/
theorem hextets_of_sides {above below : List Nat} (hshort : above.length + below.length < 8)
    (habove : ∀ n ∈ above, n ≤ 0xffff) (hbelow : ∀ n ∈ below, n ≤ 0xffff) :
    hextetsOf ([':'].intercalate (side above ++ [[]] ++ side below)) =
      some (above ++ List.replicate (8 - (above.length + below.length)) 0 ++ below) := by
  have hhex : ∀ part ∈ side above ++ [[]] ++ side below, ∀ c ∈ part, isHexDigit c = true := by
    intro part hpart c hc
    rcases List.mem_append.mp hpart with hpart | hpart
    · rcases List.mem_append.mp hpart with hpart | hpart
      · exact isHexDigit_of_mem_side hpart hc
      · rw [List.mem_singleton.mp hpart] at hc
        cases hc
    · exact isHexDigit_of_mem_side hpart hc
  have hsplit : ([':'].intercalate (side above ++ [[]] ++ side below)).splitOn ':' =
      side above ++ [[]] ++ side below := by
    apply List.splitOn_intercalate ':'
    · intro part hpart hcolon
      have hcontra := hhex part hpart ':' hcolon
      revert hcontra
      decide
    · simp
  have htake : (side above ++ [[]] ++ side below).take (side above).length = side above := by
    rw [List.append_assoc, List.take_left]
  have hdrop : (side above ++ [[]] ++ side below).drop ((side above).length + 1) = side below :=
    List.drop_left' (by simp)
  have hlength : (side above ++ [[]] ++ side below).length =
      (side above).length + 1 + (side below).length := by simp [Nat.add_assoc, Nat.add_comm 1]
  have hdigits : ∀ hextets, (digitsOf hextets).length = hextets.length := fun hextets =>
    List.length_map _
  unfold hextetsOf
  rw [hsplit]
  simp only [expandIpv4_of_hex hhex, Option.bind_eq_bind, Option.bind_some, skips_sides above below,
    htake, hdrop, besideSkip_side, besideSkip_side_reverse, List.reverse_reverse,
    parts_mapM habove, parts_mapM hbelow, List.length_reverse, hdigits]
  have hle := length_side above
  have hle' := length_side below
  rw [if_neg (by omega), if_neg (by omega), if_neg (by omega)]

theorem hextetsOf_compress {hextets : List Nat} (hlength : hextets.length = 8)
    (hbound : ∀ n ∈ hextets, n ≤ 0xffff) : hextetsOf (compress hextets) = some hextets := by
  have hne : hextets ≠ [] := by
    rintro rfl
    cases hlength
  have hrun := zerosAt_longestZeros hextets
  by_cases hskip : 1 < (longestZeros hextets).2
  · have hparts : textParts hextets = side (hextets.take (longestZeros hextets).1) ++ [[]] ++
        side (hextets.drop ((longestZeros hextets).1 + (longestZeros hextets).2)) := if_pos hskip
    have heq := hrun.eq
    have hle := hrun.1
    rw [compress_eq_textParts, hparts, hextets_of_sides]
    · have hzeros : 8 - ((hextets.take (longestZeros hextets).1).length +
          (hextets.drop ((longestZeros hextets).1 + (longestZeros hextets).2)).length) =
            (longestZeros hextets).2 := by
        simp only [List.length_take, List.length_drop]
        omega
      rw [hzeros, heq]
    · simp only [List.length_take, List.length_drop]
      omega
    · exact fun n hn => hbound n (List.mem_of_mem_take hn)
    · exact fun n hn => hbound n (List.mem_of_mem_drop hn)
  · have hparts : textParts hextets = digitsOf hextets := if_neg hskip
    have hexpand : expandIpv4 (digitsOf hextets) = some (digitsOf hextets) :=
      expandIpv4_of_hex fun part hpart c hc => isHexDigit_of_mem_digitsOf hpart hc
    have height : (digitsOf hextets).length = 8 := by rw [digitsOf, List.length_map, hlength]
    unfold hextetsOf
    rw [splitOn_compress hne, hparts]
    simp only [hexpand, Option.bind_eq_bind, Option.bind_some, skips_digits, parts_mapM hbound]
    simp [height]

/-! ## 6. Every text is read back -/

theorem isDigit_of_mem_toDigits {n : Nat} {c : Char} (hc : c ∈ Nat.toDigits 10 n) :
    c.isDigit = true := by
  obtain ⟨d, hd, rfl⟩ := mem_toDigits (by decide) hc
  exact (decimalDigit_digitChar d hd).1

theorem ipv4Octets_toText {a b c d : Nat} (h : (Address.v4 a b c d).WellFormed) :
    ipv4Octets (Address.v4 a b c d).toText.toList = some (a, b, c, d) := by
  obtain ⟨ha, hb, hc, hd⟩ := h
  have htext : (Address.v4 a b c d).toText.toList =
      ['.'].intercalate ([a, b, c, d].map (Nat.toDigits 10)) := by
    simp [Address.toText]
  have hsplit : (['.'].intercalate ([a, b, c, d].map (Nat.toDigits 10))).splitOn '.' =
      [a, b, c, d].map (Nat.toDigits 10) := by
    apply List.splitOn_intercalate '.'
    · intro part hpart hdot
      obtain ⟨n, -, rfl⟩ := List.mem_map.mp hpart
      have hdigit := isDigit_of_mem_toDigits hdot
      revert hdigit
      decide
    · simp
  rw [ipv4Octets, htext, hsplit]
  simp [parseOctet_toDigits, ha, hb, hc, hd]

/-- What `_parse_octet` accepts: digits, of a byte. -/
theorem parseOctet_eq_some {octet : List Char} {n : Nat} (h : parseOctet octet = some n) :
    (∀ c ∈ octet, c.isDigit = true) ∧ n ≤ 255 := by
  unfold parseOctet at h
  split at h
  · cases h
  · next hvalid =>
    simp only [Bool.or_eq_true, not_or, Bool.not_eq_true, Bool.not_eq_false'] at hvalid h
    split at h
    · cases h
    · next hsmall =>
      cases h
      exact ⟨List.all_eq_true.mp hvalid.1.1.2, Nat.le_of_not_lt hsmall⟩

/-- A text with a colon is no IPv4 address. -/
theorem ipv4Octets_of_colon {text : List Char} (h : ':' ∈ text) : ipv4Octets text = none := by
  obtain ⟨part, hpart, hcolon⟩ : ∃ part ∈ text.splitOn '.', ':' ∈ part := by
    have hjoin : ['.'].intercalate (text.splitOn '.') = text := List.intercalate_splitOn '.'
    rw [← hjoin] at h
    exact (Joined.mem_of_mem_intercalate h).resolve_left (by decide)
  unfold ipv4Octets
  cases hparts : (text.splitOn '.').mapM parseOctet with
  | none => rfl
  | some octets =>
    obtain ⟨n, -, hn⟩ :=
      Pointwise.exists_right_of_forall₂ (Pointwise.forall₂_of_mapM hparts) hpart
    exact absurd ((parseOctet_eq_some hn).1 ':' hcolon) (by decide)

theorem isHexDigit_of_mem_compress {hextets : List Nat} {c : Char} (hc : c ∈ compress hextets) :
    c = ':' ∨ isHexDigit c = true := by
  rw [compress_eq_textParts] at hc
  rcases Joined.mem_of_mem_intercalate hc with hcolon | ⟨part, hpart, hc⟩
  · exact Or.inl hcolon
  · exact Or.inr (isHexDigit_of_mem_textParts hpart hc)

/-- Neither a `%` nor a `/` is part of the hextets' text. -/
theorem notMem_compress {hextets : List Nat} {c : Char} (hcolon : c ≠ ':')
    (hhex : isHexDigit c = false) : c ∉ compress hextets := by
  intro hc
  rcases isHexDigit_of_mem_compress hc with heq | hdigit
  · exact hcolon heq
  · rw [hhex] at hdigit
    cases hdigit

theorem two_le_length_textParts {hextets : List Nat} (hlength : hextets.length = 8) :
    2 ≤ (textParts hextets).length := by
  have hone := length_side (hextets.take (longestZeros hextets).1)
  have htwo := length_side (hextets.drop ((longestZeros hextets).1 + (longestZeros hextets).2))
  unfold textParts
  simp only
  split
  · simp only [List.length_append, List.length_singleton]
    omega
  · rw [digitsOf, List.length_map, hlength]
    decide

theorem colon_mem_compress {hextets : List Nat} (hlength : hextets.length = 8) :
    ':' ∈ compress hextets := by
  have htwo := two_le_length_textParts hlength
  rw [compress_eq_textParts]
  generalize textParts hextets = parts at htwo
  cases parts with
  | nil => simp at htwo
  | cons first rest =>
    cases rest with
    | nil => simp at htwo
    | cons second rest =>
      rw [List.intercalate_cons_cons]
      simp

theorem splitScopeId_none {text : List Char} (h : '%' ∉ text) :
    splitScopeId text = some (text, none) := by
  have hdrop : text.dropWhile (· ≠ '%') = [] := by
    apply List.dropWhile_eq_nil_iff.mpr
    intro c hc
    have hne : c ≠ '%' := fun heq => h (heq ▸ hc)
    simpa using hne
  rw [splitScopeId, hdrop]

theorem splitScopeId_some {text id : List Char} (h : '%' ∉ text) (hid : id ≠ [])
    (hmore : '%' ∉ id) : splitScopeId (text ++ '%' :: id) = some (text, some id) := by
  have hall : ∀ c ∈ text, decide (c ≠ '%') = true := by
    intro c hc
    have hne : c ≠ '%' := fun heq => h (heq ▸ hc)
    simpa using hne
  have hdrop : (text ++ '%' :: id).dropWhile (· ≠ '%') = '%' :: id := by
    rw [List.dropWhile_append_of_pos hall]
    simp
  have htake : (text ++ '%' :: id).takeWhile (· ≠ '%') = text := by
    rw [List.takeWhile_append_of_pos hall]
    simp
  rw [splitScopeId, hdrop, htake]
  simp [hid, hmore]

/-- The text of a well-formed address is a text of that address. -/
theorem ipAddress?_toText {addr : Address} (h : addr.WellFormed) :
    ipAddress? addr.toText.toList = some addr := by
  cases addr with
  | v4 a b c d => rw [ipAddress?, ipv4Octets_toText h]
  | v6 hextets scope =>
    obtain ⟨hlength, hbound, hscope⟩ := h
    have hslash : '/' ∉ compress hextets := notMem_compress (by decide) (by decide)
    have hpercent : '%' ∉ compress hextets := notMem_compress (by decide) (by decide)
    have hcolon := colon_mem_compress hlength
    have hread := hextetsOf_compress hlength hbound
    cases scope with
    | none =>
      have htext : (Address.v6 hextets none).toText.toList = compress hextets := by
        simp [Address.toText]
      rw [htext, ipAddress?, ipv4Octets_of_colon hcolon]
      simp [hslash, splitScopeId_none hpercent, hread]
    | some id =>
      obtain ⟨hid, hmore, hnoslash⟩ := hscope id rfl
      have htext : (Address.v6 hextets (some id)).toText.toList =
          compress hextets ++ '%' :: id := by
        simp [Address.toText]
      have hmem : ':' ∈ compress hextets ++ '%' :: id := List.mem_append_left _ hcolon
      rw [htext, ipAddress?, ipv4Octets_of_colon hmem]
      simp [hslash, hnoslash, splitScopeId_some hpercent hid hmore, hread]

/-! ## 7. What is read is well formed -/

theorem ofDigits_lt {base : Nat} {digit : Char → Nat} {digits : List Char}
    (h : ∀ c ∈ digits, digit c < base) : ofDigits base digit digits < base ^ digits.length := by
  induction digits using List.reverseRecOn with
  | nil => simp [ofDigits]
  | append_singleton digits c ih =>
    have hc := h c (by simp)
    have hrest := ih fun d hd => h d (List.mem_append_left _ hd)
    have hlast : base * ofDigits base digit digits + digit c
        < base * (ofDigits base digit digits + 1) := by
      rw [Nat.mul_add, Nat.mul_one]
      exact Nat.add_lt_add_left hc _
    rw [ofDigits_append, List.length_append, List.length_singleton, Nat.pow_succ,
      Nat.mul_comm (base ^ _)]
    exact Nat.lt_of_lt_of_le hlast (Nat.mul_le_mul_left _ hrest)

theorem hexDigit_lt_of_lt : ∀ n < 128, isHexDigit (Char.ofNat n) = true →
    hexDigit (Char.ofNat n) < 16 := by decide

theorem hexDigit_lt {c : Char} (h : isHexDigit c = true) : hexDigit c < 16 := by
  have hbound : c.toNat < 128 := by
    simp only [isHexDigit, Bool.or_eq_true, Bool.and_eq_true, decide_eq_true_eq,
      Char.isDigit_iff_toNat, Char.le_def, UInt32.le_iff_toNat_le] at h
    have hval : c.toNat = c.val.toNat := rfl
    have hends : '9'.toNat = 57 ∧ 'f'.val.toNat = 102 ∧ 'F'.val.toNat = 70 := by decide
    omega
  have hlt := hexDigit_lt_of_lt c.toNat hbound
  rw [Char.ofNat_toNat] at hlt
  exact hlt h

theorem parseHextet_le {hextet : List Char} {n : Nat} (h : parseHextet hextet = some n) :
    n ≤ 0xffff := by
  unfold parseHextet at h
  split at h
  · cases h
  · next hvalid =>
    simp only [Bool.or_eq_true, not_or, Bool.not_eq_true, Bool.not_eq_false',
      decide_eq_false_iff_not] at hvalid
    cases h
    have hdigits : ∀ c ∈ hextet, hexDigit c < 16 := fun c hc =>
      hexDigit_lt (List.all_eq_true.mp hvalid.1.2 c hc)
    have hlt := ofDigits_lt hdigits
    have hpow : 16 ^ hextet.length ≤ 16 ^ 4 :=
      Nat.pow_le_pow_right (by decide) (Nat.le_of_not_lt hvalid.2)
    omega

theorem forall_of_mapM_parseHextet {parts : List (List Char)} {hextets : List Nat}
    (h : parts.mapM parseHextet = some hextets) :
    hextets.length = parts.length ∧ ∀ n ∈ hextets, n ≤ 0xffff := by
  have hall := Pointwise.forall₂_of_mapM h
  refine ⟨hall.length_eq.symm, fun n hn => ?_⟩
  obtain ⟨part, -, hpart⟩ := Pointwise.exists_left_of_forall₂ hall hn
  exact parseHextet_le hpart

theorem hextetsOf_eq_some {addr : List Char} {hextets : List Nat}
    (h : hextetsOf addr = some hextets) :
    hextets.length = 8 ∧ ∀ n ∈ hextets, n ≤ 0xffff := by
  unfold hextetsOf at h
  simp only at h
  split at h
  · cases h
  · obtain ⟨parts, -, h⟩ := Option.bind_eq_some_iff.mp h
    split at h
    · cases h
    · split at h
      · split at h
        · cases h
        · next height =>
          obtain ⟨hlength, hbound⟩ := forall_of_mapM_parseHextet h
          exact ⟨hlength.trans (not_not.mp height), hbound⟩
      · obtain ⟨above, -, h⟩ := Option.bind_eq_some_iff.mp h
        obtain ⟨below, -, h⟩ := Option.bind_eq_some_iff.mp h
        split at h
        · cases h
        · next hshort =>
          obtain ⟨high, hhigh, h⟩ := Option.bind_eq_some_iff.mp h
          obtain ⟨low, hlow, h⟩ := Option.bind_eq_some_iff.mp h
          cases h
          obtain ⟨hhighLength, hhighBound⟩ := forall_of_mapM_parseHextet hhigh
          obtain ⟨hlowLength, hlowBound⟩ := forall_of_mapM_parseHextet hlow
          rw [List.length_reverse] at hlowLength
          constructor
          · simp only [List.length_append, List.length_replicate]
            omega
          · intro n hn
            simp only [List.mem_append, List.mem_replicate] at hn
            rcases hn with (hn | ⟨-, rfl⟩) | hn
            · exact hhighBound n hn
            · exact Nat.zero_le _
            · exact hlowBound n hn
      · cases h

theorem ipv4Octets_le {text : List Char} {a b c d : Nat}
    (h : ipv4Octets text = some (a, b, c, d)) : (Address.v4 a b c d).WellFormed := by
  unfold ipv4Octets at h
  split at h
  · next hparts =>
    cases h
    have hall := Pointwise.forall₂_of_mapM hparts
    have hle : ∀ n ∈ [a, b, c, d], n ≤ 255 := by
      intro n hn
      obtain ⟨part, -, hpart⟩ := Pointwise.exists_left_of_forall₂ hall hn
      exact (parseOctet_eq_some hpart).2
    simpa [Address.WellFormed] using hle
  · cases h

theorem scope_of_splitScopeId {text rest : List Char} {scope : Option (List Char)}
    (h : splitScopeId text = some (rest, scope)) (hslash : '/' ∉ text) :
    ∀ id ∈ scope, id ≠ [] ∧ '%' ∉ id ∧ '/' ∉ id := by
  unfold splitScopeId at h
  split at h
  · cases h
    simp
  · next c id hdrop =>
    split at h
    · cases h
    · next hvalid =>
      cases h
      simp only [Bool.or_eq_true, not_or, Bool.not_eq_true, List.isEmpty_eq_false_iff,
        decide_eq_false_iff_not] at hvalid
      rintro _ ⟨⟩
      refine ⟨hvalid.1, hvalid.2, fun hmem => hslash ?_⟩
      have hsuffix := List.dropWhile_suffix (l := text) (p := fun c => decide (c ≠ '%'))
      rw [hdrop] at hsuffix
      exact hsuffix.subset (List.mem_cons_of_mem _ hmem)

/-- What is read is well formed. -/
theorem wellFormed_of_ipAddress? {text : List Char} {addr : Address}
    (h : ipAddress? text = some addr) : addr.WellFormed := by
  unfold ipAddress? at h
  split at h
  · next octets hoctets =>
    cases h
    exact ipv4Octets_le hoctets
  · split at h
    · cases h
    · next hslash =>
      obtain ⟨split, hsplit, h⟩ := Option.bind_eq_some_iff.mp h
      obtain ⟨hextets, hhextets, h⟩ := Option.bind_eq_some_iff.mp h
      cases h
      obtain ⟨hlength, hbound⟩ := hextetsOf_eq_some hhextets
      exact ⟨hlength, hbound, scope_of_splitScopeId hsplit hslash⟩

theorem wellFormed_unmapped {addr : Address} (h : addr.WellFormed) :
    addr.unmapped.WellFormed := by
  unfold Address.unmapped
  split
  · next high low scope =>
    obtain ⟨-, hbound, -⟩ := h
    have hhigh := hbound high (by simp)
    have hlow := hbound low (by simp)
    refine ⟨?_, ?_, ?_, ?_⟩ <;> omega
  · exact h

end TokenProxy.IpAddress
