/-
  TokenProxy/IpAllowlist.lean
  ===========================
  **The source-address allowlist** (`net/ip_allowlist.py`), over Python's `ip_network`.

  A list of networks admits an address when one of its readable entries is of the address's family
  and agrees with it in the bits that its mask keeps.  The mask is written as its length or, for
  IPv4, as the mask itself or as its complement; the code compares under the mask, and what is
  proved is said of the leading bits.
-/
import TokenProxy.AddressText
import TokenProxy.BitMasks
import TokenProxy.ClientIp
import TokenProxy.KeyStore

namespace TokenProxy.IpAddress

open TokenProxy.BitMasks

/-! ## 1. Addresses as numbers -/

inductive Family where
  | v4
  | v6
deriving DecidableEq, Repr

/-- `_max_prefixlen`. -/
def Family.bits : Family → Nat
  | .v4 => 32
  | .v6 => 128

namespace Address

def family : Address → Family
  | v4 _ _ _ _ => .v4
  | v6 _ _ => .v6

/-- `int(addr)`. -/
def toNat : Address → Nat
  | v4 a b c d => ((a * 256 + b) * 256 + c) * 256 + d
  | v6 hextets _ => hextets.foldl (fun n hextet => n * 65536 + hextet) 0

end Address

theorem foldl_hextets_lt {hextets : List Nat} (h : ∀ n ∈ hextets, n ≤ 0xffff) :
    hextets.foldl (fun n hextet => n * 65536 + hextet) 0 < 65536 ^ hextets.length := by
  induction hextets using List.reverseRecOn with
  | nil => simp
  | append_singleton hextets last ih =>
    have hlast := h last (by simp)
    have hrest := ih fun n hn => h n (List.mem_append_left _ hn)
    rw [List.foldl_append, List.foldl_cons, List.foldl_nil, List.length_append,
      List.length_singleton, Nat.pow_succ]
    omega

theorem Address.WellFormed.toNat_lt {addr : Address} (h : addr.WellFormed) :
    addr.toNat < 2 ^ addr.family.bits := by
  cases addr with
  | v4 a b c d =>
    obtain ⟨ha, hb, hc, hd⟩ := h
    change ((a * 256 + b) * 256 + c) * 256 + d < 4294967296
    omega
  | v6 hextets scope =>
    obtain ⟨hlength, hbound, -⟩ := h
    have hlt := foldl_hextets_lt hbound
    rw [hlength] at hlt
    exact hlt

/-! ## 2. Networks -/

/-- A network: its first bits, the others cleared. -/
structure Network where
  family : Family
  prefixlen : Nat
  base : Nat
  prefixlen_le : prefixlen ≤ family.bits
  masked : base &&& leadingOnes family.bits prefixlen = base

/-- The network of an address, its host bits cleared. -/
def Network.of (addr : Address) (len : Nat) (hlen : len ≤ addr.family.bits) : Network where
  family := addr.family
  prefixlen := len
  base := addr.toNat &&& leadingOnes addr.family.bits len
  prefixlen_le := hlen
  masked := land_land_self _ _

/-- `addr in net`, of one family. -/
def Network.contains (net : Network) (addr : Address) : Bool :=
  addr.family = net.family &&
    addr.toNat &&& leadingOnes net.family.bits net.prefixlen = net.base

/-- `_split_optional_netmask`. -/
def splitMask? (text : List Char) : Option (List Char × Option (List Char)) :=
  match text.splitOn '/' with
  | [addr] => some (addr, none)
  | [addr, mask] => some (addr, some mask)
  | _ => none

/-- What `int` reads at most. -/
def maxDigits : Nat := 4300

/-- `_prefix_from_prefix_string`. -/
def prefixOfDigits? (family : Family) (text : List Char) : Option Nat :=
  if text.isEmpty || !text.all Char.isDigit || maxDigits < text.length then none
  else
    let len := ofDigits 10 decimalDigit text
    if family.bits < len then none else some len

/-- `_prefix_from_ip_string`: of a mask, or of the complement of one. -/
def prefixOfMask? (text : List Char) : Option Nat := do
  let octets ← ipv4Octets text
  let mask := (Address.v4 octets.1 octets.2.1 octets.2.2.1 octets.2.2.2).toNat
  match maskLength? 32 mask with
  | some len => some len
  | none => maskLength? 32 (mask ^^^ allOnes 32)

/-- `_make_netmask`. -/
def prefixOf? (family : Family) : Option (List Char) → Option Nat
  | none => some family.bits
  | some text =>
    match prefixOfDigits? family text, family with
    | some len, _ => some len
    | none, .v4 => prefixOfMask? text
    | none, .v6 => none

/-- `ip_network(text, strict=False)`.  The address is of one family or none, and only its family's
    masks are tried. -/
def ipNetwork? (text : List Char) : Option Network := do
  let split ← splitMask? text
  let addr ← ipAddress? split.1
  let len ← prefixOf? addr.family split.2
  if h : len ≤ addr.family.bits then some (Network.of addr len h) else none

end TokenProxy.IpAddress

namespace TokenProxy.IpAllowlist

open TokenProxy.IpAddress
open TokenProxy.BitMasks
open TokenProxy.KeyStore (strip Builtins)

/-! ## 3. The allowlist -/

variable (py : Builtins)

/-- `_parse_networks`: an entry that is no network is skipped. -/
def parseNetworks (cidrs : List Json) : List Network :=
  cidrs.filterMap fun cidr => ipNetwork? (strip (py.str cidr)).toList

/-- `list(value)`; `none` is a `TypeError`. -/
def listOf : Json → Option (List Json)
  | .arr items => some items
  | .str s => some (s.toList.map fun c => .str (.singleton c))
  | .obj fields => some (fields.map fun field => .str field.1)
  | _ => none

/-- `ip_allowed`; `none` where a list is none. -/
def ipAllowed (ip : String) (globalCidrs : Json) (tenantCidrs : List String) : Option Bool :=
  if !globalCidrs.truthy && tenantCidrs.isEmpty then some true
  else
    match ipAddress? (strip ip).toList with
    | none => some false
    | some addr => do
      let cidrs ← listOf (globalCidrs.orElse (.arr []))
      some ((parseNetworks py (cidrs ++ tenantCidrs.map .str)).any (·.contains addr.unmapped))

/-! ## 4. What a CIDR says -/

/-- A text says an address and how many of its leading bits count: all of them, a number, or as
    many as a dotted mask has, or its complement.  All zeros and all ones are masks, and no
    complements. -/
inductive Cidr : List Char → Address → Nat → Prop
  | address {text : List Char} {base : Address} :
      '/' ∉ text → ipAddress? text = some base → Cidr text base base.family.bits
  | length {text digits : List Char} {base : Address} :
      '/' ∉ text → ipAddress? text = some base → digits ≠ [] →
      (∀ c ∈ digits, c.isDigit = true) → digits.length ≤ maxDigits →
      ofDigits 10 decimalDigit digits ≤ base.family.bits →
      Cidr (text ++ '/' :: digits) base (ofDigits 10 decimalDigit digits)
  | mask {text dotted : List Char} {base mask : Address} {len : Nat} :
      '/' ∉ text → '/' ∉ dotted → ipAddress? text = some base → base.family = .v4 →
      ipAddress? dotted = some mask → mask.family = .v4 → len ≤ 32 →
      (mask.toNat = leadingOnes 32 len ∨
        0 < len ∧ len < 32 ∧ mask.toNat = leadingOnes 32 len ^^^ allOnes 32) →
      Cidr (text ++ '/' :: dotted) base len

/-- The addresses of one family whose leading bits are these. -/
def SameBits (len : Nat) (base addr : Address) : Prop :=
  base.family = addr.family ∧
    addr.toNat >>> (addr.family.bits - len) = base.toNat >>> (base.family.bits - len)

theorem contains_of {base addr : Address} {len : Nat} (hlen : len ≤ base.family.bits)
    (hbase : base.WellFormed) (haddr : addr.WellFormed) :
    (Network.of base len hlen).contains addr = true ↔ SameBits len base addr := by
  rw [Network.contains, Bool.and_eq_true, decide_eq_true_eq, decide_eq_true_eq]
  change addr.family = base.family ∧ addr.toNat &&& leadingOnes base.family.bits len =
    base.toNat &&& leadingOnes base.family.bits len ↔ SameBits len base addr
  constructor
  · rintro ⟨hfamily, hbits⟩
    have hlt := haddr.toNat_lt
    rw [hfamily] at hlt
    refine ⟨hfamily.symm, ?_⟩
    rw [hfamily]
    exact (land_leadingOnes_eq_iff hlen hlt hbase.toNat_lt).mp hbits
  · rintro ⟨hfamily, hbits⟩
    have hlt := haddr.toNat_lt
    rw [← hfamily] at hlt hbits
    exact ⟨hfamily.symm, (land_leadingOnes_eq_iff hlen hlt hbase.toNat_lt).mpr hbits⟩

/-- An address, or an address and a mask. -/
theorem splitMask?_eq_some {text addr : List Char} {mask : Option (List Char)} :
    splitMask? text = some (addr, mask) ↔
      '/' ∉ addr ∧ (∀ m ∈ mask, '/' ∉ m) ∧ text = addr ++ (mask.map ('/' :: ·)).getD [] := by
  have hjoin : ['/'].intercalate (text.splitOn '/') = text := List.intercalate_splitOn '/'
  have hfree : ∀ part ∈ text.splitOn '/', '/' ∉ part := fun part => Joined.notMem_of_mem_splitOn
  constructor
  · intro h
    unfold splitMask? at h
    split at h
    · next hparts =>
      cases h
      rw [hparts] at hfree hjoin
      exact ⟨hfree _ (by simp), by simp, by simpa using hjoin.symm⟩
    · next hparts =>
      cases h
      rw [hparts] at hfree hjoin
      refine ⟨hfree _ (by simp), ?_, by simpa using hjoin.symm⟩
      rintro _ ⟨⟩
      exact hfree _ (by simp)
    · cases h
  · rintro ⟨haddr, hmask, rfl⟩
    cases mask with
    | none =>
      have hsplit := List.splitOn_eq_singleton haddr
      simp [splitMask?, hsplit]
    | some mask =>
      have hboth : ∀ part ∈ [addr, mask], '/' ∉ part := by simpa using ⟨haddr, hmask mask rfl⟩
      have hsplit := List.splitOn_intercalate '/' hboth (by simp)
      have htext : ['/'].intercalate [addr, mask] = addr ++ '/' :: mask := by simp
      rw [htext] at hsplit
      simp [splitMask?, hsplit]

theorem prefixOfDigits?_eq_some {family : Family} {text : List Char} {len : Nat} :
    prefixOfDigits? family text = some len ↔
      text ≠ [] ∧ (∀ c ∈ text, c.isDigit = true) ∧ text.length ≤ maxDigits ∧
        len ≤ family.bits ∧ ofDigits 10 decimalDigit text = len := by
  unfold prefixOfDigits?
  simp only [Bool.or_eq_true, List.isEmpty_iff, Bool.not_eq_true', decide_eq_true_eq]
  constructor
  · intro h
    split at h
    · cases h
    · next hvalid =>
      split at h
      · cases h
      · next hle =>
        cases h
        simp only [not_or, Bool.not_eq_false, List.all_eq_true] at hvalid
        exact ⟨hvalid.1.1, hvalid.1.2, Nat.le_of_not_lt hvalid.2, Nat.le_of_not_lt hle, rfl⟩
  · rintro ⟨hne, hdigits, hlength, hle, rfl⟩
    have hall : text.all Char.isDigit = true := List.all_eq_true.mpr hdigits
    rw [if_neg (by simp [hne, hall, Nat.not_lt.mpr hlength]), if_neg (Nat.not_lt.mpr hle)]

/-- An IPv4 address is read as one. -/
theorem ipAddress?_v4_iff {text : List Char} {addr : Address} :
    ipAddress? text = some addr ∧ addr.family = .v4 ↔
      ∃ octets, ipv4Octets text = some octets ∧
        addr = .v4 octets.1 octets.2.1 octets.2.2.1 octets.2.2.2 := by
  constructor
  · rintro ⟨hread, hfamily⟩
    unfold ipAddress? at hread
    split at hread
    · next octets hoctets =>
      cases hread
      exact ⟨octets, hoctets, rfl⟩
    · split at hread
      · cases hread
      · obtain ⟨split, -, hread⟩ := Option.bind_eq_some_iff.mp hread
        obtain ⟨hextets, -, hread⟩ := Option.bind_eq_some_iff.mp hread
        cases hread
        cases hfamily
  · rintro ⟨octets, hoctets, rfl⟩
    refine ⟨?_, rfl⟩
    rw [ipAddress?, hoctets]

theorem prefixOfMask?_eq_some {text : List Char} {len : Nat} :
    prefixOfMask? text = some len ↔
      ∃ mask, ipAddress? text = some mask ∧ mask.family = .v4 ∧ len ≤ 32 ∧
        (mask.toNat = leadingOnes 32 len ∨
          0 < len ∧ len < 32 ∧ mask.toNat = leadingOnes 32 len ^^^ allOnes 32) := by
  constructor
  · intro h
    obtain ⟨octets, hoctets, h⟩ := Option.bind_eq_some_iff.mp h
    obtain ⟨hread, hfamily⟩ := ipAddress?_v4_iff.mpr ⟨octets, hoctets, rfl⟩
    have hlt : _ < 2 ^ 32 := (wellFormed_of_ipAddress? hread).toNat_lt
    refine ⟨_, hread, hfamily, ?_⟩
    simp only at h
    split at h
    · next hmask =>
      cases h
      obtain ⟨hlen, heq⟩ := (maskLength?_eq_some hlt).mp hmask
      exact ⟨hlen, Or.inl heq⟩
    · next hnone =>
      obtain ⟨hlen, heq⟩ := (maskLength?_eq_some (complement_lt hlt)).mp h
      rw [complement_eq_iff] at heq
      have hnot : ∀ other ≤ 32, leadingOnes 32 other ≠ leadingOnes 32 len ^^^ allOnes 32 := by
        intro other hother hsame
        have hsome := (maskLength?_eq_some hlt).mpr ⟨hother, heq.trans hsame.symm⟩
        rw [hnone] at hsome
        cases hsome
      refine ⟨hlen, Or.inr ⟨?_, ?_, heq⟩⟩
      · apply Nat.pos_of_ne_zero
        rintro rfl
        apply hnot 32 le_rfl
        rw [leadingOnes_self, leadingOnes_zero, Nat.zero_xor]
      · apply hlen.lt_of_ne
        rintro rfl
        apply hnot 0 (Nat.zero_le _)
        rw [leadingOnes_self, leadingOnes_zero, Nat.xor_self]
  · rintro ⟨mask, hread, hfamily, hlen, hmask⟩
    have hlt : mask.toNat < 2 ^ mask.family.bits := (wellFormed_of_ipAddress? hread).toNat_lt
    rw [hfamily] at hlt
    change mask.toNat < 2 ^ 32 at hlt
    obtain ⟨octets, hoctets, rfl⟩ := ipAddress?_v4_iff.mp ⟨hread, hfamily⟩
    refine Option.bind_eq_some_iff.mpr ⟨octets, hoctets, ?_⟩
    rcases hmask with heq | ⟨hpos, hshort, heq⟩
    · simp only [(maskLength?_eq_some hlt).mpr ⟨hlen, heq⟩]
    · have hnone : maskLength? 32 (Address.v4 octets.1 octets.2.1 octets.2.2.1
          octets.2.2.2).toNat = none := by
        apply Option.eq_none_iff_forall_ne_some.mpr
        intro other hother
        obtain ⟨hle, hsame⟩ := (maskLength?_eq_some hlt).mp hother
        exact leadingOnes_ne_complement hpos hshort hle (hsame.symm.trans heq)
      have hcomplement := (maskLength?_eq_some (complement_lt hlt)).mpr
        ⟨hlen, (complement_eq_iff _ _ _).mpr heq⟩
      simp only [hnone, hcomplement]

/-- A dotted mask is not a length. -/
theorem prefixOfDigits?_of_dotted {text : List Char} {octets : Nat × Nat × Nat × Nat}
    (h : ipv4Octets text = some octets) (family : Family) : prefixOfDigits? family text = none := by
  have hdot : '.' ∈ text := by
    by_contra hfree
    have hsplit := List.splitOn_eq_singleton hfree
    rw [ipv4Octets, hsplit] at h
    cases hread : parseOctet text with
    | none => simp [hread] at h
    | some octet => simp [hread] at h
  apply Option.eq_none_iff_forall_ne_some.mpr
  intro len hlen
  have hdigit := (prefixOfDigits?_eq_some.mp hlen).2.1 '.' hdot
  revert hdigit
  decide

theorem ipNetwork?_of_cidr {text : List Char} {base : Address} {len : Nat}
    (h : Cidr text base len) :
    ∃ hlen : len ≤ base.family.bits, ipNetwork? text = some (Network.of base len hlen) := by
  obtain ⟨addr, mask, hsplit, hread, hprefix, hle⟩ : ∃ addr mask,
      splitMask? text = some (addr, mask) ∧ ipAddress? addr = some base ∧
        prefixOf? base.family mask = some len ∧ len ≤ base.family.bits := by
    cases h with
    | address hslash hread =>
      exact ⟨text, none, splitMask?_eq_some.mpr ⟨hslash, by simp, by simp⟩, hread, rfl, le_rfl⟩
    | @length addr digits _ hslash hread hne hdigits hlength hle =>
      have hfree : '/' ∉ digits := by
        intro hmem
        have hdigit := hdigits '/' hmem
        revert hdigit
        decide
      have hsplit : splitMask? (addr ++ '/' :: digits) = some (addr, some digits) :=
        splitMask?_eq_some.mpr ⟨hslash, by simpa using hfree, by simp⟩
      refine ⟨addr, some digits, hsplit, hread, ?_, hle⟩
      have hprefix : prefixOfDigits? base.family digits = some (ofDigits 10 decimalDigit digits) :=
        prefixOfDigits?_eq_some.mpr ⟨hne, hdigits, hlength, hle, rfl⟩
      simp only [prefixOf?, hprefix]
    | @mask addr dotted _ mask _ hslash hfree hread hbase hmask hfamily hle hbits =>
      have hsplit : splitMask? (addr ++ '/' :: dotted) = some (addr, some dotted) :=
        splitMask?_eq_some.mpr ⟨hslash, by simpa using hfree, by simp⟩
      refine ⟨addr, some dotted, hsplit, hread, ?_, by rw [hbase]; exact hle⟩
      obtain ⟨octets, hoctets, -⟩ := ipAddress?_v4_iff.mp ⟨hmask, hfamily⟩
      rw [hbase]
      simp only [prefixOf?, prefixOfDigits?_of_dotted hoctets]
      exact prefixOfMask?_eq_some.mpr ⟨mask, hmask, hfamily, hle, hbits⟩
  refine ⟨hle, ?_⟩
  simp [ipNetwork?, hsplit, hread, hprefix, hle]

/-- An entry is a network exactly when it says one. -/
theorem ipNetwork?_eq_some {text : List Char} {net : Network} :
    ipNetwork? text = some net ↔
      ∃ base len, Cidr text base len ∧
        ∃ hlen : len ≤ base.family.bits, net = Network.of base len hlen := by
  constructor
  · intro h
    obtain ⟨⟨addr, mask⟩, hsplit, h⟩ := Option.bind_eq_some_iff.mp h
    obtain ⟨base, hread, h⟩ := Option.bind_eq_some_iff.mp h
    obtain ⟨len, hprefix, h⟩ := Option.bind_eq_some_iff.mp h
    split at h
    · next hle =>
      cases h
      refine ⟨base, len, ?_, hle, rfl⟩
      obtain ⟨hslash, hmask, rfl⟩ := splitMask?_eq_some.mp hsplit
      cases mask with
      | none =>
        cases hprefix
        simpa using Cidr.address hslash hread
      | some mask =>
        simp only [prefixOf?] at hprefix
        split at hprefix
        · next hdigits =>
          cases hprefix
          obtain ⟨hne, hall, hlength, -, rfl⟩ := prefixOfDigits?_eq_some.mp hdigits
          exact Cidr.length hslash hread hne hall hlength hle
        · next hfamily =>
          obtain ⟨dotted, hdotted, hv4, hlen, hbits⟩ := prefixOfMask?_eq_some.mp hprefix
          exact Cidr.mask hslash (hmask mask rfl) hread hfamily hdotted hv4 hlen hbits
        · cases hprefix
    · cases h
  · rintro ⟨base, len, hcidr, hlen, rfl⟩
    exact (ipNetwork?_of_cidr hcidr).2

example : (ipNetwork? "10.1.2.3/0.0.0.255".toList).map (·.prefixlen) = some 24 := by decide +kernel
example : ipNetwork? "10.1.2.3/33".toList = none := by decide +kernel

theorem Cidr.wellFormed {text : List Char} {base : Address} {len : Nat} (h : Cidr text base len) :
    base.WellFormed := by
  cases h with
  | address _ hread => exact wellFormed_of_ipAddress? hread
  | length _ hread => exact wellFormed_of_ipAddress? hread
  | mask _ _ hread => exact wellFormed_of_ipAddress? hread

/-! ## 5. What is admitted -/

/-- An entry of a list says a network that the address is in. -/
def Admits (addr : Address) (cidr : Json) : Prop :=
  ∃ base len, Cidr (strip (py.str cidr)).toList base len ∧ SameBits len base addr

theorem any_contains_iff {addr : Address} (haddr : addr.WellFormed) (cidrs : List Json) :
    (parseNetworks py cidrs).any (·.contains addr) = true ↔
      ∃ cidr ∈ cidrs, Admits py addr cidr := by
  rw [List.any_eq_true]
  constructor
  · rintro ⟨net, hnet, hcontains⟩
    obtain ⟨cidr, hcidr, hread⟩ := List.mem_filterMap.mp hnet
    obtain ⟨base, len, hsays, hlen, rfl⟩ := ipNetwork?_eq_some.mp hread
    exact ⟨cidr, hcidr, base, len, hsays, (contains_of hlen hsays.wellFormed haddr).mp hcontains⟩
  · rintro ⟨cidr, hcidr, base, len, hsays, hbits⟩
    obtain ⟨hlen, hread⟩ := ipNetwork?_of_cidr hsays
    exact ⟨Network.of base len hlen, List.mem_filterMap.mpr ⟨cidr, hcidr, hread⟩,
      (contains_of hlen hsays.wellFormed haddr).mpr hbits⟩

/-- **Who is admitted**: everyone where nothing is listed, and otherwise those whose address,
    an IPv4-mapped one as its IPv4 address, shares with a readable entry the bits that the entry
    counts.  An entry that cannot be read admits nobody, and who has no readable address is not
    admitted. -/
theorem ipAllowed_iff (ip : String) (globalCidrs : Json) (tenantCidrs : List String) :
    ipAllowed py ip globalCidrs tenantCidrs = some true ↔
      (globalCidrs.truthy = false ∧ tenantCidrs = []) ∨
        ∃ addr cidrs, ipAddress? (strip ip).toList = some addr ∧
          listOf (globalCidrs.orElse (.arr [])) = some cidrs ∧
          ∃ cidr ∈ cidrs ++ tenantCidrs.map .str, Admits py addr.unmapped cidr := by
  unfold ipAllowed
  split
  · next hopen =>
    simp only [Bool.and_eq_true, Bool.not_eq_true', List.isEmpty_iff] at hopen
    exact iff_of_true rfl (Or.inl hopen)
  · next hlisted =>
    simp only [Bool.and_eq_true, Bool.not_eq_true', List.isEmpty_iff] at hlisted
    constructor
    · intro h
      right
      split at h
      · cases h
      · next addr haddr =>
        obtain ⟨cidrs, hcidrs, h⟩ := Option.bind_eq_some_iff.mp h
        have hunmapped := wellFormed_unmapped (wellFormed_of_ipAddress? haddr)
        exact ⟨addr, cidrs, haddr, hcidrs,
          (any_contains_iff py hunmapped _).mp (Option.some.inj h)⟩
    · rintro (hopen | ⟨addr, cidrs, haddr, hcidrs, hadmits⟩)
      · exact absurd hopen hlisted
      · have hunmapped := wellFormed_unmapped (wellFormed_of_ipAddress? haddr)
        simp only [haddr, hcidrs, Option.bind_eq_bind, Option.bind_some,
          (any_contains_iff py hunmapped _).mpr hadmits]

end TokenProxy.IpAllowlist

namespace TokenProxy.ClientIp

open TokenProxy.IpAddress
open TokenProxy.KeyStore (strip)

/-! ## 6. One text for each address -/

/-- The address that a peer or an entry writes, an IPv4-mapped one as its IPv4 address. -/
def addressOf (value : Option String) : Option Address :=
  ((bareAddress (strip (value.getD "")).toList).bind ipAddress?).map Address.unmapped

theorem normaliseIp_eq (value : Option String) :
    normaliseIp value = (addressOf value).map Address.toText := by
  rw [addressOf, Option.map_map]
  rfl

theorem wellFormed_addressOf {value : Option String} {addr : Address}
    (h : addressOf value = some addr) : addr.WellFormed := by
  obtain ⟨read, hread, rfl⟩ := Option.map_eq_some_iff.mp h
  obtain ⟨text, -, hread⟩ := Option.bind_eq_some_iff.mp hread
  exact wellFormed_unmapped (wellFormed_of_ipAddress? hread)

theorem toText_injective {a b : Address} (ha : a.WellFormed) (hb : b.WellFormed)
    (h : a.toText = b.toText) : a = b := by
  have hread := ipAddress?_toText ha
  rw [h, ipAddress?_toText hb] at hread
  exact (Option.some.inj hread).symm

theorem ipAddress?_normaliseIp {value : Option String} {text : String}
    (h : normaliseIp value = some text) : ipAddress? text.toList = addressOf value := by
  rw [normaliseIp_eq] at h
  obtain ⟨addr, haddr, rfl⟩ := Option.map_eq_some_iff.mp h
  rw [haddr]
  exact ipAddress?_toText (wellFormed_addressOf haddr)

/-- **One text for each address**: two values are normalised alike exactly when they write one
    address, and what a value is normalised to is a text of the address that it writes. -/
theorem normaliseIp_canonical (v w : Option String) :
    (normaliseIp v = normaliseIp w ↔ addressOf v = addressOf w) ∧
      ∀ text, normaliseIp v = some text → ipAddress? text.toList = addressOf v := by
  refine ⟨?_, fun text => ipAddress?_normaliseIp⟩
  rw [normaliseIp_eq v, normaliseIp_eq w]
  constructor
  · intro h
    cases hv : addressOf v with
    | none =>
      rw [hv, Option.map_none, eq_comm, Option.map_eq_none_iff] at h
      exact h.symm
    | some a =>
      rw [hv, Option.map_some, eq_comm, Option.map_eq_some_iff] at h
      obtain ⟨b, hw, htext⟩ := h
      rw [hw, toText_injective (wellFormed_addressOf hw) (wellFormed_addressOf hv) htext]
  · intro h
    rw [h]

/-- Nothing is normalised to the empty text. -/
theorem normaliseIp_ne_empty (value : Option String) : normaliseIp value ≠ some "" := by
  intro h
  have hread := ipAddress?_normaliseIp h
  rw [normaliseIp_eq] at h
  obtain ⟨addr, haddr, -⟩ := Option.map_eq_some_iff.mp h
  have hempty : ipAddress? "".toList = none := by decide
  rw [haddr, hempty] at hread
  cases hread

end TokenProxy.ClientIp
