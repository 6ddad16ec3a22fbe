/-
  TokenProxy/IpAddress.lean
  =========================
  **Python's `ipaddress`: what a text is the address of, and how an address is written.**

  An IPv4 address is four decimal numbers without leading zeros.  An IPv6 address is eight
  hexadecimal ones, of which `::` stands for a run of zeros and the last two may be written as an
  IPv4 address; a scope id may follow a `%`.  Written back, the first of the longest runs of two or
  more zeros becomes `::`.

  Python keeps an address as an integer; here it is kept as its parts.
-/
import Mathlib.Data.List.Defs

namespace TokenProxy.IpAddress

/-! ## 1. Addresses -/

inductive Address where
  | v4 (a b c d : Nat)
  | v6 (hextets : List Nat) (scope : Option (List Char))
deriving DecidableEq, Repr

/-- The number that the digits write in the base. -/
def ofDigits (base : Nat) (digit : Char → Nat) (digits : List Char) : Nat :=
  digits.foldl (fun value c => base * value + digit c) 0

def decimalDigit (c : Char) : Nat := c.toNat - '0'.toNat

def isHexDigit (c : Char) : Bool := c.isDigit || ('a' ≤ c && c ≤ 'f') || ('A' ≤ c && c ≤ 'F')

def hexDigit (c : Char) : Nat :=
  if c.isDigit then decimalDigit c else c.toLower.toNat - 'a'.toNat + 10

/-! ## 2. IPv4 -/

/-- `_parse_octet`. -/
def parseOctet (octet : List Char) : Option Nat :=
  if octet.isEmpty || !octet.all Char.isDigit || 3 < octet.length ||
      (octet ≠ ['0'] && octet.head? = some '0') then none
  else
    let value := ofDigits 10 decimalDigit octet
    if 255 < value then none else some value

/-- `IPv4Address(text)`, as its four octets. -/
def ipv4Octets (text : List Char) : Option (Nat × Nat × Nat × Nat) :=
  match (text.splitOn '.').mapM parseOctet with
  | some [a, b, c, d] => some (a, b, c, d)
  | _ => none

/-! ## 3. IPv6 -/

/-- `_parse_hextet`. -/
def parseHextet (hextet : List Char) : Option Nat :=
  if hextet.isEmpty || !hextet.all isHexDigit || 4 < hextet.length then none
  else some (ofDigits 16 hexDigit hextet)

/-- `_split_scope_id`. -/
def splitScopeId (text : List Char) : Option (List Char × Option (List Char)) :=
  match text.dropWhile (· ≠ '%') with
  | [] => some (text, none)
  | _ :: scope =>
    if scope.isEmpty || '%' ∈ scope then none else some (text.takeWhile (· ≠ '%'), some scope)

/-- The parts with an IPv4 address at the end replaced by the two hextets that it is. -/
def expandIpv4 (parts : List (List Char)) : Option (List (List Char)) :=
  let last := parts.getLast?.getD []
  if '.' ∈ last then
    (ipv4Octets last).map fun o =>
      parts.dropLast ++
        [Nat.toDigits 16 (o.1 * 256 + o.2.1), Nat.toDigits 16 (o.2.2.1 * 256 + o.2.2.2)]
  else some parts

/-- The parts above a `::`, or those below it in reverse: an empty one is allowed at the outer end
    only where it is alone. -/
def besideSkip : List (List Char) → Option (List (List Char))
  | [] => some []
  | [] :: rest => if rest.isEmpty then some [] else none
  | parts => some parts

/-- `_ip_int_from_string`, as the eight hextets. -/
def hextetsOf (addr : List Char) : Option (List Nat) := do
  let parts := addr.splitOn ':'
  if parts.length < 3 then none
  let parts ← expandIpv4 parts
  if 9 < parts.length then none
  match (List.range parts.length).filter fun i =>
      0 < i && i + 1 < parts.length && parts[i]? = some [] with
  | [] => if parts.length ≠ 8 then none else parts.mapM parseHextet
  | [skip] =>
    let above ← besideSkip (parts.take skip)
    let below ← besideSkip (parts.drop (skip + 1)).reverse
    if 8 ≤ above.length + below.length then none
    let high ← above.mapM parseHextet
    let low ← below.reverse.mapM parseHextet
    some (high ++ List.replicate (8 - (high.length + low.length)) 0 ++ low)
  | _ => none

/-- `ip_address(text)`. -/
def ipAddress? (text : List Char) : Option Address :=
  match ipv4Octets text with
  | some o => some (.v4 o.1 o.2.1 o.2.2.1 o.2.2.2)
  | none =>
    if '/' ∈ text then none
    else do
      let split ← splitScopeId text
      let hextets ← hextetsOf split.1
      some (.v6 hextets split.2)

/-! ## 4. Written back -/

/-- Where the first of the longest runs of zeros starts, and its length. -/
def longestZeros (hextets : List Nat) : Nat × Nat :=
  (List.range hextets.length).foldl (fun best start =>
    let run := ((hextets.drop start).takeWhile (· = 0)).length
    if best.2 < run then (start, run) else best) (0, 0)

def joinHextets (hextets : List Nat) : List Char :=
  [':'].intercalate (hextets.map (Nat.toDigits 16))

/-- `_compress_hextets`, joined. -/
def compress (hextets : List Nat) : List Char :=
  let run := longestZeros hextets
  if 1 < run.2 then
    joinHextets (hextets.take run.1) ++ [':', ':'] ++ joinHextets (hextets.drop (run.1 + run.2))
  else joinHextets hextets

namespace Address

/-- `str(addr)`. -/
def toText : Address → String
  | v4 a b c d => ".".intercalate ([a, b, c, d].map toString)
  | v6 hextets scope =>
    .ofList (compress hextets ++ (scope.map fun id => '%' :: id).getD [])

/-- An IPv4-mapped IPv6 address as the IPv4 address, any other as it is. -/
def unmapped : Address → Address
  | v6 [0, 0, 0, 0, 0, 0xffff, high, low] _ =>
    v4 (high / 256) (high % 256) (low / 256) (low % 256)
  | addr => addr

end Address

end TokenProxy.IpAddress
