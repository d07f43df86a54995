import PvNet.Net.Address
import PvNet.Text.Blank
import PvNet.Text.Decimal
set_option autoImplicit false

/-!
# Addresses as texts

An IPv4 address is four decimal octets.  An IPv6 address is eight groups of
hexadecimal digits, of which the longest run of two or more zero groups, the first
one among equals, is left out; mapped IPv4 addresses keep their decimal octets.
-/

namespace PvNet

namespace Ipv4

/-- The four decimal octets. -/
def text (a : Ipv4) : String := ".".intercalate (a.octets.map fun b => toString b.toNat)

/-- An octet written with at most three digits and without leading zeros. -/
def octetOf? (s : String) : Option UInt8 := do
  let cs := s.toList
  if cs.length > 3 ∨ (cs.length > 1 ∧ cs.head? = some '0') then none
  else
    let n ← Decimal.ofDigits? cs
    if n < 256 then some (UInt8.ofNat n) else none

/-- The address that a text stands for. -/
def ofText? (s : String) : Option Ipv4 :=
  match (Text.fields '.' s).mapM octetOf? with
  | some [a, b, c, d] => some (ofOctets a b c d)
  | _ => none

end Ipv4

namespace Ipv6

/-- How many zero groups the list starts with. -/
def leadingZeros (gs : List Nat) : Nat := (gs.takeWhile (· == 0)).length

/-- The first of the longest runs of zero groups: its position and its length. -/
def longestZeros : Nat → List Nat → Nat × Nat
  | _, [] => (0, 0)
  | i, g :: gs =>
    let here := leadingZeros (g :: gs)
    let later := longestZeros (i + 1) gs
    if later.2 ≤ here then (i, here) else later

/-- Groups with colons between them. -/
def groupsText (gs : List Nat) : String := ":".intercalate (gs.map Hex.ofNat)

/-- The text of an address. -/
def text (a : Ipv6) : String :=
  match IpAddress.ofMapped a.bits with
  | .v4 inner => "::ffff:" ++ inner.text
  | .v6 _ =>
    let gs := a.groups
    let (start, count) := longestZeros 0 gs
    if 2 ≤ count then
      groupsText (gs.take start) ++ "::" ++ groupsText (gs.drop (start + count))
    else groupsText gs

/-- A group written with one to four hexadecimal digits. -/
def groupOf? (s : String) : Option Nat := do
  let ds ← s.toList.mapM Hex.digit?
  if ds.isEmpty ∨ ds.length > 4 then none else some (ds.foldl (fun n d => 16 * n + d) 0)

/-- The groups of a list of texts; the last one may be an IPv4 address, which makes two groups. -/
def groupsOf? : List String → Option (List Nat)
  | [] => some []
  | [s] =>
    match Ipv4.ofText? s with
    | some a => some [a.bits.toNat / 65536, a.bits.toNat % 65536]
    | none => (groupOf? s).map ([·])
  | s :: ss => do return (← groupOf? s) :: (← groupsOf? ss)

/-- The groups of a text without a gap; an empty text has none. -/
def groupsOfText? (s : String) : Option (List Nat) :=
  if s = "" then some [] else groupsOf? (Text.fields ':' s)

/-- The address that a text stands for. -/
def ofText? (s : String) : Option Ipv6 :=
  match s.splitOn "::" with
  | [whole] => do
    let gs ← groupsOfText? whole
    if gs.length = 8 then some (ofGroups gs) else none
  | [front, back] => do
    let before ← groupsOfText? front
    let after ← groupsOfText? back
    let missing := 8 - (before.length + after.length)
    if front.contains '.' ∨ missing = 0 then none
    else some (ofGroups (before ++ List.replicate missing 0 ++ after))
  | _ => none

end Ipv6

namespace IpAddress

def text : IpAddress → String
  | .v4 a => a.text
  | .v6 a => a.text

/-- The address that a text stands for. -/
def ofText? (s : String) : Option IpAddress :=
  match Ipv4.ofText? s with
  | some a => some (.v4 a)
  | none => (Ipv6.ofText? s).map .v6

/-- An address that is an IPv4 address. -/
def v4? : IpAddress → Option Ipv4
  | .v4 a => some a
  | .v6 _ => none

end IpAddress

namespace Endpoint

/-- The address, in brackets if it is an IPv6 address, and the port. -/
def text (e : Endpoint) : String :=
  match e.ip with
  | .v4 a => s!"{a.text}:{e.port.toNat}"
  | .v6 a => s!"[{a.text}]:{e.port.toNat}"

/-- The endpoint that a text stands for. -/
def ofText? (s : String) : Option Endpoint := do
  let (host, port) ← Text.cutLast? ':' s
  let port ← Decimal.ofDigits? port.toList
  if 65536 ≤ port then none
  else
    let port := UInt16.ofNat port
    match host.toList with
    | '[' :: rest =>
      let a ← Ipv6.ofText? (String.ofList rest.dropLast)
      if rest.getLast? = some ']' then some ⟨.v6 a, port⟩ else none
    | _ => return ⟨.v4 (← Ipv4.ofText? host), port⟩

end Endpoint

/-- The addresses that the name of a host stands for, in the order in which they are looked up; a
name that is not known has none. -/
abbrev Resolver : Type := String → List IpAddress

namespace Resolver

/-- The addresses of a host; one that is given by its address is not looked up. -/
def addresses (names : Resolver) (host : String) : List IpAddress :=
  match IpAddress.ofText? host with
  | some a => [a]
  | none => names host

/-- The first IPv4 address of a host. -/
def ipv4? (names : Resolver) (host : String) : Option Ipv4 :=
  (names.addresses host).findSome? IpAddress.v4?

end Resolver

namespace Endpoint

/-- The host and the port of a word `host` or `host:port`.  What is no port is replaced by
`port`. -/
def hostAndPort (port : UInt16) (word : String) : String × UInt16 :=
  match Text.cutLast? ':' word with
  | some (host, own) => (host, (Decimal.word16? own).getD port)
  | none => (word, port)

/-- The endpoint that a word stands for, unless its host has no IPv4 address. -/
def ofWord? (names : Resolver) (port : UInt16) (word : String) : Option Endpoint :=
  let (host, port) := hostAndPort port word
  (names.ipv4? host).map fun a => ⟨.v4 a, port⟩

end Endpoint

/-- The endpoints of a list of words, each one once; words without one are left out. -/
def addressList (names : Resolver) (list : String) (port : UInt16) : List Endpoint :=
  ((Text.words list).filterMap (Endpoint.ofWord? names port)).eraseDups

end PvNet
