import PvNet.Net.AddressText
set_option autoImplicit false

/-!
# Broadcast addresses

The broadcast address of an interface is derived from its own address and the
length of the network part.  That length comes from a list of special networks,
of which the last matching one counts, and otherwise from the class of the address.

A special network is written `network/mask:length`; the octets of the network that
are left out are not compared.
-/

namespace PvNet

inductive AddressClass where
  /-- 10.0.0.0/8 -/
  | classA
  /-- 172.16.0.0/12 -/
  | classB
  /-- 192.168.0.0/16 -/
  | classC
  /-- 224.0.0.0/24 -/
  | classD
  | ipv4
  | ipv6
  | ipv6Multicast
  deriving DecidableEq, Repr, Inhabited

namespace AddressClass

def of : IpAddress → AddressClass
  | .v6 a => if a.bits >>> 120 = 0xFF then .ipv6Multicast else .ipv6
  | .v4 a =>
    if a.isWithin (.ofOctets 10 0 0 0) 8 then .classA
    else if a.isWithin (.ofOctets 172 16 0 0) 12 then .classB
    else if a.isWithin (.ofOctets 192 168 0 0) 16 then .classC
    else if a.isWithin (.ofOctets 224 0 0 0) 24 then .classD
    else .ipv4

/-- The length of the network part that a class implies. -/
def maskLength : AddressClass → Nat
  | .classA => 8
  | .classB => 12
  | .classC => 16
  | .classD => 24
  | .ipv4 => 0
  | .ipv6 => 8
  | .ipv6Multicast => 8

end AddressClass

/-- The word of a width in which the first `bits` bits are set.  It is all ones shifted to the left,
and a shift is by less than the width, so there is none without any bits and none with too many. -/
def leadingOnes? (width bits : Nat) : Option (BitVec width) :=
  if 0 < bits ∧ bits ≤ width then some (BitVec.allOnes width <<< (width - bits)) else none

/-- A special network: addresses that agree with its octets in the first `mask` bits have a
network part of `length` bits. -/
structure NetworkRule where
  /-- One to four octets. -/
  network : Bytes
  mask : Nat
  length : Nat
  deriving DecidableEq, Repr, Inhabited

namespace NetworkRule

/-- Whether the octets of a network agree with those of an address in the first `mask` bits, from
position `i` on, one octet after the other.  There is no answer if the address has no octet at a
position that is compared. -/
def agreeFrom? (mask : Nat) (octets : Bytes) : Nat → Bytes → Option Bool
  | _, [] => some true
  | i, x :: xs =>
    let covered := min (mask - 8 * i) 8
    if covered = 0 then some true
    else do
      let ones ← leadingOnes? 8 covered
      let octet ← octets[i]?
      if octet.toBitVec &&& ones = x.toBitVec &&& ones then agreeFrom? mask octets (i + 1) xs
      else some false

/-- Whether the rule applies to an address; there is no answer if a comparison is out of range. -/
def applies? (r : NetworkRule) (a : Ipv4) : Option Bool := agreeFrom? r.mask a.octets 0 r.network

/-- Whether the rule applies to an address. -/
def applies (r : NetworkRule) (a : Ipv4) : Bool := (r.applies? a).getD false

/-- The rule as it is written in a list. -/
def text (r : NetworkRule) : String :=
  let network := ".".intercalate (r.network.map fun b => toString b.toNat)
  s!"{network}/{r.mask}:{r.length}"

/-- A count of bits of an IPv4 address. -/
def bitCount? (s : String) : Option Nat := (Decimal.below? 256 (Text.trim s)).filter (· ≤ 32)

/-- The rule that a text stands for. -/
def ofText? (s : String) : Option NetworkRule := do
  let (network, info) ← Text.cutFirst? '/' s
  let (mask, length) ← Text.cutFirst? ':' info
  let network ← (Text.fields '.' network).mapM fun part => Decimal.octet? (Text.trim part)
  if network.isEmpty ∨ network.length > 4 then none
  else return ⟨network, ← bitCount? mask, ← bitCount? length⟩

end NetworkRule

/-- The special networks, in the order in which they were added. -/
structure NetworkRules where
  rules : List NetworkRule
  deriving DecidableEq, Repr

namespace NetworkRules

/-- The private networks, each with a network part of 24 bits. -/
def builtin : NetworkRules := ⟨[⟨[10], 8, 24⟩, ⟨[172, 16], 12, 24⟩, ⟨[192, 168], 16, 24⟩]⟩

instance : Inhabited NetworkRules := ⟨builtin⟩

/-- Adds a rule at the end, in place of an earlier one with the same network. -/
def add (rs : NetworkRules) (r : NetworkRule) : NetworkRules :=
  ⟨rs.rules.filter (fun old => old.network ≠ r.network) ++ [r]⟩

/-- The built-in rules and those of a list with commas; what is no rule is left out. -/
def ofList (list : String) : NetworkRules :=
  ((Text.fields ',' list).filterMap fun s => NetworkRule.ofText? (Text.trim s)).foldl add builtin

/-- The rules as a list with commas. -/
def text (rs : NetworkRules) : String := ",".intercalate (rs.rules.map NetworkRule.text)

/-- The length of the network part of an address. -/
def prefixLength (rs : NetworkRules) (a : Ipv4) : Nat :=
  match rs.rules.reverse.find? fun r => r.applies a with
  | some r => r.length
  | none => (AddressClass.of (.v4 a)).maskLength

/-- The word in which the bits of a network part are set. -/
def mask? (length : Nat) : Option (BitVec 32) :=
  if length = 0 then some 0 else leadingOnes? 32 length

/-- The broadcast address of an interface; the own host has none. -/
def broadcast? (rs : NetworkRules) (a : Ipv4) : Option Ipv4 :=
  if a.isLoopback then none
  else (mask? (min (rs.prefixLength a) 32)).map fun mask => ⟨a.bits &&& mask ||| ~~~mask⟩

end NetworkRules

end PvNet
