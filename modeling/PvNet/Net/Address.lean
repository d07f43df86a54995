import PvNet.Wire.Encode
import PvNet.Wire.Decode
set_option autoImplicit false

/-!
# Addresses

Every address travels as the 128 bits of an IPv6 address; an IPv4 address is mapped
to the block of which the first 96 bits are `0x0000_0000_0000_0000_0000_FFFF`.  The
wildcard address stands for whatever address a datagram comes from.
-/

namespace PvNet

/-- An IPv4 address. -/
structure Ipv4 where
  bits : BitVec 32
  deriving DecidableEq, Repr, Inhabited

namespace Ipv4

/-- The address with the given octets. -/
def ofOctets (a b c d : UInt8) : Ipv4 :=
  ⟨BitVec.ofNat 32 (ByteOrder.big.decode [a, b, c, d])⟩

/-- The four octets of an address. -/
def octets (a : Ipv4) : Bytes := ByteOrder.big.encode 4 a.bits.toNat

@[simp] theorem length_octets (a : Ipv4) : a.octets.length = 4 := by simp [octets]

/-- The wildcard address. -/
def any : Ipv4 := ⟨0⟩

/-- The address of the own host. -/
def localhost : Ipv4 := ofOctets 127 0 0 1

/-- Whether the first bits of an address are those of a network. -/
def isWithin (a network : Ipv4) (length : Nat) : Bool :=
  a.bits >>> (32 - length) == network.bits >>> (32 - length)

/-- Whether the address belongs to the own host, that is, to 127.0.0.0/8. -/
def isLoopback (a : Ipv4) : Bool := a.isWithin localhost 8

/-- Whether the address names a group, that is, belongs to 224.0.0.0/4. -/
def isMulticast (a : Ipv4) : Bool := a.isWithin (ofOctets 224 0 0 0) 4

/-- Whether the address is valid on one link only, that is, belongs to 169.254.0.0/16. -/
def isLinkLocal (a : Ipv4) : Bool := a.isWithin (ofOctets 169 254 0 0) 16

end Ipv4

/-- An IPv6 address. -/
structure Ipv6 where
  bits : BitVec 128
  deriving DecidableEq, Repr, Inhabited

namespace Ipv6

/-- The eight groups of 16 bits, first to last. -/
def groups (a : Ipv6) : List Nat :=
  (List.range 8).map fun i => (a.bits.extractLsb' (16 * (7 - i)) 16).toNat

/-- The address with the given groups. -/
def ofGroups (groups : List Nat) : Ipv6 :=
  ⟨BitVec.ofNat 128 (groups.foldl (fun n g => 65536 * n + g) 0)⟩

/-- The address of the own host. -/
def localhost : Ipv6 := ⟨1⟩

end Ipv6

/-- An address of either kind. -/
inductive IpAddress where
  | v4 (address : Ipv4)
  | v6 (address : Ipv6)
  deriving DecidableEq, Repr, Inhabited

namespace IpAddress

/-- The first 96 bits of a mapped IPv4 address. -/
def mappedPrefix : BitVec 96 := 0xFFFF

/-- The 128 bits that an address travels as. -/
def mapped : IpAddress → BitVec 128
  | .v4 a => mappedPrefix ++ a.bits
  | .v6 a => a.bits

/-- The address that 128 bits stand for. -/
def ofMapped (bits : BitVec 128) : IpAddress :=
  if bits.extractLsb' 32 96 = mappedPrefix then .v4 ⟨bits.setWidth 32⟩ else .v6 ⟨bits⟩

/-- The sixteen octets that an address travels as. -/
def octets (a : IpAddress) : Bytes := ByteOrder.big.encode 16 a.mapped.toNat

/-- The address that sixteen octets stand for. -/
def ofOctets (bs : Bytes) : IpAddress := ofMapped (BitVec.ofNat 128 (ByteOrder.big.decode bs))

/-- The wildcard address. -/
def any : IpAddress := .v4 .any

/-- Whether this is a wildcard of either kind, mapped or not. -/
def isWildcard : IpAddress → Bool
  | .v4 a => a.bits = 0
  | .v6 a => a.bits = 0 || a.bits = mappedPrefix ++ (0 : BitVec 32)

/-- Whether the address belongs to the own host. -/
def isLoopback : IpAddress → Bool
  | .v4 a => a.isLoopback
  | .v6 a => a = .localhost

/-- The rank in the order of addresses: IPv4 before IPv6, each kind by its bits. -/
def rank : IpAddress → Nat
  | .v4 a => a.bits.toNat
  | .v6 a => UInt32.size + a.bits.toNat

@[simp] theorem length_octets (a : IpAddress) : a.octets.length = 16 := by simp [octets]

theorem extract_mappedPrefix_append (a : BitVec 32) :
    (mappedPrefix ++ a).extractLsb' 32 96 = mappedPrefix := by
  apply BitVec.eq_of_getLsbD_eq
  intro i hi
  simp only [BitVec.getLsbD_extractLsb', BitVec.getLsbD_append, hi, decide_true, Bool.true_and]
  rw [if_neg (by omega), Nat.add_sub_cancel_left]

theorem setWidth_mappedPrefix_append (a : BitVec 32) : (mappedPrefix ++ a).setWidth 32 = a := by
  apply BitVec.eq_of_getLsbD_eq
  intro i hi
  simp only [BitVec.getLsbD_setWidth, BitVec.getLsbD_append, hi, decide_true, Bool.true_and,
    if_true]

theorem ofMapped_mapped_v4 (a : Ipv4) : ofMapped (mapped (.v4 a)) = .v4 a := by
  simp only [ofMapped, mapped, extract_mappedPrefix_append, setWidth_mappedPrefix_append, if_true]

end IpAddress

/-- An address and a port.  The flow label and the zone of an IPv6 address are left out: no message
carries them, and nothing but the host reads them. -/
structure Endpoint where
  ip : IpAddress
  port : UInt16
  deriving DecidableEq, Repr, Inhabited

namespace Endpoint

/-- The wildcard address with a port. -/
def any (port : UInt16) : Endpoint := ⟨.any, port⟩

/-- The octets of an endpoint: the address, then the port. -/
def encode (o : ByteOrder) (e : Endpoint) : Bytes := e.ip.octets ++ Wire.word16 o e.port

/-- Reads an endpoint. -/
def decode {σ : Type} : Decoder σ Endpoint := do
  let bits ← Decoder.take 16
  let port ← Decoder.word16
  return ⟨.ofOctets bits, port⟩

/-- The endpoint that a datagram from `source` means: its address stands in for the wildcard. -/
def resolve (e source : Endpoint) : Endpoint :=
  if e.ip.isWildcard then { e with ip := source.ip } else e

/-- The rank in the order of endpoints: by address, then by port. -/
def rank (e : Endpoint) : Nat := e.ip.rank * 65536 + e.port.toNat

end Endpoint

end PvNet
