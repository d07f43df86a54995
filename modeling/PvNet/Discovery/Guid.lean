import PvNet.Wire.Decode
import PvNet.Text.Hex
set_option autoImplicit false

/-!
# Server identifiers

Every run of a server has an identifier of 128 bits, which travels as sixteen
octets, the same in either byte order.
-/

namespace PvNet

/-- The identifier of a server. -/
structure Guid where
  bits : BitVec 128
  deriving DecidableEq, Repr, Inhabited

namespace Guid

/-- The sixteen octets of an identifier. -/
def octets (g : Guid) : Bytes := ByteOrder.big.encode 16 g.bits.toNat

/-- The identifier that sixteen octets stand for. -/
def ofOctets (bs : Bytes) : Guid := ⟨BitVec.ofNat 128 (ByteOrder.big.decode bs)⟩

/-- The identifier in hexadecimal digits. -/
def text (g : Guid) : String := Hex.render g.octets

/-- Reads an identifier. -/
def decode {σ : Type} : Decoder σ Guid := ofOctets <$> Decoder.take 16

@[simp] theorem length_octets (g : Guid) : g.octets.length = 16 := by simp [octets]

theorem ofOctets_octets (g : Guid) : ofOctets g.octets = g := by
  have hlt : g.bits.toNat < Nat.pow 256 16 := g.bits.isLt
  simp only [ofOctets, octets, ByteOrder.decode_encode, Nat.mod_eq_of_lt hlt,
    BitVec.ofNat_toNat, BitVec.setWidth_eq]

end Guid

end PvNet
