import PvNet.Net.Address
import PvNet.Proofs.Wire.Reading
set_option autoImplicit false

/-!
# Addresses that arrive

An address arrives as the 128 bits say that it travelled as, so an IPv4 address that
was given in its IPv6 form arrives as what it is.  Nothing else changes: the wildcard
address stays one, and no other address becomes one.
-/

namespace PvNet

namespace IpAddress

/-- The address that a receiver gets. -/
def canonical (a : IpAddress) : IpAddress := ofMapped a.mapped

theorem canonical_v4 (a : Ipv4) : (IpAddress.v4 a).canonical = .v4 a := ofMapped_mapped_v4 a

/-- A mapped address is its prefix and the IPv4 address. -/
theorem eq_mappedPrefix_append {bits : BitVec 128} (h : bits.extractLsb' 32 96 = mappedPrefix) :
    bits = mappedPrefix ++ bits.setWidth 32 := by
  apply BitVec.eq_of_getLsbD_eq
  intro i hi
  rw [BitVec.getLsbD_append, ← h, BitVec.getLsbD_extractLsb', BitVec.getLsbD_setWidth]
  split
  · rename_i hlow
    simp [hlow]
  · rename_i hhigh
    have hwidth : i - 32 < 96 := by omega
    simp [hwidth, show 32 + (i - 32) = i by omega]

/-- An IPv4 address in its IPv6 form. -/
theorem canonical_mapped (a : Ipv4) : (IpAddress.v6 ⟨mappedPrefix ++ a.bits⟩).canonical = .v4 a :=
  ofMapped_mapped_v4 a

/-- Any other IPv6 address. -/
theorem canonical_of_not_mapped {bits : BitVec 128}
    (h : ∀ a : Ipv4, bits ≠ mappedPrefix ++ a.bits) :
    (IpAddress.v6 ⟨bits⟩).canonical = .v6 ⟨bits⟩ := by
  have hprefix : bits.extractLsb' 32 96 ≠ mappedPrefix :=
    fun heq => h ⟨bits.setWidth 32⟩ (eq_mappedPrefix_append heq)
  exact if_neg hprefix

theorem ofOctets_octets (a : IpAddress) : ofOctets a.octets = a.canonical := by
  have hlt : a.mapped.toNat < Nat.pow 256 16 := a.mapped.isLt
  rw [ofOctets, octets, ByteOrder.decode_encode, Nat.mod_eq_of_lt hlt, BitVec.ofNat_toNat,
    BitVec.setWidth_eq]
  rfl

theorem isWildcard_ofMapped (bits : BitVec 128) :
    (ofMapped bits).isWildcard = (IpAddress.v6 ⟨bits⟩).isWildcard := by
  unfold ofMapped
  split
  · rename_i hmapped
    have hbits := eq_mappedPrefix_append hmapped
    -- The prefix is not zero, so the wildcard is the one that the IPv4 wildcard is mapped to.
    have hzero : bits ≠ 0 := by
      rintro rfl
      revert hmapped
      decide
    have hiff : bits.setWidth 32 = 0 ↔ bits = mappedPrefix ++ (0 : BitVec 32) := by
      refine ⟨fun h => by rw [hbits, h], fun h => ?_⟩
      rw [h, setWidth_mappedPrefix_append]
    simp only [isWildcard, hzero, hiff, decide_false, Bool.false_or]
  · rfl

theorem isWildcard_canonical (a : IpAddress) : a.canonical.isWildcard = a.isWildcard := by
  cases a with
  | v4 a => rw [canonical_v4]
  | v6 a => exact isWildcard_ofMapped a.bits

/-- The octets of the wildcard: of the IPv6 one, and of the IPv4 one in its IPv6 form. -/
def wildcardOctets : List Bytes :=
  [List.replicate 16 0, List.replicate 10 0 ++ [0xFF, 0xFF, 0, 0, 0, 0]]

theorem isWildcard_ofOctets_iff {bs : Bytes} (h : bs.length = 16) :
    (ofOctets bs).isWildcard = true ↔ bs ∈ wildcardOctets := by
  have hlt : ByteOrder.big.decode bs < Nat.pow 256 16 := h ▸ ByteOrder.big.decode_lt bs
  have hencode : ByteOrder.big.encode 16 (ByteOrder.big.decode bs) = bs :=
    h ▸ ByteOrder.big.encode_decode bs
  have hbits : ∀ bits : BitVec 128, BitVec.ofNat 128 (ByteOrder.big.decode bs) = bits ↔
      bs = (IpAddress.v6 ⟨bits⟩).octets := by
    intro bits
    constructor
    · rintro rfl
      show bs = ByteOrder.big.encode 16 (BitVec.ofNat 128 (ByteOrder.big.decode bs)).toNat
      rw [BitVec.toNat_ofNat, Nat.mod_eq_of_lt hlt, hencode]
    · intro hbs
      have hdecode : ByteOrder.big.decode bs = bits.toNat := by
        rw [hbs]
        exact (ByteOrder.big.decode_encode 16 bits.toNat).trans (Nat.mod_eq_of_lt bits.isLt)
      rw [hdecode, BitVec.ofNat_toNat, BitVec.setWidth_eq]
  have hany : (IpAddress.v6 ⟨0⟩).octets = List.replicate 16 0 := by decide
  have hmapped : (IpAddress.v6 ⟨mappedPrefix ++ (0 : BitVec 32)⟩).octets =
      List.replicate 10 0 ++ [0xFF, 0xFF, 0, 0, 0, 0] := by decide
  rw [ofOctets, isWildcard_ofMapped, isWildcard, Bool.or_eq_true, decide_eq_true_iff,
    decide_eq_true_iff, hbits, hbits, hany, hmapped, wildcardOctets, List.mem_cons,
    List.mem_singleton]

end IpAddress

namespace Endpoint

/-- The endpoint that a receiver gets. -/
def canonical (e : Endpoint) : Endpoint := { e with ip := e.ip.canonical }

theorem canonical_any (port : UInt16) : (any port).canonical = any port :=
  congrArg (Endpoint.mk · port) (IpAddress.canonical_v4 .any)

theorem reads_decode {σ : Type} (o : ByteOrder) (s : σ) (e : Endpoint) :
    decode.Reads o s (e.encode o) e.canonical s := by
  have htake := Decoder.Reads.take o s e.ip.octets
  rw [IpAddress.length_octets] at htake
  refine htake.bind ((Decoder.Reads.word16 o s e.port).bind_pure ?_)
  rw [IpAddress.ofOctets_octets]
  exact Decoder.Reads.pure e.canonical o s

@[simp] theorem length_encode (o : ByteOrder) (e : Endpoint) : (e.encode o).length = 18 := by
  rw [encode, List.length_append, IpAddress.length_octets]
  exact congrArg (16 + ·) (ByteOrder.length_encode o 2 _)

end Endpoint

end PvNet
