import PvNet.Net.Broadcast
import PvNet.Proofs.Net.AddressTexts
import PvNet.Proofs.Wire.BitSets
set_option autoImplicit false

/-!
# Network parts

What the masks of special networks and of broadcast addresses come to, said bit by bit.  A
rule is compared with an address one octet after the other, and only as far as its octets
and its mask both reach (`NetworkRule.reach`).
-/

namespace PvNet

namespace Wire

/-- A bit of some octets, the first one being the most significant bit of the first octet. -/
def bitAt (bs : Bytes) (i : Nat) : Bool := (bs.getD (i / 8) 0).toBitVec.getMsbD (i % 8)

theorem bitAt_cons_of_lt {i : Nat} (h : i < 8) (b : UInt8) (bs : Bytes) :
    bitAt (b :: bs) i = b.toBitVec.getMsbD i := by
  rw [bitAt, Nat.div_eq_of_lt h, Nat.mod_eq_of_lt h, List.getD_cons_zero]

theorem bitAt_cons_add (b : UInt8) (bs : Bytes) (i : Nat) :
    bitAt (b :: bs) (8 + i) = bitAt bs i := by
  rw [bitAt, bitAt, Nat.add_div_left i (by decide), Nat.add_mod_left, List.getD_cons_succ]

/-- The bits of a number in the order in which its octets are written. -/
theorem testBit_decode_big (bs : Bytes) {i : Nat} (h : i < 8 * bs.length) :
    (ByteOrder.big.decode bs).testBit (8 * bs.length - 1 - i) = bitAt bs i := by
  induction bs generalizing i with
  | nil => simp at h
  | cons b bs ih =>
    have hlength : (b :: bs).length = bs.length + 1 := rfl
    rw [hlength] at h ⊢
    rw [ByteOrder.decode, List.reverse_cons, testBit_ofDigits_append, List.length_reverse]
    rcases Nat.lt_or_ge i 8 with hi | hi
    · have hbit : 8 * (bs.length + 1) - 1 - i - 8 * bs.length = 7 - i := by omega
      rw [if_neg (by omega), hbit, bitAt_cons_of_lt hi, testBit_ofDigits_cons, if_pos (by omega),
        BitVec.getMsbD_eq_getLsbD, decide_eq_true hi, Bool.true_and]
      rfl
    · obtain ⟨j, rfl⟩ := Nat.exists_eq_add_of_le hi
      have hbit : 8 * (bs.length + 1) - 1 - (8 + j) = 8 * bs.length - 1 - j := by omega
      rw [if_pos (by omega), hbit, bitAt_cons_add]
      exact ih (by omega)

end Wire

open Wire

theorem Ipv4.getMsbD_bits (a : Ipv4) {i : Nat} (h : i < 32) :
    a.bits.getMsbD i = bitAt a.octets i := by
  have hdecode : ByteOrder.big.decode a.octets = a.bits.toNat := by
    rw [Ipv4.octets, ByteOrder.decode_encode]
    exact Nat.mod_eq_of_lt a.bits.isLt
  have hbit := testBit_decode_big a.octets (i := i) (by rw [a.length_octets]; exact h)
  rw [hdecode, a.length_octets] at hbit
  rw [← hbit, BitVec.getMsbD_eq_getLsbD, decide_eq_true h, Bool.true_and]
  rfl

/-! ## Masks -/

section

variable {width bits : Nat}

theorem leadingOnes?_eq_some (hpos : 0 < bits) (hle : bits ≤ width) :
    leadingOnes? width bits = some (BitVec.allOnes width <<< (width - bits)) :=
  if_pos ⟨hpos, hle⟩

theorem getMsbD_leadingOnes (hle : bits ≤ width) (i : Nat) :
    (BitVec.allOnes width <<< (width - bits)).getMsbD i = decide (i < bits) := by
  rw [BitVec.getMsbD_shiftLeft, BitVec.getMsbD_allOnes, decide_eq_decide]
  omega

/-- Behind a mask words agree in the bits that it covers. -/
theorem and_leadingOnes_eq_iff (hle : bits ≤ width) (x y : BitVec width) :
    x &&& BitVec.allOnes width <<< (width - bits) = y &&& BitVec.allOnes width <<< (width - bits) ↔
      ∀ i < bits, x.getMsbD i = y.getMsbD i := by
  constructor
  · intro h i hi
    have hbit := congrArg (·.getMsbD i) h
    simpa [getMsbD_leadingOnes hle, hi] using hbit
  · intro h
    refine BitVec.eq_of_getMsbD_eq fun i _ => ?_
    rw [BitVec.getMsbD_and, BitVec.getMsbD_and, getMsbD_leadingOnes hle]
    by_cases hi : i < bits
    · rw [h i hi]
    · simp [hi]

end

namespace NetworkRule

/-- How many bits of an address a rule looks at. -/
def reach (r : NetworkRule) : Nat := min r.mask (8 * r.network.length)

/-- The comparison of octets is one of bits.  The induction is on the octets of the network. -/
theorem agreeFrom?_cases (mask : Nat) (octets : Bytes) (i : Nat) (network : Bytes)
    (h : i + network.length ≤ octets.length) :
    ∃ agrees, agreeFrom? mask octets i network = some agrees ∧
      (agrees = true ↔ ∀ j < min (mask - 8 * i) (8 * network.length),
        bitAt octets (8 * i + j) = bitAt network j) := by
  induction network generalizing i with
  | nil => exact ⟨true, rfl, by simp⟩
  | cons x xs ih =>
    rw [List.length_cons] at h ⊢
    rw [agreeFrom?]
    by_cases hcovered : min (mask - 8 * i) 8 = 0
    · refine ⟨true, if_pos hcovered, iff_of_true rfl fun j hj => ?_⟩
      omega
    obtain ⟨octet, hoctet⟩ : ∃ octet, octets[i]? = some octet :=
      ⟨_, List.getElem?_eq_getElem (by omega)⟩
    have hoctets (j : Nat) (hj : j < 8) : bitAt octets (8 * i + j) = octet.toBitVec.getMsbD j := by
      rw [bitAt, Nat.mul_add_div (by decide), Nat.mul_add_mod, Nat.div_eq_of_lt hj,
        Nat.mod_eq_of_lt hj, Nat.add_zero, List.getD_eq_getElem?_getD, hoctet, Option.getD_some]
    have hmask : leadingOnes? 8 (min (mask - 8 * i) 8) = _ :=
      leadingOnes?_eq_some (by omega) (by omega)
    have heq := and_leadingOnes_eq_iff (Nat.min_le_right (mask - 8 * i) 8) octet.toBitVec x.toBitVec
    simp only [if_neg hcovered, hmask, hoctet, Option.bind_eq_bind, Option.bind_some]
    split
    case isTrue hsame =>
      obtain ⟨agrees, hagrees, hiff⟩ := ih (i + 1) (by omega)
      refine ⟨agrees, hagrees, hiff.trans ⟨fun hrest j hj => ?_, fun hall j hj => ?_⟩⟩
      · rcases Nat.lt_or_ge j 8 with hlow | hhigh
        · rw [hoctets j hlow, bitAt_cons_of_lt hlow]
          exact heq.mp hsame j (by omega)
        · obtain ⟨j, rfl⟩ := Nat.exists_eq_add_of_le hhigh
          rw [bitAt_cons_add, ← hrest j (by omega)]
          exact congrArg (bitAt octets) (by omega)
      · rw [← bitAt_cons_add x xs, ← hall (8 + j) (by omega)]
        exact congrArg (bitAt octets) (by omega)
    case isFalse hother =>
      refine ⟨false, rfl, iff_of_false Bool.false_ne_true fun hall => hother ?_⟩
      refine heq.mpr fun j hj => ?_
      rw [← hoctets j (by omega), ← bitAt_cons_of_lt (by omega) x xs]
      exact hall j (by omega)

section

variable {r : NetworkRule} (a : Ipv4)

/-- Octets of addresses are compared without leaving the address. -/
theorem applies?_eq_some (h : r.network.length ≤ 4) : r.applies? a = some (r.applies a) := by
  obtain ⟨agrees, hagrees, -⟩ := agreeFrom?_cases r.mask a.octets 0 r.network (by simpa using h)
  rw [applies, applies?, hagrees, Option.getD_some]

/-- A rule applies to the addresses that have the bits of its network as far as it looks. -/
theorem applies_iff (h : r.network.length ≤ 4) :
    r.applies a = true ↔ ∀ i < r.reach, a.bits.getMsbD i = bitAt r.network i := by
  obtain ⟨agrees, hagrees, hiff⟩ := agreeFrom?_cases r.mask a.octets 0 r.network (by simpa using h)
  rw [applies, applies?, hagrees, Option.getD_some, hiff]
  refine forall₂_congr fun i hi => ?_
  rw [Nat.mul_zero, Nat.zero_add, a.getMsbD_bits (by omega)]

end

end NetworkRule

end PvNet
