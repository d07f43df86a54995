import PvNet.Proofs.Net.RuleLists
set_option autoImplicit false

/-!
# Broadcast addresses

Whatever the text of a list of special networks is, no step of the way from it to a broadcast
address can fail, and the result is the one that the network part says bit by bit
(`NetworkRules.broadcasts_well_defined`).
-/

namespace PvNet

open Wire (bitAt)

namespace NetworkRules

/-- The mask of a network part covers its bits. -/
theorem exists_mask? {length : Nat} (h : length ≤ 32) :
    ∃ mask, mask? length = some mask ∧ ∀ i < 32, mask.getMsbD i = decide (i < length) := by
  rcases Nat.eq_zero_or_pos length with rfl | hpos
  · exact ⟨0, rfl, fun i _ => by simp⟩
  · refine ⟨_, (if_neg hpos.ne').trans (leadingOnes?_eq_some hpos h), fun i _ => ?_⟩
    exact getMsbD_leadingOnes h i

variable {rs : NetworkRules} (a : Ipv4)

theorem Sound.prefixLength_le (h : rs.Sound) : rs.prefixLength a ≤ 32 := by
  rcases decides_or_forall rs a with ⟨r, hr⟩ | hnone
  · rw [hr.prefixLength_eq]
    exact (h.valid r hr.mem_rules).length_le
  · rw [prefixLength_of_forall hnone]
    cases AddressClass.of (.v4 a) <;> decide

/-- The bits of a broadcast address: those of the network part, and ones. -/
theorem exists_broadcast? (h : rs.prefixLength a ≤ 32) (hloopback : a.isLoopback = false) :
    ∃ b, rs.broadcast? a = some b ∧
      ∀ i < 32, b.bits.getMsbD i = if i < rs.prefixLength a then a.bits.getMsbD i else true := by
  obtain ⟨mask, hmask, hbits⟩ := exists_mask? h
  refine ⟨⟨a.bits &&& mask ||| ~~~mask⟩, ?_, fun i hi => ?_⟩
  · rw [broadcast?, hloopback, if_neg Bool.false_ne_true, Nat.min_eq_left h, hmask, Option.map_some]
  · rw [BitVec.getMsbD_or, BitVec.getMsbD_and, BitVec.getMsbD_not, hbits i hi]
    by_cases hpart : i < rs.prefixLength a <;> simp [hpart, hi]

theorem broadcast?_of_isLoopback (h : a.isLoopback = true) : rs.broadcast? a = none := by
  rw [broadcast?, if_pos h]

/-- How a list of special networks gives the network part and the broadcast address of an
address. -/
structure WellDefined (rs : NetworkRules) (a : Ipv4) : Prop where
  /-- No comparison of octets leaves the address, and no mask is shifted too far. -/
  inRange : (∀ r ∈ rs.rules, r.applies? a = some (r.applies a)) ∧
    (mask? (min (rs.prefixLength a) 32)).isSome
  /-- An address belongs to a special network if it agrees with it as far as the mask and the octets
  of the network reach. -/
  applies_iff : ∀ r ∈ rs.rules, r.applies a = true ↔
    ∀ i < min r.mask (8 * r.network.length), a.bits.getMsbD i = bitAt r.network i
  /-- The last special network counts that the address belongs to, or else its class. -/
  prefixLength_eq : (∃ r, rs.Decides a r ∧ rs.prefixLength a = r.length) ∨
    ((∀ r ∈ rs.rules, r.applies a = false) ∧
      rs.prefixLength a = (AddressClass.of (.v4 a)).maskLength)
  prefixLength_le : rs.prefixLength a ≤ 32
  /-- Only the own host has no broadcast address. -/
  broadcast?_eq_none_iff : rs.broadcast? a = none ↔ ∃ b c d, a = .ofOctets 127 b c d
  /-- The network part stays, and all other bits are ones. -/
  broadcast?_bits : ∀ b, rs.broadcast? a = some b → ∀ i < 32,
    b.bits.getMsbD i = if i < rs.prefixLength a then a.bits.getMsbD i else true

/-- Every list gives every address a network part, and a broadcast address unless it belongs to the
own host. -/
theorem broadcasts_well_defined (list : String) (a : Ipv4) : (ofList list).WellDefined a := by
  have hsound := sound_ofList list
  have hlength := hsound.prefixLength_le a
  obtain ⟨mask, hmask, -⟩ := exists_mask? hlength
  refine ⟨⟨fun r hr => ?_, ?_⟩, fun r hr => ?_, ?_, hlength, ⟨fun h => ?_, ?_⟩, fun b hb => ?_⟩
  · exact NetworkRule.applies?_eq_some a (hsound.valid r hr).atMostFour
  · rw [Nat.min_eq_left hlength, hmask, Option.isSome_some]
  · exact NetworkRule.applies_iff a (hsound.valid r hr).atMostFour
  · rcases decides_or_forall (ofList list) a with ⟨r, hr⟩ | hnone
    · exact .inl ⟨r, hr, hr.prefixLength_eq⟩
    · exact .inr ⟨hnone, prefixLength_of_forall hnone⟩
  · obtain ⟨p, q, r, t, rfl⟩ := a.exists_eq_ofOctets
    refine ⟨q, r, t, ?_⟩
    cases hloopback : (Ipv4.ofOctets p q r t).isLoopback with
    | true => rw [Ipv4.isLoopback_ofOctets_iff.mp hloopback]
    | false =>
      obtain ⟨b, hb, -⟩ := exists_broadcast? _ hlength hloopback
      cases h.symm.trans hb
  · rintro ⟨q, r, t, rfl⟩
    exact broadcast?_of_isLoopback _ (Ipv4.isLoopback_ofOctets_iff.mpr rfl)
  · cases hloopback : a.isLoopback with
    | true => cases hb.symm.trans (broadcast?_of_isLoopback a hloopback)
    | false =>
      obtain ⟨b', hb', hbits⟩ := exists_broadcast? a hlength hloopback
      cases hb.symm.trans hb'
      exact hbits

/-- A network of two octets under a mask of 32 bits is compared as far as the octets reach. -/
example : (ofList "130.246/32:22").broadcast? (.ofOctets 130 246 1 2) =
    some (.ofOctets 130 246 3 255) := by
  decide +kernel

end NetworkRules

end PvNet
