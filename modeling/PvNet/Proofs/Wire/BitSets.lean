import Mathlib.Data.List.Sort
import PvNet.BitSet
import PvNet.Proofs.Delimiting
import PvNet.Proofs.Discovery.SearchSizes
import PvNet.Proofs.Wire.Consumption
import PvNet.Proofs.Wire.Invariants
set_option autoImplicit false

/-!
# Bit sets and their octets

Octets stand for a number, least significant first, and position `i` of a set is bit `i`
of the number.  Both the octets that are written and the words and octets that are read
are described by this number, so it does not matter that the two divide the octets
differently: two sets with the same members are the same.

What is read has no positions beyond its octets, so what is written for it is never
longer than what it was read from.
-/

namespace PvNet

namespace Wire

/-! ## Bits of octets -/

theorem testBit_ofDigits_cons (b : UInt8) (bs : Bytes) (i : Nat) :
    (ofDigits (b :: bs)).testBit i =
      if i < 8 then b.toNat.testBit i else (ofDigits bs).testBit (i - 8) := by
  have hnumber : ofDigits (b :: bs) = 2 ^ 8 * ofDigits bs + b.toNat := Nat.add_comm ..
  rw [hnumber, Nat.testBit_two_pow_mul_add _ b.toNat_lt]

theorem testBit_ofDigits_append (as bs : Bytes) (i : Nat) :
    (ofDigits (as ++ bs)).testBit i =
      if i < 8 * as.length then (ofDigits as).testBit i
      else (ofDigits bs).testBit (i - 8 * as.length) := by
  induction as generalizing i with
  | nil => simp
  | cons a as ih =>
    rw [List.cons_append, testBit_ofDigits_cons, testBit_ofDigits_cons, ih, List.length_cons]
    have hsub : i - 8 - 8 * as.length = i - 8 * (as.length + 1) := by omega
    rw [hsub]
    split
    · rw [if_pos (by omega)]
    · have hiff : i - 8 < 8 * as.length ↔ i < 8 * (as.length + 1) := by omega
      simp only [hiff]

theorem lt_of_testBit_ofDigits {bs : Bytes} {i : Nat} (h : (ofDigits bs).testBit i = true) :
    i < 8 * bs.length := by
  by_contra hge
  have hend := testBit_ofDigits_append bs [] i
  rw [List.append_nil, h, if_neg hge] at hend
  simp [ofDigits] at hend

end Wire

namespace BitSet

open Wire

theorem eq_of_mem_iff {s t : BitSet} (h : ∀ i, i ∈ s ↔ i ∈ t) : s = t := by
  obtain ⟨ps, hps⟩ := s
  obtain ⟨qs, hqs⟩ := t
  obtain rfl : ps = qs := hps.eq_of_mem_iff hqs h
  rfl

/-- The length covers the highest position and is no greater than it has to be. -/
theorem wireLength_le_iff {s : BitSet} {n : Nat} : s.wireLength ≤ n ↔ ∀ i ∈ s, i < 8 * n := by
  obtain ⟨ps, hps⟩ := s
  cases hlast : ps.getLast? with
  | none =>
    obtain rfl := List.getLast?_eq_none_iff.1 hlast
    simp [wireLength]
  | some highest =>
    obtain ⟨lower, rfl⟩ := List.getLast?_eq_some_iff.1 hlast
    have hlength : (⟨lower ++ [highest], hps⟩ : BitSet).wireLength = highest / 8 + 1 := by
      unfold wireLength
      simp only [hlast]
    rw [hlength]
    constructor
    · intro hle i hi
      have hmax : i ≤ highest := by
        rcases List.mem_append.1 hi with hlower | hself
        · exact Nat.le_of_lt ((List.pairwise_append.1 hps).2.2 i hlower highest (by simp))
        · exact Nat.le_of_eq (List.mem_singleton.1 hself)
      omega
    · intro hall
      have hhighest := hall highest (by simp)
      omega

/-! ## Positions that are read -/

theorem mem_bitsOf {base width n p : Nat} :
    p ∈ bitsOf base width n ↔ base ≤ p ∧ p < base + width ∧ n.testBit (p - base) = true := by
  induction width generalizing base n with
  | zero =>
    simp only [bitsOf, List.not_mem_nil, false_iff]
    omega
  | succ width ih =>
    have htail : p ∈ bitsOf (base + 1) width (n / 2) ↔
        base + 1 ≤ p ∧ p < base + (width + 1) ∧ n.testBit (p - base) = true := by
      rw [ih, Nat.add_right_comm, Nat.add_assoc]
      refine and_congr_right fun hp => ?_
      have hsub : p - base = p - (base + 1) + 1 := by omega
      rw [hsub, Nat.testBit_succ]
    have hhead : p = base → (n.testBit (p - base) = true ↔ n % 2 = 1) := by
      rintro rfl
      rw [Nat.sub_self, Nat.testBit_zero, decide_eq_true_iff]
    rw [bitsOf]
    by_cases hp : p = base
    · have hnot : p ∉ bitsOf (base + 1) width (n / 2) := by
        rw [htail]
        omega
      rw [hhead hp]
      split
      · rename_i hodd
        simp [hp, hodd]
      · rename_i heven
        simp [hnot, heven]
    · have hle : base + 1 ≤ p ↔ base ≤ p := by omega
      rw [hle] at htail
      split
      · rw [List.mem_cons, or_iff_right hp, htail]
      · exact htail

/-- Groups of octets hold the positions that the number of all of them has. -/
theorem mem_positionsOf {size base p : Nat} {groups : List Bytes}
    (h : ∀ g ∈ groups, g.length = size) :
    p ∈ positionsOf (8 * size) base (groups.map ofDigits) ↔
      base ≤ p ∧ (ofDigits groups.flatten).testBit (p - base) = true := by
  induction groups generalizing base with
  | nil => simp [positionsOf, ofDigits]
  | cons g groups ih =>
    obtain ⟨hg, hgroups⟩ := List.forall_mem_cons.1 h
    rw [List.map_cons, positionsOf, List.mem_append, mem_bitsOf, ih hgroups, List.flatten_cons,
      testBit_ofDigits_append, hg, Nat.sub_sub]
    split
    · have hnot : ¬ base + 8 * size ≤ p := by omega
      have hlt : base ≤ p → p < base + 8 * size := by omega
      simp only [hnot, false_and, or_false]
      constructor
      · rintro ⟨hle, -, hbit⟩
        exact ⟨hle, hbit⟩
      · rintro ⟨hle, hbit⟩
        exact ⟨hle, hlt hle, hbit⟩
    · have hnot : base ≤ p → ¬ p < base + 8 * size := by omega
      have hle : base + 8 * size ≤ p ↔ base ≤ p := by omega
      rw [hle, or_iff_right fun h => hnot h.1 h.2.1]

theorem length_flatMap_word64 (o : ByteOrder) (words : List UInt64) :
    (words.flatMap (word64 o)).length = 8 * words.length := by
  have hword : ∀ w, (word64 o w).length = 8 := fun w => ByteOrder.length_encode o 8 w.toNat
  rw [length_flatMap_eq_total hword, total_const]

theorem mem_ofWords {words : List UInt64} {octets : Bytes} {p : Nat} :
    p ∈ ofWords words octets ↔
      (ofDigits (words.flatMap (word64 .little) ++ octets)).testBit p = true := by
  have hwords : words.map UInt64.toNat = (words.map (word64 .little)).map ofDigits := by
    rw [List.map_map]
    refine List.map_congr_left fun w _ => ?_
    exact ((ofDigits_digits 8 w.toNat).trans (Nat.mod_eq_of_lt w.toNat_lt)).symm
  have hoctets : octets.map UInt8.toNat = (octets.map fun b => [b]).map ofDigits := by
    rw [List.map_map]
    exact List.map_congr_left fun b _ => rfl
  have hflatten : (octets.map fun b => [b]).flatten = octets := List.flatMap_singleton' octets
  have hmem : p ∈ ofWords words octets ↔
      p ∈ positionsOf (8 * 8) 0 (words.map UInt64.toNat) ∨
        p ∈ positionsOf (8 * 1) (64 * words.length) (octets.map UInt8.toNat) :=
    List.mem_append
  rw [hmem, hwords, hoctets, mem_positionsOf (by simp [word64]), mem_positionsOf (by simp),
    hflatten, testBit_ofDigits_append, ← List.flatMap_def, length_flatMap_word64]
  simp only [Nat.zero_le, Nat.sub_zero, true_and, ← Nat.mul_assoc]
  split
  · rename_i hlt
    exact or_iff_left fun ⟨hge, _⟩ => Nat.not_le.2 hlt hge
  · rename_i hge
    have hoverlong : ¬ (ofDigits (words.flatMap (word64 .little))).testBit p = true := by
      intro hbit
      have hlt := lt_of_testBit_ofDigits hbit
      rw [length_flatMap_word64, ← Nat.mul_assoc] at hlt
      exact hge hlt
    rw [or_iff_right hoverlong]
    exact and_iff_right (Nat.le_of_not_lt hge)

/-! ## Octets that are written -/

/-- In an ascending list the positions of one octet stand in front of those of the octets behind
it. -/
theorem mem_split_octet {start p : Nat} {ps : List Nat} (hps : ps.Pairwise (· < ·))
    (hbounds : ∀ p ∈ ps, 8 * start ≤ p) :
    (p ∈ ps.takeWhile (· / 8 = start) ↔ p ∈ ps ∧ p / 8 = start) ∧
      (p ∈ ps.dropWhile (· / 8 = start) ↔ p ∈ ps ∧ p / 8 ≠ start) := by
  induction ps with
  | nil => simp
  | cons q ps ih =>
    obtain ⟨hq, hps⟩ := List.pairwise_cons.1 hps
    obtain ⟨hstart, hbounds⟩ := List.forall_mem_cons.1 hbounds
    by_cases hhere : q / 8 = start
    · rw [List.takeWhile_cons_of_pos (by simpa using hhere),
        List.dropWhile_cons_of_pos (by simpa using hhere), List.mem_cons, List.mem_cons,
        (ih hps hbounds).1, (ih hps hbounds).2]
      have hself : p = q → p / 8 = start := fun h => h ▸ hhere
      tauto
    · rw [List.takeWhile_cons_of_neg (by simpa using hhere),
        List.dropWhile_cons_of_neg (by simpa using hhere)]
      have hbeyond : ∀ p ∈ q :: ps, p / 8 ≠ start := by
        intro p hp
        rcases List.mem_cons.1 hp with rfl | hp
        · exact hhere
        · have hlt := hq p hp
          omega
      refine ⟨?_, ⟨fun hp => ⟨hp, hbeyond p hp⟩, fun hp => hp.1⟩⟩
      simp only [List.not_mem_nil, false_iff]
      exact fun ⟨hp, hequal⟩ => hbeyond p hp hequal

/-- Setting bits one after the other sets exactly these. -/
theorem testBit_foldl_setBit (ps : List Nat) (b : UInt8) (i : Nat) :
    (ps.foldl (fun b p => b ||| (1 <<< UInt8.ofNat (p % 8))) b).toNat.testBit i = true ↔
      b.toNat.testBit i = true ∨ ∃ p ∈ ps, p % 8 = i := by
  induction ps generalizing b with
  | nil => simp
  | cons p ps ih =>
    have hbit : (b ||| (1 <<< UInt8.ofNat (p % 8))).toNat.testBit i = true ↔
        b.toNat.testBit i = true ∨ p % 8 = i := by
      have hlt : p % 8 < 8 := Nat.mod_lt p (by decide)
      have hshift : (1 <<< UInt8.ofNat (p % 8) : UInt8).toNat = 2 ^ (p % 8) := by
        have hnat : (UInt8.ofNat (p % 8)).toNat = p % 8 := by
          rw [UInt8.toNat_ofNat']
          omega
        rw [UInt8.toNat_shiftLeft, hnat, Nat.mod_eq_of_lt hlt, UInt8.toNat_one, Nat.one_shiftLeft]
        exact Nat.mod_eq_of_lt (Nat.pow_lt_pow_right (by decide) hlt)
      rw [UInt8.toNat_or, Nat.testBit_or, hshift, Nat.testBit_two_pow, Bool.or_eq_true,
        decide_eq_true_iff]
    rw [List.foldl_cons, ih, hbit, List.exists_mem_cons_iff, or_assoc]

theorem testBit_octetsFrom {start count : Nat} {ps : List Nat} (hps : ps.Pairwise (· < ·))
    (hbounds : ∀ p ∈ ps, 8 * start ≤ p ∧ p < 8 * (start + count)) (i : Nat) :
    (ofDigits (octetsFrom start count ps)).testBit i = true ↔ 8 * start + i ∈ ps := by
  induction count generalizing start ps i with
  | zero =>
    have hnone : 8 * start + i ∉ ps := fun hmem => by
      have hlt := (hbounds _ hmem).2
      omega
    simp [octetsFrom, ofDigits, hnone]
  | succ count ih =>
    let here := ps.takeWhile (· / 8 = start)
    let later := ps.dropWhile (· / 8 = start)
    have hsplit : here ++ later = ps := List.takeWhile_append_dropWhile
    have hdrop : ps.drop here.length = later := by
      rw [← hsplit, List.drop_left]
    have hmem := fun p => mem_split_octet (p := p) hps fun p hp => (hbounds p hp).1
    have hlater : ∀ p ∈ later, 8 * (start + 1) ≤ p ∧ p < 8 * (start + 1 + count) := by
      intro p hp
      obtain ⟨hps', hne⟩ := (hmem p).2.1 hp
      have hbound := hbounds p hps'
      omega
    have hsorted : later.Pairwise (· < ·) := hps.sublist (List.dropWhile_sublist _)
    show (ofDigits (_ :: octetsFrom (start + 1) count (ps.drop here.length))).testBit i = true ↔ _
    rw [hdrop, testBit_ofDigits_cons]
    split
    · rename_i hi
      rw [testBit_foldl_setBit]
      constructor
      · rintro (hzero | ⟨p, hp, rfl⟩)
        · simp at hzero
        · obtain ⟨hps', hoctet⟩ := (hmem p).1.1 hp
          rw [← hoctet, Nat.div_add_mod]
          exact hps'
      · intro hps'
        exact .inr ⟨8 * start + i, (hmem _).1.2 ⟨hps', by omega⟩, by omega⟩
    · rename_i hi
      have hposition : 8 * (start + 1) + (i - 8) = 8 * start + i := by omega
      rw [ih hsorted hlater, hposition]
      exact (hmem _).2.trans (and_iff_left (by omega))

@[simp] theorem length_octetsFrom (start count : Nat) (ps : List Nat) :
    (octetsFrom start count ps).length = count := by
  induction count generalizing start ps with
  | zero => rfl
  | succ count ih => exact congrArg (· + 1) (ih _ _)

/-- The octets of a set, least significant first. -/
def octets (s : BitSet) : Bytes := octetsFrom 0 s.wireLength s.positions

@[simp] theorem length_octets (s : BitSet) : s.octets.length = s.wireLength :=
  length_octetsFrom 0 _ _

theorem testBit_octets (s : BitSet) (i : Nat) :
    (ofDigits s.octets).testBit i = true ↔ i ∈ s := by
  have hbounds : ∀ p ∈ s.positions, 8 * 0 ≤ p ∧ p < 8 * (0 + s.wireLength) := by
    intro p hp
    rw [Nat.zero_add]
    exact ⟨Nat.zero_le p, wireLength_le_iff.1 (Nat.le_refl _) p hp⟩
  have hbit := testBit_octetsFrom s.ascending hbounds i
  rwa [Nat.mul_zero, Nat.zero_add] at hbit

/-! ## Words -/

/-- The words that the first groups of eight octets stand for. -/
def wordsOf : Nat → Bytes → List UInt64
  | 0, _ => []
  | count + 1, bs => UInt64.ofNat (ofDigits (bs.take 8)) :: wordsOf count (bs.drop 8)

theorem length_wordsOf (count : Nat) (bs : Bytes) : (wordsOf count bs).length = count := by
  induction count generalizing bs with
  | zero => rfl
  | succ count ih => exact congrArg (· + 1) (ih _)

/-- The octets of a word are the eight that it stands for, or these from the last to the first. -/
theorem word64_ofDigits (o : ByteOrder) {bs : Bytes} (h : bs.length = 8) :
    word64 o (UInt64.ofNat (ofDigits bs)) =
      match o with
      | .little => bs
      | .big => bs.reverse := by
  have hlt : ofDigits bs < UInt64.size := by
    have hdecode := ByteOrder.little.decode_lt bs
    rwa [h] at hdecode
  have hdigits : digits 8 (ofDigits bs) = bs := h ▸ digits_ofDigits bs
  rw [word64, UInt64.toNat_ofNat_of_lt' hlt]
  cases o with
  | little => exact hdigits
  | big => exact congrArg List.reverse hdigits

/-- Octets with some groups of eight reversed for the order of the message are the words of these
groups, in the order of the message, and the octets behind them. -/
theorem flatMap_wordsOf_append_drop (o : ByteOrder) {count : Nat} {bs : Bytes}
    (h : 8 * count ≤ bs.length) :
    (wordsOf count bs).flatMap (word64 o) ++ bs.drop (8 * count) =
      match o with
      | .little => bs
      | .big => reverseWords count bs := by
  induction count generalizing bs with
  | zero => cases o <;> rfl
  | succ count ih =>
    have hgroup : (bs.take 8).length = 8 := List.length_take_of_le (by omega)
    have hlater : 8 * count ≤ (bs.drop 8).length := by
      rw [List.length_drop]
      omega
    have hdrop : bs.drop (8 * (count + 1)) = (bs.drop 8).drop (8 * count) := by
      rw [List.drop_drop, Nat.mul_succ, Nat.add_comm]
    rw [wordsOf, List.flatMap_cons, List.append_assoc, hdrop, ih hlater, word64_ofDigits o hgroup]
    cases o with
    | little => exact List.take_append_drop 8 bs
    | big => rfl

/-- The octets that are written: the length, the words of the complete groups and the rest. -/
theorem encode_eq (o : ByteOrder) (s : BitSet) :
    s.encode o = length o s.wireLength ++
      ((wordsOf (s.wireLength / 8) s.octets).flatMap (word64 o) ++
        s.octets.drop (8 * (s.wireLength / 8))) := by
  have hcount : 8 * (s.wireLength / 8) ≤ s.octets.length := by
    rw [length_octets]
    exact Nat.mul_div_le _ 8
  rw [flatMap_wordsOf_append_drop o hcount]
  cases o <;> rfl

theorem length_encode (o : ByteOrder) (s : BitSet) :
    (s.encode o).length = lengthSize s.wireLength + s.wireLength := by
  rw [encode_eq, List.length_append, length_length, List.length_append, length_flatMap_word64,
    length_wordsOf, List.length_drop, length_octets]
  omega

/-- A set is the one that its words and the octets behind them stand for. -/
theorem ofWords_octets (s : BitSet) :
    ofWords (wordsOf (s.wireLength / 8) s.octets) (s.octets.drop (8 * (s.wireLength / 8))) = s := by
  have hcount : 8 * (s.wireLength / 8) ≤ s.octets.length := by
    rw [length_octets]
    exact Nat.mul_div_le _ 8
  refine eq_of_mem_iff fun i => ?_
  rw [mem_ofWords, flatMap_wordsOf_append_drop .little hcount, testBit_octets]

/-! ## Round trips -/

section

variable {σ : Type} (o : ByteOrder) (state : σ)

theorem reads_decode {s : BitSet} (h : s.wireLength ≤ maxSize) :
    BitSet.decode.Reads o state (s.encode o) s state := by
  let count := s.wireLength / 8
  have hwords := Decoder.Reads.times_of_forall (o := o) (s := state) (word64 o)
    (wordsOf count s.octets) fun w _ => Decoder.Reads.word64 o state w
  have hoctets := Decoder.Reads.times_of_forall (o := o) (s := state) (fun b => [b])
    (s.octets.drop (8 * count)) fun b _ => Decoder.Reads.octet o state b
  have hrest : (s.octets.drop (8 * count)).length = s.wireLength % 8 := by
    rw [List.length_drop, length_octets]
    omega
  rw [length_wordsOf] at hwords
  rw [hrest, List.flatMap_singleton'] at hoctets
  rw [encode_eq]
  refine (Decoder.Reads.length o state h).bind (hwords.bind (hoctets.bind_pure ?_))
  show Decoder.Reads (pure (ofWords (wordsOf count s.octets) (s.octets.drop (8 * count)))) _ _ _ _ _
  rw [ofWords_octets]
  exact Decoder.Reads.pure s o state

end

end BitSet

/-! ## Octets of other writers -/

namespace Wire

theorem lengthSize_mono {m n : Nat} (h : m ≤ n) : lengthSize m ≤ lengthSize n := by
  unfold lengthSize
  split <;> split <;> omega

end Wire

/-- A length never takes fewer octets than are written for it, though it may take more. -/
theorem Decoder.costs_length {σ : Type} : (length : Decoder σ Nat).Costs Wire.lengthSize := by
  have hlong : ∀ n, Wire.lengthSize n ≤ 5 := fun n => by
    unfold Wire.lengthSize
    split <;> omega
  have hsize : (size : Decoder σ (Option Nat)).Costs fun n => (n.map Wire.lengthSize).getD 1 := by
    refine Costs.octet.bind fun first => ?_
    split
    · exact Costs.pure rfl
    split
    · refine Costs.word32.bind fun n => ?_
      show Costs (if n.toInt32.toInt < 0 then _ else _) _
      split
      · exact Costs.fail _
      · exact Costs.pure (Nat.sub_eq_zero_of_le (Nat.sub_le_of_le_add (hlong _)))
    · rename_i hnull hlongSize
      have hshort : first.toNat < 254 := by
        have hlt := first.toNat_lt
        have hne : first.toNat ≠ 255 := fun heq => hnull (UInt8.toNat_inj.1 heq)
        have hne' : first.toNat ≠ 254 := fun heq => hlongSize (UInt8.toNat_inj.1 heq)
        omega
      refine Costs.pure ?_
      show Wire.lengthSize first.toNat - 1 = 0
      rw [Wire.lengthSize, if_pos hshort]
  refine hsize.bind fun n => ?_
  cases n with
  | none => exact Costs.fail _
  | some n => exact Costs.pure (Nat.sub_self _)

namespace BitSet

open Wire

theorem wireLength_ofWords_le (words : List UInt64) (octets : Bytes) :
    (ofWords words octets).wireLength ≤ 8 * words.length + octets.length := by
  refine wireLength_le_iff.2 fun i hi => ?_
  have hlt := lt_of_testBit_ofDigits (mem_ofWords.1 hi)
  rwa [List.length_append, length_flatMap_word64] at hlt

variable {σ : Type} {o : ByteOrder} {state state' : σ} {bs rest : Bytes} {s : BitSet}

/-- Whatever a set was read from, it has as many octets as are written for the set. -/
theorem length_encode_le_of_run_decode
    (h : BitSet.decode.run o state bs = ⟨.ok s, state', rest⟩) :
    s.wireLength ≤ maxSize ∧ rest.length + (s.encode o).length ≤ bs.length := by
  obtain ⟨n, _, cs, hn, h⟩ := Decoder.exists_of_run_bind h
  obtain ⟨words, _, ds, hwords, h⟩ := Decoder.exists_of_run_bind h
  obtain ⟨octets, _, es, hoctets, h⟩ := Decoder.exists_of_run_bind h
  have hresult := Except.ok.inj (Outcome.mk.inj h).1
  have hrest := (Outcome.mk.inj h).2.2
  subst hresult hrest
  have hmax := Decoder.Maintains.length.of_run (I := fun _ => True) hn trivial
  have hwordCount := ((Decoder.Maintains.word64.times _).of_run (I := fun _ => True) hwords trivial).1
  have hoctetCount := ((Decoder.Maintains.octet.times _).of_run (I := fun _ => True) hoctets trivial).1
  have hprefix := Decoder.costs_length.of_run hn
  have htaken := (Decoder.Costs.word64.times _).of_run hwords
  have htaken' := (Decoder.Costs.octet.times _).of_run hoctets
  rw [total_const, hwordCount] at htaken
  rw [total_const, hoctetCount] at htaken'
  have hle := wireLength_ofWords_le words octets
  rw [hwordCount, hoctetCount] at hle
  have hlength : (ofWords words octets).wireLength ≤ n := by omega
  refine ⟨Nat.le_trans hlength hmax, ?_⟩
  have hsize := lengthSize_mono hlength
  rw [length_encode]
  omega

/-- A set whose length can be written is read back from its octets, in either order and whatever
follows; behind the length there are as many octets as it says.  Of octets from anywhere that are
read as a set, those that are written for the set are not more, and they are read as the same set. -/
theorem read_as_written (o : ByteOrder) :
    (∀ s : BitSet, s.wireLength ≤ maxSize →
      (∃ octets, s.encode o = length o s.wireLength ++ octets ∧ octets.length = s.wireLength) ∧
        ∀ suffix, (BitSet.decode : Decoder Unit BitSet).run o () (s.encode o ++ suffix) =
          ⟨.ok s, (), suffix⟩) ∧
      ∀ (bs : Bytes) (s : BitSet) (rest : Bytes),
        (BitSet.decode : Decoder Unit BitSet).run o () bs = ⟨.ok s, (), rest⟩ →
        ∃ taken, bs = taken ++ rest ∧ (s.encode o).length ≤ taken.length ∧
          ∀ suffix, (BitSet.decode : Decoder Unit BitSet).run o () (s.encode o ++ suffix) =
            ⟨.ok s, (), suffix⟩ := by
  refine ⟨fun s hs => ⟨⟨_, encode_eq o s, ?_⟩, reads_decode o () hs⟩, fun bs s rest h => ?_⟩
  · have hlength := length_encode o s
    rw [encode_eq, List.length_append, length_length] at hlength
    exact Nat.add_left_cancel hlength
  · obtain ⟨taken, rfl, _, _⟩ := plain_decode.selfDelimiting.item o () bs s () rest h
    obtain ⟨hs, hle⟩ := length_encode_le_of_run_decode h
    rw [List.length_append] at hle
    exact ⟨taken, rfl, by omega, reads_decode o () hs⟩

/-- A set with a complete word, whose length takes the long form. -/
def wideSet : BitSet := ⟨[0, 63, 2031], by decide⟩

/-- A set of one position behind a length that is longer than it has to be, with two octets too
many, and an octet that follows. -/
def paddedOctets : Bytes := [0xFE, 0, 0, 0, 3, 0x10, 0, 0, 0xAA]

/-- Both are read, and what is written for the second is two octets long. -/
theorem wideSet_and_paddedOctets_read :
    wideSet.wireLength = 254 ∧
      (∀ suffix, (BitSet.decode : Decoder Unit BitSet).run .big () (wideSet.encode .big ++ suffix) =
        ⟨.ok wideSet, (), suffix⟩) ∧
      ∃ taken, paddedOctets = taken ++ [0xAA] ∧ [1, 0x10].length ≤ taken.length ∧
        ∀ suffix, (BitSet.decode : Decoder Unit BitSet).run .big () ([1, 0x10] ++ suffix) =
          ⟨.ok ⟨[4], by simp⟩, (), suffix⟩ := by
  have hlength : wideSet.wireLength = 254 := rfl
  have hmax : wideSet.wireLength ≤ maxSize := by
    rw [hlength]
    decide
  have hpadded : (BitSet.decode : Decoder Unit BitSet).run .big () paddedOctets =
      ⟨.ok ⟨[4], by simp⟩, (), [0xAA]⟩ := rfl
  have hwritten : (⟨[4], by simp⟩ : BitSet).encode .big = [1, 0x10] := rfl
  have hread := (read_as_written .big).2 paddedOctets _ _ hpadded
  rw [hwritten] at hread
  exact ⟨hlength, ((read_as_written .big).1 wideSet hmax).2, hread⟩

end BitSet

end PvNet
