import PvNet.Wire.Decode
set_option autoImplicit false

/-!
# Bit sets

A set of positions, kept as an ascending list without repetition.  On the wire
position `i` is bit `i % 8` of octet `i / 8`: a size in octets, then every complete
group of eight octets as one 64-bit word in the order of the message, then the
remaining octets as they are.
-/

namespace PvNet

/-- A finite set of positions: an ascending list without repetition. -/
structure BitSet where
  positions : List Nat
  ascending : positions.Pairwise (· < ·) := by simp
  deriving DecidableEq, Repr

namespace BitSet

/-- Puts a position into an ascending list unless it is there. -/
def insertSorted (i : Nat) : List Nat → List Nat
  | [] => [i]
  | j :: js => if i < j then i :: j :: js else if i = j then j :: js else j :: insertSorted i js

theorem mem_insertSorted (i k : Nat) (js : List Nat) : k ∈ insertSorted i js ↔ k = i ∨ k ∈ js := by
  induction js with
  | nil => simp [insertSorted]
  | cons j js ih =>
    simp only [insertSorted]
    split
    · simp
    · split
      · rename_i h
        subst h
        simp
      · simp only [List.mem_cons, ih]
        constructor <;> (intro h; rcases h with h | h | h <;> simp [h])

theorem pairwise_insertSorted (i : Nat) (js : List Nat) (h : js.Pairwise (· < ·)) :
    (insertSorted i js).Pairwise (· < ·) := by
  induction js with
  | nil => simp [insertSorted]
  | cons j js ih =>
    rw [List.pairwise_cons] at h
    simp only [insertSorted]
    split
    · rename_i hij
      refine List.pairwise_cons.2 ⟨?_, List.pairwise_cons.2 h⟩
      intro k hk
      rcases List.mem_cons.1 hk with rfl | hk
      · exact hij
      · exact Nat.lt_trans hij (h.1 k hk)
    · split
      · exact List.pairwise_cons.2 h
      · rename_i hij hne
        refine List.pairwise_cons.2 ⟨?_, ih h.2⟩
        intro k hk
        rcases (mem_insertSorted i k js).1 hk with rfl | hk
        · omega
        · exact h.1 k hk

def empty : BitSet := ⟨[], by simp⟩

/-- The set with one more position. -/
def insert (s : BitSet) (i : Nat) : BitSet :=
  ⟨insertSorted i s.positions, pairwise_insertSorted i s.positions s.ascending⟩

/-- The set of the listed positions. -/
def ofList (is : List Nat) : BitSet := is.foldl insert empty

instance : Membership Nat BitSet where
  mem s i := i ∈ s.positions

instance (i : Nat) (s : BitSet) : Decidable (i ∈ s) :=
  inferInstanceAs (Decidable (i ∈ s.positions))

@[simp] theorem mem_mk {i : Nat} {is : List Nat} {h : is.Pairwise (· < ·)} :
    i ∈ (⟨is, h⟩ : BitSet) ↔ i ∈ is := Iff.rfl

@[simp] theorem mem_insert {i k : Nat} {s : BitSet} : k ∈ s.insert i ↔ k = i ∨ k ∈ s :=
  mem_insertSorted i k s.positions

/-- How many octets the highest position needs. -/
def wireLength (s : BitSet) : Nat :=
  match s.positions.getLast? with
  | none => 0
  | some highest => highest / 8 + 1

/-- Octets `start`, `start + 1`, … of an ascending list of positions, each position used once. -/
def octetsFrom : Nat → Nat → List Nat → Bytes
  | _, 0, _ => []
  | start, count + 1, ps =>
    let here := ps.takeWhile fun p => p / 8 = start
    let b := here.foldl (fun b p => b ||| (1 <<< UInt8.ofNat (p % 8))) (0 : UInt8)
    b :: octetsFrom (start + 1) count (ps.drop here.length)

/-- Reverses each of the first `words` groups of eight octets. -/
def reverseWords : Nat → Bytes → Bytes
  | 0, bs => bs
  | words + 1, bs => (bs.take 8).reverse ++ reverseWords words (bs.drop 8)

/-- The octets of a set, its length in front. -/
def encode (o : ByteOrder) (s : BitSet) : Bytes :=
  let n := s.wireLength
  let octets := octetsFrom 0 n s.positions
  Wire.length o n ++
    match o with
    | .little => octets
    | .big => reverseWords (n / 8) octets

/-- The positions `base`, …, `base + width - 1` that are set in `n`, in ascending order. -/
def bitsOf (base : Nat) : Nat → Nat → List Nat
  | 0, _ => []
  | width + 1, n =>
    if n % 2 = 1 then base :: bitsOf (base + 1) width (n / 2) else bitsOf (base + 1) width (n / 2)

/-- The positions of consecutive groups of `width` bits from `base` on. -/
def positionsOf (width : Nat) : Nat → List Nat → List Nat
  | _, [] => []
  | base, n :: ns => bitsOf base width n ++ positionsOf width (base + width) ns

theorem bounds_bitsOf (base width n : Nat) :
    ∀ p ∈ bitsOf base width n, base ≤ p ∧ p < base + width := by
  induction width generalizing base n with
  | zero => simp [bitsOf]
  | succ w ih =>
    intro p hp
    simp only [bitsOf] at hp
    split at hp
    · rcases List.mem_cons.1 hp with rfl | hp
      · omega
      · have := ih (base + 1) (n / 2) p hp
        omega
    · have := ih (base + 1) (n / 2) p hp
      omega

theorem pairwise_bitsOf (base width n : Nat) : (bitsOf base width n).Pairwise (· < ·) := by
  induction width generalizing base n with
  | zero => simp [bitsOf]
  | succ w ih =>
    simp only [bitsOf]
    split
    · refine List.pairwise_cons.2 ⟨fun p hp => ?_, ih _ _⟩
      have := bounds_bitsOf (base + 1) w (n / 2) p hp
      omega
    · exact ih _ _

theorem bounds_positionsOf (width base : Nat) (ns : List Nat) :
    ∀ p ∈ positionsOf width base ns, base ≤ p ∧ p < base + width * ns.length := by
  induction ns generalizing base with
  | nil => simp [positionsOf]
  | cons n ns ih =>
    intro p hp
    simp only [positionsOf, List.mem_append] at hp
    simp only [List.length_cons, Nat.mul_succ]
    rcases hp with hp | hp
    · have := bounds_bitsOf base width n p hp
      omega
    · have := ih (base + width) p hp
      omega

theorem pairwise_positionsOf (width base : Nat) (ns : List Nat) :
    (positionsOf width base ns).Pairwise (· < ·) := by
  induction ns generalizing base with
  | nil => simp [positionsOf]
  | cons n ns ih =>
    simp only [positionsOf]
    refine List.pairwise_append.2 ⟨pairwise_bitsOf _ _ _, ih _, fun a ha b hb => ?_⟩
    have h1 := bounds_bitsOf base width n a ha
    have h2 := bounds_positionsOf width (base + width) ns b hb
    omega

/-- The set whose 64-bit words and, after them, octets are given. -/
def ofWords (words : List UInt64) (octets : Bytes) : BitSet where
  positions :=
    positionsOf 64 0 (words.map (·.toNat)) ++
      positionsOf 8 (64 * words.length) (octets.map (·.toNat))
  ascending := by
    refine List.pairwise_append.2
      ⟨pairwise_positionsOf _ _ _, pairwise_positionsOf _ _ _, fun a ha b hb => ?_⟩
    have h1 := bounds_positionsOf 64 0 _ a ha
    have h2 := bounds_positionsOf 8 _ _ b hb
    simp only [List.length_map] at h1
    omega

/-- Reads a set. -/
def decode {σ : Type} : Decoder σ BitSet := do
  let n ← Decoder.length
  let words ← Decoder.times (n / 8) Decoder.word64
  let octets ← Decoder.times (n % 8) Decoder.octet
  return ofWords words octets

end BitSet

end PvNet
