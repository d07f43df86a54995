import PvNet.Proofs.Wire.Invariants
import PvNet.Schema.Numbering
set_option autoImplicit false

/-!
# Levels of descriptors

Two ways of counting the levels of a descriptor differ in the leaves only: `nesting`
counts structures and arrays of structures, `levels` a leaf as well.  A receiver stores
with every number the levels of its descriptor, and the room that a descriptor needs
to arrive in full is its nesting.

Both facts hold of every table that decoding can bring about, whatever octets arrive
and wherever decoding fails.
-/

namespace PvNet

/-! ## Counting -/

mutual

/-- How many levels a descriptor spans if a leaf counts `leaf`. -/
def Field.height (leaf : Nat) : Field → Nat
  | .scalar _ | .scalarArray _ => leaf
  | .struct s => s.height leaf
  | .structArray s => s.height leaf + 1
termination_by structural f => f

/-- How many levels a structure spans. -/
def Structure.height (leaf : Nat) : Structure → Nat
  | ⟨_, ms⟩ => Structure.memberHeight leaf ms + 1
termination_by structural s => s

/-- How many levels the highest of a list of members spans. -/
def Structure.memberHeight (leaf : Nat) : List (String × Field) → Nat
  | [] => 0
  | (_, f) :: ms => max (f.height leaf) (Structure.memberHeight leaf ms)
termination_by structural ms => ms

end

/-- The levels of a descriptor, leaves included. -/
abbrev Field.levels (f : Field) : Nat := f.height 1

/-- The levels of structures and arrays of structures in a descriptor. -/
abbrev Field.nesting (f : Field) : Nat := f.height 0

mutual

/-- Leaves add at most one level. -/
theorem Field.nesting_le_levels :
    ∀ f : Field, f.nesting ≤ f.levels ∧ f.levels ≤ f.nesting + 1
  | .scalar _ => by simp [Field.height]
  | .scalarArray _ => by simp [Field.height]
  | .struct s => Structure.height_zero_le_height_one s
  | .structArray s => by
    have h := Structure.height_zero_le_height_one s
    simp only [Field.levels, Field.nesting, Field.height]
    omega

theorem Structure.height_zero_le_height_one :
    ∀ s : Structure, s.height 0 ≤ s.height 1 ∧ s.height 1 ≤ s.height 0 + 1
  | ⟨_, ms⟩ => by
    have h := Structure.memberHeight_zero_le_memberHeight_one ms
    simp only [Structure.height]
    omega

theorem Structure.memberHeight_zero_le_memberHeight_one :
    ∀ ms : List (String × Field),
      Structure.memberHeight 0 ms ≤ Structure.memberHeight 1 ms ∧
        Structure.memberHeight 1 ms ≤ Structure.memberHeight 0 ms + 1
  | [] => by simp [Structure.memberHeight]
  | (_, f) :: ms => by
    have hf := Field.nesting_le_levels f
    have hms := Structure.memberHeight_zero_le_memberHeight_one ms
    unfold Field.levels Field.nesting at hf
    simp only [Structure.memberHeight]
    omega

end

theorem Structure.memberHeight_le {leaf bound : Nat} {ms : List (String × Field)}
    (h : ∀ m ∈ ms, m.2.height leaf ≤ bound) : Structure.memberHeight leaf ms ≤ bound := by
  induction ms with
  | nil => exact Nat.zero_le bound
  | cons m ms ih =>
    simp only [Structure.memberHeight]
    exact Nat.max_le.2 ⟨h m (by simp), ih fun m' hm' => h m' (by simp [hm'])⟩

/-! ## Stored levels -/

namespace KnownTypes

@[simp] theorem find?_empty (n : UInt16) : ({} : KnownTypes).find? n = none := rfl

/-- A new definition is found under its number; all others stay. -/
theorem find?_define (t : KnownTypes) (n m : UInt16) (d : Levelled) :
    (t.define n d).find? m = if n = m then some d else t.find? m := by
  unfold find? define
  rw [List.find?_cons]
  by_cases h : n = m
  · simp [h]
  · have hkept : ∀ e : UInt16 × Levelled,
        (!decide (e.1 = n) && decide (e.1 = m)) = decide (e.1 = m) := by
      intro e
      by_cases he : e.1 = m
      · simp [he, Ne.symm h]
      · simp [he]
    simp [h, List.find?_filter, hkept]

end KnownTypes

/-- The stored levels are those of the descriptor, which needs at most `room` to arrive. -/
structure Levelled.Within (room : Nat) (d : Levelled) : Prop where
  levels_eq : d.levels = d.field.levels
  nesting_le : d.field.nesting ≤ room

theorem Levelled.Within.mono {room room' : Nat} {d : Levelled} (h : d.Within room)
    (hle : room ≤ room') : d.Within room' :=
  ⟨h.levels_eq, Nat.le_trans h.nesting_le hle⟩

/-- Every stored descriptor is stored with its levels and could have arrived in full. -/
def KnownTypes.Sound (t : KnownTypes) : Prop :=
  ∀ n d, t.find? n = some d → d.Within maxLevels

theorem KnownTypes.sound_empty : ({} : KnownTypes).Sound := by
  intro n d h
  simp at h

theorem KnownTypes.Sound.define {t : KnownTypes} (ht : t.Sound) (n : UInt16) {d : Levelled}
    (hd : d.Within maxLevels) : (t.define n d).Sound := by
  intro m d' h
  rw [find?_define] at h
  split at h
  · obtain rfl := Option.some.inj h
    exact hd
  · exact ht m d' h

namespace Field

theorem levelsOver_eq (ms : List (String × Levelled))
    (h : ∀ m ∈ ms, m.2.levels = m.2.field.levels) :
    levelsOver ms = Structure.memberHeight 1 (ms.map fun m => (m.1, m.2.field)) + 1 := by
  -- The fold starts from one, so the induction is over what has been seen beyond that.
  have hfold : ∀ acc, ms.foldl (fun h m => max h (m.2.levels + 1)) (acc + 1) =
      max acc (Structure.memberHeight 1 (ms.map fun m => (m.1, m.2.field))) + 1 := by
    induction ms with
    | nil => simp [Structure.memberHeight]
    | cons m ms ih =>
      intro acc
      have hm := h m (by simp)
      have hmax : max (acc + 1) (m.2.levels + 1) = max acc m.2.levels + 1 := by omega
      rw [List.foldl_cons, hmax, ih fun m' hm' => h m' (by simp [hm'])]
      simp only [List.map_cons, Structure.memberHeight, hm, Field.levels]
      omega
  have hzero := hfold 0
  rwa [Nat.zero_max] at hzero

/-- What decoding a descriptor may return when `room` levels are allowed. -/
def DecodedWithin (room : Nat) (r : Option Levelled) : Prop := ∀ d, r = some d → d.Within room

open Decoder

/-- Given this of the descriptor's body, decoding a descriptor keeps the table sound. -/
theorem maintains_decodeLevelled {room : Nat} (hroom : room ≤ maxLevels)
    (hbody : ∀ code, (decodeBody room code).Maintains KnownTypes.Sound (Levelled.Within room)) :
    (decodeLevelled room).Maintains KnownTypes.Sound (DecodedWithin room) := by
  have hsome : ∀ d : Levelled, d.Within room → DecodedWithin room (some d) := by
    intro d hd d' h
    obtain rfl := Option.some.inj h
    exact hd
  rw [decodeLevelled]
  refine Maintains.octet.bind fun first _ => ?_
  split
  · exact Maintains.pure fun d h => nomatch h
  split
  · refine Maintains.word16.bind fun n _ => Maintains.get.bind fun t ht => ?_
    split
    · exact Maintains.fail _
    · rename_i d hfind
      split
      · exact Maintains.fail _
      · rename_i hlevels
        refine Maintains.pure (hsome d ⟨(ht n d hfind).levels_eq, ?_⟩)
        have hle := (nesting_le_levels d.field).1
        rw [← (ht n d hfind).levels_eq] at hle
        omega
  split
  · refine Maintains.word16.bind fun n _ => Maintains.octet.bind fun code _ =>
      (hbody code).bind fun d hd => ?_
    have hdefine : ∀ t : KnownTypes, t.Sound → (t.define n d).Sound :=
      fun t ht => ht.define n (hd.mono hroom)
    exact (Maintains.modify hdefine).bind fun _ _ => Maintains.pure (hsome d hd)
  · exact (hbody first).bind fun d hd => Maintains.pure (hsome d hd)

theorem maintains_decodeMember {room : Nat}
    (h : (decodeLevelled room).Maintains KnownTypes.Sound (DecodedWithin room)) :
    (decodeMember room).Maintains KnownTypes.Sound fun m => m.2.Within room := by
  rw [decodeMember]
  refine Maintains.string.bind fun name _ => h.bind fun r hr => ?_
  cases r with
  | none => exact Maintains.fail _
  | some d => exact Maintains.pure (hr d rfl)

/-- A descriptor that is a single octet has no structure in it. -/
theorem within_of_ofLeafCode? {code : UInt8} {f : Field} (h : ofLeafCode? code = some f)
    (room : Nat) : (⟨f, 1⟩ : Levelled).Within room := by
  unfold ofLeafCode? at h
  split at h
  · obtain rfl := Option.some.inj h
    exact ⟨rfl, Nat.zero_le room⟩
  · split at h
    · obtain ⟨t, _, rfl⟩ := Option.map_eq_some_iff.1 h
      exact ⟨rfl, Nat.zero_le room⟩
    · exact nomatch h

theorem maintains_leaf (code : UInt8) (room : Nat) :
    (match ofLeafCode? code with
      | some f => return ⟨f, 1⟩
      | none => fail (.unknownTypeCode code) : Decoder KnownTypes Levelled).Maintains
      KnownTypes.Sound (Levelled.Within room) := by
  split
  · rename_i f hf
    exact Maintains.pure (within_of_ofLeafCode? hf room)
  · exact Maintains.fail _

/-- The body of a descriptor keeps the table sound, by induction on the room. -/
theorem maintains_decodeBody {room : Nat} (hroom : room ≤ maxLevels) (code : UInt8) :
    (decodeBody room code).Maintains KnownTypes.Sound (Levelled.Within room) := by
  induction room generalizing code with
  | zero =>
    rw [decodeBody]
    split
    · exact Maintains.fail _
    split
    · exact Maintains.fail _
    · exact maintains_leaf code 0
  | succ room ih =>
    have hlevelled := maintains_decodeLevelled (Nat.le_of_succ_le hroom)
      fun code => ih (Nat.le_of_succ_le hroom) code
    rw [decodeBody]
    split
    · refine Maintains.string.bind fun id _ => Maintains.length.bind fun count _ =>
        ((maintains_decodeMember hlevelled).times count).bind fun ms hms => Maintains.pure ?_
      refine ⟨levelsOver_eq ms fun m hm => (hms.2 m hm).levels_eq, ?_⟩
      refine Nat.succ_le_succ (Structure.memberHeight_le fun m hm => ?_)
      obtain ⟨m', hm', rfl⟩ := List.mem_map.1 hm
      exact (hms.2 m' hm').nesting_le
    split
    · refine hlevelled.bind fun r hr => ?_
      split
      · rename_i element levels
        have hd := hr _ rfl
        exact Maintains.pure ⟨congrArg (· + 1) hd.levels_eq, Nat.succ_le_succ hd.nesting_le⟩
      · exact Maintains.fail _
    · exact maintains_leaf code (room + 1)

end Field

end PvNet
