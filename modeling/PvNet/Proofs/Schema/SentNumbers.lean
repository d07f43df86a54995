import Mathlib.Data.List.Nodup
import PvNet.Schema.Numbering
set_option autoImplicit false

/-!
# Numbers of a sender

A sender numbers descriptors from one on in the order in which it meets them, so the
numbers in its table are the first ones, each in use once.  The next number is a
16-bit word and wraps round only when the table is full.
-/

namespace PvNet

namespace SentTypes

variable {t t' : SentTypes} {f g : Field} {n : UInt16}

/-- The numbers in use are `1`, …, `size`, the newest in front, and there is room for them. -/
structure Numbered (t : SentTypes) : Prop where
  numbers : t.entries.map (fun e => e.2.toNat) = (List.range' 1 t.size).reverse
  next_eq : t.next = UInt16.ofNat (t.size + 1)
  size_le : t.size ≤ t.capacity
  capacity_le : t.capacity ≤ 65535

/-- The table after a descriptor has been numbered. -/
def added (t : SentTypes) (f : Field) : SentTypes :=
  { t with entries := (f, t.next) :: t.entries, next := t.next + 1 }

theorem numbered_withCapacity (capacity : Nat) : (withCapacity capacity).Numbered :=
  ⟨rfl, rfl, Nat.zero_le _, Nat.min_le_right _ _⟩

theorem Numbered.clear (h : t.Numbered) : t.clear.Numbered :=
  ⟨rfl, rfl, Nat.zero_le _, h.capacity_le⟩

theorem Numbered.toNat_next (h : t.Numbered) (hroom : t.isFull = false) :
    t.next.toNat = t.size + 1 := by
  have hsize : t.size < t.capacity := by simpa [isFull] using hroom
  have hcapacity := h.capacity_le
  rw [h.next_eq, UInt16.toNat_ofNat']
  omega

theorem Numbered.added (h : t.Numbered) (hroom : t.isFull = false) (f : Field) :
    (t.added f).Numbered := by
  have hsize : t.size < t.capacity := by simpa [isFull] using hroom
  refine ⟨?_, ?_, hsize, h.capacity_le⟩
  · show t.next.toNat :: t.entries.map (fun e => e.2.toNat) =
      (List.range' 1 (t.size + 1)).reverse
    rw [List.range'_concat, List.reverse_append, h.numbers, h.toNat_next hroom]
    simp [Nat.add_comm]
  · show t.next + 1 = UInt16.ofNat (t.size + 1 + 1)
    rw [h.next_eq, UInt16.ofNat_add (t.size + 1) 1]
    rfl

theorem mem_of_number? (h : t.number? f = some n) : (f, n) ∈ t.entries := by
  obtain ⟨e, he, rfl⟩ := Option.map_eq_some_iff.1 h
  have hf : e.1 = f := by simpa using List.find?_some he
  rw [← hf]
  exact List.mem_of_find?_eq_some he

/-- No number stands for two descriptors. -/
theorem Numbered.number_injective (h : t.Numbered) (hf : t.number? f = some n)
    (hg : t.number? g = some n) : f = g := by
  have hnodup : (t.entries.map fun e => e.2.toNat).Nodup := by
    rw [h.numbers]
    exact List.nodup_reverse.2 List.nodup_range'
  have heq := List.inj_on_of_nodup_map hnodup (mem_of_number? hf) (mem_of_number? hg) rfl
  exact congrArg Prod.fst heq

theorem number?_added (t : SentTypes) (f g : Field) :
    (t.added f).number? g = if f = g then some t.next else t.number? g := by
  unfold number? added
  rw [List.find?_cons]
  by_cases h : f = g
  · simp [h]
  · simp [h]

/-- Every descriptor keeps its number. -/
def Extends (t t' : SentTypes) : Prop := ∀ f n, t.number? f = some n → t'.number? f = some n

theorem Extends.refl (t : SentTypes) : t.Extends t := fun _ _ h => h

theorem Extends.trans {t'' : SentTypes} (h : t.Extends t') (h' : t'.Extends t'') :
    t.Extends t'' := fun f n hf => h' f n (h f n hf)

theorem extends_added (h : t.number? f = none) : t.Extends (t.added f) := by
  intro g n hg
  rw [number?_added, if_neg ?_]
  · exact hg
  · rintro rfl
    rw [h] at hg
    cases hg

/-- What has no number had none before. -/
theorem Extends.number?_eq_none (h : t.Extends t') (hnone : t'.number? f = none) :
    t.number? f = none := by
  cases hold : t.number? f with
  | none => rfl
  | some n =>
    rw [h f n hold] at hnone
    cases hnone

/-! ## What stands in front of a descriptor -/

variable (o : ByteOrder)

theorem introduce_of_known (h : t.number? f = some n) :
    t.introduce o f = (referenceCode :: Wire.word16 o n, false, t) := by
  unfold introduce
  rw [h]

theorem introduce_of_new (h : t.number? f = none) (hroom : t.isFull = false) :
    t.introduce o f = (definitionCode :: Wire.word16 o t.next, true, t.added f) := by
  unfold introduce add
  rw [h, hroom]
  rfl

theorem introduce_of_full (h : t.number? f = none) (hfull : t.isFull = true) :
    t.introduce o f = ([], true, t) := by
  unfold introduce add
  rw [h, hfull]
  rfl

/-- Writes a descriptor that has to be numbered, `body` writing what follows its type code. -/
def introducing (f : Field) (body : SentTypes → Bytes × SentTypes) (t : SentTypes) :
    Bytes × SentTypes :=
  match t.introduce o f with
  | (front, false, t') => (front, t')
  | (front, true, t') => (front ++ f.typeCode :: (body t').1, (body t').2)

end SentTypes

variable (o : ByteOrder)

theorem Structure.encode_eq (id : String) (ms : List (String × Field)) (t : SentTypes) :
    (Structure.mk id ms).encode o t = t.introducing o (.struct ⟨id, ms⟩) fun t' =>
      (Wire.string o id ++ Wire.length o ms.length ++ (Structure.encodeMembers o ms t').1,
        (Structure.encodeMembers o ms t').2) := rfl

theorem Field.encode_structArray_eq (s : Structure) (t : SentTypes) :
    (Field.structArray s).encode o t = t.introducing o (.structArray s) (s.encode o) := rfl

theorem Structure.encodeMembers_cons (name : String) (f : Field) (ms : List (String × Field))
    (t : SentTypes) :
    Structure.encodeMembers o ((name, f) :: ms) t =
      (Wire.string o name ++ (f.encode o t).1 ++ (Structure.encodeMembers o ms (f.encode o t).2).1,
        (Structure.encodeMembers o ms (f.encode o t).2).2) := rfl

/-! ## What writing does to the table -/

/-- A property of a sender's table that numbering one more descriptor keeps. -/
def SentTypes.Growing (P : SentTypes → Prop) : Prop :=
  ∀ (t : SentTypes) (f : Field), P t → t.number? f = none → t.isFull = false → P (t.added f)

section

variable {P : SentTypes → Prop}

theorem SentTypes.Growing.introducing (hP : SentTypes.Growing P) {f : Field}
    {body : SentTypes → Bytes × SentTypes} (hbody : ∀ {t : SentTypes}, P t → P (body t).2)
    {t : SentTypes} (h : P t) : P (t.introducing o f body).2 := by
  unfold SentTypes.introducing
  cases hnumber : t.number? f with
  | some n =>
    rw [SentTypes.introduce_of_known o hnumber]
    exact h
  | none =>
    cases hfull : t.isFull with
    | false =>
      rw [SentTypes.introduce_of_new o hnumber hfull]
      exact hbody (hP t f h hnumber hfull)
    | true =>
      rw [SentTypes.introduce_of_full o hnumber hfull]
      exact hbody h

mutual

theorem SentTypes.Growing.encode (hP : SentTypes.Growing P) :
    ∀ (f : Field) {t : SentTypes}, P t → P (f.encode o t).2
  | .scalar _, _, h => h
  | .scalarArray _, _, h => h
  | .struct s, _, h => hP.encodeStructure s h
  | .structArray s, _, h => by
    rw [Field.encode_structArray_eq]
    refine hP.introducing o (fun h => ?_) h
    exact hP.encodeStructure s h

theorem SentTypes.Growing.encodeStructure (hP : SentTypes.Growing P) :
    ∀ (s : Structure) {t : SentTypes}, P t → P (s.encode o t).2
  | ⟨_, ms⟩, _, h => by
    rw [Structure.encode_eq]
    refine hP.introducing o (fun h => ?_) h
    exact hP.encodeMembers ms h

theorem SentTypes.Growing.encodeMembers (hP : SentTypes.Growing P) :
    ∀ (ms : List (String × Field)) {t : SentTypes}, P t → P (Structure.encodeMembers o ms t).2
  | [], _, h => h
  | (_, f) :: ms, _, h => by
    rw [Structure.encodeMembers_cons]
    exact hP.encodeMembers ms (hP.encode f h)

end

theorem SentTypes.Growing.encode? (hP : SentTypes.Growing P) (f : Option Field) {t : SentTypes}
    (h : P t) : P (Field.encode? o f t).2 := by
  cases f with
  | none => exact h
  | some f => exact hP.encode o f h

end

/-! ## The byte order -/

/-- The numbers of descriptors do not depend on the byte order. -/
theorem SentTypes.types_introducing (o o' : ByteOrder) {f : Field}
    {body body' : SentTypes → Bytes × SentTypes} (hbody : ∀ t, (body t).2 = (body' t).2)
    (t : SentTypes) : (t.introducing o f body).2 = (t.introducing o' f body').2 := by
  unfold SentTypes.introducing
  cases hnumber : t.number? f with
  | some n => rw [SentTypes.introduce_of_known o hnumber, SentTypes.introduce_of_known o' hnumber]
  | none =>
    cases hfull : t.isFull with
    | false =>
      rw [SentTypes.introduce_of_new o hnumber hfull, SentTypes.introduce_of_new o' hnumber hfull]
      exact hbody _
    | true =>
      rw [SentTypes.introduce_of_full o hnumber hfull, SentTypes.introduce_of_full o' hnumber hfull]
      exact hbody _

mutual

theorem Field.types_encode (o o' : ByteOrder) :
    ∀ (f : Field) (t : SentTypes), (f.encode o t).2 = (f.encode o' t).2
  | .scalar _, _ => rfl
  | .scalarArray _, _ => rfl
  | .struct s, t => Structure.types_encode o o' s t
  | .structArray s, t => by
    rw [Field.encode_structArray_eq, Field.encode_structArray_eq]
    exact SentTypes.types_introducing o o' (Structure.types_encode o o' s) t

theorem Structure.types_encode (o o' : ByteOrder) :
    ∀ (s : Structure) (t : SentTypes), (s.encode o t).2 = (s.encode o' t).2
  | ⟨id, ms⟩, t => by
    rw [Structure.encode_eq, Structure.encode_eq]
    refine SentTypes.types_introducing o o' (fun t => ?_) t
    exact Structure.types_encodeMembers o o' ms t

theorem Structure.types_encodeMembers (o o' : ByteOrder) :
    ∀ (ms : List (String × Field)) (t : SentTypes),
      (Structure.encodeMembers o ms t).2 = (Structure.encodeMembers o' ms t).2
  | [], _ => rfl
  | (_, f) :: ms, t => by
    rw [Structure.encodeMembers_cons, Structure.encodeMembers_cons, Field.types_encode o o' f t]
    exact Structure.types_encodeMembers o o' ms _

end

theorem Field.types_encode? (o o' : ByteOrder) (f : Option Field) (t : SentTypes) :
    (Field.encode? o f t).2 = (Field.encode? o' f t).2 := by
  cases f with
  | none => rfl
  | some f => exact f.types_encode o o' t

/-- What a sender's table becomes: the numbers in use are still the first ones, and every descriptor
keeps its own. -/
structure SentTypes.Grows (t t' : SentTypes) : Prop where
  numbered : t'.Numbered
  kept : t.Extends t'

theorem SentTypes.growing_grows (t : SentTypes) : SentTypes.Growing t.Grows :=
  fun _ f h hnumber hroom =>
    ⟨h.numbered.added hroom f, h.kept.trans (SentTypes.extends_added hnumber)⟩

/-- Whatever descriptor is written, the sender's table only grows. -/
theorem Field.grows_encode (f : Field) {t : SentTypes} (h : t.Numbered) :
    t.Grows (f.encode o t).2 :=
  t.growing_grows.encode o f ⟨h, .refl t⟩

end PvNet
