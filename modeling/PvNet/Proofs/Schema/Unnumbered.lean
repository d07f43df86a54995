import PvNet.Proofs.Schema.LostNumbers
set_option autoImplicit false

/-!
# Descriptors without numbers

A sender whose table has no room at all writes every descriptor in full.  Whoever reads
it needs no number and learns none, so such a descriptor stands for itself, outside any
connection.  In full a leaf is not counted against the limit, so the room that is needed
is the nesting rather than the levels.
-/

namespace PvNet

open Decoder

namespace SentTypes

/-- The table of a sender that numbers nothing. -/
def unnumbered : SentTypes := .withCapacity 0

/-- What has to be numbered is written in full. -/
theorem introducing_unnumbered (o : ByteOrder) (f : Field)
    (body : SentTypes → Bytes × SentTypes) :
    unnumbered.introducing o f body =
      (f.typeCode :: (body unnumbered).1, (body unnumbered).2) := by
  unfold introducing
  rw [introduce_of_full o rfl rfl]
  rfl

end SentTypes

/-- What a sender without numbers writes is read back by anybody, and both are as they were. -/
structure InFull {α : Type} (o : ByteOrder) (known : KnownTypes) (written : Bytes × SentTypes)
    (d : Decoder KnownTypes α) (a : α) : Prop where
  reads : d.Reads o known written.1 a known
  kept : written.2 = .unnumbered

section

variable {o : ByteOrder} {known : KnownTypes}

/-- A descriptor in full is its type code and its body. -/
theorem Field.inFull_introducing {f : Field} {body : SentTypes → Bytes × SentTypes} {room : Nat}
    (h : InFull o known (body .unnumbered) (decodeBody room f.typeCode) ⟨f, f.levels⟩) :
    InFull o known (SentTypes.unnumbered.introducing o f body) (decodeLevelled room)
      (some ⟨f, f.levels⟩) := by
  rw [SentTypes.introducing_unnumbered]
  exact ⟨reads_plain f.isTypeCode_typeCode h.reads, h.kept⟩

mutual

/-- A descriptor is read back as far as the limit goes. -/
theorem Field.inFull_encode :
    ∀ (f : Field) {room : Nat}, f.nesting ≤ room → f.fits = true →
      InFull o known (f.encode o .unnumbered) (Field.decodeLevelled room)
        (some ⟨f, f.levels⟩)
  | .scalar _, room, _, _ | .scalarArray _, room, _, _ =>
    ⟨Field.reads_typeCode o known room rfl, rfl⟩
  | .struct s, room, hroom, hfits => Structure.inFull_encode s hroom hfits
  | .structArray s, room, hroom, hfits => by
    obtain ⟨room, rfl⟩ := Nat.exists_eq_add_of_le' (Nat.le_trans (Nat.le_add_left 1 _) hroom)
    have helement := Structure.inFull_encode s (Nat.le_of_succ_le_succ hroom) hfits
    rw [Field.encode_structArray_eq]
    exact Field.inFull_introducing ⟨Field.reads_structArray helement.reads, helement.kept⟩

theorem Structure.inFull_encode :
    ∀ (s : Structure) {room : Nat}, s.height 0 ≤ room → s.fits = true →
      InFull o known (s.encode o .unnumbered) (Field.decodeLevelled room)
        (some ⟨.struct s, s.height 1⟩)
  | ⟨id, ms⟩, room, hroom, hfits => by
    simp only [Structure.fits, Bool.and_eq_true, decide_eq_true_eq] at hfits
    obtain ⟨room, rfl⟩ := Nat.exists_eq_add_of_le' (Nat.le_trans (Nat.le_add_left 1 _) hroom)
    have hmembers := Structure.inFull_encodeMembers ms (Nat.le_of_succ_le_succ hroom) hfits.2
    have hlength : (Structure.levelled ms).length = ms.length := List.length_map ..
    have hstruct := Field.reads_struct hfits.1.1 (hlength ▸ hfits.1.2) (hlength ▸ hmembers.reads)
    rw [hlength, Structure.map_field_levelled, Field.levelsOver_levelled] at hstruct
    rw [Structure.encode_eq]
    exact Field.inFull_introducing (f := .struct ⟨id, ms⟩) ⟨hstruct, hmembers.kept⟩

theorem Structure.inFull_encodeMembers :
    ∀ (ms : List (String × Field)) {room : Nat}, Structure.memberHeight 0 ms ≤ room →
      Structure.membersFit ms = true →
      InFull o known (Structure.encodeMembers o ms .unnumbered)
        (times ms.length (Field.decodeMember room)) (Structure.levelled ms)
  | [], room, _, _ => ⟨Reads.times_zero _ o known, rfl⟩
  | (name, f) :: ms, room, hroom, hfits => by
    simp only [Structure.membersFit, Bool.and_eq_true, decide_eq_true_eq] at hfits
    simp only [Structure.memberHeight, Nat.max_le] at hroom
    have hhere := Field.inFull_encode f hroom.1 hfits.1.2
    have hbehind := Structure.inFull_encodeMembers ms hroom.2 hfits.2
    rw [Structure.encodeMembers_cons, hhere.kept]
    exact ⟨Reads.times_succ (Field.reads_member hfits.1.1 hhere.reads) hbehind.reads,
      hbehind.kept⟩

end

end

end PvNet
