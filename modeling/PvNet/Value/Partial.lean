import PvNet.BitSet
import PvNet.Value.Encode
import PvNet.Value.Decode
set_option autoImplicit false

/-!
# Partial updates

A partial update carries the parts of a structure whose offsets are in a bit set.
A set offset stands for everything below it, so offset 0 is the whole structure;
below a part that is not set the members are looked at one by one.

Reading changes a target in place.  A target of another shape is first made zero
as far as the update passes through it, and what was changed before a failure
stays changed.
-/

namespace PvNet

/-! ## Writing -/

mutual

/-- Writes the changed parts of a member at `offset`. -/
def Field.encodeChanges (o : ByteOrder) (changed : BitSet) (offset : Nat) :
    Field → Value → Emission
  | .struct s, .struct members =>
    if offset ∈ changed then s.encodeValue o members
    else s.encodeChangesBelow o changed offset members
  | f, v => if offset ∈ changed then f.encodeValue o v else .empty
termination_by structural f => f

/-- Writes the changed members of a structure at offset `base` that is itself not changed. -/
def Structure.encodeChangesBelow (o : ByteOrder) (changed : BitSet) (base : Nat) :
    Structure → List Value → Emission
  | ⟨id, ms⟩, members =>
    if members.length = ms.length then
      Structure.encodeMemberChanges o changed (base + 1) ms members
    else .fail (.mismatch (.partialCount id))
termination_by structural s => s

/-- Writes the changed parts of members, the first of which is at `offset`. -/
def Structure.encodeMemberChanges (o : ByteOrder) (changed : BitSet) (offset : Nat) :
    List (String × Field) → List Value → Emission
  | (_, f) :: ms, v :: vs =>
    f.encodeChanges o changed offset v ++
      Structure.encodeMemberChanges o changed (offset + f.offsetCount) ms vs
  | _, _ => .empty
termination_by structural ms => ms

end

/-- Writes the changed parts of a structure. -/
def Structure.encodeChanges (o : ByteOrder) (changed : BitSet) (s : Structure)
    (members : List Value) : Emission :=
  if 0 ∈ changed then s.encodeValue o members else s.encodeChangesBelow o changed 0 members

/-! ## Reading -/

/-- Replaces the state by what a decoder reads; a failure leaves it. -/
def Decoder.replaceBy {α : Type} (d : Decoder α α) : Decoder α Unit := do
  let a ← d
  Decoder.modify fun _ => a

mutual

/-- Reads the changed parts of a member at `offset` into its value. -/
def Field.decodeChanges (changed : BitSet) (offset : Nat) : Field → Decoder Value Unit
  | .struct s, o, target, bs =>
    if offset ∈ changed then Decoder.replaceBy (Field.struct s).decodeValue o target bs
    else
      let members :=
        match target with
        | .struct members => members
        | _ => s.zero
      let after := s.decodeChangesBelow changed offset o members bs
      ⟨after.result, .struct after.state, after.rest⟩
  | f, o, target, bs =>
    if offset ∈ changed then Decoder.replaceBy f.decodeValue o target bs
    else ⟨.ok (), target, bs⟩
termination_by structural f => f

/-- Reads the changed members of a structure at offset `base` that is itself not changed. -/
def Structure.decodeChangesBelow (changed : BitSet) (base : Nat) :
    Structure → Decoder (List Value) Unit
  | ⟨id, ms⟩, o, target, bs =>
    let target := if target.length = ms.length then target else Structure.zero ⟨id, ms⟩
    Structure.decodeMemberChanges changed (base + 1) ms o target bs
termination_by structural s => s

/-- Reads the changed parts of members, the first of which is at `offset`. -/
def Structure.decodeMemberChanges (changed : BitSet) (offset : Nat) :
    List (String × Field) → Decoder (List Value) Unit
  | (_, f) :: ms, o, v :: vs, bs =>
    match f.decodeChanges changed offset o v bs with
    | ⟨.error e, v', rest⟩ => ⟨.error e, v' :: vs, rest⟩
    | ⟨.ok (), v', rest⟩ =>
      let after :=
        Structure.decodeMemberChanges changed (offset + f.offsetCount) ms o vs rest
      ⟨after.result, v' :: after.state, after.rest⟩
  | _, _, target, bs => ⟨.ok (), target, bs⟩
termination_by structural ms => ms

end

/-- A changed member is read as a whole. -/
theorem Field.decodeChanges_of_mem {changed : BitSet} {offset : Nat} (h : offset ∈ changed)
    (f : Field) : f.decodeChanges changed offset = Decoder.replaceBy f.decodeValue := by
  funext o target bs
  cases f <;> simp [Field.decodeChanges, h]

/-- Reads the changed parts of a structure into its members' values. -/
def Structure.decodeChanges (changed : BitSet) (s : Structure) : Decoder (List Value) Unit :=
  if 0 ∈ changed then Decoder.replaceBy s.decodeValue else s.decodeChangesBelow changed 0

end PvNet
