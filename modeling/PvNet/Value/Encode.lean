import PvNet.Value.Basic
import PvNet.Wire.Encode
set_option autoImplicit false

/-!
# Writing values

A value is written against a descriptor.  Arrays start with their length, and each
element of an array of structures with an octet that says whether it is present.
A value of the wrong shape stops the encoder where the difference shows; what
stands in front of it is written by then.
-/

namespace PvNet

/-- The octets of a scalar. -/
def ScalarValue.encode (o : ByteOrder) : ScalarValue → Bytes
  | .boolean v => Wire.bool v
  | .byte v => [v.toUInt8]
  | .short v => Wire.word16 o v.toUInt16
  | .int v => Wire.word32 o v.toUInt32
  | .long v => Wire.word64 o v.toUInt64
  | .ubyte v => [v]
  | .ushort v => Wire.word16 o v
  | .uint v => Wire.word32 o v
  | .ulong v => Wire.word64 o v
  | .float bits => Wire.word32 o bits
  | .double bits => Wire.word64 o bits
  | .string v => Wire.string o v

namespace Emission

/-- Encodes the items of a list one after the other, up to the first failure. -/
def ofList {α : Type} (encode : α → Emission) : List α → Emission :=
  List.foldr (fun a rest => encode a ++ rest) empty

end Emission

/-- A value that a descriptor does not describe. -/
def Field.mismatch (f : Field) : WireError := .mismatch (.typeCode f.typeCode)

mutual

/-- Writes a value against its descriptor. -/
def Field.encodeValue (o : ByteOrder) : Field → Value → Emission
  | .scalar t, .scalar v =>
    if v.type = t then .ofBytes (v.encode o) else .fail (Field.scalar t).mismatch
  | .scalarArray t, .scalarArray items =>
    .ofBytes (Wire.length o items.length) ++ .ofList (fun v =>
      if v.type = t then .ofBytes (v.encode o) else .fail (Field.scalarArray t).mismatch) items
  | .struct s, .struct members => s.encodeValue o members
  | .structArray s, .structArray elements =>
    .ofBytes (Wire.length o elements.length) ++ .ofList (fun
      | none => .ofBytes (Wire.bool false)
      | some members => .ofBytes (Wire.bool true) ++ s.encodeValue o members) elements
  | f, _ => .fail f.mismatch
termination_by structural f => f

/-- Writes the members of a structure, provided their number is right. -/
def Structure.encodeValue (o : ByteOrder) : Structure → List Value → Emission
  | ⟨id, ms⟩, members =>
    if members.length = ms.length then Structure.encodeMemberValues o ms members
    else .fail (.mismatch (.memberCount id ms.length members.length))
termination_by structural s => s

/-- Writes the values of a list of members, as far as both lists reach. -/
def Structure.encodeMemberValues (o : ByteOrder) : List (String × Field) → List Value → Emission
  | (_, f) :: ms, v :: vs => f.encodeValue o v ++ Structure.encodeMemberValues o ms vs
  | _, _ => .empty
termination_by structural ms => ms

end

end PvNet
