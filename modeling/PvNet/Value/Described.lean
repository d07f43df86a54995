import PvNet.Schema.Numbering
import PvNet.Value.Encode
import PvNet.Value.Decode
set_option autoImplicit false

/-!
# Values with their descriptors

A descriptor, by number where the connection knows it, followed by a value; or the
absence of both.
-/

namespace PvNet

/-- A value together with the descriptor that it is written against. -/
structure Described where
  field : Field
  value : Value
  deriving Inhabited

namespace Described

/-- Writes a described value or its absence.  The descriptor is numbered even if the value turns
out not to suit it. -/
def encode? (o : ByteOrder) (item : Option Described) (t : SentTypes) : Emission × SentTypes :=
  match item with
  | none => (.ofBytes [nullCode], t)
  | some d =>
    let (front, t') := d.field.encode o t
    (.ofBytes front ++ d.field.encodeValue o d.value, t')

/-- Reads a described value or its absence. -/
def decode? : Decoder KnownTypes (Option Described) := do
  match ← Field.decode? with
  | none => return none
  | some f => return some ⟨f, ← f.decodeValue⟩

end Described

end PvNet
