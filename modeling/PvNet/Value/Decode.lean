import PvNet.Value.Basic
import PvNet.Wire.Decode
set_option autoImplicit false

/-!
# Reading values

A descriptor determines how its values are read.  In an array of structures every
octet but zero announces an element that is present.
-/

namespace PvNet

open Decoder

variable {σ : Type}

/-- Reads a scalar. -/
def ScalarType.decode : ScalarType → Decoder σ ScalarValue
  | .boolean => .boolean <$> bool
  | .byte => (fun b => .byte b.toInt8) <$> octet
  | .short => (fun n => .short n.toInt16) <$> word16
  | .int => (fun n => .int n.toInt32) <$> word32
  | .long => (fun n => .long n.toInt64) <$> word64
  | .ubyte => .ubyte <$> octet
  | .ushort => .ushort <$> word16
  | .uint => .uint <$> word32
  | .ulong => .ulong <$> word64
  | .float => .float <$> word32
  | .double => .double <$> word64
  | .string => .string <$> Decoder.string

mutual

/-- Reads a value of a field. -/
def Field.decodeValue : Field → Decoder σ Value
  | .scalar t => .scalar <$> t.decode
  | .scalarArray t => do return .scalarArray (← times (← length) t.decode)
  | .struct s => .struct <$> s.decodeValue
  | .structArray s => do
    let count ← length
    return .structArray (← times count do
      if ← bool then some <$> s.decodeValue else pure none)
termination_by structural f => f

/-- Reads the members of a structure. -/
def Structure.decodeValue : Structure → Decoder σ (List Value)
  | ⟨_, ms⟩ => Structure.decodeMemberValues ms
termination_by structural s => s

/-- Reads the values of a list of members. -/
def Structure.decodeMemberValues : List (String × Field) → Decoder σ (List Value)
  | [] => pure []
  | (_, f) :: ms => do
    let v ← f.decodeValue
    return v :: (← Structure.decodeMemberValues ms)
termination_by structural ms => ms

end

end PvNet
