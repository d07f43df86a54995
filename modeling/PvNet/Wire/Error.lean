import PvNet.Net.IoError
import PvNet.Text.Hex
set_option autoImplicit false

/-!
# Failures of encoding and decoding

`WireError` names the causes; `WireError.message` holds their wording.  A cause
is a *decode* cause when only the received octets can bring it about, and such a
failure ends the connection the octets arrived on (`WireError.isDecode`).
-/

namespace PvNet

/-- How a value or a descriptor fails to have the required shape. -/
inductive Mismatch where
  /-- A value of another shape than the descriptor with this type code. -/
  | typeCode (code : UInt8)
  /-- A structure value with the wrong number of members. -/
  | memberCount (id : String) (expected actual : Nat)
  /-- A structure value with the wrong number of members, met in a partial update. -/
  | partialCount (id : String)
  /-- A structure member described by the null descriptor. -/
  | nullMember (name : String)
  /-- A structure array whose element is not a structure. -/
  | elementNotStructure
  /-- More entries than a 16-bit count can say. -/
  | tooManyEntries (count : Nat)
  /-- A mismatch in the words of the caller. -/
  | other (text : String)
  deriving DecidableEq, Repr, Inhabited

/-- The wording of a mismatch. -/
def Mismatch.message : Mismatch → String
  | .typeCode code => s!"expected value for type code 0x{Hex.octet code}"
  | .memberCount id expected actual =>
    s!"structure {id} has {expected} members, value has {actual}"
  | .partialCount id => s!"structure {id} member count differs from value"
  | .nullMember name => s!"structure member {name} is null"
  | .elementNotStructure => "structure array element is not a structure"
  | .tooManyEntries count => s!"{count} entries exceed the 16-bit count"
  | .other text => text

/-- Why octets could not be written or read. -/
inductive WireError where
  /-- The octets ended before a complete item. -/
  | truncated (needed remaining : Nat)
  /-- A message that does not start with the magic octet. -/
  | invalidMagic (octet : UInt8)
  /-- A payload above the configured limit. -/
  | payloadTooLarge (size max : Nat)
  /-- A message split into segments. -/
  | segmented (flags : UInt8)
  /-- A type code that names no type. -/
  | unknownTypeCode (code : UInt8)
  /-- A reference to a descriptor that was never defined on the connection. -/
  | unknownReference (code : UInt16)
  /-- A string that is not well-formed UTF-8. -/
  | invalidText
  /-- A value or descriptor of the wrong shape. -/
  | mismatch (what : Mismatch)
  /-- Descriptors nested beyond the limit. -/
  | nestingTooDeep (max : Nat)
  /-- A negative size. -/
  | invalidSize (size : Int)
  /-- The stream underneath failed. -/
  | io (cause : IoError)
  /-- The stream ended before a complete message. -/
  | connectionClosed
  deriving DecidableEq, Repr, Inhabited

namespace WireError

/-- The wording of a failure. -/
def message : WireError → String
  | .truncated needed remaining =>
    s!"truncated data (needed {needed} bytes, {remaining} remaining)"
  | .invalidMagic octet => s!"invalid message magic 0x{Hex.octet octet} (expected 0xCA)"
  | .payloadTooLarge size max => s!"payload too large ({size} bytes, max {max})"
  | .segmented flags => s!"segmented message (flags 0x{Hex.octet flags}) not supported"
  | .unknownTypeCode code => s!"unknown type code 0x{Hex.octet code}"
  | .unknownReference code => s!"unknown introspection id {code.toNat}"
  | .invalidText => "invalid UTF-8 string"
  | .mismatch what => s!"value does not match field: {what.message}"
  | .nestingTooDeep max => s!"field descriptor nested deeper than {max} levels"
  | .invalidSize size => s!"invalid size {size}"
  | .io cause => s!"codec I/O error: {cause.message}"
  | .connectionClosed => "connection closed (incomplete message)"

/-- Whether the received octets alone are to blame. -/
def isDecode : WireError → Bool
  | .truncated .. | .invalidMagic _ | .payloadTooLarge .. | .segmented _ | .unknownTypeCode _
  | .unknownReference _ | .invalidText | .invalidSize _ | .nestingTooDeep _ => true
  | .mismatch _ | .io _ | .connectionClosed => false

end WireError

end PvNet
