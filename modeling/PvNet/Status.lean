import PvNet.Wire.Decode
set_option autoImplicit false

/-!
# Completion status

How a request ended.  A plain success is the single octet `0xFF`; everything else
is the kind, a message and a call tree.
-/

namespace PvNet

/-- How a request ended. -/
inductive StatusKind where
  | ok
  | warning
  | error
  | fatal
  deriving DecidableEq, Repr, Inhabited

namespace StatusKind

/-- The octet of a kind. -/
def code : StatusKind → UInt8
  | .ok => 0
  | .warning => 1
  | .error => 2
  | .fatal => 3

/-- The kind that an octet stands for. -/
def ofCode? (code : UInt8) : Option StatusKind :=
  if code = 0 then some .ok
  else if code = 1 then some .warning
  else if code = 2 then some .error
  else if code = 3 then some .fatal
  else none

theorem ofCode?_code (k : StatusKind) : ofCode? k.code = some k := by cases k <;> rfl

/-- The name that a status is shown under. -/
def title : StatusKind → String
  | .ok => "Ok"
  | .warning => "Warning"
  | .error => "Error"
  | .fatal => "Fatal"

end StatusKind

/-- The status that ends a request. -/
structure Status where
  kind : StatusKind
  message : String
  callTree : String
  deriving DecidableEq, Repr, Inhabited

namespace Status

/-- The octet that stands for a plain success. -/
def plainOk : UInt8 := 0xFF

/-- Success with nothing to add. -/
def ok : Status := ⟨.ok, "", ""⟩

/-- A failure with its message. -/
def error (message : String) : Status := ⟨.error, message, ""⟩

/-- Whether the request was carried out. -/
def isSuccess (s : Status) : Bool := s.kind = .ok || s.kind = .warning

/-- The status in one line. -/
def text (s : Status) : String :=
  if s.kind = .ok ∧ s.message = "" then "OK" else s!"{s.kind.title}: {s.message}"

/-- The octets of a status. -/
def encode (o : ByteOrder) (s : Status) : Bytes :=
  if s = ok then [plainOk]
  else s.kind.code :: (Wire.string o s.message ++ Wire.string o s.callTree)

/-- Reads a status. -/
def decode {σ : Type} : Decoder σ Status := do
  let code ← Decoder.octet
  if code = plainOk then return ok
  match StatusKind.ofCode? code with
  | none => Decoder.fail (.unknownTypeCode code)
  | some kind =>
    let message ← Decoder.string
    let callTree ← Decoder.string
    return ⟨kind, message, callTree⟩

end Status

end PvNet
