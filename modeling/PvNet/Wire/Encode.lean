import PvNet.Wire.Error
set_option autoImplicit false

/-!
# Encoders

An encoder that cannot fail returns the octets it writes.  One that checks the
shape of its input while it writes returns an `Emission`: the octets written and,
if it stopped part way, why.

Sizes take one octet below 254, `0xFF` when absent and `0xFE` followed by four
octets otherwise.  A string is its size in octets followed by its UTF-8 form.
-/

namespace PvNet

namespace Wire

/-- The size octet that stands for an absent size. -/
def nullSize : UInt8 := 0xFF

/-- The size octet that announces a four-octet size. -/
def longSize : UInt8 := 0xFE

/-- The largest size that can be written. -/
def maxSize : Nat := 2147483647

variable (o : ByteOrder)

/-- A truth value as one octet. -/
def bool (b : Bool) : Bytes := [if b then 1 else 0]

/-- A 16-bit word. -/
def word16 (n : UInt16) : Bytes := o.encode 2 n.toNat

/-- A 32-bit word. -/
def word32 (n : UInt32) : Bytes := o.encode 4 n.toNat

/-- A 64-bit word. -/
def word64 (n : UInt64) : Bytes := o.encode 8 n.toNat

/-- A size, given as the signed word that the long form would carry. -/
def size (n : Int32) : Bytes :=
  if n = -1 then [nullSize]
  else if 0 ≤ n ∧ n < 254 then [n.toInt8.toUInt8]
  else longSize :: word32 o n.toUInt32

/-- The size of something that is present; sizes beyond `maxSize` are clamped to it. -/
def length (n : Nat) : Bytes := size o (Int32.ofNat (min n maxSize))

/-- The UTF-8 form of a text. -/
def utf8 (s : String) : Bytes := s.toUTF8.data.toList

/-- A string with its size in front. -/
def string (s : String) : Bytes := length o s.utf8ByteSize ++ utf8 s

end Wire

/-- What an encoder wrote and, if it stopped part way, the reason. -/
structure Emission where
  /-- The octets written. -/
  bytes : Bytes
  /-- Why nothing more was written. -/
  fault : Option WireError := none
  deriving DecidableEq, Repr

namespace Emission

/-- Nothing written. -/
def empty : Emission := ⟨[], none⟩

/-- Octets written without failure. -/
def ofBytes (bs : Bytes) : Emission := ⟨bs, none⟩

/-- A failure before anything was written. -/
def fail (e : WireError) : Emission := ⟨[], some e⟩

/-- One encoder after the other; the second does not run when the first fails. -/
def andThen (a b : Emission) : Emission :=
  match a.fault with
  | some _ => a
  | none => ⟨a.bytes ++ b.bytes, b.fault⟩

instance : Append Emission := ⟨andThen⟩

/-- The octets, unless the encoder failed. -/
def toExcept (a : Emission) : Except WireError Bytes :=
  match a.fault with
  | some e => .error e
  | none => .ok a.bytes

end Emission

end PvNet
