import PvNet.Wire.Encode
set_option autoImplicit false

/-!
# Output buffers

Octets collected for one message, in the byte order of that message.  What has
been written can be cut off again, or patched where a value is known only later.
-/

namespace PvNet

/-- Octets collected in a fixed byte order. -/
structure Buffer where
  order : ByteOrder
  bytes : Bytes := []
  deriving DecidableEq, Repr

namespace Buffer

/-- The number of octets collected. -/
def size (b : Buffer) : Nat := b.bytes.length

/-- Whether nothing is collected. -/
def isEmpty (b : Buffer) : Bool := b.bytes.isEmpty

/-- Appends what an encoder writes. -/
def put (b : Buffer) (encode : ByteOrder → Bytes) : Buffer :=
  { b with bytes := b.bytes ++ encode b.order }

/-- Replaces one octet; a position past the end is ignored. -/
def patch (b : Buffer) (position : Nat) (octet : UInt8) : Buffer :=
  { b with bytes := b.bytes.set position octet }

/-- Keeps the first octets only. -/
def truncate (b : Buffer) (size : Nat) : Buffer := { b with bytes := b.bytes.take size }

/-- Forgets everything. -/
def clear (b : Buffer) : Buffer := { b with bytes := [] }

@[simp] theorem size_put (b : Buffer) (encode : ByteOrder → Bytes) :
    (b.put encode).size = b.size + (encode b.order).length := by simp [size, put]

@[simp] theorem size_patch (b : Buffer) (position : Nat) (octet : UInt8) :
    (b.patch position octet).size = b.size := by simp [size, patch]

@[simp] theorem size_truncate (b : Buffer) (n : Nat) : (b.truncate n).size = min n b.size := by
  simp [size, truncate]

end Buffer

end PvNet
