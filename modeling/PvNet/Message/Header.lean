import PvNet.Wire.Decode
set_option autoImplicit false

/-!
# Message headers

Eight octets start every message: the magic octet, the protocol revision, the
flags, the command and a four-octet size in the order that the flags declare.  A
control message has no payload; its size field carries data instead.
-/

namespace PvNet

/-- The header of a message, as it stands on the wire after the magic octet. -/
structure Header where
  version : UInt8
  flags : UInt8
  command : UInt8
  /-- The length of the payload, or the data of a control message. -/
  payloadSize : UInt32
  deriving DecidableEq, Repr, Inhabited

namespace Header

/-- The number of octets of a header. -/
def wireSize : Nat := 8

/-- The first octet of every message. -/
def magic : UInt8 := 0xCA

/-- The revision written in outgoing headers. -/
def revision : UInt8 := 2

/-- The flag of a control message. -/
def controlFlag : UInt8 := 0x01

/-- The flags of a segmented message. -/
def segmentMask : UInt8 := 0x30

/-- The flag of a message sent by a server. -/
def serverFlag : UInt8 := 0x40

/-- The flag of a message in big-endian order. -/
def bigFlag : UInt8 := 0x80

/-- The flags octet of an unsegmented message. -/
def makeFlags (o : ByteOrder) (fromServer control : Bool) : UInt8 :=
  (if control then controlFlag else 0) ||| (if fromServer then serverFlag else 0) |||
    (if o = .big then bigFlag else 0)

/-- The header of an application message. -/
def application (command : UInt8) (o : ByteOrder) (fromServer : Bool) (size : UInt32) : Header :=
  ⟨revision, makeFlags o fromServer false, command, size⟩

/-- The header of a control message with its data. -/
def control (command : UInt8) (o : ByteOrder) (fromServer : Bool) (data : UInt32) : Header :=
  ⟨revision, makeFlags o fromServer true, command, data⟩

/-- The byte order that a flags octet declares. -/
def orderOfFlags (flags : UInt8) : ByteOrder := if flags &&& bigFlag ≠ 0 then .big else .little

/-- The byte order of the message. -/
def order (h : Header) : ByteOrder := orderOfFlags h.flags

/-- Whether this is a control message. -/
def isControl (h : Header) : Bool := h.flags &&& controlFlag ≠ 0

/-- Whether a server sent the message. -/
def isFromServer (h : Header) : Bool := h.flags &&& serverFlag ≠ 0

/-- Whether the message is one of several segments. -/
def isSegmented (h : Header) : Bool := h.flags &&& segmentMask ≠ 0

/-- The number of payload octets after the header. -/
def payloadLength (h : Header) : Nat := if h.isControl then 0 else h.payloadSize.toNat

/-- The eight octets of a header. -/
def encode (h : Header) : Bytes :=
  magic :: h.version :: h.flags :: h.command :: Wire.word32 h.order h.payloadSize

/-- The header at the start of the given octets, or `none` when fewer than eight are there. -/
def decode? (bs : Bytes) : Except WireError (Option Header) :=
  match bs with
  | first :: version :: flags :: command :: a :: b :: c :: d :: _ =>
    if first ≠ magic then .error (.invalidMagic first)
    else
      let size := UInt32.ofNat ((orderOfFlags flags).decode [a, b, c, d])
      let header : Header := ⟨version, flags, command, size⟩
      if header.isSegmented then .error (.segmented flags) else .ok (some header)
  | _ => .ok none

end Header

end PvNet
