import PvNet.Message.Header
set_option autoImplicit false

/-!
# Messages

A message is a header and, unless it is a control message, a payload.
`Message.decode?` takes one message off the front of a buffer; `none` asks for
more octets, and neither an error nor `none` consumes any.  `Message.ofDatagram`
splits a datagram, which has to end where a message ends.
-/

namespace PvNet

/-- One complete message. -/
structure Message where
  header : Header
  /-- Empty for control messages. -/
  payload : Bytes
  deriving DecidableEq, Repr, Inhabited

namespace Message

/-- The payload limit that applies unless another is configured: 16 MiB. -/
def defaultMaxPayload : Nat := 16777216

/-- The largest datagram sent without risking fragmentation. -/
def maxUnfragmented : Nat := 1440

/-- The largest datagram accepted. -/
def maxDatagram : Nat := 65487

/-- The largest length that a header can declare. -/
def maxDeclared : Nat := 4294967295

/-- An application message around a payload written in the given order. -/
def application (command : UInt8) (o : ByteOrder) (fromServer : Bool) (payload : Bytes) : Message :=
  ⟨.application command o fromServer (UInt32.ofNat (min payload.length maxDeclared)), payload⟩

def control (command : UInt8) (o : ByteOrder) (fromServer : Bool) (data : UInt32) : Message :=
  ⟨.control command o fromServer data, []⟩

def command (m : Message) : UInt8 := m.header.command

def isControl (m : Message) : Bool := m.header.isControl

def order (m : Message) : ByteOrder := m.header.order

/-- Whether this is an application message with the given command. -/
def isApplication (m : Message) (command : UInt8) : Bool := !m.isControl && m.command = command

/-- Reads the payload in the message's own order. -/
def read {α : Type} (m : Message) (d : Decoder Unit α) : Except WireError α :=
  (d m.order () m.payload).result

/-- The number of octets of header and payload. -/
def wireSize (m : Message) : Nat := Header.wireSize + m.payload.length

/-- The octets of a message; the declared size is always that of the payload. -/
def encode (m : Message) : Except WireError Bytes :=
  if m.isControl then .ok m.header.encode
  else if maxDeclared < m.payload.length then .error (.payloadTooLarge m.payload.length maxDeclared)
  else
    let header := { m.header with payloadSize := UInt32.ofNat m.payload.length }
    .ok (header.encode ++ m.payload)

/-- The octets of a message, or none at all when it cannot be encoded. -/
def octets (m : Message) : Bytes := m.encode.toOption.getD []

/-- Takes one message off the front of a buffer and returns it with what is left, or `none` when
the buffer does not hold a complete message yet. -/
def decode? (maxPayload : Nat) (buffer : Bytes) : Except WireError (Option (Message × Bytes)) :=
  match Header.decode? buffer with
  | .error e => .error e
  | .ok none => .ok none
  | .ok (some header) =>
    let length := header.payloadLength
    if maxPayload < length then .error (.payloadTooLarge length maxPayload)
    else
      let body := buffer.drop Header.wireSize
      if Decoder.hasAtLeast length body then
        .ok (some (⟨header, body.take length⟩, body.drop length))
      else .ok none

theorem length_lt_of_decode? {maxPayload : Nat} {buffer rest : Bytes} {m : Message}
    (h : decode? maxPayload buffer = .ok (some (m, rest))) : rest.length < buffer.length := by
  unfold decode? at h
  split at h
  · simp at h
  · simp at h
  · rename_i header hh
    have hlen : Header.wireSize ≤ buffer.length := by
      unfold Header.decode? at hh
      split at hh
      · simp [Header.wireSize]
      · simp at hh
    simp only at h
    split at h
    · simp at h
    · split at h
      · simp only [Except.ok.injEq, Option.some.injEq, Prod.mk.injEq] at h
        rw [← h.2]
        simp only [List.length_drop]
        simp only [Header.wireSize] at hlen ⊢
        omega
      · simp at h

/-- The messages that a datagram consists of. -/
def ofDatagram (datagram : Bytes) : Except WireError (List Message) :=
  if datagram.isEmpty then .ok []
  else
    match _h : decode? maxDatagram datagram with
    | .error e => .error e
    | .ok (some (m, rest)) =>
      match ofDatagram rest with
      | .error e => .error e
      | .ok ms => .ok (m :: ms)
    | .ok none =>
      match Header.decode? datagram with
      | .error e => .error e
      | .ok (some header) =>
        .error (.truncated (Header.wireSize + header.payloadLength) datagram.length)
      | .ok none => .error (.truncated Header.wireSize datagram.length)
termination_by datagram.length
decreasing_by exact length_lt_of_decode? ‹_›

/-- What the first message of a datagram says. -/
def readFirst? {α : Type} (d : Decoder Unit α) (datagram : Bytes) : Option α := do
  let messages ← (ofDatagram datagram).toOption
  ((← messages.head?).read d).toOption

/-- The messages at the front of a buffer, why decoding stopped if it failed, and what is left. -/
structure Drained where
  messages : List Message
  failure : Option WireError
  buffer : Bytes
  deriving DecidableEq, Repr

/-- Takes messages off a buffer until it gives nothing more or fails. -/
def drain (maxPayload : Nat) (buffer : Bytes) : Drained :=
  match _h : decode? maxPayload buffer with
  | .error e => ⟨[], some e, buffer⟩
  | .ok none => ⟨[], none, buffer⟩
  | .ok (some (m, rest)) =>
    let d := drain maxPayload rest
    { d with messages := m :: d.messages }
termination_by buffer.length
decreasing_by exact length_lt_of_decode? ‹_›

/-- Appends chunks one after the other to a buffer, draining it after each. -/
def drainChunks (maxPayload : Nat) : Bytes → List Bytes → List Drained
  | _, [] => []
  | buffer, chunk :: chunks =>
    let d := drain maxPayload (buffer ++ chunk)
    d :: drainChunks maxPayload d.buffer chunks

end Message

end PvNet
