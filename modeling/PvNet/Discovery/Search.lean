import PvNet.Discovery.Guid
import PvNet.Net.Address
import PvNet.Number.Total
set_option autoImplicit false

/-!
# Searches

A client asks which servers host a list of channels, and a server that hosts some
of them answers with its endpoint.  Both messages count their entries with 16 bits;
more of them cannot be written.
-/

namespace PvNet

namespace Wire

/-- The number of octets in front of something of `n` octets. -/
def lengthSize (n : Nat) : Nat := if n < 254 then 1 else 5

/-- The number of octets of a string with its size. -/
def stringSize (s : String) : Nat := lengthSize s.utf8ByteSize + s.utf8ByteSize

/-- A 16-bit count of entries. -/
def count16 (o : ByteOrder) (n : Nat) : Emission :=
  if n < 65536 then .ofBytes (word16 o (UInt16.ofNat n)) else .fail (.mismatch (.tooManyEntries n))

end Wire

/-- The name of the protocol of connections. -/
def tcpProtocol : String := "tcp"

/-- A channel that is searched: the client's number for it, and its name. -/
structure SearchEntry where
  cid : UInt32
  name : String
  deriving DecidableEq, Repr, Inhabited

namespace SearchEntry

/-- The octets of an entry. -/
def encode (o : ByteOrder) (e : SearchEntry) : Bytes := Wire.word32 o e.cid ++ Wire.string o e.name

/-- Reads an entry. -/
def decode {σ : Type} : Decoder σ SearchEntry := do
  let cid ← Decoder.word32
  let name ← Decoder.string
  return ⟨cid, name⟩

/-- The number of octets of an entry. -/
def wireSize (e : SearchEntry) : Nat := 4 + Wire.stringSize e.name

end SearchEntry

/-- The question which servers host some channels. -/
structure SearchRequest where
  sequence : UInt32
  /-- Whether the request was sent to a single host. -/
  unicast : Bool
  /-- Where answers go; the wildcard stands for the source of the datagram. -/
  replyTo : Endpoint
  /-- The protocols that the client speaks. -/
  protocols : List String
  channels : List SearchEntry
  deriving DecidableEq, Repr, Inhabited

namespace SearchRequest

/-- The flag of a request that was sent to a single host. -/
def unicastFlag : UInt8 := 0x80

/-- The number of octets in front of the protocols. -/
def fixedSize : Nat := 26

/-- The number of octets in front of the channels. -/
def headSize (r : SearchRequest) : Nat :=
  fixedSize + Wire.lengthSize r.protocols.length + total Wire.stringSize r.protocols + 2

/-- The number of octets of a request. -/
def wireSize (r : SearchRequest) : Nat := r.headSize + total SearchEntry.wireSize r.channels

/-- Writes a request. -/
def encode (o : ByteOrder) (r : SearchRequest) : Emission :=
  .ofBytes (Wire.word32 o r.sequence ++ [if r.unicast then unicastFlag else 0, 0, 0, 0] ++
      r.replyTo.encode o ++ Wire.length o r.protocols.length ++
      r.protocols.flatMap (Wire.string o)) ++
    Wire.count16 o r.channels.length ++ .ofBytes (r.channels.flatMap (SearchEntry.encode o))

/-- Reads a request. -/
def decode {σ : Type} : Decoder σ SearchRequest := do
  let sequence ← Decoder.word32
  let qos ← Decoder.octet
  let _ ← Decoder.take 3
  let replyTo ← Endpoint.decode
  let protocols ← Decoder.times (← Decoder.length) Decoder.string
  let count ← Decoder.word16
  let channels ← Decoder.times count.toNat SearchEntry.decode
  return ⟨sequence, qos &&& unicastFlag ≠ 0, replyTo, protocols, channels⟩

/-- Whether the client can connect to a server: it lists the protocol of connections or none. -/
def wantsTcp (r : SearchRequest) : Bool := r.protocols.isEmpty || r.protocols.contains tcpProtocol

/-- Whether one target comes before another one, or its number does if they are the same. -/
def comesBefore (a b : Endpoint × UInt32) : Bool :=
  a.1.rank < b.1.rank || a.1.rank == b.1.rank && a.2 ≤ b.2

/-- Joins the requests that go to one target under one number.  They are in the order of targets and
numbers, and their channels in that of the channels' numbers. -/
def gather (sent : List (Endpoint × SearchRequest)) : List (Endpoint × SearchRequest) :=
  let keys := (sent.map fun x => (x.1, x.2.sequence)).eraseDups.mergeSort comesBefore
  keys.filterMap fun key =>
    let parts := sent.filter fun x => (x.1, x.2.sequence) = key
    let channels := (parts.flatMap fun x => x.2.channels).mergeSort fun a b => a.cid ≤ b.cid
    parts.head?.map fun x => (x.1, { x.2 with channels })

end SearchRequest

/-- The answer of a server to a search. -/
structure SearchResponse where
  guid : Guid
  /-- That of the request. -/
  sequence : UInt32
  /-- Where the server listens; the wildcard stands for the source of the datagram. -/
  server : Endpoint
  protocol : String
  found : Bool
  /-- The client's numbers of the channels. -/
  cids : List UInt32
  deriving DecidableEq, Repr, Inhabited

namespace SearchResponse

/-- Writes a response. -/
def encode (o : ByteOrder) (r : SearchResponse) : Emission :=
  .ofBytes (r.guid.octets ++ Wire.word32 o r.sequence ++ r.server.encode o ++
      Wire.string o r.protocol ++ Wire.bool r.found) ++
    Wire.count16 o r.cids.length ++ .ofBytes (r.cids.flatMap (Wire.word32 o))

/-- Reads a response. -/
def decode {σ : Type} : Decoder σ SearchResponse := do
  let guid ← Guid.decode
  let sequence ← Decoder.word32
  let server ← Endpoint.decode
  let protocol ← Decoder.string
  let found ← Decoder.bool
  let count ← Decoder.word16
  let cids ← Decoder.times count.toNat Decoder.word32
  return ⟨guid, sequence, server, protocol, found, cids⟩

end SearchResponse

end PvNet
