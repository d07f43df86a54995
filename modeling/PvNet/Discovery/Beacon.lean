import PvNet.Discovery.Guid
import PvNet.Net.Address
import PvNet.Value.Described
set_option autoImplicit false

/-!
# Beacons

A server announces itself from time to time.  Its identifier is new after a restart,
and its change count grows when the set of its channels changes.  A beacon may carry
a status value; since it belongs to no connection, descriptors in it are never
numbered by the sender, and numbers in it mean nothing beyond it.
-/

namespace PvNet

/-- The announcement of a server. -/
structure Beacon where
  guid : Guid
  flags : UInt8
  sequence : UInt8
  changeCount : UInt16
  /-- Where the server listens; the wildcard stands for the source of the datagram. -/
  server : Endpoint
  protocol : String
  status : Option Described
  deriving Inhabited

namespace Beacon

/-- Writes a beacon. -/
def encode (o : ByteOrder) (b : Beacon) : Emission :=
  .ofBytes (b.guid.octets ++ [b.flags, b.sequence] ++ Wire.word16 o b.changeCount ++
      b.server.encode o ++ Wire.string o b.protocol) ++
    (Described.encode? o b.status (.withCapacity 0)).1

/-- Reads a status with an empty table of numbers, if anything is left to read. -/
def decodeStatus {σ : Type} : Decoder σ (Option Described) := fun o s bs =>
  if bs.isEmpty then ⟨.ok none, s, bs⟩
  else
    let after := Described.decode? o {} bs
    ⟨after.result, s, after.rest⟩

/-- Reads a beacon. -/
def decode {σ : Type} : Decoder σ Beacon := do
  let guid ← Guid.decode
  let flags ← Decoder.octet
  let sequence ← Decoder.octet
  let changeCount ← Decoder.word16
  let server ← Endpoint.decode
  let protocol ← Decoder.string
  let status ← decodeStatus
  return { guid, flags, sequence, changeCount, server, protocol, status }

end Beacon

end PvNet
