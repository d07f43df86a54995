import PvNet.Discovery.Beacon
import PvNet.Message.Basic
import PvNet.PeriodicTask
import PvNet.Table
set_option autoImplicit false

/-!
# Tracking servers by their beacons

The last beacon of every server is kept by the server's endpoint.  A beacon is the
first one of its server, or it tells of a change, or it says nothing new.
-/

namespace PvNet

/-- What a beacon tells. -/
inductive BeaconOutcome where
  /-- The first beacon of this server. -/
  | firstSighting
  /-- The server restarted or its channels changed. -/
  | changed
  | unchanged
  deriving DecidableEq, Repr

namespace BeaconOutcome

/-- Whether a known server changed. -/
def isChange (o : BeaconOutcome) : Bool := o = .changed

/-- Whether searches are worth another try. -/
def isNews (o : BeaconOutcome) : Bool := o ≠ .unchanged

end BeaconOutcome

/-- The last beacon of a server. -/
structure ServerState where
  guid : Guid
  changeCount : UInt16
  lastSeen : Instant
  deriving DecidableEq, Repr

/-- The servers known by their beacons. -/
structure BeaconTracker where
  servers : Table Endpoint ServerState := .empty

namespace BeaconTracker

instance : Inhabited BeaconTracker := ⟨{}⟩

/-- Records a beacon of the server at an endpoint. -/
def notify (t : BeaconTracker) (now : Instant) (server : Endpoint) (guid : Guid)
    (changeCount : UInt16) : BeaconOutcome × BeaconTracker :=
  let outcome : BeaconOutcome :=
    match t.servers.get? server with
    | none => .firstSighting
    | some known =>
      if known.guid = guid ∧ known.changeCount = changeCount then .unchanged else .changed
  (outcome, ⟨t.servers.put server ⟨guid, changeCount, now⟩⟩)

/-- A beacon as it arrived: its contents, the endpoint of its server and what it tells. -/
structure Sighting where
  beacon : Beacon
  server : Endpoint
  outcome : BeaconOutcome

/-- Reads and records the beacon in a message from `source`; a malformed one is dropped. -/
def handle (t : BeaconTracker) (now : Instant) (m : Message) (source : Endpoint) :
    Option Sighting × BeaconTracker :=
  match m.read Beacon.decode with
  | .error _ => (none, t)
  | .ok b =>
    let server := b.server.resolve source
    let (outcome, t) := t.notify now server b.guid b.changeCount
    (some ⟨b, server, outcome⟩, t)

/-- Drops the servers that were silent for longer than an age.  Returns how many there were. -/
def forgetOlderThan (t : BeaconTracker) (now : Instant) (age : Duration) : Nat × BeaconTracker :=
  let kept := t.servers.filter fun _ s => now - s.lastSeen ≤ age.nanoseconds
  (t.servers.size - kept.size, ⟨kept⟩)

end BeaconTracker

end PvNet
