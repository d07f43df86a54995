import PvNet.Connection.Pool
import PvNet.Discovery.BeaconTracker
set_option autoImplicit false

/-!
# Acting on beacons

Whoever is interested is told of every new or changed server.  The connections to a server that
changed learn that it did.
-/

namespace PvNet

/-- Tracks servers for a listener and for the connections of a client. -/
structure BeaconHandler (σ : Type) where
  tracker : BeaconTracker := {}
  /-- The listener for new servers. -/
  listener : σ
  pool : TransportPool := {}

namespace BeaconHandler

variable {σ : Type}

/-- Records a beacon of the server at an endpoint; `detected` is what the listener does about new
and changed servers. -/
def notify (detected : σ → σ) (h : BeaconHandler σ) (now : Instant) (server : Endpoint)
    (guid : Guid) (changeCount : UInt16) : BeaconOutcome × Activity × BeaconHandler σ :=
  let (outcome, tracker) := h.tracker.notify now server guid changeCount
  let listener := if outcome.isNews then detected h.listener else h.listener
  let (activity, pool) := if outcome.isChange then h.pool.changeAll server else ({}, h.pool)
  (outcome, activity, { tracker, listener, pool })

/-- Reads and records the beacon in a message from `source`; a malformed one is dropped. -/
def handle (detected : σ → σ) (h : BeaconHandler σ) (now : Instant) (m : Message)
    (source : Endpoint) : Option BeaconTracker.Sighting × Activity × BeaconHandler σ :=
  match m.read Beacon.decode with
  | .error _ => (none, {}, h)
  | .ok b =>
    let server := b.server.resolve source
    let (outcome, activity, h) := h.notify detected now server b.guid b.changeCount
    (some ⟨b, server, outcome⟩, activity, h)

end BeaconHandler

end PvNet
