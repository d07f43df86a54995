import PvNet.Discovery.Beacon
import PvNet.Discovery.Search
import PvNet.Message.Command
import PvNet.Net.Datagram
import PvNet.Number.Duration
set_option autoImplicit false

/-!
# Announcing a server

A server sends a beacon to every destination, more often after it has started and
then once per period.  Beacons are numbered, and the change count says how often the
set of channels has changed.
-/

namespace PvNet

/-- The beacons of a server. -/
structure BeaconEmitter where
  guid : Guid
  /-- Where the server listens. -/
  server : Endpoint
  destinations : List Endpoint
  period : Duration
  /-- The number of the next beacon. -/
  sequence : UInt8 := 0
  /-- How many beacons have been sent: below `2 ^ 64`, what a counter of 64 bits says as well. -/
  sent : Nat := 0
  changeCount : UInt16 := 0

namespace BeaconEmitter

/-- How many beacons the start-up takes. -/
def startupCount : Nat := 10

/-- The longest delay between two beacons of the start-up. -/
def startupPeriod : Duration := .ofSeconds 1

/-- The delay after beacon number `sent`, counting from one. -/
def delayAfter (e : BeaconEmitter) (sent : Nat) : Duration :=
  if sent < startupCount then startupPeriod.min e.period else e.period

/-- The next beacon. -/
def beacon (e : BeaconEmitter) : Beacon :=
  { guid := e.guid, flags := 0, sequence := e.sequence, changeCount := e.changeCount,
    server := e.server, protocol := tcpProtocol, status := none }

/-- The datagram of the next beacon. -/
def datagram (e : BeaconEmitter) : Bytes :=
  (Message.application Command.beacon .big true (e.beacon.encode .big).bytes).octets

/-- Sends a beacon to every destination. -/
def emit (e : BeaconEmitter) : List Outgoing × BeaconEmitter :=
  (e.destinations.map fun target => ⟨target, e.datagram⟩,
    { e with sequence := e.sequence + 1, sent := e.sent + 1 })

/-- The set of channels changed. -/
def countChange (e : BeaconEmitter) : BeaconEmitter := { e with changeCount := e.changeCount + 1 }

end BeaconEmitter

end PvNet
