import PvNet.Discovery.Relay
import PvNet.Net.Datagram
set_option autoImplicit false

/-!
# The search forwarder

Searches that arrive at the broadcast port are sent on to the group of servers on
this host.  Datagrams from the own host are skipped, since the forwarder's own ones
come back that way.
-/

namespace PvNet

/-- Relays searches from one socket to another. -/
structure Forwarder where
  receiver : DatagramSocket
  sender : DatagramSocket
  /-- The group of servers on this host. -/
  destination : Endpoint
  /-- How many datagrams were relayed. -/
  forwarded : Nat := 0
  /-- Whether the receive loop has been started. -/
  spawned : Bool := false
  /-- Whether the receive loop has ended. -/
  ended : Bool := false

namespace Forwarder

/-- Relays a datagram from `source`.  Returns whether it was sent on, and the datagram as it is
then. -/
def forward (f : Forwarder) (datagram : Bytes) (source : Endpoint) : Bool × Bytes × Forwarder :=
  if source.ip.isLoopback then (false, datagram, f)
  else
    match (Relay.rewrite source).run datagram with
    | (false, datagram) => (false, datagram, f)
    | (true, changed) =>
      match f.sender.send ⟨f.destination, changed⟩ with
      | (none, sender) => (true, changed, { f with sender, forwarded := f.forwarded + 1 })
      | (some _, sender) => (false, changed, { f with sender })

/-- Runs the receive loop over what the receiver gives, until it is shut down or nothing is left;
other failures are survived. -/
def loop : List Receive → Forwarder → Forwarder
  | [], f => { f with receiver := { f.receiver with inbox := [] } }
  | .datagram bytes source :: rest, f =>
    loop rest (f.forward (bytes.take Message.maxDatagram) source).2.2
  | .failed _ :: rest, f => loop rest f
  | .shutdown :: rest, f => { f with receiver := { f.receiver with inbox := rest }, ended := true }

/-- Lets the receive loop, which starts now if it has not yet, run until the receiver has nothing
more to give. -/
def run (f : Forwarder) : Forwarder :=
  if f.ended ∨ f.receiver.closed then { f with spawned := true }
  else loop f.receiver.inbox { f with spawned := true }

/-- Ends the receive loop and closes both sockets. -/
def stop (f : Forwarder) : Forwarder :=
  { f with receiver := f.receiver.close, sender := f.sender.close, ended := true }

end Forwarder

end PvNet
