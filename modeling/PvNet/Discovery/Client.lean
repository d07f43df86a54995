import PvNet.Discovery.BeaconTracker
import PvNet.Discovery.Responder
import PvNet.Discovery.SearchManager
set_option autoImplicit false

/-!
# The client side of discovery

Search responses and beacons arrive at the same socket.  A response ends the
searches it answers.  A beacon is recorded, and one that tells of a new or changed
server makes every search due at once.
-/

namespace PvNet

/-- What a client knows of servers and what it is looking for. -/
structure DiscoveryClient where
  searches : SearchManager
  /-- Whether responses still reach the searches. -/
  attached : Bool := true
  tracker : BeaconTracker := {}

namespace DiscoveryClient

/-- What a message led to. -/
structure Effects where
  found : List SearchResult := []
  sightings : List BeaconTracker.Sighting := []
  /-- How many messages were understood. -/
  handled : Nat := 0

/-- The effects of two messages, one after the other. -/
def Effects.append (a b : Effects) : Effects :=
  ⟨a.found ++ b.found, a.sightings ++ b.sightings, a.handled + b.handled⟩

instance : Append Effects := ⟨Effects.append⟩

def handleMessage (c : DiscoveryClient) (now : Instant) (source : Endpoint) (m : Message) :
    Effects × DiscoveryClient :=
  if m.isApplication Command.searchResponse then
    match m.read SearchResponse.decode with
    | .error _ => ({}, c)
    | .ok r =>
      if c.attached then
        let (found, searches) := c.searches.respond r source m.header.version
        ({ found, handled := 1 }, { c with searches })
      else ({ handled := 1 }, c)
  else if m.isApplication Command.beacon then
    match c.tracker.handle now m source with
    | (none, tracker) => ({}, { c with tracker })
    | (some sighting, tracker) =>
      let searches := if sighting.outcome.isNews then c.searches.boost now else c.searches
      ({ sightings := [sighting], handled := 1 }, { c with searches, tracker })
  else ({}, c)

/-- Handles messages from `source` one after the other. -/
def handleMessages (now : Instant) (source : Endpoint) :
    List Message → DiscoveryClient → Effects × DiscoveryClient
  | [], c => ({}, c)
  | m :: ms, c =>
    let (first, c) := c.handleMessage now source m
    let (later, c) := handleMessages now source ms c
    (first ++ later, c)

/-- Handles a datagram from `source`; a malformed one changes nothing. -/
def handle (c : DiscoveryClient) (now : Instant) (datagram : Bytes) (source : Endpoint) :
    Effects × DiscoveryClient :=
  handleMessages now source (Responder.messages datagram) c

/-- Handles the datagrams that wait at a socket.  Returns how many there were. -/
def receive (c : DiscoveryClient) (now : Instant) (socket : DatagramSocket) :
    Nat × Effects × DiscoveryClient × DatagramSocket :=
  let (count, (effects, c), socket) :=
    socket.drain (fun (st : Effects × DiscoveryClient) socket bytes source =>
      let (more, c) := st.2.handle now bytes source
      ((st.1 ++ more, c), socket)) ({}, c)
  (count, effects, c, socket)

end DiscoveryClient

end PvNet
