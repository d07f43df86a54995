import PvNet.Connection.Pool
import PvNet.Discovery.Client
set_option autoImplicit false

/-!
# The client side

A client searches channels, tracks servers and keeps its connections.  Once it is
destroyed, it has no search and no connection left, and gets neither any more.
-/

namespace PvNet

/-- Everything a client has. -/
structure ClientContext where
  config : Config
  /-- Where searches are sent from and answers come to. -/
  searchAddress : Endpoint
  discovery : DiscoveryClient
  pool : TransportPool := {}
  destroyed : Bool := false

namespace ClientContext

/-- A client that searches at its configured addresses and the given broadcast addresses. -/
def start (config : Config) (searchAddress : Endpoint) (broadcast : List Endpoint) :
    ClientContext where
  config
  searchAddress
  discovery :=
    { searches :=
        { config := config.search
          destinations :=
            (config.addresses.map fun a => ⟨a, true⟩) ++
              if config.autoAddresses then broadcast.map fun a => ⟨a, false⟩ else []
          replyTo := .any searchAddress.port } }

/-- How the client opens connections. -/
def connector (c : ClientContext) : Connector :=
  { config := c.config.connector, transport := c.config.transport }

def searches (c : ClientContext) : SearchManager := c.discovery.searches

/-- The client with other searches. -/
def withSearches (c : ClientContext) (searches : SearchManager) : ClientContext :=
  { c with discovery := { c.discovery with searches } }

/-- Starts the search of a channel.  Gives no result if the search would wait for longer than the
clock can tell. -/
def registerSearch? (c : ClientContext) (now : Instant) (cid : UInt32) (name : String)
    (penalize : Bool) : Option (Except Error ClientContext) :=
  if c.destroyed then some (.error .closed)
  else (c.searches.register? now cid name penalize).map fun searches =>
    .ok (c.withSearches searches)

/-- Ends a search; says whether there was one. -/
def unregisterSearch (c : ClientContext) (cid : UInt32) : Bool × ClientContext :=
  let (found, searches) := c.searches.unregister cid
  (found, c.withSearches searches)

/-- Sends the searches that are due, unless one would next be due later than the clock can tell. -/
def tick (c : ClientContext) (now : Instant) : List Outgoing × ClientContext :=
  let (_, sent, searches) := c.searches.tick now
  (sent, c.withSearches searches)

/-- The connections to servers that changed learn of that. -/
def invalidate : List BeaconTracker.Sighting → TransportPool → Activity × TransportPool
  | [], p => ({}, p)
  | s :: sightings, p =>
    let (first, p) := if s.outcome.isChange then p.changeAll s.server else ({}, p)
    let (rest, p) := invalidate sightings p
    (first ++ rest, p)

/-- Handles a datagram; where it tells that a server was replaced, the connections to that server
learn of it. -/
def receive (c : ClientContext) (now : Instant) (datagram : Bytes) (source : Endpoint) :
    DiscoveryClient.Effects × Activity × ClientContext :=
  if c.destroyed then ({}, {}, c)
  else
    let (effects, discovery) := c.discovery.handle now datagram source
    let (activity, pool) := invalidate effects.sightings c.pool
    (effects, activity, { c with discovery, pool })

/-- Gets a verified connection for a holder. -/
def connect (c : ClientContext) (now : Instant) (client : Holder) (address : Endpoint)
    (priority : Int16) (listener : Listener) : Except Error Nat × Activity × ClientContext :=
  if c.destroyed then (.error .closed, {}, c)
  else
    let (result, activity, pool) :=
      c.pool.connect c.connector now client address priority listener
    (result, activity, { c with pool })

/-- Drops a holder of a connection. -/
def release (c : ClientContext) (n : Nat) (id : UInt64) : Activity × ClientContext :=
  let (activity, pool) := c.pool.release n id
  (activity, { c with pool })

/-- The server at an address ends its connections. -/
def hangUpAll (c : ClientContext) (address : Endpoint) : Activity × ClientContext :=
  let (activity, pool) := c.pool.hangUpAll address
  (activity, { c with pool })

/-- Ends every search and closes every connection, for good. -/
def destroy (c : ClientContext) : Activity × ClientContext :=
  if c.destroyed then ({}, c)
  else
    let (registered, registry) := c.pool.registry.clear
    let (activity, pool) :=
      TransportPool.updateAll Transport.close registered { c.pool with registry }
    (activity, { c.withSearches c.searches.cancel with pool, destroyed := true })

end ClientContext

end PvNet
