import PvNet.Context.Client
import PvNet.Context.Server
set_option autoImplicit false

/-!
# A client and a server on one host

The two exchange datagrams and connections directly.  Every operation runs until
nothing is under way any more.
-/

namespace PvNet

/-- A client and a server that reach each other. -/
structure LocalHost where
  client : ClientContext
  server : ServerContext
  now : Instant := 0

namespace LocalHost

/-- The server receives what the client sent, and the client its answers. -/
def deliver : List Outgoing → LocalHost → DiscoveryClient.Effects × LocalHost
  | [], h => ({}, h)
  | d :: ds, h =>
    let answers :=
      if d.target = h.server.searchAddress then h.server.answers d.bytes h.client.searchAddress
      else []
    let (first, client) := answers.foldl (fun (acc : DiscoveryClient.Effects × ClientContext) a =>
      if a.target = h.client.searchAddress then
        let (effects, _, client) := acc.2.receive h.now a.bytes h.server.searchAddress
        (acc.1 ++ effects, client)
      else acc) ({}, h.client)
    let (rest, h) := deliver ds { h with client }
    (first ++ rest, h)

/-- Waits until a moment and lets the searches that are due by then be answered. -/
def settle (h : LocalHost) (now : Instant) : DiscoveryClient.Effects × LocalHost :=
  let (sent, client) := h.client.tick now
  deliver sent { h with client, now }

/-- Searches a channel and waits until its search was sent.  Returns where the channel was found,
unless the search would wait for longer than the clock can tell. -/
def search? (h : LocalHost) (cid : UInt32) (name : String) (penalize : Bool) :
    Option (Except Error (List SearchResult × LocalHost)) :=
  (h.client.registerSearch? h.now cid name penalize).map fun registered => do
    let client ← registered
    let due := (client.searches.pending.get? cid).elim h.now PendingSearch.deadline
    let (effects, h) := { h with client }.settle due
    return (effects.found.filter (·.cid = cid), h)

/-- Connects the client to an address, which is that of the server or where nobody listens. -/
def connect (h : LocalHost) (holder : Holder) (address : Endpoint) (priority : Int16) :
    Except Error Nat × Activity × LocalHost :=
  let listener :=
    if address = h.server.serverAddress then h.server.listener else .refusing Listener.nobody
  let (result, activity, client) := h.client.connect h.now holder address priority listener
  (result, activity, { h with client })

/-- A beacon of another server arrives at the client.  Returns what the client then knows of that
server. -/
def hear (h : LocalHost) (other : BeaconEmitter) (source : Endpoint) :
    Option ServerState × LocalHost :=
  let (_, _, client) := h.client.receive h.now other.datagram source
  (client.discovery.tracker.servers.get? (other.server.resolve source), { h with client })

def destroyClient (h : LocalHost) : Activity × LocalHost :=
  let (activity, client) := h.client.destroy
  (activity, { h with client })

/-- Destroys the server, which ends its connections. -/
def destroyServer (h : LocalHost) : Activity × LocalHost :=
  let (activity, client) := h.client.hangUpAll h.server.serverAddress
  (activity, { h with client, server := h.server.destroy })

end LocalHost

end PvNet
