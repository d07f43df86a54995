import PvNet.Connection.Listener
import PvNet.Discovery.BeaconEmitter
import PvNet.Discovery.Responder
set_option autoImplicit false

/-!
# The server side

A server answers searches for the channels that it hosts, announces itself with
beacons and accepts connections, until it is destroyed.
-/

namespace PvNet

/-- Everything a server has. -/
structure ServerContext where
  config : Config
  /-- Where searches come to. -/
  searchAddress : Endpoint
  /-- Where connections come to. -/
  serverAddress : Endpoint
  responder : Responder
  emitter : BeaconEmitter
  destroyed : Bool := false

namespace ServerContext

/-- A server that hosts some channels. -/
def start (config : Config) (guid : Guid) (searchAddress serverAddress : Endpoint)
    (broadcast : List Endpoint) (hosts : String → Bool) : ServerContext where
  config
  searchAddress
  serverAddress
  responder := ⟨guid, serverAddress.port, hosts⟩
  emitter :=
    { guid
      server := .any serverAddress.port
      destinations := config.addresses ++ if config.autoAddresses then broadcast else []
      period := config.beaconPeriod }

/-- The identity of the server. -/
def guid (s : ServerContext) : Guid := s.responder.guid

def answers (s : ServerContext) (datagram : Bytes) (source : Endpoint) : List Outgoing :=
  if s.destroyed then [] else s.responder.answers datagram source

/-- Whether connections are accepted. -/
def isAccepting (s : ServerContext) : Bool := !s.destroyed

/-- What a client meets at the server's address. -/
def listener (s : ServerContext) : Listener :=
  if s.destroyed then .refusing Listener.nobody else .serving s.config.transport

/-- The set of channels changed. -/
def countChange (s : ServerContext) : ServerContext := { s with emitter := s.emitter.countChange }

/-- Stops the server for good. -/
def destroy (s : ServerContext) : ServerContext := { s with destroyed := true }

end ServerContext

end PvNet
