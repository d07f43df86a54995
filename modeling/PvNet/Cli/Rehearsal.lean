import PvNet.Cli.Plan
import PvNet.Context.LocalHost
set_option autoImplicit false

/-!
# Running without a network

A command can be run against a given world: what the network would answer is known
beforehand, and every wait ends at once.
-/

namespace PvNet.Cli

/-- What a command finds. -/
structure World where
  environment : String → Option String
  host : Host := {}
  /-- Whether output goes to a terminal. -/
  terminal : Bool := false
  timestamp : String := "0"
  /-- The server that can be reached, if any. -/
  server : Option ServerContext := none
  /-- The datagrams that come to the broadcast port, with their sources. -/
  datagrams : List (Bytes × Endpoint) := []
  /-- The identity that a new server takes. -/
  guid : Guid
  /-- The addresses that new sockets get. -/
  tcp : Endpoint
  udp : Endpoint

namespace World

/-- The settings of a run that stays on this host: any free ports, no broadcast addresses and the
group of all hosts. -/
def confinement : List (String × String) :=
  [ (Config.broadcastPortKey, "0"), (Config.serverPortKey, "0"),
    (Config.autoAddressesKey, "NO"), (Config.multicastGroupKey, "224.0.0.1") ]

def localEndpoint (port : UInt16) : Endpoint := ⟨.v4 .localhost, port⟩

/-- A world that is confined to this host.  There is a server if it has something to serve, and
searches are sent to it.  A setting that is overridden is what it is overridden by, or not there. -/
def confined (overridden : String → Option (Option String)) (served : List String)
    (datagrams : List (Bytes × Endpoint)) : World :=
  let guid : Guid := .ofOctets (List.replicate 16 0x5A)
  let settings :=
    if served.isEmpty then confinement
    else (Config.addressesKey, (localEndpoint 40001).text) :: confinement
  { environment := fun name => (overridden name).getD (settings.lookup name)
    server :=
      if served.isEmpty then none
      else some (.start {} guid (localEndpoint 40001) (localEndpoint 40002) [] served.contains)
    datagrams
    guid
    tcp := .any 40002
    udp := .any 40001 }

/-- The host with a new client and the server that can be reached. -/
def localHost (w : World) (config : Config) : LocalHost where
  client := .start config { w.udp with ip := .v4 .localhost } w.host.broadcast
  server :=
    w.server.getD (ServerContext.start {} w.guid w.udp w.tcp [] fun _ => false).destroy

/-- Searches channels and connects to the servers of those that are found. -/
def search (w : World) (config : Config) (s : ChannelSearch) (p : Printing) : Outcome :=
  let h := w.localHost config
  let client := s.channels.foldl (fun client c =>
    ((client.registerSearch? h.now c.cid c.name false).bind (·.toOption)).getD client) h.client
  let (effects, h) := { h with client }.settle h.now
  s.outcome p effects.found fun server =>
    match h.connect { id := 1 } server 0 with
    | (.ok _, _) => true
    | (.error _, _) => false

/-- Carries out a plan. -/
def perform (w : World) (p : Printing) : Plan → Outcome
  | .done outcome => outcome
  | .beacons _ watch _ => ⟨.success, BeaconWatch.watch p w.datagrams watch, none⟩
  | .search config s => w.search config s p
  | .serve _ channels duration =>
    ⟨if duration.all Plan.canWait then .success else .aborted,
      (Plan.serveSummary w.guid w.tcp w.udp channels).lines p.format, none⟩
  | .forward config duration =>
    if duration.all Plan.canWait then
      ⟨.success, (Plan.forwardSummary config w.udp 0).lines p.format, none⟩
    else ⟨.aborted, [], none⟩

/-- The outcome of a command line. -/
def run (w : World) (args : List String) : Outcome :=
  match Invocation.parse args with
  | .error e => e.outcome
  | .ok i =>
    let p := i.printing w.terminal w.timestamp
    w.perform p (.ofAction w.host w.environment p i.action)

end World

end PvNet.Cli
