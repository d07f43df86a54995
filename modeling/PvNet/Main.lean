import PvNet.Cli.Plan
import PvNet.Context.Client
import PvNet.Context.Server
import PvNet.Discovery.Forwarder
import Std.Async.DNS
import Std.Async.TCP
import Std.Async.Timer
import Std.Async.UDP
set_option autoImplicit false

/-!
# The program

Reads the command line and the environment, carries out the plan that they lead to and
prints its outcome.  All decisions are made elsewhere; here octets are moved between
them and the sockets of the host.
-/

namespace PvNet.Cli.Live

open Std.Async

/-! ## Addresses -/

/-- The address of a socket as the host takes it. -/
def hostAddress (e : Endpoint) : Std.Net.SocketAddress :=
  match e.ip with
  | .v4 a =>
    match a.octets with
    | [a, b, c, d] => .v4 ⟨.ofParts a b c d, e.port⟩
    | _ => .v4 ⟨.ofParts 0 0 0 0, e.port⟩
  | .v6 a =>
    match a.groups.map UInt16.ofNat with
    | [a, b, c, d, e', f, g, h] => .v6 ⟨.ofParts a b c d e' f g h, e.port⟩
    | _ => .v6 ⟨.ofParts 0 0 0 0 0 0 0 0, e.port⟩

/-- The address of the host's own form. -/
def ipAddress : Std.Net.IPAddr → IpAddress
  | .v4 a => .v4 (.ofOctets a.octets[0] a.octets[1] a.octets[2] a.octets[3])
  | .v6 a => .v6 (.ofGroups (a.segments.toList.map UInt16.toNat))

/-- The endpoint of the host's own form. -/
def endpoint (a : Std.Net.SocketAddress) : Endpoint := ⟨ipAddress a.ipAddr, a.port⟩

/-- The interfaces that the host reports; it leaves out those that are down. -/
def interfaces : IO (List Interface) := do
  let all ← Std.Net.interfaceAddresses
  return all.toList.filterMap fun i =>
    match ipAddress i.address, ipAddress i.netMask with
    | .v4 address, .v4 mask =>
      some
        { name := i.name, address, up := true, loopback := i.isLoopback, multicast := !i.isLoopback
          broadcast := if i.isLoopback then none else some ⟨address.bits ||| ~~~mask.bits⟩ }
    | _, _ => none

/-! ## Failures -/

/-- What the host says about a failed call. -/
def failureOf (e : IO.Error) : IoError :=
  let kind : IoKind := match e with
    | .resourceBusy .. | .alreadyExists .. => .addrInUse
    | .permissionDenied .. => .permissionDenied
    | .timeExpired .. => .timedOut
    | .interrupted .. => .interrupted
    | _ => .other
  ⟨kind, some (toString e)⟩

/-- Does something of which the failure is told in the words of the command line. -/
def attempt {α : Type} (failure : IoError → Failure) (action : IO α) : ExceptT Failure IO α := do
  match ← action.toBaseIO with
  | .ok a => return a
  | .error e => throw (failure (failureOf e))

/-! ## Datagrams -/

/-- A socket for datagrams at a port of all addresses, or at any port if that one is taken and
another one will do. -/
def bindDatagrams (port : UInt16) (orAny : Bool) : IO UDP.Socket := do
  let socket ← UDP.Socket.mk
  try
    socket.bind (hostAddress (.any port))
  catch e =>
    if orAny then socket.bind (hostAddress (.any 0)) else throw e
  socket.setBroadcast true
  return socket

/-- Joins the group of servers; without it only broadcasts arrive. -/
def joinGroup (socket : UDP.Socket) (config : Config) : IO Unit := do
  try
    socket.setMembership (hostAddress ⟨.v4 config.multicastGroup, 0⟩).ipAddr none .enterGroup
  catch _ => return

/-- Sends datagrams; those that cannot be sent are lost. -/
def sendAll (socket : UDP.Socket) (datagrams : List Outgoing) : IO Unit :=
  datagrams.forM fun d => do
    try
      (socket.send ⟨d.bytes.toArray⟩ (some (hostAddress d.target))).block
    catch _ => return

/-- The longest wait for anything, in milliseconds. -/
def patience : Nat := 50

/-- A datagram and its source, if one arrives soon. -/
def receive (socket : UDP.Socket) : IO (Option (Bytes × Endpoint)) := do
  let wait : Async (Option (ByteArray × Option Std.Net.SocketAddress)) := do
    let timer ← Selector.sleep (.ofNat patience)
    Selectable.one #[
      .case (socket.recvSelector 65536) fun d => pure (some d),
      .case timer fun _ => pure none]
  match ← wait.block with
  | some (bytes, some source) => return some (bytes.data.toList, endpoint source)
  | _ => return none

/-! ## Connections -/

/-- Lets a transport talk over a connection until it is closed or something else is due. -/
partial def converse (connection : TCP.Socket.Client) (enough : Transport → IO Bool)
    (t : Transport) : IO Transport := do
  if ← enough t then return t
  let wait : Async (Option (Option ByteArray)) := do
    let timer ← Selector.sleep (.ofNat patience)
    Selectable.one #[
      .case (connection.recvSelector 65536) fun d => pure (some d),
      .case timer fun _ => pure none]
  let now ← IO.monoNanosNow
  let (activity, t) ← match ← wait.block with
    | none => pure ({}, t)
    | some none => pure t.hangUp
    | some (some bytes) => pure (t.receiveOctets now bytes.data.toList)
  unless activity.sent.isEmpty do
    (connection.send ⟨activity.octets.toArray⟩).block
  converse connection enough t

/-- Whether a connection to a server comes about and is verified. -/
def validates (config : Config) (server : Endpoint) : IO Bool := do
  try
    let connection ← TCP.Socket.Client.mk
    let attempt : Async Bool := do
      connection.connect (hostAddress server)
      return true
    let timer : Async Bool := do
      sleep (.ofNat (config.connector.connectTimeout.nanoseconds / 1000000))
      return false
    if ← (Async.race attempt timer).block then
      let start ← IO.monoNanosNow
      let limit := start + config.connector.verificationTimeout.nanoseconds
      let t ← converse connection
        (fun t => do
          return t.closed || t.verification != .pending || limit ≤ (← IO.monoNanosNow))
        (.client server 0 config.transport none)
      return t.isVerified
    else return false
  catch _ => return false

/-- Serves a connection until its peer is gone or the server stops. -/
def serveConnection (config : Config) (running : IO.Ref Bool) (connection : TCP.Socket.Client) :
    IO Unit := do
  try
    let peer := endpoint (← connection.getPeerName)
    let (greeting, t) := (Transport.server peer config.transport none).flush
    (connection.send ⟨greeting.octets.toArray⟩).block
    discard <| converse connection (fun t => do return t.closed || !(← running.get)) t
  catch _ => return

/-! ## Commands -/

def print (lines : List String) : IO Unit := do
  let out ← IO.getStdout
  lines.forM out.putStrLn
  out.flush

/-- The moment when a time that starts now is over. -/
def deadlineAfter (duration : Option Duration) : IO (Option Instant) := do
  let now ← IO.monoNanosNow
  return duration.map (now + ·.nanoseconds)

/-- Whether a moment has passed. -/
def hasPassed (deadline : Option Instant) : IO Bool := do
  let now ← IO.monoNanosNow
  return deadline.any (· ≤ now)

/-- Prints the beacons that arrive until enough of them were printed or the time is over. -/
partial def watchBeacons (p : Printing) (socket : UDP.Socket) (deadline : Option Instant)
    (watch : BeaconWatch) : IO Unit := do
  if watch.isDone || (← hasPassed deadline) then return
  match ← receive socket with
  | none => watchBeacons p socket deadline watch
  | some (datagram, source) =>
    let (lines, watch) := watch.see p datagram source
    print lines
    watchBeacons p socket deadline watch

/-- Searches until every channel is found or the time is over. -/
partial def searchChannels (s : ChannelSearch) (socket : UDP.Socket) (deadline : Option Instant)
    (client : ClientContext) (found : List SearchResult) : IO (List SearchResult) := do
  if client.searches.pending.isEmpty || (← hasPassed deadline) then return found
  let (sent, client) := client.tick (← IO.monoNanosNow)
  sendAll socket sent
  match ← receive socket with
  | none => searchChannels s socket deadline client found
  | some (datagram, source) =>
    let (effects, _, client) := client.receive (← IO.monoNanosNow) datagram source
    searchChannels s socket deadline client (found ++ effects.found)

/-- Accepts connections, answers searches and announces the server until the time is over. -/
partial def serveUntil (deadline : Option Instant) (running : IO.Ref Bool)
    (listener : TCP.Socket.Server) (socket : UDP.Socket) (server : ServerContext)
    (nextBeacon : Instant) : IO Unit := do
  if ← hasPassed deadline then
    running.set false
    return
  if let some connection ← listener.tryAccept then
    discard <| IO.asTask (serveConnection server.config running connection)
  let now ← IO.monoNanosNow
  let (beacons, emitter) :=
    if nextBeacon ≤ now then server.emitter.emit else ([], server.emitter)
  sendAll socket beacons
  let nextBeacon :=
    if nextBeacon ≤ now then now + (emitter.delayAfter emitter.sent).nanoseconds else nextBeacon
  let server := { server with emitter }
  match ← receive socket with
  | none => pure ()
  | some (datagram, source) => sendAll socket (server.answers datagram source)
  serveUntil deadline running listener socket server nextBeacon

/-- Relays searches until the time is over.  Returns how many there were. -/
partial def forwardDatagrams (socket : UDP.Socket) (sender : UDP.Socket)
    (deadline : Option Instant) (f : Forwarder) : IO Nat := do
  if ← hasPassed deadline then return f.forwarded
  match ← receive socket with
  | none => forwardDatagrams socket sender deadline f
  | some (datagram, source) =>
    let (_, _, f) := f.forward datagram source
    sendAll sender f.sender.sent
    forwardDatagrams socket sender deadline { f with sender := { f.sender with sent := [] } }

def runBeacons (p : Printing) (config : Config) (watch : BeaconWatch)
    (duration : Option Duration) : ExceptT Failure IO Outcome := do
  let socket ← attempt (.ofIo "beacon socket bind failed")
    (bindDatagrams config.broadcastPort false)
  joinGroup socket config
  watchBeacons p socket (← deadlineAfter duration) watch
  return { code := .success }

/-- Searches for channels and, if asked to, connects to the servers that have them. -/
def runSearch (p : Printing) (config : Config) (s : ChannelSearch) :
    ExceptT Failure IO Outcome := do
  let failure := Failure.ofIo "client start failed"
  let socket ← attempt failure (bindDatagrams 0 true)
  let address := endpoint (← attempt failure socket.getSockName)
  let client := ClientContext.start config address (config.broadcastAddresses (← interfaces))
  let now ← IO.monoNanosNow
  let client := s.channels.foldl (fun client c =>
    ((client.registerSearch? now c.cid c.name false).bind (·.toOption)).getD client) client
  let found ← searchChannels s socket (← deadlineAfter (some s.timeout)) client []
  let reached ← ((found.map (·.server)).eraseDups).filterM fun server =>
    if s.connect then validates config server else pure false
  return s.outcome p found reached.contains

def runServe (p : Printing) (config : Config) (channels : List String)
    (duration : Option Duration) : ExceptT Failure IO Outcome := do
  let failure := Failure.ofIo "server start failed"
  let listener ← attempt failure TCP.Socket.Server.mk
  attempt failure do
    try
      listener.bind (hostAddress (.any config.serverPort))
    catch _ => listener.bind (hostAddress (.any 0))
  attempt failure (listener.listen 128)
  let socket ← attempt failure (bindDatagrams config.broadcastPort true)
  joinGroup socket config
  let guid := Guid.ofOctets (← IO.getRandomBytes 16).data.toList
  let searchAddress := endpoint (← attempt failure socket.getSockName)
  let serverAddress := endpoint (← attempt failure listener.getSockName)
  let server := ServerContext.start config guid searchAddress serverAddress
    (config.broadcastAddresses (← interfaces)) channels.contains
  let summary := Plan.serveSummary guid server.serverAddress server.searchAddress channels
  print (summary.lines p.format)
  let deadline ← deadlineAfter duration
  serveUntil deadline (← IO.mkRef true) listener socket server (← IO.monoNanosNow)
  return { code := .success }

/-- Relays searches. -/
def runForward (p : Printing) (config : Config) (duration : Option Duration) :
    ExceptT Failure IO Outcome := do
  let failure := Failure.ofIo "forwarder start failed"
  let socket ← attempt failure (bindDatagrams config.broadcastPort false)
  let sender ← attempt failure (bindDatagrams 0 true)
  let listen := endpoint (← attempt failure socket.getSockName)
  let target : Endpoint := ⟨.v4 config.multicastGroup, config.broadcastPort⟩
  let count ← forwardDatagrams socket sender (← deadlineAfter duration)
    { receiver := { address := listen }, sender := { address := .any 0 }, destination := target }
  return { code := .success, lines := (Plan.forwardSummary config listen count).lines p.format }

/-- Carries out a plan. -/
def perform (p : Printing) : Plan → ExceptT Failure IO Outcome
  | .done outcome => return outcome
  | .beacons config watch duration => runBeacons p config watch duration
  | .search config s => runSearch p config s
  | .serve config channels duration => runServe p config channels duration
  | .forward config duration => runForward p config duration

/-- The values of the environment variables that concern the program. -/
def environment : IO (String → Option String) := do
  let values ← environmentVariables.mapM fun name => do return (name, ← IO.getEnv name)
  return fun name => (values.lookup name).join

/-- Looks up those hosts of the address list that are given by a name. -/
def resolver (environment : String → Option String) : IO Resolver := do
  let words := (environment Config.addressesKey).elim [] Text.words
  let hosts := words.map fun word => (Endpoint.hostAndPort 0 word).1
  let known ← (hosts.filter fun host => (IpAddress.ofText? host).isNone).mapM fun host => do
    let addresses ← try (DNS.getAddrInfo host "").block catch _ => pure #[]
    return (host, addresses.toList.map ipAddress)
  return fun host => (known.lookup host).getD []

/-- Runs the program and returns its exit code. -/
def run (args : List String) : IO UInt32 := do
  let outcome ← match Invocation.parse args with
    | .error e => pure e.outcome
    | .ok i => do
      let environment ← environment
      let interfaces ← interfaces
      let names ← resolver environment
      let broadcast := ((Config.ofEnvironment? names environment).map
        (·.broadcastAddresses interfaces)).getD []
      let terminal ← (← IO.getStdout).isTty
      let seconds := (← Std.Time.Timestamp.now).toSecondsSinceUnixEpoch.val
      let p := i.printing terminal (toString seconds)
      let plan := Plan.ofAction { interfaces, broadcast, names } environment p i.action
      match ← (perform p plan).run with
      | .ok outcome => pure outcome
      | .error f => pure (.ofFailure f)
  print outcome.lines
  if let some message := outcome.error then
    IO.eprintln ("error: " ++ message)
  return .ofNat outcome.code.number

end PvNet.Cli.Live

/-- The program. -/
def main (args : List String) : IO UInt32 := PvNet.Cli.Live.run args
