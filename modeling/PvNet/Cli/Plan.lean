import PvNet.Cli.Diagnostics
import PvNet.Cli.DurationArgument
set_option autoImplicit false

/-!
# What a command line leads to

A command line and the environment give a plan.  Some plans are complete results;
others need the network, and what it answers gives the result.
-/

namespace PvNet.Cli

/-- What a program run leaves. -/
structure Outcome where
  code : ExitCode
  /-- The printed lines. -/
  lines : List String := []
  /-- What is said about a failure. -/
  error : Option String := none
  deriving DecidableEq, Repr, Inhabited

/-- The outcome of a failed command. -/
def Outcome.ofFailure (f : Failure) : Outcome := ⟨f.code, [], some f.message⟩

/-- How reports are printed. -/
structure Printing where
  format : OutputFormat
  timestamp : String

structure BeaconWatch where
  /-- How many events to print. -/
  limit : Option Nat
  /-- Whether beacons without news are printed too. -/
  all : Bool
  tracker : BeaconTracker := {}
  printed : Nat := 0

namespace BeaconWatch

/-- Whether enough events were printed. -/
def isDone (w : BeaconWatch) : Bool := w.limit.any (· ≤ w.printed)

/-- Whether an event is printed. -/
def shows (w : BeaconWatch) (o : BeaconOutcome) : Bool := w.all || o.isChange

/-- Takes note of a message from `source`.  Returns the lines to print. -/
def seeMessage (w : BeaconWatch) (p : Printing) (source : Endpoint) (m : Message) :
    List String × BeaconWatch :=
  if !m.isApplication Command.beacon then ([], w)
  else
    match w.tracker.handle 0 m source with
    | (some s, tracker) =>
      if w.shows s.outcome then
        ((BeaconEvent.ofSighting s).lines p.timestamp p.format,
          { w with tracker, printed := w.printed + 1 })
      else ([], { w with tracker })
    | (none, tracker) => ([], { w with tracker })

/-- Takes note of messages one after the other. -/
def seeMessages (p : Printing) (source : Endpoint) :
    List Message → BeaconWatch → List String × BeaconWatch
  | [], w => ([], w)
  | m :: ms, w =>
    let (first, w) := w.seeMessage p source m
    let (rest, w) := seeMessages p source ms w
    (first ++ rest, w)

/-- Takes note of a datagram; one that is not made of messages is dropped. -/
def see (w : BeaconWatch) (p : Printing) (datagram : Bytes) (source : Endpoint) :
    List String × BeaconWatch :=
  seeMessages p source
    ((Message.ofDatagram (datagram.take Message.maxDatagram)).toOption.getD []) w

/-- Takes note of datagrams until enough events were printed. -/
def watch (p : Printing) : List (Bytes × Endpoint) → BeaconWatch → List String
  | [], _ => []
  | (datagram, source) :: rest, w =>
    if w.isDone then []
    else
      let (lines, w) := w.see p datagram source
      lines ++ watch p rest w

end BeaconWatch

/-- A search from the command line. -/
structure ChannelSearch where
  /-- The channels by their numbers. -/
  channels : List SearchEntry
  timeout : Duration
  /-- Whether to connect to the servers. -/
  connect : Bool

namespace ChannelSearch

/-- The channels with their positions as numbers, the first one being 1; a name that comes again
is left out. -/
def numberFrom (seen : List String) (n : Nat) : List String → List SearchEntry
  | [] => []
  | name :: names =>
    if name ∈ seen then numberFrom seen (n + 1) names
    else ⟨UInt32.ofNat n, name⟩ :: numberFrom (name :: seen) (n + 1) names

/-- The result of the search: the first answer for each channel counts. -/
def outcome (s : ChannelSearch) (p : Printing) (answers : List SearchResult)
    (connects : Endpoint → Bool) : Outcome :=
  let locations := s.channels.map fun c =>
    let found := answers.find? fun r => r.cid = c.cid
    let connected := if s.connect then found.map fun r => connects r.server else none
    { channel := c.name, found, connected : ChannelLocation }
  { code :=
      if locations.any fun l => l.found.isNone then .timeout
      else if locations.any fun l => l.connected = some false then .failure
      else .success
    lines := ChannelLocation.lines locations p.timestamp p.format }

end ChannelSearch

/-- What is left to do for a command line. -/
inductive Plan where
  /-- Nothing. -/
  | done (outcome : Outcome)
  | beacons (config : Config) (watch : BeaconWatch) (duration : Option Duration)
  | search (config : Config) (search : ChannelSearch)
  | serve (config : Config) (channels : List String) (duration : Option Duration)
  | forward (config : Config) (duration : Option Duration)

namespace Plan

/-- The summary that a server prints when it has started. -/
def serveSummary (guid : Guid) (tcp udp : Endpoint) (channels : List String) : Summary :=
  ⟨"serve-summary",
    [ ("guid", guid.text), ("tcp", tcp.text), ("udp", udp.text),
      ("channels", toString channels.length) ]⟩

/-- The summary that the forwarder prints when it has ended. -/
def forwardSummary (config : Config) (listen : Endpoint) (forwarded : Nat) : Summary :=
  ⟨"forward-summary",
    [ ("listen", listen.text), ("multicast_group", config.multicastGroup.text),
      ("forwarded", toString forwarded) ]⟩

/-- Whether the host's clock can tell when a time is over. -/
def canWait (d : Duration) : Bool := d.nanoseconds < (UInt64.size / 2 - 1) * Duration.perSecond

/-- A plan that reads an optional duration and the settings. -/
def withSettings (host : Host) (environment : String → Option String) (duration : Option String)
    (plan : Config → Option Duration → Plan) : Plan :=
  match duration.mapM durationOfText with
  | .error f => .done (.ofFailure f)
  | .ok duration =>
    match Config.ofEnvironment? host.names environment with
    | none => .done ⟨.aborted, [], none⟩
    | some config => plan config duration

def ofAction (host : Host) (environment : String → Option String) (p : Printing) :
    Action → Plan
  | .version extended => .done ⟨.success, versionLines host extended, none⟩
  | .envinfo =>
    withSettings host environment none fun config _ =>
      .done ⟨.success, environmentLines host config environment p.format, none⟩
  | .forward duration => withSettings host environment duration .forward
  | .serve channels duration =>
    withSettings host environment duration fun config duration => .serve config channels duration
  | .beacons limit duration all =>
    withSettings host environment duration fun config duration =>
      if duration.all canWait then .beacons config { limit, all } duration
      else .done ⟨.aborted, [], none⟩
  | .search channels timeout connect =>
    withSettings host environment (some timeout) fun config duration =>
      let timeout := duration.getD .zero
      if canWait timeout then
        .search config { channels := ChannelSearch.numberFrom [] 1 channels, timeout, connect }
      else .done ⟨.aborted, [], none⟩

end Plan

/-- What the program says to somebody who asks for help. -/
def usageLines : List String :=
  [ "pvAccess search, beacon and forwarding tools", "",
    "Usage: " ++ programName ++ " [OPTIONS] <COMMAND>", "",
    "Commands: forward, beacons, search, serve, envinfo, version, help" ]

/-- How the reports of an invocation are printed; the standard form is a table on a terminal and a
document otherwise. -/
def Invocation.printing (i : Invocation) (terminal : Bool) (timestamp : String) : Printing :=
  ⟨i.format.getD (if terminal then .table else .json), timestamp⟩

/-- The plan when there is no command. -/
def NoCommand.outcome : NoCommand → Outcome
  | .help => ⟨.success, usageLines, none⟩
  | .versionText => ⟨.success, [programTitle], none⟩
  | .misuse => ⟨.misuse, [], some "the command line is not understood; see --help"⟩

end PvNet.Cli
