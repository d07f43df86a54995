import PvNet.Message.Basic
import PvNet.Net.Broadcast
import PvNet.Number.Duration
import PvNet.Schema.Numbering
set_option autoImplicit false

/-!
# Configuration

Settings come from an environment, given as a function from names to texts.  A
variable that is unset, blank or not understood leaves the default.  `Config.entries`
shows the effective settings in the form in which they can be set again.
-/

namespace PvNet

/-- How connections are opened. -/
structure ConnectorConfig where
  /-- How long to wait while somebody else connects to the same address. -/
  lockTimeout : Duration := .ofSeconds 20
  /-- How often the connection is tried. -/
  tries : Nat := 3
  /-- The pause between two tries. -/
  retryDelay : Duration := .ofMillis 100
  /-- How long one try may take. -/
  connectTimeout : Duration := .ofSeconds 5
  /-- How long the validation may take. -/
  verificationTimeout : Duration := .ofSeconds 5
  deriving DecidableEq, Repr, Inhabited

/-- How channels are searched. -/
structure SearchConfig where
  /-- The delay after the first unanswered search; it doubles with every retry. -/
  basePeriod : Duration := .ofMillis 250
  /-- The longest delay between two searches. -/
  maxPeriod : Duration := .ofSeconds 30
  /-- The retry count that a penalized registration starts from. -/
  penalty : Nat := 3
  /-- The largest datagram sent. -/
  maxDatagram : Nat := Message.maxUnfragmented
  deriving DecidableEq, Repr, Inhabited

/-- The settings of one connection. -/
structure TransportConfig where
  /-- The receive buffer size announced to the peer. -/
  receiveBufferSize : UInt32 := 16384
  /-- How many numbered descriptors this side is willing to hold. -/
  introspectionCapacity : UInt16 := 0x7FFF
  /-- The authentication plugin offered or chosen. -/
  authPlugin : String := "anonymous"
  /-- After how long without traffic an echo is sent. -/
  connectionTimeout : Duration := .ofSeconds 30
  /-- The order in which a server sends. -/
  order : ByteOrder := .big
  /-- The largest payload. -/
  maxPayload : Nat := Message.defaultMaxPayload
  deriving DecidableEq, Repr, Inhabited

/-- All settings. -/
structure Config where
  broadcastPort : UInt16 := 5076
  serverPort : UInt16 := 5075
  multicastGroup : Ipv4 := .ofOctets 239 219 1 200
  /-- Where searches are sent. -/
  addresses : List Endpoint := []
  /-- Whether searches are also sent to the broadcast addresses. -/
  autoAddresses : Bool := true
  networkRules : NetworkRules := .builtin
  beaconPeriod : Duration := .ofSeconds 15
  connector : ConnectorConfig := {}
  search : SearchConfig := {}
  transport : TransportConfig := {}
  deriving DecidableEq, Repr, Inhabited

namespace Config

/-- The variable that sets the broadcast port. -/
def broadcastPortKey : String := "EPICS_PVA_BROADCAST_PORT"

/-- The variable that sets the server port. -/
def serverPortKey : String := "EPICS_PVA_SERVER_PORT"

/-- The variable that sets the multicast group. -/
def multicastGroupKey : String := "EPICS_PVA_MULTICAST_GROUP"

/-- The variable that lists where searches are sent. -/
def addressesKey : String := "EPICS_PVA_ADDR_LIST"

/-- The variable that says whether searches are also sent to the broadcast addresses. -/
def autoAddressesKey : String := "EPICS_PVA_AUTO_ADDR_LIST"

/-- The variable that lists special networks. -/
def networkRulesKey : String := "EPICS_NETWORKS_CIDR_LIST"

/-- The variable that sets the period of beacons, in seconds. -/
def beaconPeriodKey : String := "EPICS_PVA_BEACON_PERIOD"

/-- The variable that sets the connection timeout, in seconds. -/
def connectionTimeoutKey : String := "EPICS_PVA_CONN_TMO"

/-- The variable that sets the receive buffer size. -/
def receiveBufferSizeKey : String := "EPICS_PVA_RECEIVE_BUFFER_SIZE"

/-- The trimmed text of a variable, unless it is blank. -/
def setting? (env : String → Option String) (key : String) : Option String :=
  ((env key).map Text.trim).filter (· ≠ "")

/-- The truth value that a text stands for. -/
def yesNo? (s : String) : Option Bool :=
  let s := Text.capitals s
  if s ∈ ["YES", "Y", "TRUE", "1"] then some true
  else if s ∈ ["NO", "N", "FALSE", "0"] then some false
  else none

/-- A positive number of seconds, the default if the variable does not hold one, and `none` if it
is beyond the longest duration. -/
def period? (env : String → Option String) (key : String) (default : Duration) : Option Duration :=
  match (setting? env key).bind Binary64.positive? with
  | some x => Duration.ofSeconds? x
  | none => some default

/-- The settings that an environment gives, with the hosts that it names looked up; `none` if a
period is beyond the longest duration. -/
def ofEnvironment? (names : Resolver) (env : String → Option String) : Option Config := do
  let defaults : Config := {}
  let get := setting? env
  let broadcastPort := ((get broadcastPortKey).bind Decimal.word16?).getD defaults.broadcastPort
  let beaconPeriod ← period? env beaconPeriodKey defaults.beaconPeriod
  let connectionTimeout ← period? env connectionTimeoutKey defaults.transport.connectionTimeout
  let receiveBufferSize :=
    match (get receiveBufferSizeKey).bind Decimal.word32? with
    | some n => UInt32.ofNat (max n.toNat Message.maxUnfragmented)
    | none => defaults.transport.receiveBufferSize
  return {
    broadcastPort
    serverPort := ((get serverPortKey).bind Decimal.word16?).getD defaults.serverPort
    multicastGroup :=
      (((get multicastGroupKey).bind Ipv4.ofText?).filter Ipv4.isMulticast).getD
        defaults.multicastGroup
    addresses := ((get addressesKey).map fun list => addressList names list broadcastPort).getD []
    autoAddresses := ((get autoAddressesKey).bind yesNo?).getD true
    networkRules := ((get networkRulesKey).map NetworkRules.ofList).getD .builtin
    beaconPeriod
    transport := { connectionTimeout, receiveBufferSize } }

/-- The names and texts of the effective settings. -/
def entries (c : Config) : List (String × String) :=
  [ (broadcastPortKey, toString c.broadcastPort.toNat),
    (serverPortKey, toString c.serverPort.toNat),
    (multicastGroupKey, c.multicastGroup.text),
    (addressesKey, " ".intercalate (c.addresses.map Endpoint.text)),
    (autoAddressesKey, if c.autoAddresses then "YES" else "NO"),
    (networkRulesKey, c.networkRules.text),
    (beaconPeriodKey, c.beaconPeriod.seconds.text),
    (connectionTimeoutKey, c.transport.connectionTimeout.seconds.text),
    (receiveBufferSizeKey, toString c.transport.receiveBufferSize.toNat) ]

end Config

end PvNet
