import PvNet.Net.AddressText
import PvNet.Net.SocketError
set_option autoImplicit false

/-!
# Multicast sockets

A socket for datagrams that can join groups on an interface and choose the interface
to send to groups through.  Only the loopback interface and the interface that the
host chooses can be joined on.  A closed socket has left its groups and refuses
everything that needs the socket.
-/

namespace PvNet

/-- A group joined on an interface. -/
structure Membership where
  group : Ipv4
  interface : Ipv4
  deriving DecidableEq, Repr, Inhabited

namespace Membership

/-- The place of a membership in the order of groups and then interfaces. -/
def rank (m : Membership) : Nat := m.group.bits.toNat * UInt32.size + m.interface.bits.toNat

/-- Whether two memberships are of one group on one interface of the host. -/
def overlaps (a b : Membership) : Bool :=
  a.group = b.group &&
    (a.interface = b.interface || a.interface.isLoopback && b.interface.isLoopback)

/-- A list of memberships with another one in its place. -/
def insert (m : Membership) : List Membership → List Membership
  | [] => [m]
  | n :: ns => if m.rank ≤ n.rank then m :: n :: ns else n :: insert m ns

end Membership

/-- A socket for datagrams. -/
structure MulticastSocket where
  address : Endpoint
  /-- The joined groups, in order. -/
  groups : List Membership := []
  /-- The interface to send to groups through, once it is chosen. -/
  interface : Option Ipv4 := none
  /-- The datagrams that wait, with their sources. -/
  inbox : List (Bytes × Endpoint) := []
  closed : Bool := false
  deriving DecidableEq, Repr, Inhabited

namespace MulticastSocket

/-- What an operation leads to. -/
abbrev Result (α : Type) : Type := Except SocketError α

/-- A failure that the host reports. -/
def hostFailure (kind : IoKind) (text : String) : IoError := ⟨kind, some text⟩

/-- The host does not know the interface. -/
def noDevice : IoError := hostFailure .other "No such device (os error 19)"

/-- The host does not own the address. -/
def notLocal : IoError :=
  hostFailure .addrNotAvailable "Cannot assign requested address (os error 99)"

/-- The address is taken, or the group is joined on the same interface already. -/
def addressInUse : IoError := hostFailure .addrInUse "Address already in use (os error 98)"

/-- The socket is in as many groups as the host allows. -/
def tooManyGroups : IoError := hostFailure .other "No buffer space available (os error 105)"

/-- A value is out of range. -/
def badArgument : IoError := hostFailure .invalidInput "Invalid argument (os error 22)"

/-- A wait of no length is refused. -/
def zeroTimeout : IoError := hostFailure .invalidInput "cannot set a 0 duration timeout"

/-- Nothing came. -/
def nothingQueued : IoError :=
  hostFailure .wouldBlock "Resource temporarily unavailable (os error 11)"

/-- A datagram is too long. -/
def messageTooLong : IoError := hostFailure .other "Message too long (os error 90)"

/-- The longest datagram that can be sent. -/
def maxSend : Nat := 65507

/-- The most groups that a socket can be in. -/
def maxGroups : Nat := 20

/-- Refuses on a closed socket. -/
def needOpen (s : MulticastSocket) : Result Unit :=
  if s.closed then .error .shutdown else .ok ()

/-- Whether an interface can be used. -/
def isKnownInterface (a : Ipv4) : Bool := a = .any || a.isLoopback

/-- Joins a group. -/
def join (s : MulticastSocket) (group interface : Ipv4) : Result MulticastSocket := do
  s.needOpen
  let m : Membership := ⟨group, interface⟩
  if !group.isMulticast then
    throw (.unsupported s!"{group.text} is not a multicast address")
  else if m ∈ s.groups then return s
  else if !isKnownInterface interface then throw (.multicast group noDevice)
  else if s.groups.any m.overlaps then throw (.multicast group addressInUse)
  else if maxGroups ≤ s.groups.length then throw (.multicast group tooManyGroups)
  else return { s with groups := m.insert s.groups }

/-- Leaves a group; one that was not joined is not missed. -/
def leave (s : MulticastSocket) (group interface : Ipv4) : MulticastSocket :=
  { s with groups := s.groups.filter (· ≠ ⟨group, interface⟩) }

/-- Chooses the interface to send to groups through, once and for all. -/
def setInterface (s : MulticastSocket) (interface : Ipv4) : Result MulticastSocket :=
  match s.interface with
  | some chosen =>
    if chosen = interface then .ok s
    else .error (.unsupported s!"multicast interface already set to {chosen.text}")
  | none => do
    s.needOpen
    if isKnownInterface interface then return { s with interface := some interface }
    else throw (.io notLocal)

/-- Sets how many hops datagrams to groups live. -/
def setTtl (s : MulticastSocket) (ttl : Nat) : Result Unit := do
  s.needOpen
  if ttl ≤ 255 ∨ ttl = 4294967295 then return () else throw (.io badArgument)

/-- Sets how long a receive waits; no limit is fine, no time is not. -/
def setTimeout (s : MulticastSocket) (millis : Option Nat) : Result Unit := do
  s.needOpen
  if millis = some 0 then throw (.io zeroTimeout)

/-- Sends a datagram.  Returns its length. -/
def send (s : MulticastSocket) (bytes : Bytes) : Result Nat := do
  s.needOpen
  if maxSend < bytes.length then throw (.io messageTooLong) else return bytes.length

/-- A datagram arrives; a closed socket does not notice. -/
def arrive (s : MulticastSocket) (bytes : Bytes) (source : Endpoint) : MulticastSocket :=
  if s.closed then s else { s with inbox := s.inbox ++ [(bytes, source)] }

/-- Sends a datagram to another socket of the host.  Returns its length. -/
def sendTo (s target : MulticastSocket) (bytes : Bytes) : Result Nat × MulticastSocket :=
  match s.send bytes with
  | .ok length => (.ok length, target.arrive bytes s.address)
  | .error e => (.error e, target)

/-- Receives a datagram, of which `size` octets are kept. -/
def receive (s : MulticastSocket) (size : Nat) : Result (Bytes × Endpoint) × MulticastSocket :=
  if s.closed then (.error .shutdown, s)
  else
    match s.inbox with
    | [] => (.error (.io nothingQueued), s)
    | (bytes, source) :: rest => (.ok (bytes.take size, source), { s with inbox := rest })

/-- Leaves every group and closes the socket. -/
def close (s : MulticastSocket) : MulticastSocket :=
  { s with closed := true, groups := [], inbox := [] }

end MulticastSocket

end PvNet
