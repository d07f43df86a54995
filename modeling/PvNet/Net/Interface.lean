import PvNet.Config
set_option autoImplicit false

/-!
# Network interfaces

Messages for everyone go to the broadcast address of each interface that reaches other
hosts.  There is always somewhere to send them: a host without such an interface uses
the address that stands for the whole network.
-/

namespace PvNet

/-- A network interface of a host. -/
structure Interface where
  name : String
  address : Ipv4
  /-- The broadcast address that the host reports. -/
  broadcast : Option Ipv4
  up : Bool
  loopback : Bool
  multicast : Bool
  deriving DecidableEq, Repr

namespace Interface

/-- Whether other hosts are reached through the interface. -/
def reachesOthers (i : Interface) : Bool := i.up && !i.loopback && !i.address.isLinkLocal

/-- Where messages for everyone go, in the order of the addresses. -/
def broadcastAddresses (rules : NetworkRules) (interfaces : List Interface) : List Ipv4 :=
  let own := (interfaces.filter reachesOthers).filterMap fun i => rules.broadcast? i.address
  if own.isEmpty then [.ofOctets 255 255 255 255]
  else own.eraseDups.mergeSort fun a b => a.bits.toNat ≤ b.bits.toNat

end Interface

/-- Where messages for everyone go from a host with these interfaces. -/
def Config.broadcastAddresses (c : Config) (interfaces : List Interface) : List Endpoint :=
  (Interface.broadcastAddresses c.networkRules interfaces).map fun a => ⟨.v4 a, c.broadcastPort⟩

end PvNet
