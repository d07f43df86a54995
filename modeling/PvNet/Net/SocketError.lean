import PvNet.Net.AddressText
import PvNet.Net.IoError
set_option autoImplicit false

/-!
# Failures of sockets

What a socket was asked to do when a system call failed, or why it was not tried.
-/

namespace PvNet

/-- Why a socket could not do what it was asked to do. -/
inductive SocketError where
  | bind (address : Endpoint) (cause : IoError)
  | connect (address : Endpoint) (cause : IoError)
  | accept (cause : IoError)
  | multicast (group : Ipv4) (cause : IoError)
  | unsupported (what : String)
  | io (cause : IoError)
  /-- The socket is closed. -/
  | shutdown
  deriving DecidableEq, Repr, Inhabited

namespace SocketError

/-- The wording of a failure. -/
def message : SocketError → String
  | .bind address cause => s!"failed to bind to {address.text}: {cause.message}"
  | .connect address cause => s!"failed to connect to {address.text}: {cause.message}"
  | .accept cause => s!"failed to accept connection: {cause.message}"
  | .multicast group cause => s!"multicast operation on group {group.text} failed: {cause.message}"
  | .unsupported what => s!"unsupported: {what}"
  | .io cause => s!"transport I/O error: {cause.message}"
  | .shutdown => "transport shut down"

/-- The kind of the failed system call, if there was one. -/
def kind? : SocketError → Option IoKind
  | .bind _ cause | .connect _ cause | .accept cause | .multicast _ cause | .io cause =>
    some cause.kind
  | .unsupported _ | .shutdown => none

end SocketError

end PvNet
