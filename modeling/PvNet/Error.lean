import PvNet.Net.SocketError
import PvNet.Number.Duration
import PvNet.Wire.Error
set_option autoImplicit false

/-!
# Failures of services and connections

A service fails because of the octets it exchanges, because of its socket, or for a
reason of its own.  `Error.message` gives the whole chain of causes.
-/

namespace PvNet

/-- Why no verified connection came about. -/
inductive ConnectFailure where
  /-- Somebody else was connecting to the same address for too long. -/
  | lockTimeout (waited : Duration)
  /-- The last attempt to open the connection failed. -/
  | connect (cause : IoError)
  /-- The peer did not answer the validation in time. -/
  | verificationTimeout (waited : Duration)
  /-- The peer refused the connection. -/
  | verificationFailed (reason : String)
  /-- The connection was closed meanwhile. -/
  | closed
  deriving DecidableEq, Repr, Inhabited

/-- The wording of a failure to connect. -/
def ConnectFailure.message : ConnectFailure → String
  | .lockTimeout waited => s!"connect lock not acquired within {waited.text}"
  | .connect cause => cause.message
  | .verificationTimeout waited => s!"verification timed out after {waited.text}"
  | .verificationFailed reason => s!"verification failed: {reason}"
  | .closed => "transport closed during connect"

/-- Why a service or a connection failed. -/
inductive Error where
  | connection (address : Endpoint) (failure : ConnectFailure)
  | socket (cause : SocketError)
  | wire (cause : WireError)
  | disconnected (reason : String)
  | timeout (waited : Duration)
  /-- The service has been closed before. -/
  | closed
  | config (reason : String)
  | canceled
  deriving DecidableEq, Repr, Inhabited

namespace Error

/-- The wording of a failure. -/
def message : Error → String
  | .connection address failure => s!"failed to connect to {address.text}: {failure.message}"
  | .socket cause => s!"transport error: {cause.message}"
  | .wire cause => s!"codec error: {cause.message}"
  | .disconnected reason => s!"peer disconnected: {reason}"
  | .timeout waited => s!"timed out after {waited.text}"
  | .closed => "already closed"
  | .config reason => s!"invalid configuration: {reason}"
  | .canceled => "canceled"

/-- Whether time ran out, so that the whole operation may be tried again. -/
def isTimeout : Error → Bool
  | .timeout _ | .connection _ (.lockTimeout _) | .connection _ (.verificationTimeout _) => true
  | _ => false

/-- Whether the received octets alone are to blame. -/
def isDecode : Error → Bool
  | .wire cause => cause.isDecode
  | _ => false

end Error

end PvNet
