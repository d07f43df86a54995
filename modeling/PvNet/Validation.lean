import PvNet.Config
import PvNet.Message.Header
import PvNet.Status
import PvNet.Wire.Decode
set_option autoImplicit false

/-!
# Connection validation

When a connection opens, the server tells its byte order and sends a `Greeting`; the
client answers with a `Reply`; the server ends the validation with a status.  The
functions here decide what each end says and what it learns about the other.
-/

namespace PvNet

/-- What a server says first. -/
structure Greeting where
  receiveBufferSize : UInt32
  introspectionCapacity : UInt16
  /-- The authentication plugins that the server accepts. -/
  authPlugins : List String
  deriving DecidableEq, Repr, Inhabited

/-- What a client answers. -/
structure Reply where
  receiveBufferSize : UInt32
  introspectionCapacity : UInt16
  qos : UInt16
  /-- The authentication plugin that the client chose. -/
  authPlugin : String
  deriving DecidableEq, Repr, Inhabited

/-- What one end knows about the other. -/
structure PeerInfo where
  revision : UInt8 := Header.revision
  receiveBufferSize : UInt32 := 16384
  introspectionCapacity : UInt16 := 0x7FFF
  deriving DecidableEq, Repr, Inhabited

/-- The plugin that carries no credentials. -/
def anonymousPlugin : String := "anonymous"

namespace Greeting

/-- Writes a greeting. -/
def encode (o : ByteOrder) (g : Greeting) : Bytes :=
  Wire.word32 o g.receiveBufferSize ++ Wire.word16 o g.introspectionCapacity ++
    Wire.length o g.authPlugins.length ++ g.authPlugins.flatMap (Wire.string o)

/-- Reads a greeting. -/
def decode {σ : Type} : Decoder σ Greeting := do
  let receiveBufferSize ← Decoder.word32
  let introspectionCapacity ← Decoder.word16
  let authPlugins ← Decoder.times (← Decoder.length) Decoder.string
  return { receiveBufferSize, introspectionCapacity, authPlugins }

/-- The greeting of a server: it offers its own plugin. -/
def ofConfig (c : TransportConfig) : Greeting :=
  ⟨c.receiveBufferSize, c.introspectionCapacity, [c.authPlugin]⟩

/-- What a client learns from a greeting. -/
def peerInfo (g : Greeting) (revision : UInt8) : PeerInfo :=
  ⟨revision, g.receiveBufferSize, g.introspectionCapacity⟩

end Greeting

namespace Reply

/-- Writes a reply. -/
def encode (o : ByteOrder) (r : Reply) : Bytes :=
  Wire.word32 o r.receiveBufferSize ++ Wire.word16 o r.introspectionCapacity ++
    Wire.word16 o r.qos ++ Wire.string o r.authPlugin

/-- Reads a reply. -/
def decode {σ : Type} : Decoder σ Reply := do
  let receiveBufferSize ← Decoder.word32
  let introspectionCapacity ← Decoder.word16
  let qos ← Decoder.word16
  let authPlugin ← Decoder.string
  return { receiveBufferSize, introspectionCapacity, qos, authPlugin }

/-- The reply of a client: it uses its own plugin if that is offered or nothing is, and no
credentials otherwise. -/
def toGreeting (g : Greeting) (c : TransportConfig) : Reply :=
  { receiveBufferSize := c.receiveBufferSize
    introspectionCapacity := c.introspectionCapacity
    qos := 0
    authPlugin :=
      if g.authPlugins.isEmpty || g.authPlugins.contains c.authPlugin then c.authPlugin
      else anonymousPlugin }

/-- The verdict of a server: it accepts its own plugin and a client without credentials. -/
def check (r : Reply) (c : TransportConfig) : Status :=
  if r.authPlugin = c.authPlugin ∨ r.authPlugin = anonymousPlugin then .ok
  else .error s!"unsupported authentication plugin '{r.authPlugin}'"

/-- What a server learns from a reply. -/
def peerInfo (r : Reply) (revision : UInt8) : PeerInfo :=
  ⟨revision, r.receiveBufferSize, r.introspectionCapacity⟩

end Reply

end PvNet
