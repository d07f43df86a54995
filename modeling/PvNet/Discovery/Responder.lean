import PvNet.Discovery.Search
import PvNet.Message.Command
import PvNet.Net.Datagram
set_option autoImplicit false

/-!
# Answering searches

A server answers every search for channels that it hosts.  The answer names the
wildcard address, so that the client takes the address it comes from.  A datagram
that is not made of whole messages is dropped as a whole; other messages, and
searches that cannot be read, are skipped.
-/

namespace PvNet

/-- What a server answers searches with. -/
structure Responder where
  guid : Guid
  /-- The port of connections. -/
  port : UInt16
  /-- Whether a channel is hosted. -/
  hosts : String → Bool

namespace Responder

/-- The messages of a datagram, none if it is malformed. -/
def messages (datagram : Bytes) : List Message := (Message.ofDatagram datagram).toOption.getD []

/-- Where the answer to a request from `source` goes: the wildcard address stands for the address
of the source, and port 0 for its port. -/
def target (r : SearchRequest) (source : Endpoint) : Endpoint :=
  { ip := (r.replyTo.resolve source).ip
    port := if r.replyTo.port = 0 then source.port else r.replyTo.port }

/-- The response to a request, unless the client cannot connect or no channel is hosted. -/
def response? (s : Responder) (r : SearchRequest) : Option SearchResponse :=
  let cids := (r.channels.filter fun e => s.hosts e.name).map (·.cid)
  if !r.wantsTcp ∨ cids.isEmpty then none
  else some ⟨s.guid, r.sequence, .any s.port, tcpProtocol, true, cids⟩

/-- The datagram of a response, unless the response cannot be written. -/
def frame? (r : SearchResponse) : Option Bytes :=
  match (r.encode .big).toExcept with
  | .ok payload => (Message.application Command.searchResponse .big true payload).encode.toOption
  | .error _ => none

def answer? (s : Responder) (source : Endpoint) (m : Message) : Option Outgoing := do
  if !m.isApplication Command.search then none
  else
    let r ← (m.read SearchRequest.decode).toOption
    let bytes ← frame? (← s.response? r)
    return ⟨target r source, bytes⟩

def answers (s : Responder) (datagram : Bytes) (source : Endpoint) : List Outgoing :=
  (messages datagram).filterMap (s.answer? source)

/-- Answers a datagram through a socket.  Returns how many answers could be sent. -/
def handle (s : Responder) (socket : DatagramSocket) (datagram : Bytes) (source : Endpoint) :
    Nat × DatagramSocket :=
  socket.sendAll (s.answers datagram source)

/-- Answers the datagrams that wait at a socket.  Returns how many there were. -/
def receive (s : Responder) (socket : DatagramSocket) : Nat × DatagramSocket :=
  let (count, _, socket) :=
    socket.drain (fun () socket bytes source => ((), (s.handle socket bytes source).2)) ()
  (count, socket)

end Responder

end PvNet
