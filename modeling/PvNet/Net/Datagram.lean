import PvNet.Message.Basic
import PvNet.Net.SocketError
set_option autoImplicit false

/-!
# Datagram sockets

A socket is given by what its receives will answer and by what was sent through it.
A closed socket refuses everything.
-/

namespace PvNet

/-- A datagram and where it goes. -/
structure Outgoing where
  target : Endpoint
  bytes : Bytes
  deriving DecidableEq, Repr

/-- What one receive from a socket gives. -/
inductive Receive where
  | datagram (bytes : Bytes) (source : Endpoint)
  | failed (kind : IoKind)
  /-- The socket is shut down. -/
  | shutdown
  deriving DecidableEq, Repr

structure DatagramSocket where
  /-- The address that the socket is bound to. -/
  address : Endpoint
  /-- What the next receives give; afterwards they would block. -/
  inbox : List Receive := []
  /-- What was sent, latest last. -/
  sent : List Outgoing := []
  /-- An address to which nothing can be sent. -/
  unreachable : Option Endpoint := none
  closed : Bool := false
  deriving DecidableEq, Repr

namespace DatagramSocket

/-- How many datagrams are handled before others get their turn. -/
def maxDrain : Nat := 64

/-- Sends a datagram; the answer is why it was not sent. -/
def send (s : DatagramSocket) (d : Outgoing) : Option SocketError × DatagramSocket :=
  if s.closed then (some .shutdown, s)
  else if s.unreachable = some d.target then (some (.io ⟨.connectionRefused, none⟩), s)
  else (none, { s with sent := s.sent ++ [d] })

/-- Sends datagrams one by one and counts those that could be sent. -/
def sendAll (s : DatagramSocket) : List Outgoing → Nat × DatagramSocket
  | [] => (0, s)
  | d :: ds =>
    let (failure, s) := s.send d
    let (count, s) := s.sendAll ds
    (if failure.isNone then count + 1 else count, s)

def close (s : DatagramSocket) : DatagramSocket := { s with closed := true }

/-- Receives a datagram; longer ones are cut off. -/
def receive (s : DatagramSocket) : Except SocketError (Bytes × Endpoint) × DatagramSocket :=
  if s.closed then (.error .shutdown, s)
  else
    match s.inbox with
    | [] => (.error (.io ⟨.wouldBlock, none⟩), s)
    | .datagram bytes source :: rest =>
      (.ok (bytes.take Message.maxDatagram, source), { s with inbox := rest })
    | .failed kind :: rest => (.error (.io ⟨kind, none⟩), { s with inbox := rest })
    | .shutdown :: rest => (.error .shutdown, { s with inbox := rest })

/-- Receives up to `limit` datagrams, until a receive fails, handing each to `handle` together
with the socket.  Returns how many there were. -/
def drainUpTo {σ : Type} (handle : σ → DatagramSocket → Bytes → Endpoint → σ × DatagramSocket) :
    Nat → σ → DatagramSocket → Nat × σ × DatagramSocket
  | 0, st, s => (0, st, s)
  | limit + 1, st, s =>
    match s.receive with
    | (.ok (bytes, source), s) =>
      let (st, s) := handle st s bytes source
      let (count, st, s) := drainUpTo handle limit st s
      (count + 1, st, s)
    | (.error _, s) => (0, st, s)

/-- Receives datagrams until a receive fails, but no more than `maxDrain`. -/
def drain {σ : Type} (handle : σ → DatagramSocket → Bytes → Endpoint → σ × DatagramSocket)
    (st : σ) (s : DatagramSocket) : Nat × σ × DatagramSocket :=
  drainUpTo handle maxDrain st s

end DatagramSocket

end PvNet
