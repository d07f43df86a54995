import PvNet.Net.IoError
import PvNet.Net.SocketError
import PvNet.Wire.Bytes
set_option autoImplicit false

/-!
# Streams

The two ends of a connection.  What one end writes waits at the other one until it is
read; an end that is shut down writes nothing more, and its peer reads to the end of
what is there.
-/

namespace PvNet

/-- One end of a connection. -/
structure StreamEnd where
  noDelay : Bool := false
  keepAlive : Bool := false
  /-- The octets that wait to be read. -/
  inbox : Bytes := []
  /-- Whether this end is shut down. -/
  shut : Bool := false
  /-- Whether the peer has refused octets. -/
  reset : Bool := false
  /-- Whether octets came after this end was shut down, which its next operation reports. -/
  disturbed : Bool := false
  deriving DecidableEq, Repr, Inhabited

/-- The two ends of a connection. -/
structure StreamPair where
  a : StreamEnd := {}
  b : StreamEnd := {}
  deriving DecidableEq, Repr, Inhabited

namespace StreamEnd

/-- Applies the options of every connection: no delay, and a check whether the peer is there. -/
def configure (e : StreamEnd) : StreamEnd := { e with noDelay := true, keepAlive := true }

end StreamEnd

namespace StreamPair

/-- The pair with its ends exchanged. -/
def swap (p : StreamPair) : StreamPair := ⟨p.b, p.a⟩

/-- End `a` takes up to `n` octets of those that wait. -/
def taken (p : StreamPair) (n : Nat) : Except IoKind Bytes × StreamPair :=
  (.ok (p.a.inbox.take n), { p with a := { p.a with inbox := p.a.inbox.drop n } })

/-- End `a` reports what came after it was shut down. -/
def report {α : Type} (p : StreamPair) : Except IoKind α × StreamPair :=
  (.error .connectionReset, { p with a := { p.a with disturbed := false, inbox := [] } })

/-- End `a` writes.  What reaches an end that is shut down disturbs it and is refused. -/
def write (p : StreamPair) (bytes : Bytes) : Except IoKind Nat × StreamPair :=
  if p.a.disturbed then p.report
  else if p.a.shut ∨ p.a.reset then (.error .brokenPipe, p)
  else if p.b.shut then
    let refused := !bytes.isEmpty
    (.ok bytes.length,
      ⟨{ p.a with reset := refused }, { p.b with disturbed := p.b.disturbed || refused }⟩)
  else (.ok bytes.length, { p with b := { p.b with inbox := p.b.inbox ++ bytes } })

/-- End `a` reads `n` octets, or fewer at the end of the stream. -/
def read (p : StreamPair) (n : Nat) : Except IoKind Bytes × StreamPair :=
  if n ≤ p.a.inbox.length then p.taken n
  else if p.a.disturbed then p.report
  else if p.a.shut ∨ p.b.shut then p.taken n
  else (.error .wouldBlock, { p with a := { p.a with inbox := [] } })

/-- End `a` is shut down. -/
def shutdown (p : StreamPair) : StreamPair := { p with a := { p.a with shut := true } }

end StreamPair

end PvNet
