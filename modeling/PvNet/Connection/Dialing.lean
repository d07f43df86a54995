import PvNet.Config
import PvNet.Net.SocketError
set_option autoImplicit false

/-!
# Dialling again

An address is dialled until an attempt succeeds, until one fails for good, or until
there were as many attempts as allowed.  There is a pause between two attempts.
-/

namespace PvNet

/-- Whether another attempt may succeed where one failed like this. -/
def IoKind.isTransient (k : IoKind) : Bool :=
  k ≠ .invalidInput && k ≠ .unsupported && k ≠ .permissionDenied

/-- The system call that failed in an attempt to connect.  Of any other failure only the wording is
kept. -/
def SocketError.cause : SocketError → IoError
  | .connect _ cause | .io cause => cause
  | failure => ⟨.other, some failure.message⟩

/-- What is done to dial. -/
inductive DialStep where
  /-- The system is asked to connect to the address within a time. -/
  | attempt (address : Endpoint) (limit : Duration)
  /-- Nothing happens for a while. -/
  | pause (delay : Duration)
  deriving DecidableEq, Repr

/-- What became of dialling. -/
structure Dialing (α : Type) where
  /-- The connection, or why there is none. -/
  result : Except IoError α
  /-- What was done, in this order. -/
  steps : List DialStep

namespace Dialing

variable {α : Type}

/-- The failure when nothing was attempted. -/
def untried : IoError := ⟨.other, some "no connect attempt made"⟩

/-- Makes up to `left` attempts, of which number `i` gets `answer i` from the system.  `failed` is how
the attempt before them failed. -/
def attempts (c : ConnectorConfig) (address : Endpoint) (failed : Option IoError)
    (answer : Nat → Except IoError α) : Nat → Dialing α
  | 0 => ⟨.error (failed.getD untried), []⟩
  | left + 1 =>
    let attempt := .attempt address c.connectTimeout
    match (answer 0).mapError (.connect address) with
    | .ok a => ⟨.ok a, [attempt]⟩
    | .error (failure : SocketError) =>
      let e := failure.cause
      if e.kind.isTransient then
        let pauses := if 0 < left then [.pause c.retryDelay] else []
        let rest := attempts c address (some e) (fun i => answer (i + 1)) left
        ⟨rest.result, attempt :: pauses ++ rest.steps⟩
      else ⟨.error e, [attempt]⟩

/-- Dials an address.  No tries count as one. -/
def run (c : ConnectorConfig) (address : Endpoint) (answer : Nat → Except IoError α) : Dialing α :=
  attempts c address none answer (max c.tries 1)

end Dialing

end PvNet
