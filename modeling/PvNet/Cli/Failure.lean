import PvNet.Error
set_option autoImplicit false

/-!
# Failures of commands

A command that fails prints one line and ends with a code that says what kind of
failure it was.
-/

namespace PvNet.Cli

/-- The code with which a program ends. -/
inductive ExitCode where
  | success
  | failure
  /-- The command line is not one that the program knows. -/
  | misuse
  /-- A local socket could not be used. -/
  | transport
  /-- A peer sent invalid data. -/
  | invalidData
  /-- A time is beyond what the program can represent. -/
  | aborted
  /-- The value of an argument or of an environment variable is wrong. -/
  | usage
  | timeout
  | internal
  deriving DecidableEq, Repr, Inhabited

def ExitCode.number : ExitCode → Nat
  | .success => 0
  | .failure => 1
  | .misuse => 2
  | .transport => 3
  | .invalidData => 60
  | .usage => 64
  | .aborted => 101
  | .timeout => 124
  | .internal => 125

/-- How a command failed. -/
structure Failure where
  code : ExitCode
  message : String
  deriving DecidableEq, Repr, Inhabited

namespace Failure

/-- The code for a failed system call. -/
def codeOfIo : IoKind → ExitCode
  | .timedOut | .wouldBlock => .timeout
  | .connectionRefused | .connectionReset => .failure
  | .permissionDenied | .addrInUse | .addrNotAvailable => .transport
  | _ => .internal

/-- A failed system call. -/
def ofIo (context : String) (e : IoError) : Failure :=
  ⟨codeOfIo e.kind, s!"{context}: {e.message}"⟩

/-- A failed socket; what it was asked to do is left to the context. -/
def ofSocket (context : String) : SocketError → Failure
  | .bind _ cause | .connect _ cause | .accept cause | .io cause => ofIo context cause
  | e => ⟨.transport, s!"{context}: {e.message}"⟩

/-- A failure to write or read octets. -/
def ofWire (context : String) : WireError → Failure
  | .io cause => ofIo context cause
  | .connectionClosed => ⟨.failure, s!"{context}: {WireError.connectionClosed.message}"⟩
  | e => ⟨if e.isDecode then .invalidData else .internal, s!"{context}: {e.message}"⟩

/-- A failed service or connection. -/
def ofError (context : String) : Error → Failure
  | .socket cause => ofSocket context cause
  | .wire cause => ofWire context cause
  | .connection address (.connect cause) => ofIo s!"{context}: {address.text}" cause
  | e => ⟨code e, s!"{context}: {e.message}"⟩
where
  /-- The code for a failure without a failed system call. -/
  code (e : Error) : ExitCode :=
    if e.isTimeout then .timeout
    else
      match e with
      | .connection .. | .disconnected _ => .failure
      | .config _ => .usage
      | _ => .internal

end Failure

end PvNet.Cli
