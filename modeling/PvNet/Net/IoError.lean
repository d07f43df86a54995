set_option autoImplicit false

/-!
# Failures of the underlying stream or socket

A failed system call is known by its kind.  It prints either the text that the
system gave for it or, when there is none, the name of its kind.
-/

namespace PvNet

/-- The kinds of system failure that the library tells apart. -/
inductive IoKind where
  | interrupted
  | wouldBlock
  | timedOut
  | connectionRefused
  | connectionReset
  | connectionAborted
  | brokenPipe
  | permissionDenied
  | addrInUse
  | addrNotAvailable
  | notFound
  | notConnected
  | invalidInput
  | unsupported
  | unexpectedEof
  | other
  deriving DecidableEq, Repr, Inhabited

namespace IoKind

/-- All kinds. -/
def all : List IoKind :=
  [ interrupted, wouldBlock, timedOut, connectionRefused, connectionReset, connectionAborted,
    brokenPipe, permissionDenied, addrInUse, addrNotAvailable, notFound, notConnected,
    invalidInput, unsupported, unexpectedEof, other ]

/-- What a failure of this kind prints when the system gave no text for it. -/
def text : IoKind → String
  | .interrupted => "operation interrupted"
  | .wouldBlock => "operation would block"
  | .timedOut => "timed out"
  | .connectionRefused => "connection refused"
  | .connectionReset => "connection reset"
  | .connectionAborted => "connection aborted"
  | .brokenPipe => "broken pipe"
  | .permissionDenied => "permission denied"
  | .addrInUse => "address in use"
  | .addrNotAvailable => "address not available"
  | .notFound => "entity not found"
  | .notConnected => "not connected"
  | .invalidInput => "invalid input parameter"
  | .unsupported => "unsupported"
  | .unexpectedEof => "unexpected end of file"
  | .other => "other error"

end IoKind

/-- A failed system call. -/
structure IoError where
  /-- What went wrong, as far as the library distinguishes it. -/
  kind : IoKind
  /-- The text that the system or the caller gave, if any. -/
  detail : Option String := none
  deriving DecidableEq, Repr, Inhabited

namespace IoError

/-- What the failure prints. -/
def message (e : IoError) : String := e.detail.getD e.kind.text

end IoError

end PvNet
