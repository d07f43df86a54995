import PvNet.Message.Basic
set_option autoImplicit false

/-!
# Messages over a stream

A stream is given by what its system calls will answer: a list of reads, or lists
of answers to writes and flushes.  Interrupted calls are made again, and so are
writes and flushes that would block.

`MessageReader.read` collects octets until a message is complete.
`MessageWriter.write` hands a message over piece by piece, in the writer's current
byte order, and then flushes.
-/

namespace PvNet

/-- What one read from a stream gives. -/
inductive StreamRead where
  /-- Octets; none at all at the end of the stream. -/
  | data (bytes : Bytes)
  /-- A failure. -/
  | failed (kind : IoKind)
  deriving DecidableEq, Repr

/-- Reads complete messages from a stream. -/
structure MessageReader where
  /-- Octets received and not yet returned as part of a message. -/
  buffer : Bytes := []
  /-- The largest payload accepted. -/
  maxPayload : Nat := Message.defaultMaxPayload
  deriving DecidableEq, Repr

namespace MessageReader

/-- The most octets asked for in one read. -/
def chunkSize : Nat := 8192

/-- How much a list of reads still holds, each read counting one and each octet one. -/
def weight : List StreamRead → Nat
  | [] => 0
  | .data bs :: reads => 1 + bs.length + weight reads
  | .failed _ :: reads => 1 + weight reads

/-- The next message, with the reader and the reads left over. -/
def read (r : MessageReader) (reads : List StreamRead) :
    Except WireError Message × MessageReader × List StreamRead :=
  match Message.decode? r.maxPayload r.buffer with
  | .error e => (.error e, r, reads)
  | .ok (some (m, rest)) => (.ok m, { r with buffer := rest }, reads)
  | .ok none =>
    match reads with
    | [] => (.error .connectionClosed, r, [])
    | .failed .interrupted :: later => read r later
    | .failed kind :: later => (.error (.io ⟨kind, none⟩), r, later)
    | .data [] :: later => (.error .connectionClosed, r, later)
    | .data (b :: bs) :: later =>
      let chunk := (b :: bs).take chunkSize
      let held := (b :: bs).drop chunkSize
      let later := if held.isEmpty then later else .data held :: later
      read { r with buffer := r.buffer ++ chunk } later
termination_by weight reads
decreasing_by
  · simp [weight]
  · simp only [weight]
    split
    · omega
    · simp only [weight, List.length_drop, List.length_cons, chunkSize]
      omega

end MessageReader

/-- What one write to a stream answers. -/
inductive StreamWrite where
  /-- So many octets are taken at most. -/
  | accepts (count : Nat)
  /-- A failure. -/
  | failed (kind : IoKind)
  deriving DecidableEq, Repr

/-- The receiving side of a stream: its future answers and what it got so far. -/
structure Sink where
  /-- The answers to the next writes; afterwards everything is taken. -/
  writes : List StreamWrite := []
  /-- The answers to the next flushes, `none` being success; afterwards every flush succeeds. -/
  flushes : List (Option IoKind) := []
  /-- The octets taken. -/
  received : Bytes := []
  /-- How many flushes succeeded. -/
  flushed : Nat := 0
  deriving DecidableEq, Repr

namespace Sink

/-- Whether a failed write or flush is simply made again. -/
def isRetried (kind : IoKind) : Bool := kind = .interrupted || kind = .wouldBlock

/-- Writes octets until all are taken or a write fails, answer by answer. -/
def putWith : Bytes → Sink → List StreamWrite → Option WireError × Sink
  | [], s, writes => (none, { s with writes })
  | b :: bs, s, [] => (none, { s with writes := [], received := s.received ++ b :: bs })
  | b :: bs, s, .failed kind :: later =>
    if isRetried kind then putWith (b :: bs) s later
    else (some (.io ⟨kind, none⟩), { s with writes := later })
  | _ :: _, s, .accepts 0 :: later => (some .connectionClosed, { s with writes := later })
  | b :: bs, s, .accepts (n + 1) :: later =>
    putWith (bs.drop n) { s with received := s.received ++ b :: bs.take n } later

/-- Writes octets until all are taken or a write fails. -/
def put (bs : Bytes) (s : Sink) : Option WireError × Sink := putWith bs s s.writes

/-- Flushes until a flush succeeds or fails for good, answer by answer. -/
def flushWith (s : Sink) : List (Option IoKind) → Option WireError × Sink
  | [] => (none, { s with flushes := [], flushed := s.flushed + 1 })
  | none :: later => (none, { s with flushes := later, flushed := s.flushed + 1 })
  | some kind :: later =>
    if isRetried kind then flushWith s later
    else (some (.io ⟨kind, none⟩), { s with flushes := later })

/-- Flushes until a flush succeeds or fails for good. -/
def flush (s : Sink) : Option WireError × Sink := flushWith s s.flushes

end Sink

/-- Writes complete messages to a stream. -/
structure MessageWriter where
  /-- The byte order of the next messages. -/
  order : ByteOrder
  /-- Whether the messages are flagged as sent by a server. -/
  fromServer : Bool
  /-- The largest payload that is sent. -/
  maxPayload : Nat := Message.defaultMaxPayload
  deriving DecidableEq, Repr

namespace MessageWriter

/-- Writes a prepared message and flushes. -/
def write (m : Message) (s : Sink) : Option WireError × Sink :=
  match m.encode with
  | .error e => (some e, s)
  | .ok bs =>
    match s.put bs with
    | (some e, s') => (some e, s')
    | (none, s') => s'.flush

/-- Writes an application message around a payload, unless the payload is too large. -/
def writeApplication (w : MessageWriter) (command : UInt8) (payload : Bytes) (s : Sink) :
    Option WireError × Sink :=
  if w.maxPayload < payload.length then
    (some (.payloadTooLarge payload.length w.maxPayload), s)
  else write (.application command w.order w.fromServer payload) s

def writeControl (w : MessageWriter) (command : UInt8) (data : UInt32) (s : Sink) :
    Option WireError × Sink :=
  write (.control command w.order w.fromServer data) s

end MessageWriter

end PvNet
