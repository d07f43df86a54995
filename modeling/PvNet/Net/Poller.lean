import PvNet.Net.SocketError
import PvNet.Net.Stream
import PvNet.Number.Duration
import PvNet.Table
set_option autoImplicit false

/-!
# Waiting for readiness

A poller keeps registrations of descriptors.  Registrations and removals are queued;
every poll first applies the queue, in order, then waits for readiness and makes one
call per registration and kind of readiness.  After a poll that made calls the next
five polls do not wait.  Which descriptors are valid and what the host answers to a
wait comes from outside.

A poll takes the queue when it begins.  What is added or removed while it goes on, as
the calls that it makes may do, is as if it were done after it.
-/

namespace PvNet

/-- Which readiness a registration asks for. -/
structure Interest where
  readable : Bool
  writable : Bool
  deriving DecidableEq, Repr, Inhabited

/-- What the host reports about a descriptor. -/
structure Readiness where
  readable : Bool := false
  writable : Bool := false
  /-- Reported whether or not somebody asked for it. -/
  hungUp : Bool := false
  /-- The descriptor is not open any more. -/
  invalid : Bool := false
  deriving DecidableEq, Repr, Inhabited

/-- The readiness of the first end of a pair: it can always be written to, and there is something to
read when octets wait or the peer is gone. -/
def Readiness.ofPair (p : StreamPair) : Readiness where
  readable := !p.a.inbox.isEmpty || p.b.shut
  writable := true
  hungUp := p.b.shut

/-- The key of a registration.  Keys are counted up from one: the first `2 ^ 64 - 1` are those of a
counter of 64 bits. -/
abbrev PollKey : Type := Nat

structure Registration where
  descriptor : Int
  interest : Interest
  deriving DecidableEq, Repr, Inhabited

/-- A change of the registrations that has not been applied yet. -/
inductive PollChange where
  | add (key : PollKey) (registration : Registration)
  | remove (key : PollKey)
  deriving DecidableEq, Repr

/-- A call that a poll makes. -/
inductive PollCall where
  /-- The outcome of a registration; these are not counted. -/
  | registered (key : PollKey) (failure : Option SocketError)
  | readable (key : PollKey)
  | writable (key : PollKey)
  deriving DecidableEq, Repr

/-- What the host answers to a wait. -/
inductive WaitAnswer where
  /-- What is ready, by registration; perhaps nothing. -/
  | ready (readiness : PollKey → Readiness)
  | failed (cause : IoError)

/-- What is reported about a registration. -/
def WaitAnswer.reported : WaitAnswer → PollKey → Readiness
  | ready readiness, key => readiness key
  | failed _, _ => {}

/-- A readiness loop. -/
structure Poller where
  /-- The changes to apply, earliest first. -/
  queue : List PollChange := []
  entries : Table PollKey Registration := .empty
  /-- The next key. -/
  next : PollKey := 1
  /-- How many polls do not wait. -/
  throttle : Nat := 0

namespace Poller

instance : Inhabited Poller := ⟨{}⟩

/-- How many polls do not wait after one that made calls. -/
def throttlePolls : Nat := 5

/-- Queues a registration. -/
def add (p : Poller) (descriptor : Int) (interest : Interest) : PollKey × Poller :=
  (p.next,
    { p with
      queue := p.queue ++ [.add p.next ⟨descriptor, interest⟩]
      next := p.next + 1 })

def remove (p : Poller) (key : PollKey) : Poller := { p with queue := p.queue ++ [.remove key] }

/-- Why a descriptor cannot be registered, if so. -/
def rejection? (isOpen : Int → Bool) (descriptor : Int) : Option SocketError :=
  if descriptor < 0 then some (.unsupported s!"invalid descriptor {descriptor}")
  else if isOpen descriptor then none
  else some (.io ⟨.other, some "Bad file descriptor (os error 9)"⟩)

/-- Applies changes in order. -/
def applyChanges (isOpen : Int → Bool) :
    List PollChange → Table PollKey Registration → List PollCall × Table PollKey Registration
  | [], entries => ([], entries)
  | .remove key :: changes, entries => applyChanges isOpen changes (entries.erase key)
  | .add key r :: changes, entries =>
    let failure := rejection? isOpen r.descriptor
    let entries := if failure.isNone then entries.put key r else entries
    let (calls, entries) := applyChanges isOpen changes entries
    (.registered key failure :: calls, entries)

/-- The registrations once the queue is applied, and the calls that tell of it. -/
def applied (p : Poller) (isOpen : Int → Bool) : List PollCall × Table PollKey Registration :=
  applyChanges isOpen p.queue p.entries

/-- The longest time that a wait can be limited to, in milliseconds. -/
def longestWait : Nat := 2147483647

/-- A limit of a wait in whole milliseconds; without a limit it is negative. -/
def limitOf : Option Duration → Int
  | none => -1
  | some t => min (t.nanoseconds / 1000000) longestWait

/-- How long the next wait may take. -/
def waitLimit (p : Poller) (timeout : Option Duration) : Int :=
  if p.throttle = 0 then limitOf timeout else 0

/-- What a registration sees of the readiness of its descriptor. -/
def visible (r : Registration) (ready : Readiness) : Readiness :=
  { ready with
    readable := ready.readable && r.interest.readable
    writable := ready.writable && r.interest.writable }

/-- The answer of a host to a wait for these registrations, by what is ready. -/
def answer (ready : Int → Readiness) (entries : Table PollKey Registration) : WaitAnswer :=
  .ready fun key =>
    match entries.get? key with
    | none => {}
    | some r => visible r (ready r.descriptor)

/-- The calls for one registration. -/
def callsFor (key : PollKey) (seen : Readiness) : List PollCall :=
  if seen.invalid then []
  else
    (if seen.readable || seen.hungUp then [.readable key] else []) ++
      if seen.writable then [.writable key] else []

/-- The calls for all registrations. -/
def dispatch (entries : Table PollKey Registration) (answer : WaitAnswer) : List PollCall :=
  entries.keys.flatMap fun key => callsFor key (answer.reported key)

/-- What a poll did. -/
structure Polled where
  poller : Poller
  /-- The calls, registrations first. -/
  calls : List PollCall
  /-- How many calls were made about readiness, or why the wait failed. -/
  result : Except SocketError Nat
  /-- How long the wait was allowed to take, in milliseconds. -/
  limit : Int

/-- Applies the queue, waits, and makes the calls that the answer of the host asks for. -/
def poll (p : Poller) (isOpen : Int → Bool) (timeout : Option Duration)
    (host : Table PollKey Registration → WaitAnswer) : Polled :=
  let (registered, entries) := p.applied isOpen
  let answer := host entries
  let calls := dispatch entries answer
  { poller :=
      { p with
        queue := []
        entries := entries.filter fun key _ => !(answer.reported key).invalid
        throttle := if calls.isEmpty then p.throttle - 1 else throttlePolls }
    calls := registered ++ calls
    result :=
      match answer with
      | .ready _ => .ok calls.length
      | .failed cause => if cause.kind = .interrupted then .ok 0 else .error (.io cause)
    limit := p.waitLimit timeout }

end Poller

end PvNet
