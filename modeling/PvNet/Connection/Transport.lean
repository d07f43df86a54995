import PvNet.Connection.Composer
import PvNet.Error
import PvNet.Message.Command
import PvNet.PeriodicTask
import PvNet.Table
import PvNet.Validation
set_option autoImplicit false

/-!
# Connections

A transport is one end of a connection.  It validates the connection, answers echoes,
follows the byte order of the server and hands every other message to its handler.
Clients hold a transport; each is told once when it closes.

A transport has a receiver and a sender, which work beside whoever uses it.  The receiver
takes in one message after the other (`take`), and the answer to it is queued.  The sender
picks what is first in the queue and composes it then (`pick`, `compose`).  Closing stops
neither of them at once: what has come in before is still taken in, and what the sender has
in hand is still composed, although nothing can be queued or sent any more.

`receive` and the operations of holders that send run until nothing is queued any more.
-/

namespace PvNet

/-- Which end of a connection a transport is. -/
inductive Role where
  | client
  | server
  deriving DecidableEq, Repr, Inhabited

/-- How far the validation of a connection has come. -/
inductive Verification where
  | pending
  | verified
  | failed (reason : String)
  deriving DecidableEq, Repr, Inhabited

/-- A client that holds a transport. -/
structure Holder where
  /-- The identity under which it holds; a holder takes the place of another one with the same. -/
  id : UInt64
  /-- Tells apart holders of one identity. -/
  instanceNumber : Nat := 0
  deriving DecidableEq, Repr, Inhabited

/-- What a transport tells others. -/
inductive TransportEvent where
  /-- The handler is given a message. -/
  | message (m : Message)
  /-- A holder is told that the peer was replaced. -/
  | changed (holder : Holder)
  /-- A holder is told that the transport closed. -/
  | closed (holder : Holder)
  deriving DecidableEq, Repr

/-- What a transport sends and tells. -/
structure Activity where
  sent : List Message := []
  events : List TransportEvent := []
  deriving DecidableEq, Repr

namespace Activity

/-- One activity and then another. -/
def append (a b : Activity) : Activity := ⟨a.sent ++ b.sent, a.events ++ b.events⟩

instance : Append Activity := ⟨append⟩

def octets (a : Activity) : Bytes := a.sent.flatMap Message.octets

/-- The messages that the handler is given. -/
def messages (a : Activity) : List Message :=
  a.events.filterMap fun
    | .message m => some m
    | .changed _ | .closed _ => none

/-- The holders that are told something, and whether it is that the transport closed; in the order
of their identities. -/
def notices (a : Activity) : List (Holder × Bool) :=
  (a.events.filterMap fun
    | .message _ => none
    | .changed h => some (h, false)
    | .closed h => some (h, true)).mergeSort fun x y => x.1.id ≤ y.1.id

end Activity

/-- One end of a connection. -/
structure Transport where
  role : Role
  /-- The address of the peer. -/
  remote : Endpoint
  priority : Int16
  config : TransportConfig
  /-- Takes a message that the transport does not consume, and says whether it is a good one. -/
  handler : Option (Message → Bool)
  /-- The byte order of what is sent. -/
  order : ByteOrder
  verification : Verification := .pending
  /-- What is known about the peer. -/
  peer : PeerInfo := {}
  holders : Table UInt64 Holder := .empty
  /-- The senders whose turn has not come yet. -/
  queue : List Script := []
  /-- The descriptors that the peer knows by number. -/
  sentTypes : SentTypes
  /-- The descriptors that the peer has numbered. -/
  knownTypes : KnownTypes := {}
  /-- The octets of a message that is not complete yet. -/
  buffer : Bytes := []
  /-- When the last message came. -/
  lastActivity : Instant := 0
  closed : Bool := false
  /-- What the sender has picked from the queue and not composed yet. -/
  inHand : Option Script := none
  /-- Whether the receiver has given up. -/
  stopped : Bool := false

namespace Transport

/-! ## Senders of its own -/

/-- Tells the byte order and greets. -/
def greetingScript (g : Greeting) : Script :=
  [.control Command.setByteOrder 0, .start Command.validation, .write fun o => g.encode o, .finish]

/-- Replies to a greeting. -/
def replyScript (r : Reply) : Script :=
  [.start Command.validation, .write fun o => r.encode o, .finish]

/-- Tells the outcome of the validation. -/
def validatedScript (s : Status) : Script :=
  [.start Command.validated, .write fun o => s.encode o, .finish]

/-- Sends a control message. -/
def controlScript (command : UInt8) (data : UInt32) : Script := [.control command data, .finish]

/-- Sends an echo. -/
def echoScript (payload : Bytes) : Script :=
  [.start Command.echo, .write fun _ => payload, .finish]

/-! ## Opening and closing -/

def fresh (role : Role) (remote : Endpoint) (priority : Int16) (config : TransportConfig)
    (handler : Option (Message → Bool)) : Transport where
  role
  remote
  priority
  config
  handler
  order := match role with
    | .client => .big
    | .server => config.order
  sentTypes := .withCapacity config.introspectionCapacity.toNat

/-- The client's end of a new connection; it waits for the greeting. -/
def client (remote : Endpoint) (priority : Int16) (config : TransportConfig)
    (handler : Option (Message → Bool)) : Transport :=
  fresh .client remote priority config handler

/-- The server's end of a new connection, with the greeting queued. -/
def server (remote : Endpoint) (config : TransportConfig)
    (handler : Option (Message → Bool)) : Transport :=
  { fresh .server remote 0 config handler with queue := [greetingScript (.ofConfig config)] }

/-- Closes the transport, if it is open, and tells its holders. -/
def close (t : Transport) : Activity × Transport :=
  if t.closed then ({}, t)
  else
    ({ events := t.holders.values.map .closed },
      { t with
        closed := true
        queue := []
        sentTypes := t.sentTypes.clear
        knownTypes := t.knownTypes.clear
        holders := .empty })

/-- The receiver gives up, and with that the transport closes. -/
def stop (t : Transport) : Activity × Transport := (t.close.1, { t.close.2 with stopped := true })

/-- The peer ends the connection, if it has not ended yet. -/
def hangUp (t : Transport) : Activity × Transport := if t.closed then ({}, t) else t.stop

/-- Whether what has come in is still taken in: as long as the transport is open, and after that
until the receiver gives up. -/
def listens (t : Transport) : Bool := !(t.closed && t.stopped)

/-! ## Sending -/

/-- Appends a sender to the queue. -/
def push (t : Transport) (script : Script) : Transport := { t with queue := t.queue ++ [script] }

/-- Queues a sender, unless the transport is closed. -/
def enqueue (t : Transport) (script : Script) : Except Error Transport :=
  if t.closed then .error .closed else .ok (t.push script)

/-- What becomes of a script that is composed now. -/
def composed (t : Transport) (script : Script) : Script.Result :=
  script.run t.order (t.role = .server) t.sentTypes

/-- The sender picks what is first in the queue, if it has nothing in hand. -/
def pick (t : Transport) : Transport :=
  if t.closed then t
  else
    match t.inHand, t.queue with
    | none, script :: scripts => { t with inHand := some script, queue := scripts }
    | _, _ => t

/-- The sender composes what it has in hand and sends it.  A script that fails closes the transport;
on one that is closed nothing can be sent. -/
def compose (t : Transport) : Activity × Transport :=
  match t.inHand with
  | none => ({}, t)
  | some script =>
    let r := t.composed script
    let t := { t with inHand := none, sentTypes := r.types }
    match r.messages with
    | none => t.close
    | some sent => (if t.closed then {} else { sent }, t)

/-- The sender has a turn: it composes and sends one script. -/
def turn (t : Transport) : Activity × Transport := t.pick.compose

/-- The sender has some turns. -/
def turns : Nat → Transport → Activity × Transport
  | 0, t => ({}, t)
  | n + 1, t =>
    let (first, t) := t.turn
    let (rest, t) := turns n t
    (first ++ rest, t)

/-- What the sender has still to compose. -/
def waiting (t : Transport) : List Script := t.inHand.toList ++ t.queue

/-- Sends what is waiting. -/
def flush (t : Transport) : Activity × Transport := turns t.waiting.length t

/-- Queues a sender and sends. -/
def send (t : Transport) (script : Script) : Except Error (Activity × Transport) :=
  (t.enqueue script).map flush

/-- Sends an echo; the answer shows that the peer is there. -/
def echo (t : Transport) : Except Error (Activity × Transport) := t.send (echoScript [])

/-! ## Validation -/

/-- Records the outcome of the validation. -/
def verified (t : Transport) (s : Status) : Transport :=
  { t with verification := if s.isSuccess then .verified else .failed s.message }

/-- Whether the validation succeeded. -/
def isVerified (t : Transport) : Bool := t.verification = .verified

/-- Why the connection is not verified after a wait in which nothing more happens, if it is not. -/
def failure? (t : Transport) (waited : Duration) : Option ConnectFailure :=
  match t.verification with
  | .verified => none
  | .failed reason => some (.verificationFailed reason)
  | .pending => some (if t.closed then .closed else .verificationTimeout waited)

/-! ## Receiving -/

/-- What a message does. -/
structure Dispatch where
  transport : Transport
  events : List TransportEvent := []
  /-- Whether the receiver can go on. -/
  good : Bool := true

/-- Queues an answer.  On a closed transport there is no place for it, and the receiver cannot go
on. -/
def answer (t : Transport) (script : Script) : Dispatch :=
  match t.enqueue script with
  | .ok t => { transport := t }
  | .error _ => { transport := t, good := false }

/-- Handles a control message. -/
def dispatchControl (t : Transport) (m : Message) : Dispatch :=
  if m.command = Command.setByteOrder ∧ t.role = .client then
    { transport := { t with order := m.order } }
  else if m.command = Command.echoRequest then
    t.answer (controlScript Command.echoResponse m.header.payloadSize)
  else { transport := t }

/-- The client's part in the validation: it learns from the greeting and replies. -/
def dispatchGreeting (t : Transport) (m : Message) : Dispatch :=
  match m.read Greeting.decode with
  | .error _ => { transport := t, good := false }
  | .ok g =>
    { t with peer := g.peerInfo m.header.version }.answer (replyScript (.toGreeting g t.config))

/-- The server's part in the validation: it learns from the reply and gives its verdict, which it
notes once it is queued. -/
def dispatchReply (t : Transport) (m : Message) : Dispatch :=
  match m.read Reply.decode with
  | .error _ => { transport := t, good := false }
  | .ok r =>
    let status := r.check t.config
    let d := { t with peer := r.peerInfo m.header.version }.answer (validatedScript status)
    if d.good then { d with transport := d.transport.verified status } else d

/-- The client takes note of the verdict. -/
def dispatchVerdict (t : Transport) (m : Message) : Dispatch :=
  match m.read Status.decode with
  | .error _ => { transport := t, good := false }
  | .ok status => { transport := t.verified status }

/-- Hands a message to the handler. -/
def dispatchOther (t : Transport) (m : Message) : Dispatch :=
  match t.handler with
  | none => { transport := t }
  | some accepts => { transport := t, events := [.message m], good := accepts m }

/-- Handles a message. -/
def dispatch (t : Transport) (m : Message) : Dispatch :=
  if m.isControl then t.dispatchControl m
  else if m.command = Command.validation then
    match t.role with
    | .client => t.dispatchGreeting m
    | .server => t.dispatchReply m
  else if m.command = Command.validated ∧ t.role = .client then t.dispatchVerdict m
  else if m.command = Command.echo then
    if m.header.isFromServer then { transport := t } else t.answer (echoScript m.payload)
  else t.dispatchOther m

/-- Handles a message that comes in at some time. -/
def dispatchAt (t : Transport) (now : Instant) (m : Message) : Dispatch :=
  { t with lastActivity := now }.dispatch m

/-- The receiver takes in a message; the answer to it waits in the queue.  At a bad message it gives
up. -/
def take (t : Transport) (now : Instant) (m : Message) : Activity × Transport :=
  if t.listens then
    let d := t.dispatchAt now m
    if d.good then ({ events := d.events }, d.transport)
    else (({ events := d.events } : Activity) ++ d.transport.stop.1, d.transport.stop.2)
  else ({}, t)

/-- Receives a message and answers it. -/
def receive (t : Transport) (now : Instant) (m : Message) : Activity × Transport :=
  let (first, t) := t.take now m
  let (rest, t) := t.flush
  (first ++ rest, t)

/-- Receives messages one after the other. -/
def receiveAll (now : Instant) : List Message → Transport → Activity × Transport
  | [], t => ({}, t)
  | m :: ms, t =>
    let (first, t) := t.receive now m
    let (rest, t) := receiveAll now ms t
    (first ++ rest, t)

/-- Receives octets; at malformed ones the receiver gives up, after the messages in front of
them. -/
def receiveOctets (t : Transport) (now : Instant) (octets : Bytes) : Activity × Transport :=
  if t.listens then
    let d := Message.drain t.config.maxPayload (t.buffer ++ octets)
    let (first, t) := receiveAll now d.messages { t with buffer := d.buffer }
    let (rest, t) := if d.failure.isSome then t.stop else ({}, t)
    (first ++ rest, t)
  else ({}, t)

/-- Receives the last octets of the peer, which then ends the connection. -/
def receiveLast (t : Transport) (now : Instant) (octets : Bytes) : Activity × Transport :=
  let (first, t) := t.receiveOctets now octets
  let (rest, t) := t.hangUp
  (first ++ rest, t)

/-- Reads a descriptor that the peer has sent. -/
def readField (t : Transport) (o : ByteOrder) (octets : Bytes) :
    Except WireError (Option Field) × Transport :=
  let r := Field.decode? o t.knownTypes octets
  (r.result, { t with knownTypes := r.state })

/-! ## Holders -/

/-- Adds a holder; says whether the transport is open. -/
def acquire (t : Transport) (h : Holder) : Bool × Transport :=
  if t.closed then (false, t) else (true, { t with holders := t.holders.put h.id h })

/-- Drops a holder; a client's end closes when no holder is left. -/
def release (t : Transport) (id : UInt64) : Activity × Transport :=
  let t := { t with holders := t.holders.erase id }
  if t.holders.isEmpty ∧ t.role = .client then t.close else ({}, t)

/-- The peer was replaced by another one, which knows no descriptor yet. -/
def change (t : Transport) : Activity × Transport :=
  ({ events := t.holders.values.map .changed }, { t with sentTypes := t.sentTypes.clear })

/-- Whether no message has come for a time. -/
def isIdle (t : Transport) (now : Instant) (timeout : Duration) : Bool :=
  t.lastActivity + timeout.nanoseconds ≤ now

end Transport

end PvNet
