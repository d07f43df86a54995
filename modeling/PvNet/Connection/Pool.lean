import PvNet.Connection.Dialing
import PvNet.Connection.Listener
import PvNet.Connection.Registry
import PvNet.LockTable
set_option autoImplicit false

/-!
# The connections of a client

A client has at most one open connection for an address and a priority, which all its
users share.  `TransportPool.connect` hands out that connection or opens it; while it
does, nobody else can connect to the address.
-/

namespace PvNet

/-- The connections of a client. -/
structure TransportPool where
  /-- All transports that were ever handed out; their positions are their numbers. -/
  transports : List Transport := []
  /-- The ends of the connections that were opened but never handed out. -/
  abandoned : List Transport := []
  registry : Registry Nat := {}
  /-- Who is connecting to which address. -/
  locks : LockTable Endpoint := .empty

/-- How a client opens connections. -/
structure Connector where
  config : ConnectorConfig := {}
  transport : TransportConfig := {}
  /-- Where other messages go. -/
  handler : Option (Message → Bool) := none

namespace TransportPool

instance : Inhabited TransportPool := ⟨{}⟩

/-- Does something to a transport; one that closes is no longer registered. -/
def update (p : TransportPool) (n : Nat) (f : Transport → Activity × Transport) :
    Activity × TransportPool :=
  match p.transports[n]? with
  | none => ({}, p)
  | some before =>
    let (activity, after) := f before
    let registry :=
      if !before.closed ∧ after.closed then (p.registry.remove after.remote after.priority n).2
      else p.registry
    (activity, { p with transports := p.transports.set n after, registry })

/-- Does something to several transports, one after the other. -/
def updateAll (f : Transport → Activity × Transport) :
    List Nat → TransportPool → Activity × TransportPool
  | [], p => ({}, p)
  | n :: ns, p =>
    let (first, p) := p.update n f
    let (rest, p) := updateAll f ns p
    (first ++ rest, p)

/-- Drops a holder of a transport. -/
def release (p : TransportPool) (n : Nat) (id : UInt64) : Activity × TransportPool :=
  p.update n (·.release id)

def close (p : TransportPool) (n : Nat) : Activity × TransportPool := p.update n Transport.close

/-- The peers at an address end their connections. -/
def hangUpAll (p : TransportPool) (address : Endpoint) : Activity × TransportPool :=
  let here := (List.range p.transports.length).filter fun n =>
    (p.transports[n]?).any fun t => t.remote = address
  updateAll Transport.hangUp here p

/-- The peer at an address was replaced by another one. -/
def changeAll (p : TransportPool) (address : Endpoint) : Activity × TransportPool :=
  updateAll Transport.change (p.registry.getAll address) p

/-- Forgets a transport without closing it.  Returns whether it was registered. -/
def forget (p : TransportPool) (n : Nat) : Bool × TransportPool :=
  match p.transports[n]? with
  | none => (false, p)
  | some t =>
    let (ok, registry) := p.registry.remove t.remote t.priority n
    (ok, { p with registry })

/-- Hands the registered transport to a client, if there is an open one. -/
def reuse? (p : TransportPool) (client : Holder) (address : Endpoint) (priority : Int16) :
    Option (Nat × TransportPool) := do
  let n ← p.registry.get? address priority
  let t ← p.transports[n]?
  match t.acquire client with
  | (true, t) => return (n, { p with transports := p.transports.set n t })
  | (false, _) => none

/-- Keeps the end of a connection that is not handed out. -/
def abandon (p : TransportPool) (t : Transport) : TransportPool :=
  { p with abandoned := p.abandoned ++ [t] }

/-- Opens a connection and hands it to a client once it is verified; one that is not is closed, and
one that is closed is not handed out. -/
def openTransport (p : TransportPool) (c : Connector) (now : Instant) (client : Holder)
    (address : Endpoint) (priority : Int16) (listener : Listener) :
    Except ConnectFailure Nat × Activity × TransportPool :=
  let attempt (_ : Nat) : Except IoError Unit :=
    match listener.refusal? with
    | some cause => .error cause
    | none => .ok ()
  match (Dialing.run c.config address attempt).result with
  | .error cause => (.error (.connect cause), {}, p)
  | .ok () =>
    let start := Transport.client address priority c.transport c.handler
    match listener.setupFailure? with
    | some cause => (.error (.connect cause), {}, p.abandon start.close.2)
    | none =>
      let (activity, t) := listener.meet now start
      match t.failure? c.config.verificationTimeout with
      | some failure => (.error failure, activity ++ t.close.1, p.abandon t.close.2)
      | none =>
        let (isOpen, t) := t.acquire client
        if !isOpen then (.error .closed, activity, p.abandon t)
        else
          let (rest, t) := if listener.leaves then t.hangUp else ({}, t)
          let n := p.transports.length
          let registry := (p.registry.put address priority n).2
          if t.closed then
            (.error .closed, activity ++ rest,
              { p.abandon t with registry := (registry.remove address priority n).2 })
          else
            (.ok n, activity ++ rest, { p with transports := p.transports ++ [t], registry })

/-- Hands the registered transport to a client, if there is an open one, and else a new one. -/
def share (p : TransportPool) (c : Connector) (now : Instant) (client : Holder)
    (address : Endpoint) (priority : Int16) (listener : Listener) :
    Except ConnectFailure Nat × Activity × TransportPool :=
  match p.reuse? client address priority with
  | some (n, p) => (.ok n, {}, p)
  | none => p.openTransport c now client address priority listener

/-- Gets a verified transport for a client: the registered one or a new one.  A failure names the
address. -/
def connect (p : TransportPool) (c : Connector) (now : Instant) (client : Holder)
    (address : Endpoint) (priority : Int16) (listener : Listener) :
    Except Error Nat × Activity × TransportPool :=
  match p.reuse? client address priority with
  | some (n, p) => (.ok n, {}, p)
  | none =>
    let (free, locks) := p.locks.acquire address
    let p := { p with locks }
    if !free then
      (.error (.connection address (.lockTimeout c.config.lockTimeout)), {}, p)
    else
      -- Somebody may have connected while this client waited for the lock.
      let (result, activity, p) := p.share c now client address priority listener
      (result.mapError (.connection address), activity,
        { p with locks := p.locks.release address })

end TransportPool

end PvNet
