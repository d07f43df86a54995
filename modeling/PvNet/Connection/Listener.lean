import PvNet.Connection.Transport
import PvNet.Net.IoError
set_option autoImplicit false

/-!
# What answers at an address

A server that validates connections, or something that only looks like one.
`Listener.meet` lets a fresh client transport talk to it until both have nothing
more to say.
-/

namespace PvNet

/-- What listens at an address. -/
inductive Listener where
  /-- Nobody; a connection cannot be opened. -/
  | refusing (cause : IoError)
  /-- Accepts connections that the client then cannot set up. -/
  | unusable (cause : IoError)
  /-- Accepts connections and never says anything. -/
  | silent
  /-- Says something to every connection and nothing more. -/
  | saying (octets : Bytes)
  /-- Says something to every connection and ends it. -/
  | rude (octets : Bytes)
  /-- A server. -/
  | serving (config : TransportConfig)
  /-- A server that ends every connection as soon as it is validated. -/
  | leaving (config : TransportConfig)
  deriving Repr

namespace Listener

/-- The failure of dialling where nobody listens. -/
def nobody : IoError := ⟨.connectionRefused, some "Connection refused (os error 111)"⟩

/-- A server stops, and nobody listens there any more. -/
def stop : Listener → Listener
  | serving _ | leaving _ => refusing nobody
  | l => l

/-- One end receives what the other one sent, and that it closed. -/
def deliver (now : Instant) (activity : Activity) (hungUp : Bool) (t : Transport) :
    Activity × Transport :=
  if hungUp then t.receiveLast now activity.octets else t.receiveOctets now activity.octets

/-- The validation between two fresh ends: greeting, reply and verdict. -/
def validate (now : Instant) (client server : Transport) : Activity × Transport :=
  let (greeting, server) := server.flush
  let (reply, client) := deliver now greeting server.closed client
  let (verdict, server) := deliver now reply client.closed server
  deliver now verdict server.closed client

/-- Why no connection can be opened, if so. -/
def refusal? : Listener → Option IoError
  | refusing cause => some cause
  | _ => none

/-- Why a connection that was opened cannot be set up, if so. -/
def setupFailure? : Listener → Option IoError
  | unusable cause => some cause
  | _ => none

/-- Whether the other end ends a connection between its validation and its registration. -/
def leaves : Listener → Bool
  | leaving _ => true
  | _ => false

/-- A fresh client transport talks to whatever accepted the connection. -/
def meet (now : Instant) (l : Listener) (client : Transport) : Activity × Transport :=
  match l with
  | refusing _ | unusable _ | silent => ({}, client)
  | saying octets => client.receiveOctets now octets
  | rude octets => client.receiveLast now octets
  | serving config | leaving config => validate now client (.server (.any 0) config none)

end Listener

end PvNet
