import PvNet.Message.Basic
import PvNet.Schema.Numbering
set_option autoImplicit false

/-!
# Composing messages

A sender writes the messages that it has to send step by step: it opens a message,
writes octets and descriptors, and opens the next one.  Octets that are written while
no message is open wait for the next message.  A `Script` lists the steps of a sender,
and `Script.run` gives the messages it composes.
-/

namespace PvNet

/-- One step of a sender. -/
inductive ScriptStep where
  /-- Opens an application message and ends the one that is open. -/
  | start (command : UInt8)
  /-- Ends the open message. -/
  | finish
  /-- Ends the open message and adds a control message. -/
  | control (command : UInt8) (data : UInt32)
  /-- Writes octets, which may depend on the byte order. -/
  | write (octets : ByteOrder → Bytes)
  /-- Writes a descriptor, or the null descriptor. -/
  | describe (field : Option Field)
  /-- The sender fails. -/
  | fail

/-- The steps of a sender. -/
abbrev Script : Type := List ScriptStep

/-- Messages in the making. -/
structure Composer where
  order : ByteOrder
  fromServer : Bool
  /-- What has been written since the last message ended. -/
  payload : Bytes := []
  /-- The command of the open message. -/
  opened : Option UInt8 := none
  /-- The finished messages, in order. -/
  messages : List Message := []
  /-- The descriptors that the peer knows by number. -/
  types : SentTypes

namespace Composer

/-- Ends the open message; without one nothing happens. -/
def finish (c : Composer) : Composer :=
  match c.opened with
  | none => c
  | some command =>
    { c with
      payload := []
      opened := none
      messages := c.messages ++ [.application command c.order c.fromServer c.payload] }

/-- Opens a message. -/
def start (c : Composer) (command : UInt8) : Composer := { c.finish with opened := some command }

/-- Adds a control message. -/
def control (c : Composer) (command : UInt8) (data : UInt32) : Composer :=
  let c := c.finish
  { c with messages := c.messages ++ [.control command c.order c.fromServer data] }

def write (c : Composer) (octets : Bytes) : Composer := { c with payload := c.payload ++ octets }

/-- Writes a descriptor; the peer knows it by its number from then on. -/
def describe (c : Composer) (field : Option Field) : Composer :=
  let (octets, types) := Field.encode? c.order field c.types
  { c.write octets with types }

/-- Carries out one step, unless the sender fails. -/
def step (c : Composer) : ScriptStep → Option Composer
  | .start command => some (c.start command)
  | .finish => some c.finish
  | .control command data => some (c.control command data)
  | .write octets => some (c.write (octets c.order))
  | .describe field => some (c.describe field)
  | .fail => none

/-- Carries out steps until the sender fails.  Returns whether it did not, and what was composed. -/
def run (c : Composer) : Script → Bool × Composer
  | [] => (true, c.finish)
  | s :: steps =>
    match c.step s with
    | some c => c.run steps
    | none => (false, c)

end Composer

namespace Script

/-- What became of a script. -/
structure Result where
  /-- The messages to send; none if the sender failed. -/
  messages : Option (List Message)
  /-- The descriptors that are numbered afterwards. -/
  types : SentTypes

/-- The messages of a script. -/
def run (script : Script) (order : ByteOrder) (fromServer : Bool) (types : SentTypes) : Result :=
  let (ok, c) := ({ order, fromServer, types } : Composer).run script
  ⟨if ok then some c.messages else none, c.types⟩

end Script

end PvNet
