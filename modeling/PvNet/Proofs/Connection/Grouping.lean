import PvNet.Proofs.Connection.Lifetime
import PvNet.Proofs.Message.Transmission
set_option autoImplicit false

/-!
# Which octets belong to which message

A sender means the octets to belong to a message that it writes while the message is open.
`WrittenStep.intended` gives the messages of a script in this sense.

The composer keeps what is written in one place, which it empties when a message ends.  Octets
that are written while no message is open wait there for the next one (`waitingAfter`).  So a
message may have more octets in front of its own (`Message.Prolongs`), and the messages are the
intended ones exactly if none is opened while octets wait (`Script.grouped_as_intended_iff`).
-/

namespace PvNet

/-! ## What a script writes -/

/-- Whether a step ends the message that is open. -/
def ScriptStep.endsMessage : ScriptStep → Bool
  | .start _ | .finish | .control _ _ => true
  | .write _ | .describe _ | .fail => false

/-- The octets that a step writes, and the descriptors that are numbered afterwards. -/
def ScriptStep.written (order : ByteOrder) (types : SentTypes) : ScriptStep → Bytes × SentTypes
  | .write octets => (octets order, types)
  | .describe field => Field.encode? order field types
  | .start _ | .finish | .control _ _ | .fail => ([], types)

/-- A step with the octets that it writes. -/
structure WrittenStep where
  step : ScriptStep
  octets : Bytes

/-- The steps of a script with what they write. -/
def Script.writtenSteps (order : ByteOrder) : SentTypes → Script → List WrittenStep
  | _, [] => []
  | types, s :: steps =>
    ⟨s, (s.written order types).1⟩ :: writtenSteps order (s.written order types).2 steps

/-- One message is another one, perhaps with more octets in front of its payload. -/
inductive Message.Prolongs : Message → Message → Prop where
  | control (command : UInt8) (o : ByteOrder) (fromServer : Bool) (data : UInt32) :
    Prolongs (.control command o fromServer data) (.control command o fromServer data)
  | application (command : UInt8) (o : ByteOrder) (fromServer : Bool) (lead payload : Bytes) :
    Prolongs (.application command o fromServer (lead ++ payload))
      (.application command o fromServer payload)

namespace WrittenStep

/-! ## Messages as they are meant and as they are composed -/

section

variable (order : ByteOrder) (fromServer : Bool)

/-- What is written before the next step that ends a message. -/
def own (steps : List WrittenStep) : Bytes :=
  (steps.takeWhile fun s => !s.step.endsMessage).flatMap octets

/-- The message of a step that makes one, with the octets that are in front of its own. -/
def made (lead : Bytes) (s : WrittenStep) (behind : List WrittenStep) : List Message :=
  match s.step with
  | .start command => [.application command order fromServer (lead ++ own behind)]
  | .control command data => [.control command order fromServer data]
  | .finish | .write _ | .describe _ | .fail => []

/-- One message for each step that makes one, in order; the payload is what is written between the
opening and the next step that ends a message. -/
def intended : List WrittenStep → List Message
  | [] => []
  | s :: steps => s.made order fromServer [] steps ++ intended steps

/-- The octets that wait for a message to be opened, after one more step; `none` while a message is
open. -/
def waitingNext (waiting : Option Bytes) (s : WrittenStep) : Option Bytes :=
  match s.step with
  | .start _ => none
  | .finish | .control _ _ => some (waiting.getD [])
  | .write _ | .describe _ | .fail => waiting.map (· ++ s.octets)

/-- The octets that wait for a message to be opened, after some steps. -/
def waitingAfter (waiting : Option Bytes) (steps : List WrittenStep) : Option Bytes :=
  steps.foldl waitingNext waiting

/-- One message for each step that makes one, in order; what waits comes in front of the payload. -/
def composed : Option Bytes → List WrittenStep → List Message
  | _, [] => []
  | waiting, s :: steps =>
    s.made order fromServer (waiting.getD []) steps ++ composed (waitingNext waiting s) steps

end

/-- No message is opened while octets wait that were written when no message was open. -/
def Tidy (waiting : Option Bytes) (steps : List WrittenStep) : Prop :=
  ∀ before command octets behind, steps = before ++ ⟨.start command, octets⟩ :: behind →
    (waitingAfter waiting before).getD [] = []

variable {order : ByteOrder} {fromServer : Bool} {waiting : Option Bytes} {lead : Bytes}
  {s : WrittenStep} {steps : List WrittenStep}

theorem own_of_ends (h : s.step.endsMessage = true) : own (s :: steps) = [] := by
  rw [own, List.takeWhile_cons_of_neg (by rw [h]; decide)]
  rfl

theorem own_of_writes (h : s.step.endsMessage = false) : own (s :: steps) = s.octets ++ own steps := by
  rw [own, List.takeWhile_cons_of_pos (by rw [h]; decide), List.flatMap_cons]
  rfl

theorem intended_cons :
    intended order fromServer (s :: steps) =
      s.made order fromServer [] steps ++ intended order fromServer steps := rfl

theorem composed_cons :
    composed order fromServer waiting (s :: steps) =
      s.made order fromServer (waiting.getD []) steps ++
        composed order fromServer (waitingNext waiting s) steps := rfl

theorem forall₂_made (lead : Bytes) (s : WrittenStep) (steps : List WrittenStep) :
    List.Forall₂ Message.Prolongs (s.made order fromServer lead steps)
      (s.made order fromServer [] steps) := by
  obtain ⟨step, octets⟩ := s
  cases step with
  | start command => exact .cons (.application command order fromServer lead (own steps)) .nil
  | control command data => exact .cons (.control command order fromServer data) .nil
  | finish | write | describe | fail => exact .nil

/-- Octets in front make a difference exactly if the step opens a message. -/
theorem made_eq_iff (order : ByteOrder) (fromServer : Bool) (steps : List WrittenStep) :
    s.made order fromServer lead steps = s.made order fromServer [] steps ↔
      ∀ command, s.step = .start command → lead = [] := by
  obtain ⟨step, octets⟩ := s
  cases step with
  | start command =>
    refine ⟨fun h command' _ => ?_, fun h => by rw [h command rfl]⟩
    exact List.append_left_eq_self.1 (congrArg Message.payload (List.singleton_inj.1 h))
  | finish | control | write | describe | fail => exact ⟨fun _ => nofun, fun _ => rfl⟩

/-- Waiting octets change nothing but what is in front of payloads. -/
theorem forall₂_composed (waiting : Option Bytes) (steps : List WrittenStep) :
    List.Forall₂ Message.Prolongs (composed order fromServer waiting steps)
      (intended order fromServer steps) := by
  induction steps generalizing waiting with
  | nil => exact .nil
  | cons s steps ih =>
    exact List.rel_append (forall₂_made (waiting.getD []) s steps) (ih (waitingNext waiting s))

theorem flags_of_mem_composed {m : Message} (h : m ∈ composed order fromServer waiting steps) :
    m.order = order ∧ m.header.isFromServer = fromServer := by
  induction steps generalizing waiting with
  | nil => cases h
  | cons s steps ih =>
    rcases List.mem_append.1 h with hfirst | hrest
    · obtain ⟨step, octets⟩ := s
      cases step with
      | start command =>
        rw [List.mem_singleton.1 hfirst]
        exact ⟨Message.order_application .., Message.isFromServer_application ..⟩
      | control command data =>
        rw [List.mem_singleton.1 hfirst]
        exact ⟨Message.order_control .., Message.isFromServer_control ..⟩
      | finish | write | describe | fail => cases hfirst
    · exact ih hrest

theorem tidy_nil : Tidy waiting [] := by
  intro before command octets behind h
  exact absurd h.symm (List.append_ne_nil_of_right_ne_nil before (List.cons_ne_nil _ _))

theorem tidy_cons :
    Tidy waiting (s :: steps) ↔
      (∀ command, s.step = .start command → waiting.getD [] = []) ∧
        Tidy (waitingNext waiting s) steps := by
  constructor
  · refine fun h => ⟨fun command hstart => ?_, fun before command octets behind hsteps => ?_⟩
    · refine h [] command s.octets steps ?_
      rw [← hstart]
      rfl
    · exact h (s :: before) command octets behind (congrArg (s :: ·) hsteps)
  · rintro ⟨hfirst, hrest⟩ before command octets behind hsteps
    cases before with
    | nil =>
      obtain ⟨rfl, -⟩ := List.cons.inj hsteps
      exact hfirst command rfl
    | cons first before =>
      obtain ⟨rfl, hsteps'⟩ := List.cons.inj hsteps
      exact hrest before command octets behind hsteps'

theorem composed_eq_intended_iff :
    composed order fromServer waiting steps = intended order fromServer steps ↔
      Tidy waiting steps := by
  induction steps generalizing waiting with
  | nil => exact ⟨fun _ => tidy_nil, fun _ => rfl⟩
  | cons s steps ih =>
    have hlength : (composed order fromServer (waitingNext waiting s) steps).length =
        (intended order fromServer steps).length := (forall₂_composed _ steps).length_eq
    rw [composed_cons, intended_cons, tidy_cons, ← ih, ← made_eq_iff order fromServer steps]
    constructor
    · exact fun h => List.append_inj' h hlength
    · rintro ⟨hfirst, hrest⟩
      rw [hfirst, hrest]

end WrittenStep

/-! ## What a composer does -/

namespace Composer

variable {c c' : Composer} {s : WrittenStep} {types : SentTypes}

open WrittenStep

/-- The message that is open, with what is still going to be written to it. -/
def openMessage? (c : Composer) (rest : Bytes) : Option Message :=
  c.opened.map fun command => .application command c.order c.fromServer (c.payload ++ rest)

/-- The octets that wait for a message to be opened; `none` while a message is open. -/
def waiting (c : Composer) : Option Bytes :=
  match c.opened with
  | none => some c.payload
  | some _ => none

theorem order_finish (c : Composer) : c.finish.order = c.order := by
  unfold finish
  cases c.opened with
  | none | some => rfl

theorem fromServer_finish (c : Composer) : c.finish.fromServer = c.fromServer := by
  unfold finish
  cases c.opened with
  | none | some => rfl

theorem opened_finish (c : Composer) : c.finish.opened = none := by
  unfold finish
  cases hopened : c.opened with
  | none => exact hopened
  | some => rfl

theorem payload_finish (c : Composer) : c.finish.payload = c.waiting.getD [] := by
  unfold finish waiting
  cases c.opened with
  | none | some => rfl

theorem messages_finish (c : Composer) :
    c.finish.messages = c.messages ++ (c.openMessage? []).toList := by
  unfold finish openMessage?
  cases c.opened with
  | none => exact (List.append_nil _).symm
  | some command =>
    rw [List.append_nil]
    rfl

/-- What one step makes of a composer, whatever comes behind. -/
structure Advances (c : Composer) (s : WrittenStep) (types : SentTypes) (c' : Composer) : Prop where
  order : c'.order = c.order
  fromServer : c'.fromServer = c.fromServer
  types : c'.types = types
  waiting : c'.waiting = waitingNext c.waiting s
  messages : ∀ behind,
    c'.messages ++ (c'.openMessage? (own behind)).toList =
      c.messages ++ (c.openMessage? (own (s :: behind))).toList ++
        s.made c.order c.fromServer (c.waiting.getD []) behind

/-- What is written goes into the open message, or waits for one. -/
theorem advances_write (s : WrittenStep) (types : SentTypes) (hends : s.step.endsMessage = false) :
    c.Advances s types { c.write s.octets with types } where
  order := rfl
  fromServer := rfl
  types := rfl
  waiting := by
    obtain ⟨step, octets⟩ := s
    unfold waiting write
    cases step with
    | start | finish | control => cases hends
    | write | describe | fail => cases c.opened with
      | none | some => rfl
  messages behind := by
    have hmade : s.made c.order c.fromServer (c.waiting.getD []) behind = [] := by
      obtain ⟨step, octets⟩ := s
      cases step with
      | start | finish | control => cases hends
      | write | describe | fail => rfl
    rw [hmade, List.append_nil, own_of_writes hends]
    unfold openMessage? write
    simp only [List.append_assoc]

theorem advances_step (s : ScriptStep) (hs : s ≠ .fail) :
    ∃ c', c.step s = some c' ∧
      c.Advances ⟨s, (s.written c.order c.types).1⟩ (s.written c.order c.types).2 c' := by
  cases s with
  | start command =>
    refine ⟨c.start command, rfl, c.order_finish, c.fromServer_finish, c.types_finish, rfl,
      fun behind => ?_⟩
    rw [own_of_ends rfl, ← c.messages_finish, ← c.payload_finish, ← c.order_finish,
      ← c.fromServer_finish]
    rfl
  | finish =>
    refine ⟨c.finish, rfl, c.order_finish, c.fromServer_finish, c.types_finish, ?_,
      fun behind => ?_⟩
    · rw [waiting, c.opened_finish, c.payload_finish]
      rfl
    · rw [own_of_ends rfl, ← c.messages_finish, openMessage?, c.opened_finish]
      rfl
  | control command data =>
    refine ⟨c.control command data, rfl, c.order_finish, c.fromServer_finish, c.types_finish, ?_,
      fun behind => ?_⟩
    · have hopened : (c.control command data).opened = none := c.opened_finish
      have hpayload : (c.control command data).payload = c.waiting.getD [] := c.payload_finish
      rw [waiting, hopened, hpayload]
      rfl
    · have hopened : (c.control command data).opened = none := c.opened_finish
      rw [own_of_ends rfl, ← c.messages_finish, openMessage?, hopened, ← c.order_finish,
        ← c.fromServer_finish]
      exact List.append_nil _
  | write octets => exact ⟨_, rfl, advances_write ⟨.write octets, octets c.order⟩ c.types rfl⟩
  | describe field =>
    exact ⟨_, rfl, advances_write ⟨.describe field, (Field.encode? c.order field c.types).1⟩
      (Field.encode? c.order field c.types).2 rfl⟩
  | fail => exact absurd rfl hs

/-- Unless a step fails, a run makes the open message with what is still written to it, and the
messages of its steps. -/
theorem run_of_not_mem_fail (c : Composer) {script : Script} (hfail : .fail ∉ script) :
    (c.run script).1 = true ∧
      (c.run script).2.messages =
        c.messages ++ (c.openMessage? (own (script.writtenSteps c.order c.types))).toList ++
          composed c.order c.fromServer c.waiting (script.writtenSteps c.order c.types) := by
  induction script generalizing c with
  | nil => exact ⟨rfl, c.messages_finish.trans (List.append_nil _).symm⟩
  | cons s steps ih =>
    obtain ⟨hs, hsteps⟩ := List.ne_and_not_mem_of_not_mem_cons hfail
    obtain ⟨c', hstep, horder, hserver, htypes, hwaiting, hmessages⟩ := c.advances_step s hs.symm
    have hrun : c.run (s :: steps) = c'.run steps := by simp only [run, hstep]
    obtain ⟨hok, hrest⟩ := ih c' hsteps
    rw [hrun]
    refine ⟨hok, hrest.trans ?_⟩
    rw [hmessages, horder, hserver, htypes, hwaiting, List.append_assoc]
    rfl

end Composer

/-! ## Grouping -/

namespace Script

open WrittenStep

/-- A script that does not fail makes one message for each step that opens one or adds a control
message, in order and with the order and the direction that it is run with.  A payload ends with
what is written while the message is open.  There is nothing in front of that exactly if no message
is opened while octets wait that were written when none was open. -/
theorem grouped_as_intended_iff (order : ByteOrder) (fromServer : Bool) (types : SentTypes)
    {script : Script} (hfail : .fail ∉ script) :
    ∃ messages, (script.run order fromServer types).messages = some messages ∧
      List.Forall₂ Message.Prolongs messages
        (intended order fromServer (script.writtenSteps order types)) ∧
      (∀ m ∈ messages, m.order = order ∧ m.header.isFromServer = fromServer) ∧
      (messages = intended order fromServer (script.writtenSteps order types) ↔
        Tidy (some []) (script.writtenSteps order types)) := by
  let c : Composer := { order, fromServer, types }
  obtain ⟨hok, hmessages⟩ := c.run_of_not_mem_fail hfail
  have hrun : (script.run order fromServer types).messages =
      if (c.run script).1 then some (c.run script).2.messages else none := rfl
  refine ⟨composed order fromServer (some []) (script.writtenSteps order types), ?_,
    forall₂_composed _ _, fun m hm => flags_of_mem_composed hm, composed_eq_intended_iff⟩
  rw [hrun, if_pos hok, hmessages]
  rfl

/-- A control message and two messages, the second of which is opened while the first one is. -/
def twoEchoes : Script :=
  [.control Command.setByteOrder 0, .start Command.echo, .write fun o => Wire.word32 o 1,
    .start Command.echo]

theorem twoEchoes_grouped :
    .fail ∉ twoEchoes ∧
      (twoEchoes.run .little true (.withCapacity 1)).messages =
        some [.control Command.setByteOrder .little true 0,
          .application Command.echo .little true [1, 0, 0, 0],
          .application Command.echo .little true []] := by
  have hfail : .fail ∉ twoEchoes := by simp [twoEchoes]
  have htidy : Tidy (some []) (twoEchoes.writtenSteps .little (.withCapacity 1)) := by
    simp [twoEchoes, writtenSteps, ScriptStep.written, tidy_cons, tidy_nil, waitingNext]
  obtain ⟨messages, hrun, -, -, hiff⟩ :=
    grouped_as_intended_iff .little true (.withCapacity 1) hfail
  refine ⟨hfail, ?_⟩
  rw [hrun, hiff.2 htidy]
  rfl

/-- A message is ended, an octet is written, and another message is opened and gets an octet. -/
def strayOctet : Script :=
  [.start Command.search, .finish, .write fun _ => [1], .start Command.echo, .write fun _ => [2]]

/-- The octet that was written between the two messages is part of the second one. -/
theorem strayOctet_not_grouped :
    (strayOctet.run .big true (.withCapacity 1)).messages =
        some [.application Command.search .big true [],
          .application Command.echo .big true [1, 2]] ∧
      intended .big true (strayOctet.writtenSteps .big (.withCapacity 1)) =
        [.application Command.search .big true [], .application Command.echo .big true [2]] :=
  ⟨rfl, rfl⟩

end Script

end PvNet
