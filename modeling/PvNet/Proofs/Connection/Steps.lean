import PvNet.Connection.Transport
set_option autoImplicit false

/-!
# Steps of a transport

A transport receives and sends independently of each other: a message that comes in
only queues its answer, and the sender picks and composes one entry of the queue after the
other.  In between, whoever holds the transport may use it, or close it.  `TransportStep`
lists what can happen, and `Transport.runAll` lets it happen in any order.
`Transport.receive` is one such order (`receive_eq_runAll`): a message and then as many
turns of the sender as there is something waiting (`TransportStep.turns`).
-/

namespace PvNet

namespace Activity

@[simp] theorem sent_append (a b : Activity) : (a ++ b).sent = a.sent ++ b.sent := rfl

@[simp] theorem events_append (a b : Activity) : (a ++ b).events = a.events ++ b.events := rfl

@[simp] theorem append_empty (a : Activity) : a ++ ({ sent := [] } : Activity) = a := by
  show Activity.mk (a.sent ++ []) (a.events ++ []) = a
  rw [List.append_nil, List.append_nil]

@[simp] theorem empty_append (a : Activity) :
    ({ sent := [] } : Activity) ++ a = a := rfl

theorem append_assoc (a b c : Activity) : a ++ b ++ c = a ++ (b ++ c) := by
  show Activity.mk _ _ = Activity.mk _ _
  rw [sent_append, events_append, List.append_assoc, List.append_assoc]
  rfl

@[simp] theorem messages_append (a b : Activity) :
    (a ++ b).messages = a.messages ++ b.messages := List.filterMap_append

end Activity

/-- What can happen to a transport. -/
inductive TransportStep where
  /-- The receiver takes in a message. -/
  | take (now : Instant) (m : Message)
  /-- The sender picks what is first in the queue. -/
  | pick
  /-- The sender composes and sends what it has in hand. -/
  | compose
  /-- Somebody queues a sender. -/
  | enqueue (script : Script)
  /-- Somebody reads a descriptor that the peer has sent. -/
  | readField (o : ByteOrder) (octets : Bytes)
  | acquire (h : Holder)
  | release (id : UInt64)
  /-- The peer is found to have been replaced. -/
  | change
  | close

/-- Lets something happen to a transport. -/
def TransportStep.run (t : Transport) : TransportStep → Activity × Transport
  | .take now m => t.take now m
  | .pick => ({}, t.pick)
  | .compose => t.compose
  | .enqueue script => ({}, (t.enqueue script).toOption.getD t)
  | .readField o octets => ({}, (t.readField o octets).2)
  | .acquire h => ({}, (t.acquire h).2)
  | .release id => t.release id
  | .change => t.change
  | .close => t.close

/-- The sender has some turns with nothing in between. -/
def TransportStep.turns (n : Nat) : List TransportStep :=
  (List.replicate n [.pick, .compose]).flatten

namespace Transport

/-- Lets things happen to a transport one after the other. -/
def runAll : List TransportStep → Transport → Activity × Transport
  | [], t => ({}, t)
  | step :: steps, t =>
    let (first, t) := step.run t
    let (rest, t) := runAll steps t
    (first ++ rest, t)

variable {t : Transport}

@[simp] theorem runAll_nil (t : Transport) : runAll [] t = ({}, t) := rfl

theorem runAll_cons (step : TransportStep) (steps : List TransportStep) (t : Transport) :
    runAll (step :: steps) t =
      ((step.run t).1 ++ (runAll steps (step.run t).2).1, (runAll steps (step.run t).2).2) := rfl

/-! ## Closing -/

theorem close_of_closed (h : t.closed = true) : t.close = ({}, t) := if_pos h

theorem close_of_open (h : t.closed = false) :
    t.close = ({ events := t.holders.values.map .closed },
      { t with
        closed := true
        queue := []
        sentTypes := t.sentTypes.clear
        knownTypes := t.knownTypes.clear
        holders := .empty }) := by
  unfold close
  rw [if_neg (by simp [h])]

theorem closed_close (t : Transport) : t.close.2.closed = true := by
  cases hopen : t.closed with
  | true => rw [close_of_closed hopen, hopen]
  | false => rw [close_of_open hopen]

theorem closed_stop (t : Transport) : t.stop.2.closed = true := t.closed_close

theorem listens_of_open (h : t.closed = false) : t.listens = true := by
  unfold listens
  rw [h]
  rfl

theorem listens_stop (t : Transport) : t.stop.2.listens = false := by
  show (!(t.close.2.closed && true)) = false
  rw [closed_close]
  rfl

theorem hangUp_of_open (h : t.closed = false) : t.hangUp = t.stop := if_neg (by simp [h])

theorem hangUp_of_closed (h : t.closed = true) : t.hangUp = ({}, t) := if_pos h

/-! ## The sender -/

theorem enqueue_of_open (h : t.closed = false) (script : Script) :
    t.enqueue script = .ok (t.push script) := if_neg (by simp [h])

theorem enqueue_of_closed (h : t.closed = true) (script : Script) :
    t.enqueue script = .error .closed := if_pos h

theorem pick_of_closed (h : t.closed = true) : t.pick = t := if_pos h

section

variable {script : Script} {scripts : List Script} {sent : List Message}

theorem pick_of_cons (hopen : t.closed = false) (hfree : t.inHand = none)
    (hqueue : t.queue = script :: scripts) :
    t.pick = { t with inHand := some script, queue := scripts } := by
  unfold pick
  rw [if_neg (by simp [hopen]), hfree, hqueue]

/-- The sender picks nothing while it has something in hand. -/
theorem pick_of_some (hhand : t.inHand = some script) : t.pick = t := by
  unfold pick
  rw [hhand]
  exact ite_self t

theorem pick_of_nil (hqueue : t.queue = []) : t.pick = t := by
  unfold pick
  rw [hqueue]
  cases t.inHand with
  | none | some script => exact ite_self t

/-- What is picked is still waiting. -/
theorem waiting_pick (t : Transport) : t.pick.waiting = t.waiting := by
  rcases Bool.eq_false_or_eq_true t.closed with hclosed | hopen
  · rw [pick_of_closed hclosed]
  · cases hhand : t.inHand with
    | some script => rw [pick_of_some hhand]
    | none =>
      cases hqueue : t.queue with
      | nil => rw [pick_of_nil hqueue]
      | cons script scripts =>
        rw [pick_of_cons hopen hhand hqueue]
        unfold waiting
        rw [hhand, hqueue]
        rfl

theorem length_waiting (t : Transport) :
    t.waiting.length = t.inHand.toList.length + t.queue.length := List.length_append

theorem waiting_of_hand {script : Script} (hhand : t.inHand = some script) :
    t.waiting = script :: t.queue := by
  unfold waiting
  rw [hhand]
  rfl

theorem waiting_of_free (hfree : t.inHand = none) : t.waiting = t.queue := by
  unfold waiting
  rw [hfree]
  rfl

theorem compose_of_none (hfree : t.inHand = none) : t.compose = ({}, t) := by
  unfold compose
  rw [hfree]

theorem compose_of_failed (hhand : t.inHand = some script)
    (hfailed : (t.composed script).messages = none) :
    t.compose = { t with inHand := none, sentTypes := (t.composed script).types }.close := by
  unfold compose
  rw [hhand]
  simp only [hfailed]

theorem compose_of_sent (hhand : t.inHand = some script)
    (hsent : (t.composed script).messages = some sent) :
    t.compose = (if t.closed then {} else { sent },
      { t with inHand := none, sentTypes := (t.composed script).types }) := by
  unfold compose
  rw [hhand]
  simp only [hsent]

theorem turn_of_sent (hopen : t.closed = false) (hfree : t.inHand = none)
    (hqueue : t.queue = script :: scripts) (hsent : (t.composed script).messages = some sent) :
    t.turn = ({ sent }, { t with sentTypes := (t.composed script).types, queue := scripts }) := by
  have hcompose :=
    compose_of_sent (t := { t with inHand := some script, queue := scripts }) rfl hsent
  have hkept : ({ t with
      inHand := none, sentTypes := (t.composed script).types, queue := scripts } : Transport) =
        { t with sentTypes := (t.composed script).types, queue := scripts } := by
    rw [hfree]
  unfold turn
  rw [pick_of_cons hopen hfree hqueue, hcompose, if_neg (by simp [hopen]), ← hkept]
  rfl

theorem flush_of_nil (hfree : t.inHand = none) (hqueue : t.queue = []) : t.flush = ({}, t) := by
  unfold flush
  rw [waiting_of_free hfree, hqueue]
  rfl

end

theorem turns_eq_runAll (n : Nat) (t : Transport) :
    turns n t = runAll (TransportStep.turns n) t := by
  induction n generalizing t with
  | zero => rfl
  | succ n ih =>
    simp only [turns, ih]
    rfl

/-- Sending what is waiting takes as many turns as there is something waiting. -/
theorem flush_eq_runAll (t : Transport) :
    t.flush = runAll (TransportStep.turns t.waiting.length) t := turns_eq_runAll _ t

/-! ## The receiver -/

section

variable {now : Instant} {m : Message}

theorem take_of_deaf (h : t.listens = false) (now : Instant) (m : Message) :
    t.take now m = ({}, t) := if_neg (by simp [h])

theorem take_of_good (hlistens : t.listens = true)
    (hgood : (t.dispatchAt now m).good = true) :
    t.take now m = ({ events := (t.dispatchAt now m).events },
      (t.dispatchAt now m).transport) := by
  unfold take
  rw [if_pos hlistens]
  exact if_pos hgood

theorem take_of_bad (hlistens : t.listens = true)
    (hbad : (t.dispatchAt now m).good = false) :
    t.take now m =
      (({ events := (t.dispatchAt now m).events } : Activity) ++
          (t.dispatchAt now m).transport.stop.1,
        (t.dispatchAt now m).transport.stop.2) := by
  unfold take
  rw [if_pos hlistens]
  exact if_neg (by simp [hbad])

end

/-- Receiving a message is taking it in and then sending what is waiting. -/
theorem receive_eq_runAll (t : Transport) (now : Instant) (m : Message) :
    t.receive now m =
      runAll (.take now m :: TransportStep.turns (t.take now m).2.waiting.length) t := by
  have hrun : (TransportStep.take now m).run t = t.take now m := rfl
  rw [runAll_cons, hrun, ← flush_eq_runAll]
  rfl

theorem answer_of_open (h : t.closed = false) (script : Script) :
    t.answer script = { transport := t.push script } := by
  unfold answer
  rw [enqueue_of_open h]

theorem answer_of_closed (h : t.closed = true) (script : Script) :
    t.answer script = { transport := t, good := false } := by
  unfold answer
  rw [enqueue_of_closed h]

end Transport

end PvNet
