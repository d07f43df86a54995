import Mathlib.Data.List.Infix
import PvNet.Proofs.Connection.Meeting
set_option autoImplicit false

/-!
# What a transport answers

A transport without a handler answers each message before it takes in the next one, and
the answer depends on the message, the configuration and the byte order alone (`answer?`).
So what it sends in the course of a connection is the list of these answers, up to the
first part of the validation that it cannot read (`answered_in_order`).
-/

namespace PvNet

/-! ## One message -/

/-- Whether the end with a role reads a message, if the message is a part of the validation. -/
def Role.reads (role : Role) (m : Message) : Bool :=
  if m.isControl then true
  else if m.command = Command.validation then
    match role with
    | .client => (m.read Greeting.decode).toOption.isSome
    | .server => (m.read Reply.decode).toOption.isSome
  else if m.command = Command.validated ∧ role = .client then (m.read Status.decode).toOption.isSome
  else true

/-- What the end with a role says to a message that it reads. -/
def Role.answer? (role : Role) (config : TransportConfig) (o : ByteOrder) (m : Message) :
    Option Message :=
  let fromServer : Bool := role = .server
  if m.isControl then
    if m.command = Command.echoRequest then
      some (.control Command.echoResponse o fromServer m.header.payloadSize)
    else none
  else if m.command = Command.validation then
    match role with
    | .client => (m.read Greeting.decode).toOption.map fun g =>
      .application Command.validation o fromServer ((Reply.toGreeting g config).encode o)
    | .server => (m.read Reply.decode).toOption.map fun r =>
      .application Command.validated o fromServer ((r.check config).encode o)
  else if m.command = Command.echo ∧ m.header.isFromServer = false then
    some (.application Command.echo o fromServer m.payload)
  else none

/-- A message tells a client in which order to send. -/
def Message.setsOrder (m : Message) : Bool := m.isControl && m.command = Command.setByteOrder

/-- The order in which an end sends after some messages: a server in its own, a client in that which
was announced last. -/
def Role.orderAfter (role : Role) (o : ByteOrder) (heard : List Message) : ByteOrder :=
  match role with
  | .server => o
  | .client => ((heard.filter Message.setsOrder).getLast?.map Message.order).getD o

/-- What an end says to messages that it reads, each answer in the order that is in force then. -/
def Role.answers (role : Role) (config : TransportConfig) (o : ByteOrder) (heard : List Message) :
    List Message :=
  heard.inits.filterMap fun before =>
    before.getLast?.bind (role.answer? config (role.orderAfter o before))

namespace Role

variable {role : Role} {config : TransportConfig} {o : ByteOrder} {m : Message}
  {heard : List Message}

theorem reads_eq (role : Role) (m : Message) :
    role.reads m =
      match role.concern m with
      | .control | .echo | .other => true
      | .greeting => (m.read Greeting.decode).toOption.isSome
      | .reply => (m.read Reply.decode).toOption.isSome
      | .verdict => (m.read Status.decode).toOption.isSome := by
  unfold reads concern
  by_cases hcontrol : m.isControl
  · rw [if_pos hcontrol, if_pos hcontrol]
  · rw [if_neg hcontrol, if_neg hcontrol]
    by_cases hvalidation : m.command = Command.validation
    · rw [if_pos hvalidation, if_pos hvalidation]
      cases role with
      | client => rfl
      | server => rfl
    · rw [if_neg hvalidation, if_neg hvalidation]
      by_cases hvalidated : m.command = Command.validated ∧ role = .client
      · rw [if_pos hvalidated, if_pos hvalidated]
      · rw [if_neg hvalidated, if_neg hvalidated]
        by_cases hecho : m.command = Command.echo
        · rw [if_pos hecho]
        · rw [if_neg hecho]

theorem answer?_eq (role : Role) (config : TransportConfig) (o : ByteOrder) (m : Message) :
    role.answer? config o m =
      match role.concern m with
      | .control =>
        if m.command = Command.echoRequest then
          some (.control Command.echoResponse o (role = .server) m.header.payloadSize)
        else none
      | .greeting => (m.read Greeting.decode).toOption.map fun g =>
        .application Command.validation o (role = .server) ((Reply.toGreeting g config).encode o)
      | .reply => (m.read Reply.decode).toOption.map fun r =>
        .application Command.validated o (role = .server) ((r.check config).encode o)
      | .echo =>
        if m.header.isFromServer then none
        else some (.application Command.echo o (role = .server) m.payload)
      | .verdict | .other => none := by
  have hdistinct : Command.validated ≠ Command.echo := by decide
  unfold answer? concern
  by_cases hcontrol : m.isControl
  · rw [if_pos hcontrol, if_pos hcontrol]
  · rw [if_neg hcontrol, if_neg hcontrol]
    by_cases hvalidation : m.command = Command.validation
    · rw [if_pos hvalidation, if_pos hvalidation]
      cases role with
      | client => rfl
      | server => rfl
    · rw [if_neg hvalidation, if_neg hvalidation]
      by_cases hvalidated : m.command = Command.validated ∧ role = .client
      · rw [if_pos hvalidated, if_neg fun h => hdistinct (hvalidated.1.symm.trans h.1)]
      · rw [if_neg hvalidated]
        by_cases hecho : m.command = Command.echo
        · rw [if_pos hecho]
          cases hserver : m.header.isFromServer with
          | true => rw [if_neg (by simp), if_pos rfl]
          | false =>
            rw [if_pos ⟨hecho, rfl⟩]
            rfl
        · rw [if_neg hecho, if_neg fun h => hecho h.1]

theorem concern_eq_control_iff : role.concern m = .control ↔ m.isControl = true := by
  unfold concern
  by_cases hcontrol : m.isControl
  · rw [if_pos hcontrol]
    exact iff_of_true rfl hcontrol
  · rw [if_neg hcontrol]
    refine iff_of_false (fun h => ?_) hcontrol
    by_cases hvalidation : m.command = Command.validation
    · rw [if_pos hvalidation] at h
      cases role with
      | client | server => cases h
    · rw [if_neg hvalidation] at h
      by_cases hvalidated : m.command = Command.validated ∧ role = .client
      · rw [if_pos hvalidated] at h
        cases h
      · rw [if_neg hvalidated] at h
        by_cases hecho : m.command = Command.echo
        · rw [if_pos hecho] at h
          cases h
        · rw [if_neg hecho] at h
          cases h

/-- Only a control message sets the order. -/
theorem setsOrder_eq_false {c : Concern} (h : role.concern m = c) (hc : c ≠ .control) :
    m.setsOrder = false := by
  have hcontrol : m.isControl = false := by
    rw [← Bool.not_eq_true, ← @concern_eq_control_iff role m, h]
    exact hc
  rw [Message.setsOrder, hcontrol, Bool.false_and]

theorem orderAfter_concat (role : Role) (o : ByteOrder) (heard : List Message) (m : Message) :
    role.orderAfter o (heard ++ [m]) =
      if role = .client ∧ m.setsOrder then m.order else role.orderAfter o heard := by
  cases role with
  | server => rfl
  | client =>
    unfold orderAfter
    rw [List.filter_append]
    cases hsets : m.setsOrder with
    | true => simp [hsets]
    | false => simp [hsets]

theorem answers_concat (role : Role) (config : TransportConfig) (o : ByteOrder)
    (heard : List Message) (m : Message) :
    role.answers config o (heard ++ [m]) =
      role.answers config o heard ++
        (role.answer? config (role.orderAfter o (heard ++ [m])) m).toList := by
  have hinits : (heard ++ [m]).inits = heard.inits ++ [heard ++ [m]] := by
    rw [List.inits_append]
    rfl
  have hlast : (heard ++ [m]).getLast?.bind
      (role.answer? config (role.orderAfter o (heard ++ [m]))) =
        role.answer? config (role.orderAfter o (heard ++ [m])) m := by
    rw [List.getLast?_concat]
    rfl
  unfold answers
  rw [hinits, List.filterMap_append, ← hlast]
  rfl

/-- A server always answers in its own order. -/
theorem answers_server (config : TransportConfig) (o : ByteOrder) (heard : List Message) :
    Role.server.answers config o heard = heard.filterMap (Role.server.answer? config o) := by
  induction heard using List.reverseRecOn with
  | nil => rfl
  | append_singleton heard m ih =>
    rw [answers_concat, ih, List.filterMap_append]
    rfl

/-- An answer bears the mark of its sender and is in the order in which it is sent. -/
theorem flags_of_answer? {a : Message} (h : role.answer? config o m = some a) :
    a.header.isFromServer = decide (role = .server) ∧ a.order = o := by
  rw [answer?_eq] at h
  cases hconcern : role.concern m with
  | control =>
    simp only [hconcern] at h
    by_cases hecho : m.command = Command.echoRequest
    · rw [if_pos hecho] at h
      cases h
      exact ⟨Message.isFromServer_control .., Message.order_control ..⟩
    · rw [if_neg hecho] at h
      cases h
  | greeting =>
    simp only [hconcern, Option.map_eq_some_iff] at h
    obtain ⟨g, -, rfl⟩ := h
    exact ⟨Message.isFromServer_application .., Message.order_application ..⟩
  | reply =>
    simp only [hconcern, Option.map_eq_some_iff] at h
    obtain ⟨r, -, rfl⟩ := h
    exact ⟨Message.isFromServer_application .., Message.order_application ..⟩
  | echo =>
    simp only [hconcern] at h
    by_cases hserver : m.header.isFromServer
    · rw [if_pos hserver] at h
      cases h
    · rw [if_neg hserver] at h
      cases h
      exact ⟨Message.isFromServer_application .., Message.order_application ..⟩
  | verdict | other => simp [hconcern] at h

theorem isFromServer_of_answers {a : Message} (h : a ∈ role.answers config o heard) :
    a.header.isFromServer = decide (role = .server) := by
  obtain ⟨before, -, hbefore⟩ := List.mem_filterMap.1 h
  obtain ⟨m, -, hanswer⟩ := Option.bind_eq_some_iff.1 hbefore
  exact (flags_of_answer? hanswer).1

end Role

/-- An echo, or a control message that requests one. -/
def Message.IsEcho (m : Message) : Prop :=
  m.command = if m.isControl then Command.echoRequest else Command.echo

instance (m : Message) : Decidable m.IsEcho := inferInstanceAs (Decidable (_ = _))

/-- The answer to an echo from the other end is not answered there. -/
theorem Role.answer?_answer {role role' : Role} (hother : role ≠ role')
    {config config' : TransportConfig} {o o' : ByteOrder} {m a : Message} (hecho : m.IsEcho)
    (hsender : m.header.isFromServer = decide (role' = .server))
    (ha : role.answer? config o m = some a) : role'.answer? config' o' a = none := by
  unfold Message.IsEcho at hecho
  unfold answer? at ha
  cases hcontrol : m.isControl with
  | true =>
    rw [hcontrol, if_pos rfl] at hecho
    rw [hcontrol, if_pos rfl, if_pos hecho] at ha
    cases ha
    have hresponse : Command.echoResponse ≠ Command.echoRequest := by decide
    unfold answer?
    rw [if_pos (Message.isControl_control ..)]
    exact if_neg hresponse
  | false =>
    have hvalidation : Command.echo ≠ Command.validation := by decide
    rw [hcontrol, if_neg Bool.false_ne_true] at hecho
    rw [hcontrol, if_neg Bool.false_ne_true, hecho, if_neg hvalidation] at ha
    cases role' with
    | server =>
      rw [hsender, if_neg (by simp)] at ha
      cases ha
    | client =>
      have hserver : role = .server := by
        cases role with
        | client => exact absurd rfl hother
        | server => rfl
      rw [hsender, if_pos ⟨rfl, rfl⟩, hserver] at ha
      cases ha
      unfold answer?
      rw [if_neg (by simp), if_neg (by simpa using hvalidation), if_neg (by simp)]

namespace Transport

variable {t : Transport} {m : Message} {now : Instant}

/-- A transport without a handler that is open and has nothing to say. -/
structure Idle (t : Transport) : Prop where
  opened : t.closed = false
  free : t.inHand = none
  queue : t.queue = []
  handler : t.handler = none

theorem flush_of_control {command : UInt8} {data : UInt32} (hopen : t.closed = false)
    (hfree : t.inHand = none) (hqueue : t.queue = [controlScript command data]) :
    t.flush = ({ sent := [.control command t.order (t.role = .server) data] },
      { t with queue := [] }) := flush_of_singleton hopen hfree hqueue rfl

/-- What a message that is read leads to. -/
structure Answered (t : Transport) (m : Message) (r : Activity × Transport) : Prop where
  sent : r.1.sent = (t.role.answer? t.config r.2.order m).toList
  idle : r.2.Idle
  sameEnd : SameEnd t r.2
  order : r.2.order = if t.role = .client ∧ m.setsOrder then m.order else t.order

namespace Idle

section

variable {t' : Transport} (h : t.Idle) (hdispatch : t.dispatchAt now m = { transport := t' })
  (hsame : SameEnd t t') (hopen : t'.closed = false) (hfree : t'.inHand = none)

include h hdispatch hsame hopen hfree

theorem answered_of_silent (hqueue : t'.queue = [])
    (horder : t'.order = if t.role = .client ∧ m.setsOrder then m.order else t.order)
    (hanswer : t.role.answer? t.config t'.order m = none) : t.Answered m (t.receive now m) := by
  rw [receive_of_dispatch h.opened hdispatch, flush_of_nil hfree hqueue]
  refine ⟨?_, ⟨hopen, hfree, hqueue, hsame.handler.trans h.handler⟩, hsame, horder⟩
  rw [hanswer]
  rfl

theorem answered_of_application {command : UInt8} {payload : ByteOrder → Bytes}
    (hqueue : t'.queue = [[.start command, .write payload, .finish]])
    (horder : t'.order = t.order) (hsets : m.setsOrder = false)
    (hanswer : t.role.answer? t.config t'.order m =
      some (.application command t'.order (t.role = .server) (payload t'.order))) :
    t.Answered m (t.receive now m) := by
  have hserver : decide (t'.role = .server) = decide (t.role = .server) := by rw [hsame.role]
  rw [receive_of_dispatch h.opened hdispatch, flush_of_application hopen hfree rfl hserver hqueue]
  refine ⟨?_, ⟨hopen, hfree, rfl, hsame.handler.trans h.handler⟩,
    hsame.trans ⟨rfl, rfl, rfl, rfl, rfl⟩, ?_⟩
  · show _ = (t.role.answer? t.config t'.order m).toList
    rw [hanswer]
    rfl
  · rw [if_neg (by simp [hsets])]
    exact horder

theorem answered_of_control {command : UInt8} {data : UInt32}
    (hqueue : t'.queue = [controlScript command data])
    (horder : t'.order = if t.role = .client ∧ m.setsOrder then m.order else t.order)
    (hanswer : t.role.answer? t.config t'.order m =
      some (.control command t'.order (t.role = .server) data)) :
    t.Answered m (t.receive now m) := by
  rw [receive_of_dispatch h.opened hdispatch, flush_of_control hopen hfree hqueue]
  refine ⟨?_, ⟨hopen, hfree, rfl, hsame.handler.trans h.handler⟩,
    hsame.trans ⟨rfl, rfl, rfl, rfl, rfl⟩, horder⟩
  show _ = (t.role.answer? t.config t'.order m).toList
  rw [hanswer, hsame.role]
  rfl

end

theorem answered_control (h : t.Idle) (hconcern : t.role.concern m = .control) (now : Instant) :
    t.Answered m (t.receive now m) := by
  have hcontrol : m.isControl = true := Role.concern_eq_control_iff.1 hconcern
  have hdispatch : t.dispatchAt now m = { t with lastActivity := now }.dispatchControl m := by
    unfold dispatchAt
    rw [dispatch_eq, hconcern]
  have hanswer (o : ByteOrder) : t.role.answer? t.config o m =
      if m.command = Command.echoRequest then
        some (.control Command.echoResponse o (t.role = .server) m.header.payloadSize)
      else none := by
    rw [Role.answer?_eq, hconcern]
  unfold dispatchControl at hdispatch
  by_cases hsets : m.command = Command.setByteOrder ∧ t.role = .client
  · have hecho : m.command ≠ Command.echoRequest := by
      rw [hsets.1]
      decide
    rw [if_pos hsets] at hdispatch
    refine h.answered_of_silent hdispatch ⟨rfl, rfl, rfl, rfl, rfl⟩ h.opened h.free h.queue ?_ ?_
    · exact (if_pos ⟨hsets.2, by simp [Message.setsOrder, hcontrol, hsets.1]⟩).symm
    · exact (hanswer _).trans (if_neg hecho)
  · have hkept : ¬ (t.role = .client ∧ m.setsOrder) := by
      rintro ⟨hrole, hsets'⟩
      rw [Message.setsOrder, Bool.and_eq_true, decide_eq_true_iff] at hsets'
      exact hsets ⟨hsets'.2, hrole⟩
    rw [if_neg hsets] at hdispatch
    by_cases hecho : m.command = Command.echoRequest
    · rw [if_pos hecho, answer_of_open (t := { t with lastActivity := now }) h.opened] at hdispatch
      refine h.answered_of_control hdispatch ⟨rfl, rfl, rfl, rfl, rfl⟩ h.opened h.free ?_
        (if_neg hkept).symm ((hanswer _).trans (if_pos hecho))
      show t.queue ++ _ = _
      rw [h.queue]
      rfl
    · rw [if_neg hecho] at hdispatch
      refine h.answered_of_silent hdispatch ⟨rfl, rfl, rfl, rfl, rfl⟩ h.opened h.free h.queue
        (if_neg hkept).symm ((hanswer _).trans (if_neg hecho))

theorem answered_greeting (h : t.Idle) (hconcern : t.role.concern m = .greeting) {g : Greeting}
    (hread : m.read Greeting.decode = .ok g) (now : Instant) :
    t.Answered m (t.receive now m) := by
  have hdispatch : t.dispatchAt now m =
      { transport :=
          { t with
            lastActivity := now
            peer := g.peerInfo m.header.version
            queue := [replyScript (.toGreeting g t.config)] } } := by
    unfold dispatchAt
    rw [dispatch_eq, hconcern]
    refine (dispatchGreeting_of_open (t := { t with lastActivity := now }) h.opened hread).trans ?_
    simp only [push, h.queue, List.nil_append]
  have hsets := Role.setsOrder_eq_false hconcern (by decide)
  refine h.answered_of_application hdispatch ⟨rfl, rfl, rfl, rfl, rfl⟩ h.opened h.free rfl rfl
    hsets ?_
  rw [Role.answer?_eq, hconcern]
  simp only [hread]
  rfl

theorem answered_reply (h : t.Idle) (hconcern : t.role.concern m = .reply) {r : Reply}
    (hread : m.read Reply.decode = .ok r) (now : Instant) :
    t.Answered m (t.receive now m) := by
  have hdispatch : t.dispatchAt now m =
      { transport :=
          { t with
            lastActivity := now
            peer := r.peerInfo m.header.version
            verification := (r.check t.config).outcome
            queue := [validatedScript (r.check t.config)] } } := by
    unfold dispatchAt
    rw [dispatch_eq, hconcern]
    refine (dispatchReply_of_open (t := { t with lastActivity := now }) h.opened hread).trans ?_
    simp only [push, h.queue, List.nil_append]
    rfl
  have hsets := Role.setsOrder_eq_false hconcern (by decide)
  refine h.answered_of_application hdispatch ⟨rfl, rfl, rfl, rfl, rfl⟩ h.opened h.free rfl rfl
    hsets ?_
  rw [Role.answer?_eq, hconcern]
  simp only [hread]
  rfl

theorem answered_echo (h : t.Idle) (hconcern : t.role.concern m = .echo) (now : Instant) :
    t.Answered m (t.receive now m) := by
  have hsets := Role.setsOrder_eq_false hconcern (by decide)
  have hkept : t.order = if t.role = .client ∧ m.setsOrder then m.order else t.order :=
    (if_neg (by simp [hsets])).symm
  cases hserver : m.header.isFromServer with
  | true =>
    have hdispatch : t.dispatchAt now m = { transport := { t with lastActivity := now } } := by
      unfold dispatchAt
      rw [dispatch_eq, hconcern]
      simp only [hserver, if_true]
    refine h.answered_of_silent hdispatch ⟨rfl, rfl, rfl, rfl, rfl⟩ h.opened h.free h.queue hkept ?_
    rw [Role.answer?_eq, hconcern]
    simp only [hserver, if_true]
  | false =>
    have hdispatch : t.dispatchAt now m =
        { transport := { t with lastActivity := now, queue := [echoScript m.payload] } } := by
      unfold dispatchAt
      rw [dispatch_eq, hconcern]
      simp only [hserver, Bool.false_eq_true, if_false]
      refine (answer_of_open (t := { t with lastActivity := now }) h.opened _).trans ?_
      simp only [push, h.queue, List.nil_append]
    refine h.answered_of_application hdispatch ⟨rfl, rfl, rfl, rfl, rfl⟩ h.opened h.free rfl rfl
      hsets ?_
    rw [Role.answer?_eq, hconcern]
    simp only [hserver, Bool.false_eq_true, if_false]

/-- A verdict and what would be for a handler are not answered. -/
theorem answered_of_unanswered (h : t.Idle) {t' : Transport}
    (hdispatch : t.dispatchAt now m = { transport := t' }) (hsame : SameEnd t t')
    (hopen : t'.closed = false) (hfree : t'.inHand = none) (hqueue : t'.queue = [])
    (horder : t'.order = t.order)
    (hconcern : t.role.concern m = .verdict ∨ t.role.concern m = .other) :
    t.Answered m (t.receive now m) := by
  have hsets : m.setsOrder = false := by
    rcases hconcern with h | h
    · exact Role.setsOrder_eq_false h (by decide)
    · exact Role.setsOrder_eq_false h (by decide)
  refine h.answered_of_silent hdispatch hsame hopen hfree hqueue ?_ ?_
  · rw [horder, if_neg (by simp [hsets])]
  · rw [Role.answer?_eq]
    rcases hconcern with h | h
    · rw [h]
    · rw [h]

/-- An idle transport answers a message that it reads, and is idle again. -/
theorem answered (h : t.Idle) (hreads : t.role.reads m = true) (now : Instant) :
    t.Answered m (t.receive now m) := by
  rw [Role.reads_eq] at hreads
  cases hconcern : t.role.concern m with
  | control => exact h.answered_control hconcern now
  | greeting =>
    cases hread : m.read Greeting.decode with
    | ok g => exact h.answered_greeting hconcern hread now
    | error e =>
      simp only [hconcern, hread] at hreads
      cases hreads
  | reply =>
    cases hread : m.read Reply.decode with
    | ok r => exact h.answered_reply hconcern hread now
    | error e =>
      simp only [hconcern, hread] at hreads
      cases hreads
  | verdict =>
    cases hread : m.read Status.decode with
    | ok status =>
      have hdispatch : t.dispatchAt now m =
          { transport := { t with lastActivity := now, verification := status.outcome } } := by
        unfold dispatchAt
        rw [dispatch_eq, hconcern]
        simp only [dispatchVerdict, hread]
        rfl
      exact h.answered_of_unanswered hdispatch ⟨rfl, rfl, rfl, rfl, rfl⟩ h.opened h.free h.queue rfl
        (.inl hconcern)
    | error e =>
      simp only [hconcern, hread] at hreads
      cases hreads
  | echo => exact h.answered_echo hconcern now
  | other =>
    have hdispatch : t.dispatchAt now m = { transport := { t with lastActivity := now } } := by
      unfold dispatchAt
      rw [dispatch_eq, hconcern]
      simp only [dispatchOther, h.handler]
    exact h.answered_of_unanswered hdispatch ⟨rfl, rfl, rfl, rfl, rfl⟩ h.opened h.free h.queue rfl
      (.inr hconcern)

end Idle

/-! ## A whole connection -/

/-- Receives messages one after the other, each when the answer to the one before is sent. -/
def hear : List (Instant × Message) → Transport → Activity × Transport
  | [], t => ({}, t)
  | (now, m) :: arrivals, t =>
    let (first, t) := t.receive now m
    let (rest, t) := hear arrivals t
    (first ++ rest, t)

theorem hear_append (before behind : List (Instant × Message)) (t : Transport) :
    hear (before ++ behind) t =
      ((hear before t).1 ++ (hear behind (hear before t).2).1,
        (hear behind (hear before t).2).2) := by
  induction before generalizing t with
  | nil => rfl
  | cons arrival before ih =>
    simp only [List.cons_append, hear, ih, Activity.append_assoc]

/-- A transport that has closed, and neither takes in nor sends anything any more. -/
structure Dead (t : Transport) : Prop where
  closed : t.closed = true
  deaf : t.listens = false
  free : t.inHand = none
  queue : t.queue = []

theorem Dead.receive_eq (h : t.Dead) (now : Instant) (m : Message) :
    t.receive now m = ({}, t) := by
  unfold receive
  rw [take_of_deaf h.deaf]
  simp only [flush_of_nil h.free h.queue]
  rfl

theorem Dead.hear_eq (h : t.Dead) (arrivals : List (Instant × Message)) :
    hear arrivals t = ({}, t) := by
  induction arrivals with
  | nil => rfl
  | cons arrival arrivals ih =>
    simp only [hear, h.receive_eq, ih]
    rfl

/-- The receiver of an open transport gives up. -/
theorem dead_stop (hopen : t.closed = false) (hfree : t.inHand = none) : t.stop.2.Dead := by
  refine ⟨t.closed_stop, t.listens_stop, ?_, ?_⟩
  all_goals
    unfold stop
    rw [close_of_open hopen]
  exact hfree

theorem sameEnd_hear (arrivals : List (Instant × Message)) (t : Transport) :
    SameEnd t (hear arrivals t).2 := by
  induction arrivals generalizing t with
  | nil => exact .refl t
  | cons arrival arrivals ih =>
    have hreceive : SameEnd t (t.receive arrival.1 arrival.2).2 := by
      rw [receive_eq_runAll]
      exact sameEnd_runAll _ t
    exact hreceive.trans (ih _)

theorem sent_close (t : Transport) : t.close.1.sent = [] := by
  cases hopen : t.closed with
  | true => rw [close_of_closed hopen]
  | false => rw [close_of_open hopen]

/-- Without a handler, what is not read is all that ends the connection. -/
theorem good_dispatch_eq_reads (hopen : t.closed = false) (hhandler : t.handler = none)
    (m : Message) : (t.dispatch m).good = t.role.reads m := by
  rw [good_dispatch_of_open hopen, Role.reads_eq, hhandler]
  cases t.role.concern m with
  | control | greeting | reply | verdict | echo | other => rfl

namespace Idle

/-- A part of the validation that is not read ends the connection without an answer. -/
theorem receive_of_not_reads (h : t.Idle) (hreads : t.role.reads m = false) (now : Instant) :
    (t.receive now m).1.sent = [] ∧ (t.receive now m).2.Dead := by
  have hbad : (t.dispatchAt now m).good = false :=
    (good_dispatchAt t now m).trans ((good_dispatch_eq_reads h.opened h.handler m).trans hreads)
  have hdead : (t.dispatchAt now m).transport.stop.2.Dead := by
    obtain ⟨order, peer, verification, scripts, htransport, -⟩ := exists_dispatchAt_eq t now m
    rw [htransport]
    exact dead_stop h.opened h.free
  unfold receive
  rw [take_of_bad (listens_of_open h.opened) hbad]
  simp only [flush_of_nil hdead.free hdead.queue]
  refine ⟨?_, hdead⟩
  rw [Activity.sent_append, Activity.sent_append]
  show [] ++ (t.dispatchAt now m).transport.close.1.sent ++ [] = []
  rw [sent_close]
  rfl

/-- As long as everything is read, everything is answered. -/
theorem hear_of_reads (h : t.Idle) {arrivals : List (Instant × Message)}
    (hreads : ∀ a ∈ arrivals, t.role.reads a.2 = true) :
    (hear arrivals t).1.sent = t.role.answers t.config t.order (arrivals.map (·.2)) ∧
      (hear arrivals t).2.Idle ∧ SameEnd t (hear arrivals t).2 ∧
      (hear arrivals t).2.order = t.role.orderAfter t.order (arrivals.map (·.2)) := by
  induction arrivals using List.reverseRecOn with
  | nil =>
    refine ⟨rfl, h, .refl t, ?_⟩
    show t.order = t.role.orderAfter t.order []
    cases t.role with
    | client | server => rfl
  | append_singleton arrivals arrival ih =>
    obtain ⟨hsent, hidle, hsame, horder⟩ := ih fun a ha => hreads a (List.mem_append_left _ ha)
    have hlast : (hear arrivals t).2.role.reads arrival.2 = true := by
      rw [hsame.role]
      exact hreads arrival (List.mem_append_right _ (List.mem_singleton.2 rfl))
    have hanswered := hidle.answered hlast arrival.1
    have hone : hear [arrival] (hear arrivals t).2 =
        (hear arrivals t).2.receive arrival.1 arrival.2 := by
      simp only [hear, Activity.append_empty]
    have horder' : ((hear arrivals t).2.receive arrival.1 arrival.2).2.order =
        t.role.orderAfter t.order (arrivals.map (·.2) ++ [arrival.2]) := by
      rw [hanswered.order, hsame.role, horder, Role.orderAfter_concat]
    rw [hear_append, hone, List.map_append, List.map_singleton, Role.answers_concat]
    refine ⟨?_, hanswered.idle, hsame.trans hanswered.sameEnd, horder'⟩
    rw [Activity.sent_append, hsent, hanswered.sent, horder', hsame.role, hsame.config]

/-- Nothing is answered from the first message on that is not read. -/
theorem hear_of_break (h : t.Idle) {arrivals : List (Instant × Message)}
    (hreads : ∀ a ∈ arrivals, t.role.reads a.2 = true) {last : Instant × Message}
    (hunread : t.role.reads last.2 = false) (rest : List (Instant × Message)) :
    (hear (arrivals ++ last :: rest) t).1.sent =
        t.role.answers t.config t.order (arrivals.map (·.2)) ∧
      (hear (arrivals ++ last :: rest) t).2.Dead := by
  obtain ⟨hsent, hidle, hsame, -⟩ := h.hear_of_reads hreads
  have hends := hidle.receive_of_not_reads (m := last.2) (by rw [hsame.role, hunread]) last.1
  have hlast : hear (last :: rest) (hear arrivals t).2 =
      (hear arrivals t).2.receive last.1 last.2 := by
    simp only [hear, hends.2.hear_eq, Activity.append_empty]
  rw [hear_append, hlast]
  refine ⟨?_, hends.2⟩
  rw [Activity.sent_append, hsent, hends.1, List.append_nil]

/-- What is read is answered in order, up to the first message that is not; with that the connection
ends. -/
theorem hear_eq (h : t.Idle) (arrivals : List (Instant × Message)) :
    (hear arrivals t).1.sent =
        t.role.answers t.config t.order ((arrivals.map (·.2)).takeWhile t.role.reads) ∧
      ((hear arrivals t).2.closed = true ↔
        ∃ m ∈ arrivals.map (·.2), t.role.reads m = false) := by
  let p : Instant × Message → Bool := fun a => t.role.reads a.2
  have hreads : ∀ a ∈ arrivals.takeWhile p, p a = true := List.all_eq_true.1 List.all_takeWhile
  have hheard : (arrivals.map (·.2)).takeWhile t.role.reads = (arrivals.takeWhile p).map (·.2) :=
    List.takeWhile_map ..
  have hsplit := List.takeWhile_append_dropWhile (p := p) (l := arrivals)
  rw [hheard]
  cases hrest : arrivals.dropWhile p with
  | nil =>
    rw [hrest, List.append_nil] at hsplit
    rw [hsplit] at hreads ⊢
    obtain ⟨hsent, hidle, -, -⟩ := h.hear_of_reads hreads
    refine ⟨hsent, iff_of_false (by simp [hidle.opened]) ?_⟩
    rintro ⟨m, hm, hunread⟩
    obtain ⟨a, ha, rfl⟩ := List.mem_map.1 hm
    exact absurd (hreads a ha) (by simp [p, hunread])
  | cons last rest =>
    have hunread : t.role.reads last.2 = false := by
      have hhead := List.head?_dropWhile_not p arrivals
      rw [hrest] at hhead
      simpa [p] using hhead
    have hends := h.hear_of_break hreads hunread rest
    rw [hrest] at hsplit
    rw [hsplit] at hends
    refine ⟨hends.1, iff_of_true hends.2.closed ⟨last.2, List.mem_map_of_mem ?_, hunread⟩⟩
    rw [← hsplit]
    exact List.mem_append_right _ List.mem_cons_self

/-- Such a transport is still idle, or it is dead. -/
theorem hear_idle_or_dead (h : t.Idle) (arrivals : List (Instant × Message)) :
    (hear arrivals t).2.Idle ∨ (hear arrivals t).2.Dead := by
  induction arrivals generalizing t with
  | nil => exact .inl h
  | cons arrival arrivals ih =>
    cases hreads : t.role.reads arrival.2 with
    | true => exact ih (h.answered hreads arrival.1).idle
    | false =>
      have hdead := (h.receive_of_not_reads hreads arrival.1).2
      right
      show (hear arrivals (t.receive arrival.1 arrival.2).2).2.Dead
      rw [hdead.hear_eq]
      exact hdead

end Idle

/-- An idle transport and a dead one answer an echo, if at all, with something that the other end
does not answer. -/
theorem sent_answer_eq_nil {t' : Transport} (h : t.Idle ∨ t.Dead)
    (h' : t'.Idle ∨ t'.Dead) (hother : t.role ≠ t'.role) (hecho : m.IsEcho)
    (hsender : m.header.isFromServer = decide (t'.role = .server)) {now now' : Instant}
    {a : Message} (ha : a ∈ (t.receive now m).1.sent) : (t'.receive now' a).1.sent = [] := by
  have hidle : t.Idle := by
    rcases h with hidle | hdead
    · exact hidle
    · rw [hdead.receive_eq] at ha
      cases ha
  have hanswer : ∃ o, t.role.answer? t.config o m = some a := by
    cases hreads : t.role.reads m with
    | true =>
      rw [(hidle.answered hreads now).sent, Option.mem_toList] at ha
      exact ⟨_, ha⟩
    | false =>
      rw [(hidle.receive_of_not_reads hreads now).1] at ha
      cases ha
  obtain ⟨o, hanswer⟩ := hanswer
  rcases h' with hidle' | hdead
  · cases hreads : t'.role.reads a with
    | true =>
      rw [(hidle'.answered hreads now').sent, Role.answer?_answer hother hecho hsender hanswer]
      rfl
    | false => exact (hidle'.receive_of_not_reads hreads now').1
  · rw [hdead.receive_eq]

theorem flush_server (remote : Endpoint) (config : TransportConfig)
    (handler : Option (Message → Bool)) :
    (server remote config handler).flush =
      ({ sent := [orderMessage config, greetingMessage config] },
        { server remote config handler with queue := [] }) := rfl

/-- What a transport without a handler sends is its part of the validation and the answers to what
comes in, in order and each in the order of octets that is in force, until a part of the validation
cannot be read; and two such transports do not answer each other's answers to echoes. -/
theorem answered_in_order (remote address : Endpoint) (priority : Int16)
    (server client : TransportConfig) (arrivals arrivals' : List (Instant × Message)) :
    let start := (Transport.server remote server none).flush
    let r := hear arrivals start.2
    let r' := hear arrivals' (.client address priority client none)
    let ms := arrivals.map (·.2)
    let ms' := arrivals'.map (·.2)
    (start.1.sent ++ r.1.sent =
        orderMessage server :: greetingMessage server ::
          (ms.takeWhile Role.server.reads).filterMap (Role.server.answer? server server.order) ∧
      (∀ a ∈ start.1.sent ++ r.1.sent,
        a.header.isFromServer = true ∧ a.order = server.order) ∧
      (r.2.closed = true ↔ ∃ m ∈ ms, Role.server.reads m = false)) ∧
    (r'.1.sent = Role.client.answers client .big (ms'.takeWhile Role.client.reads) ∧
      (∀ a ∈ r'.1.sent, a.header.isFromServer = false) ∧
      (r'.2.closed = true ↔ ∃ m ∈ ms', Role.client.reads m = false)) ∧
    ∀ m : Message, m.IsEcho → ∀ now now',
      (m.header.isFromServer = false →
        ∀ a ∈ (r.2.receive now m).1.sent, (r'.2.receive now' a).1.sent = []) ∧
      (m.header.isFromServer = true →
        ∀ a ∈ (r'.2.receive now m).1.sent, (r.2.receive now' a).1.sent = []) := by
  intro start r r' ms ms'
  have hstart : start = _ := flush_server remote server none
  have hidle : start.2.Idle := by
    rw [hstart]
    exact ⟨rfl, rfl, rfl, rfl⟩
  have hidle' : (Transport.client address priority client none).Idle := ⟨rfl, rfl, rfl, rfl⟩
  have hsent : r.1.sent =
      (ms.takeWhile Role.server.reads).filterMap (Role.server.answer? server server.order) :=
    (hidle.hear_eq arrivals).1.trans (Role.answers_server ..)
  have hfirst : start.1.sent = [orderMessage server, greetingMessage server] := by rw [hstart]
  have hrole : r.2.role = .server := (sameEnd_hear arrivals start.2).role.trans (by rw [hstart]; rfl)
  have hrole' : r'.2.role = .client := (sameEnd_hear arrivals' _).role
  have hend := hidle.hear_idle_or_dead arrivals
  have hend' := hidle'.hear_idle_or_dead arrivals'
  refine ⟨⟨?_, fun a ha => ?_, (hidle.hear_eq arrivals).2⟩,
    ⟨(hidle'.hear_eq arrivals').1, fun a ha => ?_, (hidle'.hear_eq arrivals').2⟩,
    fun m hecho now now' => ⟨fun hflag a ha => ?_, fun hflag a ha => ?_⟩⟩
  · rw [hfirst, hsent]
    rfl
  · rw [hfirst] at ha
    rcases List.mem_append.1 ha with ha | ha
    · rcases List.mem_pair.1 ha with rfl | rfl
      · exact ⟨Message.isFromServer_control .., Message.order_control ..⟩
      · exact ⟨Message.isFromServer_application .., Message.order_application ..⟩
    · rw [hsent] at ha
      obtain ⟨m, -, hanswer⟩ := List.mem_filterMap.1 ha
      exact Role.flags_of_answer? hanswer
  · rw [(hidle'.hear_eq arrivals').1] at ha
    exact Role.isFromServer_of_answers ha
  · refine sent_answer_eq_nil hend hend' ?_ hecho ?_ ha
    · rw [hrole, hrole']
      decide
    · rw [hflag, hrole']
      rfl
  · refine sent_answer_eq_nil hend' hend ?_ hecho ?_ ha
    · rw [hrole, hrole']
      decide
    · rw [hflag, hrole]
      rfl

/-- A server answers an echo with its payload, and the client leaves it at that. -/
theorem echo_answered_once :
    let server := (Transport.server (.any 0) {} none).flush
    let client := Transport.client (.any 0) 0 {} none
    let echo := Message.application Command.echo .big false [1, 2]
    let r := hear [(0, echo)] server.2
    server.1.sent ++ r.1.sent =
        [orderMessage {}, greetingMessage {}, .application Command.echo .big true [1, 2]] ∧
      echo.IsEcho ∧ ∀ a ∈ (r.2.receive 1 echo).1.sent, (client.receive 2 a).1.sent = [] := by
  intro server client echo r
  have hecho : echo.IsEcho := by decide
  have hanswered : [echo].takeWhile Role.server.reads = [echo] ∧
      Role.server.answer? {} .big echo = some (.application Command.echo .big true [1, 2]) := by
    decide
  obtain ⟨⟨hsent, -, -⟩, -, hanswers⟩ :=
    answered_in_order (.any 0) (.any 0) 0 {} {} [(0, echo)] []
  refine ⟨hsent.trans ?_, hecho, (hanswers echo hecho 1 2).1 (by decide)⟩
  show _ :: _ :: ([echo].takeWhile Role.server.reads).filterMap (Role.server.answer? {} .big) = _
  rw [hanswered.1, List.filterMap_cons, hanswered.2]
  rfl

end Transport

end PvNet
