import PvNet.Proofs.Connection.Handshake
set_option autoImplicit false

/-!
# What a server's end serves

A server's end hands every application message that it takes in to its handler but the
two that it answers itself, a reply to its greeting and an echo, and it does so whether or
not the connection has been validated: the validation is a state that the handler can ask
for, not a gate in front of it.  What that state says is what the client's replies were
worth that came in while the transport was open.  One that is closed goes on with what has
come in before, until there is something to answer.
-/

namespace PvNet

namespace Message

/-- The message is a client's reply that cannot be read. -/
def IsUnreadableReply (m : Message) : Prop :=
  m.isApplication Command.validation = true ∧ (m.read Reply.decode).toOption = none

/-- The handler, if there is one, does not accept the request. -/
def IsRefusedBy (m : Message) (handler : Option (Message → Bool)) : Prop :=
  m.IsRequest ∧ ∃ accepts, handler = some accepts ∧ accepts m = false

/-- A server's end has an answer to the message. -/
def WantsAnswer (m : Message) : Prop :=
  (m.isControl = true ∧ m.command = Command.echoRequest) ∨
    m.isApplication Command.validation = true ∨
    (m.isApplication Command.echo = true ∧ m.header.isFromServer = false)

/-- The message is a client's reply, and whether a server with the configuration accepts it. -/
def Judged (config : TransportConfig) (accepted : Bool) (m : Message) : Prop :=
  m.isApplication Command.validation = true ∧
    ∃ r, m.read Reply.decode = .ok r ∧ (r.check config).isSuccess = accepted

end Message

/-- A reply among the messages is accepted, and none after it is rejected. -/
def Accepted (config : TransportConfig) (messages : List Message) : Prop :=
  ∃ before reply behind, messages = before ++ reply :: behind ∧ reply.Judged config true ∧
    ∀ later ∈ behind, ¬ later.Judged config false

namespace Transport

variable {remote : Endpoint} {config : TransportConfig} {handler : Option (Message → Bool)}

/-- The messages that a transport takes in while it is open. -/
def heardOpen : List TransportStep → Transport → List Message
  | [], _ => []
  | step :: steps, t =>
    (if t.closed then [] else (t.heard? step).toList) ++ heardOpen steps (step.run t).2

/-- A server's end judges by what it takes in while it is open. -/
theorem verdicts_of_server {t : Transport} (hrole : t.role = .server) (steps : List TransportStep) :
    verdicts steps t = (heardOpen steps t).filterMap t.verdict? := by
  induction steps generalizing t with
  | nil => rfl
  | cons step steps ih =>
    have hsame : SameEnd t (step.run t).2 := (stepped_run t step).sameEnd
    have hverdict : (step.run t).2.verdict? = t.verdict? := funext hsame.verdict?_eq
    rw [verdicts_cons, ih (hsame.role.trans hrole), hverdict, heardOpen, List.filterMap_append]
    congr 1
    unfold heardVerdict?
    cases hopen : t.closed with
    | true =>
      have hjudged : t.judged? = fun _ => none := funext fun m => if_pos ⟨hopen, hrole⟩
      rw [hjudged, Option.bind_fun_none, if_pos rfl]
      rfl
    | false =>
      have hjudged : t.judged? = t.verdict? := funext (judged?_of_not (by simp [hopen]))
      rw [hjudged, if_neg Bool.false_ne_true]
      cases t.heard? step with
      | none => rfl
      | some m =>
        show (t.verdict? m).toList = [m].filterMap t.verdict?
        cases hm : t.verdict? m with
        | none => rw [List.filterMap_cons_none hm]; rfl
        | some status => rw [List.filterMap_cons_some hm]; rfl

theorem verdict?_server_eq_some_iff {m : Message} {status : Status} :
    (Transport.server remote config handler).verdict? m = some status ↔
      m.isApplication Command.validation = true ∧
        ∃ r, m.read Reply.decode = .ok r ∧ r.check config = status := by
  rw [← Role.concern_server_eq_reply_iff]
  have hrole : (Transport.server remote config handler).role = .server := rfl
  by_cases hreply : Role.server.concern m = .reply
  · cases hread : m.read Reply.decode with
    | error e =>
      simp only [verdict?, hrole, hreply, hread]
      simp [Except.toOption]
    | ok r =>
      simp only [verdict?, hrole, hreply, hread]
      constructor
      · intro hstatus
        exact ⟨trivial, r, rfl, Option.some.inj hstatus⟩
      · rintro ⟨-, r', hr', rfl⟩
        cases hr'
        rfl
  · have hverdict : Role.server.concern m ≠ .verdict := by
      rcases Role.concern_server_cases m with ⟨-, h⟩ | ⟨-, -, h⟩ | ⟨-, -, h⟩ | ⟨-, h⟩
      all_goals simp [h]
    rw [verdict?_eq_none (t := .server remote config handler) rfl hreply hverdict]
    simp [hreply]

theorem judged_iff {m : Message} {accepted : Bool} :
    m.Judged config accepted ↔
      ∃ status, (Transport.server remote config handler).verdict? m = some status ∧
        status.isSuccess = accepted := by
  constructor
  · rintro ⟨hreply, r, hread, hcheck⟩
    exact ⟨r.check config, verdict?_server_eq_some_iff.2 ⟨hreply, r, hread, rfl⟩, hcheck⟩
  · rintro ⟨status, hverdict, hsuccess⟩
    obtain ⟨hreply, r, hread, rfl⟩ := verdict?_server_eq_some_iff.1 hverdict
    exact ⟨hreply, r, hread, hsuccess⟩

/-- The last verdict of a history is a success exactly if one was and no later one was not. -/
theorem last_verdict_isSuccess_iff (verdict? : Message → Option Status) (history : List Message) :
    (∃ status, (history.filterMap verdict?).getLast? = some status ∧ status.isSuccess = true) ↔
      ∃ before m behind, history = before ++ m :: behind ∧
        (∃ status, verdict? m = some status ∧ status.isSuccess = true) ∧
        ∀ m' ∈ behind, ¬ ∃ status, verdict? m' = some status ∧ status.isSuccess = false := by
  constructor
  · rintro ⟨status, hlast, hsuccess⟩
    obtain ⟨earlier, hsplit⟩ := List.getLast?_eq_some_iff.1 hlast
    obtain ⟨before, rest, rfl, -, hrest⟩ := List.filterMap_eq_append_iff.1 hsplit
    obtain ⟨between, m, behind, rfl, -, hm, hbehind⟩ := List.filterMap_eq_cons_iff.1 hrest
    refine ⟨before ++ between, m, behind, by simp, ⟨status, hm, hsuccess⟩, ?_⟩
    rintro m' hm' ⟨status', hstatus', -⟩
    have hnone := List.filterMap_eq_nil_iff.1 hbehind m' hm'
    rw [hnone] at hstatus'
    cases hstatus'
  · rintro ⟨before, m, behind, rfl, ⟨status, hm, hsuccess⟩, hlater⟩
    rw [List.filterMap_append, List.filterMap_cons_some hm, List.getLast?_append]
    cases hbehind : (behind.filterMap verdict?).getLast? with
    | none =>
      rw [List.getLast?_eq_none_iff.1 hbehind]
      exact ⟨status, rfl, hsuccess⟩
    | some status' =>
      rw [List.getLast?_cons, hbehind]
      refine ⟨status', rfl, ?_⟩
      obtain ⟨m', hm', hstatus'⟩ := List.mem_filterMap.1 (List.mem_of_getLast? hbehind)
      cases hsuccess' : status'.isSuccess with
      | true => rfl
      | false => exact absurd ⟨status', hstatus', hsuccess'⟩ (hlater m' hm')

/-- A fresh end is verified exactly if the last verdict was a success. -/
theorem isVerified_runAll_iff {t : Transport} (hpending : t.verification = .pending)
    (steps : List TransportStep) :
    (runAll steps t).2.isVerified = true ↔
      ∃ status, (verdicts steps t).getLast? = some status ∧ status.isSuccess = true := by
  unfold isVerified
  rw [verification_runAll, hpending, decide_eq_true_iff]
  cases (verdicts steps t).getLast? with
  | none => simp
  | some status => simp [Status.outcome_eq_verified_iff]

theorem serves_iff {t : Transport} (hrole : t.role = .server) (m : Message) :
    t.serves m = true ↔ t.handler.isSome = true ∧ m.IsRequest := by
  unfold serves
  rw [hrole, Bool.and_eq_true, decide_eq_true_iff, Role.concern_server_eq_other_iff]

/-- At most the message itself is handed over when it comes in. -/
theorem messages_take {t : Transport} (hrole : t.role = .server) (hhandler : t.handler = handler)
    (now : Instant) (m : Message) :
    (t.take now m).1.messages =
      if t.listens = true ∧ handler.isSome = true ∧ m.IsRequest then [m] else [] := by
  rw [(stepped_take t now m).messages]
  cases hlistens : t.listens with
  | false =>
    have hheard : t.heard? (.take now m) = none := if_neg (by simp [hlistens])
    rw [hheard, if_neg (by simp)]
    rfl
  | true =>
    have hheard : t.heard? (.take now m) = some m := if_pos hlistens
    rw [hheard, Option.toList_some]
    by_cases hserved : handler.isSome = true ∧ m.IsRequest
    · have hserves : t.serves m = true := (serves_iff hrole m).2 (hhandler ▸ hserved)
      rw [if_pos ⟨rfl, hserved⟩, List.filter_cons_of_pos hserves, List.filter_nil]
    · have hserves : ¬ t.serves m = true := fun h => hserved (hhandler ▸ (serves_iff hrole m).1 h)
      rw [if_neg fun h => hserved h.2, List.filter_cons_of_neg hserves, List.filter_nil]

/-- What the receiver of a server's end cannot go on after is a reply that cannot be read, a message
that the handler refuses, and, if the end is closed, one that is to be answered. -/
theorem good_dispatch_eq_false_iff {t : Transport} (hrole : t.role = .server)
    (hhandler : t.handler = handler) (m : Message) :
    (t.dispatch m).good = false ↔
      m.IsUnreadableReply ∨ m.IsRefusedBy handler ∨ (t.closed = true ∧ m.WantsAnswer) := by
  have hvalidation : Command.validation ≠ Command.echo := by decide
  rw [good_dispatch, hrole, hhandler]
  unfold Message.IsUnreadableReply Message.IsRefusedBy Message.WantsAnswer Message.IsRequest
    Message.isApplication
  rcases Role.concern_server_cases m with ⟨hcontrol, hconcern⟩ | ⟨hcontrol, hcommand, hconcern⟩ |
    ⟨hcontrol, hcommand, hconcern⟩ | ⟨⟨hcontrol, hreply, hecho⟩, hconcern⟩
  · simp [hconcern, hcontrol]
  · cases (m.read Reply.decode).toOption with
    | none => simp [hconcern, hcontrol, hcommand]
    | some r => simp [hconcern, hcontrol, hcommand, hvalidation]
  · simp [hconcern, hcontrol, hcommand, hvalidation.symm, and_comm]
  · cases handler with
    | none => simp [hconcern, hcontrol, hreply, hecho]
    | some accepts => simp [hconcern, hcontrol, hreply, hecho]

/-- A receiver that listens gives up at a message that it cannot go on after. -/
theorem listens_take {t : Transport} (hlistens : t.listens = true) (now : Instant) (m : Message) :
    (t.take now m).2.listens = (t.dispatch m).good := by
  rw [← good_dispatchAt t now]
  cases hgood : (t.dispatchAt now m).good with
  | true =>
    obtain ⟨order, peer, verification, scripts, htransport, -⟩ := exists_dispatchAt_eq t now m
    rw [take_of_good hlistens hgood, htransport]
    exact hlistens
  | false =>
    rw [take_of_bad hlistens hgood]
    exact listens_stop _

/-- What a server's end hands to its handler, what the validation says at that moment, what closes
the connection and what the receiver gives up at, whatever the peer sends and whatever else happens:
the state of the validation has no part in what is handed over. -/
theorem served_whatever_judged (remote : Endpoint) (config : TransportConfig)
    (handler : Option (Message → Bool)) (steps : List TransportStep) (now : Instant) (m : Message) :
    let start := Transport.server remote config handler
    let t := (runAll steps start).2
    (runAll steps start).1.messages =
      (heard steps start).filter (fun m => handler.isSome ∧ m.IsRequest) ∧
    (t.take now m).1.messages =
      (if t.listens = true ∧ handler.isSome = true ∧ m.IsRequest then [m] else []) ∧
    (t.isVerified = true ↔ Accepted config (heardOpen steps start)) ∧
    (t.closed = false → t.listens = true ∧
      ((t.take now m).2.closed = true ↔ m.IsUnreadableReply ∨ m.IsRefusedBy handler)) ∧
    (t.listens = true →
      ((t.take now m).2.listens = false ↔
        m.IsUnreadableReply ∨ m.IsRefusedBy handler ∨ (t.closed = true ∧ m.WantsAnswer))) := by
  intro start t
  have hsame : SameEnd start t := sameEnd_runAll steps start
  have hbad := good_dispatch_eq_false_iff hsame.role hsame.handler m
  refine ⟨?_, ?_, ?_, fun hopen => ⟨listens_of_open hopen, ?_⟩, fun hlistens => ?_⟩
  · rw [messages_runAll]
    exact List.filter_congr fun m _ => Bool.eq_iff_iff.2 <| by
      rw [serves_iff rfl, decide_eq_true_iff]
      rfl
  · exact messages_take hsame.role hsame.handler now m
  · rw [isVerified_runAll_iff rfl, verdicts_of_server rfl]
    unfold Accepted
    simp only [@judged_iff remote config handler]
    exact last_verdict_isSuccess_iff _ _
  · rw [closed_take hopen, Bool.not_eq_true', hbad]
    simp [hopen, start, server, fresh]
  · rw [listens_take hlistens, hbad]
    rfl

/-- What has come in before somebody closes the transport is handed over after that. -/
example :
    let m := Message.application 20 .big false [1, 2, 3]
    (runAll [.close, .take 0 m] (.server (.any 0) {} (some fun _ => true))).1.messages = [m] := rfl

/-- A reply that chooses a plugin which a server does not offer unless it is configured to. -/
def unsupportedReply : Message :=
  .application Command.validation .big false (Reply.encode .big ⟨16384, 0x7FFF, 0, "krb5"⟩)

theorem judged_unsupportedReply : unsupportedReply.Judged {} false := by
  have hreads : Reply.decode.Reads .big () (Reply.encode .big ⟨16384, 0x7FFF, 0, "krb5"⟩)
      ⟨16384, 0x7FFF, 0, "krb5"⟩ () :=
    Reply.reads_decode .big () (by decide)
  exact ⟨rfl, _, Message.read_application hreads, by decide⟩

/-- The connection survives a rejected reply. -/
theorem closed_of_judged {t : Transport} {accepted : Bool} (hopen : t.closed = false)
    (hrole : t.role = .server) {m : Message} (hm : m.Judged config accepted) (now : Instant) :
    (t.take now m).2.closed = false := by
  obtain ⟨hreply, r, hread, -⟩ := hm
  rw [closed_take hopen, good_dispatch_of_open hopen, hrole,
    Role.concern_server_eq_reply_iff.2 hreply]
  simp only [hread]
  rfl

/-- A message is handed over before any reply came, and after the only reply was rejected. -/
theorem served_unjudged_and_rejected :
    let start := Transport.server (.any 0) {} (some fun _ => true)
    let refused := (runAll [.take 0 unsupportedReply] start).2
    let m := Message.application 20 .big false [1, 2, 3]
    ((start.take 0 m).1.messages = [m] ∧ ¬ Accepted {} (heardOpen [] start)) ∧
      (refused.take 0 m).1.messages = [m] ∧
        ¬ Accepted {} (heardOpen [.take 0 unsupportedReply] start) := by
  intro start refused m
  have hopen : refused.closed = false :=
    closed_of_judged (t := start) rfl rfl judged_unsupportedReply 0
  have hsame : SameEnd start refused := sameEnd_runAll _ start
  have hheard : heardOpen [.take 0 unsupportedReply] start = [unsupportedReply] := rfl
  refine ⟨⟨?_, ?_⟩, ?_, ?_⟩
  · rw [messages_take (t := start) rfl rfl, if_pos (by decide)]
  · rintro ⟨before, reply, behind, hnone, -⟩
    exact absurd hnone (by simp [heardOpen])
  · rw [messages_take hsame.role hsame.handler, if_pos ⟨listens_of_open hopen, rfl, by decide⟩]
  · rintro ⟨before, reply, behind, hone, ⟨-, r, hread, haccepted⟩, -⟩
    obtain ⟨-, r', hread', hrejected⟩ := judged_unsupportedReply
    have hmem : reply ∈ heardOpen [.take 0 unsupportedReply] start := by
      rw [hone]
      simp
    rw [hheard, List.mem_singleton] at hmem
    rw [hmem, hread'] at hread
    cases hread
    rw [hrejected] at haccepted
    cases haccepted

end Transport

end PvNet
