import PvNet.Proofs.Connection.Steps
set_option autoImplicit false

/-!
# What a transport makes of messages

What a message is to a transport depends on the command and on the end alone
(`Role.concern`).  Two things follow for every order in which messages come in and
everything else happens in between, the closing of the transport included: the state of the
validation is that of the verdict that was noted last (`verification_runAll`), and the handler
is given the messages that concern nobody else, whatever that state is (`messages_runAll`).
-/

namespace PvNet

/-- What a message is to one end of a connection. -/
inductive Concern where
  /-- A control message. -/
  | control
  /-- To a client, how the server introduces itself. -/
  | greeting
  /-- To a server, how the client introduces itself. -/
  | reply
  /-- To a client, the outcome of the validation. -/
  | verdict
  | echo
  /-- Something for the handler. -/
  | other
  deriving DecidableEq, Repr

/-- What a message is to the end with a role. -/
def Role.concern (role : Role) (m : Message) : Concern :=
  if m.isControl then .control
  else if m.command = Command.validation then
    match role with
    | .client => .greeting
    | .server => .reply
  else if m.command = Command.validated ∧ role = .client then .verdict
  else if m.command = Command.echo then .echo
  else .other

/-- An application message that a server's end does not answer itself. -/
def Message.IsRequest (m : Message) : Prop :=
  m.isControl = false ∧ m.command ≠ Command.validation ∧ m.command ≠ Command.echo

instance (m : Message) : Decidable m.IsRequest :=
  inferInstanceAs (Decidable (_ ∧ _ ∧ _))

namespace Role

variable {role : Role} {m : Message}

/-- A server's end gives no part of its own to a verdict. -/
theorem concern_server (m : Message) :
    Role.server.concern m =
      if m.isControl then .control
      else if m.command = Command.validation then .reply
      else if m.command = Command.echo then .echo
      else .other := by
  have hverdict : ¬ (m.command = Command.validated ∧ Role.server = .client) := by
    rintro ⟨-, hrole⟩
    cases hrole
  unfold concern
  rw [if_neg hverdict]

/-- What a message is to a server's end, and when. -/
theorem concern_server_cases (m : Message) :
    (m.isControl = true ∧ Role.server.concern m = .control) ∨
    (m.isControl = false ∧ m.command = Command.validation ∧ Role.server.concern m = .reply) ∨
    (m.isControl = false ∧ m.command = Command.echo ∧ Role.server.concern m = .echo) ∨
    (m.IsRequest ∧ Role.server.concern m = .other) := by
  rw [concern_server]
  cases hcontrol : m.isControl with
  | true => exact .inl ⟨rfl, if_pos rfl⟩
  | false =>
    rw [if_neg Bool.false_ne_true]
    by_cases hvalidation : m.command = Command.validation
    · exact .inr (.inl ⟨rfl, hvalidation, if_pos hvalidation⟩)
    · rw [if_neg hvalidation]
      by_cases hecho : m.command = Command.echo
      · exact .inr (.inr (.inl ⟨rfl, hecho, if_pos hecho⟩))
      · exact .inr (.inr (.inr ⟨⟨hcontrol, hvalidation, hecho⟩, if_neg hecho⟩))

theorem concern_server_eq_reply_iff :
    Role.server.concern m = .reply ↔ m.isApplication Command.validation = true := by
  have hdistinct : Command.echo ≠ Command.validation := by decide
  unfold Message.isApplication
  rcases concern_server_cases m with ⟨hcontrol, h⟩ | ⟨hcontrol, hvalidation, h⟩ |
    ⟨hcontrol, hecho, h⟩ | ⟨⟨hcontrol, hvalidation, -⟩, h⟩
  · simp [h, hcontrol]
  · simp [h, hcontrol, hvalidation]
  · simp [h, hcontrol, hecho, hdistinct]
  · simp [h, hcontrol, hvalidation]

/-- Only a server's end gets a reply. -/
theorem eq_server_of_reply (h : role.concern m = .reply) : role = .server := by
  cases role with
  | server => rfl
  | client => grind [concern]

/-- Only a client's end is told a verdict. -/
theorem eq_client_of_verdict (h : role.concern m = .verdict) : role = .client := by
  cases role with
  | client => rfl
  | server => grind [concern]

theorem concern_server_eq_other_iff : Role.server.concern m = .other ↔ m.IsRequest := by
  rcases concern_server_cases m with ⟨hcontrol, h⟩ | ⟨-, hvalidation, h⟩ | ⟨-, hecho, h⟩ |
    ⟨hrequest, h⟩
  · simp [h, Message.IsRequest, hcontrol]
  · simp [h, Message.IsRequest, hvalidation]
  · simp [h, Message.IsRequest, hecho]
  · simp [h, hrequest]

end Role

/-- The state of the validation that a verdict leads to. -/
def Status.outcome (s : Status) : Verification :=
  if s.isSuccess then .verified else .failed s.message

namespace Status

variable {s : Status}

theorem outcome_ne_pending (s : Status) : s.outcome ≠ .pending := by
  unfold outcome
  by_cases h : s.isSuccess
  · rw [if_pos h]
    exact Verification.noConfusion
  · rw [if_neg h]
    exact Verification.noConfusion

theorem outcome_eq_verified_iff : s.outcome = .verified ↔ s.isSuccess = true := by
  unfold outcome
  by_cases h : s.isSuccess
  · simp [h]
  · simp [h]

end Status

namespace Transport

variable {t : Transport} {m : Message} {now : Instant}

/-! ## One message -/

/-- Handling a message is a matter of what it is to this end. -/
theorem dispatch_eq (t : Transport) (m : Message) :
    t.dispatch m =
      match t.role.concern m with
      | .control => t.dispatchControl m
      | .greeting => t.dispatchGreeting m
      | .reply => t.dispatchReply m
      | .verdict => t.dispatchVerdict m
      | .echo =>
        if m.header.isFromServer then { transport := t } else t.answer (echoScript m.payload)
      | .other => t.dispatchOther m := by
  unfold dispatch Role.concern
  by_cases hcontrol : m.isControl
  · rw [if_pos hcontrol, if_pos hcontrol]
  · rw [if_neg hcontrol, if_neg hcontrol]
    by_cases hvalidation : m.command = Command.validation
    · rw [if_pos hvalidation, if_pos hvalidation]
      cases t.role with
      | client => rfl
      | server => rfl
    · rw [if_neg hvalidation, if_neg hvalidation]
      by_cases hvalidated : m.command = Command.validated ∧ t.role = .client
      · rw [if_pos hvalidated, if_pos hvalidated]
      · rw [if_neg hvalidated, if_neg hvalidated]
        by_cases hecho : m.command = Command.echo
        · rw [if_pos hecho, if_pos hecho]
        · rw [if_neg hecho, if_neg hecho]

theorem dispatchGreeting_of_open {g : Greeting} (hopen : t.closed = false)
    (hread : m.read Greeting.decode = .ok g) :
    t.dispatchGreeting m =
      { transport :=
          { t with peer := g.peerInfo m.header.version }.push
            (replyScript (.toGreeting g t.config)) } := by
  unfold dispatchGreeting
  simp only [hread]
  exact answer_of_open (t := { t with peer := g.peerInfo m.header.version }) hopen _

theorem dispatchReply_of_open {r : Reply} (hopen : t.closed = false)
    (hread : m.read Reply.decode = .ok r) :
    t.dispatchReply m =
      { transport :=
          ({ t with peer := r.peerInfo m.header.version }.push
            (validatedScript (r.check t.config))).verified (r.check t.config) } := by
  unfold dispatchReply
  simp only [hread]
  rw [answer_of_open (t := { t with peer := r.peerInfo m.header.version }) hopen, if_pos rfl]

/-- All that handling a message touches: the byte order, what is known about the peer, the state of
the validation, and, as long as the transport is open, the end of the queue. -/
theorem exists_dispatch_eq (t : Transport) (m : Message) :
    ∃ order peer verification scripts,
      (t.dispatch m).transport =
          { t with order, peer, verification, queue := t.queue ++ scripts } ∧
        (t.closed = true → scripts = []) := by
  have hkept (order : ByteOrder) (peer : PeerInfo) (verification : Verification) :
      ∃ order' peer' verification' scripts,
        ({ t with order, peer, verification } : Transport) =
            { t with
              order := order', peer := peer', verification := verification'
              queue := t.queue ++ scripts } ∧
          (t.closed = true → scripts = []) :=
    ⟨order, peer, verification, [], by rw [List.append_nil], fun _ => rfl⟩
  have hanswer (peer : PeerInfo) (script : Script) :
      ∃ order peer' verification scripts,
        ({ t with peer := peer }.answer script).transport =
            { t with order, peer := peer', verification, queue := t.queue ++ scripts } ∧
          (t.closed = true → scripts = []) := by
    rcases Bool.eq_false_or_eq_true t.closed with hclosed | hopen
    · rw [answer_of_closed (t := { t with peer }) hclosed]
      exact hkept t.order peer t.verification
    · rw [answer_of_open (t := { t with peer }) hopen]
      exact ⟨t.order, peer, t.verification, [script], rfl,
        fun hclosed => absurd (hopen.symm.trans hclosed) Bool.false_ne_true⟩
  rw [dispatch_eq]
  cases t.role.concern m with
  | control =>
    show ∃ order peer verification scripts, (t.dispatchControl m).transport =
      { t with order, peer, verification, queue := t.queue ++ scripts } ∧ _
    unfold dispatchControl
    by_cases horder : m.command = Command.setByteOrder ∧ t.role = .client
    · rw [if_pos horder]
      exact hkept m.order t.peer t.verification
    · rw [if_neg horder]
      by_cases hecho : m.command = Command.echoRequest
      · rw [if_pos hecho]
        exact hanswer t.peer _
      · rw [if_neg hecho]
        exact hkept t.order t.peer t.verification
  | greeting =>
    cases hread : m.read Greeting.decode with
    | error e =>
      simp only [dispatchGreeting, hread]
      exact hkept t.order t.peer t.verification
    | ok g =>
      simp only [dispatchGreeting, hread]
      exact hanswer (g.peerInfo m.header.version) _
  | reply =>
    cases hread : m.read Reply.decode with
    | error e =>
      simp only [dispatchReply, hread]
      exact hkept t.order t.peer t.verification
    | ok r =>
      simp only [dispatchReply, hread]
      obtain ⟨order, peer, verification, scripts, htransport, hscripts⟩ :=
        hanswer (r.peerInfo m.header.version) (validatedScript (r.check t.config))
      split
      · exact ⟨order, peer, _, scripts, congrArg (verified · (r.check t.config)) htransport,
          hscripts⟩
      · exact ⟨order, peer, verification, scripts, htransport, hscripts⟩
  | verdict =>
    cases hread : m.read Status.decode with
    | error e =>
      simp only [dispatchVerdict, hread]
      exact hkept t.order t.peer t.verification
    | ok status =>
      simp only [dispatchVerdict, hread]
      exact hkept t.order t.peer (t.verified status).verification
  | echo =>
    cases hserver : m.header.isFromServer with
    | true => exact hkept t.order t.peer t.verification
    | false => exact hanswer t.peer _
  | other =>
    have hsame : (t.dispatchOther m).transport = t := by
      unfold dispatchOther
      cases t.handler with
      | none => rfl
      | some accepts => rfl
    show ∃ order peer verification scripts, (t.dispatchOther m).transport =
      { t with order, peer, verification, queue := t.queue ++ scripts } ∧ _
    rw [hsame]
    exact hkept t.order t.peer t.verification

/-- The verdict on the connection that a message leads to, if it is one to this end: a server judges
by the reply, a client is told. -/
def verdict? (t : Transport) (m : Message) : Option Status :=
  match t.role.concern m with
  | .reply => (m.read Reply.decode).toOption.map (·.check t.config)
  | .verdict => (m.read Status.decode).toOption
  | _ => none

/-- The verdict that a message leads to and that is noted down: a server whose end is closed cannot
give a verdict any more. -/
def judged? (t : Transport) (m : Message) : Option Status :=
  if t.closed = true ∧ t.role = .server then none else t.verdict? m

/-- Whether a message is for the handler, and there is one. -/
def serves (t : Transport) (m : Message) : Bool :=
  t.handler.isSome && t.role.concern m = .other

/-- What is fixed when a transport is opened. -/
structure SameEnd (t t' : Transport) : Prop where
  role : t'.role = t.role
  remote : t'.remote = t.remote
  priority : t'.priority = t.priority
  config : t'.config = t.config
  handler : t'.handler = t.handler

namespace SameEnd

variable {t' t'' : Transport}

theorem refl (t : Transport) : SameEnd t t := ⟨rfl, rfl, rfl, rfl, rfl⟩

theorem trans (h : SameEnd t t') (h' : SameEnd t' t'') : SameEnd t t'' :=
  ⟨h'.role.trans h.role, h'.remote.trans h.remote, h'.priority.trans h.priority,
    h'.config.trans h.config, h'.handler.trans h.handler⟩

theorem verdict?_eq (h : SameEnd t t') (m : Message) : t'.verdict? m = t.verdict? m := by
  unfold verdict?
  rw [h.role, h.config]

theorem serves_eq (h : SameEnd t t') (m : Message) : t'.serves m = t.serves m := by
  unfold serves
  rw [h.role, h.handler]

end SameEnd

/-- What handling a message leaves and changes. -/
structure Handled (t : Transport) (m : Message) (d : Dispatch) : Prop where
  sameEnd : SameEnd t d.transport
  closed : d.transport.closed = t.closed
  verification : d.transport.verification = ((t.judged? m).map Status.outcome).getD t.verification
  events : d.events = if t.serves m then [.message m] else []

namespace Handled

/-- Handling a message that says nothing about the validation and is not for the handler. -/
theorem of_quiet {d : Dispatch} (hsame : SameEnd t d.transport)
    (hclosed : d.transport.closed = t.closed)
    (hkept : d.transport.verification = t.verification) (hevents : d.events = [])
    (hjudged : t.judged? m = none) (hserves : t.serves m = false) : t.Handled m d where
  sameEnd := hsame
  closed := hclosed
  verification := by
    rw [hjudged]
    exact hkept
  events := by
    rw [hserves]
    exact hevents

/-- The same of one that is answered besides, if the transport is open. -/
theorem of_answer {t' : Transport} {script : Script} (hsame : SameEnd t t')
    (hclosed : t'.closed = t.closed) (hkept : t'.verification = t.verification)
    (hjudged : t.judged? m = none) (hserves : t.serves m = false) :
    t.Handled m (t'.answer script) := by
  cases hopen : t'.closed with
  | true =>
    rw [answer_of_closed hopen]
    exact .of_quiet hsame hclosed hkept rfl hjudged hserves
  | false =>
    rw [answer_of_open hopen]
    exact .of_quiet (hsame.trans ⟨rfl, rfl, rfl, rfl, rfl⟩) hclosed hkept rfl hjudged hserves

end Handled

section

variable {c : Concern}

theorem verdict?_eq_none (h : t.role.concern m = c) (hreply : c ≠ .reply)
    (hverdict : c ≠ .verdict) : t.verdict? m = none := by
  unfold verdict?
  rw [h]
  cases c with
  | reply => exact absurd rfl hreply
  | verdict => exact absurd rfl hverdict
  | control | greeting | echo | other => rfl

theorem judged?_eq_none (h : t.role.concern m = c) (hreply : c ≠ .reply)
    (hverdict : c ≠ .verdict) : t.judged? m = none := by
  unfold judged?
  rw [verdict?_eq_none h hreply hverdict, ite_self]

/-- An open transport notes down every verdict, and a client's end does so even when it is
closed. -/
theorem judged?_of_not (h : ¬ (t.closed = true ∧ t.role = .server)) (m : Message) :
    t.judged? m = t.verdict? m := if_neg h

theorem serves_eq_false (h : t.role.concern m = c) (hother : c ≠ .other) :
    t.serves m = false := by
  unfold serves
  rw [h]
  simp [hother]

end

theorem handled_dispatchControl (h : t.role.concern m = .control) :
    t.Handled m (t.dispatchControl m) := by
  have hjudged : t.judged? m = none := judged?_eq_none h (by decide) (by decide)
  have hserves : t.serves m = false := serves_eq_false h (by decide)
  unfold dispatchControl
  by_cases horder : m.command = Command.setByteOrder ∧ t.role = .client
  · rw [if_pos horder]
    exact .of_quiet ⟨rfl, rfl, rfl, rfl, rfl⟩ rfl rfl rfl hjudged hserves
  · rw [if_neg horder]
    by_cases hecho : m.command = Command.echoRequest
    · rw [if_pos hecho]
      exact .of_answer (.refl t) rfl rfl hjudged hserves
    · rw [if_neg hecho]
      exact .of_quiet (.refl t) rfl rfl rfl hjudged hserves

theorem handled_dispatchGreeting (h : t.role.concern m = .greeting) :
    t.Handled m (t.dispatchGreeting m) := by
  have hjudged : t.judged? m = none := judged?_eq_none h (by decide) (by decide)
  have hserves : t.serves m = false := serves_eq_false h (by decide)
  cases hread : m.read Greeting.decode with
  | error e =>
    simp only [dispatchGreeting, hread]
    exact .of_quiet (.refl t) rfl rfl rfl hjudged hserves
  | ok g =>
    simp only [dispatchGreeting, hread]
    exact .of_answer ⟨rfl, rfl, rfl, rfl, rfl⟩ rfl rfl hjudged hserves

theorem handled_dispatchReply (h : t.role.concern m = .reply) :
    t.Handled m (t.dispatchReply m) := by
  have hrole := Role.eq_server_of_reply h
  have hserves : t.serves m = false := serves_eq_false h (by decide)
  cases hread : m.read Reply.decode with
  | error e =>
    have hverdict : t.verdict? m = none := by
      simp only [verdict?, h, hread]
      rfl
    have hjudged : t.judged? m = none := by
      unfold judged?
      rw [hverdict, ite_self]
    simp only [dispatchReply, hread]
    exact .of_quiet (.refl t) rfl rfl rfl hjudged hserves
  | ok r =>
    rcases Bool.eq_false_or_eq_true t.closed with hclosed | hopen
    · have hjudged : t.judged? m = none := if_pos ⟨hclosed, hrole⟩
      simp only [dispatchReply, hread]
      rw [answer_of_closed (t := { t with peer := r.peerInfo m.header.version }) hclosed,
        if_neg (by simp)]
      exact .of_quiet ⟨rfl, rfl, rfl, rfl, rfl⟩ rfl rfl rfl hjudged hserves
    · have hjudged : t.judged? m = some (r.check t.config) := by
        rw [judged?_of_not (by simp [hopen])]
        simp only [verdict?, h, hread]
        rfl
      rw [dispatchReply_of_open hopen hread]
      refine ⟨⟨rfl, rfl, rfl, rfl, rfl⟩, rfl, ?_, ?_⟩
      · rw [hjudged]
        rfl
      · rw [hserves]
        rfl

theorem handled_dispatchVerdict (h : t.role.concern m = .verdict) :
    t.Handled m (t.dispatchVerdict m) := by
  have hserves : t.serves m = false := serves_eq_false h (by decide)
  have hnoted : t.judged? m = t.verdict? m :=
    judged?_of_not (fun hserver => nomatch (Role.eq_client_of_verdict h).symm.trans hserver.2) m
  cases hread : m.read Status.decode with
  | error e =>
    have hjudged : t.judged? m = none := by
      rw [hnoted]
      simp only [verdict?, h, hread]
      rfl
    simp only [dispatchVerdict, hread]
    exact .of_quiet (.refl t) rfl rfl rfl hjudged hserves
  | ok status =>
    have hjudged : t.judged? m = some status := by
      rw [hnoted]
      simp only [verdict?, h, hread]
      rfl
    simp only [dispatchVerdict, hread]
    refine ⟨⟨rfl, rfl, rfl, rfl, rfl⟩, rfl, ?_, ?_⟩
    · rw [hjudged]
      rfl
    · rw [hserves]
      rfl

theorem handled_dispatchOther (h : t.role.concern m = .other) :
    t.Handled m (t.dispatchOther m) := by
  have hjudged : t.judged? m = none := judged?_eq_none h (by decide) (by decide)
  cases hhandler : t.handler with
  | none =>
    have hserves : t.serves m = false := by
      unfold serves
      rw [hhandler]
      rfl
    simp only [dispatchOther, hhandler]
    exact .of_quiet (.refl t) rfl rfl rfl hjudged hserves
  | some accepts =>
    have hserves : t.serves m = true := by
      unfold serves
      rw [hhandler, h]
      rfl
    simp only [dispatchOther, hhandler]
    refine ⟨.refl t, rfl, ?_, ?_⟩
    · rw [hjudged]
      rfl
    · rw [hserves]
      rfl

theorem handled_dispatch (t : Transport) (m : Message) : t.Handled m (t.dispatch m) := by
  rw [dispatch_eq]
  cases h : t.role.concern m with
  | control => exact handled_dispatchControl h
  | greeting => exact handled_dispatchGreeting h
  | reply => exact handled_dispatchReply h
  | verdict => exact handled_dispatchVerdict h
  | other => exact handled_dispatchOther h
  | echo =>
    have hjudged : t.judged? m = none := judged?_eq_none h (by decide) (by decide)
    have hserves : t.serves m = false := serves_eq_false h (by decide)
    cases hserver : m.header.isFromServer with
    | true => exact .of_quiet (.refl t) rfl rfl rfl hjudged hserves
    | false => exact .of_answer (.refl t) rfl rfl hjudged hserves

theorem good_answer (t : Transport) (script : Script) : (t.answer script).good = !t.closed := by
  cases hopen : t.closed with
  | true =>
    rw [answer_of_closed hopen]
    rfl
  | false =>
    rw [answer_of_open hopen]
    rfl

/-- A receiver goes on unless a part of the validation cannot be read, the handler refuses a
message, or there is something to answer and the transport is closed. -/
theorem good_dispatch (t : Transport) (m : Message) :
    (t.dispatch m).good =
      match t.role.concern m with
      | .control => !t.closed || m.command ≠ Command.echoRequest
      | .greeting => (m.read Greeting.decode).toOption.isSome && !t.closed
      | .reply => (m.read Reply.decode).toOption.isSome && !t.closed
      | .verdict => (m.read Status.decode).toOption.isSome
      | .echo => m.header.isFromServer || !t.closed
      | .other => t.handler.all fun accepts => accepts m := by
  rw [dispatch_eq]
  cases t.role.concern m with
  | control =>
    have hdistinct : Command.setByteOrder ≠ Command.echoRequest := by decide
    simp only [dispatchControl]
    by_cases horder : m.command = Command.setByteOrder ∧ t.role = .client
    · rw [if_pos horder, horder.1]
      simp [hdistinct]
    · rw [if_neg horder]
      by_cases hecho : m.command = Command.echoRequest
      · rw [if_pos hecho, good_answer]
        simp [hecho]
      · rw [if_neg hecho]
        simp [hecho]
  | greeting =>
    cases hread : m.read Greeting.decode with
    | error e => simp only [dispatchGreeting, hread, Except.toOption, Option.isSome_none,
        Bool.false_and]
    | ok g => simp only [dispatchGreeting, hread, Except.toOption, Option.isSome_some,
        Bool.true_and, good_answer]
  | reply =>
    cases hread : m.read Reply.decode with
    | error e => simp only [dispatchReply, hread, Except.toOption, Option.isSome_none,
        Bool.false_and]
    | ok r =>
      have hgood := good_answer { t with peer := r.peerInfo m.header.version }
        (validatedScript (r.check t.config))
      simp only [dispatchReply, hread, Except.toOption, Option.isSome_some, Bool.true_and]
      split
      · exact hgood
      · exact hgood
  | verdict =>
    cases hread : m.read Status.decode with
    | error e => simp only [dispatchVerdict, hread, Except.toOption, Option.isSome_none]
    | ok s => simp only [dispatchVerdict, hread, Except.toOption, Option.isSome_some]
  | echo =>
    cases hserver : m.header.isFromServer with
    | true => rfl
    | false => exact good_answer ..
  | other =>
    cases hhandler : t.handler with
    | none => simp only [dispatchOther, hhandler, Option.all_none]
    | some accepts => simp only [dispatchOther, hhandler, Option.all_some]

/-- An open connection goes on unless a part of the validation cannot be read or the handler refuses
a message. -/
theorem good_dispatch_of_open (hopen : t.closed = false) (m : Message) :
    (t.dispatch m).good =
      match t.role.concern m with
      | .control | .echo => true
      | .greeting => (m.read Greeting.decode).toOption.isSome
      | .reply => (m.read Reply.decode).toOption.isSome
      | .verdict => (m.read Status.decode).toOption.isSome
      | .other => t.handler.all fun accepts => accepts m := by
  rw [good_dispatch, hopen]
  cases t.role.concern m with
  | control | verdict | other => rfl
  | greeting | reply => exact Bool.and_true _
  | echo => exact Bool.or_true _

/-- Handling a message that comes in at some time touches that time besides. -/
theorem exists_dispatchAt_eq (t : Transport) (now : Instant) (m : Message) :
    ∃ order peer verification scripts,
      (t.dispatchAt now m).transport =
          { t with
            lastActivity := now
            order, peer, verification
            queue := t.queue ++ scripts } ∧
        (t.closed = true → scripts = []) :=
  exists_dispatch_eq { t with lastActivity := now } m

/-- The time at which a message comes makes no difference to what it does. -/
theorem handled_dispatchAt (t : Transport) (now : Instant) (m : Message) :
    t.Handled m (t.dispatchAt now m) := by
  have h := handled_dispatch { t with lastActivity := now } m
  exact ⟨⟨h.sameEnd.role, h.sameEnd.remote, h.sameEnd.priority, h.sameEnd.config,
    h.sameEnd.handler⟩, h.closed, h.verification, h.events⟩

/-! ## One step -/

/-- The message that is taken in at a step. -/
def heard? (t : Transport) : TransportStep → Option Message
  | .take _ m => if t.listens then some m else none
  | _ => none

/-- The verdict that is noted down at a step. -/
def heardVerdict? (t : Transport) (step : TransportStep) : Option Status :=
  (t.heard? step).bind t.judged?

/-- What is left alone by everything that is not a message. -/
structure Quiet (t : Transport) (r : Activity × Transport) : Prop where
  sameEnd : SameEnd t r.2
  closed : t.closed = true → r.2.closed = true
  verification : r.2.verification = t.verification
  messages : r.1.messages = []

namespace Quiet

theorem rfl_of_silent (t : Transport) : Quiet t ({}, t) := ⟨.refl t, id, rfl, rfl⟩

end Quiet

theorem messages_of_notices (holders : List Holder) (notice : Holder → TransportEvent)
    (h : ∀ holder m, notice holder ≠ .message m) :
    ({ events := holders.map notice } : Activity).messages = [] := by
  unfold Activity.messages
  rw [List.filterMap_eq_nil_iff]
  intro event hevent
  obtain ⟨holder, -, rfl⟩ := List.mem_map.1 hevent
  cases hnotice : notice holder with
  | message m => exact absurd hnotice (h holder m)
  | changed _ | closed _ => rfl

theorem quiet_close (t : Transport) : Quiet t t.close := by
  cases hopen : t.closed with
  | true =>
    rw [close_of_closed hopen]
    exact .rfl_of_silent t
  | false =>
    rw [close_of_open hopen]
    exact ⟨⟨rfl, rfl, rfl, rfl, rfl⟩, fun _ => rfl, rfl,
      messages_of_notices _ _ fun _ _ => TransportEvent.noConfusion⟩

theorem quiet_stop (t : Transport) : Quiet t t.stop := by
  have hclose := quiet_close t
  exact ⟨⟨hclose.sameEnd.role, hclose.sameEnd.remote, hclose.sameEnd.priority,
    hclose.sameEnd.config, hclose.sameEnd.handler⟩, hclose.closed, hclose.verification,
    hclose.messages⟩

/-- All that picking touches is what is waiting. -/
theorem exists_pick_eq (t : Transport) : ∃ inHand queue, t.pick = { t with inHand, queue } := by
  unfold pick
  split
  · exact ⟨t.inHand, t.queue, rfl⟩
  · split
    · exact ⟨_, _, rfl⟩
    · exact ⟨t.inHand, t.queue, rfl⟩

theorem quiet_pick (t : Transport) : Quiet t ({}, t.pick) := by
  obtain ⟨inHand, queue, hpick⟩ := t.exists_pick_eq
  rw [hpick]
  exact ⟨⟨rfl, rfl, rfl, rfl, rfl⟩, id, rfl, rfl⟩

theorem quiet_compose (t : Transport) : Quiet t t.compose := by
  cases hhand : t.inHand with
  | none =>
    rw [compose_of_none hhand]
    exact .rfl_of_silent t
  | some script =>
    cases hresult : (t.composed script).messages with
    | none =>
      rw [compose_of_failed hhand hresult]
      have hclose := quiet_close { t with inHand := none, sentTypes := (t.composed script).types }
      exact ⟨⟨hclose.sameEnd.role, hclose.sameEnd.remote, hclose.sameEnd.priority,
        hclose.sameEnd.config, hclose.sameEnd.handler⟩, hclose.closed, hclose.verification,
        hclose.messages⟩
    | some sent =>
      rw [compose_of_sent hhand hresult]
      refine ⟨⟨rfl, rfl, rfl, rfl, rfl⟩, id, rfl, ?_⟩
      cases t.closed with
      | true | false => rfl

theorem quiet_enqueue (t : Transport) (script : Script) :
    Quiet t ({}, (t.enqueue script).toOption.getD t) := by
  unfold enqueue
  by_cases hclosed : t.closed
  · rw [if_pos hclosed]
    exact .rfl_of_silent t
  · rw [if_neg hclosed]
    exact ⟨⟨rfl, rfl, rfl, rfl, rfl⟩, id, rfl, rfl⟩

theorem quiet_acquire (t : Transport) (h : Holder) : Quiet t ({}, (t.acquire h).2) := by
  unfold acquire
  by_cases hclosed : t.closed
  · rw [if_pos hclosed]
    exact .rfl_of_silent t
  · rw [if_neg hclosed]
    exact ⟨⟨rfl, rfl, rfl, rfl, rfl⟩, id, rfl, rfl⟩

theorem quiet_release (t : Transport) (id : UInt64) : Quiet t (t.release id) := by
  unfold release
  by_cases hlast : (t.holders.erase id).isEmpty ∧ t.role = .client
  · have hclose := quiet_close { t with holders := t.holders.erase id }
    rw [if_pos hlast]
    exact ⟨⟨hclose.sameEnd.role, hclose.sameEnd.remote, hclose.sameEnd.priority,
      hclose.sameEnd.config, hclose.sameEnd.handler⟩, hclose.closed, hclose.verification,
      hclose.messages⟩
  · rw [if_neg hlast]
    exact ⟨⟨rfl, rfl, rfl, rfl, rfl⟩, fun hclosed => hclosed, rfl, rfl⟩

theorem quiet_change (t : Transport) : Quiet t t.change :=
  ⟨⟨rfl, rfl, rfl, rfl, rfl⟩, id, rfl,
    messages_of_notices _ _ fun _ _ => TransportEvent.noConfusion⟩

/-- What a step leaves, what it changes and what the handler is given at it. -/
structure Stepped (t : Transport) (step : TransportStep) (r : Activity × Transport) : Prop where
  sameEnd : SameEnd t r.2
  closed : t.closed = true → r.2.closed = true
  verification : r.2.verification =
    ((t.heardVerdict? step).map Status.outcome).getD t.verification
  messages : r.1.messages = (t.heard? step).toList.filter t.serves

namespace Stepped

theorem of_quiet {step : TransportStep} {r : Activity × Transport} (h : Quiet t r)
    (hheard : t.heard? step = none) : t.Stepped step r where
  sameEnd := h.sameEnd
  closed := h.closed
  verification := by
    unfold heardVerdict?
    rw [hheard]
    exact h.verification
  messages := by
    rw [hheard]
    exact h.messages

end Stepped

theorem messages_of_served (t : Transport) (m : Message) :
    ({ events := if t.serves m then [.message m] else [] } : Activity).messages =
      [m].filter t.serves := by
  cases h : t.serves m with
  | true =>
    rw [List.filter_cons_of_pos h]
    rfl
  | false =>
    rw [List.filter_cons_of_neg (by simp [h])]
    rfl

theorem stepped_take (t : Transport) (now : Instant) (m : Message) :
    t.Stepped (.take now m) (t.take now m) := by
  cases hlistens : t.listens with
  | false =>
    have hheard : t.heard? (.take now m) = none := if_neg (by simp [hlistens])
    rw [take_of_deaf hlistens]
    exact .of_quiet (.rfl_of_silent t) hheard
  | true =>
    have hheard : t.heard? (.take now m) = some m := if_pos hlistens
    have hverdict : t.heardVerdict? (.take now m) = t.judged? m := by
      unfold heardVerdict?
      rw [hheard]
      rfl
    have hhandled := handled_dispatchAt t now m
    have hmessages := messages_of_served t m
    rw [← hhandled.events] at hmessages
    cases hgood : (t.dispatchAt now m).good with
    | true =>
      rw [take_of_good hlistens hgood]
      refine ⟨hhandled.sameEnd, fun hclosed => hhandled.closed.trans hclosed, ?_, ?_⟩
      · rw [hverdict]
        exact hhandled.verification
      · rw [hheard]
        exact hmessages
    | false =>
      have hstop := quiet_stop (t.dispatchAt now m).transport
      rw [take_of_bad hlistens hgood]
      refine ⟨hhandled.sameEnd.trans hstop.sameEnd,
        fun hclosed => hstop.closed (hhandled.closed.trans hclosed), ?_, ?_⟩
      · rw [hverdict]
        exact hstop.verification.trans hhandled.verification
      · rw [hheard, Activity.messages_append, hstop.messages, List.append_nil]
        exact hmessages

theorem good_dispatchAt (t : Transport) (now : Instant) (m : Message) :
    (t.dispatchAt now m).good = (t.dispatch m).good :=
  (good_dispatch _ m).trans (good_dispatch t m).symm

/-- A message that the connection survives leaves an open transport open. -/
theorem closed_take (hopen : t.closed = false) (now : Instant) (m : Message) :
    (t.take now m).2.closed = !(t.dispatch m).good := by
  rw [← good_dispatchAt t now]
  cases hgood : (t.dispatchAt now m).good with
  | true =>
    rw [take_of_good (listens_of_open hopen) hgood]
    exact (handled_dispatchAt t now m).closed.trans hopen
  | false =>
    rw [take_of_bad (listens_of_open hopen) hgood]
    exact closed_stop _

theorem stepped_run (t : Transport) (step : TransportStep) : t.Stepped step (step.run t) := by
  cases step with
  | take now m => exact stepped_take t now m
  | pick => exact .of_quiet (quiet_pick t) rfl
  | compose => exact .of_quiet (quiet_compose t) rfl
  | enqueue script => exact .of_quiet (quiet_enqueue t script) rfl
  | readField o octets => exact .of_quiet ⟨⟨rfl, rfl, rfl, rfl, rfl⟩, id, rfl, rfl⟩ rfl
  | acquire h => exact .of_quiet (quiet_acquire t h) rfl
  | release id => exact .of_quiet (quiet_release t id) rfl
  | change => exact .of_quiet (quiet_change t) rfl
  | close => exact .of_quiet (quiet_close t) rfl

/-! ## All steps -/

/-- The messages that a transport takes in. -/
def heard : List TransportStep → Transport → List Message
  | [], _ => []
  | step :: steps, t => (t.heard? step).toList ++ heard steps (step.run t).2

/-- The verdicts that it notes down. -/
def verdicts : List TransportStep → Transport → List Status
  | [], _ => []
  | step :: steps, t => (t.heardVerdict? step).toList ++ verdicts steps (step.run t).2

theorem sameEnd_runAll (steps : List TransportStep) (t : Transport) :
    SameEnd t (runAll steps t).2 := by
  induction steps generalizing t with
  | nil => exact .refl t
  | cons step steps ih => exact (stepped_run t step).sameEnd.trans (ih (step.run t).2)

theorem verdicts_cons (step : TransportStep) (steps : List TransportStep) (t : Transport) :
    verdicts (step :: steps) t =
      (t.heardVerdict? step).toList ++ verdicts steps (step.run t).2 := rfl

theorem verdicts_append (before behind : List TransportStep) (t : Transport) :
    verdicts (before ++ behind) t = verdicts before t ++ verdicts behind (runAll before t).2 := by
  induction before generalizing t with
  | nil => rfl
  | cons step before ih =>
    rw [List.cons_append, verdicts_cons, ih, verdicts_cons, List.append_assoc]
    rfl

/-- The state of the validation is that of the last verdict. -/
theorem verification_runAll (steps : List TransportStep) (t : Transport) :
    (runAll steps t).2.verification =
      ((verdicts steps t).getLast?.map Status.outcome).getD t.verification := by
  induction steps generalizing t with
  | nil => rfl
  | cons step steps ih =>
    show (runAll steps (step.run t).2).2.verification = _
    rw [ih, (stepped_run t step).verification, verdicts_cons]
    cases hrest : (verdicts steps (step.run t).2).getLast? with
    | some s => rw [List.getLast?_append, hrest, Option.some_or]; rfl
    | none =>
      rw [List.getLast?_append, hrest, Option.none_or]
      cases t.heardVerdict? step with
      | none => rfl
      | some s => rfl

/-- The handler is given what is for it, in order. -/
theorem messages_runAll (steps : List TransportStep) (t : Transport) :
    (runAll steps t).1.messages = (heard steps t).filter t.serves := by
  induction steps generalizing t with
  | nil => rfl
  | cons step steps ih =>
    have hsame : (step.run t).2.serves = t.serves :=
      funext fun m => (stepped_run t step).sameEnd.serves_eq m
    rw [runAll_cons, Activity.messages_append, (stepped_run t step).messages, ih, hsame,
      ← List.filter_append]
    rfl

end Transport

end PvNet
