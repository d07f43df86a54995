import PvNet.Connection.Listener
import PvNet.Proofs.Connection.Handshake
import PvNet.Proofs.Message.Framing
set_option autoImplicit false

/-!
# Meeting a server

A client's transport that meets a server is verified and open afterwards, provided that the
limits of both leave room for the validation (`meet_serving`).
-/

namespace PvNet

/-- Messages that the receiver takes as they are sent are what it drains, and nothing is left. -/
theorem Message.drain_octets {maxPayload : Nat} {ms : List Message}
    (h : ∀ m ∈ ms, m.Transmissible maxPayload) :
    drain maxPayload (ms.flatMap octets) = ⟨ms, none, []⟩ := by
  induction ms with
  | nil => exact drain_of_none rfl
  | cons m ms ih =>
    obtain ⟨hm, hms⟩ := List.forall_mem_cons.1 h
    rw [List.flatMap_cons, drain_of_some (hm.decode? _), ih hms]
    rfl

namespace Transport

variable {t t' : Transport} {m : Message} {ms : List Message} {now : Instant}

theorem receiveOctets_of_transmissible (hopen : t.closed = false) (hbuffer : t.buffer = [])
    (h : ∀ m ∈ ms, m.Transmissible t.config.maxPayload) (now : Instant) :
    t.receiveOctets now (ms.flatMap Message.octets) = receiveAll now ms t := by
  have hdrain : Message.drain t.config.maxPayload (t.buffer ++ ms.flatMap Message.octets) =
      ⟨ms, none, []⟩ := by
    rw [hbuffer]
    exact Message.drain_octets h
  have hkept : { t with buffer := [] } = t := by
    rw [← hbuffer]
  unfold receiveOctets
  rw [if_pos (listens_of_open hopen), hdrain]
  simp only [hkept, Option.isSome_none, Bool.false_eq_true, if_false, Activity.append_empty]

/-- A message that the connection survives is answered at once. -/
theorem receive_of_dispatch (hopen : t.closed = false)
    (hdispatch : t.dispatchAt now m = { transport := t' }) : t.receive now m = t'.flush := by
  have htake := take_of_good (listens_of_open hopen)
    (show (t.dispatchAt now m).good = true by rw [hdispatch])
  unfold receive
  rw [htake, hdispatch]
  rfl

/-- A sender of one script that has nothing in hand. -/
theorem flush_of_singleton {script : Script} {sent : List Message} (hopen : t.closed = false)
    (hfree : t.inHand = none) (hqueue : t.queue = [script])
    (hsent : (t.composed script).messages = some sent) :
    t.flush = ({ sent }, { t with sentTypes := (t.composed script).types, queue := [] }) := by
  unfold flush
  rw [waiting_of_free hfree, hqueue, List.length_singleton]
  simp only [turns, turn_of_sent hopen hfree hqueue hsent, Activity.append_empty]

theorem flush_of_application {o : ByteOrder} {fromServer : Bool} {command : UInt8}
    {payload : ByteOrder → Bytes} (hopen : t.closed = false) (hfree : t.inHand = none)
    (horder : t.order = o) (hserver : decide (t.role = .server) = fromServer)
    (hqueue : t.queue = [[.start command, .write payload, .finish]]) :
    t.flush = ({ sent := [.application command o fromServer (payload o)] },
      { t with queue := [] }) := by
  subst horder hserver
  exact flush_of_singleton hopen hfree hqueue rfl

theorem receiveAll_cons (now : Instant) (m : Message) (ms : List Message) (t : Transport) :
    receiveAll now (m :: ms) t =
      ((t.receive now m).1 ++ (receiveAll now ms (t.receive now m).2).1,
        (receiveAll now ms (t.receive now m).2).2) := rfl

theorem receiveAll_singleton (now : Instant) (m : Message) (t : Transport) :
    receiveAll now [m] t = t.receive now m := by
  simp only [receiveAll, Activity.append_empty]

variable {server client : TransportConfig}

theorem receiveAll_greeting (hopen : t.closed = false) (hrole : t.role = .client)
    (hfree : t.inHand = none) (hqueue : t.queue = [])
    (hname : server.authPlugin.utf8ByteSize ≤ Wire.maxSize) :
    receiveAll now [orderMessage server, greetingMessage server] t =
      ({ sent := [replyMessage server t.config] },
        { t with
          lastActivity := now
          order := server.order
          peer := knownServer server
          queue := [] }) := by
  have hserver : decide (t.role = .server) = false := by
    rw [hrole]
    rfl
  have horder : t.dispatchAt now (orderMessage server) =
      { transport := { t with lastActivity := now, order := server.order } } :=
    dispatch_orderMessage hrole
  have hfirst := (receive_of_dispatch hopen horder).trans (flush_of_nil hfree hqueue)
  let t₁ := { t with lastActivity := now, order := server.order }
  have hgreeting : t₁.dispatchAt now (greetingMessage server) =
      { transport :=
          { t₁ with
            peer := knownServer server
            queue := t.queue ++ [replyScript (replyTo server t.config)] } } :=
    dispatch_greetingMessage hopen hrole hname
  rw [hqueue] at hgreeting
  have hsecond := (receive_of_dispatch (t := t₁) hopen hgreeting).trans
    (flush_of_application hopen hfree rfl hserver rfl)
  rw [receiveAll_cons, hfirst, receiveAll_singleton]
  show (({} : Activity) ++ (t₁.receive now (greetingMessage server)).1,
    (t₁.receive now (greetingMessage server)).2) = _
  rw [hsecond]
  rfl

theorem receive_reply (hopen : t.closed = false) (hrole : t.role = .server)
    (hfree : t.inHand = none) (hconfig : t.config = server) (horder : t.order = server.order)
    (hqueue : t.queue = []) (hname : server.authPlugin.utf8ByteSize ≤ Wire.maxSize) :
    t.receive now (replyMessage server client) =
      ({ sent := [acceptanceMessage server] },
        { t with
          lastActivity := now
          peer := knownClient client
          verification := .verified
          queue := [] }) := by
  have hserver : decide (t.role = .server) = true := by
    rw [hrole]
    rfl
  have hreply : t.dispatchAt now (replyMessage server client) =
      { transport :=
          { t with
            lastActivity := now
            peer := knownClient client
            verification := .verified
            queue := t.queue ++ [validatedScript .ok] } } :=
    dispatch_replyMessage hopen hrole hconfig (utf8ByteSize_replyTo client hname)
  rw [hqueue] at hreply
  have hflush := flush_of_application (t := { t with
    lastActivity := now
    peer := knownClient client
    verification := .verified
    queue := [validatedScript .ok] }) hopen hfree horder hserver rfl
  exact (receive_of_dispatch hopen hreply).trans hflush

theorem receive_acceptance (hopen : t.closed = false) (hrole : t.role = .client)
    (hfree : t.inHand = none) (hqueue : t.queue = []) :
    t.receive now (acceptanceMessage server) =
      ({}, { t with lastActivity := now, verification := .verified }) := by
  have hacceptance : t.dispatchAt now (acceptanceMessage server) =
      { transport := { t with lastActivity := now, verification := .verified } } :=
    dispatch_acceptanceMessage hrole
  refine (receive_of_dispatch hopen hacceptance).trans ?_
  exact flush_of_nil hfree hqueue

end Transport

namespace Listener

variable {client server : TransportConfig}

/-- A client that has met a server sends in its order, knows it and is verified. -/
theorem meet_serving (hadmits : client.Admits server) (now : Instant) (address : Endpoint)
    (priority : Int16) (handler : Option (Message → Bool)) :
    (serving server).meet now (.client address priority client handler) =
      ({}, { Transport.client address priority client handler with
        lastActivity := now
        order := server.order
        peer := knownServer server
        verification := .verified }) := by
  let client₀ := Transport.client address priority client handler
  let server₀ := Transport.server (.any 0) server none
  let server₁ := { server₀ with queue := [] }
  let client₁ := { client₀ with
    lastActivity := now
    order := server.order
    peer := knownServer server
    queue := [] }
  let server₂ := { server₁ with
    lastActivity := now
    peer := knownClient client
    verification := .verified
    queue := [] }
  have hgreeting : server₀.flush =
      ({ sent := [orderMessage server, greetingMessage server] }, server₁) := rfl
  have hreply : deliver now { sent := [orderMessage server, greetingMessage server] }
      server₁.closed client₀ = ({ sent := [replyMessage server client] }, client₁) := by
    have htransmissible : ∀ m ∈ [orderMessage server, greetingMessage server],
        m.Transmissible client₀.config.maxPayload :=
      List.forall_mem_cons.2 ⟨transmissible_orderMessage _ server,
        List.forall_mem_singleton.2 hadmits.transmissible_greeting⟩
    refine (Transport.receiveOctets_of_transmissible rfl rfl htransmissible now).trans ?_
    exact Transport.receiveAll_greeting rfl rfl rfl rfl hadmits.name
  have hverdict : deliver now { sent := [replyMessage server client] } client₁.closed server₁ =
      ({ sent := [acceptanceMessage server] }, server₂) := by
    have htransmissible : ∀ m ∈ [replyMessage server client],
        m.Transmissible server₁.config.maxPayload :=
      List.forall_mem_singleton.2 hadmits.transmissible_reply
    refine (Transport.receiveOctets_of_transmissible rfl rfl htransmissible now).trans ?_
    rw [Transport.receiveAll_singleton]
    exact Transport.receive_reply rfl rfl rfl rfl rfl rfl hadmits.name
  have hend : deliver now { sent := [acceptanceMessage server] } server₂.closed client₁ =
      ({}, { client₁ with lastActivity := now, verification := .verified }) := by
    have htransmissible : ∀ m ∈ [acceptanceMessage server],
        m.Transmissible client₁.config.maxPayload :=
      List.forall_mem_singleton.2 hadmits.transmissible_acceptance
    refine (Transport.receiveOctets_of_transmissible rfl rfl htransmissible now).trans ?_
    rw [Transport.receiveAll_singleton]
    exact Transport.receive_acceptance rfl rfl rfl rfl
  show validate now client₀ server₀ = _
  simp only [validate, hgreeting, hreply, hverdict, hend]
  rfl

end Listener

end PvNet
