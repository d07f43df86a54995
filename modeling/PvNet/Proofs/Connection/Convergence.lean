import PvNet.Proofs.Connection.Handshake
set_option autoImplicit false

/-!
# A client and a server validate their connection

Two ends and what is in flight between them, octet by octet, in both directions.  Each
end takes in messages, lets its sender pick and compose and starts echoes whenever it likes
(`Link.run`).

The validation goes through the phases of `Phase`; in each of them exactly one part of
it is queued or in flight, with any number of echoes around it (`Among`), and both ends
know what they have been told so far (`Link.At`).  Every step keeps to the phase or goes
on to the next one, and all steps but new echoes use up some of the work that is left
(`Link.At.run`).
-/

namespace PvNet

/-! ## Two ends -/

/-- Two ends of a connection and the octets in flight. -/
structure Link where
  client : Transport
  server : Transport
  toClient : Bytes := []
  toServer : Bytes := []

/-- What can happen at one end of a connection. -/
inductive LinkStep where
  /-- Somebody starts an echo. -/
  | echo (role : Role)
  /-- The sender picks what is first in the queue. -/
  | pick (role : Role)
  /-- The sender composes and sends what it has in hand. -/
  | compose (role : Role)
  /-- The first message in flight comes in. -/
  | deliver (role : Role) (now : Instant)

namespace Link

/-- The end with a role. -/
def endOf (l : Link) : Role → Transport
  | .client => l.client
  | .server => l.server

/-- What is in flight to an end. -/
def inbox (l : Link) : Role → Bytes
  | .client => l.toClient
  | .server => l.toServer

/-- Takes what is in flight to an end for something else. -/
def withInbox (l : Link) (octets : Bytes) : Role → Link
  | .client => { l with toClient := octets }
  | .server => { l with toServer := octets }

/-- Something happens to one end; what it sends is in flight to the other. -/
def happen (l : Link) (step : TransportStep) : Role → Link
  | .client =>
    let r := step.run l.client
    { l with client := r.2, toServer := l.toServer ++ r.1.octets }
  | .server =>
    let r := step.run l.server
    { l with server := r.2, toClient := l.toClient ++ r.1.octets }

/-- Lets something happen at one end.  Octets that are not those of a message close it. -/
def step (l : Link) : LinkStep → Link
  | .echo role => l.happen (.enqueue (Transport.echoScript [])) role
  | .pick role => l.happen .pick role
  | .compose role => l.happen .compose role
  | .deliver role now =>
    match Message.decode? (l.endOf role).config.maxPayload (l.inbox role) with
    | .ok (some (m, rest)) => (l.withInbox rest role).happen (.take now m) role
    | .ok none => l
    | .error _ => l.happen .close role

/-- Lets things happen one after the other, in any order. -/
def run : List LinkStep → Link → Link
  | [], l => l
  | s :: steps, l => run steps (l.step s)

/-- Nothing is waiting and nothing in flight. -/
def Idle (l : Link) : Prop :=
  l.client.waiting = [] ∧ l.server.waiting = [] ∧ l.toClient = [] ∧ l.toServer = []

/-- A step has something to do, and it is no new echo. -/
def Works (l : Link) : LinkStep → Prop
  | .echo _ => False
  | .pick role => (l.endOf role).inHand = none ∧ (l.endOf role).queue ≠ []
  | .compose role => (l.endOf role).inHand ≠ none
  | .deliver role _ => l.inbox role ≠ []

/-- Each of the steps has something to do when it comes. -/
def Busy : List LinkStep → Link → Prop
  | [], _ => True
  | s :: steps, l => l.Works s ∧ Busy steps (l.step s)

end Link

/-! ## Something among echoes -/

/-- The items `as` stand in the list in this order, and all others satisfy a property. -/
inductive Among {α : Type} (P : α → Prop) : List α → List α → Prop where
  | nil : Among P [] []
  | token {a : α} {as l : List α} : Among P as l → Among P (a :: as) (a :: l)
  | other {a : α} {as l : List α} : P a → Among P as l → Among P as (a :: l)

namespace Among

variable {α : Type} {P Q : α → Prop} {a : α} {as bs l m : List α}

theorem eq_nil (h : Among P as []) : as = [] := by
  cases h
  rfl

/-- The first item of the list is one of the others or the first that is to stand in it. -/
theorem cons_cases (h : Among P as (a :: l)) :
    (P a ∧ Among P as l) ∨ ∃ as', as = a :: as' ∧ Among P as' l := by
  cases h with
  | token hrest => exact .inr ⟨_, rfl, hrest⟩
  | other ha hrest => exact .inl ⟨ha, hrest⟩

theorem append (h : Among P as l) (h' : Among P bs m) : Among P (as ++ bs) (l ++ m) := by
  induction h with
  | nil => exact h'
  | token _ ih => exact .token ih
  | other ha _ ih => exact .other ha ih

theorem refl (as : List α) : Among P as as := by
  induction as with
  | nil => exact .nil
  | cons a as ih => exact .token ih

theorem forall_mem (h : Among P as l) (htokens : ∀ a ∈ as, Q a) (hothers : ∀ a, P a → Q a) :
    ∀ a ∈ l, Q a := by
  induction h with
  | nil => exact fun a ha => absurd ha List.not_mem_nil
  | token _ ih =>
    obtain ⟨ha, has⟩ := List.forall_mem_cons.1 htokens
    exact List.forall_mem_cons.2 ⟨ha, ih has⟩
  | other ha _ ih => exact List.forall_mem_cons.2 ⟨hothers _ ha, ih htokens⟩

/-- Items behind a list in which nothing was to stand. -/
theorem of_nil_append (h : Among P [] l) (as : List α) : Among P as (l ++ as) :=
  h.append (refl as)

theorem append_other (h : Among P as l) (ha : P a) : Among P as (l ++ [a]) := by
  have hrest := h.append (.other ha .nil)
  rwa [List.append_nil] at hrest

end Among

/-! ## Phases -/

/-- Where the validation stands. -/
inductive Phase where
  | greetingQueued
  | greetingSent
  /-- The client knows the byte order, and the greeting is still in flight. -/
  | orderKnown
  | replyQueued
  | replySent
  | verdictQueued
  | verdictSent
  | settled

namespace Phase

/-- The number of the phases before. -/
def rank : Phase → Nat
  | greetingQueued => 0
  | greetingSent => 1
  | orderKnown => 2
  | replyQueued => 3
  | replySent => 4
  | verdictQueued => 5
  | verdictSent => 6
  | settled => 7

instance : LE Phase := ⟨fun p q => p.rank ≤ q.rank⟩

instance (p q : Phase) : Decidable (p ≤ q) := inferInstanceAs (Decidable (p.rank ≤ q.rank))

variable (client server : TransportConfig)

/-- What is waiting at the client besides echoes. -/
def clientQueue : Phase → List Script
  | replyQueued => [Transport.replyScript (replyTo server client)]
  | _ => []

/-- What is waiting at the server besides echoes. -/
def serverQueue : Phase → List Script
  | greetingQueued => [Transport.greetingScript (.ofConfig server)]
  | verdictQueued => [Transport.validatedScript .ok]
  | _ => []

/-- What is in flight to the client besides echoes. -/
def toClient : Phase → List Message
  | greetingSent => [orderMessage server, greetingMessage server]
  | orderKnown => [greetingMessage server]
  | verdictSent => [acceptanceMessage server]
  | _ => []

/-- What is in flight to the server besides echoes. -/
def toServer : Phase → List Message
  | replySent => [replyMessage server client]
  | _ => []

end Phase

/-- A sender is that of an echo. -/
def IsEchoScript (script : Script) : Prop := script = Transport.echoScript []

/-- A message is an echo from the end with a role. -/
def IsEcho (role : Role) (m : Message) : Prop := ∃ o, m = echoMessage o (role = .server)

/-- One end of a connection: which end it is, its settings, and that it is open. -/
structure Transport.Stands (t : Transport) (role : Role) (config : TransportConfig) : Prop where
  role : t.role = role
  config : t.config = config
  opened : t.closed = false

/-- The validation between two ends stands at a phase, with the given messages in flight. -/
structure Link.At (client server : TransportConfig) (phase : Phase) (toClient toServer : List Message)
    (l : Link) : Prop where
  clientStands : l.client.Stands .client client
  serverStands : l.server.Stands .server server
  clientOrder : .orderKnown ≤ phase → l.client.order = server.order
  serverOrder : l.server.order = server.order
  clientPeer : .replyQueued ≤ phase → l.client.peer = knownServer server
  serverPeer : .verdictQueued ≤ phase → l.server.peer = knownClient client
  clientVerification :
    l.client.verification = if .settled ≤ phase then .verified else .pending
  serverVerification :
    l.server.verification = if .verdictQueued ≤ phase then .verified else .pending
  clientWaiting : Among IsEchoScript (phase.clientQueue client server) l.client.waiting
  serverWaiting : Among IsEchoScript (phase.serverQueue server) l.server.waiting
  amongToClient : Among (IsEcho .server) (phase.toClient server) toClient
  amongToServer : Among (IsEcho .client) (phase.toServer client server) toServer
  octetsToClient : l.toClient = toClient.flatMap Message.octets
  octetsToServer : l.toServer = toServer.flatMap Message.octets

/-- How much is left to do.  An echo of the client waits at both ends and goes in both directions, a
phase that is still to come costs at most as much as an echo, and what is queued is to be picked
besides. -/
def Link.work (phase : Phase) (toClient toServer : List Message) (l : Link) : Nat :=
  2 * (4 * l.client.waiting.length + 3 * toServer.length + 2 * l.server.waiting.length +
    toClient.length + 4 * (Phase.settled.rank - phase.rank)) +
      (l.client.queue.length + l.server.queue.length)

namespace Link.At

variable {client server : TransportConfig} {phase : Phase} {toClient toServer : List Message}
  {l : Link}

/-! ## Something happens at one end -/

theorem happen_client {step : TransportStep} {activity : Activity} {t : Transport}
    (hrun : step.run l.client = (activity, t)) :
    l.happen step .client = { l with client := t, toServer := l.toServer ++ activity.octets } := by
  simp only [happen, hrun]

theorem happen_server {step : TransportStep} {activity : Activity} {t : Transport}
    (hrun : step.run l.server = (activity, t)) :
    l.happen step .server = { l with server := t, toClient := l.toClient ++ activity.octets } := by
  simp only [happen, hrun]

/-- Octets that are sent are in flight behind the others. -/
theorem octets_append {octets : Bytes} {ms : List Message}
    (h : octets = ms.flatMap Message.octets) (sent : List Message) :
    octets ++ ({ sent } : Activity).octets = (ms ++ sent).flatMap Message.octets := by
  rw [h, List.flatMap_append]
  rfl

/-! ## Starting an echo -/

theorem waiting_push (t : Transport) (script : Script) :
    (t.push script).waiting = t.waiting ++ [script] := (List.append_assoc ..).symm

theorem run_enqueue {t : Transport} (hopen : t.closed = false) (script : Script) :
    (TransportStep.enqueue script).run t = ({}, t.push script) := by
  show (({} : Activity), (t.enqueue script).toOption.getD t) = _
  rw [Transport.enqueue_of_open hopen]
  rfl

theorem echo (h : l.At client server phase toClient toServer) (role : Role) :
    (l.step (.echo role)).At client server phase toClient toServer := by
  cases role with
  | client =>
    have hrun := run_enqueue h.clientStands.opened (Transport.echoScript [])
    rw [step, happen_client hrun]
    exact { h with
      clientStands := ⟨h.clientStands.role, h.clientStands.config, h.clientStands.opened⟩
      clientWaiting := waiting_push .. ▸ h.clientWaiting.append_other rfl
      octetsToServer := (List.append_nil _).trans h.octetsToServer }
  | server =>
    have hrun := run_enqueue h.serverStands.opened (Transport.echoScript [])
    rw [step, happen_server hrun]
    exact { h with
      serverStands := ⟨h.serverStands.role, h.serverStands.config, h.serverStands.opened⟩
      serverWaiting := waiting_push .. ▸ h.serverWaiting.append_other rfl
      octetsToClient := (List.append_nil _).trans h.octetsToClient }

/-! ## The sender picks and composes -/

theorem waiting_composed (t : Transport) :
    ({ t with inHand := none } : Transport).waiting = t.queue := rfl

/-- Picking keeps what is waiting, and there is less in the queue if there was something to pick. -/
theorem pick (h : l.At client server phase toClient toServer) (role : Role) :
    (l.step (.pick role)).At client server phase toClient toServer ∧
      (l.Works (.pick role) →
        (l.step (.pick role)).work phase toClient toServer < l.work phase toClient toServer) := by
  have hless {t : Transport} (hopen : t.closed = false) (hfree : t.inHand = none)
      (hqueue : t.queue ≠ []) : t.pick.queue.length < t.queue.length := by
    obtain ⟨script, scripts, hcons⟩ := List.exists_cons_of_ne_nil hqueue
    rw [Transport.pick_of_cons hopen hfree hcons, hcons]
    exact Nat.lt_succ_self _
  cases role with
  | client =>
    have hstep : l.step (.pick .client) = { l with client := l.client.pick } := by
      show { l with client := l.client.pick, toServer := l.toServer ++ [] } = _
      rw [List.append_nil]
    have hwaiting := l.client.waiting_pick
    rw [hstep]
    refine ⟨?_, fun ⟨hfree, hqueue⟩ => ?_⟩
    · obtain ⟨inHand, queue, hpick⟩ := l.client.exists_pick_eq
      rw [hpick] at hwaiting ⊢
      exact { h with
        clientStands := ⟨h.clientStands.role, h.clientStands.config, h.clientStands.opened⟩
        clientWaiting := hwaiting ▸ h.clientWaiting }
    · have hpicked := hless h.clientStands.opened hfree hqueue
      simp only [work, hwaiting]
      omega
  | server =>
    have hstep : l.step (.pick .server) = { l with server := l.server.pick } := by
      show { l with server := l.server.pick, toClient := l.toClient ++ [] } = _
      rw [List.append_nil]
    have hwaiting := l.server.waiting_pick
    rw [hstep]
    refine ⟨?_, fun ⟨hfree, hqueue⟩ => ?_⟩
    · obtain ⟨inHand, queue, hpick⟩ := l.server.exists_pick_eq
      rw [hpick] at hwaiting ⊢
      exact { h with
        serverStands := ⟨h.serverStands.role, h.serverStands.config, h.serverStands.opened⟩
        serverWaiting := hwaiting ▸ h.serverWaiting }
    · have hpicked := hless h.serverStands.opened hfree hqueue
      simp only [work, hwaiting]
      omega

/-- Nothing is composed where nothing is in hand. -/
theorem compose_of_free {role : Role} (hfree : (l.endOf role).inHand = none) :
    l.step (.compose role) = l := by
  cases role with
  | client =>
    have hrun : TransportStep.compose.run l.client = ({}, l.client) :=
      Transport.compose_of_none hfree
    rw [step, happen_client hrun]
    show { l with toServer := l.toServer ++ [] } = l
    rw [List.append_nil]
  | server =>
    have hrun : TransportStep.compose.run l.server = ({}, l.server) :=
      Transport.compose_of_none hfree
    rw [step, happen_server hrun]
    show { l with toClient := l.toClient ++ [] } = l
    rw [List.append_nil]

theorem compose_client {script : Script}
    (h : l.At client server phase toClient toServer) (hhand : l.client.inHand = some script) :
    ∃ phase' toServer', (l.step (.compose .client)).At client server phase' toClient toServer' ∧
      (l.step (.compose .client)).work phase' toClient toServer' <
        l.work phase toClient toServer := by
  have hopen := h.clientStands.opened
  have hrole : decide (l.client.role = .server) = false := by
    rw [h.clientStands.role]
    rfl
  have hwaiting := Transport.waiting_of_hand hhand
  have hcases := h.clientWaiting
  rw [hwaiting] at hcases
  rcases hcases.cons_cases with ⟨hecho, hrest⟩ | ⟨tokens, htoken, hrest⟩
  · -- an echo
    have hrun : TransportStep.compose.run l.client =
        ({ sent := [echoMessage l.client.order false] }, { l.client with inHand := none }) := by
      rw [hecho] at hhand
      exact Transport.compose_of_application hopen rfl hrole hhand
    have hstep : l.step (.compose .client) = _ := happen_client hrun
    refine ⟨phase, toServer ++ [echoMessage l.client.order false], ?_, ?_⟩
    · rw [hstep]
      exact { h with
        clientStands := ⟨h.clientStands.role, h.clientStands.config, h.clientStands.opened⟩
        clientWaiting := hrest
        amongToServer := h.amongToServer.append_other ⟨_, rfl⟩
        octetsToServer := octets_append h.octetsToServer _ }
    · rw [hstep]
      simp only [work, hwaiting, waiting_composed, List.length_cons, List.length_append,
        List.length_nil]
      omega
  · -- the reply
    cases phase with
    | replyQueued =>
      cases htoken
      have hrun : TransportStep.compose.run l.client =
          ({ sent := [replyMessage server client] }, { l.client with inHand := none }) :=
        Transport.compose_of_application hopen (h.clientOrder (by decide)) hrole hhand
      have hstep : l.step (.compose .client) = _ := happen_client hrun
      refine ⟨.replySent, toServer ++ [replyMessage server client], ?_, ?_⟩
      · rw [hstep]
        exact { h with
          clientStands := ⟨h.clientStands.role, h.clientStands.config, h.clientStands.opened⟩
          clientOrder := fun _ => h.clientOrder (by decide)
          clientPeer := fun _ => h.clientPeer (by decide)
          serverPeer := fun hle => absurd hle (by decide)
          clientWaiting := hrest
          amongToServer := h.amongToServer.of_nil_append _
          octetsToServer := octets_append h.octetsToServer _ }
      · rw [hstep]
        simp only [work, hwaiting, waiting_composed, List.length_cons, List.length_append,
          List.length_nil, Phase.rank]
        omega
    | _ => cases htoken

theorem compose_server {script : Script}
    (h : l.At client server phase toClient toServer) (hhand : l.server.inHand = some script) :
    ∃ phase' toClient', (l.step (.compose .server)).At client server phase' toClient' toServer ∧
      (l.step (.compose .server)).work phase' toClient' toServer <
        l.work phase toClient toServer := by
  have hopen := h.serverStands.opened
  have hrole : decide (l.server.role = .server) = true := by
    rw [h.serverStands.role]
    rfl
  have hwaiting := Transport.waiting_of_hand hhand
  have hcases := h.serverWaiting
  rw [hwaiting] at hcases
  rcases hcases.cons_cases with ⟨hecho, hrest⟩ | ⟨tokens, htoken, hrest⟩
  · -- an echo
    have hrun : TransportStep.compose.run l.server =
        ({ sent := [echoMessage l.server.order true] }, { l.server with inHand := none }) := by
      rw [hecho] at hhand
      exact Transport.compose_of_application hopen rfl hrole hhand
    have hstep : l.step (.compose .server) = _ := happen_server hrun
    refine ⟨phase, toClient ++ [echoMessage l.server.order true], ?_, ?_⟩
    · rw [hstep]
      exact { h with
        serverStands := ⟨h.serverStands.role, h.serverStands.config, h.serverStands.opened⟩
        serverWaiting := hrest
        amongToClient := h.amongToClient.append_other ⟨_, rfl⟩
        octetsToClient := octets_append h.octetsToClient _ }
    · rw [hstep]
      simp only [work, hwaiting, waiting_composed, List.length_cons, List.length_append,
        List.length_nil]
      omega
  · cases phase with
    | greetingQueued =>
      cases htoken
      have hrun : TransportStep.compose.run l.server =
          ({ sent := [orderMessage server, greetingMessage server] },
            { l.server with inHand := none }) :=
        Transport.compose_of_greeting hopen h.serverOrder hrole hhand
      have hstep : l.step (.compose .server) = _ := happen_server hrun
      refine ⟨.greetingSent, toClient ++ [orderMessage server, greetingMessage server], ?_, ?_⟩
      · rw [hstep]
        exact { h with
          serverStands := ⟨h.serverStands.role, h.serverStands.config, h.serverStands.opened⟩
          clientOrder := fun hle => absurd hle (by decide)
          clientPeer := fun hle => absurd hle (by decide)
          serverPeer := fun hle => absurd hle (by decide)
          serverWaiting := hrest
          amongToClient := h.amongToClient.of_nil_append _
          octetsToClient := octets_append h.octetsToClient _ }
      · rw [hstep]
        simp only [work, hwaiting, waiting_composed, List.length_cons, List.length_append,
          List.length_nil, Phase.rank]
        omega
    | verdictQueued =>
      cases htoken
      have hrun : TransportStep.compose.run l.server =
          ({ sent := [acceptanceMessage server] }, { l.server with inHand := none }) :=
        Transport.compose_of_application hopen h.serverOrder hrole hhand
      have hstep : l.step (.compose .server) = _ := happen_server hrun
      refine ⟨.verdictSent, toClient ++ [acceptanceMessage server], ?_, ?_⟩
      · rw [hstep]
        exact { h with
          serverStands := ⟨h.serverStands.role, h.serverStands.config, h.serverStands.opened⟩
          clientOrder := fun _ => h.clientOrder (by decide)
          clientPeer := fun _ => h.clientPeer (by decide)
          serverPeer := fun _ => h.serverPeer (by decide)
          serverWaiting := hrest
          amongToClient := h.amongToClient.of_nil_append _
          octetsToClient := octets_append h.octetsToClient _ }
      · rw [hstep]
        simp only [work, hwaiting, waiting_composed, List.length_cons, List.length_append,
          List.length_nil, Phase.rank]
        omega
    | _ => cases htoken

/-! ## A message comes in -/

theorem transmissible_toClient (hadmits : client.Admits server)
    (h : l.At client server phase toClient toServer) :
    ∀ m ∈ toClient, m.Transmissible client.maxPayload := by
  refine h.amongToClient.forall_mem ?_ ?_
  · cases phase with
    | greetingSent =>
      exact List.forall_mem_cons.2 ⟨transmissible_orderMessage _ server,
        List.forall_mem_singleton.2 hadmits.transmissible_greeting⟩
    | orderKnown => exact List.forall_mem_singleton.2 hadmits.transmissible_greeting
    | verdictSent => exact List.forall_mem_singleton.2 hadmits.transmissible_acceptance
    | _ => exact List.forall_mem_nil _
  · rintro m ⟨o, rfl⟩
    exact transmissible_echoMessage ..

theorem transmissible_toServer (hadmits : client.Admits server)
    (h : l.At client server phase toClient toServer) :
    ∀ m ∈ toServer, m.Transmissible server.maxPayload := by
  refine h.amongToServer.forall_mem ?_ ?_
  · cases phase with
    | replySent => exact List.forall_mem_singleton.2 hadmits.transmissible_reply
    | _ => exact List.forall_mem_nil _
  · rintro m ⟨o, rfl⟩
    exact transmissible_echoMessage ..

theorem decode?_toClient {m : Message} {ms : List Message} (hadmits : client.Admits server)
    (h : l.At client server phase (m :: ms) toServer) :
    Message.decode? (l.endOf .client).config.maxPayload (l.inbox .client) =
      .ok (some (m, ms.flatMap Message.octets)) := by
  show Message.decode? l.client.config.maxPayload l.toClient = _
  rw [h.clientStands.config, h.octetsToClient, List.flatMap_cons]
  exact (h.transmissible_toClient hadmits m List.mem_cons_self).decode? _

theorem decode?_toServer {m : Message} {ms : List Message} (hadmits : client.Admits server)
    (h : l.At client server phase toClient (m :: ms)) :
    Message.decode? (l.endOf .server).config.maxPayload (l.inbox .server) =
      .ok (some (m, ms.flatMap Message.octets)) := by
  show Message.decode? l.server.config.maxPayload l.toServer = _
  rw [h.serverStands.config, h.octetsToServer, List.flatMap_cons]
  exact (h.transmissible_toServer hadmits m List.mem_cons_self).decode? _

theorem take_of_dispatch {t t' : Transport} {now : Instant} {m : Message} (hopen : t.closed = false)
    (hdispatch : { t with lastActivity := now }.dispatch m = { transport := t' }) :
    (TransportStep.take now m).run t = ({}, t') := by
  have hat : t.dispatchAt now m = { transport := t' } := hdispatch
  have hrun : t.take now m = _ :=
    Transport.take_of_good (Transport.listens_of_open hopen) (by rw [hat])
  rw [hat] at hrun
  exact hrun

theorem deliver_client {m : Message} {ms : List Message} (hadmits : client.Admits server)
    (h : l.At client server phase (m :: ms) toServer) (now : Instant) :
    ∃ phase', (l.step (.deliver .client now)).At client server phase' ms toServer ∧
      (l.step (.deliver .client now)).work phase' ms toServer < l.work phase (m :: ms) toServer := by
  have hopen := h.clientStands.opened
  have hrole := h.clientStands.role
  have hcomes : ∀ t, (TransportStep.take now m).run l.client = ({}, t) →
      l.step (.deliver .client now) =
        { l with client := t, toClient := ms.flatMap Message.octets } := by
    intro t hrun
    simp only [step, h.decode?_toClient hadmits]
    rw [happen_client (l := l.withInbox (ms.flatMap Message.octets) .client) hrun]
    exact congrArg (Link.mk t l.server (ms.flatMap Message.octets)) (List.append_nil l.toServer)
  rcases h.amongToClient.cons_cases with ⟨⟨o, rfl⟩, hrest⟩ | ⟨tokens, htoken, hrest⟩
  · -- an echo comes back
    have hstep := hcomes _ (take_of_dispatch hopen (Transport.dispatch_echoMessage_server o))
    refine ⟨phase, ?_, ?_⟩
    · rw [hstep]
      exact { h with
        clientStands := ⟨hrole, h.clientStands.config, hopen⟩
        amongToClient := hrest
        octetsToClient := rfl }
    · rw [hstep]
      simp only [work, Transport.length_waiting, List.length_cons]
      omega
  · cases phase with
    | greetingSent =>
      cases htoken
      have hstep := hcomes _ (take_of_dispatch hopen (Transport.dispatch_orderMessage hrole))
      refine ⟨.orderKnown, ?_, ?_⟩
      · rw [hstep]
        exact { h with
          clientStands := ⟨hrole, h.clientStands.config, hopen⟩
          clientOrder := fun _ => rfl
          clientPeer := fun hle => absurd hle (by decide)
          serverPeer := fun hle => absurd hle (by decide)
          amongToClient := hrest
          octetsToClient := rfl }
      · rw [hstep]
        simp only [work, Transport.length_waiting, List.length_cons, Phase.rank]
        omega
    | orderKnown =>
      cases htoken
      have hstep := hcomes _ (take_of_dispatch hopen
        (Transport.dispatch_greetingMessage hopen hrole hadmits.name))
      refine ⟨.replyQueued, ?_, ?_⟩
      · rw [hstep]
        exact { h with
          clientStands := ⟨hrole, h.clientStands.config, hopen⟩
          clientOrder := fun _ => h.clientOrder (by decide)
          clientPeer := fun _ => rfl
          serverPeer := fun hle => absurd hle (by decide)
          clientWaiting := by
            rw [h.clientStands.config, waiting_push]
            exact h.clientWaiting.of_nil_append _
          amongToClient := hrest
          octetsToClient := rfl }
      · rw [hstep]
        simp only [work, Transport.length_waiting, Transport.push, List.length_cons,
          List.length_append, List.length_nil, Phase.rank]
        omega
    | verdictSent =>
      cases htoken
      have hstep := hcomes _ (take_of_dispatch hopen (Transport.dispatch_acceptanceMessage hrole))
      refine ⟨.settled, ?_, ?_⟩
      · rw [hstep]
        exact { h with
          clientStands := ⟨hrole, h.clientStands.config, hopen⟩
          clientOrder := fun _ => h.clientOrder (by decide)
          clientPeer := fun _ => h.clientPeer (by decide)
          serverPeer := fun _ => h.serverPeer (by decide)
          clientVerification := rfl
          amongToClient := hrest
          octetsToClient := rfl }
      · rw [hstep]
        simp only [work, Transport.length_waiting, List.length_cons, Phase.rank]
        omega
    | _ => cases htoken

theorem deliver_server {m : Message} {ms : List Message} (hadmits : client.Admits server)
    (h : l.At client server phase toClient (m :: ms)) (now : Instant) :
    ∃ phase', (l.step (.deliver .server now)).At client server phase' toClient ms ∧
      (l.step (.deliver .server now)).work phase' toClient ms < l.work phase toClient (m :: ms) := by
  have hopen := h.serverStands.opened
  have hrole := h.serverStands.role
  have hcomes : ∀ t, (TransportStep.take now m).run l.server = ({}, t) →
      l.step (.deliver .server now) =
        { l with server := t, toServer := ms.flatMap Message.octets } := by
    intro t hrun
    simp only [step, h.decode?_toServer hadmits]
    rw [happen_server (l := l.withInbox (ms.flatMap Message.octets) .server) hrun]
    exact congrArg (Link.mk l.client t · (ms.flatMap Message.octets)) (List.append_nil l.toClient)
  rcases h.amongToServer.cons_cases with ⟨⟨o, rfl⟩, hrest⟩ | ⟨tokens, htoken, hrest⟩
  · -- an echo is to be sent back
    have hstep := hcomes _ (take_of_dispatch hopen
      (Transport.dispatch_echoMessage_client (t := { l.server with lastActivity := now }) hopen o))
    refine ⟨phase, ?_, ?_⟩
    · rw [hstep]
      exact { h with
        serverStands := ⟨hrole, h.serverStands.config, hopen⟩
        serverWaiting := waiting_push .. ▸ h.serverWaiting.append_other rfl
        amongToServer := hrest
        octetsToServer := rfl }
    · rw [hstep]
      simp only [work, Transport.length_waiting, Transport.push, List.length_cons,
        List.length_append, List.length_nil]
      omega
  · cases phase with
    | replySent =>
      cases htoken
      have hstep := hcomes _ (take_of_dispatch hopen
        (Transport.dispatch_replyMessage hopen hrole h.serverStands.config
          (utf8ByteSize_replyTo client hadmits.name)))
      refine ⟨.verdictQueued, ?_, ?_⟩
      · rw [hstep]
        exact { h with
          serverStands := ⟨hrole, h.serverStands.config, hopen⟩
          clientOrder := fun _ => h.clientOrder (by decide)
          clientPeer := fun _ => h.clientPeer (by decide)
          serverPeer := fun _ => rfl
          serverVerification := rfl
          serverWaiting := waiting_push .. ▸ h.serverWaiting.of_nil_append _
          amongToServer := hrest
          octetsToServer := rfl }
      · rw [hstep]
        simp only [work, Transport.length_waiting, Transport.push, List.length_cons,
          List.length_append, List.length_nil, Phase.rank]
        omega
    | _ => cases htoken

/-! ## One step and all steps -/

theorem deliver_of_nil {role : Role} {now : Instant} (hinbox : l.inbox role = []) :
    l.step (.deliver role now) = l := by
  have hnone : Message.decode? (l.endOf role).config.maxPayload (l.inbox role) = .ok none := by
    rw [hinbox]
    rfl
  simp only [step, hnone]

/-- A step keeps the validation at a phase, and one with something to do leaves less to do. -/
theorem step (hadmits : client.Admits server) (h : l.At client server phase toClient toServer)
    (s : LinkStep) :
    ∃ phase' toClient' toServer', (l.step s).At client server phase' toClient' toServer' ∧
      (l.Works s → (l.step s).work phase' toClient' toServer' < l.work phase toClient toServer) := by
  cases s with
  | echo role => exact ⟨phase, toClient, toServer, h.echo role, False.elim⟩
  | pick role => exact ⟨phase, toClient, toServer, h.pick role⟩
  | compose role =>
    cases hhand : (l.endOf role).inHand with
    | none =>
      rw [compose_of_free hhand]
      exact ⟨phase, toClient, toServer, h, fun hworks => absurd hhand hworks⟩
    | some script =>
      cases role with
      | client =>
        obtain ⟨phase', toServer', hat, hless⟩ := h.compose_client hhand
        exact ⟨phase', toClient, toServer', hat, fun _ => hless⟩
      | server =>
        obtain ⟨phase', toClient', hat, hless⟩ := h.compose_server hhand
        exact ⟨phase', toClient', toServer, hat, fun _ => hless⟩
  | deliver role now =>
    cases role with
    | client =>
      cases toClient with
      | nil =>
        have hsame : l.step (.deliver .client now) = l := deliver_of_nil h.octetsToClient
        rw [hsame]
        exact ⟨phase, [], toServer, h, fun hworks => absurd h.octetsToClient hworks⟩
      | cons m ms =>
        obtain ⟨phase', hat, hless⟩ := h.deliver_client hadmits now
        exact ⟨phase', ms, toServer, hat, fun _ => hless⟩
    | server =>
      cases toServer with
      | nil =>
        have hsame : l.step (.deliver .server now) = l := deliver_of_nil h.octetsToServer
        rw [hsame]
        exact ⟨phase, toClient, [], h, fun hworks => absurd h.octetsToServer hworks⟩
      | cons m ms =>
        obtain ⟨phase', hat, hless⟩ := h.deliver_server hadmits now
        exact ⟨phase', toClient, ms, hat, fun _ => hless⟩

theorem run (hadmits : client.Admits server) (h : l.At client server phase toClient toServer)
    (steps : List LinkStep) :
    ∃ phase' toClient' toServer', (Link.run steps l).At client server phase' toClient' toServer' := by
  induction steps generalizing l phase toClient toServer with
  | nil => exact ⟨phase, toClient, toServer, h⟩
  | cons s steps ih =>
    obtain ⟨_, _, _, hstep, -⟩ := h.step hadmits s
    exact ih hstep

/-- Without new echoes only so many steps have something to do. -/
theorem length_le_work (hadmits : client.Admits server)
    (h : l.At client server phase toClient toServer) {steps : List LinkStep}
    (hbusy : Link.Busy steps l) : steps.length ≤ l.work phase toClient toServer := by
  induction steps generalizing l phase toClient toServer with
  | nil => exact Nat.zero_le _
  | cons s steps ih =>
    obtain ⟨_, _, _, hstep, hless⟩ := h.step hadmits s
    exact Nat.lt_of_le_of_lt (ih hstep hbusy.2) (hless hbusy.1)

/-- What is in flight to either end is a message there, and one that the connection survives. -/
theorem deliverable (hadmits : client.Admits server)
    (h : l.At client server phase toClient toServer) (role : Role) :
    l.inbox role = [] ∨
      ∃ m rest, Message.decode? (l.endOf role).config.maxPayload (l.inbox role) =
        .ok (some (m, rest)) ∧ ((l.endOf role).dispatch m).good = true := by
  cases role with
  | client =>
    cases toClient with
    | nil => exact .inl h.octetsToClient
    | cons m ms =>
      have hdecode := h.decode?_toClient hadmits
      obtain ⟨phase', hat, -⟩ := h.deliver_client hadmits 0
      have hopened := hat.clientStands.opened
      have hclosed := Transport.closed_take h.clientStands.opened 0 m
      simp only [Link.step, hdecode] at hopened
      rw [show (l.client.take 0 m).2.closed = false from hopened] at hclosed
      exact .inr ⟨m, _, hdecode, (Bool.not_eq_false' _).mp hclosed.symm⟩
  | server =>
    cases toServer with
    | nil => exact .inl h.octetsToServer
    | cons m ms =>
      have hdecode := h.decode?_toServer hadmits
      obtain ⟨phase', hat, -⟩ := h.deliver_server hadmits 0
      have hopened := hat.serverStands.opened
      have hclosed := Transport.closed_take h.serverStands.opened 0 m
      simp only [Link.step, hdecode] at hopened
      rw [show (l.server.take 0 m).2.closed = false from hopened] at hclosed
      exact .inr ⟨m, _, hdecode, (Bool.not_eq_false' _).mp hclosed.symm⟩

theorem toClient_eq_nil (hadmits : client.Admits server)
    (h : l.At client server phase toClient toServer) (hinbox : l.toClient = []) :
    toClient = [] := by
  cases toClient with
  | nil => rfl
  | cons m ms =>
    have hdecode := h.decode?_toClient hadmits
    rw [show l.inbox .client = [] from hinbox] at hdecode
    cases hdecode

theorem toServer_eq_nil (hadmits : client.Admits server)
    (h : l.At client server phase toClient toServer) (hinbox : l.toServer = []) :
    toServer = [] := by
  cases toServer with
  | nil => rfl
  | cons m ms =>
    have hdecode := h.decode?_toServer hadmits
    rw [show l.inbox .server = [] from hinbox] at hdecode
    cases hdecode

/-- In every phase but the last one something is waiting or in flight. -/
theorem settled_of_idle (hadmits : client.Admits server)
    (h : l.At client server phase toClient toServer) (hidle : l.Idle) : phase = .settled := by
  obtain ⟨hclient, hserver, htoClient, htoServer⟩ := hidle
  have hnone₁ := h.clientWaiting
  have hnone₂ := h.serverWaiting
  have hnone₃ := h.amongToClient
  have hnone₄ := h.amongToServer
  rw [hclient] at hnone₁
  rw [hserver] at hnone₂
  rw [h.toClient_eq_nil hadmits htoClient] at hnone₃
  rw [h.toServer_eq_nil hadmits htoServer] at hnone₄
  cases phase with
  | greetingQueued | verdictQueued => exact absurd hnone₂.eq_nil (List.cons_ne_nil _ _)
  | greetingSent | orderKnown | verdictSent => exact absurd hnone₃.eq_nil (List.cons_ne_nil _ _)
  | replyQueued => exact absurd hnone₁.eq_nil (List.cons_ne_nil _ _)
  | replySent => exact absurd hnone₄.eq_nil (List.cons_ne_nil _ _)
  | settled => rfl

end Link.At

namespace Link

/-- Two ends that have just opened a connection, the server's with its greeting queued. -/
def opened (serverAddress clientAddress : Endpoint) (priority : Int16)
    (client server : TransportConfig) (clientHandler serverHandler : Option (Message → Bool)) :
    Link where
  client := .client serverAddress priority client clientHandler
  server := .server clientAddress server serverHandler

theorem at_opened (serverAddress clientAddress : Endpoint) (priority : Int16)
    (client server : TransportConfig) (clientHandler serverHandler : Option (Message → Bool)) :
    (opened serverAddress clientAddress priority client server clientHandler serverHandler).At
      client server .greetingQueued [] [] where
  clientStands := ⟨rfl, rfl, rfl⟩
  serverStands := ⟨rfl, rfl, rfl⟩
  clientOrder := fun hle => absurd hle (by decide)
  serverOrder := rfl
  clientPeer := fun hle => absurd hle (by decide)
  serverPeer := fun hle => absurd hle (by decide)
  clientVerification := rfl
  serverVerification := rfl
  clientWaiting := .nil
  serverWaiting := .refl _
  amongToClient := .nil
  amongToServer := .nil
  octetsToClient := rfl
  octetsToServer := rfl

/-- Both ends are verified and know of each other what the other one is configured to. -/
structure Agreed (client server : TransportConfig) (l : Link) : Prop where
  clientVerified : l.client.isVerified = true
  serverVerified : l.server.isVerified = true
  order : l.client.order = server.order
  clientPeer : l.client.peer =
    ⟨Header.revision, server.receiveBufferSize, server.introspectionCapacity⟩
  serverPeer : l.server.peer =
    ⟨Header.revision, client.receiveBufferSize, client.introspectionCapacity⟩

theorem At.agreed_of_idle {client server : TransportConfig} {phase : Phase}
    {toClient toServer : List Message} {l : Link} (hadmits : client.Admits server)
    (h : l.At client server phase toClient toServer) (hidle : l.Idle) :
    l.Agreed client server := by
  have hphase := h.settled_of_idle hadmits hidle
  subst hphase
  exact {
    clientVerified := decide_eq_true h.clientVerification
    serverVerified := decide_eq_true h.serverVerification
    order := h.clientOrder (by decide)
    clientPeer := h.clientPeer (by decide)
    serverPeer := h.serverPeer (by decide) }

theorem At.verification_ne_failed {client server : TransportConfig} {phase : Phase}
    {toClient toServer : List Message} {l : Link} (h : l.At client server phase toClient toServer)
    (role : Role) (reason : String) : (l.endOf role).verification ≠ .failed reason := by
  cases role with
  | client =>
    show l.client.verification ≠ _
    rw [h.clientVerification]
    by_cases hphase : .settled ≤ phase
    · rw [if_pos hphase]
      exact Verification.noConfusion
    · rw [if_neg hphase]
      exact Verification.noConfusion
  | server =>
    show l.server.verification ≠ _
    rw [h.serverVerification]
    by_cases hphase : .verdictQueued ≤ phase
    · rw [if_pos hphase]
      exact Verification.noConfusion
    · rw [if_neg hphase]
      exact Verification.noConfusion

theorem At.closed_endOf {client server : TransportConfig} {phase : Phase}
    {toClient toServer : List Message} {l : Link} (h : l.At client server phase toClient toServer)
    (role : Role) : (l.endOf role).closed = false := by
  cases role with
  | client => exact h.clientStands.opened
  | server => exact h.serverStands.opened

/-- Where something is waiting, the sender can pick or compose. -/
theorem works_of_waiting {l : Link} (role : Role) (hwaiting : (l.endOf role).waiting ≠ []) :
    ∃ s, l.Works s := by
  cases hhand : (l.endOf role).inHand with
  | some script =>
    have hworks : (l.endOf role).inHand ≠ none := hhand ▸ Option.some_ne_none script
    exact ⟨.compose role, hworks⟩
  | none =>
    rw [Transport.waiting_of_free hhand] at hwaiting
    exact ⟨.pick role, hhand, hwaiting⟩

/-- As long as something is waiting or in flight, some step has something to do. -/
theorem idle_or_works (l : Link) : l.Idle ∨ ∃ s, l.Works s := by
  by_cases hclient : l.client.waiting = []
  · by_cases hserver : l.server.waiting = []
    · by_cases htoClient : l.toClient = []
      · by_cases htoServer : l.toServer = []
        · exact .inl ⟨hclient, hserver, htoClient, htoServer⟩
        · exact .inr ⟨.deliver .server 0, htoServer⟩
      · exact .inr ⟨.deliver .client 0, htoClient⟩
    · exact .inr (works_of_waiting .server hserver)
  · exact .inr (works_of_waiting .client hclient)

theorem busy_append_singleton {steps : List LinkStep} {s : LinkStep} {l : Link}
    (hbusy : Busy steps l) (hworks : (run steps l).Works s) : Busy (steps ++ [s]) l := by
  induction steps generalizing l with
  | nil => exact ⟨hworks, trivial⟩
  | cons s' steps ih => exact ⟨hbusy.1, ih hbusy.2 hworks⟩

/-- Whatever the settings of two ends whose limits leave room for the validation, and in whatever
order they take in, send and start echoes: neither end ever closes or fails, and whatever is in
flight to one is a message there that the connection survives; when nothing is waiting or in
flight any more, both are verified and know of each other what the other one said; and without new
echoes that comes after a bounded number of steps, whichever are taken. -/
theorem validation_converges {client server : TransportConfig} (hadmits : client.Admits server)
    (serverAddress clientAddress : Endpoint) (priority : Int16)
    (clientHandler serverHandler : Option (Message → Bool)) (steps : List LinkStep) :
    let l := run steps (opened serverAddress clientAddress priority client server clientHandler
      serverHandler)
    (∀ role, (l.endOf role).closed = false ∧
      (∀ reason, (l.endOf role).verification ≠ .failed reason) ∧
      (l.inbox role = [] ∨
        ∃ m rest, Message.decode? (l.endOf role).config.maxPayload (l.inbox role) =
          .ok (some (m, rest)) ∧ ((l.endOf role).dispatch m).good = true)) ∧
    (l.Idle → l.Agreed client server) ∧
    ∃ bound, ∀ more, Busy more l → more.length ≤ bound ∧
      ((run more l).Idle ∨ ∃ s, Busy (more ++ [s]) l) := by
  intro l
  obtain ⟨phase, toClient, toServer, hat⟩ := (at_opened serverAddress clientAddress priority client
    server clientHandler serverHandler).run hadmits steps
  refine ⟨fun role => ⟨hat.closed_endOf role, hat.verification_ne_failed role,
    hat.deliverable hadmits role⟩, hat.agreed_of_idle hadmits, l.work phase toClient toServer, ?_⟩
  intro more hbusy
  refine ⟨hat.length_le_work hadmits hbusy, ?_⟩
  exact (idle_or_works (run more l)).imp_right
    fun ⟨s, hworks⟩ => ⟨s, busy_append_singleton hbusy hworks⟩

/-- A schedule in which the client starts an echo while its sender has nothing to say yet, and in
which the client learns the byte order when the echo has been picked. -/
def echoingSchedule : List LinkStep :=
  [.echo .client, .pick .server, .compose .server, .pick .client, .deliver .client 0,
    .deliver .client 0, .compose .client, .pick .client, .compose .client, .deliver .server 0,
    .deliver .server 0, .pick .server, .compose .server, .pick .server, .compose .server,
    .deliver .client 0, .deliver .client 0]

/-- Two ends of which each is configured to a plugin that the other one does not know. -/
theorem echoingSchedule_agreed :
    let client : TransportConfig := { authPlugin := "ca", receiveBufferSize := 4096 }
    let server : TransportConfig :=
      { authPlugin := "krb5", order := .little, introspectionCapacity := 100 }
    client.Admits server ∧
      (run echoingSchedule (opened (.any 0) (.any 0) 0 client server none none)).Agreed client
        server :=
  have hadmits := ⟨by decide, by decide, by decide⟩
  ⟨hadmits, (validation_converges hadmits (.any 0) (.any 0) 0 none none echoingSchedule).2.1
    ⟨rfl, rfl, rfl, rfl⟩⟩

end Link

end PvNet
