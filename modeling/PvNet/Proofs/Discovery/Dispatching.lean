import PvNet.Context.Client
import PvNet.Proofs.Connection.Steps
import PvNet.Proofs.Discovery.SearchMessages
import PvNet.Proofs.Net.Sockets
set_option autoImplicit false

/-!
# Datagrams and their messages

A datagram that is not made of whole messages has no effect.  Any other one has the effect of
its messages, each in a datagram of its own (`Dispatches`): neither a client nor a server makes
more of messages that come together, and a message that they ignore takes nothing away from
the others.
-/

namespace PvNet

/-- Handles things one after the other.  Returns what each of them led to. -/
def handleEach {σ ι ε : Type} (handle : σ → ι → ε × σ) : List ι → σ → List ε × σ
  | [], st => ([], st)
  | i :: is, st =>
    let (e, st) := handle st i
    let (es, st) := handleEach handle is st
    (e :: es, st)

/-- A handler of datagrams that takes the messages of each apart. -/
structure Dispatches {σ ε : Type} (handle : σ → Bytes → ε × σ) (combine : ε → ε → ε) (nothing : ε)
    (Ignores : Message → Prop) : Prop where
  /-- What is malformed somewhere has no effect at all. -/
  refused : ∀ {datagram e}, Message.ofDatagram datagram = .error e →
    ∀ st, handle st datagram = (nothing, st)
  /-- A datagram has the effects of its messages in their order. -/
  apart : ∀ {datagram ms}, Message.ofDatagram datagram = .ok ms → ∀ st, handle st datagram =
    ((handleEach handle (ms.map Message.octets) st).1.foldr combine nothing,
      (handleEach handle (ms.map Message.octets) st).2)
  ignored : ∀ {datagram ms}, Message.ofDatagram datagram = .ok ms → ∀ m ∈ ms, Ignores m →
    ∀ st, handle st m.octets = (nothing, st)

/-- The messages of a datagram make it up, and each is a datagram as well. -/
theorem Message.ofDatagram_alone {datagram : Bytes} {ms : List Message}
    (h : ofDatagram datagram = .ok ms) :
    datagram = (ms.map octets).flatten ∧ ∀ m ∈ ms, ofDatagram m.octets = .ok [m] := by
  obtain ⟨hms, rfl⟩ := transmissible_of_ofDatagram h
  refine ⟨List.flatMap_def, fun m hm => ?_⟩
  have halone := ofDatagram_octets (List.forall_mem_singleton.2 (hms m hm))
  rwa [List.flatMap_singleton] at halone

section

variable {σ ε : Type} {handle : σ → Bytes → ε × σ} {step : σ → Message → ε × σ}
  {combine : ε → ε → ε} {nothing : ε} {Ignores : Message → Prop}

theorem handleEach_map_octets {ms : List Message}
    (h : ∀ m ∈ ms, ∀ st, handle st m.octets = step st m) (st : σ) :
    handleEach handle (ms.map Message.octets) st = handleEach step ms st := by
  induction ms generalizing st with
  | nil => rfl
  | cons m ms ih =>
    obtain ⟨hm, hms⟩ := List.forall_mem_cons.1 h
    rw [List.map_cons, handleEach, handleEach, hm]
    simp only [ih hms]

/-- It is enough to know what a handler does with a message. -/
theorem Dispatches.of_step
    (hstep : ∀ st datagram, handle st datagram =
      ((handleEach step (Responder.messages datagram) st).1.foldr combine nothing,
        (handleEach step (Responder.messages datagram) st).2))
    (hnothing : ∀ e, combine e nothing = e)
    (hignored : ∀ m, Ignores m → ∀ st, step st m = (nothing, st)) :
    Dispatches handle combine nothing Ignores := by
  have halone : ∀ {datagram ms}, Message.ofDatagram datagram = .ok ms →
      ∀ m ∈ ms, ∀ st, handle st m.octets = step st m := by
    intro datagram ms hok m hm st
    rw [hstep, Message.messages_of_ofDatagram ((Message.ofDatagram_alone hok).2 m hm)]
    show (combine (step st m).1 nothing, (step st m).2) = step st m
    rw [hnothing]
  refine ⟨fun {datagram e} herror st => ?_, fun {datagram ms} hok st => ?_,
    fun hok m hm hm' st => ?_⟩
  · rw [hstep, Responder.messages, herror]
    rfl
  · rw [hstep, Message.messages_of_ofDatagram hok, handleEach_map_octets (halone hok)]
  · rw [halone hok m hm, hignored m hm']

end

theorem Message.isApplication_iff {m : Message} {command : UInt8} :
    m.isApplication command = true ↔ m.isControl = false ∧ m.command = command := by
  rw [isApplication, Bool.and_eq_true_iff, Bool.not_eq_true', decide_eq_true_iff]

/-! ## Clients -/

namespace DiscoveryClient

/-- The messages that tell a client nothing: all but responses and beacons that can be read. -/
def Ignores (m : Message) : Prop :=
  m.isControl = true ∨
    (m.command ≠ Command.searchResponse ∧ m.command ≠ Command.beacon) ∨
    (m.command = Command.searchResponse ∧ ∃ e, m.read SearchResponse.decode = .error e) ∨
    (m.command = Command.beacon ∧ ∃ e, m.read Beacon.decode = .error e)

def Effects.nothing : Effects := {}

theorem Effects.append_nothing (a : Effects) : a ++ nothing = a := by
  show Effects.append a {} = a
  rw [Effects.append, List.append_nil, List.append_nil, Nat.add_zero]

theorem Effects.nothing_append (a : Effects) : nothing ++ a = a := by
  show Effects.append {} a = a
  rw [Effects.append, List.nil_append, List.nil_append, Nat.zero_add]

theorem Effects.append_assoc (a b c : Effects) : a ++ b ++ c = a ++ (b ++ c) := by
  show Effects.append (.append a b) c = .append a (.append b c)
  simp only [Effects.append, List.append_assoc, Nat.add_assoc]

theorem Effects.handled_foldr (es : List Effects) :
    (es.foldr (· ++ ·) nothing).handled = total handled es := by
  induction es with
  | nil => rfl
  | cons e es ih =>
    rw [List.foldr_cons, total_cons, ← ih]
    rfl

variable (c : DiscoveryClient) (now : Instant) (source : Endpoint) {m : Message}

theorem handleMessage_of_ignores (h : Ignores m) :
    c.handleMessage now source m = (.nothing, c) := by
  unfold handleMessage
  split
  · rename_i hresponse
    obtain ⟨happlication, hcommand⟩ := Message.isApplication_iff.1 hresponse
    rcases h with hcontrol | ⟨hother, _⟩ | ⟨_, e, hread⟩ | ⟨hbeacon, _⟩
    · cases happlication.symm.trans hcontrol
    · exact absurd hcommand hother
    · rw [hread]
      rfl
    · cases hcommand.symm.trans hbeacon
  split
  · rename_i hbeacon
    obtain ⟨happlication, hcommand⟩ := Message.isApplication_iff.1 hbeacon
    rcases h with hcontrol | ⟨_, hother⟩ | ⟨hresponse, _⟩ | ⟨_, e, hread⟩
    · cases happlication.symm.trans hcontrol
    · exact absurd hcommand hother
    · cases hcommand.symm.trans hresponse
    · rw [BeaconTracker.handle, hread]
      rfl
  · rfl

theorem handled_handleMessage (h : ¬ Ignores m) :
    (c.handleMessage now source m).1.handled = 1 := by
  have happlication : m.isControl = false := Bool.eq_false_iff.2 fun hcontrol => h (.inl hcontrol)
  unfold handleMessage
  split
  · rename_i hresponse
    obtain ⟨_, hcommand⟩ := Message.isApplication_iff.1 hresponse
    cases hread : m.read SearchResponse.decode with
    | error e => exact absurd (.inr (.inr (.inl ⟨hcommand, e, hread⟩))) h
    | ok r =>
      cases hattached : c.attached with
      | true => rfl
      | false => rfl
  split
  · rename_i hbeacon
    obtain ⟨_, hcommand⟩ := Message.isApplication_iff.1 hbeacon
    cases hread : m.read Beacon.decode with
    | error e => exact absurd (.inr (.inr (.inr ⟨hcommand, e, hread⟩))) h
    | ok b =>
      rw [BeaconTracker.handle, hread]
  · rename_i hresponse hbeacon
    refine absurd (.inr (.inl ⟨fun hcommand => ?_, fun hcommand => ?_⟩)) h
    · exact hresponse (Message.isApplication_iff.2 ⟨happlication, hcommand⟩)
    · exact hbeacon (Message.isApplication_iff.2 ⟨happlication, hcommand⟩)

theorem handleMessages_eq (ms : List Message) :
    handleMessages now source ms c =
      ((handleEach (fun c m => handleMessage c now source m) ms c).1.foldr (· ++ ·) .nothing,
        (handleEach (fun c m => handleMessage c now source m) ms c).2) := by
  induction ms generalizing c with
  | nil => rfl
  | cons m ms ih =>
    rw [handleMessages, handleEach]
    simp only [ih, List.foldr_cons]

theorem dispatches_handle :
    Dispatches (fun c datagram => handle c now datagram source) (· ++ ·) .nothing Ignores :=
  .of_step (fun c _ => c.handleMessages_eq now source _) Effects.append_nothing
    fun _ hm c => c.handleMessage_of_ignores now source hm

end DiscoveryClient

namespace ClientContext

open DiscoveryClient (Effects)

/-- Handles a datagram.  Returns what it led to, and what the connections do about it. -/
def take (c : ClientContext) (now : Instant) (source : Endpoint) (datagram : Bytes) :
    (Effects × Activity) × ClientContext :=
  let (effects, activity, c) := c.receive now datagram source
  ((effects, activity), c)

/-- What a message alone would lead to. -/
def takeMessage (c : ClientContext) (now : Instant) (source : Endpoint) (m : Message) :
    (Effects × Activity) × ClientContext :=
  if c.destroyed then ((.nothing, { sent := [] }), c)
  else
    let handled := c.discovery.handleMessage now source m
    let informed := invalidate handled.1.sightings c.pool
    ((handled.1, informed.1), { c with discovery := handled.2, pool := informed.2 })

/-- What two datagrams led to, one after the other. -/
def combine (a b : Effects × Activity) : Effects × Activity := (a.1 ++ b.1, a.2 ++ b.2)

/-- What leads to nothing. -/
def nothing : Effects × Activity := (.nothing, { sent := [] })

theorem combine_nothing (a : Effects × Activity) : combine a nothing = a :=
  Prod.ext a.1.append_nothing a.2.append_empty

theorem invalidate_append (first rest : List BeaconTracker.Sighting) (p : TransportPool) :
    invalidate (first ++ rest) p =
      ((invalidate first p).1 ++ (invalidate rest (invalidate first p).2).1,
        (invalidate rest (invalidate first p).2).2) := by
  induction first generalizing p with
  | nil => exact Prod.ext (Activity.empty_append _).symm rfl
  | cons s first ih =>
    rw [List.cons_append, invalidate, invalidate]
    simp only [ih, Activity.append_assoc]

variable (c : ClientContext) (now : Instant) (source : Endpoint)

theorem handleEach_takeMessage_of_destroyed (h : c.destroyed = true) (ms : List Message) :
    (handleEach (fun c m => takeMessage c now source m) ms c).1.foldr combine nothing = nothing ∧
      (handleEach (fun c m => takeMessage c now source m) ms c).2 = c := by
  induction ms with
  | nil => exact ⟨rfl, rfl⟩
  | cons m ms ih =>
    have hm : c.takeMessage now source m = (nothing, c) := if_pos h
    rw [handleEach, hm]
    simp only [List.foldr_cons, ih]
    exact ⟨combine_nothing nothing, trivial⟩

/-- The connections learn of the replaced servers while the messages are handled, or after that. -/
theorem handleEach_takeMessage (h : c.destroyed = false) (ms : List Message) :
    let handled := DiscoveryClient.handleMessages now source ms c.discovery
    let informed := invalidate handled.1.sightings c.pool
    (handleEach (fun c m => takeMessage c now source m) ms c).1.foldr combine nothing =
        (handled.1, informed.1) ∧
      (handleEach (fun c m => takeMessage c now source m) ms c).2 =
        { c with discovery := handled.2, pool := informed.2 } := by
  induction ms generalizing c with
  | nil => exact ⟨rfl, rfl⟩
  | cons m ms ih =>
    -- No message destroys the client, so that the same holds of the ones behind it.
    have hm : c.takeMessage now source m = _ := if_neg (Bool.eq_false_iff.1 h)
    obtain ⟨hrest, hlast⟩ := ih (c.takeMessage now source m).2 (by rw [hm]; exact h)
    rw [hm] at hrest hlast
    rw [handleEach, hm, DiscoveryClient.handleMessages]
    simp only [List.foldr_cons, hrest, hlast]
    have hsightings : ∀ a b : Effects, (a ++ b).sightings = a.sightings ++ b.sightings :=
      fun _ _ => rfl
    rw [hsightings, invalidate_append]
    exact ⟨rfl, rfl⟩

theorem take_eq (datagram : Bytes) :
    c.take now source datagram =
      let handled := handleEach (fun c m => takeMessage c now source m)
        (Responder.messages datagram) c
      (handled.1.foldr combine nothing, handled.2) := by
  cases hdestroyed : c.destroyed with
  | true =>
    have htake : c.take now source datagram = (nothing, c) := by
      rw [take, receive, if_pos hdestroyed]
      rfl
    obtain ⟨hnothing, hsame⟩ :=
      c.handleEach_takeMessage_of_destroyed now source hdestroyed (Responder.messages datagram)
    exact htake.trans (congrArg₂ Prod.mk hnothing hsame).symm
  | false =>
    obtain ⟨heffects, hstate⟩ :=
      c.handleEach_takeMessage now source hdestroyed (Responder.messages datagram)
    refine Eq.trans ?_ (congrArg₂ Prod.mk heffects hstate).symm
    rw [take, receive, if_neg (Bool.eq_false_iff.1 hdestroyed)]
    rfl

theorem takeMessage_of_ignores {m : Message} (h : DiscoveryClient.Ignores m) :
    c.takeMessage now source m = (nothing, c) := by
  unfold takeMessage
  split
  · rfl
  · rw [c.discovery.handleMessage_of_ignores now source h]
    rfl

theorem dispatches_take :
    Dispatches (fun c datagram => take c now source datagram) combine nothing
      DiscoveryClient.Ignores :=
  .of_step (fun c datagram => c.take_eq now source datagram) combine_nothing
    fun _ hm c => c.takeMessage_of_ignores now source hm

end ClientContext

/-! ## Servers -/

namespace Responder

/-- The messages that a server does not answer: all but requests that can be read. -/
def Ignores (m : Message) : Prop :=
  m.isControl = true ∨ m.command ≠ Command.search ∨ ∃ e, m.read SearchRequest.decode = .error e

variable (s : Responder) (source : Endpoint) {m : Message}

/-- Sends the answer to a message, if there is one. -/
def handleMessage (socket : DatagramSocket) (m : Message) : Nat × DatagramSocket :=
  socket.sendAll (s.answer? source m).toList

theorem answer?_of_ignores (h : Ignores m) : s.answer? source m = none := by
  unfold answer?
  split
  · rfl
  · rename_i happlication
    rw [Bool.not_eq_true', Bool.not_eq_false] at happlication
    obtain ⟨hnocontrol, hcommand⟩ := Message.isApplication_iff.1 happlication
    rcases h with hcontrol | hother | ⟨e, hread⟩
    · cases hnocontrol.symm.trans hcontrol
    · exact absurd hcommand hother
    · rw [hread]
      rfl

theorem sendAll_filterMap (socket : DatagramSocket) (ms : List Message) :
    socket.sendAll (ms.filterMap (s.answer? source)) =
      ((handleEach (s.handleMessage source) ms socket).1.foldr (· + ·) 0,
        (handleEach (s.handleMessage source) ms socket).2) := by
  induction ms generalizing socket with
  | nil => rfl
  | cons m ms ih =>
    have hcons : (m :: ms).filterMap (s.answer? source) =
        (s.answer? source m).toList ++ ms.filterMap (s.answer? source) := by
      rw [List.filterMap_cons]
      cases s.answer? source m with
      | none => rfl
      | some d => rfl
    rw [hcons, DatagramSocket.sendAll_append, ih, handleEach]
    rfl

theorem dispatches_handle :
    Dispatches (fun socket datagram => s.handle socket datagram source) (· + ·) 0 Ignores := by
  refine .of_step (fun socket datagram => s.sendAll_filterMap source socket _) Nat.add_zero
    fun m hm socket => ?_
  rw [handleMessage, answer?_of_ignores s source hm]
  rfl

end Responder

/-! ## Draining a socket -/

namespace DiscoveryClient

/-- What a client does with the datagrams that wait, while it keeps what they led to. -/
def drained (now : Instant) (st : Effects × DiscoveryClient) (x : Bytes × Endpoint) :
    Effects × DiscoveryClient :=
  (st.1 ++ (st.2.handle now x.1 x.2).1, (st.2.handle now x.1 x.2).2)

theorem foldl_drained (now : Instant) (xs : List (Bytes × Endpoint))
    (st : Effects × DiscoveryClient) :
    xs.foldl (drained now) st =
      (st.1 ++ (handleEach (fun c x => handle c now x.1 x.2) xs st.2).1.foldr (· ++ ·) .nothing,
        (handleEach (fun c x => handle c now x.1 x.2) xs st.2).2) := by
  induction xs generalizing st with
  | nil => exact Prod.ext st.1.append_nothing.symm rfl
  | cons x xs ih =>
    rw [List.foldl_cons, ih, handleEach]
    simp only [drained, List.foldr_cons, Effects.append_assoc]

theorem receive_of_open (c : DiscoveryClient) (now : Instant) {socket : DatagramSocket}
    (hopen : socket.closed = false) :
    c.receive now socket =
      let handed := DatagramSocket.front DatagramSocket.maxDrain socket.inbox
      let handled := handleEach (fun c x => handle c now x.1 x.2) handed c
      (handed.length, handled.1.foldr (· ++ ·) .nothing, handled.2,
        { socket with inbox := DatagramSocket.behind DatagramSocket.maxDrain socket.inbox }) := by
  have hunsent : ∀ handed : List (Bytes × Endpoint), handed.flatMap (fun _ => []) =
      ([] : List Outgoing) := fun handed => List.flatMap_eq_nil_iff.2 fun _ _ => rfl
  rw [receive, DatagramSocket.drain,
    @DatagramSocket.drainUpTo_eq socket _ _ (drained now) (fun _ => []) ?sends hopen]
  case sends =>
    intro st socket bytes source
    rw [List.filter_nil, List.append_nil]
    rfl
  rw [foldl_drained, DatagramSocket.answered, hunsent, List.filter_nil, List.append_nil]
  exact congrArg (fun es => (_, es, _, _)) (Effects.nothing_append _)

theorem receive_of_closed (c : DiscoveryClient) (now : Instant) {socket : DatagramSocket}
    (hclosed : socket.closed = true) : c.receive now socket = (0, .nothing, c, socket) := by
  rw [receive, DatagramSocket.drain_of_closed hclosed]
  rfl

end DiscoveryClient

namespace Responder

theorem receive_of_open (s : Responder) {socket : DatagramSocket} (hopen : socket.closed = false) :
    s.receive socket =
      let handed := DatagramSocket.front DatagramSocket.maxDrain socket.inbox
      (handed.length, socket.answered (fun x => s.answers x.1 x.2) handed
        (DatagramSocket.behind DatagramSocket.maxDrain socket.inbox)) := by
  have hsends : DatagramSocket.Sends
      (fun (_ : Unit) socket bytes source => ((), (s.handle socket bytes source).2))
      (fun _ _ => ()) (fun x => s.answers x.1 x.2) := by
    intro st socket bytes source
    exact congrArg (Prod.mk ()) (congrArg Prod.snd (DatagramSocket.sendAll_eq socket _))
  have hdrain := DatagramSocket.drainUpTo_eq hsends hopen DatagramSocket.maxDrain ()
  exact congrArg (fun r => (r.1, r.2.2)) hdrain

theorem receive_of_closed (s : Responder) {socket : DatagramSocket}
    (hclosed : socket.closed = true) : s.receive socket = (0, socket) := by
  rw [receive, DatagramSocket.drain_of_closed hclosed]

end Responder

/-! ## Messages do not harm each other -/

namespace DatagramSocket

/-- How a handler gets the datagrams that wait at a socket, over some calls of `drain`. -/
structure HandsOver {σ : Type} (handle : σ → DatagramSocket → Bytes → Endpoint → σ × DatagramSocket)
    (f : σ → Bytes × Endpoint → σ) (answers : Bytes × Endpoint → List Outgoing)
    (socket : DatagramSocket) (calls : Nat) : Prop where
  result : ∀ st, drainTimes handle calls st socket =
    ((batches calls socket.inbox).map List.length, (batches calls socket.inbox).flatten.foldl f st,
      socket.answered answers (batches calls socket.inbox).flatten (remaining calls socket.inbox))
  bounded : ∀ batch ∈ batches calls socket.inbox, batch.length ≤ 64
  /-- Nothing is lost, added or moved: what is left comes later. -/
  complete : (batches calls socket.inbox).flatten ++ datagrams (remaining calls socket.inbox) =
    datagrams socket.inbox
  exhausted : socket.inbox.length ≤ calls →
    (batches calls socket.inbox).flatten = datagrams socket.inbox

theorem Sends.handsOver {σ : Type}
    {handle : σ → DatagramSocket → Bytes → Endpoint → σ × DatagramSocket}
    {f : σ → Bytes × Endpoint → σ} {answers : Bytes × Endpoint → List Outgoing}
    (h : Sends handle f answers) {socket : DatagramSocket} (hopen : socket.closed = false)
    (calls : Nat) : HandsOver handle f answers socket calls where
  result := drainTimes_eq h hopen calls
  bounded _ hbatch := length_le_of_mem_batches hbatch
  complete := flatten_batches calls socket.inbox
  exhausted hcalls := by
    have hcomplete := flatten_batches calls socket.inbox
    rw [remaining_eq_nil hcalls] at hcomplete
    exact (List.append_nil _).symm.trans hcomplete

end DatagramSocket

open DatagramSocket in
/-- What clients and servers receive from a socket: the datagrams in front, one after the other, and
nothing once the socket is closed. -/
structure ReceivesFront (now : Instant) (s : Responder) (socket : DatagramSocket) : Prop where
  client : socket.closed = false → ∀ c : DiscoveryClient, c.receive now socket =
    let handed := front maxDrain socket.inbox
    let handled := handleEach (fun c x => DiscoveryClient.handle c now x.1 x.2) handed c
    (handed.length, handled.1.foldr (· ++ ·) .nothing, handled.2,
      { socket with inbox := behind maxDrain socket.inbox })
  server : socket.closed = false → s.receive socket =
    let handed := front maxDrain socket.inbox
    (handed.length, socket.answered (fun x => s.answers x.1 x.2) handed
      (behind maxDrain socket.inbox))
  closed : socket.closed = true →
    (∀ c : DiscoveryClient, c.receive now socket = (0, .nothing, c, socket)) ∧
      s.receive socket = (0, socket)

open DatagramSocket in
/-- Clients and servers drop a malformed datagram as a whole.  Otherwise the messages have the
effects that they would have alone, one after the other, and the counts add up; those that are
ignored count for nothing.  The datagrams that wait at a socket are handed over in their order and
once each, up to 64 at a call, however many calls it takes. -/
theorem datagrams_taken_apart (now : Instant) (source : Endpoint) (s : Responder) :
    (∀ {datagram ms}, Message.ofDatagram datagram = .ok ms →
      datagram = (ms.map Message.octets).flatten ∧
        ∀ m ∈ ms, Message.ofDatagram m.octets = .ok [m]) ∧
      Dispatches (fun c datagram => DiscoveryClient.handle c now datagram source) (· ++ ·) .nothing
        DiscoveryClient.Ignores ∧
      (∀ effects : List DiscoveryClient.Effects,
        (effects.foldr (· ++ ·) DiscoveryClient.Effects.nothing).handled =
          total (·.handled) effects) ∧
      (∀ {datagram ms}, Message.ofDatagram datagram = .ok ms → ∀ m ∈ ms,
        ¬ DiscoveryClient.Ignores m → ∀ c : DiscoveryClient,
          (c.handle now m.octets source).1.handled = 1) ∧
      Dispatches (fun c datagram => ClientContext.take c now source datagram) ClientContext.combine
        ClientContext.nothing DiscoveryClient.Ignores ∧
      Dispatches (fun socket datagram => s.handle socket datagram source) (· + ·) 0
        Responder.Ignores ∧
      (∀ {σ : Type} {handle : σ → DatagramSocket → Bytes → Endpoint → σ × DatagramSocket}
        {f : σ → Bytes × Endpoint → σ} {answers : Bytes × Endpoint → List Outgoing},
        Sends handle f answers → ∀ socket : DatagramSocket, socket.closed = false →
          ∀ calls, HandsOver handle f answers socket calls) ∧
      ∀ socket, ReceivesFront now s socket := by
  refine ⟨Message.ofDatagram_alone, DiscoveryClient.dispatches_handle now source,
    DiscoveryClient.Effects.handled_foldr, fun hok m hm hnotices c => ?_,
    ClientContext.dispatches_take now source, s.dispatches_handle source,
    fun hsends socket hopen calls => hsends.handsOver hopen calls,
    fun socket => ⟨fun hopen c => c.receive_of_open now hopen, s.receive_of_open,
      fun hclosed => ⟨fun c => c.receive_of_closed now hclosed, s.receive_of_closed hclosed⟩⟩⟩
  have hmessages := Message.messages_of_ofDatagram ((Message.ofDatagram_alone hok).2 m hm)
  have hone := c.handled_handleMessage now source hnotices
  rw [DiscoveryClient.handle, hmessages, DiscoveryClient.handleMessages_eq]
  exact (congrArg DiscoveryClient.Effects.handled
    (DiscoveryClient.Effects.append_nothing _)).trans hone

/-- A control message, a beacon that is cut off and an answer for channel 7. -/
def mixedMessages : List Message :=
  [⟨⟨2, 0x81, 2, 0⟩, []⟩, ⟨⟨2, 0xC0, 0, 1⟩, [5]⟩,
    ⟨⟨2, 0xC0, 4, 49⟩, List.replicate 16 1 ++ ([0, 0, 0, 9] ++ (List.replicate 16 0 ++
      ([0x13, 0xD3] ++ ([3, 0x74, 0x63, 0x70, 1] ++ [0, 1, 0, 0, 0, 7]))))⟩]

/-- Only the answer counts, and the search for the channel ends. -/
theorem mixedMessages_taken_apart :
    let c : DiscoveryClient :=
      { searches := { config := {}, destinations := [], replyTo := .any 0,
                      pending := Table.empty.put 7 ⟨"x", 0, 0⟩ } }
    let handled := handleEach (fun c datagram => DiscoveryClient.handle c 0 datagram (.any 5076))
      (mixedMessages.map Message.octets) c
    Message.ofDatagram (mixedMessages.map Message.octets).flatten = .ok mixedMessages ∧
      handled.1.map (·.handled) = [0, 0, 1] ∧
      (c.handle 0 (mixedMessages.map Message.octets).flatten (.any 5076)).1.handled = 1 ∧
      (c.handle 0 (mixedMessages.map Message.octets).flatten (.any 5076)).2.searches.pending.keys =
        [] := by
  intro c handled
  have hok : Message.ofDatagram (mixedMessages.map Message.octets).flatten = .ok mixedMessages := by
    decide +kernel
  have hcounts : handled.1.map (·.handled) = [0, 0, 1] := by decide +kernel
  have htotal : total DiscoveryClient.Effects.handled handled.1 = 1 := by decide +kernel
  have hpending : handled.2.searches.pending.keys = [] := by decide +kernel
  obtain ⟨-, hclient, hadd, -⟩ :=
    datagrams_taken_apart 0 (.any 5076) ⟨⟨7⟩, 5075, fun _ => true⟩
  refine ⟨hok, hcounts, ?_, ?_⟩
  · rw [hclient.apart hok c, hadd]
    exact htotal
  · rw [hclient.apart hok c]
    exact hpending

end PvNet
