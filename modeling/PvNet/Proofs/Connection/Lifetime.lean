import PvNet.Proofs.Connection.Verdicts
import PvNet.Proofs.Schema.SentNumbers
set_option autoImplicit false

/-!
# The life of a transport

An open transport goes on, perhaps with other holders, or it goes on and then closes; there
is no third way, whatever happens to it (`lasts_run`).  Closing tells every holder and
empties both tables (`close_of_open`).  The receiver and the sender may still be at work
then, but nothing is sent any more, and nobody but the handler is told anything
(`Ended.fades_run`).

What comes from the peer may also arrive as octets, which need not be those of messages.
`LifeStep` has both, and the same holds of it.
-/

namespace PvNet

/-! ## What becomes of a sender's table -/

/-- A sender's table comes from another one by numbering descriptors and forgetting all numbers. -/
inductive SentTypes.Evolves (sent : SentTypes) : SentTypes → Prop where
  | refl : Evolves sent sent
  | added {sent' : SentTypes} {f : Field} (h : Evolves sent sent') (hnumber : sent'.number? f = none)
    (hroom : sent'.isFull = false) : Evolves sent (sent'.added f)
  | cleared {sent' : SentTypes} (h : Evolves sent sent') : Evolves sent sent'.clear

namespace SentTypes

variable {sent sent' sent'' : SentTypes}

theorem Evolves.trans (h : sent.Evolves sent') (h' : sent'.Evolves sent'') :
    sent.Evolves sent'' := by
  induction h' with
  | refl => exact h
  | added _ hnumber hroom ih => exact .added ih hnumber hroom
  | cleared _ ih => exact .cleared ih

theorem growing_evolves (sent : SentTypes) : Growing sent.Evolves :=
  fun _ _ h hnumber hroom => .added h hnumber hroom

/-- What numbering and forgetting keep stays true of the table. -/
theorem Evolves.keeps {P : SentTypes → Prop} (h : sent.Evolves sent') (hadded : Growing P)
    (hclear : ∀ t, P t → P t.clear) (hsent : P sent) : P sent' := by
  induction h with
  | refl => exact hsent
  | added _ hnumber hroom ih => exact hadded _ _ ih hnumber hroom
  | cleared _ ih => exact hclear _ ih

end SentTypes

namespace Composer

theorem types_finish (c : Composer) : c.finish.types = c.types := by
  unfold finish
  cases c.opened with
  | none => rfl
  | some command => rfl

theorem evolves_run (script : Script) (c : Composer) : c.types.Evolves (c.run script).2.types := by
  induction script generalizing c with
  | nil =>
    show c.types.Evolves c.finish.types
    rw [c.types_finish]
    exact .refl
  | cons s steps ih =>
    cases s with
    | start command =>
      have hstep : (c.start command).types = c.types := c.types_finish
      rw [← hstep]
      exact ih (c.start command)
    | finish =>
      rw [← c.types_finish]
      exact ih c.finish
    | control command data =>
      have hstep : (c.control command data).types = c.types := c.types_finish
      rw [← hstep]
      exact ih (c.control command data)
    | write octets => exact ih (c.write (octets c.order))
    | describe field =>
      have hstep : c.types.Evolves (c.describe field).types :=
        c.types.growing_evolves.encode? c.order field .refl
      exact hstep.trans (ih (c.describe field))
    | fail => exact .refl

end Composer

/-! ## One step -/

/-- The holders after a step. -/
def TransportStep.holdersAfter (holders : Table UInt64 Holder) :
    TransportStep → Table UInt64 Holder
  | .acquire h => holders.put h.id h
  | .release id => holders.erase id
  | _ => holders

/-- Something that can still change a transport that has closed: what was under way then is
finished, a descriptor is read, or the table for what is sent is cleared once more. -/
def TransportStep.isLeftover : TransportStep → Bool
  | .take _ _ | .compose | .readField _ _ | .change => true
  | _ => false

namespace Transport

variable {t t' t'' : Transport} {holders holders' : Table UInt64 Holder}
  {activity activity' : Activity}

/-- An open transport goes on with the given holders, and none of them is told that it closed. -/
structure Goes (t : Transport) (holders : Table UInt64 Holder) (activity : Activity)
    (t' : Transport) : Prop where
  sameEnd : SameEnd t t'
  opened : t'.closed = false
  holders : t'.holders = holders
  sentTypes : t.sentTypes.Evolves t'.sentTypes
  spared : ∀ h, TransportEvent.closed h ∉ activity.events

/-- A transport that has closed: nobody holds it, and nothing is queued. -/
structure Ended (t : Transport) : Prop where
  closed : t.closed = true
  holders : t.holders = .empty
  queue : t.queue = []

/-- What still happens to a transport that has closed.  What has come in before may be taken in, and
what the sender has in hand may be composed, but nothing is sent, and nobody but the handler is told
anything. -/
structure Fades (t : Transport) (r : Activity × Transport) : Prop where
  sameEnd : SameEnd t r.2
  ended : r.2.Ended
  sentTypes : t.sentTypes.Evolves r.2.sentTypes
  sent : r.1.sent = []
  untold : ∀ e ∈ r.1.events, ∃ m, e = .message m

/-- An open transport goes on with the given holders, and perhaps closes then and fades. -/
inductive Lasts (t : Transport) (holders : Table UInt64 Holder) : Activity × Transport → Prop where
  | goes {activity : Activity} {t' : Transport} (h : t.Goes holders activity t') :
    Lasts t holders (activity, t')
  | ends {activity : Activity} {t' : Transport} {r : Activity × Transport}
    (h : t.Goes holders activity t') (hfades : t'.close.2.Fades r) :
    Lasts t holders (activity ++ t'.close.1 ++ r.1, r.2)

/-- What becomes of an open transport in the long run. -/
structure Lived (t t' : Transport) : Prop where
  sameEnd : SameEnd t t'
  sentTypes : t.sentTypes.Evolves t'.sentTypes
  opened_or_ended : t'.closed = false ∨ t'.Ended

theorem Lived.trans (h : t.Lived t') (h' : t'.Lived t'') : t.Lived t'' :=
  ⟨h.sameEnd.trans h'.sameEnd, h.sentTypes.trans h'.sentTypes, h'.opened_or_ended⟩

theorem Goes.of_silent (hopen : t.closed = false) : t.Goes t.holders {} t :=
  ⟨.refl t, hopen, rfl, .refl, fun _ => List.not_mem_nil⟩

theorem Goes.trans (h : t.Goes holders activity t') (h' : t'.Goes holders' activity' t'') :
    t.Goes holders' (activity ++ activity') t'' where
  sameEnd := h.sameEnd.trans h'.sameEnd
  opened := h'.opened
  holders := h'.holders
  sentTypes := h.sentTypes.trans h'.sentTypes
  spared holder hmem := by
    rw [Activity.events_append, List.mem_append] at hmem
    exact hmem.elim (h.spared holder) (h'.spared holder)

theorem ended_close (hopen : t.closed = false) : t.close.2.Ended := by
  rw [close_of_open hopen]
  exact ⟨rfl, rfl, rfl⟩

/-! ### What is closed -/

namespace Fades

variable {r r' : Activity × Transport}

theorem refl (h : t.Ended) : t.Fades ({}, t) :=
  ⟨.refl t, h, .refl, rfl, fun _ he => nomatch he⟩

theorem trans (h : t.Fades r) (h' : r.2.Fades r') : t.Fades (r.1 ++ r'.1, r'.2) where
  sameEnd := h.sameEnd.trans h'.sameEnd
  ended := h'.ended
  sentTypes := h.sentTypes.trans h'.sentTypes
  sent := by rw [Activity.sent_append, h.sent, h'.sent, List.append_nil]
  untold e he := by
    rw [Activity.events_append, List.mem_append] at he
    exact he.elim (h.untold e) (h'.untold e)

theorem spared (h : t.Fades r) (holder : Holder) : TransportEvent.closed holder ∉ r.1.events := by
  intro hmem
  obtain ⟨m, hm⟩ := h.untold _ hmem
  cases hm

theorem lived (h : t.Fades r) : t.Lived r.2 := ⟨h.sameEnd, h.sentTypes, .inr h.ended⟩

end Fades

theorem evolves_composed (t : Transport) (script : Script) :
    t.sentTypes.Evolves (t.composed script).types :=
  Composer.evolves_run script
    { order := t.order, fromServer := t.role = .server, types := t.sentTypes }

namespace Ended

theorem listens_or (t : Transport) : t.listens = false ∨ t.listens = true :=
  (Bool.eq_false_or_eq_true t.listens).symm

theorem fades_stop (h : t.Ended) : t.Fades t.stop := by
  have hstop : t.stop = ({}, { t with stopped := true }) := by
    unfold stop
    rw [close_of_closed h.closed]
  rw [hstop]
  exact ⟨⟨rfl, rfl, rfl, rfl, rfl⟩, ⟨h.closed, h.holders, h.queue⟩, .refl, rfl,
    fun _ he => nomatch he⟩

theorem fades_dispatchAt (h : t.Ended) (now : Instant) (m : Message) :
    t.Fades ({ events := (t.dispatchAt now m).events }, (t.dispatchAt now m).transport) := by
  have hhandled := handled_dispatchAt t now m
  obtain ⟨order, peer, verification, scripts, htransport, hscripts⟩ := exists_dispatchAt_eq t now m
  refine ⟨hhandled.sameEnd, ⟨hhandled.closed.trans h.closed, ?_, ?_⟩, ?_, rfl, fun e he => ?_⟩
  · rw [htransport]
    exact h.holders
  · rw [htransport, hscripts h.closed]
    exact (List.append_nil _).trans h.queue
  · rw [htransport]
    exact .refl
  · rw [hhandled.events] at he
    cases hserves : t.serves m with
    | true =>
      rw [if_pos hserves] at he
      exact ⟨m, List.mem_singleton.1 he⟩
    | false =>
      rw [if_neg (by simp [hserves])] at he
      cases he

theorem fades_take (h : t.Ended) (now : Instant) (m : Message) : t.Fades (t.take now m) := by
  rcases listens_or t with hdeaf | hlistens
  · rw [take_of_deaf hdeaf]
    exact .refl h
  · have hdispatch := h.fades_dispatchAt now m
    cases hgood : (t.dispatchAt now m).good with
    | true =>
      rw [take_of_good hlistens hgood]
      exact hdispatch
    | false =>
      rw [take_of_bad hlistens hgood]
      exact hdispatch.trans hdispatch.ended.fades_stop

theorem fades_compose (h : t.Ended) : t.Fades t.compose := by
  cases hhand : t.inHand with
  | none =>
    rw [compose_of_none hhand]
    exact .refl h
  | some script =>
    have hcomposed : t.Fades
        ({}, { t with inHand := none, sentTypes := (t.composed script).types }) :=
      ⟨⟨rfl, rfl, rfl, rfl, rfl⟩, ⟨h.closed, h.holders, h.queue⟩, t.evolves_composed script, rfl,
        fun _ he => nomatch he⟩
    cases hresult : (t.composed script).messages with
    | none =>
      rw [compose_of_failed hhand hresult, close_of_closed hcomposed.ended.closed]
      exact hcomposed
    | some sent =>
      rw [compose_of_sent hhand hresult, if_pos h.closed]
      exact hcomposed

/-- What is not left over from before does nothing to a closed transport. -/
theorem run_eq_self (h : t.Ended) {step : TransportStep} (hidle : step.isLeftover = false) :
    step.run t = ({}, t) := by
  have hclosed := h.closed
  cases step with
  | take | compose | readField | change => cases hidle
  | pick =>
    show (({} : Activity), t.pick) = _
    rw [pick_of_closed hclosed]
  | enqueue script =>
    show (({} : Activity), (t.enqueue script).toOption.getD t) = _
    rw [enqueue_of_closed hclosed]
    rfl
  | acquire holder =>
    have hrefused : t.acquire holder = (false, t) := if_pos hclosed
    show (({} : Activity), (t.acquire holder).2) = _
    rw [hrefused]
  | release id =>
    have hkept : { t with holders := t.holders.erase id } = t := by
      have herase : (Table.empty : Table UInt64 Holder).erase id = .empty := rfl
      rw [h.holders, herase, ← h.holders]
    show t.release id = _
    unfold release
    rw [hkept]
    simp only [close_of_closed hclosed, ite_self]
  | close => exact close_of_closed hclosed

/-- Whatever happens to a closed transport, it fades. -/
theorem fades_run (h : t.Ended) (step : TransportStep) : t.Fades (step.run t) := by
  cases hidle : step.isLeftover with
  | false =>
    rw [h.run_eq_self hidle]
    exact .refl h
  | true =>
    cases step with
    | take now m => exact h.fades_take now m
    | compose => exact h.fades_compose
    | readField o octets =>
      exact ⟨⟨rfl, rfl, rfl, rfl, rfl⟩, ⟨h.closed, h.holders, h.queue⟩, .refl, rfl,
        fun _ he => nomatch he⟩
    | change =>
      refine ⟨⟨rfl, rfl, rfl, rfl, rfl⟩, ⟨h.closed, h.holders, h.queue⟩, .cleared .refl, rfl, ?_⟩
      show ∀ e ∈ t.holders.values.map TransportEvent.changed, _
      rw [h.holders]
      exact fun _ he => nomatch he
    | pick | enqueue | acquire | release | close => cases hidle

theorem fades_runAll (h : t.Ended) (steps : List TransportStep) :
    t.Fades (Transport.runAll steps t) := by
  induction steps generalizing t with
  | nil => exact .refl h
  | cons step steps ih => exact (h.fades_run step).trans (ih (h.fades_run step).ended)

theorem fades_receive (h : t.Ended) (now : Instant) (m : Message) : t.Fades (t.receive now m) := by
  rw [receive_eq_runAll]
  exact h.fades_runAll _

theorem fades_receiveAll (h : t.Ended) (now : Instant) (ms : List Message) :
    t.Fades (Transport.receiveAll now ms t) := by
  induction ms generalizing t with
  | nil => exact .refl h
  | cons m ms ih => exact (h.fades_receive now m).trans (ih (h.fades_receive now m).ended)

theorem fades_receiveOctets (h : t.Ended) (now : Instant) (octets : Bytes) :
    t.Fades (t.receiveOctets now octets) := by
  unfold receiveOctets
  rcases listens_or t with hdeaf | hlistens
  · rw [if_neg (by simp [hdeaf])]
    exact .refl h
  · rw [if_pos hlistens]
    let d := Message.drain t.config.maxPayload (t.buffer ++ octets)
    have hbuffer : t.Fades ({}, { t with buffer := d.buffer }) :=
      ⟨⟨rfl, rfl, rfl, rfl, rfl⟩, ⟨h.closed, h.holders, h.queue⟩, .refl, rfl,
        fun _ he => nomatch he⟩
    have hreceived := hbuffer.trans (hbuffer.ended.fades_receiveAll now d.messages)
    refine hreceived.trans ?_
    cases d.failure.isSome with
    | true => exact hreceived.ended.fades_stop
    | false => exact .refl hreceived.ended

end Ended

/-! ### What is open -/

namespace Lasts

/-- A transport goes on and closes. -/
theorem closes (h : t.Goes holders activity t') :
    t.Lasts holders (activity ++ t'.close.1, t'.close.2) := by
  have hends := Lasts.ends h (.refl (ended_close h.opened))
  rwa [Activity.append_empty] at hends

/-- A transport goes on until its receiver gives up. -/
theorem stops (h : t.Goes holders activity t') :
    t.Lasts holders (activity ++ t'.stop.1, t'.stop.2) := by
  have hstop : t'.close.2.stop = ({}, t'.stop.2) := by
    unfold stop
    rw [close_of_closed (closed_close t')]
  have hends := Lasts.ends h (ended_close h.opened).fades_stop
  rwa [hstop, Activity.append_empty] at hends

end Lasts

theorem goes_dispatchAt (hopen : t.closed = false) (now : Instant) (m : Message) :
    t.Goes t.holders { events := (t.dispatchAt now m).events }
      (t.dispatchAt now m).transport := by
  have hhandled := handled_dispatchAt t now m
  obtain ⟨order, peer, verification, scripts, htransport, -⟩ := exists_dispatchAt_eq t now m
  refine ⟨hhandled.sameEnd, hhandled.closed.trans hopen, ?_, ?_, fun h hmem => ?_⟩
  · rw [htransport]
  · rw [htransport]
    exact .refl
  · rw [hhandled.events] at hmem
    cases hserves : t.serves m with
    | true => simp [hserves] at hmem
    | false => simp [hserves] at hmem

theorem goes_acquire (hopen : t.closed = false) (h : Holder) :
    t.Goes (t.holders.put h.id h) {} (t.acquire h).2 := by
  unfold acquire
  rw [if_neg (by simp [hopen])]
  exact ⟨⟨rfl, rfl, rfl, rfl, rfl⟩, hopen, rfl, .refl, fun _ => List.not_mem_nil⟩

theorem goes_pick (hopen : t.closed = false) : t.Goes t.holders {} t.pick := by
  obtain ⟨inHand, queue, hpick⟩ := t.exists_pick_eq
  rw [hpick]
  exact ⟨⟨rfl, rfl, rfl, rfl, rfl⟩, hopen, rfl, .refl, fun _ => List.not_mem_nil⟩

theorem lasts_compose (hopen : t.closed = false) : t.Lasts t.holders t.compose := by
  cases hhand : t.inHand with
  | none =>
    rw [compose_of_none hhand]
    exact .goes (.of_silent hopen)
  | some script =>
    have hgoes (activity : Activity) (hsilent : activity.events = []) : t.Goes t.holders activity
        { t with inHand := none, sentTypes := (t.composed script).types } :=
      ⟨⟨rfl, rfl, rfl, rfl, rfl⟩, hopen, rfl, t.evolves_composed script,
        fun _ => hsilent ▸ List.not_mem_nil⟩
    cases hresult : (t.composed script).messages with
    | none =>
      rw [compose_of_failed hhand hresult]
      exact .closes (hgoes {} rfl)
    | some sent =>
      rw [compose_of_sent hhand hresult, if_neg (by simp [hopen])]
      exact .goes (hgoes { sent } rfl)

/-- Whatever happens to an open transport, it goes on with the holders that it has then, and perhaps
closes. -/
theorem lasts_run (hopen : t.closed = false) (step : TransportStep) :
    t.Lasts (step.holdersAfter t.holders) (step.run t) := by
  cases step with
  | take now m =>
    have hgoes := goes_dispatchAt hopen now m
    show t.Lasts t.holders (t.take now m)
    cases hgood : (t.dispatchAt now m).good with
    | true =>
      rw [take_of_good (listens_of_open hopen) hgood]
      exact .goes hgoes
    | false =>
      rw [take_of_bad (listens_of_open hopen) hgood]
      exact .stops hgoes
  | pick => exact .goes (goes_pick hopen)
  | compose => exact lasts_compose hopen
  | enqueue script =>
    show t.Lasts t.holders ({}, (t.enqueue script).toOption.getD t)
    rw [enqueue_of_open hopen]
    exact .goes ⟨⟨rfl, rfl, rfl, rfl, rfl⟩, hopen, rfl, .refl, fun _ => List.not_mem_nil⟩
  | readField o octets =>
    exact .goes ⟨⟨rfl, rfl, rfl, rfl, rfl⟩, hopen, rfl, .refl, fun _ => List.not_mem_nil⟩
  | acquire h => exact .goes (goes_acquire hopen h)
  | release id =>
    have hgoes : t.Goes (t.holders.erase id) {} { t with holders := t.holders.erase id } :=
      ⟨⟨rfl, rfl, rfl, rfl, rfl⟩, hopen, rfl, .refl, fun _ => List.not_mem_nil⟩
    show t.Lasts (t.holders.erase id) (t.release id)
    unfold release
    by_cases hlast : (t.holders.erase id).isEmpty ∧ t.role = .client
    · rw [if_pos hlast]
      exact .closes hgoes
    · rw [if_neg hlast]
      exact .goes hgoes
  | change =>
    refine .goes ⟨⟨rfl, rfl, rfl, rfl, rfl⟩, hopen, rfl, .cleared .refl, fun h hmem => ?_⟩
    obtain ⟨holder, -, hevent⟩ := List.mem_map.1 hmem
    cases hevent
  | close => exact .closes (.of_silent hopen)

namespace Lasts

variable {r : Activity × Transport} {f : Transport → Activity × Transport}

/-- Something that keeps the holders happens afterwards. -/
theorem andThen (h : t.Lasts holders r) (hends : ∀ t' : Transport, t'.Ended → t'.Fades (f t'))
    (hgoes : ∀ t' : Transport, t'.closed = false → t'.holders = holders →
      t'.Lasts holders (f t')) :
    t.Lasts holders (r.1 ++ (f r.2).1, (f r.2).2) := by
  cases h with
  | @goes activity t' h =>
    have hnext := hgoes t' h.opened h.holders
    show t.Lasts holders (activity ++ (f t').1, (f t').2)
    generalize f t' = r' at hnext ⊢
    cases hnext with
    | goes h' => exact .goes (h.trans h')
    | @ends activity' t'' r' h' hfades =>
      show t.Lasts holders (activity ++ (activity' ++ t''.close.1 ++ r'.1), r'.2)
      rw [← Activity.append_assoc, ← Activity.append_assoc]
      exact .ends (h.trans h') hfades
  | @ends activity t' r h hfades =>
    show t.Lasts holders (activity ++ t'.close.1 ++ r.1 ++ (f r.2).1, (f r.2).2)
    rw [Activity.append_assoc _ r.1]
    exact .ends h (hfades.trans (hends r.2 hfades.ended))

theorem lived (h : t.Lasts holders r) : t.Lived r.2 := by
  cases h with
  | goes h => exact ⟨h.sameEnd, h.sentTypes, .inl h.opened⟩
  | @ends activity t' r h hfades =>
    have hclose : t'.Lived t'.close.2 := by
      rw [close_of_open h.opened]
      exact ⟨⟨rfl, rfl, rfl, rfl, rfl⟩, .cleared .refl, .inr ⟨rfl, rfl, rfl⟩⟩
    have hgoes : t.Lived t' := ⟨h.sameEnd, h.sentTypes, .inl h.opened⟩
    exact (hgoes.trans hclose).trans hfades.lived

end Lasts

/-! ## What the peer sends -/

/-- Steps that keep the holders, one after the other. -/
theorem lasts_runAll (hopen : t.closed = false) {steps : List TransportStep}
    (hkept : ∀ step ∈ steps, ∀ holders, step.holdersAfter holders = holders) :
    t.Lasts t.holders (runAll steps t) := by
  induction steps generalizing t with
  | nil => exact .goes (.of_silent hopen)
  | cons step steps ih =>
    obtain ⟨hstep, hsteps⟩ := List.forall_mem_cons.1 hkept
    have hfirst := lasts_run hopen step
    rw [hstep] at hfirst
    refine hfirst.andThen (f := runAll steps) (fun t' hended => hended.fades_runAll _)
      (fun t' hopen' hholders => ?_)
    rw [← hholders]
    exact ih hopen' hsteps

theorem lasts_receive (hopen : t.closed = false) (now : Instant) (m : Message) :
    t.Lasts t.holders (t.receive now m) := by
  rw [receive_eq_runAll]
  refine lasts_runAll hopen (List.forall_mem_cons.2 ⟨fun _ => rfl, fun step hstep => ?_⟩)
  obtain ⟨turn, hturn, hmem⟩ := List.mem_flatten.1 hstep
  rw [List.eq_of_mem_replicate hturn] at hmem
  rcases List.mem_pair.1 hmem with rfl | rfl
  · exact fun _ => rfl
  · exact fun _ => rfl

theorem lasts_receiveAll (hopen : t.closed = false) (now : Instant) (ms : List Message) :
    t.Lasts t.holders (receiveAll now ms t) := by
  induction ms generalizing t with
  | nil => exact .goes (.of_silent hopen)
  | cons m ms ih =>
    refine (lasts_receive hopen now m).andThen (f := receiveAll now ms)
      (fun t' hended => hended.fades_receiveAll now ms) (fun t' hopen' hholders => ?_)
    rw [← hholders]
    exact ih hopen'

theorem lasts_stop (hopen : t.closed = false) : t.Lasts t.holders t.stop :=
  .stops (.of_silent hopen)

theorem lasts_receiveOctets (hopen : t.closed = false) (now : Instant) (octets : Bytes) :
    t.Lasts t.holders (t.receiveOctets now octets) := by
  let d := Message.drain t.config.maxPayload (t.buffer ++ octets)
  let f : Transport → Activity × Transport := fun t =>
    if d.failure.isSome then t.stop else ({}, t)
  have hbuffer : t.Goes t.holders {} { t with buffer := d.buffer } :=
    ⟨⟨rfl, rfl, rfl, rfl, rfl⟩, hopen, rfl, .refl, fun _ => List.not_mem_nil⟩
  have hreceived := (Lasts.goes hbuffer).andThen (f := receiveAll now d.messages)
    (fun t' hended => hended.fades_receiveAll now d.messages)
    (fun t' hopen' hholders => hholders ▸ lasts_receiveAll hopen' now d.messages)
  have hends : ∀ t' : Transport, t'.Ended → t'.Fades (f t') := by
    intro t' hended
    show t'.Fades (if d.failure.isSome then t'.stop else ({}, t'))
    cases d.failure.isSome with
    | true => exact hended.fades_stop
    | false => exact .refl hended
  have hgoes : ∀ t' : Transport, t'.closed = false → t'.holders = t.holders →
      t'.Lasts t.holders (f t') := by
    intro t' hopen' hholders
    rw [← hholders]
    show t'.Lasts t'.holders (if d.failure.isSome then t'.stop else ({}, t'))
    cases d.failure.isSome with
    | true => exact lasts_stop hopen'
    | false => exact .goes (.of_silent hopen')
  unfold receiveOctets
  rw [if_pos (listens_of_open hopen)]
  exact hreceived.andThen hends hgoes

end Transport

namespace Transport

/-- What the receiver and the sender of a transport keep while they are at work. -/
structure KeptAtWork (P : Transport → Prop) : Prop where
  take : ∀ {t : Transport} (now : Instant) (m : Message), P t → P (t.take now m).2
  turn : ∀ {t : Transport}, P t → P t.turn.2
  stop : ∀ {t : Transport}, P t → P t.stop.2
  buffer : ∀ {t : Transport} (buffer : Bytes), P t → P { t with buffer }

namespace KeptAtWork

variable {P : Transport → Prop} {t : Transport}

/-- It is enough that closing and a turn of the sender keep it, and that it does not depend on what
a message touches. -/
theorem of_close (hclose : ∀ {t : Transport}, P t → P t.close.2)
    (hturn : ∀ {t : Transport}, P t → P t.turn.2)
    (hkept : ∀ {t : Transport} (lastActivity : Instant) (order : ByteOrder) (peer : PeerInfo)
      (verification : Verification) (queue : List Script) (buffer : Bytes) (stopped : Bool),
      P t → P { t with lastActivity, order, peer, verification, queue, buffer, stopped }) :
    KeptAtWork P := by
  have hstop : ∀ {t : Transport}, P t → P t.stop.2 := fun {t} h =>
    hkept t.close.2.lastActivity t.close.2.order t.close.2.peer t.close.2.verification
      t.close.2.queue t.close.2.buffer true (hclose h)
  have hdispatch : ∀ {t : Transport} (now : Instant) (m : Message), P t →
      P (t.dispatchAt now m).transport := by
    intro t now m h
    obtain ⟨order, peer, verification, scripts, htransport, -⟩ := exists_dispatchAt_eq t now m
    rw [htransport]
    exact hkept now order peer verification (t.queue ++ scripts) t.buffer t.stopped h
  refine ⟨fun {t} now m h => ?_, hturn, hstop, fun {t} buffer h =>
    hkept t.lastActivity t.order t.peer t.verification t.queue buffer t.stopped h⟩
  cases hlistens : t.listens with
  | false =>
    rw [take_of_deaf hlistens]
    exact h
  | true =>
    cases hgood : (t.dispatchAt now m).good with
    | true =>
      rw [take_of_good hlistens hgood]
      exact hdispatch now m h
    | false =>
      rw [take_of_bad hlistens hgood]
      exact hstop (hdispatch now m h)

theorem turns (h : KeptAtWork P) (n : Nat) (ht : P t) : P (Transport.turns n t).2 := by
  induction n generalizing t with
  | zero => exact ht
  | succ n ih => exact ih (h.turn ht)

theorem receiveAll (h : KeptAtWork P) (now : Instant) (ms : List Message) (ht : P t) :
    P (Transport.receiveAll now ms t).2 := by
  induction ms generalizing t with
  | nil => exact ht
  | cons m ms ih => exact ih (h.turns _ (h.take now m ht))

theorem receiveOctets (h : KeptAtWork P) (now : Instant) (octets : Bytes) (ht : P t) :
    P (t.receiveOctets now octets).2 := by
  unfold Transport.receiveOctets
  cases t.listens with
  | false => exact ht
  | true =>
    let d := Message.drain t.config.maxPayload (t.buffer ++ octets)
    have hreceived := h.receiveAll now d.messages (h.buffer d.buffer ht)
    show P (if d.failure.isSome then Transport.stop _ else ({}, _)).2
    cases d.failure.isSome with
    | true => exact h.stop hreceived
    | false => exact hreceived

theorem hangUp (h : KeptAtWork P) (ht : P t) : P t.hangUp.2 := by
  unfold Transport.hangUp
  cases t.closed with
  | true => exact ht
  | false => exact h.stop ht

end KeptAtWork

end Transport

/-! ## A whole life -/

/-- What can happen to a transport, the octets of its peer included. -/
inductive LifeStep where
  | own (step : TransportStep)
  /-- Octets come in, well-formed or not. -/
  | octets (now : Instant) (octets : Bytes)
  /-- The peer ends the connection. -/
  | hangUp

namespace LifeStep

def run (t : Transport) : LifeStep → Activity × Transport
  | own step => step.run t
  | octets now bs => t.receiveOctets now bs
  | hangUp => t.hangUp

/-- Something that can still change a transport that has closed. -/
def isLeftover : LifeStep → Bool
  | own step => step.isLeftover
  | octets _ _ => true
  | hangUp => false

/-- The holders after a step. -/
def holdersAfter (holders : Table UInt64 Holder) : LifeStep → Table UInt64 Holder
  | own step => step.holdersAfter holders
  | octets _ _ | hangUp => holders

end LifeStep

namespace Transport

/-- Lets things happen to a transport one after the other. -/
def live : List LifeStep → Transport → Activity × Transport
  | [], t => ({}, t)
  | step :: steps, t =>
    let (first, t) := step.run t
    let (rest, t) := live steps t
    (first ++ rest, t)

variable {t : Transport}

theorem live_cons (step : LifeStep) (steps : List LifeStep) (t : Transport) :
    live (step :: steps) t =
      ((step.run t).1 ++ (live steps (step.run t).2).1, (live steps (step.run t).2).2) := rfl

theorem live_append (before behind : List LifeStep) (t : Transport) :
    live (before ++ behind) t =
      ((live before t).1 ++ (live behind (live before t).2).1,
        (live behind (live before t).2).2) := by
  induction before generalizing t with
  | nil => rfl
  | cons step before ih =>
    rw [List.cons_append, live_cons, ih, live_cons, Activity.append_assoc]

theorem live_own (steps : List TransportStep) (t : Transport) :
    live (steps.map .own) t = runAll steps t := by
  induction steps generalizing t with
  | nil => rfl
  | cons step steps ih => exact congrArg (fun r => (_ ++ r.1, r.2)) (ih (step.run t).2)

theorem lasts_life (hopen : t.closed = false) (step : LifeStep) :
    t.Lasts (step.holdersAfter t.holders) (step.run t) := by
  cases step with
  | own step => exact lasts_run hopen step
  | octets now bs => exact lasts_receiveOctets hopen now bs
  | hangUp =>
    show t.Lasts t.holders t.hangUp
    rw [hangUp_of_open hopen]
    exact lasts_stop hopen

theorem Ended.life_eq_self (h : t.Ended) {step : LifeStep} (hidle : step.isLeftover = false) :
    step.run t = ({}, t) := by
  cases step with
  | own step => exact h.run_eq_self hidle
  | octets now bs => cases hidle
  | hangUp => exact hangUp_of_closed h.closed

theorem Ended.fades_life (h : t.Ended) (step : LifeStep) : t.Fades (step.run t) := by
  cases step with
  | own step => exact h.fades_run step
  | octets now bs => exact h.fades_receiveOctets now bs
  | hangUp =>
    show t.Fades t.hangUp
    rw [hangUp_of_closed h.closed]
    exact .refl h

theorem Ended.fades_live (h : t.Ended) (steps : List LifeStep) :
    t.Fades (Transport.live steps t) := by
  induction steps generalizing t with
  | nil => exact .refl h
  | cons step steps ih => exact (h.fades_life step).trans (ih (h.fades_life step).ended)

theorem lived_life (halive : t.closed = false ∨ t.Ended) (step : LifeStep) :
    t.Lived (step.run t).2 :=
  halive.elim (fun hopen => (lasts_life hopen step).lived)
    fun hended => (hended.fades_life step).lived

theorem lived_live (halive : t.closed = false ∨ t.Ended) (steps : List LifeStep) :
    t.Lived (live steps t).2 := by
  induction steps generalizing t with
  | nil => exact ⟨.refl t, .refl, halive⟩
  | cons step steps ih =>
    have hstep := lived_life halive step
    exact hstep.trans (ih hstep.opened_or_ended)

end Transport

end PvNet
