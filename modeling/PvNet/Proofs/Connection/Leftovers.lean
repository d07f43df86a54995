import PvNet.Proofs.Connection.Lifetime
set_option autoImplicit false

/-!
# What is left in the tables of a closed transport

Closing empties both tables, but it stops neither the receiver nor the sender.  What the
sender has in hand is composed after that, and numbers descriptors for a peer that is gone
(`Settled`); a descriptor that is read after that is numbered as well (`knownTypes_live`).
Nothing else puts anything into the tables.
-/

namespace PvNet

namespace Composer

/-- What a script numbers does not depend on the byte order. -/
theorem types_run (script : Script) (c c' : Composer) (h : c.types = c'.types) :
    (c.run script).2.types = (c'.run script).2.types := by
  induction script generalizing c c' with
  | nil =>
    show c.finish.types = c'.finish.types
    rw [c.types_finish, c'.types_finish, h]
  | cons s steps ih =>
    cases s with
    | start command =>
      refine ih (c.start command) (c'.start command) ?_
      exact (c.types_finish.trans h).trans c'.types_finish.symm
    | finish => exact ih c.finish c'.finish ((c.types_finish.trans h).trans c'.types_finish.symm)
    | control command data =>
      refine ih (c.control command data) (c'.control command data) ?_
      exact (c.types_finish.trans h).trans c'.types_finish.symm
    | write octets => exact ih (c.write _) (c'.write _) h
    | describe field =>
      refine ih (c.describe field) (c'.describe field) ?_
      show (Field.encode? c.order field c.types).2 = (Field.encode? c'.order field c'.types).2
      rw [h, Field.types_encode? c.order c'.order]
    | fail => exact h

end Composer

/-- A table in which nothing is numbered is as good as one that has just been cleared. -/
theorem SentTypes.Evolves.clear_eq {sent sent' : SentTypes} (h : sent.clear.Evolves sent')
    (hempty : sent'.isEmpty = true) : sent'.clear = sent' :=
  h.keeps (P := fun t => t.isEmpty = true → t.clear = t) (fun _ _ _ _ _ hadded => nomatch hadded)
    (fun _ _ _ => rfl) (fun _ => rfl) hempty

/-- The table after descriptors have been read one after the other. -/
def KnownTypes.read (known : KnownTypes) (reads : List (ByteOrder × Bytes)) : KnownTypes :=
  reads.foldl (fun known read => (Field.decode? read.1 known read.2).state) known

/-- The descriptor that is read at a step. -/
def LifeStep.read? : LifeStep → Option (ByteOrder × Bytes)
  | .own (.readField o bs) => some (o, bs)
  | _ => none

namespace Transport

variable {t : Transport} {script : Script}

/-- What composing does to a closed transport. -/
theorem compose_of_closed (hclosed : t.closed = true) (hhand : t.inHand = some script) :
    t.compose.2 = { t with inHand := none, sentTypes := (t.composed script).types } := by
  cases hresult : (t.composed script).messages with
  | none =>
    rw [compose_of_failed hhand hresult]
    exact congrArg Prod.snd (close_of_closed (t := { t with
      inHand := none, sentTypes := (t.composed script).types }) hclosed)
  | some sent => rw [compose_of_sent hhand hresult]

theorem turn_of_closed (hclosed : t.closed = true) : t.turn = t.compose := by
  unfold turn
  rw [pick_of_closed hclosed]

/-- Releasing drops a holder and perhaps closes the transport: it keeps what both keep. -/
theorem kept_release {P : Transport → Prop} (hclose : ∀ {t : Transport}, P t → P t.close.2)
    {id : UInt64} (hdropped : P { t with holders := t.holders.erase id }) :
    P (t.release id).2 := by
  have hrelease : t.release id = { t with holders := t.holders.erase id }.close ∨
      t.release id = ({}, { t with holders := t.holders.erase id }) := ite_eq_or_eq ..
  rcases hrelease with hlast | hleft
  · rw [hlast]
    exact hclose hdropped
  · rw [hleft]
    exact hdropped

/-! ## What is read -/

/-- What is known of the table for what the peer sends: it is given if the transport is closed, and
will be empty if it closes. -/
structure Knows (known : KnownTypes) (t : Transport) : Prop where
  closed : t.closed = true → t.knownTypes = known
  opened : t.closed = false → known = {}

namespace Knows

variable {known : KnownTypes}

theorem close (h : t.Knows known) : t.close.2.Knows known := by
  cases hopen : t.closed with
  | true =>
    rw [close_of_closed hopen]
    exact h
  | false =>
    rw [close_of_open hopen]
    exact ⟨fun _ => (h.opened hopen).symm, fun hclosed => nomatch hclosed⟩

theorem pick (h : t.Knows known) : t.pick.Knows known := by
  obtain ⟨inHand, queue, hpick⟩ := t.exists_pick_eq
  rw [hpick]
  exact ⟨h.closed, h.opened⟩

theorem compose (h : t.Knows known) : t.compose.2.Knows known := by
  cases hhand : t.inHand with
  | none =>
    rw [compose_of_none hhand]
    exact h
  | some script =>
    have hcomposed :
        Knows known { t with inHand := none, sentTypes := (t.composed script).types } :=
      ⟨h.closed, h.opened⟩
    cases hresult : (t.composed script).messages with
    | none =>
      rw [compose_of_failed hhand hresult]
      exact hcomposed.close
    | some sent =>
      rw [compose_of_sent hhand hresult]
      exact hcomposed

end Knows

theorem keptAtWork_knows (known : KnownTypes) : KeptAtWork (Knows known) :=
  .of_close (fun h => h.close) (fun h => h.pick.compose)
    fun _ _ _ _ _ _ _ h => ⟨h.closed, h.opened⟩

/-- Only reading a descriptor fills the table. -/
theorem Knows.life {known : KnownTypes} (h : t.Knows known) {step : LifeStep}
    (hunread : step.read? = none) : (step.run t).2.Knows known := by
  cases step with
  | octets now bs => exact (keptAtWork_knows known).receiveOctets now bs h
  | hangUp => exact (keptAtWork_knows known).hangUp h
  | own step =>
    cases step with
    | take now m => exact (keptAtWork_knows known).take now m h
    | pick => exact h.pick
    | compose => exact h.compose
    | readField o bs => cases hunread
    | close => exact h.close
    | change => exact ⟨h.closed, h.opened⟩
    | enqueue script =>
      show ((t.enqueue script).toOption.getD t).Knows known
      unfold enqueue
      split
      · exact h
      · exact ⟨h.closed, h.opened⟩
    | acquire holder =>
      show (t.acquire holder).2.Knows known
      unfold acquire
      split
      · exact h
      · exact ⟨h.closed, h.opened⟩
    | release id => exact kept_release (fun h => h.close) ⟨h.closed, h.opened⟩

/-- Closing empties the table for what the peer sends. -/
theorem knownTypes_of_closes (hopen : t.closed = false) {step : LifeStep}
    (hcloses : (step.run t).2.closed = true) : (step.run t).2.knownTypes = {} := by
  cases hread : step.read? with
  | none =>
    have hknows : t.Knows {} :=
      ⟨fun hclosed => absurd (hopen.symm.trans hclosed) Bool.false_ne_true, fun _ => rfl⟩
    exact (hknows.life hread).closed hcloses
  | some read =>
    -- Reading a descriptor does not close anything.
    unfold LifeStep.read? at hread
    split at hread
    · exact nomatch hopen.symm.trans hcloses
    · cases hread

/-- After that it has what is read. -/
theorem Ended.knownTypes_live (h : t.Ended) (steps : List LifeStep) :
    (Transport.live steps t).2.knownTypes = t.knownTypes.read (steps.filterMap LifeStep.read?) := by
  induction steps generalizing t with
  | nil => rfl
  | cons step steps ih =>
    have hended := (h.fades_life step).ended
    rw [live_cons, ih hended]
    cases hread : step.read? with
    | none =>
      have hknows : t.Knows t.knownTypes :=
        ⟨fun _ => rfl, fun hopen => nomatch h.closed.symm.trans hopen⟩
      rw [List.filterMap_cons_none hread, (hknows.life hread).closed hended.closed]
    | some read =>
      rw [List.filterMap_cons_some hread]
      unfold LifeStep.read? at hread
      split at hread
      · cases hread
        rfl
      · cases hread

/-! ## What is sent -/

/-- Nothing is left that numbers descriptors: the table is empty, and what the sender has in hand
leaves it so. -/
structure Settled (t : Transport) : Prop where
  sentTypes : t.sentTypes.isEmpty = true
  inHand : ∀ script, t.inHand = some script → (t.composed script).types.isEmpty = true

/-- The sender has nothing in hand, and if the transport is closed, nothing is numbered. -/
structure Free (t : Transport) : Prop where
  inHand : t.inHand = none
  sentTypes : t.closed = true → t.sentTypes.isEmpty = true

namespace Free

theorem settled (h : t.Free) (hclosed : t.closed = true) : t.Settled :=
  ⟨h.sentTypes hclosed, fun _ hhand => nomatch h.inHand.symm.trans hhand⟩

theorem close (h : t.Free) : t.close.2.Free := by
  cases hopen : t.closed with
  | true =>
    rw [close_of_closed hopen]
    exact h
  | false =>
    rw [close_of_open hopen]
    exact ⟨h.inHand, fun _ => rfl⟩

theorem turn (h : t.Free) : t.turn.2.Free := by
  cases hopen : t.closed with
  | true =>
    rw [turn_of_closed hopen, compose_of_none h.inHand]
    exact h
  | false =>
    cases hqueue : t.queue with
    | nil =>
      unfold Transport.turn
      rw [pick_of_nil hqueue, compose_of_none h.inHand]
      exact h
    | cons script scripts =>
      unfold Transport.turn
      rw [pick_of_cons hopen h.inHand hqueue]
      let t₁ : Transport := { t with inHand := some script, queue := scripts }
      have hcomposed : Free { t₁ with inHand := none, sentTypes := (t₁.composed script).types } :=
        ⟨rfl, fun hclosed => nomatch hopen.symm.trans hclosed⟩
      show t₁.compose.2.Free
      cases hresult : (t₁.composed script).messages with
      | none =>
        rw [compose_of_failed rfl hresult]
        exact hcomposed.close
      | some sent =>
        rw [compose_of_sent rfl hresult]
        exact hcomposed

end Free

theorem keptAtWork_free : KeptAtWork Free :=
  .of_close (fun h => h.close) (fun h => h.turn) fun _ _ _ _ _ _ _ h => ⟨h.inHand, h.sentTypes⟩

/-- A transport that closes while the sender has nothing in hand is settled. -/
theorem settled_of_free (hopen : t.closed = false) (hfree : t.inHand = none) {step : LifeStep}
    (hcloses : (step.run t).2.closed = true) : (step.run t).2.Settled := by
  have h : t.Free := ⟨hfree, fun hclosed => nomatch hopen.symm.trans hclosed⟩
  cases step with
  | octets now bs => exact (keptAtWork_free.receiveOctets now bs h).settled hcloses
  | hangUp => exact (keptAtWork_free.hangUp h).settled hcloses
  | own step =>
    cases step with
    | take now m => exact (keptAtWork_free.take now m h).settled hcloses
    | close => exact h.close.settled hcloses
    | compose =>
      have hkept : (LifeStep.own .compose).run t = ({}, t) := compose_of_none hfree
      rw [hkept] at hcloses
      exact nomatch hopen.symm.trans hcloses
    | pick =>
      have hkept : t.pick.closed = t.closed := by
        obtain ⟨inHand, queue, hpick⟩ := t.exists_pick_eq
        rw [hpick]
      exact nomatch (hkept.trans hopen).symm.trans hcloses
    | enqueue script =>
      have hqueued : (LifeStep.own (.enqueue script)).run t = ({}, t.push script) := by
        show (({} : Activity), (t.enqueue script).toOption.getD t) = _
        rw [enqueue_of_open hopen]
        rfl
      rw [hqueued] at hcloses
      exact nomatch hopen.symm.trans hcloses
    | acquire holder => exact nomatch (goes_acquire hopen holder).opened.symm.trans hcloses
    | readField o bs => exact nomatch hopen.symm.trans hcloses
    | change => exact nomatch hopen.symm.trans hcloses
    | release id =>
      have hfree' : (t.release id).2.Free :=
        kept_release (fun h => h.close) ⟨h.inHand, h.sentTypes⟩
      exact hfree'.settled hcloses

/-- A closed transport that is settled, with a table that is as good as new. -/
structure AtRest (t : Transport) : Prop where
  closed : t.closed = true
  cleared : t.sentTypes.clear = t.sentTypes
  settled : t.Settled

namespace AtRest

theorem close (h : t.AtRest) : t.close.2.AtRest := by
  rw [close_of_closed h.closed]
  exact h

theorem compose (h : t.AtRest) : t.compose.2.AtRest := by
  cases hhand : t.inHand with
  | none =>
    rw [compose_of_none hhand]
    exact h
  | some script =>
    have hempty := h.settled.inHand script hhand
    have hevolves := t.evolves_composed script
    rw [← h.cleared] at hevolves
    rw [compose_of_closed h.closed hhand]
    exact ⟨h.closed, hevolves.clear_eq hempty, hempty, fun _ hhand' => nomatch hhand'⟩

theorem turn (h : t.AtRest) : t.turn.2.AtRest := by
  rw [turn_of_closed h.closed]
  exact h.compose

/-- What a message touches leaves it at rest, the byte order included. -/
theorem kept (h : t.AtRest) (lastActivity : Instant) (order : ByteOrder) (peer : PeerInfo)
    (verification : Verification) (queue : List Script) (buffer : Bytes) (stopped : Bool) :
    AtRest { t with lastActivity, order, peer, verification, queue, buffer, stopped } := by
  refine ⟨h.closed, h.cleared, h.settled.sentTypes, fun script hhand => ?_⟩
  have htypes := Composer.types_run script
    { order, fromServer := t.role = .server, types := t.sentTypes }
    { order := t.order, fromServer := t.role = .server, types := t.sentTypes } rfl
  show (Composer.run _ script).2.types.isEmpty = true
  rw [htypes]
  exact h.settled.inHand script hhand

end AtRest

theorem keptAtWork_atRest : KeptAtWork AtRest :=
  .of_close (fun h => h.close) (fun h => h.turn) fun lastActivity order peer verification queue
    buffer stopped h => h.kept lastActivity order peer verification queue buffer stopped

/-- A transport at rest stays so, whatever happens. -/
theorem AtRest.life (h : t.AtRest) (step : LifeStep) : (step.run t).2.AtRest := by
  have hkept : ∀ holders knownTypes, AtRest { t with holders, knownTypes } := fun _ _ =>
    ⟨h.closed, h.cleared, h.settled.sentTypes, h.settled.inHand⟩
  cases step with
  | octets now bs => exact keptAtWork_atRest.receiveOctets now bs h
  | hangUp => exact keptAtWork_atRest.hangUp h
  | own step =>
    cases step with
    | take now m => exact keptAtWork_atRest.take now m h
    | compose => exact h.compose
    | close => exact h.close
    | readField o bs => exact hkept t.holders _
    | pick =>
      show t.pick.AtRest
      rw [pick_of_closed h.closed]
      exact h
    | enqueue script =>
      show ((t.enqueue script).toOption.getD t).AtRest
      rw [enqueue_of_closed h.closed]
      exact h
    | acquire holder =>
      have hrefused : t.acquire holder = (false, t) := if_pos h.closed
      show (t.acquire holder).2.AtRest
      rw [hrefused]
      exact h
    | release id => exact kept_release (fun h => h.close) (hkept _ t.knownTypes)
    | change =>
      show AtRest { t with sentTypes := t.sentTypes.clear }
      rw [h.cleared]
      exact h

theorem AtRest.live (h : t.AtRest) (steps : List LifeStep) : (Transport.live steps t).2.AtRest := by
  induction steps generalizing t with
  | nil => exact h
  | cons step steps ih => exact ih (h.life step)

/-- A transport that has just closed is at rest if it is settled. -/
theorem atRest_of_closes (hopen : t.closed = false) {step : LifeStep}
    (hcloses : (step.run t).2.closed = true) (hsettled : (step.run t).2.Settled) :
    (step.run t).2.AtRest := by
  have hlasts := lasts_life hopen step
  generalize step.run t = r at hlasts hcloses hsettled ⊢
  cases hlasts with
  | goes hgoes => exact nomatch hgoes.opened.symm.trans hcloses
  | @ends activity t' r hgoes hfades =>
    have hevolves := hfades.sentTypes
    rw [close_of_open hgoes.opened] at hevolves
    exact ⟨hfades.ended.closed, hevolves.clear_eq hsettled.sentTypes, hsettled⟩

/-- Nothing is numbered any more on a transport that has closed exactly if it is settled. -/
theorem forall_isEmpty_iff (hopen : t.closed = false) {step : LifeStep}
    (hcloses : (step.run t).2.closed = true) :
    (∀ after, (live after (step.run t).2).2.sentTypes.isEmpty = true) ↔ (step.run t).2.Settled := by
  constructor
  · intro hall
    refine ⟨hall [], fun script hhand => ?_⟩
    have hcomposed := hall [.own .compose]
    rw [live_cons] at hcomposed
    have hrun : ((LifeStep.own .compose).run (step.run t).2).2 = _ :=
      compose_of_closed hcloses hhand
    rw [hrun] at hcomposed
    exact hcomposed
  · intro hsettled after
    exact ((atRest_of_closes hopen hcloses hsettled).live after).settled.sentTypes

end Transport

end PvNet
