import PvNet.Context.BeaconHandler
import PvNet.Proofs.Connection.Changes
import PvNet.Proofs.Discovery.Dispatching
set_option autoImplicit false

/-!
# Servers are tracked apart

What a beacon tells depends on the beacon before it from the same server, and on nothing else
(`outcomes_runAll`).  Whoever listens for servers is called once for each beacon with news
(`listener_runAll`).  Meanwhile connections come and go, and are put into the registry and taken
out of it; a change of a server is told to those that the registry has for it at that time
(`Acts`).
-/

namespace PvNet

/-! ## What the beacons of a server tell -/

/-- What a beacon says about its server. -/
structure Announcement where
  server : Endpoint
  guid : Guid
  changeCount : UInt16
  deriving DecidableEq

namespace Announcement

/-- What beacons of one server tell, after a last one or as the first ones. -/
def outcomesFrom : Option Announcement → List Announcement → List BeaconOutcome
  | _, [] => []
  | none, a :: as => .firstSighting :: outcomesFrom (some a) as
  | some last, a :: as =>
    (if a.guid ≠ last.guid ∨ a.changeCount ≠ last.changeCount then .changed else .unchanged) ::
      outcomesFrom (some a) as

end Announcement

namespace BeaconTracker

/-- The last beacon of a server. -/
def last? (t : BeaconTracker) (server : Endpoint) : Option Announcement :=
  (t.servers.get? server).map fun s => ⟨server, s.guid, s.changeCount⟩

theorem last?_notify (t : BeaconTracker) (now : Instant) (a : Announcement) (server : Endpoint) :
    (t.notify now a.server a.guid a.changeCount).2.last? server =
      if a.server = server then some a else t.last? server := by
  show ((t.servers.put a.server ⟨a.guid, a.changeCount, now⟩).get? server).map _ = _
  rw [Table.get?_put]
  by_cases hserver : a.server = server
  · subst hserver
    rw [if_pos rfl, if_pos rfl]
    rfl
  · rw [if_neg hserver, if_neg hserver]
    rfl

theorem outcomesFrom_cons (t : BeaconTracker) (now : Instant) (a : Announcement)
    (as : List Announcement) :
    Announcement.outcomesFrom (t.last? a.server) (a :: as) =
      (t.notify now a.server a.guid a.changeCount).1 :: Announcement.outcomesFrom (some a) as := by
  unfold last? notify
  cases t.servers.get? a.server with
  | none => rfl
  | some known =>
    show (if a.guid ≠ known.guid ∨ a.changeCount ≠ known.changeCount then BeaconOutcome.changed
      else .unchanged) :: _ = (if known.guid = a.guid ∧ known.changeCount = a.changeCount then _
      else _) :: _
    refine congrArg (· :: _) ?_
    by_cases hsame : known.guid = a.guid ∧ known.changeCount = a.changeCount
    · rw [if_pos hsame, if_neg (by simp [hsame])]
    · rw [if_neg hsame, if_pos]
      rw [not_and_or] at hsame
      exact hsame.imp Ne.symm Ne.symm

end BeaconTracker

namespace BeaconHandler

variable {σ : Type} (detected : σ → σ) (h : BeaconHandler σ) (now : Instant) (source : Endpoint)
  {m : Message}

/-- A malformed beacon changes nothing. -/
theorem handle_of_error {e : WireError} (hread : m.read Beacon.decode = .error e) :
    h.handle detected now m source = (none, {}, h) := by
  rw [handle, hread]

theorem handle_of_ok {b : Beacon} (hread : m.read Beacon.decode = .ok b) :
    h.handle detected now m source =
      let r := h.notify detected now (b.server.resolve source) b.guid b.changeCount
      (some ⟨b, b.server.resolve source, r.1⟩, r.2) := by
  rw [handle, hread]

end BeaconHandler

/-! ## Beacons among other things -/

/-- What happens to whoever tracks servers and keeps connections to them. -/
inductive TrackStep where
  | beacon (now : Instant) (a : Announcement)
  /-- A message comes in that may be a beacon. -/
  | message (now : Instant) (m : Message) (source : Endpoint)
  /-- Somebody uses the connections, or a peer does something. -/
  | use (step : UseStep)
  /-- A new transport is registered. -/
  | enroll (role : Role) (address : Endpoint) (priority : Int16) (config : TransportConfig)
    (handler : Option (Message → Bool))
  /-- A transport is registered again, perhaps in the place of another one. -/
  | enrollAgain (n : Nat)
  /-- A transport is taken out of the registry without being closed. -/
  | forget (n : Nat)

namespace TrackStep

/-- The beacon of a step, unless there is none or it is malformed. -/
def announcement? : TrackStep → Option Announcement
  | beacon _ a => some a
  | message _ m source =>
    (m.read Beacon.decode).toOption.map fun b => ⟨b.server.resolve source, b.guid, b.changeCount⟩
  | use _ | enroll .. | enrollAgain _ | forget _ => none

section

variable {σ : Type} (detected : σ → σ)

/-- Does a step.  Returns what a beacon tells of which server, and what is done about it. -/
def run (h : BeaconHandler σ) :
    TrackStep → Option (Endpoint × BeaconOutcome) × Activity × BeaconHandler σ
  | beacon now a =>
    let (outcome, activity, h) := h.notify detected now a.server a.guid a.changeCount
    (some (a.server, outcome), activity, h)
  | message now m source =>
    let (sighting, activity, h) := h.handle detected now m source
    (sighting.map fun s => (s.server, s.outcome), activity, h)
  | use step => (none, {}, { h with pool := h.pool.use step })
  | enroll role address priority config handler =>
    (none, {}, { h with pool := h.pool.enroll (.fresh role address priority config handler) })
  | enrollAgain n => (none, {}, { h with pool := h.pool.enrollAgain n })
  | forget n => (none, {}, { h with pool := (h.pool.forget n).2 })

/-- Does some steps.  Returns what the beacons tell. -/
def runAll : List TrackStep → BeaconHandler σ → List (Endpoint × BeaconOutcome) × BeaconHandler σ
  | [], h => ([], h)
  | step :: steps, h =>
    let (told, _, h) := step.run detected h
    let (rest, h) := runAll steps h
    (told.toList ++ rest, h)

variable (h : BeaconHandler σ) {step : TrackStep} {a : Announcement}

/-- A beacon is recorded as such, however it comes in. -/
theorem exists_run_of_some (ha : step.announcement? = some a) :
    ∃ now,
      let r := h.tracker.notify now a.server a.guid a.changeCount
      let informed := if r.1.isChange then h.pool.changeAll a.server else ({}, h.pool)
      step.run detected h = (some (a.server, r.1), informed.1,
        { tracker := r.2
          listener := if r.1.isNews then detected h.listener else h.listener
          pool := informed.2 }) := by
  cases step with
  | beacon now a' =>
    cases ha
    exact ⟨now, rfl⟩
  | message now m source =>
    obtain ⟨b, hb, rfl⟩ := Option.map_eq_some_iff.1 ha
    refine ⟨now, ?_⟩
    cases hread : m.read Beacon.decode with
    | error e =>
      rw [hread] at hb
      cases hb
    | ok b' =>
      rw [hread] at hb
      cases hb
      rw [run, BeaconHandler.handle_of_ok detected h now source hread]
      rfl
  | use | enroll | enrollAgain | forget => cases ha

theorem run_message_of_error {m : Message} {e : WireError} (hread : m.read Beacon.decode = .error e)
    (now : Instant) (source : Endpoint) :
    (message now m source).run detected h = (none, {}, h) := by
  rw [run, BeaconHandler.handle_of_error detected h now source hread]
  rfl

/-- What is no beacon has no effect on what is known about servers. -/
theorem run_of_none (hnone : step.announcement? = none) :
    (step.run detected h).1 = none ∧ (step.run detected h).2.1 = {} ∧
      (step.run detected h).2.2.tracker = h.tracker ∧
      (step.run detected h).2.2.listener = h.listener := by
  cases step with
  | beacon now a => cases hnone
  | message now m source =>
    have hnone := Option.map_eq_none_iff.1 hnone
    cases hread : m.read Beacon.decode with
    | error e =>
      rw [run_message_of_error detected h hread]
      exact ⟨rfl, rfl, rfl, rfl⟩
    | ok b =>
      rw [hread] at hnone
      cases hnone
  | use | enroll | enrollAgain | forget => exact ⟨rfl, rfl, rfl, rfl⟩

theorem told_run (step : TrackStep) :
    (step.run detected h).1.map (·.1) = step.announcement?.map (·.server) := by
  cases ha : step.announcement? with
  | none =>
    rw [(run_of_none detected h ha).1]
    rfl
  | some a =>
    obtain ⟨now, hrun⟩ := exists_run_of_some detected h ha
    rw [hrun]
    rfl

/-- The beacons of other servers do not matter. -/
theorem outcomes_runAll (steps : List TrackStep) (address : Endpoint) :
    ((runAll detected steps h).1.filter (·.1 = address)).map (·.2) =
      Announcement.outcomesFrom (h.tracker.last? address)
        ((steps.filterMap announcement?).filter (·.server = address)) := by
  induction steps generalizing h with
  | nil =>
    unfold runAll
    cases h.tracker.last? address with
    | none => rfl
    | some last => rfl
  | cons step steps ih =>
    rw [runAll, List.filter_append, List.map_append, ih]
    cases ha : step.announcement? with
    | none =>
      obtain ⟨htold, -, htracker, -⟩ := run_of_none detected h ha
      rw [htold, htracker, List.filterMap_cons_none ha]
      rfl
    | some a =>
      obtain ⟨now, hrun⟩ := exists_run_of_some detected h ha
      -- Of what is known about servers, only the last beacon of this one matters.
      rw [hrun, List.filterMap_cons_some ha, BeaconTracker.last?_notify]
      by_cases hserver : a.server = address
      · subst hserver
        rw [if_pos rfl, List.filter_cons_of_pos (by simp), h.tracker.outcomesFrom_cons now a]
        simp
      · rw [if_neg hserver, List.filter_cons_of_neg (by simpa using hserver)]
        simp [hserver]

theorem servers_runAll (steps : List TrackStep) :
    (runAll detected steps h).1.map (·.1) = (steps.filterMap announcement?).map (·.server) := by
  induction steps generalizing h with
  | nil => rfl
  | cons step steps ih =>
    have htold := told_run detected h step
    rw [runAll, List.map_append, ih, ← Option.toList_map, htold]
    cases ha : step.announcement? with
    | none =>
      rw [List.filterMap_cons_none ha]
      rfl
    | some a =>
      rw [List.filterMap_cons_some ha]
      rfl

/-- The listener is called for every beacon with news, and not otherwise. -/
theorem listener_runAll (steps : List TrackStep) :
    (runAll detected steps h).2.listener =
      detected^[((runAll detected steps h).1.filter (·.2.isNews)).length] h.listener := by
  induction steps generalizing h with
  | nil => rfl
  | cons step steps ih =>
    rw [runAll]
    simp only
    rw [ih, List.filter_append, List.length_append]
    cases ha : step.announcement? with
    | none =>
      obtain ⟨htold, -, -, hlistener⟩ := run_of_none detected h ha
      rw [hlistener, htold]
      simp
    | some a =>
      obtain ⟨now, hrun⟩ := exists_run_of_some detected h ha
      rw [hrun, Nat.add_comm, Function.iterate_add_apply]
      simp only [Option.toList_some, List.filter_singleton]
      cases (h.tracker.notify now a.server a.guid a.changeCount).1.isNews with
      | true => rfl
      | false => rfl

theorem keyed_of_announcement (hkeyed : h.pool.Keyed) (ha : step.announcement? = some a) :
    (step.run detected h).2.2.pool.Keyed := by
  obtain ⟨now, hrun⟩ := exists_run_of_some detected h ha
  rw [hrun]
  simp only
  split
  · exact hkeyed.updateAll (.own .change) _
  · exact hkeyed

theorem keyed_run (hkeyed : h.pool.Keyed) (step : TrackStep) :
    (step.run detected h).2.2.pool.Keyed := by
  cases step with
  | beacon now a => exact keyed_of_announcement detected h hkeyed rfl
  | message now m source =>
    cases hread : m.read Beacon.decode with
    | error e =>
      rw [run_message_of_error detected h hread]
      exact hkeyed
    | ok b =>
      have ha : (message now m source).announcement? =
          some ⟨b.server.resolve source, b.guid, b.changeCount⟩ := by
        rw [announcement?, hread]
        rfl
      exact keyed_of_announcement detected h hkeyed ha
  | use step => exact hkeyed.use step
  | enroll role address priority config handler =>
    exact hkeyed.enroll ⟨named_empty, .inl rfl⟩
  | enrollAgain n => exact hkeyed.enrollAgain n
  | forget n => exact hkeyed.forget n

theorem keyed_runAll (hkeyed : h.pool.Keyed) (steps : List TrackStep) :
    (runAll detected steps h).2.pool.Keyed := by
  induction steps generalizing h with
  | nil => exact hkeyed
  | cons step steps ih => exact ih (step.run detected h).2.2 (keyed_run detected h hkeyed step)

end

end TrackStep

/-! ## Who is told of a beacon -/

/-- What is done about a step: the listener is called for news, and the connections to a server are
told that it changed. -/
structure Acts {σ : Type} (detected : σ → σ) (h : BeaconHandler σ) (step : TrackStep) : Prop where
  told : ∀ {a outcome}, step.announcement? = some a →
    (step.run detected h).1 = some (a.server, outcome) →
      (step.run detected h).2.2.listener =
          (if outcome = .firstSighting ∨ outcome = .changed then detected h.listener
            else h.listener) ∧
        (outcome = .changed → h.pool.ToldOfChange a.server
          ((step.run detected h).2.1, (step.run detected h).2.2.pool)) ∧
        (outcome ≠ .changed → (step.run detected h).2.1 = {} ∧
          (step.run detected h).2.2.pool = h.pool)
  /-- What is no beacon tells nothing of a server and calls nobody. -/
  untold : step.announcement? = none → (step.run detected h).1 = none ∧
    (step.run detected h).2.1 = {} ∧ (step.run detected h).2.2.tracker = h.tracker ∧
      (step.run detected h).2.2.listener = h.listener
  malformed : ∀ {now m source e}, step = .message now m source → m.read Beacon.decode = .error e →
    step.run detected h = (none, {}, h)

theorem Acts.of_keyed {σ : Type} (detected : σ → σ) {h : BeaconHandler σ} (hkeyed : h.pool.Keyed)
    (step : TrackStep) : Acts detected h step where
  told {a outcome} ha houtcome := by
    obtain ⟨now, hrun⟩ := TrackStep.exists_run_of_some detected h ha
    rw [hrun] at houtcome ⊢
    have houtcome : (h.tracker.notify now a.server a.guid a.changeCount).1 = outcome :=
      congrArg Prod.snd (Option.some.inj houtcome)
    simp only [houtcome]
    cases outcome with
    | firstSighting => exact ⟨rfl, fun h => (nomatch h), fun _ => ⟨rfl, rfl⟩⟩
    | changed => exact ⟨rfl, fun _ => hkeyed.toldOfChange a.server, fun h => absurd rfl h⟩
    | unchanged => exact ⟨rfl, fun h => (nomatch h), fun _ => ⟨rfl, rfl⟩⟩
  untold hnone := TrackStep.run_of_none detected h hnone
  malformed := by
    rintro now m source e rfl hread
    exact TrackStep.run_message_of_error detected h hread now source

/-- Beacons tell of each server what they would tell without the other servers.  The listener is
called for every first beacon and every change, and not otherwise.  At a change, the holders of the
connections that are registered for the server are told, once for each of them, and nobody else.
All this goes on however connections are registered, replaced and closed in the meantime. -/
theorem servers_tracked_apart {σ : Type} (detected : σ → σ) (listener : σ)
    (steps : List TrackStep) :
    let r := TrackStep.runAll detected steps { listener }
    let beacons := steps.filterMap TrackStep.announcement?
    (∀ address, (r.1.filter (·.1 = address)).map (·.2) =
        Announcement.outcomesFrom none (beacons.filter (·.server = address))) ∧
      r.1.map (·.1) = beacons.map (·.server) ∧
      r.2.listener = detected^[(r.1.filter (·.2.isNews)).length] listener ∧
      ∀ step, Acts detected r.2 step :=
  ⟨fun address => TrackStep.outcomes_runAll detected { listener } steps address,
    TrackStep.servers_runAll detected { listener } steps,
    TrackStep.listener_runAll detected { listener } steps,
    Acts.of_keyed detected (TrackStep.keyed_runAll detected { listener } .empty steps)⟩

/-- Somebody holds two connections to one server and one to another. -/
def threeConnections : List TrackStep :=
  [.enroll .client (.any 5075) 0 {} none, .enroll .client (.any 5075) 7 {} none,
    .enroll .client (.any 5076) 0 {} none, .use (.happen 0 (.own (.acquire ⟨1, 0⟩))),
    .use (.happen 1 (.own (.acquire ⟨1, 0⟩))), .use (.happen 2 (.own (.acquire ⟨1, 0⟩))),
    .beacon 0 ⟨.any 5075, ⟨1⟩, 0⟩, .beacon 0 ⟨.any 5076, ⟨1⟩, 5⟩, .beacon 1 ⟨.any 5075, ⟨1⟩, 0⟩]

/-- A change of the one server is told twice. -/
theorem threeConnections_tracked_apart :
    let r := TrackStep.runAll (· + 1) threeConnections { listener := 0 }
    let next := (TrackStep.beacon 2 ⟨.any 5075, ⟨1⟩, 1⟩).run (· + 1) r.2
    r.1 = [(.any 5075, .firstSighting), (.any 5076, .firstSighting), (.any 5075, .unchanged)] ∧
      r.2.listener = 2 ∧ next.1 = some (.any 5075, .changed) ∧ next.2.2.listener = 3 ∧
      next.2.1.events = [.changed ⟨1, 0⟩, .changed ⟨1, 0⟩] ∧
      (r.2.pool.heldAt (.any 5075) ⟨1, 0⟩).ncard = 2 := by
  intro r next
  have hevents : next.2.1.events = [.changed ⟨1, 0⟩, .changed ⟨1, 0⟩] := by decide +kernel
  have hchanged : next.1 = some (.any 5075, .changed) := by decide +kernel
  obtain ⟨-, -, -, hacts⟩ := servers_tracked_apart (· + 1) 0 threeConnections
  have hact := hacts (.beacon 2 ⟨.any 5075, ⟨1⟩, 1⟩)
  obtain ⟨-, htold, -⟩ := hact.told (a := ⟨.any 5075, ⟨1⟩, 1⟩) rfl hchanged
  have hcount := (htold rfl).told ⟨1, 0⟩
  rw [hevents] at hcount
  exact ⟨by decide +kernel, by decide +kernel, hchanged, by decide +kernel, hevents, hcount.symm⟩

end PvNet
