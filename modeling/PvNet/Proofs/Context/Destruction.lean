import PvNet.Context.Client
import PvNet.Proofs.Connection.Closings
import PvNet.Proofs.Discovery.Scheduling
set_option autoImplicit false

/-!
# The end of a client

A client closes the connections that its registry has.  Whatever has happened before, these
are all that are open (`Follows.sound`), so that none survives, and everybody who still
holds one is told (`Follows.destroy`).  Afterwards nothing that is done to the client has any
effect (`Over.run`); the connections finish what was under way, which nobody but their
handler is told (`Over.fades_run`).
-/

namespace PvNet

/-! ## What a client does and hears -/

/-- What the user of a client does, and what its peers do. -/
inductive ContextStep where
  | registerSearch (now : Instant) (cid : UInt32) (name : String) (penalize : Bool)
  | unregisterSearch (cid : UInt32)
  /-- The searches that are due are sent. -/
  | tick (now : Instant)
  /-- A datagram comes in. -/
  | datagram (now : Instant) (octets : Bytes) (source : Endpoint)
  | connect (now : Instant) (client : Holder) (address : Endpoint) (priority : Int16)
    (listener : Listener)
  | release (n : Nat) (id : UInt64)
  /-- The server at an address ends its connections. -/
  | disconnect (address : Endpoint)
  /-- Something happens to one connection: somebody else acquires it, sends or closes it, or its
  peer says something or ends it. -/
  | happen (n : Nat) (step : LifeStep)
  | destroy

namespace ContextStep

/-- Does a step.  Returns what the connections send and tell, and the datagrams that are sent. -/
def run (c : ClientContext) : ContextStep → Activity × List Outgoing × ClientContext
  | registerSearch now cid name penalize =>
    ({}, [], ((c.registerSearch? now cid name penalize).bind (·.toOption)).getD c)
  | unregisterSearch cid => ({}, [], (c.unregisterSearch cid).2)
  | tick now => ({}, c.tick now)
  | datagram now octets source =>
    let (_, activity, c) := c.receive now octets source
    (activity, [], c)
  | connect now client address priority listener =>
    let (_, activity, c) := c.connect now client address priority listener
    (activity, [], c)
  | release n id =>
    let (activity, c) := c.release n id
    (activity, [], c)
  | disconnect address =>
    let (activity, c) := c.hangUpAll address
    (activity, [], c)
  | happen n step =>
    let (activity, pool) := c.pool.update n fun t => step.run t
    (activity, [], { c with pool })
  | destroy =>
    let (activity, c) := c.destroy
    (activity, [], c)

def runAll : List ContextStep → ClientContext → Activity × List Outgoing × ClientContext
  | [], c => ({}, [], c)
  | step :: steps, c =>
    let (first, sent, c) := step.run c
    let (rest, sent', c) := runAll steps c
    (first ++ rest, sent ++ sent', c)

/-- What a step is to the connections that somebody gets or drops by it. -/
def deeds (c : ClientContext) : ContextStep → List (Nat × LifeStep)
  | connect now client address priority listener =>
    ((c.connect now client address priority listener).1.toOption.map fun n =>
      (n, .own (.acquire client))).toList
  | release n id => if n < c.pool.transports.length then [(n, .own (.release id))] else []
  | happen n step => if n < c.pool.transports.length then [(n, step)] else []
  | registerSearch .. | unregisterSearch _ | tick _ | datagram .. | disconnect _ | destroy => []

/-- What has happened to which connection in the course of it all. -/
def history : List ContextStep → ClientContext → List (Nat × LifeStep)
  | [], _ => []
  | step :: steps, c => step.deeds c ++ history steps (step.run c).2.2

/-- A holder tries to connect, and fails; it may be told that this attempt is closed. -/
def FailsFor (c : ClientContext) (h : Holder) : ContextStep → Prop
  | connect now client address priority listener =>
    h = client ∧ ∃ e, (c.connect now client address priority listener).1 = .error e
  | _ => False

/-- A connection that has closed may still change at a step, which finishes what was under way. -/
def isLeftover : ContextStep → Bool
  | happen _ step => step.isLeftover
  | _ => false

theorem runAll_cons (step : ContextStep) (steps : List ContextStep) (c : ClientContext) :
    runAll (step :: steps) c =
      ((step.run c).1 ++ (runAll steps (step.run c).2.2).1,
        (step.run c).2.1 ++ (runAll steps (step.run c).2.2).2.1,
        (runAll steps (step.run c).2.2).2.2) := rfl

theorem runAll_append (before behind : List ContextStep) (c : ClientContext) :
    (runAll (before ++ behind) c).2.2 = (runAll behind (runAll before c).2.2).2.2 := by
  induction before generalizing c with
  | nil => rfl
  | cons step before ih => exact ih (step.run c).2.2

theorem history_concat (before : List ContextStep) (step : ContextStep) (c : ClientContext) :
    history (before ++ [step]) c = history before c ++ step.deeds (runAll before c).2.2 := by
  induction before generalizing c with
  | nil => exact List.append_nil _
  | cons first before ih =>
    rw [List.cons_append, history, ih, history, List.append_assoc]
    rfl

end ContextStep

/-! ## Searches -/

namespace DiscoveryClient

theorem canceled_handleMessage (c : DiscoveryClient) (now : Instant) (source : Endpoint)
    (m : Message) :
    (c.handleMessage now source m).2.searches.canceled = c.searches.canceled := by
  unfold handleMessage
  by_cases hresponse : m.isApplication Command.searchResponse
  · rw [if_pos hresponse]
    cases m.read SearchResponse.decode with
    | error e => rfl
    | ok r =>
      by_cases hattached : c.attached
      · simp only [if_pos hattached]
        exact SearchManager.canceled_run (.respond r source m.header.version) fun h => nomatch h
      · simp only [if_neg hattached]
  · rw [if_neg hresponse]
    by_cases hbeacon : m.isApplication Command.beacon
    · rw [if_pos hbeacon]
      rcases c.tracker.handle now m source with ⟨_ | sighting, tracker⟩
      · rfl
      · cases hnews : sighting.outcome.isNews with
        | true =>
          simp only [hnews, if_true]
          exact SearchManager.canceled_run (.boost now) fun h => nomatch h
        | false => simp only [hnews, Bool.false_eq_true, if_false]
    · rw [if_neg hbeacon]

/-- No datagram cancels the searches. -/
theorem canceled_handleMessages (now : Instant) (source : Endpoint) (ms : List Message)
    (c : DiscoveryClient) :
    (handleMessages now source ms c).2.searches.canceled = c.searches.canceled := by
  induction ms generalizing c with
  | nil => rfl
  | cons m ms ih => exact (ih _).trans (c.canceled_handleMessage now source m)

end DiscoveryClient

/-! ## The pool of a client -/

namespace TransportPool

variable {p : TransportPool} {log : List (Nat × LifeStep)}

theorem Tracks.invalidate (htracks : Tracks p.transports log)
    (sightings : List BeaconTracker.Sighting) :
    Accounts p.transports log (ClientContext.invalidate sightings p) := by
  induction sightings generalizing p with
  | nil => exact .refl htracks
  | cons s sightings ih =>
    have hfirst : Accounts p.transports log
        (if s.outcome.isChange then p.changeAll s.server else ({}, p)) := by
      cases s.outcome.isChange with
      | true => exact htracks.updateAll (.own .change) (fun _ h => h) _
      | false => exact .refl htracks
    exact hfirst.trans (ih hfirst.tracks)

theorem Sound.invalidate (h : p.Sound) (sightings : List BeaconTracker.Sighting) :
    (ClientContext.invalidate sightings p).2.Sound := by
  induction sightings generalizing p with
  | nil => exact h
  | cons s sightings ih =>
    refine ih (p := (if s.outcome.isChange then p.changeAll s.server else ({}, p)).2) ?_
    cases s.outcome.isChange with
    | true => exact h.updateAll (.own .change) _
    | false => exact h

end TransportPool

/-! ## A client that is over -/

namespace ClientContext

variable {c : ClientContext} {log : List (Nat × LifeStep)}

/-- A client that has been destroyed has no search and no open connection left. -/
structure Over (c : ClientContext) : Prop where
  destroyed : c.destroyed = true
  canceled : c.searches.canceled = true
  pending : c.searches.pending = .empty
  registry : c.pool.registry = {}
  ended : ∀ t ∈ c.pool.transports, t.Ended

/-- Nothing is sent any more, and nobody but a handler is told anything; nothing but the connections
changes, and they have ended still. -/
structure Fades (c : ClientContext) (r : Activity × List Outgoing × ClientContext) : Prop where
  pool : c.pool.Fades (r.1, r.2.2.pool)
  datagrams : r.2.1 = []
  context : r.2.2 = { c with pool := r.2.2.pool }

theorem Fades.trans {r r' : Activity × List Outgoing × ClientContext} (h : c.Fades r)
    (h' : r.2.2.Fades r') : c.Fades (r.1 ++ r'.1, r.2.1 ++ r'.2.1, r'.2.2) where
  pool := h.pool.trans h'.pool
  datagrams := by
    show r.2.1 ++ r'.2.1 = []
    rw [h.datagrams, h'.datagrams, List.append_nil]
  context := by
    have hcontext := h'.context
    rw [h.context] at hcontext
    exact hcontext

namespace Over

theorem registerSearch (h : c.Over) (now : Instant) (cid : UInt32) (name : String)
    (penalize : Bool) : c.registerSearch? now cid name penalize = some (.error .closed) :=
  if_pos h.destroyed

theorem connect (h : c.Over) (now : Instant) (client : Holder) (address : Endpoint)
    (priority : Int16) (listener : Listener) :
    c.connect now client address priority listener = (.error .closed, {}, c) := if_pos h.destroyed

/-- Nothing that is done to it or that it hears has any effect. -/
theorem run (h : c.Over) {step : ContextStep} (hidle : step.isLeftover = false) :
    step.run c = ({}, [], c) := by
  cases step with
  | registerSearch now cid name penalize =>
    show (({} : Activity), ([] : List Outgoing),
      ((c.registerSearch? now cid name penalize).bind (·.toOption)).getD c) = _
    rw [h.registerSearch]
    rfl
  | unregisterSearch cid =>
    have hsame : (c.searches.unregister cid).2 = c.searches :=
      SearchManager.run_of_canceled h.canceled h.pending (.unregister cid)
    show (({} : Activity), ([] : List Outgoing), c.withSearches (c.searches.unregister cid).2) = _
    rw [hsame]
    rfl
  | tick now =>
    have hsame : c.searches.tick now = (.canceled, [], c.searches) := if_pos h.canceled
    show (({} : Activity), (c.searches.tick now).2.1, c.withSearches (c.searches.tick now).2.2) = _
    rw [hsame]
    rfl
  | datagram now octets source =>
    have hsame : c.receive now octets source = ({}, {}, c) := if_pos h.destroyed
    simp only [ContextStep.run, hsame]
  | connect now client address priority listener =>
    simp only [ContextStep.run, h.connect]
  | release n id =>
    have hsame : c.pool.release n id = ({}, c.pool) :=
      TransportPool.update_eq_of_ended h.ended n (.own (.release id)) rfl
    simp only [ContextStep.run, ClientContext.release, hsame]
  | disconnect address =>
    have hsame : c.pool.hangUpAll address = ({}, c.pool) :=
      TransportPool.updateAll_eq_of_ended h.ended .hangUp rfl _
    simp only [ContextStep.run, ClientContext.hangUpAll, hsame]
  | happen n step =>
    have hsame := TransportPool.update_eq_of_ended h.ended n step hidle
    simp only [ContextStep.run, hsame]
  | destroy =>
    have hsame : c.destroy = ({}, c) := if_pos h.destroyed
    simp only [ContextStep.run, hsame]

theorem runAll (h : c.Over) {steps : List ContextStep}
    (hidle : ∀ step ∈ steps, step.isLeftover = false) :
    ContextStep.runAll steps c = ({}, [], c) := by
  induction steps with
  | nil => rfl
  | cons step steps ih =>
    obtain ⟨hstep, hsteps⟩ := List.forall_mem_cons.1 hidle
    rw [ContextStep.runAll_cons, h.run hstep, ih hsteps]
    rfl

/-- What its connections finish changes nothing but them. -/
theorem fades_run (h : c.Over) (step : ContextStep) : c.Fades (step.run c) := by
  cases hidle : step.isLeftover with
  | false =>
    rw [h.run hidle]
    exact ⟨.refl h.ended, rfl, rfl⟩
  | true =>
    cases step with
    | happen n step => exact ⟨TransportPool.fades_update h.ended n step, rfl, rfl⟩
    | registerSearch | unregisterSearch | tick | datagram | connect | release | disconnect
    | destroy => cases hidle

theorem of_fades (h : c.Over) {r : Activity × List Outgoing × ClientContext} (hfades : c.Fades r) :
    r.2.2.Over := by
  obtain ⟨transports, hpool, -⟩ := hfades.pool.kept
  rw [hfades.context]
  have hregistry := (congrArg TransportPool.registry hpool).trans h.registry
  exact ⟨h.destroyed, h.canceled, h.pending, hregistry, hfades.pool.ended⟩

theorem fades_runAll (h : c.Over) (steps : List ContextStep) :
    c.Fades (ContextStep.runAll steps c) := by
  induction steps generalizing c with
  | nil => exact ⟨.refl h.ended, rfl, rfl⟩
  | cons step steps ih =>
    have hfirst := h.fades_run step
    exact hfirst.trans (ih (h.of_fades hfirst))

end Over

/-! ## A client that follows its history -/

theorem registerSearch_of_alive (halive : c.destroyed = false) (now : Instant) (cid : UInt32)
    (name : String) (penalize : Bool) :
    ((c.registerSearch? now cid name penalize).bind (·.toOption)).getD c =
      c.withSearches (SearchAction.run c.searches (.register now cid name penalize)) := by
  rw [ClientContext.registerSearch?, if_neg (by simp [halive]), SearchAction.run]
  cases c.searches.register? now cid name penalize with
  | none => rfl
  | some searches => rfl

theorem pool_registerSearch (c : ClientContext) (now : Instant) (cid : UInt32) (name : String)
    (penalize : Bool) :
    (((c.registerSearch? now cid name penalize).bind (·.toOption)).getD c).pool = c.pool := by
  cases hdestroyed : c.destroyed with
  | true =>
    rw [ClientContext.registerSearch?, if_pos hdestroyed]
    rfl
  | false =>
    rw [registerSearch_of_alive hdestroyed]
    rfl

theorem receive_of_alive (halive : c.destroyed = false) (now : Instant) (octets : Bytes)
    (source : Endpoint) :
    c.receive now octets source =
      let handled := c.discovery.handle now octets source
      let informed := invalidate handled.1.sightings c.pool
      (handled.1, informed.1, { c with discovery := handled.2, pool := informed.2 }) :=
  if_neg (by simp [halive])

theorem connect_of_alive (halive : c.destroyed = false) (now : Instant) (client : Holder)
    (address : Endpoint) (priority : Int16) (listener : Listener) :
    c.connect now client address priority listener =
      let r := c.pool.connect c.connector now client address priority listener
      (r.1, r.2.1, { c with pool := r.2.2 }) :=
  if_neg (by simp [halive])

/-- What holds of a client at all times, after what is in the log. -/
structure Follows (c : ClientContext) (log : List (Nat × LifeStep)) : Prop where
  /-- The registry has exactly the open connections. -/
  sound : c.pool.Sound
  tracks : TransportPool.Tracks c.pool.transports log
  alive_or_over : (c.destroyed = false ∧ c.searches.canceled = false) ∨ c.Over

/-- What is told in a step, and who holds which connection afterwards. -/
structure Informs (c : ClientContext) (log : List (Nat × LifeStep)) (step : ContextStep) :
    Prop where
  tracks : TransportPool.Tracks (step.run c).2.2.pool.transports (log ++ step.deeds c)
  length : c.pool.transports.length ≤ (step.run c).2.2.pool.transports.length
  told : ∀ h, ¬ step.FailsFor c h → (step.run c).1.events.count (.closed h) =
    (TransportPool.lost c.pool.transports (step.run c).2.2.pool.transports
      (log ++ step.deeds c) h).ncard

theorem informs_of_accounts {step : ContextStep}
    (h : TransportPool.Accounts c.pool.transports (log ++ step.deeds c)
      ((step.run c).1, (step.run c).2.2.pool)) : c.Informs log step where
  tracks := h.tracks
  length := Nat.le_of_eq h.length.symm
  told holder _ := h.told holder

theorem informs_of_no_deeds {step : ContextStep} (hdeeds : step.deeds c = [])
    (h : TransportPool.Accounts c.pool.transports log
      ((step.run c).1, (step.run c).2.2.pool)) : c.Informs log step := by
  refine informs_of_accounts ?_
  rw [hdeeds, List.append_nil]
  exact h

namespace Follows

/-- The registry has all connections that are open, so that none is left. -/
theorem destroy (h : c.Follows log) :
    c.destroy.2.Over ∧ c.destroy.2.pool.Sound ∧
      TransportPool.Accounts c.pool.transports log (c.destroy.1, c.destroy.2.pool) := by
  rcases h.alive_or_over with ⟨halive, hsearching⟩ | hover
  · let emptied : TransportPool := { c.pool with registry := {} }
    let r := TransportPool.updateAll Transport.close c.pool.registry.all emptied
    have hdestroy : c.destroy =
        (r.1, { c.withSearches c.searches.cancel with pool := r.2, destroyed := true }) :=
      if_neg (by simp [halive])
    have haccounts : TransportPool.Accounts c.pool.transports log r :=
      TransportPool.Tracks.updateAll (p := emptied) h.tracks (.own .close) (fun _ h => h) _
    obtain ⟨transports, hpool⟩ : ∃ transports, r.2 = { emptied with transports } :=
      TransportPool.exists_updateAll_eq rfl Transport.close _
    have hended : ∀ t ∈ r.2.transports, t.Ended := h.sound.ended_of_closed h.tracks
    have hcancel : c.searches.cancel = { c.searches with canceled := true, pending := .empty } :=
      if_neg (by simp [hsearching])
    rw [hdestroy]
    refine ⟨⟨rfl, ?_, ?_, ?_, hended⟩, .of_ended hended ?_ ?_ ?_, haccounts⟩
    · exact congrArg SearchManager.canceled hcancel
    · exact congrArg SearchManager.pending hcancel
    · exact congrArg TransportPool.registry hpool
    · exact congrArg TransportPool.registry hpool
    · show ∀ t ∈ r.2.abandoned, t.closed = true
      rw [hpool]
      exact h.sound.abandoned
    · show r.2.locks.Sound
      rw [hpool]
      exact h.sound.locks
  · have hsame : c.destroy = ({}, c) := if_pos hover.destroyed
    rw [hsame]
    exact ⟨hover, h.sound, .refl h.tracks⟩

theorem informs_connect (h : c.Follows log) (now : Instant) (client : Holder) (address : Endpoint)
    (priority : Int16) (listener : Listener) :
    c.Informs log (.connect now client address priority listener) := by
  rcases h.alive_or_over with ⟨halive, -⟩ | hover
  · have hjoins := TransportPool.joins_connect h.tracks c.connector now client address priority
      listener
    rcases hpool : c.pool.connect c.connector now client address priority listener with
      ⟨result, activity, pool⟩
    rw [hpool] at hjoins
    have hconnect : c.connect now client address priority listener =
        (result, activity, { c with pool }) := by
      rw [connect_of_alive halive, hpool]
    have hrun : (ContextStep.connect now client address priority listener).run c =
        (activity, [], { c with pool }) := by
      simp only [ContextStep.run, hconnect]
    refine ⟨?_, ?_, fun holder hfails => ?_⟩
    · rw [hrun]
      simp only [ContextStep.deeds, hconnect]
      cases result with
      | ok n => exact (hjoins.handed n rfl).2
      | error e =>
        have hsame : pool.transports = c.pool.transports := hjoins.refused e rfl
        show TransportPool.Tracks pool.transports (log ++ [])
        rw [hsame, List.append_nil]
        exact h.tracks
    · rw [hrun]
      exact hjoins.length
    · have hspared : TransportEvent.closed holder ∉ activity.events := by
        intro hmem
        obtain ⟨hclient, e, he⟩ := hjoins.told holder hmem
        exact hfails ⟨hclient, e, (congrArg Prod.fst hconnect).trans he⟩
      rw [hrun, TransportPool.lost_eq_empty hjoins.kept, Set.ncard_empty]
      exact List.count_eq_zero_of_not_mem hspared
  · refine informs_of_no_deeds ?_ ?_
    · simp only [ContextStep.deeds, hover.connect]
      rfl
    · rw [hover.run rfl]
      exact .refl h.tracks

theorem informs (h : c.Follows log) (step : ContextStep) : c.Informs log step := by
  cases step with
  | registerSearch now cid name penalize =>
    refine informs_of_no_deeds rfl ?_
    show TransportPool.Accounts c.pool.transports log
      ({}, (((c.registerSearch? now cid name penalize).bind (·.toOption)).getD c).pool)
    rw [pool_registerSearch]
    exact .refl h.tracks
  | unregisterSearch cid => exact informs_of_no_deeds rfl (.refl h.tracks)
  | tick now => exact informs_of_no_deeds rfl (.refl h.tracks)
  | datagram now octets source =>
    refine informs_of_no_deeds rfl ?_
    rcases h.alive_or_over with ⟨halive, -⟩ | hover
    · simp only [ContextStep.run, receive_of_alive halive]
      exact h.tracks.invalidate _
    · rw [hover.run rfl]
      exact .refl h.tracks
  | connect now client address priority listener =>
    exact h.informs_connect now client address priority listener
  | release n id => exact informs_of_accounts (h.tracks.happen_or_not n (.own (.release id)))
  | disconnect address => exact informs_of_no_deeds rfl (h.tracks.hangUpAll address)
  | happen n step => exact informs_of_accounts (h.tracks.happen_or_not n step)
  | destroy => exact informs_of_no_deeds rfl h.destroy.2.2

theorem sound_run (h : c.Follows log) (step : ContextStep) : (step.run c).2.2.pool.Sound := by
  cases step with
  | registerSearch now cid name penalize =>
    show (((c.registerSearch? now cid name penalize).bind (·.toOption)).getD c).pool.Sound
    rw [pool_registerSearch]
    exact h.sound
  | unregisterSearch cid => exact h.sound
  | tick now => exact h.sound
  | datagram now octets source =>
    rcases h.alive_or_over with ⟨halive, -⟩ | hover
    · simp only [ContextStep.run, receive_of_alive halive]
      exact h.sound.invalidate _
    · rw [hover.run rfl]
      exact h.sound
  | connect now client address priority listener =>
    rcases h.alive_or_over with ⟨halive, -⟩ | hover
    · simp only [ContextStep.run, connect_of_alive halive]
      exact h.sound.connect c.connector now client address priority listener
    · rw [hover.run rfl]
      exact h.sound
  | release n id => exact h.sound.happen n (.own (.release id))
  | disconnect address => exact h.sound.updateAll .hangUp _
  | happen n step => exact h.sound.happen n step
  | destroy => exact h.destroy.2.1

/-- Only its destruction ends a client. -/
theorem alive_or_over_run (h : c.Follows log) (step : ContextStep) :
    ((step.run c).2.2.destroyed = false ∧ (step.run c).2.2.searches.canceled = false) ∨
      (step.run c).2.2.Over := by
  rcases h.alive_or_over with halive | hover
  · cases step with
    | registerSearch now cid name penalize =>
      refine .inl ?_
      simp only [ContextStep.run, registerSearch_of_alive halive.1]
      refine ⟨halive.1, ?_⟩
      exact (SearchManager.canceled_run (.register now cid name penalize)
        fun h => nomatch h).trans halive.2
    | unregisterSearch cid => exact .inl halive
    | tick now =>
      refine .inl ⟨halive.1, ?_⟩
      exact (SearchManager.canceled_run (.tick now) fun h => nomatch h).trans halive.2
    | datagram now octets source =>
      refine .inl ?_
      simp only [ContextStep.run, receive_of_alive halive.1]
      refine ⟨halive.1, ?_⟩
      exact (DiscoveryClient.canceled_handleMessages now source _ _).trans halive.2
    | connect now client address priority listener =>
      refine .inl ?_
      simp only [ContextStep.run, connect_of_alive halive.1]
      exact halive
    | release n id => exact .inl halive
    | disconnect address => exact .inl halive
    | happen n step => exact .inl halive
    | destroy => exact .inr h.destroy.1
  · exact .inr (hover.of_fades (hover.fades_run step))

theorem run (h : c.Follows log) (step : ContextStep) :
    (step.run c).2.2.Follows (log ++ step.deeds c) :=
  ⟨h.sound_run step, (h.informs step).tracks, h.alive_or_over_run step⟩

theorem runAll (h : c.Follows log) (steps : List ContextStep) :
    (ContextStep.runAll steps c).2.2.Follows (log ++ ContextStep.history steps c) := by
  induction steps generalizing c log with
  | nil =>
    rw [ContextStep.history, List.append_nil]
    exact h
  | cons step steps ih =>
    rw [ContextStep.history, ← List.append_assoc]
    exact ih (h.run step)

/-- No connection that there was is forgotten. -/
theorem length_runAll (h : c.Follows log) (steps : List ContextStep) :
    c.pool.transports.length ≤ (ContextStep.runAll steps c).2.2.pool.transports.length := by
  induction steps generalizing c log with
  | nil => exact Nat.le_refl _
  | cons step steps ih => exact (h.informs step).length.trans (ih (h.run step))

/-- A connection that is handed out is one of the pool. -/
theorem handed_lt (h : c.Follows log) {now : Instant} {client : Holder} {address : Endpoint}
    {priority : Int16} {listener : Listener} {n : Nat}
    (hhanded : (c.connect now client address priority listener).1 = .ok n) :
    n < ((ContextStep.connect now client address priority listener).run
      c).2.2.pool.transports.length := by
  rcases h.alive_or_over with ⟨halive, -⟩ | hover
  · rw [connect_of_alive halive] at hhanded
    simp only [ContextStep.run, connect_of_alive halive]
    have hjoins := TransportPool.joins_connect h.tracks c.connector now client address priority
      listener
    exact (hjoins.handed n hhanded).1
  · rw [hover.connect] at hhanded
    cases hhanded

/-- It stays one of the pool. -/
theorem handed_lt_runAll (h : c.Follows log) {now : Instant} {client : Holder} {address : Endpoint}
    {priority : Int16} {listener : Listener} {n : Nat}
    (hhanded : (c.connect now client address priority listener).1 = .ok n)
    (later : List ContextStep) :
    n < (ContextStep.runAll (.connect now client address priority listener :: later)
      c).2.2.pool.transports.length := by
  have hlater := (h.run (.connect now client address priority listener)).length_runAll later
  exact Nat.lt_of_lt_of_le (h.handed_lt hhanded) hlater

/-- A client that has just been started. -/
theorem start (config : Config) (searchAddress : Endpoint) (broadcast : List Endpoint) :
    (ClientContext.start config searchAddress broadcast).Follows [] where
  sound := .empty
  tracks := ⟨List.forall_mem_nil _, fun _ _ h => (nomatch h), fun _ _ => rfl⟩
  alive_or_over := .inl ⟨rfl, rfl⟩

end Follows

/-- What is left of a client that did some steps and was then destroyed, and what is told then. -/
structure LeavesNothing (start : ClientContext) (before : List ContextStep)
    (r : Activity × ClientContext) : Prop where
  /-- Every connection that was ever handed out has ended. -/
  handed : ∀ earlier now client address priority listener later n,
    before = earlier ++ .connect now client address priority listener :: later →
      ((ContextStep.runAll earlier start).2.2.connect now client address priority listener).1 =
        .ok n →
      ∃ t, r.2.pool.transports[n]? = some t ∧ t.Ended
  /-- No other end of a connection is open either. -/
  closed : ∀ t ∈ r.2.pool.transports ++ r.2.pool.abandoned, t.closed = true
  /-- Everybody is told once of each connection that they still hold. -/
  told : ∀ h, r.1.events.count (.closed h) =
    {n | TransportPool.IsOpen (ContextStep.runAll before start).2.2.pool.transports n ∧
      HoldsAfter (TransportPool.lifeOf n (ContextStep.history before start)) h}.ncard
  registry : r.2.pool.registry = {}
  pending : r.2.searches.pending = .empty
  /-- Whatever is done or comes in afterwards, nothing is told, sent or changed any more. -/
  silent : ∀ after, (∀ step ∈ after, step.isLeftover = false) →
    ContextStep.runAll after r.2 = ({}, [], r.2)
  /-- Connections that finish what was under way neither send anything nor come back, and nobody but
  their handler is told anything. -/
  fading : ∀ after, r.2.Fades (ContextStep.runAll after r.2)
  refused : ∀ after now client address priority listener,
    let c := (ContextStep.runAll after r.2).2.2
    c.connect now client address priority listener = (.error .closed, {}, c)
  unsearched : ∀ after now cid name penalize,
    (ContextStep.runAll after r.2).2.2.registerSearch? now cid name penalize =
      some (.error .closed)

theorem Over.not_isOpen (h : c.Over) (n : Nat) : ¬ TransportPool.IsOpen c.pool.transports n := by
  rintro ⟨t, ht, hopen⟩
  have hclosed := (h.ended t (List.mem_of_getElem? ht)).closed
  exact Bool.false_ne_true (hopen.symm.trans hclosed)

theorem Follows.leavesNothing (h : c.Follows []) (before : List ContextStep) :
    LeavesNothing c before (ContextStep.runAll before c).2.2.destroy := by
  have hbefore : (ContextStep.runAll before c).2.2.Follows (ContextStep.history before c) :=
    h.runAll before
  obtain ⟨hover, hsound, haccounts⟩ := hbefore.destroy
  have hlater (after : List ContextStep) := hover.of_fades (hover.fades_runAll after)
  refine ⟨?_, ?_, fun holder => ?_, hover.registry, hover.pending, fun _ => hover.runAll,
    hover.fades_runAll, fun after => (hlater after).connect, fun after =>
      (hlater after).registerSearch⟩
  · rintro earlier now client address priority listener later n rfl hhanded
    have hlt := (h.runAll earlier).handed_lt_runAll hhanded later
    rw [← ContextStep.runAll_append, ← haccounts.length] at hlt
    have ht := List.getElem?_eq_getElem hlt
    exact ⟨_, ht, hover.ended _ (List.mem_of_getElem? ht)⟩
  · intro t ht
    rcases List.mem_append.1 ht with ht | ht
    · exact (hover.ended t ht).closed
    · exact hsound.abandoned t ht
  · rw [haccounts.told]
    simp only [TransportPool.lost, hover.not_isOpen, not_false_iff, true_and]

/-- Destroying a client leaves nothing alive, whatever has happened before.  Until then everybody
has been told in each step of exactly the connections that closed in it while they held them, and
they are now told of those that they still hold. -/
theorem nothing_survives (config : Config) (searchAddress : Endpoint) (broadcast : List Endpoint)
    (before : List ContextStep) :
    let start := ClientContext.start config searchAddress broadcast
    let c := (ContextStep.runAll before start).2.2
    LeavesNothing start before c.destroy ∧
      ∀ earlier step later, before = earlier ++ step :: later →
        let c := (ContextStep.runAll earlier start).2.2
        let r := step.run c
        ∀ h, ¬ step.FailsFor c h → r.1.events.count (.closed h) =
          (TransportPool.lost c.pool.transports r.2.2.pool.transports
            (ContextStep.history (earlier ++ [step]) start) h).ncard := by
  intro start c
  have hstart : start.Follows [] := .start config searchAddress broadcast
  refine ⟨hstart.leavesNothing before, fun earlier step later hbefore => ?_⟩
  intro c' r h hfails
  rw [ContextStep.history_concat]
  exact ((hstart.runAll earlier).informs step).told h hfails

end ClientContext

end PvNet
