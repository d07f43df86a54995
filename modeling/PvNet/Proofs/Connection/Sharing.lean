import PvNet.Proofs.Connection.Connecting
import PvNet.Proofs.Connection.Registration
set_option autoImplicit false

/-!
# Connections that are shared

Whatever the users of a pool and their peers do, the registry has exactly the open
connections of the pool, each under its address and priority, so that there is at most one
for both (`Sound.registered_iff`).  From this follows what getting a connection does: it is
the one that is there, or a new one that is there from then on, or nothing is left of the
attempt (`connections_shared`).
-/

namespace PvNet

/-- What the users of a pool of connections and their peers do. -/
inductive UseStep where
  /-- Somebody gets a connection. -/
  | connect (c : Connector) (now : Instant) (client : Holder) (address : Endpoint)
    (priority : Int16) (listener : Listener)
  /-- Something happens to a connection: it is acquired, released or closed, its peer says something
  or ends it. -/
  | happen (n : Nat) (step : LifeStep)
  /-- Somebody else wants to connect to an address. -/
  | lock (address : Endpoint)
  /-- Somebody else has done so. -/
  | unlock (address : Endpoint)

namespace TransportPool

variable {p : TransportPool} {n m : Nat} {t t' : Transport} {ts : List Transport}
  {client : Holder} {address : Endpoint} {priority : Int16}

def use (p : TransportPool) : UseStep → TransportPool
  | .connect c now client address priority listener =>
    (p.connect c now client address priority listener).2.2
  | .happen n step => (p.update n fun t => step.run t).2
  | .lock address => { p with locks := (p.locks.acquire address).2 }
  | .unlock address => { p with locks := p.locks.release address }

def useAll : List UseStep → TransportPool → TransportPool
  | [], p => p
  | s :: steps, p => useAll steps (p.use s)

/-- Whatever happens to a transport that has closed, the registry stays as it is. -/
theorem update_of_closed (ht : p.transports[n]? = some t) (hclosed : t.closed = true)
    (f : Transport → Activity × Transport) :
    p.update n f = ((f t).1, { p with transports := p.transports.set n (f t).2 }) := by
  rw [update_of_some ht, if_neg (by simp [hclosed])]

/-! ## Open connections -/

/-- A transport is open and connects to an address with a priority. -/
def OpenAt (ts : List Transport) (n : Nat) (address : Endpoint) (priority : Int16) : Prop :=
  ∃ t, ts[n]? = some t ∧ t.closed = false ∧ t.remote = address ∧ t.priority = priority

theorem openAt_set_of_open (ht : ts[n]? = some t) (hsame : t.SameEnd t') (hopen : t.closed = false)
    (hopen' : t'.closed = false) :
    OpenAt (ts.set n t') m address priority ↔ OpenAt ts m address priority := by
  obtain ⟨hlt, -⟩ := List.getElem?_eq_some_iff.1 ht
  unfold OpenAt
  by_cases hm : n = m
  · subst hm
    rw [List.getElem?_set_self hlt, ht]
    simp only [Option.some.injEq, exists_eq_left', hopen, hopen', hsame.remote, hsame.priority]
  · rw [List.getElem?_set_ne hm]

theorem openAt_set_of_closed (ht : ts[n]? = some t) (hclosed : t'.closed = true) :
    OpenAt (ts.set n t') m address priority ↔ m ≠ n ∧ OpenAt ts m address priority := by
  obtain ⟨hlt, -⟩ := List.getElem?_eq_some_iff.1 ht
  unfold OpenAt
  by_cases hm : n = m
  · subst hm
    rw [List.getElem?_set_self hlt]
    simp [hclosed]
  · rw [List.getElem?_set_ne hm]
    simp [Ne.symm hm]

/-- A transport that has closed stays closed. -/
theorem openAt_set_of_both_closed (ht : ts[n]? = some t) (hclosed : t.closed = true)
    (hclosed' : t'.closed = true) :
    OpenAt (ts.set n t') m address priority ↔ OpenAt ts m address priority := by
  rw [openAt_set_of_closed ht hclosed']
  refine and_iff_right_of_imp ?_
  rintro ⟨u, hu, hopen, -⟩ rfl
  rw [ht] at hu
  cases hu
  exact Bool.false_ne_true (hopen.symm.trans hclosed)

theorem openAt_concat (hopen : t.closed = false) :
    OpenAt (ts ++ [t]) m address priority ↔
      OpenAt ts m address priority ∨
        (m = ts.length ∧ t.remote = address ∧ t.priority = priority) := by
  unfold OpenAt
  rcases Nat.lt_trichotomy m ts.length with hlt | rfl | hlt
  · rw [List.getElem?_append_left hlt]
    simp [Nat.ne_of_lt hlt]
  · rw [List.getElem?_concat_length, List.getElem?_eq_none (Nat.le_refl _)]
    simp [hopen]
  · rw [List.getElem?_eq_none (by simp; omega), List.getElem?_eq_none (Nat.le_of_lt hlt)]
    simp [Nat.ne_of_gt hlt]

/-- What holds of a pool at all times. -/
structure Sound (p : TransportPool) : Prop where
  /-- The registry has the open connections, and no others. -/
  registered_iff : ∀ address priority n,
    p.registry.get? address priority = some n ↔ OpenAt p.transports n address priority
  opened_or_ended : ∀ t ∈ p.transports, t.closed = false ∨ t.Ended
  /-- No connection is open that was not handed out. -/
  abandoned : ∀ t ∈ p.abandoned, t.closed = true
  locks : p.locks.Sound

namespace Sound

theorem empty : ({} : TransportPool).Sound where
  registered_iff address priority n := by
    refine iff_of_false (fun h => nomatch h) ?_
    rintro ⟨t, ht, -⟩
    cases ht
  opened_or_ended t h := nomatch h
  abandoned t h := nomatch h
  locks := LockTable.sound_empty

/-- A transport that changes without closing. -/
theorem set (h : p.Sound) (ht : p.transports[n]? = some t) (hsame : t.SameEnd t')
    (hopen : t.closed = false) (hopen' : t'.closed = false) :
    { p with transports := p.transports.set n t' }.Sound where
  registered_iff address priority m :=
    (h.registered_iff address priority m).trans (openAt_set_of_open ht hsame hopen hopen').symm
  opened_or_ended u hu := by
    rcases List.mem_or_eq_of_mem_set hu with hu | rfl
    · exact h.opened_or_ended u hu
    · exact .inl hopen'
  abandoned := h.abandoned
  locks := h.locks

/-- A transport that closes is taken out of the registry. -/
theorem remove (h : p.Sound) (ht : p.transports[n]? = some t) (hsame : t.SameEnd t')
    (hopen : t.closed = false) (hended : t'.Ended) :
    { p with
      transports := p.transports.set n t'
      registry := (p.registry.remove t'.remote t'.priority n).2 }.Sound where
  registered_iff address priority m := by
    have hplace : p.registry.get? t'.remote t'.priority = some n :=
      (h.registered_iff _ _ n).2 ⟨t, ht, hopen, hsame.remote.symm, hsame.priority.symm⟩
    rw [openAt_set_of_closed ht hended.closed, ← h.registered_iff]
    show (p.registry.remove t'.remote t'.priority n).2.get? address priority = some m ↔ _
    rw [Registry.get?_remove]
    by_cases hkey : t'.remote = address ∧ t'.priority = priority
    · obtain ⟨rfl, rfl⟩ := hkey
      rw [if_pos ⟨rfl, rfl, hplace⟩, hplace]
      refine iff_of_false (fun h => nomatch h) ?_
      rintro ⟨hne, hm⟩
      exact hne (Option.some.inj hm).symm
    · rw [if_neg fun h => hkey ⟨h.1, h.2.1⟩]
      refine ⟨fun hm => ⟨?_, hm⟩, fun hm => hm.2⟩
      rintro rfl
      obtain ⟨u, hu, -, rfl, rfl⟩ := (h.registered_iff _ _ m).1 hm
      rw [ht] at hu
      cases hu
      exact hkey ⟨hsame.remote, hsame.priority⟩
  opened_or_ended u hu := by
    rcases List.mem_or_eq_of_mem_set hu with hu | rfl
    · exact h.opened_or_ended u hu
    · exact .inr hended
  abandoned := h.abandoned
  locks := h.locks

/-- A transport that has closed changes. -/
theorem setEnded (h : p.Sound) (ht : p.transports[n]? = some t) (hclosed : t.closed = true)
    (hended : t'.Ended) : { p with transports := p.transports.set n t' }.Sound where
  registered_iff address priority m := (h.registered_iff address priority m).trans
    (openAt_set_of_both_closed ht hclosed hended.closed).symm
  opened_or_ended u hu := by
    rcases List.mem_or_eq_of_mem_set hu with hu | rfl
    · exact h.opened_or_ended u hu
    · exact .inr hended
  abandoned := h.abandoned
  locks := h.locks

/-- Whatever happens to a transport of the pool. -/
theorem happen (h : p.Sound) (n : Nat) (step : LifeStep) :
    (p.update n fun t => step.run t).2.Sound := by
  cases ht : p.transports[n]? with
  | none =>
    rw [update_of_none ht]
    exact h
  | some t =>
    rcases h.opened_or_ended t (List.mem_of_getElem? ht) with hopen | hended
    · rw [update_of_some ht]
      have hlived := (Transport.lasts_life hopen step).lived
      rcases hlived.opened_or_ended with hopen' | hended
      · rw [if_neg (by simp [hopen'])]
        exact h.set ht hlived.sameEnd hopen hopen'
      · rw [if_pos ⟨by simp [hopen], hended.closed⟩]
        exact h.remove ht hlived.sameEnd hopen hended
    · rw [update_of_closed ht hended.closed]
      exact h.setEnded ht hended.closed (hended.fades_life step).ended

/-- Where no connection is handed out again, none is registered. -/
theorem get?_eq_none (h : p.Sound) (hreuse : p.reuse? client address priority = none) :
    p.registry.get? address priority = none := by
  cases hregistered : p.registry.get? address priority with
  | none => rfl
  | some n =>
    obtain ⟨t, ht, hopen, -⟩ := (h.registered_iff _ _ n).1 hregistered
    rw [reuse?_of_open client hregistered ht hopen] at hreuse
    cases hreuse

/-- A connection that is new. -/
theorem opened (h : p.Sound) (hnone : p.registry.get? t.remote t.priority = none)
    (hopen : t.closed = false) {locks : LockTable Endpoint} (hlocks : locks.Sound) :
    { p with
      transports := p.transports ++ [t]
      registry := (p.registry.put t.remote t.priority p.transports.length).2
      locks }.Sound where
  registered_iff address priority m := by
    show (p.registry.put t.remote t.priority p.transports.length).2.get? address priority = _ ↔ _
    rw [openAt_concat hopen, Registry.get?_put, ← h.registered_iff]
    by_cases hkey : t.remote = address ∧ t.priority = priority
    · rw [if_pos hkey, ← hkey.1, ← hkey.2, hnone]
      simp [eq_comm]
    · rw [if_neg hkey]
      simp [hkey]
  opened_or_ended u hu := by
    rcases List.mem_append.1 hu with hu | hu
    · exact h.opened_or_ended u hu
    · rw [List.mem_singleton.1 hu]
      exact .inl hopen
  abandoned := h.abandoned
  locks := hlocks

/-- A connection that failed. -/
theorem failed (h : p.Sound) {ends : List Transport} {registry : Registry Nat}
    {locks : LockTable Endpoint} (hends : ∀ t ∈ ends, t.closed = true)
    (hregistry : ∀ address priority,
      registry.get? address priority = p.registry.get? address priority)
    (hlocks : locks.Sound) :
    { p with abandoned := p.abandoned ++ ends, registry, locks }.Sound where
  registered_iff address priority m := by
    show registry.get? address priority = some m ↔ _
    rw [hregistry]
    exact h.registered_iff address priority m
  opened_or_ended := h.opened_or_ended
  abandoned t ht := (List.mem_append.1 ht).elim (h.abandoned t) (hends t)
  locks := hlocks

/-- What was registered at a free place, if anything was, is not there any more. -/
theorem get?_of_undone (h : p.Sound) (hreuse : p.reuse? client address priority = none)
    {registry : Registry Nat}
    (hregistry : registry = p.registry ∨
      registry = ((p.registry.put address priority n).2.remove address priority n).2)
    (address' : Endpoint) (priority' : Int16) :
    registry.get? address' priority' = p.registry.get? address' priority' := by
  rcases hregistry with rfl | rfl
  · rfl
  · exact Registry.get?_remove_put _ _ _ _ _ _ (h.get?_eq_none hreuse)

theorem connect (h : p.Sound) (c : Connector) (now : Instant) (client : Holder)
    (address : Endpoint) (priority : Int16) (listener : Listener) :
    (p.connect c now client address priority listener).2.2.Sound := by
  have hconnects := connects_connect p c now client address priority listener
  generalize p.connect c now client address priority listener = r at hconnects ⊢
  cases hconnects with
  | reused n t hregistered ht hopen =>
    have hgoes := Transport.goes_acquire hopen client
    exact h.set ht hgoes.sameEnd hopen hgoes.opened
  | opened t activity locks hreuse hopen hverified hremote hpriority hheld hspared hlocks =>
    subst hremote hpriority
    exact h.opened (h.get?_eq_none hreuse) hopen (h.locks.settled hlocks)
  | failed e activity ends registry locks hreuse hends hregistry htold hlocks =>
    exact h.failed hends (h.get?_of_undone hreuse hregistry) (h.locks.settled hlocks)

theorem use (h : p.Sound) (step : UseStep) : (p.use step).Sound := by
  cases step with
  | connect c now client address priority listener =>
    exact h.connect c now client address priority listener
  | happen n step => exact h.happen n step
  | lock address =>
    exact ⟨h.registered_iff, h.opened_or_ended, h.abandoned, h.locks.acquire address⟩
  | unlock address =>
    exact ⟨h.registered_iff, h.opened_or_ended, h.abandoned, h.locks.release address⟩

theorem useAll (h : p.Sound) (steps : List UseStep) : (TransportPool.useAll steps p).Sound := by
  induction steps generalizing p with
  | nil => exact h
  | cons step steps ih => exact ih (h.use step)

end Sound

/-! ## One connection of the pool -/

/-- A transport keeps its peer and its priority when something is done to one of them. -/
theorem exists_sameEnd_set {u u' : Transport} (ht : ts[n]? = some t) (hu : ts[m]? = some u)
    (hsame : u.SameEnd u') : ∃ t', (ts.set m u')[n]? = some t' ∧ t.SameEnd t' := by
  by_cases hm : m = n
  · subst hm
    rw [ht] at hu
    cases hu
    obtain ⟨hlt, -⟩ := List.getElem?_eq_some_iff.1 ht
    exact ⟨u', List.getElem?_set_self hlt, hsame⟩
  · rw [List.getElem?_set_ne hm]
    exact ⟨t, ht, .refl t⟩

theorem Sound.exists_sameEnd_use (h : p.Sound) (ht : p.transports[n]? = some t) (step : UseStep) :
    ∃ t', (p.use step).transports[n]? = some t' ∧ t.SameEnd t' := by
  cases step with
  | connect c now client address priority listener =>
    have hconnects := connects_connect p c now client address priority listener
    show ∃ t', (p.connect c now client address priority listener).2.2.transports[n]? = some t' ∧ _
    generalize p.connect c now client address priority listener = r at hconnects ⊢
    cases hconnects with
    | reused m u hregistered hu hopen =>
      exact exists_sameEnd_set ht hu (Transport.goes_acquire hopen client).sameEnd
    | opened u activity locks hreuse hopen hverified hremote hpriority hheld hspared hlocks =>
      obtain ⟨hlt, -⟩ := List.getElem?_eq_some_iff.1 ht
      exact ⟨t, (List.getElem?_append_left hlt).trans ht, .refl t⟩
    | failed e activity ends registry locks hreuse hends hregistry htold hlocks =>
      exact ⟨t, ht, .refl t⟩
  | happen m step =>
    show ∃ t', (p.update m fun t => step.run t).2.transports[n]? = some t' ∧ _
    by_cases hm : m = n
    · subst hm
      have halive := h.opened_or_ended t (List.mem_of_getElem? ht)
      exact ⟨_, transports_update_self ht, (Transport.lived_life halive step).sameEnd⟩
    · exact ⟨t, (transports_update_of_ne hm).trans ht, .refl t⟩
  | lock address => exact ⟨t, ht, .refl t⟩
  | unlock address => exact ⟨t, ht, .refl t⟩

theorem Sound.exists_sameEnd_useAll (h : p.Sound) (ht : p.transports[n]? = some t)
    (steps : List UseStep) :
    ∃ t', (TransportPool.useAll steps p).transports[n]? = some t' ∧ t.SameEnd t' := by
  induction steps generalizing p t with
  | nil => exact ⟨t, ht, .refl t⟩
  | cons step steps ih =>
    obtain ⟨t', ht', hsame⟩ := h.exists_sameEnd_use ht step
    obtain ⟨t'', ht'', hsame'⟩ := ih (h.use step) ht'
    exact ⟨t'', ht'', hsame.trans hsame'⟩

/-- An open connection of the pool is handed out to everybody who wants to connect there. -/
theorem Sound.connect_of_open (h : p.Sound) (ht : p.transports[n]? = some t)
    (hopen : t.closed = false) (c : Connector) (now : Instant) (client : Holder)
    (listener : Listener) :
    p.connect c now client t.remote t.priority listener =
      (.ok n, {}, { p with transports := p.transports.set n (t.acquire client).2 }) := by
  have hregistered : p.registry.get? t.remote t.priority = some n :=
    (h.registered_iff _ _ n).2 ⟨t, ht, hopen, rfl, rfl⟩
  simp only [TransportPool.connect, reuse?_of_open client hregistered ht hopen]

/-! ## Getting a connection -/

/-- What is left of an attempt to get a connection. -/
structure ConnectOutcome (p : TransportPool) (client : Holder) (address : Endpoint)
    (priority : Int16) (r : Except Error Nat × Activity × TransportPool) : Prop where
  /-- The connection that is handed out is open and registered, and the client holds it. -/
  handed : ∀ n, r.1 = .ok n →
    r.2.2.registry.get? address priority = some n ∧
      ∃ t, r.2.2.transports[n]? = some t ∧ t.closed = false ∧
        t.holders.get? client.id = some client
  /-- A failure changes neither the connections, with whoever holds them, nor the registry. -/
  undone : ∀ e, r.1 = .error e →
    r.2.2.transports = p.transports ∧
      ∀ address priority, r.2.2.registry.get? address priority =
        p.registry.get? address priority
  /-- A connection that is not handed out is closed. -/
  abandoned : ∀ t ∈ r.2.2.abandoned, t.closed = true
  locks : p.locks.Same r.2.2.locks

theorem Sound.connectOutcome_connect (h : p.Sound) (c : Connector) (now : Instant) (client : Holder)
    (address : Endpoint) (priority : Int16) (listener : Listener) :
    p.ConnectOutcome client address priority
      (p.connect c now client address priority listener) := by
  have hsound := h.connect c now client address priority listener
  have hconnects := connects_connect p c now client address priority listener
  generalize p.connect c now client address priority listener = r at hsound hconnects ⊢
  cases hconnects with
  | reused n t hregistered ht hopen =>
    obtain ⟨hlt, -⟩ := List.getElem?_eq_some_iff.1 ht
    have hgoes := Transport.goes_acquire hopen client
    refine ⟨fun n' hn' => ?_, fun e he => (nomatch he), hsound.abandoned, ⟨fun _ => rfl, rfl⟩⟩
    cases hn'
    refine ⟨hregistered, _, List.getElem?_set_self hlt, hgoes.opened, ?_⟩
    rw [hgoes.holders, Table.get?_put, if_pos rfl]
  | opened t activity locks hreuse hopen hverified hremote hpriority hheld hspared hlocks =>
    refine ⟨fun n' hn' => ?_, fun e he => (nomatch he), hsound.abandoned,
      h.locks.same_of_settled hlocks⟩
    cases hn'
    refine ⟨?_, t, List.getElem?_concat_length, hopen, ?_⟩
    · show (p.registry.put address priority p.transports.length).2.get? address priority = _
      rw [Registry.get?_put, if_pos ⟨rfl, rfl⟩]
    · rw [hheld, Table.get?_put, if_pos rfl]
  | failed e activity ends registry locks hreuse hends hregistry htold hlocks =>
    exact ⟨fun n' hn' => (nomatch hn'), fun _ _ => ⟨rfl, h.get?_of_undone hreuse hregistry⟩,
      hsound.abandoned, h.locks.same_of_settled hlocks⟩

/-- Whatever has happened to a pool, its registry has exactly the open connections, and no other end
is open.  Getting a connection leaves it open, registered and held, or leaves everything as it was;
and as long as it is open, everybody else who wants to connect there gets the same one, and
nothing is opened. -/
theorem connections_shared (steps : List UseStep) (c : Connector) (now : Instant)
    (client : Holder) (address : Endpoint) (priority : Int16) (listener : Listener) :
    let p := useAll steps {}
    let r := p.connect c now client address priority listener
    ((∀ address priority n, p.registry.get? address priority = some n ↔
        OpenAt p.transports n address priority) ∧ ∀ t ∈ p.abandoned, t.closed = true) ∧
      p.ConnectOutcome client address priority r ∧
      ∀ n, r.1 = .ok n → ∀ (between : List UseStep) (t : Transport),
        let q := useAll between r.2.2
        q.transports[n]? = some t → t.closed = false →
          ∀ (c : Connector) (now : Instant) (client : Holder) (listener : Listener),
            q.connect c now client address priority listener =
              (.ok n, {}, { q with transports := q.transports.set n (t.acquire client).2 }) := by
  intro p r
  have hsound : p.Sound := Sound.empty.useAll steps
  have hsound' : r.2.2.Sound := hsound.connect c now client address priority listener
  have houtcome := hsound.connectOutcome_connect c now client address priority listener
  refine ⟨⟨hsound.registered_iff, hsound.abandoned⟩, houtcome, ?_⟩
  intro n hn between t q ht hopen c' now' client' listener'
  obtain ⟨hregistered, -⟩ := houtcome.handed n hn
  obtain ⟨before, hbefore, -, rfl, rfl⟩ := (hsound'.registered_iff _ _ n).1 hregistered
  obtain ⟨after, hafter, hsame⟩ := hsound'.exists_sameEnd_useAll hbefore between
  have ht' : q.transports[n]? = some after := hafter
  rw [ht] at ht'
  cases ht'
  rw [← hsame.remote, ← hsame.priority]
  exact (hsound'.useAll between).connect_of_open ht hopen c' now' client' listener'

/-- Somebody who finds the address locked does not get a connection, the next one does, and it is
handed on although nobody listens there any more. -/
theorem connection_handed_on :
    let p := useAll [.lock (.any 0), .connect {} 0 ⟨7, 0⟩ (.any 0) 0 (.serving {}),
      .unlock (.any 0)] {}
    let first := p.connect {} 0 ⟨1, 0⟩ (.any 0) 0 (.serving {})
    let q := useAll [.happen 0 (.own (.acquire ⟨2, 0⟩)), .happen 0 (.own (.release 1))] first.2.2
    let second := q.connect {} 0 ⟨3, 0⟩ (.any 0) 0 (.refusing Listener.nobody)
    first.1 = .ok 0 ∧ second.1 = .ok 0 ∧ second.2.1 = {} ∧
      second.2.2.transports.length = q.transports.length := by
  intro p first q second
  have hadmits : ({} : Connector).transport.Admits {} := ⟨by decide, by decide, by decide⟩
  have hfirst : first = _ := connect_serving (p := p) hadmits rfl rfl 0
  have hresult : first.1 = .ok 0 := by
    rw [hfirst]
    rfl
  obtain ⟨-, -, hshared⟩ := connections_shared [.lock (.any 0), .connect {} 0 ⟨7, 0⟩ (.any 0) 0
    (.serving {}), .unlock (.any 0)] {} 0 ⟨1, 0⟩ (.any 0) 0 (.serving {})
  have hq : (q.transports[0]?).map (·.closed) = some false := by
    show ((useAll _ first.2.2).transports[0]?).map _ = _
    rw [hfirst]
    rfl
  obtain ⟨t, ht, hopen⟩ := Option.map_eq_some_iff.1 hq
  have hsecond : second =
      (.ok 0, {}, { q with transports := q.transports.set 0 (t.acquire _).2 }) :=
    hshared 0 hresult _ t ht hopen {} 0 ⟨3, 0⟩ (.refusing Listener.nobody)
  rw [hsecond]
  exact ⟨hresult, rfl, rfl, List.length_set⟩

end TransportPool

end PvNet
