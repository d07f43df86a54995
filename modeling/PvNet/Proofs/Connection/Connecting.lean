import PvNet.Connection.Pool
import PvNet.Proofs.Connection.Attempts
import PvNet.Proofs.Connection.Lifetime
import PvNet.Proofs.Connection.Locking
import PvNet.Proofs.Connection.Meeting
set_option autoImplicit false

/-!
# Getting a connection

`TransportPool.connect` hands out the open connection that is registered for an address and
a priority, or it opens one, or it fails.  `Connects` says what the pool is afterwards in
each case: a failure leaves at most ends behind that are closed, and a free place in the
registry free.
-/

namespace PvNet

/-! ## Meeting whatever listens -/

/-- The peer says something or ends the connection. -/
inductive LifeStep.IsPeers : LifeStep → Prop where
  | octets (now : Instant) (octets : Bytes) : IsPeers (.octets now octets)
  | hangUp : IsPeers .hangUp

namespace Transport

variable {t : Transport}

theorem untold_close (hfree : t.holders = .empty) (h : Holder) :
    TransportEvent.closed h ∉ t.close.1.events := by
  unfold close
  cases t.closed with
  | true => exact List.not_mem_nil
  | false =>
    rw [if_neg Bool.false_ne_true, hfree]
    exact List.not_mem_nil

/-- A transport that nobody holds tells nobody that it closed. -/
theorem Lasts.untold {r : Activity × Transport} (h : t.Lasts .empty r) :
    r.2.holders = .empty ∧ ∀ holder, TransportEvent.closed holder ∉ r.1.events := by
  cases h with
  | goes h => exact ⟨h.holders, h.spared⟩
  | @ends activity t' r h hfades =>
    refine ⟨hfades.ended.holders, fun holder hmem => ?_⟩
    rw [Activity.events_append, List.mem_append, Activity.events_append, List.mem_append] at hmem
    rcases hmem with (hmem | hmem) | hmem
    · exact h.spared holder hmem
    · exact untold_close h.holders holder hmem
    · exact hfades.spared holder hmem

/-- What the peer does to a transport that nobody holds is told to nobody. -/
theorem untold_live (halive : t.closed = false ∨ t.Ended) (hfree : t.holders = .empty)
    {steps : List LifeStep} (hsteps : ∀ step ∈ steps, step.IsPeers) :
    (live steps t).2.holders = .empty ∧
      ∀ holder, TransportEvent.closed holder ∉ (live steps t).1.events := by
  induction steps generalizing t with
  | nil => exact ⟨hfree, fun holder => List.not_mem_nil⟩
  | cons step steps ih =>
    obtain ⟨hstep, hrest⟩ := List.forall_mem_cons.1 hsteps
    rcases halive with hopen | hended
    · have hlasts := lasts_life hopen step
      have hkept : step.holdersAfter t.holders = .empty := by
        cases hstep with
        | octets => exact hfree
        | hangUp => exact hfree
      rw [hkept] at hlasts
      obtain ⟨hfree', hspared⟩ := hlasts.untold
      obtain ⟨hlast, hspared'⟩ := ih hlasts.lived.opened_or_ended hfree' hrest
      refine ⟨hlast, fun holder hmem => ?_⟩
      rw [live_cons, Activity.events_append, List.mem_append] at hmem
      exact hmem.elim (hspared holder) (hspared' holder)
    · have hfades := hended.fades_live (step :: steps)
      exact ⟨hfades.ended.holders, hfades.spared⟩

end Transport

namespace Listener

variable {t : Transport}

theorem exists_receive_eq (now : Instant) (octets : Bytes) (hungUp : Bool) (t : Transport) :
    ∃ steps : List LifeStep, (∀ step ∈ steps, step.IsPeers) ∧
      (if hungUp then t.receiveLast now octets else t.receiveOctets now octets) =
        Transport.live steps t := by
  cases hungUp with
  | true =>
    refine ⟨[.octets now octets, .hangUp], ?_, ?_⟩
    · exact List.forall_mem_cons.2 ⟨.octets .., List.forall_mem_singleton.2 .hangUp⟩
    · simp only [Transport.live, Activity.append_empty]
      rfl
  | false =>
    refine ⟨[.octets now octets], List.forall_mem_singleton.2 (.octets ..), ?_⟩
    simp only [Transport.live, Activity.append_empty]
    rfl

/-- Meeting a listener is receiving octets and perhaps the end of the connection; of what the
transport does, only the last part shows. -/
theorem exists_meet_eq (l : Listener) (now : Instant) (t : Transport) :
    ∃ before behind : List LifeStep, (∀ step ∈ before ++ behind, step.IsPeers) ∧
      l.meet now t = Transport.live behind (Transport.live before t).2 := by
  have hvalidate (server : Transport) :
      ∃ before behind : List LifeStep, (∀ step ∈ before ++ behind, step.IsPeers) ∧
        validate now t server = Transport.live behind (Transport.live before t).2 := by
    let greeted := deliver now server.flush.1 server.flush.2.closed t
    let judged := deliver now greeted.1 greeted.2.closed server.flush.2
    obtain ⟨before, hbefore, hgreeted⟩ :=
      exists_receive_eq now server.flush.1.octets server.flush.2.closed t
    obtain ⟨behind, hbehind, hlast⟩ :=
      exists_receive_eq now judged.1.octets judged.2.closed greeted.2
    refine ⟨before, behind, List.forall_mem_append.2 ⟨hbefore, hbehind⟩, ?_⟩
    rw [← hgreeted]
    exact hlast
  cases l with
  | refusing | unusable | silent => exact ⟨[], [], List.forall_mem_nil _, rfl⟩
  | saying octets =>
    obtain ⟨steps, hsteps, hsaid⟩ := exists_receive_eq now octets false t
    exact ⟨[], steps, hsteps, hsaid⟩
  | rude octets =>
    obtain ⟨steps, hsteps, hsaid⟩ := exists_receive_eq now octets true t
    exact ⟨[], steps, hsteps, hsaid⟩
  | serving config | leaving config => exact hvalidate (.server (.any 0) config none)

theorem lived_meet (l : Listener) (now : Instant) (hopen : t.closed = false) :
    t.Lived (l.meet now t).2 := by
  obtain ⟨before, behind, -, hmeet⟩ := l.exists_meet_eq now t
  have hlived := Transport.lived_live (.inl hopen) (before ++ behind)
  rwa [Transport.live_append, ← hmeet] at hlived

/-- Nobody is told of what happens before a connection is held. -/
theorem untold_meet (l : Listener) (now : Instant) (hopen : t.closed = false)
    (hfree : t.holders = .empty) :
    (l.meet now t).2.holders = .empty ∧
      ∀ holder, TransportEvent.closed holder ∉ (l.meet now t).1.events := by
  obtain ⟨before, behind, hsteps, hmeet⟩ := l.exists_meet_eq now t
  obtain ⟨hbefore, hbehind⟩ := List.forall_mem_append.1 hsteps
  rw [hmeet]
  exact Transport.untold_live (Transport.lived_live (.inl hopen) before).opened_or_ended
    (Transport.untold_live (.inl hopen) hfree hbefore).1 hbehind

end Listener

/-! ## The pool -/

namespace TransportPool

variable {p : TransportPool} {n : Nat} {t : Transport} {client : Holder} {address : Endpoint}
  {priority : Int16}

/-- The connection that is registered is handed out if it is open. -/
theorem reuse?_eq (p : TransportPool) (client : Holder) (address : Endpoint) (priority : Int16) :
    p.reuse? client address priority =
      (p.registry.get? address priority).bind fun n =>
        (p.transports[n]?).bind fun t =>
          if t.closed then none
          else some (n, { p with transports := p.transports.set n (t.acquire client).2 }) := by
  unfold reuse?
  cases p.registry.get? address priority with
  | none => rfl
  | some n =>
    show ((p.transports[n]?).bind _) = ((p.transports[n]?).bind _)
    cases p.transports[n]? with
    | none => rfl
    | some t =>
      cases hclosed : t.closed with
      | true =>
        have hacquire : t.acquire client = (false, t) := if_pos hclosed
        simp only [Option.bind_some, hacquire, hclosed, if_true]
      | false =>
        have hacquire : t.acquire client = (true, (t.acquire client).2) := by
          unfold Transport.acquire
          rw [if_neg (by simp [hclosed])]
        simp only [Option.bind_some, hclosed, Bool.false_eq_true, if_false]
        rw [hacquire]
        rfl

/-- A connection that is handed out again is an open one of the pool, with one more holder. -/
theorem exists_of_reuse? {p' : TransportPool} (h : p.reuse? client address priority = some (n, p')) :
    p.registry.get? address priority = some n ∧
      ∃ t, p.transports[n]? = some t ∧ t.closed = false ∧
        p' = { p with transports := p.transports.set n (t.acquire client).2 } := by
  rw [reuse?_eq] at h
  obtain ⟨k, hregistered, h⟩ := Option.bind_eq_some_iff.1 h
  obtain ⟨t, ht, h⟩ := Option.bind_eq_some_iff.1 h
  cases hclosed : t.closed with
  | true =>
    rw [if_pos hclosed] at h
    cases h
  | false =>
    rw [if_neg (by simp [hclosed])] at h
    cases h
    exact ⟨hregistered, t, ht, hclosed, rfl⟩

theorem reuse?_of_open (client : Holder) (hregistered : p.registry.get? address priority = some n)
    (ht : p.transports[n]? = some t) (hopen : t.closed = false) :
    p.reuse? client address priority =
      some (n, { p with transports := p.transports.set n (t.acquire client).2 }) := by
  rw [reuse?_eq, hregistered, Option.bind_some, ht, Option.bind_some, if_neg (by simp [hopen])]

/-- Whether a connection is handed out again does not depend on the locks. -/
theorem reuse?_locks_eq_none (h : p.reuse? client address priority = none)
    (locks : LockTable Endpoint) :
    { p with locks }.reuse? client address priority = none := by
  cases hreuse : { p with locks }.reuse? client address priority with
  | none => rfl
  | some reused =>
    obtain ⟨n, p'⟩ := reused
    obtain ⟨hregistered, t, ht, hopen, -⟩ := exists_of_reuse? hreuse
    have hreused : p.reuse? client address priority = some _ :=
      reuse?_of_open (p := p) client hregistered ht hopen
    rw [hreused] at h
    cases h

/-- What opening a connection comes to: one more transport, which is open, verified, held by the
client alone and registered, or a failure, of which nobody but the client is told. -/
inductive Opens (p : TransportPool) (client : Holder) (address : Endpoint) (priority : Int16) :
    Except ConnectFailure Nat × Activity × TransportPool → Prop where
  | opened (t : Transport) (activity : Activity) (hopen : t.closed = false)
    (hverified : t.verification = .verified) (hremote : t.remote = address)
    (hpriority : t.priority = priority) (hheld : t.holders = Table.empty.put client.id client)
    (hspared : ∀ h, TransportEvent.closed h ∉ activity.events) :
    Opens p client address priority
      (.ok p.transports.length, activity,
        { p with
          transports := p.transports ++ [t]
          registry := (p.registry.put address priority p.transports.length).2 })
  | failed (e : ConnectFailure) (activity : Activity) (ends : List Transport)
    (registry : Registry Nat) (hends : ∀ t ∈ ends, t.closed = true)
    (hregistry : registry = p.registry ∨
      registry = ((p.registry.put address priority p.transports.length).2.remove address priority
        p.transports.length).2)
    (htold : ∀ h, TransportEvent.closed h ∈ activity.events → h = client) :
    Opens p client address priority
      (.error e, activity, { p with abandoned := p.abandoned ++ ends, registry })

theorem verified_of_failure?_eq_none {waited : Duration} (h : t.failure? waited = none) :
    t.verification = .verified := by
  unfold Transport.failure? at h
  cases hstate : t.verification with
  | verified => rfl
  | failed reason =>
    rw [hstate] at h
    cases h
  | pending =>
    rw [hstate] at h
    cases h

theorem opens_of_abandoned (e : ConnectFailure) {activity : Activity} (hclosed : t.closed = true)
    (hspared : ∀ h, TransportEvent.closed h ∉ activity.events) :
    p.Opens client address priority (.error e, activity, p.abandon t) :=
  .failed e activity [t] p.registry (List.forall_mem_singleton.2 hclosed) (.inl rfl)
    fun h hmem => absurd hmem (hspared h)

/-- Only a verified transport is handed out, and every other one that was opened is closed. -/
theorem opens_openTransport (p : TransportPool) (c : Connector) (now : Instant) (client : Holder)
    (address : Endpoint) (priority : Int16) (listener : Listener) :
    p.Opens client address priority
      (p.openTransport c now client address priority listener) := by
  cases hrefusal : listener.refusal? with
  | some cause =>
    have hdialled : (Dialing.run c.config address fun _ => (.error cause : Except IoError Unit)).result =
        .error cause := Dialing.result_run_of_const c.config address
    have hnone : { p with abandoned := p.abandoned ++ [] } = p := by
      rw [List.append_nil]
    have hfailed : p.Opens client address priority
        (.error (.connect cause), {}, { p with abandoned := p.abandoned ++ [] }) :=
      .failed _ _ [] p.registry (List.forall_mem_nil _) (.inl rfl) fun h hmem => (nomatch hmem)
    simp only [openTransport, hrefusal, hdialled]
    rwa [hnone] at hfailed
  | none =>
    have hdialled : (Dialing.run c.config address fun _ => (.ok () : Except IoError Unit)).result =
        .ok () := Dialing.result_run_of_const c.config address
    cases hsetup : listener.setupFailure? with
    | some cause =>
      simp only [openTransport, hrefusal, hdialled, hsetup]
      exact opens_of_abandoned _ (Transport.closed_close _) fun h => List.not_mem_nil
    | none =>
      have hlived := listener.lived_meet now
        (t := .client address priority c.transport c.handler) rfl
      have huntold := listener.untold_meet now
        (t := .client address priority c.transport c.handler) rfl rfl
      rcases hmeet : listener.meet now (.client address priority c.transport c.handler) with
        ⟨activity, t⟩
      rw [hmeet] at hlived huntold
      obtain ⟨hfree, hspared⟩ := huntold
      have hremote : t.remote = address := hlived.sameEnd.remote
      have hpriority : t.priority = priority := hlived.sameEnd.priority
      cases hfailure : t.failure? c.config.verificationTimeout with
      | some failure =>
        simp only [openTransport, hrefusal, hdialled, hsetup, hmeet, hfailure]
        refine opens_of_abandoned _ (Transport.closed_close _) fun h hmem => ?_
        rw [Activity.events_append] at hmem
        exact (List.mem_append.1 hmem).elim (hspared h) (Transport.untold_close hfree h)
      | none =>
        have hverified := verified_of_failure?_eq_none hfailure
        cases hclosed : t.closed with
        | true =>
          have hacquire : t.acquire client = (false, t) := if_pos hclosed
          simp only [openTransport, hrefusal, hdialled, hsetup, hmeet, hfailure, hacquire,
            Bool.not_false, if_true]
          exact opens_of_abandoned _ hclosed hspared
        | false =>
          obtain ⟨t', hacquire, hopen, hverified, hremote, hpriority, hheld⟩ :
              ∃ t', t.acquire client = (true, t') ∧ t'.closed = false ∧
                t'.verification = .verified ∧ t'.remote = address ∧ t'.priority = priority ∧
                t'.holders = Table.empty.put client.id client :=
            ⟨_, if_neg (by simp [hclosed]), hclosed, hverified, hremote, hpriority,
              congrArg (Table.put · client.id client) hfree⟩
          cases hleaves : listener.leaves with
          | true =>
            have hends := Transport.closed_stop t'
            have hhangUp := Transport.hangUp_of_open hopen
            simp only [openTransport, hrefusal, hdialled, hsetup, hmeet, hfailure, hacquire,
              Bool.not_true, Bool.false_eq_true, if_false, hleaves, if_true, hhangUp,
              hends]
            refine .failed _ _ [_] _ (List.forall_mem_singleton.2 hends) (.inr rfl) fun h hmem => ?_
            rw [Activity.events_append] at hmem
            refine (List.mem_append.1 hmem).elim (fun hmem => absurd hmem (hspared h)) fun hmem => ?_
            have hmem : TransportEvent.closed h ∈ t'.close.1.events := hmem
            rw [Transport.close_of_open hopen, hheld] at hmem
            exact TransportEvent.closed.inj (List.mem_singleton.1 hmem)
          | false =>
            simp only [openTransport, hrefusal, hdialled, hsetup, hmeet, hfailure, hacquire,
              Bool.not_true, Bool.false_eq_true, if_false, hleaves, hopen]
            refine .opened t' _ hopen hverified hremote hpriority hheld fun h => ?_
            rw [Activity.append_empty]
            exact hspared h

/-- What getting a connection comes to: an open connection of the pool is handed out again, or the
pool opens one, or it fails.  Nobody is told anything of it but, perhaps, the client of a failure. -/
inductive Connects (p : TransportPool) (client : Holder) (address : Endpoint) (priority : Int16) :
    Except Error Nat × Activity × TransportPool → Prop where
  | reused (n : Nat) (t : Transport) (hregistered : p.registry.get? address priority = some n)
    (ht : p.transports[n]? = some t) (hopen : t.closed = false) :
    Connects p client address priority
      (.ok n, {}, { p with transports := p.transports.set n (t.acquire client).2 })
  | opened (t : Transport) (activity : Activity) (locks : LockTable Endpoint)
    (hreuse : p.reuse? client address priority = none) (hopen : t.closed = false)
    (hverified : t.verification = .verified) (hremote : t.remote = address)
    (hpriority : t.priority = priority) (hheld : t.holders = Table.empty.put client.id client)
    (hspared : ∀ h, TransportEvent.closed h ∉ activity.events)
    (hlocks : p.locks.Settled address locks) :
    Connects p client address priority
      (.ok p.transports.length, activity,
        { p with
          transports := p.transports ++ [t]
          registry := (p.registry.put address priority p.transports.length).2
          locks })
  | failed (e : Error) (activity : Activity) (ends : List Transport) (registry : Registry Nat)
    (locks : LockTable Endpoint) (hreuse : p.reuse? client address priority = none)
    (hends : ∀ t ∈ ends, t.closed = true)
    (hregistry : registry = p.registry ∨
      registry = ((p.registry.put address priority p.transports.length).2.remove address priority
        p.transports.length).2)
    (htold : ∀ h, TransportEvent.closed h ∈ activity.events → h = client)
    (hlocks : p.locks.Settled address locks) :
    Connects p client address priority
      (.error e, activity, { p with abandoned := p.abandoned ++ ends, registry, locks })

theorem connects_connect (p : TransportPool) (c : Connector) (now : Instant) (client : Holder)
    (address : Endpoint) (priority : Int16) (listener : Listener) :
    p.Connects client address priority (p.connect c now client address priority listener) := by
  cases hreuse : p.reuse? client address priority with
  | some reused =>
    obtain ⟨n, p'⟩ := reused
    obtain ⟨hregistered, t, ht, hopen, rfl⟩ := exists_of_reuse? hreuse
    simp only [connect, hreuse]
    exact .reused n t hregistered ht hopen
  | none =>
    rcases hlock : p.locks.acquire address with ⟨free, locks⟩
    cases free with
    | false =>
      have hfailed : p.Connects client address priority
          (.error (.connection address (.lockTimeout c.config.lockTimeout)), {},
            { p with abandoned := p.abandoned ++ [], locks }) :=
        .failed _ _ [] p.registry locks hreuse (List.forall_mem_nil _) (.inl rfl)
          (fun h hmem => nomatch hmem) (.refused hlock)
      rw [List.append_nil] at hfailed
      simp only [connect, hreuse, hlock, Bool.not_false, if_true]
      exact hfailed
    | true =>
      have hopens := opens_openTransport { p with locks } c now client address priority listener
      simp only [connect, hreuse, hlock, Bool.not_true, Bool.false_eq_true, if_false, share,
        reuse?_locks_eq_none hreuse locks]
      generalize { p with locks }.openTransport c now client address priority listener = r at hopens ⊢
      cases hopens with
      | opened t activity hopen hverified hremote hpriority hheld hspared =>
        exact .opened t activity _ hreuse hopen hverified hremote hpriority hheld hspared
          (.released hlock)
      | failed e activity ends registry hends hregistry htold =>
        exact .failed _ activity ends registry _ hreuse hends hregistry htold (.released hlock)

/-- A server that is met for the first time is connected to. -/
theorem connect_serving {c : Connector} {server : TransportConfig} {client : Holder}
    {address : Endpoint} {priority : Int16} {locks : LockTable Endpoint}
    (hadmits : c.transport.Admits server) (hreuse : p.reuse? client address priority = none)
    (hlock : p.locks.acquire address = (true, locks)) (now : Instant) :
    p.connect c now client address priority (.serving server) =
      (.ok p.transports.length, {},
        { p with
          transports := p.transports ++
            [{ Transport.client address priority c.transport c.handler with
              lastActivity := now
              order := server.order
              peer := knownServer server
              verification := .verified
              holders := Table.empty.put client.id client }]
          registry := (p.registry.put address priority p.transports.length).2
          locks := locks.release address }) := by
  have hdialled : (Dialing.run c.config address fun _ => (.ok () : Except IoError Unit)).result =
      .ok () := Dialing.result_run_of_const c.config address
  have hmeet := Listener.meet_serving hadmits now address priority c.handler
  simp only [connect, hreuse, hlock, share, reuse?_locks_eq_none hreuse locks, openTransport,
    Listener.refusal?, hdialled, Listener.setupFailure?, hmeet]
  rfl

end TransportPool

end PvNet
