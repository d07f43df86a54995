import PvNet.Proofs.Connection.Holders
import PvNet.Proofs.Connection.Sharing
set_option autoImplicit false

/-!
# Connections to a server that changed

Connections may be registered in each other's place and forgotten, by whoever likes to.  Still
what is registered for an address and a priority connects to that address with that priority
(`Keyed`).  So nobody is told twice about one connection when a server changes, and those who are
told are the holders of the connections that are registered for it (`Keyed.toldOfChange`).
-/

namespace PvNet

/-! ## Holders under their identities -/

/-- The holders are listed under their identities. -/
def Named (holders : Table UInt64 Holder) : Prop :=
  ∀ id h, holders.get? id = some h → h.id = id

theorem named_empty : Named .empty := fun _ _ hget => nomatch hget

theorem Named.put {holders : Table UInt64 Holder} (hnamed : Named holders) (h : Holder) :
    Named (holders.put h.id h) := by
  intro id h' hget
  rw [Table.get?_put] at hget
  by_cases hid : h.id = id
  · rw [if_pos hid] at hget
    rw [← Option.some.inj hget]
    exact hid
  · rw [if_neg hid] at hget
    exact hnamed id h' hget

theorem Named.holdersAfter {holders : Table UInt64 Holder} (hnamed : Named holders)
    (step : LifeStep) : Named (step.holdersAfter holders) := by
  cases step with
  | octets | hangUp => exact hnamed
  | own step =>
    cases step with
    | take | pick | compose | enqueue | readField | change | close => exact hnamed
    | acquire h => exact hnamed.put h
    | release id' =>
      intro id h hget
      have hget : (holders.erase id').get? id = some h := hget
      rw [Table.get?_erase] at hget
      by_cases hid : id' = id
      · rw [if_pos hid] at hget
        cases hget
      · rw [if_neg hid] at hget
        exact hnamed id h hget

/-- A transport lists its holders under their identities, and none once it has closed. -/
structure Transport.InOrder (t : Transport) : Prop where
  named : Named t.holders
  opened_or_ended : t.closed = false ∨ t.Ended

theorem Transport.InOrder.life {t : Transport} (h : t.InOrder) (step : LifeStep) :
    t.SameEnd (step.run t).2 ∧ (step.run t).2.InOrder := by
  rcases h.opened_or_ended with hopen | hended
  · have hlasts := lasts_life hopen step
    refine ⟨hlasts.lived.sameEnd, ?_, hlasts.lived.opened_or_ended⟩
    generalize step.run t = r at hlasts
    cases hlasts with
    | goes hgoes =>
      show Named _
      rw [hgoes.holders]
      exact h.named.holdersAfter step
    | ends hgoes hfades =>
      show Named _
      rw [hfades.ended.holders]
      exact named_empty
  · have hfades := hended.fades_life step
    refine ⟨hfades.sameEnd, ?_, .inr hfades.ended⟩
    rw [hfades.ended.holders]
    exact named_empty

namespace TransportPool

variable {p : TransportPool} {n : Nat} {t t' : Transport} {address : Endpoint}

/-! ## What is registered where -/

/-- Puts a new transport into the pool and the registry, whatever is registered in its place. -/
def enroll (p : TransportPool) (t : Transport) : TransportPool :=
  { p with
    transports := p.transports ++ [t]
    registry := (p.registry.put t.remote t.priority p.transports.length).2 }

/-- Puts a transport of the pool into the registry again. -/
def enrollAgain (p : TransportPool) (n : Nat) : TransportPool :=
  match p.transports[n]? with
  | none => p
  | some t => { p with registry := (p.registry.put t.remote t.priority n).2 }

/-- What holds of a pool even when its users meddle with the registry. -/
structure Keyed (p : TransportPool) : Prop where
  /-- What is registered is a transport with this peer and priority. -/
  registered : ∀ {address priority n}, p.registry.get? address priority = some n →
    ∃ t, p.transports[n]? = some t ∧ t.remote = address ∧ t.priority = priority
  inOrder : ∀ t ∈ p.transports, t.InOrder

namespace Keyed

theorem empty : ({} : TransportPool).Keyed where
  registered h := nomatch h
  inOrder _ h := nomatch h

/-- A transport becomes another one with the same peer, and perhaps is no longer registered. -/
theorem set (h : p.Keyed) (ht : p.transports[n]? = some t) (hsame : t.SameEnd t')
    (hinOrder : t'.InOrder) {registry : Registry Nat}
    (hregistry : ∀ address priority m, registry.get? address priority = some m →
      p.registry.get? address priority = some m) :
    { p with transports := p.transports.set n t', registry }.Keyed where
  registered {address priority m} hm := by
    obtain ⟨u, hu, hremote, hpriority⟩ := h.registered (hregistry address priority m hm)
    obtain ⟨hlt, -⟩ := List.getElem?_eq_some_iff.1 ht
    by_cases hn : n = m
    · subst hn
      rw [ht] at hu
      cases hu
      exact ⟨t', List.getElem?_set_self hlt, hsame.remote.trans hremote,
        hsame.priority.trans hpriority⟩
    · exact ⟨u, (List.getElem?_set_ne hn).trans hu, hremote, hpriority⟩
  inOrder u hu := by
    rcases List.mem_or_eq_of_mem_set hu with hu | rfl
    · exact h.inOrder u hu
    · exact hinOrder

/-- Only the registry changes, and nothing is registered but at its place. -/
theorem reregister (h : p.Keyed) {registry : Registry Nat}
    (hregistry : ∀ {address priority m}, registry.get? address priority = some m →
      ∃ t, p.transports[m]? = some t ∧ t.remote = address ∧ t.priority = priority) :
    { p with registry }.Keyed where
  registered := hregistry
  inOrder := h.inOrder

theorem enroll (h : p.Keyed) (hinOrder : t.InOrder) : (p.enroll t).Keyed where
  registered {address priority m} hm := by
    have hm : (p.registry.put t.remote t.priority p.transports.length).2.get? address priority =
        some m := hm
    rw [Registry.get?_put] at hm
    by_cases hkey : t.remote = address ∧ t.priority = priority
    · rw [if_pos hkey] at hm
      cases hm
      exact ⟨t, List.getElem?_concat_length, hkey⟩
    · rw [if_neg hkey] at hm
      obtain ⟨u, hu, hplace⟩ := h.registered hm
      obtain ⟨hlt, -⟩ := List.getElem?_eq_some_iff.1 hu
      exact ⟨u, (List.getElem?_append_left hlt).trans hu, hplace⟩
  inOrder u hu := by
    rcases List.mem_append.1 hu with hu | hu
    · exact h.inOrder u hu
    · rw [List.mem_singleton.1 hu]
      exact hinOrder

theorem enrollAgain (h : p.Keyed) (n : Nat) : (p.enrollAgain n).Keyed := by
  unfold TransportPool.enrollAgain
  cases ht : p.transports[n]? with
  | none => exact h
  | some t =>
    refine h.reregister fun {address priority m} hm => ?_
    rw [Registry.get?_put] at hm
    by_cases hkey : t.remote = address ∧ t.priority = priority
    · rw [if_pos hkey] at hm
      cases hm
      exact ⟨t, ht, hkey⟩
    · rw [if_neg hkey] at hm
      exact h.registered hm

theorem forget (h : p.Keyed) (n : Nat) : (p.forget n).2.Keyed where
  registered hm := by
    rw [transports_forget]
    exact h.registered (registry_forget hm)
  inOrder := by
    rw [transports_forget]
    exact h.inOrder

theorem happen (h : p.Keyed) (n : Nat) (step : LifeStep) :
    (p.update n fun t => step.run t).2.Keyed := by
  cases ht : p.transports[n]? with
  | none =>
    rw [update_of_none ht]
    exact h
  | some t =>
    obtain ⟨hsame, hinOrder⟩ := (h.inOrder t (List.mem_of_getElem? ht)).life step
    rw [update_of_some ht]
    refine h.set ht hsame hinOrder fun address priority m hm => ?_
    split at hm
    · rw [Registry.get?_remove] at hm
      split at hm
      · cases hm
      · exact hm
    · exact hm

theorem updateAll (h : p.Keyed) (step : LifeStep) (ns : List Nat) :
    (TransportPool.updateAll (fun t => step.run t) ns p).2.Keyed := by
  induction ns generalizing p with
  | nil => exact h
  | cons n ns ih => exact ih (h.happen n step)

theorem connect (h : p.Keyed) (c : Connector) (now : Instant) (client : Holder)
    (address : Endpoint) (priority : Int16) (listener : Listener) :
    (p.connect c now client address priority listener).2.2.Keyed := by
  have hconnects := connects_connect p c now client address priority listener
  generalize p.connect c now client address priority listener = r at hconnects ⊢
  cases hconnects with
  | reused n t hregistered ht hopen =>
    have hgoes := Transport.goes_acquire hopen client
    have hnamed := (h.inOrder t (List.mem_of_getElem? ht)).named.put client
    rw [← hgoes.holders] at hnamed
    exact h.set ht hgoes.sameEnd ⟨hnamed, .inl hgoes.opened⟩ fun _ _ _ hm => hm
  | opened t activity locks hreuse hopen hverified hremote hpriority hheld hspared hlocks =>
    subst hremote hpriority
    have hnamed := named_empty.put client
    rw [← hheld] at hnamed
    have henrolled := h.enroll ⟨hnamed, .inl hopen⟩
    exact ⟨henrolled.registered, henrolled.inOrder⟩
  | failed e activity ends registry locks hreuse hends hregistry htold hlocks =>
    refine ⟨fun {address' priority' m} hm => h.registered ?_, h.inOrder⟩
    rcases hregistry with rfl | rfl
    · exact hm
    · -- The attempt takes out what it has put in, and with it whatever was there before.
      have hm : (((p.registry.put address priority p.transports.length).2.remove address priority
        p.transports.length).2).get? address' priority' = some m := hm
      rw [Registry.get?_remove, Registry.get?_put, Registry.get?_put] at hm
      by_cases hkey : address = address' ∧ priority = priority'
      · rw [if_pos ⟨hkey.1, hkey.2, if_pos ⟨rfl, rfl⟩⟩] at hm
        cases hm
      · rw [if_neg fun h => hkey ⟨h.1, h.2.1⟩, if_neg hkey] at hm
        exact hm

theorem use (h : p.Keyed) (step : UseStep) : (p.use step).Keyed := by
  cases step with
  | connect c now client address priority listener =>
    exact h.connect c now client address priority listener
  | happen n step => exact h.happen n step
  | lock address => exact ⟨h.registered, h.inOrder⟩
  | unlock address => exact ⟨h.registered, h.inOrder⟩

end Keyed

/-! ## What a change does -/

/-- The holders of a transport of the pool. -/
def holdersOf (p : TransportPool) (n : Nat) : List Holder :=
  (p.transports[n]?).elim [] (·.holders.values)

theorem holdersOf_of_some (ht : p.transports[n]? = some t) : p.holdersOf n = t.holders.values := by
  rw [holdersOf, ht]
  rfl

/-- A change is told to the holders of the transport, and the transport forgets what it has sent. -/
theorem exists_update_change (p : TransportPool) (n : Nat) :
    ∃ ts, p.update n Transport.change =
        ({ events := (p.holdersOf n).map .changed }, { p with transports := ts }) ∧
      ∀ m, ts[m]? = if m = n then (p.transports[m]?).map (·.change.2) else p.transports[m]? := by
  cases ht : p.transports[n]? with
  | none =>
    refine ⟨p.transports, ?_, fun m => ?_⟩
    · rw [update_of_none ht, holdersOf, ht]
      rfl
    · by_cases hm : m = n
      · rw [if_pos hm, hm, ht]
        rfl
      · rw [if_neg hm]
  | some t =>
    refine ⟨p.transports.set n t.change.2, ?_, fun m => ?_⟩
    · have hopen : ¬ (!t.closed ∧ t.change.2.closed) := by
        rintro ⟨hopen, hclosed⟩
        have hclosed : t.closed = true := hclosed
        rw [hclosed] at hopen
        cases hopen
      rw [update_of_some ht, if_neg hopen, holdersOf_of_some ht]
      rfl
    · by_cases hm : m = n
      · subst hm
        obtain ⟨hlt, -⟩ := List.getElem?_eq_some_iff.1 ht
        rw [if_pos rfl, ht, List.getElem?_set_self hlt]
        rfl
      · rw [if_neg hm, List.getElem?_set_ne (Ne.symm hm)]

/-- Changes leave the holders where they are, so that their order does not matter. -/
theorem exists_updateAll_change (p : TransportPool) (ns : List Nat) :
    ∃ ts, updateAll Transport.change ns p =
        ({ events := ns.flatMap fun n => (p.holdersOf n).map .changed },
          { p with transports := ts }) ∧
      ∀ m, ts[m]? = if m ∈ ns then (p.transports[m]?).map (·.change.2) else p.transports[m]? := by
  induction ns generalizing p with
  | nil => exact ⟨p.transports, rfl, fun m => rfl⟩
  | cons n ns ih =>
    obtain ⟨ts, hfirst, hts⟩ := exists_update_change p n
    obtain ⟨ts', hrest, hts'⟩ := ih { p with transports := ts }
    have hheld (m : Nat) : ({ p with transports := ts } : TransportPool).holdersOf m =
        p.holdersOf m := by
      rw [holdersOf, holdersOf, hts]
      split
      · cases p.transports[m]? with
        | none => rfl
        | some t => rfl
      · rfl
    refine ⟨ts', ?_, fun m => ?_⟩
    · rw [updateAll_cons, hfirst, hrest]
      simp only [hheld, List.flatMap_cons]
      rfl
    · rw [hts']
      simp only [hts, List.mem_cons]
      by_cases hm : m = n
      · subst hm
        rw [if_pos rfl, if_pos (Or.inl rfl), Option.map_map]
        split
        · rfl
        · rfl
      · simp only [hm, false_or, if_false]

/-- The transports that are registered for an address and held by somebody. -/
def heldAt (p : TransportPool) (address : Endpoint) (h : Holder) : Set Nat :=
  {n | (∃ priority, p.registry.get? address priority = some n) ∧
    ∃ t, p.transports[n]? = some t ∧ t.holders.get? h.id = some h}

/-- The server at an address changed.  Everybody is told of it once for each transport that is
registered for the address, whatever its priority, and nobody else is told anything.  Those
transports forget what they have sent, and all else stays as it is. -/
structure ToldOfChange (p : TransportPool) (address : Endpoint) (r : Activity × TransportPool) :
    Prop where
  told : ∀ h, r.1.events.count (.changed h) = (p.heldAt address h).ncard
  only : ∀ e ∈ r.1.events, ∃ h, e = .changed h
  unsent : r.1.sent = []
  registered : ∀ priority n, p.registry.get? address priority = some n →
    ∃ t, p.transports[n]? = some t ∧ t.remote = address ∧ t.priority = priority ∧
      r.2.transports[n]? = some { t with sentTypes := t.sentTypes.clear }
  others : ∀ n, (∀ priority, p.registry.get? address priority ≠ some n) →
    r.2.transports[n]? = p.transports[n]?
  registry : r.2.registry = p.registry

/-- A transport is in the registry for an address at most once. -/
theorem Keyed.nodup_getAll (h : p.Keyed) (address : Endpoint) :
    (p.registry.getAll address).Nodup := by
  refine List.nodup_iff_count_le_one.2 fun n => ?_
  have hpriority (priority : Int16) (m : Nat)
      (hm : (p.registry.peer address).get? priority = some m) :
      (p.transports[m]?).elim 0 (·.priority) = priority := by
    obtain ⟨t, ht, -, hpriority⟩ := h.registered hm
    rw [ht]
    exact hpriority
  rw [Registry.getAll,
    Table.count_values (fun m => (p.transports[m]?).elim 0 (·.priority)) hpriority]
  split
  · exact Nat.le_refl 1
  · exact Nat.zero_le 1

theorem mem_getAll_iff :
    n ∈ p.registry.getAll address ↔ ∃ priority, p.registry.get? address priority = some n :=
  Table.mem_values_iff

/-- Whether somebody holds a transport of the pool. -/
def isHeldBy (p : TransportPool) (h : Holder) (n : Nat) : Bool :=
  (p.transports[n]?).any fun t => t.holders.get? h.id = some h

theorem isHeldBy_iff {h : Holder} :
    p.isHeldBy h n = true ↔ ∃ t, p.transports[n]? = some t ∧ t.holders.get? h.id = some h := by
  simp [isHeldBy, Option.any_eq_true]

theorem Keyed.count_changed (hkeyed : p.Keyed) (n : Nat) (h : Holder) :
    ((p.holdersOf n).map TransportEvent.changed).count (.changed h) =
      if p.isHeldBy h n then 1 else 0 := by
  have hinjective : Function.Injective TransportEvent.changed := fun _ _ heq =>
    TransportEvent.changed.inj heq
  rw [List.count_map_of_injective _ _ hinjective, holdersOf, isHeldBy]
  cases ht : p.transports[n]? with
  | none => rfl
  | some t =>
    have hnamed := (hkeyed.inOrder t (List.mem_of_getElem? ht)).named
    show t.holders.values.count h = _
    rw [t.holders.count_values Holder.id hnamed]
    simp only [Option.any_some, decide_eq_true_eq]

/-- Those who hold several of the transports are told several times. -/
theorem Keyed.count_flatMap_changed (hkeyed : p.Keyed) (address : Endpoint) (h : Holder) :
    ((p.registry.getAll address).flatMap fun n =>
      (p.holdersOf n).map TransportEvent.changed).count (.changed h) =
      (p.heldAt address h).ncard := by
  have hset : p.heldAt address h =
      (((p.registry.getAll address).filter (p.isHeldBy h)).toFinset : Set Nat) := by
    ext n
    rw [List.coe_toFinset]
    show _ ↔ n ∈ (p.registry.getAll address).filter (p.isHeldBy h)
    rw [List.mem_filter, mem_getAll_iff, isHeldBy_iff]
    rfl
  rw [hset, Set.ncard_coe_finset,
    List.toFinset_card_of_nodup ((hkeyed.nodup_getAll address).filter _), List.count_flatMap]
  generalize p.registry.getAll address = ns
  induction ns with
  | nil => rfl
  | cons n ns ih =>
    rw [List.map_cons, List.sum_cons, ih, List.filter_cons, Function.comp_apply,
      hkeyed.count_changed]
    cases p.isHeldBy h n with
    | true => exact Nat.add_comm 1 _
    | false => exact Nat.zero_add _

theorem Keyed.toldOfChange (h : p.Keyed) (address : Endpoint) :
    p.ToldOfChange address (p.changeAll address) := by
  obtain ⟨ts, hchange, hts⟩ := exists_updateAll_change p (p.registry.getAll address)
  rw [changeAll, hchange]
  refine ⟨h.count_flatMap_changed address, fun e he => ?_, rfl, fun priority n hn => ?_,
    fun n hn => ?_, rfl⟩
  · obtain ⟨n, -, he⟩ := List.mem_flatMap.1 he
    obtain ⟨holder, -, rfl⟩ := List.mem_map.1 he
    exact ⟨holder, rfl⟩
  · obtain ⟨t, ht, hremote, hpriority⟩ := h.registered hn
    refine ⟨t, ht, hremote, hpriority, ?_⟩
    show ts[n]? = _
    rw [hts, if_pos (mem_getAll_iff.2 ⟨priority, hn⟩), ht]
    rfl
  · show ts[n]? = _
    rw [hts, if_neg fun hmem => (mem_getAll_iff.1 hmem).elim hn]

end TransportPool

end PvNet
