import PvNet.Proofs.Connection.Holders
import PvNet.Proofs.Connection.Sharing
set_option autoImplicit false

/-!
# Connections that close

Who holds which connection of a pool follows from a log of what has happened to which of
them (`Tracks`).  Whatever is done to the pool, everybody is told as often as there are
connections that close then and that they hold (`Accounts`).
-/

namespace PvNet

namespace TransportPool

variable {p : TransportPool} {ts ts' : List Transport} {n m : Nat} {t t' : Transport}
  {log : List (Nat × LifeStep)} {step : LifeStep} {h : Holder} {r r' : Activity × TransportPool}

/-! ## Logs -/

/-- What has happened to one connection among all that has happened. -/
def lifeOf (n : Nat) (log : List (Nat × LifeStep)) : List LifeStep :=
  (log.filter (·.1 = n)).map (·.2)

theorem lifeOf_concat_self (n : Nat) (log : List (Nat × LifeStep)) (step : LifeStep) :
    lifeOf n (log ++ [(n, step)]) = lifeOf n log ++ [step] := by
  simp [lifeOf]

theorem lifeOf_concat_of_ne (hne : m ≠ n) (log : List (Nat × LifeStep)) (step : LifeStep) :
    lifeOf n (log ++ [(m, step)]) = lifeOf n log := by
  simp [lifeOf, hne]

/-- What neither adds a holder nor drops one does not matter to who holds a connection. -/
theorem holdsAfter_lifeOf_concat (hneutral : ∀ id, ¬ step.Settles id) :
    HoldsAfter (lifeOf m (log ++ [(n, step)])) h ↔ HoldsAfter (lifeOf m log) h := by
  by_cases hm : n = m
  · subst hm
    rw [lifeOf_concat_self, holdsAfter_concat]
    constructor
    · rintro (rfl | ⟨hheld, -⟩)
      · exact absurd rfl (hneutral h.id)
      · exact hheld
    · intro hheld
      exact .inr ⟨hheld, hneutral h.id⟩
  · rw [lifeOf_concat_of_ne hm]

/-! ## Connections that are open, and those that are lost -/

/-- A connection is there and open. -/
def IsOpen (ts : List Transport) (n : Nat) : Prop := ∃ t, ts[n]? = some t ∧ t.closed = false

/-- The connections that have closed and that somebody held. -/
def lost (ts ts' : List Transport) (log : List (Nat × LifeStep)) (h : Holder) : Set Nat :=
  {n | IsOpen ts n ∧ ¬ IsOpen ts' n ∧ HoldsAfter (lifeOf n log) h}

theorem isOpen_set_iff (ht : ts[n]? = some t) :
    IsOpen (ts.set n t') m ↔ if n = m then t'.closed = false else IsOpen ts m := by
  obtain ⟨hlt, -⟩ := List.getElem?_eq_some_iff.1 ht
  unfold IsOpen
  by_cases hm : n = m
  · subst hm
    rw [if_pos rfl, List.getElem?_set_self hlt]
    simp
  · rw [if_neg hm, List.getElem?_set_ne hm]

theorem finite_lost : (lost ts ts' log h).Finite := by
  refine (Set.finite_lt_nat ts.length).subset ?_
  rintro n ⟨⟨t, ht, -⟩, -⟩
  exact (List.getElem?_eq_some_iff.1 ht).1

theorem lost_eq_empty (hkept : ∀ n, IsOpen ts n → IsOpen ts' n) : lost ts ts' log h = ∅ := by
  refine Set.eq_empty_iff_forall_notMem.2 ?_
  rintro n ⟨hopen, hlost, -⟩
  exact hlost (hkept n hopen)

/-- Where one connection changes, it is the only one that can be lost. -/
theorem mem_lost_set_iff (ht : ts[n]? = some t) :
    m ∈ lost ts (ts.set n t') log h ↔
      m = n ∧ t.closed = false ∧ t'.closed = true ∧ HoldsAfter (lifeOf n log) h := by
  have hopen : IsOpen ts n ↔ t.closed = false := by
    unfold IsOpen
    rw [ht]
    simp
  show IsOpen ts m ∧ ¬ IsOpen (ts.set n t') m ∧ HoldsAfter (lifeOf m log) h ↔ _
  rw [isOpen_set_iff ht]
  by_cases hm : n = m
  · subst hm
    rw [if_pos rfl, hopen, Bool.not_eq_false]
    simp
  · rw [if_neg hm]
    constructor
    · rintro ⟨hopen, hlost, -⟩
      exact absurd hopen hlost
    · rintro ⟨rfl, -⟩
      exact absurd rfl hm

/-- The holders that the open connections list are those who hold them after what is in the log. -/
structure Tracks (ts : List Transport) (log : List (Nat × LifeStep)) : Prop where
  opened_or_ended : ∀ t ∈ ts, t.closed = false ∨ t.Ended
  lists : ∀ n t, ts[n]? = some t → t.closed = false → Lists t.holders (lifeOf n log)
  /-- Nothing has happened to a connection that does not exist yet. -/
  unborn : ∀ n, ts.length ≤ n → lifeOf n log = []

/-- What is done to the connections of a pool closes some of them and opens none, and everybody is
told of those that they held; the log includes what is done. -/
structure Accounts (ts : List Transport) (log : List (Nat × LifeStep))
    (r : Activity × TransportPool) : Prop where
  tracks : Tracks r.2.transports log
  length : r.2.transports.length = ts.length
  kept : ∀ n, IsOpen r.2.transports n → IsOpen ts n
  told : ∀ h, r.1.events.count (.closed h) = (lost ts r.2.transports log h).ncard

namespace Accounts

theorem refl (htracks : Tracks p.transports log) : Accounts p.transports log ({}, p) where
  tracks := htracks
  length := rfl
  kept n hopen := hopen
  told h := by
    rw [lost_eq_empty fun n hopen => hopen, Set.ncard_empty]
    rfl

/-- Who loses a connection loses it first or afterwards. -/
theorem trans (hfirst : Accounts ts log r) (hrest : Accounts r.2.transports log r') :
    Accounts ts log (r.1 ++ r'.1, r'.2) where
  tracks := hrest.tracks
  length := hrest.length.trans hfirst.length
  kept n hopen := hfirst.kept n (hrest.kept n hopen)
  told h := by
    have hunion : lost ts r'.2.transports log h =
        lost ts r.2.transports log h ∪ lost r.2.transports r'.2.transports log h := by
      ext n
      constructor
      · rintro ⟨hopen, hlost, hheld⟩
        by_cases hbetween : IsOpen r.2.transports n
        · exact .inr ⟨hbetween, hlost, hheld⟩
        · exact .inl ⟨hopen, hbetween, hheld⟩
      · rintro (⟨hopen, hlost, hheld⟩ | ⟨hopen, hlost, hheld⟩)
        · exact ⟨hopen, fun hlast => hlost (hrest.kept n hlast), hheld⟩
        · exact ⟨hfirst.kept n hopen, hlost, hheld⟩
    have hdisjoint : Disjoint (lost ts r.2.transports log h)
        (lost r.2.transports r'.2.transports log h) := by
      refine Set.disjoint_left.2 ?_
      rintro n ⟨-, hclosed, -⟩ ⟨hopen, -⟩
      exact hclosed hopen
    rw [hunion, Set.ncard_union_eq hdisjoint finite_lost finite_lost, ← hfirst.told, ← hrest.told]
    exact List.count_append

end Accounts

/-! ## One connection -/

namespace Tracks

theorem get? (htracks : Tracks ts log) (ht : ts[n]? = some t) : t.closed = false ∨ t.Ended :=
  htracks.opened_or_ended t (List.mem_of_getElem? ht)

/-- Something happens to one of the connections. -/
theorem set (htracks : Tracks ts log) (ht : ts[n]? = some t) (step : LifeStep) :
    Tracks (ts.set n (step.run t).2) (log ++ [(n, step)]) where
  opened_or_ended u hu := by
    rcases List.mem_or_eq_of_mem_set hu with hu | rfl
    · exact htracks.opened_or_ended u hu
    · exact (Transport.lived_life (htracks.get? ht) step).opened_or_ended
  lists m u hu hopen := by
    obtain ⟨hlt, -⟩ := List.getElem?_eq_some_iff.1 ht
    by_cases hm : n = m
    · subst hm
      rw [List.getElem?_set_self hlt] at hu
      cases hu
      rw [lifeOf_concat_self]
      rcases htracks.get? ht with hopen' | hended
      · exact (Transport.lists_life hopen' (htracks.lists n t ht hopen') hopen).1
      · have hclosed := (hended.fades_life step).ended.closed
        exact absurd (hopen.symm.trans hclosed) Bool.false_ne_true
    · rw [List.getElem?_set_ne hm] at hu
      rw [lifeOf_concat_of_ne hm]
      exact htracks.lists m u hu hopen
  unborn m hm := by
    obtain ⟨hlt, -⟩ := List.getElem?_eq_some_iff.1 ht
    rw [List.length_set] at hm
    have hne : n ≠ m := Nat.ne_of_lt (Nat.lt_of_lt_of_le hlt hm)
    rw [lifeOf_concat_of_ne hne]
    exact htracks.unborn m hm

/-- What is told of one connection is told to those who hold it when it closes. -/
theorem count_life (htracks : Tracks ts log) (ht : ts[n]? = some t) (step : LifeStep) (h : Holder) :
    (step.run t).1.events.count (.closed h) =
      (lost ts (ts.set n (step.run t).2) (log ++ [(n, step)]) h).ncard := by
  have hmem (m : Nat) : m ∈ lost ts (ts.set n (step.run t).2) (log ++ [(n, step)]) h ↔
      m = n ∧ t.closed = false ∧ (step.run t).2.closed = true ∧
        HoldsAfter (lifeOf n log ++ [step]) h := by
    rw [mem_lost_set_iff ht, lifeOf_concat_self]
  have hnone (hnot : ¬ (t.closed = false ∧ (step.run t).2.closed = true ∧
      HoldsAfter (lifeOf n log ++ [step]) h)) :
      (lost ts (ts.set n (step.run t).2) (log ++ [(n, step)]) h).ncard = 0 := by
    rw [Set.eq_empty_iff_forall_notMem.2 fun m hm => hnot ((hmem m).1 hm).2, Set.ncard_empty]
  rcases htracks.get? ht with hopen | hended
  · have hlists := htracks.lists n t ht hopen
    cases hclosed : (step.run t).2.closed with
    | false =>
      obtain ⟨-, hspared⟩ := Transport.lists_life hopen hlists hclosed
      rw [hnone (by simp [hclosed])]
      exact List.count_eq_zero_of_not_mem (hspared h)
    | true =>
      obtain ⟨htold, huntold⟩ := Transport.told_life hopen hlists hclosed h
      by_cases hheld : HoldsAfter (lifeOf n log ++ [step]) h
      · have hself : lost ts (ts.set n (step.run t).2) (log ++ [(n, step)]) h = {n} := by
          ext m
          rw [hmem, Set.mem_singleton_iff]
          exact and_iff_left ⟨hopen, hclosed, hheld⟩
        rw [hself, Set.ncard_singleton]
        exact htold hheld
      · rw [hnone fun hlost => hheld hlost.2.2]
        exact huntold hheld
  · rw [hnone fun hlost => Bool.false_ne_true (hlost.1.symm.trans hended.closed)]
    exact List.count_eq_zero_of_not_mem ((hended.fades_life step).spared h)

/-- Something happens to one connection of a pool. -/
theorem happen (htracks : Tracks p.transports log) (hlt : n < p.transports.length)
    (step : LifeStep) :
    Accounts p.transports (log ++ [(n, step)]) (p.update n fun t => step.run t) := by
  have ht := List.getElem?_eq_getElem hlt
  have hended := htracks.get? ht
  generalize p.transports[n] = t at ht hended
  rw [update_of_some ht]
  refine ⟨htracks.set ht step, List.length_set, fun m hopen => ?_, htracks.count_life ht step⟩
  rw [isOpen_set_iff ht] at hopen
  by_cases hm : n = m
  · subst hm
    rw [if_pos rfl] at hopen
    rcases hended with hopen' | hended
    · exact ⟨t, ht, hopen'⟩
    · have hclosed := (hended.fades_life step).ended.closed
      exact absurd (hopen.symm.trans hclosed) Bool.false_ne_true
  · rwa [if_neg hm] at hopen

/-! ## Several connections -/

/-- Something that neither adds a holder nor drops one need not be in the log. -/
theorem neutral (htracks : Tracks p.transports log) (hneutral : ∀ id, ¬ step.Settles id) (n : Nat) :
    Accounts p.transports log (p.update n fun t => step.run t) := by
  by_cases hlt : n < p.transports.length
  · have hlogged := htracks.happen hlt step
    refine ⟨⟨hlogged.tracks.opened_or_ended, fun m u hu hopen id h => ?_, fun m hm => ?_⟩,
      hlogged.length, hlogged.kept, fun h => ?_⟩
    · rw [hlogged.tracks.lists m u hu hopen, holdsAfter_lifeOf_concat hneutral]
    · rw [hlogged.length] at hm
      exact htracks.unborn m hm
    · rw [hlogged.told]
      simp only [lost, holdsAfter_lifeOf_concat hneutral]
  · have hnone : p.transports[n]? = none := List.getElem?_eq_none (Nat.le_of_not_lt hlt)
    rw [update_of_none hnone]
    exact .refl htracks

theorem updateAll (htracks : Tracks p.transports log) (step : LifeStep)
    (hneutral : ∀ id, ¬ step.Settles id) (ns : List Nat) :
    Accounts p.transports log (TransportPool.updateAll (fun t => step.run t) ns p) := by
  induction ns generalizing p with
  | nil => exact .refl htracks
  | cons n ns ih =>
    have hfirst := htracks.neutral hneutral n
    exact hfirst.trans (ih hfirst.tracks)

/-- Each connection that is to be closed is closed. -/
theorem not_isOpen_of_mem (htracks : Tracks p.transports log) {ns : List Nat} (hn : n ∈ ns) :
    ¬ IsOpen (TransportPool.updateAll Transport.close ns p).2.transports n := by
  induction ns generalizing p with
  | nil => cases hn
  | cons m ns ih =>
    have hneutral (id : UInt64) : ¬ (LifeStep.own .close).Settles id := fun h => h
    have hfirst := htracks.neutral hneutral m
    intro hopen
    rcases List.mem_cons.1 hn with rfl | hn
    · obtain ⟨t, ht, hstill⟩ := (hfirst.tracks.updateAll _ hneutral ns).kept n hopen
      cases hbefore : p.transports[n]? with
      | none =>
        have hkept : (p.update n Transport.close).2.transports[n]? = none := by
          rw [update_of_none hbefore]
          exact hbefore
        cases ht.symm.trans hkept
      | some before =>
        have hclosed := transports_update_self (f := Transport.close) hbefore
        cases ht.symm.trans hclosed
        exact absurd (hstill.symm.trans (Transport.closed_close before)) Bool.false_ne_true
    · exact ih hfirst.tracks hn hopen

/-- What happens to a connection that does not exist need not be in the log. -/
theorem happen_or_not (htracks : Tracks p.transports log) (n : Nat) (step : LifeStep) :
    Accounts p.transports (log ++ if n < p.transports.length then [(n, step)] else [])
      (p.update n fun t => step.run t) := by
  by_cases hlt : n < p.transports.length
  · rw [if_pos hlt]
    exact htracks.happen hlt step
  · have hnone : p.transports[n]? = none := List.getElem?_eq_none (Nat.le_of_not_lt hlt)
    rw [if_neg hlt, List.append_nil]
    rw [update_of_none hnone]
    exact .refl htracks

theorem hangUpAll (htracks : Tracks p.transports log) (address : Endpoint) :
    Accounts p.transports log (p.hangUpAll address) :=
  htracks.updateAll .hangUp (fun _ h => h) _

end Tracks

theorem Sound.updateAll (h : p.Sound) (step : LifeStep) (ns : List Nat) :
    (TransportPool.updateAll (fun t => step.run t) ns p).2.Sound := by
  induction ns generalizing p with
  | nil => exact h
  | cons n ns ih => exact ih (h.happen n step)

/-! ## Closing everything -/

/-- What is not left over from before does nothing to a pool whose transports have all ended. -/
theorem update_eq_of_ended (hended : ∀ t ∈ p.transports, t.Ended) (n : Nat) (step : LifeStep)
    (hidle : step.isLeftover = false) : (p.update n fun t => step.run t) = ({}, p) := by
  cases ht : p.transports[n]? with
  | none => exact update_of_none ht
  | some t =>
    have hended' := hended t (List.mem_of_getElem? ht)
    obtain ⟨hlt, hget⟩ := List.getElem?_eq_some_iff.1 ht
    have hkept : p.transports.set n t = p.transports := by
      rw [← hget]
      exact List.set_getElem_self hlt
    rw [update_of_closed ht hended'.closed, hended'.life_eq_self hidle, hkept]

theorem updateAll_eq_of_ended (hended : ∀ t ∈ p.transports, t.Ended) (step : LifeStep)
    (hidle : step.isLeftover = false) (ns : List Nat) :
    updateAll (fun t => step.run t) ns p = ({}, p) := by
  induction ns with
  | nil => rfl
  | cons n ns ih =>
    rw [updateAll_cons, update_eq_of_ended hended n step hidle, ih]
    rfl

/-- Nothing is sent any more, and nobody but a handler is told anything, where all transports have
ended; nothing but the transports changes, and they have ended still. -/
structure Fades (p : TransportPool) (r : Activity × TransportPool) : Prop where
  sent : r.1.sent = []
  untold : ∀ e ∈ r.1.events, ∃ m, e = .message m
  kept : ∃ transports, r.2 = { p with transports } ∧
    transports.length = p.transports.length
  ended : ∀ t ∈ r.2.transports, t.Ended

theorem Fades.refl (hended : ∀ t ∈ p.transports, t.Ended) : p.Fades ({}, p) :=
  ⟨rfl, fun _ he => (nomatch he), ⟨p.transports, rfl, rfl⟩, hended⟩

theorem Fades.trans (h : p.Fades r) (h' : r.2.Fades r') : p.Fades (r.1 ++ r'.1, r'.2) where
  sent := by rw [Activity.sent_append, h.sent, h'.sent, List.append_nil]
  untold e he := by
    rw [Activity.events_append, List.mem_append] at he
    exact he.elim (h.untold e) (h'.untold e)
  kept := by
    obtain ⟨transports, hkept, hlength⟩ := h.kept
    obtain ⟨transports', hkept', hlength'⟩ := h'.kept
    rw [hkept] at hkept' hlength'
    exact ⟨transports', hkept', hlength'.trans hlength⟩
  ended := h'.ended

theorem fades_update (hended : ∀ t ∈ p.transports, t.Ended) (n : Nat) (step : LifeStep) :
    p.Fades (p.update n fun t => step.run t) := by
  cases ht : p.transports[n]? with
  | none =>
    rw [update_of_none ht]
    exact .refl hended
  | some t =>
    have hended' := hended t (List.mem_of_getElem? ht)
    have hfades := hended'.fades_life step
    rw [update_of_closed ht hended'.closed]
    refine ⟨hfades.sent, hfades.untold, ⟨_, rfl, List.length_set⟩, fun u hu => ?_⟩
    rcases List.mem_or_eq_of_mem_set hu with hu | rfl
    · exact hended u hu
    · exact hfades.ended

/-- Where nothing is registered, nothing but the transports changes. -/
theorem exists_updateAll_eq (hregistry : p.registry = {}) (f : Transport → Activity × Transport)
    (ns : List Nat) :
    ∃ transports, (TransportPool.updateAll f ns p).2 = { p with transports } := by
  induction ns generalizing p with
  | nil => exact ⟨p.transports, rfl⟩
  | cons n ns ih =>
    obtain ⟨transports, hupdate⟩ : ∃ transports, (p.update n f).2 = { p with transports } := by
      cases ht : p.transports[n]? with
      | none => exact ⟨p.transports, by rw [update_of_none ht]⟩
      | some t =>
        refine ⟨p.transports.set n (f t).2, ?_⟩
        simp only [update_of_some ht, hregistry, Registry.remove_empty, ite_self]
    obtain ⟨transports', hrest⟩ := ih (p := { p with transports }) hregistry
    refine ⟨transports', ?_⟩
    rw [updateAll_cons, hupdate]
    exact hrest

theorem Sound.of_ended (hended : ∀ t ∈ p.transports, t.Ended) (hregistry : p.registry = {})
    (habandoned : ∀ t ∈ p.abandoned, t.closed = true) (hlocks : p.locks.Sound) : p.Sound where
  registered_iff address priority n := by
    rw [hregistry]
    refine iff_of_false (fun h => nomatch h) ?_
    rintro ⟨t, ht, hopen, -⟩
    have hclosed := (hended t (List.mem_of_getElem? ht)).closed
    exact absurd (hopen.symm.trans hclosed) Bool.false_ne_true
  opened_or_ended t ht := .inr (hended t ht)
  abandoned := habandoned
  locks := hlocks

/-- The registry has all connections that are open, so that none is left when those are closed. -/
theorem Sound.ended_of_closed (h : p.Sound) (htracks : Tracks p.transports log) :
    ∀ t ∈ (TransportPool.updateAll Transport.close p.registry.all
      { p with registry := {} }).2.transports, t.Ended := by
  intro t ht
  let emptied : TransportPool := { p with registry := {} }
  have haccounts := Tracks.updateAll (p := emptied) htracks (.own .close) (fun _ h => h)
    p.registry.all
  obtain ⟨n, hn⟩ := List.mem_iff_getElem?.1 ht
  refine (haccounts.tracks.get? hn).resolve_left fun hopen => ?_
  obtain ⟨before, hbefore, hopen'⟩ := haccounts.kept n ⟨t, hn, hopen⟩
  have hregistered : p.registry.get? before.remote before.priority = some n :=
    (h.registered_iff _ _ n).2 ⟨before, hbefore, hopen', rfl, rfl⟩
  have hall : n ∈ p.registry.all := (Registry.mem_all_iff _ _).2 ⟨_, _, hregistered⟩
  exact Tracks.not_isOpen_of_mem (p := emptied) htracks hall ⟨t, hn, hopen⟩

/-! ## Getting a connection -/

/-- What getting a connection is to those that there are: it is in the log if it was handed out, and
nobody is told anything unless it was not. -/
structure Joins (p : TransportPool) (log : List (Nat × LifeStep)) (client : Holder)
    (r : Except Error Nat × Activity × TransportPool) : Prop where
  handed : ∀ n, r.1 = .ok n → n < r.2.2.transports.length ∧
    Tracks r.2.2.transports (log ++ [(n, .own (.acquire client))])
  refused : ∀ e, r.1 = .error e → r.2.2.transports = p.transports
  kept : ∀ n, IsOpen p.transports n → IsOpen r.2.2.transports n
  length : p.transports.length ≤ r.2.2.transports.length
  told : ∀ h, TransportEvent.closed h ∈ r.2.1.events → h = client ∧ ∃ e, r.1 = .error e

theorem Tracks.concat (htracks : Tracks ts log) (hopen : t.closed = false) {client : Holder}
    (hheld : t.holders = Table.empty.put client.id client) :
    Tracks (ts ++ [t]) (log ++ [(ts.length, .own (.acquire client))]) where
  opened_or_ended u hu := by
    rcases List.mem_append.1 hu with hu | hu
    · exact htracks.opened_or_ended u hu
    · rw [List.mem_singleton.1 hu]
      exact .inl hopen
  lists m u hu hopen' := by
    by_cases hm : ts.length = m
    · subst hm
      rw [List.getElem?_concat_length] at hu
      cases hu
      rw [lifeOf_concat_self, htracks.unborn _ (Nat.le_refl _), hheld]
      exact lists_empty.concat (.own (.acquire client))
    · obtain ⟨hlt, -⟩ := List.getElem?_eq_some_iff.1 hu
      rw [List.length_append, List.length_singleton] at hlt
      rw [List.getElem?_append_left (by omega)] at hu
      rw [lifeOf_concat_of_ne hm]
      exact htracks.lists m u hu hopen'
  unborn m hm := by
    rw [List.length_append, List.length_singleton] at hm
    rw [lifeOf_concat_of_ne (by omega)]
    exact htracks.unborn m (by omega)

theorem joins_connect (htracks : Tracks p.transports log) (c : Connector) (now : Instant)
    (client : Holder) (address : Endpoint) (priority : Int16) (listener : Listener) :
    p.Joins log client (p.connect c now client address priority listener) := by
  have hconnects := connects_connect p c now client address priority listener
  generalize p.connect c now client address priority listener = r at hconnects ⊢
  cases hconnects with
  | reused n t hregistered ht hopen =>
    obtain ⟨hlt, -⟩ := List.getElem?_eq_some_iff.1 ht
    have hopen' := (Transport.goes_acquire hopen client).opened
    refine ⟨fun n' hn' => ?_, fun e he => (nomatch he), fun m hm => ?_, ?_,
      fun h hmem => (nomatch hmem)⟩
    · cases hn'
      refine ⟨?_, htracks.set ht (.own (.acquire client))⟩
      rw [List.length_set]
      exact hlt
    · refine (isOpen_set_iff ht).2 ?_
      by_cases hnm : n = m
      · rwa [if_pos hnm]
      · rwa [if_neg hnm]
    · rw [List.length_set]
  | opened t activity locks hreuse hopen hverified hremote hpriority hheld hspared hlocks =>
    refine ⟨fun n' hn' => ?_, fun e he => (nomatch he), fun m hm => ?_, ?_,
      fun h hmem => absurd hmem (hspared h)⟩
    · cases hn'
      refine ⟨?_, htracks.concat hopen hheld⟩
      rw [List.length_append, List.length_singleton]
      exact Nat.lt_succ_self _
    · obtain ⟨u, hu, hstill⟩ := hm
      obtain ⟨hlt, -⟩ := List.getElem?_eq_some_iff.1 hu
      exact ⟨u, (List.getElem?_append_left hlt).trans hu, hstill⟩
    · rw [List.length_append]
      exact Nat.le_add_right _ _
  | failed e activity ends registry locks hreuse hends hregistry htold hlocks =>
    exact ⟨fun n' hn' => (nomatch hn'), fun _ _ => rfl, fun m hm => hm, Nat.le_refl _,
      fun h hmem => ⟨htold h hmem, e, rfl⟩⟩

end TransportPool

end PvNet
