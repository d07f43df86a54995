import Mathlib.Data.Set.Card
import PvNet.Connection.Pool
set_option autoImplicit false

/-!
# What tables and the registry hold

The operations of the registry by what is found afterwards, how many keys a table has, and what a
pool has when something was done to one of its transports.
-/

namespace PvNet

namespace Table

variable {κ α : Type} [DecidableEq κ] {t : Table κ α}

/-- A table has as many entries as there are keys with a value. -/
theorem size_eq_ncard (t : Table κ α) : t.size = {k | ∃ a, t.get? k = some a}.ncard := by
  have hkeys : {k | ∃ a, t.get? k = some a} = (t.keys.toFinset : Set κ) := by
    ext k
    rw [List.coe_toFinset]
    exact mem_keys_iff.symm
  have hnodup : t.keys.Nodup := t.distinct
  have hlength : t.keys.length = t.size := List.length_map _
  rw [hkeys, Set.ncard_coe_finset, List.toFinset_card_of_nodup hnodup]
  exact hlength.symm

theorem isEmpty_iff : t.isEmpty = true ↔ ∀ k, t.get? k = none := by
  constructor
  · intro h k
    have hentries : t.entries = [] := List.isEmpty_iff.1 h
    rw [get?, hentries]
    rfl
  · intro h
    refine List.isEmpty_iff.2 (List.eq_nil_iff_forall_not_mem.2 fun e hmem => ?_)
    obtain ⟨k, a⟩ := e
    rw [mem_entries_iff, h k] at hmem
    cases hmem

/-- A table whose values tell their keys has no value twice. -/
theorem nodup_values (key : α → κ) (hkey : ∀ k a, t.get? k = some a → key a = k) :
    t.values.Nodup := by
  have hsame : t.values.map key = t.keys := by
    unfold values keys
    rw [List.map_map]
    exact List.map_congr_left fun e he => hkey e.1 e.2 (get?_of_mem he)
  refine List.Nodup.of_map key ?_
  rw [hsame]
  exact t.distinct

theorem count_values [DecidableEq α] (key : α → κ) (hkey : ∀ k a, t.get? k = some a → key a = k)
    (a : α) : t.values.count a = if t.get? (key a) = some a then 1 else 0 := by
  have hmem : a ∈ t.values ↔ t.get? (key a) = some a := by
    rw [mem_values_iff]
    constructor
    · rintro ⟨k, hget⟩
      rwa [hkey k a hget]
    · intro hget
      exact ⟨key a, hget⟩
  by_cases h : t.get? (key a) = some a
  · rw [if_pos h, List.count_eq_one_of_mem (nodup_values key hkey) (hmem.2 h)]
  · rw [if_neg h, List.count_eq_zero_of_not_mem (mt hmem.1 h)]

end Table

namespace Registry

variable {α : Type} (r : Registry α) (address address' : Endpoint) (priority priority' : Int16)
  (c : α)

theorem get?_put :
    (r.put address priority c).2.get? address' priority' =
      if address = address' ∧ priority = priority' then some c else r.get? address' priority' := by
  show (((r.peers.put address _).get? address').getD .empty).get? priority' = _
  rw [Table.get?_put]
  by_cases haddress : address = address'
  · subst haddress
    rw [if_pos rfl, Option.getD_some, Table.get?_put]
    simp only [true_and]
    rfl
  · rw [if_neg haddress, if_neg (by simp [haddress])]
    rfl

/-- What is registered is registered at some place. -/
theorem mem_all_iff : c ∈ r.all ↔ ∃ address priority, r.get? address priority = some c := by
  unfold all
  rw [List.mem_flatMap]
  constructor
  · rintro ⟨connections, hpeer, hc⟩
    obtain ⟨address, haddress⟩ := Table.mem_values_iff.1 hpeer
    obtain ⟨priority, hpriority⟩ := Table.mem_values_iff.1 hc
    refine ⟨address, priority, ?_⟩
    rwa [get?, peer, haddress]
  · rintro ⟨address, priority, hget⟩
    rw [get?, peer] at hget
    cases haddress : r.peers.get? address with
    | none =>
      rw [haddress] at hget
      cases hget
    | some connections =>
      rw [haddress] at hget
      exact ⟨connections, Table.mem_values_iff.2 ⟨address, haddress⟩,
        Table.mem_values_iff.2 ⟨priority, hget⟩⟩

variable [DecidableEq α]

theorem get?_remove :
    (r.remove address priority c).2.get? address' priority' =
      if address = address' ∧ priority = priority' ∧ r.get? address priority = some c then none
      else r.get? address' priority' := by
  unfold remove
  by_cases hregistered : r.get? address priority = some c
  · rw [if_pos hregistered]
    simp only [hregistered, and_true]
    have hrest : ((r.peer address).erase priority).get? priority' =
        if priority = priority' then none else r.get? address priority' :=
      Table.get?_erase ..
    by_cases haddress : address = address'
    · subst haddress
      simp only [true_and, ← hrest]
      by_cases hempty : ((r.peer address).erase priority).isEmpty
      · rw [if_pos hempty, Table.isEmpty_iff.1 hempty]
        show (((r.peers.erase address).get? address).getD .empty).get? priority' = none
        rw [Table.get?_erase, if_pos rfl]
        rfl
      · rw [if_neg hempty]
        show (((r.peers.put address _).get? address).getD .empty).get? priority' = _
        rw [Table.get?_put, if_pos rfl]
        rfl
    · simp only [haddress, false_and, if_false]
      by_cases hempty : ((r.peer address).erase priority).isEmpty
      · rw [if_pos hempty]
        show (((r.peers.erase address).get? address').getD .empty).get? priority' = _
        rw [Table.get?_erase, if_neg haddress]
        rfl
      · rw [if_neg hempty]
        show (((r.peers.put address _).get? address').getD .empty).get? priority' = _
        rw [Table.get?_put, if_neg haddress]
        rfl
  · rw [if_neg hregistered, if_neg (by simp [hregistered])]

theorem fst_remove_iff :
    (r.remove address priority c).1 = true ↔ r.get? address priority = some c := by
  unfold remove
  by_cases hget : r.get? address priority = some c
  · rw [if_pos hget]
    exact iff_of_true rfl hget
  · rw [if_neg hget]
    exact iff_of_false Bool.false_ne_true hget

theorem snd_remove_of_ne (h : r.get? address priority ≠ some c) :
    (r.remove address priority c).2 = r := by
  rw [remove, if_neg h]

theorem remove_empty : ((({} : Registry α)).remove address priority c).2 = {} := by
  have hnone : ({} : Registry α).get? address priority ≠ some c := fun h => nomatch h
  exact snd_remove_of_ne _ _ _ _ hnone

/-- What is registered at a free place and then removed again leaves everything as it was. -/
theorem get?_remove_put (hfree : r.get? address priority = none) :
    ((r.put address priority c).2.remove address priority c).2.get? address' priority' =
      r.get? address' priority' := by
  rw [get?_remove, get?_put, get?_put]
  by_cases hkey : address = address' ∧ priority = priority'
  · obtain ⟨rfl, rfl⟩ := hkey
    rw [if_pos ⟨rfl, rfl, if_pos ⟨rfl, rfl⟩⟩, hfree]
  · rw [if_neg fun h => hkey ⟨h.1, h.2.1⟩, if_neg hkey]

end Registry

namespace TransportPool

variable {p : TransportPool} {m n : Nat} {t : Transport} {f : Transport → Activity × Transport}

theorem update_of_none (h : p.transports[n]? = none) : p.update n f = ({}, p) := by
  simp only [update, h]

theorem update_of_some (h : p.transports[n]? = some t) :
    p.update n f =
      ((f t).1,
        { p with
          transports := p.transports.set n (f t).2
          registry :=
            if !t.closed ∧ (f t).2.closed then
              (p.registry.remove (f t).2.remote (f t).2.priority n).2
            else p.registry }) := by
  simp only [update, h]

theorem transports_update_self (h : p.transports[n]? = some t) :
    (p.update n f).2.transports[n]? = some (f t).2 := by
  obtain ⟨hlt, -⟩ := List.getElem?_eq_some_iff.1 h
  rw [update_of_some h]
  exact List.getElem?_set_self hlt

theorem updateAll_cons (n : Nat) (ns : List Nat) (p : TransportPool) :
    updateAll f (n :: ns) p =
      ((p.update n f).1 ++ (updateAll f ns (p.update n f).2).1,
        (updateAll f ns (p.update n f).2).2) := rfl

/-- What is done to a transport touches no other one. -/
theorem transports_update_of_ne (hne : m ≠ n) :
    (p.update m f).2.transports[n]? = p.transports[n]? := by
  cases hm : p.transports[m]? with
  | none => rw [update_of_none hm]
  | some u =>
    rw [update_of_some hm]
    exact List.getElem?_set_ne hne

end TransportPool

end PvNet
