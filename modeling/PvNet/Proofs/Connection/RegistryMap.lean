import PvNet.Proofs.Connection.Registration
import PvNet.Proofs.History
set_option autoImplicit false

/-!
# The registry as a map

Whatever is put into the registry, removed from it or cleared, it stays one map from addresses
and priorities to connections.  What stands in it for an address and a priority is the connection
that was put there last, unless that one was removed or everything was cleared since
(`RegistryStep.Latest`); all that the registry says agrees with this
(`Registry.latest_registered`).

A connection keeps its address and its priority for life, so each step names the connection only.
-/

namespace PvNet

variable {α : Type}

/-- What is done to a registry. -/
inductive RegistryStep (α : Type) where
  | put (c : α)
  | remove (c : α)
  | clear

namespace RegistryStep

variable (key : α → Endpoint × Int16)

/-- A step leaves a connection at its place. -/
def Keeps (c : α) : RegistryStep α → Prop
  | put d => key d = key c → d = c
  | remove d => d ≠ c
  | clear => False

/-- A connection was put last at its place and has not been removed since. -/
def Latest (steps : List (RegistryStep α)) (c : α) : Prop :=
  StandsIn steps (· = put c) (·.Keeps key c)

/-- What a step makes of a registry. -/
def run [DecidableEq α] (r : Registry α) : RegistryStep α → Registry α
  | put c => (r.put (key c).1 (key c).2 c).2
  | remove c => (r.remove (key c).1 (key c).2 c).2
  | clear => r.clear.2

/-- What steps make of a registry. -/
def runAll [DecidableEq α] (r : Registry α) (steps : List (RegistryStep α)) : Registry α :=
  steps.foldl (run key) r

end RegistryStep

namespace Registry

variable {key : α → Endpoint × Int16} {r : Registry α} {c d : α} {address : Endpoint}
  {priority : Int16}

/-! ## What every step preserves -/

/-- Connections stand at their own places, and there is no address without a connection. -/
structure Orderly (key : α → Endpoint × Int16) (r : Registry α) : Prop where
  placed : ∀ {address priority c}, r.get? address priority = some c → key c = (address, priority)
  inhabited : ∀ {address connections}, r.peers.get? address = some connections →
    connections.isEmpty = false

theorem orderly_empty : ({} : Registry α).Orderly key where
  placed h := nomatch h
  inhabited h := nomatch h

namespace Orderly

theorem put (h : r.Orderly key) (c : α) : (r.put (key c).1 (key c).2 c).2.Orderly key where
  placed {address priority d} hget := by
    rw [get?_put] at hget
    by_cases hplace : (key c).1 = address ∧ (key c).2 = priority
    · rw [if_pos hplace] at hget
      rw [← Option.some.inj hget]
      exact Prod.ext hplace.1 hplace.2
    · rw [if_neg hplace] at hget
      exact h.placed hget
  inhabited {address connections} hget := by
    have hget : (r.peers.put (key c).1 ((r.peer (key c).1).put (key c).2 c)).get? address =
        some connections := hget
    rw [Table.get?_put] at hget
    by_cases haddress : (key c).1 = address
    · rw [if_pos haddress] at hget
      rw [← Option.some.inj hget, ← Bool.not_eq_true, Table.isEmpty_iff]
      intro hnone
      have hput := hnone (key c).2
      rw [Table.get?_put, if_pos rfl] at hput
      cases hput
    · rw [if_neg haddress] at hget
      exact h.inhabited hget

theorem remove [DecidableEq α] (h : r.Orderly key) (c : α) :
    (r.remove (key c).1 (key c).2 c).2.Orderly key where
  placed {address priority d} hget := by
    rw [get?_remove] at hget
    by_cases hplace : (key c).1 = address ∧ (key c).2 = priority ∧
        r.get? (key c).1 (key c).2 = some c
    · rw [if_pos hplace] at hget
      cases hget
    · rw [if_neg hplace] at hget
      exact h.placed hget
  inhabited {address connections} hget := by
    unfold Registry.remove at hget
    by_cases hregistered : r.get? (key c).1 (key c).2 = some c
    · rw [if_pos hregistered] at hget
      by_cases hempty : ((r.peer (key c).1).erase (key c).2).isEmpty = true
      · simp only [if_pos hempty, Table.get?_erase] at hget
        by_cases haddress : (key c).1 = address
        · rw [if_pos haddress] at hget
          cases hget
        · rw [if_neg haddress] at hget
          exact h.inhabited hget
      · simp only [if_neg hempty, Table.get?_put] at hget
        by_cases haddress : (key c).1 = address
        · rw [if_pos haddress] at hget
          rw [← Option.some.inj hget]
          exact Bool.eq_false_iff.2 hempty
        · rw [if_neg haddress] at hget
          exact h.inhabited hget
    · rw [if_neg hregistered] at hget
      exact h.inhabited hget

theorem run [DecidableEq α] (h : r.Orderly key) (step : RegistryStep α) :
    (step.run key r).Orderly key := by
  cases step with
  | put c => exact h.put c
  | remove c => exact h.remove c
  | clear => exact orderly_empty

theorem runAll [DecidableEq α] (h : r.Orderly key) (steps : List (RegistryStep α)) :
    (RegistryStep.runAll key r steps).Orderly key := by
  induction steps generalizing r with
  | nil => exact h
  | cons step steps ih => exact ih (h.run step)

/-! ## What is found -/

theorem get?_key_iff (h : r.Orderly key) :
    r.get? address priority = some c ↔
      key c = (address, priority) ∧ r.get? (key c).1 (key c).2 = some c := by
  constructor
  · intro hget
    have hkey := h.placed hget
    rw [hkey]
    exact ⟨rfl, hget⟩
  · rintro ⟨hkey, hget⟩
    rwa [hkey] at hget

end Orderly

/-- A connection is at its place after a step if it has just been put there, or if the step has
left it there. -/
theorem get?_run_iff [DecidableEq α] (r : Registry α) (step : RegistryStep α) :
    (step.run key r).get? (key c).1 (key c).2 = some c ↔
      step = .put c ∨ (r.get? (key c).1 (key c).2 = some c ∧ step.Keeps key c) := by
  cases step with
  | put d =>
    show (r.put (key d).1 (key d).2 d).2.get? (key c).1 (key c).2 = some c ↔ _
    rw [get?_put]
    by_cases hkey : key d = key c
    · rw [if_pos (Prod.ext_iff.1 hkey)]
      constructor
      · intro hd
        rw [Option.some.inj hd]
        exact .inl rfl
      · rintro (hput | ⟨-, hkeeps⟩)
        · rw [RegistryStep.put.inj hput]
        · rw [hkeeps hkey]
    · rw [if_neg fun heq => hkey (Prod.ext_iff.2 heq)]
      constructor
      · exact fun hget => .inr ⟨hget, fun heq => absurd heq hkey⟩
      · rintro (hput | ⟨hget, -⟩)
        · exact absurd (congrArg key (RegistryStep.put.inj hput)) hkey
        · exact hget
  | remove d =>
    show (r.remove (key d).1 (key d).2 d).2.get? (key c).1 (key c).2 = some c ↔ _
    rw [get?_remove]
    by_cases hd : (key d).1 = (key c).1 ∧ (key d).2 = (key c).2 ∧
        r.get? (key d).1 (key d).2 = some d
    · rw [if_pos hd]
      refine ⟨nofun, ?_⟩
      rintro (hput | ⟨hget, hne⟩)
      · cases hput
      · rw [← hd.1, ← hd.2.1, hd.2.2] at hget
        exact absurd (Option.some.inj hget) hne
    · rw [if_neg hd]
      constructor
      · refine fun hget => .inr ⟨hget, fun hdc => ?_⟩
        subst hdc
        exact hd ⟨rfl, rfl, hget⟩
      · rintro (hput | ⟨hget, -⟩)
        · cases hput
        · exact hget
  | clear =>
    refine ⟨nofun, ?_⟩
    rintro (hput | ⟨-, hkeeps⟩)
    · cases hput
    · exact hkeeps.elim

theorem get?_runAll_iff [DecidableEq α] (steps : List (RegistryStep α)) :
    (RegistryStep.runAll key {} steps).get? (key c).1 (key c).2 = some c ↔
      RegistryStep.Latest key steps c := by
  induction steps using List.reverseRecOn with
  | nil => exact ⟨nofun, fun h => absurd h not_standsIn_nil⟩
  | append_singleton steps step ih =>
    unfold RegistryStep.Latest RegistryStep.runAll
    rw [List.foldl_append, standsIn_concat]
    exact (get?_run_iff _ step).trans (or_congr Iff.rfl (and_congr ih Iff.rfl))

/-! ## What is listed -/

namespace Orderly

theorem nodup_getAll (h : r.Orderly key) (address : Endpoint) : (r.getAll address).Nodup := by
  refine Table.nodup_values (fun c => (key c).2) fun priority c hget => ?_
  rw [h.placed hget]

theorem mem_getAll_iff (h : r.Orderly key) :
    c ∈ r.getAll address ↔ (key c).1 = address ∧ r.get? (key c).1 (key c).2 = some c := by
  rw [getAll, Table.mem_values_iff]
  constructor
  · rintro ⟨priority, hget⟩
    have hkey := h.placed hget
    rw [hkey]
    exact ⟨rfl, hget⟩
  · rintro ⟨rfl, hget⟩
    exact ⟨_, hget⟩

theorem mem_all_iff (h : r.Orderly key) : c ∈ r.all ↔ r.get? (key c).1 (key c).2 = some c := by
  rw [Registry.mem_all_iff]
  constructor
  · rintro ⟨address, priority, hget⟩
    exact (h.get?_key_iff.1 hget).2
  · exact fun hget => ⟨_, _, hget⟩

theorem nodup_all (h : r.Orderly key) : r.all.Nodup := by
  have hpeer {address : Endpoint} {connections : Table Int16 α}
      (hmem : (address, connections) ∈ r.peers.entries) : r.peer address = connections := by
    rw [peer, Table.get?_of_mem hmem]
    rfl
  have hdistinct : r.peers.entries.Pairwise (·.1 ≠ ·.1) := List.pairwise_map.1 r.peers.distinct
  unfold all Table.values
  rw [List.nodup_flatMap, List.forall_mem_map, List.pairwise_map]
  refine ⟨fun e he => ?_, hdistinct.imp_of_mem fun {e e'} he he' hne c hc hc' => hne ?_⟩
  · have hnodup := h.nodup_getAll e.1
    rwa [getAll, hpeer he] at hnodup
  -- a connection of two addresses would have two keys
  · have haddress {e : Endpoint × Table Int16 α} (he : e ∈ r.peers.entries)
        (hc : c ∈ e.2.values) : (key c).1 = e.1 := by
      rw [← hpeer he] at hc
      exact (h.mem_getAll_iff.1 hc).1
    rw [← haddress he hc, haddress he' hc']

/-- No two connections are registered at one place. -/
theorem nodup_map_key (h : r.Orderly key) : (r.all.map key).Nodup := by
  refine h.nodup_all.map_on fun c hc d hd hkey => ?_
  have hget := h.mem_all_iff.1 hc
  rw [hkey, h.mem_all_iff.1 hd] at hget
  exact (Option.some.inj hget).symm

end Orderly

theorem size_eq_length (r : Registry α) : r.size = r.all.length := by
  unfold size all
  induction r.peers.values with
  | nil => rfl
  | cons connections peers ih =>
    rw [total_cons, ih, List.flatMap_cons, List.length_append]
    exact congrArg (· + _) (List.length_map _).symm

theorem Orderly.size_eq_ncard (h : r.Orderly key) :
    r.size = {place | ∃ c ∈ r.all, key c = place}.ncard := by
  have hset : {place | ∃ c ∈ r.all, key c = place} = ((r.all.map key).toFinset : Set _) := by
    ext place
    rw [List.coe_toFinset]
    exact List.mem_map.symm
  rw [hset, Set.ncard_coe_finset, List.toFinset_card_of_nodup h.nodup_map_key, List.length_map]
  exact r.size_eq_length

/-! ## The map -/

variable [DecidableEq α]

/-- The registry holds the connections that satisfy a condition, each at its own place, and all
that it says agrees with this. -/
structure Represents (key : α → Endpoint × Int16) (holds : α → Prop) (r : Registry α) : Prop where
  get? : ∀ address priority c,
    r.get? address priority = some c ↔ key c = (address, priority) ∧ holds c
  getAll : ∀ address, (r.getAll address).Nodup ∧
    ∀ c, c ∈ r.getAll address ↔ (key c).1 = address ∧ holds c
  all : r.all.Nodup ∧ ∀ c, c ∈ r.all ↔ holds c
  /-- There are as many connections as places with one. -/
  size : r.size = {place | ∃ c, holds c ∧ key c = place}.ncard
  /-- Putting returns the connection that is displaced. -/
  put : ∀ c d, (r.put (key c).1 (key c).2 c).1 = some d ↔ key d = key c ∧ holds d
  /-- Removing succeeds if this very connection is registered; else nothing changes. -/
  remove : ∀ c, ((r.remove (key c).1 (key c).2 c).1 = true ↔ holds c) ∧
    (holds c → ∀ address priority,
      (r.remove (key c).1 (key c).2 c).2.get? address priority =
        if key c = (address, priority) then none else r.get? address priority) ∧
    (¬ holds c → (r.remove (key c).1 (key c).2 c).2 = r)
  /-- Clearing returns every connection once and leaves none. -/
  clear : r.clear.1.Nodup ∧ (∀ c, c ∈ r.clear.1 ↔ holds c) ∧ r.clear.2 = {}
  /-- No address is left without a connection. -/
  inhabited : ∀ address connections, r.peers.get? address = some connections →
    connections.isEmpty = false

theorem Orderly.represents (h : r.Orderly key) {holds : α → Prop}
    (hholds : ∀ c, r.get? (key c).1 (key c).2 = some c ↔ holds c) : r.Represents key holds where
  get? address priority c := by rw [h.get?_key_iff, hholds]
  getAll address := by
    refine ⟨h.nodup_getAll address, fun c => ?_⟩
    rw [h.mem_getAll_iff, hholds]
  all := ⟨h.nodup_all, fun c => by rw [h.mem_all_iff, hholds]⟩
  size := by
    rw [h.size_eq_ncard]
    simp only [h.mem_all_iff, hholds]
  put c d := by
    show r.get? (key c).1 (key c).2 = some d ↔ _
    rw [h.get?_key_iff, hholds]
  remove c := by
    rw [← hholds]
    refine ⟨r.fst_remove_iff _ _ c, fun hget address priority => ?_, r.snd_remove_of_ne _ _ c⟩
    rw [get?_remove]
    simp only [hget, and_true, Prod.ext_iff]
  clear := ⟨h.nodup_all, fun c => by rw [← hholds, ← h.mem_all_iff]; rfl, rfl⟩
  inhabited _ _ := h.inhabited

/-- After any steps the registry is the map from places to the connections that were put there
last and not removed since. -/
theorem latest_registered (key : α → Endpoint × Int16) (steps : List (RegistryStep α)) :
    (RegistryStep.runAll key {} steps).Represents key (RegistryStep.Latest key steps) :=
  (orderly_empty.runAll steps).represents fun _ => get?_runAll_iff steps

end Registry

end PvNet
