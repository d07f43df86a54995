import PvNet.Proofs.Connection.Leftovers
import PvNet.Proofs.Connection.Registration
import PvNet.Proofs.History
import PvNet.Proofs.Schema.References
set_option autoImplicit false

/-!
# What the holders of a transport are told

Who holds a transport follows from what has happened to it: whoever acquired it last under
an identity holds it unless that identity has been released since (`HoldsAfter`).  When the
transport closes, those are told, each once, and nobody is told before or afterwards
(`told_at_close`, `Ended.fades_live`).  The same goes for a transport of a pool, where others
may be registered in its place (`holders_told_once`).  The tables of a transport that has
closed are not quite so final (`tables_refilled`).
-/

namespace PvNet

/-! ## Who holds a transport -/

/-- A step decides anew who holds the transport under an identity. -/
def LifeStep.Settles (id : UInt64) : LifeStep → Prop
  | .own (.acquire h) => h.id = id
  | .own (.release id') => id' = id
  | _ => False

/-- A holder has acquired the transport, and since then nobody has acquired it under the same
identity or released that. -/
def HoldsAfter (steps : List LifeStep) (h : Holder) : Prop :=
  ∃ before behind, steps = before ++ .own (.acquire h) :: behind ∧
    ∀ step ∈ behind, ¬ step.Settles h.id

section

variable {h : Holder} {steps : List LifeStep} {step : LifeStep}

theorem holdsAfter_iff :
    HoldsAfter steps h ↔ StandsIn steps (· = .own (.acquire h)) (¬ ·.Settles h.id) := by
  constructor
  · rintro ⟨before, behind, hsteps, hkept⟩
    exact ⟨before, _, behind, hsteps, rfl, hkept⟩
  · rintro ⟨before, _, behind, hsteps, rfl, hkept⟩
    exact ⟨before, behind, hsteps, hkept⟩

theorem not_holdsAfter_nil (h : Holder) : ¬ HoldsAfter [] h := by
  rw [holdsAfter_iff]
  exact not_standsIn_nil

theorem holdsAfter_concat :
    HoldsAfter (steps ++ [step]) h ↔
      step = .own (.acquire h) ∨ (HoldsAfter steps h ∧ ¬ step.Settles h.id) := by
  rw [holdsAfter_iff, standsIn_concat, holdsAfter_iff]

/-- A table lists those who hold after some steps, each under its identity. -/
def Lists (holders : Table UInt64 Holder) (steps : List LifeStep) : Prop :=
  ∀ id h, holders.get? id = some h ↔ h.id = id ∧ HoldsAfter steps h

theorem lists_empty : Lists .empty [] := fun id h => by
  simp [not_holdsAfter_nil]

namespace Lists

variable {holders : Table UInt64 Holder}

theorem concat (hlists : Lists holders steps) (step : LifeStep) :
    Lists (step.holdersAfter holders) (steps ++ [step]) := by
  intro id h
  rw [holdsAfter_concat]
  -- All other steps leave the holders alone and settle nothing.
  have hkept : holders.get? id = some h ↔ h.id = id ∧ (False ∨ (HoldsAfter steps h ∧ ¬ False)) := by
    rw [hlists, false_or, not_false_iff, and_true]
  cases step with
  | octets | hangUp => simpa [LifeStep.Settles, LifeStep.holdersAfter] using hkept
  | own step =>
    cases step with
    | take | pick | compose | enqueue | readField | change | close =>
      simpa [LifeStep.Settles, LifeStep.holdersAfter, TransportStep.holdersAfter] using hkept
    | acquire h₀ =>
      show (holders.put h₀.id h₀).get? id = some h ↔ _
      rw [Table.get?_put, LifeStep.own.injEq, TransportStep.acquire.injEq]
      by_cases hid : h₀.id = id
      · subst hid
        rw [if_pos rfl, Option.some.injEq]
        constructor
        · rintro rfl
          exact ⟨rfl, .inl rfl⟩
        · rintro ⟨hid, hsame | ⟨-, hsettled⟩⟩
          · exact hsame
          · exact absurd hid.symm hsettled
      · rw [if_neg hid, hlists]
        constructor
        · rintro ⟨rfl, hheld⟩
          exact ⟨rfl, .inr ⟨hheld, hid⟩⟩
        · rintro ⟨rfl, rfl | ⟨hheld, -⟩⟩
          · exact absurd rfl hid
          · exact ⟨rfl, hheld⟩
    | release id₀ =>
      show (holders.erase id₀).get? id = some h ↔ _
      rw [Table.get?_erase]
      by_cases hid : id₀ = id
      · subst hid
        rw [if_pos rfl]
        constructor
        · intro hnone
          cases hnone
        · rintro ⟨hid, hacquired | ⟨-, hsettled⟩⟩
          · cases hacquired
          · exact absurd hid.symm hsettled
      · rw [if_neg hid, hlists]
        constructor
        · rintro ⟨rfl, hheld⟩
          exact ⟨rfl, .inr ⟨hheld, hid⟩⟩
        · rintro ⟨rfl, hacquired | ⟨hheld, -⟩⟩
          · cases hacquired
          · exact ⟨rfl, hheld⟩

theorem get?_id_iff (hlists : Lists holders steps) :
    holders.get? h.id = some h ↔ HoldsAfter steps h := by
  rw [hlists, and_iff_right rfl]

theorem isEmpty_iff (hlists : Lists holders steps) :
    holders.isEmpty = true ↔ ∀ h, ¬ HoldsAfter steps h := by
  rw [Table.isEmpty_iff]
  constructor
  · intro hnone h hheld
    have hsome := hlists.get?_id_iff.2 hheld
    rw [hnone] at hsome
    cases hsome
  · intro hnone id
    cases hget : holders.get? id with
    | none => rfl
    | some h => exact absurd ((hlists id h).1 hget).2 (hnone h)

/-- Closing tells each of them once. -/
theorem count_closed (hlists : Lists holders steps) (h : Holder) :
    (HoldsAfter steps h → (holders.values.map TransportEvent.closed).count (.closed h) = 1) ∧
      (¬ HoldsAfter steps h →
        (holders.values.map TransportEvent.closed).count (.closed h) = 0) := by
  have hinjective : Function.Injective TransportEvent.closed := fun _ _ heq =>
    TransportEvent.closed.inj heq
  have hcount := holders.count_values Holder.id (fun id h hget => ((hlists id h).1 hget).1) h
  rw [List.count_map_of_injective _ _ hinjective, hcount, ← hlists.get?_id_iff]
  exact ⟨fun hheld => if_pos hheld, fun hheld => if_neg hheld⟩

end Lists

end

namespace Transport

variable {t t₁ : Transport}

/-- As long as a transport goes on, those who hold it are listed, and nobody is told that it
closed. -/
theorem lists_life (hopen : t.closed = false) {steps : List LifeStep}
    (hlists : Lists t.holders steps) {step : LifeStep} (hstill : (step.run t).2.closed = false) :
    Lists (step.run t).2.holders (steps ++ [step]) ∧
      ∀ h, TransportEvent.closed h ∉ (step.run t).1.events := by
  have hlasts := lasts_life hopen step
  generalize step.run t = r at hlasts hstill ⊢
  cases hlasts with
  | @goes activity t' hgoes =>
    refine ⟨?_, hgoes.spared⟩
    show Lists t'.holders _
    rw [hgoes.holders]
    exact hlists.concat step
  | ends hgoes hfades =>
    exact absurd (hstill.symm.trans hfades.ended.closed) Bool.false_ne_true

/-- When a transport closes, whoever holds it then is told once, and nobody else is. -/
theorem told_life (hopen : t.closed = false) {steps : List LifeStep}
    (hlists : Lists t.holders steps) {step : LifeStep} (hcloses : (step.run t).2.closed = true)
    (h : Holder) :
    (HoldsAfter (steps ++ [step]) h → (step.run t).1.events.count (.closed h) = 1) ∧
      (¬ HoldsAfter (steps ++ [step]) h → (step.run t).1.events.count (.closed h) = 0) := by
  have hlasts := lasts_life hopen step
  generalize step.run t = r at hlasts hcloses ⊢
  cases hlasts with
  | goes hgoes => exact absurd (hgoes.opened.symm.trans hcloses) Bool.false_ne_true
  | @ends activity t' r hgoes hfades =>
    have hcount := (hlists.concat step).count_closed h
    have hnone := List.count_eq_zero_of_not_mem (hgoes.spared h)
    have hlater := List.count_eq_zero_of_not_mem (hfades.spared h)
    rw [← hgoes.holders] at hcount
    rw [close_of_open hgoes.opened]
    simp only [Activity.events_append, List.count_append, hnone, hlater, Nat.zero_add, Nat.add_zero]
    exact hcount

end Transport

/-! ## A transport of a pool -/

/-- What can happen to a transport of a pool, and around it. -/
inductive FateStep (n : Nat) where
  /-- Something happens to the transport. -/
  | own (step : LifeStep)
  /-- Another transport is registered, perhaps in the place of this one. -/
  | register (address : Endpoint) (priority : Int16) (m : Nat) (other : m ≠ n)
  /-- A transport, perhaps this one, is forgotten without being closed. -/
  | forget (m : Nat)

namespace FateStep

variable {n : Nat}

def run (p : TransportPool) : FateStep n → Activity × TransportPool
  | own step => p.update n fun t => step.run t
  | register address priority m _ =>
    ({}, { p with registry := (p.registry.put address priority m).2 })
  | forget m => ({}, (p.forget m).2)

/-- What a step is to the transport itself. -/
def life : FateStep n → List LifeStep
  | own step => [step]
  | register .. | forget _ => []

end FateStep

namespace TransportPool

variable {n : Nat} {p : TransportPool} {t : Transport}

/-- Lets things happen one after the other. -/
def fate : List (FateStep n) → TransportPool → Activity × TransportPool
  | [], p => ({}, p)
  | s :: steps, p =>
    let (first, p) := s.run p
    let (rest, p) := fate steps p
    (first ++ rest, p)

theorem fate_cons (s : FateStep n) (steps : List (FateStep n)) (p : TransportPool) :
    fate (s :: steps) p =
      ((s.run p).1 ++ (fate steps (s.run p).2).1, (fate steps (s.run p).2).2) := rfl

/-- A transport of the pool in some state: it is registered nowhere but in its own place, and only
while it is open. -/
structure Contains (p : TransportPool) (n : Nat) (t : Transport) : Prop where
  there : p.transports[n]? = some t
  registered : ∀ address priority, p.registry.get? address priority = some n →
    t.closed = false ∧ address = t.remote ∧ priority = t.priority

/-- Forgetting a transport registers none. -/
theorem registry_forget {address : Endpoint} {priority : Int16} {m k : Nat}
    (h : (p.forget m).2.registry.get? address priority = some k) :
    p.registry.get? address priority = some k := by
  unfold forget at h
  cases hm : p.transports[m]? with
  | none => simpa [hm] using h
  | some t =>
    simp only [hm, Registry.get?_remove] at h
    by_cases hremoved : t.remote = address ∧ t.priority = priority ∧
        p.registry.get? t.remote t.priority = some m
    · rw [if_pos hremoved] at h
      cases h
    · rwa [if_neg hremoved] at h

theorem transports_forget (p : TransportPool) (m : Nat) :
    (p.forget m).2.transports = p.transports := by
  unfold forget
  cases p.transports[m]? with
  | none => rfl
  | some t => rfl

namespace Contains

/-- Whatever happens to a transport of a pool, the pool contains what becomes of it. -/
theorem own (h : p.Contains n t) (halive : t.closed = false ∨ t.Ended) (step : LifeStep) :
    (p.update n fun t => step.run t).1 = (step.run t).1 ∧
      (p.update n fun t => step.run t).2.Contains n (step.run t).2 := by
  have hthere := transports_update_self (f := fun t => step.run t) h.there
  rw [update_of_some h.there] at hthere ⊢
  refine ⟨rfl, hthere, fun address priority hregistered => ?_⟩
  rcases halive with hopen | hended
  · have hlived := (Transport.lasts_life hopen step).lived
    cases hclosed : (step.run t).2.closed with
    | false =>
      simp only [hopen, hclosed, Bool.false_eq_true, and_false, if_false] at hregistered
      rw [hlived.sameEnd.remote, hlived.sameEnd.priority]
      exact ⟨rfl, (h.registered address priority hregistered).2⟩
    | true =>
      -- It has been removed from the only place where it can have been.
      simp only [hopen, hclosed, Bool.not_false, and_self, if_true, Registry.get?_remove,
        hlived.sameEnd.remote, hlived.sameEnd.priority] at hregistered
      by_cases hremoved : t.remote = address ∧ t.priority = priority ∧
          p.registry.get? t.remote t.priority = some n
      · rw [if_pos hremoved] at hregistered
        cases hregistered
      · rw [if_neg hremoved] at hregistered
        obtain ⟨-, rfl, rfl⟩ := h.registered address priority hregistered
        exact absurd ⟨rfl, rfl, hregistered⟩ hremoved
  · simp only [hended.closed, Bool.not_true, Bool.false_eq_true, false_and, if_false]
      at hregistered
    have hopen := (h.registered address priority hregistered).1
    exact absurd (hopen.symm.trans hended.closed) Bool.false_ne_true

theorem step (h : p.Contains n t) (halive : t.closed = false ∨ t.Ended) (s : FateStep n) :
    (s.run p).1 = (Transport.live s.life t).1 ∧
      (s.run p).2.Contains n (Transport.live s.life t).2 := by
  cases s with
  | own step =>
    obtain ⟨hactivity, hcontains⟩ := h.own halive step
    refine ⟨?_, hcontains⟩
    show _ = (step.run t).1 ++ {}
    rw [Activity.append_empty]
    exact hactivity
  | register address priority m other =>
    refine ⟨rfl, h.there, fun address' priority' hregistered => ?_⟩
    have hput := p.registry.get?_put address address' priority priority' m
    by_cases hplace : address = address' ∧ priority = priority'
    · rw [if_pos hplace] at hput
      exact absurd (Option.some.inj (hput.symm.trans hregistered)) other
    · rw [if_neg hplace] at hput
      exact h.registered address' priority' (hput.symm.trans hregistered)
  | forget m =>
    refine ⟨rfl, ?_, fun address priority hregistered => ?_⟩
    · show (p.forget m).2.transports[n]? = some t
      rw [transports_forget]
      exact h.there
    · exact h.registered address priority (registry_forget hregistered)

theorem run (h : p.Contains n t) (halive : t.closed = false ∨ t.Ended) (steps : List (FateStep n)) :
    (fate steps p).1 = (Transport.live (steps.flatMap FateStep.life) t).1 ∧
      (fate steps p).2.Contains n (Transport.live (steps.flatMap FateStep.life) t).2 := by
  induction steps generalizing p t with
  | nil => exact ⟨rfl, h⟩
  | cons s steps ih =>
    obtain ⟨hactivity, hcontains⟩ := h.step halive s
    have halive' := (Transport.lived_live halive s.life).opened_or_ended
    obtain ⟨hrest, hlast⟩ := ih hcontains halive'
    rw [fate_cons, List.flatMap_cons, Transport.live_append, hactivity, hrest]
    exact ⟨rfl, hlast⟩

end Contains

/-- What is left of a transport that has closed. -/
structure Over (n : Nat) (p : TransportPool) (t : Transport) : Prop where
  refused : ∀ h, (t.acquire h).1 = false
  unsent : ∀ script, t.enqueue script = .error .closed
  unregistered : ∀ address priority, p.registry.get? address priority ≠ some n

/-- What becomes of the tables of a transport that closes. -/
structure Emptied (n : Nat) (before : Transport) (p : TransportPool) (t : Transport) : Prop where
  /-- The one for what the peer sends has what is read afterwards. -/
  known : ∀ after : List (FateStep n), ∃ t', (fate after p).2.transports[n]? = some t' ∧
    t'.knownTypes = KnownTypes.read {} ((after.flatMap FateStep.life).filterMap LifeStep.read?)
  /-- The one for what is sent stays empty exactly if the transport is settled. -/
  sent : (∀ after : List (FateStep n), ∃ t', (fate after p).2.transports[n]? = some t' ∧
    t'.sentTypes.isEmpty = true) ↔ t.Settled
  /-- And it is settled if the sender had nothing in hand. -/
  free : before.inHand = none → t.Settled

/-- What happens afterwards to a transport that has closed. -/
theorem Contains.emptied {before : Transport} (hopen : before.closed = false) {step : LifeStep}
    (h : p.Contains n (step.run before).2) (hcloses : (step.run before).2.closed = true) :
    Emptied n before p (step.run before).2 := by
  have hended := (Transport.lived_life (.inl hopen) step).opened_or_ended.resolve_left
    (by simp [hcloses])
  have hthere (after : List (FateStep n)) := (h.run (.inr hended) after).2.there
  refine ⟨fun after => ⟨_, hthere after, ?_⟩, ?_, fun hfree =>
    Transport.settled_of_free hopen hfree hcloses⟩
  · rw [hended.knownTypes_live, Transport.knownTypes_of_closes hopen hcloses]
  · rw [← Transport.forall_isEmpty_iff hopen hcloses]
    constructor
    · intro hall steps
      obtain ⟨t', ht', hempty⟩ := hall (steps.map .own)
      have hsteps : (steps.map (FateStep.own (n := n))).flatMap FateStep.life = steps := by
        rw [List.flatMap_map]
        exact List.flatMap_singleton' steps
      rw [hthere, hsteps] at ht'
      cases ht'
      exact hempty
    · exact fun hall after => ⟨_, hthere after, hall _⟩

end TransportPool

end PvNet
