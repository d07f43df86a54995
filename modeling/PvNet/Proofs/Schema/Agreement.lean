import PvNet.Proofs.Schema.LostNumbers
set_option autoImplicit false

/-!
# Agreement of sender and receiver

A receiver is in step with a sender if every number that the sender has given stands
for the same descriptor at the receiver, except for what is pending.  Then no number is
lost: everything resolves that is lower than what is pending, so it arrives.
-/

namespace PvNet

open Decoder

/-! ## The invariant -/

/-- Every number that the sender has given, except to pending descriptors, stands for the same
descriptor at the receiver, with its true levels. -/
structure InStep (pending : List Field) (sent : SentTypes) (known : KnownTypes) : Prop where
  numbered : sent.Numbered
  agrees : ∀ f n, sent.number? f = some n → f ∉ pending → known.find? n = some ⟨f, f.levels⟩

namespace InStep

variable {pending : List Field} {sent : SentTypes} {known : KnownTypes} {f : Field}

theorem fresh (capacity : Nat) : InStep [] (SentTypes.withCapacity capacity) {} :=
  ⟨SentTypes.numbered_withCapacity capacity, fun _ _ h => nomatch h⟩

/-- A sender may forget its numbers at any time; the receiver need not know. -/
theorem clear (h : InStep pending sent known) : InStep pending sent.clear known :=
  ⟨h.numbered.clear, fun _ _ h => nomatch h⟩

/-- What a step of writing and the reading of it establish: the receiver reads back what the sender
wrote, they are in step again, and no number has changed. -/
def Carries {α : Type} (pending : List Field) (o : ByteOrder) (sent : SentTypes)
    (known : KnownTypes) (written : Bytes × SentTypes) (d : Decoder KnownTypes α) (a : α) : Prop :=
  ∃ known', d.Reads o known written.1 a known' ∧ InStep pending written.2 known' ∧
    sent.Extends written.2

/-- A number that is not that of a pending descriptor is none that is lost. -/
theorem resolves_number (h : InStep pending sent known) (hsettled : f ∉ pending) {inside : Bool}
    (hinside : inside = true) : sent.resolves known f inside = true := by
  cases hnumber : sent.number? f with
  | none => rw [SentTypes.resolves_of_new hnumber, hinside]
  | some n =>
    rw [SentTypes.resolves_of_known hnumber, KnownTypes.field?, h.agrees f n hnumber hsettled]
    exact decide_eq_true rfl

end InStep

/-! ## Descriptors -/

open InStep (Carries)

mutual

/-- To a receiver that is in step everything resolves that is lower than what is pending. -/
theorem Field.resolves_of_inStep {pending : List Field} {sent : SentTypes} {known : KnownTypes}
    (h : InStep pending sent known) :
    ∀ f : Field, (∀ g ∈ pending, f.levels < g.levels) → f.resolves sent known = true
  | .scalar _, _ => rfl
  | .scalarArray _, _ => rfl
  | .struct s, hpending => Structure.resolves_of_inStep h s hpending
  | .structArray s, hpending => by
    refine h.resolves_number (fun hmem => Nat.lt_irrefl _ (hpending _ hmem)) ?_
    exact Structure.resolves_of_inStep h s fun g hg =>
      Nat.lt_trans (Nat.lt_succ_self _) (hpending g hg)

theorem Structure.resolves_of_inStep {pending : List Field} {sent : SentTypes} {known : KnownTypes}
    (h : InStep pending sent known) :
    ∀ s : Structure, (∀ g ∈ pending, (Field.struct s).levels < g.levels) →
      s.resolves sent known = true
  | ⟨id, ms⟩, hpending => by
    refine h.resolves_number (fun hmem => Nat.lt_irrefl _ (hpending _ hmem)) ?_
    exact Structure.membersResolve_of_inStep h ms fun g hg =>
      Nat.lt_trans (Nat.lt_succ_self _) (hpending g hg)

theorem Structure.membersResolve_of_inStep {pending : List Field} {sent : SentTypes}
    {known : KnownTypes} (h : InStep pending sent known) :
    ∀ ms : List (String × Field), (∀ g ∈ pending, Structure.memberHeight 1 ms < g.levels) →
      Structure.membersResolve sent known ms = true
  | [], _ => rfl
  | (_, f) :: ms, hpending => by
    simp only [Structure.memberHeight, Nat.max_lt] at hpending
    rw [Structure.membersResolve, Field.resolves_of_inStep h f fun g hg => (hpending g hg).1,
      Structure.membersResolve_of_inStep h ms fun g hg => (hpending g hg).2, Bool.true_and]

end

/-- A descriptor arrives as it was written, whatever the tables hold, as long as they are in step
and there is room for its levels. -/
theorem Field.carries_encode {o : ByteOrder} (f : Field) {room : Nat} {pending : List Field}
    {sent : SentTypes} {known : KnownTypes} (h : InStep pending sent known)
    (hpending : ∀ g ∈ pending, f.levels < g.levels) (hroom : f.levels ≤ room)
    (hfits : f.fits = true) :
    Carries pending o sent known (f.encode o sent) (Field.decodeLevelled room)
      (some ⟨f, f.levels⟩) := by
  have hstart : Since sent known pending sent known :=
    .start h.numbered fun f n hf hsettled _ => h.agrees f n hf hsettled
  obtain ⟨known', hreads, hsince, hextends⟩ :=
    (Field.conveys_encode (o := o) f hstart hpending hroom hfits).arrives
      (Field.resolves_of_inStep h f hpending)
  refine ⟨known', hreads, ⟨hsince.numbered, fun g n hg hsettled => ?_⟩, hextends⟩
  refine hsince.agrees g n hg hsettled fun hold => ?_
  rw [KnownTypes.field?, h.agrees g n hold hsettled]
  rfl

end PvNet
