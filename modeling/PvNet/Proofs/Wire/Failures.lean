import PvNet.Proofs.Wire.Composition
set_option autoImplicit false

/-!
# Why decoders fail

`Decoder.FailsFor` bounds the reasons for which a decoder fails, in terms of the
octets that it starts from and those that it leaves.  A bound carries over to
decoders in sequence if reasons stay reasons when octets were consumed before
(`Reasons.Closed`).  What is composed of primitive decoders blames the octets alone,
which every closed set of reasons allows, apart from failures of its own
(`Composed.failsFor`).
-/

namespace PvNet

/-- A set of reasons for a failure, given the octets at the start and those that are left. -/
def Reasons : Type := ByteOrder → Bytes → Bytes → WireError → Prop

namespace Reasons

/-- The octets are malformed, whatever they are. -/
def malformed : Reasons := fun _ _ _ e => e.isDecode = true

/-- The reasons for what stands behind an octet. -/
def behind (P : Reasons) (b : UInt8) : Reasons := fun o bs => P o (b :: bs)

/-- The reasons include malformed octets, and they do not depend on what stands in front. -/
structure Closed (P : Reasons) : Prop where
  of_isDecode : ∀ {o : ByteOrder} {bs rest : Bytes} {e : WireError}, e.isDecode = true →
    P o bs rest e
  append : ∀ {o : ByteOrder} {bs rest : Bytes} {e : WireError} (front : Bytes), P o bs rest e →
    P o (front ++ bs) rest e

theorem closed_malformed : malformed.Closed := ⟨id, fun _ => id⟩

end Reasons

/-- What is left is at the end of the octets `bs`, and a failure is for one of the reasons. -/
inductive Outcome.FailsFor {σ α : Type} (P : Reasons) (o : ByteOrder) (bs : Bytes) :
    Outcome σ α → Prop where
  | ok {a : α} {s : σ} {rest : Bytes} (left : rest <:+ bs) : FailsFor P o bs ⟨.ok a, s, rest⟩
  | error {e : WireError} {s : σ} {rest : Bytes} (left : rest <:+ bs) (reason : P o bs rest e) :
      FailsFor P o bs ⟨.error e, s, rest⟩

namespace Outcome.FailsFor

variable {σ α : Type} {P P' : Reasons} {o : ByteOrder} {bs bs' : Bytes} {out : Outcome σ α}

theorem reason {e : WireError} (h : out.FailsFor P o bs) (he : out.result = .error e) :
    P o bs out.rest e := by
  cases h with
  | ok => cases he
  | error _ reason =>
    obtain rfl := Except.error.inj he
    exact reason

/-- Starting further in front. -/
theorem mono (h : out.FailsFor P o bs) (hbs : bs <:+ bs')
    (hreason : ∀ rest e, P o bs rest e → P' o bs' rest e) : out.FailsFor P' o bs' := by
  cases h with
  | ok left => exact .ok (left.trans hbs)
  | error left reason => exact .error (left.trans hbs) (hreason _ _ reason)

/-- The state has no part in it. -/
theorem withState {τ : Type} (h : out.FailsFor P o bs) (s : τ) :
    (⟨out.result, s, out.rest⟩ : Outcome τ α).FailsFor P o bs := by
  cases h with
  | ok left => exact .ok left
  | error left reason => exact .error left reason

end Outcome.FailsFor

namespace Decoder

variable {σ α β : Type} {P : Reasons}

/-- The decoder consumes octets from the front, and fails for these reasons only. -/
def FailsFor (P : Reasons) (d : Decoder σ α) : Prop :=
  ∀ o s bs, (d.run o s bs).FailsFor P o bs

namespace FailsFor

theorem pure (a : α) : (pure a : Decoder σ α).FailsFor P := by
  intro o s bs
  exact .ok (List.suffix_refl bs)

theorem fail {e : WireError} (h : ∀ o bs, P o bs bs e) : (fail e : Decoder σ α).FailsFor P := by
  intro o s bs
  exact .error (List.suffix_refl bs) (h o bs)

theorem get : (get : Decoder σ σ).FailsFor P := by
  intro o s bs
  exact .ok (List.suffix_refl bs)

theorem modify (f : σ → σ) : (modify f).FailsFor P := by
  intro o s bs
  exact .ok (List.suffix_refl bs)

theorem order : (order : Decoder σ ByteOrder).FailsFor P := by
  intro o s bs
  exact .ok (List.suffix_refl bs)

/-- Two decoders in a row, if it is known why the second one fails where the first one ended. -/
theorem bind_of_run {d : Decoder σ α} {f : α → Decoder σ β} (hd : d.FailsFor P)
    (hf : ∀ o s bs a s' rest, d.run o s bs = ⟨.ok a, s', rest⟩ → rest <:+ bs →
      ((f a).run o s' rest).FailsFor P o bs) : (d >>= f).FailsFor P := by
  intro o s bs
  have hfirst := hd o s bs
  rcases h : d.run o s bs with ⟨e | a, s', rest⟩
  · rw [h] at hfirst
    rw [run_bind_of_error h]
    cases hfirst with
    | error left reason => exact .error left reason
  · rw [h] at hfirst
    rw [run_bind_of_ok h]
    cases hfirst with
    | ok left => exact hf o s bs a s' rest h left

section

variable (hP : P.Closed)

include hP

theorem bind {d : Decoder σ α} {f : α → Decoder σ β} (hd : d.FailsFor P)
    (hf : ∀ a, (f a).FailsFor P) : (d >>= f).FailsFor P := by
  apply bind_of_run hd
  intro o s bs a s' rest _ left
  -- The second decoder starts from what the first one left.
  obtain ⟨front, rfl⟩ := left
  exact (hf a o s' rest).mono (List.suffix_append front rest) fun _ _ => hP.append front

theorem map {d : Decoder σ α} (f : α → β) (hd : d.FailsFor P) : (f <$> d).FailsFor P :=
  bind hP hd fun a => pure (f a)

theorem times {d : Decoder σ α} (hd : d.FailsFor P) (n : Nat) : (times n d).FailsFor P := by
  induction n with
  | zero => exact pure []
  | succ n ih =>
    rw [times_succ]
    apply bind hP hd
    intro a
    exact map hP (a :: ·) ih

/-- Reasons do not depend on an octet in front. -/
theorem behind {d : Decoder σ α} (hd : d.FailsFor P) (b : UInt8) : d.FailsFor (P.behind b) := by
  intro o s bs
  exact (hd o s bs).mono (List.suffix_refl bs) fun _ _ => hP.append [b]

/-! ## Primitive formats -/

theorem fail_decode {e : WireError} (h : e.isDecode = true) :
    (Decoder.fail e : Decoder σ α).FailsFor P :=
  fail fun _ _ => hP.of_isDecode h

/-- What follows an octet may fail for reasons that involve the octet. -/
theorem octet_bind {f : UInt8 → Decoder σ α} (hf : ∀ b, (f b).FailsFor (P.behind b)) :
    (octet >>= f).FailsFor P := by
  intro o s bs
  cases bs with
  | nil => exact .error (List.suffix_refl []) (hP.of_isDecode rfl)
  | cons b bs =>
    rw [run_octet_bind]
    exact (hf b o s bs).mono (List.suffix_cons b bs) fun _ _ => id

theorem octet : (octet : Decoder σ UInt8).FailsFor P := by
  intro o s bs
  cases bs with
  | nil => exact .error (List.suffix_refl []) (hP.of_isDecode rfl)
  | cons b bs => exact .ok (List.suffix_cons b bs)

theorem take (n : Nat) : (take n : Decoder σ Bytes).FailsFor P := by
  intro o s bs
  show (if hasAtLeast n bs then _ else _ : Outcome σ Bytes).FailsFor P o bs
  split
  · exact .ok (List.drop_suffix n bs)
  · exact .error (List.suffix_refl bs) (hP.of_isDecode rfl)

end

end FailsFor

/-- By induction on how the decoder is composed. -/
theorem Composed.failsFor {other : WireError → Prop} {d : Decoder σ α} (h : d.Composed other)
    (hP : P.Closed) (hother : ∀ e, other e → ∀ o bs, P o bs bs e) : d.FailsFor P := by
  induction h with
  | pure a => exact FailsFor.pure a
  | fail h =>
    rcases h with h | h
    · exact FailsFor.fail_decode hP h
    · exact FailsFor.fail (hother _ h)
  | get => exact FailsFor.get
  | modify f => exact FailsFor.modify f
  | order => exact FailsFor.order
  | octet => exact FailsFor.octet hP
  | take n => exact FailsFor.take hP n
  | bind _ _ ihd ihf => exact FailsFor.bind hP ihd ihf

namespace FailsFor

variable (hP : P.Closed)

include hP

/-- A decoder that blames the octets only. -/
theorem of_plain {d : Decoder σ α} (h : d.Plain) : d.FailsFor P :=
  h.failsFor hP fun _ h => h.elim

theorem word16 : (word16 : Decoder σ UInt16).FailsFor P := of_plain hP Composed.word16

theorem length : (length : Decoder σ Nat).FailsFor P := of_plain hP Composed.length

theorem string : (string : Decoder σ String).FailsFor P := of_plain hP Composed.string

end FailsFor

end Decoder

end PvNet
