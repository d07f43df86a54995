import PvNet.Number.Total
import PvNet.Proofs.Wire.Reading
set_option autoImplicit false

/-!
# What decoders consume

`Decoder.Costs` says that an item takes up at least as many octets as it is said to
cost.  Costs add up along a sequence of decoders.
-/

namespace PvNet

namespace Decoder

variable {σ α β : Type} {cost : α → Nat} {cost' : β → Nat}

/-- An item takes up at least as many octets as it costs. -/
def Costs (d : Decoder σ α) (cost : α → Nat) : Prop :=
  ∀ o s bs a s' rest, d.run o s bs = ⟨.ok a, s', rest⟩ → rest.length + cost a ≤ bs.length

namespace Costs

theorem of_run {d : Decoder σ α} (h : d.Costs cost) {o : ByteOrder} {s s' : σ} {bs rest : Bytes}
    {a : α} (hrun : d.run o s bs = ⟨.ok a, s', rest⟩) : rest.length + cost a ≤ bs.length :=
  h o s bs a s' rest hrun

theorem pure {a : α} (h : cost a = 0) : (pure a : Decoder σ α).Costs cost := by
  intro o s bs a' s' rest hrun
  obtain ⟨ha, rfl, rfl⟩ := Outcome.mk.inj hrun
  obtain rfl : a = a' := Except.ok.inj ha
  omega

theorem fail (e : WireError) : (fail e : Decoder σ α).Costs cost := by
  intro o s bs a s' rest hrun
  cases hrun

theorem order : (order : Decoder σ ByteOrder).Costs fun _ => 0 := by
  intro o s bs a s' rest hrun
  obtain ⟨_, rfl, rfl⟩ := Outcome.mk.inj hrun
  exact Nat.le_refl _

/-- The second decoder pays for what the first one has not paid for. -/
theorem bind {d : Decoder σ α} {f : α → Decoder σ β} (hd : d.Costs cost)
    (hf : ∀ a, (f a).Costs fun b => cost' b - cost a) : (d >>= f).Costs cost' := by
  intro o s bs b s'' rest hrun
  obtain ⟨a, s', cs, hfirst, hsecond⟩ := exists_of_run_bind hrun
  have hrest := (hf a).of_run hsecond
  have hcs := hd.of_run hfirst
  omega

theorem map {d : Decoder σ α} {f : α → β} (hd : d.Costs cost) (h : ∀ a, cost' (f a) ≤ cost a) :
    (f <$> d).Costs cost' :=
  hd.bind fun a => pure (a := f a) (Nat.sub_eq_zero_of_le (h a))

theorem times {d : Decoder σ α} (hd : d.Costs cost) (n : Nat) :
    (times n d).Costs (total cost) := by
  induction n with
  | zero => exact pure rfl
  | succ n ih =>
    rw [times_succ]
    refine hd.bind fun a => ih.bind fun as => pure ?_
    rw [total_cons]
    omega

/-! ## Primitive formats -/

theorem octet : (octet : Decoder σ UInt8).Costs fun _ => 1 := by
  intro o s bs b s' rest hrun
  cases bs with
  | nil => cases hrun
  | cons first bs =>
    obtain ⟨_, rfl, rfl⟩ := Outcome.mk.inj hrun
    exact Nat.le_refl _

theorem take (n : Nat) : (take n : Decoder σ Bytes).Costs fun _ => n := by
  intro o s bs as s' rest hrun
  have hrun : (if hasAtLeast n bs then ⟨.ok (bs.take n), s, bs.drop n⟩
      else ⟨.error (.truncated n bs.length), s, bs⟩ : Outcome σ Bytes) = ⟨.ok as, s', rest⟩ := hrun
  split at hrun
  · rename_i hlength
    obtain ⟨_, rfl, rfl⟩ := Outcome.mk.inj hrun
    have hle := (hasAtLeast_iff n bs).1 hlength
    rw [List.length_drop]
    have hadd : (bs.length - n) + n ≤ bs.length := by omega
    exact hadd
  · cases hrun

theorem number (width : Nat) : (number width : Decoder σ Nat).Costs fun _ => width :=
  (take width).bind fun _ => order.bind fun _ => pure (by omega)

theorem bool : (bool : Decoder σ Bool).Costs fun _ => 1 :=
  octet.bind fun _ => pure (Nat.sub_self 1)

theorem word16 : (word16 : Decoder σ UInt16).Costs fun _ => 2 :=
  (number 2).map fun _ => Nat.le_refl 2

theorem word32 : (word32 : Decoder σ UInt32).Costs fun _ => 4 :=
  (number 4).map fun _ => Nat.le_refl 4

theorem word64 : (word64 : Decoder σ UInt64).Costs fun _ => 8 :=
  (number 8).map fun _ => Nat.le_refl 8

theorem size : (size : Decoder σ (Option Nat)).Costs fun _ => 1 := by
  refine octet.bind fun first => ?_
  split
  · exact pure (Nat.sub_self 1)
  split
  · refine word32.bind fun n => ?_
    show Costs (if n.toInt32.toInt < 0 then _ else _) _
    split
    · exact fail _
    · exact pure (by omega)
  · exact pure (Nat.sub_self 1)

theorem length : (length : Decoder σ Nat).Costs fun _ => 1 := by
  refine size.bind fun n => ?_
  cases n with
  | none => exact fail _
  | some n => exact pure (Nat.sub_self 1)

theorem string : (string : Decoder σ String).Costs fun _ => 1 := by
  refine size.bind fun n => ?_
  cases n with
  | none => exact pure (Nat.sub_self 1)
  | some n =>
    refine (take n).bind fun bs => ?_
    split
    · exact pure (by omega)
    · exact fail _

end Costs

end Decoder

end PvNet
