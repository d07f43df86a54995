import PvNet.Proofs.Wire.Reading
set_option autoImplicit false

/-!
# Invariants of the state of a decoder

What a decoder does to its state outlives a failure, so an invariant has to hold
after a failure as well.  `Decoder.Maintains` says this together with what is known
of the item that was read, which is what the next decoder starts from.
-/

namespace PvNet

namespace Decoder

variable {σ α β : Type}

/-- From a state with `I` the decoder leaves a state with `I`, whether or not it fails, and what it
reads has `Q`. -/
def Maintains (I : σ → Prop) (d : Decoder σ α) (Q : α → Prop) : Prop :=
  ∀ o s bs, I s → I (d.run o s bs).state ∧ ∀ a, (d.run o s bs).result = .ok a → Q a

/-- A text is as long as its octets. -/
theorem utf8ByteSize_of_text? {bs : Bytes} {text : String} (h : text? bs = some text) :
    text.utf8ByteSize = bs.length := by
  unfold text? String.fromUTF8? at h
  split at h
  · obtain rfl := Option.some.inj h
    rfl
  · cases h

namespace Maintains

variable {I : σ → Prop} {P Q : α → Prop} {R : β → Prop}

theorem of_run {d : Decoder σ α} (h : d.Maintains I Q) {o : ByteOrder} {s s' : σ} {bs rest : Bytes}
    {a : α} (hrun : d.run o s bs = ⟨.ok a, s', rest⟩) (hs : I s) : Q a :=
  (h o s bs hs).2 a (by rw [hrun])

theorem pure {a : α} (h : Q a) : (pure a : Decoder σ α).Maintains I Q := by
  intro o s bs hs
  refine ⟨hs, fun b hb => ?_⟩
  obtain rfl : a = b := Except.ok.inj hb
  exact h

theorem fail (e : WireError) : (fail e : Decoder σ α).Maintains I Q :=
  fun _ _ _ hs => ⟨hs, fun _ ha => nomatch ha⟩

theorem mono {d : Decoder σ α} (hd : d.Maintains I P) (h : ∀ a, P a → Q a) : d.Maintains I Q := by
  intro o s bs hs
  obtain ⟨hstate, hresult⟩ := hd o s bs hs
  exact ⟨hstate, fun a ha => h a (hresult a ha)⟩

theorem get : (get : Decoder σ σ).Maintains I I := by
  intro o s bs hs
  refine ⟨hs, fun t ht => ?_⟩
  obtain rfl : s = t := Except.ok.inj ht
  exact hs

theorem modify {f : σ → σ} (h : ∀ s, I s → I (f s)) : (modify f).Maintains I fun _ => True :=
  fun _ s _ hs => ⟨h s hs, fun _ _ => trivial⟩

theorem order : (order : Decoder σ ByteOrder).Maintains I fun _ => True :=
  fun _ _ _ hs => ⟨hs, fun _ _ => trivial⟩

theorem bind {d : Decoder σ α} {f : α → Decoder σ β} (hd : d.Maintains I P)
    (hf : ∀ a, P a → (f a).Maintains I R) : (d >>= f).Maintains I R := by
  intro o s bs hs
  obtain ⟨hstate, hresult⟩ := hd o s bs hs
  -- A failure ends both decoders, and then only the state matters.
  rcases h : d.run o s bs with ⟨e | a, s', rest⟩
  · rw [h] at hstate
    rw [run_bind_of_error h]
    exact ⟨hstate, fun _ hb => nomatch hb⟩
  · rw [h] at hstate hresult
    rw [run_bind_of_ok h]
    exact hf a (hresult a rfl) o s' rest hstate

theorem map {d : Decoder σ α} {f : α → β} (hd : d.Maintains I P) (h : ∀ a, P a → R (f a)) :
    (f <$> d).Maintains I R :=
  hd.bind fun a ha => pure (h a ha)

theorem times {d : Decoder σ α} (hd : d.Maintains I P) (n : Nat) :
    (times n d).Maintains I fun as => as.length = n ∧ ∀ a ∈ as, P a := by
  induction n with
  | zero => exact pure (by simp)
  | succ n ih =>
    rw [times_succ]
    refine hd.bind fun a ha => ih.bind fun as has => pure ⟨congrArg (· + 1) has.1, ?_⟩
    intro b hb
    rcases List.mem_cons.1 hb with rfl | hb
    · exact ha
    · exact has.2 b hb

/-! The primitive formats do not touch the state, and no size that is read is beyond the largest. -/

theorem octet : (octet : Decoder σ UInt8).Maintains I fun _ => True := by
  intro o s bs hs
  cases bs with
  | nil => exact ⟨hs, fun _ _ => trivial⟩
  | cons b bs => exact ⟨hs, fun _ _ => trivial⟩

theorem take (n : Nat) : (take n : Decoder σ Bytes).Maintains I fun bs => bs.length = n := by
  intro o s bs hs
  show I (if hasAtLeast n bs then _ else _ : Outcome σ Bytes).state ∧
    ∀ as, (if hasAtLeast n bs then _ else _ : Outcome σ Bytes).result = .ok as → as.length = n
  split
  · rename_i hlength
    refine ⟨hs, fun as has => ?_⟩
    obtain rfl := Except.ok.inj has
    exact List.length_take_of_le ((hasAtLeast_iff n bs).1 hlength)
  · exact ⟨hs, fun _ has => nomatch has⟩

theorem number (width : Nat) : (number width : Decoder σ Nat).Maintains I fun _ => True :=
  (take width).bind fun _ _ => order.bind fun _ _ => pure trivial

theorem bool : (bool : Decoder σ Bool).Maintains I fun _ => True :=
  octet.bind fun _ _ => pure trivial

theorem word16 : (word16 : Decoder σ UInt16).Maintains I fun _ => True :=
  (number 2).map fun _ _ => trivial

theorem word32 : (word32 : Decoder σ UInt32).Maintains I fun _ => True :=
  (number 4).map fun _ _ => trivial

theorem word64 : (word64 : Decoder σ UInt64).Maintains I fun _ => True :=
  (number 8).map fun _ _ => trivial

theorem size :
    (size : Decoder σ (Option Nat)).Maintains I fun n => ∀ m, n = some m → m ≤ Wire.maxSize := by
  refine octet.bind fun first _ => ?_
  split
  · exact pure fun _ h => nomatch h
  · split
    · refine word32.bind fun n _ => ?_
      show Maintains I (if n.toInt32.toInt < 0 then _ else _) _
      split
      · exact fail _
      · refine pure fun m h => ?_
        obtain rfl := Option.some.inj h
        have hlt := n.toInt32.toInt_lt
        unfold Wire.maxSize
        omega
    · refine pure fun m h => ?_
      obtain rfl := Option.some.inj h
      exact Nat.le_trans (Nat.le_of_lt first.toNat_lt) (by decide)

theorem length : (length : Decoder σ Nat).Maintains I fun n => n ≤ Wire.maxSize := by
  refine size.bind fun n hn => ?_
  cases n with
  | none => exact fail _
  | some n => exact pure (hn n rfl)

theorem string :
    (string : Decoder σ String).Maintains I fun text => text.utf8ByteSize ≤ Wire.maxSize := by
  refine size.bind fun n hn => ?_
  cases n with
  | none => exact pure (Nat.zero_le _)
  | some n =>
    refine (take n).bind fun bs hbs => ?_
    split
    · rename_i text htext
      refine pure ?_
      rw [utf8ByteSize_of_text? htext, hbs]
      exact hn n rfl
    · exact fail _

end Maintains

end Decoder

end PvNet
