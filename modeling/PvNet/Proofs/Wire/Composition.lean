import PvNet.Proofs.Wire.Reading
set_option autoImplicit false

/-!
# Decoders composed of primitive ones

A format is read by a sequence of primitive decoders.  A primitive decoder takes octets
off the front, looks at the byte order or at the state, changes the state or fails, and
what it has read decides how the sequence goes on.  `Decoder.Composed` says that a decoder
is of this kind, and which of its failures do not blame the octets.

A property of the primitive decoders that sequences keep is then a property of every
such decoder, by one induction: where an item ends (`Composed.selfDelimiting`) and why an item
cannot be read (`Composed.failsFor`) are two such properties.
-/

namespace PvNet

namespace Decoder

variable {σ : Type}

/-- The decoder is a sequence of primitive ones.  Where it decides to fail, it blames the octets or
has one of its `other` failures. -/
inductive Composed (other : WireError → Prop) : {α : Type} → Decoder σ α → Prop where
  | pure {α : Type} (a : α) : Composed other (pure a : Decoder σ α)
  | fail {α : Type} {e : WireError} (h : e.isDecode = true ∨ other e) :
      Composed other (fail e : Decoder σ α)
  | get : Composed other (get : Decoder σ σ)
  | modify (f : σ → σ) : Composed other (modify f)
  | order : Composed other (order : Decoder σ ByteOrder)
  | octet : Composed other (octet : Decoder σ UInt8)
  | take (n : Nat) : Composed other (take n : Decoder σ Bytes)
  | bind {α β : Type} {d : Decoder σ α} {f : α → Decoder σ β} (hd : Composed other d)
      (hf : ∀ a, Composed other (f a)) : Composed other (d >>= f)

/-- The decoder is a sequence of primitive ones and blames the octets for every failure. -/
abbrev Plain {α : Type} (d : Decoder σ α) : Prop := d.Composed fun _ => False

namespace Composed

variable {α β : Type} {other : WireError → Prop}

/-- A plain decoder may be part of one that has other failures as well. -/
theorem of_plain {d : Decoder σ α} (h : d.Plain) : d.Composed other := by
  induction h with
  | pure a => exact pure a
  | fail h => exact fail (.inl (h.resolve_right id))
  | get => exact get
  | modify f => exact modify f
  | order => exact order
  | octet => exact octet
  | take n => exact take n
  | bind _ _ ihd ihf => exact bind ihd ihf

theorem map {d : Decoder σ α} (f : α → β) (hd : d.Composed other) : (f <$> d).Composed other :=
  bind hd fun a => pure (f a)

theorem times {d : Decoder σ α} (hd : d.Composed other) (n : Nat) :
    (times n d).Composed other := by
  induction n with
  | zero => exact pure []
  | succ n ih =>
    rw [times_succ]
    apply bind hd
    intro a
    exact map (a :: ·) ih

/-- A failure that blames the octets. -/
theorem fail_decode {e : WireError} (h : e.isDecode = true) :
    (Decoder.fail e : Decoder σ α).Composed other :=
  fail (.inl h)

/-! ## Primitive formats -/

theorem number (width : Nat) : (number width : Decoder σ Nat).Composed other := by
  apply bind (take width)
  intro bs
  exact bind order fun _ => pure _

theorem bool : (bool : Decoder σ Bool).Composed other := bind octet fun _ => pure _

theorem word16 : (word16 : Decoder σ UInt16).Composed other := map _ (number 2)

theorem word32 : (word32 : Decoder σ UInt32).Composed other := map _ (number 4)

theorem word64 : (word64 : Decoder σ UInt64).Composed other := map _ (number 8)

theorem size : (size : Decoder σ (Option Nat)).Composed other := by
  apply bind octet
  intro first
  split
  · exact pure none
  split
  · apply bind word32
    intro n
    show Composed other (if n.toInt32.toInt < 0 then _ else _)
    split
    · exact fail_decode rfl
    · exact pure _
  · exact pure _

theorem length : (length : Decoder σ Nat).Composed other := by
  apply bind size
  intro n
  cases n with
  | none => exact fail_decode rfl
  | some n => exact pure n

theorem string : (string : Decoder σ String).Composed other := by
  apply bind size
  intro n
  cases n with
  | none => exact pure ""
  | some n =>
    apply bind (take n)
    intro bs
    split
    · exact pure _
    · exact fail_decode rfl

/-- A list of strings with its length in front, as protocols and plugins are listed. -/
theorem strings {f : List String → Decoder σ α} (hf : ∀ texts, (f texts).Composed other) :
    (do f (← Decoder.times (← Decoder.length) Decoder.string) : Decoder σ α).Composed other := by
  apply bind length
  intro count
  exact bind (times string count) hf

end Composed

end Decoder

end PvNet
