set_option autoImplicit false

/-!
# Bytes and byte order

Every message declares the order of its multi-byte fields.  A word is written as
its base-256 digits, least significant first in little-endian order and reversed
in big-endian order, so both orders share one pair of functions, `digits` and
`ofDigits`, and one pair of inverse laws.
-/

namespace PvNet

/-- A string of octets, as it travels. -/
abbrev Bytes : Type := List UInt8

/-- The order of the octets of a multi-byte field. -/
inductive ByteOrder where
  /-- Most significant octet first. -/
  | big
  /-- Least significant octet first. -/
  | little
  deriving DecidableEq, Repr, Inhabited

namespace Wire

/-- The `width` least significant base-256 digits of `n`, least significant first. -/
def digits : Nat → Nat → Bytes
  | 0, _ => []
  | width + 1, n => UInt8.ofNat n :: digits width (n / 256)

/-- The number whose base-256 digits, least significant first, are given. -/
def ofDigits : Bytes → Nat
  | [] => 0
  | b :: bs => b.toNat + 256 * ofDigits bs

@[simp] theorem length_digits (width n : Nat) : (digits width n).length = width := by
  induction width generalizing n with
  | zero => rfl
  | succ w ih => simp [digits, ih]

theorem ofDigits_digits (width n : Nat) : ofDigits (digits width n) = n % Nat.pow 256 width := by
  induction width generalizing n with
  | zero => exact (Nat.mod_one n).symm
  | succ w ih =>
    have hstep : n % Nat.pow 256 (w + 1) = n % 256 + 256 * (n / 256 % Nat.pow 256 w) := by
      rw [show Nat.pow 256 (w + 1) = 256 * Nat.pow 256 w from Nat.mul_comm ..]
      exact Nat.mod_mul
    simp only [digits, ofDigits, ih, UInt8.toNat_ofNat', hstep]

theorem digits_ofDigits (bs : Bytes) : digits bs.length (ofDigits bs) = bs := by
  induction bs with
  | nil => rfl
  | cons b bs ih =>
    have hb : b.toNat < 256 := b.toNat_lt
    have hmod : (b.toNat + 256 * ofDigits bs) / 256 = ofDigits bs := by omega
    have hhead : UInt8.ofNat (b.toNat + 256 * ofDigits bs) = b := by
      apply UInt8.toNat_inj.mp
      simp only [UInt8.toNat_ofNat']
      omega
    simp only [List.length_cons, digits, ofDigits, hhead, hmod, ih]

end Wire

namespace ByteOrder

/-- The `width` octets of `n` in this order. -/
def encode (o : ByteOrder) (width n : Nat) : Bytes :=
  match o with
  | .little => Wire.digits width n
  | .big => (Wire.digits width n).reverse

/-- The number that octets in this order stand for. -/
def decode (o : ByteOrder) (bs : Bytes) : Nat :=
  match o with
  | .little => Wire.ofDigits bs
  | .big => Wire.ofDigits bs.reverse

@[simp] theorem length_encode (o : ByteOrder) (width n : Nat) :
    (o.encode width n).length = width := by
  cases o <;> simp [encode]

theorem decode_encode (o : ByteOrder) (width n : Nat) :
    o.decode (o.encode width n) = n % Nat.pow 256 width := by
  cases o with
  | little => exact Wire.ofDigits_digits width n
  | big => simp only [encode, decode, List.reverse_reverse, Wire.ofDigits_digits]

theorem encode_decode (o : ByteOrder) (bs : Bytes) : o.encode bs.length (o.decode bs) = bs := by
  cases o with
  | little => exact Wire.digits_ofDigits bs
  | big =>
    have h := Wire.digits_ofDigits bs.reverse
    rw [List.length_reverse] at h
    simp only [encode, decode, h, List.reverse_reverse]

theorem decode_lt (o : ByteOrder) (bs : Bytes) : o.decode bs < Nat.pow 256 bs.length := by
  have hmod := o.decode_encode bs.length (o.decode bs)
  rw [o.encode_decode] at hmod
  rw [hmod]
  exact Nat.mod_lt _ (Nat.pow_pos (by decide))

end ByteOrder

end PvNet
