import PvNet.Wire.Encode
set_option autoImplicit false

/-!
# Decoders

A decoder runs over the octets not yet read, in a byte order fixed by the message,
and may change a state that outlives it, such as the table of descriptors of a
connection.  Its `Outcome` holds the result, the state and the octets left over;
the last two are meaningful after a failure too, since what was consumed before a
failure stays consumed.  Position is the number of octets consumed.

Primitive decoders are the same for every state.  `times` repeats a decoder in a
loop of constant stack depth.
-/

namespace PvNet

/-- What a decoder leaves behind. -/
structure Outcome (σ α : Type) where
  /-- The decoded item, or why there is none. -/
  result : Except WireError α
  /-- The state after the decoder. -/
  state : σ
  /-- The octets not consumed. -/
  rest : Bytes

/-- Reads an item of type `α` and may change a state of type `σ`. -/
def Decoder (σ α : Type) : Type := ByteOrder → σ → Bytes → Outcome σ α

namespace Decoder

variable {σ α β : Type}

/-- Runs a decoder. -/
def run (d : Decoder σ α) (o : ByteOrder) (s : σ) (bs : Bytes) : Outcome σ α := d o s bs

instance : Monad (Decoder σ) where
  pure a := fun _ s bs => ⟨.ok a, s, bs⟩
  bind d f := fun o s bs =>
    match d o s bs with
    | ⟨.ok a, s', rest⟩ => f a o s' rest
    | ⟨.error e, s', rest⟩ => ⟨.error e, s', rest⟩

/-- Fails without consuming anything. -/
def fail (e : WireError) : Decoder σ α := fun _ s bs => ⟨.error e, s, bs⟩

/-- The state. -/
def get : Decoder σ σ := fun _ s bs => ⟨.ok s, s, bs⟩

/-- Changes the state. -/
def modify (f : σ → σ) : Decoder σ Unit := fun _ s bs => ⟨.ok (), f s, bs⟩

/-- The byte order of the message. -/
def order : Decoder σ ByteOrder := fun o s bs => ⟨.ok o, s, bs⟩

/-- Whether at least `n` octets are there; looks at no more than `n` of them. -/
def hasAtLeast : Nat → Bytes → Bool
  | 0, _ => true
  | _ + 1, [] => false
  | n + 1, _ :: bs => hasAtLeast n bs

theorem hasAtLeast_iff (n : Nat) (bs : Bytes) : hasAtLeast n bs = true ↔ n ≤ bs.length := by
  induction n generalizing bs with
  | zero => simp [hasAtLeast]
  | succ n ih => cases bs <;> simp [hasAtLeast, ih]

/-- The next `n` octets. -/
def take (n : Nat) : Decoder σ Bytes := fun _ s bs =>
  if hasAtLeast n bs then ⟨.ok (bs.take n), s, bs.drop n⟩
  else ⟨.error (.truncated n bs.length), s, bs⟩

/-- The next octet, left in place. -/
def peek : Decoder σ UInt8 := fun _ s bs =>
  match bs with
  | [] => ⟨.error (.truncated 1 0), s, bs⟩
  | b :: _ => ⟨.ok b, s, bs⟩

/-- The next octet. -/
def octet : Decoder σ UInt8 := fun _ s bs =>
  match bs with
  | [] => ⟨.error (.truncated 1 0), s, []⟩
  | b :: rest => ⟨.ok b, s, rest⟩

/-- The next `width` octets as a number in the order of the message. -/
def number (width : Nat) : Decoder σ Nat := do
  let bs ← take width
  return (← order).decode bs

/-- A truth value; every octet but zero is true. -/
def bool : Decoder σ Bool := do return (← octet) != 0

/-- A 16-bit word. -/
def word16 : Decoder σ UInt16 := UInt16.ofNat <$> number 2

/-- A 32-bit word. -/
def word32 : Decoder σ UInt32 := UInt32.ofNat <$> number 4

/-- A 64-bit word. -/
def word64 : Decoder σ UInt64 := UInt64.ofNat <$> number 8

/-- A size, which may be absent. -/
def size : Decoder σ (Option Nat) := do
  let first ← octet
  if first = Wire.nullSize then return none
  else if first = Wire.longSize then
    let n := (← word32).toInt32.toInt
    if n < 0 then fail (.invalidSize n) else return some n.toNat
  else return some first.toNat

/-- A size that has to be present. -/
def length : Decoder σ Nat := do
  match ← size with
  | some n => return n
  | none => fail (.invalidSize (-1))

/-- The text of which the octets are the UTF-8 form. -/
def text? (bs : Bytes) : Option String := String.fromUTF8? ⟨bs.toArray⟩

/-- A string with its size in front; an absent size reads as the empty string. -/
def string : Decoder σ String := do
  match ← size with
  | none => return ""
  | some n =>
    match text? (← take n) with
    | some s => return s
    | none => fail .invalidText

/-- Runs a decoder `n` more times, putting the items in front of those read so far. -/
def timesOnto (d : Decoder σ α) (o : ByteOrder) : Nat → List α → σ → Bytes → Outcome σ (List α)
  | 0, acc, s, bs => ⟨.ok acc.reverse, s, bs⟩
  | n + 1, acc, s, bs =>
    match d o s bs with
    | ⟨.ok a, s', rest⟩ => timesOnto d o n (a :: acc) s' rest
    | ⟨.error e, s', rest⟩ => ⟨.error e, s', rest⟩

/-- Runs a decoder `n` times. -/
def times (n : Nat) (d : Decoder σ α) : Decoder σ (List α) := fun o s bs => timesOnto d o n [] s bs

end Decoder

end PvNet
