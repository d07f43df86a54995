import PvNet.Wire.Bytes
set_option autoImplicit false

/-!
# Hexadecimal text

Octets are shown as two hexadecimal digits, in capitals inside messages
(`0xCA`) and in small letters where a whole string of octets is shown.
-/

namespace PvNet.Hex

/-- The hexadecimal digit of a number below 16, in small letters. -/
def digit (n : Nat) : Char :=
  if n < 10 then Char.ofNat (48 + n) else Char.ofNat (87 + n)

/-- The hexadecimal digit of a number below 16, in capitals. -/
def capital (n : Nat) : Char :=
  if n < 10 then Char.ofNat (48 + n) else Char.ofNat (55 + n)

/-- The value of a hexadecimal digit of either case. -/
def digit? (c : Char) : Option Nat :=
  if '0' ≤ c ∧ c ≤ '9' then some (c.toNat - 48)
  else if 'a' ≤ c ∧ c ≤ 'f' then some (c.toNat - 87)
  else if 'A' ≤ c ∧ c ≤ 'F' then some (c.toNat - 55)
  else none

/-- An octet as two capitals. -/
def octet (b : UInt8) : String :=
  String.ofList [capital (b.toNat / 16), capital (b.toNat % 16)]

/-- A string of octets in small letters, two digits each. -/
def render (bs : Bytes) : String :=
  String.ofList (bs.flatMap fun b => [digit (b.toNat / 16), digit (b.toNat % 16)])

/-- A number in small letters without leading zeros. -/
def ofNat (n : Nat) : String := String.ofList (Nat.toDigits 16 n)

/-- Reads pairs of digits onto the octets read so far, latest first. -/
def parsePairs : List Char → Bytes → Option Bytes
  | [], acc => some acc.reverse
  | a :: b :: rest, acc =>
    match digit? a, digit? b with
    | some x, some y => parsePairs rest (UInt8.ofNat (16 * x + y) :: acc)
    | _, _ => none
  | [_], _ => none

/-- The octets that a text of paired digits stands for. -/
def parse? (s : String) : Option Bytes := parsePairs s.toList []

end PvNet.Hex
