set_option autoImplicit false

/-!
# Decimal numbers in texts

Whole numbers are written with ASCII digits, in front of which a plus sign may
stand; leading zeros are allowed.
-/

namespace PvNet.Decimal

/-- The value of a decimal digit. -/
def digit? (c : Char) : Option Nat :=
  if '0' ≤ c ∧ c ≤ '9' then some (c.toNat - 48) else none

/-- The number that digits continue when `n` has been read. -/
def continue? : Nat → List Char → Option Nat
  | n, [] => some n
  | n, c :: cs => do continue? (10 * n + (← digit? c)) cs

/-- The number that one or more digits stand for. -/
def ofDigits? (cs : List Char) : Option Nat := if cs.isEmpty then none else continue? 0 cs

/-- What is left of a text behind the plus sign that may stand in front of a number. -/
def withoutPlus : List Char → List Char
  | '+' :: cs => cs
  | cs => cs

/-- The number that a text stands for, provided it is below `limit`. -/
def below? (limit : Nat) (s : String) : Option Nat :=
  (ofDigits? (withoutPlus s.toList)).filter (· < limit)

/-- The octet that a text stands for. -/
def octet? (s : String) : Option UInt8 := (below? 256 s).map UInt8.ofNat

/-- The 16-bit word that a text stands for. -/
def word16? (s : String) : Option UInt16 := (below? 65536 s).map UInt16.ofNat

/-- The 32-bit word that a text stands for. -/
def word32? (s : String) : Option UInt32 := (below? 4294967296 s).map UInt32.ofNat

end PvNet.Decimal
