import PvNet.Text.Decimal
set_option autoImplicit false

/-!
# 64-bit binary floating-point numbers

The finite numbers that are not negative, as an exact product of a natural number
and a power of two.  A ratio is rounded to the nearest of them, and of two to the
one with the even mantissa.

The decimal text of a number has the fewest digits that read back as the number
and, among those, is nearest to it.  It is written without an exponent.
-/

namespace PvNet

/-- The quotient rounded to the nearest whole number, a half to the even one. -/
def roundHalfEven (num den : Nat) : Nat :=
  let q := num / den
  let twice := 2 * (num % den)
  if twice < den ∨ (twice = den ∧ q % 2 = 0) then q else q + 1

/-- The least mantissa of a number above the least exponent, 2 to the power of 52. -/
def Binary64.leastNormal : Nat := 4503599627370496

/-- The number `mantissa * 2 ^ exponent`. -/
structure Binary64 where
  /-- Below `2 ^ 53`, and at least `2 ^ 52` unless the exponent is the least one. -/
  mantissa : Nat
  /-- Between -1074 and 971. -/
  exponent : Int
  deriving DecidableEq, Repr, Inhabited

namespace Binary64

/-- The least exponent. -/
def minExponent : Int := -1074

/-- The largest exponent. -/
def maxExponent : Int := 971

def zero : Binary64 := ⟨0, minExponent⟩

/-- A power of an integer exponent as a ratio: numerator and denominator. -/
def power (base : Nat) (e : Int) : Nat × Nat :=
  if 0 ≤ e then (Nat.pow base e.toNat, 1) else (1, Nat.pow base (-e).toNat)

/-- The number as a ratio: numerator and denominator. -/
def ratio (x : Binary64) : Nat × Nat :=
  let (num, den) := power 2 x.exponent
  (x.mantissa * num, den)

/-- The largest power of two, given by its exponent, that a positive ratio reaches. -/
def magnitude (num den : Nat) : Int :=
  let guess : Int := num.log2 - den.log2
  let (a, b) := power 2 guess
  if num * b < den * a then guess - 1 else guess

/-- The number nearest to a ratio, or `none` when the ratio is beyond the largest number. -/
def ofRatio? (num den : Nat) : Option Binary64 :=
  if num = 0 then some zero
  else
    let e := max minExponent (magnitude num den - 52)
    let (a, b) := power 2 e
    let m := roundHalfEven (num * b) (den * a)
    let x : Binary64 := if m = 2 * leastNormal then ⟨leastNormal, e + 1⟩ else ⟨m, e⟩
    if maxExponent < x.exponent then none else some x

/-- The number nearest to `digits * 10 ^ e`.  Beyond the exponents that a number can have at all,
the power is not computed. -/
def ofDecimal? (digits : Nat) (e : Int) : Option Binary64 :=
  let top : Int := (Nat.toDigits 10 digits).length + e
  if digits = 0 then some zero
  else if 310 < top then none
  else if top < -330 then some zero
  else
    let (a, b) := power 10 e
    ofRatio? (digits * a) b

/-- The sum, rounded. -/
def add? (x y : Binary64) : Option Binary64 :=
  let (a, b) := x.ratio
  let (c, d) := y.ratio
  ofRatio? (a * d + c * b) (b * d)

/-! ## Reading -/

/-- The sign and the digits of an exponent. -/
def exponentOf? : List Char → Option Int
  | '-' :: cs => (Decimal.ofDigits? cs).map fun (n : Nat) => -(n : Int)
  | cs => (Decimal.ofDigits? (Decimal.withoutPlus cs)).map fun (n : Nat) => (n : Int)

/-- The exponent that ends a number. -/
def exponent? : List Char → Option Int
  | [] => some 0
  | c :: cs => if c = 'e' ∨ c = 'E' then exponentOf? cs else none

/-- The digits behind a point, and what is left behind them. -/
def fraction : List Char → List Char × List Char
  | '.' :: cs => (cs.takeWhile Char.isDigit, cs.dropWhile Char.isDigit)
  | cs => ([], cs)

/-- The digits that a text without a sign stands for, with their exponent of ten. -/
def decimal? (cs : List Char) : Option (Nat × Int) := do
  let (places, rest) := fraction (cs.dropWhile Char.isDigit)
  let digits ← Decimal.ofDigits? (cs.takeWhile Char.isDigit ++ places)
  let e ← exponent? rest
  return (digits, e - places.length)

/-- The number that a text without a sign stands for, if it is finite. -/
def ofUnsigned? (cs : List Char) : Option Binary64 :=
  (decimal? cs).bind fun (digits, e) => ofDecimal? digits e

/-- The number that a text stands for, if that is finite and positive. -/
def positive? (s : String) : Option Binary64 :=
  (ofUnsigned? (Decimal.withoutPlus s.toList)).filter fun x => x ≠ zero

/-! ## Writing -/

/-- Of the two neighbours of a number on the grid of multiples of `10 ^ k`, those that read back,
the nearer first. -/
def neighbours (x : Binary64) (k : Int) : List Nat :=
  let (num, den) := x.ratio
  let (a, b) := power 10 k
  let below := num * b / (den * a)
  let beyond := 2 * (num * b % (den * a))
  let both := if beyond ≤ den * a then [below, below + 1] else [below + 1, below]
  both.filter fun d => ofDecimal? d k = some x

/-- The digits and the exponent of the first grid, from `10 ^ k` on downwards, with a neighbour
that reads back; `fuel` grids are tried. -/
def shortestFrom (x : Binary64) : Nat → Int → Nat × Int
  | 0, k => (0, k)
  | fuel + 1, k =>
    match neighbours x k with
    | d :: _ => (d, k)
    | [] => shortestFrom x fuel (k - 1)

/-- The fewest digits that read back as the number, with their exponent.  Seventeen digits always
do; the first grid is at most three above the leading digit. -/
def shortest (x : Binary64) : Nat × Int :=
  let top : Int := x.mantissa.log2 + x.exponent + 1
  shortestFrom x 20 (top * 30103 / 100000 + 1)

/-- Digits with a decimal exponent, written without an exponent. -/
def positional (digits : Nat) (e : Int) : String :=
  let cs := Nat.toDigits 10 digits
  if 0 ≤ e then String.ofList (cs ++ List.replicate e.toNat '0')
  else
    let places := (-e).toNat
    let cs := List.replicate (places + 1 - cs.length) '0' ++ cs
    let (whole, fraction) := cs.splitAt (cs.length - places)
    String.ofList (whole ++ '.' :: fraction)

/-- The decimal text of a number. -/
def text (x : Binary64) : String :=
  if x.mantissa = 0 then "0"
  else
    let (digits, e) := x.shortest
    positional digits e

end Binary64

end PvNet
