import PvNet.Number.Binary64
set_option autoImplicit false

/-!
# Durations

A duration is a number of nanoseconds.  Shown to a reader it takes the largest
unit of which it has at least one, with the remainder as a decimal fraction; in a
configuration it is a floating-point number of seconds.
-/

namespace PvNet

/-- A length of time. -/
structure Duration where
  nanoseconds : Nat
  deriving DecidableEq, Repr, Inhabited

namespace Duration

/-- Nanoseconds in a second. -/
def perSecond : Nat := 1000000000

/-- No time at all. -/
def zero : Duration := ⟨0⟩

/-- A number of seconds. -/
def ofSeconds (n : Nat) : Duration := ⟨n * perSecond⟩

/-- A number of milliseconds. -/
def ofMillis (n : Nat) : Duration := ⟨n * 1000000⟩

/-- The longest duration: one nanosecond less than `2 ^ 64` seconds. -/
def longest : Duration := ⟨UInt64.size * perSecond - 1⟩

instance : LE Duration := ⟨fun a b => a.nanoseconds ≤ b.nanoseconds⟩

instance (a b : Duration) : Decidable (a ≤ b) :=
  inferInstanceAs (Decidable (a.nanoseconds ≤ b.nanoseconds))

/-- The shorter of two durations. -/
def min (a b : Duration) : Duration := if a ≤ b then a else b

/-- A multiple of a duration, if it is not beyond the longest one. -/
def times? (d : Duration) (n : Nat) : Option Duration :=
  if d.nanoseconds * n ≤ longest.nanoseconds then some ⟨d.nanoseconds * n⟩ else none

/-- A count of units and, after a point, the remainder as a fraction of `10 ^ places`, without
trailing zeros. -/
def quantity (whole remainder places : Nat) (unit : String) : String :=
  let digits := Nat.toDigits 10 remainder
  let padded := List.replicate (places - digits.length) '0' ++ digits
  let fraction := (padded.reverse.dropWhile (· == '0')).reverse
  let point := if fraction.isEmpty then [] else '.' :: fraction
  String.ofList (Nat.toDigits 10 whole ++ point ++ unit.toList)

/-- The duration in the largest unit of which it has at least one. -/
def text (d : Duration) : String :=
  let n := d.nanoseconds
  if perSecond ≤ n then quantity (n / perSecond) (n % perSecond) 9 "s"
  else if 1000000 ≤ n then quantity (n / 1000000) (n % 1000000) 6 "ms"
  else if 1000 ≤ n then quantity (n / 1000) (n % 1000) 3 "µs"
  else quantity n 0 0 "ns"

/-- The duration nearest to a number of seconds; `none` from `2 ^ 64` seconds on. -/
def ofSeconds? (x : Binary64) : Option Duration :=
  let (num, den) := x.ratio
  if UInt64.size * den ≤ num then none else some ⟨roundHalfEven (num * perSecond) den⟩

/-- The number of seconds: whole seconds and the fraction are rounded each for itself, and so is
their sum. -/
def seconds (d : Duration) : Binary64 :=
  let whole := (Binary64.ofRatio? (d.nanoseconds / perSecond) 1).getD .zero
  let fraction := (Binary64.ofRatio? (d.nanoseconds % perSecond) perSecond).getD .zero
  (whole.add? fraction).getD .zero

end Duration

end PvNet
