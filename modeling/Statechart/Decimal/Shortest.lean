import Statechart.Decimal.Binary

/-!
# The fewest digits that read back

A number of double precision is written with the fewest significant digits that
still read back as the same number, and, of those, the nearest to it.

The decimals that read back as `m · 2 ^ q` lie between the midpoints to its two
neighbours; the midpoints themselves belong to it when `m` is even. For each
number of digits the two decimals around the number are tried.
-/

namespace Statechart.Decimal

/-- Whether the fraction `a / b` is below `c / d`. -/
def fractionLt (a b c d : Nat) : Bool :=
  a * d < c * b

/-- The interval of decimals that read back as a number, as two numerators over one
    denominator. -/
structure Interval where
  low : Nat
  high : Nat
  den : Nat
  /-- Whether the two ends belong to the interval. -/
  closed : Bool

/-- The interval of a positive number. Below a power of two the neighbours are half
    as far apart. -/
def Binary.interval (b : Binary) : Interval :=
  let m := b.significand
  let narrow := m == Nat.pow 2 52 && -1074 < b.exponent
  let (scale, den) := scaled 1 4 2 b.exponent
  { low := (4 * m - (if narrow then 1 else 2)) * scale
    high := (4 * m + 2) * scale
    den
    closed := m % 2 == 0 }

/-- Whether the fraction `num / den` lies in the interval. -/
def Interval.contains (i : Interval) (num den : Nat) : Bool :=
  if i.closed then !fractionLt num den i.low i.den && !fractionLt i.high i.den num den
  else fractionLt i.low i.den num den && fractionLt num den i.high i.den

/-- The greatest `k` with `10 ^ k ≤ num / den`, for positive `num` and `den`. -/
def floorLog10 (num den : Nat) : Int :=
  let guess : Int := (digitCount num : Int) - digitCount den
  let (n, d) := scaled num den 10 (-guess)
  if d ≤ n then guess else guess - 1

/-- The nearer of the two decimals with `count` digits around `num / den` that lie
    in the interval, as a significand and an exponent. -/
def roundedTo? (i : Interval) (num den : Nat) (count : Nat) : Option (Nat × Int) :=
  let exponent := floorLog10 num den - (count - 1 : Nat)
  let (n, d) := scaled num den 10 (-exponent)
  let inside (digits : Nat) : Bool :=
    let (a, b) := scaled digits 1 10 exponent
    i.contains a b
  let below := n / d
  let nearer := roundDiv n d
  let other := if nearer == below then below + 1 else below
  if inside nearer then some (nearer, exponent)
  else if inside other then some (other, exponent)
  else none

/-- The first number of digits, from `count` on, that gives a decimal in the
    interval; at most `fuel` are tried. -/
def shortestFrom (i : Interval) (num den : Nat) (count : Nat) : Nat → Nat × Int
  | 0 => (0, 0)
  | fuel + 1 => (roundedTo? i num den count).getD (shortestFrom i num den (count + 1) fuel)

/-- A significand without the zeros at its end, and the exponent that makes up for
    them; at most `fuel` zeros are dropped. -/
def dropZeros (significand : Nat) (exponent : Int) : Nat → Nat × Int
  | 0 => (significand, exponent)
  | fuel + 1 =>
    if significand % 10 == 0 then dropZeros (significand / 10) (exponent + 1) fuel
    else (significand, exponent)

/-- The shortest decimal that reads back as the number. Seventeen digits always
    suffice. -/
def Binary.shortest (b : Binary) : Numeral :=
  if b.significand == 0 then { negative := b.negative, significand := 0, exponent := 0 }
  else
    let (num, den) := scaled b.significand 1 2 b.exponent
    let (significand, exponent) := shortestFrom b.interval num den 1 17
    let (significand, exponent) := dropZeros significand exponent 17
    { negative := b.negative, significand, exponent }

end Statechart.Decimal
