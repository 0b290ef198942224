import Statechart.Decimal.Numeral

/-!
# Binary numbers of double precision

The finite numbers `significand · 2 ^ exponent` with a significand below
`2 ^ 53` and an exponent from `-1074` to `971`, and the nearest of them to a
decimal. All arithmetic is exact, on natural numbers.
-/

namespace Statechart.Decimal

/-- A finite number of double precision: `(-1) ^ negative · significand · 2 ^ exponent`. -/
structure Binary where
  negative : Bool
  significand : Nat
  exponent : Int
  deriving DecidableEq, Repr

/-- A quotient rounded to the nearest integer, a half to the even neighbour. -/
def roundDiv (num den : Nat) : Nat :=
  let quotient := num / den
  let rest := num % den
  if 2 * rest < den then quotient
  else if den < 2 * rest then quotient + 1
  else quotient + quotient % 2

/-- `num · base ^ exponent` as a fraction, where the exponent may be negative. -/
def scaled (num den base : Nat) (exponent : Int) : Nat × Nat :=
  if 0 ≤ exponent then (num * Nat.pow base exponent.toNat, den)
  else (num, den * Nat.pow base (-exponent).toNat)

/-- The greatest `k` with `2 ^ k ≤ num / den`, for positive `num` and `den`. -/
def floorLog2 (num den : Nat) : Int :=
  let guess : Int := (Nat.log2 num : Int) - Nat.log2 den
  let (n, d) := scaled num den 2 (-guess)
  if d ≤ n then guess else guess - 1

/-- The nearest number of double precision to the positive fraction `num / den`, if
    it is finite. -/
def nearest? (negative : Bool) (num den : Nat) : Option Binary :=
  let exponent := max (-1074) (floorLog2 num den - 52)
  let (n, d) := scaled num den 2 (-exponent)
  let significand := roundDiv n d
  let (significand, exponent) :=
    if significand == Nat.pow 2 53 then (Nat.pow 2 52, exponent + 1) else (significand, exponent)
  if exponent ≤ 971 then some { negative := negative, significand, exponent } else none

/-- The number of decimal digits of a natural number. -/
def digitCount (n : Nat) : Nat :=
  (Nat.toDigits 10 n).length

/-- The nearest number of double precision to a decimal, if it is finite. Decimals
    from `10 ^ 310` on have none, those below `10 ^ -330` are zero. -/
def Numeral.toBinary? (numeral : Numeral) : Option Binary :=
  let zero : Binary := { negative := numeral.negative, significand := 0, exponent := -1074 }
  let magnitude := (digitCount numeral.significand : Int) + numeral.exponent
  if numeral.significand == 0 || magnitude < -330 then some zero
  else if 310 < magnitude then none
  else
    let (num, den) := scaled numeral.significand 1 10 numeral.exponent
    nearest? numeral.negative num den

end Statechart.Decimal
