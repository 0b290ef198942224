import Statechart.Decimal.Shortest

/-!
# The layout of decimals

Once its digits are chosen, a decimal is laid out either with a point among its
digits or with an exponent. `Layout` holds the choices; `Layout.render` carries
them out.
-/

namespace Statechart.Decimal

/-- The choices in writing a decimal whose first digit has the weight `10 ^ e`. -/
structure Layout where
  /-- The least `e` that is written with a point. -/
  firstPlain : Int
  /-- The greatest `e` that is written with a point. -/
  lastPlain : Int
  /-- Whether a positive exponent has a plus sign. -/
  plusSign : Bool

/-- The text of the digits of a natural number. -/
def digitText (n : Nat) : List Char :=
  Nat.toDigits 10 n

/-- Digits with a point before the one of weight `10 ^ exponent - 1`, and at least
    one digit on either side of it. -/
def plain (digits : List Char) (exponent : Int) : List Char :=
  let whole := (exponent + 1).toNat
  let front := digits.take whole ++ List.replicate (whole - digits.length) '0'
  let back := List.replicate (-(exponent + 1)).toNat '0' ++ digits.drop whole
  (if front.isEmpty then ['0'] else front) ++ '.' :: (if back.isEmpty then ['0'] else back)

/-- Digits with a point after the first, and an exponent. -/
def scientific (plusSign : Bool) (digits : List Char) (exponent : Int) : List Char :=
  let mark := if exponent < 0 then ['e', '-'] else if plusSign then ['e', '+'] else ['e']
  let fraction := if (digits.drop 1).isEmpty then [] else '.' :: digits.drop 1
  digits.take 1 ++ fraction ++ mark ++ digitText exponent.natAbs

/-- The text of a decimal. -/
def Layout.render (layout : Layout) (numeral : Numeral) : String :=
  let digits := digitText numeral.significand
  let exponent := if numeral.significand == 0 then 0 else numeral.exponent + digits.length - 1
  let body :=
    if layout.firstPlain ≤ exponent ∧ exponent ≤ layout.lastPlain then plain digits exponent
    else scientific layout.plusSign digits exponent
  String.ofList (if numeral.negative then '-' :: body else body)

end Statechart.Decimal
