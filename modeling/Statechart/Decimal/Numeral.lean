/-!
# Decimal numerals

The two ways in which the text of a number literal is read as a number: as an
integer of 64 bits, or as a decimal `digits · 10 ^ exponent`.

* `int64?`: a sign and decimal digits, within the range of 64 bits;
* `Numeral.ofText?`: a sign, digits with or without a point, and an exponent.
-/

namespace Statechart.Decimal

/-- The value of a run of decimal digits, given the value of those before it. -/
def digitsFrom? (value : Nat) : List Char → Option Nat
  | [] => some value
  | c :: cs =>
    if c.isDigit then digitsFrom? (value * 10 + (c.toNat - '0'.toNat)) cs else none

/-- The value of a nonempty run of decimal digits. -/
def digits? : List Char → Option Nat
  | [] => none
  | cs => digitsFrom? 0 cs

/-- A sign, negative or not, and what follows it. -/
def sign : List Char → Bool × List Char
  | '-' :: cs => (true, cs)
  | '+' :: cs => (false, cs)
  | cs => (false, cs)

/-- The number with this sign and magnitude. -/
def signed (negative : Bool) (magnitude : Nat) : Int :=
  if negative then -(magnitude : Int) else magnitude

/-- Whether an integer with a sign lies within 64 bits. -/
def isInt64 (value : Int) : Bool :=
  decide (-9223372036854775808 ≤ value ∧ value ≤ 9223372036854775807)

/-- The integer that the text stands for, if it lies within 64 bits. -/
def int64? (text : String) : Option Int :=
  let (negative, cs) := sign text.toList
  (digits? cs).bind fun magnitude =>
    let value := signed negative magnitude
    if isInt64 value then some value else none

/-- The decimal `(-1) ^ negative · significand · 10 ^ exponent`. -/
structure Numeral where
  negative : Bool
  significand : Nat
  exponent : Int
  deriving DecidableEq, Repr

/-- The exponent after `e`: a sign and at least one digit. -/
def exponent? (cs : List Char) : Option Int :=
  let (negative, cs) := sign cs
  (digits? cs).map (signed negative)

/-- The exponent that follows the digits: none at all, or `e` and an exponent. -/
def exponentPart? : List Char → Option Int
  | [] => some 0
  | c :: cs => if c == 'e' || c == 'E' then exponent? cs else none

/-- The decimal with the given digits before and after the point, followed by
    `rest`. There is a digit on at least one side of the point. -/
def numeral? (negative : Bool) (whole fraction rest : List Char) : Option Numeral :=
  (digits? (whole ++ fraction)).bind fun significand =>
    (exponentPart? rest).map fun exponent =>
      { negative, significand, exponent := exponent - fraction.length }

/-- The decimal that the text stands for. -/
def Numeral.ofText? (text : String) : Option Numeral :=
  let (negative, cs) := sign text.toList
  let whole := cs.takeWhile Char.isDigit
  match cs.dropWhile Char.isDigit with
  | '.' :: rest =>
    numeral? negative whole (rest.takeWhile Char.isDigit) (rest.dropWhile Char.isDigit)
  | rest => numeral? negative whole [] rest

end Statechart.Decimal
