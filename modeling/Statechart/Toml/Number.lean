import Statechart.Datum
import Statechart.Decimal.Binary
import Statechart.Toml.Lexical

/-!
# Reals and dates of TOML

No setting takes a real or a date, but a document may hold them where nothing is read.
So they are only checked: each reader gives the rest of the text after a well-formed one.

* `afterReal?`: a real, which must not be too large;
* `afterMoment?`: a date, a time, or both.
-/

namespace Statechart.Toml

/-! ## Reals -/

/-- Digits with underscores between them; the first may be a zero. -/
def digits? : Reader (List Char)
  | c :: rest =>
    if c.isDigit then
      let (digits, rest) := digitTail Char.isDigit rest
      some (c :: digits, rest)
    else none
  | [] => none

/-- Digits of which only a lone one may be a zero. -/
def leadingDigits? : Reader (List Char)
  | '0' :: rest => some (['0'], rest)
  | cs => digits? cs

/-- A sign, if there is one. -/
def signPart : List Char → List Char × List Char
  | '+' :: rest => (['+'], rest)
  | '-' :: rest => (['-'], rest)
  | cs => ([], cs)

/-- A point and digits. -/
def fractionPart? : Reader (List Char)
  | '.' :: rest => (digits? rest).map fun (digits, rest) => ('.' :: digits, rest)
  | _ => none

/-- The mark of an exponent, a sign and digits. -/
def exponentPart? : Reader (List Char)
  | c :: rest =>
    if c == 'e' || c == 'E' then
      let (sign, rest) := signPart rest
      (digits? rest).map fun (digits, rest) => ('e' :: sign ++ digits, rest)
    else none
  | [] => none

/-- What follows the whole part of a real: a fraction, an exponent, or both. -/
def realTail? (cs : List Char) : Option (List Char × List Char) :=
  match fractionPart? cs with
  | some (fraction, rest) =>
    match exponentPart? rest with
    | some (exponent, rest) => some (fraction ++ exponent, rest)
    | none => some (fraction, rest)
  | none => exponentPart? cs

/-- Whether a real in writing is beyond the greatest number. -/
def isTooLarge (text : List Char) : Bool :=
  (Decimal.Numeral.ofText? (String.ofList text)).any fun numeral =>
    !numeral.negative && numeral.toBinary?.isNone

/-- Past a real. -/
def afterReal? (cs : List Char) : Option (List Char) :=
  let (sign, rest) := signPart cs
  match rest with
  | 'i' :: 'n' :: 'f' :: rest | 'n' :: 'a' :: 'n' :: rest => some rest
  | _ => do
    let (whole, rest) ← leadingDigits? rest
    let (tail, rest) ← realTail? rest
    if isTooLarge (sign ++ whole ++ tail) then none else some rest

/-! ## Dates and times -/

/-- A number of so many digits. -/
def fixed? (count : Nat) (cs : List Char) : Option (Nat × List Char) :=
  let digits := cs.take count
  if digits.length = count ∧ digits.all Char.isDigit then
    some (valueOfDigits 10 digits, cs.drop count)
  else none

/-- A number of two digits within bounds. -/
def within? (low high : Nat) (cs : List Char) : Option (Nat × List Char) :=
  (fixed? 2 cs).filter fun (n, _) => decide (low ≤ n ∧ n ≤ high)

/-- Past one of some characters. -/
def afterOneOf? (allowed : List Char) : List Char → Option (List Char)
  | c :: rest => if allowed.contains c then some rest else none
  | [] => none

/-- The number of days of a month. -/
def daysOf (year month : Nat) : Nat :=
  if month = 2 then
    if year % 4 = 0 ∧ (year % 100 ≠ 0 ∨ year % 400 = 0) then 29 else 28
  else if [4, 6, 9, 11].contains month then 30
  else 31

/-- Past a date. -/
def afterDate? (cs : List Char) : Option (List Char) := do
  let (year, rest) ← fixed? 4 cs
  let (month, rest) ← within? 1 12 (← afterOneOf? ['-'] rest)
  let (_, rest) ← within? 1 (daysOf year month) (← afterOneOf? ['-'] rest)
  pure rest

/-- Past a point and digits, if there are some. -/
def skipFraction : List Char → List Char
  | '.' :: c :: rest => if c.isDigit then rest.dropWhile Char.isDigit else '.' :: c :: rest
  | cs => cs

/-- Past a time of the day. -/
def afterTime? (cs : List Char) : Option (List Char) := do
  let (_, rest) ← within? 0 23 cs
  let (_, rest) ← within? 0 59 (← afterOneOf? [':'] rest)
  let (_, rest) ← within? 0 60 (← afterOneOf? [':'] rest)
  pure (skipFraction rest)

/-- Past the distance to universal time. -/
def afterOffset? (cs : List Char) : Option (List Char) :=
  match afterOneOf? ['Z', 'z'] cs with
  | some rest => some rest
  | none => do
    let (_, rest) ← within? 0 23 (← afterOneOf? ['+', '-'] cs)
    let (_, rest) ← within? 0 59 (← afterOneOf? [':'] rest)
    pure rest

/-- Past a date, a time, or both. -/
def afterMoment? (cs : List Char) : Option (List Char) :=
  match afterDate? cs with
  | none => afterTime? cs
  | some rest =>
    match (afterOneOf? ['T', 't', ' '] rest).bind afterTime? with
    | some rest => some ((afterOffset? rest).getD rest)
    | none => some rest

/-- What stands for a value that nothing reads. -/
def unread : Datum := .real { negative := false, significand := 0, exponent := 0 }

/-- A real or a date. -/
def unread? (cs : List Char) : Option (Datum × List Char) :=
  ((afterMoment? cs).or (afterReal? cs)).map fun rest => (unread, rest)

end Statechart.Toml
