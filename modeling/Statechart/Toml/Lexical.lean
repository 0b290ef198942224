import Statechart.Decimal.Numeral
import Statechart.Text.Quoted

/-!
# The lexical level of TOML

Blanks, comments, line ends, strings, keys and integers. Each reader gives what it
read and the rest of the text, or nothing.

* `skipBlanks`, `skipLines`, `afterLine?`: what stands between the others;
* `string?`: a string, of any of the four kinds;
* `key?`: a key, with its parts between the points;
* `integer?`: an integer of 64 bits.
-/

namespace Statechart.Toml

/-- A reader of the start of a text. -/
abbrev Reader (α : Type) := List Char → Option (α × List Char)

/-- A space or a tab. -/
def isBlank (c : Char) : Bool :=
  c == ' ' || c == '\t'

/-- Past the blanks. -/
def skipBlanks (cs : List Char) : List Char :=
  cs.dropWhile isBlank

/-- A character that may stand in comments and strings: any but the control characters,
    and the tab. -/
def isPlain (c : Char) : Bool :=
  c == '\t' || (0x20 ≤ c.toNat && c.toNat != 0x7F)

/-- Past a line feed, or a carriage return and line feed. -/
def newline? : List Char → Option (List Char)
  | '\n' :: rest => some rest
  | '\r' :: '\n' :: rest => some rest
  | _ => none

/-- Past a comment, if the text starts with one. -/
def skipComment : List Char → List Char
  | '#' :: rest => rest.dropWhile isPlain
  | cs => cs

/-- Past the end of the line, if only blanks and a comment stand before it. -/
def afterLine? (cs : List Char) : Option (List Char) :=
  match skipComment (skipBlanks cs) with
  | [] => some []
  | rest => newline? rest

/-- Past blanks, and comments with their line ends; at most `fuel` lines. -/
def skipLinesWithin : Nat → List Char → List Char
  | 0, cs => cs
  | fuel + 1, cs =>
    match newline? (skipComment (skipBlanks cs)) with
    | some rest => skipLinesWithin fuel rest
    | none => skipBlanks cs

/-- Past blanks, line ends and comments. -/
def skipLines (cs : List Char) : List Char :=
  skipLinesWithin cs.length cs

/-! ## Strings -/

/-- The character with a code of `count` hexadecimal digits. -/
def codeEscape? (count : Nat) (cs : List Char) : Option (Char × List Char) :=
  if (cs.take count).length = count then
    ((Text.hexFrom? 0 (cs.take count)).bind Text.charOfCode?).map (·, cs.drop count)
  else none

/-- The character that an escape stands for, from after the backslash. -/
def escape? : Reader Char
  | 'b' :: rest => some ('\x08', rest)
  | 't' :: rest => some ('\t', rest)
  | 'n' :: rest => some ('\n', rest)
  | 'f' :: rest => some ('\x0c', rest)
  | 'r' :: rest => some ('\r', rest)
  | '\x22' :: rest => some ('\x22', rest)
  | '\\' :: rest => some ('\\', rest)
  | 'u' :: rest => codeEscape? 4 rest
  | 'U' :: rest => codeEscape? 8 rest
  | _ => none

/-- The rest of a string in double quotes; at most `fuel` characters. -/
def basicBody? : Nat → Reader (List Char)
  | 0, _ => none
  | _ + 1, [] => none
  | _ + 1, '\x22' :: rest => some ([], rest)
  | fuel + 1, '\\' :: rest => do
    let (c, rest) ← escape? rest
    let (body, rest) ← basicBody? fuel rest
    pure (c :: body, rest)
  | fuel + 1, c :: rest =>
    if isPlain c then (basicBody? fuel rest).map fun (body, rest) => (c :: body, rest) else none

/-- The rest of a string in single quotes. -/
def literalBody? : Reader (List Char)
  | [] => none
  | '\x27' :: rest => some ([], rest)
  | c :: rest =>
    if isPlain c then (literalBody? rest).map fun (body, rest) => (c :: body, rest) else none

/-- The end of a string over several lines, if the text starts with it: three quotes, or
    up to five, of which the first ones belong to the string. -/
def closing? (mark : Char) (cs : List Char) : Option (List Char × List Char) :=
  let count := (cs.takeWhile (· == mark)).length
  if 3 ≤ count then
    some (List.replicate (min count 5 - 3) mark, cs.drop (min count 5))
  else none

/-- Past blanks and line ends. -/
def skipWhite : List Char → List Char
  | '\r' :: '\n' :: rest => skipWhite rest
  | c :: rest => if isBlank c || c == '\n' then skipWhite rest else c :: rest
  | [] => []

/-- Past a line end, and all blanks and line ends after it, if the text starts with blanks
    and a line end. -/
def continuation? (cs : List Char) : Option (List Char) :=
  (newline? (skipBlanks cs)).map skipWhite

/-- The rest of a string over several lines; at most `fuel` characters. In double quotes
    there are escapes, and a backslash at the end of a line takes the white space after
    it away. A line end is a line feed, however it is written. -/
def linesBody? (mark : Char) : Nat → Reader (List Char)
  | 0, _ => none
  | _ + 1, [] => none
  | fuel + 1, c :: rest =>
    match closing? mark (c :: rest) with
    | some result => some result
    | none =>
      match newline? (c :: rest) with
      | some rest => (linesBody? mark fuel rest).map fun (body, rest) => ('\n' :: body, rest)
      | none =>
        if c == '\\' && mark == '\x22' then
          match continuation? rest with
          | some rest => linesBody? mark fuel rest
          | none => do
            let (c, rest) ← escape? rest
            let (body, rest) ← linesBody? mark fuel rest
            pure (c :: body, rest)
        else if isPlain c then
          (linesBody? mark fuel rest).map fun (body, rest) => (c :: body, rest)
        else none

/-- The rest of a string over several lines, after the quotes. A line end directly after
    them does not count. -/
def linesString? (mark : Char) (cs : List Char) : Option (List Char × List Char) :=
  linesBody? mark (cs.length + 1) ((newline? cs).getD cs)

/-- A string on one line. -/
def lineString? : Reader String
  | '\x22' :: rest =>
    (basicBody? (rest.length + 1) rest).map fun (body, rest) => (String.ofList body, rest)
  | '\x27' :: rest => (literalBody? rest).map fun (body, rest) => (String.ofList body, rest)
  | _ => none

/-- A string. -/
def string? : Reader String
  | '\x22' :: '\x22' :: '\x22' :: rest =>
    (linesString? '\x22' rest).map fun (body, rest) => (String.ofList body, rest)
  | '\x27' :: '\x27' :: '\x27' :: rest =>
    (linesString? '\x27' rest).map fun (body, rest) => (String.ofList body, rest)
  | cs => lineString? cs

/-! ## Keys -/

/-- A character of a key without quotes. -/
def isBareKeyChar (c : Char) : Bool :=
  c.isAlphanum || c == '_' || c == '-'

/-- A part of a key. -/
def keyPart? (cs : List Char) : Option (String × List Char) :=
  match lineString? cs with
  | some result => some result
  | none =>
    let part := cs.takeWhile isBareKeyChar
    if part.isEmpty then none else some (String.ofList part, cs.dropWhile isBareKeyChar)

/-- A key with blanks around its parts, of at most `fuel` parts. -/
def keyWithin? : Nat → Reader (List String)
  | 0, _ => none
  | fuel + 1, cs => do
    let (part, rest) ← keyPart? (skipBlanks cs)
    match skipBlanks rest with
    | '.' :: rest =>
      let (parts, rest) ← keyWithin? fuel rest
      pure (part :: parts, rest)
    | rest => pure ([part], rest)

/-- A key: all its parts but the last, and the last. -/
def key? (cs : List Char) : Option ((List String × String) × List Char) := do
  let (parts, rest) ← keyWithin? (cs.length + 1) cs
  pure ((parts.dropLast, ← parts.getLast?), rest)

/-! ## Integers -/

/-- The digits after the first; an underscore may stand between two. -/
def digitTail (isDigit : Char → Bool) : List Char → List Char × List Char
  | '_' :: c :: rest =>
    if isDigit c then
      let (digits, rest) := digitTail isDigit rest
      (c :: digits, rest)
    else ([], '_' :: c :: rest)
  | c :: rest =>
    if isDigit c then
      let (digits, rest) := digitTail isDigit rest
      (c :: digits, rest)
    else ([], c :: rest)
  | [] => ([], [])

/-- The value of digits to a base. -/
def valueOfDigits (base : Nat) (digits : List Char) : Nat :=
  digits.foldl (fun value c => value * base + (Text.hexDigit? c).getD 0) 0

/-- A digit to a base. -/
def isDigitOf (base : Nat) (c : Char) : Bool :=
  (Text.hexDigit? c).any (· < base)

/-- A number without a sign to a base. -/
def natural? (base : Nat) : Reader Nat
  | c :: rest =>
    if isDigitOf base c then
      let (digits, rest) := digitTail (isDigitOf base) rest
      some (valueOfDigits base (c :: digits), rest)
    else none
  | [] => none

/-- A decimal number: the digit zero alone, or one that does not start with it. -/
def decimal? : Reader Nat
  | '0' :: rest => some (0, rest)
  | cs => natural? 10 cs

/-- An integer of any size. -/
def anyInteger? : Reader Int
  | '0' :: 'x' :: rest => (natural? 16 rest).map fun (n, rest) => ((n : Int), rest)
  | '0' :: 'o' :: rest => (natural? 8 rest).map fun (n, rest) => ((n : Int), rest)
  | '0' :: 'b' :: rest => (natural? 2 rest).map fun (n, rest) => ((n : Int), rest)
  | '+' :: rest => (decimal? rest).map fun (n, rest) => ((n : Int), rest)
  | '-' :: rest => (decimal? rest).map fun (n, rest) => (-(n : Int), rest)
  | cs => (decimal? cs).map fun (n, rest) => ((n : Int), rest)

/-- An integer of 64 bits. -/
def integer? (cs : List Char) : Option (Int × List Char) :=
  (anyInteger? cs).filter fun (n, _) => Decimal.isInt64 n

end Statechart.Toml
