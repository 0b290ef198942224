import Statechart.Text.Trivia

/-!
# Quoted strings

How a string value is written between quotes, and the value that a written
string has.

* `quote`: writes a value; only the backslash, the line feed, the carriage
  return, the tab and the quote itself are escaped;
* `cook`: reads a literal, delimiters included. It understands the escapes of a
  single letter, `\xHH`, `\uHHHH`, `\u{H…}` and line continuations; an escape
  that names no character stands for the replacement character, and any other
  escaped character for itself.
-/

namespace Statechart.Text

/-! ## Writing -/

/-- The characters that stand for `c` between two `mark`s. -/
def quoteChar (mark c : Char) : List Char :=
  if c == '\\' then ['\\', '\\']
  else if c == '\n' then ['\\', 'n']
  else if c == '\r' then ['\\', 'r']
  else if c == '\t' then ['\\', 't']
  else if c == mark then ['\\', c]
  else [c]

/-- The characters that stand for a value between two `mark`s. -/
def quoteBody (mark : Char) (value : List Char) : List Char :=
  value.flatMap (quoteChar mark)

/-- A string literal with the given value. -/
def quote (mark : Char) (value : String) : String :=
  String.ofList (mark :: quoteBody mark value.toList ++ [mark])

/-! ## Reading -/

/-- The value of a hexadecimal digit. -/
def hexDigit? (c : Char) : Option Nat :=
  if '0' ≤ c && c ≤ '9' then some (c.toNat - '0'.toNat)
  else if 'a' ≤ c && c ≤ 'f' then some (c.toNat - 'a'.toNat + 10)
  else if 'A' ≤ c && c ≤ 'F' then some (c.toNat - 'A'.toNat + 10)
  else none

/-- The number that a run of hexadecimal digits stands for, given the value of
    the digits before it. -/
def hexFrom? (value : Nat) : List Char → Option Nat
  | [] => some value
  | c :: cs => (hexDigit? c).bind fun digit => hexFrom? (value * 16 + digit) cs

/-- The number written in hexadecimal, possibly after a plus sign. -/
def hex? : List Char → Option Nat
  | [] => none
  | ['+'] => none
  | '+' :: cs => hexFrom? 0 cs
  | cs => hexFrom? 0 cs

/-- The character with this code point; surrogates and numbers beyond the last
    code point have none. -/
def charOfCode? (code : Nat) : Option Char :=
  if h : code.isValidChar then some (Char.ofNatAux code h) else none

/-- What an escape with these hexadecimal digits stands for. -/
def codePoint (digits : List Char) : Char :=
  ((hex? digits).bind charOfCode?).getD '\uFFFD'

/-- The control character that a letter stands for after a backslash. -/
def controlEscape? (c : Char) : Option Char :=
  if c == 'n' then some '\n'
  else if c == 't' then some '\t'
  else if c == 'r' then some '\r'
  else if c == 'b' then some '\x08'
  else if c == 'f' then some '\x0c'
  else if c == 'v' then some '\x0b'
  else if c == '0' then some '\x00'
  else none

/-- What follows the first closing brace. -/
def afterBrace (cs : List Char) : List Char :=
  (cs.dropWhile (· != '\x7d')).drop 1

/-- Reads what follows a backslash: the characters that the escape stands for,
    and what is left after it. -/
def escape : List Char → List Char × List Char
  | [] => (['\\'], [])
  | c :: cs =>
    match controlEscape? c with
    | some control => ([control], cs)
    | none =>
      if c == 'x' then ([codePoint (cs.take 2)], cs.drop 2)
      else if c == 'u' then
        match cs with
        | '\x7b' :: inner => ([codePoint (inner.takeWhile (· != '\x7d'))], afterBrace inner)
        | _ => ([codePoint (cs.take 4)], cs.drop 4)
      else if c == '\n' then ([], cs)
      else if c == '\r' then
        match cs with
        | '\n' :: rest => ([], rest)
        | _ => ([], cs)
      else ([c], cs)

theorem length_escape_le (cs : List Char) : (escape cs).2.length ≤ cs.length := by
  unfold escape
  split
  · exact Nat.le_refl _
  · next c cs =>
    split
    · simp
    · split
      · simp only [List.length_drop, List.length_cons]; omega
      · split
        · split
          · next inner =>
            have := (List.dropWhile_suffix (· != '\x7d') (l := inner)).length_le
            simp only [afterBrace, List.length_drop, List.length_cons]; omega
          · simp only [List.length_drop, List.length_cons]; omega
        · split
          · simp
          · split
            · split
              · simp only [List.length_cons]; omega
              · simp
            · simp

/-- The characters that the text between the delimiters stands for. -/
def cookBody : List Char → List Char
  | [] => []
  | c :: cs =>
    if c == '\\' then (escape cs).1 ++ cookBody (escape cs).2
    else c :: cookBody cs
termination_by cs => cs.length
decreasing_by
  · have := length_escape_le cs
    simp only [List.length_cons]; omega
  · simp

/-- What stands between the first and the last character; a text shorter than two
    characters is taken as it is. -/
def betweenDelimiters : List Char → List Char
  | _ :: c :: cs => (c :: cs).dropLast
  | cs => cs

/-- The value of a string literal, or of a template literal without
    substitutions. -/
def cook (literal : String) : String :=
  String.ofList (cookBody (betweenDelimiters literal.toList))

end Statechart.Text
