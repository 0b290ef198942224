import Statechart.Text.Letter

/-!
# Lexemes

How far each kind of token reaches. Every function takes the characters from the
start of the token on and gives those that belong to it.
-/

namespace Statechart.Source

/-- The number of bytes of some characters. -/
def byteLength : List Char → Nat
  | [] => 0
  | c :: cs => c.utf8Size + byteLength cs

/-- White space between tokens: besides the usual one the byte order mark, the word
    joiner and the space without width. -/
def isGap (c : Char) : Bool :=
  Text.isBlank c || c == '\uFEFF' || c == '\u2060' || c == '\u200B'

/-- Whether a character ends a line. -/
def endsLine (c : Char) : Bool :=
  c == '\n' || c == '\r' || c == '\u2028' || c == '\u2029'

/-! ## Comments -/

/-- Up to and with the first `*/`; nothing if there is none. -/
def throughClose? : List Char → Option (List Char)
  | '*' :: '/' :: _ => some ['*', '/']
  | c :: cs => (throughClose? cs).map (c :: ·)
  | [] => none

/-- The comment that the text starts with; empty if it starts with none. -/
def comment : List Char → List Char
  | '/' :: '/' :: cs => '/' :: '/' :: cs.takeWhile (!endsLine ·)
  | '/' :: '*' :: cs => ((throughClose? cs).map fun body => '/' :: '*' :: body).getD []
  | _ => []

/-! ## Words -/

/-- The characters below the letters that have a meaning of their own. -/
def reservedChars : List Char :=
  ":;`\"'@#.,|^&<=>+-*/\\%?!~()[]\x7b\x7d".toList

/-- Whether a word may go on with the character: it is neither a control character
    nor white space nor reserved. -/
def continuesWord (c : Char) : Bool :=
  0x20 ≤ c.toNat && !isGap c && !reservedChars.contains c

/-- Whether a word may start with the character; a backslash starts an escape. -/
def startsWord (c : Char) : Bool :=
  (continuesWord c && !c.isDigit) || c == '\\'

/-- The rest of a word. A backslash in it starts an escape, which may hold a number
    in braces. -/
def wordRun (inBraces : Bool) : List Char → List Char
  | '\\' :: 'u' :: '\x7b' :: cs => '\\' :: 'u' :: '\x7b' :: wordRun true cs
  | c :: cs =>
    if inBraces then c :: wordRun (c != '\x7d') cs
    else if continuesWord c || c == '\\' then c :: wordRun false cs
    else []
  | [] => []

/-- The word that the text starts with; empty if it starts with none. -/
def word : List Char → List Char
  | c :: cs => if startsWord c then wordRun false (c :: cs) else []
  | [] => []

/-- The name of a private member: a `#` and a word. -/
def privateName : List Char → List Char
  | '#' :: cs => if (word cs).isEmpty then [] else '#' :: word cs
  | _ => []

/-! ## Strings and regular expressions -/

/-- Up to and with the mark that closes a string. -/
def throughMark (mark : Char) : List Char → List Char
  | '\\' :: c :: cs => '\\' :: c :: throughMark mark cs
  | c :: cs => if c == mark then [c] else c :: throughMark mark cs
  | [] => []

/-- Up to and with the slash that closes a regular expression; a slash in square
    brackets does not. -/
def throughSlash (inClass : Bool) : List Char → List Char
  | '\\' :: c :: cs => '\\' :: c :: throughSlash inClass cs
  | c :: cs =>
    if c == '/' && !inClass then [c]
    else c :: throughSlash (c == '[' || (inClass && c != ']')) cs
  | [] => []

/-- A regular expression with its flags. -/
def regexLexeme : List Char → List Char
  | c :: cs =>
    let body := throughSlash false cs
    c :: body ++ (cs.drop body.length).takeWhile fun c => 'a' ≤ c && c ≤ 'z'
  | [] => []

/-! ## Numbers -/

/-- Digits, possibly with separators between them. -/
def digitRun (cs : List Char) : List Char :=
  cs.takeWhile fun c => c.isDigit || c == '_'

/-- A point and the digits after it. -/
def fractionRun : List Char → List Char
  | '.' :: cs => '.' :: digitRun cs
  | _ => []

/-- A mark of the exponent, a sign and digits. -/
def exponentRun : List Char → List Char
  | c :: s :: cs =>
    if c == 'e' || c == 'E' then
      if s.isDigit then c :: digitRun (s :: cs)
      else if (s == '+' || s == '-') && (cs.head?.any Char.isDigit) then c :: s :: digitRun cs
      else []
    else []
  | _ => []

/-- The mark of a big integer. -/
def bigRun : List Char → List Char
  | 'n' :: _ => ['n']
  | _ => []

/-- The digits of a number in another base: after `0x`, `0o` or `0b`. -/
def basedDigits? : List Char → Option (Char → Bool)
  | '0' :: c :: _ =>
    if c == 'x' || c == 'X' then
      some fun d => d.isDigit || ('a' ≤ d && d ≤ 'f') || ('A' ≤ d && d ≤ 'F')
    else if c == 'o' || c == 'O' then some fun d => '0' ≤ d && d ≤ '7'
    else if c == 'b' || c == 'B' then some fun d => d == '0' || d == '1'
    else none
  | _ => none

/-- A number. -/
def numberLexeme (cs : List Char) : List Char :=
  match basedDigits? cs with
  | some isDigit =>
    let digits := (cs.drop 2).takeWhile fun c => isDigit c || c == '_'
    cs.take 2 ++ digits ++ bigRun (cs.drop (2 + digits.length))
  | none =>
    let whole := digitRun cs
    let rest := cs.drop whole.length
    let fraction := fractionRun rest
    let rest := rest.drop fraction.length
    let exponent := exponentRun rest
    whole ++ fraction ++ exponent ++ bigRun (rest.drop exponent.length)

/-- Whether a number starts here. -/
def startsNumber : List Char → Bool
  | '.' :: c :: _ => c.isDigit
  | c :: _ => c.isDigit
  | [] => false

/-! ## Operators -/

/-- The operators and separators of more than one character, longer ones first. -/
def longMarks : List String :=
  [">>>=", "...", "===", "!==", "**=", "<<=", ">>=", ">>>", "&&=", "||=", "??=",
   "=>", "==", "!=", "<=", ">=", "<<", ">>", "++", "--", "+=", "-=", "*=", "/=", "%=", "&=", "|=",
   "^=", "&&", "||", "??", "**", "?."]

/-- The operator or separator that stands after an expression; a word is one as a
    whole. -/
def markLexeme (cs : List Char) : String :=
  match longMarks.find? fun mark => mark.toList.isPrefixOf cs with
  | some mark => mark
  | none =>
    match cs with
    | c :: _ => if startsWord c then String.ofList (word cs) else String.ofList [c]
    | [] => ""

end Statechart.Source
