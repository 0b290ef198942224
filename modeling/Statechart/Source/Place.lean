import Statechart.Source.Operand
import Statechart.Source.Semicolon

/-!
# Reading a source

A reading goes through the characters of a source. Its *place* is always right after
the last token; the white space and the comments before the next one are passed over
only when that token is read.

* `Place`: how far a source has been read, and the calls found so far;
* `Read`: a reading that gives a value, or fails;
* `attempt`: a reading that may fail without harm;
* `ahead`, `start`: the characters of the next token, and where it starts;
* `mark`, `mark?`, `word?`: single tokens;
* `many`: repeats a reading. No reading repeats another more often than the source
  has characters.
-/

namespace Statechart.Source

/-- How far a source has been read. -/
structure Place where
  /-- The characters still to be read. -/
  rest : List Char
  /-- The number of bytes before them. -/
  pos : Nat
  /-- The number of characters of the whole source. -/
  size : Nat
  /-- The calls of names found so far, the latest first. -/
  sites : List Site

/-- A reading that gives a value, or fails. -/
abbrev Read (α : Type) := StateT Place Option α

namespace Place

/-- Past the next `n` characters. -/
def skip (place : Place) (n : Nat) : Place :=
  { place with
    rest := place.rest.drop n
    pos := place.pos + byteLength (place.rest.take n) }

/-- Past white space and at most `n` comments. -/
def skipGap (place : Place) : Nat → Place
  | 0 => place
  | n + 1 =>
    let next := place.skip (place.rest.takeWhile isGap).length
    let length := (comment next.rest).length
    if length == 0 then next else (next.skip length).skipGap n

/-- At the next token. -/
def next (place : Place) : Place :=
  place.skipGap (place.size + 1)

end Place

/-- A reading that may fail without harm. -/
def attempt (read : Read α) : Read (Option α) := fun place =>
  match read place with
  | some (value, after) => some (some value, after)
  | none => some (none, place)

/-- Fails unless the condition holds. -/
def require (condition : Bool) : Read Unit :=
  if condition then pure () else failure

/-- The characters from the next token on. -/
def ahead : Read (List Char) := do
  return (← get).next.rest

/-- Where the next token starts. -/
def start : Read Nat := do
  return (← get).next.pos

/-- Where the last token ended. -/
def stop : Read Nat := do
  return (← get).pos

/-- Reads the next `n` characters from the next token on. -/
def take (n : Nat) : Read String := do
  let next := (← get).next
  set (next.skip n)
  return String.ofList (next.rest.take n)

/-- Whether the next token starts with these characters. -/
def sees (text : String) : Read Bool := do
  return text.toList.isPrefixOf (← ahead)

/-- Reads these characters, if the next token starts with them. -/
def mark? (text : String) : Read Bool := do
  if ← sees text then
    discard (take text.length)
    return true
  else return false

/-- Reads these characters. -/
def mark (text : String) : Read Unit := do
  require (← mark? text)

/-- Whether the next token is this operator, not a longer one. -/
def seesMark (text : String) : Read Bool := do
  return markLexeme (← ahead) == text

/-- Reads this operator, if it comes next. -/
def operator? (text : String) : Read Bool := do
  if ← seesMark text then mark? text else return false

/-- The next token, if it is a word. -/
def nextWord : Read String := do
  return String.ofList (word (← ahead))

/-- Whether the next token is this word. -/
def seesWord (text : String) : Read Bool := do
  return (← nextWord) == text

/-- Reads this word, if it comes next. -/
def word? (text : String) : Read Bool := do
  if ← seesWord text then
    discard (take text.length)
    return true
  else return false

/-- Reads a word. -/
def anyWord : Read String := do
  let text ← nextWord
  require (!text.isEmpty)
  take text.length

/-- Reads one of the words, if it comes next. -/
def oneOf? (words : List String) : Read Bool := do
  let text ← nextWord
  if words.contains text then word? text else return false

/-- Repeats a reading until it gives `false`, at most `n` times. -/
def repeatUpTo (read : Read Bool) : Nat → Read Unit
  | 0 => pure ()
  | n + 1 => do
    if ← read then repeatUpTo read n

/-- Repeats a reading until it gives `false`. -/
def repeating (read : Read Bool) : Read Unit := do
  repeatUpTo read ((← get).size + 1)

/-- Collects what a reading gives until it gives nothing, at most `n` times. -/
def manyUpTo (read : Read (Option α)) : Nat → Read (List α)
  | 0 => pure []
  | n + 1 => do
    match ← read with
    | some value => return value :: (← manyUpTo read n)
    | none => return []

/-- Collects what a reading gives until it gives nothing. -/
def many (read : Read (Option α)) : Read (List α) := do
  manyUpTo read ((← get).size + 1)

/-- The text from a place up to where the reading is now. -/
def textSince (before : Place) : Read String := do
  let place ← get
  return String.ofList (before.rest.take (before.rest.length - place.rest.length))

/-- Notes a call. -/
def note (site : Option Site) : Read Unit :=
  match site with
  | some site => modify fun place => { place with sites := site :: place.sites }
  | none => pure ()

/-! ## Ends of statements -/

/-- Whether a statement may end here without a semicolon. -/
def endsHere (ending : Ending) : Read Bool := do
  let place ← get
  return endsAhead ending (place.size + 1) place.rest

/-- Reads the end of a statement. -/
def endStatement (ending : Ending) : Read Unit := do
  if !(← mark? ";") then require (← endsHere ending)

/-- Reads the comments that belong to a block which has just been closed. -/
def closeBlock (ending : Ending) : Read Unit := do
  let place ← get
  set (place.skip (trailingComments ending (place.size + 1) place.rest))

end Statechart.Source
