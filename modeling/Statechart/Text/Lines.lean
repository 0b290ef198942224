import Statechart.Text.Bytes

/-!
# Lines

Line boundaries and indentation around a position of a text. A line ends with
the line feed; a position past the end of the text counts as the end.

* `lineStart`, `lineEnd`: the ends of the line at a position;
* `indentAt`, `startsLine`: the blanks that the line opens with;
* `spansLines`: whether a range holds a line break;
* `reindent`: moves the later lines of a fragment to another indentation;
* `lines`: the lines of a text without their ends.
-/

namespace Statechart.Text

/-- The line feed. -/
def lineFeed : UInt8 := 0x0A

/-- A blank within a line: a space or a tab. -/
def isInlineBlank (byte : UInt8) : Bool :=
  byte == 0x20 || byte == 0x09

/-- The first position of the line at `pos`. -/
def lineStart (text : Bytes) (pos : Nat) : Nat :=
  let before := text.take pos
  before.length - (before.reverse.takeWhile (· != lineFeed)).length

/-- The position of the line feed that ends the line at `pos`, or the end of the
    text. -/
def lineEnd (text : Bytes) (pos : Nat) : Nat :=
  min pos text.length + ((text.drop pos).takeWhile (· != lineFeed)).length

/-- The blanks that the line at `pos` opens with. -/
def indentAt (text : Bytes) (pos : Nat) : String :=
  Bytes.decode ((text.drop (lineStart text pos)).takeWhile isInlineBlank)

/-- Whether only blanks stand before `pos` on its line. -/
def startsLine (text : Bytes) (pos : Nat) : Bool :=
  (text.range (lineStart text pos) (min pos text.length)).all isInlineBlank

/-- Whether a line feed stands in the range. -/
def spansLines (text : Bytes) (start stop : Nat) : Bool :=
  (text.range start stop).any (· == lineFeed)

/-- A line starts before, or at, the position that it is sought from. -/
theorem lineStart_le (text : Bytes) (pos : Nat) : lineStart text pos ≤ pos := by
  simp only [lineStart, List.length_take]
  omega

/-- The pieces of a list between the separators: always one more than there are
    separators. -/
def splitOnChar (sep : Char) : List Char → List (List Char)
  | [] => [[]]
  | c :: cs =>
    if c == sep then [] :: splitOnChar sep cs
    else
      match splitOnChar sep cs with
      | [] => [[c]]
      | piece :: rest => (c :: piece) :: rest

/-- A list without its first part, if it starts with that part. -/
def afterStart? [BEq α] : List α → List α → Option (List α)
  | [], rest => some rest
  | _ :: _, [] => none
  | a :: as, b :: bs => if a == b then afterStart? as bs else none

/-- Replaces the indentation `source` by `target` at the start of a line that has
    it. -/
def reindentLine (source target line : List Char) : List Char :=
  match afterStart? source line with
  | some rest => target ++ rest
  | none => line

/-- Moves every line after the first from the indentation `source` to `target`;
    lines that do not open with `source` stay as they are. -/
def reindent (fragment source target : String) : String :=
  match splitOnChar '\n' fragment.toList with
  | [] => ""
  | first :: rest =>
    String.ofList (first ++
      rest.flatMap fun line => '\n' :: reindentLine source.toList target.toList line)

/-- A line without the carriage return at its end. -/
def dropReturn (line : List Char) : List Char :=
  match line.reverse with
  | '\r' :: rest => rest.reverse
  | _ => line

/-- The lines of a text, without the line feed, or the carriage return and line
    feed, that ends each; nothing stands after a final line feed. -/
def lines (text : String) : List String :=
  match (splitOnChar '\n' text.toList).reverse with
  | [] => []
  | last :: init =>
    let ended := init.reverse.map fun line => String.ofList (dropReturn line)
    if last.isEmpty then ended else ended ++ [String.ofList last]

end Statechart.Text
