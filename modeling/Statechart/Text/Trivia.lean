import Statechart.Text.Letter
import Statechart.Text.Lines

/-!
# Trivia

What stands between the entries of a literal: white space, commas and comments.
A `//` comment runs to the line feed, a `/*` comment to the first `*/` after it.

* `afterTrivia`, `skipTrivia`: past all white space and comments;
* `commaAfter`: past the comma that follows, if one does;
* `itemTailEnd`: the end of what belongs to the entry before: its comma, a
  comment on the same line and the line feed;
* `leadingCommentStart`: the start of the comment lines above a line.
-/

namespace Statechart.Text

/-- White space between tokens: space, tab, line feed, form feed, carriage
    return. -/
def isSpace (byte : UInt8) : Bool :=
  byte == 0x20 || byte == 0x09 || byte == 0x0A || byte == 0x0C || byte == 0x0D

/-- Past the blanks on the line. -/
def skipInlineBlanks (text : Bytes) (pos : Nat) : Nat :=
  pos + ((text.drop pos).takeWhile isInlineBlank).length

/-- Past the white space. -/
def skipSpaces (text : Bytes) (pos : Nat) : Nat :=
  pos + ((text.drop pos).takeWhile isSpace).length

/-- What follows the first `*/`, if there is one. -/
def afterClose? : Bytes → Option Bytes
  | [] => none
  | [_] => none
  | a :: b :: rest => if a == 0x2A && b == 0x2F then some rest else afterClose? (b :: rest)

/-- The three ways a text can go on: with a line comment, with a block comment,
    or with neither. The first two hold what follows the comment mark. -/
inductive Opening where
  | line (rest : Bytes)
  | block (rest : Bytes)
  | other
  deriving DecidableEq

/-- How the text starts. -/
def opening : Bytes → Opening
  | a :: b :: rest =>
    if a == 0x2F && b == 0x2F then .line rest
    else if a == 0x2F && b == 0x2A then .block rest
    else .other
  | _ => .other

theorem length_of_afterClose? : ∀ {bytes rest : Bytes},
    afterClose? bytes = some rest → rest.length < bytes.length
  | a :: b :: l, rest, h => by
    rw [afterClose?] at h
    split at h
    · cases h; simp only [List.length_cons]; omega
    · have := length_of_afterClose? h
      simp only [List.length_cons] at this ⊢; omega

theorem length_of_opening_line {bytes rest : Bytes} (h : opening bytes = .line rest) :
    rest.length < bytes.length := by
  unfold opening at h
  split at h
  · split at h
    · cases h; simp only [List.length_cons]; omega
    · split at h <;> cases h
  · cases h

theorem length_of_opening_block {bytes rest : Bytes} (h : opening bytes = .block rest) :
    rest.length < bytes.length := by
  unfold opening at h
  split at h
  · split at h
    · cases h
    · split at h
      · cases h; simp only [List.length_cons]; omega
      · cases h
  · cases h

/-- What follows the white space and the comments that the text starts with. A
    block comment that is not closed takes the rest. -/
def afterTrivia (bytes : Bytes) : Bytes :=
  match _h : opening (bytes.dropWhile isSpace) with
  | .line rest => afterTrivia (rest.dropWhile (· != lineFeed))
  | .block rest =>
    match _h' : afterClose? rest with
    | some rest' => afterTrivia rest'
    | none => []
  | .other => bytes.dropWhile isSpace
termination_by bytes.length
decreasing_by
  · have h₁ := length_of_opening_line _h
    have h₂ := (List.dropWhile_suffix isSpace (l := bytes)).length_le
    have h₃ := (List.dropWhile_suffix (· != lineFeed) (l := rest)).length_le
    omega
  · have h₁ := length_of_opening_block _h
    have h₂ := (List.dropWhile_suffix isSpace (l := bytes)).length_le
    have h₃ := length_of_afterClose? _h'
    omega

/-- Past the white space and the comments. -/
def skipTrivia (text : Bytes) (pos : Nat) : Nat :=
  text.length - (afterTrivia (text.drop pos)).length

/-- Past the comma that comes next after white space and comments, if a comma
    does. -/
def commaAfter (text : Bytes) (pos : Nat) : Option Nat :=
  let next := skipTrivia text pos
  if text[next]? == some 0x2C then some (next + 1) else none

/-- Past a comment at `pos` that ends on its line, and the blanks after a block
    comment; `pos` itself if there is none. -/
def skipLineComment (text : Bytes) (pos : Nat) : Nat :=
  match opening (text.drop pos) with
  | .line _ => lineEnd text pos
  | .block rest =>
    match afterClose? rest with
    | some rest' =>
      let close := text.length - rest'.length
      if spansLines text pos close then pos else skipInlineBlanks text close
    | none => pos
  | .other => pos

/-- The end of the tail of an entry that ends at `pos`: a comma, a comment on the
    same line, and the line feed, each if present. What stands on the next line
    belongs to the next entry. -/
def itemTailEnd (text : Bytes) (pos : Nat) : Nat :=
  let next := skipInlineBlanks text pos
  let next := if text[next]? == some 0x2C then skipInlineBlanks text (next + 1) else next
  let next := skipLineComment text next
  if text[next]? == some lineFeed then next + 1 else next

/-- The position of the last `/*`. -/
def lastOpen? : Bytes → Option Nat
  | a :: b :: rest =>
    match lastOpen? (b :: rest) with
    | some i => some (i + 1)
    | none => if a == 0x2F && b == 0x2A then some 0 else none
  | _ => none

theorem lastOpen?_lt : ∀ {bytes : Bytes} {i : Nat}, lastOpen? bytes = some i → i < bytes.length
  | a :: b :: rest, i, h => by
    rw [lastOpen?] at h
    split at h
    · next j hj =>
      cases h
      have := lastOpen?_lt hj
      simp only [List.length_cons] at this ⊢; omega
    · split at h
      · cases h; simp only [List.length_cons]; omega
      · cases h
  | [_], _, h => by simp [lastOpen?] at h
  | [], _, h => by simp [lastOpen?] at h

/-- The start of the line that opens the block comment closed before `close`,
    when nothing but blanks stands before the comment on that line. -/
def blockCommentLine (text : Bytes) (close : Nat) : Option Nat :=
  match lastOpen? (text.take close) with
  | some opened => if startsLine text opened then some (lineStart text opened) else none
  | none => none

theorem blockCommentLine_lt {text : Bytes} {close start : Nat}
    (h : blockCommentLine text close = some start) : start < close := by
  unfold blockCommentLine at h
  split at h
  · next opened ho =>
    split at h
    · cases h
      have h₁ := lineStart_le text opened
      have h₂ := lastOpen?_lt ho
      simp only [List.length_take] at h₂
      omega
    · cases h
  · cases h

/-- Whether the text ends with `*/`. -/
def closesComment (line : List Char) : Bool :=
  (afterStart? ['/', '*'] line.reverse).isSome

/-- Whether a line, without the white space at its ends, is a comment of its own:
    a line comment, or a block comment that opens and closes on it. -/
def isCommentLine (line : List Char) : Bool :=
  (afterStart? ['/', '/'] line).isSome
    || ((afterStart? ['/', '*'] line).isSome && closesComment line)

/-- Climbs from the line that starts at `start` over the comment lines directly
    above it. A block comment that closes on the line above is followed back to
    the line that opens it. -/
def climbComments (text : Bytes) (start : Nat) : Nat :=
  if _h : 0 < start then
    let above := lineStart text (start - 1)
    let line := trimChars (text.slice above (start - 1)).toList
    if isCommentLine line then climbComments text above
    else if closesComment line then
      match _h' : blockCommentLine text (start - 1) with
      | some opened => climbComments text opened
      | none => start
    else start
  else start
termination_by start
decreasing_by
  · have := lineStart_le text (start - 1)
    omega
  · have := blockCommentLine_lt _h'
    omega

/-- The start of the comment lines directly above the line at `pos`; the start of
    that line when there are none. A blank line ends them. -/
def leadingCommentStart (text : Bytes) (pos : Nat) : Nat :=
  climbComments text (lineStart text pos)

end Statechart.Text
