import Statechart.Text.Bytes

/-!
# Text edits

An edit inserts, deletes or replaces a range of a text, given by byte positions
into the text before all edits.

* `applyAll`: a text with edits made to it;
* `normalize`: the same edits in order, with neighbouring deletions and insertions
  at one place merged.
-/

namespace Statechart

/-- A change of a text. -/
inductive TextEdit where
  | insert (position : Nat) (newText : String)
  | delete (start stop : Nat)
  | replace (start stop : Nat) (newText : String)
  deriving DecidableEq, Repr, Inhabited

/-- Why edits cannot be made. -/
inductive SpliceError where
  /-- Two edits change the same part of the text. -/
  | overlapping (firstStart firstStop secondStart secondStop : Nat)
  /-- An edit is reversed, leaves the text or cuts a character. -/
  | outOfBounds (start stop length : Nat)
  deriving DecidableEq, Repr

/-- The wording of an error. -/
def SpliceError.message : SpliceError → String
  | overlapping a b c d => s!"overlapping text edits at {a}..{b} and {c}..{d}"
  | outOfBounds start stop length =>
    s!"text edit {start}..{stop} is outside the source (length {length})"

namespace TextEdit

/-- Where the edit starts. -/
def start : TextEdit → Nat
  | insert position _ => position
  | delete start _ | replace start _ _ => start

/-- Where the edit ends. -/
def stop : TextEdit → Nat
  | insert position _ => position
  | delete _ stop | replace _ stop _ => stop

/-- What the edit writes. -/
def newText : TextEdit → String
  | insert _ text | replace _ _ text => text
  | delete _ _ => ""

/-- How far a position is behind `offset`, in 64 bits: a position before it wraps around,
    to one that is outside of every text. -/
def distance (offset position : Nat) : Nat :=
  if offset ≤ position then position - offset else position + 18446744073709551616 - offset

/-- The edit for a part of the text that starts at `offset`. -/
def shifted (offset : Nat) : TextEdit → TextEdit
  | insert position text => insert (distance offset position) text
  | delete start stop => delete (distance offset start) (distance offset stop)
  | replace start stop text => replace (distance offset start) (distance offset stop) text

/-- Whether an edit comes before another, by its start and then its end. -/
def precedes (a b : TextEdit) : Bool :=
  a.start < b.start || (a.start == b.start && a.stop ≤ b.stop)

/-- The edits in order; those at the same place keep theirs. -/
def sorted (edits : List TextEdit) : List TextEdit :=
  edits.mergeSort precedes

/-- Two edits that change the same part. -/
def overlap (a b : TextEdit) : SpliceError :=
  .overlapping a.start a.stop b.start b.stop

/-- Whether an edit can be made to the text. -/
def fits (text : Bytes) (edit : TextEdit) : Bool :=
  edit.start ≤ edit.stop && edit.stop ≤ text.length
    && text.isBoundary edit.start && text.isBoundary edit.stop

/-- The first two neighbours of which one starts before the other ends. -/
def firstOverlap? : List TextEdit → Option (TextEdit × TextEdit)
  | a :: b :: rest => if b.start < a.stop then some (a, b) else firstOverlap? (b :: rest)
  | _ => none

/-- The text with one edit made to it. -/
def applyOne (edit : TextEdit) (text : Bytes) : Bytes :=
  text.take edit.start ++ utf8 edit.newText ++ text.drop edit.stop

/-- The bytes of a text with edits made to it. They are made from the last to the
    first, so that the positions stay valid. -/
def applyBytes (text : Bytes) (edits : List TextEdit) : Except SpliceError Bytes :=
  let edits := sorted edits
  match edits.find? (!·.fits text) with
  | some edit => .error (.outOfBounds edit.start edit.stop text.length)
  | none =>
    match firstOverlap? edits with
    | some (a, b) => .error (overlap a b)
    | none => .ok (edits.foldr applyOne text)

/-- The text with edits made to it. -/
def applyAll (text : String) (edits : List TextEdit) : Except SpliceError String :=
  (applyBytes (utf8 text) edits).map Bytes.decode

/-- What becomes of two edits in order: one edit for both, or both. -/
inductive Joined where
  | merged (edit : TextEdit)
  | apart
  | conflicting
  deriving DecidableEq

/-- Joins an edit and the next. Deletions that touch become one, insertions at one
    place are made one after the other, and an edit that is repeated is made once. -/
def join (last edit : TextEdit) : Joined :=
  let otherwise : Joined :=
    if edit = last then .merged last
    else if edit.start < last.stop then .conflicting
    else .apart
  match last, edit with
  | delete start stop, delete start' stop' =>
    if start' ≤ stop then .merged (delete start (max stop stop')) else otherwise
  | insert position text, insert position' text' =>
    if position = position' then .merged (insert position (text ++ text')) else otherwise
  | _, _ => otherwise

/-- Joins each edit with those before it; `last` is the one directly before. -/
def joinFrom (last : TextEdit) : List TextEdit → Except SpliceError (List TextEdit)
  | [] => .ok [last]
  | edit :: rest =>
    match join last edit with
    | .merged edit' => joinFrom edit' rest
    | .conflicting => .error (overlap last edit)
    | .apart => (joinFrom edit rest).map (last :: ·)

/-- The edits in order, with those merged that can be. -/
def normalize (edits : List TextEdit) : Except SpliceError (List TextEdit) :=
  match sorted edits with
  | [] => .ok []
  | edit :: rest => joinFrom edit rest

end TextEdit

end Statechart
