import Statechart.Proofs.Encoding
import Statechart.Proofs.Placement

/-!
# Layouts of literals

A literal whose entries are leaves is written in one of two ways: on one line, with a comma and a
blank between entries, or with each entry on a line of its own, the same indentation before it and
a comma behind it.

* `Piece`: an entry and the text that it is written with;
* `Layout.write`: texts in a layout;
* `Baseline.LaidOut`: the literal of a baseline is written in a layout;
* `Baseline.Drafts`: what an entry of a draft adds to the text. It is one of the literal, as it was
  or with another leaf, or a new one.
-/

namespace Statechart

/-- Whether an expression has no parts. -/
def Expr.isLeaf : Expr → Bool
  | object _ _ | array _ _ | member _ _ _ | call _ _ _ => false
  | _ => true

/-- The entry with another expression in it. -/
def Entry.withValue : Entry → Expr → Entry
  | prop p, value => prop { p with value := value }
  | item _, value => item value

/-! ## Pieces -/

/-- An entry with the position and the text that it is written with: the leaf and what stands
    before and behind it. -/
structure Piece where
  entry : Entry
  start : Nat
  head : String
  leaf : String
  tail : String

namespace Piece

/-- The text of the entry with another leaf. -/
def withLeaf (piece : Piece) (leaf : String) : String :=
  piece.head ++ leaf ++ piece.tail

/-- The text of the entry. -/
def text (piece : Piece) : String :=
  piece.withLeaf piece.leaf

/-- The place of the text. -/
def span (piece : Piece) : Span where
  start := piece.start
  stop := piece.start + (utf8 piece.text).length

/-- The place of the leaf. -/
def leafSpan (piece : Piece) : Span where
  start := piece.start + (utf8 piece.head).length
  stop := piece.start + (utf8 piece.head).length + (utf8 piece.leaf).length

/-- The entry holds a leaf, and both have the places that the text gives them. -/
structure IsPlaced (piece : Piece) : Prop where
  span_eq : piece.entry.span = some piece.span
  leafSpan_eq : piece.entry.value.span = some piece.leafSpan
  isLeaf : piece.entry.value.isLeaf = true
  leaf_ne : piece.leaf ≠ ""

/-- The pieces stand one after the other from `pos` on, each behind `lead` and with two bytes
    between it and what comes next. -/
def InRow (lead : String) (pos : Nat) : List Piece → Prop
  | [] => True
  | piece :: rest =>
    piece.IsPlaced ∧ piece.start = pos + (utf8 lead).length ∧ InRow lead (piece.span.stop + 2) rest

end Piece

/-! ## Layouts -/

namespace Text

/-- Whether the line that ends at `stop` counts as a comment to the lines below it: it is one, or
    it closes a block comment that opens a line. One that ends with a bracket counts only if it
    starts with `//` (see `endsCommentLine_append_singleton`). -/
def endsCommentLine (text : Bytes) (stop : Nat) : Bool :=
  let line := trimChars (text.slice (lineStart text stop) stop).toList
  isCommentLine line || (closesComment line && (blockCommentLine text stop).isSome)

/-- Whether a text can stand on a line of its own: it has no line feed and starts neither with
    white space nor with a line comment. -/
def standsOnLine (text : String) : Bool :=
  match text.toList with
  | [] => false
  | c :: cs => !isBlank c && (afterStart? ['/', '/'] (c :: cs)).isNone && !(c :: cs).contains '\n'

end Text

/-- How the entries of a literal are written. What opens and closes the literal has its brackets
    in it. -/
inductive Layout where
  | line (opening closing : String)
  | lines (opening indent closing : String)

namespace Layout

/-- The text of a literal with the given entries. -/
def write : Layout → List String → String
  | line opening closing, texts => opening ++ String.intercalate ", " texts ++ closing
  | lines opening indent closing, texts =>
    opening ++ "\n" ++ String.join (texts.map fun text => indent ++ text ++ ",\n") ++ closing

/-- What stands before the first entry, or before its line. -/
def opened : Layout → String
  | line opening _ => opening
  | lines opening _ _ => opening ++ "\n"

/-- What stands before each entry. -/
def lead : Layout → String
  | line _ _ => ""
  | lines _ indent _ => indent

/-- Whether each entry stands on a line of its own. -/
def isMultiline : Layout → Bool
  | line _ _ => false
  | lines _ _ _ => true

/-- The texts can be written in the layout behind `before`: on one line they have no line feed;
    on lines of their own they start neither with white space nor with a comment, what they are
    indented with is blank, and the line above them is no comment line. -/
def Admits (source : Bytes) (before : String) : Layout → List String → Prop
  | line opening closing, texts =>
    '\n' ∉ opening.toList ∧ '\n' ∉ closing.toList ∧ ∀ text ∈ texts, '\n' ∉ text.toList
  | lines opening indent _, texts =>
    (∀ c ∈ indent.toList, c = ' ' ∨ c = '\t') ∧ (∀ text ∈ texts, Text.standsOnLine text = true) ∧
      Text.endsCommentLine source (utf8 (before ++ opening)).length = false

end Layout

namespace Baseline

variable (baseline : Baseline)

/-- The literal of the baseline is written in a layout, between two texts. -/
structure LaidOut (layout : Layout) (before after : String) (pieces : List Piece) : Prop where
  source_eq : baseline.source = utf8 (before ++ layout.write (pieces.map Piece.text) ++ after)
  span_eq : baseline.tree.span = some ⟨(utf8 before).length,
    (utf8 (before ++ layout.write (pieces.map Piece.text))).length⟩
  entries_eq : Entry.ofExpr baseline.tree = pieces.map Piece.entry
  inRow : Piece.InRow layout.lead (utf8 (before ++ layout.opened)).length pieces
  admits : layout.Admits baseline.source before (pieces.map Piece.text)

/-! ## Drafts -/

/-- The text of a new entry with a leaf. -/
def newText : Entry → String
  | .item leaf => baseline.leafText leaf
  | .prop ⟨_, .spread, _, leaf⟩ => "..." ++ baseline.leafText leaf
  | .prop ⟨_, key, _, leaf⟩ => baseline.style.key key ++ ": " ++ baseline.leafText leaf

/-- What an entry of a draft adds to the text. -/
inductive Drafts (pieces : List Piece) : Entry → String → Prop
  /-- An entry of the literal is written as it was. -/
  | kept {piece : Piece} (hmem : piece ∈ pieces) : Drafts pieces piece.entry piece.text
  /-- A string with another value is written in quotes, in its place. -/
  | changed {piece : Piece} {origin : Origin} {value value' : String} (hmem : piece ∈ pieces)
    (hvalue : piece.entry.value = .str origin value) (hne : value' ≠ value) :
    Drafts pieces (piece.entry.withValue (.str origin value'))
      (piece.withLeaf (baseline.style.string value'))
  /-- A new leaf that a property gets is written in the place of the old one. -/
  | replaced {piece : Piece} {prop : Property} {leaf : Expr} (hmem : piece ∈ pieces)
    (hprop : piece.entry = .prop prop) (hleaf : leaf.isLeaf = true) (hnew : leaf.span = none) :
    Drafts pieces (.prop { prop with value := leaf }) (piece.withLeaf (baseline.leafText leaf))
  /-- A new entry. -/
  | new {entry : Entry} (hleaf : entry.value.isLeaf = true) (hnew : entry.span = none)
    (hvalue : entry.value.span = none) : Drafts pieces entry (baseline.newText entry)

end Baseline

end Statechart
