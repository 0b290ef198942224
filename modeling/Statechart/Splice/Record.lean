import Statechart.Datum.Layout
import Statechart.Splice.Style
import Statechart.Splice.TextEdit

/-!
# The record form of text edits and styles
-/

namespace Statechart

namespace TextEdit

/-- A text edit as plain data. -/
def toDatum : TextEdit → Datum
  | insert position newText =>
    .ofFields [("type", .text "insert"), ("position", .ofNat position), ("newText", .text newText)]
  | delete start stop =>
    .ofFields [("type", .text "delete"), ("start", .ofNat start), ("end", .ofNat stop)]
  | replace start stop newText =>
    .ofFields [("type", .text "replace"), ("start", .ofNat start), ("end", .ofNat stop),
      ("newText", .text newText)]

/-- The parts of text edits. -/
def variants : Datum.Variants :=
  [("insert", ⟨["position", "newText"], []⟩), ("delete", ⟨["start", "end"], []⟩),
   ("replace", ⟨["start", "end", "newText"], []⟩)]

/-- The text edit that plain data make. -/
def ofDatum? (datum : Datum) : Option TextEdit := do
  let (type, datum) ← datum.variant? "type" false variants
  let nat (name : String) : Option Nat := (datum.get name).nat?
  let newText : Option String := (datum.get "newText").text?
  if type == "insert" then pure (insert (← nat "position") (← newText))
  else if type == "delete" then pure (delete (← nat "start") (← nat "end"))
  else if type == "replace" then pure (replace (← nat "start") (← nat "end") (← newText))
  else none

end TextEdit

namespace Style

/-- A style as plain data. -/
def toDatum (style : Style) : Datum :=
  .ofFields [("quote", .text style.quote.toString), ("indentUnit", .text style.indentUnit),
    ("trailingComma", .bool style.trailingComma)]

/-- A text of one character. -/
def char? (datum : Datum) : Option Char :=
  datum.text?.bind fun text =>
    match text.toList with
    | [c] => some c
    | _ => none

/-- The style that plain data make. -/
def ofDatum? (datum : Datum) : Option Style := do
  let quote ← char? (datum.get "quote")
  let indentUnit ← (datum.get "indentUnit").text?
  let trailingComma ← (datum.get "trailingComma").bool?
  pure { quote := quote, indentUnit, trailingComma }

end Style

end Statechart
