import Statechart.Text.Letter
import Statechart.Text.Lines

/-!
# Reports on rejected queries

When a grammar rejects a query, the report shows the lines of the query around the
fault and points at the column.
-/

namespace Statechart

/-- What is wrong with a query. -/
inductive QueryFault where
  | malformed
  | nodeType
  | field
  | capture
  | predicate
  | pattern
  | language
  deriving DecidableEq, Repr

/-- The wording of a fault. -/
def QueryFault.label : QueryFault → String
  | malformed => "syntax error"
  | nodeType => "invalid node type"
  | field => "invalid field name"
  | capture => "invalid capture"
  | predicate => "invalid predicate"
  | pattern => "impossible pattern"
  | language => "language mismatch"

/-- A rejected query: where the fault is, counted from zero, and what it names. -/
structure QueryError where
  fault : QueryFault
  row : Nat
  column : Nat
  message : String
  deriving DecidableEq, Repr

namespace QueryError

/-- How many lines are shown on each side of the faulty one. -/
def context : Nat := 2

/-- The number of a line, counted from one and at least two wide. -/
def rowNumber (row : Nat) : String :=
  let digits := String.ofList (Nat.toDigits 10 (row + 1))
  if digits.length < 2 then " " ++ digits else digits

/-- A line of the query, and the pointer below it if it is the faulty one. -/
def line (error : QueryError) (row : Nat) (text : String) : String :=
  let mark := if row == error.row then ">" else " "
  let shown := "  " ++ mark ++ " " ++ rowNumber row ++ " | " ++ text ++ "\n"
  if row == error.row then
    shown ++ "       | " ++ String.ofList (List.replicate error.column ' ') ++ "^\n"
  else shown

/-- The report on a query of some kind that a dialect's grammar rejects. -/
def report (error : QueryError) (dialect kind query : String) : String :=
  let named := if error.message.isEmpty then "" else " \x60" ++ Text.trim error.message ++ "\x60"
  let head := kind ++ " query rejected by the " ++ dialect ++ " grammar: " ++ error.fault.label
    ++ named ++ s!" at {error.row + 1}:{error.column + 1}\n"
  let first := error.row - context
  let shown := ((Text.lines query).drop first).take (2 * context + 1)
  head ++ String.join (shown.mapIdx fun i text => error.line (first + i) text)

end QueryError

end Statechart
