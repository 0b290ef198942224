import Statechart.Source.Leading
import Statechart.Source.Markup
import Statechart.Source.Statement
import Statechart.Source.Trailing

/-!
# Whole sources

The readings of expressions, types, statements and markup elements are tied together
here. Nothing is nested more deeply than the source is long. An expression is read stage
by stage until nothing after the last operand goes on with it; every stage but the last
reads a token, so there are no more of them than the source has characters.

* `expression`: an expression up to a comma;
* `levels`: the readings at each depth;
* `sites`: the calls of names in a source, wherever they stand.
-/

namespace Statechart.Source

/-! ## Expressions -/

/-- Reads the stages of an expression, at most `n`. -/
def readStages (dialect : Dialect) (level : Level) (setting : Setting) :
    Nat → Stage → Read Operand
  | 0, _ => failure
  | n + 1, stage => do
    match stage with
    | .operand climb =>
      readStages dialect level setting n (← readOperand dialect level setting climb)
    | .operator climb operand =>
      readStages dialect level setting n (← readOperator level setting climb operand)
    | .done operand => return operand

/-- An expression up to a comma. -/
def expression (dialect : Dialect) (level : Level) (setting : Setting) : Read Operand := do
  readStages dialect level setting ((← get).size + 3) (.operand {})

/-! ## Levels -/

/-- The readings where at most `n` more levels can be nested. -/
def levels (dialect : Dialect) : Nat → Level
  | 0 =>
    { expression := fun _ _ => none
      type := fun _ _ => none
      statement := fun _ => none
      element := fun _ => none }
  | n + 1 =>
    { expression := fun setting place => expression dialect (levels dialect n) setting place
      type := fun setting place => typeExpr (levels dialect n) setting place
      statement := fun place => statement (levels dialect n) place
      element := fun place => element (levels dialect n) place }

/-- The readings for a source of a given size. -/
def topLevel (dialect : Dialect) (size : Nat) : Level :=
  levels dialect (4 * size + 8)

/-- The length of a first line that names an interpreter. -/
def interpreterLength : List Char → Nat
  | '#' :: '!' :: cs => 2 + (cs.takeWhile (· != '\n')).length
  | _ => 0

/-- Reads statements up to the end, at most `n`. A token that no statement starts with
    is passed over. -/
def readStatements (level : Level) : Nat → Place → Place
  | 0, place => place
  | n + 1, place =>
    let next := place.next
    if next.rest.isEmpty then place
    else
      match level.statement place with
      | some (_, after) => readStatements level n after
      | none => readStatements level n (next.skip (max 1 (word next.rest).length))

/-- The calls of names in a source. -/
def sites (dialect : Dialect) (text : String) : List Site :=
  let cs := text.toList
  let size := cs.length
  let place : Place := { rest := cs, pos := 0, size, sites := [] }
  let first := place.next
  let first := first.skip (interpreterLength first.rest)
  (readStatements (topLevel dialect size) (size + 1) first).sites

end Statechart.Source
