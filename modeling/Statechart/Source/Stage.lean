import Statechart.Source.Grammar
import Statechart.Source.Pending

/-!
# Stages of an expression

An expression is read in stages: an operand with the operators before it, and then
what follows the operand. The operators that wait for their last operand are kept in a
`Climb`.

* `Stage`: what has been read of an expression;
* `Climb.done`: the last stage;
* `startsOperand`: whether an operand may come next.
-/

namespace Statechart.Source

/-- What has been read of an expression. -/
inductive Stage where
  /-- An operand has to follow. -/
  | operand (climb : Climb)
  /-- An operand has been read. -/
  | operator (climb : Climb) (operand : Operand)
  /-- All of it has been read. -/
  | done (operand : Operand)

/-- The end of the expression. -/
def Climb.done (climb : Climb) (operand : Operand) : Read Stage := do
  require climb.isClosed
  return .done (climb.finish operand)

/-- Whether the expression may end here with its line. -/
def breaksHere (setting : Setting) (climb : Climb) : Read Bool := do
  if setting.breaks && climb.isClosed then endsHere .ofExpression else return false

/-- The words that stand between an expression and what follows it. -/
def wordsBetween : List String :=
  ["as", "satisfies", "instanceof", "in", "implements"]

/-- The operators that start like one before an operand. -/
def marksBetween : List String :=
  ["!=", "!==", "<=", "<<", "<<=", "+=", "-="]

/-- Whether an operand may start with these characters. -/
def startsOperand (cs : List Char) : Bool :=
  match cs with
  | c :: _ =>
    if startsWord c then !wordsBetween.contains (String.ofList (word cs))
    else startsNumber cs ||
      ("\"'\x60([\x7b+-!~<@#".toList.contains c && !marksBetween.contains (markLexeme cs))
  | [] => false

end Statechart.Source
