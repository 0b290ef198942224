import Statechart.Source.Place

/-!
# The levels of a grammar

Expressions, types, statements and markup elements stand inside each other. The
readings of each kind are written for a given *level*: the readings of what stands one
level deeper. They are tied together at the end, see `Statechart.Source.Program`.

* `Setting`: what surrounds an expression;
* `TypeSetting`: what surrounds a type;
* `Level`: a reading for each kind.
-/

namespace Statechart.Source

/-- What surrounds an expression. -/
structure Setting where
  /-- A line break may end it. -/
  breaks : Bool := false
  /-- `in` is an operator in it. -/
  hasIn : Bool := true
  /-- It names what a class extends, so that the rest of the class may follow. -/
  heritage : Bool := false
  /-- A colon ends it. -/
  label : Bool := false
  /-- It stands first in round brackets that may as well hold the parameters of a
      function. -/
  opening : Bool := false
  /-- It is the first value in brackets that may as well be a pattern. -/
  leading : Bool := false
  /-- It is only an operand, without operators after it. -/
  bare : Bool := false

/-- Between brackets, where nothing else matters. -/
def Setting.inner : Setting := {}

/-- Where a statement may end. -/
def Setting.line : Setting := { breaks := true }

/-- What surrounds a type. -/
structure TypeSetting where
  /-- Where a line break may end it, what may follow then. -/
  ending : Option Ending := none
  /-- It may be the first part of a conditional type. -/
  conditional : Bool := true
  /-- The arrow of a function follows it. -/
  beforeArrow : Bool := false
  /-- It stands after an expression, which members may follow. -/
  ascribed : Bool := false
  /-- It stands after the first value in brackets that may as well be a pattern. -/
  leading : Bool := false

/-- Between brackets, where nothing else matters. -/
def TypeSetting.inner : TypeSetting := {}

/-- Where a declaration may end. -/
def TypeSetting.line : TypeSetting := { ending := some .ofType }

/-- Where the head of a function may end. -/
def TypeSetting.head : TypeSetting := { ending := some .ofSignature }

/-- A reading for each kind of thing. -/
structure Level where
  /-- An expression up to a comma. -/
  expression : Setting → Read Operand
  type : TypeSetting → Read Unit
  statement : Read Unit
  /-- A markup element from its `<` on; gives the name of its form. -/
  element : Read String

namespace Level

/-- Expressions between commas. -/
def expressions (level : Level) (setting : Setting) : Read (List Operand) := do
  let first ← level.expression setting
  let rest ← many do
    if ← mark? "," then return some (← level.expression setting) else return none
  return first :: rest

/-- Types between commas. -/
def types (level : Level) (setting : TypeSetting) : Read Unit := do
  level.type setting
  repeating do
    if ← mark? "," then
      level.type setting
      return true
    else return false

/-- An expression in round brackets, as a condition. -/
def condition (level : Level) : Read Unit := do
  mark "("
  discard (level.expressions .inner)
  if ← mark? ":" then level.type .inner
  mark ")"

/-- Statements up to the closing brace of a block, and that brace. -/
def blockRest (level : Level) : Read Unit := do
  repeating do
    if ← sees "\x7d" then return false
    level.statement
    return true
  mark "\x7d"

/-- Statements in braces. -/
def block (level : Level) : Read Unit := do
  mark "\x7b"
  level.blockRest

end Level

end Statechart.Source
