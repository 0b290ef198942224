import Statechart.Source.Dialect
import Statechart.Source.Primary
import Statechart.Source.Stage

/-!
# Operands and what stands before them

The first characters of an operand tell what it is, except that round brackets may
hold an expression or the parameters of a function, and braces after an arrow a block
or an object literal.

* `readBracketed`, `readAngle`, `readBody`, `readWord`: operands by how they start;
* `readOperand`: the stage after an operand, or after an operator before it.
-/

namespace Statechart.Source

/-- The operators that stand before an operand. -/
def marksBefore : List (String × PendingKind) :=
  [("++", .update), ("--", .update), ("!", .unary), ("~", .unary), ("-", .unary), ("+", .unary)]

/-- The words that stand before an operand. -/
def wordsBefore : List (String × PendingKind) :=
  [("typeof", .unary), ("void", .unary), ("delete", .unary), ("await", .await)]

/-- After the arrow of a function that starts at `first`. A colon before it that may
    as well belong to a choice is remembered. -/
def Climb.afterArrow (climb : Climb) (first : Nat) (isTyped : Bool) : Climb :=
  let slack := if isTyped && climb.openChoices != 0 then climb.slack + 1 else climb.slack
  { climb with slack }.push .arrow first

/-- What starts with a round bracket. -/
def readBracketed (level : Level) (setting : Setting) (climb : Climb) : Read Stage := do
  let first ← start
  let list ← bracketed level
  let last ← stop
  match ← arrow? level setting with
  | some isTyped => return .operand (climb.afterArrow first isTyped)
  | none => return .operator climb (← list.operand first last)

/-- Types before a bracket or an operand: those of a function, or those that an
    operand is said to have. -/
def readTyped (level : Level) (setting : Setting) (climb : Climb) : Read Stage := do
  let first ← start
  let isGeneric := (← attempt (typeParameters level)).isSome
  if !isGeneric then typeArguments level
  if isGeneric && (← sees "(") then
    let second ← start
    let list ← bracketed level
    let last ← stop
    match ← arrow? level setting with
    | some isTyped => return .operand (climb.afterArrow first isTyped)
    | none => return .operator (climb.push .assertion first) (← list.operand second last)
  else return .operand (climb.push .assertion first)

/-- A function with types, where markup elements are written in angle brackets. -/
def readGeneric (level : Level) (setting : Setting) (climb : Climb) : Read Stage := do
  let first ← start
  typeParameters level
  parameters level
  match ← arrow? level setting with
  | some isTyped => return .operand (climb.afterArrow first isTyped)
  | none => failure

/-- What starts with an angle bracket. -/
def readAngle (dialect : Dialect) (level : Level) (setting : Setting) (climb : Climb) :
    Read Stage := do
  let first ← start
  match dialect with
  | .typescript => readTyped level setting climb
  | .tsx =>
    match ← attempt level.element with
    | some form => return .operator climb (.compound form first (← stop))
    | none => readGeneric level setting climb

/-- Whether a label would stand first, were these the characters of a block. -/
def startsLabel : Read Bool := do
  let next := (← get).next.skip 1
  let next := next.next
  let text := word next.rest
  return !text.isEmpty && (next.skip text.length).next.rest.head? == some ':'

/-- The body of a function in braces, after the arrow: a block, unless it can only be
    an object literal, or starts like one. -/
def readBody (level : Level) (climb : Climb) (first : Nat) : Read Stage := do
  let block : Read Stage := do
    level.block
    require (!(← seesMark "="))
    closeBlock .ofExpression
    return .operator { climb with stack := climb.stack.drop 1 } (.function first (← stop))
  let object : Read Stage := do
    return .operator climb (← objectLiteral level)
  if ← startsLabel then object <|> block else block <|> object

/-- What starts with `async`. -/
def readAsync (level : Level) (setting : Setting) (climb : Climb) : Read Stage := do
  let first ← start
  require (← word? "async")
  let name : Operand := .ofWord "async" ⟨first, ← stop⟩
  if ← breaksHere setting climb then return .operator climb name
  else if ← seesWord "function" then return .operator climb (← functionOperand level first)
  else
    let typed ← attempt do
      if ← sees "(" then parameters level
      else if ← sees "<" then
        typeParameters level
        parameters level
      else if !(← sees "=>") then discard anyWord
      match ← arrow? level setting with
      | some isTyped => return isTyped
      | none => failure
    match typed with
    | some isTyped => return .operand (climb.afterArrow first isTyped)
    | none => return .operator climb name

/-- What starts with `new`. -/
def readNew (level : Level) (setting : Setting) (climb : Climb) : Read Stage := do
  let before ← get
  let first ← start
  discard anyWord
  if ← breaksHere setting climb then return .operator climb (.ofWord "new" ⟨first, ← stop⟩)
  else
    set before
    return .operator climb (← newExpression level)

/-- What starts with `yield`. -/
def readYield (setting : Setting) (climb : Climb) : Read Stage := do
  let first ← start
  require (← word? "yield")
  if ← operator? "*" then return .operand (climb.push .yield first)
  else if !(← breaksHere setting climb) && ((← sees "/") || startsOperand (← ahead)) then
    return .operand (climb.push .yield first)
  else return .operator climb (.compound "yield_expression" first (← stop))

/-- What starts with a word. -/
def readWord (level : Level) (setting : Setting) (climb : Climb) : Read Stage := do
  let first ← start
  let text ← nextWord
  match wordsBefore.lookup text with
  | some kind =>
    discard anyWord
    return .operand (climb.push kind first)
  | none =>
    if text == "new" then readNew level setting climb
    else if text == "async" then readAsync level setting climb
    else if text == "yield" then readYield setting climb
    else
      let arrow ← attempt do
        discard anyWord
        mark "=>"
      let resource ← attempt do
        require (← word? "using")
        discard anyWord
        require (← operator? "=")
      if arrow.isSome then return .operand (climb.push .arrow first)
      else if resource.isSome then
        return .operand (climb.push (.assignment "assignment_expression") first)
      else return .operator climb (← plainOperand level)

/-- Reads an operand, or an operator before it. -/
def readOperand (dialect : Dialect) (level : Level) (setting : Setting) (climb : Climb) :
    Read Stage := do
  let first ← start
  let cs ← ahead
  match marksBefore.find? fun (text, _) => text.toList.isPrefixOf cs with
  | some (text, kind) =>
    mark text
    return .operand (climb.push kind first)
  | none =>
    match cs, climb.stack with
    | '(' :: _, _ => readBracketed level setting climb
    | '<' :: _, _ => readAngle dialect level setting climb
    | '\x7b' :: _, ⟨.arrow, first⟩ :: _ => readBody level climb first
    | c :: _, _ =>
      if startsWord c then readWord level setting climb
      else return .operator climb (← plainOperand level)
    | [], _ => failure

end Statechart.Source
