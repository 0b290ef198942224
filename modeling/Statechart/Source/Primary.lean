import Statechart.Source.ClassBody

/-!
# Primary expressions

The expressions that members, indexes and calls bind to, and these.

* `functionOperand`: a function written with the word `function`;
* `plainOperand`: a literal, a name, a function or a class;
* `chained?`: a member, an index, a call or a template after an operand;
* `newExpression`: a constructor with its arguments;
* `Bracketed`: what stands in round brackets, be it an expression or the parameters
  of a function.
-/

namespace Statechart.Source

/-! ## Functions and classes -/

/-- The head of a function from the word `function` on. -/
def functionHead (level : Level) (setting : TypeSetting) : Read Unit := do
  require (← word? "function")
  discard (mark? "*")
  if !(← nextWord).isEmpty then discard anyWord
  signature level setting

/-- A function from the word `function` on, which starts at `first`. -/
def functionOperand (level : Level) (first : Nat) : Read Operand := do
  functionHead level .inner
  level.block
  closeBlock .ofExpression
  return .function first (← stop)

/-- A class with what stands before it. -/
def classOperand (level : Level) : Read Operand := do
  let first ← start
  decorators level
  classRest level
  return .form "class" first (← stop)

/-! ## Literals and names -/

/-- `import` on its own, or the description of the module. -/
def importOperand : Read Operand := do
  let first ← start
  require (← word? "import")
  let last ← stop
  let meta? ← attempt do
    mark "."
    require (← word? "meta")
  if meta?.isSome then return .form "meta_property" first (← stop)
  else return .ofWord "import" ⟨first, last⟩

/-- A literal, a name, a function or a class. -/
def plainOperand (level : Level) : Read Operand := do
  let first ← start
  let cs ← ahead
  let spanned (make : Origin → String → Expr) (length : Nat) : Read Operand := do
    require (length != 0)
    let text ← take length
    let span : Span := ⟨first, ← stop⟩
    return { expr := make (.source span) text, span }
  match cs.head? with
  | some '\x7b' => objectLiteral level
  | some '[' => arrayLiteral level
  | some '\x60' => templateOperand level
  | some '@' => classOperand level
  | some '#' =>
    spanned (fun origin _ => .other origin "private_property_identifier") (privateName cs).length
  | some '/' => spanned (fun origin _ => .other origin "regex") (regexLexeme cs).length
  | _ =>
    if startsNumber cs then spanned Expr.number (numberLexeme cs).length
    else if !(stringLexeme cs).isEmpty then
      spanned (fun origin text => .str origin (Text.cook text)) (stringLexeme cs).length
    else
      let text ← nextWord
      if text == "function" then functionOperand level first
      else if text == "class" then classOperand level
      else if text == "import" then importOperand
      else
        discard anyWord
        return .ofWord text ⟨first, ← stop⟩

/-! ## Members and calls -/

/-- The member of an operand after its point. -/
def memberOf (operand : Operand) : Read Operand := do
  let cs ← ahead
  let name ← take (max (privateName cs).length (word cs).length)
  require (!name.isEmpty)
  return operand.member name (← stop)

/-- An index of an operand. -/
def indexOf (level : Level) (operand : Operand) : Read Operand := do
  mark "["
  discard (level.expressions .inner)
  mark "]"
  return .form "subscript_expression" operand.span.start (← stop)

/-- A call of an operand. -/
def callOf (level : Level) (operand : Operand) : Read Operand := do
  callWith operand (← arguments level)

/-- What follows the `?.` after an operand. -/
def optionalOf (level : Level) (operand : Operand) : Read Operand := do
  if ← sees "[" then indexOf level operand
  else if ← sees "(" then callOf level operand
  else if ← sees "<" then
    typeArguments level
    callOf level operand
  else memberOf operand

/-- A member, an index, a call, or a template that the operand is the tag of, if one
    follows. -/
def chained? (level : Level) (calls : Bool) (operand : Operand) : Read (Option Operand) := do
  let text := markLexeme (← ahead)
  if text == "." then
    mark "."
    return some (← memberOf operand)
  else if text == "?." then
    mark "?."
    return some (← optionalOf level operand)
  else if text == "[" then return some (← indexOf level operand)
  else if text == "\x60" then
    discard (templateOperand level)
    return some (operand.call [] (← stop))
  else if text == "(" && calls then return some (← callOf level operand)
  else return none

/-- An operand with at most `n` members, indexes and templates after it. -/
def membersOf (level : Level) : Nat → Operand → Read Operand
  | 0, operand => pure operand
  | n + 1, operand => do
    match ← chained? level false operand with
    | some next => membersOf level n next
    | none => return operand

/-- Reads at most `n` members, indexes, calls and templates after an operand; gives
    whether the last is a member or an index. -/
def endsChain (level : Level) : Nat → Bool → Operand → Read Bool
  | 0, isMember, _ => pure isMember
  | n + 1, isMember, operand => do
    match ← chained? level true operand with
    | some next => endsChain level n (!next.isCall) next
    | none => return isMember

/-! ## Brackets -/

/-- What stands in round brackets. -/
structure Bracketed where
  items : List Operand
  /-- They can be nothing but parameters. -/
  isSignature : Bool

/-- Reads what stands before a parameter; decorators before a class belong to it. -/
def beforeParameter (level : Level) : Read Unit := do
  discard (attempt do
    decorators level
    require (!(← seesWord "class")))
  parameterModifiers
  discard (mark? "...")

/-- One item in round brackets, and whether it can be nothing but a parameter. -/
def bracketedItem (level : Level) (opening : Bool) : Read (Operand × Bool) := do
  let first ← start
  beforeParameter level
  let isModified := (← start) != first
  let operand ← level.expression { opening := opening, leading := opening }
  let isOptional ← operator? "?"
  if ← mark? ":" then level.type .inner
  let hasDefault ← operator? "="
  if hasDefault then discard (level.expression .inner)
  return (operand, isModified || isOptional || hasDefault)

/-- Expressions or parameters in round brackets. -/
def bracketed (level : Level) : Read Bracketed := do
  mark "("
  let first ← start
  let items ← many do
    if ← sees ")" then return none
    let item ← bracketedItem level ((← start) == first)
    if !(← mark? ",") then require (← sees ")")
    return some item
  mark ")"
  return { items := items.map Prod.fst, isSignature := items.any Prod.snd }

/-- An expression in round brackets. -/
def Bracketed.operand (list : Bracketed) (first last : Nat) : Read Operand := do
  require (!list.isSignature)
  match Operand.sequence list.items with
  | some operand => return operand.widen first last true
  | none => failure

/-- Reads the arrow of a function and the type before it, if they follow; gives
    whether there is such a type. -/
def arrow? (level : Level) (setting : Setting) : Read (Option Bool) := do
  if ← mark? "=>" then return some false
  else if setting.label then return none
  else
    let typed ← attempt do
      mark ":"
      level.type { beforeArrow := true }
      mark "=>"
    return typed.map fun _ => true

/-! ## Constructors -/

/-- The constructor after `new`. -/
def constructorOperand (level : Level) : Read Operand := do
  let first ← start
  let operand ←
    if ← sees "(" then
      let list ← bracketed level
      list.operand first (← stop)
    else plainOperand level
  membersOf level ((← get).size + 1) operand

/-- A constructor with its arguments, from `new` on. -/
def newExpression (level : Level) : Read Operand := do
  let first ← start
  require (← word? "new")
  let target? ← attempt do
    mark "."
    require (← word? "target")
  if target?.isSome then return .form "meta_property" first (← stop)
  else
    discard (constructorOperand level)
    if ← seesMark "<" then discard (attempt (typeArguments level))
    if ← sees "(" then discard (arguments level)
    return .compound "new_expression" first (← stop)

end Statechart.Source
