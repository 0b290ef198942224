import Statechart.Source.Grammar

/-!
# Arguments and parameters

The lists between brackets that calls, functions and types have in common.

* `arguments`: the arguments of a call;
* `typeArguments`: types between angle brackets;
* `typeParameters`: the parameters that a type or a function takes between angle
  brackets;
* `parameters`: the parameters of a function;
* `signature`: the head of a function after its name;
* `decorators`: what stands after `@` before classes, members and parameters.
-/

namespace Statechart.Source

/-- Whether a name of a member may start with these characters. -/
def startsName : List Char → Bool
  | c :: cs =>
    startsWord c || startsNumber (c :: cs) || c == '\x22' || c == '\x27' || c == '[' || c == '#'
  | [] => false

/-- Whether one of the words comes next, and something that satisfies the condition
    after it. Where a statement may end after the word, it does not. -/
def seesBefore (words : List String) (ending : Option Ending) (condition : List Char → Bool) :
    Read Bool := do
  let next := (← get).next
  let text := word next.rest
  let after := next.skip text.length
  let breaks := ending.any fun ending => endsAhead ending (after.size + 1) after.rest
  return words.contains (String.ofList text) && !breaks && condition after.next.rest

/-- Reads words that only modify what they stand before. -/
def modifiers (words : List String) (ending : Option Ending) (condition : List Char → Bool) :
    Read Unit :=
  repeating do
    if ← seesBefore words ending condition then
      discard anyWord
      return true
    else return false

/-- One item of a list of expressions: an expression, or three points and one. -/
def spreadItem (level : Level) (leading : Bool) : Read Operand := do
  let first ← start
  if ← mark? "..." then
    let operand ← level.expression { leading := leading }
    return .form "spread_element" first operand.span.stop
  else level.expression { leading := leading }

/-- Items between commas up to a closing bracket. Between two commas there may be
    none. -/
def spreadItems (level : Level) (leading : Bool) (close : String) : Read (List Operand) := do
  repeating (mark? ",")
  let first ← start
  let items ← many do
    repeating (mark? ",")
    if ← sees close then return none
    let item ← spreadItem level (leading && (← start) == first)
    require ((← sees ",") || (← sees close))
    return some item
  mark close
  return items

/-- The arguments of a call. -/
def arguments (level : Level) : Read (List Operand) := do
  mark "("
  spreadItems level false ")"

/-- Types between angle brackets. -/
def typeArguments (level : Level) : Read Unit := do
  mark "<"
  level.type .inner
  repeating do
    if ← mark? "," then
      if ← sees ">" then return false
      level.type .inner
      return true
    else return false
  mark ">"

/-- The words that name types of the language and take no parameters. -/
def plainTypes : List String :=
  ["any", "number", "boolean", "string", "symbol", "unique", "void", "unknown", "never", "object",
   "this", "null", "true", "false", "undefined", "const"]

/-- A parameter that a type or a function takes. -/
def typeParameter (level : Level) : Read Unit := do
  modifiers ["const"] none fun cs => !(word cs).isEmpty
  require (!plainTypes.contains (← anyWord))
  if ← word? "extends" <||> mark? ":" then level.type .inner
  if ← operator? "=" then level.type .inner

/-- The parameters of a type or a function between angle brackets. -/
def typeParameters (level : Level) : Read Unit := do
  mark "<"
  typeParameter level
  repeating do
    if ← mark? "," then
      if ← sees ">" then return false
      typeParameter level
      return true
    else return false
  mark ">"

/-- A call of an operand. -/
def callWith (callee : Operand) (args : List Operand) : Read Operand := do
  let last ← stop
  note (callee.site? args last)
  return callee.call args last

/-- The members of an operand after points. -/
def pointedMembers : Nat → Operand → Read Operand
  | 0, operand => pure operand
  | n + 1, operand => do
    if ← operator? "." then
      let name ← anyWord
      pointedMembers n (operand.member name (← stop))
    else return operand

/-- A name with members, as an operand. -/
def pointedName : Read Operand := do
  let first ← start
  let name ← anyWord
  let operand : Operand :=
    { expr := .ident (.source ⟨first, ← stop⟩) name, span := ⟨first, ← stop⟩, name := some name }
  pointedMembers ((← get).size + 1) operand

/-- What stands after `@`: an expression in brackets, or a name that may be called. -/
def decorators (level : Level) : Read Unit :=
  repeating do
    if ← mark? "@" then
      if ← sees "(" then level.condition
      else
        let callee ← pointedName
        discard (attempt do
          if ← sees "<" then typeArguments level
          discard (callWith callee (← arguments level)))
      return true
    else return false

/-- Whether a name or a pattern may start with these characters. -/
def startsPattern : List Char → Bool
  | c :: _ => startsWord c || c == '\x7b' || c == '['
  | [] => false

/-- Reads the words before a parameter. -/
def parameterModifiers : Read Unit :=
  modifiers ["public", "private", "protected", "override", "readonly"] none fun cs =>
    startsPattern cs || "...".toList.isPrefixOf cs

/-- A name, or a pattern that takes a value apart. -/
def pattern (level : Level) : Read Unit := do
  let cs ← ahead
  require (startsPattern cs)
  if cs.head?.any startsWord then discard anyWord
  else discard (level.expression { bare := true })

/-- A parameter of a function. -/
def parameter (level : Level) : Read Unit := do
  decorators level
  parameterModifiers
  discard (mark? "...")
  pattern level
  discard (operator? "?")
  if ← mark? ":" then level.type .inner
  if ← operator? "=" then discard (level.expression .inner)

/-- The parameters of a function. -/
def parameters (level : Level) : Read Unit := do
  mark "("
  repeating do
    if ← sees ")" then return false
    parameter level
    if ← mark? "," then return true else return false
  mark ")"

/-- The head of a function after its name. -/
def signature (level : Level) (setting : TypeSetting) : Read Unit := do
  if ← sees "<" then typeParameters level
  parameters level
  if ← mark? ":" then level.type setting

end Statechart.Source
