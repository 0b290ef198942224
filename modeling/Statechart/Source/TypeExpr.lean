import Statechart.Source.Literal

/-!
# Types

Types leave no trace in the tree. They are read for where they end, and for the calls
that a query of the type of an expression may hold.

* `objectType`: a list of members in braces;
* `typeExpr`: a type.
-/

namespace Statechart.Source

/-- Whether the type goes on if the next token lets it: it may not end here with its
    line. -/
def TypeSetting.goesOn (setting : TypeSetting) : Read Bool :=
  match setting.ending with
  | some ending => not <$> endsHere ending
  | none => pure true

/-! ## Members in braces -/

/-- What stands in the square brackets of a signature: a name with a type, a name that
    runs through a type, or an expression. -/
def bracketedName (level : Level) : Read Unit := do
  mark "["
  let named ← attempt do
    discard anyWord
    if ← mark? ":" then level.type .inner
    else
      require (← word? "in")
      level.type .inner
      if ← word? "as" then level.type .inner
    mark "]"
  if named.isNone then
    discard (level.expression .inner)
    mark "]"

/-- The name of a member of a type. -/
def signatureName (level : Level) : Read Unit := do
  if ← sees "[" then bracketedName level else discard (memberName level)

/-- The words that may stand before the name of a member of a type. -/
def signatureModifiers : List String :=
  ["public", "private", "protected", "static", "override", "readonly", "async", "get", "set",
   "abstract"]

/-- A member of a type: a signature, or a name that may have a type. -/
def typeMember (level : Level) : Read Unit := do
  modifiers signatureModifiers (some .ofType) fun cs => startsName cs || cs.head? == some '*'
  discard (mark? "*")
  if (← sees "(") || (← sees "<") then signature level .line
  else
    if ← (mark? "+") <||> (mark? "-") then require (← word? "readonly")
    signatureName level
    discard ((mark? "+?") <||> (mark? "-?") <||> (operator? "?"))
    if !(← endsHere .ofType) && ((← sees "(") || (← sees "<")) then signature level .line
    else if ← mark? ":" then level.type .line

/-- The members of a type in braces. -/
def objectType (level : Level) : Read Unit := do
  mark "\x7b"
  discard (mark? "|")
  let atEnd : Read Bool := (sees "\x7d") <||> (sees "|\x7d")
  let separator : Read Bool := (mark? ",") <||> (mark? ";")
  if ← separator then require (!(← atEnd))
  repeating do
    if ← atEnd then return false
    typeMember level
    if ← separator then return true
    else if ← atEnd then return false
    else
      require (← endsHere .ofType)
      return true
  discard (mark? "|")
  mark "\x7d"

/-! ## Tuples -/

/-- A place of a tuple: a type, which may be named or left out. -/
def tupleMember (level : Level) : Read Unit := do
  discard (mark? "...")
  level.type .inner
  discard (operator? "?")
  if ← mark? ":" then level.type .inner

/-- Types in square brackets. -/
def tupleType (level : Level) : Read Unit := do
  mark "["
  repeating do
    if ← sees "]" then return false
    tupleMember level
    mark? ","
  mark "]"

/-! ## Queries -/

/-- The members and calls after a queried name, at most `n`. -/
def queriedMembers (level : Level) (setting : TypeSetting) : Nat → Operand → Read Unit
  | 0, _ => pure ()
  | n + 1, operand => do
    if !(← setting.goesOn) then return
    let next := markLexeme (← ahead)
    if next == "." || next == "?." then
      mark next
      if ← sees "[" then queriedMembers level setting n { operand with name := none }
      else
        let name ← take (max (privateName (← ahead)).length (word (← ahead)).length)
        require (!name.isEmpty)
        queriedMembers level setting n (operand.member name (← stop))
    else if next == "(" then
      let args ← arguments level
      queriedMembers level setting n (← callWith operand args)
    else if next == "<" then typeArguments level
    else if next == "[" then
      let subscript ← attempt do
        mark "["
        let cs ← ahead
        let length := max (word cs).length (max (stringLexeme cs).length (numberLexeme cs).length)
        require (length != 0)
        discard (take length)
        mark "]"
      if subscript.isSome then
        queriedMembers level setting n
          (.form "subscript_expression" operand.span.start (← stop))

/-- The type of an expression, after `typeof`, or an imported type. -/
def typeQuery (level : Level) (setting : TypeSetting) : Read Unit := do
  let first ← start
  let text ← anyWord
  queriedMembers level setting ((← get).size + 1) (.ofWord text ⟨first, ← stop⟩)

/-! ## Types -/

/-- Reads the operator of a union or an intersection, if it comes next. -/
def typeOperator? : Read Bool := do
  let cs ← ahead
  let text := markLexeme cs
  if (text == "|" && (cs.drop 1).head? != some '\x7d') || text == "&" then mark? text
  else return false

/-- Parameters, an arrow and a type. -/
def functionType (level : Level) (setting : TypeSetting) : Read Unit := do
  if ← sees "<" then typeParameters level
  parameters level
  mark "=>"
  level.type setting

/-- A type that starts with a round bracket. -/
def bracketedType (level : Level) (setting : TypeSetting) : Read Unit := do
  let function ← attempt do
    functionType level setting
    if setting.beforeArrow then require (← sees "=>")
  if function.isNone then
    mark "("
    level.type .inner
    mark ")"

/-- Whether the name before this place belongs to the type after an expression, though
    it may as well be a member of that expression. -/
def staysType (setting : TypeSetting) : Read Bool := do
  let cs ← ahead
  let closes := [')', ']', '\x7d', ',', '['].contains (cs.head?.getD ' ')
  let indexes := cs.head? == some '[' && ((← get).next.skip 1).next.rest.head? == some ']'
  return indexes || word cs == "extends".toList || (setting.leading && closes)

/-- Names after points, at most `n`, where `count` names stand before them. After an
    expression, the last of three or more is a member of the expression, unless what
    follows tells that it is not. -/
def pathRest (setting : TypeSetting) : Nat → Nat → Read Unit
  | 0, _ => pure ()
  | n + 1, count => do
    let before ← get
    if ← operator? "." then
      discard anyWord
      let isLast := setting.ascribed && 2 ≤ count && !(← seesMark ".")
      if ← pure isLast <&&> (not <$> staysType setting) then set before
      else pathRest setting n (count + 1)

/-- A type that starts with a name. -/
def namedType (level : Level) (setting : TypeSetting) : Read Unit := do
  let text ← anyWord
  if !plainTypes.contains text then
    pathRest setting ((← get).size + 1) 1
    if ← sees "<" then discard (attempt (typeArguments level))
  if ← setting.goesOn <&&> word? "is" then level.type setting

/-- A type that starts with a word. -/
def wordType (level : Level) (setting : TypeSetting) : Read Unit := do
  let text ← nextWord
  if text == "typeof" then
    discard anyWord
    typeQuery level setting
  else if text == "import" then typeQuery level setting
  else if text == "new" then
    discard anyWord
    functionType level setting
  else if ← seesBefore ["abstract"] none fun cs => word cs == "new".toList then
    discard anyWord
    discard anyWord
    functionType level setting
  else if text == "infer" then
    discard anyWord
    discard anyWord
    if ← setting.goesOn <&&> word? "extends" then
      level.type { setting with conditional := false }
  else
    modifiers ["asserts"] none fun cs => !(word cs).isEmpty
    namedType level setting

/-- A type without operators around it and without indexes after it. -/
def plainType (level : Level) (setting : TypeSetting) : Read Unit := do
  let cs ← ahead
  match cs.head? with
  | some '(' => bracketedType level setting
  | some '<' => functionType level setting
  | some '\x7b' => objectType level
  | some '[' => tupleType level
  | some '*' => mark "*"
  | some '\x60' => discard (template (level.type .inner))
  | _ =>
    if !(stringLexeme cs).isEmpty then discard (take (stringLexeme cs).length)
    else
      discard ((mark? "-") <||> (mark? "+"))
      let cs ← ahead
      if startsNumber cs then discard (take (numberLexeme cs).length)
      else wordType level setting

/-- An operand of a union: a type with words before it and indexes after it. -/
def typeOperand (level : Level) (setting : TypeSetting) : Read Unit := do
  repeating typeOperator?
  repeating ((oneOf? ["keyof", "readonly", "unique"]) <||> (mark? "?"))
  plainType level setting
  repeating do
    if ← setting.goesOn <&&> mark? "[" then
      if !(← sees "]") then level.type .inner
      mark "]"
      return true
    else return false

/-- A type. -/
def typeExpr (level : Level) (setting : TypeSetting) : Read Unit := do
  typeOperand level setting
  repeating do
    if ← setting.goesOn <&&> typeOperator? then
      typeOperand level setting
      return true
    else return false
  if ← pure setting.conditional <&&> setting.goesOn <&&> word? "extends" then
    level.type { conditional := false }
    mark "?"
    level.type .inner
    mark ":"
    level.type setting

end Statechart.Source
