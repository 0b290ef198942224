import Statechart.Source.Primary
import Statechart.Source.Stage

/-!
# Statements

Statements are read for where they end and for the calls in them. Many of the words
that they start with are names elsewhere; what follows such a word decides.

* `declarators`: the names that a declaration introduces, with their values;
* `exported`, `imported`: what is shared between sources;
* `statement`: a statement.
-/

namespace Statechart.Source

/-! ## Declarations -/

/-- A declared name or pattern, with its type and its value; gives how the statement
    may end after it. -/
def declarator (level : Level) (setting : Setting) : Read Ending := do
  pattern level
  discard (operator? "!")
  if ← mark? ":" then level.type .line
  if ← operator? "=" then
    discard (level.expression setting)
    return .ofExpression
  else return .ofType

/-- Declared names between commas. -/
def declarators (level : Level) (setting : Setting) : Read Ending := do
  let first ← declarator level setting
  let rest ← many do
    if ← mark? "," then return some (← declarator level setting) else return none
  return rest.getLast?.getD first

/-- A function that is declared, from the word `function` on. It may have no body. -/
def functionDeclaration (level : Level) : Read Unit := do
  functionHead level .head
  if ← sees "\x7b" then level.block
  else if !(← mark? ";") then require ((← endsHere .ofType) || (← endsHere .ofSignature))

/-- Whether a declaration with a name starts here, from `function` or `class` on. -/
def isNamed : Read Bool := do
  let next := (← get).next
  let next := (next.skip (word next.rest).length).next
  let next := if next.rest.head? == some '*' then (next.skip 1).next else next
  let name := String.ofList (word next.rest)
  return !name.isEmpty && name != "extends" && name != "implements"

/-- An expression as a statement. -/
def expressionStatement (level : Level) : Read Unit := do
  discard (level.expressions .line)
  endStatement .ofExpression

/-- A function from the word `async` on. Without a name it is an expression. -/
def asyncDeclaration (level : Level) : Read Unit := do
  let before ← get
  discard anyWord
  if ← isNamed then functionDeclaration level
  else
    set before
    expressionStatement level

/-- The members of an enumeration. -/
def enumDeclaration (level : Level) : Read Unit := do
  require (← word? "enum")
  discard anyWord
  mark "\x7b"
  repeating do
    if ← sees "\x7d" then return false
    discard (memberName level)
    if ← operator? "=" then discard (level.expression .inner)
    mark? ","
  mark "\x7d"

/-- The members of an interface. -/
def interfaceDeclaration (level : Level) : Read Unit := do
  require (← word? "interface")
  discard anyWord
  if ← sees "<" then typeParameters level
  if ← word? "extends" then level.types .inner
  objectType level

/-- A name for a type. -/
def typeDeclaration (level : Level) : Read Unit := do
  require (← word? "type")
  discard anyWord
  if ← sees "<" then typeParameters level
  require (← operator? "=")
  level.type .line
  endStatement .ofType

/-- A namespace or a module, which may have no body. -/
def namespaceDeclaration (level : Level) : Read Unit := do
  discard anyWord
  let quoted := stringLexeme (← ahead)
  if quoted.isEmpty then discard pointedName else discard (take quoted.length)
  if ← sees "\x7b" then level.block else discard (mark? ";")

/-! ## Sharing -/

/-- Reads a string. -/
def quoted : Read Unit := do
  let text := stringLexeme (← ahead)
  require (!text.isEmpty)
  discard (take text.length)

/-- Names in braces that are imported or exported. -/
def specifiers : Read Unit := do
  mark "\x7b"
  repeating do
    if ← sees "\x7d" then return false
    if !(← mark? ",") then quoted <|> discard anyWord
    return true
  mark "\x7d"

/-- The rest of a statement that names another source: what the source is to hold, and
    the end. -/
def sourceRest (level : Level) : Read Unit := do
  if ← word? "with" then discard (objectLiteral level)
  endStatement .ofType

/-- A name for another name or for another source, after the `=`. -/
def aliased : Read Unit := do
  if ← seesBefore ["require"] none fun cs => cs.head? == some '(' then
    discard anyWord
    mark "("
    quoted
    mark ")"
  else discard pointedName
  endStatement .ofType

/-- What is imported, after the word `import`. -/
def imported (level : Level) : Read Unit := do
  repeating do
    if ← sees "\x7b" then specifiers
    else if !(← mark? "," <||> mark? "*") then
      if (← nextWord).isEmpty then return false
      discard anyWord
    return true
  if ← operator? "=" then aliased
  else
    quoted
    sourceRest level

/-- What a source exports as its main part. -/
def exportedDefault (level : Level) : Read Unit := do
  let text ← nextWord
  let declares ←
    if text == "function" || text == "class" then isNamed
    else if text == "async" then
      seesBefore ["async"] (some .ofExpression) fun cs => word cs == "function".toList
    else pure (text == "abstract" || text == "interface")
  if declares || (← sees "@") then level.statement
  else
    discard (level.expression .line)
    endStatement .ofExpression

/-- What is exported, after the word `export`. -/
def exported (level : Level) : Read Unit := do
  if ← word? "default" then exportedDefault level
  else if ← operator? "=" then
    discard (level.expression .line)
    endStatement .ofExpression
  else if ← mark? "*" then
    if ← word? "as" then quoted <|> discard anyWord
    require (← word? "from")
    quoted
    sourceRest level
  else if ← word? "as" then
    require (← word? "namespace")
    discard anyWord
    endStatement .ofType
  else
    if ← seesBefore ["type"] none fun cs => cs.head? == some '\x7b' then discard anyWord
    if ← sees "\x7b" then
      specifiers
      if ← word? "from" then quoted
      sourceRest level
    else level.statement

/-! ## Control -/

/-- The head of a loop over values or with a counter, and its body. -/
def forRest (level : Level) : Read Unit := do
  discard (word? "await")
  mark "("
  let setting : Setting := { hasIn := false }
  if ← seesBefore ["var", "let", "const"] none startsPattern then
    discard anyWord
    discard (declarators level setting)
  else if !(← sees ";") then discard (level.expressions setting)
  if ← word? "in" <||> word? "of" then discard (level.expressions .inner)
  else
    mark ";"
    if !(← sees ";") then discard (level.expressions .inner)
    mark ";"
    if !(← sees ")") then discard (level.expressions .inner)
  mark ")"
  level.statement

/-- A branch of a `switch`, if one follows. -/
def branch? (level : Level) : Read Bool := do
  if ← word? "case" then discard (level.expressions { label := true })
  else if !(← word? "default") then return false
  mark ":"
  repeating do
    if (← sees "\x7d") || (← seesWord "case") || (← seesWord "default") then return false
    level.statement
    return true
  return true

/-- The parts of a `try` after it. -/
def tryRest (level : Level) : Read Unit := do
  level.block
  if ← word? "catch" then
    if ← mark? "(" then
      pattern level
      if ← mark? ":" then level.type .inner
      mark ")"
    level.block
  if ← word? "finally" then level.block

/-- A statement that starts with a word which is never a name; gives whether it was
    one. -/
def controlStatement (level : Level) (text : String) : Read Bool := do
  if text == "if" then
    discard anyWord
    level.condition
    level.statement
    if ← word? "else" then level.statement
  else if text == "for" then
    discard anyWord
    forRest level
  else if text == "while" || text == "with" then
    discard anyWord
    level.condition
    level.statement
  else if text == "do" then
    discard anyWord
    level.statement
    require (← word? "while")
    level.condition
    discard (mark? ";")
  else if text == "switch" then
    discard anyWord
    level.condition
    mark "\x7b"
    repeating (branch? level)
    mark "\x7d"
  else if text == "try" then
    discard anyWord
    tryRest level
  else if text == "return" then
    discard anyWord
    if !(← sees ";") && !(← endsHere .ofType) then discard (level.expressions .line)
    endStatement .ofExpression
  else if text == "throw" then
    discard anyWord
    discard (level.expressions .line)
    endStatement .ofExpression
  else if text == "break" || text == "continue" || text == "debugger" then
    discard anyWord
    if !(← sees ";") && !(← endsHere .ofType) then discard anyWord
    endStatement .ofType
  else return false
  return true

/-! ## Statements -/

/-- The words that a declaration starts with. -/
def declarationWords : List String :=
  ["var", "let", "const", "function", "class", "abstract", "enum", "interface", "type", "namespace",
   "module", "async", "import", "declare"]

/-- Whether the word comes next and a word of the condition after it. Where the first
    may be a name, both have to stand in the same statement. -/
def seesPair (text : String) (condition : String → Bool) : Read Bool :=
  let ending := if ["const", "abstract", "interface"].contains text then none
    else some Ending.ofExpression
  seesBefore [text] ending fun cs => condition (String.ofList (word cs))

/-- A declaration, if one follows; gives whether it does. -/
def declaration (level : Level) (text : String) : Read Bool := do
  let named (name : String) : Bool :=
    !name.isEmpty && !wordsBetween.contains name
  if ← seesPair "const" (· == "enum") then
    discard anyWord
    enumDeclaration level
  else if text == "var" || text == "const" then
    discard anyWord
    endStatement (← declarators level .line)
  else if ← seesBefore ["let"] (some .ofExpression) startsPattern then
    discard anyWord
    endStatement (← declarators level .line)
  else if ← pure (text == "function") <&&> isNamed then functionDeclaration level
  else if ← seesPair "async" (· == "function") then asyncDeclaration level
  else if ← pure (text == "class") <&&> isNamed then classRest level
  else if ← seesPair "abstract" (· == "class") then
    discard anyWord
    classRest level
  else if text == "enum" then enumDeclaration level
  else if ← seesPair "interface" named then interfaceDeclaration level
  else if ← seesPair "type" named then typeDeclaration level
  else if ← seesBefore ["namespace", "module"] (some .ofExpression) fun cs =>
      named (String.ofList (word cs)) || !(stringLexeme cs).isEmpty then
    namespaceDeclaration level
  else if ← seesPair "declare" (· == "global") then
    discard anyWord
    discard anyWord
    level.block
  else if ← seesPair "declare" declarationWords.contains then
    discard anyWord
    level.statement
  else if ← seesBefore ["import"] none fun cs =>
      cs.head? != some '(' && cs.head? != some '.' then
    discard anyWord
    imported level
  else if text == "export" then
    discard anyWord
    exported level
  else return false
  return true

/-- A statement. -/
def statement (level : Level) : Read Unit := do
  if ← mark? ";" then return
  else if ← sees "\x7b" then level.block <|> expressionStatement level
  else if ← sees "@" then
    decorators level
    level.statement
  else
    let text ← nextWord
    if ← controlStatement level text then return
    else if ← seesBefore [text] none fun cs => cs.head? == some ':' then
      require (!text.isEmpty)
      discard anyWord
      mark ":"
      level.statement
    else if !(← declaration level text) then expressionStatement level

end Statechart.Source
