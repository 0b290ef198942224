import Statechart.Source.Primary
import Statechart.Source.Stage

/-!
# What follows an operand

Members and calls bind to the operand itself; every other operator first completes the
pending operators that bind tighter. Angle brackets after an operand hold types where
that can be, and are comparisons else.

* `instantiated`: an operand with types after it;
* `readMark`: operators;
* `readOperator`: the stage after what follows an operand.
-/

namespace Statechart.Source

/-- The operators that assign and compute. -/
def augmentedMarks : List String :=
  ["+=", "-=", "*=", "/=", "%=", "^=", "&=", "|=", ">>=", ">>>=", "<<=", "**=", "&&=", "||=", "??="]

/-- Whether a question mark at the start asks for a choice, rather than saying that
    something may be missing. -/
def opensChoice (cs : List Char) : Bool :=
  match cs with
  | '?' :: '?' :: _ => false
  | '?' :: '.' :: _ => false
  | '?' :: rest =>
    match rest.dropWhile isPlainGap with
    | ':' :: _ | ')' :: _ | ',' :: _ => false
    | '.' :: next => next.head?.any Char.isDigit
    | _ => true
  | _ => false

/-- The words that types after an expression do not start with. -/
def neverTypes : List String :=
  ["declare", "namespace", "type", "public", "private", "protected", "override", "module", "export",
   "get", "set", "async", "static", "let", "yield", "await", "import", "function", "class", "super"]

/-- Types in angle brackets after an expression. -/
def typesAfter (level : Level) : Read Unit := do
  require (← seesMark "<")
  let next := ((← get).next.skip 1).next
  require (!neverTypes.contains (String.ofList (word next.rest)))
  typeArguments level
  let after := (← get).rest.head?
  require (after != some '>' && after != some '=')

/-- Whether members and calls follow of which the last is a member, and then the value
    ends. -/
def endsInMember (level : Level) (operand : Operand) : Read Bool := do
  let before ← get
  let last ← attempt do
    let isMember ← endsChain level ((← get).size + 1) false operand
    let next := (← ahead).head?.getD ','
    return isMember && [',', ')', ']', '\x7d'].contains next
  set before
  return last.getD false

/-- An operand with types after it, unless the angle brackets have to be comparisons.
    The types apply to all that binds tighter than a comparison. -/
def instantiated (level : Level) (setting : Setting) (climb : Climb) (operand : Operand) :
    Read Stage := do
  typesAfter level
  let (settled, compared) := climb.settle .less operand
  let whole : Operand := .compound "instantiation_expression" compared.span.start (← stop)
  let cs ← ahead
  let text := markLexeme cs
  if setting.heritage && (text == "\x7b" || text == "," || text == "implements") then
    settled.done compared
  else if ← breaksHere setting climb then return .operator settled whole
  else if text == "(" then
    let args ← arguments level
    -- The first value in brackets does not reach back over the one operator before it, if
    -- the brackets are round or a member of the call is its value.
    let isClose ← pure (climb.stack.length == 1) <&&>
      (pure setting.opening <||> (pure setting.leading <&&> endsInMember level operand))
    let (climb, callee) := if isClose then (climb, operand) else (settled, compared)
    let called ← callWith callee args
    let next := markLexeme (← ahead)
    require (next != "=>" && next != "=" && !augmentedMarks.contains next)
    return .operator climb called
  else if text == "!" || text == "++" || text == "--" then
    -- What may follow an operand as well is taken to follow it.
    let after := ((← get).next.skip text.length).next.rest
    require (!startsOperand after || "([\x60+-".toList.contains (after.head?.getD ' '))
    return .operator settled whole
  else
    require (text == "[" || !startsOperand cs)
    return .operator settled whole

/-- Completes what binds tighter than an operator between two expressions. A type in
    angle brackets applies to a whole comparison by `<`. -/
def Climb.settleBinary (climb : Climb) (text : String) (binding : Binding) (operand : Operand) :
    Climb × Operand :=
  let (settled, compared) := climb.settle .less operand
  match text, settled.stack with
  | "<", ⟨.assertion, _⟩ :: _ => (settled, compared)
  | _, _ => climb.settle (.binary binding) operand

/-- An operator between two expressions. -/
def readBinary (climb : Climb) (operand : Operand) (text : String) (binding : Binding) :
    Read Stage := do
  mark text
  let (climb, operand) := climb.settleBinary text binding operand
  return .operand (climb.push (.binary binding) operand.span.start)

/-- A type after `as` or `satisfies`. -/
def readAscription (level : Level) (setting : Setting) (climb : Climb) (operand : Operand) :
    Read Stage := do
  discard anyWord
  let (climb, operand) := climb.settle .ascription operand
  let ending := if setting.breaks && climb.isClosed then some Ending.ofExpression else none
  level.type
    { ending := ending, ascribed := true, leading := setting.leading && climb.stack.isEmpty }
  return .operator climb (operand.widen operand.span.start (← stop) false)

/-- An operator that starts with a mark or a word after an operand. -/
def readMark (level : Level) (setting : Setting) (climb : Climb) (operand : Operand)
    (cs : List Char) : Read Stage := do
  let text := markLexeme cs
  if text == "!" then
    mark text
    let (climb, operand) := climb.settle .ascription operand
    return .operator climb (operand.widen operand.span.start (← stop) true)
  else if text == "as" || text == "satisfies" then readAscription level setting climb operand
  else if text == "++" || text == "--" then
    mark text
    let (climb, operand) := climb.settle .update operand
    return .operator climb (.compound "update_expression" operand.span.start (← stop))
  else if opensChoice cs then
    mark "?"
    let (climb, operand) := climb.settle .choice operand
    return .operand (climb.push .consequent operand.span.start)
  else if text == ":" && climb.openChoices != 0 then
    mark text
    match Climb.turn climb.stack with
    | some stack => return .operand { climb with stack }
    | none => failure
  else if text == "=" then
    mark text
    return .operand (climb.push (.assignment "assignment_expression") operand.span.start)
  else if augmentedMarks.contains text then
    mark text
    return .operand
      (climb.push (.assignment "augmented_assignment_expression") operand.span.start)
  else
    match Binding.ofMark? text with
    | some binding =>
      if text == "in" && !setting.hasIn then climb.done operand
      else readBinary climb operand text binding
    | none => climb.done operand

/-- Reads what follows an operand. -/
def readOperator (level : Level) (setting : Setting) (climb : Climb) (operand : Operand) :
    Read Stage := do
  if ← pure setting.bare <||> breaksHere setting climb then climb.done operand
  else
    let cs ← ahead
    let isLoose := !operand.isPrimary && ['.', '?', '['].contains (cs.head?.getD ' ')
    let (loose, reached) :=
      if isLoose then climb.settle .looseMember operand else (climb, operand)
    match ← chained? level true reached with
    | some next => return .operator loose next
    | none =>
      (instantiated level setting climb operand) <|> (readMark level setting climb operand cs)

end Statechart.Source
