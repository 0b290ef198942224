import Statechart.Source.Parameter
import Statechart.Text.Quoted

/-!
# Literals

Templates, arrays and object literals. What stands in an object literal and in a
pattern that takes an object apart is read alike.

* `template`: a template, given how to read what it embeds;
* `memberName`: the name of a member, as a key;
* `objectLiteral`, `arrayLiteral`.
-/

namespace Statechart.Source

/-- The number of characters of a template up to its end or the next expression. -/
def chunkLength : List Char → Nat
  | '\\' :: _ :: cs => 2 + chunkLength cs
  | '$' :: '\x7b' :: _ => 0
  | '\x60' :: _ => 0
  | _ :: cs => 1 + chunkLength cs
  | [] => 0

/-- Moves past characters without looking for a token. -/
def advance (n : Nat) : Read Unit :=
  modify fun place => place.skip n

/-- A template: whether it embeds anything. -/
def template (embedded : Read Unit) : Read Bool := do
  mark "\x60"
  let parts ← many do
    advance (chunkLength (← get).rest)
    match (← get).rest with
    | '$' :: '\x7b' :: _ =>
      advance 2
      embedded
      mark "\x7d"
      return some ()
    | _ => return none
  require ((← get).rest.head? == some '\x60')
  advance 1
  return !parts.isEmpty

/-- A template as an operand. -/
def templateOperand (level : Level) : Read Operand := do
  let before := (← get).next
  let embeds ← template (discard (level.expressions .inner))
  let span : Span := ⟨before.pos, ← stop⟩
  let text ← textSince before
  return { expr := if embeds then .template (.source span) text
             else .str (.source span) (Text.cook text)
           span }

/-- A string literal with its quotes. -/
def stringLexeme : List Char → List Char
  | c :: cs => if c == '\x27' || c == '\x22' then c :: throughMark c cs else []
  | [] => []

/-- The name of a member. -/
def memberName (level : Level) : Read (Key × Span) := do
  let before := (← get).next
  let cs := before.rest
  let finish (key : Key) : Read (Key × Span) := do
    return (key, ⟨before.pos, ← stop⟩)
  if !(stringLexeme cs).isEmpty then
    let text ← take (stringLexeme cs).length
    finish (.str (Text.cook text))
  else if startsNumber cs then
    let text ← take (numberLexeme cs).length
    finish (.number text)
  else if cs.head? == some '[' then
    mark "["
    discard (level.expression .inner)
    mark "]"
    let text ← textSince before
    finish (.computed (Text.trim (String.ofList (Text.betweenDelimiters text.toList))))
  else if cs.head? == some '#' then
    let text ← take (privateName cs).length
    require (!text.isEmpty)
    finish (.ident text)
  else
    let text ← anyWord
    finish (.ident text)

/-- The words that may stand before the name of a method in an object literal. -/
def methodModifiers : List String :=
  ["public", "private", "protected", "static", "override", "readonly", "async", "get", "set"]

/-- The rest of a method after its name. -/
def methodRest (level : Level) : Read Unit := do
  discard (operator? "?")
  signature level .inner
  level.block
  closeBlock .ofType

/-- An entry of an object literal. -/
def property (level : Level) (leading : Bool) : Read Property := do
  let first ← start
  let origin (last : Nat) : Origin := .source ⟨first, last⟩
  if ← mark? "..." then
    let operand ← level.expression { leading := leading }
    return { origin := origin operand.span.stop, key := .spread, keySpan := none,
             value := operand.expr }
  else
    modifiers methodModifiers none fun cs => startsName cs || cs.head? == some '*'
    discard (operator? "*")
    let (key, keySpan) ← memberName level
    let isPlain := keySpan.start == first
    let next ← ahead
    if isPlain && next.head? == some ':' then
      mark ":"
      let operand ← level.expression { leading := leading }
      return { origin := origin operand.span.stop, key, keySpan := some keySpan,
               value := operand.expr }
    else if next.head? == some '(' || next.head? == some '<' || next.head? == some '?' then
      methodRest level
      let last ← stop
      return { origin := origin last, key, keySpan := some keySpan,
               value := .function (origin last) }
    else
      require isPlain
      match key with
      | .ident name =>
        -- A pattern may give a value for when there is none.
        if ← operator? "=" then discard (level.expression .inner)
        return { origin := origin keySpan.stop, key, keySpan := some keySpan,
                 value := .ident (origin keySpan.stop) name }
      | _ => failure

/-- Whether an entry holds no value of its own: a name, or a name or member that is
    spread. -/
def isPassedOn (prop : Property) : Bool :=
  match prop.key, prop.value with
  | .spread, .ident _ _ => true
  | .spread, .member _ _ _ => true
  | _, .ident origin _ => origin.span == prop.keySpan
  | _, _ => false

/-- The entries of an object literal, at most `n`. -/
def properties (level : Level) : Nat → Bool → Read (List Property)
  | 0, _ => failure
  | n + 1, leading => do
    repeating (mark? ",")
    if ← sees "\x7d" then return []
    let prop ← property level leading
    require ((← sees ",") || (← sees "\x7d"))
    return prop :: (← properties level n (leading && isPassedOn prop))

/-- An object literal. -/
def objectLiteral (level : Level) : Read Operand := do
  let first ← start
  mark "\x7b"
  let props ← properties level ((← get).size + 1) true
  mark "\x7d"
  let span : Span := ⟨first, ← stop⟩
  return { expr := .object (.source span) props, span }

/-- An array literal. -/
def arrayLiteral (level : Level) : Read Operand := do
  let first ← start
  mark "["
  let items ← spreadItems level true "]"
  let span : Span := ⟨first, ← stop⟩
  return { expr := .array (.source span) (items.map Operand.expr), span }

end Statechart.Source
