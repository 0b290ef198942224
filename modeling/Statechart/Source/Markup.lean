import Statechart.Source.Parameter

/-!
# Markup elements

An element is written in angle brackets: a name, attributes, and either a closing
slash, or children up to a tag that closes it. Expressions stand in it in braces.

* `element`: an element, by the name of its form.
-/

namespace Statechart.Source

/-- Reads a name, in which hyphens may stand. -/
def markupName : Read Unit := do
  let cs ← ahead
  require (cs.head?.any startsWord)
  discard (take (cs.takeWhile fun c => continuesWord c || c == '-' || c == '\\').length)

/-- Reads names with points or a colon between them. -/
def elementName : Read Unit := do
  markupName
  repeating do
    if ← (mark? ".") <||> (mark? ":") then
      markupName
      return true
    else return false

/-- An expression in braces, which may be left out. -/
def embedded (level : Level) : Read Unit := do
  mark "\x7b"
  if !(← sees "\x7d") then
    discard (mark? "...")
    discard (level.expressions .inner)
  mark "\x7d"

/-- The value of an attribute. -/
def attributeValue (level : Level) : Read Unit := do
  let cs ← ahead
  match cs with
  | '\x7b' :: _ => embedded level
  | '<' :: _ => discard level.element
  | c :: rest =>
    require (c == '\x22' || c == '\x27')
    let length := (rest.takeWhile (· != c)).length
    require (length < rest.length)
    discard (take (length + 2))
  | [] => failure

/-- An attribute, if one follows. -/
def readAttribute? (level : Level) : Read Bool := do
  if ← sees "\x7b" then
    embedded level
    return true
  else if (← ahead).head?.any startsWord then
    elementName
    if ← mark? "=" then attributeValue level
    return true
  else return false

/-- The characters that are no text between tags. -/
def endsText (c : Char) : Bool :=
  c == '<' || c == '>' || c == '\x7b' || c == '\x7d'

/-- Children up to a tag that closes the element, and that tag. -/
def children (level : Level) : Read Unit := do
  repeating do
    modify fun place => place.skip (place.rest.takeWhile (!endsText ·)).length
    match (← get).rest with
    | '<' :: '/' :: _ => return false
    | '<' :: _ =>
      discard level.element
      return true
    | '\x7b' :: _ =>
      embedded level
      return true
    | _ => failure
  mark "</"
  if !(← sees ">") then elementName
  mark ">"

/-- A markup element from its `<` on. -/
def element (level : Level) : Read String := do
  mark "<"
  if ← mark? ">" then
    children level
    return "jsx_element"
  else
    elementName
    if ← sees "<" then typeArguments level
    repeating (readAttribute? level)
    if ← mark? "/>" then return "jsx_self_closing_element"
    else
      mark ">"
      children level
      return "jsx_element"

end Statechart.Source
