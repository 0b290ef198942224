import Statechart.Source.TypeExpr

/-!
# Classes

A class is opaque in the tree, but calls may stand in it: after `extends`, in
decorators, in initial values and in the bodies of methods.

* `classMember`: a method, a field or a block of a class;
* `classRest`: a class from the word `class` on.
-/

namespace Statechart.Source

/-- The words that may stand before the name of a member of a class. -/
def memberModifiers : List String :=
  ["declare", "public", "private", "protected", "static", "override", "readonly", "abstract",
   "accessor", "async", "get", "set"]

/-- The rest of a method after its name. Without a body it is only declared. -/
def memberMethod (level : Level) : Read Unit := do
  signature level .head
  if ← sees "\x7b" then level.block
  else if !(← mark? ",") then
    if !(← mark? ";") then require ((← endsHere .ofType) || (← endsHere .ofSignature))

/-- The rest of a field after its name. -/
def field (level : Level) : Read Unit := do
  if ← mark? ":" then level.type .line
  let ending ←
    if ← operator? "=" then
      discard (level.expression .line)
      pure Ending.ofExpression
    else pure Ending.ofType
  if !(← mark? ",") then endStatement ending

/-- A member of a class. -/
def classMember (level : Level) : Read Unit := do
  decorators level
  if ← seesBefore ["static"] none fun cs => cs.head? == some '\x7b' then
    discard anyWord
    level.block
  else
    modifiers memberModifiers (some .ofType) fun cs => startsName cs || cs.head? == some '*'
    discard (mark? "*")
    if ← (mark? "+") <||> (mark? "-") then require (← word? "readonly")
    signatureName level
    discard ((operator? "?") <||> (operator? "!"))
    if (← sees "(") || (← sees "<") then memberMethod level else field level

/-- The members of a class in braces. -/
def classBody (level : Level) : Read Unit := do
  mark "\x7b"
  repeating do
    if ← sees "\x7d" then return false
    if !(← mark? ";") then classMember level
    return true
  mark "\x7d"

/-- What a class extends: an expression, and types for it. -/
def heritage (level : Level) : Read Unit := do
  discard (level.expression { heritage := true })
  if ← sees "<" then typeArguments level

/-- A class from the word `class` on. -/
def classRest (level : Level) : Read Unit := do
  require (← word? "class")
  let name ← nextWord
  if !name.isEmpty && name != "extends" && name != "implements" then discard anyWord
  if ← sees "<" then typeParameters level
  if ← word? "extends" then
    heritage level
    repeating do
      if ← mark? "," then
        heritage level
        return true
      else return false
  if ← word? "implements" then level.types .inner
  classBody level

end Statechart.Source
