import Statechart.Draft.OneOrMany
import Statechart.Graph.Basic

/-!
# States in a description

The properties of a state are found by following its path through the `states` of the
states above it.

* `stateProps?`, `setStateProps`: the properties of a state;
* `appendChild?`, `takeChild?`: puts a state below another, and takes it away;
* `setText`, `setReference`: change a text in its place;
* `effectiveKey?`: the key in use, of an old keyword and its successor.
-/

namespace Statechart.Draft

/-- The properties of the state at a path. -/
def stateProps? (config : Expr) : StatePath → Option (List Property)
  | [] => config.props?
  | key :: path => do
    let states ← (Property.value? (← config.props?) "states").bind Expr.props?
    stateProps? (← Property.value? states key) path

/-- Applies `f` to the properties of an object. -/
def modifyProps (f : List Property → List Property) (expr : Expr) : Expr :=
  expr.withProps (f (expr.props?.getD []))

/-- Replaces the properties of the state at a path. -/
def setStateProps (props : List Property) : StatePath → Expr → Expr
  | [], config => config.withProps props
  | key :: path, config =>
    modifyProps (fun above =>
      Property.modifyValue above "states" (modifyProps fun states =>
        Property.modifyValue states key (setStateProps props path))) config

/-- The properties of a state with a property put below it, at the end of its `states`,
    which are written if they were not. There is no place for it if `states` is not an
    object. -/
def appendChild? (props : List Property) (child : Property) : Option (List Property) :=
  match Property.value? props "states" with
  | none => some (props ++ [Property.ofPair "states" (.ofProps [child])])
  | some states =>
    states.props?.map fun children =>
      Property.modifyValue props "states" (·.withProps (children ++ [child]))

/-- The child with a key, and the properties of a state without it. Entries of the same
    key that did not count go with it, and so does an emptied `states`. -/
def takeChild? (props : List Property) (key : String) : Option (Property × List Property) := do
  let children ← (Property.value? props "states").bind Expr.props?
  let child ← Property.prop? children key
  let left := Property.eraseName children key
  pure (child,
    if left.isEmpty then Property.eraseName props "states"
    else Property.modifyValue props "states" (·.withProps left))

/-- The key in use: the successor if it is written, else the old keyword if that is. -/
def effectiveKey? (props : List Property) (successor old : String) : Option String :=
  if Property.hasName props successor then some successor
  else if Property.hasName props old then some old
  else none

/-- Drops a keyword and its old form. -/
def erasePair (props : List Property) (successor old : String) : List Property :=
  Property.eraseName (Property.eraseName props successor) old

/-- A string with another value, in its place; any other node gives way to a new
    string. -/
def retext (value : String) : Expr → Expr
  | .str origin _ => .str origin value
  | _ => .ofText value

/-- Writes a text into a property. -/
def setText (props : List Property) (key value : String) : List Property :=
  if Property.hasName props key then Property.modifyValue props key (retext value)
  else props ++ [Property.ofPair key (.ofText value)]

/-- Writes a text into a property, or drops the property. -/
def setOptionalText (props : List Property) (key : String) : Option String → List Property
  | some value => setText props key value
  | none => Property.eraseName props key

/-- Lets a reference name another implementation. A reference with parameters keeps
    them. -/
def setReference (name : String) (expr : Expr) : Expr :=
  match expr with
  | .object origin props =>
    if Property.hasName props "type" then .object origin (setText props "type" name)
    else .ofText name
  | _ => retext name expr

/-! ## The initial state -/

/-- The state that `initial` names: a string, or the `target` of an object. -/
def initialKey? (props : List Property) : Option String :=
  (Property.value? props "initial").bind fun
    | .object _ inner => (Property.value? inner "target").bind Expr.text?
    | value => value.text?

/-- Lets `initial` name another state, where it names one. -/
def renameInitial (props : List Property) (key : String) : List Property :=
  Property.modifyValue props "initial" fun
    | .object origin inner => .object origin (Property.modifyValue inner "target" (retext key))
    | value => retext key value

/-- Drops `initial` if it names this state. -/
def clearInitial (props : List Property) (key : String) : List Property :=
  if initialKey? props = some key then Property.eraseName props "initial" else props

/-- The key of a new name: bare if it is an identifier. -/
def keyFor (name : String) : Key :=
  if Text.isIdentifier name then .ident name else .str name

/-- Gives the entry of a name another. -/
def renameKey (props : List Property) (old new : String) : List Property :=
  Property.modifyLast old (fun prop => { prop with key := keyFor new }) props

end Statechart.Draft
