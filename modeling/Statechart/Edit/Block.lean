import Statechart.Edit.Editor

/-!
# Edits of actions, guards, invocations and descriptions

What a state or a transition does, as opposed to where it leads. A transition that is a
target alone becomes an object for it, and becomes a target alone again when nothing
else is left.
-/

namespace Statechart

namespace Draft

/-- The key in use for a list of actions. -/
def actionKey (props : List Property) (successor old : String) : String :=
  (effectiveKey? props successor old).getD successor

end Draft

namespace Editor

variable (editor : Editor)

/-- Changes a list of actions. `create` tells whether a transition that is no object
    becomes one; otherwise it has no actions. -/
def modifyActions (path : ActionPath) (create : Bool)
    (f : List Property → String → Option (List Property)) : Edited Expr := do
  let change (props : List Property) (key : String) : Edited (List Property) :=
    match f props key with
    | some props => pure props
    | none => throw (.actionNotFound path)
  match path.list with
  | .entry state =>
    let _ ← editor.node state
    Draft.modifyState editor.draft state fun props =>
      change props (Draft.actionKey props "entry" "onEntry")
  | .exit state =>
    let _ ← editor.node state
    Draft.modifyState editor.draft state fun props =>
      change props (Draft.actionKey props "exit" "onExit")
  | .transition source transition =>
    let _ ← editor.node source
    Draft.modifyTransition editor.draft source transition fun item => do
      let item := if create then Draft.promote item else item
      let props ← change (Draft.itemProps item) "actions"
      pure (Draft.collapse (item.withProps props))

/-- Inserts an action. -/
def addAction (path : ActionPath) (name : String) : Edited Expr :=
  editor.modifyActions path true fun props key =>
    if path.index ≤ OneOrMany.length props key then
      some (OneOrMany.insert props key (some path.index) (.ofText name))
    else none

/-- Removes an action. -/
def removeAction (path : ActionPath) : Edited Expr :=
  editor.modifyActions path false fun props key =>
    (OneOrMany.remove? props key path.index).map (·.2)

/-- Lets an action name another implementation. -/
def editAction (path : ActionPath) (name : String) : Edited Expr :=
  editor.modifyActions path false fun props key =>
    (OneOrMany.item? props key path.index).map fun _ =>
      OneOrMany.modifyItem props key path.index (Draft.setReference name)

/-! ## Guards -/

/-- Gives a transition a guard, in place of the one that it has. -/
def addGuard (source : StatePath) (transition : TransitionPath) (name : String) :
    Edited Expr := do
  let _ ← editor.node source
  Draft.modifyTransition editor.draft source transition fun item =>
    let item := Draft.promote item
    let props := Draft.itemProps item
    pure (item.withProps
      (match Draft.effectiveKey? props "guard" "cond" with
      | some key => Property.modifyValue props key (Draft.setReference name)
      | none => props ++ [Property.ofPair editor.guardKey (.ofText name)]))

/-- Takes the guard of a transition away. -/
def removeGuard (source : StatePath) (transition : TransitionPath) : Edited Expr := do
  let _ ← editor.node source
  Draft.modifyTransition editor.draft source transition fun item =>
    let props := Draft.itemProps item
    match Draft.effectiveKey? props "guard" "cond" with
    | some _ => pure (Draft.collapse (item.withProps (Draft.erasePair props "guard" "cond")))
    | none => throw (.guardNotFound source transition)

/-- Lets the guard of a transition name another implementation. -/
def editGuard (source : StatePath) (transition : TransitionPath) (name : String) :
    Edited Expr := do
  let _ ← editor.node source
  Draft.modifyTransition editor.draft source transition fun item =>
    let props := Draft.itemProps item
    match Draft.effectiveKey? props "guard" "cond" with
    | some key => pure (item.withProps (Property.modifyValue props key (Draft.setReference name)))
    | none => throw (.guardNotFound source transition)

/-! ## Invocations -/

/-- Adds an invocation at the end. -/
def addInvoke (state : StatePath) (src : String) (id : Option String) : Edited Expr := do
  let _ ← editor.node state
  let invocation := Property.ofPair "src" (.ofText src)
    :: id.toList.map fun text => Property.ofPair "id" (.ofText text)
  Draft.modifyState editor.draft state fun props =>
    pure (OneOrMany.insert props "invoke" none (.ofProps invocation))

/-- Removes an invocation. -/
def removeInvoke (state : StatePath) (index : Nat) : Edited Expr :=
  Draft.modifyState editor.draft state fun props =>
    match OneOrMany.remove? props "invoke" index with
    | some (_, props) => pure props
    | none => throw (.invokeNotFound state index)

/-- Lets an invocation name another source. -/
def setSource (props : List Property) : Option String → List Property
  | some name =>
    if Property.hasName props "src" then
      Property.modifyValue props "src" (Draft.setReference name)
    else props ++ [Property.ofPair "src" (.ofText name)]
  | none => props

/-- Changes the source and the id of an invocation, where they are given. -/
def editInvoke (state : StatePath) (index : Nat) (src id : Option String) : Edited Expr := do
  let _ ← editor.node state
  Draft.modifyState editor.draft state fun props =>
    match (OneOrMany.item? props "invoke" index).bind Expr.props? with
    | some invocation =>
      let invocation := setSource invocation src
      let invocation := (id.map (Draft.setText invocation "id")).getD invocation
      pure (OneOrMany.modifyItem props "invoke" index (·.withProps invocation))
    | none => throw (.invokeNotFound state index)

/-! ## Descriptions -/

/-- Describes a state or a transition, or takes the description away. -/
def setDescription (state : StatePath) (transition : Option TransitionPath)
    (description : Option String) : Edited Expr := do
  let _ ← editor.node state
  match transition with
  | none =>
    Draft.modifyState editor.draft state fun props =>
      pure (Draft.setOptionalText props "description" description)
  | some transition =>
    Draft.modifyTransition editor.draft state transition fun item =>
      match description with
      | some text =>
        let item := Draft.promote item
        pure (item.withProps (Draft.setText (Draft.itemProps item) "description" text))
      | none =>
        pure (Draft.collapse
          (item.withProps (Property.eraseName (Draft.itemProps item) "description")))

end Editor

end Statechart
