import Statechart.Edit.Editor

/-!
# Edits of transitions

Adding, removing, redirecting and moving transitions. A transition whose targets all
lie at or below its source is internal by default; a flag is written only for an
external transition of that kind.
-/

namespace Statechart.Editor

variable (editor : Editor)

/-- The keyword of the flag in an item: the one in use, else that of the flavor. -/
def flagKey (props : List Property) : String :=
  (Draft.effectiveKey? props "reenter" "internal").getD
    (match editor.flavor with
    | .v4 => "internal"
    | .v5 => "reenter")

/-- A flag with the given value, in its place if it has that already. -/
def setFlag (value : Bool) (expr : Expr) : Expr :=
  match expr with
  | .bool _ old => if old = value then expr else .ofBool value
  | _ => .ofBool value

/-- Writes the flag that makes a transition external, or drops it where the transition is
    not to be external or is so by default. -/
def restateFlag (source : NodeId) (targets : List NodeId) (external : Bool) (item : Expr) : Expr :=
  if external && editor.graph.isInternalByDefault source targets then
    let item := Draft.promote item
    let props := Draft.itemProps item
    let key := editor.flagKey props
    -- `reenter: true` and `internal: false` say the same.
    let value := key == "reenter"
    item.withProps
      (if Property.hasName props key then Property.modifyValue props key (setFlag value)
      else props ++ [Property.ofPair key (.ofBool value)])
  else item.withProps (Draft.erasePair (Draft.itemProps item) "reenter" "internal")

/-- Adds a transition at the end of a slot. -/
def addTransition (source : StatePath) (slot : Slot) (target : Option StatePath)
    (external : Bool) (guard : Option String) : Edited Expr := do
  let node ← editor.node source
  let target ← target.mapM editor.node
  let props :=
    (target.toList.map fun t =>
      Property.ofPair "target" (.ofText (editor.graph.descriptorFor node t)))
      ++ guard.toList.map fun name => Property.ofPair editor.guardKey (.ofText name)
  let item := editor.restateFlag node target.toList external (.ofProps props)
  Draft.putTransition editor.draft source slot (Draft.collapse (Draft.dropEmpty item))

/-- Removes a transition. -/
def removeTransition (source : StatePath) (transition : TransitionPath) : Edited Expr := do
  pure (← Draft.takeTransition editor.draft source transition).2

/-- Whether an edge is said to be external. -/
def isMarkedExternal (edge : Edge) : Bool :=
  edge.internal == some false

/-- Gives a transition other targets. A target that it had before keeps its
    descriptor. -/
def retargetTransition (source : StatePath) (transition : TransitionPath)
    (targets : List StatePath) : Edited Expr := do
  let node ← editor.node source
  let edge ← editor.edge source transition
  let targets ← targets.mapM editor.node
  let graph := editor.graph
  Draft.modifyTransition editor.draft source transition fun item =>
    let previous := Draft.targets item
    let descriptors := targets.map fun target =>
      (previous.find? fun d => graph.resolve? node d = some target).getD
        (graph.descriptorFor node target)
    let item := Draft.setTargets descriptors item
    pure (Draft.collapse (editor.restateFlag node targets (isMarkedExternal edge) item))

/-- Moves a transition to another state, into the same slot. -/
def reanchorTransition (source : StatePath) (transition : TransitionPath)
    (newSource : StatePath) : Edited Expr := do
  let node ← editor.node source
  let newNode ← editor.node newSource
  if node = newNode then pure editor.draft
  else
    let edge ← editor.edge source transition
    let graph := editor.graph
    let (item, draft) ← Draft.takeTransition editor.draft source transition
    let descriptors := (Draft.targets item).map fun d =>
      match graph.resolve? node d with
      | some target => graph.descriptorFor newNode target
      | none => d
    let item := Draft.setTargets descriptors item
    let flagged := editor.restateFlag newNode edge.targets (isMarkedExternal edge) item
    let item := Draft.collapse flagged
    Draft.putTransition draft newSource transition.slot item

/-- Gives a key of a map another name, and drops entries of the old name that did not
    count, if the key has one item and the new name is free. -/
def renameSlot? (owner : List Property) (old new : String) : Option (List Property) :=
  if OneOrMany.length owner old = 1 ∧ !Property.hasName owner new then
    some (Property.eraseName (Draft.renameKey owner old new) old)
  else none

/-- Moves a transition to another slot. If it is alone under a key of a map, the key is
    renamed. -/
def changeTransitionEvent (source : StatePath) (transition : TransitionPath) (slot : Slot) :
    Edited Expr := do
  let _ ← editor.node source
  let _ ← Draft.transition editor.draft source transition
  let old := transition.slot
  if slot = old then pure editor.draft
  else
    let state ← Draft.state editor.draft source
    let renamed :=
      if old.sameMap slot then (old.owner? state).bind (renameSlot? · old.key slot.key) else none
    match renamed with
    | some owner => pure (Draft.setStateProps (old.setOwner state owner) source editor.draft)
    | none =>
      let (item, draft) ← Draft.takeTransition editor.draft source transition
      Draft.putTransition draft source slot item

/-- Makes a transition external, or not. -/
def markTransitionExternal (source : StatePath) (transition : TransitionPath)
    (external : Bool) : Edited Expr := do
  let node ← editor.node source
  let edge ← editor.edge source transition
  Draft.modifyTransition editor.draft source transition fun item =>
    pure (Draft.collapse (editor.restateFlag node edge.targets external item))

end Statechart.Editor
