import Statechart.Draft.State

/-!
# Transitions in a description

The transitions of a slot are written as one or many items, under a key of the
*owner* of the slot: the state, its `on` or `after` map, or an invocation. An item is
a target alone, or an object with more to say.

* `Slot.owner?`, `Slot.setOwner`: where the items of a slot are written;
* `promote`, `collapse`: from a target alone to an object, and back;
* `targets`, `setTargets`: the descriptors of an item.
-/

namespace Statechart

namespace Slot

/-- The map of a state that holds the slot, if one does. -/
def mapName? : Slot → Option String
  | on _ => some "on"
  | after _ => some "after"
  | _ => none

/-- The key of the slot in its owner. -/
def key : Slot → String
  | on event => event
  | after delay => delay
  | always => "always"
  | onDone | invokeDone _ => "onDone"
  | invokeError _ => "onError"

/-- The properties among which the slot is written. -/
def owner? (slot : Slot) (state : List Property) : Option (List Property) :=
  match slot with
  | on _ => (Property.value? state "on").bind Expr.props?
  | after _ => (Property.value? state "after").bind Expr.props?
  | always | onDone => some state
  | invokeDone invoke | invokeError invoke =>
    (OneOrMany.item? state "invoke" invoke).bind Expr.props?

/-- Replaces the properties among which the slot is written. -/
def setOwner (slot : Slot) (state owner : List Property) : List Property :=
  match slot with
  | on _ => Property.modifyValue state "on" (·.withProps owner)
  | after _ => Property.modifyValue state "after" (·.withProps owner)
  | always | onDone => owner
  | invokeDone invoke | invokeError invoke =>
    OneOrMany.modifyItem state "invoke" invoke (·.withProps owner)

/-- Writes the map that holds the slot, if there is none. -/
def ensureMap (slot : Slot) (state : List Property) : List Property :=
  match slot.mapName? with
  | some name =>
    if Property.hasName state name then state
    else state ++ [Property.ofPair name (.ofProps [])]
  | none => state

/-- Drops the map that holds the slot, if it is empty. -/
def pruneMap (slot : Slot) (state : List Property) : List Property :=
  match slot.mapName? with
  | some name =>
    match (Property.value? state name).bind Expr.props? with
    | some [] => Property.eraseName state name
    | _ => state
  | none => state

/-- Whether two slots are keys of the same map. -/
def sameMap : Slot → Slot → Bool
  | on _, on _ => true
  | after _, after _ => true
  | _, _ => false

end Slot

namespace Draft

/-- An item as an object, so that it can say more: a target alone becomes the `target`
    of a new object, and anything else a new object without properties. -/
def promote (item : Expr) : Expr :=
  match item with
  | .object _ _ => item
  | .str _ _ => .ofProps [Property.ofPair "target" item]
  | _ => .ofProps []

/-- An item as a target alone, if it says nothing else. -/
def collapse (item : Expr) : Expr :=
  match item with
  | .object _ [⟨_, key, _, .str origin value⟩] =>
    if key.name = some "target" then .str origin value else item
  | _ => item

/-- An object without properties says nothing. -/
def dropEmpty (item : Expr) : Expr :=
  match item with
  | .object _ [] => .newUndefined
  | _ => item

/-- The properties of an item that is an object. -/
def itemProps (item : Expr) : List Property :=
  item.props?.getD []

/-- The descriptors in the value of `target`. -/
def targetTexts : Expr → List String
  | .str _ value => [value]
  | .array _ items => items.filterMap Expr.text?
  | _ => []

/-- The descriptors of an item. -/
def targets : Expr → List String
  | .str _ value => [value]
  | .object _ props => ((Property.value? props "target").map targetTexts).getD []
  | _ => []

/-- The nodes among the targets that can be used again. -/
def targetNodes (props : List Property) : List Expr :=
  match Property.value? props "target" with
  | some (.str origin value) => [.str origin value]
  | some (.array _ items) => items
  | _ => []

/-- Writes descriptors into the properties of an item. Those that were written before
    keep their nodes. -/
def setTargetProp (props : List Property) (descriptors : List String) : List Property :=
  let node (text : String) : Expr :=
    ((targetNodes props).find? (·.text? == some text)).getD (.ofText text)
  match descriptors with
  | [] => Property.eraseName props "target"
  | [one] => Property.setValue props "target" (node one)
  | many =>
    let items := many.map node
    match Property.value? props "target" with
    | some (.array origin _) => Property.setValue props "target" (.array origin items)
    | _ => Property.setValue props "target" (.ofItems items)

/-- Gives an item other targets. -/
def setTargets (descriptors : List String) (item : Expr) : Expr :=
  match item, descriptors with
  | .str _ value, [one] => if value = one then item else .ofText one
  | .str _ _, [] => .newUndefined
  | _, _ =>
    let promoted := promote item
    dropEmpty (collapse (promoted.withProps (setTargetProp (itemProps promoted) descriptors)))

end Draft

end Statechart
