import Statechart.Edit.Basic
import Statechart.Graph.Record

/-!
# The record form of edits

An edit is a record of its kind, as `type`, and its parts. A part that may be missing
reads as none when it is left out or null, and is written as null.
-/

namespace Statechart

namespace ActionList

/-- A list of actions as plain data. -/
def toDatum : ActionList → Datum
  | entry state => .ofFields [("type", .text "entry"), ("state", .ofTexts state)]
  | exit state => .ofFields [("type", .text "exit"), ("state", .ofTexts state)]
  | transition source path =>
    .ofFields [("type", .text "transition"), ("source", .ofTexts source),
      ("transition", path.toDatum)]

/-- The parts of lists of actions. -/
def variants : Datum.Variants :=
  [("entry", ⟨["state"], []⟩), ("exit", ⟨["state"], []⟩),
   ("transition", ⟨["source", "transition"], []⟩)]

/-- The list of actions that plain data make; with `inner`, as a part of other data. -/
def ofDatum? (inner : Bool) (datum : Datum) : Option ActionList := do
  let (type, datum) ← datum.variant? "type" inner variants
  if type == "entry" then (datum.get "state").texts?.map entry
  else if type == "exit" then (datum.get "state").texts?.map exit
  else if type == "transition" then
    pure (transition (← (datum.get "source").texts?)
      (← TransitionPath.ofDatum? true (datum.get "transition")))
  else none

end ActionList

namespace ActionPath

/-- A position in a list of actions as plain data. -/
def toDatum (path : ActionPath) : Datum :=
  .ofFields [("location", path.list.toDatum), ("index", .ofNat path.index)]

/-- The position in a list of actions that plain data make. -/
def ofDatum? (datum : Datum) : Option ActionPath := do
  let datum ← datum.arranged? ⟨["location", "index"], []⟩
  pure ⟨← ActionList.ofDatum? true (datum.get "location"), ← (datum.get "index").nat?⟩

end ActionPath

/-- The type of a state that a datum names. -/
def StateType.ofDatum? (datum : Datum) : Option StateType :=
  datum.choice? Datum.isBlank (StateType.all.map fun type => (type.name, type))

/-- The kind of history that a datum names. -/
def HistoryKind.ofDatum? (datum : Datum) : Option HistoryKind :=
  datum.choice? Datum.isBlank [("shallow", .shallow), ("deep", .deep)]

namespace Edit

/-- The parts of an edit. -/
def parts : Edit → List (String × Datum)
  | addState parent name => [("parent", .ofTexts parent), ("name", .text name)]
  | removeState path => [("path", .ofTexts path)]
  | renameState path name => [("path", .ofTexts path), ("name", .text name)]
  | reparentState path newParent =>
    [("path", .ofTexts path), ("new_parent", .ofTexts newParent)]
  | setInitialState path initial =>
    [("path", .ofTexts path), ("initial", .ofOption .text initial)]
  | setStateId path id => [("path", .ofTexts path), ("id", .ofOption .text id)]
  | setStateType path type history =>
    [("path", .ofTexts path), ("state_type", .text type.name),
     ("history", .ofOption (fun h => .text h.name) history)]
  | addTransition source slot target external guard =>
    [("source", .ofTexts source), ("slot", slot.toDatum), ("target", .ofOption .ofTexts target),
     ("external", .bool external), ("guard", .ofOption .text guard)]
  | removeTransition source transition | removeGuard source transition =>
    [("source", .ofTexts source), ("transition", transition.toDatum)]
  | retargetTransition source transition targets =>
    [("source", .ofTexts source), ("transition", transition.toDatum),
     ("targets", .ofList .ofTexts targets)]
  | reanchorTransition source transition newSource =>
    [("source", .ofTexts source), ("transition", transition.toDatum),
     ("new_source", .ofTexts newSource)]
  | changeTransitionEvent source transition slot =>
    [("source", .ofTexts source), ("transition", transition.toDatum), ("slot", slot.toDatum)]
  | markTransitionExternal source transition external =>
    [("source", .ofTexts source), ("transition", transition.toDatum),
     ("external", .bool external)]
  | addAction path name | editAction path name => [("path", path.toDatum), ("name", .text name)]
  | removeAction path => [("path", path.toDatum)]
  | addGuard source transition name | editGuard source transition name =>
    [("source", .ofTexts source), ("transition", transition.toDatum), ("name", .text name)]
  | addInvoke state src id =>
    [("state", .ofTexts state), ("src", .text src), ("id", .ofOption .text id)]
  | removeInvoke state index => [("state", .ofTexts state), ("index", .ofNat index)]
  | editInvoke state index src id =>
    [("state", .ofTexts state), ("index", .ofNat index), ("src", .ofOption .text src),
     ("id", .ofOption .text id)]
  | setDescription state transition description =>
    [("state", .ofTexts state), ("transition", .ofOption TransitionPath.toDatum transition),
     ("description", .ofOption .text description)]

/-- An edit as plain data. -/
def toDatum (edit : Edit) : Datum :=
  .ofFields (("type", .text edit.kind) :: edit.parts)

/-- The parts of edits. -/
def variants : Datum.Variants :=
  [("add_state", ⟨["parent", "name"], []⟩), ("remove_state", ⟨["path"], []⟩),
   ("rename_state", ⟨["path", "name"], []⟩), ("reparent_state", ⟨["path", "new_parent"], []⟩),
   ("set_initial_state", ⟨["path", "initial"], []⟩), ("set_state_id", ⟨["path", "id"], []⟩),
   ("set_state_type", ⟨["path", "state_type"], ["history"]⟩),
   ("add_transition", ⟨["source", "slot"], ["target", "external", "guard"]⟩),
   ("remove_transition", ⟨["source", "transition"], []⟩),
   ("retarget_transition", ⟨["source", "transition", "targets"], []⟩),
   ("reanchor_transition", ⟨["source", "transition", "new_source"], []⟩),
   ("change_transition_event", ⟨["source", "transition", "slot"], []⟩),
   ("mark_transition_external", ⟨["source", "transition", "external"], []⟩),
   ("add_action", ⟨["path", "name"], []⟩), ("remove_action", ⟨["path"], []⟩),
   ("edit_action", ⟨["path", "name"], []⟩),
   ("add_guard", ⟨["source", "transition", "name"], []⟩),
   ("remove_guard", ⟨["source", "transition"], []⟩),
   ("edit_guard", ⟨["source", "transition", "name"], []⟩),
   ("add_invoke", ⟨["state", "src"], ["id"]⟩), ("remove_invoke", ⟨["state", "index"], []⟩),
   ("edit_invoke", ⟨["state", "index"], ["src", "id"]⟩),
   ("set_description", ⟨["state", "transition", "description"], []⟩)]

/-- The edit that plain data make. -/
def ofDatum? (datum : Datum) : Option Edit := do
  let (kind, datum) ← datum.variant? "type" false variants
  let states (name : String) : Option StatePath := (datum.get name).texts?
  let text (name : String) : Option String := (datum.get name).text?
  let text? (name : String) : Option (Option String) := (datum.get name).optional? Datum.text?
  let nat (name : String) : Option Nat := (datum.get name).nat?
  let transition : Option TransitionPath := TransitionPath.ofDatum? true (datum.get "transition")
  let slot : Option Slot := Slot.ofDatum? true (datum.get "slot")
  let action : Option ActionPath := ActionPath.ofDatum? (datum.get "path")
  match kind with
  | "add_state" => pure (addState (← states "parent") (← text "name"))
  | "remove_state" => pure (removeState (← states "path"))
  | "rename_state" => pure (renameState (← states "path") (← text "name"))
  | "reparent_state" => pure (reparentState (← states "path") (← states "new_parent"))
  | "set_initial_state" => pure (setInitialState (← states "path") (← text? "initial"))
  | "set_state_id" => pure (setStateId (← states "path") (← text? "id"))
  | "set_state_type" =>
    pure (setStateType (← states "path") (← StateType.ofDatum? (datum.get "state_type"))
      (← (datum.get "history").optional? HistoryKind.ofDatum?))
  | "add_transition" =>
    pure (addTransition (← states "source") (← slot)
      (← (datum.get "target").optional? Datum.texts?)
      (← datum.fieldOr? false Datum.bool? "external") (← text? "guard"))
  | "remove_transition" => pure (removeTransition (← states "source") (← transition))
  | "retarget_transition" =>
    pure (retargetTransition (← states "source") (← transition)
      (← (datum.get "targets").listOf? Datum.texts?))
  | "reanchor_transition" =>
    pure (reanchorTransition (← states "source") (← transition) (← states "new_source"))
  | "change_transition_event" =>
    pure (changeTransitionEvent (← states "source") (← transition) (← slot))
  | "mark_transition_external" =>
    pure (markTransitionExternal (← states "source") (← transition)
      (← (datum.get "external").bool?))
  | "add_action" => pure (addAction (← action) (← text "name"))
  | "remove_action" => pure (removeAction (← action))
  | "edit_action" => pure (editAction (← action) (← text "name"))
  | "add_guard" => pure (addGuard (← states "source") (← transition) (← text "name"))
  | "remove_guard" => pure (removeGuard (← states "source") (← transition))
  | "edit_guard" => pure (editGuard (← states "source") (← transition) (← text "name"))
  | "add_invoke" => pure (addInvoke (← states "state") (← text "src") (← text? "id"))
  | "remove_invoke" => pure (removeInvoke (← states "state") (← nat "index"))
  | "edit_invoke" =>
    pure (editInvoke (← states "state") (← nat "index") (← text? "src") (← text? "id"))
  | "set_description" =>
    pure (setDescription (← states "state")
      (← (datum.get "transition").optional? (TransitionPath.ofDatum? true)) (← text? "description"))
  | _ => none

end Edit

end Statechart
