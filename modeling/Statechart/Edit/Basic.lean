import Statechart.Graph.Basic

/-!
# Edits

The changes that can be asked of a machine. States are named by their paths,
transitions by their source and place, actions by their list and position.

* `ActionList`, `ActionPath`: where actions are written;
* `Edit`: the changes;
* `EditError`: why a change is refused.
-/

namespace Statechart

/-- A list of actions. -/
inductive ActionList where
  | entry (state : StatePath)
  | exit (state : StatePath)
  | transition (source : StatePath) (transition : TransitionPath)
  deriving DecidableEq, Repr

/-- The text of a list's place. -/
def ActionList.display : ActionList → String
  | entry state => displayPath state ++ ".entry"
  | exit state => displayPath state ++ ".exit"
  | transition source path => displayPath source ++ "." ++ path.display ++ ".actions"

/-- A position in a list of actions. -/
structure ActionPath where
  list : ActionList
  index : Nat
  deriving DecidableEq, Repr

/-- A change of a machine. -/
inductive Edit where
  /-- Puts a state without properties below another. -/
  | addState (parent : StatePath) (name : String)
  /-- Removes a state, with the transitions into it. -/
  | removeState (path : StatePath)
  | renameState (path : StatePath) (name : String)
  /-- Moves a state below another. -/
  | reparentState (path newParent : StatePath)
  | setInitialState (path : StatePath) (initial : Option String)
  | setStateId (path : StatePath) (id : Option String)
  | setStateType (path : StatePath) (type : StateType) (history : Option HistoryKind)
  /-- Adds a transition at the end of a slot. -/
  | addTransition (source : StatePath) (slot : Slot) (target : Option StatePath)
      (external : Bool) (guard : Option String)
  | removeTransition (source : StatePath) (transition : TransitionPath)
  | retargetTransition (source : StatePath) (transition : TransitionPath)
      (targets : List StatePath)
  /-- Moves a transition to another state, into the same slot. -/
  | reanchorTransition (source : StatePath) (transition : TransitionPath)
      (newSource : StatePath)
  /-- Moves a transition to another slot of its state. -/
  | changeTransitionEvent (source : StatePath) (transition : TransitionPath) (slot : Slot)
  | markTransitionExternal (source : StatePath) (transition : TransitionPath)
      (external : Bool)
  | addAction (path : ActionPath) (name : String)
  | removeAction (path : ActionPath)
  | editAction (path : ActionPath) (name : String)
  | addGuard (source : StatePath) (transition : TransitionPath) (name : String)
  | removeGuard (source : StatePath) (transition : TransitionPath)
  | editGuard (source : StatePath) (transition : TransitionPath) (name : String)
  | addInvoke (state : StatePath) (src : String) (id : Option String)
  | removeInvoke (state : StatePath) (index : Nat)
  | editInvoke (state : StatePath) (index : Nat) (src id : Option String)
  /-- Describes a state, or one of its transitions. -/
  | setDescription (state : StatePath) (transition : Option TransitionPath)
      (description : Option String)
  deriving DecidableEq, Repr

/-- The name of a kind of edit. -/
def Edit.kind : Edit → String
  | addState .. => "add_state"
  | removeState .. => "remove_state"
  | renameState .. => "rename_state"
  | reparentState .. => "reparent_state"
  | setInitialState .. => "set_initial_state"
  | setStateId .. => "set_state_id"
  | setStateType .. => "set_state_type"
  | addTransition .. => "add_transition"
  | removeTransition .. => "remove_transition"
  | retargetTransition .. => "retarget_transition"
  | reanchorTransition .. => "reanchor_transition"
  | changeTransitionEvent .. => "change_transition_event"
  | markTransitionExternal .. => "mark_transition_external"
  | addAction .. => "add_action"
  | removeAction .. => "remove_action"
  | editAction .. => "edit_action"
  | addGuard .. => "add_guard"
  | removeGuard .. => "remove_guard"
  | editGuard .. => "edit_guard"
  | addInvoke .. => "add_invoke"
  | removeInvoke .. => "remove_invoke"
  | editInvoke .. => "edit_invoke"
  | setDescription .. => "set_description"

/-- Why an edit makes no sense for any machine like this. -/
inductive InvalidEdit where
  | stateName (name : String)
  | removesRoot
  | renamesRoot
  | movesRoot
  /-- A state cannot move below itself. -/
  | ownSubtree (path : StatePath)
  | emptyId
  | idInUse (id : String)
  deriving DecidableEq, Repr

/-- The wording of the reason. -/
def InvalidEdit.message : InvalidEdit → String
  | stateName name => s!"invalid state name '{name}'"
  | removesRoot => "cannot remove the root state"
  | renamesRoot => "the root state has no key"
  | movesRoot => "cannot move the root state"
  | ownSubtree path => "cannot move " ++ displayPath path ++ " into its own subtree"
  | emptyId => "state id cannot be empty"
  | idInUse id => s!"id '{id}' is already in use"

/-- Why an edit is refused. -/
inductive EditError where
  | stateNotFound (path : StatePath)
  | transitionNotFound (state : StatePath) (transition : TransitionPath)
  | invokeNotFound (state : StatePath) (index : Nat)
  | actionNotFound (path : ActionPath)
  | guardNotFound (state : StatePath) (transition : TransitionPath)
  | duplicateState (parent : StatePath) (key : String)
  | invalid (reason : InvalidEdit)
  /-- States would have to be written into a `states` that is not an object. -/
  | statesNotObject
  /-- A transition would have to be written into a map that is not an object. -/
  | slotNotObject (slot : Slot)
  deriving DecidableEq, Repr

/-- The wording of an error. -/
def EditError.message : EditError → String
  | stateNotFound path => "state not found: " ++ displayPath path
  | transitionNotFound state transition =>
    "transition not found: " ++ transition.display ++ " on state " ++ displayPath state
  | invokeNotFound state index =>
    "invoke #" ++ toString index ++ " not found on state " ++ displayPath state
  | actionNotFound path =>
    "action #" ++ toString path.index ++ " not found in " ++ path.list.display
  | guardNotFound state transition =>
    "no guard on transition " ++ transition.display ++ " of state " ++ displayPath state
  | duplicateState parent key =>
    "state " ++ displayPath parent ++ " already has a child named '" ++ key ++ "'"
  | invalid reason => "invalid edit: " ++ reason.message
  | statesNotObject => "unsupported edit: \x60states\x60 is not an object literal"
  | slotNotObject slot =>
    "unsupported edit: \x60" ++ slot.display ++ "\x60 is not stored in an object literal"

/-- The result of an edit that may be refused. -/
abbrev Edited := Except EditError

end Statechart
