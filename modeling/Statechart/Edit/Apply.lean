import Statechart.Edit.Block
import Statechart.Edit.State
import Statechart.Edit.Transition

/-!
# Applying edits

* `Editor.revise`: the draft after an edit;
* `Editor.apply`, `Editor.applyAll`: the editor after edits. An edit that is refused
  leaves nothing behind;
* `Editor.actionCount`, `Editor.invokeCount`: the lengths of written lists.
-/

namespace Statechart.Editor

variable (editor : Editor)

/-- The draft after an edit. -/
def revise : Edit → Edited Expr
  | .addState parent name => editor.addState parent name
  | .removeState path => editor.removeState path
  | .renameState path name => editor.renameState path name
  | .reparentState path newParent => editor.reparentState path newParent
  | .setInitialState path initial => editor.setInitialState path initial
  | .setStateId path id => editor.setStateId path id
  | .setStateType path type history => editor.setStateType path type history
  | .addTransition source slot target external guard =>
    editor.addTransition source slot target external guard
  | .removeTransition source transition => editor.removeTransition source transition
  | .retargetTransition source transition targets =>
    editor.retargetTransition source transition targets
  | .reanchorTransition source transition newSource =>
    editor.reanchorTransition source transition newSource
  | .changeTransitionEvent source transition slot =>
    editor.changeTransitionEvent source transition slot
  | .markTransitionExternal source transition external =>
    editor.markTransitionExternal source transition external
  | .addAction path name => editor.addAction path name
  | .removeAction path => editor.removeAction path
  | .editAction path name => editor.editAction path name
  | .addGuard source transition name => editor.addGuard source transition name
  | .removeGuard source transition => editor.removeGuard source transition
  | .editGuard source transition name => editor.editGuard source transition name
  | .addInvoke state src id => editor.addInvoke state src id
  | .removeInvoke state index => editor.removeInvoke state index
  | .editInvoke state index src id => editor.editInvoke state index src id
  | .setDescription state transition description =>
    editor.setDescription state transition description

/-- The editor after an edit. -/
def apply (edit : Edit) : Edited Editor :=
  (editor.revise edit).map editor.withDraft

/-- The editor after some edits. -/
def applyAll (edits : List Edit) : Edited Editor :=
  edits.foldlM apply editor

/-- The number of entries of a state's list of actions, by its key and its old form. -/
def stateActionCount (state : StatePath) (successor old : String) : Nat :=
  match Draft.stateProps? editor.draft state with
  | some props => OneOrMany.length props (Draft.actionKey props successor old)
  | none => 0

/-- The number of entries that a list of actions has in writing, whether or not they can
    be understood. -/
def actionCount : ActionList → Nat
  | .entry state => editor.stateActionCount state "entry" "onEntry"
  | .exit state => editor.stateActionCount state "exit" "onExit"
  | .transition source transition =>
    match Draft.transition editor.draft source transition with
    | .ok item => OneOrMany.length (Draft.itemProps item) "actions"
    | .error _ => 0

/-- The number of entries that the list of invocations has in writing. -/
def invokeCount (state : StatePath) : Nat :=
  match Draft.stateProps? editor.draft state with
  | some props => OneOrMany.length props "invoke"
  | none => 0

end Statechart.Editor
