import Statechart.Edit.Apply
import Statechart.Patch.Model
import Statechart.Patch.Order

/-!
# Sessions

A batch of patches is turned into edits, one patch after the other, and the places of
the handles follow the edits.

* `Session.stepsOf`: the edits that a patch amounts to, each with the places of the
  handles once it is made;
* `Session.apply`: makes a batch. What was done before a patch is refused stays.
-/

namespace Statechart

/-- An editor with the places of the handles in its draft. -/
structure Session where
  editor : Editor
  model : Model

/-- An edit, and the places of the handles once it is made. -/
abbrev PatchStep := Edit × Model

namespace Session

/-- A session for a machine. -/
def ofEditor (editor : Editor) : Session where
  editor := editor
  model := Model.ofGraph editor.graph

variable (session : Session)

/-- The list of actions of an owner; guards and invocations are not in one. -/
def actionList? : BlockOwner → Patched (Option ActionList)
  | .entry node => do pure (some (.entry (← session.model.path node)))
  | .exit node => do pure (some (.exit (← session.model.path node)))
  | .actions edge => do
    let place ← session.model.edge edge
    pure (some (.transition (← session.model.path place.source) place.path))
  | .invoke _ | .guard _ => pure none

/-- The source and the place of an edge's transition. -/
def transition (id : EdgeId) : Patched (StatePath × TransitionPath) := do
  let place ← session.model.edge id
  pure (← session.model.path place.source, place.path)

/-- Adds a node. -/
def addNode (node parent : NodeId) (key : String) : Patched (List PatchStep) := do
  if session.model.hasNode node then throw (.duplicateNode node)
  let parent ← session.model.path parent
  pure [(.addState parent key, session.model.addNode node (parent ++ [key]))]

/-- Adds an edge. The targets after the first are added by a second edit. -/
def addEdge (edge : EdgeId) (source : NodeId) (targets : List NodeId) (slot : Slot)
    (internal : Option Bool) : Patched (List PatchStep) := do
  let model := session.model
  if model.hasEdge edge then throw (.duplicateEdge edge)
  let state ← model.path source
  let targets ← targets.mapM model.path
  let after := model.attachEdge edge source slot
  let added := (Edit.addTransition state slot targets.head? (internal == some false) none, after)
  let retargeted := (Edit.retargetTransition state (model.slotEnd source slot) targets, after)
  pure (if 1 < targets.length then [added, retargeted] else [added])

/-- Adds a block: a guard, an invocation at the end, or an action. -/
def addBlock (block : BlockId) (owner : BlockOwner) (index : Option Nat) (sourceId : String) :
    Patched (List PatchStep) := do
  let model := session.model
  if model.hasBlock block then throw (.duplicateBlock block)
  match owner with
  | .invoke node =>
    let state ← model.path node
    let position := session.editor.invokeCount state
    pure [(.addInvoke state sourceId none, model.attachBlock block owner position)]
  | .guard edge =>
    let (source, transition) ← session.transition edge
    pure [(.addGuard source transition sourceId, model.attachBlock block owner 0)]
  | .entry _ | .exit _ | .actions _ =>
    match ← session.actionList? owner with
    | some list =>
      let position := (index.bind (model.positionOfNth? owner)).getD
        (session.editor.actionCount list)
      pure [(.addAction ⟨list, position⟩ sourceId, model.attachBlock block owner position)]
    | none => pure []

/-- Removes a block. -/
def removeBlock (block : BlockId) : Patched (List PatchStep) := do
  let model := session.model
  let place ← model.block block
  let after := model.detachBlock block place
  match place.owner with
  | .invoke node => pure [(.removeInvoke (← model.path node) place.index, after)]
  | .guard edge =>
    let (source, transition) ← session.transition edge
    pure [(.removeGuard source transition, after)]
  | owner =>
    let list ← session.actionList? owner
    pure (list.toList.map fun list => (.removeAction ⟨list, place.index⟩, after))

/-- Lets a block name another implementation. -/
def replaceBlockSource (block : BlockId) (sourceId : String) : Patched (List PatchStep) := do
  let model := session.model
  let place ← model.block block
  match place.owner with
  | .invoke node =>
    pure [(.editInvoke (← model.path node) place.index (some sourceId) none, model)]
  | .guard edge =>
    let (source, transition) ← session.transition edge
    pure [(.editGuard source transition sourceId, model)]
  | owner =>
    let list ← session.actionList? owner
    pure (list.toList.map fun list => (.editAction ⟨list, place.index⟩ sourceId, model))

/-- The edits that a patch amounts to. -/
def stepsOf (patch : Patch) : Patched (List PatchStep) := do
  let model := session.model
  match patch with
  | .addNode node parent key => session.addNode node parent key
  | .removeNode node =>
    let path ← model.path node
    pure [(.removeState path, model.dropSubtree path)]
  | .replaceNodeKey node key =>
    let path ← model.path node
    pure [(.renameState path key, model.moveSubtree path (path.dropLast ++ [key]))]
  | .replaceNodeParent node parent =>
    let path ← model.path node
    let newParent ← model.path parent
    pure [(.reparentState path newParent,
      model.moveSubtree path (newParent ++ path.getLast?.toList))]
  | .replaceNodeInitial node initial =>
    pure [(.setInitialState (← model.path node) initial, model)]
  | .replaceNodeType node type history =>
    pure [(.setStateType (← model.path node) type history, model)]
  | .replaceNodeId node id => pure [(.setStateId (← model.path node) id, model)]
  | .replaceDescription (.node node) description =>
    pure [(.setDescription (← model.path node) none description, model)]
  | .replaceDescription (.edge edge) description =>
    let (source, transition) ← session.transition edge
    pure [(.setDescription source (some transition) description, model)]
  | .addEdge edge source targets slot internal =>
    session.addEdge edge source targets slot internal
  | .removeEdge edge =>
    let place ← model.edge edge
    let source ← model.path place.source
    pure [(.removeTransition source place.path,
      (model.detachEdge edge place).dropBlocksOf edge)]
  | .replaceEdgeSource edge source =>
    let place ← model.edge edge
    if place.source = source then pure []
    else
      let old ← model.path place.source
      let new ← model.path source
      pure [(.reanchorTransition old place.path new,
        (model.detachEdge edge place).attachEdge edge source place.path.slot)]
  | .replaceEdgeTargets edge targets =>
    let (source, transition) ← session.transition edge
    pure [(.retargetTransition source transition (← targets.mapM model.path), model)]
  | .replaceEdgeSlot edge slot =>
    let place ← model.edge edge
    if place.path.slot = slot then pure []
    else
      let source ← model.path place.source
      pure [(.changeTransitionEvent source place.path slot,
        (model.detachEdge edge place).attachEdge edge place.source slot)]
  | .replaceEdgeInternal edge internal =>
    let (source, transition) ← session.transition edge
    pure [(.markTransitionExternal source transition (internal == some false), model)]
  | .addBlock block owner index sourceId => session.addBlock block owner index sourceId
  | .removeBlock block => session.removeBlock block
  | .replaceBlockSource block sourceId => session.replaceBlockSource block sourceId

/-- What came of a batch: the edits made, or why it was refused, and the session
    after the edits that were made. -/
structure Outcome where
  edits : Patched (List Edit)
  after : Session

/-- Makes the edits of a patch of the named kind, up to one that is refused. -/
def runSteps (kind : String) : Session → List PatchStep → Outcome
  | session, [] => ⟨.ok [], session⟩
  | session, (edit, model) :: rest =>
    match session.editor.apply edit with
    | .error cause => ⟨.error (.edit kind cause), session⟩
    | .ok editor =>
      let outcome := runSteps kind ⟨editor, model⟩ rest
      { outcome with edits := outcome.edits.map (edit :: ·) }

/-- Makes a patch. -/
def applyOne (patch : Patch) : Outcome :=
  match session.stepsOf patch with
  | .error e => ⟨.error e, session⟩
  | .ok steps => runSteps patch.kind session steps

/-- Makes patches in the given order, up to one that is refused. -/
def applyInOrder : Session → List Patch → Outcome
  | session, [] => ⟨.ok [], session⟩
  | session, patch :: rest =>
    let first := session.applyOne patch
    match first.edits with
    | .error e => ⟨.error e, first.after⟩
    | .ok edits =>
      let outcome := applyInOrder first.after rest
      { outcome with edits := outcome.edits.map (edits ++ ·) }

/-- How deep a node lies: as the batch adds it, else as it stands. -/
def depth (added : List (NodeId × Nat)) (node : NodeId) : Nat :=
  ((added.lookup node).or ((session.model.paths.lookup node).map (·.length))).getD 0

/-- Makes a batch. -/
def apply (patches : List Patch) : Outcome :=
  match session.model.depthsOfAdded patches with
  | .error e => ⟨.error e, session⟩
  | .ok added =>
    session.applyInOrder (Patch.canonicalOrder (session.depth added) patches)

end Session

end Statechart
