import Statechart.Edit.Editor

/-!
# Edits of states

Adding, removing, renaming and moving states, and what they say of themselves. When
states get other names or places, the transitions that name them are changed as far as
they would otherwise name another state, or none.

* `Editor.rebase`: mends the descriptors of a changed description.
-/

namespace Statechart.Editor

variable (editor : Editor)

/-! ## Descriptors after a change -/

/-- The descriptor in the new graph for one of the old graph, and whether it changed. It
    is kept if it still names the state that `move` sends its old target to. -/
def rebasedDescriptor (new : Graph) (move : StatePath → StatePath) (source newSource : NodeId)
    (descriptor : String) : String × Bool :=
  let old := editor.graph
  let moved := do
    let target ← old.resolve? source descriptor
    new.nodeAt? (move (old.pathOf target))
  match moved with
  | some target =>
    if new.resolve? newSource descriptor = some target then (descriptor, false)
    else (new.descriptorLike newSource target descriptor, true)
  | none => (descriptor, false)

/-- Mends the descriptors of one transition. -/
def rebaseEdge (new : Graph) (move : StatePath → StatePath) (draft : Expr) (edge : Edge) :
    Edited Expr :=
  let source := move (editor.graph.pathOf edge.source)
  match new.nodeAt? source with
  | some newSource =>
    let rebased := edge.descriptors.map (editor.rebasedDescriptor new move edge.source newSource)
    if rebased.any (·.2) then
      Draft.modifyTransition draft source edge.path fun item =>
        pure (Draft.setTargets (rebased.map (·.1)) item)
    else pure draft
  | none => pure draft

/-- Mends the descriptors of a description in which each state has gone to where `move`
    sends its path. -/
def rebase (draft : Expr) (move : StatePath → StatePath) : Edited Expr :=
  let new := (editor.extractionOf draft).graph
  editor.graph.edges.foldlM (editor.rebaseEdge new move) draft

/-! ## Names and places -/

/-- A name that a state can have: not empty and without points. -/
def checkName (name : String) : Edited Unit :=
  if name.isEmpty || name.toList.contains '.' then throw (.invalid (.stateName name))
  else pure ()

/-- Puts a state below another. -/
def addState (parent : StatePath) (name : String) : Edited Expr := do
  checkName name
  let node ← editor.node parent
  if (editor.graph.child? node name).isSome then throw (.duplicateState parent name)
  Draft.modifyState editor.draft parent fun props =>
    match Draft.appendChild? props (Property.ofPair name (.ofProps [])) with
    | some props => pure props
    | none => throw .statesNotObject

/-- The path of the parent and the key of a state; the root has none. -/
def splitPath? (path : StatePath) : Option (StatePath × String) :=
  path.getLast?.map (path.dropLast, ·)

/-- The descriptors of an edge that do not lead into the removed states, if there are
    others. -/
def keptDescriptors? (removed : List NodeId) (edge : Edge) : Option (List String) :=
  let leadsInside (descriptor : String) : Bool :=
    (editor.graph.resolve? edge.source descriptor).any removed.contains
  if edge.descriptors.any leadsInside then some (edge.descriptors.filter (!leadsInside ·))
  else none

/-- The edges from outside into the removed states, each with its other descriptors. -/
def edgesInto (removed : List NodeId) : List (Edge × List String) :=
  (editor.graph.edges.filter fun edge => !removed.contains edge.source).filterMap fun edge =>
    (editor.keptDescriptors? removed edge).map (edge, ·)

/-- Removes a state. Transitions into it lose that target, and go with it when they have
    no other; of one slot the later ones go first, so that positions stay valid. -/
def removeState (path : StatePath) : Edited Expr := do
  match splitPath? path with
  | none => throw (.invalid .removesRoot)
  | some (parent, key) =>
    let node ← editor.node path
    let graph := editor.graph
    let affected := editor.edgesInto (graph.subtree node)
    let (dropped, narrowed) := affected.partition (·.2.isEmpty)
    let draft ← narrowed.foldlM (fun draft (edge, kept) =>
      Draft.modifyTransition draft (graph.pathOf edge.source) edge.path fun item =>
        pure (Draft.setTargets kept item)) editor.draft
    let dropped := dropped.mergeSort fun a b => b.1.path.index ≤ a.1.path.index
    let draft ← dropped.foldlM (fun draft (edge, _) => do
      pure (← Draft.takeTransition draft (graph.pathOf edge.source) edge.path).2) draft
    Draft.modifyState draft parent fun props =>
      let props := Draft.clearInitial props key
      pure (((Draft.takeChild? props key).map (·.2)).getD props)

/-- Whether a path starts with another. -/
def startsWith (path start : StatePath) : Bool :=
  path.take start.length == start

/-- The path after what stands at `old`, and below it, went to `new`. -/
def movePath (old new path : StatePath) : StatePath :=
  if startsWith path old then new ++ path.drop old.length else path

/-- Gives a state another name. -/
def renameState (path : StatePath) (name : String) : Edited Expr := do
  match splitPath? path with
  | none => throw (.invalid .renamesRoot)
  | some (parent, key) =>
    let node ← editor.node path
    if key = name then pure editor.draft
    else
      checkName name
      let graph := editor.graph
      if ((graph.parent? node).bind (graph.child? · name)).isSome then
        throw (.duplicateState parent name)
      let draft ← Draft.modifyState editor.draft parent fun props =>
        let props := if Draft.initialKey? props = some key then Draft.renameInitial props name
          else props
        pure (Property.modifyValue props "states" (Draft.modifyProps (Draft.renameKey · key name)))
      editor.rebase draft (movePath path (parent ++ [name]))

/-- Moves a state below another. -/
def reparentState (path newParent : StatePath) : Edited Expr := do
  match splitPath? path with
  | none => throw (.invalid .movesRoot)
  | some (parent, key) =>
    let node ← editor.node path
    let target ← editor.node newParent
    let graph := editor.graph
    if graph.isSelfOrDescendant target node then throw (.invalid (.ownSubtree path))
    if graph.parent? node = some target then pure editor.draft
    else
      if (graph.child? target key).isSome then throw (.duplicateState newParent key)
      let props := Draft.clearInitial (← Draft.state editor.draft parent) key
      match Draft.takeChild? props key with
      | none => throw (.stateNotFound path)
      | some (child, left) =>
        let draft := Draft.setStateProps left parent editor.draft
        let draft ← Draft.modifyState draft newParent fun props =>
          match Draft.appendChild? props child with
          | some props => pure props
          | none => throw .statesNotObject
        editor.rebase draft (movePath path (newParent ++ [key]))

/-! ## Attributes -/

/-- Chooses the initial state of a state, or none. -/
def setInitialState (path : StatePath) (initial : Option String) : Edited Expr := do
  let node ← editor.node path
  Draft.modifyState editor.draft path fun props =>
    match initial with
    | none => pure (Property.eraseName props "initial")
    | some key =>
      if (editor.graph.child? node key).isNone then throw (.stateNotFound (path ++ [key]))
      else if (Draft.initialKey? props).isSome then pure (Draft.renameInitial props key)
      else pure (Draft.setText props "initial" key)

/-- Gives a state an id, or takes it away. -/
def setStateId (path : StatePath) (id : Option String) : Edited Expr := do
  let node ← editor.node path
  if id = some "" then throw (.invalid .emptyId)
  if (id.bind editor.graph.nodeWithId?).any (· != node) then
    throw (.invalid (.idInUse (id.getD "")))
  let draft ← Draft.modifyState editor.draft path fun props =>
    pure (Draft.setOptionalText props "id" id)
  editor.rebase draft fun path => path

/-- Chooses the type of a state. Only history states keep a history. -/
def setStateType (path : StatePath) (type : StateType) (history : Option HistoryKind) :
    Edited Expr := do
  let _ ← editor.node path
  Draft.modifyState editor.draft path fun props =>
    let props := Property.eraseName props "parallel"
    let props := Draft.setOptionalText props "type"
      (if type = .normal then none else some type.name)
    pure (Draft.setOptionalText props "history"
      (if type = .history then history.map (·.name) else none))

end Statechart.Editor
