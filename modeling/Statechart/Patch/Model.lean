import Statechart.Graph.Query
import Statechart.Patch.Basic

/-!
# Where handles lead

While patches are made, each handle is kept with the place that it currently stands
for: nodes with their paths, edges with their source and their place on it, blocks
with their list and their position in it. Positions count all that is written.

* `Model.ofGraph`: the places at the start;
* `moveSubtree`, `dropSubtree`, `attachEdge`, `detachEdge`, `attachBlock`,
  `detachBlock`: the places after a change;
* `depthsOfAdded`: how deep the nodes lie that a batch adds.
-/

namespace Statechart

/-- The place of an edge. -/
structure EdgePlace where
  source : NodeId
  path : TransitionPath
  deriving DecidableEq, Repr

/-- The place of a block. -/
structure BlockPlace where
  owner : BlockOwner
  index : Nat
  deriving DecidableEq, Repr

/-- The places of all handles. -/
structure Model where
  paths : List (NodeId × StatePath)
  edges : List (EdgeId × EdgePlace)
  blocks : List (BlockId × BlockPlace)
  deriving DecidableEq, Repr

namespace Model

/-- The places of blocks of one owner in a graph. -/
def blockPlaces (graph : Graph) (owner : BlockOwner) (ids : List BlockId) :
    List (BlockId × BlockPlace) :=
  ids.map fun id => (id, ⟨owner, ((graph.block? id).map (·.listIndex)).getD 0⟩)

/-- The places of the blocks of a node. -/
def nodeBlocks (graph : Graph) (node : Node) : List (BlockId × BlockPlace) :=
  blockPlaces graph (.entry node.id) node.entry ++ blockPlaces graph (.exit node.id) node.exit
    ++ blockPlaces graph (.invoke node.id) node.invoke

/-- The places of the blocks of an edge. -/
def edgeBlocks (graph : Graph) (edge : Edge) : List (BlockId × BlockPlace) :=
  blockPlaces graph (.actions edge.id) edge.actions
    ++ edge.guard.toList.map fun id => (id, ⟨.guard edge.id, 0⟩)

/-- The places of the handles of a graph. -/
def ofGraph (graph : Graph) : Model where
  paths := graph.nodes.map fun node => (node.id, node.path)
  edges := graph.edges.map fun edge => (edge.id, ⟨edge.source, edge.path⟩)
  blocks := graph.nodes.flatMap (nodeBlocks graph) ++ graph.edges.flatMap (edgeBlocks graph)

variable (model : Model)

/-! ## Looking up -/

/-- The path of a node. -/
def path (id : NodeId) : Patched StatePath :=
  match model.paths.lookup id with
  | some path => .ok path
  | none => .error (.unknownNode id)

/-- The place of an edge. -/
def edge (id : EdgeId) : Patched EdgePlace :=
  match model.edges.lookup id with
  | some place => .ok place
  | none => .error (.unknownEdge id)

/-- The place of a block. -/
def block (id : BlockId) : Patched BlockPlace :=
  match model.blocks.lookup id with
  | some place => .ok place
  | none => .error (.unknownBlock id)

/-- Whether a node has this handle. -/
def hasNode (id : NodeId) : Bool := (model.paths.lookup id).isSome

/-- Whether an edge has this handle. -/
def hasEdge (id : EdgeId) : Bool := (model.edges.lookup id).isSome

/-- Whether a block has this handle. -/
def hasBlock (id : BlockId) : Bool := (model.blocks.lookup id).isSome

/-! ## Nodes -/

/-- Adds a node at a path. -/
def addNode (id : NodeId) (path : StatePath) : Model :=
  { model with paths := model.paths ++ [(id, path)] }

/-- Whether a path leads to `root` or below it. -/
def isBelow (root path : StatePath) : Bool :=
  path.take root.length == root

/-- Moves the node at `old`, with those below it, to `new`. -/
def moveSubtree (old new : StatePath) : Model :=
  { model with paths := model.paths.map fun (id, path) =>
      (id, if isBelow old path then new ++ path.drop old.length else path) }

/-- Drops the node at a path and those below it, with the edges from there. -/
def dropSubtree (root : StatePath) : Model :=
  let removed := (model.paths.filter (isBelow root ·.2)).map (·.1)
  { model with
    paths := model.paths.filter (!removed.contains ·.1)
    edges := model.edges.filter (!removed.contains ·.2.source) }

/-! ## Edges -/

/-- Applies `f` to the place of each edge. -/
def mapEdges (f : EdgePlace → EdgePlace) : Model :=
  { model with edges := model.edges.map fun (id, place) => (id, f place) }

/-- The number of edges of a node in a slot. -/
def slotLength (source : NodeId) (slot : Slot) : Nat :=
  (model.edges.filter fun (_, place) => place.source == source && place.path.slot == slot).length

/-- The place at the end of a slot. -/
def slotEnd (source : NodeId) (slot : Slot) : TransitionPath :=
  ⟨slot, model.slotLength source slot⟩

/-- Puts an edge at the end of a slot. -/
def attachEdge (id : EdgeId) (source : NodeId) (slot : Slot) : Model :=
  { model with edges := model.edges ++ [(id, ⟨source, model.slotEnd source slot⟩)] }

/-- Takes an edge away; those behind it in its slot move up. -/
def detachEdge (id : EdgeId) (place : EdgePlace) : Model :=
  let left := { model with edges := model.edges.filter (·.1 != id) }
  left.mapEdges fun other =>
    if other.source = place.source ∧ other.path.slot = place.path.slot
        ∧ place.path.index < other.path.index then
      { other with path := { other.path with index := other.path.index - 1 } }
    else other

/-- Whether a block belongs to an edge. -/
def belongsToEdge (id : EdgeId) (place : BlockPlace) : Bool :=
  place.owner == .actions id || place.owner == .guard id

/-- Drops the blocks of an edge. -/
def dropBlocksOf (id : EdgeId) : Model :=
  { model with blocks := model.blocks.filter (!belongsToEdge id ·.2) }

/-! ## Blocks -/

/-- The position of the block that comes at `n` among those of an owner. -/
def positionOfNth? (owner : BlockOwner) (n : Nat) : Option Nat :=
  let positions := (model.blocks.filter (·.2.owner == owner)).map (·.2.index)
  (positions.mergeSort (· ≤ ·))[n]?

/-- Applies `f` to the positions of the blocks of an owner. -/
def mapPositions (owner : BlockOwner) (f : Nat → Nat) : Model :=
  { model with blocks := model.blocks.map fun (id, place) =>
      (id, if place.owner = owner then { place with index := f place.index } else place) }

/-- Puts a block at a position of its owner; those from there on move down. -/
def attachBlock (id : BlockId) (owner : BlockOwner) (index : Nat) : Model :=
  let moved := model.mapPositions owner fun i => if index ≤ i then i + 1 else i
  { moved with blocks := moved.blocks ++ [(id, ⟨owner, index⟩)] }

/-- The invocation that a slot follows the end of. -/
def invokeOf? : Slot → Option Nat
  | .invokeDone invoke | .invokeError invoke => some invoke
  | _ => none

/-- The slot after the invocation at `index` has gone. -/
def shiftInvoke (index : Nat) : Slot → Slot
  | .invokeDone invoke => .invokeDone (if index < invoke then invoke - 1 else invoke)
  | .invokeError invoke => .invokeError (if index < invoke then invoke - 1 else invoke)
  | slot => slot

/-- Drops the transitions that follow the end of an invocation, with their blocks; those
    of later invocations move up. -/
def dropInvoke (node : NodeId) (index : Nat) : Model :=
  let isGone (place : EdgePlace) : Bool :=
    place.source == node && invokeOf? place.path.slot == some index
  let gone := (model.edges.filter (isGone ·.2)).map (·.1)
  let left : Model :=
    { model with
      edges := model.edges.filter (!isGone ·.2)
      blocks := model.blocks.filter fun (_, place) => !gone.any (belongsToEdge · place) }
  left.mapEdges fun place =>
    if place.source = node then
      { place with path := { place.path with slot := shiftInvoke index place.path.slot } }
    else place

/-- Takes a block away; those behind it of the same owner move up, and with an
    invocation go the transitions that follow its end. -/
def detachBlock (id : BlockId) (place : BlockPlace) : Model :=
  let left := { model with blocks := model.blocks.filter (·.1 != id) }
  let moved := left.mapPositions place.owner fun i => if place.index < i then i - 1 else i
  match place.owner with
  | .invoke node => moved.dropInvoke node place.index
  | _ => moved

/-! ## Depths of added nodes -/

/-- The parents of the nodes that patches add; of a node that is added twice, the later
    one counts and comes first. -/
def addedParents (patches : List Patch) : List (NodeId × NodeId) :=
  (patches.filterMap fun
    | .addNode node parent _ => some (node, parent)
    | _ => none).reverse

/-- How deep a node lies that is to have this parent. The parent is in the model, or
    added too; `chain` holds the added nodes on the way here, and `fuel` bounds the
    number of steps. -/
def depthBelow (parents : List (NodeId × NodeId)) : Nat → List NodeId → NodeId → Patched Nat
  | 0, _, parent => .error (.cyclicParent parent)
  | fuel + 1, chain, parent =>
    match model.paths.lookup parent with
    | some path => .ok (path.length + 1)
    | none =>
      match parents.lookup parent with
      | none => .error (.unknownNode parent)
      | some next =>
        if chain.contains parent then .error (.cyclicParent parent)
        else (depthBelow parents fuel (parent :: chain) next).map (· + 1)

/-- How deep the nodes lie that patches add. -/
def depthsOfAdded (patches : List Patch) : Patched (List (NodeId × Nat)) :=
  let parents := addedParents patches
  (parents.map (·.1)).eraseDups.reverse.mapM fun node => do
    let parent := (parents.lookup node).getD node
    pure (node, ← model.depthBelow parents (parents.length + 1) [node] parent)

end Model

end Statechart
