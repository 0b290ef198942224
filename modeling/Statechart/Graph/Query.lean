import Statechart.Graph.Basic

/-!
# Queries on graphs

* `node?`, `edge?`, `block?`: by handle;
* `children`, `child?`, `nodeAt?`, `nodeWithId?`: nodes by key, path and id;
* `ancestors`, `isDescendant`, `subtree`: the hierarchy;
* `edgesFrom`, `edgeAt?`, `slotLength`: transitions of a state;
* `registry`: the implementations of a kind.
-/

namespace Statechart.Graph

variable (graph : Graph)

/-- The node with this handle. -/
def node? (id : NodeId) : Option Node :=
  graph.nodes[id]?

/-- The edge with this handle. -/
def edge? (id : EdgeId) : Option Edge :=
  graph.edges[id]?

/-- The block with this handle. -/
def block? (id : BlockId) : Option Block :=
  graph.blocks[id]?

/-- The path of a node. -/
def pathOf (id : NodeId) : StatePath :=
  ((graph.node? id).map (·.path)).getD []

/-- The `id` that a node is given in writing. -/
def explicitId? (id : NodeId) : Option String :=
  (graph.node? id).bind (·.attributes.explicitId)

/-- The parent of a node. -/
def parent? (id : NodeId) : Option NodeId :=
  (graph.node? id).bind (·.parent)

/-- The children of a node, in the order in which they are written. -/
def children (id : NodeId) : List NodeId :=
  (graph.childIndex[id]?).getD []

/-- The child of a node with this key. -/
def child? (id : NodeId) (key : String) : Option NodeId :=
  (graph.children id).find? fun child => (graph.node? child).any (·.key == key)

/-- Follows keys down from a node. -/
def descend? (id : NodeId) : List String → Option NodeId
  | [] => some id
  | key :: keys => (graph.child? id key).bind fun child => descend? child keys

/-- The node at this path. -/
def nodeAt? (path : StatePath) : Option NodeId :=
  graph.descend? root path

/-- The first node that is given this `id`. -/
def nodeWithId? (id : String) : Option NodeId :=
  (graph.nodes.find? (·.attributes.explicitId == some id)).map (·.id)

/-- The ancestors of a node, the nearest first. Parents come before their
    children, so that their handles are smaller. -/
def ancestors (id : NodeId) : List NodeId :=
  match graph.parent? id with
  | some parent => if parent < id then parent :: ancestors parent else []
  | none => []
termination_by id

/-- Whether a node lies below another. -/
def isDescendant (id ancestor : NodeId) : Bool :=
  (graph.ancestors id).contains ancestor

/-- Whether a node is another, or lies below it. -/
def isSelfOrDescendant (id ancestor : NodeId) : Bool :=
  id == ancestor || graph.isDescendant id ancestor

/-- A node and those below it, parents first, at most `depth` levels down. -/
def subtreeWithin : Nat → NodeId → List NodeId
  | 0, id => [id]
  | depth + 1, id => id :: (graph.children id).flatMap (subtreeWithin depth)

/-- A node and all those below it, parents first. -/
def subtree (id : NodeId) : List NodeId :=
  graph.subtreeWithin graph.nodes.length id

/-- The transitions of a state. -/
def edgesFrom (source : NodeId) : List Edge :=
  graph.edges.filter (·.source == source)

/-- The transition of a state at this place. -/
def edgeAt? (source : NodeId) (path : TransitionPath) : Option Edge :=
  (graph.edgesFrom source).find? (·.path == path)

/-- The number of transitions of a state in a slot. -/
def slotLength (source : NodeId) (slot : Slot) : Nat :=
  ((graph.edgesFrom source).filter (·.path.slot == slot)).length

/-- The implementations of a kind, ordered by their ids. -/
def registry (kind : BlockKind) : List Implementation :=
  (graph.implementations.filter (·.kind == kind)).mergeSort fun a b => !textLt b.id a.id

end Statechart.Graph
