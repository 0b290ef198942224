import Statechart.Edit.Basic

/-!
# Patches

Changes of a machine in terms of its graph: nodes, edges and blocks are named by their
handles. New ones get handles from whoever writes the patches, and other patches of
the same batch may use them.

* `BlockOwner`, `DescriptionOwner`: what blocks and descriptions belong to;
* `Patch`: the changes;
* `PatchError`: why a batch is refused.
-/

namespace Statechart

/-- The list that a block belongs to. -/
inductive BlockOwner where
  | entry (node : NodeId)
  | exit (node : NodeId)
  | invoke (node : NodeId)
  | actions (edge : EdgeId)
  | guard (edge : EdgeId)
  deriving DecidableEq, Repr, Ord

/-- What a description describes. -/
inductive DescriptionOwner where
  | node (id : NodeId)
  | edge (id : EdgeId)
  deriving DecidableEq, Repr, Ord

/-- A change of a graph. -/
inductive Patch where
  | addNode (node parent : NodeId) (key : String)
  | removeNode (node : NodeId)
  | replaceNodeKey (node : NodeId) (key : String)
  | replaceNodeParent (node parent : NodeId)
  | replaceNodeInitial (node : NodeId) (initial : Option String)
  | replaceNodeType (node : NodeId) (type : StateType) (history : Option HistoryKind)
  | replaceNodeId (node : NodeId) (id : Option String)
  | replaceDescription (owner : DescriptionOwner) (description : Option String)
  | addEdge (edge : EdgeId) (source : NodeId) (targets : List NodeId) (slot : Slot)
      (internal : Option Bool)
  | removeEdge (edge : EdgeId)
  | replaceEdgeSource (edge : EdgeId) (source : NodeId)
  | replaceEdgeTargets (edge : EdgeId) (targets : List NodeId)
  | replaceEdgeSlot (edge : EdgeId) (slot : Slot)
  | replaceEdgeInternal (edge : EdgeId) (internal : Option Bool)
  /-- Adds a block before the one at `index` of its owner, or at the end. -/
  | addBlock (block : BlockId) (owner : BlockOwner) (index : Option Nat) (sourceId : String)
  | removeBlock (block : BlockId)
  | replaceBlockSource (block : BlockId) (sourceId : String)
  deriving DecidableEq, Repr, Ord

/-- The name of a kind of patch. -/
def Patch.kind : Patch → String
  | addNode .. => "add_node"
  | removeNode .. => "remove_node"
  | replaceNodeKey .. => "replace_node_key"
  | replaceNodeParent .. => "replace_node_parent"
  | replaceNodeInitial .. => "replace_node_initial"
  | replaceNodeType .. => "replace_node_type"
  | replaceNodeId .. => "replace_node_id"
  | replaceDescription .. => "replace_description"
  | addEdge .. => "add_edge"
  | removeEdge .. => "remove_edge"
  | replaceEdgeSource .. => "replace_edge_source"
  | replaceEdgeTargets .. => "replace_edge_targets"
  | replaceEdgeSlot .. => "replace_edge_slot"
  | replaceEdgeInternal .. => "replace_edge_internal"
  | addBlock .. => "add_block"
  | removeBlock .. => "remove_block"
  | replaceBlockSource .. => "replace_block_source"

/-- Why a batch of patches is refused. -/
inductive PatchError where
  | unknownNode (id : NodeId)
  | unknownEdge (id : EdgeId)
  | unknownBlock (id : BlockId)
  | duplicateNode (id : NodeId)
  | duplicateEdge (id : EdgeId)
  | duplicateBlock (id : BlockId)
  /-- The parents of added nodes lead in a circle. -/
  | cyclicParent (id : NodeId)
  /-- An edit that the named kind of patch amounts to is refused. -/
  | edit (kind : String) (cause : EditError)
  deriving DecidableEq, Repr

/-- The wording of an error. -/
def PatchError.message : PatchError → String
  | unknownNode id => s!"unknown node NodeId({id})"
  | unknownEdge id => s!"unknown edge EdgeId({id})"
  | unknownBlock id => s!"unknown block BlockId({id})"
  | duplicateNode id => s!"node NodeId({id}) already exists"
  | duplicateEdge id => s!"edge EdgeId({id}) already exists"
  | duplicateBlock id => s!"block BlockId({id}) already exists"
  | cyclicParent id => s!"added nodes form a cycle through node NodeId({id})"
  | edit kind cause => kind ++ " failed: " ++ cause.message

/-- The result of patches that may be refused. -/
abbrev Patched := Except PatchError

end Statechart
