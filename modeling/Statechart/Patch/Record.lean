import Statechart.Edit.Record
import Statechart.Patch.Basic

/-!
# The record form of patches

A patch is a record of its kind, as `op`, and its parts. A part that may be missing
reads as none when it is left out or null, and is written as null.
-/

namespace Statechart

namespace BlockOwner

/-- The owner of a block as plain data. -/
def toDatum : BlockOwner → Datum
  | entry node => .ofFields [("type", .text "entry"), ("node", .ofNat node)]
  | exit node => .ofFields [("type", .text "exit"), ("node", .ofNat node)]
  | invoke node => .ofFields [("type", .text "invoke"), ("node", .ofNat node)]
  | actions edge => .ofFields [("type", .text "actions"), ("edge", .ofNat edge)]
  | guard edge => .ofFields [("type", .text "guard"), ("edge", .ofNat edge)]

/-- The parts of owners of blocks. -/
def variants : Datum.Variants :=
  [("entry", ⟨["node"], []⟩), ("exit", ⟨["node"], []⟩), ("invoke", ⟨["node"], []⟩),
   ("actions", ⟨["edge"], []⟩), ("guard", ⟨["edge"], []⟩)]

/-- The owner of a block that plain data make. -/
def ofDatum? (datum : Datum) : Option BlockOwner := do
  let (type, datum) ← datum.variant? "type" true variants
  let node : Option NodeId := (datum.get "node").nat?
  let edge : Option EdgeId := (datum.get "edge").nat?
  match type with
  | "entry" => node.map entry
  | "exit" => node.map exit
  | "invoke" => node.map invoke
  | "actions" => edge.map actions
  | "guard" => edge.map guard
  | _ => none

end BlockOwner

namespace DescriptionOwner

/-- The owner of a description as plain data. -/
def toDatum : DescriptionOwner → Datum
  | node id => .ofFields [("kind", .text "node"), ("id", .ofNat id)]
  | edge id => .ofFields [("kind", .text "edge"), ("id", .ofNat id)]

/-- The owner of a description that plain data make. -/
def ofDatum? (datum : Datum) : Option DescriptionOwner := do
  let (kind, datum) ← datum.variant? "kind" true [("node", ⟨["id"], []⟩), ("edge", ⟨["id"], []⟩)]
  let id ← (datum.get "id").nat?
  match kind with
  | "node" => pure (node id)
  | "edge" => pure (edge id)
  | _ => none

end DescriptionOwner

namespace Patch

/-- The parts of a patch. -/
def parts : Patch → List (String × Datum)
  | addNode node parent key =>
    [("node", .ofNat node), ("parent", .ofNat parent), ("key", .text key)]
  | removeNode node => [("node", .ofNat node)]
  | replaceNodeKey node key => [("node", .ofNat node), ("key", .text key)]
  | replaceNodeParent node parent => [("node", .ofNat node), ("parent", .ofNat parent)]
  | replaceNodeInitial node initial =>
    [("node", .ofNat node), ("initial", .ofOption .text initial)]
  | replaceNodeType node type history =>
    [("node", .ofNat node), ("state_type", .text type.name),
     ("history", .ofOption (fun h => .text h.name) history)]
  | replaceNodeId node id => [("node", .ofNat node), ("id", .ofOption .text id)]
  | replaceDescription owner description =>
    [("owner", owner.toDatum), ("description", .ofOption .text description)]
  | addEdge edge source targets slot internal =>
    [("edge", .ofNat edge), ("source", .ofNat source), ("targets", handleData targets),
     ("slot", slot.toDatum), ("internal", .ofOption .bool internal)]
  | removeEdge edge => [("edge", .ofNat edge)]
  | replaceEdgeSource edge source => [("edge", .ofNat edge), ("source", .ofNat source)]
  | replaceEdgeTargets edge targets => [("edge", .ofNat edge), ("targets", handleData targets)]
  | replaceEdgeSlot edge slot => [("edge", .ofNat edge), ("slot", slot.toDatum)]
  | replaceEdgeInternal edge internal =>
    [("edge", .ofNat edge), ("internal", .ofOption .bool internal)]
  | addBlock block owner index sourceId =>
    [("block", .ofNat block), ("owner", owner.toDatum), ("index", .ofOption .ofNat index),
     ("source_id", .text sourceId)]
  | removeBlock block => [("block", .ofNat block)]
  | replaceBlockSource block sourceId =>
    [("block", .ofNat block), ("source_id", .text sourceId)]

/-- A patch as plain data. -/
def toDatum (patch : Patch) : Datum :=
  .ofFields (("op", .text patch.kind) :: patch.parts)

/-- The parts of patches. -/
def variants : Datum.Variants :=
  [("add_node", ⟨["node", "parent", "key"], []⟩), ("remove_node", ⟨["node"], []⟩),
   ("replace_node_key", ⟨["node", "key"], []⟩), ("replace_node_parent", ⟨["node", "parent"], []⟩),
   ("replace_node_initial", ⟨["node", "initial"], []⟩),
   ("replace_node_type", ⟨["node", "state_type"], ["history"]⟩),
   ("replace_node_id", ⟨["node", "id"], []⟩),
   ("replace_description", ⟨["owner", "description"], []⟩),
   ("add_edge", ⟨["edge", "source", "targets", "slot"], ["internal"]⟩),
   ("remove_edge", ⟨["edge"], []⟩), ("replace_edge_source", ⟨["edge", "source"], []⟩),
   ("replace_edge_targets", ⟨["edge", "targets"], []⟩),
   ("replace_edge_slot", ⟨["edge", "slot"], []⟩),
   ("replace_edge_internal", ⟨["edge", "internal"], []⟩),
   ("add_block", ⟨["block", "owner", "index", "source_id"], []⟩),
   ("remove_block", ⟨["block"], []⟩), ("replace_block_source", ⟨["block", "source_id"], []⟩)]

/-- The patch that plain data make. -/
def ofDatum? (datum : Datum) : Option Patch := do
  let (kind, datum) ← datum.variant? "op" false variants
  let nat (name : String) : Option Nat := (datum.get name).nat?
  let text (name : String) : Option String := (datum.get name).text?
  let text? (name : String) : Option (Option String) := (datum.get name).optional? Datum.text?
  let handles : Datum → Option (List Nat) := Datum.listOf? Datum.nat?
  let slot : Option Slot := Slot.ofDatum? true (datum.get "slot")
  let internal : Option (Option Bool) := (datum.get "internal").optional? Datum.bool?
  match kind with
  | "add_node" => pure (addNode (← nat "node") (← nat "parent") (← text "key"))
  | "remove_node" => pure (removeNode (← nat "node"))
  | "replace_node_key" => pure (replaceNodeKey (← nat "node") (← text "key"))
  | "replace_node_parent" => pure (replaceNodeParent (← nat "node") (← nat "parent"))
  | "replace_node_initial" => pure (replaceNodeInitial (← nat "node") (← text? "initial"))
  | "replace_node_type" =>
    pure (replaceNodeType (← nat "node") (← StateType.ofDatum? (datum.get "state_type"))
      (← (datum.get "history").optional? HistoryKind.ofDatum?))
  | "replace_node_id" => pure (replaceNodeId (← nat "node") (← text? "id"))
  | "replace_description" =>
    pure (replaceDescription (← DescriptionOwner.ofDatum? (datum.get "owner"))
      (← text? "description"))
  | "add_edge" =>
    pure (addEdge (← nat "edge") (← nat "source") (← datum.fieldOr? [] handles "targets")
      (← slot) (← internal))
  | "remove_edge" => pure (removeEdge (← nat "edge"))
  | "replace_edge_source" => pure (replaceEdgeSource (← nat "edge") (← nat "source"))
  | "replace_edge_targets" =>
    pure (replaceEdgeTargets (← nat "edge") (← handles (datum.get "targets")))
  | "replace_edge_slot" => pure (replaceEdgeSlot (← nat "edge") (← slot))
  | "replace_edge_internal" => pure (replaceEdgeInternal (← nat "edge") (← internal))
  | "add_block" =>
    pure (addBlock (← nat "block") (← BlockOwner.ofDatum? (datum.get "owner"))
      (← (datum.get "index").optional? Datum.nat?) (← text "source_id"))
  | "remove_block" => pure (removeBlock (← nat "block"))
  | "replace_block_source" => pure (replaceBlockSource (← nat "block") (← text "source_id"))
  | _ => none

end Patch

end Statechart
