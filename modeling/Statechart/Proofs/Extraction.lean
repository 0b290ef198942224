import Statechart.Proofs.Walks

/-!
# The graph of a description

The nodes of an extracted graph are the states that were read, each with its position as its
handle and below the node of its parent, and the edges are their transitions.

* `Hierarchy`: nodes that know their positions and their parents;
* `Graph.WellFormed`: a hierarchy with one node at each path, in which each edge starts at a node;
* `extract_wellFormed`: extraction gives such a graph;
* `nodes_extract`, `edges_extract`: what its nodes and edges are.
-/

namespace Statechart

open Property Draft

/-! ## Extracted graphs -/

/-- A hierarchy with one node at each path, in which each edge starts at a node. -/
structure Graph.WellFormed (graph : Graph) : Prop where
  hierarchy : Hierarchy graph.nodes
  nonempty : graph.nodes ≠ []
  paths : (graph.nodes.map (·.path)).Nodup
  /-- The index of children is that of the parents. -/
  index : graph.childIndex = childrenByParent graph.nodes
  sources : ∀ edge ∈ graph.edges, edge.source < graph.nodes.length

/-- The states of a description, parents first. -/
def infosOf (config : Expr) : List StateInfo :=
  (readMachine config).1.infos

theorem nodup_paths_infosOf (config : Expr) : ((infosOf config).map (·.path)).Nodup := by
  cases config with
  | object origin props =>
    rw [infosOf, readMachine, readStateTree_object]
    exact nodup_paths_infosBelow
  | _ => exact List.nodup_singleton _

theorem consistent_readMachine (config : Expr) : (readMachine config).1.Consistent := by
  cases config with
  | object origin props =>
    rw [readMachine, readStateTree_object]
    exact consistent_childTrees _ _ _ _ _
  | _ => exact .node (fun _ h => absurd h List.not_mem_nil) fun _ h => absurd h List.not_mem_nil

theorem info_readMachine (config : Expr) : (readMachine config).1.info.path = [] := by
  cases config with
  | object origin props =>
    rw [readMachine, readStateTree_object]
    rfl
  | _ => rfl

section

variable (config : Expr) (options setup : Option Expr)

/-- The nodes of an extracted graph are the states that were read. -/
theorem nodes_extract :
    (extract config options setup).graph.nodes.map Node.view =
      (infosOf config).map StateInfo.view := by
  rw [extract_eq]
  exact (Builder.addTree_nodes (declaredNames options setup) none (readMachine config).1 {}).1

/-- The edges of an extracted graph are the transitions that were read. -/
theorem edges_extract :
    (extract config options setup).graph.edges.map Edge.view =
      Builder.edgesFrom 0 (infosOf config) := by
  have hedges := (Builder.addTree_nodes (declaredNames options setup) none
    (readMachine config).1 {}).2
  rw [← List.nil_append (Builder.edgesFrom 0 (infosOf config))]
  refine Eq.trans ?_ hedges
  rw [extract_eq, Graph.resolved, List.map_map]
  rfl

/-- Extracted graphs are well formed. -/
theorem extract_wellFormed : (extract config options setup).graph.WellFormed := by
  have hlength := congrArg List.length (nodes_extract config options setup)
  rw [List.length_map, List.length_map] at hlength
  refine ⟨?_, ?_, ?_, ?_, ?_⟩
  · rw [extract_eq]
    exact (Builder.addTree_hierarchy (declaredNames options setup) none (readMachine config).1 {}
      (consistent_readMachine config) .nil (.inl ⟨rfl, rfl, info_readMachine config⟩)).1
  · intro hnil
    rw [hnil] at hlength
    rw [infosOf] at hlength
    cases htree : (readMachine config).1
    rw [htree, StateTree.infos] at hlength
    cases hlength
  · have hpaths : ((extract config options setup).graph.nodes.map (·.path)) =
        (infosOf config).map (·.path) := by
      have := congrArg (List.map (·.1)) (nodes_extract config options setup)
      simpa only [List.map_map, Function.comp_def, Node.view, StateInfo.view] using this
    rw [hpaths]
    exact nodup_paths_infosOf config
  · rw [extract_eq]
    rfl
  · intro edge hedge
    have hmem := List.mem_map_of_mem (f := Edge.view) hedge
    rw [edges_extract, Builder.edgesFrom, List.mem_flatMap] at hmem
    obtain ⟨⟨info, id⟩, hinfo, hmem⟩ := hmem
    obtain ⟨t, -, hview⟩ := List.mem_map.1 hmem
    have hsource : id = edge.source := congrArg Prod.fst hview
    rw [← hsource, hlength]
    exact (List.getElem?_eq_some_iff.1 (List.mk_mem_zipIdx_iff_getElem?.1 hinfo)).1

end

end Statechart
