import Statechart.Proofs.AddressAgreement
import Statechart.Proofs.BuilderInvariant
import Statechart.Proofs.ReadingProblems

/-!
# Extracted graphs are sound

All that a user of a graph relies on holds of the graph of every description, whatever is
written twice, in the wrong form or nowhere at all in it.

* `Graph.blockLists`, `Graph.failures`: the lists of blocks, and the descriptors that stand for
  no state;
* `Extraction.Sound`: what is relied on;
* `extract_sound`: it holds of what is extracted.
-/

namespace Statechart

open Property Draft

namespace Graph

variable (graph : Graph)

/-- The lists of blocks of all nodes and edges. -/
def blockLists : List (List BlockId) :=
  (graph.nodes.flatMap fun node => [node.entry, node.exit, node.invoke]) ++
    graph.edges.flatMap fun edge => [edge.guard.toList, edge.actions]

/-- The descriptors that stand for no state, in the order of the edges, as they are reported. -/
def failures : List (ProblemKind × StatePath × Option String) :=
  graph.edges.flatMap fun edge =>
    (edge.descriptors.filter fun descriptor =>
      (graph.resolve? edge.source descriptor).isNone).map
        fun descriptor => (.unresolved, graph.pathOf edge.source, some descriptor)

end Graph

/-- What a user of a graph and of its problems relies on. -/
structure Extraction.Sound (extraction : Extraction) : Prop where
  /-- Handles are positions. -/
  nodeIds : extraction.graph.nodes.map (·.id) = List.range extraction.graph.nodes.length
  edgeIds : extraction.graph.edges.map (·.id) = List.range extraction.graph.edges.length
  blockIds : extraction.graph.blocks.map (·.id) = List.range extraction.graph.blocks.length
  /-- The root is the first node and has no parent. -/
  root : ∃ node, extraction.graph.node? Graph.root = some node ∧ node.parent = none ∧
    node.path = []
  /-- All other nodes have a parent, which comes before them. -/
  parents : ∀ node ∈ extraction.graph.nodes, node.id ≠ Graph.root →
    ∃ parent ∈ extraction.graph.nodes, node.parent = some parent.id ∧ parent.id < node.id ∧
      node.path = parent.path ++ [node.key]
  /-- Each node has a list of children, and in the lists all nodes but the root are there, each
  once. -/
  index : extraction.graph.childIndex.length = extraction.graph.nodes.length ∧
    extraction.graph.childIndex.flatten.Perm (List.range extraction.graph.nodes.length).tail
  /-- A node is listed once among the children of its parent, and nowhere else. -/
  children : ∀ node ∈ extraction.graph.nodes, ∀ id,
    (extraction.graph.children id).count node.id = if node.parent = some id then 1 else 0
  ascending : ∀ id, (extraction.graph.children id).Pairwise (· < ·)
  siblings : ∀ node ∈ extraction.graph.nodes, ∀ other ∈ extraction.graph.nodes,
    node.parent = other.parent → node.key = other.key → node = other
  nodeAt : ∀ node ∈ extraction.graph.nodes, extraction.graph.nodeAt? node.path = some node.id
  /-- Edges start at nodes and come in the order of these. -/
  sources : (extraction.graph.edges.map (·.source)).Pairwise (· ≤ ·) ∧
    ∀ edge ∈ extraction.graph.edges, edge.source < extraction.graph.nodes.length
  /-- A source and a place on it have one edge. -/
  places : ∀ edge ∈ extraction.graph.edges, ∀ other ∈ extraction.graph.edges,
    edge.source = other.source → edge.path = other.path → edge = other
  targets : ∀ edge ∈ extraction.graph.edges,
    edge.targets = edge.descriptors.filterMap (extraction.graph.resolve? edge.source)
  /-- Problems with what is written come first, and then the targets that stand for no state. -/
  problems : ∃ form unresolved, extraction.problems = form ++ unresolved ∧ OfForm form ∧
    unresolved.map (fun problem => (problem.kind, problem.path, problem.property)) =
      extraction.graph.failures
  /-- Each block is in one list, once. -/
  blocks : extraction.graph.blockLists.flatten.Perm (List.range extraction.graph.blocks.length)
  /-- The lists that a block is in are those of its parent. -/
  nodeBlocks : ∀ node ∈ extraction.graph.nodes, ∀ id ∈ node.entry ++ node.exit ++ node.invoke,
    ∃ block, extraction.graph.block? id = some block ∧ block.parent = .node node.id
  edgeBlocks : ∀ edge ∈ extraction.graph.edges, ∀ id ∈ edge.guard.toList ++ edge.actions,
    ∃ block, extraction.graph.block? id = some block ∧ block.parent = .edge edge.id
  /-- Within a list, blocks come in the order in which they are written. -/
  positions : ∀ ids ∈ extraction.graph.blockLists, ids.Pairwise fun i j => ∀ a b,
    extraction.graph.block? i = some a → extraction.graph.block? j = some b →
      a.listIndex < b.listIndex
  /-- The implementations of a kind are those that blocks of the kind name, each once. -/
  registry : ∀ kind, ((extraction.graph.registry kind).map (·.id)).Nodup ∧
    ∀ id, id ∈ (extraction.graph.registry kind).map (·.id) ↔
      ∃ block ∈ extraction.graph.blocks, block.kind = kind ∧ block.sourceId = id

/-! ## Nodes -/

namespace Graph.WellFormed

variable {graph : Graph} (h : graph.WellFormed)

include h

theorem nodeIds : graph.nodes.map (·.id) = List.range graph.nodes.length := by
  refine List.ext_getElem? fun i => ?_
  rw [List.getElem?_map]
  cases hnode : graph.nodes[i]? with
  | none =>
    have := List.getElem?_eq_none_iff.1 hnode
    rw [Option.map_none, List.getElem?_eq_none (by simpa using this)]
  | some node =>
    rw [Option.map_some, h.hierarchy.id_eq hnode,
      List.getElem?_range (List.getElem?_eq_some_iff.1 hnode).1]

theorem parent_of_mem {node : Node} (hnode : node ∈ graph.nodes) (hid : node.id ≠ root) :
    ∃ parent ∈ graph.nodes, node.parent = some parent.id ∧ parent.id < node.id ∧
      node.path = parent.path ++ [node.key] := by
  obtain ⟨j, m, hparent, hlt, hm, hpath⟩ :=
    h.hierarchy.parent (h.getElem?_of_mem hnode) (Nat.pos_of_ne_zero hid)
  obtain rfl := h.hierarchy.id_eq hm
  exact ⟨m, List.mem_of_getElem? hm, hparent, hlt, hpath⟩

theorem pairwise_children (id : NodeId) : (graph.children id).Pairwise (· < ·) := by
  have hids : (graph.nodes.map (·.id)).Pairwise (· < ·) := by
    rw [h.nodeIds]
    exact List.pairwise_lt_range
  rw [h.children_eq]
  exact hids.sublist (List.filter_sublist.map _)

theorem mem_children_iff {node : Node} (hnode : node ∈ graph.nodes) {id : NodeId} :
    node.id ∈ graph.children id ↔ node.parent = some id := by
  rw [h.children_eq, List.mem_map]
  constructor
  · rintro ⟨other, hother, hid⟩
    obtain ⟨hother, hparent⟩ := List.mem_filter.1 hother
    have hsame := h.getElem?_of_mem hother
    rw [hid, h.getElem?_of_mem hnode] at hsame
    rw [Option.some.inj hsame]
    exact beq_iff_eq.1 hparent
  · intro hparent
    exact ⟨node, List.mem_filter.2 ⟨hnode, beq_iff_eq.2 hparent⟩, rfl⟩

theorem id_ne_root_of_parent {node : Node} (hnode : node ∈ graph.nodes) {parent : NodeId}
    (hparent : node.parent = some parent) : node.id ≠ root := by
  intro hid
  have hroot : graph.nodes[0]? = some node := by
    rw [← h.getElem?_of_mem hnode, hid]
    rfl
  rw [(h.hierarchy.root hroot).1] at hparent
  cases hparent

/-- The lists of the index are those of the children of the nodes. -/
theorem childIndex_eq :
    graph.childIndex = (List.range graph.nodes.length).map graph.children := by
  rw [h.index, childrenByParent]
  exact List.map_congr_left fun id _ => (h.children_eq id).symm

/-- All nodes but the root are in the index, each once. -/
theorem flatten_childIndex :
    graph.childIndex.flatten.Perm (List.range graph.nodes.length).tail := by
  have htail : ∀ id, id ∈ (List.range graph.nodes.length).tail ↔
      id < graph.nodes.length ∧ id ≠ root := by
    intro id
    rw [List.range_eq_range', List.tail_range', List.mem_range'_1, root]
    omega
  have hnodup : graph.childIndex.flatten.Nodup := by
    rw [h.childIndex_eq, List.nodup_flatten, List.pairwise_map]
    constructor
    · intro ids hids
      obtain ⟨id, -, rfl⟩ := List.mem_map.1 hids
      exact (h.pairwise_children id).imp Nat.ne_of_lt
    · -- A node has one parent.
      refine List.nodup_range.imp fun {i j} hne id hi hj => hne ?_
      rw [h.children_eq, List.mem_map] at hi
      obtain ⟨node, hnode, rfl⟩ := hi
      obtain ⟨hnode, hparent⟩ := List.mem_filter.1 hnode
      exact Option.some.inj ((beq_iff_eq.1 hparent).symm.trans ((h.mem_children_iff hnode).1 hj))
  refine (List.perm_ext_iff_of_nodup hnodup (List.nodup_range.sublist (List.tail_sublist _))).2
    fun id => ?_
  rw [htail, h.childIndex_eq, List.mem_flatten]
  constructor
  · rintro ⟨ids, hids, hid⟩
    obtain ⟨parent, -, rfl⟩ := List.mem_map.1 hids
    rw [h.children_eq, List.mem_map] at hid
    obtain ⟨node, hnode, rfl⟩ := hid
    obtain ⟨hnode, hparent⟩ := List.mem_filter.1 hnode
    exact ⟨(h.at_of_mem hnode).lt_length, h.id_ne_root_of_parent hnode (beq_iff_eq.1 hparent)⟩
  · rintro ⟨hlt, hne⟩
    have hnode : graph.nodes[id] ∈ graph.nodes := List.getElem_mem hlt
    have hid : graph.nodes[id].id = id := h.hierarchy.id_eq (List.getElem?_eq_getElem hlt)
    obtain ⟨parent, hparent, hsome, -⟩ := h.parent_of_mem hnode (hid.symm ▸ hne)
    refine ⟨graph.children parent.id, List.mem_map_of_mem ?_, ?_⟩
    · exact List.mem_range.2 (h.at_of_mem hparent).lt_length
    · have hmem := (h.mem_children_iff hnode).2 hsome
      rwa [hid] at hmem

theorem count_children {node : Node} (hnode : node ∈ graph.nodes) (id : NodeId) :
    (graph.children id).count node.id = if node.parent = some id then 1 else 0 := by
  have hnodup := (h.pairwise_children id).imp Nat.ne_of_lt
  split
  · next hparent => exact List.count_eq_one_of_mem hnodup ((h.mem_children_iff hnode).2 hparent)
  · next hparent =>
    exact List.count_eq_zero.2 fun hmem => hparent ((h.mem_children_iff hnode).1 hmem)

theorem eq_of_id {node other : Node} (hnode : node ∈ graph.nodes) (hother : other ∈ graph.nodes)
    (hid : node.id = other.id) : node = other :=
  Option.some.inj ((h.getElem?_of_mem hnode).symm.trans (hid ▸ h.getElem?_of_mem hother))

theorem id_of_parent_eq_none {node : Node} (hnode : node ∈ graph.nodes)
    (hparent : node.parent = none) : node.id = root := by
  by_contra hid
  obtain ⟨parent, -, hsome, -⟩ := h.parent_of_mem hnode hid
  rw [hparent] at hsome
  cases hsome

/-- A node is told by its parent and its key. -/
theorem eq_of_parent_key {node other : Node} (hnode : node ∈ graph.nodes)
    (hother : other ∈ graph.nodes) (hparent : node.parent = other.parent)
    (hkey : node.key = other.key) : node = other := by
  refine h.eq_of_id hnode hother ?_
  cases hp : node.parent with
  | none =>
    exact (h.id_of_parent_eq_none hnode hp).trans
      (h.id_of_parent_eq_none hother (hparent ▸ hp)).symm
  | some id =>
    obtain ⟨p, hpmem, hpid, -, hpath⟩ := h.parent_of_mem hnode (h.id_ne_root_of_parent hnode hp)
    obtain ⟨q, hqmem, hqid, -, hpath'⟩ :=
      h.parent_of_mem hother (h.id_ne_root_of_parent hother (hparent ▸ hp))
    rw [hpid, hqid] at hparent
    obtain rfl := h.eq_of_id hpmem hqmem (Option.some.inj hparent)
    have hat := h.at_of_mem hother
    rw [hpath', ← hkey, ← hpath] at hat
    exact (h.at_of_mem hnode).unique h hat

end Graph.WellFormed

/-! ## Targets -/

namespace Graph

theorem targets_resolved {graph : Graph} {edge : Edge} (h : edge ∈ graph.resolved.edges) :
    edge.targets = edge.descriptors.filterMap (graph.resolved.resolve? edge.source) := by
  obtain ⟨raw, -, rfl⟩ := List.mem_map.1 h
  exact List.filterMap_congr fun descriptor _ => (resolve?_edges graph _ _ descriptor).symm

end Graph

/-- The problems with what is pending are those with the descriptors of the edges. -/
theorem Builder.Consistent.problems {b : Builder} (h : b.Consistent []) :
    (b.pending.filterMap (·.problem? b.graph)).map
        (fun problem => (problem.kind, problem.path, problem.property)) =
      b.graph.resolved.failures := by
  -- A problem, but for its place, can be told from the edge and the descriptor alone.
  let report (edge : Edge) (descriptor : String) :
      Option (ProblemKind × StatePath × Option String) :=
    if (b.graph.resolve? edge.source descriptor).isNone then
      some (.unresolved, b.graph.pathOf edge.source, some descriptor)
    else none
  have hreport : ∀ p : Pending, (p.problem? b.graph).map
      (fun problem => (problem.kind, problem.path, problem.property)) =
        (b.graph.edge? p.edge).bind (report · p.descriptor) := by
    intro p
    rw [Pending.problem?, Option.map_bind]
    refine Option.bind_congr fun edge _ => ?_
    simp only [report, Function.comp_apply]
    cases b.graph.resolve? edge.source p.descriptor <;> rfl
  calc (b.pending.filterMap (·.problem? b.graph)).map
        (fun problem => (problem.kind, problem.path, problem.property))
    _ = b.pending.filterMap fun p => (b.graph.edge? p.edge).bind (report · p.descriptor) := by
        rw [List.map_filterMap]
        exact List.filterMap_congr fun p _ => hreport p
    _ = (b.pending.map fun p => (p.edge, p.descriptor)).filterMap
          fun v => (b.graph.edge? v.1).bind (report · v.2) := by
        rw [List.filterMap_map]
        rfl
    _ = b.edges.flatMap fun edge => edge.descriptors.filterMap (report edge) := by
        rw [h.pending, List.filterMap_flatMap]
        refine List.flatMap_congr fun edge hedge => ?_
        have hfound : b.graph.edge? edge.id = some edge := getElem?_of_map_eq_range h.edgeIds hedge
        rw [List.filterMap_map]
        refine List.filterMap_congr fun descriptor _ => ?_
        rw [Function.comp_apply, hfound, Option.bind_some]
    _ = b.graph.resolved.failures := by
        simp only [Graph.failures, Graph.resolved, Graph.resolve?_edges, ← List.filterMap_eq_map,
          List.filterMap_filter]
        rw [List.filterMap_eq_map, List.flatMap_map]
        rfl

/-! ## Handles, lists and implementations -/

namespace Builder.Consistent

variable {b : Builder} (h : b.Consistent [])

include h

theorem edgeIds_resolved :
    b.graph.resolved.edges.map (·.id) = List.range b.graph.resolved.edges.length := by
  have hlength : b.graph.resolved.edges.length = b.edges.length := List.length_map _
  rw [hlength, ← h.edgeIds]
  exact List.map_map

/-- The lists hold each block once. -/
theorem flatten_blockLists :
    b.graph.resolved.blockLists.flatten.Perm (List.range b.graph.resolved.blocks.length) := by
  refine List.Perm.trans (List.Perm.of_eq ?_) h.owned
  rw [Graph.blockLists, Graph.resolved, List.flatten_eq_flatMap, List.flatMap_append,
    List.flatMap_assoc, List.flatMap_assoc, List.flatMap_map, List.nil_append, Builder.owned]
  refine congrArg₂ (· ++ ·) (List.flatMap_congr fun node _ => ?_)
    (List.flatMap_congr fun edge _ => ?_)
  · simp [Node.blockIds]
  · simp [Edge.blockIds]

/-- The implementations of a kind are those of the blocks. -/
theorem registry (kind : BlockKind) :
    ((b.graph.resolved.registry kind).map (·.id)).Nodup ∧
      ∀ id, id ∈ (b.graph.resolved.registry kind).map (·.id) ↔
        ∃ block ∈ b.graph.resolved.blocks, block.kind = kind ∧ block.sourceId = id := by
  have hmem : ∀ entry, entry ∈ b.graph.resolved.registry kind ↔
      entry ∈ b.implementations ∧ entry.kind = kind := by
    intro entry
    rw [Graph.registry, List.mem_mergeSort, List.mem_filter, beq_iff_eq]
    rfl
  constructor
  · have hnodup : (b.graph.resolved.registry kind).Nodup :=
      (List.mergeSort_perm _ _).nodup_iff.2 ((List.Nodup.of_map _ h.distinct).filter _)
    refine List.Nodup.map_on (fun entry hentry other hother hid => ?_) hnodup
    obtain ⟨hentry, hkind⟩ := (hmem entry).1 hentry
    obtain ⟨hother, hkind'⟩ := (hmem other).1 hother
    exact List.inj_on_of_nodup_map h.distinct hentry hother
      (Prod.ext (hkind.trans hkind'.symm) hid)
  · intro id
    rw [List.mem_map]
    refine Iff.trans ?_ (h.registered kind id)
    constructor
    · rintro ⟨entry, hentry, hid⟩
      exact ⟨entry, ((hmem entry).1 hentry).1, ((hmem entry).1 hentry).2, hid⟩
    · rintro ⟨entry, hentry, hkind, hid⟩
      exact ⟨entry, (hmem entry).2 ⟨hentry, hkind⟩, hid⟩

end Builder.Consistent

/-! ## Edges and blocks -/

/-- The blocks of a list come in the order of what they were made from. -/
theorem Builder.Lists.positions {final : Builder} {kind : BlockKind} {parent : BlockParent}
    {references : List (Indexed Reference)} {ids : List BlockId}
    (h : final.Lists 0 kind parent references ids)
    (hascending : (references.map (·.1)).Pairwise (· < ·)) :
    ids.Pairwise fun i j => ∀ a b, final.blocks[i]? = some a → final.blocks[j]? = some b →
      a.listIndex < b.listIndex := by
  have hblocks := h.blocks
  clear h
  induction hblocks with
  | nil => exact .nil
  | @cons entry id entries ids hholds hrest ih =>
    rw [List.map_cons, List.pairwise_cons] at hascending
    refine List.pairwise_cons.2 ⟨fun other hother a b ha hb => ?_, ih hascending.2⟩
    obtain ⟨block, hblock, -, -, hindex, -⟩ := hholds
    obtain rfl := Option.some.inj (hblock.symm.trans ha)
    obtain ⟨k, hk⟩ := List.mem_iff_getElem?.1 hother
    rcases forall₂_getElem? hrest k with ⟨-, hnone⟩ | ⟨entry', id', hentry', hid', hholds'⟩
    · rw [hnone] at hk
      cases hk
    · obtain rfl := Option.some.inj (hid'.symm.trans hk)
      obtain ⟨block', hblock', -, -, hindex', -⟩ := hholds'
      obtain rfl := Option.some.inj (hblock'.symm.trans hb)
      rw [hindex, hindex']
      exact hascending.1 _ (List.mem_map_of_mem (List.mem_of_getElem? hentry'))

theorem Builder.Lists.parent_of_mem {final : Builder} {kind : BlockKind} {parent : BlockParent}
    {references : List (Indexed Reference)} {ids : List BlockId}
    (h : final.Lists 0 kind parent references ids) {id : BlockId} (hid : id ∈ ids) :
    ∃ block, final.blocks[id]? = some block ∧ block.parent = parent := by
  obtain ⟨k, hk⟩ := List.mem_iff_getElem?.1 hid
  rcases forall₂_getElem? h.blocks k with ⟨-, hnone⟩ | ⟨entry, id', -, hid', hholds⟩
  · rw [hnone] at hk
    cases hk
  · obtain rfl := Option.some.inj (hid'.symm.trans hk)
    obtain ⟨block, hblock, -, hparent, -⟩ := hholds
    exact ⟨block, hblock, hparent⟩

/-- Actions and invocations are read in the order in which they are written. -/
theorem ascending_infosOf {config : Expr} {info : StateInfo} (h : info ∈ infosOf config) :
    (info.entry.map (·.1)).Pairwise (· < ·) ∧ (info.exit.map (·.1)).Pairwise (· < ·) ∧
      ((Builder.invoked info.invocations).map (·.1)).Pairwise (· < ·) ∧
      ∀ t ∈ info.allTransitions, (t.actions.map (·.1)).Pairwise (· < ·) := by
  rcases infosOf_cases h with ⟨rootId, key, span, props, heq⟩ | ⟨hentry, hexit, hinvoke, hrest⟩
  · rw [heq]
    refine ⟨(referencesIn_readStateActions _ props _ _).ascending,
      (referencesIn_readStateActions _ props _ _).ascending,
      (referencesIn_readInvocations _ _ props).ascending, fun t ht => ?_⟩
    obtain ⟨item, -, -, -, -, -, hactions⟩ := exists_item_of_mem ht
    exact hactions.ascending
  · rw [hentry, hexit, StateInfo.allTransitions, hinvoke, hrest]
    exact ⟨.nil, .nil, .nil, fun t ht => absurd ht List.not_mem_nil⟩

section

variable (config : Expr) (options setup : Option Expr)

/-- Edges come in the order of their sources. -/
theorem pairwise_sources :
    ((extract config options setup).graph.edges.map (·.source)).Pairwise (· ≤ ·) := by
  have hview := congrArg (List.map fun v : NodeId × TransitionPath × List String => v.1)
    (edges_extract config options setup)
  rw [List.map_map] at hview
  refine (show _ = _ from hview) ▸ ?_
  rw [Builder.edgesFrom, List.map_flatMap, List.pairwise_flatMap]
  constructor
  · rintro ⟨info, id⟩ -
    rw [List.map_map, List.pairwise_map]
    exact List.pairwise_of_forall fun _ _ => Nat.le_refl id
  · have hindex : ((infosOf config).zipIdx.map (·.2)).Pairwise (· < ·) := by
      rw [List.zipIdx_map_snd]
      exact List.pairwise_lt_range'
    refine (List.pairwise_map.1 hindex).imp fun {a b} hab x hx y hy => ?_
    simp only [List.map_map, List.mem_map] at hx hy
    obtain ⟨t, -, rfl⟩ := hx
    obtain ⟨t', -, rfl⟩ := hy
    exact Nat.le_of_lt hab

theorem edgeIds_extract : (extract config options setup).graph.edges.map (·.id) =
    List.range (extract config options setup).graph.edges.length := by
  rw [extract_eq]
  exact (consistent_build config options setup).edgeIds_resolved

theorem blockIds_extract : (extract config options setup).graph.blocks.map (·.id) =
    List.range (extract config options setup).graph.blocks.length := by
  rw [extract_eq]
  exact (consistent_build config options setup).blockIds

/-- The lists hold each block once. -/
theorem blockLists_extract : (extract config options setup).graph.blockLists.flatten.Perm
    (List.range (extract config options setup).graph.blocks.length) := by
  rw [extract_eq]
  exact (consistent_build config options setup).flatten_blockLists

theorem block?_extract (id : BlockId) : (extract config options setup).graph.block? id =
    (build config options setup).blocks[id]? :=
  congrArg (·[id]?) (blocks_extract config options setup)

theorem exists_info_of_mem_nodes {node : Node}
    (h : node ∈ (extract config options setup).graph.nodes) :
    ∃ info ∈ infosOf config, (build config options setup).MadeFromState info node := by
  obtain ⟨info, hinfo, hmade⟩ := madeFromState_extract options setup
    ((extract_wellFormed config options setup).getElem?_of_mem h)
  exact ⟨info, List.mem_of_getElem? hinfo, hmade⟩

/-- The blocks in the lists of a node are of that node. -/
theorem parent_of_mem_node {node : Node} (h : node ∈ (extract config options setup).graph.nodes)
    {id : BlockId} (hid : id ∈ node.entry ++ node.exit ++ node.invoke) :
    ∃ block, (extract config options setup).graph.block? id = some block ∧
      block.parent = .node node.id := by
  obtain ⟨info, -, hmade⟩ := exists_info_of_mem_nodes config options setup h
  rw [block?_extract]
  rcases List.mem_append.1 hid with hid | hid
  · rcases List.mem_append.1 hid with hid | hid
    · exact hmade.entry.parent_of_mem hid
    · exact hmade.exit.parent_of_mem hid
  · exact hmade.invoke.parent_of_mem hid

/-- The guard of an edge and its actions are of that edge. -/
theorem parent_of_mem_edge {edge : Edge} (h : edge ∈ (extract config options setup).graph.edges)
    {id : BlockId} (hid : id ∈ edge.guard.toList ++ edge.actions) :
    ∃ block, (extract config options setup).graph.block? id = some block ∧
      block.parent = .edge edge.id := by
  obtain ⟨info, t, -, -, hmade⟩ := madeFrom_extract options setup h
  rw [block?_extract]
  rcases List.mem_append.1 hid with hid | hid
  · exact hmade.guard.parent_of_mem hid
  · exact hmade.actions.parent_of_mem hid

/-- In each list, blocks come in the order in which they are written. -/
theorem positions_blockLists {ids : List BlockId}
    (h : ids ∈ (extract config options setup).graph.blockLists) :
    ids.Pairwise fun i j => ∀ a b, (extract config options setup).graph.block? i = some a →
      (extract config options setup).graph.block? j = some b → a.listIndex < b.listIndex := by
  simp only [block?_extract]
  -- The lists are those of states and of transitions, and each is read in order.
  rcases List.mem_append.1 h with h | h
  · obtain ⟨node, hnode, hids⟩ := List.mem_flatMap.1 h
    obtain ⟨info, hinfo, hmade⟩ := exists_info_of_mem_nodes config options setup hnode
    obtain ⟨hentry, hexit, hinvoke, -⟩ := ascending_infosOf hinfo
    simp only [List.mem_cons, List.not_mem_nil, or_false] at hids
    rcases hids with rfl | rfl | rfl
    · exact hmade.entry.positions hentry
    · exact hmade.exit.positions hexit
    · exact hmade.invoke.positions hinvoke
  · obtain ⟨edge, hedge, hids⟩ := List.mem_flatMap.1 h
    obtain ⟨info, t, hinfo, ht, hmade⟩ := madeFrom_extract options setup hedge
    simp only [List.mem_cons, List.not_mem_nil, or_false] at hids
    rcases hids with rfl | rfl
    · exact hmade.guard.positions (by cases t.guard <;> simp)
    · exact hmade.actions.positions
        ((ascending_infosOf (List.mem_of_getElem? hinfo)).2.2.2 t ht)

/-- What is extracted is sound, whatever the description. -/
theorem extract_sound : (extract config options setup).Sound := by
  have hgraph := extract_wellFormed config options setup
  have hbuilt := consistent_build config options setup
  constructor
  case nodeIds => exact hgraph.nodeIds
  case edgeIds => exact edgeIds_extract config options setup
  case blockIds => exact blockIds_extract config options setup
  case root =>
    obtain ⟨node, hroot, hpath⟩ := Graph.at_root hgraph
    exact ⟨node, hroot, (hgraph.hierarchy.root hroot).1, hpath⟩
  case parents => exact fun node hnode hid => hgraph.parent_of_mem hnode hid
  case index => exact ⟨by rw [hgraph.index, length_childrenByParent], hgraph.flatten_childIndex⟩
  case children => exact fun node hnode id => hgraph.count_children hnode id
  case ascending => exact hgraph.pairwise_children
  case siblings =>
    exact fun node hnode other hother hparent hkey =>
      hgraph.eq_of_parent_key hnode hother hparent hkey
  case nodeAt =>
    exact fun node hnode => (Graph.nodeAt?_eq_some_iff hgraph).2 (hgraph.at_of_mem hnode)
  case sources => exact ⟨pairwise_sources config options setup, hgraph.sources⟩
  case places =>
    exact fun edge hedge other hother hsource hpath =>
      List.inj_on_of_nodup_map (nodup_places_edges options setup config) hedge hother
        (Prod.ext hsource hpath)
  -- What the loop over pending targets comes to is said by `extract_eq`.
  case targets =>
    intro edge hedge
    rw [extract_eq] at hedge ⊢
    exact Graph.targets_resolved hedge
  case problems =>
    rw [extract_eq]
    exact ⟨_, _, rfl, ofForm_readMachine config, hbuilt.problems⟩
  case blocks => exact blockLists_extract config options setup
  case nodeBlocks => exact fun node hnode id => parent_of_mem_node config options setup hnode
  case edgeBlocks => exact fun edge hedge id => parent_of_mem_edge config options setup hedge
  case positions => exact fun ids => positions_blockLists config options setup
  case registry =>
    rw [extract_eq]
    exact fun kind => hbuilt.registry kind

end

end Statechart
