import Statechart.Proofs.BlockAddresses
import Statechart.Proofs.Editors
import Statechart.Proofs.Retargeting

/-!
# Addresses of the graph and of the description

The graph of a description and the functions that edits find their way in it with are two
readings of the same tree. They agree: what has an address in one has it in the other, and is the
same there.

* `Graph.AgreesWith`: the addresses of a graph and those of a description;
* `extract_agreesWith`: they agree in the graph of every description, with keys written twice,
  old keywords next to their successors and entries that are not understood.
-/

namespace Statechart

open Property Draft

/-! ## Extracted graphs -/

section

variable (config : Expr) (options setup : Option Expr)

/-- The names that are given to what is written in place when the walk over a description is
    over. -/
def inlineNames : InlineNames :=
  (walk config options setup).names

theorem inlineNames_eq :
    inlineNames config options setup = (build config options setup).names := by
  rw [inlineNames, walk_eq]
  rfl

variable {config}

/-- A node is made from the state that was read at its position. -/
theorem madeFromState_extract {i : NodeId} {node : Node}
    (h : (extract config options setup).graph.nodes[i]? = some node) :
    ∃ info, (infosOf config)[i]? = some info ∧
      (build config options setup).MadeFromState info node := by
  obtain ⟨nodes, hnodes, hmade⟩ :=
    (Builder.addTree_adds (declaredNames options setup) none (readMachine config).1 {}).nodes
  have hnode : nodes[i]? = some node := by
    rw [extract_eq] at h
    rw [← h]
    exact congrArg (·[i]?) hnodes.symm
  rcases forall₂_getElem? (hmade _ (.refl _)) i with ⟨-, hnone⟩ | ⟨info, node', hinfo, hnode', hm⟩
  · rw [hnone] at hnode
    cases hnode
  · obtain rfl := Option.some.inj (hnode'.symm.trans hnode)
    exact ⟨info, hinfo, hm⟩

/-- An edge is made from the transition that was read at its position. -/
theorem madeFrom_extract_at {k : Nat} {edge : Edge}
    (h : (extract config options setup).graph.edges[k]? = some edge) :
    ∃ info t, (infosOf config)[edge.source]? = some info ∧ t ∈ info.allTransitions ∧
      ((infosOf config).flatMap StateInfo.allTransitions)[k]? = some t ∧
      (build config options setup).MadeFrom edge.source t edge := by
  obtain ⟨edges, hedges, hmade⟩ :=
    (Builder.addTree_adds (declaredNames options setup) none (readMachine config).1 {}).edges
  rw [extract_eq, Graph.resolved, List.getElem?_map] at h
  obtain ⟨raw, hk, rfl⟩ := Option.map_eq_some_iff.1 h
  have hk : edges[k]? = some raw := hk ▸ congrArg (·[k]?) hedges.symm
  rcases forall₂_getElem? (hmade _ (.refl _)) k with
    ⟨-, hnone⟩ | ⟨⟨source, t⟩, raw', ht, hraw', hm⟩
  · rw [hnone] at hk
    cases hk
  obtain rfl := Option.some.inj (hraw'.symm.trans hk)
  have htransitions : (Builder.transitionsFrom 0 (infosOf config)).map (·.2) =
      (infosOf config).flatMap StateInfo.allTransitions := by
    rw [Builder.transitionsFrom, List.map_flatMap]
    simp only [List.map_map, Function.comp_def, List.map_id']
    rw [← List.flatMap_map, List.zipIdx_map_fst]
  have hread := congrArg (Option.map (·.2)) ht
  rw [← List.getElem?_map] at hread
  obtain ⟨⟨info, id⟩, hinfo, hmemt⟩ := List.mem_flatMap.1 (List.mem_of_getElem? ht)
  obtain ⟨t', ht', heq⟩ := List.mem_map.1 hmemt
  cases heq
  obtain ⟨hsource, hpath, hdescriptors, hspan, hinternal, hguard, hactions⟩ := hm
  refine ⟨info, t, ?_, ht', htransitions ▸ hread,
    ⟨rfl, hpath, hdescriptors, hspan, hinternal, hguard, hactions⟩⟩
  dsimp only
  rw [hsource]
  exact List.mk_mem_zipIdx_iff_getElem?.1 hinfo

/-- An edge is made from a transition that was read of its state. -/
theorem madeFrom_extract {edge : Edge} (h : edge ∈ (extract config options setup).graph.edges) :
    ∃ info t, (infosOf config)[edge.source]? = some info ∧ t ∈ info.allTransitions ∧
      (build config options setup).MadeFrom edge.source t edge := by
  obtain ⟨k, hk⟩ := List.mem_iff_getElem?.1 h
  obtain ⟨info, t, hinfo, ht, -, hmade⟩ := madeFrom_extract_at options setup hk
  exact ⟨info, t, hinfo, ht, hmade⟩

/-- A node is at the path of a state, and made from what was read of it. -/
theorem exists_infoOf_node (hconfig : config.isObject = true) {node : Node}
    (h : node ∈ (extract config options setup).graph.nodes) :
    ∃ rootId key span props, stateProps? config node.path = some props ∧
      (build config options setup).MadeFromState
        (infoOf rootId key node.path span props) node := by
  obtain ⟨i, hi⟩ := List.mem_iff_getElem?.1 h
  obtain ⟨info, hinfo, hmade⟩ := madeFromState_extract options setup hi
  obtain ⟨origin, top, rfl⟩ := Expr.exists_of_isObject hconfig
  obtain ⟨key, span, props, hprops, heq⟩ := mem_infosOf (List.mem_of_getElem? hinfo)
  rw [← hmade.path] at hprops heq
  exact ⟨_, key, span, props, hprops, heq ▸ hmade⟩

/-- An edge is on a state, and made from a transition that was read of it. -/
theorem exists_infoOf_edge (hconfig : config.isObject = true) {edge : Edge}
    (h : edge ∈ (extract config options setup).graph.edges) :
    ∃ rootId key path span props t, stateProps? config path = some props ∧
      (extract config options setup).graph.pathOf edge.source = path ∧
      t ∈ (infoOf rootId key path span props).allTransitions ∧
      (build config options setup).MadeFrom
        edge.source t edge := by
  obtain ⟨info, t, hinfo, ht, hmade⟩ := madeFrom_extract options setup h
  obtain ⟨origin, top, rfl⟩ := Expr.exists_of_isObject hconfig
  obtain ⟨key, span, props, hprops, heq⟩ := mem_infosOf (List.mem_of_getElem? hinfo)
  exact ⟨_, key, info.path, span, props, t, hprops,
    (pathOf_extract options setup hinfo).pathOf_eq, heq ▸ ht, hmade⟩

/-- A transition of a state was read of the item at its place. -/
theorem exists_item_of_info (hconfig : config.isObject = true) {source : NodeId}
    {info : StateInfo} {t : Transition} (hinfo : (infosOf config)[source]? = some info)
    (ht : t ∈ info.allTransitions) :
    ∃ item, itemAt? config ((extract config options setup).graph.pathOf source) t.path =
        some item ∧
      t.descriptors = targets item ∧ t.span = item.span ∧
      t.guard = (guardExpr? item).bind (Reference.shape .guard).value? ∧
      ReferencesIn .action (OneOrMany.item? (itemProps item) "actions") t.actions := by
  obtain ⟨origin, top, rfl⟩ := Expr.exists_of_isObject hconfig
  obtain ⟨key, span, props, hprops, heq⟩ := mem_infosOf (List.mem_of_getElem? hinfo)
  rw [heq] at ht
  obtain ⟨item, hitem, -, hread⟩ := exists_item_of_mem ht
  refine ⟨item, ?_, hread⟩
  rw [(pathOf_extract options setup hinfo).pathOf_eq, itemAt?, hprops]
  exact hitem

/-- An edge is at the address of an item, and made from what was read of it. -/
theorem exists_item_edge (hconfig : config.isObject = true) {edge : Edge}
    (h : edge ∈ (extract config options setup).graph.edges) :
    ∃ item t, itemAt? config ((extract config options setup).graph.pathOf edge.source) edge.path =
        some item ∧
      (build config options setup).MadeFrom
        edge.source t edge ∧
      t.descriptors = targets item ∧ t.span = item.span ∧
      t.guard = (guardExpr? item).bind (Reference.shape .guard).value? ∧
      ReferencesIn .action (OneOrMany.item? (itemProps item) "actions") t.actions := by
  obtain ⟨info, t, hinfo, ht, hmade⟩ := madeFrom_extract options setup h
  obtain ⟨item, hitem, hread⟩ := exists_item_of_info options setup hconfig hinfo ht
  exact ⟨item, t, hmade.path.symm ▸ hitem, hmade, hread⟩

end

namespace Draft

theorem transition_eq_ok {config : Expr} {path : StatePath} {place : TransitionPath}
    {item : Expr} :
    transition config path place = .ok item ↔ itemAt? config path place = some item := by
  rw [transition, state, itemAt?]
  cases stateProps? config path with
  | none => simp [bind, Except.bind]
  | some props =>
    simp only [bind, Except.bind, Option.bind_some, itemIn?]
    cases transitionIn? props place with
    | none => simp [throw, throwThe, MonadExceptOf.throw]
    | some found => simp [pure, Except.pure]

end Draft

theorem isTransition_iff {item : Expr} :
    isTransition item = true ↔ item.text?.isSome ∨ item.isNullish ∨ item.isObject := by
  cases item <;> simp [isTransition, TransitionItem.ofExpr?, Expr.text?, Expr.isNullish,
    Expr.isObject, Expr.props?]

namespace Graph

variable {graph : Graph} {source : NodeId} {place : TransitionPath}

theorem mem_of_edgeAt? {edge : Edge} (h : graph.edgeAt? source place = some edge) :
    edge ∈ graph.edges ∧ edge.source = source ∧ edge.path = place := by
  have hplace := List.find?_some h
  obtain ⟨hmem, hsource⟩ := List.mem_filter.1 (List.mem_of_find?_eq_some h)
  exact ⟨hmem, beq_iff_eq.1 hsource, beq_iff_eq.1 hplace⟩

theorem isSome_edgeAt?_iff : (graph.edgeAt? source place).isSome ↔
    ∃ edge ∈ graph.edges, edge.source = source ∧ edge.path = place := by
  constructor
  · intro h
    obtain ⟨edge, hedge⟩ := Option.isSome_iff_exists.1 h
    exact ⟨edge, mem_of_edgeAt? hedge⟩
  · rintro ⟨edge, hmem, rfl, rfl⟩
    rw [edgeAt?, List.find?_isSome]
    exact ⟨edge, List.mem_filter.2 ⟨hmem, beq_self_eq_true _⟩, beq_self_eq_true _⟩

/-- The addresses of a graph are those of a description: states by their paths, transitions by
    their places, and blocks by their positions in the lists that they are written in. -/
structure AgreesWith (graph : Graph) (names : InlineNames) (config : Expr) : Prop where
  /-- A state is written at a path just if there is a node. -/
  states : ∀ path, (∃ props, state config path = .ok props) ↔ (graph.nodeAt? path).isSome
  /-- A string, an object or nothing is written at a place of a state just if there is an
      edge. -/
  transitions : ∀ node ∈ graph.nodes, ∀ place,
    (∃ item, transition config node.path place = .ok item ∧
      (item.text?.isSome ∨ item.isNullish ∨ item.isObject)) ↔
      (graph.edgeAt? node.id place).isSome
  /-- The edge has the targets of the item and its place in the source. -/
  edges : ∀ node ∈ graph.nodes, ∀ place item edge, transition config node.path place = .ok item →
    graph.edgeAt? node.id place = some edge →
    targets item = edge.descriptors ∧ item.span = edge.span
  entry : ∀ node ∈ graph.nodes, ∀ props, state config node.path = .ok props →
    graph.Realizes names .action (.node node.id)
      (fun index => (effectiveKey? props "entry" "onEntry").bind (OneOrMany.item? props · index))
      node.entry
  exit : ∀ node ∈ graph.nodes, ∀ props, state config node.path = .ok props →
    graph.Realizes names .action (.node node.id)
      (fun index => (effectiveKey? props "exit" "onExit").bind (OneOrMany.item? props · index))
      node.exit
  invoke : ∀ node ∈ graph.nodes, ∀ props, state config node.path = .ok props →
    graph.Realizes names .actor (.node node.id)
      (fun index => (OneOrMany.item? props "invoke" index).bind fun item =>
        item.props?.bind (value? · "src"))
      node.invoke
  actions : ∀ edge ∈ graph.edges, ∀ item,
    transition config (graph.pathOf edge.source) edge.path = .ok item →
    graph.Realizes names .action (.edge edge.id) (OneOrMany.item? (itemProps item) "actions")
      edge.actions
  /-- A guard is alone, at the first position. -/
  guard : ∀ edge ∈ graph.edges, ∀ item,
    transition config (graph.pathOf edge.source) edge.path = .ok item →
    graph.Realizes names .guard (.edge edge.id)
      (fun index => if index = 0 then guardExpr? item else none) edge.guard.toList

end Graph

theorem referencesIn_guard (item : Expr) :
    ReferencesIn .guard (fun index => if index = 0 then guardExpr? item else none)
      (((guardExpr? item).bind (Reference.shape .guard).value?).toList.map (0, ·)) := by
  constructor
  · intro index reference
    cases hguard : guardExpr? item with
    | none => simp
    | some expr =>
      cases index with
      | zero => simp [eq_comm]
      | succ index => simp
  · cases (guardExpr? item).bind (Reference.shape .guard).value? <;> simp

section

variable {config : Expr} (options setup : Option Expr) (hconfig : config.isObject = true)
  {node : Node} (hnode : node ∈ (extract config options setup).graph.nodes)

include hnode

theorem at_of_mem_nodes : (extract config options setup).graph.At node.id node.path :=
  (extract_wellFormed config options setup).at_of_mem hnode

include hconfig

/-- A state has an edge at the places where it has an item that is a transition. -/
theorem isSome_edgeAt?_extract_iff (place : TransitionPath) :
    ((extract config options setup).graph.edgeAt? node.id place).isSome ↔
      ∃ item, itemAt? config node.path place = some item ∧ isTransition item = true := by
  have hgraph := extract_wellFormed config options setup
  have hat := at_of_mem_nodes options setup hnode
  have haddress : ∀ edge ∈ (extract config options setup).graph.edges,
      (extract config options setup).graph.address edge = (node.path, place) ↔
        edge.source = node.id ∧ edge.path = place := by
    intro edge hedge
    rw [Graph.address, Prod.mk.injEq]
    refine and_congr_left fun _ => ⟨fun hpath => ?_, fun hsource => hsource ▸ hat.pathOf_eq⟩
    exact Graph.At.unique hgraph (hpath ▸ Graph.at_pathOf (hgraph.sources edge hedge)) hat
  rw [Graph.isSome_edgeAt?_iff]
  constructor
  · rintro ⟨edge, hedge, hplace⟩
    obtain ⟨item, hitem, hform, -⟩ := (exists_edge_iff options setup hconfig).1
      ⟨edge, hedge, (haddress edge hedge).2 hplace, rfl⟩
    exact ⟨item, hitem, hform⟩
  · rintro ⟨item, hitem, hform⟩
    obtain ⟨edge, hedge, hplace, -⟩ := (exists_edge_iff options setup hconfig).2
      (show HasTransition config (node.path, place) (targets item) from ⟨item, hitem, hform, rfl⟩)
    exact ⟨edge, hedge, (haddress edge hedge).1 hplace⟩

/-- The edge at a place has the targets of the item there, and its place in the source. -/
theorem descriptors_of_edgeAt? {place : TransitionPath} {item : Expr} {edge : Edge}
    (hitem : itemAt? config node.path place = some item)
    (hedge : (extract config options setup).graph.edgeAt? node.id place = some edge) :
    targets item = edge.descriptors ∧ item.span = edge.span := by
  obtain ⟨hmem, hsource, rfl⟩ := Graph.mem_of_edgeAt? hedge
  obtain ⟨item', t, hitem', hmade, hdescriptors, hspan, -⟩ :=
    exists_item_edge options setup hconfig hmem
  rw [hsource, (at_of_mem_nodes options setup hnode).pathOf_eq] at hitem'
  obtain rfl := Option.some.inj (hitem'.symm.trans hitem)
  exact ⟨hdescriptors.symm.trans hmade.descriptors.symm, hspan.symm.trans hmade.span.symm⟩

end

/-- The addresses of the graph and those of the description agree, for every description that is
    an object literal. -/
theorem extract_agreesWith (config : Expr) (options setup : Option Expr)
    (hconfig : config.isObject = true) :
    (extract config options setup).graph.AgreesWith (inlineNames config options setup) config := by
  have hgraph := extract_wellFormed config options setup
  have hblocks : (extract config options setup).graph.blocks =
      (build config options setup).blocks := by
    rw [extract_eq]
    rfl
  have hstate : ∀ {node : Node} {props : List Property},
      node ∈ (extract config options setup).graph.nodes → state config node.path = .ok props →
      ∃ rootId key span, (build config options setup).MadeFromState
        (infoOf rootId key node.path span props) node := by
    intro node props hnode hprops
    obtain ⟨rootId, key, span, props', hprops', hmade⟩ :=
      exists_infoOf_node options setup hconfig hnode
    obtain rfl := Option.some.inj (hprops'.symm.trans (state_eq_ok.1 hprops))
    exact ⟨rootId, key, span, hmade⟩
  rw [inlineNames_eq]
  refine ⟨fun path => ?_, fun node hnode place => ?_, fun node hnode place item edge hitem hedge =>
    ?_, fun node hnode props hprops => ?_, fun node hnode props hprops => ?_,
    fun node hnode props hprops => ?_, fun edge hedge item hitem => ?_,
    fun edge hedge item hitem => ?_⟩
  · simp only [state_eq_ok, Option.isSome_iff_exists, Graph.nodeAt?_eq_some_iff hgraph]
    exact Option.isSome_iff_exists.symm.trans (has_extract_iff options setup hconfig).symm
  · simp only [transition_eq_ok, isSome_edgeAt?_extract_iff options setup hconfig hnode,
      isTransition_iff]
  · exact descriptors_of_edgeAt? options setup hconfig hnode (transition_eq_ok.1 hitem) hedge
  · obtain ⟨rootId, key, span, hmade⟩ := hstate hnode hprops
    exact hmade.entry.realizes (referencesIn_readStateActions _ _ _ _) hblocks
  · obtain ⟨rootId, key, span, hmade⟩ := hstate hnode hprops
    exact hmade.exit.realizes (referencesIn_readStateActions _ _ _ _) hblocks
  · obtain ⟨rootId, key, span, hmade⟩ := hstate hnode hprops
    exact hmade.invoke.realizes (referencesIn_readInvocations _ _ _) hblocks
  · obtain ⟨item', t, hitem', hmade, -, -, -, hactions⟩ :=
      exists_item_edge options setup hconfig hedge
    obtain rfl := Option.some.inj (hitem'.symm.trans (transition_eq_ok.1 hitem))
    exact hmade.actions.realizes hactions hblocks
  · obtain ⟨item', t, hitem', hmade, -, -, hguard, -⟩ :=
      exists_item_edge options setup hconfig hedge
    obtain rfl := Option.some.inj (hitem'.symm.trans (transition_eq_ok.1 hitem))
    have hlists := hmade.guard
    rw [hguard] at hlists
    exact hlists.realizes (referencesIn_guard _) hblocks

/-- A description with a spread, keys written twice, old keywords next to their successors, and
    entries that are not understood: the blocks are at the positions of those that are. -/
theorem extract_agreesWith_shadowed : ∃ editor,
    Editor.ofText? "createMachine(\x7b...base, onEntry: 'old', entry: [0, run],
      on: \x7bGO: 'a', GO: [7, \x7bcond: 'old', guard: 'new'\x7d]\x7d,
      states: \x7ba: 0, a: \x7binvoke: [\x7b\x7d, \x7bsrc: 'load'\x7d]\x7d\x7d\x7d)" [] =
        some editor ∧
    editor.draft.isObject = true ∧
    (extract editor.draft none none).graph.blocks.map (fun b => (b.sourceId, b.listIndex)) =
      [("inline:action-0", 1), ("new", 0), ("load", 1)] ∧
    (extract editor.draft none none).graph.edges.map (fun edge => (edge.source, edge.path)) =
      [(0, ⟨.on "GO", 1⟩)] ∧
    (extract editor.draft none none).graph.AgreesWith (inlineNames editor.draft none none)
      editor.draft := by
  have hfound : (Editor.ofText? "createMachine(\x7b...base, onEntry: 'old', entry: [0, run],
      on: \x7bGO: 'a', GO: [7, \x7bcond: 'old', guard: 'new'\x7d]\x7d,
      states: \x7ba: 0, a: \x7binvoke: [\x7b\x7d, \x7bsrc: 'load'\x7d]\x7d\x7d\x7d)" []).any
      (fun editor => editor.draft.isObject &&
        ((extract editor.draft none none).graph.blocks.map (fun b => (b.sourceId, b.listIndex)) =
          [("inline:action-0", 1), ("new", 0), ("load", 1)] &&
        (extract editor.draft none none).graph.edges.map (fun edge => (edge.source, edge.path)) =
          [(0, ⟨.on "GO", 1⟩)])) = true := by
    decide +kernel
  obtain ⟨editor, heditor, h⟩ := (Option.any_eq_true _ _).1 hfound
  rw [Bool.and_eq_true, Bool.and_eq_true, decide_eq_true_eq, decide_eq_true_eq] at h
  exact ⟨editor, heditor, h.1, h.2.1, h.2.2, extract_agreesWith editor.draft none none h.1⟩

end Statechart
