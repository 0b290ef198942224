import Statechart.Graph.Extraction
import Statechart.Proofs.TransitionsRead

/-!
# Graphs of trees

The graph of a tree of states is built from it without looking back: each state adds its blocks,
then its edges and then its node. What the walk over a description fills as it goes is said of the
graph as a whole here: the children of a node are the nodes that have it as their parent, and the
targets of an edge are what its descriptors stand for.

* `Builder`: the graph so far; a handle is a position in it;
* `Graph.resolved`, `Pending.problem?`: the graph with all targets, and the problems with those that
  stand for no state.
-/

namespace Statechart

/-- The children of each node: the nodes that have it as their parent. -/
def childrenByParent (nodes : List Node) : List (List NodeId) :=
  (List.range nodes.length).map fun id => (nodes.filter (·.parent == some id)).map (·.id)

/-- A graph in the making. -/
structure Builder where
  nodes : List Node := []
  edges : List Edge := []
  blocks : List Block := []
  implementations : List Implementation := []
  names : InlineNames := {}
  pending : List Pending := []

namespace Builder

variable (declared : Declared)

/-- Registers an implementation, unless one of its kind and id is registered. -/
def register (b : Builder) (entry : Implementation) : Builder :=
  if b.implementations.any fun e => e.kind == entry.kind && e.id == entry.id then b
  else { b with implementations := b.implementations ++ [entry] }

/-- Adds a block, and names what is written in place; an invocation has an id. -/
def addBlock (b : Builder) (kind : BlockKind) (parent : BlockParent) (reference : Reference)
    (invocation : Option String) (listIndex : Nat) : BlockId × Builder :=
  let (sourceId, names) := b.names.identify kind reference
  let (name, inline, params) :=
    match reference with
    | .named name params => (name, false, params)
    | .builtin creator _ => (creator, true, none)
    | .inline _ => (sourceId, true, none)
  let isDeclared := !inline && declared.contains (kind, name)
  let b := { b with names }.register
    { id := sourceId, name, kind, inline, declared := isDeclared }
  let detail : BlockDetail :=
    match invocation with
    | some id => .invocation id
    | none => .params params
  let id := b.blocks.length
  (id, { b with blocks := b.blocks ++ [{ id := id, parent, sourceId, kind, detail, listIndex }] })

/-- Adds a list of actions. -/
def addActions (parent : BlockParent) :
    List (Indexed Reference) → Builder → List BlockId × Builder
  | [], b => ([], b)
  | (index, reference) :: rest, b =>
    let (id, b) := b.addBlock declared .action parent reference none index
    let (ids, b) := addActions parent rest b
    (id :: ids, b)

/-- Adds a guard, if there is one. -/
def addGuard (edge : EdgeId) : Option Reference → Builder → Option BlockId × Builder
  | some reference, b =>
    let (guard, b) := b.addBlock declared .guard (.edge edge) reference none 0
    (some guard, b)
  | none, b => (none, b)

/-- Adds a transition. -/
def addTransition (source : NodeId) (b : Builder) (t : Transition) : Builder :=
  let id := b.edges.length
  let (guard, b) := b.addGuard declared id t.guard
  let (actions, b) := addActions declared (.edge id) t.actions b
  let edge : Edge :=
    { id, source, targets := [], descriptors := t.targets.map (·.1), path := t.path,
      span := t.span, trigger := t.trigger, guard, actions, internal := t.internal,
      description := t.description }
  { b with
    edges := b.edges ++ [edge]
    pending := b.pending ++ t.targets.map fun (descriptor, span) =>
      { edge := id, descriptor, span } }

/-- Adds transitions in their order. -/
def addTransitions (source : NodeId) (ts : List Transition) (b : Builder) : Builder :=
  ts.foldl (addTransition declared source) b

/-- Adds the block of an invocation, if it has a source. -/
def addActor (node : NodeId) (source : Option Reference) (invocation : String) (index : Nat)
    (b : Builder) : List BlockId × Builder :=
  match source with
  | some reference =>
    let (id, b) := b.addBlock declared .actor (.node node) reference (some invocation) index
    ([id], b)
  | none => ([], b)

/-- Adds invocations, each with the transitions that follow its end. -/
def addInvocations (source : NodeId) : List Invocation → Builder → List BlockId × Builder
  | [], b => ([], b)
  | invocation :: rest, b =>
    let (ids, b) := b.addActor declared source invocation.source invocation.id invocation.index
    let b := addTransitions declared source invocation.done b
    let b := addTransitions declared source invocation.failed b
    let (more, b) := addInvocations source rest b
    (ids ++ more, b)

/-- Adds a state without those below it. -/
def addState (parent : Option NodeId) (info : StateInfo) (b : Builder) : Builder :=
  let id := b.nodes.length
  let (entry, b) := addActions declared (.node id) info.entry b
  let (exit, b) := addActions declared (.node id) info.exit b
  let (invoke, b) := addInvocations declared id info.invocations b
  let b := addTransitions declared id info.transitions b
  let node : Node :=
    { id, parent, path := info.path, span := info.span, key := info.key,
      attributes := info.attributes, entry, exit, invoke }
  { b with nodes := b.nodes ++ [node] }

mutual

/-- Adds a state and those below it. -/
def addTree (parent : Option NodeId) : StateTree → Builder → Builder
  | .node info children, b =>
    addTrees b.nodes.length children (addState declared parent info b)

/-- Adds states and those below them. -/
def addTrees (parent : NodeId) : List StateTree → Builder → Builder
  | [], b => b
  | tree :: rest, b => addTrees parent rest (addTree (some parent) tree b)

end

/-- The graph without its targets. -/
def graph (b : Builder) : Graph where
  nodes := b.nodes
  edges := b.edges
  blocks := b.blocks
  implementations := b.implementations
  childIndex := childrenByParent b.nodes

end Builder

/-- The graph with the targets of each edge looked up. -/
def Graph.resolved (graph : Graph) : Graph :=
  { graph with
    edges := graph.edges.map fun edge =>
      { edge with targets := edge.descriptors.filterMap (graph.resolve? edge.source) } }

/-- The problem with a target that stands for no state. -/
def Pending.problem? (graph : Graph) (pending : Pending) : Option Problem :=
  (graph.edge? pending.edge).bind fun edge =>
    match graph.resolve? edge.source pending.descriptor with
    | some _ => none
    | none => some { kind := .unresolved, path := graph.pathOf edge.source,
                     property := some pending.descriptor, span := pending.span }

/-- The builder of the tree that a description is read into. -/
def build (config : Expr) (options setup : Option Expr) : Builder :=
  Builder.addTree (declaredNames options setup) none (readMachine config).1 {}

/-- Where an edge starts, where it is written, and its descriptors. -/
def Edge.view (edge : Edge) : NodeId × TransitionPath × List String :=
  (edge.source, edge.path, edge.descriptors)

/-- What a node has from the state that it was read from. -/
def Node.view (node : Node) : StatePath × String × Option Span × Attributes :=
  (node.path, node.key, node.span, node.attributes)

/-- What a node has from a state that was read. -/
def StateInfo.view (info : StateInfo) : StatePath × String × Option Span × Attributes :=
  (info.path, info.key, info.span, info.attributes)

/-! ## Adding states -/

namespace Builder

variable (declared : Declared)

theorem register_nodes (b : Builder) (entry : Implementation) :
    (b.register entry).nodes = b.nodes ∧ (b.register entry).edges = b.edges := by
  rw [register]
  split <;> exact ⟨rfl, rfl⟩

theorem addBlock_nodes (b : Builder) (kind : BlockKind) (parent : BlockParent)
    (reference : Reference) (invocation : Option String) (listIndex : Nat) :
    (b.addBlock declared kind parent reference invocation listIndex).2.nodes = b.nodes ∧
      (b.addBlock declared kind parent reference invocation listIndex).2.edges = b.edges := by
  simp only [addBlock]
  exact register_nodes _ _

theorem register_blocks (b : Builder) (entry : Implementation) :
    (b.register entry).blocks = b.blocks ∧ (b.register entry).names = b.names := by
  rw [register]
  split <;> exact ⟨rfl, rfl⟩

theorem addBlock_names (b : Builder) (kind : BlockKind) (parent : BlockParent)
    (reference : Reference) (invocation : Option String) (listIndex : Nat) :
    (b.addBlock declared kind parent reference invocation listIndex).2.names =
      (b.names.identify kind reference).2 := by
  simp only [addBlock, register_blocks]

theorem addActions_nodes (parent : BlockParent) (actions : List (Indexed Reference))
    (b : Builder) :
    (addActions declared parent actions b).2.nodes = b.nodes ∧
      (addActions declared parent actions b).2.edges = b.edges := by
  induction actions generalizing b with
  | nil => exact ⟨rfl, rfl⟩
  | cons action actions ih =>
    have hblock := addBlock_nodes declared b .action parent action.2 none action.1
    have hrest := ih (b.addBlock declared .action parent action.2 none action.1).2
    exact ⟨hrest.1.trans hblock.1, hrest.2.trans hblock.2⟩

theorem addGuard_nodes (edge : EdgeId) (guard : Option Reference) (b : Builder) :
    (addGuard declared edge guard b).2.nodes = b.nodes ∧
      (addGuard declared edge guard b).2.edges = b.edges := by
  cases guard with
  | none => exact ⟨rfl, rfl⟩
  | some reference => exact addBlock_nodes declared b .guard (.edge edge) reference none 0

theorem addTransition_nodes (source : NodeId) (b : Builder) (t : Transition) :
    (addTransition declared source b t).nodes = b.nodes ∧
      (addTransition declared source b t).edges.map Edge.view =
        b.edges.map Edge.view ++ [(source, t.view)] := by
  obtain ⟨hnodes, hedges⟩ := addGuard_nodes declared b.edges.length t.guard b
  obtain ⟨hnodes', hedges'⟩ := addActions_nodes declared (.edge b.edges.length) t.actions
    (b.addGuard declared b.edges.length t.guard).2
  simp only [addTransition, List.map_append, List.map_cons, List.map_nil]
  exact ⟨hnodes'.trans hnodes, by rw [hedges', hedges]; rfl⟩

theorem addTransitions_nodes (source : NodeId) (ts : List Transition) (b : Builder) :
    (addTransitions declared source ts b).nodes = b.nodes ∧
      (addTransitions declared source ts b).edges.map Edge.view =
        b.edges.map Edge.view ++ ts.map fun t => (source, t.view) := by
  induction ts generalizing b with
  | nil => exact ⟨rfl, (List.append_nil _).symm⟩
  | cons t ts ih =>
    obtain ⟨hnodes, hedges⟩ := addTransition_nodes declared source b t
    obtain ⟨hnodes', hedges'⟩ := ih (addTransition declared source b t)
    exact ⟨hnodes'.trans hnodes, hedges'.trans (by rw [hedges, List.append_assoc]; rfl)⟩

theorem addActor_nodes (node : NodeId) (source : Option Reference) (invocation : String)
    (index : Nat) (b : Builder) :
    (addActor declared node source invocation index b).2.nodes = b.nodes ∧
      (addActor declared node source invocation index b).2.edges = b.edges := by
  cases source with
  | none => exact ⟨rfl, rfl⟩
  | some reference =>
    exact addBlock_nodes declared b .actor (.node node) reference (some invocation) index

theorem addInvocations_nodes (source : NodeId) (invocations : List Invocation) (b : Builder) :
    (addInvocations declared source invocations b).2.nodes = b.nodes ∧
      (addInvocations declared source invocations b).2.edges.map Edge.view =
        b.edges.map Edge.view ++
          (invocations.flatMap Invocation.transitions).map fun t => (source, t.view) := by
  induction invocations generalizing b with
  | nil => exact ⟨rfl, (List.append_nil _).symm⟩
  | cons invocation invocations ih =>
    obtain ⟨hnodes, hedges⟩ :=
      addActor_nodes declared source invocation.source invocation.id invocation.index b
    generalize hactor :
      addActor declared source invocation.source invocation.id invocation.index b = actor
      at hnodes hedges
    obtain ⟨hnodes₁, hedges₁⟩ := addTransitions_nodes declared source invocation.done actor.2
    obtain ⟨hnodes₂, hedges₂⟩ := addTransitions_nodes declared source invocation.failed
      (addTransitions declared source invocation.done actor.2)
    obtain ⟨hnodes₃, hedges₃⟩ := ih (addTransitions declared source invocation.failed
      (addTransitions declared source invocation.done actor.2))
    rw [addInvocations, hactor]
    refine ⟨hnodes₃.trans (hnodes₂.trans (hnodes₁.trans hnodes)), hedges₃.trans ?_⟩
    rw [hedges₂, hedges₁, hedges]
    simp only [List.flatMap_cons, Invocation.transitions, List.map_append, List.append_assoc]

/-- Adding a state adds a node for it, and an edge for each of its transitions. -/
theorem addState_nodes (parent : Option NodeId) (info : StateInfo) (b : Builder) :
    (∃ node, (addState declared parent info b).nodes = b.nodes ++ [node] ∧
        node.id = b.nodes.length ∧ node.parent = parent ∧ node.view = info.view) ∧
      (addState declared parent info b).edges.map Edge.view = b.edges.map Edge.view ++
        info.allTransitions.map fun t => (b.nodes.length, t.view) := by
  have hentry := addActions_nodes declared (.node b.nodes.length) info.entry b
  have hexit := addActions_nodes declared (.node b.nodes.length) info.exit
    (addActions declared (.node b.nodes.length) info.entry b).2
  have hinvoke := addInvocations_nodes declared b.nodes.length info.invocations
    (addActions declared (.node b.nodes.length) info.exit
      (addActions declared (.node b.nodes.length) info.entry b).2).2
  have htransitions := addTransitions_nodes declared b.nodes.length info.transitions
    (addInvocations declared b.nodes.length info.invocations
      (addActions declared (.node b.nodes.length) info.exit
        (addActions declared (.node b.nodes.length) info.entry b).2).2).2
  -- Actions and invocations add blocks; only the node itself is added to the nodes.
  simp only [addState]
  refine ⟨⟨_, congrArg (· ++ [_]) ?_, ?_⟩, ?_⟩
  · rw [htransitions.1, hinvoke.1, hexit.1, hentry.1]
  · exact ⟨rfl, rfl, rfl⟩
  · rw [htransitions.2, hinvoke.2, hexit.2, hentry.2, StateInfo.allTransitions, List.map_append,
      List.append_assoc]

/-- The edges of states from a handle on. -/
def edgesFrom (start : Nat) (infos : List StateInfo) :
    List (NodeId × TransitionPath × List String) :=
  (infos.zipIdx start).flatMap fun (info, id) => info.allTransitions.map fun t => (id, t.view)

theorem edgesFrom_cons (start : Nat) (info : StateInfo) (infos : List StateInfo) :
    edgesFrom start (info :: infos) =
      (info.allTransitions.map fun t => (start, t.view)) ++ edgesFrom (start + 1) infos := rfl

theorem edgesFrom_append (start : Nat) (a b : List StateInfo) :
    edgesFrom start (a ++ b) = edgesFrom start a ++ edgesFrom (start + a.length) b := by
  rw [edgesFrom, List.zipIdx_append, List.flatMap_append]
  rfl

mutual

/-- Adding a tree adds its states, parents first. -/
theorem addTree_nodes (parent : Option NodeId) : ∀ (tree : StateTree) (b : Builder),
    (addTree declared parent tree b).nodes.map Node.view =
        b.nodes.map Node.view ++ tree.infos.map StateInfo.view ∧
      (addTree declared parent tree b).edges.map Edge.view =
        b.edges.map Edge.view ++ edgesFrom b.nodes.length tree.infos
  | .node info children, b => by
    obtain ⟨⟨node, hnodes, -, -, hview⟩, hedges⟩ := addState_nodes declared parent info b
    obtain ⟨hnodes', hedges'⟩ :=
      addTrees_nodes b.nodes.length children (addState declared parent info b)
    rw [addTree, StateTree.infos]
    constructor
    · rw [hnodes', hnodes, List.map_append, List.map_cons, List.map_nil, hview, List.append_assoc]
      rfl
    · rw [hedges', hedges, hnodes, List.length_append, List.append_assoc, edgesFrom_cons]
      rfl

theorem addTrees_nodes (parent : NodeId) : ∀ (trees : List StateTree) (b : Builder),
    (addTrees declared parent trees b).nodes.map Node.view =
        b.nodes.map Node.view ++ (StateTree.infosOf trees).map StateInfo.view ∧
      (addTrees declared parent trees b).edges.map Edge.view =
        b.edges.map Edge.view ++ edgesFrom b.nodes.length (StateTree.infosOf trees)
  | [], b => ⟨(List.append_nil _).symm, (List.append_nil _).symm⟩
  | tree :: rest, b => by
    obtain ⟨hnodes, hedges⟩ := addTree_nodes (some parent) tree b
    obtain ⟨hnodes', hedges'⟩ := addTrees_nodes parent rest (addTree declared (some parent) tree b)
    -- The handles of the trees to come start behind those of this one.
    have hlength := congrArg List.length hnodes
    rw [List.length_append, List.length_map, List.length_map, List.length_map] at hlength
    rw [addTrees, StateTree.infosOf]
    constructor
    · rw [hnodes', hnodes, List.map_append, List.append_assoc]
    · rw [hedges', hedges, hlength, edgesFrom_append, List.append_assoc]

end

end Builder

/-! ## Parents -/

namespace Builder

variable (declared : Declared) {P : Builder → Prop}

mutual

/-- What adding a state below one that is there keeps, adding a tree keeps. -/
theorem addTree_of_addState (h : ∀ parent info b, P b → (∀ p ∈ parent, p < b.nodes.length) →
      P (addState declared parent info b)) (parent : Option NodeId) :
    ∀ (tree : StateTree) (b : Builder), P b → (∀ p ∈ parent, p < b.nodes.length) →
      P (addTree declared parent tree b) ∧
        b.nodes.length ≤ (addTree declared parent tree b).nodes.length
  | .node info children, b, hb, hparent => by
    obtain ⟨node, hnodes, -⟩ := (addState_nodes declared parent info b).1
    have hlength : (addState declared parent info b).nodes.length = b.nodes.length + 1 := by
      rw [hnodes, List.length_append, List.length_singleton]
    obtain ⟨hall, hle⟩ := addTrees_of_addState h b.nodes.length children
      (addState declared parent info b) (h parent info b hb hparent)
      (hlength ▸ Nat.lt_succ_self _)
    rw [addTree]
    exact ⟨hall, by omega⟩

theorem addTrees_of_addState (h : ∀ parent info b, P b → (∀ p ∈ parent, p < b.nodes.length) →
      P (addState declared parent info b)) (parent : NodeId) :
    ∀ (trees : List StateTree) (b : Builder), P b → parent < b.nodes.length →
      P (addTrees declared parent trees b) ∧
        b.nodes.length ≤ (addTrees declared parent trees b).nodes.length
  | [], _, hb, _ => ⟨hb, Nat.le_refl _⟩
  | tree :: rest, b, hb, hparent => by
    obtain ⟨hadded, hle⟩ := addTree_of_addState h (some parent) tree b hb
      fun _ hp => Option.some.inj hp ▸ hparent
    obtain ⟨hall, hle'⟩ := addTrees_of_addState h parent rest _ hadded
      (Nat.lt_of_lt_of_le hparent hle)
    rw [addTrees]
    exact ⟨hall, Nat.le_trans hle hle'⟩

end

end Builder

/-- Nodes that know their positions and their parents, which come before them; only the first
    has none. -/
structure Hierarchy (nodes : List Node) : Prop where
  id_eq : ∀ {i : Nat} {n : Node}, nodes[i]? = some n → n.id = i
  root : ∀ {n : Node}, nodes[0]? = some n → n.parent = none ∧ n.path = []
  parent : ∀ {i : Nat} {n : Node}, nodes[i]? = some n → 0 < i →
    ∃ j m, n.parent = some j ∧ j < i ∧ nodes[j]? = some m ∧ n.path = m.path ++ [n.key]

/-- The state at the top of a tree. -/
def StateTree.info : StateTree → StateInfo
  | .node info _ => info

/-- A tree in which each path is that of the parent and the key. -/
inductive StateTree.Consistent : StateTree → Prop
  | node {info : StateInfo} {children : List StateTree} :
      (∀ child ∈ children, child.info.path = info.path ++ [child.info.key]) →
      (∀ child ∈ children, child.Consistent) → Consistent (.node info children)

theorem Hierarchy.nil : Hierarchy [] := by
  refine ⟨fun h => ?_, fun h => ?_, fun h => ?_⟩ <;> simp at h

theorem Hierarchy.append {nodes : List Node} (h : Hierarchy nodes) {node : Node}
    (hid : node.id = nodes.length)
    (hparent : (nodes = [] ∧ node.parent = none ∧ node.path = []) ∨
      ∃ j m, node.parent = some j ∧ nodes[j]? = some m ∧ node.path = m.path ++ [node.key]) :
    Hierarchy (nodes ++ [node]) := by
  have hcases : ∀ {i n}, (nodes ++ [node])[i]? = some n →
      nodes[i]? = some n ∨ i = nodes.length ∧ n = node := by
    intro i n hi
    rcases Nat.lt_trichotomy i nodes.length with hlt | rfl | hgt
    · rw [List.getElem?_append_left hlt] at hi
      exact .inl hi
    · rw [List.getElem?_append_right (Nat.le_refl _), Nat.sub_self] at hi
      exact .inr ⟨rfl, (Option.some.inj hi).symm⟩
    · rw [List.getElem?_eq_none (by rw [List.length_append]; exact hgt)] at hi
      cases hi
  have hleft : ∀ {j m}, nodes[j]? = some m → (nodes ++ [node])[j]? = some m := fun {j m} hj => by
    rw [List.getElem?_append_left (List.getElem?_eq_some_iff.1 hj).1, hj]
  refine ⟨fun hi => ?_, fun hi => ?_, fun hi hpos => ?_⟩
  · rcases hcases hi with hi | ⟨rfl, rfl⟩
    · exact h.id_eq hi
    · exact hid
  · rcases hcases hi with hi | ⟨hlen, rfl⟩
    · exact h.root hi
    · rcases hparent with ⟨-, hnone, hpath⟩ | ⟨j, m, -, hj, -⟩
      · exact ⟨hnone, hpath⟩
      · have := (List.getElem?_eq_some_iff.1 hj).1
        omega
  · rcases hcases hi with hi | ⟨rfl, rfl⟩
    · obtain ⟨j, m, hj, hlt, hm, hpath⟩ := h.parent hi hpos
      exact ⟨j, m, hj, hlt, hleft hm, hpath⟩
    · rcases hparent with ⟨rfl, -⟩ | ⟨j, m, hj, hm, hpath⟩
      · exact absurd hpos (Nat.lt_irrefl _)
      · exact ⟨j, m, hj, (List.getElem?_eq_some_iff.1 hm).1, hleft hm, hpath⟩

namespace Builder

variable (declared : Declared)

mutual

/-- Adding a consistent tree below a node keeps the hierarchy. -/
theorem addTree_hierarchy (parent : Option NodeId) : ∀ (tree : StateTree) (b : Builder),
    tree.Consistent → Hierarchy b.nodes →
    ((b.nodes = [] ∧ parent = none ∧ tree.info.path = []) ∨
      ∃ j m, parent = some j ∧ b.nodes[j]? = some m ∧
        tree.info.path = m.path ++ [tree.info.key]) →
    Hierarchy (addTree declared parent tree b).nodes ∧
      b.nodes <+: (addTree declared parent tree b).nodes
  | .node info children, b, htree, hb, hparent => by
    obtain ⟨⟨node, hnodes, hid, hnode, hview⟩, -⟩ := addState_nodes declared parent info b
    have hpath : node.path = info.path := congrArg Prod.fst hview
    have hkey : node.key = info.key := congrArg (·.2.1) hview
    have hadded : Hierarchy (addState declared parent info b).nodes := by
      rw [hnodes]
      refine hb.append hid ?_
      rw [hnode, hpath, hkey]
      exact hparent
    cases htree with
    | node hpaths hchildren =>
      obtain ⟨hall, hprefix⟩ := addTrees_hierarchy b.nodes.length children
        (addState declared parent info b) hchildren hadded node
        (by rw [hnodes, List.getElem?_append_right (Nat.le_refl _), Nat.sub_self]; rfl)
        (fun child hchild => hpath ▸ hpaths child hchild)
      rw [addTree]
      refine ⟨hall, List.IsPrefix.trans ?_ hprefix⟩
      rw [hnodes]
      exact List.prefix_append _ _

theorem addTrees_hierarchy (parent : NodeId) : ∀ (trees : List StateTree) (b : Builder),
    (∀ tree ∈ trees, tree.Consistent) → Hierarchy b.nodes →
    ∀ m : Node, b.nodes[parent]? = some m →
    (∀ tree ∈ trees, tree.info.path = m.path ++ [tree.info.key]) →
    Hierarchy (addTrees declared parent trees b).nodes ∧
      b.nodes <+: (addTrees declared parent trees b).nodes
  | [], b, _, hb, _, _, _ => ⟨hb, List.prefix_refl _⟩
  | tree :: rest, b, htrees, hb, m, hm, hpaths => by
    obtain ⟨hadded, hprefix⟩ := addTree_hierarchy (some parent) tree b
      (htrees tree List.mem_cons_self) hb
      (.inr ⟨parent, m, rfl, hm, hpaths tree List.mem_cons_self⟩)
    -- The parent stays where it is while nodes are added behind it.
    have hm' : (addTree declared (some parent) tree b).nodes[parent]? = some m := by
      obtain ⟨more, hmore⟩ := hprefix
      rw [← hmore, List.getElem?_append_left (List.getElem?_eq_some_iff.1 hm).1, hm]
    obtain ⟨hall, hprefix'⟩ := addTrees_hierarchy parent rest
      (addTree declared (some parent) tree b)
      (fun tree htree => htrees tree (List.mem_cons_of_mem _ htree)) hadded m hm'
      (fun tree htree => hpaths tree (List.mem_cons_of_mem _ htree))
    exact ⟨hall, hprefix.trans hprefix'⟩

end

end Builder

/-- The trees that are read are consistent. -/
theorem consistent_childTrees (rootId : Option String) (key : String) (path : StatePath)
    (span : Option Span) (props : List Property) :
    StateTree.Consistent
      (.node (infoOf rootId key path span props) (childTrees rootId path props)) := by
  refine .node (fun child hchild => ?_) fun child hchild => ?_
  · obtain ⟨name, origin, below, -, rfl⟩ := mem_childTrees.1 hchild
    rfl
  · obtain ⟨name, origin, below, ⟨entries, hentries, hbelow⟩, rfl⟩ := mem_childTrees.1 hchild
    have hsize := sizeOf_childProps?_lt (childProps?_eq_some hentries hbelow)
    exact consistent_childTrees rootId name (path ++ [name]) origin.span below
termination_by sizeOf props

end Statechart
