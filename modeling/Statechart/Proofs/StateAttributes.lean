import Statechart.Proofs.BlockAddresses
import Statechart.Proofs.StateOrder

/-!
# What a state says of itself

A state says its type, its initial state and its description under keywords of their own, and
nothing else is read from these. If only they change, all that comes of a description is as before
but for the attributes of one state: descriptors lead where they led, and blocks and edges keep
their handles.

* `Graph.adjust`: a graph in which the attributes of the state at a path are changed;
* `Adjusts`: properties that differ in what a state says of itself;
* `Draft.tree_setBelow`, `Builder.addTree_adjust`: one state is read with other attributes, and
  added with them;
* `extract_setStateProps`: changing these properties changes these attributes.
-/

namespace Statechart

open Property Draft

/-! ## Attributes as they are read -/

/-- Properties that agree but for the entries of some names. -/
def KeepsBut (names : List String) (old new : List Property) : Prop :=
  ∀ name ∉ names, prop? new name = prop? old name

theorem KeepsBut.value?_eq {names : List String} {old new : List Property}
    (h : KeepsBut names old new) (name : String) (hname : name ∉ names) :
    value? new name = value? old name :=
  congrArg (Option.map PropertyOf.value) (h name hname)

theorem KeepsBut.mono {names more : List String} {old new : List Property}
    (h : KeepsBut names old new) (hsub : names ⊆ more) : KeepsBut more old new :=
  fun name hname => h name fun hmem => hname (hsub hmem)

/-- The type of a state: `type` says it if it is there, else `parallel` may. -/
def typeOf (props : List Property) : StateType :=
  (if (prop? props "type").isSome then
    (value? props "type").bind fun expr => expr.text?.bind StateType.ofKeyword?
  else (value? props "parallel").bind parallelType?).getD .normal

/-- The history that is written. -/
def historyOf? (props : List Property) : Option HistoryKind :=
  (value? props "history").bind fun expr => expr.text?.bind HistoryKind.ofName?

section Attributes

variable {old new : List Property} (path : StatePath)

theorem readAttributes_keepsBut_initial (h : KeepsBut ["initial"] old new) :
    (readAttributes path new).1 =
      { (readAttributes path old).1 with
        initial := (value? new "initial").bind initialTarget? } := by
  simp only [readAttributes, h "id" (by decide), h "type" (by decide), h "parallel" (by decide),
    h "history" (by decide), h "tags" (by decide), h "meta" (by decide),
    h "description" (by decide), readProperty_fst, value?]

theorem readAttributes_keepsBut_description (h : KeepsBut ["description"] old new) :
    (readAttributes path new).1 =
      { (readAttributes path old).1 with
        description := (value? new "description").bind Expr.text? } := by
  simp only [readAttributes, h "id" (by decide), h "type" (by decide), h "parallel" (by decide),
    h "history" (by decide), h "tags" (by decide), h "meta" (by decide),
    h "initial" (by decide), readProperty_fst, value?]

theorem readAttributes_keepsBut_type (h : KeepsBut ["type", "parallel", "history"] old new) :
    (readAttributes path new).1 =
      { (readAttributes path old).1 with
        type := typeOf new, history := historyFor (typeOf new) (historyOf? new) } := by
  have htype : (if (prop? new "type").isSome then
      readProperty .stateProperty path "type" (fun e => e.text?.bind StateType.ofKeyword?)
        (prop? new "type")
      else readProperty .stateProperty path "parallel" parallelType? (prop? new "parallel")).1.getD
        .normal = typeOf new := by
    rw [typeOf]
    split <;> rw [readProperty_fst] <;> rfl
  simp only [readAttributes, htype, h "id" (by decide), h "tags" (by decide), h "meta" (by decide),
    h "initial" (by decide), h "description" (by decide), readProperty_fst, historyOf?, value?]

end Attributes

/-! ## One state with other attributes -/

/-- The keywords of the attributes that can be changed. -/
def adjustableKeys : List String :=
  ["type", "parallel", "history", "initial", "description"]

/-- Properties that differ in what a state says of itself, and in nothing else that is read. -/
structure Adjusts (f : Attributes → Attributes) (old new : List Property) : Prop where
  keeps : KeepsBut adjustableKeys old new
  attributes : ∀ path, (readAttributes path new).1 = f (readAttributes path old).1

/-- A state that is read with other attributes, if it is at a path. -/
def StateInfo.adjust (path : StatePath) (f : Attributes → Attributes) (info : StateInfo) :
    StateInfo :=
  if info.path = path then { info with attributes := f info.attributes } else info

mutual

/-- A tree in which the state at a path has other attributes. -/
def StateTree.adjust (path : StatePath) (f : Attributes → Attributes) : StateTree → StateTree
  | .node info children => .node (info.adjust path f) (adjustAll path f children)

/-- Trees in which the state at a path has other attributes. -/
def StateTree.adjustAll (path : StatePath) (f : Attributes → Attributes) :
    List StateTree → List StateTree
  | [] => []
  | tree :: rest => tree.adjust path f :: adjustAll path f rest

end

variable {f : Attributes → Attributes}

theorem StateTree.adjustAll_eq (path : StatePath) (trees : List StateTree) :
    adjustAll path f trees = trees.map (StateTree.adjust path f) := by
  induction trees with
  | nil => rfl
  | cons tree rest ih => rw [adjustAll, ih, List.map_cons]

namespace Draft

section

variable (rootId : Option String) {old new : List Property}

/-- All that is read of a state beside its attributes is under other keywords. -/
theorem infoOf_of_keepsBut (h : KeepsBut ("states" :: adjustableKeys) old new) (key : String)
    (path : StatePath) (span : Option Span) :
    infoOf rootId key path span new =
      { infoOf rootId key path span old with attributes := (readAttributes path new).1 } := by
  have hid : (readAttributes path new).1.explicitId = (readAttributes path old).1.explicitId := by
    have hread := explicitId_infoOf rootId key path span
    simp only [infoOf, readStateInfo] at hread
    rw [hread, hread, idOf, idOf, h.value?_eq "id" (by decide)]
  simp only [infoOf, readStateInfo, readStateActions, pickNewer, hid, h "onEntry" (by decide),
    h "entry" (by decide), h "onExit" (by decide), h "exit" (by decide), h "invoke" (by decide),
    h "on" (by decide), h "after" (by decide), h.value?_eq "always" (by decide),
    h.value?_eq "onDone" (by decide)]

/-- A state is read with other attributes. -/
theorem infoOf_of_adjusts (h : Adjusts f old new) (key : String) (path : StatePath)
    (span : Option Span) :
    infoOf rootId key path span new = (infoOf rootId key path span old).adjust path f := by
  have hpath : (infoOf rootId key path span old).path = path := rfl
  have hsub : adjustableKeys ⊆ "states" :: adjustableKeys := List.subset_cons_self _ _
  rw [StateInfo.adjust, if_pos hpath, infoOf_of_keepsBut rootId (h.keeps.mono hsub), h.attributes]
  rfl

/-- A state with other states below it is read as it was otherwise. -/
theorem infoOf_modifyStates (key : String) (path : StatePath) (span : Option Span)
    (props : List Property) (g : Expr → Expr) :
    infoOf rootId key path span (modifyValue props "states" g) =
      infoOf rootId key path span props := by
  have hkeeps : KeepsBut ["states"] props (modifyValue props "states" g) := fun name hname => by
    rw [prop?_modifyValue, if_neg (List.mem_singleton.not.1 hname)]
  have hattributes : readAttributes path (modifyValue props "states" g) =
      readAttributes path props := by
    simp only [readAttributes, hkeeps "id" (by decide), hkeeps "type" (by decide),
      hkeeps "parallel" (by decide), hkeeps "history" (by decide), hkeeps "initial" (by decide),
      hkeeps "tags" (by decide), hkeeps "meta" (by decide), hkeeps "description" (by decide)]
  rw [infoOf_of_keepsBut rootId (hkeeps.mono (by decide)), hattributes]
  rfl

end

/-- Where no state has a path, none is adjusted. -/
theorem adjust_of_forall_ne {path : StatePath} : ∀ tree : StateTree,
    (∀ info ∈ tree.infos, info.path ≠ path) → tree.adjust path f = tree
  | .node info children, h => by
    rw [StateTree.infos] at h
    obtain ⟨hinfo, hchildren⟩ := List.forall_mem_cons.1 h
    rw [StateTree.adjust, StateInfo.adjust, if_neg hinfo, StateTree.adjustAll_eq]
    have hsame : children.map (StateTree.adjust path f) = children := by
      refine (List.map_congr_left fun tree htree => ?_).trans (List.map_id _)
      refine adjust_of_forall_ne tree fun info hmem => hchildren info ?_
      rw [StateTree.infosOf_eq]
      exact List.mem_flatMap.2 ⟨tree, htree, hmem⟩
    rw [hsame]

/-- The tree of a state and of those below it, read from its properties. -/
def treeOf (rootId : Option String) (key : String) (path : StatePath) (span : Option Span)
    (props : List Property) : StateTree :=
  .node (infoOf rootId key path span props) (childTrees rootId path props)

section

variable {rootId : Option String} {path p start : StatePath} {old new props : List Property}

/-- The states of the tree of an entry have its key in their paths. -/
theorem prefix_of_mem_childTree? {entry : Property} {name : String} {tree : StateTree}
    {info : StateInfo} (hname : entry.name = some name)
    (htree : childTree? rootId start entry = some tree) (hinfo : info ∈ tree.infos) :
    start ++ [name] <+: info.path := by
  obtain ⟨key, origin, child, hkey, -, rfl⟩ := childTree?_eq_some.1 htree
  obtain rfl := Option.some.inj (hname.symm.trans hkey)
  obtain ⟨rest, below, span, -, rfl⟩ := exists_of_mem_infosBelow hinfo
  exact ⟨rest, rfl⟩

/-- The tree of an entry is not adjusted at a path that does not lead into it. -/
theorem adjust_childTree?_of_apart {entry : Property}
    (h : ∀ name, entry.name = some name → ¬start ++ [name] <+: path) :
    (childTree? rootId start entry).map (StateTree.adjust path f) =
      childTree? rootId start entry := by
  cases htree : childTree? rootId start entry with
  | none => rfl
  | some tree =>
    obtain ⟨name, origin, child, hname, -, -⟩ := childTree?_eq_some.1 htree
    refine congrArg some (adjust_of_forall_ne tree fun info hinfo heq => h name hname ?_)
    exact heq ▸ prefix_of_mem_childTree? hname htree hinfo

theorem childTree?_object {entry : Property} {name : String} {origin : Origin}
    {child : List Property} (hname : entry.name = some name)
    (hvalue : entry.value = .object origin child) :
    childTree? rootId start entry =
      some (treeOf rootId name (start ++ [name]) origin.span child) :=
  childTree?_eq_some.2 ⟨name, origin, child, hname, hvalue, rfl⟩

theorem setStateProps_object (new : List Property) (path : StatePath) (origin : Origin)
    (props : List Property) :
    setStateProps new path (.object origin props) = .object origin (setBelow new path props) := by
  cases path <;> rfl

/-- A state in which what another one at or below it says of itself is changed is read with the
    other attributes of that one. -/
theorem tree_setBelow (h : propsBelow? props path = some old) (hadjust : Adjusts f old new)
    (key : String) (span : Option Span) :
    treeOf rootId key start span (setBelow new path props) =
      (treeOf rootId key start span props).adjust (start ++ path) f := by
  induction path generalizing props start key span with
  | nil =>
    obtain rfl := Option.some.inj h
    rw [setBelow, List.append_nil, treeOf, treeOf, StateTree.adjust, StateTree.adjustAll_eq,
      infoOf_of_adjusts rootId hadjust]
    refine congrArg _ ?_
    rw [childTrees, childTrees, hadjust.keeps.value?_eq "states" (by decide), List.map_filterMap]
    refine List.filterMap_congr fun entry _ => (adjust_childTree?_of_apart fun name _ => ?_).symm
    rintro ⟨more, hmore⟩
    simp at hmore
  | cons next rest ih =>
    rw [propsBelow?] at h
    obtain ⟨child, hchild, h⟩ := Option.bind_eq_some_iff.1 h
    obtain ⟨entries, origin, hentries, hvalue⟩ := exists_of_childProps? hchild
    obtain ⟨states, hstates, hprops⟩ := Option.bind_eq_some_iff.1 hentries
    have hapart : (infoOf rootId key start span props).path ≠ start ++ next :: rest := by
      rw [path_infoOf]
      simp
    rw [setBelow, treeOf, treeOf, StateTree.adjust, StateTree.adjustAll_eq, infoOf_modifyStates,
      StateInfo.adjust, if_neg hapart]
    refine congrArg _ ?_
    rw [childTrees, childTrees, value?_modifyValue_self, hentries, hstates, Option.map_some,
      Option.bind_some, Expr.props?_modifyProps, hprops, Option.map_some, Option.getD_some,
      Option.getD_some, effective_modifyValue, List.filterMap_map, List.map_filterMap]
    refine List.filterMap_congr fun entry hentry => ?_
    rw [Function.comp_apply]
    -- Only the entry of the next state is changed, and only that one leads to the path.
    cases hnamed : entry.isNamed next with
    | false =>
      rw [if_neg Bool.false_ne_true]
      refine (adjust_childTree?_of_apart fun name hname hprefix => ?_).symm
      refine not_prefix_of_ne ?_ hprefix (List.prefix_refl _)
      rintro rfl
      exact isNamed_eq_false_iff.1 hnamed hname
    | true =>
      have hname := isNamed_iff.1 hnamed
      have hfound := mem_effective_iff.1 ⟨hentry, hname⟩
      have hobject : entry.value = .object origin child := by
        rw [value?, hfound] at hvalue
        exact Option.some.inj hvalue
      have hpath : start ++ next :: rest = start ++ [next] ++ rest := by simp
      have hset : setStateProps new rest entry.value =
          .object origin (setBelow new rest child) := by
        rw [hobject, setStateProps_object]
      have hname' : PropertyOf.name { entry with value := setStateProps new rest entry.value } =
          some next := hname
      rw [if_pos rfl, childTree?_object hname hobject, childTree?_object hname' hset,
        Option.map_some, ih h, hpath]

end

/-- The states of a description in which what one of them says of itself is changed are read with
    the other attributes of that one. -/
theorem readMachine_setStateProps {config : Expr} {path : StatePath} {old new : List Property}
    (h : stateProps? config path = some old) (hadjust : Adjusts f old new) :
    (readMachine (setStateProps new path config)).1 = (readMachine config).1.adjust path f := by
  rw [stateProps?_eq] at h
  obtain ⟨props, hprops, h⟩ := Option.bind_eq_some_iff.1 h
  obtain ⟨origin, rfl⟩ : ∃ origin, config = .object origin props := by
    cases config <;> cases hprops
    exact ⟨_, rfl⟩
  -- The id of the root, which ids of invocations start with, stays.
  have hid : value? (setBelow new path props) "id" = value? props "id" := by
    cases path with
    | nil =>
      obtain rfl := Option.some.inj h
      exact hadjust.keeps.value?_eq "id" (by decide)
    | cons key path => exact value?_modifyValue_of_ne (by decide) _ _
  rw [setStateProps_object, readMachine, readMachine, readStateTree_object, readStateTree_object]
  rw [Statechart.rootIdOf_object, Statechart.rootIdOf_object, hid]
  exact tree_setBelow h hadjust "" origin.span

end Draft

/-! ## One node with other attributes -/

/-- A node with other attributes, if it is at a path. -/
def Node.adjust (path : StatePath) (f : Attributes → Attributes) (node : Node) : Node :=
  if node.path = path then { node with attributes := f node.attributes } else node

/-- A graph in which the state at a path has other attributes. -/
def Graph.adjust (graph : Graph) (path : StatePath) (f : Attributes → Attributes) : Graph :=
  { graph with nodes := graph.nodes.map (Node.adjust path f) }

namespace Builder

variable (declared : Declared) (path : StatePath)

/-- A graph in the making in which the state at a path has other attributes. -/
def adjust (path : StatePath) (f : Attributes → Attributes) (b : Builder) : Builder :=
  { b with nodes := b.nodes.map (Node.adjust path f) }

theorem length_nodes_adjust (b : Builder) : (b.adjust path f).nodes.length = b.nodes.length :=
  List.length_map _

theorem register_adjust (b : Builder) (entry : Implementation) :
    (b.adjust path f).register entry = (b.register entry).adjust path f := by
  rw [register, register, apply_ite (Builder.adjust path f)]
  rfl

theorem addBlock_adjust (b : Builder) (kind : BlockKind) (parent : BlockParent)
    (reference : Reference) (invocation : Option String) (listIndex : Nat) :
    (b.adjust path f).addBlock declared kind parent reference invocation listIndex =
      (b.addBlock declared kind parent reference invocation listIndex).map id (adjust path f) := by
  have hregister : ∀ names entry, ({ b.adjust path f with names } : Builder).register entry =
      (({ b with names } : Builder).register entry).adjust path f :=
    fun names entry => register_adjust path { b with names } entry
  rw [addBlock, addBlock]
  dsimp only
  rw [show (b.adjust path f).names = b.names from rfl, hregister]
  rfl

theorem addActions_adjust (parent : BlockParent) (actions : List (Indexed Reference))
    (b : Builder) :
    addActions declared parent actions (b.adjust path f) =
      (addActions declared parent actions b).map id (adjust path f) := by
  induction actions generalizing b with
  | nil => rfl
  | cons action actions ih =>
    rw [addActions, addActions, addBlock_adjust]
    dsimp only [Prod.map]
    rw [ih]
    rfl

theorem addGuard_adjust (edge : EdgeId) (guard : Option Reference) (b : Builder) :
    addGuard declared edge guard (b.adjust path f) =
      (addGuard declared edge guard b).map id (adjust path f) := by
  cases guard with
  | none => rfl
  | some reference =>
    rw [addGuard, addGuard, addBlock_adjust]
    rfl

theorem addTransition_adjust (source : NodeId) (b : Builder) (t : Transition) :
    addTransition declared source (b.adjust path f) t =
      (addTransition declared source b t).adjust path f := by
  rw [addTransition, addTransition]
  dsimp only
  rw [show (b.adjust path f).edges = b.edges from rfl, addGuard_adjust]
  dsimp only [Prod.map]
  rw [addActions_adjust]
  rfl

theorem addTransitions_adjust (source : NodeId) (ts : List Transition) (b : Builder) :
    addTransitions declared source ts (b.adjust path f) =
      (addTransitions declared source ts b).adjust path f := by
  induction ts generalizing b with
  | nil => rfl
  | cons t ts ih =>
    rw [addTransitions, List.foldl_cons, addTransition_adjust]
    exact ih _

theorem addActor_adjust (node : NodeId) (source : Option Reference) (invocation : String)
    (index : Nat) (b : Builder) :
    addActor declared node source invocation index (b.adjust path f) =
      (addActor declared node source invocation index b).map id (adjust path f) := by
  cases source with
  | none => rfl
  | some reference =>
    rw [addActor, addActor]
    dsimp only
    rw [addBlock_adjust]
    rfl

theorem addInvocations_adjust (source : NodeId) (invocations : List Invocation) (b : Builder) :
    addInvocations declared source invocations (b.adjust path f) =
      (addInvocations declared source invocations b).map id (adjust path f) := by
  induction invocations generalizing b with
  | nil => rfl
  | cons invocation invocations ih =>
    rw [addInvocations, addInvocations, addActor_adjust]
    dsimp only [Prod.map]
    rw [addTransitions_adjust, addTransitions_adjust, ih]
    rfl

theorem addState_adjust (parent : Option NodeId) (info : StateInfo) (b : Builder) :
    addState declared parent (info.adjust path f) (b.adjust path f) =
      (addState declared parent info b).adjust path f := by
  obtain ⟨attributes, hinfo, hnode⟩ : ∃ attributes, info.adjust path f = { info with attributes } ∧
      ∀ node : Node, node.path = info.path → node.attributes = info.attributes →
        node.adjust path f = { node with attributes } := by
    by_cases hpath : info.path = path
    · refine ⟨f info.attributes, if_pos hpath, fun node hnode hattributes => ?_⟩
      rw [Node.adjust, if_pos (hnode.trans hpath), hattributes]
    · refine ⟨info.attributes, if_neg hpath, fun node hnode hattributes => ?_⟩
      rw [Node.adjust, if_neg (hnode ▸ hpath), ← hattributes]
  rw [hinfo, addState, addState]
  dsimp only
  rw [length_nodes_adjust, addActions_adjust]
  dsimp only [Prod.map]
  rw [addActions_adjust]
  dsimp only [Prod.map]
  rw [addInvocations_adjust]
  dsimp only [Prod.map]
  rw [addTransitions_adjust, Builder.adjust, Builder.adjust, List.map_append, List.map_singleton,
    hnode _ rfl rfl]
  rfl

mutual

theorem addTree_adjust (parent : Option NodeId) : ∀ (tree : StateTree) (b : Builder),
    addTree declared parent (tree.adjust path f) (b.adjust path f) =
      (addTree declared parent tree b).adjust path f
  | .node info children, b => by
    rw [StateTree.adjust, addTree, addTree, addState_adjust, length_nodes_adjust]
    exact addTrees_adjust b.nodes.length children _

theorem addTrees_adjust (parent : NodeId) : ∀ (trees : List StateTree) (b : Builder),
    addTrees declared parent (StateTree.adjustAll path f trees) (b.adjust path f) =
      (addTrees declared parent trees b).adjust path f
  | [], b => rfl
  | tree :: rest, b => by
    rw [StateTree.adjustAll, addTrees, addTrees, addTree_adjust]
    exact addTrees_adjust parent rest _

end

end Builder

namespace Node

variable (node : Node) (path : StatePath)

@[simp] theorem id_adjust : (node.adjust path f).id = node.id := by
  rw [adjust]
  split <;> rfl

@[simp] theorem parent_adjust : (node.adjust path f).parent = node.parent := by
  rw [adjust]
  split <;> rfl

@[simp] theorem key_adjust : (node.adjust path f).key = node.key := by
  rw [adjust]
  split <;> rfl

theorem explicitId_adjust
    (hid : ∀ attributes, (f attributes).explicitId = attributes.explicitId) :
    (node.adjust path f).attributes.explicitId = node.attributes.explicitId := by
  rw [adjust]
  split
  · exact hid _
  · rfl

end Node

/-- The index of children only tells handles and parents. -/
theorem childrenByParent_adjust (nodes : List Node) (path : StatePath) :
    childrenByParent (nodes.map (Node.adjust path f)) = childrenByParent nodes := by
  simp only [childrenByParent, List.length_map, List.filter_map, List.map_map, Function.comp_def,
    Node.id_adjust, Node.parent_adjust]

namespace Graph

variable (graph : Graph) (path : StatePath)

/-! ### Descriptors

A descriptor is read from the keys of states and the ids that are written, and these stay. -/

theorem child?_adjust (id : NodeId) (key : String) :
    (graph.adjust path f).child? id key = graph.child? id key := by
  have hchildren : (graph.adjust path f).children id = graph.children id := rfl
  have hkey : ∀ child, ((graph.adjust path f).node? child).any (·.key == key) =
      (graph.node? child).any (·.key == key) := by
    intro child
    rw [node?, node?, Graph.adjust, List.getElem?_map, Option.any_map]
    simp only [Node.key_adjust]
  rw [child?, child?, hchildren]
  simp only [hkey]

theorem descend?_adjust (id : NodeId) (keys : List String) :
    (graph.adjust path f).descend? id keys = graph.descend? id keys := by
  induction keys generalizing id with
  | nil => rfl
  | cons key keys ih =>
    rw [descend?, descend?, child?_adjust]
    exact congrArg _ (funext ih)

theorem siblingBase_adjust (source : NodeId) :
    (graph.adjust path f).siblingBase source = graph.siblingBase source := by
  simp only [siblingBase, parent?, node?, Graph.adjust, List.getElem?_map, Option.bind_map,
    Function.comp_def, Node.parent_adjust]

variable (hid : ∀ attributes, (f attributes).explicitId = attributes.explicitId)

include hid

theorem lookupId?_adjust (id : String) :
    (graph.adjust path f).lookupId? id = graph.lookupId? id := by
  have hnode : (graph.adjust path f).nodeWithId? id = graph.nodeWithId? id := by
    simp only [nodeWithId?, Graph.adjust, List.find?_map, Option.map_map, Function.comp_def,
      Node.id_adjust, Node.explicitId_adjust _ _ hid]
  have hroot : (graph.adjust path f).explicitId? root = graph.explicitId? root := by
    simp only [explicitId?, node?, Graph.adjust, List.getElem?_map, Option.bind_map,
      Function.comp_def, Node.explicitId_adjust _ _ hid]
  rw [lookupId?, lookupId?, hnode, hroot]

theorem resolve?_adjust (source : NodeId) (descriptor : String) :
    (graph.adjust path f).resolve? source descriptor = graph.resolve? source descriptor := by
  simp only [resolve?, lookupId?_adjust graph path hid, descend?_adjust, siblingBase_adjust]

theorem resolved_adjust : (graph.adjust path f).resolved = graph.resolved.adjust path f := by
  simp only [resolved, resolve?_adjust graph path hid]
  rfl

end Graph

/-- Changing what a state says of itself, and not its id, changes its attributes in the graph of
    the description, and nothing else there. -/
theorem extract_setStateProps {config : Expr} {path : StatePath} {old new : List Property}
    (h : stateProps? config path = some old) (hadjust : Adjusts f old new)
    (hid : ∀ attributes, (f attributes).explicitId = attributes.explicitId)
    (options setup : Option Expr) :
    (extract (setStateProps new path config) options setup).graph =
      (extract config options setup).graph.adjust path f := by
  have hbuilt := Builder.addTree_adjust (f := f) (declaredNames options setup) path none
    (readMachine config).1 {}
  have hgraph : ∀ b : Builder, (b.adjust path f).graph = b.graph.adjust path f := by
    intro b
    rw [Builder.graph, Builder.adjust]
    dsimp only
    rw [childrenByParent_adjust]
    rfl
  simp only [extract_eq, build]
  rw [readMachine_setStateProps h hadjust, ← Graph.resolved_adjust _ path hid, ← hgraph, ← hbuilt]
  rfl

end Statechart
