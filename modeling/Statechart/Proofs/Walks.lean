import Statechart.Proofs.WalkSteps

/-!
# The walk over a description

The walk fills an index of children as it goes, and looks up targets in a loop over those that are
pending when it is over. What it finds is the graph of the tree that the description is read into,
where the children of a node are all that have it as their parent, and the targets of an edge are
what its descriptors stand for.

* `childrenByParent_append`: the index of children when a node is begun;
* `Builder.walked`, `addState_walked`: a state and all those below it;
* `Graph.foldl_resolve`: the loop over pending targets;
* `walk_eq`, `extract_eq`: a whole description.
-/

namespace Statechart

open Property

/-! ## The index of children -/

/-- Each node has its parent, if any, among the nodes. -/
def ParentsAmong (nodes : List Node) : Prop :=
  ∀ node ∈ nodes, ∀ parent ∈ node.parent, parent < nodes.length

theorem length_childrenByParent (nodes : List Node) :
    (childrenByParent nodes).length = nodes.length := by
  rw [childrenByParent, List.length_map, List.length_range]

theorem getElem?_childrenByParent {nodes : List Node} {id : NodeId} (h : id < nodes.length) :
    (childrenByParent nodes)[id]? =
      some ((nodes.filter (·.parent == some id)).map (·.id)) := by
  rw [childrenByParent, List.getElem?_map, List.getElem?_range h, Option.map_some]

theorem getElem?_childrenByParent_eq_none {nodes : List Node} {id : NodeId}
    (h : nodes.length ≤ id) : (childrenByParent nodes)[id]? = none :=
  List.getElem?_eq_none (by rwa [length_childrenByParent])

/-- A node that is added is put behind the children of its parent, and has no children. -/
theorem childrenByParent_append {nodes : List Node} (h : ParentsAmong nodes) (node : Node) :
    childrenByParent (nodes ++ [node]) =
      match node.parent with
      | some parent => (childrenByParent nodes ++ [[]]).modify parent (· ++ [node.id])
      | none => childrenByParent nodes ++ [[]] := by
  have hold : ∀ {id}, id ≤ nodes.length → (childrenByParent nodes ++ [[]])[id]? =
      some ((nodes.filter (·.parent == some id)).map (·.id)) := by
    intro id hle
    rcases Nat.lt_or_eq_of_le hle with hlt | rfl
    · rw [List.getElem?_append_left (by rwa [length_childrenByParent]),
        getElem?_childrenByParent hlt]
    · -- No node has a parent that is not there yet.
      have hempty : nodes.filter (·.parent == some nodes.length) = [] :=
        List.filter_eq_nil_iff.2 fun m hm hparent =>
          absurd (h m hm _ (beq_iff_eq.1 hparent)) (Nat.lt_irrefl _)
      rw [hempty, List.getElem?_append_right (Nat.le_of_eq (length_childrenByParent nodes)),
        length_childrenByParent, Nat.sub_self]
      rfl
  have hnew : ∀ {id}, id ≤ nodes.length → (childrenByParent (nodes ++ [node]))[id]? =
      some ((nodes.filter (·.parent == some id)).map (·.id) ++
        if node.parent = some id then [node.id] else []) := by
    intro id hle
    rw [getElem?_childrenByParent (by simpa using Nat.lt_succ_of_le hle), List.filter_append,
      List.map_append, List.filter_singleton]
    by_cases hparent : node.parent = some id
    · simp [hparent]
    · simp [hparent, beq_eq_false_iff_ne.2 hparent]
  have hlength : (childrenByParent nodes ++ [[]]).length = nodes.length + 1 := by
    rw [List.length_append, length_childrenByParent, List.length_singleton]
  refine List.ext_getElem? fun id => ?_
  rcases Nat.lt_or_ge nodes.length id with hlt | hle
  · rw [getElem?_childrenByParent_eq_none (by rw [List.length_append]; exact hlt)]
    cases node.parent with
    | none => exact (List.getElem?_eq_none (hlength ▸ hlt)).symm
    | some parent =>
      refine (List.getElem?_eq_none ?_).symm
      rw [List.length_modify, hlength]
      exact hlt
  · rw [hnew hle]
    cases hparent : node.parent with
    | none => simpa using (hold hle).symm
    | some parent =>
      dsimp only
      rw [List.getElem?_modify, hold hle]
      by_cases heq : parent = id <;> simp [heq]

/-! ## States -/

/-- What a walk has found when it is between two states. -/
def Builder.walked (b : Builder) (rootId : Option String) (problems : List Problem) : Walk :=
  { nodes := b.nodes, childIndex := childrenByParent b.nodes, rootId : Walk }.fill b problems

namespace Walk

variable (declared : Declared) {b : Builder}

/-- A state is begun. Its parent lists it from now on. -/
theorem enter_walked (h : ParentsAmong b.nodes) (rootId : Option String)
    (problems : List Problem) (parent : Option NodeId) (key : String) (path : StatePath)
    (span : Option Span) :
    (b.walked rootId problems).enter parent key path span =
      let node : Node :=
        { id := b.nodes.length, parent, path, span, key, attributes := {}, entry := [], exit := [],
          invoke := [] }
      (b.nodes.length,
        ({ childIndex := childrenByParent (b.nodes ++ [node]), rootId : Walk }.withNode b.nodes
          node).fill b problems) := by
  dsimp only
  rw [childrenByParent_append h]
  cases parent <;> rfl

/-- A state is begun, and what it holds is added. -/
theorem addParts_walked (h : ParentsAmong b.nodes) (rootId : Option String)
    (problems : List Problem) (parent : Option NodeId) (key : String) (path : StatePath)
    (span : Option Span) (props : List Property) :
    addParts declared b.nodes.length path props
        ((b.walked rootId problems).enter parent key path span).2 =
      let rootId := if path.isEmpty then (readAttributes path props).1.explicitId else rootId
      let (info, more) := readStateInfo rootId key path span props
      (Builder.addState declared parent info b).walked rootId (problems ++ more) := by
  rw [enter_walked h]
  dsimp only
  rw [addParts_fill]
  dsimp only
  obtain ⟨node, hnodes, hid, hparent, -⟩ := (Builder.addState_nodes declared parent
    (readStateInfo (if path.isEmpty then (readAttributes path props).1.explicitId else rootId)
      key path span props).1 b).1
  -- Only the handle of the node and its parent count for the index.
  rw [childrenByParent_append h, Builder.walked, hnodes, childrenByParent_append h, hid, hparent]

theorem parentsAmong_addState (parent : Option NodeId) (info : StateInfo) (b : Builder)
    (h : ParentsAmong b.nodes) (hparent : ∀ p ∈ parent, p < b.nodes.length) :
    ParentsAmong (Builder.addState declared parent info b).nodes := by
  obtain ⟨node, hnodes, -, hnode, -⟩ := (Builder.addState_nodes declared parent info b).1
  rw [hnodes]
  intro m hm p hp
  rw [List.length_append]
  rcases List.mem_append.1 hm with hm | hm
  · exact Nat.lt_add_right 1 (h m hm p hp)
  · rw [List.mem_singleton.1 hm, hnode] at hp
    exact Nat.lt_add_right 1 (hparent p hp)

theorem parentsAmong_addTree (parent : Option NodeId) (tree : StateTree) (h : ParentsAmong b.nodes)
    (hparent : ∀ p ∈ parent, p < b.nodes.length) :
    ParentsAmong (Builder.addTree declared parent tree b).nodes ∧
      b.nodes.length ≤ (Builder.addTree declared parent tree b).nodes.length :=
  Builder.addTree_of_addState declared (P := fun b => ParentsAmong b.nodes)
    (parentsAmong_addState declared) parent tree b h hparent

theorem explicitId_readAttributes (path : StatePath) (props : List Property) :
    (readAttributes path props).1.explicitId = (value? props "id").bind Expr.text? := by
  simp only [readAttributes, readProperty, value?]
  cases prop? props "id" with
  | none => rfl
  | some prop => cases h : prop.value.text? <;> simp [h]

/-- A state that is not written as an object is all by itself. -/
theorem addState_of_props?_eq_none (h : ParentsAmong b.nodes) (rootId : Option String)
    (problems : List Problem) (parent : Option NodeId) (key : String) (path : StatePath)
    {expr : Expr} (hexpr : expr.props? = none) :
    addState declared parent key path expr (b.walked rootId problems) =
      let (tree, more) := readStateTree rootId key path expr
      (Builder.addTree declared parent tree b).walked rootId (problems ++ more) := by
  have henter := congrArg Prod.snd (enter_walked h rootId problems parent key path expr.span)
  cases expr with
  | object => cases hexpr
  | _ =>
    refine henter.trans ?_
    dsimp only [readStateTree]
    rw [List.append_nil]
    rfl

mutual

/-- The walk over a state adds its tree. What is written on the root becomes known when the walk has
    come to it. -/
theorem addState_walked (before rootId : Option String) (parent : Option NodeId) (key : String)
    (path : StatePath) (expr : Expr) (b : Builder) (problems : List Problem)
    (hroot : rootId = if path.isEmpty then rootIdOf expr else before)
    (hbefore : path.isEmpty → before = none) (h : ParentsAmong b.nodes)
    (hparent : ∀ p ∈ parent, p < b.nodes.length) :
    addState declared parent key path expr (b.walked before problems) =
      let (tree, more) := readStateTree rootId key path expr
      (Builder.addTree declared parent tree b).walked rootId (problems ++ more) := by
  cases expr with
  | object origin props =>
    have hparts := addParts_walked declared h before problems parent key path origin.span props
    rw [explicitId_readAttributes, ← rootIdOf_object origin, ← hroot] at hparts
    have hadded := parentsAmong_addState declared parent
      (readStateInfo rootId key path origin.span props).1 b h hparent
    obtain ⟨node, hnodes, -⟩ := (Builder.addState_nodes declared parent
      (readStateInfo rootId key path origin.span props).1 b).1
    have hbelow := addStatesOf_walked rootId b.nodes.length path props _
      (problems ++ (readStateInfo rootId key path origin.span props).2) hadded
      (by rw [hnodes, List.length_append]; exact Nat.lt_succ_self _)
    rw [addState, readStateTree]
    dsimp only at hparts hbelow ⊢
    rw [enter_walked h] at hparts ⊢
    dsimp only at hparts ⊢
    rw [hparts, hbelow, List.append_assoc]
    rfl
  | _ =>
    have hsame : rootId = before := by
      rw [hroot]
      split
      · next hpath => exact (hbefore hpath).symm
      · rfl
    rw [hsame]
    exact addState_of_props?_eq_none declared h before problems parent key path rfl

theorem addStatesOf_walked (rootId : Option String) (parent : NodeId) (path : StatePath)
    (props : List (PropertyOf Expr)) (b : Builder) (problems : List Problem)
    (h : ParentsAmong b.nodes) (hparent : parent < b.nodes.length) :
    addStatesOf declared parent path props (b.walked rootId problems) =
      let (trees, more) := readStatesOf rootId path props
      (Builder.addTrees declared parent trees b).walked rootId (problems ++ more) := by
  cases props with
  | nil =>
    rw [addStatesOf, readStatesOf]
    dsimp only
    rw [List.append_nil]
    rfl
  | cons prop rest =>
    obtain ⟨origin, key, keySpan, value⟩ := prop
    rw [addStatesOf, readStatesOf]
    split
    · exact addStatesOf_walked rootId parent path rest b problems h hparent
    · split
      · exact addStates_walked rootId parent path value b problems h hparent
      · exact addStatesOf_walked rootId parent path rest b problems h hparent

theorem addStates_walked (rootId : Option String) (parent : NodeId) (path : StatePath)
    (expr : Expr) (b : Builder) (problems : List Problem) (h : ParentsAmong b.nodes)
    (hparent : parent < b.nodes.length) :
    addStates declared parent path expr (b.walked rootId problems) =
      let (trees, more) := readStates rootId path expr
      (Builder.addTrees declared parent trees b).walked rootId (problems ++ more) := by
  cases expr with
  | object origin entries =>
    rw [addStates, readStates]
    exact addStateEntries_walked rootId parent path entries b problems h hparent
  | _ => rfl

theorem addStateEntries_walked (rootId : Option String) (parent : NodeId) (path : StatePath)
    (entries : List (PropertyOf Expr)) (b : Builder) (problems : List Problem)
    (h : ParentsAmong b.nodes) (hparent : parent < b.nodes.length) :
    addStateEntries declared parent path entries (b.walked rootId problems) =
      let (trees, more) := readStateEntries rootId path entries
      (Builder.addTrees declared parent trees b).walked rootId (problems ++ more) := by
  cases entries with
  | nil =>
    rw [addStateEntries, readStateEntries]
    dsimp only
    rw [List.append_nil]
    rfl
  | cons entry rest =>
    obtain ⟨origin, key, keySpan, value⟩ := entry
    -- What is reported of an entry comes before what is reported of the others.
    have hrest : ∀ own, addStateEntries declared parent path rest
        ((b.walked rootId problems).report [own]) =
          (Builder.addTrees declared parent (readStateEntries rootId path rest).1 b).walked rootId
            (problems ++ own :: (readStateEntries rootId path rest).2) := by
      intro own
      have hall := addStateEntries_walked rootId parent path rest b (problems ++ [own]) h hparent
      dsimp only at hall
      rw [List.append_assoc] at hall
      exact hall
    rw [addStateEntries, readStateEntries]
    dsimp only
    cases key.name with
    | none => exact hrest _
    | some name =>
      dsimp only
      split
      · exact addStateEntries_walked rootId parent path rest b problems h hparent
      · split
        · exact hrest _
        · have hpath : (path ++ [name]).isEmpty = false := by simp
          have hsome : ∀ p ∈ some parent, p < b.nodes.length :=
            fun p hp => Option.some.inj hp ▸ hparent
          have hstate := addState_walked rootId rootId (some parent) name (path ++ [name]) value b
            problems (by rw [hpath]; rfl) (by simp) h hsome
          obtain ⟨hadded, hle⟩ := parentsAmong_addTree declared (some parent)
            (readStateTree rootId name (path ++ [name]) value).1 h hsome
          have hall := addStateEntries_walked rootId parent path rest _
            (problems ++ (readStateTree rootId name (path ++ [name]) value).2) hadded
            (Nat.lt_of_lt_of_le hparent hle)
          dsimp only at hstate hall ⊢
          rw [hstate, hall, List.append_assoc]
          rfl

end

end Walk

/-! ## Targets -/

/-- Where handles are positions, they are those of their own. -/
theorem eq_of_map_eq_range {α : Type} {l : List α} {f : α → Nat}
    (h : l.map f = List.range l.length) {i : Nat} {a : α} (hi : l[i]? = some a) : f a = i := by
  have hmap : (l.map f)[i]? = some (f a) := by rw [List.getElem?_map, hi, Option.map_some]
  rw [h, List.getElem?_range (List.getElem?_eq_some_iff.1 hi).1] at hmap
  exact (Option.some.inj hmap).symm

theorem getElem?_of_map_eq_range {α : Type} {l : List α} {f : α → Nat}
    (h : l.map f = List.range l.length) {a : α} (ha : a ∈ l) : l[f a]? = some a := by
  obtain ⟨i, hi⟩ := List.mem_iff_getElem?.1 ha
  rwa [eq_of_map_eq_range h hi]

namespace Graph

variable (graph : Graph) (edges : List Edge)

theorem descend?_edges (id : NodeId) (keys : List String) :
    { graph with edges }.descend? id keys = graph.descend? id keys := by
  induction keys generalizing id with
  | nil => rfl
  | cons key keys ih =>
    have hchild : { graph with edges }.child? id key = graph.child? id key := rfl
    rw [descend?, descend?, hchild]
    exact Option.bind_congr fun child _ => ih child

/-- What a descriptor stands for does not depend on the edges. -/
theorem resolve?_edges (source : NodeId) (descriptor : String) :
    { graph with edges }.resolve? source descriptor = graph.resolve? source descriptor := by
  rw [resolve?, resolve?]
  simp only [descend?_edges]
  rfl

/-- The graph with the targets that have been looked up. -/
def targeted (done : List Pending) : Graph :=
  { graph with
    edges := graph.edges.map fun edge =>
      { edge with
        targets := edge.targets ++ (done.filter (·.edge == edge.id)).filterMap fun pending =>
          graph.resolve? edge.source pending.descriptor } }

theorem targeted_nil : graph.targeted [] = graph := by
  have hsame : (fun edge : Edge => { edge with targets := edge.targets ++ [] }) = id :=
    funext fun edge => by rw [List.append_nil]; rfl
  rw [targeted]
  simp only [List.filter_nil, List.filterMap_nil, hsame, List.map_id]

variable {graph}

/-- What is pending adds to the targets of its own edge, if it stands for a state. -/
theorem targets_snoc (done : List Pending) (pending : Pending) (id : EdgeId)
    (f : Pending → Option NodeId) :
    ((done ++ [pending]).filter (·.edge == id)).filterMap f =
      (done.filter (·.edge == id)).filterMap f ++
        if pending.edge = id then (f pending).toList else [] := by
  rw [List.filter_append, List.filterMap_append, List.filter_singleton]
  by_cases hid : pending.edge = id
  · cases hf : f pending <;> simp [hid, hf]
  · simp [hid, beq_eq_false_iff_ne.2 hid]

/-- A target that stands for no state changes nothing. -/
theorem targeted_snoc_of_none (done : List Pending) {pending : Pending}
    (h : ∀ edge ∈ graph.edges, edge.id = pending.edge →
      graph.resolve? edge.source pending.descriptor = none) :
    graph.targeted (done ++ [pending]) = graph.targeted done := by
  have hedges : ∀ edge ∈ graph.edges, ((done ++ [pending]).filter (·.edge == edge.id)).filterMap
      (fun p => graph.resolve? edge.source p.descriptor) =
        (done.filter (·.edge == edge.id)).filterMap fun p =>
          graph.resolve? edge.source p.descriptor := by
    intro edge hedge
    rw [targets_snoc]
    split
    · next hid => rw [h edge hedge hid.symm, Option.toList_none, List.append_nil]
    · rw [List.append_nil]
  rw [targeted, targeted]
  refine congrArg (fun edges => { graph with edges }) (List.map_congr_left fun edge hedge => ?_)
  rw [hedges edge hedge]

/-- Looking up a target adds it to those of its edge, or reports it. -/
theorem resolve_targeted (hids : graph.edges.map (·.id) = List.range graph.edges.length)
    (done : List Pending) (problems : List Problem) (pending : Pending) :
    Extraction.resolve ⟨graph.targeted done, problems⟩ pending =
      ⟨graph.targeted (done ++ [pending]), problems ++ (pending.problem? graph).toList⟩ := by
  have hedge? : (graph.targeted done).edge? pending.edge =
      (graph.edge? pending.edge).map fun edge => { edge with
        targets := edge.targets ++ (done.filter (·.edge == edge.id)).filterMap fun pending =>
          graph.resolve? edge.source pending.descriptor } := by
    rw [edge?, edge?, targeted, List.getElem?_map]
  have hresolve : ∀ source descriptor, (graph.targeted done).resolve? source descriptor =
      graph.resolve? source descriptor := resolve?_edges graph _
  rw [Extraction.resolve, Pending.problem?, hedge?]
  cases hedge : graph.edge? pending.edge with
  | none =>
    rw [targeted_snoc_of_none done, Option.bind_none, Option.toList_none, List.append_nil]
    · rfl
    · intro edge hmem heq
      rw [edge?, ← heq, getElem?_of_map_eq_range hids hmem] at hedge
      cases hedge
  | some edge =>
    dsimp only [Option.map_some, Option.bind_some]
    rw [hresolve]
    cases htarget : graph.resolve? edge.source pending.descriptor with
    | none =>
      rw [targeted_snoc_of_none done]
      · rfl
      · intro other hmem heq
        rw [edge?, ← heq, getElem?_of_map_eq_range hids hmem] at hedge
        rw [Option.some.inj hedge, htarget]
    | some target =>
      rw [Option.toList_none, List.append_nil]
      -- Handles are positions, so that the edge that is changed is the one that waits.
      refine congrArg (fun edges => Extraction.mk { graph with edges } problems)
        (List.ext_getElem? fun i => ?_)
      rw [targeted]
      dsimp only
      rw [List.getElem?_modify, List.getElem?_map, List.getElem?_map]
      cases hi : graph.edges[i]? with
      | none => rfl
      | some other =>
        rw [Option.map_some, Option.map_some, targets_snoc, eq_of_map_eq_range hids hi]
        by_cases heq : pending.edge = i
        · rw [edge?, heq, hi] at hedge
          obtain rfl := Option.some.inj hedge
          simp [heq, htarget]
        · simp [heq]

/-- The loop over what is pending. -/
theorem foldl_resolve (hids : graph.edges.map (·.id) = List.range graph.edges.length)
    (pending : List Pending) (problems : List Problem) :
    pending.foldl Extraction.resolve ⟨graph, problems⟩ =
      ⟨graph.targeted pending, problems ++ pending.filterMap (·.problem? graph)⟩ := by
  have hloop : ∀ done problems, pending.foldl Extraction.resolve ⟨graph.targeted done, problems⟩ =
      ⟨graph.targeted (done ++ pending), problems ++ pending.filterMap (·.problem? graph)⟩ := by
    induction pending with
    | nil => simp
    | cons p pending ih =>
      intro done problems
      rw [List.foldl_cons, resolve_targeted hids, ih, List.append_assoc, List.append_assoc,
        List.singleton_append]
      cases hp : p.problem? graph <;> simp [hp]
  have hall := hloop [] problems
  rwa [targeted_nil] at hall

end Graph

namespace Builder.Consistent

variable {b : Builder} {loose : List BlockId} (h : b.Consistent loose)

include h

/-- What is pending of an edge are its descriptors. -/
theorem filterMap_pending {α : Type} {edge : Edge} (hedge : edge ∈ b.edges)
    (f : String → Option α) :
    (b.pending.filter (·.edge == edge.id)).filterMap (fun pending => f pending.descriptor) =
      edge.descriptors.filterMap f := by
  have hnodup : (b.edges.map (·.id)).Nodup := h.edgeIds ▸ List.nodup_range
  have honly : ∀ edges : List Edge, (edges.map (·.id)).Nodup → edge ∈ edges →
      (edges.flatMap fun e => (e.descriptors.map (e.id, ·)).filter (·.1 == edge.id)) =
        edge.descriptors.map (edge.id, ·) := by
    have hother : ∀ e : Edge, e.id ≠ edge.id →
        (e.descriptors.map (e.id, ·)).filter (·.1 == edge.id) = [] := by
      intro e hne
      simp [List.filter_map, Function.comp_def, hne]
    intro edges hnodup hmem
    induction edges with
    | nil => cases hmem
    | cons e rest ih =>
      rw [List.map_cons, List.nodup_cons] at hnodup
      rw [List.flatMap_cons]
      rcases List.mem_cons.1 hmem with rfl | hmem
      · have hrest : (rest.flatMap fun e =>
            (e.descriptors.map (e.id, ·)).filter (·.1 == edge.id)) = [] :=
          List.flatMap_eq_nil_iff.2 fun e he =>
            hother e fun heq => hnodup.1 (heq ▸ List.mem_map_of_mem he)
        rw [hrest, List.append_nil]
        simp [List.filter_map, Function.comp_def]
      · rw [hother e fun heq => hnodup.1 (heq ▸ List.mem_map_of_mem hmem), List.nil_append]
        exact ih hnodup.2 hmem
  have hpairs : (b.pending.filter (·.edge == edge.id)).map (fun p => (p.edge, p.descriptor)) =
      edge.descriptors.map (edge.id, ·) := by
    rw [← honly b.edges hnodup hedge, ← List.filter_flatMap, ← h.pending, List.filter_map]
    rfl
  have hfirst := congrArg (List.filterMap fun v : EdgeId × String => f v.2) hpairs
  rwa [List.filterMap_map, List.filterMap_map] at hfirst

/-- The loop over what is pending gives each edge what its descriptors stand for. -/
theorem targeted_pending : b.graph.targeted b.pending = b.graph.resolved := by
  rw [Graph.targeted, Graph.resolved]
  refine congrArg (fun edges => { b.graph with edges }) (List.map_congr_left fun edge hedge => ?_)
  rw [h.untargeted edge hedge, List.nil_append, h.filterMap_pending hedge]

end Builder.Consistent

/-! ## Descriptions -/

section

variable (config : Expr) (options setup : Option Expr)

theorem consistent_build : (build config options setup).Consistent [] :=
  Builder.consistent_addTree (declaredNames options setup) (readMachine config).1
    Builder.consistent_empty

/-- The walk over a description adds the tree that it is read into. -/
theorem walk_eq : walk config options setup =
    (build config options setup).walked (rootIdOf config) (readMachine config).2 := by
  have hnone : ParentsAmong ({} : Builder).nodes := fun _ h => absurd h List.not_mem_nil
  exact Walk.addState_walked (declaredNames options setup) none (rootIdOf config) none "" [] config
    {} [] rfl (fun _ => rfl) hnone fun _ h => nomatch h

/-- What is extracted from a description is the graph of the tree that it is read into, and what is
    met on the way. -/
theorem extract_eq : extract config options setup =
    { graph := (build config options setup).graph.resolved
      problems := (readMachine config).2 ++ (build config options setup).pending.filterMap
        (·.problem? (build config options setup).graph) } := by
  have hconsistent := consistent_build config options setup
  rw [extract, walk_eq, Walk.finish]
  exact (Graph.foldl_resolve hconsistent.edgeIds _ _).trans
    (congrArg (Extraction.mk · _) hconsistent.targeted_pending)

theorem blocks_extract :
    (extract config options setup).graph.blocks = (build config options setup).blocks := by
  rw [extract_eq]
  rfl

end

end Statechart
