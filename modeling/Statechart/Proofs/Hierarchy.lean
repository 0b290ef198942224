import Mathlib.Data.List.Induction
import Statechart.Proofs.Extraction

/-!
# Nodes by their paths

In a well-formed graph a node is found by its path, and the hierarchy is that of the paths.

* `Graph.At`: the node with a handle has a path;
* `Graph.nodeAt?_eq_some_iff`, `Graph.descend?_eq_some_iff`: following keys leads to the node
  whose path has them at its end;
* `Graph.parent?_of_at`: the parent has the path without the last key;
* `Graph.isDescendant_iff`: a node lies below those whose paths its own goes on from;
* `Graph.mem_subtree_iff`: and so does the walk over its children say.
-/

namespace Statechart.Graph

variable {graph : Graph}

/-- The node with this handle has the path. -/
def At (graph : Graph) (id : NodeId) (path : StatePath) : Prop :=
  ∃ node, graph.nodes[id]? = some node ∧ node.path = path

theorem At.pathOf_eq {id : NodeId} {path : StatePath} (h : graph.At id path) :
    graph.pathOf id = path := by
  obtain ⟨node, hnode, rfl⟩ := h
  rw [pathOf, node?, hnode]
  rfl

theorem at_pathOf {id : NodeId} (h : id < graph.nodes.length) : graph.At id (graph.pathOf id) := by
  obtain ⟨node, hnode⟩ : ∃ node, graph.nodes[id]? = some node :=
    ⟨_, List.getElem?_eq_getElem h⟩
  refine ⟨node, hnode, ?_⟩
  rw [pathOf, node?, hnode]
  rfl

theorem At.lt_length {id : Nat} {path : StatePath} (h : graph.At id path) :
    id < graph.nodes.length := by
  obtain ⟨node, hnode, -⟩ := h
  exact (List.getElem?_eq_some_iff.1 hnode).1

theorem At.path_unique {id : NodeId} {p q : StatePath} (hp : graph.At id p) (hq : graph.At id q) :
    p = q :=
  hp.pathOf_eq.symm.trans hq.pathOf_eq

variable (hgraph : graph.WellFormed)

include hgraph

theorem WellFormed.getElem?_of_mem {node : Node} (hnode : node ∈ graph.nodes) :
    graph.nodes[node.id]? = some node := by
  obtain ⟨i, hi⟩ := List.mem_iff_getElem?.1 hnode
  rwa [hgraph.hierarchy.id_eq hi]

theorem WellFormed.at_of_mem {node : Node} (hnode : node ∈ graph.nodes) :
    graph.At node.id node.path :=
  ⟨node, hgraph.getElem?_of_mem hnode, rfl⟩

/-- One node is at a path. -/
theorem At.unique {i j : NodeId} {path : StatePath} (hi : graph.At i path) (hj : graph.At j path) :
    i = j := by
  obtain ⟨n, hn, hpath⟩ := hi
  obtain ⟨m, hm, hpath'⟩ := hj
  have hlt := (List.getElem?_eq_some_iff.1 hn).1
  refine (List.getElem?_inj (l := graph.nodes.map (·.path)) (by simpa using hlt)
    hgraph.paths).1 ?_
  rw [List.getElem?_map, List.getElem?_map, hn, hm, Option.map_some, Option.map_some, hpath, hpath']

theorem at_root : graph.At root [] := by
  cases hnodes : graph.nodes with
  | nil => exact absurd hnodes hgraph.nonempty
  | cons node rest =>
    have hnode : graph.nodes[0]? = some node := by rw [hnodes]; rfl
    exact ⟨node, hnode, (hgraph.hierarchy.root hnode).2⟩

theorem parent?_root : graph.parent? root = none := by
  obtain ⟨node, hnode, -⟩ := at_root hgraph
  have hnode' : graph.nodes[0]? = some node := hnode
  rw [parent?, node?, hnode, Option.bind_some, (hgraph.hierarchy.root hnode').1]

/-- A node that is not the root has a parent before it, whose path lacks the last key. -/
theorem parent?_of_at {id : NodeId} {path : StatePath} {key : String}
    (h : graph.At id (path ++ [key])) :
    ∃ parent, graph.parent? id = some parent ∧ parent < id ∧ graph.At parent path ∧
      (graph.node? id).map (·.key) = some key := by
  obtain ⟨node, hnode, hpath⟩ := h
  have hpos : 0 < id := by
    refine Nat.pos_of_ne_zero ?_
    rintro rfl
    rw [(hgraph.hierarchy.root hnode).2] at hpath
    exact absurd hpath (by simp)
  obtain ⟨j, m, hparent, hlt, hm, hpath'⟩ := hgraph.hierarchy.parent hnode hpos
  rw [hpath] at hpath'
  obtain ⟨hm', hkey⟩ := List.append_inj' hpath' rfl
  refine ⟨j, ?_, hlt, ⟨m, hm, hm'.symm⟩, ?_⟩
  · rw [parent?, node?, hnode, Option.bind_some, hparent]
  · rw [node?, hnode, Option.map_some, (List.cons.inj hkey).1]

/-- The paths above a node are those of nodes. -/
theorem exists_at_of_append {id : NodeId} {p q : StatePath} (h : graph.At id (p ++ q)) :
    ∃ above, graph.At above p := by
  induction q using List.reverseRecOn generalizing id with
  | nil => exact ⟨id, by rwa [List.append_nil] at h⟩
  | append_singleton q key ih =>
    rw [← List.append_assoc] at h
    obtain ⟨parent, -, -, hparent, -⟩ := parent?_of_at hgraph h
    exact ih hparent

/-- A node has the path of its parent with its key at the end. -/
theorem at_of_parent {id : NodeId} {node : Node} {path : StatePath} (h : graph.At id path)
    (hnode : node ∈ graph.nodes) (hparent : node.parent = some id) :
    graph.At node.id (path ++ [node.key]) := by
  obtain ⟨i, hi⟩ := List.mem_iff_getElem?.1 hnode
  rw [hgraph.hierarchy.id_eq hi]
  have hpos : 0 < i := by
    refine Nat.pos_of_ne_zero ?_
    rintro rfl
    rw [(hgraph.hierarchy.root hi).1] at hparent
    cases hparent
  obtain ⟨j, m, hj, -, hm, hpath⟩ := hgraph.hierarchy.parent hi hpos
  obtain rfl := Option.some.inj (hj.symm.trans hparent)
  exact ⟨node, hi, by rw [hpath, At.path_unique ⟨m, hm, rfl⟩ h]⟩

/-- The children of a node are the nodes that have it as their parent. -/
theorem WellFormed.children_eq (id : NodeId) :
    graph.children id = (graph.nodes.filter (·.parent == some id)).map (·.id) := by
  rw [children, hgraph.index]
  rcases Nat.lt_or_ge id graph.nodes.length with hlt | hle
  · rw [getElem?_childrenByParent hlt]
    rfl
  · -- All parents are nodes.
    have hnone : graph.nodes.filter (·.parent == some id) = [] := by
      refine List.filter_eq_nil_iff.2 fun node hnode hparent => ?_
      obtain ⟨i, hi⟩ := List.mem_iff_getElem?.1 hnode
      rcases Nat.eq_zero_or_pos i with rfl | hpos
      · rw [(hgraph.hierarchy.root hi).1] at hparent
        cases hparent
      · obtain ⟨j, m, hj, hlt, -⟩ := hgraph.hierarchy.parent hi hpos
        obtain rfl := Option.some.inj (hj.symm.trans (beq_iff_eq.1 hparent))
        have hlength := (List.getElem?_eq_some_iff.1 hi).1
        exact absurd (Nat.lt_of_lt_of_le (Nat.lt_trans hlt hlength) hle) (Nat.lt_irrefl _)
    rw [getElem?_childrenByParent_eq_none hle, hnone]
    rfl

theorem mem_children_at {id child : NodeId} {path : StatePath} (h : graph.At id path) :
    child ∈ graph.children id ↔ ∃ key, graph.At child (path ++ [key]) := by
  rw [hgraph.children_eq, List.mem_map]
  constructor
  · rintro ⟨node, hnode, rfl⟩
    obtain ⟨hmem, hparent⟩ := List.mem_filter.1 hnode
    exact ⟨node.key, at_of_parent hgraph h hmem (beq_iff_eq.1 hparent)⟩
  · rintro ⟨key, hchild⟩
    obtain ⟨parent, hparent, -, hat, -⟩ := parent?_of_at hgraph hchild
    obtain rfl := At.unique hgraph hat h
    obtain ⟨node, hnode, -⟩ := hchild
    rw [parent?, node?, hnode, Option.bind_some] at hparent
    exact ⟨node, List.mem_filter.2 ⟨List.mem_of_getElem? hnode, beq_iff_eq.2 hparent⟩,
      hgraph.hierarchy.id_eq hnode⟩

/-- The child with a key has the path with that key at its end. -/
theorem child?_eq_some_iff {id child : NodeId} {path : StatePath} {key : String}
    (h : graph.At id path) :
    graph.child? id key = some child ↔ graph.At child (path ++ [key]) := by
  -- A child with this key is at that path.
  have hsound : ∀ {child}, child ∈ graph.children id →
      (graph.node? child).any (·.key == key) = true → graph.At child (path ++ [key]) := by
    intro child hmem hkey
    obtain ⟨key', hat⟩ := (mem_children_at hgraph h).1 hmem
    obtain ⟨-, -, -, -, hkey'⟩ := parent?_of_at hgraph hat
    obtain ⟨node, hnode, heq⟩ := Option.map_eq_some_iff.1 hkey'
    rw [hnode, Option.any_some, beq_iff_eq, heq] at hkey
    exact hkey ▸ hat
  rw [child?]
  constructor
  · intro hfind
    have hkey := List.find?_some hfind
    exact hsound (List.mem_of_find?_eq_some hfind) hkey
  · intro hchild
    have hmem := (mem_children_at hgraph h).2 ⟨key, hchild⟩
    obtain ⟨-, -, -, -, hkey⟩ := parent?_of_at hgraph hchild
    obtain ⟨node, hnode, heq⟩ := Option.map_eq_some_iff.1 hkey
    -- The first child that is found has this path too, and so is the one.
    cases hfind : (graph.children id).find? fun child => (graph.node? child).any (·.key == key) with
    | none =>
      have hnot := List.find?_eq_none.1 hfind child hmem
      rw [hnode, Option.any_some, heq, beq_self_eq_true] at hnot
      exact absurd rfl hnot
    | some found =>
      have hkey' := List.find?_some hfind
      have hfound := hsound (List.mem_of_find?_eq_some hfind) hkey'
      rw [At.unique hgraph hfound hchild]

/-- Following keys leads to the node whose path has them at its end. -/
theorem descend?_eq_some_iff {id target : NodeId} {path : StatePath} {keys : List String}
    (h : graph.At id path) :
    graph.descend? id keys = some target ↔ graph.At target (path ++ keys) := by
  induction keys generalizing id path with
  | nil =>
    rw [descend?, List.append_nil]
    exact ⟨fun heq => Option.some.inj heq ▸ h, fun ht => congrArg some (At.unique hgraph h ht)⟩
  | cons key keys ih =>
    rw [descend?, Option.bind_eq_some_iff]
    have hsplit : path ++ key :: keys = path ++ [key] ++ keys := by simp
    constructor
    · rintro ⟨child, hchild, ht⟩
      rw [hsplit]
      exact (ih ((child?_eq_some_iff hgraph h).1 hchild)).1 ht
    · intro ht
      rw [hsplit] at ht
      obtain ⟨child, hchild⟩ := exists_at_of_append hgraph ht
      exact ⟨child, (child?_eq_some_iff hgraph h).2 hchild, (ih hchild).2 ht⟩

theorem nodeAt?_eq_some_iff {id : NodeId} {path : StatePath} :
    graph.nodeAt? path = some id ↔ graph.At id path := by
  rw [nodeAt?, descend?_eq_some_iff hgraph (at_root hgraph), List.nil_append]

/-! ## Ancestors -/

/-- The ancestors of a node are at the paths that its own goes on from. -/
theorem mem_ancestors_iff {id above : NodeId} {path : StatePath} (h : graph.At id path) :
    above ∈ graph.ancestors id ↔ ∃ p q, path = p ++ q ∧ q ≠ [] ∧ graph.At above p := by
  -- By the keys of the path from its end, the way the ancestors are climbed.
  induction path using List.reverseRecOn generalizing id with
  | nil =>
    obtain rfl := At.unique hgraph h (at_root hgraph)
    rw [ancestors, parent?_root hgraph]
    constructor
    · exact fun hmem => absurd hmem List.not_mem_nil
    · rintro ⟨p, q, hpq, hq, -⟩
      exact absurd (List.append_eq_nil_iff.1 hpq.symm).2 hq
  | append_singleton path key ih =>
    obtain ⟨parent, hparent, hlt, hat, -⟩ := parent?_of_at hgraph h
    rw [ancestors, hparent]
    simp only [hlt, if_true, List.mem_cons, ih hat]
    constructor
    · rintro (rfl | ⟨p, q, rfl, hq, habove⟩)
      · exact ⟨path, [key], rfl, List.cons_ne_nil _ _, hat⟩
      · exact ⟨p, q ++ [key], List.append_assoc _ _ _, by simp, habove⟩
    · rintro ⟨p, q, hpq, hq, habove⟩
      obtain ⟨q, last, rfl⟩ := (List.eq_nil_or_concat' q).resolve_left hq
      rw [← List.append_assoc] at hpq
      obtain ⟨rfl, -⟩ := List.append_inj' hpq rfl
      by_cases hnil : q = []
      · subst hnil
        rw [List.append_nil] at hat
        exact .inl (At.unique hgraph habove hat)
      · exact .inr ⟨p, q, rfl, hnil, habove⟩

/-- A node lies below another if its path goes on from that of the other. -/
theorem isDescendant_iff {id above : NodeId} {path p : StatePath} (h : graph.At id path)
    (habove : graph.At above p) :
    graph.isDescendant id above = true ↔ ∃ q, path = p ++ q ∧ q ≠ [] := by
  rw [isDescendant, List.contains_iff_mem, mem_ancestors_iff hgraph h]
  constructor
  · rintro ⟨p', q, hpath, hq, habove'⟩
    obtain rfl := habove.path_unique habove'
    exact ⟨q, hpath, hq⟩
  · rintro ⟨q, hpath, hq⟩
    exact ⟨p, q, hpath, hq, habove⟩

theorem isSelfOrDescendant_iff {id above : NodeId} {path p : StatePath} (h : graph.At id path)
    (habove : graph.At above p) :
    graph.isSelfOrDescendant id above = true ↔ ∃ q, path = p ++ q := by
  rw [isSelfOrDescendant, Bool.or_eq_true, beq_iff_eq, isDescendant_iff hgraph h habove]
  constructor
  · rintro (rfl | ⟨q, hpath, -⟩)
    · exact ⟨[], by rw [List.append_nil, h.path_unique habove]⟩
    · exact ⟨q, hpath⟩
  · rintro ⟨q, rfl⟩
    by_cases hq : q = []
    · subst hq
      rw [List.append_nil] at h
      exact .inl (At.unique hgraph h habove)
    · exact .inr ⟨q, rfl, hq⟩

/-! ## Subtrees -/

/-- A node comes after as many nodes as its path has keys. -/
theorem At.length_le {id : NodeId} {path : StatePath} (h : graph.At id path) :
    path.length ≤ id := by
  induction path using List.reverseRecOn generalizing id with
  | nil => exact Nat.zero_le _
  | append_singleton path key ih =>
    obtain ⟨parent, -, hlt, hat, -⟩ := parent?_of_at hgraph h
    rw [List.length_append]
    exact Nat.lt_of_le_of_lt (ih hat) hlt

theorem mem_subtreeWithin_iff {depth : Nat} {id above : NodeId} {path : StatePath}
    (h : graph.At above path) :
    id ∈ graph.subtreeWithin depth above ↔ ∃ q, q.length ≤ depth ∧ graph.At id (path ++ q) := by
  induction depth generalizing above path with
  | zero =>
    rw [subtreeWithin, List.mem_singleton]
    constructor
    · rintro rfl
      exact ⟨[], Nat.le_refl _, by rwa [List.append_nil]⟩
    · rintro ⟨q, hq, hid⟩
      rw [List.length_eq_zero_iff.1 (Nat.le_zero.1 hq), List.append_nil] at hid
      exact At.unique hgraph hid h
  | succ depth ih =>
    rw [subtreeWithin, List.mem_cons, List.mem_flatMap]
    constructor
    · rintro (rfl | ⟨child, hchild, hid⟩)
      · exact ⟨[], Nat.zero_le _, by rwa [List.append_nil]⟩
      · obtain ⟨key, hkey⟩ := (mem_children_at hgraph h).1 hchild
        obtain ⟨q, hq, hid⟩ := (ih hkey).1 hid
        exact ⟨key :: q, Nat.succ_le_succ hq, by simpa using hid⟩
    · rintro ⟨q, hq, hid⟩
      cases q with
      | nil => exact .inl (At.unique hgraph (by rwa [List.append_nil] at hid) h)
      | cons key q =>
        rw [← List.singleton_append, ← List.append_assoc] at hid
        obtain ⟨child, hkey⟩ := exists_at_of_append hgraph hid
        exact .inr ⟨child, (mem_children_at hgraph h).2 ⟨key, hkey⟩,
          (ih hkey).2 ⟨q, Nat.le_of_succ_le_succ hq, hid⟩⟩

/-- The subtree of a node holds the nodes at paths that its own starts. -/
theorem mem_subtree_iff {id above : NodeId} {path : StatePath} (h : graph.At above path) :
    id ∈ graph.subtree above ↔ ∃ q, graph.At id (path ++ q) := by
  rw [subtree, mem_subtreeWithin_iff hgraph h]
  constructor
  · rintro ⟨q, -, hid⟩
    exact ⟨q, hid⟩
  · rintro ⟨q, hid⟩
    have hlength := hid.length_le hgraph
    rw [List.length_append] at hlength
    exact ⟨q, Nat.le_trans (Nat.le_add_left _ _)
      (Nat.le_trans hlength (Nat.le_of_lt hid.lt_length)), hid⟩

theorem mem_subtree_iff_path {id above : NodeId} {path p : StatePath} (h : graph.At above path)
    (hid : graph.At id p) : id ∈ graph.subtree above ↔ path <+: p := by
  rw [mem_subtree_iff hgraph h]
  constructor
  · rintro ⟨q, hq⟩
    exact ⟨q, hq.path_unique hid⟩
  · rintro ⟨q, rfl⟩
    exact ⟨q, hid⟩

omit hgraph in
theorem keysBelow_eq {base target : NodeId} {p q : StatePath} (hbase : graph.At base p)
    (htarget : graph.At target (p ++ q)) : graph.keysBelow base target = q := by
  rw [keysBelow, hbase.pathOf_eq, htarget.pathOf_eq, List.drop_left]

end Statechart.Graph
