import Mathlib.Data.List.Sort
import Mathlib.Tactic.TFAE
import Statechart.Proofs.SoundExtraction
import Statechart.Proofs.StateOrder

/-!
# Subtrees

States are numbered parents first, so that those at and below a state have the numbers that follow
its own. What is asked of a subtree is therefore asked in any of four ways: by a walk over
children, by the parents of a node, by paths or by numbers.

* `Graph.Preordered`: the nodes at and below a node stand together, and it is the first of them;
* `Graph.subtree_eq_range`: the subtree of a node is a range of handles;
* `Graph.visit_eq_subtree`: the walk with a stack ends, and visits the subtree in its order;
* `Graph.subtree_extract`: the four ways to ask agree.
-/

namespace Statechart

/-! ## States that stand together -/

namespace Draft

/-- The states at and below a state stand together in the order of reading, and it is the first of
    them. -/
theorem exists_statesOf_split {config : Expr} {path : StatePath}
    (h : path ∈ (statesOf config).map (·.1)) :
    ∃ before below after, (statesOf config).map (·.1) = before ++ (path :: below) ++ after ∧
      (∀ p ∈ below, path <+: p) ∧ ∀ p ∈ before ++ after, ¬path <+: p := by
  obtain ⟨props, hprops⟩ | hroot :
      (∃ props, stateProps? config path = some props) ∨
        (statesOf config).map (·.1) = [[]] := by
    obtain ⟨state, hstate, rfl⟩ := List.mem_map.1 h
    cases config with
    | object origin props =>
      rw [statesOf_object] at hstate
      obtain ⟨info, hinfo, rfl⟩ := List.mem_map.1 hstate
      obtain ⟨rest, below, span, hbelow, rfl⟩ := exists_of_mem_infosBelow hinfo
      refine .inl ⟨below, ?_⟩
      rw [stateProps?_eq]
      exact hbelow
    | _ => exact .inr rfl
  · -- Putting the properties of the state in their own place splits the list.
    obtain ⟨before, after, hsplit, -, hapart⟩ := statesOf_setStateProps hprops props
    have hbelow : ∀ p ∈ (statesBelow path props).map (·.1), path <+: p := by
      intro p hp
      obtain ⟨state, hstate, rfl⟩ := List.mem_map.1 hp
      exact prefix_of_mem_statesBelow hstate
    rw [statesBelow_eq] at hsplit hbelow
    refine ⟨before.map (·.1), _, after.map (·.1), ?_,
      fun p hp => hbelow p (List.mem_cons_of_mem _ hp), ?_⟩
    · rw [hsplit, List.map_append, List.map_append, List.map_cons]
    · intro p hp
      rw [← List.map_append] at hp
      obtain ⟨state, hstate, rfl⟩ := List.mem_map.1 hp
      exact hapart state hstate
  · rw [hroot] at h ⊢
    obtain rfl := List.mem_singleton.1 h
    exact ⟨[], [], [], rfl, by simp, by simp⟩

end Draft

namespace Graph

/-- The nodes at and below a node stand together in the list of nodes, and it is the first of
    them. -/
def Preordered (graph : Graph) : Prop :=
  ∀ node ∈ graph.nodes, ∃ before below after,
    graph.nodes.map (·.path) = before ++ (node.path :: below) ++ after ∧
      (∀ p ∈ below, node.path <+: p) ∧ ∀ p ∈ before ++ after, ¬node.path <+: p

theorem preordered_extract (config : Expr) (options setup : Option Expr) :
    (extract config options setup).graph.Preordered := by
  have hpaths : (extract config options setup).graph.nodes.map (·.path) =
      (Draft.statesOf config).map (·.1) := by
    rw [← states_extract config options setup, states, List.map_map]
    rfl
  intro node hnode
  rw [hpaths]
  refine Draft.exists_statesOf_split ?_
  rw [← hpaths]
  exact List.mem_map_of_mem hnode

/-! ## Subtrees as ranges of handles -/

/-- A walk over a stack of nodes, for some rounds at most: the node on top is visited, and its
    children take its place. -/
def visit (graph : Graph) : Nat → List NodeId → Option (List NodeId)
  | _, [] => some []
  | 0, _ :: _ => none
  | rounds + 1, id :: stack => (visit graph rounds (graph.children id ++ stack)).map (id :: ·)

-- Handles are compared and counted as numbers.
variable {graph : Graph} {id above : Nat} {path p : StatePath}

theorem at_iff_getElem? : graph.At id path ↔ (graph.nodes.map (·.path))[id]? = some path := by
  rw [List.getElem?_map, Option.map_eq_some_iff]
  rfl

section

variable (hgraph : graph.WellFormed)

include hgraph

theorem at_of_mem_subtreeWithin {depth : Nat} (h : graph.At above path)
    (hid : id ∈ graph.subtreeWithin depth above) : ∃ p, graph.At id p ∧ path <+: p := by
  obtain ⟨q, -, hq⟩ := (mem_subtreeWithin_iff hgraph h).1 hid
  exact ⟨path ++ q, hq, List.prefix_append _ _⟩

variable (horder : graph.Preordered)

include horder

/-- The nodes at and below a node have the handles that follow its own. -/
theorem exists_range (h : graph.At above path) :
    ∃ count, above + count ≤ graph.nodes.length ∧ ∀ {id : Nat} {p}, graph.At id p →
      (path <+: p ↔ above ≤ id ∧ id < above + count) := by
  have hat := at_iff_getElem?.1 h
  obtain ⟨node, hnode, rfl⟩ := h
  obtain ⟨before, below, after, hpaths, hbelow, hapart⟩ := horder node (List.mem_of_getElem? hnode)
  -- The node is the first of those that stand together: its path occurs once.
  have habove : above = before.length := by
    have hnodup := hgraph.paths
    have hlt := (List.getElem?_eq_some_iff.1 hnode).1
    refine (List.getElem?_inj (by simpa using hlt) hnodup).1 (hat.trans ?_)
    rw [hpaths]
    simp
  have hlength : graph.nodes.length = before.length + (below.length + 1) + after.length := by
    rw [← List.length_map (f := (·.path)), hpaths, List.length_append, List.length_append]
    rfl
  refine ⟨below.length + 1, by omega, fun {id p} hid => ?_⟩
  have hid := at_iff_getElem?.1 hid
  rw [hpaths] at hid
  constructor
  · intro hprefix
    by_contra hout
    refine hapart p ?_ hprefix
    rcases Nat.lt_or_ge id before.length with hlt | hge
    · rw [List.append_assoc, List.getElem?_append_left hlt] at hid
      exact List.mem_append_left _ (List.mem_of_getElem? hid)
    · rw [List.getElem?_append_right (by simp; omega)] at hid
      exact List.mem_append_right _ (List.mem_of_getElem? hid)
  · rintro ⟨hge, hlt⟩
    rw [List.getElem?_append_left (by simp; omega),
      List.getElem?_append_right (by omega)] at hid
    rcases List.mem_cons.1 (List.mem_of_getElem? hid) with rfl | hmem
    · exact List.prefix_refl _
    · exact hbelow p hmem

/-- The walk over children visits handles in ascending order. -/
theorem pairwise_subtreeWithin {depth : Nat} (h : graph.At above path) :
    (graph.subtreeWithin depth above).Pairwise (· < ·) := by
  induction depth generalizing above path with
  | zero => exact List.pairwise_singleton _ _
  | succ depth ih =>
    rw [subtreeWithin, List.pairwise_cons, List.pairwise_flatMap]
    -- What is visited from a child has its handle or one that follows.
    have hbelow : ∀ {child id : Nat} {key}, graph.At child (path ++ [key]) →
        id ∈ graph.subtreeWithin depth child → child ≤ id := by
      intro child id key hchild hid
      obtain ⟨count, -, hcount⟩ := exists_range hgraph horder hchild
      obtain ⟨p, hp, hprefix⟩ := at_of_mem_subtreeWithin hgraph hchild hid
      exact ((hcount hp).1 hprefix).1
    refine ⟨fun id hid => ?_, fun child hchild => ?_, ?_⟩
    · obtain ⟨child, hchild, hbelowChild⟩ := List.mem_flatMap.1 hid
      obtain ⟨key, hkey⟩ := (mem_children_at hgraph h).1 hchild
      obtain ⟨parent, -, hlt, hparent, -⟩ := parent?_of_at hgraph hkey
      obtain rfl := At.unique hgraph hparent h
      exact Nat.lt_of_lt_of_le hlt (hbelow hkey hbelowChild)
    · obtain ⟨key, hkey⟩ := (mem_children_at hgraph h).1 hchild
      exact ih hkey
    · refine (hgraph.pairwise_children above).imp_of_mem ?_
      intro (left : Nat) (right : Nat) hleft hright hlt (x : Nat) hx (y : Nat) hy
      obtain ⟨key, hkey⟩ := (mem_children_at hgraph h).1 hleft
      obtain ⟨key', hkey'⟩ := (mem_children_at hgraph h).1 hright
      obtain ⟨count, -, hcount⟩ := exists_range hgraph horder hkey
      obtain ⟨p, hp, hprefix⟩ := at_of_mem_subtreeWithin hgraph hkey hx
      -- The later child is not below the earlier one, and so follows all that are.
      have hout : ¬path ++ [key] <+: path ++ [key'] := by
        intro hprefix
        have hsame := hprefix.eq_of_length (by simp)
        rw [← hsame] at hkey'
        exact Nat.ne_of_lt hlt (At.unique hgraph hkey hkey')
      have hafter : left + count ≤ right := by
        rw [hcount hkey'] at hout
        exact Nat.le_of_not_lt fun hin => hout ⟨Nat.le_of_lt hlt, hin⟩
      calc
        x < left + count := ((hcount hp).1 hprefix).2
        _ ≤ right := hafter
        _ ≤ y := hbelow hkey' hy

theorem pairwise_subtree (h : graph.At above path) :
    (graph.subtree above).Pairwise (· < ·) :=
  pairwise_subtreeWithin hgraph horder h

/-- The subtree of a node is a range of handles that starts with its own. -/
theorem subtree_eq_range (h : graph.At above path) :
    ∃ count, above + count ≤ graph.nodes.length ∧ graph.subtree above = List.range' above count ∧
      ∀ {id : Nat} {p}, graph.At id p → (path <+: p ↔ above ≤ id ∧ id < above + count) := by
  obtain ⟨count, hle, hcount⟩ := exists_range hgraph horder h
  refine ⟨count, hle, ?_, hcount⟩
  refine (pairwise_subtree hgraph horder h).eq_of_mem_iff List.pairwise_lt_range' ?_
  intro (id : Nat)
  rw [List.mem_range'_1]
  constructor
  · intro hid
    obtain ⟨q, hq⟩ := (mem_subtree_iff hgraph h).1 hid
    exact (hcount hq).1 (List.prefix_append _ _)
  · intro hid
    have hat := at_pathOf (Nat.lt_of_lt_of_le hid.2 hle)
    exact (mem_subtree_iff_path hgraph h hat).2 ((hcount hat).2 hid)

/-! ## The walk with a stack -/

/-- The subtree of a node is the node and the subtrees of its children. -/
theorem subtree_eq (h : graph.At above path) :
    graph.subtree above = above :: (graph.children above).flatMap graph.subtree := by
  have hdeeper : graph.subtree above = graph.subtreeWithin (graph.nodes.length + 1) above := by
    refine (pairwise_subtree hgraph horder h).eq_of_mem_iff
      (pairwise_subtreeWithin hgraph horder h) fun id => ?_
    rw [mem_subtree_iff hgraph h, mem_subtreeWithin_iff hgraph h]
    constructor
    · rintro ⟨q, hq⟩
      have hlength := hq.length_le hgraph
      have hlt := hq.lt_length
      rw [List.length_append] at hlength
      exact ⟨q, by omega, hq⟩
    · rintro ⟨q, -, hq⟩
      exact ⟨q, hq⟩
  rw [hdeeper, subtreeWithin]
  rfl

theorem visit_eq_flatMap {rounds : Nat} {stack : List NodeId}
    (hstack : ∀ id ∈ stack, ∃ path, graph.At id path)
    (hrounds : (stack.flatMap graph.subtree).length ≤ rounds) :
    graph.visit rounds stack = some (stack.flatMap graph.subtree) := by
  -- By the rounds: each visits one node of what is left of the subtrees.
  induction rounds generalizing stack with
  | zero =>
    cases stack with
    | nil => rfl
    | cons id stack =>
      obtain ⟨path, hat⟩ := hstack id List.mem_cons_self
      rw [List.flatMap_cons, subtree_eq hgraph horder hat] at hrounds
      exact absurd hrounds (by simp)
  | succ rounds ih =>
    cases stack with
    | nil => rfl
    | cons id stack =>
      obtain ⟨path, hat⟩ := hstack id List.mem_cons_self
      have hnext : (id :: stack).flatMap graph.subtree =
          id :: (graph.children id ++ stack).flatMap graph.subtree := by
        rw [List.flatMap_cons, subtree_eq hgraph horder hat, List.flatMap_append]
        rfl
      rw [hnext, List.length_cons] at hrounds
      rw [visit, hnext, ih ?_ (Nat.le_of_succ_le_succ hrounds)]
      · rfl
      intro next hmem
      rcases List.mem_append.1 hmem with hchild | hmem
      · obtain ⟨key, hkey⟩ := (mem_children_at hgraph hat).1 hchild
        exact ⟨_, hkey⟩
      · exact hstack next (List.mem_cons_of_mem _ hmem)

/-- The walk with a stack ends within as many rounds as there are nodes, and visits the subtree. -/
theorem visit_eq_subtree (h : graph.At above path) :
    graph.visit graph.nodes.length [above] = some (graph.subtree above) := by
  obtain ⟨count, hle, hrange, -⟩ := subtree_eq_range hgraph horder h
  have hstack : [above].flatMap graph.subtree = graph.subtree above := List.flatMap_singleton _ _
  rw [visit_eq_flatMap hgraph horder ?_ ?_, hstack]
  · rintro id hid
    obtain rfl := List.mem_singleton.1 hid
    exact ⟨path, h⟩
  · rw [hstack, hrange, List.length_range']
    omega

end

/-- A node is in the subtree of another, is it or lies below it, goes on from its path, or has one
    of the handles that follow its own: these are the same. The subtree is walked in the order of
    handles, each once. -/
theorem subtree_extract (config : Expr) (options setup : Option Expr) :
    let graph := (extract config options setup).graph
    ∀ above ∈ graph.nodes,
      (∀ node ∈ graph.nodes, [node.id ∈ graph.subtree above.id,
          graph.isSelfOrDescendant node.id above.id = true, above.path <+: node.path,
          above.id ≤ node.id ∧ node.id < above.id + (graph.subtree above.id).length].TFAE) ∧
        graph.visit graph.nodes.length [above.id] = some (graph.subtree above.id) ∧
        (∀ id ∈ graph.subtree above.id, ∃ node ∈ graph.nodes, node.id = id) ∧
        (graph.subtree above.id).Nodup ∧ (graph.subtree above.id).Pairwise (· < ·) := by
  intro graph above habove
  have hgraph : graph.WellFormed := extract_wellFormed config options setup
  have horder : graph.Preordered := preordered_extract config options setup
  have hat := hgraph.at_of_mem habove
  have hsorted := pairwise_subtree hgraph horder hat
  obtain ⟨count, -, hrange, hcount⟩ := subtree_eq_range hgraph horder hat
  refine ⟨fun node hnode => ?_, visit_eq_subtree hgraph horder hat, fun id hid => ?_,
    hsorted.imp Nat.ne_of_lt, hsorted⟩
  · have hat' := hgraph.at_of_mem hnode
    have hparents :
        graph.isSelfOrDescendant node.id above.id = true ↔ above.path <+: node.path := by
      rw [isSelfOrDescendant_iff hgraph hat' hat]
      exact ⟨fun ⟨q, hq⟩ => ⟨q, hq.symm⟩, fun ⟨q, hq⟩ => ⟨q, hq.symm⟩⟩
    tfae_have 1 ↔ 3 := mem_subtree_iff_path hgraph hat hat'
    tfae_have 2 ↔ 3 := hparents
    tfae_have 3 ↔ 4 := by rw [hrange, List.length_range']; exact hcount hat'
    tfae_finish
  · obtain ⟨q, node, hnode, -⟩ := (mem_subtree_iff hgraph hat).1 hid
    exact ⟨node, List.mem_of_getElem? hnode, hgraph.hierarchy.id_eq hnode⟩

/-- A state with a state two levels below it and one after it: the subtree leaves the last out. -/
theorem subtree_extract_nested :
    let config : Expr := .ofProps [.ofPair "states" (.ofProps [
      .ofPair "a" (.ofProps [.ofPair "states" (.ofProps [
        .ofPair "b" (.ofProps []),
        .ofPair "c" (.ofProps [.ofPair "states" (.ofProps [.ofPair "d" (.ofProps [])])])])]),
      .ofPair "e" (.ofProps [])])]
    let graph := (extract config none none).graph
    ∃ above ∈ graph.nodes, ∃ below ∈ graph.nodes, ∃ after ∈ graph.nodes,
      (above.path = ["a"] ∧ below.path = ["a", "c", "d"] ∧ after.path = ["e"]) ∧
      graph.subtree above.id = [1, 2, 3, 4] ∧
      (below.id ∈ graph.subtree above.id ↔ graph.isSelfOrDescendant below.id above.id = true) ∧
      (after.id ∈ graph.subtree above.id ↔
        above.id ≤ after.id ∧ after.id < above.id + (graph.subtree above.id).length) := by
  intro config graph
  have hpaths : graph.nodes.map (·.path) =
      [[], ["a"], ["a", "b"], ["a", "c"], ["a", "c", "d"], ["e"]] := by decide +kernel
  have hfind : ∀ (i : Nat) (path : StatePath), (graph.nodes.map (·.path))[i]? = some path →
      ∃ node ∈ graph.nodes, node.id = i ∧ node.path = path := by
    intro i path hi
    obtain ⟨node, hnode, hpath⟩ := at_iff_getElem?.2 hi
    exact ⟨node, List.mem_of_getElem? hnode,
      (extract_wellFormed config none none).hierarchy.id_eq hnode, hpath⟩
  obtain ⟨above, habove, hid, hpath⟩ := hfind 1 ["a"] (by rw [hpaths]; rfl)
  obtain ⟨below, hbelow, -, hpath'⟩ := hfind 4 ["a", "c", "d"]
    (by rw [hpaths]; rfl)
  obtain ⟨after, hafter, -, hpath''⟩ := hfind 5 ["e"] (by rw [hpaths]; rfl)
  have hsubtree : graph.subtree above.id = [1, 2, 3, 4] := by
    rw [hid]
    decide +kernel
  have hsame := (subtree_extract config none none above habove).1
  exact ⟨above, habove, below, hbelow, after, hafter, ⟨hpath, hpath', hpath''⟩, hsubtree,
    (hsame below hbelow).out 0 1, (hsame after hafter).out 0 3⟩

end Graph

end Statechart
