import Statechart.Proofs.StateOrder

/-!
# Reading descriptors by paths

What a descriptor on a state stands for depends on nothing but the list of the states with their
ids. Reading by the list finds the path of the state that reading by the graph finds, whether or not
ids are distinct, so that graphs with the same list read the same. When a state is taken away, what
stood for a state that stays goes on standing for it.

* `StateList.resolve?`: the path of the state that a descriptor stands for;
* `Graph.map_pathOf_resolve?`: it is the path of the node that is found;
* `StateList.resolve?_without`: descriptors that do not lead into a state outlive it.
-/

namespace Statechart

namespace StateList

variable (states : StateList)

/-- The path, if there is a state at it. -/
def at? (path : StatePath) : Option StatePath :=
  if states.any (·.1 == path) then some path else none

/-- The path of the state with this id: the first that is given it, or the root without one. -/
def named? (id : String) : Option StatePath :=
  match states.find? (·.2 == some id) with
  | some state => some state.1
  | none =>
    if (states.head?.bind (·.2)).isNone && id == Graph.defaultRootId then some [] else none

/-- The path of the state that a descriptor on the state at `source` stands for. -/
def resolve? (source : StatePath) (descriptor : String) : Option StatePath :=
  match splitDescriptor descriptor with
  | (.idAnchored, rest) =>
    match states.named? (String.ofList rest) with
    | some path => some path
    | none =>
      (splitAnchor? rest).bind fun (id, keys) =>
        (states.named? id).bind fun anchor => states.at? (anchor ++ keys)
  | (.relative, rest) => states.at? (source ++ keysOf rest)
  | (.sibling, rest) => states.at? (source.dropLast ++ keysOf rest)

end StateList

namespace Graph

variable {graph : Graph} (hgraph : graph.WellFormed)

theorem any_states_iff {path : StatePath} :
    graph.states.any (·.1 == path) = true ↔ graph.Has path := by
  rw [states, List.any_map, List.any_eq_true]
  constructor
  · rintro ⟨node, hnode, hpath⟩
    obtain ⟨id, hid⟩ := List.mem_iff_getElem?.1 hnode
    exact ⟨id, node, hid, beq_iff_eq.1 hpath⟩
  · rintro ⟨id, node, hid, hpath⟩
    exact ⟨node, List.mem_of_getElem? hid, beq_iff_eq.2 hpath⟩

include hgraph

theorem map_pathOf_descend? {base : NodeId} {path : StatePath} (hbase : graph.At base path)
    (keys : List String) :
    (graph.descend? base keys).map graph.pathOf = graph.states.at? (path ++ keys) := by
  rw [StateList.at?]
  cases hfound : graph.descend? base keys with
  | some target =>
    have hat := (descend?_eq_some_iff hgraph hbase).1 hfound
    rw [if_pos (any_states_iff.2 ⟨target, hat⟩), Option.map_some, hat.pathOf_eq]
  | none =>
    rw [if_neg, Option.map_none]
    rw [any_states_iff]
    rintro ⟨target, hat⟩
    rw [(descend?_eq_some_iff hgraph hbase).2 hat] at hfound
    cases hfound

/-- Looking up an id finds the first state that is given it. -/
theorem map_pathOf_lookupId? (id : String) :
    (graph.lookupId? id).map graph.pathOf = graph.states.named? id := by
  have hroot : graph.states.head?.bind (·.2) = graph.explicitId? root := by
    rw [states, List.head?_map, explicitId?, node?, root, List.head?_eq_getElem?]
    cases graph.nodes[0]? <;> rfl
  rw [lookupId?, StateList.named?, nodeWithId?, hroot, states, List.find?_map]
  have hpredicate : ((fun state : StatePath × Option String => state.2 == some id) ∘
      fun node : Node => (node.path, node.attributes.explicitId)) =
        fun node => node.attributes.explicitId == some id := rfl
  rw [hpredicate]
  cases hnode : graph.nodes.find? fun node => node.attributes.explicitId == some id with
  | some node =>
    exact congrArg some (hgraph.at_of_mem (List.mem_of_find?_eq_some hnode)).pathOf_eq
  | none =>
    simp only [Option.map_none]
    split
    · exact congrArg some (at_root hgraph).pathOf_eq
    · rfl

theorem at_of_lookupId? {id : String} {node : NodeId} (h : graph.lookupId? id = some node) :
    graph.At node (graph.pathOf node) := by
  rw [lookupId?] at h
  split at h
  · next found hfound =>
    cases h
    obtain ⟨holder, hholder, rfl⟩ := Option.map_eq_some_iff.1 hfound
    have hat := hgraph.at_of_mem (List.mem_of_find?_eq_some hholder)
    rwa [hat.pathOf_eq]
  · split at h
    · cases h
      rw [(at_root hgraph).pathOf_eq]
      exact at_root hgraph
    · cases h

/-- Reading by the list of the states finds the path of the node that is found. -/
theorem map_pathOf_resolve? {source : NodeId} {path : StatePath} (hsource : graph.At source path)
    (descriptor : String) :
    (graph.resolve? source descriptor).map graph.pathOf =
      graph.states.resolve? path descriptor := by
  rcases hparts : splitDescriptor descriptor with ⟨family, rest⟩
  rw [resolve?, StateList.resolve?, hparts]
  cases family with
  | idAnchored =>
    dsimp only
    rw [← map_pathOf_lookupId? hgraph]
    cases hwhole : graph.lookupId? (String.ofList rest) with
    | some node => rfl
    | none =>
      simp only [Option.map_none]
      cases splitAnchor? rest with
      | none => rfl
      | some anchored =>
        simp only [Option.bind_some]
        rw [← map_pathOf_lookupId? hgraph]
        cases hanchor : graph.lookupId? anchored.1 with
        | none => rfl
        | some anchor => exact map_pathOf_descend? hgraph (at_of_lookupId? hgraph hanchor) _
  | relative => exact map_pathOf_descend? hgraph hsource _
  | sibling => exact map_pathOf_descend? hgraph (at_siblingBase hgraph hsource) _

/-- What a descriptor stands for is a node of the graph. -/
theorem at_of_resolve? {source target : NodeId} {path : StatePath} {descriptor : String}
    (hsource : graph.At source path) (h : graph.resolve? source descriptor = some target) :
    graph.At target (graph.pathOf target) := by
  rw [resolve?] at h
  split at h
  · split at h
    · next node hnode =>
      cases h
      exact at_of_lookupId? hgraph hnode
    · obtain ⟨⟨id, keys⟩, -, h⟩ := Option.bind_eq_some_iff.1 h
      obtain ⟨anchor, hanchor, h⟩ := Option.bind_eq_some_iff.1 h
      have hat := (descend?_eq_some_iff hgraph (at_of_lookupId? hgraph hanchor)).1 h
      rwa [hat.pathOf_eq]
  · have hat := (descend?_eq_some_iff hgraph hsource).1 h
    rwa [hat.pathOf_eq]
  · have hat := (descend?_eq_some_iff hgraph (at_siblingBase hgraph hsource)).1 h
    rwa [hat.pathOf_eq]

theorem head?_states : graph.states.head?.map (·.1) = some [] := by
  obtain ⟨node, hnode, hpath⟩ := at_root hgraph
  rw [states, List.head?_map, List.head?_eq_getElem?, show graph.nodes[0]? = some node from hnode,
    Option.map_some, Option.map_some, hpath]

end Graph

/-! ## Without a state -/

namespace StateList

variable {states : StateList} {path : StatePath}

/-- The first state of those that stay is found again. -/
theorem find?_without {p : StatePath × Option String → Bool} {state : StatePath × Option String}
    (h : states.find? p = some state) (hstays : ¬path <+: state.1) :
    (states.without path).find? p = some state := by
  have hkeep : (!path.isPrefixOf state.1) = true := by
    rw [Bool.not_eq_true', Bool.eq_false_iff, ne_eq, List.isPrefixOf_iff_prefix]
    exact hstays
  obtain ⟨hp, before, after, rfl, hbefore⟩ := List.find?_eq_some_iff_append.1 h
  refine List.find?_eq_some_iff_append.2 ⟨hp, without before path, without after path, ?_, ?_⟩
  · exact (without_append before (state :: after) path).trans
      (congrArg _ (List.filter_cons_of_pos hkeep))
  · intro other hother
    exact hbefore other (List.mem_filter.1 hother).1

theorem find?_without_eq_none {p : StatePath × Option String → Bool}
    (h : states.find? p = none) : (states.without path).find? p = none := by
  rw [List.find?_eq_none] at h ⊢
  exact fun state hstate => h state (List.mem_filter.1 hstate).1

theorem at?_without {target : StatePath} (h : states.at? target = some target)
    (hstays : ¬path <+: target) : (states.without path).at? target = some target := by
  rw [at?] at h ⊢
  split at h
  · next hany =>
    obtain ⟨state, hstate, hpath⟩ := List.any_eq_true.1 hany
    refine if_pos (List.any_eq_true.2 ⟨state, List.mem_filter.2 ⟨hstate, ?_⟩, hpath⟩)
    rw [Bool.not_eq_true', Bool.eq_false_iff, ne_eq, List.isPrefixOf_iff_prefix,
      beq_iff_eq.1 hpath]
    exact hstays
  · cases h

theorem eq_of_at? {target found : StatePath} (h : states.at? target = some found) :
    found = target := by
  rw [at?] at h
  split at h
  · exact (Option.some.inj h).symm
  · cases h

variable (hroot : states.head?.map (·.1) = some []) (hpath : path ≠ [])

include hroot hpath

/-- The root stays. -/
theorem head?_without : (states.without path).head? = states.head? := by
  cases states with
  | nil => rfl
  | cons state rest =>
    have hstate : state.1 = [] := Option.some.inj hroot
    rw [without, List.filter_cons_of_pos]
    · rfl
    · rw [hstate, Bool.not_eq_true', Bool.eq_false_iff, ne_eq, List.isPrefixOf_iff_prefix,
        List.prefix_nil]
      exact hpath

theorem named?_without {id : String} {found : StatePath} (h : states.named? id = some found)
    (hstays : ¬path <+: found) : (states.without path).named? id = some found := by
  rw [named?] at h ⊢
  split at h
  · next state hstate =>
    cases h
    rw [find?_without hstate hstays]
  · next hnone =>
    rw [find?_without_eq_none hnone, head?_without hroot hpath]
    exact h

theorem named?_without_eq_none {id : String} (h : states.named? id = none) :
    (states.without path).named? id = none := by
  rw [named?] at h ⊢
  split at h
  · cases h
  · next hnone =>
    rw [find?_without_eq_none hnone, head?_without hroot hpath]
    exact h

/-- A descriptor that does not lead into a state goes on standing for what it stands for when the
    state is taken away. -/
theorem resolve?_without {source target : StatePath} {descriptor : String}
    (h : states.resolve? source descriptor = some target) (hstays : ¬path <+: target) :
    (states.without path).resolve? source descriptor = some target := by
  rcases hparts : splitDescriptor descriptor with ⟨family, rest⟩
  rw [resolve?, hparts] at h ⊢
  cases family with
  | idAnchored =>
    dsimp only at h ⊢
    split at h
    · next found hfound =>
      cases h
      rw [named?_without hroot hpath hfound hstays]
    · next hnone =>
      rw [named?_without_eq_none hroot hpath hnone]
      obtain ⟨⟨id, keys⟩, hsplit, h⟩ := Option.bind_eq_some_iff.1 h
      obtain ⟨anchor, hanchor, h⟩ := Option.bind_eq_some_iff.1 h
      obtain rfl := eq_of_at? h
      -- The way down from the anchor does not lead into the state, so that the anchor stays.
      have habove : ¬path <+: anchor := fun hbelow =>
        hstays (hbelow.trans (List.prefix_append _ _))
      dsimp only
      rw [hsplit, Option.bind_some, named?_without hroot hpath hanchor habove, Option.bind_some]
      exact at?_without h hstays
  | relative | sibling =>
    dsimp only at h ⊢
    obtain rfl := eq_of_at? h
    exact at?_without h hstays

end StateList

end Statechart
