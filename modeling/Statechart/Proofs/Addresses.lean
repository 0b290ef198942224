import Statechart.Proofs.Descriptors

/-!
# Addresses in a description and in its graph

A state has a node at its path, and an item in a slot has an edge at its place, just when the
description has them there.

* `idAt?`, `itemAt?`: the id of a state and the item at a place, in the description;
* `has_extract_iff`, `idAt_extract_iff`: the states of the graph;
* `exists_edge_iff`, `nodup_edges`: the edges of the graph, each address once.
-/

namespace Statechart

open Property

/-- The property of a state that holds a slot. -/
def Slot.property : Slot → String
  | on _ => "on"
  | after _ => "after"
  | always => "always"
  | onDone => "onDone"
  | invokeDone _ | invokeError _ => "invoke"

/-- The properties of a state that hold slots. -/
def Slot.properties : List String := ["on", "after", "always", "onDone", "invoke"]

theorem Slot.property_ne {name : String} (h : name ∉ Slot.properties) (slot : Slot) :
    slot.property ≠ name := by
  rintro rfl
  cases slot <;> simp [Slot.property, Slot.properties] at h

/-- Where an edge is written: its state and its place in that. -/
def Graph.address (graph : Graph) (edge : Edge) : StatePath × TransitionPath :=
  (graph.pathOf edge.source, edge.path)

namespace Draft

/-- The id that a state is given. -/
def idOf (props : List Property) : Option String :=
  (value? props "id").bind Expr.text?

/-- The id of the state at a path. -/
def idAt? (config : Expr) (path : StatePath) : Option String :=
  (stateProps? config path).bind idOf

/-- The item at a place of the state at a path. -/
def itemAt? (config : Expr) (path : StatePath) (place : TransitionPath) : Option Expr :=
  (stateProps? config path).bind (itemIn? · place)

/-- A transition with the descriptors is written at the address. -/
def HasTransition (config : Expr) (address : StatePath × TransitionPath)
    (descriptors : List String) : Prop :=
  ∃ item, itemAt? config address.1 address.2 = some item ∧ isTransition item = true ∧
    targets item = descriptors

theorem value?_of_content {a b : List Property} (h : content a = content b) {name : String}
    (hname : name ≠ "states" ∧ name ≠ "initial") : value? a name = value? b name := by
  have := congrFun h name
  rwa [content, content, if_neg (by simpa using hname), if_neg (by simpa using hname)] at this

theorem idOf_congr {a b : List Property} (h : content a = content b) : idOf a = idOf b := by
  rw [idOf, idOf, value?_of_content h (by decide)]

/-- Items are found by the property that holds them. -/
theorem itemIn?_congr {a b : List Property} {path : TransitionPath}
    (h : value? a path.slot.property = value? b path.slot.property) :
    itemIn? a path = itemIn? b path := by
  obtain ⟨slot, index⟩ := path
  rw [itemIn?_eq, itemIn?_eq]
  cases slot with
  | on | after => simp only [Slot.property] at h; simp only [Slot.owner?, h]
  | always | onDone =>
    simp only [Slot.property] at h
    simp only [Slot.owner?, Slot.key, Option.bind_some, oneOrMany_item?, h]
  | invokeDone | invokeError =>
    simp only [Slot.property] at h
    simp only [Slot.owner?, oneOrMany_item? _ "invoke", h]

theorem itemIn?_eq_of_content {a b : List Property} (h : content a = content b) :
    itemIn? a = itemIn? b := by
  funext path
  exact itemIn?_congr (value?_of_content h
    ⟨Slot.property_ne (by decide) _, Slot.property_ne (by decide) _⟩)

/-- States with the same content, in two descriptions. -/
theorem contentAt?_eq_iff {a b : Expr} {p q : StatePath} :
    contentAt? a p = contentAt? b q ↔
      (stateProps? a p = none ∧ stateProps? b q = none) ∨ ∃ x y, stateProps? a p = some x ∧
        stateProps? b q = some y ∧ content x = content y := by
  rw [contentAt?, contentAt?]
  cases stateProps? a p with
  | none =>
    cases stateProps? b q with
    | none => simp
    | some y => simp
  | some x =>
    cases stateProps? b q with
    | none => simp
    | some y => simp

theorem idAt?_eq_of_content {a b : Expr} {p q : StatePath}
    (h : contentAt? a p = contentAt? b q) : idAt? a p = idAt? b q := by
  rw [idAt?, idAt?]
  rcases contentAt?_eq_iff.1 h with ⟨ha, hb⟩ | ⟨x, y, ha, hb, hxy⟩
  · rw [ha, hb]
  · rw [ha, hb, Option.bind_some, Option.bind_some, idOf_congr hxy]

theorem itemAt?_eq_of_content {a b : Expr} {p q : StatePath}
    (h : contentAt? a p = contentAt? b q) : itemAt? a p = itemAt? b q := by
  funext place
  rw [itemAt?, itemAt?]
  rcases contentAt?_eq_iff.1 h with ⟨ha, hb⟩ | ⟨x, y, ha, hb, hxy⟩
  · rw [ha, hb]
  · rw [ha, hb, Option.bind_some, Option.bind_some, itemIn?_eq_of_content hxy]

end Draft

/-! ## Extracted graphs -/

open Draft

variable {config : Expr} (options setup : Option Expr)

/-- What is read of a description is its states. -/
theorem mem_infosOf {origin : Origin} {props : List Property} {info : StateInfo}
    (h : info ∈ infosOf (.object origin props)) :
    ∃ key span below, stateProps? (.object origin props) info.path = some below ∧
      info = infoOf (rootIdOf (.object origin props)) key info.path span below := by
  rw [infosOf, readMachine, readStateTree_object] at h
  obtain ⟨rest, below, span, hbelow, rfl⟩ := exists_of_mem_infosBelow h
  refine ⟨keyOf "" rest, span, below, ?_, rfl⟩
  rw [path_infoOf, List.nil_append, stateProps?_eq]
  exact hbelow

theorem infoOf_mem_infosOf {origin : Origin} {props below : List Property} {path : StatePath}
    (h : stateProps? (.object origin props) path = some below) :
    ∃ key span, infoOf (rootIdOf (.object origin props)) key path span below
      ∈ infosOf (.object origin props) := by
  rw [stateProps?_eq] at h
  rw [infosOf, readMachine, readStateTree_object]
  obtain ⟨span, hmem⟩ := infoOf_mem_infosBelow "" [] origin.span h
  exact ⟨keyOf "" path, span, hmem⟩

/-- The node with a handle is the state that was read at that position. -/
theorem getElem?_nodes_extract {i : NodeId} {node : Node}
    (h : (extract config options setup).graph.nodes[i]? = some node) :
    ∃ info, (infosOf config)[i]? = some info ∧ node.view = info.view := by
  have hview := congrArg (·[i]?) (nodes_extract config options setup)
  simp only [List.getElem?_map, h, Option.map_some] at hview
  obtain ⟨info, hinfo, heq⟩ := Option.map_eq_some_iff.1 hview.symm
  exact ⟨info, hinfo, heq.symm⟩

theorem explicitId_infoOf (rootId : Option String) (key : String) (path : StatePath)
    (span : Option Span) (props : List Property) :
    (infoOf rootId key path span props).attributes.explicitId = idOf props :=
  Walk.explicitId_readAttributes path props

/-- A node is at the path of a state, and has its id. -/
theorem stateProps?_of_at (hconfig : config.isObject = true) {i : NodeId} {path : StatePath}
    (h : (extract config options setup).graph.At i path) :
    ∃ props, stateProps? config path = some props ∧
      (extract config options setup).graph.explicitId? i = idOf props := by
  obtain ⟨node, hnode, rfl⟩ := h
  obtain ⟨info, hinfo, hview⟩ := getElem?_nodes_extract options setup hnode
  have hpath : node.path = info.path := congrArg Prod.fst hview
  have hattributes : node.attributes = info.attributes := congrArg (·.2.2.2) hview
  obtain ⟨origin, props, rfl⟩ := Expr.exists_of_isObject hconfig
  obtain ⟨key, span, below, hbelow, heq⟩ := mem_infosOf (List.mem_of_getElem? hinfo)
  refine ⟨below, hpath ▸ hbelow, ?_⟩
  rw [Graph.explicitId?, Graph.node?, hnode, Option.bind_some, hattributes, heq]
  exact explicitId_infoOf _ _ _ _ _

/-- A state has a node at its path. -/
theorem exists_at_of_stateProps? (hconfig : config.isObject = true) {path : StatePath}
    {props : List Property} (h : stateProps? config path = some props) :
    ∃ i, (extract config options setup).graph.At i path := by
  obtain ⟨origin, top, rfl⟩ := Expr.exists_of_isObject hconfig
  obtain ⟨key, span, hmem⟩ := infoOf_mem_infosOf h
  have hview := List.mem_map_of_mem (f := StateInfo.view) hmem
  rw [← nodes_extract _ options setup] at hview
  obtain ⟨node, hnode, heq⟩ := List.mem_map.1 hview
  obtain ⟨i, hi⟩ := List.mem_iff_getElem?.1 hnode
  exact ⟨i, node, hi, congrArg Prod.fst heq⟩

/-- The graph has the states of the description. -/
theorem has_extract_iff (hconfig : config.isObject = true) {path : StatePath} :
    (extract config options setup).graph.Has path ↔ (stateProps? config path).isSome := by
  rw [Option.isSome_iff_exists]
  constructor
  · rintro ⟨i, hi⟩
    obtain ⟨props, hprops, -⟩ := stateProps?_of_at options setup hconfig hi
    exact ⟨props, hprops⟩
  · rintro ⟨props, hprops⟩
    exact exists_at_of_stateProps? options setup hconfig hprops

/-- The states of the graph have the ids of the description. -/
theorem idAt_extract_iff (hconfig : config.isObject = true) {id : String} {path : StatePath} :
    (extract config options setup).graph.IdAt id path ↔ idAt? config path = some id := by
  rw [idAt?]
  constructor
  · rintro ⟨i, hi, hid⟩
    obtain ⟨props, hprops, hid'⟩ := stateProps?_of_at options setup hconfig hi
    rw [hprops, Option.bind_some, ← hid', hid]
  · intro h
    obtain ⟨props, hprops, hid⟩ := Option.bind_eq_some_iff.1 h
    obtain ⟨i, hi⟩ := exists_at_of_stateProps? options setup hconfig hprops
    obtain ⟨props', hprops', hid'⟩ := stateProps?_of_at options setup hconfig hi
    obtain rfl := Option.some.inj (hprops.symm.trans hprops')
    exact ⟨i, hi, hid'.trans hid⟩

/-! ## Edges -/

/-- The edges of an extracted graph, by the states that were read. -/
theorem mem_edges_extract {edge : Edge}
    (h : edge ∈ (extract config options setup).graph.edges) :
    ∃ info, (infosOf config)[edge.source]? = some info ∧
      (edge.path, edge.descriptors) ∈ info.allTransitions.map Transition.view := by
  have hview := List.mem_map_of_mem (f := Edge.view) h
  rw [edges_extract, Builder.edgesFrom, List.mem_flatMap] at hview
  obtain ⟨⟨info, id⟩, hinfo, hmem⟩ := hview
  obtain ⟨t, ht, heq⟩ := List.mem_map.1 hmem
  have hsource : id = edge.source := congrArg Prod.fst heq
  have htransition : t.view = (edge.path, edge.descriptors) := congrArg Prod.snd heq
  refine ⟨info, hsource ▸ List.mk_mem_zipIdx_iff_getElem?.1 hinfo, ?_⟩
  exact List.mem_map.2 ⟨t, ht, htransition⟩

theorem exists_edge_of_transition {i : NodeId} {info : StateInfo} {place : TransitionPath}
    {descriptors : List String} (hinfo : (infosOf config)[i]? = some info)
    (h : (place, descriptors) ∈ info.allTransitions.map Transition.view) :
    ∃ edge ∈ (extract config options setup).graph.edges, edge.source = i ∧ edge.path = place ∧
      edge.descriptors = descriptors := by
  obtain ⟨t, ht, heq⟩ := List.mem_map.1 h
  have hmem : (i, t.view) ∈ Builder.edgesFrom 0 (infosOf config) :=
    List.mem_flatMap.2 ⟨(info, i), List.mk_mem_zipIdx_iff_getElem?.2 hinfo,
      List.mem_map_of_mem (f := fun t : Transition => (i, t.view)) ht⟩
  rw [← edges_extract config options setup] at hmem
  obtain ⟨edge, hedge, hview⟩ := List.mem_map.1 hmem
  rw [heq] at hview
  exact ⟨edge, hedge, congrArg Prod.fst hview, congrArg (·.2.1) hview, congrArg (·.2.2) hview⟩

theorem pathOf_extract {i : NodeId} {info : StateInfo} (h : (infosOf config)[i]? = some info) :
    (extract config options setup).graph.At i info.path := by
  have hview := congrArg (·[i]?) (nodes_extract config options setup)
  simp only [List.getElem?_map, h, Option.map_some] at hview
  obtain ⟨node, hnode, heq⟩ := Option.map_eq_some_iff.1 hview
  exact ⟨node, hnode, congrArg Prod.fst heq⟩

theorem mem_transitions_iff {rootId : Option String} {key : String} {path : StatePath}
    {span : Option Span} {props : List Property} {place : TransitionPath}
    {descriptors : List String} :
    (place, descriptors) ∈ (infoOf rootId key path span props).allTransitions.map Transition.view ↔
      ∃ item, itemIn? props place = some item ∧ isTransition item = true ∧
        targets item = descriptors := by
  rw [view_allTransitions, List.mem_filterMap]
  constructor
  · rintro ⟨⟨place', item⟩, hmem, hread⟩
    rw [readItem?] at hread
    split at hread
    · next hitem =>
      cases hread
      exact ⟨item, mem_written.1 hmem, hitem, rfl⟩
    · cases hread
  · rintro ⟨item, hitem, htransition, rfl⟩
    exact ⟨(place, item), mem_written.2 hitem, if_pos htransition⟩

/-- The graph has an edge for each item of the description that has the form of a transition,
    at its address and with its descriptors. -/
theorem exists_edge_iff (hconfig : config.isObject = true)
    {address : StatePath × TransitionPath} {descriptors : List String} :
    (∃ edge ∈ (extract config options setup).graph.edges,
        (extract config options setup).graph.address edge = address ∧
          edge.descriptors = descriptors) ↔
      HasTransition config address descriptors := by
  obtain ⟨origin, props, rfl⟩ := Expr.exists_of_isObject hconfig
  constructor
  · rintro ⟨edge, hedge, rfl, rfl⟩
    obtain ⟨info, hinfo, hmem⟩ := mem_edges_extract options setup hedge
    obtain ⟨key, span, below, hbelow, heq⟩ := mem_infosOf (List.mem_of_getElem? hinfo)
    rw [heq] at hmem
    obtain ⟨item, hitem, hrest⟩ := mem_transitions_iff.1 hmem
    refine ⟨item, ?_, hrest⟩
    rw [Graph.address, (pathOf_extract options setup hinfo).pathOf_eq, itemAt?, hbelow]
    exact hitem
  · rintro ⟨item, hitem, hrest⟩
    obtain ⟨below, hbelow, hitem⟩ := Option.bind_eq_some_iff.1 hitem
    obtain ⟨key, span, hmem⟩ := infoOf_mem_infosOf hbelow
    obtain ⟨i, hi⟩ := List.mem_iff_getElem?.1 hmem
    obtain ⟨edge, hedge, rfl, hplace, hdescriptors⟩ := exists_edge_of_transition options setup hi
      (mem_transitions_iff.2 ⟨item, hitem, hrest⟩)
    exact ⟨edge, hedge, Prod.ext (pathOf_extract options setup hi).pathOf_eq hplace,
      hdescriptors⟩

theorem nodup_places_transitions (rootId : Option String) (key : String) (path : StatePath)
    (span : Option Span) (props : List Property) :
    ((infoOf rootId key path span props).allTransitions.map (·.path)).Nodup := by
  have hview := view_allTransitions rootId key path span props
  have hplaces := congrArg (List.map Prod.fst) hview
  rw [List.map_map] at hplaces
  have hsub : ((written props).filterMap readItem?).map Prod.fst = (written props).filterMap
      fun item => if isTransition item.2 then some item.1 else none := by
    rw [List.map_filterMap]
    refine List.filterMap_congr fun item _ => ?_
    rw [readItem?]
    split <;> rfl
  have hsublist : (((written props).filterMap readItem?).map Prod.fst).Sublist
      ((written props).map Prod.fst) := by
    rw [hsub]
    induction written props with
    | nil => exact List.Sublist.slnil
    | cons item items ih =>
      rw [List.filterMap_cons, List.map_cons]
      split
      · exact ih.cons _
      · next h =>
        split at h
        · cases h
          exact ih.cons_cons _
        · cases h
  exact hplaces ▸ (nodup_written props).sublist hsublist

/-- What is read of a description is read of the properties of a state, unless the description is
    no object literal: then it is a state without transitions and blocks. -/
theorem infosOf_cases {info : StateInfo} (h : info ∈ infosOf config) :
    (∃ rootId key span props, info = infoOf rootId key info.path span props) ∨
      info.entry = [] ∧ info.exit = [] ∧ info.invocations = [] ∧ info.transitions = [] := by
  cases config with
  | object origin props =>
    obtain ⟨key, span, below, -, heq⟩ := mem_infosOf h
    exact .inl ⟨_, key, span, below, heq⟩
  | _ =>
    obtain rfl := List.mem_singleton.1 h
    exact .inr ⟨rfl, rfl, rfl, rfl⟩

/-- Each place of a state has one edge. -/
theorem nodup_places_edges (config : Expr) :
    ((extract config options setup).graph.edges.map fun edge => (edge.source, edge.path)).Nodup := by
  have hview := congrArg (List.map fun v : NodeId × TransitionPath × List String => (v.1, v.2.1))
    (edges_extract config options setup)
  rw [List.map_map] at hview
  refine (show _ = _ from hview) ▸ ?_
  -- Within a state the places differ, and between states the handles do.
  rw [Builder.edgesFrom, List.map_flatMap, List.nodup_flatMap]
  constructor
  · rintro ⟨info, id⟩ hinfo
    rw [List.map_map]
    rcases infosOf_cases (List.mem_of_getElem? (List.mk_mem_zipIdx_iff_getElem?.1 hinfo)) with
      ⟨rootId, key, span, props, heq⟩ | ⟨-, -, hinvocations, htransitions⟩
    · have hplaces := nodup_places_transitions rootId key info.path span props
      rw [← heq] at hplaces
      have hpairs := hplaces.map fun a b (h : (id, a) = (id, b)) => (Prod.mk.inj h).2
      rwa [List.map_map] at hpairs
    · rw [StateInfo.allTransitions, hinvocations, htransitions]
      exact List.nodup_nil
  · have hindex : ((infosOf config).zipIdx.map (·.2)).Nodup := by
      rw [List.zipIdx_map_snd]
      exact List.nodup_range'
    rw [List.Nodup, List.pairwise_map] at hindex
    refine hindex.imp fun {a b} hab v ha hb => ?_
    simp only [List.map_map, List.mem_map] at ha hb
    obtain ⟨t, -, rfl⟩ := ha
    obtain ⟨t', -, heq⟩ := hb
    exact hab (congrArg Prod.fst heq).symm

/-- Each address has one edge. -/
theorem nodup_edges (config : Expr) :
    ((extract config options setup).graph.edges.map
      (extract config options setup).graph.address).Nodup := by
  have hgraph := extract_wellFormed config options setup
  have hhandles := nodup_places_edges options setup config
  -- An address has the path of the state for its handle, and one node is at a path.
  refine List.Nodup.map_on (fun edge hedge edge' hedge' heq => ?_) (List.Nodup.of_map _ hhandles)
  obtain ⟨hpath, hplace⟩ := Prod.mk.inj heq
  have hsource : edge.source = edge'.source := Graph.At.unique hgraph
    (hpath ▸ Graph.at_pathOf (hgraph.sources edge hedge))
    (Graph.at_pathOf (hgraph.sources edge' hedge'))
  exact List.inj_on_of_nodup_map hhandles hedge hedge' (Prod.ext hsource hplace)

end Statechart
