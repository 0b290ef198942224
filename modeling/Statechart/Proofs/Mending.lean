import Statechart.Proofs.Editors
import Statechart.Proofs.Relocation
import Statechart.Proofs.WellFormedness

/-!
# Mending descriptors

When states get other names, places or ids, descriptors stand for other states. The editor mends
the descriptors of each transition in turn, and afterwards each of them stands for the state that
it stood for before, wherever that has gone.

* `Graph.Survive`: how the references of two graphs are related when states have gone elsewhere;
* `Editor.rebaseEdge_eq_ok`: mending a transition leaves all the others alone;
* `Editor.foldlM_rebaseEdge`: mending each transition once mends them all;
* `Editor.survive_rebase`: references survive when a draft with its states elsewhere is mended.
-/

namespace Statechart

open Draft

namespace Graph

/-- How a descriptor on a state of the old graph is related to the one in its place. If it stood
    for a state, the new one stands for the same state where that has gone, and is the old one if
    that would do. If it stood for none, it is left alone. -/
def Follows (old new : Graph) (move : StatePath → StatePath) (source newSource : NodeId)
    (descriptor newDescriptor : String) : Prop :=
  (∀ target, old.resolve? source descriptor = some target →
    ∃ newTarget, new.resolve? newSource newDescriptor = some newTarget ∧
      new.At newTarget (move (old.pathOf target)) ∧
      (new.resolve? newSource descriptor = some newTarget → newDescriptor = descriptor)) ∧
  (old.resolve? source descriptor = none → newDescriptor = descriptor)

/-- The references of a graph after each state has gone to where `move` sends its path. -/
structure Survive (old new : Graph) (move : StatePath → StatePath) : Prop where
  /-- The states are the old ones, each where it has gone. -/
  states : ∀ path, new.Has path ↔ ∃ p, old.Has p ∧ move p = path
  /-- The edges are the old ones, each on its state and in its place, -/
  edges : (old.edges.map fun edge => (move (old.address edge).1, edge.path)).Perm
    (new.edges.map new.address)
  /-- and no two have the same address. -/
  nodup : (new.edges.map new.address).Nodup
  /-- The descriptors of an edge follow, position by position. -/
  descriptors : ∀ edge ∈ old.edges, ∀ newEdge ∈ new.edges,
    new.address newEdge = (move (old.address edge).1, edge.path) →
    List.Forall₂ (Follows old new move edge.source newEdge.source)
      edge.descriptors newEdge.descriptors

end Graph

/-! ## Mending the descriptors of an edge -/

namespace Editor

variable (editor : Editor) (new : Graph) (move : StatePath → StatePath)

/-- The address that an edge is to have where its state has gone. -/
def newAddress (edge : Edge) : StatePath × TransitionPath :=
  (move (editor.graph.address edge).1, edge.path)

/-- The mended descriptors of an edge. -/
def rebased (newSource : NodeId) (edge : Edge) : List String :=
  edge.descriptors.map fun d => (editor.rebasedDescriptor new move edge.source newSource d).1

variable {editor new move}

/-- A descriptor is kept if it stands for the state where its target has gone. -/
theorem rebasedDescriptor_of_resolve? {source newSource target newTarget : NodeId}
    {descriptor : String} (htarget : editor.graph.resolve? source descriptor = some target)
    (hnew : new.nodeAt? (move (editor.graph.pathOf target)) = some newTarget) :
    (editor.rebasedDescriptor new move source newSource descriptor).1 =
      if new.resolve? newSource descriptor = some newTarget then descriptor
      else new.descriptorLike newSource newTarget descriptor := by
  rw [rebasedDescriptor]
  simp only [htarget, Option.bind_eq_bind, Option.bind_some, hnew]
  split <;> rfl

/-- A descriptor that is said not to change does not. -/
theorem rebasedDescriptor_fst {source newSource : NodeId} {descriptor : String}
    (h : (editor.rebasedDescriptor new move source newSource descriptor).2 = false) :
    (editor.rebasedDescriptor new move source newSource descriptor).1 = descriptor := by
  unfold rebasedDescriptor at h ⊢
  dsimp only at h ⊢
  split at h
  · split at h
    · next heq => rw [if_pos heq]
    · cases h
  · rfl

/-- Mending an edge gives it its mended descriptors, and leaves the others and the states
    alone. -/
theorem rebaseEdge_eq_ok {draft draft' : Expr} {edge : Edge} {newSource : NodeId}
    (h : editor.rebaseEdge new move draft edge = .ok draft')
    (hsource : new.nodeAt? (editor.newAddress move edge).1 = some newSource)
    (hedge : HasTransition draft (editor.newAddress move edge) edge.descriptors) :
    SameStates draft draft' ∧
      HasTransition draft' (editor.newAddress move edge) (editor.rebased new move newSource edge) ∧
      ∀ p place, (p, place) ≠ editor.newAddress move edge →
        itemAt? draft' p place = itemAt? draft p place := by
  obtain ⟨item, hitem, htransition, htargets⟩ := hedge
  have hmap : (edge.descriptors.map
      (editor.rebasedDescriptor new move edge.source newSource)).map (·.1) =
        editor.rebased new move newSource edge := List.map_map
  rw [rebaseEdge] at h
  dsimp only at h
  rw [show new.nodeAt? (move (editor.graph.pathOf edge.source)) = some newSource from hsource] at h
  dsimp only at h
  -- The item is written again only if a descriptor changes.
  split at h
  · next hany =>
    rw [hmap] at h
    obtain ⟨hread, hform⟩ := targets_setTargets (editor.rebased new move newSource edge) item
    obtain ⟨hstates, hitems⟩ := modifyTransition_eq_ok h fun found hfound => by
      obtain rfl := Option.some.inj (hitem.symm.trans hfound)
      exact isArray_setTargets hform
    refine ⟨hstates, ⟨_, ?_, hform, hread⟩, fun p place hne => ?_⟩
    · refine (hitems _ _).trans ((if_pos ⟨rfl, rfl⟩).trans ?_)
      exact (congrArg (Option.map _) hitem).trans rfl
    · exact (hitems p place).trans (if_neg fun heq => hne (Prod.ext heq.1 heq.2))
  · next hany =>
    cases h
    have hsame : editor.rebased new move newSource edge = edge.descriptors := by
      rw [rebased, List.map_congr_left (g := id), List.map_id]
      intro d hd
      rw [Bool.not_eq_true, List.any_eq_false] at hany
      refine rebasedDescriptor_fst (Bool.eq_false_iff.2 ?_)
      exact hany _ (List.mem_map_of_mem hd)
    exact ⟨.refl _, ⟨item, hitem, htransition, htargets.trans hsame.symm⟩, fun _ _ _ => rfl⟩

/-- Mending edges of different addresses mends each of them. -/
theorem foldlM_rebaseEdge {edges : List Edge} {draft draft' : Expr}
    (h : edges.foldlM (editor.rebaseEdge new move) draft = .ok draft')
    (hnodup : (edges.map (editor.newAddress move)).Nodup)
    (hsource : ∀ edge ∈ edges, ∃ newSource, new.nodeAt? (editor.newAddress move edge).1 = some newSource)
    (hedges : ∀ edge ∈ edges, HasTransition draft (editor.newAddress move edge) edge.descriptors) :
    SameStates draft draft' ∧
      (∀ edge ∈ edges, ∀ newSource, new.nodeAt? (editor.newAddress move edge).1 = some newSource →
        HasTransition draft' (editor.newAddress move edge) (editor.rebased new move newSource edge)) ∧
      ∀ p place, (p, place) ∉ edges.map (editor.newAddress move) →
        itemAt? draft' p place = itemAt? draft p place := by
  induction edges generalizing draft with
  | nil =>
    cases h
    exact ⟨.refl _, fun _ hedge => absurd hedge List.not_mem_nil, fun _ _ _ => rfl⟩
  | cons edge edges ih =>
    rw [List.foldlM_cons] at h
    obtain ⟨next, hnext, h⟩ := bind_eq_ok.1 h
    rw [List.map_cons, List.nodup_cons] at hnodup
    obtain ⟨source, hfirst⟩ := hsource edge List.mem_cons_self
    obtain ⟨hstates, hmended, hframe⟩ :=
      rebaseEdge_eq_ok hnext hfirst (hedges edge List.mem_cons_self)
    -- The edges to come are as they were, since their addresses are others.
    have hrest : ∀ other ∈ edges,
        HasTransition next (editor.newAddress move other) other.descriptors := by
      intro other hother
      obtain ⟨item, hitem, hitem'⟩ := hedges other (List.mem_cons_of_mem _ hother)
      refine ⟨item, (hframe _ _ fun heq => hnodup.1 ?_).trans hitem, hitem'⟩
      exact heq ▸ List.mem_map_of_mem hother
    obtain ⟨hstates', hmended', hframe'⟩ := ih h hnodup.2
      (fun other hother => hsource other (List.mem_cons_of_mem _ hother)) hrest
    refine ⟨hstates.trans hstates', fun other hother newSource hnew => ?_, fun p place hp => ?_⟩
    · rcases List.mem_cons.1 hother with rfl | hother
      · obtain rfl := Option.some.inj (hfirst.symm.trans hnew)
        obtain ⟨item, hitem, hitem'⟩ := hmended
        exact ⟨item, (hframe' _ _ hnodup.1).trans hitem, hitem'⟩
      · exact hmended' other hother newSource hnew
    · rw [List.map_cons, List.mem_cons, not_or] at hp
      exact (hframe' p place hp.2).trans (hframe p place hp.1)

/-! ## The references of a mended draft -/

theorem extractionOf_addressable {config : Expr} (h : Addressable config)
    (hconfig : config.isObject = true) : (editor.extractionOf config).graph.Addressable :=
  h.graph hconfig _ _

theorem Current.at_source (h : editor.Current) {edge : Edge} (hedge : edge ∈ editor.graph.edges) :
    editor.graph.At edge.source (editor.graph.address edge).1 :=
  Graph.at_pathOf (h.wellFormed.sources edge hedge)

theorem has_extractionOf_iff {config : Expr} (hconfig : config.isObject = true)
    {path : StatePath} :
    (editor.extractionOf config).graph.Has path ↔ (stateProps? config path).isSome :=
  has_extract_iff _ _ hconfig

/-- Descriptors are read alike in descriptions with the same states. -/
theorem resolve?_iff_of_sameStates {a b : Expr} (hstates : SameStates a b)
    (ha : Addressable a) (hb : Addressable b) (hobject : b.isObject = true)
    {source target source' target' : NodeId} {p q : StatePath} {descriptor : String}
    (hsource : (editor.extractionOf a).graph.At source p)
    (htarget : (editor.extractionOf a).graph.At target q)
    (hsource' : (editor.extractionOf b).graph.At source' p)
    (htarget' : (editor.extractionOf b).graph.At target' q) :
    (editor.extractionOf a).graph.resolve? source descriptor = some target ↔
      (editor.extractionOf b).graph.resolve? source' descriptor = some target' := by
  have hobject' : a.isObject = true := hstates.isObject.trans hobject
  rw [Graph.resolve?_eq_some_iff (extractionOf_wellFormed a)
      (extractionOf_addressable ha hobject').distinct hsource htarget,
    Graph.resolve?_eq_some_iff (extractionOf_wellFormed b)
      (extractionOf_addressable hb hobject).distinct hsource' htarget']
  refine Graph.refers_congr (fun path => ?_) fun id path => ?_
  · rw [has_extractionOf_iff hobject', has_extractionOf_iff hobject, hstates.states]
  · rw [extractionOf, extractionOf, idAt_extract_iff _ _ hobject', idAt_extract_iff _ _ hobject,
      hstates.ids]

section

variable {draft draft' : Expr} (hcurrent : editor.Current) (hold : WellFormed editor.draft)
  (hmoved : Relocated move editor.draft draft) (hstates : SameStates draft draft')
  (hnew : WellFormed draft')

include hcurrent hold hmoved hstates hnew

/-- A mended descriptor follows the state that the old one stood for. -/
theorem follows_rebasedDescriptor {source midSource newSource : NodeId} {p : StatePath}
    (hsource : editor.graph.At source p)
    (hmid : (editor.extractionOf draft).graph.At midSource (move p))
    (hnewSource : (editor.extractionOf draft').graph.At newSource (move p)) (descriptor : String) :
    editor.graph.Follows (editor.extractionOf draft').graph move source newSource descriptor
      (editor.rebasedDescriptor (editor.extractionOf draft).graph move source midSource
        descriptor).1 := by
  have haddressable := hstates.addressable hnew.toAddressable
  have hobject : draft.isObject = true := hstates.isObject.trans hnew.object
  have hgraph : (editor.extractionOf draft).graph.WellFormed := extractionOf_wellFormed draft
  have hids : editor.graph.DistinctIds :=
    hcurrent.graph_eq ▸ (extractionOf_addressable hold.toAddressable hold.object).distinct
  -- Descriptors are chosen in the graph of the moved draft. The mended draft has the same states,
  -- so that they are read alike there.
  refine ⟨fun target htarget => ?_, fun hnone => ?_⟩
  · have hat := Graph.exists_at_of_resolve? hcurrent.wellFormed hids hsource htarget
    -- The state has gone somewhere, before the mending and after it.
    have hhas : (stateProps? draft (move (editor.graph.pathOf target))).isSome := by
      rw [hcurrent.graph_eq] at hat ⊢
      exact (hmoved.states _).2 ⟨_, (has_extractionOf_iff hold.object).1 ⟨_, hat⟩, rfl⟩
    obtain ⟨mid, hmidTarget⟩ :
        (editor.extractionOf draft).graph.Has (move (editor.graph.pathOf target)) :=
      (has_extractionOf_iff hobject).2 hhas
    obtain ⟨after, hafter⟩ :
        (editor.extractionOf draft').graph.Has (move (editor.graph.pathOf target)) :=
      (has_extractionOf_iff hnew.object).2 (hstates.states _ ▸ hhas)
    have hnode := (Graph.nodeAt?_eq_some_iff hgraph).2 hmidTarget
    have htransfer (d : String) :
        (editor.extractionOf draft).graph.resolve? midSource d = some mid ↔
          (editor.extractionOf draft').graph.resolve? newSource d = some after :=
      resolve?_iff_of_sameStates hstates haddressable hnew.toAddressable hnew.object hmid
        hmidTarget hnewSource hafter
    refine ⟨after, ?_, hafter, fun hkept => ?_⟩
    · rw [← htransfer, rebasedDescriptor_of_resolve? htarget hnode]
      split
      · next heq => exact heq
      · exact Graph.resolve?_descriptorLike hgraph (extractionOf_addressable haddressable hobject) _
          hmid hmidTarget
    · rw [← htransfer] at hkept
      rw [rebasedDescriptor_of_resolve? htarget hnode, if_pos hkept]
  · rw [rebasedDescriptor]
    simp only [hnone, Option.bind_eq_bind, Option.bind_none]

end

section

variable {draft draft' : Expr} (hcurrent : editor.Current) (hold : WellFormed editor.draft)
  (hmoved : Relocated move editor.draft draft)

include hcurrent hold

theorem has_graph_iff {path : StatePath} :
    editor.graph.Has path ↔ (stateProps? editor.draft path).isSome := by
  rw [hcurrent.graph_eq, has_extractionOf_iff hold.object]

theorem exists_edge_graph_iff {address : StatePath × TransitionPath} {descriptors : List String} :
    (∃ edge ∈ editor.graph.edges, editor.graph.address edge = address ∧
      edge.descriptors = descriptors) ↔ HasTransition editor.draft address descriptors := by
  rw [hcurrent.graph_eq]
  exact exists_edge_iff _ _ hold.object

omit hold in
theorem nodup_edges_graph : (editor.graph.edges.map editor.graph.address).Nodup := by
  rw [hcurrent.graph_eq]
  exact nodup_edges _ _ _

theorem isSome_address {edge : Edge} (hedge : edge ∈ editor.graph.edges) :
    (stateProps? editor.draft (editor.graph.address edge).1).isSome :=
  (has_graph_iff hcurrent hold).1 ⟨_, hcurrent.at_source hedge⟩

include hmoved

theorem nodup_newAddress : (editor.graph.edges.map (editor.newAddress move)).Nodup := by
  have hnodup := nodup_edges_graph hcurrent
  -- No two states go to the same path, so addresses that differed still do.
  refine List.Nodup.map_on (fun edge hedge other hother heq => ?_) (List.Nodup.of_map _ hnodup)
  obtain ⟨hpath, hplace⟩ := Prod.mk.inj heq
  have hstate := hmoved.injective (isSome_address hcurrent hold hedge)
    (isSome_address hcurrent hold hother) hpath
  exact List.inj_on_of_nodup_map hnodup hedge hother (Prod.ext hstate hplace)

/-- Before the mending, each edge is where its state has gone, with its old descriptors. -/
theorem hasTransition_newAddress {edge : Edge} (hedge : edge ∈ editor.graph.edges) :
    HasTransition draft (editor.newAddress move edge) edge.descriptors := by
  obtain ⟨item, hitem, hrest⟩ := (exists_edge_graph_iff hcurrent hold).1 ⟨edge, hedge, rfl, rfl⟩
  refine ⟨item, ?_, hrest⟩
  exact (congrFun (hmoved.items (isSome_address hcurrent hold hedge)) edge.path).trans hitem

/-- After the mending, each transition is one of the old ones. -/
theorem exists_newAddress_eq {address : StatePath × TransitionPath} {descriptors : List String}
    (hframe : ∀ p place, (p, place) ∉ editor.graph.edges.map (editor.newAddress move) →
      itemAt? draft' p place = itemAt? draft p place)
    (h : HasTransition draft' address descriptors) :
    address ∈ editor.graph.edges.map (editor.newAddress move) := by
  by_contra hnot
  obtain ⟨q, place⟩ := address
  obtain ⟨item, hitem, htransition, -⟩ := h
  have hitem : itemAt? draft q place = some item := (hframe q place hnot).symm.trans hitem
  have hsome : (stateProps? draft q).isSome := by
    obtain ⟨props, hprops, -⟩ := Option.bind_eq_some_iff.1 hitem
    rw [hprops]
    rfl
  -- Its state has come from somewhere, and had the transition there.
  obtain ⟨p, hp, rfl⟩ := (hmoved.states q).1 hsome
  rw [hmoved.items hp] at hitem
  obtain ⟨edge, hedge, haddress, -⟩ := (exists_edge_graph_iff hcurrent hold).2
    (show HasTransition editor.draft (p, place) _ from ⟨item, hitem, htransition, rfl⟩)
  refine hnot (List.mem_map.2 ⟨edge, hedge, ?_⟩)
  rw [newAddress, haddress, ← (Prod.mk.inj haddress).2]

/-- The references of a draft survive when its states have gone elsewhere and its descriptors
    are mended. -/
theorem survive_rebase (hrebase : editor.rebase draft move = .ok draft') (hnew : WellFormed draft') :
    editor.graph.Survive (editor.extractionOf draft').graph move := by
  have hobject := hmoved.isObject hold.object
  have hnodup := nodup_newAddress hcurrent hold hmoved
  have hsource : ∀ edge ∈ editor.graph.edges, ∃ newSource,
      (editor.extractionOf draft).graph.At newSource (editor.newAddress move edge).1 :=
    fun edge hedge => (has_extractionOf_iff hobject).2
      ((hmoved.states _).2 ⟨_, isSome_address hcurrent hold hedge, rfl⟩)
  have hgraph : (editor.extractionOf draft).graph.WellFormed := extractionOf_wellFormed draft
  obtain ⟨hstates, hmended, hframe⟩ := foldlM_rebaseEdge hrebase hnodup
    (fun edge hedge => (hsource edge hedge).imp fun _ => (Graph.nodeAt?_eq_some_iff hgraph).2)
    (fun edge hedge => hasTransition_newAddress hcurrent hold hmoved hedge)
  have hnodup' := nodup_edges editor.machine.options editor.machine.setup draft'
  have hedges (address : StatePath × TransitionPath) (descriptors : List String) :
      (∃ newEdge ∈ (editor.extractionOf draft').graph.edges,
        (editor.extractionOf draft').graph.address newEdge = address ∧
          newEdge.descriptors = descriptors) ↔ HasTransition draft' address descriptors :=
    exists_edge_iff _ _ hnew.object
  -- States, then the addresses of edges, and then what the descriptors of each edge lead to.
  refine ⟨fun path => ?_, ?_, hnodup', fun edge hold' newEdge hnew' haddress => ?_⟩
  · rw [has_extractionOf_iff hnew.object, ← hstates.states, hmoved.states]
    simp only [has_graph_iff hcurrent hold]
  · refine (List.perm_ext_iff_of_nodup hnodup hnodup').2 fun address => ⟨fun h => ?_, fun h => ?_⟩
    · obtain ⟨edge, hmem, rfl⟩ := List.mem_map.1 h
      obtain ⟨newSource, hat⟩ := hsource edge hmem
      obtain ⟨newEdge, hnewEdge, haddress, -⟩ := (hedges _ _).2
        (hmended edge hmem _ ((Graph.nodeAt?_eq_some_iff hgraph).2 hat))
      exact List.mem_map.2 ⟨newEdge, hnewEdge, haddress⟩
    · obtain ⟨newEdge, hnewEdge, rfl⟩ := List.mem_map.1 h
      exact exists_newAddress_eq hcurrent hold hmoved hframe
        ((hedges _ _).1 ⟨newEdge, hnewEdge, rfl, rfl⟩)
  · obtain ⟨midSource, hmid⟩ := hsource edge hold'
    obtain ⟨other, hother, hotherAddress, hdescriptors⟩ :=
      (hedges _ _).2 (hmended edge hold' _ ((Graph.nodeAt?_eq_some_iff hgraph).2 hmid))
    obtain rfl := List.inj_on_of_nodup_map hnodup' hother hnew'
      (hotherAddress.trans haddress.symm)
    have hat : (editor.extractionOf draft').graph.At other.source (editor.newAddress move edge).1 := by
      rw [← hotherAddress]
      exact Graph.at_pathOf ((extractionOf_wellFormed draft').sources other hother)
    rw [hdescriptors, rebased, List.forall₂_map_right_iff, List.forall₂_same]
    intro descriptor _
    exact follows_rebasedDescriptor hcurrent hold hmoved hstates hnew
      (hcurrent.at_source hold') hmid hat descriptor

end

end Editor

end Statechart
