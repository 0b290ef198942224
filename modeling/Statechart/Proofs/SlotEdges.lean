import Mathlib.Data.List.Sort
import Statechart.Proofs.EdgesInStep

/-!
# The edges of a slot

The edges of a slot, in the order of their positions, are the items of the slot that have the form
of transitions, in the order in which they are written. If all of them have it, there is an edge at
each position.

* `Graph.slotEdges`: the edges of a slot;
* `Editor.Current.map_slotEdges`: they are read from the items of the slot, one after the other;
* `Editor.Current.isWritten_slotEdges`: they have the items for their written forms, if all items
  are transitions.
-/

namespace Statechart

open Draft

/-- The transitions of a state in a slot, by their positions. -/
def Graph.slotEdges (graph : Graph) (source : NodeId) (slot : Slot) : List Edge :=
  ((graph.edgesFrom source).filter (·.path.slot == slot)).mergeSort
    fun a b => a.path.index ≤ b.path.index

namespace Graph

variable {graph : Graph} {source : NodeId} {slot : Slot}

theorem mem_slotEdges {edge : Edge} :
    edge ∈ graph.slotEdges source slot ↔
      edge ∈ graph.edges ∧ edge.source = source ∧ edge.path.slot = slot := by
  rw [slotEdges, List.mem_mergeSort, List.mem_filter, edgesFrom, List.mem_filter, beq_iff_eq,
    beq_iff_eq, and_assoc]

/-- The positions of the edges of a slot increase. -/
theorem pairwise_slotEdges
    (hplaces : (graph.edges.map fun edge => (edge.source, edge.path)).Nodup) :
    (graph.slotEdges source slot).Pairwise fun a b => a.path.index < b.path.index := by
  have hsorted : (graph.slotEdges source slot).Pairwise fun a b => a.path.index ≤ b.path.index := by
    refine (List.pairwise_mergeSort (fun a b c hab hbc => ?_) (fun a b => ?_) _).imp
      fun hab => of_decide_eq_true hab
    · exact decide_eq_true (Nat.le_trans (of_decide_eq_true hab) (of_decide_eq_true hbc))
    · simpa using Nat.le_total _ _
  have hnodup : (graph.slotEdges source slot).Nodup :=
    (List.mergeSort_perm _ _).nodup_iff.2 (((List.Nodup.of_map _ hplaces).filter _).filter _)
  refine (hsorted.and hnodup).imp_of_mem fun {a b} ha hb hab => ?_
  obtain ⟨ha, hsource, hslot⟩ := mem_slotEdges.1 ha
  obtain ⟨hb, hsource', hslot'⟩ := mem_slotEdges.1 hb
  refine Nat.lt_of_le_of_ne hab.1 fun hindex => hab.2 ?_
  have hpath : a.path = b.path :=
    congrArg₂ TransitionPath.mk (hslot.trans hslot'.symm) hindex
  exact List.inj_on_of_nodup_map hplaces ha hb (Prod.ext (hsource.trans hsource'.symm) hpath)

end Graph

/-- There is an edge for each item that is a transition, at its address and with its
    descriptors. -/
theorem exists_edge_iff_hasTransition {config : Expr} (options setup : Option Expr)
    {address : StatePath × TransitionPath} {descriptors : List String} :
    (∃ edge ∈ (extract config options setup).graph.edges,
        (extract config options setup).graph.address edge = address ∧
          edge.descriptors = descriptors) ↔ HasTransition config address descriptors := by
  constructor
  · rintro ⟨edge, hedge, hrest⟩
    exact (exists_edge_iff _ _ (isObject_of_mem_edges _ _ hedge)).1 ⟨edge, hedge, hrest⟩
  · intro hitem
    have hobject : config.isObject = true := by
      obtain ⟨item, hat, -⟩ := hitem
      exact isObject_of_itemAt? hat
    exact (exists_edge_iff _ _ hobject).2 hitem

namespace Editor

variable {editor : Editor}

theorem Current.exists_edge_iff_hasTransition (h : editor.Current)
    {address : StatePath × TransitionPath} {descriptors : List String} :
    (∃ edge ∈ editor.graph.edges, editor.graph.address edge = address ∧
      edge.descriptors = descriptors) ↔ HasTransition editor.draft address descriptors := by
  rw [h.graph_eq]
  exact Statechart.exists_edge_iff_hasTransition _ _

/-- An edge at the address of a state comes from its node. -/
theorem Current.source_eq (h : editor.Current) {edge : Edge} (hedge : edge ∈ editor.graph.edges)
    {path : StatePath} {place : TransitionPath}
    (haddress : editor.graph.address edge = (path, place)) {node : NodeId}
    (hat : editor.graph.At node path) : edge.source = node := by
  have hsource := Graph.at_pathOf (h.wellFormed.sources edge hedge)
  rw [(Prod.mk.inj haddress).1] at hsource
  exact Graph.At.unique h.wellFormed hsource hat

/-- The edge that an editor finds is the one at the address. -/
theorem Current.mem_of_edge (h : editor.Current) {source : StatePath} {place : TransitionPath}
    {edge : Edge} (hedge : editor.edge source place = .ok edge) :
    edge ∈ editor.graph.edges ∧ editor.graph.address edge = (source, place) := by
  obtain ⟨node, hnode, hedge⟩ := bind_eq_ok.1 hedge
  split at hedge
  · next found hfound =>
    cases hedge
    obtain ⟨hmem, rfl, rfl⟩ := Graph.mem_of_edgeAt? hfound
    exact ⟨hmem, Prod.ext (h.at_of_node hnode).pathOf_eq rfl⟩
  · cases hedge

/-- What is read of an item of a slot: its position and its descriptors. -/
def readAt? (entry : Expr × Nat) : Option (Nat × List String) :=
  if isTransition entry.1 then some (entry.2, targets entry.1) else none

variable {node : NodeId} {path : StatePath}

/-- The edges of a slot are read from its items, one after the other. -/
theorem Current.map_slotEdges (h : editor.Current) (hat : editor.graph.At node path)
    (slot : Slot) :
    ((editor.graph.slotEdges node slot).map fun edge => (edge.path.index, edge.descriptors)) =
      (itemsAt editor.draft (path, slot)).zipIdx.filterMap readAt? := by
  have hplaces : (editor.graph.edges.map fun edge => (edge.source, edge.path)).Nodup := by
    rw [h.graph_eq]
    exact nodup_places_edges _ _ _
  have hedges : ((editor.graph.slotEdges node slot).map fun edge =>
      (edge.path.index, edge.descriptors)).Pairwise fun a b => a.1 < b.1 :=
    List.pairwise_map.2 (Graph.pairwise_slotEdges hplaces)
  have hitems : ((itemsAt editor.draft (path, slot)).zipIdx.filterMap readAt?).Pairwise
      fun a b => a.1 < b.1 := by
    have hindices : ((itemsAt editor.draft (path, slot)).zipIdx.map (·.2)).Pairwise (· < ·) := by
      rw [List.zipIdx_map_snd]
      exact List.pairwise_lt_range'
    refine List.pairwise_filterMap.2 ((List.pairwise_map.1 hindices).imp ?_)
    intro a b hab x hx y hy
    rw [readAt?] at hx hy
    split at hx
    · split at hy
      · cases hx; cases hy; exact hab
      · cases hy
    · cases hx
  -- Both lists ascend, so that it is enough that they have the same members.
  have : Std.Irrefl fun a b : Nat × List String => a.1 < b.1 := ⟨fun a => Nat.lt_irrefl a.1⟩
  have : Std.Antisymm fun a b : Nat × List String => a.1 < b.1 :=
    ⟨fun a b hab hba => absurd hab (Nat.lt_asymm hba)⟩
  refine hedges.eq_of_mem_iff hitems fun ⟨index, descriptors⟩ => ?_
  have hread : (index, descriptors) ∈
      (itemsAt editor.draft (path, slot)).zipIdx.filterMap readAt? ↔
        HasTransition editor.draft (path, ⟨slot, index⟩) descriptors := by
    simp only [List.mem_filterMap, Prod.exists, List.mk_mem_zipIdx_iff_getElem?, readAt?,
      Option.ite_none_right_eq_some, Option.some.injEq, Prod.mk.injEq, HasTransition,
      ← getElem?_itemsAt]
    constructor
    · rintro ⟨item, _, hitem, hform, rfl, htargets⟩
      exact ⟨item, hitem, hform, htargets⟩
    · rintro ⟨item, hitem, hform, htargets⟩
      exact ⟨item, index, hitem, hform, rfl, htargets⟩
  rw [hread, ← h.exists_edge_iff_hasTransition, List.mem_map]
  constructor
  · rintro ⟨edge, hedge, heq⟩
    obtain ⟨rfl, rfl⟩ := Prod.mk.inj heq
    obtain ⟨hmem, rfl, rfl⟩ := Graph.mem_slotEdges.1 hedge
    exact ⟨edge, hmem, Prod.ext hat.pathOf_eq rfl, rfl⟩
  · rintro ⟨edge, hmem, haddress, rfl⟩
    have hplace := (Prod.mk.inj haddress).2
    refine ⟨edge, Graph.mem_slotEdges.2
      ⟨hmem, h.source_eq hmem haddress hat, congrArg (·.slot) hplace⟩, ?_⟩
    rw [hplace]

/-- An item of a slot is the written form of an edge. -/
def IsWritten (editor : Editor) (edge : Edge) (item : Expr) : Prop :=
  (itemAt? editor.draft (editor.graph.pathOf edge.source) edge.path = some item) ∧
    edge.descriptors = targets item

/-- If all items are transitions, they are the written forms of the edges of their slot, in the
    same order. -/
theorem Current.isWritten_slotEdges (h : editor.Current)
    (hall : (itemsAt editor.draft).AllTransitions) (hat : editor.graph.At node path)
    (slot : Slot) :
    List.Forall₂ editor.IsWritten (editor.graph.slotEdges node slot)
      (itemsAt editor.draft (path, slot)) := by
  have hread : (itemsAt editor.draft (path, slot)).zipIdx.filterMap readAt? =
      (itemsAt editor.draft (path, slot)).zipIdx.map fun entry => (entry.2, targets entry.1) := by
    rw [← List.filterMap_eq_map]
    refine List.filterMap_congr fun entry hentry => ?_
    have hitem := hall (path, slot) entry.1 (List.fst_mem_of_mem_zipIdx hentry)
    rw [readAt?, if_pos hitem]
    rfl
  have hmap := (h.map_slotEdges hat slot).trans hread
  rw [← List.forall₂_eq_eq_eq, List.forall₂_map_left_iff, List.forall₂_map_right_iff] at hmap
  have hitems : (itemsAt editor.draft (path, slot)).zipIdx.map (·.1) =
      itemsAt editor.draft (path, slot) := List.zipIdx_map_fst _ _
  rw [← hitems, List.forall₂_map_right_iff]
  rw [List.forall₂_iff_zip] at hmap ⊢
  refine ⟨hmap.1, fun {edge entry} hpair => ?_⟩
  obtain ⟨hindex, hdescriptors⟩ := Prod.mk.inj (hmap.2 hpair)
  obtain ⟨hedge, hentry⟩ := List.of_mem_zip hpair
  obtain ⟨-, rfl, hslot⟩ := Graph.mem_slotEdges.1 hedge
  have hpath : edge.path = ⟨slot, entry.2⟩ := congrArg₂ TransitionPath.mk hslot hindex
  refine ⟨?_, hdescriptors⟩
  rw [hat.pathOf_eq, hpath, ← getElem?_itemsAt]
  exact List.mem_zipIdx_iff_getElem?.1 hentry

end Editor

end Statechart
