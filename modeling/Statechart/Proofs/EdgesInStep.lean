import Mathlib.Data.Set.Function
import Statechart.Proofs.EdgePlaces
import Statechart.Proofs.ReportedEntries
import Statechart.Proofs.SoundExtraction
import Statechart.Proofs.TransitionEdits

/-!
# Handles of edges and the edges of the draft

A session never looks its handles up in the draft: it keeps a place for each, and counts. Handles
and draft are *in step* when the nodes that are kept are the states of the draft and the places that
are kept are the positions in its slots. Then a handle leads to an edge of the graph, and to the
item that the edge was read from.

This asks for all entries of all slots to be transitions. One that is not is counted by the draft
and has no edge, so that the places behind it would be off by one.

* `Editor.ExtractsAll`, `Editor.Current.extractsAll_of_problems`: every entry is an edge, as it is
  when no transition is reported;
* `Session.edgeOf?`, `Session.formOf?`: the edge that a handle leads to, and its written form;
* `Session.InStep`: handles and draft are in step;
* `Session.InStep.bijOn_edgeOf?`: then handles and edges correspond to each other;
* `Session.inStep_ofEditor`: they are in step at the start;
* `Session.InStep.attachEdge`, `Session.InStep.detachEdge`, `Session.InStep.moveEdge`,
  `Session.InStep.replace`: and they stay so when a change of the draft comes with that of the
  places.
-/

namespace Statechart

open Property Draft

/-! ## Edges by their addresses -/

section

variable {config : Expr} (options setup : Option Expr)

/-- Edges are read of object literals alone. -/
theorem isObject_of_mem_edges {edge : Edge}
    (h : edge ∈ (extract config options setup).graph.edges) : config.isObject = true := by
  obtain ⟨info, hinfo, hmem⟩ := mem_edges_extract options setup h
  cases config with
  | object => rfl
  | _ =>
    obtain rfl := List.mem_singleton.1 (List.mem_of_getElem? hinfo)
    exact absurd hmem List.not_mem_nil

theorem isObject_of_itemAt? {path : StatePath} {place : TransitionPath} {item : Expr}
    (h : itemAt? config path place = some item) : config.isObject = true := by
  obtain ⟨state, hstate, -⟩ := Option.bind_eq_some_iff.1 h
  rw [stateProps?_eq] at hstate
  obtain ⟨props, hprops, -⟩ := Option.bind_eq_some_iff.1 hstate
  exact Option.isSome_iff_exists.2 ⟨props, hprops⟩

/-- Edges are at the addresses of the items that are transitions. -/
theorem exists_edge_iff_itemAt? {path : StatePath} {place : TransitionPath} :
    (∃ edge ∈ (extract config options setup).graph.edges,
        (extract config options setup).graph.address edge = (path, place)) ↔
      ∃ item, itemAt? config path place = some item ∧ isTransition item = true := by
  constructor
  · rintro ⟨edge, hedge, haddress⟩
    obtain ⟨item, hitem, hform, -⟩ := (exists_edge_iff options setup
      (isObject_of_mem_edges options setup hedge)).1 ⟨edge, hedge, haddress, rfl⟩
    exact ⟨item, hitem, hform⟩
  · rintro ⟨item, hitem, hform⟩
    obtain ⟨edge, hedge, haddress, -⟩ := (exists_edge_iff options setup
      (isObject_of_itemAt? hitem)).2
      (show HasTransition config (path, place) (targets item) from ⟨item, hitem, hform, rfl⟩)
    exact ⟨edge, hedge, haddress⟩

theorem nodup_edgeIds_extract (config : Expr) :
    ((extract config options setup).graph.edges.map (·.id)).Nodup := by
  rw [edgeIds_extract]
  exact List.nodup_range

end

namespace Editor

variable {editor : Editor}

variable (editor) in
/-- Every entry of every slot is extracted as an edge. -/
def ExtractsAll : Prop :=
  ∀ path place item, itemAt? editor.draft path place = some item →
    ∃ edge ∈ editor.graph.edges, editor.graph.address edge = (path, place)

theorem Current.exists_edge_iff (h : editor.Current) {path : StatePath} {place : TransitionPath} :
    (∃ edge ∈ editor.graph.edges, editor.graph.address edge = (path, place)) ↔
      ∃ item, itemAt? editor.draft path place = some item ∧ isTransition item = true := by
  rw [h.graph_eq]
  exact exists_edge_iff_itemAt? _ _

theorem Current.eq_of_address (h : editor.Current) {a b : Edge} (ha : a ∈ editor.graph.edges)
    (hb : b ∈ editor.graph.edges) (haddress : editor.graph.address a = editor.graph.address b) :
    a = b := by
  rw [h.graph_eq] at ha hb haddress
  exact List.inj_on_of_nodup_map (nodup_edges _ _ _) ha hb haddress

theorem Current.extractsAll_iff (h : editor.Current) :
    editor.ExtractsAll ↔ (itemsAt editor.draft).AllTransitions := by
  constructor
  · rintro hall ⟨path, slot⟩ item hmem
    obtain ⟨index, hitem⟩ := List.mem_iff_getElem?.1 hmem
    rw [getElem?_itemsAt] at hitem
    obtain ⟨item', hitem', hform⟩ := h.exists_edge_iff.1 (hall path ⟨slot, index⟩ item hitem)
    obtain rfl := Option.some.inj (hitem'.symm.trans hitem)
    exact hform
  · rintro hall path ⟨slot, index⟩ item hitem
    refine h.exists_edge_iff.2 ⟨item, hitem, hall (path, slot) item ?_⟩
    rw [← getElem?_itemsAt] at hitem
    exact List.mem_of_getElem? hitem

/-- A draft of which no transition is reported has an edge for each entry. -/
theorem Current.extractsAll_of_problems (h : editor.Current)
    (hproblems : ∀ problem ∈ editor.extraction.problems, problem.kind ≠ .transitionProperty) :
    editor.ExtractsAll := by
  intro path place item hitem
  refine h.exists_edge_iff.2 ⟨item, hitem, isTransition_of_not_reported ?_ hitem⟩
  rintro ⟨problem, hproblem, hkind⟩
  refine hproblems problem ?_ hkind
  rw [h, Editor.extractionOf, extract_eq]
  exact List.mem_append_left _ hproblem

end Editor

/-! ## The edge of a handle -/

/-- What is kept for a key that is kept once. -/
theorem lookup_of_mem [BEq α] [LawfulBEq α] {l : List (α × β)} {a : α} {b : β}
    (hnodup : (l.map (·.1)).Nodup) (h : (a, b) ∈ l) : l.lookup a = some b := by
  obtain ⟨b', hb'⟩ := Option.isSome_iff_exists.1 (lookup_isSome_iff_exists.2 ⟨b, h⟩)
  have heq := List.inj_on_of_nodup_map hnodup (Model.mem_of_lookup hb') h rfl
  exact hb'.trans (congrArg (some ·.2) heq)

namespace Session

variable {session : Session}

/-- The edge that a handle stands for: the one at the place that is kept for the handle, of the
    node at the path that is kept for its source. -/
def edgeOf? (session : Session) (id : EdgeId) : Option Edge := do
  let place ← session.model.edges.lookup id
  let path ← session.model.paths.lookup place.source
  let node ← session.editor.graph.nodeAt? path
  session.editor.graph.edgeAt? node place.path

/-- The written form of the transition that a handle stands for. -/
def formOf? (session : Session) (id : EdgeId) : Option Expr := do
  let edge ← session.edgeOf? id
  itemAt? session.editor.draft (session.editor.graph.pathOf edge.source) edge.path

/-- The handle of an edge stands for an item of the draft. -/
def Denotes (session : Session) (id : EdgeId) (item : Expr) : Prop :=
  session.model.Denotes (itemsAt session.editor.draft) id item

/-- Handles and draft are in step: nodes are kept for the states of the draft, and edges for the
    items of their slots, all of which are transitions. -/
structure InStep (session : Session) : Prop where
  current : session.editor.Current
  states : ∀ path, HasState session.editor.draft path ↔ ∃ node, (node, path) ∈ session.model.paths
  tracks : session.model.Tracks (itemsAt session.editor.draft)
  transitions : (itemsAt session.editor.draft).AllTransitions

namespace InStep

variable (h : session.InStep)

include h

theorem edgeOf?_eq_some_iff {id : EdgeId} {edge : Edge} :
    session.edgeOf? id = some edge ↔ ∃ place path, (id, place) ∈ session.model.edges ∧
      (place.source, path) ∈ session.model.paths ∧ edge ∈ session.editor.graph.edges ∧
      session.editor.graph.address edge = (path, place.path) := by
  have hgraph := h.current.wellFormed
  simp only [edgeOf?, Option.bind_eq_bind, Option.bind_eq_some_iff,
    Graph.nodeAt?_eq_some_iff hgraph]
  constructor
  · rintro ⟨place, hplace, path, hpath, node, hat, hedge⟩
    obtain ⟨hmem, rfl, hat'⟩ := Graph.mem_of_edgeAt? hedge
    exact ⟨place, path, Model.mem_of_lookup hplace, Model.mem_of_lookup hpath, hmem,
      Prod.ext hat.pathOf_eq hat'⟩
  · rintro ⟨place, path, hplace, hpath, hmem, haddress⟩
    obtain ⟨hsource, hedge⟩ := Prod.mk.inj haddress
    have hat := Graph.at_pathOf (hgraph.sources edge hmem)
    refine ⟨place, lookup_of_mem h.tracks.handles hplace, path,
      lookup_of_mem h.tracks.nodes hpath, edge.source, hsource ▸ hat, ?_⟩
    obtain ⟨found, hfound⟩ := Option.isSome_iff_exists.1
      (Graph.isSome_edgeAt?_iff.2 ⟨edge, hmem, rfl, hedge⟩)
    obtain ⟨hmem', hsource', hedge'⟩ := Graph.mem_of_edgeAt? hfound
    rw [hfound, h.current.eq_of_address hmem' hmem]
    rw [haddress, Graph.address, hsource', hsource, hedge']

/-- A handle stands for the item that its edge is written as. -/
theorem formOf?_eq_some_iff {id : EdgeId} {item : Expr} :
    session.formOf? id = some item ↔ session.Denotes id item := by
  simp only [formOf?, Option.bind_eq_bind, Option.bind_eq_some_iff, h.edgeOf?_eq_some_iff]
  constructor
  · rintro ⟨edge, ⟨place, path, hplace, hpath, -, haddress⟩, hitem⟩
    obtain ⟨hsource, hedge⟩ := Prod.mk.inj haddress
    refine ⟨place, path, hplace, hpath, ?_⟩
    rw [getElem?_itemsAt, ← hsource]
    exact hedge ▸ hitem
  · rintro ⟨place, path, hplace, hpath, hitem⟩
    have hform := h.transitions _ item (List.mem_of_getElem? hitem)
    rw [getElem?_itemsAt] at hitem
    obtain ⟨edge, hedge, haddress⟩ := h.current.exists_edge_iff.2 ⟨item, hitem, hform⟩
    refine ⟨edge, ⟨place, path, hplace, hpath, hedge, haddress⟩, ?_⟩
    obtain ⟨hsource, hedge⟩ := Prod.mk.inj haddress
    rw [hsource, hedge]
    exact hitem

/-- A handle leads to an edge. -/
theorem exists_edgeOf? {id : EdgeId} (hid : session.model.hasEdge id = true) :
    ∃ edge ∈ session.editor.graph.edges, session.edgeOf? id = some edge := by
  obtain ⟨item, hitem⟩ := h.tracks.exists_denotes hid
  obtain ⟨edge, hedge, -⟩ := Option.bind_eq_some_iff.1 (h.formOf?_eq_some_iff.2 hitem)
  obtain ⟨_, _, -, -, hmem, -⟩ := h.edgeOf?_eq_some_iff.1 hedge
  exact ⟨edge, hmem, hedge⟩

/-- Two handles do not lead to one edge. -/
theorem edgeOf?_inj {id other : EdgeId} {edge : Edge} (hid : session.edgeOf? id = some edge)
    (hother : session.edgeOf? other = some edge) : id = other := by
  obtain ⟨place, path, hplace, hpath, -, haddress⟩ := h.edgeOf?_eq_some_iff.1 hid
  obtain ⟨place', path', hplace', hpath', -, haddress'⟩ := h.edgeOf?_eq_some_iff.1 hother
  obtain ⟨rfl, heq⟩ := Prod.mk.inj (haddress.symm.trans haddress')
  have hsource := h.tracks.node_eq hpath hpath'
  obtain rfl := EdgePlace.ext_index hsource (congrArg (·.slot) heq) (congrArg (·.index) heq)
  exact h.tracks.handle_eq hplace hplace'

/-- An edge has a handle that leads to it. -/
theorem exists_handle {edge : Edge} (hedge : edge ∈ session.editor.graph.edges) :
    ∃ id, session.model.hasEdge id = true ∧ session.edgeOf? id = some edge := by
  obtain ⟨item, hitem, -⟩ := h.current.exists_edge_iff.1 ⟨edge, hedge, rfl⟩
  have hstate : HasState session.editor.draft (session.editor.graph.pathOf edge.source) := by
    obtain ⟨state, hstate, -⟩ := Option.bind_eq_some_iff.1 hitem
    exact .inr (Option.isSome_of_eq_some hstate)
  obtain ⟨node, hnode⟩ := (h.states _).1 hstate
  rw [← getElem?_itemsAt] at hitem
  obtain ⟨id, hid⟩ := (h.tracks.positions _ _ hnode _ _).2 (List.getElem?_eq_some_iff.1 hitem).1
  exact ⟨id, Model.hasEdge_iff_mem.2 ⟨_, hid⟩,
    h.edgeOf?_eq_some_iff.2 ⟨_, _, hid, hnode, hedge, rfl⟩⟩

/-- Handles lead to edges, each to one of its own, and all edges are reached. -/
theorem bijOn_edgeOf? : Set.BijOn session.edgeOf? {id | session.model.hasEdge id = true}
    {found | ∃ edge ∈ session.editor.graph.edges, found = some edge} := by
  refine ⟨fun id hid => h.exists_edgeOf? hid, fun id hid other hother heq => ?_, ?_⟩
  · obtain ⟨edge, -, hedge⟩ := h.exists_edgeOf? hid
    exact h.edgeOf?_inj hedge (heq ▸ hedge)
  · rintro _ ⟨edge, hedge, rfl⟩
    exact h.exists_handle hedge

end InStep

end Session

/-! ## The start -/

namespace Model

section

variable {graph : Graph} (hgraph : graph.WellFormed)

include hgraph

theorem mem_paths_ofGraph {node : NodeId} {path : StatePath} :
    (node, path) ∈ (ofGraph graph).paths ↔ graph.At node path := by
  constructor
  · intro hnode
    obtain ⟨found, hfound, heq⟩ := List.mem_map.1 hnode
    obtain ⟨rfl, rfl⟩ := Prod.mk.inj heq
    exact hgraph.at_of_mem hfound
  · rintro ⟨found, hfound, rfl⟩
    exact List.mem_map.2 ⟨found, List.mem_of_getElem? hfound,
      congrArg (·, found.path) (hgraph.hierarchy.id_eq hfound)⟩

theorem exists_mem_edges_ofGraph {node : NodeId} {path : StatePath} {place : TransitionPath}
    (hat : graph.At node path) :
    (∃ id, (id, (⟨node, place⟩ : EdgePlace)) ∈ (ofGraph graph).edges) ↔
      ∃ edge ∈ graph.edges, graph.address edge = (path, place) := by
  constructor
  · rintro ⟨id, hid⟩
    obtain ⟨edge, hedge, heq⟩ := List.mem_map.1 hid
    obtain ⟨rfl, hplace⟩ := EdgePlace.mk.inj (Prod.mk.inj heq).2
    exact ⟨edge, hedge, Prod.ext hat.pathOf_eq hplace⟩
  · rintro ⟨edge, hedge, haddress⟩
    obtain ⟨hsource, rfl⟩ := Prod.mk.inj haddress
    have hat' := Graph.at_pathOf (hgraph.sources edge hedge)
    obtain rfl := Graph.At.unique hgraph hat (hsource ▸ hat')
    exact ⟨edge.id, List.mem_map.2 ⟨edge, hedge, rfl⟩⟩

end

/-- The places of a graph are the positions of the items that it was read from. -/
theorem tracks_ofGraph {editor : Editor} (hcurrent : editor.Current)
    (hall : (itemsAt editor.draft).AllTransitions) :
    (ofGraph editor.graph).Tracks (itemsAt editor.draft) := by
  have hgraph := hcurrent.wellFormed
  refine ⟨?_, ?_, ?_, ?_, sourcesKnown_ofGraph hgraph, fun node path hpath slot index => ?_⟩
  · have hids : (ofGraph editor.graph).paths.map (·.1) = editor.graph.nodes.map (·.id) :=
      List.map_map
    rw [hids, hgraph.nodeIds]
    exact List.nodup_range
  · have hpaths : (ofGraph editor.graph).paths.map (·.2) = editor.graph.nodes.map (·.path) :=
      List.map_map
    rw [hpaths]
    exact hgraph.paths
  · have hids : (ofGraph editor.graph).edges.map (·.1) = editor.graph.edges.map (·.id) :=
      List.map_map
    rw [hids, hcurrent.graph_eq]
    exact nodup_edgeIds_extract _ _ _
  · have hplaces : (ofGraph editor.graph).edges.map (·.2) =
        (editor.graph.edges.map fun edge => (edge.source, edge.path)).map
          fun place => ⟨place.1, place.2⟩ := by
      rw [List.map_map]
      exact List.map_map
    rw [hplaces, hcurrent.graph_eq]
    refine (nodup_places_edges _ _ _).map fun a b heq => ?_
    exact Prod.ext (congrArg EdgePlace.source heq) (congrArg EdgePlace.path heq)
  · rw [exists_mem_edges_ofGraph hgraph ((mem_paths_ofGraph hgraph).1 hpath),
      hcurrent.exists_edge_iff, ← getElem?_itemsAt]
    constructor
    · rintro ⟨item, hitem, -⟩
      exact (List.getElem?_eq_some_iff.1 hitem).1
    · intro hlt
      exact ⟨_, List.getElem?_eq_getElem hlt, hall _ _ (List.getElem_mem hlt)⟩

end Model

namespace Session

variable {session : Session}

/-- Handles and draft are in step at the start. -/
theorem inStep_ofEditor {editor : Editor} (hcurrent : editor.Current) (hall : editor.ExtractsAll) :
    (ofEditor editor).InStep := by
  have htransitions := hcurrent.extractsAll_iff.1 hall
  refine ⟨hcurrent, fun path => ?_, Model.tracks_ofGraph hcurrent htransitions, htransitions⟩
  refine (hcurrent.has_iff path).symm.trans (exists_congr fun node => ?_)
  exact (Model.mem_paths_ofGraph hcurrent.wellFormed).symm

/-! ## What an edit makes of the handles -/

theorem denotes_withDraft {editor : Editor} {draft item : Expr} {model : Model} {id : EdgeId} :
    Denotes ⟨editor.withDraft draft, model⟩ id item ↔ model.Denotes (itemsAt draft) id item :=
  Iff.rfl

/-- Handles other than one stand for the items that they stood for. -/
def KeepsOthers (before after : Session) (id : EdgeId) : Prop :=
  ∀ other item, other ≠ id → before.Denotes other item → after.Denotes other item

theorem KeepsOthers.trans {a b c : Session} {id : EdgeId} (hab : KeepsOthers a b id)
    (hbc : KeepsOthers b c id) : KeepsOthers a c id :=
  fun other item hne hitem => hbc other item hne (hab other item hne hitem)

namespace InStep

variable (h : session.InStep) {draft : Expr}
  (hsame : SamePaths session.editor.draft draft)

include h hsame

/-- An edit that keeps the states keeps the session in step if the places follow the items. -/
theorem withDraft {model : Model} (hpaths : model.paths = session.model.paths)
    (htracks : model.Tracks (itemsAt draft)) (htransitions : (itemsAt draft).AllTransitions) :
    InStep ⟨session.editor.withDraft draft, model⟩ := by
  refine ⟨rfl, fun path => ?_, htracks, htransitions⟩
  rw [hpaths]
  exact (hsame.hasState_iff path).trans (h.states path)

variable {id : EdgeId} {item : Expr}

/-- A new item comes to the end of a slot, with a new handle. -/
theorem attachEdge {source : NodeId} {path : StatePath} {slot : Slot}
    (hid : session.model.hasEdge id = false) (hpath : (source, path) ∈ session.model.paths)
    (hitem : isTransition item = true)
    (htable : itemsAt draft = (itemsAt session.editor.draft).append (path, slot) item) :
    InStep ⟨session.editor.withDraft draft, session.model.attachEdge id source slot⟩ ∧
      KeepsOthers session
        ⟨session.editor.withDraft draft, session.model.attachEdge id source slot⟩ id := by
  constructor
  · refine h.withDraft hsame rfl ?_ ?_
    · rw [htable]
      exact h.tracks.attachEdge hpath slot item hid
    · rw [htable]
      exact h.transitions.append _ hitem
  · intro other item' _ hother
    rw [denotes_withDraft, htable]
    exact hother.attachEdge slot item

variable {place : EdgePlace} {path : StatePath} (hplace : (id, place) ∈ session.model.edges)
  (hpath : (place.source, path) ∈ session.model.paths)

include hplace hpath

/-- An item is taken out of its slot, with its handle and the blocks of that. -/
theorem detachEdge (htable : itemsAt draft =
      (itemsAt session.editor.draft).erase (path, place.path.slot) place.path.index) :
    InStep ⟨session.editor.withDraft draft,
        (session.model.detachEdge id place).dropBlocksOf id⟩ ∧
      KeepsOthers session ⟨session.editor.withDraft draft,
        (session.model.detachEdge id place).dropBlocksOf id⟩ id := by
  constructor
  · refine h.withDraft hsame rfl ?_ ?_
    · rw [htable]
      exact (h.tracks.detachEdge hplace hpath).dropBlocksOf id
    · rw [htable]
      exact h.transitions.erase _ _
  · intro other item' hne hother
    rw [denotes_withDraft, htable]
    exact hother.detachEdge h.tracks hplace hpath hne

/-- An item moves to the end of a slot, and its handle with it. -/
theorem moveEdge {source : NodeId} {newPath : StatePath} {slot : Slot}
    (hnewPath : (source, newPath) ∈ session.model.paths) (hitem : isTransition item = true)
    (htable : itemsAt draft = ((itemsAt session.editor.draft).erase (path, place.path.slot)
      place.path.index).append (newPath, slot) item) :
    InStep ⟨session.editor.withDraft draft,
        (session.model.detachEdge id place).attachEdge id source slot⟩ ∧
      KeepsOthers session ⟨session.editor.withDraft draft,
        (session.model.detachEdge id place).attachEdge id source slot⟩ id ∧
      Denotes ⟨session.editor.withDraft draft,
        (session.model.detachEdge id place).attachEdge id source slot⟩ id item := by
  have hdetached := h.tracks.detachEdge hplace hpath
  refine ⟨h.withDraft hsame rfl ?_ ?_, fun other item' hne hother => ?_, ?_⟩
  · rw [htable]
    exact hdetached.attachEdge hnewPath slot item (Model.hasEdge_detachEdge_self id place)
  · rw [htable]
    exact (h.transitions.erase _ _).append _ hitem
  · rw [denotes_withDraft, htable]
    exact (hother.detachEdge h.tracks hplace hpath hne).attachEdge slot item
  · rw [denotes_withDraft, htable]
    exact .attachEdge_self hdetached hnewPath slot item

/-- An item is replaced in its place. -/
theorem replace (hitem : isTransition item = true) (htable : itemsAt draft =
      (itemsAt session.editor.draft).replace (path, place.path.slot) place.path.index item) :
    InStep ⟨session.editor.withDraft draft, session.model⟩ ∧
      KeepsOthers session ⟨session.editor.withDraft draft, session.model⟩ id ∧
      Denotes ⟨session.editor.withDraft draft, session.model⟩ id item := by
  refine ⟨h.withDraft hsame rfl ?_ ?_, fun other item' hne hother => ?_, ?_⟩
  · rw [htable]
    exact h.tracks.replace _ _ _
  · rw [htable]
    exact h.transitions.replace _ hitem _
  · rw [denotes_withDraft, htable]
    exact hother.replace h.tracks hplace hpath item hne
  · rw [denotes_withDraft, htable]
    exact .replace_self h.tracks hplace hpath item

end InStep

end Session

end Statechart
