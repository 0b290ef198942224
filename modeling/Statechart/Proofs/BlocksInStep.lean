import Mathlib.Data.List.Perm.Basic
import Statechart.Proofs.BlockPlaces

/-!
# Handles of blocks and the entries of the draft

A session keeps a place for the handle of each block: a list and a position in it. The handle leads
to the entry that is written there. A session is *anchored* when every handle of a block leads to an
entry of its own that refers to something, and every handle of an edge to a transition. The lists
may hold other entries besides, which no handle leads to.

* `Session.itemOf?`, `Session.listOf`, `Session.entryOf?`: what handles lead to in the draft;
* `Session.sourceOf?`: what the graph of the draft has for a block of a state;
* `Session.Anchored`: all handles lead somewhere;
* `Session.anchored_ofEditor`: they do at the start;
* `Session.Anchored.addition`, `Session.Anchored.removal`, `Session.Anchored.repointing`: and they
  go on to when a change of a list comes with that of the places.
-/

namespace Statechart

open Property Draft

namespace BlockOwner

/-- The list of a node that blocks belong to, if they do not belong to an edge. -/
def node? : BlockOwner → Option (NodeList × NodeId)
  | entry node => some (.entry, node)
  | exit node => some (.exit, node)
  | invoke node => some (.invoke, node)
  | actions _ | guard _ => none

theorem node?_eq_some_iff {owner : BlockOwner} {list : NodeList} {node : NodeId} :
    owner.node? = some (list, node) ↔ owner = list.owner node := by
  cases owner <;> cases list <;> simp [node?, NodeList.owner]

theorem reference?_owner (list : NodeList) (node : NodeId) :
    (list.owner node).reference? = list.reference? := by
  cases list <;> rfl

end BlockOwner

theorem NodeList.owner_inj {list other : NodeList} {node id : NodeId}
    (h : list.owner node = other.owner id) : list = other ∧ node = id := by
  have hnode := BlockOwner.node?_eq_some_iff.2 h
  rw [BlockOwner.node?_eq_some_iff.2 rfl] at hnode
  exact Prod.mk.inj (Option.some.inj hnode)

namespace Session

/-! ## What handles lead to -/

section

variable (session : Session)

/-- The transition that the handle of an edge leads to. -/
def itemOf? (id : EdgeId) : Option Expr := do
  let place ← session.model.edges.lookup id
  let path ← session.model.paths.lookup place.source
  itemAt? session.editor.draft path place.path

/-- The entries of a list of a node. -/
def entriesOf (list : NodeList) (node : NodeId) : List Expr :=
  ((session.model.paths.lookup node).map (entriesAt session.editor.draft · list)).getD []

/-- The entries of the list of an owner, as they are written. -/
def listOf : BlockOwner → List Expr
  | .entry node => session.entriesOf .entry node
  | .exit node => session.entriesOf .exit node
  | .invoke node => session.entriesOf .invoke node
  | .actions edge =>
    ((session.itemOf? edge).map fun item => OneOrMany.items (itemProps item) "actions").getD []
  | .guard edge => ((session.itemOf? edge).bind guardExpr?).toList

/-- The entry that the handle of a block leads to. -/
def entryOf? (id : BlockId) : Option Expr :=
  session.model.entryIn? session.listOf id

/-- The source of a block of a node, as it is extracted from the entry that its handle leads to. -/
def sourceOf? (id : BlockId) : Option String := do
  let place ← session.model.blocks.lookup id
  let (list, node) ← place.owner.node?
  let path ← session.model.paths.lookup node
  session.editor.graph.sourceAt? path list place.index

/-- All handles lead to something that is written, those of blocks each to an entry of its own. -/
structure Anchored : Prop where
  current : session.editor.Current
  paths : (session.model.paths.map (·.2)).Nodup
  edges : (session.model.edges.map (·.1)).Nodup
  items : ∀ id, session.model.hasEdge id = true → ∃ item, session.itemOf? id = some item
  blocks : session.model.Anchors session.listOf

end

variable {session : Session}

theorem listOf_owner (session : Session) (list : NodeList) (node : NodeId) :
    session.listOf (list.owner node) = session.entriesOf list node := by
  cases list <;> rfl

theorem entriesOf_of_lookup {list : NodeList} {node : NodeId} {path : StatePath}
    (h : session.model.paths.lookup node = some path) :
    session.entriesOf list node = entriesAt session.editor.draft path list := by
  rw [entriesOf, h]
  rfl

theorem itemOf?_of_lookup {id : EdgeId} {place : EdgePlace} {path : StatePath}
    (hplace : session.model.edges.lookup id = some place)
    (hpath : session.model.paths.lookup place.source = some path) :
    session.itemOf? id = itemAt? session.editor.draft path place.path := by
  rw [itemOf?, hplace]
  change (session.model.paths.lookup place.source).bind _ = _
  rw [hpath]
  rfl

theorem exists_of_itemOf? {id : EdgeId} {item : Expr} (h : session.itemOf? id = some item) :
    ∃ place path, session.model.edges.lookup id = some place ∧
      session.model.paths.lookup place.source = some path ∧
      itemAt? session.editor.draft path place.path = some item := by
  obtain ⟨place, hplace, h⟩ := Option.bind_eq_some_iff.1 h
  obtain ⟨path, hpath, h⟩ := Option.bind_eq_some_iff.1 h
  exact ⟨place, path, hplace, hpath, h⟩

/-- Lists of edges are those of their transitions. -/
theorem listOf_congr {a b : Session} {owner : BlockOwner} (hnode : owner.node? = none)
    (hitems : ∀ id, Model.belongsToEdge id ⟨owner, 0⟩ = true → a.itemOf? id = b.itemOf? id) :
    a.listOf owner = b.listOf owner := by
  cases owner with
  | entry | exit | invoke => cases hnode
  | actions id | guard id =>
    rw [listOf, listOf, hitems id (by simp [Model.belongsToEdge])]

theorem sourceOf?_of_lookup {id : BlockId} {list : NodeList} {node : NodeId} {index : Nat}
    {path : StatePath} (hplace : session.model.blocks.lookup id = some ⟨list.owner node, index⟩)
    (hpath : session.model.paths.lookup node = some path) :
    session.sourceOf? id = session.editor.graph.sourceAt? path list index := by
  simp only [sourceOf?, hplace, Option.bind_eq_bind, Option.bind_some,
    BlockOwner.node?_eq_some_iff.2 rfl, hpath]

end Session

/-! ## The start -/

/-- The handles of the blocks of an owner in a graph. -/
inductive Graph.Owned (graph : Graph) : BlockOwner → List BlockId → Prop
  | node {node : Node} (list : NodeList) : node ∈ graph.nodes →
      Owned graph (list.owner node.id) (list.handlesOf node)
  | actions {edge : Edge} : edge ∈ graph.edges → Owned graph (.actions edge.id) edge.actions
  | guard {edge : Edge} : edge ∈ graph.edges → Owned graph (.guard edge.id) edge.guard.toList

namespace Model

variable {graph : Graph}

theorem mem_blockPlaces {owner : BlockOwner} {ids : List BlockId} {id : BlockId}
    {place : BlockPlace} (h : (id, place) ∈ blockPlaces graph owner ids) :
    id ∈ ids ∧ place = ⟨owner, ((graph.block? id).map (·.listIndex)).getD 0⟩ := by
  obtain ⟨_, hmem, heq⟩ := List.mem_map.1 h
  obtain ⟨rfl, rfl⟩ := Prod.mk.inj heq
  exact ⟨hmem, rfl⟩

/-- The places at the start are those of the blocks in the lists of the graph. -/
theorem exists_owned_of_mem {id : BlockId} {place : BlockPlace}
    (h : (id, place) ∈ (ofGraph graph).blocks) : ∃ ids, graph.Owned place.owner ids ∧ id ∈ ids ∧
      (place.index = ((graph.block? id).map (·.listIndex)).getD 0 ∨
        place.index = 0 ∧ ∃ edge, place.owner = .guard edge) := by
  rcases List.mem_append.1 h with h | h
  · obtain ⟨node, hnode, h⟩ := List.mem_flatMap.1 h
    obtain ⟨list, h⟩ : ∃ list : NodeList,
        (id, place) ∈ blockPlaces graph (list.owner node.id) (list.handlesOf node) := by
      rcases List.mem_append.1 h with h | h
      · rcases List.mem_append.1 h with h | h
        · exact ⟨.entry, h⟩
        · exact ⟨.exit, h⟩
      · exact ⟨.invoke, h⟩
    obtain ⟨hid, rfl⟩ := mem_blockPlaces h
    exact ⟨_, .node list hnode, hid, .inl rfl⟩
  · obtain ⟨edge, hedge, h⟩ := List.mem_flatMap.1 h
    rcases List.mem_append.1 h with h | h
    · obtain ⟨hid, rfl⟩ := mem_blockPlaces h
      exact ⟨_, .actions hedge, hid, .inl rfl⟩
    · obtain ⟨_, hid, heq⟩ := List.mem_map.1 h
      obtain ⟨rfl, rfl⟩ := Prod.mk.inj heq
      exact ⟨_, .guard hedge, hid, .inr ⟨rfl, _, rfl⟩⟩

/-- The handles at the start are those of the lists of the graph. -/
theorem handles_ofGraph (graph : Graph) :
    ((ofGraph graph).blocks.map (·.1)).Perm graph.blockLists.flatten := by
  have hplaces (owner : BlockOwner) (ids : List BlockId) :
      (blockPlaces graph owner ids).map (·.1) = ids := by
    rw [blockPlaces, List.map_map]
    exact List.map_id' ids
  have hguard (edge : Edge) : (edge.guard.toList.map fun id =>
      (id, (⟨.guard edge.id, 0⟩ : BlockPlace))).map (·.1) = edge.guard.toList := by
    rw [List.map_map]
    exact List.map_id' _
  rw [Graph.blockLists, List.flatten_append, List.flatten_eq_flatMap, List.flatten_eq_flatMap,
    List.flatMap_assoc, List.flatMap_assoc, ofGraph, List.map_append, List.map_flatMap,
    List.map_flatMap]
  refine (List.Perm.of_eq ?_).append (List.Perm.flatMap_left _ fun edge _ => ?_)
  · refine List.flatMap_congr fun node _ => ?_
    simp [nodeBlocks, hplaces]
  · rw [edgeBlocks, List.map_append, hplaces, hguard]
    simpa using List.perm_append_comm

theorem lookup_paths_ofGraph (hgraph : graph.WellFormed) {node : NodeId} {path : StatePath}
    (hat : graph.At node path) : (ofGraph graph).paths.lookup node = some path := by
  have hids : (ofGraph graph).paths.map (·.1) = graph.nodes.map (·.id) := List.map_map
  refine lookup_of_mem ?_ ((mem_paths_ofGraph hgraph).2 hat)
  rw [hids, hgraph.nodeIds]
  exact List.nodup_range

end Model

theorem NodeList.owner_ne (list : NodeList) (node : NodeId) (edge : EdgeId) :
    list.owner node ≠ .actions edge ∧ list.owner node ≠ .guard edge := by
  cases list <;> simp [NodeList.owner]

theorem Graph.Owned.unique {graph : Graph} (hgraph : graph.WellFormed)
    (hedges : (graph.edges.map (·.id)).Nodup) {owner : BlockOwner} {ids ids' : List BlockId}
    (h : graph.Owned owner ids) (h' : graph.Owned owner ids') : ids = ids' := by
  generalize howner : owner = other at h'
  cases h with
  | node list hnode =>
    cases h' with
    | node list' hnode' =>
      obtain ⟨rfl, hid⟩ := NodeList.owner_inj howner
      rw [hgraph.eq_of_id hnode hnode' hid]
    | actions => exact absurd howner (NodeList.owner_ne _ _ _).1
    | guard => exact absurd howner (NodeList.owner_ne _ _ _).2
  | actions hedge =>
    cases h' with
    | node => exact absurd howner.symm (NodeList.owner_ne _ _ _).1
    | actions hedge' =>
      rw [List.inj_on_of_nodup_map hedges hedge hedge' (BlockOwner.actions.inj howner)]
    | guard => cases howner
  | guard hedge =>
    cases h' with
    | node => exact absurd howner.symm (NodeList.owner_ne _ _ _).2
    | actions => cases howner
    | guard hedge' =>
      rw [List.inj_on_of_nodup_map hedges hedge hedge' (BlockOwner.guard.inj howner)]

namespace Session

section

variable {editor : Editor} (hcurrent : editor.Current)

include hcurrent

theorem nodup_edges_ofEditor : ((ofEditor editor).model.edges.map (·.1)).Nodup := by
  have hids : (ofEditor editor).model.edges.map (·.1) = editor.graph.edges.map (·.id) :=
    List.map_map
  rw [hids, hcurrent.graph_eq]
  exact nodup_edgeIds_extract _ _ _

/-- The handle of an edge leads to the item that it is made from. -/
theorem exists_itemOf?_ofEditor {edge : Edge} (hedge : edge ∈ editor.graph.edges) :
    ∃ item, (ofEditor editor).itemOf? edge.id = some item ∧
      ∃ names, editor.graph.Realizes names .action (.edge edge.id)
          (OneOrMany.item? (itemProps item) "actions") edge.actions ∧
        editor.graph.Realizes names .guard (.edge edge.id)
          (fun index => if index = 0 then guardExpr? item else none) edge.guard.toList := by
  have hgraph := hcurrent.wellFormed
  have hplace : (ofEditor editor).model.edges.lookup edge.id = some ⟨edge.source, edge.path⟩ :=
    lookup_of_mem (nodup_edges_ofEditor hcurrent) (List.mem_map.2 ⟨edge, hedge, rfl⟩)
  have hpath := Model.lookup_paths_ofGraph hgraph (Graph.at_pathOf (hgraph.sources edge hedge))
  rw [itemOf?_of_lookup hplace hpath]
  rw [hcurrent.graph_eq] at hedge ⊢
  have hconfig := isObject_of_mem_edges _ _ hedge
  obtain ⟨item, t, hitem, hmade, -, -, hguard, hactions⟩ := exists_item_edge _ _ hconfig hedge
  have hblocks := blocks_extract editor.draft editor.machine.options editor.machine.setup
  refine ⟨item, hitem, _, hmade.actions.realizes hactions hblocks, ?_⟩
  exact (hguard ▸ hmade.guard).realizes (referencesIn_guard _) hblocks

/-- The blocks of an owner are those of its entries that refer to something. -/
theorem realizes_owned {owner : BlockOwner} {ids : List BlockId}
    (h : editor.graph.Owned owner ids) : ∃ names kind parent listed?,
      editor.graph.Realizes names kind parent listed? ids ∧
      ∀ index expr, listed? index = some expr →
        ((Reference.shape kind).value? expr).isSome = true →
        ∃ entry, ((ofEditor editor).listOf owner)[index]? = some entry ∧
          (owner.reference? entry).isSome = true := by
  have hgraph := hcurrent.wellFormed
  cases h with
  | @node node list hnode =>
    have hpath := Model.lookup_paths_ofGraph hgraph (hgraph.at_of_mem hnode)
    have hlist : (ofEditor editor).listOf (list.owner node.id) =
        entriesAt editor.draft node.path list := by
      rw [listOf_owner, entriesOf_of_lookup hpath]
      rfl
    rw [hlist, BlockOwner.reference?_owner]
    rw [hcurrent.graph_eq] at hnode ⊢
    refine ⟨_, _, _, _, realizes_extract _ _ hnode list, fun index expr hexpr hvalue => ?_⟩
    obtain ⟨entry, hentry, hnamed⟩ := Option.bind_eq_some_iff.1 hexpr
    refine ⟨entry, hentry, ?_⟩
    rw [NodeList.reference?, hnamed]
    exact hvalue
  | actions hedge =>
    obtain ⟨item, hitem, names, hrealizes, -⟩ := exists_itemOf?_ofEditor hcurrent hedge
    refine ⟨_, _, _, _, hrealizes, fun index expr hexpr hvalue => ⟨expr, ?_, hvalue⟩⟩
    rw [listOf, hitem]
    exact hexpr
  | guard hedge =>
    obtain ⟨item, hitem, names, -, hrealizes⟩ := exists_itemOf?_ofEditor hcurrent hedge
    refine ⟨_, _, _, _, hrealizes, fun index expr hexpr hvalue => ⟨expr, ?_, hvalue⟩⟩
    split at hexpr
    · next hindex =>
      rw [listOf, hitem, Option.bind_some, hexpr, hindex]
      rfl
    · cases hexpr

/-- Where the handle of a block leads at the start. -/
theorem exists_block_of_mem {id : BlockId} {place : BlockPlace}
    (h : (id, place) ∈ (ofEditor editor).model.blocks) : ∃ ids block,
      editor.graph.Owned place.owner ids ∧ id ∈ ids ∧ editor.graph.block? id = some block ∧
      block.listIndex = place.index := by
  obtain ⟨ids, howned, hid, hindex⟩ := Model.exists_owned_of_mem h
  obtain ⟨names, kind, parent, listed?, hrealizes, hlisted⟩ := realizes_owned hcurrent howned
  obtain ⟨block, expr, reference, hblock, -, -, hexpr, hvalue, -⟩ := hrealizes.entry id hid
  refine ⟨ids, block, howned, hid, hblock, ?_⟩
  rcases hindex with hindex | ⟨hindex, edge, howner⟩
  · rw [hindex, hblock]
    rfl
  · -- A guard is alone, so that its position is the first.
    obtain ⟨entry, hentry, -⟩ := hlisted _ _ hexpr (Option.isSome_of_eq_some hvalue)
    rw [howner, listOf] at hentry
    have hlt := (List.getElem?_eq_some_iff.1 hentry).1
    have hlength : ∀ guard : Option Expr, guard.toList.length ≤ 1 := by
      intro guard
      cases guard <;> simp
    have := hlength (((ofEditor editor).itemOf? edge).bind guardExpr?)
    omega

/-- Every handle leads somewhere at the start. -/
theorem anchored_ofEditor : (ofEditor editor).Anchored := by
  have hgraph := hcurrent.wellFormed
  have hedges : (editor.graph.edges.map (·.id)).Nodup := by
    rw [hcurrent.graph_eq]
    exact nodup_edgeIds_extract _ _ _
  have hhandles : ((ofEditor editor).model.blocks.map (·.1)).Nodup := by
    have hflat : editor.graph.blockLists.flatten.Nodup := by
      rw [hcurrent.graph_eq]
      exact (blockLists_extract _ _ _).nodup_iff.2 List.nodup_range
    exact (Model.handles_ofGraph editor.graph).nodup_iff.2 hflat
  refine ⟨hcurrent, ?_, nodup_edges_ofEditor hcurrent, fun id hid => ?_, hhandles, ?_,
    fun id place hmem => ?_⟩
  · have hpaths : (ofEditor editor).model.paths.map (·.2) = editor.graph.nodes.map (·.path) :=
      List.map_map
    rw [hpaths]
    exact hgraph.paths
  · obtain ⟨place, hmem⟩ := Model.hasEdge_iff_mem.1 hid
    obtain ⟨edge, hedge, heq⟩ := List.mem_map.1 hmem
    obtain ⟨rfl, rfl⟩ := Prod.mk.inj heq
    obtain ⟨item, hitem, -⟩ := exists_itemOf?_ofEditor hcurrent hedge
    exact ⟨item, hitem⟩
  · refine List.Nodup.map_on ?_ hhandles.of_map
    rintro ⟨a, place⟩ ha ⟨b, place'⟩ hb heq
    obtain rfl : place = place' := heq
    obtain ⟨ids, block, howned, ha, hblock, hindex⟩ := exists_block_of_mem hcurrent ha
    obtain ⟨ids', block', howned', hb, hblock', hindex'⟩ := exists_block_of_mem hcurrent hb
    obtain rfl := howned.unique hgraph hedges howned'
    obtain ⟨names, kind, parent, listed?, hrealizes, -⟩ := realizes_owned hcurrent howned
    -- Both are the block of the entry at the position.
    obtain ⟨found, expr, reference, hfound, -, -, hexpr, hvalue, -⟩ := hrealizes.entry a ha
    obtain rfl := Option.some.inj (hfound.symm.trans hblock)
    rw [hindex] at hexpr
    have hunique := hrealizes.block place.index expr hexpr (Option.isSome_of_eq_some hvalue)
    rw [hunique.unique ⟨ha, _, hblock, hindex⟩ ⟨hb, _, hblock', hindex'⟩]
  · obtain ⟨ids, block, howned, hid, hblock, hindex⟩ := exists_block_of_mem hcurrent hmem
    obtain ⟨names, kind, parent, listed?, hrealizes, hlisted⟩ := realizes_owned hcurrent howned
    obtain ⟨found, expr, reference, hfound, -, -, hexpr, hvalue, -⟩ := hrealizes.entry id hid
    obtain rfl := Option.some.inj (hfound.symm.trans hblock)
    rw [hindex] at hexpr
    exact hlisted _ _ hexpr (Option.isSome_of_eq_some hvalue)

end

/-! ## What a change of a list makes of the handles -/

variable {session : Session}

namespace Anchored

variable (h : session.Anchored) {draft : Expr} {model : Model} {list : NodeList} {node : NodeId}
  {path : StatePath} {id : BlockId} {index : Nat} {name : String}

include h

theorem node_eq {a b : NodeId} (ha : session.model.paths.lookup a = some path)
    (hb : session.model.paths.lookup b = some path) : a = b :=
  congrArg Prod.fst (List.inj_on_of_nodup_map h.paths (Model.mem_of_lookup ha)
    (Model.mem_of_lookup hb) rfl)

/-- Edges that keep their places lead to the transitions that they led to, if these stay. -/
theorem itemOf?_of_itemsAt (hpaths : model.paths = session.model.paths)
    (hedges : model.edges = session.model.edges)
    (hitems : ∀ p slot, itemsAt session.editor.draft (p, slot) ≠ [] →
      itemsAt draft (p, slot) = itemsAt session.editor.draft (p, slot)) (id : EdgeId) :
    itemOf? ⟨session.editor.withDraft draft, model⟩ id = session.itemOf? id := by
  cases hlookup : session.model.edges.lookup id with
  | none =>
    rw [itemOf?, itemOf?, hedges, hlookup]
    rfl
  | some place =>
    obtain ⟨item, hitem⟩ := h.items id (Option.isSome_of_eq_some hlookup)
    obtain ⟨place, p, hplace, hp, hat⟩ := exists_of_itemOf? hitem
    have hplace' : model.edges.lookup id = some place := hedges ▸ hplace
    have hp' : model.paths.lookup place.source = some p := hpaths ▸ hp
    rw [hitem, itemOf?_of_lookup hplace' hp', ← hat]
    rw [← getElem?_itemsAt] at hat ⊢
    rw [← getElem?_itemsAt]
    change (itemsAt draft (p, place.path.slot))[place.path.index]? = _
    rw [hitems]
    exact List.ne_nil_of_mem (List.mem_of_getElem? hat)

section

variable (hpath : session.model.paths.lookup node = some path)
  (hpaths : model.paths = session.model.paths)

include hpath hpaths

omit h in
/-- The list that is changed is as given, if it is still written. -/
theorem listOf_self {entries : List Expr}
    (hrewrites : Rewrites session.editor.draft draft list path (some entries)) :
    listOf ⟨session.editor.withDraft draft, model⟩ (list.owner node) = entries := by
  have hpath' : model.paths.lookup node = some path := hpaths ▸ hpath
  rw [listOf_owner, entriesOf_of_lookup hpath']
  exact hrewrites.entriesAt_self

/-- Other lists of nodes stay as they are, and those of edges whose transitions do. -/
theorem listOf_of_ne {entries : Option (List Expr)}
    (hrewrites : Rewrites session.editor.draft draft list path entries) {owner : BlockOwner}
    (hne : owner ≠ list.owner node)
    (hitems : ∀ id, Model.belongsToEdge id ⟨owner, 0⟩ = true →
      itemOf? ⟨session.editor.withDraft draft, model⟩ id = session.itemOf? id) :
    listOf ⟨session.editor.withDraft draft, model⟩ owner = session.listOf owner := by
  cases hnode : owner.node? with
  | none => exact listOf_congr hnode hitems
  | some found =>
    obtain ⟨other, id⟩ := found
    obtain rfl := BlockOwner.node?_eq_some_iff.1 hnode
    rw [listOf_owner, listOf_owner, entriesOf, entriesOf, hpaths]
    cases hlookup : session.model.paths.lookup id with
    | none => rfl
    | some p =>
      refine hrewrites.entriesAt_of_ne fun heq => hne ?_
      obtain ⟨rfl, rfl⟩ := Prod.mk.inj heq
      rw [h.node_eq hlookup hpath]

end

variable (hpath : session.model.paths.lookup node = some path)

include hpath

omit h in
theorem listOf_eq_entriesAt :
    session.listOf (list.owner node) = entriesAt session.editor.draft path list := by
  rw [listOf_owner, entriesOf_of_lookup hpath]

/-- An entry is added to a list, with a handle. -/
theorem addition (hid : session.model.hasBlock id = false)
    (hdraft : session.editor.revise (list.addition path index name) = .ok draft)
    (hindex : list = .invoke → index = (session.listOf (list.owner node)).length) :
    let after : Session := ⟨session.editor.withDraft draft,
      session.model.attachBlock id (list.owner node) index⟩
    after.Anchored ∧ (∀ edge, after.itemOf? edge = session.itemOf? edge) ∧
      (∀ other, other ≠ id → after.entryOf? other = session.entryOf? other) ∧
      index ≤ (session.listOf (list.owner node)).length ∧
      after.listOf (list.owner node) =
        (session.listOf (list.owner node)).insertIdx index (list.newEntry name) ∧
      after.sourceOf? id = some name := by
  intro after
  have hlist : session.listOf (list.owner node) = entriesAt session.editor.draft path list :=
    listOf_eq_entriesAt hpath
  rw [hlist] at hindex ⊢
  obtain ⟨hle, hrewrites⟩ := Editor.rewrites_addition hdraft hindex
  have hself : after.listOf (list.owner node) =
      (entriesAt session.editor.draft path list).insertIdx index (list.newEntry name) :=
    listOf_self hpath rfl hrewrites
  have hitems : ∀ edge, after.itemOf? edge = session.itemOf? edge :=
    h.itemOf?_of_itemsAt rfl rfl fun p slot hne => hrewrites.itemsAt_of_addition hindex hne
  have hothers : ∀ other, other ≠ list.owner node → after.listOf other = session.listOf other :=
    fun other hne => h.listOf_of_ne hpath rfl hrewrites hne fun edge _ => hitems edge
  have hnames := list.names_newEntry name
  -- The table of entries follows that of handles: both are shifted from the position on.
  rw [← hlist] at hle hself ⊢
  refine ⟨⟨rfl, h.paths, h.edges, fun edge hedge => ?_, h.blocks.attachBlock hle hself hothers hid
    ?_⟩, hitems, fun other hne => Model.entryIn?_attachBlock hself hothers hne, hle, hself, ?_⟩
  · rw [hitems]
    exact h.items edge hedge
  · obtain ⟨params, hparams⟩ := hnames
    rw [BlockOwner.reference?_owner, hparams]
    rfl
  · have hentry := Model.getElem?_insertIdx_self hle hself
    have hpath' : after.model.paths.lookup node = some path := hpath
    rw [listOf_eq_entriesAt hpath'] at hentry
    have hcurrent : after.editor.Current := rfl
    rw [sourceOf?_of_lookup (Model.lookup_attachBlock_self _ _ hid) hpath']
    exact hcurrent.sourceAt?_eq_some hrewrites.isSome_stateProps? hentry hnames

/-- An entry of a list is made to refer to another implementation. -/
theorem repointing (hplace : session.model.blocks.lookup id = some ⟨list.owner node, index⟩)
    (hdraft : session.editor.revise (list.repointing path index name) = .ok draft) :
    let after : Session := ⟨session.editor.withDraft draft, session.model⟩
    after.Anchored ∧ (∀ edge, after.itemOf? edge = session.itemOf? edge) ∧
      (∀ other, other ≠ id → after.entryOf? other = session.entryOf? other) ∧
      (∃ entry, session.entryOf? id = some entry ∧
        after.entryOf? id = some (list.repoint name entry)) ∧
      after.sourceOf? id = some name := by
  intro after
  have hlist : session.listOf (list.owner node) = entriesAt session.editor.draft path list :=
    listOf_eq_entriesAt hpath
  obtain ⟨entry, hentry, hrewrites⟩ := Editor.rewrites_repointing hdraft
  have hself : after.listOf (list.owner node) =
      (entriesAt session.editor.draft path list).set index (list.repoint name entry) :=
    listOf_self hpath rfl hrewrites
  have hitems : ∀ edge, after.itemOf? edge = session.itemOf? edge :=
    h.itemOf?_of_itemsAt rfl rfl fun p slot _ => hrewrites.itemsAt_of_repointing hentry
  have hothers : ∀ other, other ≠ list.owner node → after.listOf other = session.listOf other :=
    fun other hne => h.listOf_of_ne hpath rfl hrewrites hne fun edge _ => hitems edge
  rw [← hlist] at hentry hself
  -- The entry is one that refers to something, so that it has a name to be replaced.
  have hmem := Model.mem_of_lookup hplace
  obtain ⟨old, hold, hreference⟩ := h.blocks.entries id _ hmem
  obtain rfl := Option.some.inj (hold.symm.trans hentry)
  rw [BlockOwner.reference?_owner] at hreference
  have hnames := NodeList.names_repoint hreference name
  have hafter : (after.listOf (list.owner node))[index]? = some (list.repoint name old) :=
    Model.getElem?_set_self hmem hself h.blocks
  refine ⟨⟨rfl, h.paths, h.edges, fun edge hedge => ?_, h.blocks.replace hmem hself hothers ?_⟩,
    hitems, fun other hne => Model.entryIn?_replaced h.blocks hmem hself hothers hne,
    ⟨old, (Model.entryIn?_of_lookup hplace).trans hold,
      (Model.entryIn?_of_lookup hplace).trans hafter⟩, ?_⟩
  · rw [hitems]
    exact h.items edge hedge
  · obtain ⟨params, hparams⟩ := hnames
    rw [BlockOwner.reference?_owner, hparams]
    rfl
  · have hpath' : after.model.paths.lookup node = some path := hpath
    have hplace' : after.model.blocks.lookup id = some ⟨list.owner node, index⟩ := hplace
    rw [listOf_eq_entriesAt hpath'] at hafter
    have hcurrent : after.editor.Current := rfl
    rw [sourceOf?_of_lookup hplace' hpath']
    exact hcurrent.sourceAt?_eq_some hrewrites.isSome_stateProps? hafter hnames

/-- The edges that stay when an entry is taken out lead to the transitions that they led to. -/
theorem itemOf?_of_removal (hdraft : session.editor.revise (list.removal path index) = .ok draft)
    {edge : EdgeId} (hkept : ∀ place, session.model.edges.lookup edge = some place →
      place.endsInvoke ⟨list.owner node, index⟩ = false) :
    itemOf? ⟨session.editor.withDraft draft,
      session.model.detachBlock id ⟨list.owner node, index⟩⟩ edge = session.itemOf? edge := by
  obtain ⟨-, hrewrites⟩ := Editor.rewrites_removal hdraft
  have hlookup := Model.lookup_edges_detachBlock h.edges id ⟨list.owner node, index⟩ edge
  have hpaths := Model.paths_detachBlock session.model id ⟨list.owner node, index⟩
  cases hplace : session.model.edges.lookup edge with
  | none =>
    rw [hplace] at hlookup
    rw [itemOf?, itemOf?, hlookup, hplace]
    rfl
  | some place =>
    have hends := hkept place hplace
    rw [hplace, Option.bind_some, hends] at hlookup
    obtain ⟨item, hitem⟩ := h.items edge (Option.isSome_of_eq_some hplace)
    obtain ⟨place₀, p, hplace₀, hp, hat⟩ := exists_of_itemOf? hitem
    obtain rfl := Option.some.inj (hplace₀.symm.trans hplace)
    -- The slot moves if the edge starts at the node whose invocations are changed.
    have hsource : list.owner node = .invoke place₀.source ↔ list = .invoke ∧ p = path := by
      constructor
      · intro heq
        have heq : list.owner node = NodeList.invoke.owner place₀.source := heq
        obtain ⟨rfl, rfl⟩ := NodeList.owner_inj heq
        exact ⟨rfl, Option.some.inj (hp.symm.trans hpath)⟩
      · rintro ⟨rfl, rfl⟩
        rw [h.node_eq hpath hp]
        rfl
    have hslot : (place₀.shift ⟨list.owner node, index⟩).path =
        ⟨if list = .invoke ∧ p = path then Model.shiftInvoke index place₀.path.slot
          else place₀.path.slot, place₀.path.index⟩ := by
      rw [EdgePlace.shift]
      split
      · next heq => rw [if_pos (hsource.1 heq)]
      · next heq => rw [if_neg fun hsame => heq (hsource.2 hsame)]
    have hp' : (session.model.detachBlock id ⟨list.owner node, index⟩).paths.lookup
        (place₀.shift ⟨list.owner node, index⟩).source = some p := by
      rw [hpaths, EdgePlace.source_shift, hp]
    have hother : list = .invoke → p = path →
        Model.invokeOf? place₀.path.slot ≠ some index := by
      intro hlist hp heq
      rw [EdgePlace.endsInvoke, beq_iff_eq.2 (hsource.2 ⟨hlist, hp⟩), heq] at hends
      simp at hends
    rw [itemOf?_of_lookup hlookup hp', hitem, ← hat, hslot, ← getElem?_itemsAt]
    rw [← getElem?_itemsAt] at hat
    change (itemsAt draft _)[place₀.path.index]? = _
    rw [hrewrites.itemsAt_of_removal hother (List.ne_nil_of_mem (List.mem_of_getElem? hat)),
      getElem?_itemsAt]

/-- An entry is taken out of a list, with its handle. -/
theorem removal (hplace : session.model.blocks.lookup id = some ⟨list.owner node, index⟩)
    (hdraft : session.editor.revise (list.removal path index) = .ok draft) :
    let after : Session := ⟨session.editor.withDraft draft,
      session.model.detachBlock id ⟨list.owner node, index⟩⟩
    after.Anchored ∧
      (∀ edge, after.model.hasEdge edge = true → after.itemOf? edge = session.itemOf? edge) ∧
      (∀ other, after.model.hasBlock other = true →
        after.entryOf? other = session.entryOf? other) ∧
      ∀ left, OneOrMany.removal index (session.listOf (list.owner node)) = some left →
        after.listOf (list.owner node) = left := by
  intro after
  have hlist : session.listOf (list.owner node) = entriesAt session.editor.draft path list :=
    listOf_eq_entriesAt hpath
  have hlookup := Model.lookup_edges_detachBlock h.edges id ⟨list.owner node, index⟩
  have hpaths := Model.paths_detachBlock session.model id ⟨list.owner node, index⟩
  obtain ⟨-, hrewrites⟩ := Editor.rewrites_removal hdraft
  have hself : ∀ left, OneOrMany.removal index (session.listOf (list.owner node)) = some left →
      after.listOf (list.owner node) = left := by
    intro left hleft
    rw [hlist] at hleft
    rw [hleft] at hrewrites
    exact listOf_self hpath hpaths hrewrites
  have hothers : ∀ other place, (other, place) ∈ session.model.blocks →
      place.owner ≠ list.owner node →
      session.model.goesWith ⟨list.owner node, index⟩ place = false →
      after.listOf place.owner = session.listOf place.owner := by
    intro other place _ hne hkept
    refine h.listOf_of_ne hpath hpaths hrewrites hne fun edge hedge => ?_
    -- The block would go with the edge.
    have hstays := (Model.goesWith_eq_false_iff h.edges).1 hkept edge
      (Model.belongsToEdge_iff.1 hedge)
    refine h.itemOf?_of_removal hpath hdraft fun edgePlace hedgePlace => ?_
    rwa [hedgePlace] at hstays
  have hitems : ∀ edge, after.model.hasEdge edge = true →
      after.itemOf? edge = session.itemOf? edge := by
    intro edge hedge
    refine h.itemOf?_of_removal hpath hdraft fun place hplace => ?_
    by_contra hends
    rw [Bool.not_eq_false] at hends
    have hnone := hlookup edge
    rw [hplace, Option.bind_some, if_pos hends] at hnone
    rw [Model.hasEdge, hnone] at hedge
    cases hedge
  have hmem := Model.mem_of_lookup hplace
  refine ⟨⟨rfl, hpaths ▸ h.paths, ?_, fun edge hedge => ?_,
    h.blocks.detachBlock hmem hself hothers⟩, hitems, fun other hother =>
      Model.entryIn?_detachBlock h.blocks hmem hself hothers hother, hself⟩
  · change ((session.model.detachBlock id ⟨list.owner node, index⟩).edges.map (·.1)).Nodup
    rw [Model.edges_detachBlock, List.map_map]
    exact h.edges.sublist (List.filter_sublist.map _)
  · rw [hitems edge hedge]
    refine h.items edge ?_
    obtain ⟨place', hplace'⟩ := Option.isSome_iff_exists.1 hedge
    obtain ⟨place, hplace, -⟩ := Option.bind_eq_some_iff.1 ((hlookup edge).symm.trans hplace')
    exact Option.isSome_of_eq_some hplace

end Anchored

end Session

end Statechart
