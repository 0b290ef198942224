import Statechart.Proofs.PatchSteps
import Statechart.Proofs.SlotItems

/-!
# Places of edges and items of slots

The places of edges are kept by arithmetic alone: an edge that is taken away lets those behind it
move up, and one that is added comes last. This follows the items of the slots, and each handle
stays with its item.

* `EdgePlace.closeUp`: the place of an edge once another is gone;
* `Model.Tracks`: the places of edges are the positions of items;
* `Model.Denotes`: the item that a handle stands for;
* `Model.Tracks.detachEdge`, `Model.Tracks.attachEdge`, `Model.Tracks.replace`: the changes that
  keep this, with `Model.Denotes.detachEdge`, `Model.Denotes.attachEdge`, `Model.Denotes.replace`
  for the handles that they do not concern.
-/

namespace Statechart

/-- The place of an edge once the edge at another place is gone. -/
def EdgePlace.closeUp (gone place : EdgePlace) : EdgePlace :=
  if place.source = gone.source ∧ place.path.slot = gone.path.slot
      ∧ gone.path.index < place.path.index then
    { place with path := { place.path with index := place.path.index - 1 } }
  else place

namespace EdgePlace

variable {gone place : EdgePlace}

@[simp] theorem source_closeUp (gone place : EdgePlace) :
    (closeUp gone place).source = place.source := by
  rw [closeUp]
  split <;> rfl

@[simp] theorem slot_closeUp (gone place : EdgePlace) :
    (closeUp gone place).path.slot = place.path.slot := by
  rw [closeUp]
  split <;> rfl

theorem index_closeUp (hsource : place.source = gone.source)
    (hslot : place.path.slot = gone.path.slot) : (closeUp gone place).path.index =
      if gone.path.index < place.path.index then place.path.index - 1 else place.path.index := by
  rw [closeUp]
  by_cases hindex : gone.path.index < place.path.index
  · rw [if_pos ⟨hsource, hslot, hindex⟩, if_pos hindex]
  · rw [if_neg fun h => hindex h.2.2, if_neg hindex]

theorem closeUp_of_ne (h : ¬(place.source = gone.source ∧ place.path.slot = gone.path.slot)) :
    closeUp gone place = place :=
  if_neg fun hsame => h ⟨hsame.1, hsame.2.1⟩

theorem ext_index {a b : EdgePlace} (hsource : a.source = b.source)
    (hslot : a.path.slot = b.path.slot) (hindex : a.path.index = b.path.index) : a = b := by
  obtain ⟨_, _, _⟩ := a
  obtain ⟨_, _, _⟩ := b
  cases hsource
  cases hslot
  cases hindex
  rfl

/-- Places that differ before an edge goes differ once it is gone. -/
theorem closeUp_inj {place' : EdgePlace} (h : place ≠ gone) (h' : place' ≠ gone)
    (heq : closeUp gone place = closeUp gone place') : place = place' := by
  have hsource : place.source = place'.source := by
    rw [← source_closeUp gone place, heq, source_closeUp]
  have hslot : place.path.slot = place'.path.slot := by
    rw [← slot_closeUp gone place, heq, slot_closeUp]
  by_cases hsame : place.source = gone.source ∧ place.path.slot = gone.path.slot
  · refine ext_index hsource hslot ?_
    have hindex := congrArg (·.path.index) heq
    rw [index_closeUp hsame.1 hsame.2,
      index_closeUp (hsource ▸ hsame.1) (hslot ▸ hsame.2)] at hindex
    -- Neither is at the place that is gone, so that no two meet there.
    have hne : place.path.index ≠ gone.path.index := fun hi => h (ext_index hsame.1 hsame.2 hi)
    have hne' : place'.path.index ≠ gone.path.index := fun hi =>
      h' (ext_index (hsource ▸ hsame.1) (hslot ▸ hsame.2) hi)
    split at hindex <;> split at hindex <;> omega
  · rwa [closeUp_of_ne hsame, closeUp_of_ne (hsource ▸ hslot ▸ hsame)] at heq

end EdgePlace

namespace Model

variable {model : Model} {table : SlotTable}

theorem edges_detachEdge (model : Model) (id : EdgeId) (gone : EdgePlace) :
    (model.detachEdge id gone).edges = (model.edges.filter (·.1 != id)).map
      fun edge => (edge.1, gone.closeUp edge.2) := rfl

theorem mem_detachEdge {id other : EdgeId} {gone place : EdgePlace} :
    (other, place) ∈ (model.detachEdge id gone).edges ↔
      ∃ place₀, (other, place₀) ∈ model.edges ∧ other ≠ id ∧ place = gone.closeUp place₀ := by
  rw [edges_detachEdge, List.mem_map]
  constructor
  · rintro ⟨⟨_, place₀⟩, hmem, heq⟩
    obtain ⟨rfl, rfl⟩ := Prod.mk.inj heq
    obtain ⟨hmem, hne⟩ := List.mem_filter.1 hmem
    exact ⟨place₀, hmem, by simpa using hne, rfl⟩
  · rintro ⟨place₀, hmem, hne, rfl⟩
    exact ⟨(other, place₀), List.mem_filter.2 ⟨hmem, by simpa using hne⟩, rfl⟩

/-- The places of the edges are the positions of the items in their slots, each once. -/
structure Tracks (model : Model) (table : SlotTable) : Prop where
  nodes : (model.paths.map (·.1)).Nodup
  paths : (model.paths.map (·.2)).Nodup
  handles : (model.edges.map (·.1)).Nodup
  places : (model.edges.map (·.2)).Nodup
  sources : model.SourcesKnown
  /-- A place of a node has an edge just if its slot has an item there. -/
  positions : ∀ node path, (node, path) ∈ model.paths → ∀ slot index,
    (∃ id, (id, ⟨node, ⟨slot, index⟩⟩) ∈ model.edges) ↔ index < (table (path, slot)).length

/-- The handle of an edge stands for an item. -/
def Denotes (model : Model) (table : SlotTable) (id : EdgeId) (item : Expr) : Prop :=
  ∃ place path, (id, place) ∈ model.edges ∧ (place.source, path) ∈ model.paths ∧
    (table (path, place.path.slot))[place.path.index]? = some item

namespace Tracks

variable (h : model.Tracks table)

include h

theorem place_eq {id : EdgeId} {a b : EdgePlace} (ha : (id, a) ∈ model.edges)
    (hb : (id, b) ∈ model.edges) : a = b :=
  congrArg Prod.snd (List.inj_on_of_nodup_map h.handles ha hb rfl)

theorem handle_eq {a b : EdgeId} {place : EdgePlace} (ha : (a, place) ∈ model.edges)
    (hb : (b, place) ∈ model.edges) : a = b :=
  congrArg Prod.fst (List.inj_on_of_nodup_map h.places ha hb rfl)

theorem path_eq {node : NodeId} {a b : StatePath} (ha : (node, a) ∈ model.paths)
    (hb : (node, b) ∈ model.paths) : a = b :=
  congrArg Prod.snd (List.inj_on_of_nodup_map h.nodes ha hb rfl)

theorem node_eq {a b : NodeId} {path : StatePath} (ha : (a, path) ∈ model.paths)
    (hb : (b, path) ∈ model.paths) : a = b :=
  congrArg Prod.fst (List.inj_on_of_nodup_map h.paths ha hb rfl)

/-- There are as many edges in a slot as items. -/
theorem slotLength_eq {node : NodeId} {path : StatePath} (hpath : (node, path) ∈ model.paths)
    (slot : Slot) : model.slotLength node slot = (table (path, slot)).length := by
  rw [slotLength]
  generalize hin : model.edges.filter _ = inSlot
  have hmem : ∀ edge, edge ∈ inSlot ↔ edge ∈ model.edges ∧
      edge.2 = ⟨node, ⟨slot, edge.2.path.index⟩⟩ := by
    intro edge
    rw [← hin, List.mem_filter, Bool.and_eq_true, beq_iff_eq, beq_iff_eq]
    refine and_congr_right fun _ => ⟨fun heq => EdgePlace.ext_index heq.1 heq.2 rfl, fun heq => ?_⟩
    exact ⟨congrArg (·.source) heq, congrArg (·.path.slot) heq⟩
  -- The positions in the slot are those below its length, each once.
  have hperm : (inSlot.map (·.2.path.index)).Perm (List.range (table (path, slot)).length) := by
    refine (List.perm_ext_iff_of_nodup ?_ List.nodup_range).2 fun index => ?_
    · have hplaces : (inSlot.map (·.2)).Nodup := hin ▸ h.places.sublist (List.filter_sublist.map _)
      rw [List.map_congr_left fun edge hedge => ((hmem edge).1 hedge).2] at hplaces
      refine List.Nodup.of_map (fun index => (⟨node, ⟨slot, index⟩⟩ : EdgePlace)) ?_
      rwa [List.map_map]
    · rw [List.mem_range, ← h.positions node path hpath, List.mem_map]
      constructor
      · rintro ⟨edge, hedge, rfl⟩
        obtain ⟨hedge, heq⟩ := (hmem edge).1 hedge
        exact ⟨edge.1, heq ▸ hedge⟩
      · rintro ⟨id, hid⟩
        exact ⟨_, (hmem _).2 ⟨hid, rfl⟩, rfl⟩
  rw [← List.length_map, hperm.length_eq, List.length_range]

/-- Each handle stands for an item. -/
theorem exists_denotes {id : EdgeId} (hid : model.hasEdge id = true) :
    ∃ item, model.Denotes table id item := by
  obtain ⟨place, hplace⟩ := hasEdge_iff_mem.1 hid
  obtain ⟨path, hpath⟩ := hasNode_iff_mem.1 (h.sources id place hplace)
  have hlt := (h.positions _ _ hpath _ _).1 ⟨id, hplace⟩
  exact ⟨_, place, path, hplace, hpath, List.getElem?_eq_getElem hlt⟩

/-- A handle stands for one item. -/
theorem denotes_unique {id : EdgeId} {item item' : Expr} (hitem : model.Denotes table id item)
    (hitem' : model.Denotes table id item') : item = item' := by
  obtain ⟨place, path, hplace, hpath, hitem⟩ := hitem
  obtain ⟨place', path', hplace', hpath', hitem'⟩ := hitem'
  obtain rfl := h.place_eq hplace hplace'
  obtain rfl := h.path_eq hpath hpath'
  exact Option.some.inj (hitem.symm.trans hitem')

end Tracks

/-! ## An edge goes -/

section

variable (h : model.Tracks table) {id : EdgeId} {gone : EdgePlace} {path : StatePath}
  (hgone : (id, gone) ∈ model.edges) (hpath : (gone.source, path) ∈ model.paths)

include h hgone hpath

/-- Where another edge is found once one is gone, there is its item. -/
theorem getElem?_erase_closeUp {other : EdgeId} {place : EdgePlace} {p : StatePath}
    (hother : (other, place) ∈ model.edges) (hne : other ≠ id)
    (hp : (place.source, p) ∈ model.paths) :
    (table.erase (path, gone.path.slot) gone.path.index
        (p, place.path.slot))[(gone.closeUp place).path.index]? =
      (table (p, place.path.slot))[place.path.index]? := by
  by_cases hsame : place.source = gone.source ∧ place.path.slot = gone.path.slot
  · obtain rfl : p = path := h.path_eq hp (hsame.1 ▸ hpath)
    have hindex : place.path.index ≠ gone.path.index := by
      intro hi
      obtain rfl := EdgePlace.ext_index hsame.1 hsame.2 hi
      exact hne (h.handle_eq hother hgone)
    rw [EdgePlace.index_closeUp hsame.1 hsame.2, hsame.2, SlotTable.erase, Function.update_self,
      List.getElem?_eraseIdx]
    split
    · rw [if_neg (by omega), Nat.sub_add_cancel (by omega)]
    · rw [if_pos (by omega)]
  · have hslot : (p, place.path.slot) ≠ (path, gone.path.slot) := by
      rintro heq
      obtain ⟨rfl, hslot⟩ := Prod.mk.inj heq
      exact hsame ⟨h.node_eq hp hpath, hslot⟩
    rw [EdgePlace.closeUp_of_ne hsame, SlotTable.erase, Function.update_of_ne hslot]

theorem Denotes.detachEdge {other : EdgeId} {item : Expr} (hitem : model.Denotes table other item)
    (hne : other ≠ id) :
    (model.detachEdge id gone).Denotes (table.erase (path, gone.path.slot) gone.path.index) other
      item := by
  obtain ⟨place, p, hplace, hp, hitem⟩ := hitem
  refine ⟨gone.closeUp place, p, mem_detachEdge.2 ⟨place, hplace, hne, rfl⟩, ?_, ?_⟩
  · rw [EdgePlace.source_closeUp]
    exact hp
  · rw [EdgePlace.slot_closeUp, getElem?_erase_closeUp h hgone hpath hplace hne hp, hitem]

omit hpath in
/-- Other edges are at other places. -/
theorem ne_iff_place_ne {other : EdgeId} {place : EdgePlace}
    (hother : (other, place) ∈ model.edges) : other ≠ id ↔ place ≠ gone := by
  refine not_congr ⟨?_, ?_⟩
  · rintro rfl
    exact h.place_eq hother hgone
  · rintro rfl
    exact h.handle_eq hother hgone

/-- A place has an edge once one is gone just if its slot has an item there once one is erased. -/
theorem exists_mem_detachEdge_iff {node : NodeId} {p : StatePath} (hp : (node, p) ∈ model.paths)
    (slot : Slot) (index : Nat) :
    (∃ other, (other, ⟨node, ⟨slot, index⟩⟩) ∈ (model.detachEdge id gone).edges) ↔
      index < (table.erase (path, gone.path.slot) gone.path.index (p, slot)).length := by
  constructor
  · rintro ⟨other, hmem⟩
    obtain ⟨place, hplace, hother, heq⟩ := mem_detachEdge.1 hmem
    obtain rfl : node = place.source := (congrArg (·.source) heq).trans (by simp)
    obtain rfl : slot = place.path.slot := (congrArg (·.path.slot) heq).trans (by simp)
    have hitem := getElem?_erase_closeUp h hgone hpath hplace hother hp
    rw [← heq] at hitem
    have hlt := (h.positions _ _ hp _ _).1 ⟨other, hplace⟩
    exact (List.getElem?_eq_some_iff.1 (hitem.trans (List.getElem?_eq_getElem hlt))).1
  · intro hlt
    by_cases hsame : node = gone.source ∧ slot = gone.path.slot
    · -- The edge comes from the same position, or from the next if that lies behind the gap.
      obtain ⟨rfl, rfl⟩ := hsame
      obtain rfl : p = path := h.path_eq hp hpath
      have hgap : gone.path.index < (table (p, gone.path.slot)).length :=
        (h.positions _ _ hpath _ _).1 ⟨id, hgone⟩
      rw [SlotTable.erase, Function.update_self, List.length_eraseIdx_of_lt hgap] at hlt
      obtain ⟨other, hother⟩ := (h.positions _ _ hpath gone.path.slot
        (if index < gone.path.index then index else index + 1)).2 (by split <;> omega)
      refine ⟨other, mem_detachEdge.2
        ⟨_, hother, (ne_iff_place_ne h hgone hother).2 fun heq => ?_, ?_⟩⟩
      · have hindex : ite _ index (index + 1) = gone.path.index := congrArg (·.path.index) heq
        split at hindex <;> omega
      · refine EdgePlace.ext_index (by simp) (by simp) ?_
        rw [EdgePlace.index_closeUp (by rfl) (by rfl)]
        dsimp only
        split <;> split <;> omega
    · have hslot : (p, slot) ≠ (path, gone.path.slot) := by
        rintro heq
        obtain ⟨rfl, hslot⟩ := Prod.mk.inj heq
        exact hsame ⟨h.node_eq hp hpath, hslot⟩
      rw [SlotTable.erase, Function.update_of_ne hslot] at hlt
      obtain ⟨other, hother⟩ := (h.positions _ _ hp _ _).2 hlt
      refine ⟨other, mem_detachEdge.2
        ⟨_, hother, (ne_iff_place_ne h hgone hother).2 fun heq => hsame ?_, ?_⟩⟩
      · exact ⟨congrArg (·.source) heq, congrArg (·.path.slot) heq⟩
      · rw [EdgePlace.closeUp_of_ne hsame]

/-- Places follow the items when an edge is taken away with its item. -/
theorem Tracks.detachEdge :
    (model.detachEdge id gone).Tracks (table.erase (path, gone.path.slot) gone.path.index) := by
  refine ⟨h.nodes, h.paths, ?_, ?_, fun other place hmem => ?_, fun node p hp slot index =>
    exists_mem_detachEdge_iff h hgone hpath hp slot index⟩
  · rw [edges_detachEdge, List.map_map]
    exact h.handles.sublist (List.filter_sublist.map _)
  · rw [edges_detachEdge, List.map_map]
    refine List.Nodup.map_on ?_ (h.places.of_map.sublist List.filter_sublist)
    intro a ha b hb heq
    obtain ⟨ha, hia⟩ := List.mem_filter.1 ha
    obtain ⟨hb, hib⟩ := List.mem_filter.1 hb
    refine List.inj_on_of_nodup_map h.places ha hb (EdgePlace.closeUp_inj ?_ ?_ heq)
    · exact (ne_iff_place_ne h hgone ha).1 (by simpa using hia)
    · exact (ne_iff_place_ne h hgone hb).1 (by simpa using hib)
  · obtain ⟨place₀, hmem₀, -, rfl⟩ := mem_detachEdge.1 hmem
    rw [EdgePlace.source_closeUp]
    exact h.sources other place₀ hmem₀

end

theorem Tracks.dropBlocksOf (h : model.Tracks table) (id : EdgeId) :
    (model.dropBlocksOf id).Tracks table :=
  ⟨h.nodes, h.paths, h.handles, h.places, h.sources, h.positions⟩

theorem hasEdge_detachEdge_self (id : EdgeId) (gone : EdgePlace) :
    (model.detachEdge id gone).hasEdge id = false := by
  rw [Bool.eq_false_iff, ne_eq, hasEdge_iff_mem]
  rintro ⟨place, hmem⟩
  obtain ⟨_, -, hne, -⟩ := mem_detachEdge.1 hmem
  exact hne rfl

/-! ## An edge comes -/

section

variable (h : model.Tracks table) {id : EdgeId} {source : NodeId} {path : StatePath}
  (hpath : (source, path) ∈ model.paths) (slot : Slot) (item : Expr)

include h hpath

theorem Tracks.slotEnd_eq : model.slotEnd source slot = ⟨slot, (table (path, slot)).length⟩ := by
  rw [slotEnd, h.slotLength_eq hpath]

/-- Places follow the items when an edge is added with its item. -/
theorem Tracks.attachEdge (hid : model.hasEdge id = false) :
    (model.attachEdge id source slot).Tracks (table.append (path, slot) item) := by
  have hedges : (model.attachEdge id source slot).edges =
      model.edges ++ [(id, ⟨source, ⟨slot, (table (path, slot)).length⟩⟩)] := by
    rw [Model.attachEdge, h.slotEnd_eq hpath]
  have hfree : ∀ place, (id, place) ∉ model.edges := fun place hmem => by
    rw [hasEdge_iff_mem.2 ⟨place, hmem⟩] at hid
    cases hid
  refine ⟨h.nodes, h.paths, ?_, ?_, ?_, fun node p hp other index => ?_⟩
  · rw [hedges, List.map_append]
    refine List.nodup_append.2 ⟨h.handles, List.nodup_singleton _, ?_⟩
    rintro a ha b hb rfl
    obtain ⟨⟨_, place⟩, hmem, rfl⟩ := List.mem_map.1 ha
    obtain rfl := List.mem_singleton.1 hb
    exact hfree place hmem
  · rw [hedges, List.map_append]
    refine List.nodup_append.2 ⟨h.places, List.nodup_singleton _, ?_⟩
    rintro a ha b hb rfl
    obtain ⟨⟨other, _⟩, hmem, rfl⟩ := List.mem_map.1 ha
    obtain rfl := List.mem_singleton.1 hb
    -- The new place lies behind all that were taken.
    exact Nat.lt_irrefl _ ((h.positions _ _ hpath _ _).1 ⟨other, hmem⟩)
  · intro other place hmem
    rw [hedges] at hmem
    rcases List.mem_append.1 hmem with hmem | hmem
    · exact h.sources other place hmem
    · obtain ⟨rfl, rfl⟩ := Prod.mk.inj (List.mem_singleton.1 hmem)
      exact hasNode_iff_mem.2 ⟨path, hpath⟩
  · have hmem : (∃ other', (other', (⟨node, ⟨other, index⟩⟩ : EdgePlace)) ∈
        (model.attachEdge id source slot).edges) ↔ index < (table (p, other)).length ∨
          (node = source ∧ other = slot ∧ index = (table (path, slot)).length) := by
      rw [← h.positions node p hp, hedges]
      simp only [List.mem_append, List.mem_singleton, Prod.mk.injEq, EdgePlace.mk.injEq,
        TransitionPath.mk.injEq, exists_or, exists_eq_left]
    rw [hmem, SlotTable.append]
    by_cases hsame : (p, other) = (path, slot)
    · obtain ⟨rfl, rfl⟩ := Prod.mk.inj hsame
      obtain rfl : node = source := h.node_eq hp hpath
      simp only [Function.update_self, List.length_append, List.length_singleton, true_and]
      omega
    · rw [Function.update_of_ne hsame, or_iff_left]
      rintro ⟨rfl, rfl, -⟩
      exact hsame (Prod.ext (h.path_eq hp hpath) rfl)

omit h hpath in
theorem Denotes.attachEdge {other : EdgeId} {item' : Expr}
    (hitem : model.Denotes table other item') :
    (model.attachEdge id source slot).Denotes (table.append (path, slot) item) other item' := by
  obtain ⟨place, p, hplace, hp, hitem⟩ := hitem
  refine ⟨place, p, List.mem_append_left _ hplace, hp, ?_⟩
  rw [SlotTable.append]
  by_cases hsame : (p, place.path.slot) = (path, slot)
  · rw [hsame] at hitem ⊢
    rw [Function.update_self, List.getElem?_append_left (List.getElem?_eq_some_iff.1 hitem).1,
      hitem]
  · rw [Function.update_of_ne hsame, hitem]

theorem Denotes.attachEdge_self :
    (model.attachEdge id source slot).Denotes (table.append (path, slot) item) id item := by
  refine ⟨_, path, List.mem_append_right _ (List.mem_singleton_self _), hpath, ?_⟩
  rw [h.slotEnd_eq hpath, SlotTable.append, Function.update_self]
  exact List.getElem?_concat_length

end

/-! ## An item changes -/

theorem Tracks.replace (h : model.Tracks table) (place : StatePath × Slot) (index : Nat)
    (item : Expr) : model.Tracks (table.replace place index item) := by
  refine ⟨h.nodes, h.paths, h.handles, h.places, h.sources, fun node path hpath slot i => ?_⟩
  rw [h.positions node path hpath, SlotTable.replace]
  by_cases hsame : (path, slot) = place
  · rw [hsame, Function.update_self, List.length_set]
  · rw [Function.update_of_ne hsame]

section

variable (h : model.Tracks table) {id : EdgeId} {place : EdgePlace} {path : StatePath}
  (hplace : (id, place) ∈ model.edges) (hpath : (place.source, path) ∈ model.paths) (item : Expr)

include h hplace hpath

theorem Denotes.replace {other : EdgeId} {item' : Expr} (hitem : model.Denotes table other item')
    (hne : other ≠ id) :
    model.Denotes (table.replace (path, place.path.slot) place.path.index item) other item' := by
  obtain ⟨place', p, hplace', hp, hitem⟩ := hitem
  refine ⟨place', p, hplace', hp, ?_⟩
  rw [SlotTable.replace]
  by_cases hsame : (p, place'.path.slot) = (path, place.path.slot)
  · obtain ⟨rfl, hslot⟩ := Prod.mk.inj hsame
    have hindex : place.path.index ≠ place'.path.index := by
      intro hi
      obtain rfl := EdgePlace.ext_index (h.node_eq hpath hp) hslot.symm hi
      exact hne (h.handle_eq hplace' hplace)
    rw [hslot] at hitem ⊢
    rw [Function.update_self, List.getElem?_set_ne hindex, hitem]
  · rw [Function.update_of_ne hsame, hitem]

theorem Denotes.replace_self :
    model.Denotes (table.replace (path, place.path.slot) place.path.index item) id item := by
  refine ⟨place, path, hplace, hpath, ?_⟩
  rw [SlotTable.replace, Function.update_self, List.getElem?_set_self]
  exact (h.positions _ _ hpath _ _).1 ⟨id, hplace⟩

end

end Model

end Statechart
