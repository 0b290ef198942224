import Statechart.Proofs.EdgesInStep
import Statechart.Proofs.NodeLists

/-!
# Places of blocks and entries of lists

The places of blocks are kept by arithmetic alone. A block that is put into a list lets those from
its position on move down, and one that is taken away lets those behind it move up; with an
invocation go the edges that follow its end, and the blocks of these. The entries of the lists do
the same, and each handle stays with its entry.

* `BlockPlace.makeRoom`, `BlockPlace.closeUp`: the place of a block once another has come or gone;
* `EdgePlace.endsInvoke`, `EdgePlace.shift`: the edges that go with an invocation, and the places
  of the others;
* `Model.entryIn?`: the entry that a handle leads to;
* `Model.Anchors`: each handle leads to an entry of its own that refers to something;
* `Model.Anchors.attachBlock`, `Model.Anchors.detachBlock`, `Model.Anchors.replace`: the changes
  that keep this, with what they make of the entries of other handles;
* `Model.positionOfNth?_eq_some_iff`: the block that comes at a number among those of its list.
-/

namespace Statechart

open Property Draft

/-! ## Owners -/

namespace BlockOwner

/-- What an entry of a list refers to, if it can be understood. -/
def reference? : BlockOwner → Expr → Option Reference
  | entry _ => NodeList.entry.reference?
  | exit _ => NodeList.exit.reference?
  | invoke _ => NodeList.invoke.reference?
  | actions _ => (Reference.shape .action).value?
  | guard _ => (Reference.shape .guard).value?

theorem isArray_of_reference? {owner : BlockOwner} {entry : Expr}
    (h : (owner.reference? entry).isSome = true) : entry.isArray = false := by
  cases owner with
  | entry | exit | invoke => exact NodeList.isArray_of_reference? h
  | actions | guard =>
    cases entry with
    | array => cases h
    | _ => rfl

end BlockOwner

/-! ## Places of blocks -/

namespace BlockPlace

/-- The place of a block once another was put at a place. -/
def makeRoom (new place : BlockPlace) : BlockPlace :=
  if place.owner = new.owner then
    { place with index := if new.index ≤ place.index then place.index + 1 else place.index }
  else place

/-- The place of a block once the one at another place is gone. -/
def closeUp (gone place : BlockPlace) : BlockPlace :=
  if place.owner = gone.owner then
    { place with index := if gone.index < place.index then place.index - 1 else place.index }
  else place

variable {new gone place place' : BlockPlace}

@[simp] theorem owner_makeRoom (new place : BlockPlace) :
    (makeRoom new place).owner = place.owner := by
  rw [makeRoom]
  split <;> rfl

@[simp] theorem owner_closeUp (gone place : BlockPlace) :
    (closeUp gone place).owner = place.owner := by
  rw [closeUp]
  split <;> rfl

theorem index_makeRoom (h : place.owner = new.owner) : (makeRoom new place).index =
    if new.index ≤ place.index then place.index + 1 else place.index := by
  rw [makeRoom, if_pos h]

theorem index_closeUp (h : place.owner = gone.owner) : (closeUp gone place).index =
    if gone.index < place.index then place.index - 1 else place.index := by
  rw [closeUp, if_pos h]

theorem makeRoom_of_ne (h : place.owner ≠ new.owner) : makeRoom new place = place :=
  if_neg h

theorem closeUp_of_ne (h : place.owner ≠ gone.owner) : closeUp gone place = place :=
  if_neg h

theorem ext_index {a b : BlockPlace} (howner : a.owner = b.owner) (hindex : a.index = b.index) :
    a = b := by
  cases a
  cases b
  cases howner
  cases hindex
  rfl

/-- The place that room was made at is free. -/
theorem makeRoom_ne (new place : BlockPlace) : makeRoom new place ≠ new := by
  intro heq
  have howner : place.owner = new.owner := (owner_makeRoom new place).symm.trans
    (congrArg BlockPlace.owner heq)
  have hindex := (index_makeRoom howner).symm.trans (congrArg BlockPlace.index heq)
  split at hindex <;> omega

theorem makeRoom_inj (heq : makeRoom new place = makeRoom new place') : place = place' := by
  have howner : place.owner = place'.owner := by
    rw [← owner_makeRoom new place, heq, owner_makeRoom]
  by_cases hsame : place.owner = new.owner
  · have hindex := congrArg BlockPlace.index heq
    rw [index_makeRoom hsame, index_makeRoom (howner ▸ hsame)] at hindex
    refine ext_index howner ?_
    split at hindex <;> split at hindex <;> omega
  · rwa [makeRoom_of_ne hsame, makeRoom_of_ne (howner ▸ hsame)] at heq

/-- Places that differ before a block goes differ once it is gone. -/
theorem closeUp_inj (h : place ≠ gone) (h' : place' ≠ gone)
    (heq : closeUp gone place = closeUp gone place') : place = place' := by
  have howner : place.owner = place'.owner := by
    rw [← owner_closeUp gone place, heq, owner_closeUp]
  by_cases hsame : place.owner = gone.owner
  · have hindex := congrArg BlockPlace.index heq
    rw [index_closeUp hsame, index_closeUp (howner ▸ hsame)] at hindex
    have hne : place.index ≠ gone.index := fun hi => h (ext_index hsame hi)
    have hne' : place'.index ≠ gone.index := fun hi => h' (ext_index (howner ▸ hsame) hi)
    refine ext_index howner ?_
    split at hindex <;> split at hindex <;> omega
  · rwa [closeUp_of_ne hsame, closeUp_of_ne (howner ▸ hsame)] at heq

end BlockPlace

/-! ## Places of edges -/

namespace EdgePlace

/-- Whether a transition follows the end of the invocation at a place. -/
def endsInvoke (gone : BlockPlace) (place : EdgePlace) : Bool :=
  gone.owner == .invoke place.source && Model.invokeOf? place.path.slot == some gone.index

/-- The place of an edge once the block at a place is gone: those that follow later invocations of
    the same state move up. -/
def shift (gone : BlockPlace) (place : EdgePlace) : EdgePlace :=
  if gone.owner = .invoke place.source then
    { place with path := { place.path with slot := Model.shiftInvoke gone.index place.path.slot } }
  else place

@[simp] theorem source_shift (gone : BlockPlace) (place : EdgePlace) :
    (place.shift gone).source = place.source := by
  rw [shift]
  split <;> rfl

end EdgePlace

namespace Model

variable {model : Model} {lists lists' : BlockOwner → List Expr}

/-- Whether a block belongs to an edge that goes with the block at a place. -/
def goesWith (model : Model) (gone place : BlockPlace) : Bool :=
  model.edges.any fun edge => edge.2.endsInvoke gone && belongsToEdge edge.1 place

theorem blocks_attachBlock (model : Model) (id : BlockId) (owner : BlockOwner) (index : Nat) :
    (model.attachBlock id owner index).blocks =
      (model.blocks.map fun block => (block.1, BlockPlace.makeRoom ⟨owner, index⟩ block.2)) ++
        [(id, ⟨owner, index⟩)] := rfl

theorem lookup_attachBlock_of_ne (model : Model) {id other : BlockId} (owner : BlockOwner)
    (index : Nat) (hne : other ≠ id) : (model.attachBlock id owner index).blocks.lookup other =
      (model.blocks.lookup other).map (BlockPlace.makeRoom ⟨owner, index⟩) := by
  rw [lookup_attachBlock_eq, List.lookup_cons, beq_false_of_ne hne, List.lookup_nil,
    Option.or_none]
  rfl

theorem belongsToEdge_iff {edge : EdgeId} {place : BlockPlace} :
    belongsToEdge edge place = true ↔ place.owner.handle = .edge edge := by
  obtain ⟨owner, index⟩ := place
  cases owner <;> simp [belongsToEdge, BlockOwner.handle]

/-- The blocks that stay are those of the edges that do not follow the end of the block. -/
theorem goesWith_eq_false_iff (h : (model.edges.map (·.1)).Nodup) {gone place : BlockPlace} :
    model.goesWith gone place = false ↔ ∀ edge, place.owner.handle = .edge edge →
      (model.edges.lookup edge).any (·.endsInvoke gone) = false := by
  rw [goesWith, List.any_eq_false]
  constructor
  · intro hkept edge hedge
    refine (Option.any_eq_false _ _).2 fun found hfound => ?_
    have hboth := hkept (edge, found) (mem_of_lookup hfound)
    rw [belongsToEdge_iff.2 hedge, Bool.and_true, Bool.not_eq_true] at hboth
    exact hboth
  · rintro hkept ⟨edge, found⟩ hmem hboth
    rw [Bool.and_eq_true, belongsToEdge_iff] at hboth
    have hends := hkept edge hboth.2
    rw [lookup_of_mem h hmem, Option.any_some, hboth.1] at hends
    cases hends

/-- No transition follows the end of a block that is no invocation. -/
theorem endsInvoke_of_ne {gone : BlockPlace} (h : ∀ node, gone.owner ≠ .invoke node)
    (place : EdgePlace) : place.endsInvoke gone = false := by
  rw [EdgePlace.endsInvoke, beq_false_of_ne (h _), Bool.false_and]

theorem endsInvoke_of_eq {gone : BlockPlace} {node : NodeId} (h : gone.owner = .invoke node)
    (place : EdgePlace) : place.endsInvoke gone =
      (place.source == node && invokeOf? place.path.slot == some gone.index) := by
  have hbeq : (gone.owner == .invoke place.source) = (place.source == node) := by
    rw [h, Bool.eq_iff_iff, beq_iff_eq, beq_iff_eq, BlockOwner.invoke.injEq, eq_comm]
  rw [EdgePlace.endsInvoke, hbeq]

theorem edges_detachBlock (model : Model) (id : BlockId) (gone : BlockPlace) :
    (model.detachBlock id gone).edges = (model.edges.filter (!·.2.endsInvoke gone)).map
      fun edge => (edge.1, edge.2.shift gone) := by
  rw [detachBlock]
  split
  · next node hnode =>
    simp only [dropInvoke, mapEdges, endsInvoke_of_eq hnode, EdgePlace.shift, hnode,
      BlockOwner.invoke.injEq, eq_comm]
    rfl
  · next hnode =>
    have hshift : (fun edge : EdgeId × EdgePlace => (edge.1, edge.2.shift gone)) =
        fun edge => edge := by
      funext edge
      rw [EdgePlace.shift, if_neg (hnode _)]
    simp only [endsInvoke_of_ne hnode, hshift, Bool.not_false, List.filter_true, List.map_id']
    rfl

theorem blocks_detachBlock (model : Model) (id : BlockId) (gone : BlockPlace) :
    (model.detachBlock id gone).blocks =
      (model.blocks.filter fun block => block.1 != id && !model.goesWith gone block.2).map
        fun block => (block.1, gone.closeUp block.2) := by
  have hmoved : (({ model with blocks := model.blocks.filter (·.1 != id) } : Model).mapPositions
      gone.owner fun i => if gone.index < i then i - 1 else i).blocks =
        (model.blocks.filter (·.1 != id)).map fun block => (block.1, gone.closeUp block.2) := rfl
  have hclose (place : BlockPlace) :
      model.goesWith gone (gone.closeUp place) = model.goesWith gone place := by
    simp only [goesWith, belongsToEdge, BlockPlace.owner_closeUp]
  rw [detachBlock]
  split
  · next node hnode =>
    have hgoes (place : BlockPlace) : ((model.edges.filter fun edge =>
        edge.2.source == node && invokeOf? edge.2.path.slot == some gone.index).map (·.1)).any
          (belongsToEdge · place) = model.goesWith gone place := by
      rw [List.any_map, List.any_filter, goesWith]
      simp only [endsInvoke_of_eq hnode]
      rfl
    refine (List.filter_congr fun block _ => congrArg not (hgoes block.2)).trans ?_
    rw [hmoved, List.filter_map, List.filter_filter]
    simp only [Function.comp_def, hclose, Bool.and_comm]
  · next hnode =>
    have hgoes (place : BlockPlace) : model.goesWith gone place = false := by
      simp [goesWith, endsInvoke_of_ne hnode]
    simp only [hgoes, Bool.not_false, Bool.and_true]
    exact hmoved

theorem mem_detachBlock {id other : BlockId} {gone place' : BlockPlace} :
    (other, place') ∈ (model.detachBlock id gone).blocks ↔ ∃ place, (other, place) ∈ model.blocks ∧
      other ≠ id ∧ model.goesWith gone place = false ∧ place' = gone.closeUp place := by
  rw [blocks_detachBlock, List.mem_map]
  constructor
  · rintro ⟨⟨_, place⟩, hmem, heq⟩
    obtain ⟨rfl, rfl⟩ := Prod.mk.inj heq
    obtain ⟨hmem, hkept⟩ := List.mem_filter.1 hmem
    rw [Bool.and_eq_true, bne_iff_ne, Bool.not_eq_true'] at hkept
    exact ⟨place, hmem, hkept.1, hkept.2, rfl⟩
  · rintro ⟨place, hmem, hne, hkept, rfl⟩
    refine ⟨(other, place), List.mem_filter.2 ⟨hmem, ?_⟩, rfl⟩
    rw [Bool.and_eq_true, bne_iff_ne, Bool.not_eq_true']
    exact ⟨hne, hkept⟩

theorem paths_detachBlock (model : Model) (id : BlockId) (gone : BlockPlace) :
    (model.detachBlock id gone).paths = model.paths := by
  rw [detachBlock]
  split <;> rfl

/-- Where the handle of an edge leads once a block is gone. -/
theorem lookup_edges_detachBlock (h : (model.edges.map (·.1)).Nodup) (id : BlockId)
    (gone : BlockPlace) (edge : EdgeId) :
    (model.detachBlock id gone).edges.lookup edge = (model.edges.lookup edge).bind fun place =>
      if place.endsInvoke gone then none else some (place.shift gone) := by
  have hnodup : ((model.edges.filter (!·.2.endsInvoke gone)).map (·.1)).Nodup :=
    h.sublist (List.filter_sublist.map _)
  rw [edges_detachBlock, lookup_map_snd]
  refine Option.ext fun place' => ?_
  simp only [Option.map_eq_some_iff, Option.bind_eq_some_iff, Option.ite_none_left_eq_some,
    Option.some.injEq]
  refine exists_congr fun place => ?_
  rw [← and_assoc]
  refine and_congr_left fun _ => ⟨fun hplace => ?_, fun hplace => lookup_of_mem hnodup ?_⟩
  · obtain ⟨hmem, hkept⟩ := List.mem_filter.1 (mem_of_lookup hplace)
    exact ⟨lookup_of_mem h hmem, by simpa using hkept⟩
  · exact List.mem_filter.2 ⟨mem_of_lookup hplace.1, by simpa using hplace.2⟩

theorem hasEdge_detachBlock (h : (model.edges.map (·.1)).Nodup) (id : BlockId)
    (gone : BlockPlace) (edge : EdgeId) : (model.detachBlock id gone).hasEdge edge =
      (model.hasEdge edge && !(model.edges.lookup edge).any (·.endsInvoke gone)) := by
  rw [hasEdge, lookup_edges_detachBlock h, hasEdge]
  cases model.edges.lookup edge with
  | none => rfl
  | some place => cases hends : place.endsInvoke gone <;> simp [hends]

theorem hasBlock_detachBlock_self (model : Model) (id : BlockId) (gone : BlockPlace) :
    (model.detachBlock id gone).hasBlock id = false := by
  rw [Bool.eq_false_iff, hasBlock, ne_eq, lookup_isSome_iff_exists]
  rintro ⟨place, hmem⟩
  obtain ⟨_, -, hne, -⟩ := mem_detachBlock.1 hmem
  exact hne rfl

/-! ## Handles and entries -/

/-- The entry that a handle leads to. -/
def entryIn? (model : Model) (lists : BlockOwner → List Expr) (id : BlockId) : Option Expr := do
  let place ← model.blocks.lookup id
  (lists place.owner)[place.index]?

theorem entryIn?_of_lookup {id : BlockId} {place : BlockPlace}
    (h : model.blocks.lookup id = some place) :
    model.entryIn? lists id = (lists place.owner)[place.index]? := by
  rw [entryIn?, h]
  rfl

/-- Each handle leads to an entry that refers to something, and no two lead to the same. -/
structure Anchors (model : Model) (lists : BlockOwner → List Expr) : Prop where
  handles : (model.blocks.map (·.1)).Nodup
  places : (model.blocks.map (·.2)).Nodup
  entries : ∀ id place, (id, place) ∈ model.blocks → ∃ entry,
    (lists place.owner)[place.index]? = some entry ∧ (place.owner.reference? entry).isSome = true

namespace Anchors

variable (h : model.Anchors lists)

include h

theorem lookup_eq_some_iff {id : BlockId} {place : BlockPlace} :
    model.blocks.lookup id = some place ↔ (id, place) ∈ model.blocks :=
  ⟨mem_of_lookup, lookup_of_mem h.handles⟩

theorem handle_eq {a b : BlockId} {place : BlockPlace} (ha : (a, place) ∈ model.blocks)
    (hb : (b, place) ∈ model.blocks) : a = b :=
  congrArg Prod.fst (List.inj_on_of_nodup_map h.places ha hb rfl)

theorem place_eq {id : BlockId} {a b : BlockPlace} (ha : (id, a) ∈ model.blocks)
    (hb : (id, b) ∈ model.blocks) : a = b :=
  congrArg Prod.snd (List.inj_on_of_nodup_map h.handles ha hb rfl)

/-- A handle that is known leads to an entry. -/
theorem exists_entryIn? {id : BlockId} (hid : model.hasBlock id = true) :
    ∃ entry, model.entryIn? lists id = some entry := by
  obtain ⟨place, hplace⟩ := Option.isSome_iff_exists.1 hid
  obtain ⟨entry, hentry, -⟩ := h.entries id place (mem_of_lookup hplace)
  exact ⟨entry, Option.bind_eq_some_iff.2 ⟨place, hplace, hentry⟩⟩

end Anchors

/-! ## A block comes -/

section

variable (h : model.Anchors lists) {id : BlockId} {owner : BlockOwner} {index : Nat} {entry : Expr}
  (hle : index ≤ (lists owner).length)
  (hself : lists' owner = (lists owner).insertIdx index entry)
  (hothers : ∀ other, other ≠ owner → lists' other = lists other)

include hself hothers

/-- An entry is found where room was made for it to move to. -/
theorem getElem?_makeRoom (place : BlockPlace) :
    (lists' place.owner)[(BlockPlace.makeRoom ⟨owner, index⟩ place).index]? =
      (lists place.owner)[place.index]? := by
  by_cases hsame : place.owner = owner
  · rw [BlockPlace.index_makeRoom hsame, hsame, hself, List.getElem?_insertIdx]
    dsimp only
    split
    · rw [if_neg (by omega), if_neg (by omega), Nat.add_sub_cancel]
    · rw [if_pos (by omega)]
  · rw [BlockPlace.makeRoom_of_ne hsame, hothers _ hsame]

theorem entryIn?_attachBlock {other : BlockId} (hne : other ≠ id) :
    (model.attachBlock id owner index).entryIn? lists' other = model.entryIn? lists other := by
  have hlookup := lookup_attachBlock_of_ne model owner index hne
  cases hplace : model.blocks.lookup other with
  | none => rw [entryIn?, entryIn?, hlookup, hplace]; rfl
  | some place =>
    rw [entryIn?_of_lookup (hlookup.trans (congrArg _ hplace)), entryIn?_of_lookup hplace,
      BlockPlace.owner_makeRoom, getElem?_makeRoom hself hothers]

include hle

omit hothers in
theorem getElem?_insertIdx_self : (lists' owner)[index]? = some entry := by
  rw [hself, List.getElem?_insertIdx, if_neg (by omega), if_pos rfl, if_pos hle]

include h

/-- Each handle leads to its entry when a block is added with its entry. -/
theorem Anchors.attachBlock (hid : model.hasBlock id = false)
    (hentry : (owner.reference? entry).isSome = true) :
    (model.attachBlock id owner index).Anchors lists' := by
  have hfree : ∀ place, (id, place) ∉ model.blocks := fun place hmem => by
    rw [hasBlock, lookup_isSome_iff_exists.2 ⟨place, hmem⟩] at hid
    cases hid
  refine ⟨?_, ?_, fun other place hmem => ?_⟩
  · rw [blocks_attachBlock, List.map_append, List.map_map]
    refine List.nodup_append.2 ⟨h.handles, List.nodup_singleton _, ?_⟩
    rintro a ha b hb rfl
    obtain ⟨⟨_, place⟩, hmem, rfl⟩ := List.mem_map.1 ha
    obtain rfl := List.mem_singleton.1 hb
    exact hfree place hmem
  · rw [blocks_attachBlock, List.map_append, List.map_map]
    refine List.nodup_append.2 ⟨?_, List.nodup_singleton _, ?_⟩
    · refine List.Nodup.map_on (fun a ha b hb heq => ?_) h.places.of_map
      exact List.inj_on_of_nodup_map h.places ha hb (BlockPlace.makeRoom_inj heq)
    · rintro a ha b hb rfl
      obtain ⟨⟨_, place⟩, -, rfl⟩ := List.mem_map.1 ha
      exact BlockPlace.makeRoom_ne _ _ (List.mem_singleton.1 hb)
  · rw [blocks_attachBlock] at hmem
    rcases List.mem_append.1 hmem with hmem | hmem
    · obtain ⟨⟨_, place₀⟩, hmem₀, heq⟩ := List.mem_map.1 hmem
      obtain ⟨rfl, rfl⟩ := Prod.mk.inj heq
      rw [BlockPlace.owner_makeRoom, getElem?_makeRoom hself hothers]
      exact h.entries _ _ hmem₀
    · obtain ⟨rfl, rfl⟩ := Prod.mk.inj (List.mem_singleton.1 hmem)
      exact ⟨entry, getElem?_insertIdx_self hle hself, hentry⟩

end

/-! ## An entry changes -/

section

variable (h : model.Anchors lists) {id : BlockId} {place : BlockPlace} {entry : Expr}
  (hplace : (id, place) ∈ model.blocks)
  (hself : lists' place.owner = (lists place.owner).set place.index entry)
  (hothers : ∀ other, other ≠ place.owner → lists' other = lists other)

include h hplace hself

omit h in
theorem getElem?_set_self (h : model.Anchors lists) :
    (lists' place.owner)[place.index]? = some entry := by
  obtain ⟨old, hold, -⟩ := h.entries id place hplace
  rw [hself, List.getElem?_set_self (List.getElem?_eq_some_iff.1 hold).1]

include hothers

theorem getElem?_of_replaced {other : BlockId} {place' : BlockPlace}
    (hother : (other, place') ∈ model.blocks) (hne : other ≠ id) :
    (lists' place'.owner)[place'.index]? = (lists place'.owner)[place'.index]? := by
  by_cases hsame : place'.owner = place.owner
  · have hindex : place.index ≠ place'.index := by
      intro hi
      obtain rfl := BlockPlace.ext_index hsame hi.symm
      exact hne (h.handle_eq hother hplace)
    rw [hsame, hself, List.getElem?_set_ne hindex]
  · rw [hothers _ hsame]

theorem entryIn?_replaced {other : BlockId} (hne : other ≠ id) :
    model.entryIn? lists' other = model.entryIn? lists other := by
  cases hlookup : model.blocks.lookup other with
  | none => rw [entryIn?, entryIn?, hlookup]; rfl
  | some place' =>
    rw [entryIn?_of_lookup hlookup, entryIn?_of_lookup hlookup]
    exact getElem?_of_replaced h hplace hself hothers (mem_of_lookup hlookup) hne

/-- Each handle leads to its entry when an entry is replaced. -/
theorem Anchors.replace (hentry : (place.owner.reference? entry).isSome = true) :
    model.Anchors lists' := by
  refine ⟨h.handles, h.places, fun other place' hmem => ?_⟩
  by_cases hne : other = id
  · subst hne
    obtain rfl := h.place_eq hmem hplace
    exact ⟨entry, getElem?_set_self hplace hself h, hentry⟩
  · rw [getElem?_of_replaced h hplace hself hothers hmem hne]
    exact h.entries other place' hmem

end

/-! ## A block goes -/

section

variable (h : model.Anchors lists) {id : BlockId} {gone : BlockPlace}
  (hgone : (id, gone) ∈ model.blocks)
  (hself : ∀ left, OneOrMany.removal gone.index (lists gone.owner) = some left →
    lists' gone.owner = left)
  (hothers : ∀ other place, (other, place) ∈ model.blocks → place.owner ≠ gone.owner →
    model.goesWith gone place = false → lists' place.owner = lists place.owner)

include h

theorem nodup_handles_detachBlock (id : BlockId) (gone : BlockPlace) :
    ((model.detachBlock id gone).blocks.map (·.1)).Nodup := by
  rw [blocks_detachBlock, List.map_map]
  exact h.handles.sublist (List.filter_sublist.map _)

/-- Where a handle leads once a block is gone. -/
theorem lookup_detachBlock_eq_some_iff {other : BlockId} {place' : BlockPlace} :
    (model.detachBlock id gone).blocks.lookup other = some place' ↔
      ∃ place, model.blocks.lookup other = some place ∧ other ≠ id ∧
        model.goesWith gone place = false ∧ place' = gone.closeUp place := by
  have hlookup : (model.detachBlock id gone).blocks.lookup other = some place' ↔
      (other, place') ∈ (model.detachBlock id gone).blocks :=
    ⟨mem_of_lookup, lookup_of_mem (nodup_handles_detachBlock h id gone)⟩
  rw [hlookup, mem_detachBlock]
  simp only [h.lookup_eq_some_iff]

include hgone

theorem place_ne_of_ne {other : BlockId} {place : BlockPlace}
    (hother : (other, place) ∈ model.blocks) (hne : other ≠ id) : place ≠ gone := by
  rintro rfl
  exact hne (h.handle_eq hother hgone)

include hself hothers

/-- An entry is found where it moved up to. -/
theorem getElem?_closeUp {other : BlockId} {place : BlockPlace}
    (hother : (other, place) ∈ model.blocks) (hne : other ≠ id)
    (hkept : model.goesWith gone place = false) :
    (lists' place.owner)[(gone.closeUp place).index]? = (lists place.owner)[place.index]? := by
  by_cases hsame : place.owner = gone.owner
  · obtain ⟨entry, hentry, hreference⟩ := h.entries other place hother
    have hindex : place.index ≠ gone.index := fun hi =>
      place_ne_of_ne h hgone hother hne (BlockPlace.ext_index hsame hi)
    rw [BlockPlace.index_closeUp hsame, hentry]
    rw [hsame] at hentry ⊢
    obtain ⟨left, hleft, hfound⟩ := OneOrMany.getElem?_removal hentry hindex
      (BlockOwner.isArray_of_reference? hreference)
    rw [hself left hleft, hfound]
  · rw [BlockPlace.closeUp_of_ne hsame, hothers other place hother hsame hkept]

theorem entryIn?_detachBlock {other : BlockId}
    (hother : (model.detachBlock id gone).hasBlock other = true) :
    (model.detachBlock id gone).entryIn? lists' other = model.entryIn? lists other := by
  obtain ⟨place', hplace'⟩ := Option.isSome_iff_exists.1 hother
  obtain ⟨place, hplace, hne, hkept, rfl⟩ := (lookup_detachBlock_eq_some_iff h).1 hplace'
  rw [entryIn?_of_lookup hplace', entryIn?_of_lookup hplace, BlockPlace.owner_closeUp]
  exact getElem?_closeUp h hgone hself hothers (mem_of_lookup hplace) hne hkept

/-- Each handle leads to its entry when a block is taken away with its entry. -/
theorem Anchors.detachBlock : (model.detachBlock id gone).Anchors lists' := by
  refine ⟨nodup_handles_detachBlock h id gone, ?_, fun other place' hmem => ?_⟩
  · rw [blocks_detachBlock, List.map_map]
    refine List.Nodup.map_on ?_ (h.places.of_map.sublist List.filter_sublist)
    intro a ha b hb heq
    obtain ⟨ha, hia⟩ := List.mem_filter.1 ha
    obtain ⟨hb, hib⟩ := List.mem_filter.1 hb
    rw [Bool.and_eq_true, bne_iff_ne] at hia hib
    exact List.inj_on_of_nodup_map h.places ha hb (BlockPlace.closeUp_inj
      (place_ne_of_ne h hgone ha hia.1) (place_ne_of_ne h hgone hb hib.1) heq)
  · obtain ⟨place, hplace, hne, hkept, rfl⟩ := mem_detachBlock.1 hmem
    rw [BlockPlace.owner_closeUp, getElem?_closeUp h hgone hself hothers hplace hne hkept]
    exact h.entries other place hplace

end

/-! ## Numbers of blocks -/

/-- The number of known blocks of an owner that come before a position. -/
def countBefore (model : Model) (owner : BlockOwner) (position : Nat) : Nat :=
  model.blocks.countP fun block => block.2.owner == owner && decide (block.2.index < position)

/-- The number of known blocks of an owner. -/
def countOf (model : Model) (owner : BlockOwner) : Nat :=
  model.blocks.countP (·.2.owner == owner)

/-- What stands at a position of an ascending list has that many before it. -/
theorem countP_lt_of_getElem? {l : List Nat} (h : l.Pairwise (· < ·)) {n p : Nat}
    (hn : l[n]? = some p) : l.countP (· < p) = n := by
  induction l generalizing n with
  | nil => cases hn
  | cons first rest ih =>
    obtain ⟨hfirst, hrest⟩ := List.pairwise_cons.1 h
    cases n with
    | zero =>
      obtain rfl := Option.some.inj hn
      refine List.countP_eq_zero.2 fun a ha => ?_
      rcases List.mem_cons.1 ha with rfl | ha
      · simp
      · simpa using Nat.le_of_lt (hfirst a ha)
    | succ n =>
      have hlt := hfirst p (List.mem_of_getElem? hn)
      rw [List.countP_cons_of_pos (by simpa using hlt), ih hrest hn]

/-- The positions of the known blocks of an owner, in ascending order. -/
def sortedPositions (model : Model) (owner : BlockOwner) : List Nat :=
  ((model.blocks.filter (·.2.owner == owner)).map (·.2.index)).mergeSort (· ≤ ·)

theorem perm_sortedPositions (model : Model) (owner : BlockOwner) :
    (model.sortedPositions owner).Perm
      ((model.blocks.filter (·.2.owner == owner)).map (·.2.index)) :=
  List.mergeSort_perm _ _

theorem mem_sortedPositions {owner : BlockOwner} {position : Nat} :
    position ∈ model.sortedPositions owner ↔ ∃ id, (id, ⟨owner, position⟩) ∈ model.blocks := by
  rw [(perm_sortedPositions model owner).mem_iff, List.mem_map]
  constructor
  · rintro ⟨⟨id, place⟩, hmem, rfl⟩
    obtain ⟨hblock, howner⟩ := List.mem_filter.1 hmem
    obtain rfl : place.owner = owner := eq_of_beq howner
    exact ⟨id, hblock⟩
  · rintro ⟨id, hmem⟩
    exact ⟨_, List.mem_filter.2 ⟨hmem, beq_self_eq_true owner⟩, rfl⟩

theorem pairwise_sortedPositions (h : model.Anchors lists) (owner : BlockOwner) :
    (model.sortedPositions owner).Pairwise (· < ·) := by
  have hnodup : ((model.blocks.filter (·.2.owner == owner)).map (·.2.index)).Nodup := by
    refine List.Nodup.map_on (fun a ha b hb heq => ?_) (h.places.of_map.filter _)
    obtain ⟨ha, hia⟩ := List.mem_filter.1 ha
    obtain ⟨hb, hib⟩ := List.mem_filter.1 hb
    exact List.inj_on_of_nodup_map h.places ha hb
      (BlockPlace.ext_index ((eq_of_beq hia).trans (eq_of_beq hib).symm) heq)
  have hsorted : (model.sortedPositions owner).Pairwise fun a b => decide (a ≤ b) = true :=
    List.pairwise_mergeSort (fun a b c => by simpa using Nat.le_trans)
      (fun a b => by simpa using Nat.le_total a b) _
  have hboth := hsorted.and ((perm_sortedPositions model owner).nodup_iff.2 hnodup)
  exact hboth.imp fun hab => Nat.lt_of_le_of_ne (of_decide_eq_true hab.1) hab.2

theorem countP_sortedPositions (model : Model) (owner : BlockOwner) (position : Nat) :
    (model.sortedPositions owner).countP (· < position) = model.countBefore owner position := by
  rw [(perm_sortedPositions model owner).countP_eq, List.countP_map, List.countP_filter,
    countBefore]
  refine List.countP_congr fun block _ => ?_
  simp [and_comm]

/-- The block at a number among those of an owner is the one with that many before it. -/
theorem positionOfNth?_eq_some_iff (h : model.Anchors lists) {owner : BlockOwner} {n p : Nat} :
    model.positionOfNth? owner n = some p ↔
      (∃ id, (id, ⟨owner, p⟩) ∈ model.blocks) ∧ model.countBefore owner p = n := by
  have hcount {m : Nat} (hm : (model.sortedPositions owner)[m]? = some p) :
      model.countBefore owner p = m := by
    rw [← countP_sortedPositions, countP_lt_of_getElem? (pairwise_sortedPositions h owner) hm]
  rw [← mem_sortedPositions]
  constructor
  · intro hn
    exact ⟨List.mem_of_getElem? hn, hcount hn⟩
  · rintro ⟨hmem, rfl⟩
    obtain ⟨m, hm⟩ := List.mem_iff_getElem?.1 hmem
    rw [hcount hm]
    exact hm

theorem positionOfNth?_eq_none_iff {owner : BlockOwner} {n : Nat} :
    model.positionOfNth? owner n = none ↔ model.countOf owner ≤ n := by
  have hlength : (model.sortedPositions owner).length = model.countOf owner := by
    rw [(perm_sortedPositions model owner).length_eq, List.length_map, countOf,
      List.countP_eq_length_filter]
  rw [← hlength]
  exact List.getElem?_eq_none_iff

end Model

end Statechart
