import Statechart.Proofs.Editors
import Statechart.Proofs.PatchBatch

/-!
# What patches make of the places of handles

A patch looks up the handles that it uses and may introduce one. What it makes of the places
of handles is one of a few changes; those of patches that take nothing away only add handles,
and an edge always starts at a node that is known.

* `Patch.uses`, `Patch.introduces?`: the handles in a patch;
* `Model.Live`: a handle that can be used;
* `Model.Change`: what a patch can make of the places;
* `Model.Extends`: the handles of one model are those of another too.
-/

namespace Statechart

/-- A handle of a node, an edge or a block. -/
inductive Handle where
  | node (id : NodeId)
  | edge (id : EdgeId)
  | block (id : BlockId)
  deriving DecidableEq, Repr

/-- The handle of what a block belongs to. -/
def BlockOwner.handle : BlockOwner → Handle
  | entry node | exit node | invoke node => .node node
  | actions edge | guard edge => .edge edge

/-- The handle of what is described. -/
def DescriptionOwner.handle : DescriptionOwner → Handle
  | node id => .node id
  | edge id => .edge id

namespace Patch

/-- The handle that a patch introduces. -/
def introduces? : Patch → Option Handle
  | addNode node .. => some (.node node)
  | addEdge edge .. => some (.edge edge)
  | addBlock block .. => some (.block block)
  | _ => none

/-- The handles that a patch refers to. -/
def uses : Patch → List Handle
  | addNode _ parent _ => [.node parent]
  | removeNode node | replaceNodeKey node _ | replaceNodeInitial node _
  | replaceNodeType node _ _ | replaceNodeId node _ => [.node node]
  | replaceNodeParent node parent => [.node node, .node parent]
  | replaceDescription owner _ => [owner.handle]
  | addEdge _ source targets _ _ => .node source :: targets.map .node
  | removeEdge edge | replaceEdgeSlot edge _ | replaceEdgeInternal edge _ => [.edge edge]
  | replaceEdgeSource edge source => [.edge edge, .node source]
  | replaceEdgeTargets edge targets => .edge edge :: targets.map .node
  | addBlock _ owner _ _ => [owner.handle]
  | removeBlock block | replaceBlockSource block _ => [.block block]

/-- Whether a patch can change the paths of nodes. -/
def changesPaths : Patch → Bool
  | addNode .. | removeNode .. | replaceNodeKey .. | replaceNodeParent .. => true
  | _ => false

/-- Whether a patch takes something away. -/
def isRemoval : Patch → Bool
  | removeNode .. | removeEdge .. | removeBlock .. => true
  | _ => false

end Patch

/-- Whether an error says that a handle is not known. -/
def PatchError.isUnknown : PatchError → Bool
  | unknownNode _ | unknownEdge _ | unknownBlock _ => true
  | _ => false

/-! ## Looking handles up -/

theorem lookup_isSome_iff_exists [BEq α] [LawfulBEq α] {l : List (α × β)} {a : α} :
    (l.lookup a).isSome = true ↔ ∃ b, (a, b) ∈ l := by
  rw [List.lookup_isSome_iff]
  constructor
  · rintro ⟨⟨a', b⟩, h, ha⟩
    obtain rfl := eq_of_beq ha
    exact ⟨b, h⟩
  · rintro ⟨b, h⟩
    exact ⟨_, h, BEq.rfl⟩

/-- What is found when each value is changed in place. -/
theorem lookup_map_snd [BEq α] [LawfulBEq α] {l : List (α × β)} {f : β → γ} {a : α} :
    (l.map fun entry => (entry.1, f entry.2)).lookup a = (l.lookup a).map f := by
  induction l with
  | nil => rfl
  | cons entry l ih =>
    obtain ⟨a', b⟩ := entry
    rw [List.map_cons, List.lookup_cons, List.lookup_cons]
    cases a == a' with
    | true => rfl
    | false => exact ih

namespace Model

variable {model after : Model}

theorem path_eq_ok {id : NodeId} {path : StatePath} :
    model.path id = .ok path ↔ model.paths.lookup id = some path := by
  rw [Model.path]
  cases model.paths.lookup id <;> simp

theorem edge_eq_ok {id : EdgeId} {place : EdgePlace} :
    model.edge id = .ok place ↔ model.edges.lookup id = some place := by
  rw [Model.edge]
  cases model.edges.lookup id <;> simp

theorem block_eq_ok {id : BlockId} {place : BlockPlace} :
    model.block id = .ok place ↔ model.blocks.lookup id = some place := by
  rw [Model.block]
  cases model.blocks.lookup id <;> simp

theorem hasNode_iff {id : NodeId} : model.hasNode id = true ↔ ∃ path, model.path id = .ok path := by
  simp only [path_eq_ok, hasNode, Option.isSome_iff_exists]

theorem hasEdge_iff {id : EdgeId} :
    model.hasEdge id = true ↔ ∃ place, model.edge id = .ok place := by
  simp only [edge_eq_ok, hasEdge, Option.isSome_iff_exists]

theorem hasNode_iff_mem {id : NodeId} :
    model.hasNode id = true ↔ ∃ path, (id, path) ∈ model.paths :=
  lookup_isSome_iff_exists

theorem hasEdge_iff_mem {id : EdgeId} :
    model.hasEdge id = true ↔ ∃ place, (id, place) ∈ model.edges :=
  lookup_isSome_iff_exists

/-- Whether a handle is known. -/
def knows (model : Model) : Handle → Bool
  | .node id => model.hasNode id
  | .edge id => model.hasEdge id
  | .block id => model.hasBlock id

/-- The handle of what a block belongs to. -/
def ownerOf? (model : Model) : Handle → Option Handle
  | .block id => (model.blocks.lookup id).map (·.owner.handle)
  | _ => none

/-- A handle is known and, if it is that of a block, so is that of what it belongs to. -/
def Live (model : Model) (handle : Handle) : Prop :=
  model.knows handle = true ∧ ∀ owner ∈ model.ownerOf? handle, model.knows owner = true

instance (model : Model) (handle : Handle) : Decidable (model.Live handle) :=
  inferInstanceAs (Decidable (_ ∧ _))

variable (model after) in
/-- Each edge starts at a node that is known. -/
def SourcesKnown : Prop :=
  ∀ id place, (id, place) ∈ model.edges → model.hasNode place.source = true

variable (model after) in
/-- All handles of a model are handles of another, and blocks have the same owners in both. -/
structure Extends : Prop where
  nodes : ∀ id, model.hasNode id = true → after.hasNode id = true
  edges : ∀ id, model.hasEdge id = true → after.hasEdge id = true
  blocks : ∀ id place, model.blocks.lookup id = some place →
    ∃ index, after.blocks.lookup id = some ⟨place.owner, index⟩

theorem Extends.refl (model : Model) : model.Extends model :=
  ⟨fun _ h => h, fun _ h => h, fun _ _ h => ⟨_, h⟩⟩

theorem Extends.knows (h : model.Extends after) {handle : Handle}
    (hknown : model.knows handle = true) : after.knows handle = true := by
  cases handle with
  | node id => exact h.nodes id hknown
  | edge id => exact h.edges id hknown
  | block id =>
    obtain ⟨place, hplace⟩ := Option.isSome_iff_exists.1 hknown
    obtain ⟨index, hindex⟩ := h.blocks id place hplace
    exact Option.isSome_iff_exists.2 ⟨_, hindex⟩

theorem Extends.live (h : model.Extends after) {handle : Handle} (hlive : model.Live handle) :
    after.Live handle := by
  refine ⟨h.knows hlive.1, fun owner howner => h.knows (hlive.2 owner ?_)⟩
  cases handle with
  | node id => cases howner
  | edge id => cases howner
  | block id =>
    obtain ⟨place, hplace⟩ := Option.isSome_iff_exists.1 hlive.1
    obtain ⟨index, hindex⟩ := h.blocks id place hplace
    rw [ownerOf?, hindex] at howner
    rw [ownerOf?, hplace]
    exact howner

theorem live_node {id : NodeId} (h : model.hasNode id = true) : model.Live (.node id) :=
  ⟨h, fun _ howner => nomatch howner⟩

theorem live_edge {id : EdgeId} (h : model.hasEdge id = true) : model.Live (.edge id) :=
  ⟨h, fun _ howner => nomatch howner⟩

theorem sourcesKnown_ofGraph {graph : Graph} (h : graph.WellFormed) :
    (ofGraph graph).SourcesKnown := by
  intro id place hmem
  obtain ⟨edge, hedge, heq⟩ := List.mem_map.1 hmem
  obtain ⟨rfl, rfl⟩ := Prod.mk.inj heq
  obtain ⟨node, hnode⟩ : ∃ node, graph.nodes[edge.source]? = some node :=
    ⟨_, List.getElem?_eq_getElem (h.sources edge hedge)⟩
  refine hasNode_iff_mem.2 ⟨node.path, List.mem_map.2 ⟨node, List.mem_of_getElem? hnode, ?_⟩⟩
  rw [h.hierarchy.id_eq hnode]

/-! ## The handles after a change -/

theorem lookup_moveSubtree {old new : StatePath} {id : NodeId} :
    (model.moveSubtree old new).paths.lookup id = (model.paths.lookup id).map fun path =>
      if isBelow old path then new ++ path.drop old.length else path := by
  rw [← lookup_map_snd]
  rfl

theorem hasNode_moveSubtree {old new : StatePath} {id : NodeId} :
    (model.moveSubtree old new).hasNode id = model.hasNode id := by
  rw [hasNode, hasNode, lookup_moveSubtree, Option.isSome_map]

theorem hasEdge_attachEdge {id : EdgeId} {source : NodeId} {slot : Slot} {other : EdgeId} :
    (model.attachEdge id source slot).hasEdge other = true ↔
      model.hasEdge other = true ∨ other = id := by
  simp only [hasEdge_iff_mem, attachEdge, List.mem_append, List.mem_singleton, Prod.mk.injEq]
  constructor
  · rintro ⟨place, h | h⟩
    · exact .inl ⟨place, h⟩
    · exact .inr h.1
  · rintro (⟨place, h⟩ | rfl)
    · exact ⟨place, .inl h⟩
    · exact ⟨_, .inr ⟨rfl, rfl⟩⟩

theorem mem_edges_detachEdge {id other : EdgeId} {place place' : EdgePlace}
    (h : (other, place') ∈ (model.detachEdge id place).edges) :
    ∃ place₀, (other, place₀) ∈ model.edges ∧ place'.source = place₀.source := by
  obtain ⟨⟨_, place₀⟩, hmem, heq⟩ := List.mem_map.1 h
  obtain ⟨rfl, rfl⟩ := Prod.mk.inj heq
  refine ⟨place₀, (List.mem_filter.1 hmem).1, ?_⟩
  dsimp only
  split <;> rfl

theorem hasEdge_detachEdge {id other : EdgeId} {place : EdgePlace} (hne : other ≠ id)
    (h : model.hasEdge other = true) : (model.detachEdge id place).hasEdge other = true := by
  obtain ⟨place', hmem⟩ := hasEdge_iff_mem.1 h
  refine hasEdge_iff_mem.2 ⟨_, List.mem_map.2 ⟨(other, place'), List.mem_filter.2 ⟨hmem, ?_⟩, rfl⟩⟩
  simpa using hne

theorem lookup_attachBlock_eq {id other : BlockId} {owner : BlockOwner} {index : Nat} :
    (model.attachBlock id owner index).blocks.lookup other =
      ((model.blocks.lookup other).map fun place =>
        if place.owner = owner then
          { place with index := if index ≤ place.index then place.index + 1 else place.index }
        else place).or (List.lookup other [(id, ⟨owner, index⟩)]) := by
  rw [← lookup_map_snd, ← List.lookup_append]
  rfl

theorem lookup_attachBlock {id other : BlockId} {owner : BlockOwner} {index : Nat}
    {place : BlockPlace} (h : model.blocks.lookup other = some place) :
    ∃ index', (model.attachBlock id owner index).blocks.lookup other =
      some ⟨place.owner, index'⟩ := by
  simp only [lookup_attachBlock_eq, h, Option.map_some, Option.some_or, Option.some.injEq]
  split
  · exact ⟨_, rfl⟩
  · exact ⟨place.index, rfl⟩

theorem lookup_attachBlock_self {id : BlockId} (owner : BlockOwner) (index : Nat)
    (h : model.hasBlock id = false) :
    (model.attachBlock id owner index).blocks.lookup id = some ⟨owner, index⟩ := by
  have hnone : model.blocks.lookup id = none := by simpa [hasBlock] using h
  simp [lookup_attachBlock_eq, hnone]

/-! ## What a patch makes of the places -/

/-- What a patch can make of the places of handles. -/
inductive Change (model : Model) : Patch → Model → Prop
  | addNode {node parent : NodeId} {key : String} (path : StatePath) :
      model.hasNode node = false →
      Change model (.addNode node parent key) (model.addNode node path)
  | removeNode {node : NodeId} (path : StatePath) :
      Change model (.removeNode node) (model.dropSubtree path)
  | moveNode {patch : Patch} (old new : StatePath) : patch.introduces? = none →
      patch.changesPaths = true → Change model patch (model.moveSubtree old new)
  | stay {patch : Patch} : patch.introduces? = none → Change model patch model
  | addEdge {edge : EdgeId} {source : NodeId} {targets : List NodeId} {slot : Slot}
      {internal : Option Bool} : model.hasEdge edge = false → model.hasNode source = true →
      Change model (.addEdge edge source targets slot internal)
        (model.attachEdge edge source slot)
  | removeEdge {edge : EdgeId} (place : EdgePlace) :
      Change model (.removeEdge edge) ((model.detachEdge edge place).dropBlocksOf edge)
  | moveEdge {patch : Patch} (edge : EdgeId) (place : EdgePlace) {source : NodeId} (slot : Slot) :
      patch.introduces? = none → model.hasNode source = true →
      Change model patch ((model.detachEdge edge place).attachEdge edge source slot)
  | addBlock {block : BlockId} {owner : BlockOwner} {index : Option Nat} {sourceId : String}
      (position : Nat) : model.hasBlock block = false →
      Change model (.addBlock block owner index sourceId)
        (model.attachBlock block owner position)
  | removeBlock {block : BlockId} (place : BlockPlace) :
      Change model (.removeBlock block) (model.detachBlock block place)

theorem SourcesKnown.dropInvoke (h : model.SourcesKnown) (node : NodeId) (index : Nat) :
    (model.dropInvoke node index).SourcesKnown := by
  intro id place hmem
  obtain ⟨⟨_, place₀⟩, hkept, heq⟩ := List.mem_map.1 hmem
  obtain ⟨rfl, rfl⟩ := Prod.mk.inj heq
  have hsource := h _ _ (List.mem_filter.1 hkept).1
  dsimp only
  split <;> exact hsource

/-- Edges start at known nodes after every patch. -/
theorem SourcesKnown.change {patch : Patch} (h : model.SourcesKnown)
    (hchange : model.Change patch after) : after.SourcesKnown := by
  cases hchange with
  | addNode path =>
    intro id place hmem
    rw [hasNode_addNode, h id place hmem, Bool.true_or]
  | removeNode path =>
    intro id place hmem
    obtain ⟨hmem, hkept⟩ := List.mem_filter.1 hmem
    obtain ⟨sourcePath, hsource⟩ := hasNode_iff_mem.1 (h id place hmem)
    exact hasNode_iff_mem.2 ⟨sourcePath, List.mem_filter.2 ⟨hsource, hkept⟩⟩
  | moveNode old new =>
    intro id place hmem
    rw [hasNode_moveSubtree]
    exact h id place hmem
  | stay => exact h
  | addEdge _ hsource =>
    intro id place hmem
    rcases List.mem_append.1 hmem with hmem | hmem
    · exact h id place hmem
    · obtain ⟨rfl, rfl⟩ := Prod.mk.inj (List.mem_singleton.1 hmem)
      exact hsource
  | removeEdge place =>
    intro id place' hmem
    obtain ⟨place₀, hmem, hsource⟩ := mem_edges_detachEdge hmem
    rw [hsource]
    exact h id place₀ hmem
  | moveEdge edge place slot _ hnew =>
    intro id place' hmem
    rcases List.mem_append.1 hmem with hmem | hmem
    · obtain ⟨place₀, hmem, hsource⟩ := mem_edges_detachEdge hmem
      rw [hsource]
      exact h id place₀ hmem
    · obtain ⟨rfl, rfl⟩ := Prod.mk.inj (List.mem_singleton.1 hmem)
      exact hnew
  | addBlock position => exact h
  | removeBlock place =>
    rw [detachBlock]
    split
    · exact SourcesKnown.dropInvoke h _ _
    · exact h

/-- A patch that is not about the places of nodes leaves them alone. -/
theorem Change.paths_eq {patch : Patch} (h : model.Change patch after)
    (hkeeps : patch.changesPaths = false) : after.paths = model.paths := by
  cases h with
  | addNode path | removeNode path => cases hkeeps
  | moveNode old new _ hchanges => rw [hchanges] at hkeeps; cases hkeeps
  | stay | addEdge | removeEdge place | moveEdge edge place slot | addBlock position => rfl
  | removeBlock place =>
    rw [detachBlock]
    split <;> rfl

/-- A patch that takes nothing away leaves all handles there. -/
theorem Change.extends {patch : Patch} (h : model.Change patch after)
    (hkeeps : patch.isRemoval = false) : model.Extends after := by
  cases h with
  | addNode path =>
    refine ⟨fun id hid => ?_, fun _ hid => hid, fun _ _ hid => ⟨_, hid⟩⟩
    rw [hasNode_addNode, hid, Bool.true_or]
  | removeNode path => cases hkeeps
  | moveNode old new =>
    refine ⟨fun id hid => ?_, fun _ hid => hid, fun _ _ hid => ⟨_, hid⟩⟩
    rw [hasNode_moveSubtree, hid]
  | stay => exact .refl model
  | addEdge =>
    exact ⟨fun _ hid => hid, fun _ hid => hasEdge_attachEdge.2 (.inl hid), fun _ _ hid => ⟨_, hid⟩⟩
  | removeEdge place => cases hkeeps
  | moveEdge edge place slot =>
    -- The edge that moves is taken away and put elsewhere under the same handle.
    refine ⟨fun _ hid => hid, fun id hid => hasEdge_attachEdge.2 ?_, fun _ _ hid => ⟨_, hid⟩⟩
    by_cases heq : id = edge
    · exact .inr heq
    · exact .inl (hasEdge_detachEdge heq hid)
  | addBlock position =>
    exact ⟨fun _ hid => hid, fun _ hid => hid, fun _ _ hid => lookup_attachBlock hid⟩
  | removeBlock place => cases hkeeps

/-- The handle that a patch introduces can be used from then on. -/
theorem Change.live {patch : Patch} (h : model.Change patch after)
    (huses : ∀ handle ∈ patch.uses, model.Live handle) {handle : Handle}
    (hintroduced : patch.introduces? = some handle) : after.Live handle := by
  cases h with
  | addNode path =>
    obtain rfl := Option.some.inj hintroduced
    exact live_node (by rw [hasNode_addNode, beq_self_eq_true, Bool.or_true])
  | addEdge =>
    obtain rfl := Option.some.inj hintroduced
    exact live_edge (hasEdge_attachEdge.2 (.inr rfl))
  | @addBlock block owner index sourceId position hfree =>
    obtain rfl := Option.some.inj hintroduced
    have hfound := lookup_attachBlock_self owner position hfree
    refine ⟨Option.isSome_iff_exists.2 ⟨_, hfound⟩, fun owner' howner => ?_⟩
    rw [ownerOf?, hfound] at howner
    obtain rfl := Option.some.inj howner
    exact ((Change.addBlock position hfree : model.Change (.addBlock block owner index sourceId) _)
      |>.extends rfl).knows (huses _ List.mem_cons_self).1
  | removeNode path => cases hintroduced
  | removeEdge place => cases hintroduced
  | removeBlock place => cases hintroduced
  | moveNode old new hnone => rw [hnone] at hintroduced; cases hintroduced
  | stay hnone => rw [hnone] at hintroduced; cases hintroduced
  | moveEdge edge place slot hnone => rw [hnone] at hintroduced; cases hintroduced

/-- A handle that is introduced was free. -/
theorem Change.free {patch : Patch} (h : model.Change patch after) {handle : Handle}
    (hintroduced : patch.introduces? = some handle) : model.knows handle = false := by
  cases h with
  | addNode path hfree | addEdge hfree | addBlock position hfree =>
    obtain rfl := Option.some.inj hintroduced
    exact hfree
  | removeNode path => cases hintroduced
  | removeEdge place => cases hintroduced
  | removeBlock place => cases hintroduced
  | moveNode old new hnone => rw [hnone] at hintroduced; cases hintroduced
  | stay hnone => rw [hnone] at hintroduced; cases hintroduced
  | moveEdge edge place slot hnone => rw [hnone] at hintroduced; cases hintroduced

end Model

end Statechart
