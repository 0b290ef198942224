import Statechart.Proofs.Builders

/-!
# What holds while a graph is built

A builder adds the blocks of a state or an edge before the state or the edge itself, so that
between two additions some blocks are *loose*: they are there, but no list holds them yet. What
holds all the time is told with the loose blocks.

* `Node.blockIds`, `Edge.blockIds`, `Builder.owned`: the blocks in the lists of a graph;
* `Builder.Consistent`: handles are positions, each block is in one list or loose, what is
  pending are the descriptors of the edges, and the implementations are those of the blocks;
* `Builder.consistent_addTree`: adding a tree keeps this.
-/

namespace Statechart

/-- The blocks of a node. -/
def Node.blockIds (node : Node) : List BlockId :=
  node.entry ++ node.exit ++ node.invoke

/-- The blocks of an edge. -/
def Edge.blockIds (edge : Edge) : List BlockId :=
  edge.guard.toList ++ edge.actions

namespace Builder

/-- The blocks in the lists of all nodes and edges. -/
def owned (b : Builder) : List BlockId :=
  b.nodes.flatMap Node.blockIds ++ b.edges.flatMap Edge.blockIds

/-- What holds of a builder with loose blocks. -/
structure Consistent (b : Builder) (loose : List BlockId) : Prop where
  edgeIds : b.edges.map (·.id) = List.range b.edges.length
  blockIds : b.blocks.map (·.id) = List.range b.blocks.length
  owned : (loose ++ b.owned).Perm (List.range b.blocks.length)
  /-- Targets are all looked up later. -/
  untargeted : ∀ edge ∈ b.edges, edge.targets = []
  pending : b.pending.map (fun p => (p.edge, p.descriptor)) =
    b.edges.flatMap fun edge => edge.descriptors.map (edge.id, ·)
  registered : ∀ kind id, (∃ entry ∈ b.implementations, entry.kind = kind ∧ entry.id = id) ↔
    ∃ block ∈ b.blocks, block.kind = kind ∧ block.sourceId = id
  distinct : (b.implementations.map fun entry => (entry.kind, entry.id)).Nodup

variable {b : Builder} {loose : List BlockId}

theorem consistent_empty : Consistent {} [] :=
  ⟨rfl, rfl, .nil, fun _ h => absurd h List.not_mem_nil, rfl, by simp, List.nodup_nil⟩

theorem Consistent.perm {loose' : List BlockId} (h : b.Consistent loose)
    (hperm : loose'.Perm loose) : b.Consistent loose' :=
  { h with owned := (hperm.append_right _).trans h.owned }

variable (declared : Declared)

/-! ## Blocks -/

/-- What adding a block does: a block comes to the end, and its implementation is registered. -/
theorem addBlock_parts (b : Builder) (kind : BlockKind) (parent : BlockParent)
    (reference : Reference) (invocation : Option String) (listIndex : Nat) :
    ∃ block entry, (b.addBlock declared kind parent reference invocation listIndex).2 =
        { b.register entry with
          names := (b.names.identify kind reference).2, blocks := b.blocks ++ [block] } ∧
      block.id = b.blocks.length ∧ entry.kind = block.kind ∧ entry.id = block.sourceId ∧
      (b.addBlock declared kind parent reference invocation listIndex).1 = b.blocks.length := by
  have hregister : ∀ (names : InlineNames) (entry : Implementation),
      ({ b with names } : Builder).register entry = { b.register entry with names } := by
    intro names entry
    rw [register, register]
    split <;> rfl
  have hblocks : ∀ entry, (b.register entry).blocks = b.blocks := by
    intro entry
    rw [register]
    split <;> rfl
  rw [addBlock]
  dsimp only
  rw [hregister]
  dsimp only
  rw [hblocks]
  exact ⟨_, _, rfl, rfl, rfl, rfl, rfl⟩

/-- Registering adds an implementation that is not there, and nothing else. -/
theorem register_eq (b : Builder) (entry : Implementation) :
    (b.register entry = b ∧ ∃ e ∈ b.implementations, e.kind = entry.kind ∧ e.id = entry.id) ∨
      b.register entry = { b with implementations := b.implementations ++ [entry] } ∧
        ∀ e ∈ b.implementations, ¬(e.kind = entry.kind ∧ e.id = entry.id) := by
  rw [register]
  split
  · next h =>
    obtain ⟨e, he, hsame⟩ := List.any_eq_true.1 h
    exact .inl ⟨rfl, e, he, by simpa using hsame⟩
  · next h =>
    refine .inr ⟨rfl, fun e he hsame => h (List.any_eq_true.2 ⟨e, he, by simpa using hsame⟩)⟩

/-- A block that is added is loose. -/
theorem Consistent.addBlock (h : b.Consistent loose) (kind : BlockKind)
    (parent : BlockParent) (reference : Reference) (invocation : Option String)
    (listIndex : Nat) :
    (b.addBlock declared kind parent reference invocation listIndex).2.Consistent
      ((b.addBlock declared kind parent reference invocation listIndex).1 :: loose) := by
  obtain ⟨block, entry, hafter, hid, hkind, hsource, hfst⟩ :=
    addBlock_parts declared b kind parent reference invocation listIndex
  rw [hafter, hfst]
  have hblockIds : (b.blocks ++ [block]).map (·.id) = List.range (b.blocks ++ [block]).length := by
    rw [List.map_append, h.blockIds, List.length_append, List.length_singleton, List.range_succ,
      List.map_singleton, hid]
  have howned : (b.blocks.length :: loose ++ b.owned).Perm
      (List.range (b.blocks ++ [block]).length) := by
    rw [List.length_append, List.length_singleton, List.range_succ, List.cons_append]
    exact (h.owned.cons _).trans (List.perm_append_singleton _ _).symm
  rcases register_eq b entry with ⟨hregister, e, he, hekind, heid⟩ | ⟨hregister, hnew⟩
  · -- The implementation is known from another block.
    rw [hregister]
    refine ⟨h.edgeIds, hblockIds, howned, h.untargeted, h.pending, fun kind' id => ?_, h.distinct⟩
    simp only [h.registered, List.mem_append, List.mem_singleton]
    constructor
    · rintro ⟨other, hother, hsame⟩
      exact ⟨other, .inl hother, hsame⟩
    · rintro ⟨other, hother | rfl, rfl, rfl⟩
      · exact ⟨other, hother, rfl, rfl⟩
      · rw [← h.registered, ← hkind, ← hsource]
        exact ⟨e, he, hekind, heid⟩
  · rw [hregister]
    refine ⟨h.edgeIds, hblockIds, howned, h.untargeted, h.pending, fun kind' id => ?_, ?_⟩
    · simp only [List.mem_append, List.mem_singleton, or_and_right, exists_or, h.registered,
        exists_eq_left, hkind, hsource]
    · rw [List.map_append, List.nodup_append]
      refine ⟨h.distinct, List.nodup_singleton _, ?_⟩
      rintro _ hmem _ hlast rfl
      obtain ⟨e, he, heq⟩ := List.mem_map.1 hmem
      rw [List.map_singleton, List.mem_singleton] at hlast
      exact hnew e he (Prod.mk.inj (heq.trans hlast))

theorem Consistent.addActions (parent : BlockParent) (actions : List (Indexed Reference))
    (h : b.Consistent loose) :
    (Builder.addActions declared parent actions b).2.Consistent
      ((Builder.addActions declared parent actions b).1 ++ loose) := by
  induction actions generalizing b loose with
  | nil => exact h
  | cons action actions ih =>
    have hadded := h.addBlock declared .action parent action.2 none action.1
    exact (ih hadded).perm List.perm_middle.symm

/-! ## Edges and nodes -/

theorem Consistent.addGuard (edge : EdgeId) (guard : Option Reference) (h : b.Consistent loose) :
    (Builder.addGuard declared edge guard b).2.Consistent
      ((Builder.addGuard declared edge guard b).1.toList ++ loose) := by
  cases guard with
  | none => exact h
  | some reference => exact h.addBlock declared .guard (.edge edge) reference none 0

/-- An edge that is added takes its blocks. -/
theorem Consistent.addEdge {edge : Edge} {pending : List Pending}
    (h : b.Consistent (edge.blockIds ++ loose)) (hid : edge.id = b.edges.length)
    (htargets : edge.targets = [])
    (hpending : pending.map (fun p => (p.edge, p.descriptor)) =
      edge.descriptors.map (edge.id, ·)) :
    ({ b with edges := b.edges ++ [edge], pending := b.pending ++ pending } :
      Builder).Consistent loose := by
  refine ⟨?_, h.blockIds, ?_, fun e he => ?_, ?_, h.registered, h.distinct⟩
  · rw [List.map_append, h.edgeIds, List.length_append, List.length_singleton, List.range_succ,
      List.map_singleton, hid]
  · refine List.Perm.trans ?_ h.owned
    rw [List.perm_iff_count]
    intro id
    simp only [Builder.owned, List.flatMap_append, List.flatMap_singleton, List.count_append]
    omega
  · rcases List.mem_append.1 he with he | he
    · exact h.untargeted e he
    · rw [List.mem_singleton.1 he, htargets]
  · rw [List.map_append, h.pending, hpending, List.flatMap_append, List.flatMap_singleton]

/-- A node that is added takes its blocks. -/
theorem Consistent.addNode {node : Node} (h : b.Consistent (node.blockIds ++ loose)) :
    ({ b with nodes := b.nodes ++ [node] } : Builder).Consistent loose := by
  refine ⟨h.edgeIds, h.blockIds, ?_, h.untargeted, h.pending, h.registered, h.distinct⟩
  refine List.Perm.trans ?_ h.owned
  rw [List.perm_iff_count]
  intro id
  simp only [Builder.owned, List.flatMap_append, List.flatMap_singleton, List.count_append]
  omega

theorem Consistent.addTransition (source : NodeId) (t : Transition) (h : b.Consistent loose) :
    (Builder.addTransition declared source b t).Consistent loose := by
  have hguard := h.addGuard declared b.edges.length t.guard
  have hactions := hguard.addActions declared (.edge b.edges.length) t.actions
  have hedges := (addActions_nodes declared (.edge b.edges.length) t.actions
    (Builder.addGuard declared b.edges.length t.guard b).2).2.trans
      (addGuard_nodes declared b.edges.length t.guard b).2
  rw [Builder.addTransition]
  refine Consistent.addEdge (hactions.perm ?_) (congrArg List.length hedges.symm) rfl ?_
  · rw [Edge.blockIds, ← List.append_assoc]
    exact List.perm_append_comm.append_right _
  · rw [List.map_map, List.map_map]
    rfl

theorem Consistent.addTransitions (source : NodeId) (ts : List Transition)
    (h : b.Consistent loose) :
    (Builder.addTransitions declared source ts b).Consistent loose := by
  induction ts generalizing b with
  | nil => exact h
  | cons t ts ih => exact ih (h.addTransition declared source t)

theorem Consistent.addActor (node : NodeId) (source : Option Reference) (invocation : String)
    (index : Nat) (h : b.Consistent loose) :
    (Builder.addActor declared node source invocation index b).2.Consistent
      ((Builder.addActor declared node source invocation index b).1 ++ loose) := by
  cases source with
  | none => exact h
  | some reference =>
    exact h.addBlock declared .actor (.node node) reference (some invocation) index

theorem Consistent.addInvocations (node : NodeId) (invocations : List Invocation)
    (h : b.Consistent loose) :
    (Builder.addInvocations declared node invocations b).2.Consistent
      ((Builder.addInvocations declared node invocations b).1 ++ loose) := by
  induction invocations generalizing b loose with
  | nil => exact h
  | cons invocation invocations ih =>
    have hactor := h.addActor declared node invocation.source invocation.id invocation.index
    have hall := ih ((hactor.addTransitions declared node invocation.done).addTransitions declared
      node invocation.failed)
    refine hall.perm ?_
    rw [← List.append_assoc]
    exact List.perm_append_comm.append_right _

/-- Adding a state leaves no loose blocks. -/
theorem Consistent.addState (parent : Option NodeId) (info : StateInfo) (h : b.Consistent loose) :
    (Builder.addState declared parent info b).Consistent loose := by
  have hentry := h.addActions declared (.node b.nodes.length) info.entry
  have hexit := hentry.addActions declared (.node b.nodes.length) info.exit
  have hinvoke := hexit.addInvocations declared b.nodes.length info.invocations
  have hall := hinvoke.addTransitions declared b.nodes.length info.transitions
  rw [Builder.addState]
  refine Consistent.addNode (hall.perm ?_)
  rw [List.perm_iff_count]
  intro id
  simp only [Node.blockIds, List.count_append]
  omega

theorem consistent_addTree (tree : StateTree) (h : b.Consistent []) :
    (addTree declared none tree b).Consistent [] :=
  (addTree_of_addState declared (P := fun b => b.Consistent [])
    (fun parent info _ h _ => h.addState declared parent info) none tree b h
    fun _ hp => nomatch hp).1

end Builder

end Statechart
