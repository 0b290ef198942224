import Statechart.Proofs.Extraction

/-!
# The blocks of a graph

While a graph is built, blocks are added at the end and what is written in place is given names.
Neither changes afterwards, so that what is known of a block when it is added holds in the end.

* `Builder.Grows`: a builder with more blocks and more names;
* `InlineNames.identify_of_within`: a name that was given is given again;
* `Builder.Lists`: handles lead to the blocks of references, in their order;
* `Builder.MadeFrom`, `Builder.MadeFromState`: an edge and a node, with their blocks, and what
  was read of them;
* `Builder.addTree_madeFrom`: all nodes and edges of a tree are made so.
-/

namespace Statechart

open Property Draft

/-! ## Names of what is written in place -/

namespace InlineNames

variable {names names' : InlineNames} {kind : String} {origin : Origin}

/-- What has a name keeps it. -/
def Within (names names' : InlineNames) : Prop :=
  ∀ node id, names.ids.lookup node = some id → names'.ids.lookup node = some id

theorem Within.refl (names : InlineNames) : names.Within names :=
  fun _ _ h => h

theorem Within.trans {names'' : InlineNames} (h : names.Within names')
    (h' : names'.Within names'') : names.Within names'' :=
  fun node id hid => h' node id (h node id hid)

/-- What is given a name has it from then on. -/
theorem lookup_assign (names : InlineNames) (kind : String) (origin : Origin) :
    (names.assign kind origin).2.ids.lookup (kind, origin) =
      some (names.assign kind origin).1 := by
  rw [assign]
  cases hlookup : names.ids.lookup (kind, origin) with
  | some id => exact hlookup
  | none => exact List.lookup_cons_self

theorem within_assign (names : InlineNames) (kind : String) (origin : Origin) :
    names.Within (names.assign kind origin).2 := by
  intro node id hid
  rw [assign]
  cases hlookup : names.ids.lookup (kind, origin) with
  | some _ => exact hid
  | none =>
    have hne : node ≠ (kind, origin) := by
      rintro rfl
      rw [hlookup] at hid
      cases hid
    dsimp only
    rw [List.lookup_cons, beq_false_of_ne hne]
    exact hid

/-- A node that has a name keeps it when names are added. -/
theorem assign_of_within (h : (names.assign kind origin).2.Within names') :
    (names'.assign kind origin).1 = (names.assign kind origin).1 := by
  rw [assign, h _ _ (lookup_assign names kind origin)]

theorem within_identify (names : InlineNames) (kind : BlockKind) (reference : Reference) :
    names.Within (names.identify kind reference).2 := by
  cases reference with
  | named => exact .refl _
  | builtin | inline => exact within_assign _ _ _

/-- A name that was given is given again, however many were given since. -/
theorem identify_of_within {kind : BlockKind} {reference : Reference}
    (h : (names.identify kind reference).2.Within names') :
    (names'.identify kind reference).1 = (names.identify kind reference).1 := by
  cases reference with
  | named => rfl
  | builtin | inline => exact assign_of_within h

end InlineNames

namespace Builder

/-! ## Growth -/

/-- A builder with more blocks and names; those that were there have their positions. -/
structure Grows (b b' : Builder) : Prop where
  blocks : b.blocks <+: b'.blocks
  names : b.names.Within b'.names

theorem Grows.refl (b : Builder) : Grows b b :=
  ⟨List.prefix_refl _, .refl _⟩

theorem Grows.trans {a b c : Builder} (hab : Grows a b) (hbc : Grows b c) : Grows a c :=
  ⟨hab.blocks.trans hbc.blocks, hab.names.trans hbc.names⟩

/-! ## Blocks -/

/-- The block with a handle is that of a reference at a position of a list. -/
def Holds (final : Builder) (kind : BlockKind) (parent : BlockParent) (entry : Indexed Reference)
    (id : BlockId) : Prop :=
  ∃ block, final.blocks[id]? = some block ∧ block.kind = kind ∧ block.parent = parent ∧
    block.listIndex = entry.1 ∧ block.sourceId = (final.names.identify kind entry.2).1

/-- Handles from some point on, the later the higher, lead to the blocks of references in their
    order. -/
structure Lists (final : Builder) (start : Nat) (kind : BlockKind) (parent : BlockParent)
    (entries : List (Indexed Reference)) (ids : List BlockId) : Prop where
  blocks : List.Forall₂ (final.Holds kind parent) entries ids
  ascending : ids.Pairwise (· < ·)
  above : ∀ id ∈ ids, start ≤ id

section

variable {final : Builder} {start : Nat} {kind : BlockKind} {parent : BlockParent}

theorem Lists.nil : final.Lists start kind parent [] [] :=
  ⟨.nil, .nil, fun _ h => absurd h List.not_mem_nil⟩

theorem Lists.cons {entry : Indexed Reference} {entries : List (Indexed Reference)}
    {ids : List BlockId} {next : Nat} (hentry : final.Holds kind parent entry start)
    (hnext : start < next) (h : final.Lists next kind parent entries ids) :
    final.Lists start kind parent (entry :: entries) (start :: ids) where
  blocks := .cons hentry h.blocks
  ascending := List.pairwise_cons.2
    ⟨fun id hid => Nat.lt_of_lt_of_le hnext (h.above id hid), h.ascending⟩
  above := by
    intro id hid
    rcases List.mem_cons.1 hid with rfl | hid
    · exact Nat.le_refl _
    · exact Nat.le_trans (Nat.le_of_lt hnext) (h.above id hid)

theorem Lists.mono {entries : List (Indexed Reference)} {ids : List BlockId} {next : Nat}
    (hnext : start ≤ next) (h : final.Lists next kind parent entries ids) :
    final.Lists start kind parent entries ids :=
  ⟨h.blocks, h.ascending, fun id hid => Nat.le_trans hnext (h.above id hid)⟩

end

variable (declared : Declared)

section

variable (b : Builder) (kind : BlockKind) (parent : BlockParent) (reference : Reference)
  (invocation : Option String) (listIndex : Nat)

theorem addBlock_eq :
    ∃ block, (b.addBlock declared kind parent reference invocation listIndex).2.blocks =
        b.blocks ++ [block] ∧ block.kind = kind ∧ block.parent = parent ∧
        block.listIndex = listIndex ∧ block.sourceId = (b.names.identify kind reference).1 := by
  simp only [addBlock]
  exact ⟨_, by rw [(register_blocks _ _).1], rfl, rfl, rfl, rfl⟩

theorem addBlock_fst :
    (b.addBlock declared kind parent reference invocation listIndex).1 = b.blocks.length := by
  simp only [addBlock, register_blocks]

theorem grows_addBlock :
    Grows b (b.addBlock declared kind parent reference invocation listIndex).2 := by
  obtain ⟨block, hblocks, -⟩ := addBlock_eq declared b kind parent reference invocation listIndex
  refine ⟨hblocks ▸ List.prefix_append _ _, ?_⟩
  rw [addBlock_names]
  exact InlineNames.within_identify _ _ _

variable {b kind parent reference invocation listIndex}

/-- A block that was added holds what it was added for. -/
theorem holds_addBlock {final : Builder}
    (h : Grows (b.addBlock declared kind parent reference invocation listIndex).2 final) :
    final.Holds kind parent (listIndex, reference) b.blocks.length := by
  obtain ⟨block, hblocks, hkind, hparent, hindex, hsource⟩ :=
    addBlock_eq declared b kind parent reference invocation listIndex
  obtain ⟨more, hmore⟩ := h.blocks
  have hnames := h.names
  rw [addBlock_names] at hnames
  refine ⟨block, ?_, hkind, hparent, hindex, ?_⟩
  · rw [← hmore, hblocks, List.append_assoc, List.getElem?_append_right (Nat.le_refl _),
      Nat.sub_self]
    rfl
  · rw [hsource, InlineNames.identify_of_within hnames]

theorem length_addBlock :
    b.blocks.length <
      (b.addBlock declared kind parent reference invocation listIndex).2.blocks.length := by
  obtain ⟨block, hblocks, -⟩ := addBlock_eq declared b kind parent reference invocation listIndex
  rw [hblocks]
  simp

end

theorem grows_addActions (parent : BlockParent) (actions : List (Indexed Reference))
    (b : Builder) : Grows b (addActions declared parent actions b).2 := by
  induction actions generalizing b with
  | nil => exact .refl b
  | cons action actions ih =>
    exact (grows_addBlock declared b .action parent action.2 none action.1).trans (ih _)

theorem lists_addActions {parent : BlockParent} {actions : List (Indexed Reference)}
    {b final : Builder} (h : Grows (addActions declared parent actions b).2 final) :
    final.Lists b.blocks.length .action parent actions
      (addActions declared parent actions b).1 := by
  induction actions generalizing b with
  | nil => exact .nil
  | cons action actions ih =>
    rw [addActions]
    dsimp only
    rw [addBlock_fst]
    have hrest : Grows (addActions declared parent actions
      (b.addBlock declared .action parent action.2 none action.1).2).2 final := h
    exact .cons (holds_addBlock declared ((grows_addActions declared parent actions _).trans hrest))
      (length_addBlock declared) (ih hrest)

/-! ## Edges -/

/-- An edge, with its blocks, of what was read of a transition. -/
structure MadeFrom (final : Builder) (source : NodeId) (transition : Transition) (edge : Edge) :
    Prop where
  source : edge.source = source
  path : edge.path = transition.path
  descriptors : edge.descriptors = transition.descriptors
  span : edge.span = transition.span
  internal : edge.internal = transition.internal
  guard : final.Lists 0 .guard (.edge edge.id) (transition.guard.toList.map (0, ·))
    edge.guard.toList
  actions : final.Lists 0 .action (.edge edge.id) transition.actions edge.actions

theorem grows_addGuard (edge : EdgeId) (guard : Option Reference) (b : Builder) :
    Grows b (addGuard declared edge guard b).2 := by
  cases guard with
  | none => exact .refl b
  | some reference => exact grows_addBlock declared b .guard (.edge edge) reference none 0

theorem lists_addGuard {edge : EdgeId} {guard : Option Reference} {b final : Builder}
    (h : Grows (addGuard declared edge guard b).2 final) :
    final.Lists b.blocks.length .guard (.edge edge) (guard.toList.map (0, ·))
      (addGuard declared edge guard b).1.toList := by
  cases guard with
  | none => exact .nil
  | some reference =>
    have hadded : Grows (b.addBlock declared .guard (.edge edge) reference none 0).2 final := h
    rw [addGuard]
    dsimp only
    rw [addBlock_fst]
    exact .cons (holds_addBlock declared hadded) (Nat.lt_succ_self _) .nil

/-- Adding a transition makes an edge of it. -/
theorem addTransition_spec (source : NodeId) (b : Builder) (t : Transition) :
    Grows b (addTransition declared source b t) ∧
      ∃ edge, (addTransition declared source b t).edges = b.edges ++ [edge] ∧
        ∀ final, Grows (addTransition declared source b t) final →
          final.MadeFrom source t edge := by
  have hguard := grows_addGuard declared b.edges.length t.guard b
  have hedges := (addGuard_nodes declared b.edges.length t.guard b).2
  have hlist : ∀ final, Grows (addGuard declared b.edges.length t.guard b).2 final →
      final.Lists b.blocks.length .guard (.edge b.edges.length) (t.guard.toList.map (0, ·))
        (addGuard declared b.edges.length t.guard b).1.toList := fun _ => lists_addGuard declared
  rw [addTransition]
  generalize addGuard declared b.edges.length t.guard b = next at hguard hedges hlist ⊢
  have hactions := grows_addActions declared (.edge b.edges.length) t.actions next.2
  have hedges' := (addActions_nodes declared (.edge b.edges.length) t.actions next.2).2
  dsimp only
  refine ⟨⟨(hguard.trans hactions).blocks, (hguard.trans hactions).names⟩, _,
    by rw [hedges', hedges], fun final h => ?_⟩
  have hfinal : Grows (addActions declared (.edge b.edges.length) t.actions next.2).2 final :=
    ⟨h.blocks, h.names⟩
  exact ⟨rfl, rfl, rfl, rfl, rfl, (hlist final (hactions.trans hfinal)).mono (Nat.zero_le _),
    (lists_addActions declared hfinal).mono (Nat.zero_le _)⟩

theorem addTransitions_spec (source : NodeId) (ts : List Transition) (b : Builder) :
    Grows b (addTransitions declared source ts b) ∧
      ∃ edges, (addTransitions declared source ts b).edges = b.edges ++ edges ∧
        ∀ final, Grows (addTransitions declared source ts b) final →
          List.Forall₂ (final.MadeFrom source) ts edges := by
  induction ts generalizing b with
  | nil => exact ⟨.refl b, [], (List.append_nil _).symm, fun _ _ => .nil⟩
  | cons t ts ih =>
    obtain ⟨hgrows, edge, hedge, hmade⟩ := addTransition_spec declared source b t
    obtain ⟨hgrows', edges, hedges, hall⟩ := ih (addTransition declared source b t)
    refine ⟨hgrows.trans hgrows', edge :: edges, hedges.trans ?_, fun final h => ?_⟩
    · rw [hedge, List.append_assoc]
      rfl
    · exact .cons (hmade final (hgrows'.trans h)) (hall final h)

/-- The sources of invocations, with the positions of these. -/
def invoked (invocations : List Invocation) : List (Indexed Reference) :=
  invocations.filterMap fun invocation => invocation.source.map (invocation.index, ·)

theorem invoked_cons (invocation : Invocation) (invocations : List Invocation) :
    invoked (invocation :: invocations) =
      invocation.source.toList.map (invocation.index, ·) ++ invoked invocations := by
  rw [invoked, List.filterMap_cons]
  cases invocation.source <;> rfl

theorem grows_addActor (node : NodeId) (source : Option Reference) (invocation : String)
    (index : Nat) (b : Builder) : Grows b (addActor declared node source invocation index b).2 := by
  cases source with
  | none => exact .refl b
  | some reference =>
    exact grows_addBlock declared b .actor (.node node) reference (some invocation) index

/-- The block of an invocation is put before those of later ones. -/
theorem lists_addActor {node : NodeId} {source : Option Reference} {invocation : String}
    {index : Nat} {b final : Builder} {next : Nat} {entries : List (Indexed Reference)}
    {ids : List BlockId} (h : Grows (addActor declared node source invocation index b).2 final)
    (hnext : (addActor declared node source invocation index b).2.blocks.length ≤ next)
    (hids : final.Lists next .actor (.node node) entries ids) :
    final.Lists b.blocks.length .actor (.node node) (source.toList.map (index, ·) ++ entries)
      ((addActor declared node source invocation index b).1 ++ ids) := by
  cases source with
  | none => exact hids.mono hnext
  | some reference =>
    have hadded : Grows (b.addBlock declared .actor (.node node) reference (some invocation)
      index).2 final := h
    have hlength : b.blocks.length < (b.addBlock declared .actor (.node node) reference
      (some invocation) index).2.blocks.length := length_addBlock declared
    rw [addActor]
    dsimp only
    rw [addBlock_fst]
    exact .cons (holds_addBlock declared hadded) (Nat.lt_of_lt_of_le hlength hnext) hids

/-- Adding invocations lists their blocks, and makes edges of their transitions. -/
theorem addInvocations_spec (source : NodeId) (invocations : List Invocation) (b : Builder) :
    Grows b (addInvocations declared source invocations b).2 ∧
      ∃ edges, (addInvocations declared source invocations b).2.edges = b.edges ++ edges ∧
        ∀ final, Grows (addInvocations declared source invocations b).2 final →
          final.Lists b.blocks.length .actor (.node source) (invoked invocations)
            (addInvocations declared source invocations b).1 ∧
          List.Forall₂ (final.MadeFrom source) (invocations.flatMap Invocation.transitions)
            edges := by
  induction invocations generalizing b with
  | nil => exact ⟨.refl b, [], (List.append_nil _).symm, fun _ _ => ⟨.nil, .nil⟩⟩
  | cons invocation invocations ih =>
    have hactor :=
      grows_addActor declared source invocation.source invocation.id invocation.index b
    have hedges :=
      (addActor_nodes declared source invocation.source invocation.id invocation.index b).2
    have hlist := fun final next entries ids => @lists_addActor declared source invocation.source
      invocation.id invocation.index b final next entries ids
    rw [addInvocations]
    generalize addActor declared source invocation.source invocation.id invocation.index b = actor
      at hactor hedges hlist ⊢
    -- The transitions of the invocation and the other invocations follow its own block, if any.
    obtain ⟨hgrows₁, edges₁, hedges₁, hmade₁⟩ :=
      addTransitions_spec declared source invocation.done actor.2
    obtain ⟨hgrows₂, edges₂, hedges₂, hmade₂⟩ :=
      addTransitions_spec declared source invocation.failed
        (addTransitions declared source invocation.done actor.2)
    obtain ⟨hgrows₃, edges₃, hedges₃, hmade₃⟩ := ih (addTransitions declared source
      invocation.failed (addTransitions declared source invocation.done actor.2))
    have hown := hgrows₁.trans hgrows₂
    refine ⟨hactor.trans (hown.trans hgrows₃), edges₁ ++ edges₂ ++ edges₃, ?_,
      fun final h => ⟨?_, ?_⟩⟩
    · dsimp only
      rw [hedges₃, hedges₂, hedges₁, hedges]
      simp only [List.append_assoc]
    · rw [invoked_cons]
      exact hlist final _ _ _ (hown.trans (hgrows₃.trans h)) hown.blocks.length_le
        (hmade₃ final h).1
    · rw [List.flatMap_cons]
      have hafter := hgrows₃.trans h
      exact List.rel_append (List.rel_append (hmade₁ final (hgrows₂.trans hafter))
        (hmade₂ final hafter)) (hmade₃ final h).2

/-! ## Nodes -/

/-- A node, with its blocks, of what was read of a state. -/
structure MadeFromState (final : Builder) (info : StateInfo) (node : Node) : Prop where
  path : node.path = info.path
  entry : final.Lists 0 .action (.node node.id) info.entry node.entry
  exit : final.Lists 0 .action (.node node.id) info.exit node.exit
  invoke : final.Lists 0 .actor (.node node.id) (invoked info.invocations) node.invoke

/-- What was read of the transitions of states, by the handles of these. -/
def transitionsFrom (start : Nat) (infos : List StateInfo) : List (NodeId × Transition) :=
  (infos.zipIdx start).flatMap fun (info, id) => info.allTransitions.map (id, ·)

/-- What a builder has become by adding states: nodes and edges were put behind those that it
    had, and are made from what was read. -/
structure Adds (b b' : Builder) (infos : List StateInfo) : Prop where
  grows : Grows b b'
  nodes : ∃ nodes, b'.nodes = b.nodes ++ nodes ∧
    ∀ final, Grows b' final → List.Forall₂ final.MadeFromState infos nodes
  edges : ∃ edges, b'.edges = b.edges ++ edges ∧
    ∀ final, Grows b' final → List.Forall₂ (fun (source, t) => final.MadeFrom source t)
      (transitionsFrom b.nodes.length infos) edges

theorem Adds.nil (b : Builder) : Adds b b [] :=
  ⟨.refl b, ⟨[], (List.append_nil _).symm, fun _ _ => .nil⟩,
    ⟨[], (List.append_nil _).symm, fun _ _ => .nil⟩⟩

theorem Adds.append {a b c : Builder} {infos more : List StateInfo} (hab : Adds a b infos)
    (hbc : Adds b c more) : Adds a c (infos ++ more) := by
  obtain ⟨nodes, hnodes, hmade⟩ := hab.nodes
  obtain ⟨nodes', hnodes', hmade'⟩ := hbc.nodes
  obtain ⟨edges, hedges, hall⟩ := hab.edges
  obtain ⟨edges', hedges', hall'⟩ := hbc.edges
  have hlength : b.nodes.length = a.nodes.length + infos.length := by
    rw [hnodes, List.length_append, (hmade b (.refl b)).length_eq]
  have hsplit : transitionsFrom a.nodes.length (infos ++ more) =
      transitionsFrom a.nodes.length infos ++ transitionsFrom b.nodes.length more := by
    rw [transitionsFrom, List.zipIdx_append, List.flatMap_append, hlength]
    rfl
  refine ⟨hab.grows.trans hbc.grows, ⟨nodes ++ nodes', ?_, fun final h => ?_⟩,
    ⟨edges ++ edges', ?_, fun final h => ?_⟩⟩
  · rw [hnodes', hnodes, List.append_assoc]
  · exact List.rel_append (hmade final (hbc.grows.trans h)) (hmade' final h)
  · rw [hedges', hedges, List.append_assoc]
  · rw [hsplit]
    exact List.rel_append (hall final (hbc.grows.trans h)) (hall' final h)

/-- Adding a state makes a node and edges of what was read of it. -/
theorem addState_adds (parent : Option NodeId) (info : StateInfo) (b : Builder) :
    Adds b (addState declared parent info b) [info] := by
  have hnodes := (addState_nodes declared parent info b).1
  rw [addState] at hnodes ⊢
  dsimp only at hnodes ⊢
  -- The builder after each part of the state.
  have hentry := grows_addActions declared (.node b.nodes.length) info.entry b
  have hedges := (addActions_nodes declared (.node b.nodes.length) info.entry b).2
  generalize he : addActions declared (.node b.nodes.length) info.entry b = entry at *
  have hexit := grows_addActions declared (.node b.nodes.length) info.exit entry.2
  have hedges₁ := (addActions_nodes declared (.node b.nodes.length) info.exit entry.2).2
  generalize hx : addActions declared (.node b.nodes.length) info.exit entry.2 = exit at *
  obtain ⟨hinvoke, edges₂, hedges₂, hmade₂⟩ :=
    addInvocations_spec declared b.nodes.length info.invocations exit.2
  generalize addInvocations declared b.nodes.length info.invocations exit.2 = invoke at *
  obtain ⟨hrest, edges₃, hedges₃, hmade₃⟩ :=
    addTransitions_spec declared b.nodes.length info.transitions invoke.2
  generalize addTransitions declared b.nodes.length info.transitions invoke.2 = rest at *
  have hgrows := hentry.trans (hexit.trans (hinvoke.trans hrest))
  obtain ⟨node, hnode, -⟩ := hnodes
  have hsame : rest.nodes = b.nodes := (List.append_inj' hnode rfl).1
  refine ⟨⟨hgrows.blocks, hgrows.names⟩, ⟨_, by rw [hsame], fun final h => ?_⟩,
    ⟨edges₂ ++ edges₃, ?_, fun final h => ?_⟩⟩
  · have hfinal : Grows rest final := ⟨h.blocks, h.names⟩
    have hafter := hinvoke.trans (hrest.trans hfinal)
    refine .cons ⟨rfl, ?_, ?_, ?_⟩ .nil
    · subst he
      exact (lists_addActions declared (hexit.trans hafter)).mono (Nat.zero_le _)
    · subst hx
      exact (lists_addActions declared hafter).mono (Nat.zero_le _)
    · exact (hmade₂ final (hrest.trans hfinal)).1.mono (Nat.zero_le _)
  · rw [hedges₃, hedges₂, hedges₁, hedges, List.append_assoc]
  · have hfinal : Grows rest final := ⟨h.blocks, h.names⟩
    have htransitions : transitionsFrom b.nodes.length [info] =
        info.allTransitions.map (b.nodes.length, ·) := List.append_nil _
    rw [htransitions, StateInfo.allTransitions, List.forall₂_map_left_iff]
    exact List.rel_append (hmade₂ final (hrest.trans hfinal)).2 (hmade₃ final hfinal)

mutual

theorem addTree_adds (parent : Option NodeId) : ∀ (tree : StateTree) (b : Builder),
    Adds b (addTree declared parent tree b) tree.infos
  | .node info children, b => by
    rw [addTree, StateTree.infos]
    exact (addState_adds declared parent info b).append (addTrees_adds _ children _)

theorem addTrees_adds (parent : NodeId) : ∀ (trees : List StateTree) (b : Builder),
    Adds b (addTrees declared parent trees b) (StateTree.infosOf trees)
  | [], b => .nil b
  | tree :: rest, b => by
    rw [addTrees, StateTree.infosOf]
    exact (addTree_adds (some parent) tree b).append (addTrees_adds parent rest _)

end

end Builder

end Statechart
