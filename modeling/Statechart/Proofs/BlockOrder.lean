import Statechart.Proofs.BlocksBuilt

/-!
# The order of blocks

The references that were read of a machine have an order: that of the states, parents first; in a
state the actions on entry and on exit, the invocations, each with the transitions that follow its
end, and the other transitions; in a transition the guard and the actions. Blocks are added in this
order, one for each reference, so that the handle of a block is the position of its reference.

* `Transition.references`, `Invocation.references`, `StateInfo.references`: what is referred to;
* `InlineNames.after`: the names when references have been identified one after the other;
* `Builder.Gains`: a builder that has a block for each of some references more, and the nodes and
  edges of what they were read from;
* `Builder.addTree_gains`: adding a tree gives a block for each of its references.
-/

namespace Statechart

/-! ## References in their order -/

/-- What a transition refers to. -/
def Transition.references (transition : Transition) : List (BlockKind × Reference) :=
  transition.guard.toList.map (.guard, ·) ++
    transition.actions.map fun action => (.action, action.2)

/-- What an invocation and the transitions that follow its end refer to. -/
def Invocation.references (invocation : Invocation) : List (BlockKind × Reference) :=
  invocation.source.toList.map (.actor, ·) ++
    invocation.transitions.flatMap Transition.references

/-- What a state refers to. -/
def StateInfo.references (info : StateInfo) : List (BlockKind × Reference) :=
  info.entry.map (fun action => (.action, action.2)) ++
    (info.exit.map (fun action => (.action, action.2)) ++
      (info.invocations.flatMap Invocation.references ++
        info.transitions.flatMap Transition.references))

/-- The names when some more references have been identified. -/
def InlineNames.after (names : InlineNames) (references : List (BlockKind × Reference)) :
    InlineNames :=
  references.foldl (fun names (kind, reference) => (names.identify kind reference).2) names

theorem InlineNames.after_append (names : InlineNames)
    (references more : List (BlockKind × Reference)) :
    names.after (references ++ more) = (names.after references).after more :=
  List.foldl_append

/-! ## Handles and positions -/

/-- The references of a part stand among all references from a position on. -/
def ReferencesAt (all : List (BlockKind × Reference)) (start : Nat)
    (part : List (BlockKind × Reference)) : Prop :=
  part <+: all.drop start

section

variable {all part rest : List (BlockKind × Reference)} {start : Nat}

theorem ReferencesAt.left (h : ReferencesAt all start (part ++ rest)) :
    ReferencesAt all start part :=
  (List.prefix_append part rest).trans h

theorem ReferencesAt.right (h : ReferencesAt all start (part ++ rest)) :
    ReferencesAt all (start + part.length) rest := by
  obtain ⟨more, h⟩ := h
  rw [ReferencesAt, ← List.drop_drop, ← h, List.append_assoc, List.drop_left]
  exact List.prefix_append rest more

theorem ReferencesAt.head {reference : BlockKind × Reference}
    (h : ReferencesAt all start (reference :: rest)) : all[start]? = some reference := by
  obtain ⟨more, h⟩ := h
  have hhead := congrArg (·[0]?) h
  simpa [List.getElem?_drop] using hhead.symm

end

/-- The handles are the positions of the references of a list. -/
def Positions (all : List (BlockKind × Reference)) (kind : BlockKind)
    (entries : List (Indexed Reference)) (ids : List BlockId) : Prop :=
  List.Forall₂ (fun entry id => all[id]? = some (kind, entry.2)) entries ids

/-- The handles of an edge are the positions of the references of a transition. -/
structure PlacesEdge (all : List (BlockKind × Reference)) (transition : Transition) (edge : Edge) :
    Prop where
  guard : Positions all .guard (transition.guard.toList.map (0, ·)) edge.guard.toList
  actions : Positions all .action transition.actions edge.actions

/-- The handles of a node are the positions of the references of a state. -/
structure PlacesNode (all : List (BlockKind × Reference)) (info : StateInfo) (node : Node) :
    Prop where
  entry : Positions all .action info.entry node.entry
  exit : Positions all .action info.exit node.exit
  invoke : Positions all .actor (Builder.invoked info.invocations) node.invoke

namespace Builder

variable (declared : Declared)

/-- A builder with a block for each of some references more. Where these stand among all
    references, the handles in the new nodes and edges are positions. -/
structure Gains (b b' : Builder) (references : List (BlockKind × Reference))
    (infos : List StateInfo) (ts : List Transition) : Prop where
  length : b'.blocks.length = b.blocks.length + references.length
  names : b'.names = b.names.after references
  nodes : ∃ nodes, b'.nodes = b.nodes ++ nodes ∧
    ∀ all, ReferencesAt all b.blocks.length references →
      List.Forall₂ (PlacesNode all) infos nodes
  edges : ∃ edges, b'.edges = b.edges ++ edges ∧
    ∀ all, ReferencesAt all b.blocks.length references → List.Forall₂ (PlacesEdge all) ts edges

theorem Gains.refl (b : Builder) : Gains b b [] [] [] :=
  ⟨rfl, rfl, ⟨[], (List.append_nil _).symm, fun _ _ => .nil⟩,
    ⟨[], (List.append_nil _).symm, fun _ _ => .nil⟩⟩

section

variable {a b c : Builder} {references more : List (BlockKind × Reference)}
  {infos infos' : List StateInfo} {ts ts' : List Transition}

theorem Gains.append (hab : Gains a b references infos ts) (hbc : Gains b c more infos' ts') :
    Gains a c (references ++ more) (infos ++ infos') (ts ++ ts') := by
  obtain ⟨nodes, hnodes, hplaced⟩ := hab.nodes
  obtain ⟨nodes', hnodes', hplaced'⟩ := hbc.nodes
  obtain ⟨edges, hedges, hall⟩ := hab.edges
  obtain ⟨edges', hedges', hall'⟩ := hbc.edges
  rw [hab.length] at hplaced' hall'
  refine ⟨?_, ?_, ⟨nodes ++ nodes', ?_, fun all h => ?_⟩, ⟨edges ++ edges', ?_, fun all h => ?_⟩⟩
  · rw [hbc.length, hab.length, List.length_append, Nat.add_assoc]
  · rw [hbc.names, hab.names, InlineNames.after_append]
  · rw [hnodes', hnodes, List.append_assoc]
  · exact List.rel_append (hplaced all h.left) (hplaced' all h.right)
  · rw [hedges', hedges, List.append_assoc]
  · exact List.rel_append (hall all h.left) (hall' all h.right)

end

/-! ## Blocks -/

theorem gains_addBlock (b : Builder) (kind : BlockKind) (parent : BlockParent)
    (reference : Reference) (invocation : Option String) (listIndex : Nat) :
    Gains b (b.addBlock declared kind parent reference invocation listIndex).2
      [(kind, reference)] [] [] := by
  obtain ⟨block, hblocks, -⟩ := addBlock_eq declared b kind parent reference invocation listIndex
  obtain ⟨hnodes, hedges⟩ := addBlock_nodes declared b kind parent reference invocation listIndex
  refine ⟨?_, addBlock_names declared b kind parent reference invocation listIndex,
    ⟨[], by rw [hnodes, List.append_nil], fun _ _ => .nil⟩,
    ⟨[], by rw [hedges, List.append_nil], fun _ _ => .nil⟩⟩
  rw [hblocks, List.length_append]
  rfl

theorem gains_addActions (parent : BlockParent) (actions : List (Indexed Reference))
    (b : Builder) : Gains b (addActions declared parent actions b).2
      (actions.map fun action => (.action, action.2)) [] [] := by
  induction actions generalizing b with
  | nil => exact .refl b
  | cons action actions ih =>
    exact (gains_addBlock declared b .action parent action.2 none action.1).append (ih _)

theorem positions_addActions {all : List (BlockKind × Reference)} (parent : BlockParent)
    {actions : List (Indexed Reference)} {b : Builder}
    (h : ReferencesAt all b.blocks.length (actions.map fun action => (.action, action.2))) :
    Positions all .action actions (addActions declared parent actions b).1 := by
  induction actions generalizing b with
  | nil => exact .nil
  | cons action actions ih =>
    have hblock := gains_addBlock declared b .action parent action.2 none action.1
    rw [addActions]
    dsimp only
    rw [addBlock_fst]
    have hrest : ReferencesAt all b.blocks.length ([(.action, action.2)] ++
      actions.map fun action => (.action, action.2)) := h
    refine .cons h.head (ih ?_)
    rw [hblock.length]
    exact hrest.right

/-! ## Edges -/

theorem gains_addGuard (edge : EdgeId) (guard : Option Reference) (b : Builder) :
    Gains b (addGuard declared edge guard b).2 (guard.toList.map (.guard, ·)) [] [] ∧
      ∀ all, ReferencesAt all b.blocks.length (guard.toList.map (.guard, ·)) →
        Positions all .guard (guard.toList.map (0, ·))
          (addGuard declared edge guard b).1.toList := by
  cases guard with
  | none => exact ⟨.refl b, fun _ _ => .nil⟩
  | some reference =>
    refine ⟨gains_addBlock declared b .guard (.edge edge) reference none 0, fun all h => ?_⟩
    rw [addGuard]
    dsimp only
    rw [addBlock_fst]
    exact .cons h.head .nil

/-- Adding a transition gives a block for its guard and for each of its actions. -/
theorem gains_addTransition (source : NodeId) (b : Builder) (t : Transition) :
    Gains b (addTransition declared source b t) t.references [] [t] := by
  obtain ⟨hguard, hposition⟩ := gains_addGuard declared b.edges.length t.guard b
  have hedges := (addGuard_nodes declared b.edges.length t.guard b).2
  rw [addTransition]
  generalize addGuard declared b.edges.length t.guard b = next at *
  have hactions := gains_addActions declared (.edge b.edges.length) t.actions next.2
  have hedges' := (addActions_nodes declared (.edge b.edges.length) t.actions next.2).2
  have hgains := hguard.append hactions
  dsimp only
  refine ⟨hgains.length, hgains.names, hgains.nodes, _, by rw [hedges', hedges], fun all h => ?_⟩
  refine .cons ⟨hposition all h.left, positions_addActions declared _ ?_⟩ .nil
  rw [hguard.length]
  exact h.right

theorem gains_addTransitions (source : NodeId) (ts : List Transition) (b : Builder) :
    Gains b (addTransitions declared source ts b) (ts.flatMap Transition.references) [] ts := by
  induction ts generalizing b with
  | nil => exact .refl b
  | cons t ts ih => exact (gains_addTransition declared source b t).append (ih _)

theorem gains_addActor (node : NodeId) (source : Option Reference) (invocation : String)
    (index : Nat) (b : Builder) :
    Gains b (addActor declared node source invocation index b).2 (source.toList.map (.actor, ·))
        [] [] ∧
      ∀ all, ReferencesAt all b.blocks.length (source.toList.map (.actor, ·)) →
        Positions all .actor (source.toList.map (index, ·))
          (addActor declared node source invocation index b).1 := by
  cases source with
  | none => exact ⟨.refl b, fun _ _ => .nil⟩
  | some reference =>
    refine ⟨gains_addBlock declared b .actor (.node node) reference (some invocation) index,
      fun all h => ?_⟩
    rw [addActor]
    dsimp only
    rw [addBlock_fst]
    exact .cons h.head .nil

/-- Adding invocations gives a block for each source, and those of the transitions behind it. -/
theorem gains_addInvocations (source : NodeId) (invocations : List Invocation) (b : Builder) :
    Gains b (addInvocations declared source invocations b).2
        (invocations.flatMap Invocation.references) []
        (invocations.flatMap Invocation.transitions) ∧
      ∀ all, ReferencesAt all b.blocks.length (invocations.flatMap Invocation.references) →
        Positions all .actor (invoked invocations)
          (addInvocations declared source invocations b).1 := by
  induction invocations generalizing b with
  | nil => exact ⟨.refl b, fun _ _ => .nil⟩
  | cons invocation invocations ih =>
    obtain ⟨hactor, hposition⟩ :=
      gains_addActor declared source invocation.source invocation.id invocation.index b
    rw [List.flatMap_cons, List.flatMap_cons, invoked_cons, addInvocations]
    generalize addActor declared source invocation.source invocation.id invocation.index b = actor
      at *
    -- The transitions that follow the end come behind the block of the invocation, if any.
    have hends := (gains_addTransitions declared source invocation.done actor.2).append
      (gains_addTransitions declared source invocation.failed _)
    rw [← List.flatMap_append, List.nil_append] at hends
    have hfirst := hactor.append hends
    obtain ⟨hrest, hpositions⟩ := ih (addTransitions declared source invocation.failed
      (addTransitions declared source invocation.done actor.2))
    refine ⟨hfirst.append hrest, fun all h => ?_⟩
    refine List.rel_append (hposition all h.left.left) (hpositions all ?_)
    rw [hfirst.length]
    exact h.right

/-! ## Nodes -/

/-- Adding a state gives a block for each of its references. -/
theorem gains_addState (parent : Option NodeId) (info : StateInfo) (b : Builder) :
    Gains b (addState declared parent info b) info.references [info] info.allTransitions := by
  have hnodes := (addState_nodes declared parent info b).1
  rw [addState] at hnodes ⊢
  dsimp only at hnodes ⊢
  -- The builder after each part of the state.
  have hentry := gains_addActions declared (.node b.nodes.length) info.entry b
  generalize he : addActions declared (.node b.nodes.length) info.entry b = entry at *
  have hexit := gains_addActions declared (.node b.nodes.length) info.exit entry.2
  generalize hx : addActions declared (.node b.nodes.length) info.exit entry.2 = exit at *
  obtain ⟨hinvoke, hinvoked⟩ :=
    gains_addInvocations declared b.nodes.length info.invocations exit.2
  generalize addInvocations declared b.nodes.length info.invocations exit.2 = invoke at *
  have hrest :=
    gains_addTransitions declared b.nodes.length info.transitions invoke.2
  generalize addTransitions declared b.nodes.length info.transitions invoke.2 = rest at *
  have hgains := hentry.append (hexit.append (hinvoke.append hrest))
  obtain ⟨node, hnode, -⟩ := hnodes
  have hsame : rest.nodes = b.nodes := (List.append_inj' hnode rfl).1
  refine ⟨hgains.length, hgains.names, ⟨_, by rw [hsame], fun all h => ?_⟩, hgains.edges⟩
  refine .cons ⟨?_, ?_, ?_⟩ .nil
  · subst he
    exact positions_addActions declared _ h.left
  · subst hx
    refine positions_addActions declared _ ?_
    rw [hentry.length]
    exact h.right.left
  · refine hinvoked all ?_
    rw [hexit.length, hentry.length]
    exact h.right.right.left

mutual

/-- Adding a tree gives a block for each of its references. -/
theorem addTree_gains (parent : Option NodeId) : ∀ (tree : StateTree) (b : Builder),
    Gains b (addTree declared parent tree b) (tree.infos.flatMap StateInfo.references) tree.infos
      (tree.infos.flatMap StateInfo.allTransitions)
  | .node info children, b => by
    rw [addTree, StateTree.infos, List.flatMap_cons, List.flatMap_cons]
    exact (gains_addState declared parent info b).append (addTrees_gains _ children _)

theorem addTrees_gains (parent : NodeId) : ∀ (trees : List StateTree) (b : Builder),
    Gains b (addTrees declared parent trees b)
      ((StateTree.infosOf trees).flatMap StateInfo.references) (StateTree.infosOf trees)
      ((StateTree.infosOf trees).flatMap StateInfo.allTransitions)
  | [], b => .refl b
  | tree :: rest, b => by
    rw [addTrees, StateTree.infosOf, List.flatMap_append, List.flatMap_append]
    exact (addTree_gains (some parent) tree b).append (addTrees_gains parent rest _)

end

end Builder

end Statechart
