import Statechart.Proofs.BuilderInvariant
import Statechart.Proofs.NamedReferences

/-!
# The steps of a walk

A walk reads and adds at the same time, and what it has added is there to be changed: a node is
begun before its parts are known, and the names of a list are drawn before any of its blocks is
added. Each part of a state that is walked over is told as what is read of it and what a builder
adds for that.

* `Walk.fill`: a walk that has found what a builder has;
* `addItems_fill`: a list that is named as a whole has the names that its blocks would draw one by
  one;
* `addTransition_fill`, `addInvocations_fill`: a transition, and the invocations of a state;
* `addParts_fill`: all that a state holds but for the states below it.
-/

namespace Statechart

open Property

/-- The walk with what a builder has found. The nodes with their index, and the `id` of the root,
    are those of the walk. -/
def Walk.fill (frame : Walk) (b : Builder) (problems : List Problem) : Walk :=
  { frame with names := b.names, edges := b.edges, blocks := b.blocks,
               implementations := b.implementations, pending := b.pending, problems }

namespace Walk

variable (declared : Declared) (frame : Walk) (b : Builder) (problems : List Problem)

theorem report_fill (more : List Problem) :
    (frame.fill b problems).report more = frame.fill b (problems ++ more) := rfl

theorem read_fill {kind : BlockKind} {parser : Parser Identified} {shape : Shape Reference}
    (h : Parser.Names kind parser shape) (expr : Expr) :
    (frame.fill b problems).read parser expr =
      let (value, names) := b.names.identify? kind (shape.value? expr)
      (value, frame.fill { b with names } problems) := by
  rw [read]
  dsimp only [fill]
  rw [h.value?]

/-! ## Blocks -/

/-- A block that is added with its name, whatever names were drawn in the meantime. -/
theorem addBlock_fill (names : InlineNames) (kind : BlockKind) (parent : BlockParent)
    (reference : Reference) (invocation : Option String) (listIndex : Nat) :
    (frame.fill { b with names } problems).addBlock declared kind parent
        ⟨reference, (b.names.identify kind reference).1⟩ invocation listIndex =
      ((b.addBlock declared kind parent reference invocation listIndex).1,
        frame.fill { (b.addBlock declared kind parent reference invocation listIndex).2 with names }
          problems) := by
  have hregister : ∀ (drawn : InlineNames) (entry : Implementation),
      (frame.fill { b with names } problems).register entry =
        frame.fill { ({ b with names := drawn } : Builder).register entry with names }
          problems := by
    intro drawn entry
    by_cases hany : (b.implementations.any fun e => e.kind == entry.kind && e.id == entry.id) = true
    · simp only [register, Builder.register, fill, hany, if_true]
    · simp only [register, Builder.register, fill, hany, if_false, Bool.false_eq_true]
  rw [addBlock, Builder.addBlock]
  dsimp only
  rw [hregister (b.names.identify kind reference).2]
  rfl

/-! ## Lists of actions -/

theorem names_addActions (parent : BlockParent) (items : List (Expr × Option Reference)) (k : Nat)
    (b : Builder) :
    (Builder.addActions declared parent
        ((items.zipIdx k).filterMap fun ((_, value), index) => value.map (index, ·)) b).2.names =
      (b.names.identifyItems .action items).2 := by
  induction items generalizing k b with
  | nil => rfl
  | cons item items ih =>
    obtain ⟨expr, _ | reference⟩ := item
    · exact ih (k + 1) b
    · have hrest := ih (k + 1) (b.addBlock declared .action parent reference none k).2
      rwa [Builder.addBlock_names] at hrest

/-- The names of a list are drawn before its blocks are added, and are those that the blocks would
    draw one by one. -/
theorem addItems_fill (names : InlineNames) (parent : BlockParent) (problem : Expr → Problem)
    (items : List (Expr × Option Reference)) (k : Nat) (b : Builder) (problems : List Problem) :
    addItems declared parent problem ((b.names.identifyItems .action items).1.zipIdx k)
        (frame.fill { b with names } problems) =
      let actions := (items.zipIdx k).filterMap fun ((_, value), index) => value.map (index, ·)
      let added := Builder.addActions declared parent actions b
      (added.1, frame.fill { added.2 with names } (problems ++ items.filterMap fun (expr, value) =>
        if value.isSome then none else some (problem expr))) := by
  induction items generalizing k b problems with
  | nil => simp [InlineNames.identifyItems, addItems, Builder.addActions]
  | cons item items ih =>
    obtain ⟨expr, _ | reference⟩ := item
    · dsimp only [InlineNames.identifyItems, InlineNames.identify?, List.zipIdx_cons, addItems]
      rw [report_fill, ih]
      simp
    · dsimp only [InlineNames.identifyItems, InlineNames.identify?, List.zipIdx_cons, addItems]
      rw [addBlock_fill, ← Builder.addBlock_names declared b .action parent reference none k]
      dsimp only
      rw [ih]
      simp [Builder.addActions]

/-- A list of actions is read and added. -/
theorem addActions_fill (parent : BlockParent) (path : StatePath) (property : String)
    (expr : Expr) :
    (frame.fill b problems).addActions declared parent path property expr =
      let (actions, more) := readActions parent.problemKind path property expr
      let (ids, b') := Builder.addActions declared parent actions b
      (ids, frame.fill b' (problems ++ more)) := by
  obtain ⟨many, hmany⟩ : ∃ many, (Reference.shape .action).oneOrMany.read? expr = some many := by
    rw [Shape.oneOrMany]
    dsimp only
    cases expr.items? <;> exact ⟨_, rfl⟩
  have hparse := (Reference.names_parser .action).oneOrMany hmany b.names
  have hadd := addItems_fill declared frame (b.names.identifyItems .action many.items).2 parent
    (fun item =>
      { kind := parent.problemKind, path, property := some property, span := item.span })
    many.items 0 b problems
  rw [addActions, read]
  dsimp only [fill] at hadd ⊢
  rw [hparse]
  dsimp only
  rw [hadd, readActions, readOneOrMany, hmany, ← names_addActions declared parent many.items 0 b]
  rfl

/-! ## Transitions -/

theorem addGuard_fill (path : StatePath) (edge : EdgeId) (prop : Option Property) :
    (frame.fill b problems).addGuard declared path edge prop =
      let (guard, more) := readProperty .transitionProperty path
        ((prop.bind PropertyOf.name).getD "guard") (Reference.shape .guard).value? prop
      let (id, b') := b.addGuard declared edge guard
      (id, frame.fill b' (problems ++ more)) := by
  cases prop with
  | none => simp only [addGuard, readProperty, Builder.addGuard, List.append_nil]
  | some prop =>
    simp only [addGuard, read_fill _ _ _ (Reference.names_parser .guard), readProperty]
    cases (Reference.shape .guard).value? prop.value with
    | none => rfl
    | some reference =>
      have hblock := addBlock_fill declared frame b problems (b.names.identify .guard reference).2
        .guard (.edge edge) reference none 0
      simp only [InlineNames.identify?, hblock, Builder.addGuard, List.append_nil]
      rw [← Builder.addBlock_names declared b .guard (.edge edge) reference none 0]

/-- A transition that is written as an object is read, and its guard and actions are added. -/
theorem readEdge_fill (path : StatePath) (base : Transition) (edge : Edge) (props : List Property) :
    (frame.fill b problems).readEdge declared path edge props =
      let (t, more) := readTransitionObject path base props
      let (guard, b') := b.addGuard declared edge.id t.guard
      let (actions, b') := Builder.addActions declared (.edge edge.id) t.actions b'
      ({ edge with guard, actions, internal := t.internal, description := t.description },
        t.targets, frame.fill b' (problems ++ more)) := by
  rw [readEdge, readTransitionObject]
  simp only [report_fill, addGuard_fill]
  cases prop? props "target" <;> cases prop? props "actions" <;>
    simp only [addActions_fill, report_fill, BlockParent.problemKind, List.append_assoc,
      Builder.addActions, List.append_nil]

/-- An item of a slot is read, and its edge is added, if it has one. -/
theorem addTransition_fill (source : NodeId) (path : StatePath) (slot : Slot) (trigger : Trigger)
    (item : Expr) (index : Nat) :
    addTransition declared source path slot trigger (frame.fill b problems)
        ((item, Shape.transitionItem.value? item), index) =
      let (t, more) := readTransition path slot trigger item index
      frame.fill (Builder.addTransitions declared source t.toList b) (problems ++ more) := by
  unfold addTransition readTransition
  cases Shape.transitionItem.value? item with
  | none => rfl
  | some entry =>
    cases entry with
    | target | targetless =>
      dsimp only
      rw [List.append_nil]
      rfl
    | object props =>
      dsimp only
      rw [readEdge_fill]
      rfl

theorem addTransitions_append (source : NodeId) (ts us : List Transition) (b : Builder) :
    Builder.addTransitions declared source (ts ++ us) b =
      Builder.addTransitions declared source us (Builder.addTransitions declared source ts b) :=
  List.foldl_append

theorem addSlot_fill (source : NodeId) (path : StatePath) (slot : Slot) (trigger : Trigger)
    (expr : Expr) :
    (frame.fill b problems).addSlot declared source path slot trigger expr =
      let (ts, more) := readSlot path slot trigger expr
      frame.fill (Builder.addTransitions declared source ts b) (problems ++ more) := by
  have hmany : ∃ isArray, Shape.transitionItem.oneOrMany.read? expr = some
      { items := (itemsOf expr).map fun item => (item, Shape.transitionItem.value? item)
        isArray } := by
    rw [Shape.oneOrMany, itemsOf]
    dsimp only
    cases expr.items? <;> exact ⟨_, rfl⟩
  obtain ⟨isArray, hmany⟩ := hmany
  rw [addSlot, hmany, readSlot]
  dsimp only
  rw [List.zipIdx_map, List.foldl_map, List.filterMap_map, List.flatMap_map]
  generalize (itemsOf expr).zipIdx = items
  induction items generalizing b problems with
  | nil => simp [Builder.addTransitions]
  | cons item items ih =>
    have hitem :=
      addTransition_fill declared frame b problems source path slot trigger item.1 item.2
    rw [List.foldl_cons, List.flatMap_cons, List.filterMap_cons, Function.comp_apply]
    generalize readTransition path slot trigger item.1 item.2 = read at hitem ⊢
    obtain ⟨t, more⟩ := read
    refine (congrArg (List.foldl _ · items) hitem).trans ((ih _ _).trans ?_)
    rw [List.append_assoc]
    cases t <;> rfl

theorem addSlotProperty_fill (source : NodeId) (path : StatePath) (slot : Slot)
    (trigger : Trigger) (expr : Option Expr) :
    (frame.fill b problems).addSlotProperty declared source path slot trigger expr =
      let (ts, more) := readSlotProperty path slot trigger expr
      frame.fill (Builder.addTransitions declared source ts b) (problems ++ more) := by
  cases expr with
  | none => simp [addSlotProperty, readSlotProperty, Builder.addTransitions]
  | some expr => exact addSlot_fill declared frame b problems source path slot trigger expr

theorem addSlotMap_fill (source : NodeId) (path : StatePath) (property : String)
    (slot : String → Slot) (trigger : String → Trigger) (prop : Option Property) :
    (frame.fill b problems).addSlotMap declared source path property slot trigger prop =
      let (ts, more) := readSlotMap path property slot trigger prop
      frame.fill (Builder.addTransitions declared source ts b) (problems ++ more) := by
  cases prop with
  | none => simp [addSlotMap, readSlotMap, Builder.addTransitions]
  | some prop =>
    rw [addSlotMap, readSlotMap]
    dsimp only
    cases prop.value.props? with
    | none => rfl
    | some entries =>
      dsimp only
      rw [List.flatMap_map, List.flatMap_map]
      induction effective entries generalizing b problems with
      | nil => simp [Builder.addTransitions]
      | cons entry rest ih =>
        rw [List.foldl_cons, List.flatMap_cons, List.flatMap_cons, addTransitions_append,
          ← List.append_assoc]
        cases entry.name with
        | none => exact ih b _
        | some name =>
          dsimp only
          rw [addSlot_fill]
          exact ih _ _

/-! ## Invocations -/

/-- Puts blocks behind the invocations of a node. -/
def withInvoke (node : NodeId) (ids : List BlockId) (w : Walk) : Walk :=
  w.modifyNode node fun n => { n with invoke := n.invoke ++ ids }

theorem withInvoke_nil (node : NodeId) (w : Walk) : w.withInvoke node [] = w := by
  have hid : (fun n : Node => { n with invoke := n.invoke ++ [] }) = id :=
    funext fun n => by rw [List.append_nil]; rfl
  rw [withInvoke, modifyNode, hid, List.modify_id]

theorem withInvoke_withInvoke (node : NodeId) (ids more : List BlockId) (w : Walk) :
    (w.withInvoke node ids).withInvoke node more = w.withInvoke node (ids ++ more) := by
  simp only [withInvoke, modifyNode, List.modify_modify_eq, Function.comp_def, List.append_assoc]

theorem stateId_fill (node : NodeId) : (frame.fill b problems).stateId node = frame.stateId node :=
  rfl

theorem stateId_withInvoke (node : NodeId) (ids : List BlockId) (w : Walk) :
    (w.withInvoke node ids).stateId node = w.stateId node := by
  rw [stateId, stateId, withInvoke, modifyNode]
  dsimp only
  rw [List.getElem?_modify_eq]
  cases w.nodes[node]? <;> rfl

theorem addActor_fill (node : NodeId) (path : StatePath) (item : Expr) (src : Option Expr)
    (invocation : String) (index : Nat) :
    (frame.fill b problems).addActor declared node path item src invocation index =
      let source := src.bind (Reference.shape .actor).value?
      let (ids, b') := b.addActor declared node source invocation index
      (frame.withInvoke node ids).fill b' (problems ++
        if source.isSome then []
        else [{ kind := .stateProperty, path, property := some "invoke.src",
                span := (src.bind Expr.span).or item.span }]) := by
  cases src with
  | none =>
    rw [addActor]
    dsimp only [Option.bind_none]
    rw [Builder.addActor]
    dsimp only
    rw [withInvoke_nil]
    rfl
  | some expr =>
    rw [addActor]
    dsimp only [Option.bind_some]
    rw [read_fill _ _ _ (Reference.names_parser .actor)]
    cases (Reference.shape .actor).value? expr with
    | none =>
      rw [Builder.addActor]
      dsimp only
      rw [withInvoke_nil]
      rfl
    | some reference =>
      have hblock := addBlock_fill declared frame b problems (b.names.identify .actor reference).2
        .actor (.node node) reference (some invocation) index
      simp only [InlineNames.identify?, hblock, Builder.addActor]
      rw [← Builder.addBlock_names declared b .actor (.node node) reference (some invocation) index]
      simp only [Option.isSome_some, if_true, List.append_nil]
      rfl

theorem addInvocations_append (node : NodeId) (xs ys : List Invocation) (b : Builder) :
    Builder.addInvocations declared node (xs ++ ys) b =
      let (ids, b') := Builder.addInvocations declared node xs b
      let (more, b') := Builder.addInvocations declared node ys b'
      (ids ++ more, b') := by
  induction xs generalizing b with
  | nil => rfl
  | cons x xs ih =>
    rw [List.cons_append, Builder.addInvocations, Builder.addInvocations]
    dsimp only
    rw [ih]
    dsimp only
    rw [List.append_assoc]

theorem addInvocation_fill (node : NodeId) (path : StatePath) (item : Expr) (index : Nat) :
    addInvocation declared node path (frame.fill b problems) (item, index) =
      let (invocation, more) := readInvocation (frame.stateId node) path item index
      let (ids, b') := Builder.addInvocations declared node invocation.toList b
      (frame.withInvoke node ids).fill b' (problems ++ more) := by
  rw [addInvocation, readInvocation]
  cases item.props? with
  | none =>
    dsimp only [Option.toList_none, Builder.addInvocations]
    rw [withInvoke_nil]
    rfl
  | some props =>
    dsimp only [Option.toList_some, Builder.addInvocations]
    rw [report_fill, stateId_fill, addActor_fill]
    dsimp only
    rw [addSlotProperty_fill, addSlotProperty_fill]
    simp only [List.append_nil, List.append_assoc]

/-- The invocations of a state are read and added, one after the other. -/
theorem addInvocations_fill (node : NodeId) (path : StatePath) (prop : Option Property) :
    (frame.fill b problems).addInvocations declared node path prop =
      let (invocations, more) := readInvocations (frame.stateId node) path prop
      let (ids, b') := Builder.addInvocations declared node invocations b
      (frame.withInvoke node ids).fill b' (problems ++ more) := by
  cases prop with
  | none => simp [addInvocations, readInvocations, Builder.addInvocations, withInvoke_nil]
  | some prop =>
    rw [addInvocations, readInvocations]
    dsimp only
    rw [List.filterMap_map, List.flatMap_map]
    generalize (itemsOf prop.value).zipIdx = items
    induction items generalizing frame b problems with
    | nil => simp [Builder.addInvocations, withInvoke_nil]
    | cons item items ih =>
      -- The id of the state does not depend on its invocations.
      have hitem := addInvocation_fill declared frame b problems node path item.1 item.2
      rw [List.foldl_cons, List.flatMap_cons, List.filterMap_cons, Function.comp_apply]
      generalize readInvocation (frame.stateId node) path item.1 item.2 = read at hitem ⊢
      obtain ⟨invocation, more⟩ := read
      refine (congrArg (List.foldl _ · items) hitem).trans ((ih _ _ _).trans ?_)
      dsimp only
      rw [stateId_withInvoke, withInvoke_withInvoke, List.append_assoc]
      cases invocation with
      | none => rfl
      | some invocation =>
        exact congrArg (fun added => (frame.withInvoke node added.1).fill added.2 _)
          (addInvocations_append declared node [invocation] _ b).symm

/-! ## States -/

theorem addStateActions_fill (id : NodeId) (path : StatePath) (props : List Property)
    (old new : String) :
    (frame.fill b problems).addStateActions declared id path props old new =
      let (actions, more) := readStateActions path props old new
      let (ids, b') := Builder.addActions declared (.node id) actions b
      (ids, frame.fill b' (problems ++ more)) := by
  rw [addStateActions, readStateActions]
  dsimp only
  rw [report_fill]
  cases (pickNewer path props old new).1 with
  | none => simp only [Builder.addActions, List.append_nil]
  | some prop =>
    dsimp only
    rw [addActions_fill]
    dsimp only
    rw [List.append_assoc]
    rfl

/-- The walk when a node has been begun behind others. -/
def withNode (nodes : List Node) (node : Node) (w : Walk) : Walk :=
  { w with nodes := nodes ++ [node] }

theorem modifyNode_withNode (nodes : List Node) (node : Node) (f : Node → Node) (w : Walk) :
    (w.withNode nodes node).modifyNode nodes.length f = w.withNode nodes (f node) :=
  congrArg (fun nodes => { w with nodes })
    (List.modifyTailIdx_add (List.modifyHead f) 0 nodes [node])

theorem modifyNode_fill (id : NodeId) (f : Node → Node) :
    (frame.fill b problems).modifyNode id f = (frame.modifyNode id f).fill b problems := rfl

theorem stateId_withNode (nodes : List Node) (node : Node) (w : Walk) :
    (w.withNode nodes node).stateId nodes.length =
      writtenId w.rootId node.attributes.explicitId node.path := by
  rw [stateId, withNode]
  dsimp only
  rw [List.getElem?_append_right (Nat.le_refl _), Nat.sub_self]
  rfl

theorem addAttributes_fill (nodes : List Node) (node : Node) (path : StatePath)
    (props : List Property) :
    ((frame.withNode nodes node).fill b problems).addAttributes nodes.length path props =
      let (attributes, more) := readAttributes path props
      let rootId := if path.isEmpty then attributes.explicitId else frame.rootId
      ({ frame with rootId }.withNode nodes { node with attributes }).fill b
        (problems ++ more) := by
  rw [addAttributes]
  dsimp only
  rw [report_fill, modifyNode_fill, modifyNode_withNode]
  cases path <;> rfl

/-- What a state holds is read and added. Its node is there from the start, and gets its parts one
    by one. -/
theorem addParts_fill (parent : Option NodeId) (key : String) (path : StatePath)
    (span : Option Span) (props : List Property) :
    ((frame.withNode b.nodes
        { id := b.nodes.length, parent, path, span, key, attributes := {}, entry := [], exit := [],
          invoke := [] }).fill b problems).addParts declared b.nodes.length path props =
      let rootId := if path.isEmpty then (readAttributes path props).1.explicitId else frame.rootId
      let (info, more) := readStateInfo rootId key path span props
      let b' := Builder.addState declared parent info b
      { frame with nodes := b'.nodes, rootId }.fill b' (problems ++ more) := by
  obtain ⟨node, hnodes, -⟩ := (Builder.addState_nodes declared parent
    (readStateInfo (if path.isEmpty then (readAttributes path props).1.explicitId else frame.rootId)
      key path span props).1 b).1
  rw [addParts]
  simp only [report_fill, addAttributes_fill, addStateActions_fill, modifyNode_fill,
    modifyNode_withNode, addInvocations_fill, stateId_withNode, withInvoke, addSlotMap_fill,
    addSlotProperty_fill, readStateInfo, Builder.addState, addTransitions_append,
    List.append_assoc, List.nil_append] at hnodes ⊢
  -- The parts are added to the builder before the node, and leave the nodes as they are.
  rw [(List.append_inj' hnodes rfl).1]
  rfl

end Walk

end Statechart
