import Statechart.Graph.Reading
import Statechart.Parser

/-!
# Extraction

The graph of a machine, from its description and the implementations given along
with it. One walk over the description finds everything: a state gets its handle when
it is met, and its parent lists it; a transition gets its handle before its guard and
its actions are added, and takes its place among the edges after them. Targets wait
until the walk is over, so that a transition may name a state that comes later.

* `Walk`: what a walk has found so far; a handle is a position in it;
* `Walk.addState`: the walk over a state and all those below it;
* `Walk.finish`: the targets are looked up, in the order in which they were met;
* `extract`: the graph and the problems of a machine.
-/

namespace Statechart

/-- The names of implementations given along with a machine, by kind. -/
abbrev Declared := List (BlockKind × String)

/-- The sections in which implementations are given. -/
def declaredSections : List (String × BlockKind) :=
  [("actions", .action), ("guards", .guard), ("services", .actor), ("actors", .actor)]

/-- The names given in an object of implementations. -/
def declaredIn (expr : Expr) : Declared :=
  let props := expr.props?.getD []
  declaredSections.flatMap fun (section_, kind) =>
    let entries := ((Property.value? props section_).bind Expr.props?).getD []
    entries.filterMap fun prop => prop.name.map (kind, ·)

/-- The names given in the options and in the setup of a machine. -/
def declaredNames (options setup : Option Expr) : Declared :=
  (options.toList ++ setup.toList).flatMap declaredIn

/-- A target to be looked up: the edge that it is one of, and where it is written. -/
structure Pending where
  edge : EdgeId
  descriptor : String
  span : Option Span

/-- What a walk over a description has found so far. -/
structure Walk where
  names : InlineNames := {}
  nodes : List Node := []
  edges : List Edge := []
  blocks : List Block := []
  childIndex : List (List NodeId) := []
  implementations : List Implementation := []
  pending : List Pending := []
  problems : List Problem := []
  /-- The `id` of the root, if one is written. -/
  rootId : Option String := none

/-- The kind of the problems with what is written on a state or a transition. -/
def BlockParent.problemKind : BlockParent → ProblemKind
  | .node _ => .stateProperty
  | .edge _ => .transitionProperty

namespace Walk

variable (declared : Declared)

/-- Reports problems. -/
def report (problems : List Problem) (w : Walk) : Walk :=
  { w with problems := w.problems ++ problems }

/-- Reads an expression that fits. What is written in place in it is given its name. -/
def read (parser : Parser α) (expr : Expr) (w : Walk) : Option α × Walk :=
  let (value, names) := parser.value? expr w.names
  (value, { w with names })

/-- Changes a node. -/
def modifyNode (id : NodeId) (f : Node → Node) (w : Walk) : Walk :=
  { w with nodes := w.nodes.modify id f }

/-! ## Blocks -/

/-- Registers an implementation, unless one of its kind and id is registered. -/
def register (w : Walk) (entry : Implementation) : Walk :=
  if w.implementations.any fun e => e.kind == entry.kind && e.id == entry.id then w
  else { w with implementations := w.implementations ++ [entry] }

/-- Adds a block; an invocation has an id. -/
def addBlock (kind : BlockKind) (parent : BlockParent) (found : Identified)
    (invocation : Option String) (listIndex : Nat) (w : Walk) : BlockId × Walk :=
  let sourceId := found.sourceId
  let (name, inline, params) :=
    match found.reference with
    | .named name params => (name, false, params)
    | .builtin creator _ => (creator, true, none)
    | .inline _ => (sourceId, true, none)
  let isDeclared := !inline && declared.contains (kind, name)
  let w := w.register { id := sourceId, name, kind, inline, declared := isDeclared }
  let detail : BlockDetail :=
    match invocation with
    | some id => .invocation id
    | none => .params params
  let id := w.blocks.length
  (id, { w with blocks := w.blocks ++ [{ id := id, parent, sourceId, kind, detail, listIndex }] })

/-- Adds the actions among the items of a list, and reports the other items. -/
def addItems (parent : BlockParent) (problem : Expr → Problem) :
    List ((Expr × Option Identified) × Nat) → Walk → List BlockId × Walk
  | [], w => ([], w)
  | ((_, some found), index) :: rest, w =>
    let (id, w) := w.addBlock declared .action parent found none index
    let (ids, w) := addItems parent problem rest w
    (id :: ids, w)
  | ((expr, none), _) :: rest, w => addItems parent problem rest (w.report [problem expr])

/-- Adds a list of actions. The whole list is read before the first of them is added. -/
def addActions (parent : BlockParent) (path : StatePath) (property : String) (expr : Expr)
    (w : Walk) : List BlockId × Walk :=
  let problem (item : Expr) : Problem :=
    { kind := parent.problemKind, path, property := some property, span := item.span }
  match w.read (Reference.parser .action).oneOrMany expr with
  | (some many, w) => addItems declared parent problem many.items.zipIdx w
  | (none, w) => ([], w)

/-! ## Transitions -/

/-- Adds the guard of an edge. -/
def addGuard (path : StatePath) (edge : EdgeId) : Option Property → Walk → Option BlockId × Walk
  | none, w => (none, w)
  | some prop, w =>
    match w.read (Reference.parser .guard) prop.value with
    | (some found, w) =>
      let (block, w) := w.addBlock declared .guard (.edge edge) found none 0
      (some block, w)
    | (none, w) =>
      (none, w.report [{ kind := .transitionProperty, path,
                         property := some (prop.name.getD "guard"), span := prop.value.span }])

/-- What a transition that is written as an object says of its edge, and its targets. -/
def readEdge (path : StatePath) (edge : Edge) (props : List Property) (w : Walk) :
    Edge × List (String × Option Span) × Walk :=
  let prop? := Property.prop? props
  let w := w.report (keyProblems transitionKeys path props)
  let (targets, problems) :=
    match prop? "target" with
    | some prop => readTargets path prop.value
    | none => ([], [])
  let w := w.report problems
  let (guardProp, problems) := pickNewer path props "cond" "guard"
  let w := w.report problems
  let (guard, w) := w.addGuard declared path edge.id guardProp
  let (actions, w) :=
    match prop? "actions" with
    | some prop => w.addActions declared (.edge edge.id) path "actions" prop.value
    | none => ([], w)
  let (internalProp, problems) := pickNewer path props "internal" "reenter"
  let w := w.report problems
  let (internal, problems) := readInternal path internalProp
  let w := w.report problems
  let (description, problems) :=
    readProperty .transitionProperty path "description" Expr.text? (prop? "description")
  ({ edge with guard, actions, internal, description }, targets, w.report problems)

/-- Adds an edge. Its targets are to be looked up. -/
def addEdge (edge : Edge) (targets : List (String × Option Span)) (w : Walk) : Walk :=
  { w with
    edges := w.edges ++ [{ edge with descriptors := targets.map (·.1) }]
    pending := w.pending ++ targets.map fun (descriptor, span) =>
      { edge := edge.id, descriptor, span } }

/-- Adds the edge of an item of a slot. -/
def addTransition (source : NodeId) (path : StatePath) (slot : Slot) (trigger : Trigger)
    (w : Walk) : (Expr × Option TransitionItem) × Nat → Walk
  | ((expr, item), index) =>
    let edge : Edge :=
      { id := w.edges.length, source, targets := [], descriptors := [], path := ⟨slot, index⟩,
        span := expr.span, trigger, guard := none, actions := [], internal := none,
        description := none }
    match item with
    | some (.target descriptor) => w.addEdge edge [(descriptor, expr.span)]
    | some .targetless => w.addEdge edge []
    | some (.object props) =>
      let (edge, targets, w) := w.readEdge declared path edge props
      w.addEdge edge targets
    | none =>
      w.report [{ kind := .transitionProperty, path, property := some slot.display,
                  span := expr.span }]

/-- Adds the transitions of a slot. -/
def addSlot (source : NodeId) (path : StatePath) (slot : Slot) (trigger : Trigger)
    (expr : Expr) (w : Walk) : Walk :=
  match Shape.transitionItem.oneOrMany.read? expr with
  | some many => many.items.zipIdx.foldl (addTransition declared source path slot trigger) w
  | none => w

/-- Adds the transitions of a slot that a property holds, if it is there. -/
def addSlotProperty (source : NodeId) (path : StatePath) (slot : Slot) (trigger : Trigger) :
    Option Expr → Walk → Walk
  | some expr, w => w.addSlot declared source path slot trigger expr
  | none, w => w

/-- Adds the transitions of a map from names to slots. -/
def addSlotMap (source : NodeId) (path : StatePath) (property : String) (slot : String → Slot)
    (trigger : String → Trigger) : Option Property → Walk → Walk
  | none, w => w
  | some prop, w =>
    match prop.value.props? with
    | none =>
      w.report [{ kind := .stateProperty, path, property := some property,
                  span := prop.value.span }]
    | some entries =>
      (effective entries).foldl (fun w entry =>
        match entry.name with
        | some name => w.addSlot declared source path (slot name) (trigger name) entry.value
        | none =>
          w.report [{ kind := .key, path, property := some property, span := keyPlace entry }]) w

/-! ## Invocations -/

/-- The id of a state for what is named after it. -/
def stateId (id : NodeId) (w : Walk) : String :=
  (w.nodes[id]?.map fun node =>
    writtenId w.rootId node.attributes.explicitId node.path).getD ""

/-- Adds the block of an invocation, and reports a source that is none. -/
def addActor (node : NodeId) (path : StatePath) (item : Expr) (src : Option Expr)
    (invocation : String) (index : Nat) (w : Walk) : Walk :=
  let (found, w) :=
    match src with
    | some expr => w.read (Reference.parser .actor) expr
    | none => (none, w)
  match found with
  | some found =>
    let (block, w) := w.addBlock declared .actor (.node node) found (some invocation) index
    w.modifyNode node fun n => { n with invoke := n.invoke ++ [block] }
  | none =>
    w.report [{ kind := .stateProperty, path, property := some "invoke.src",
                span := (src.bind Expr.span).or item.span }]

/-- Adds an invocation with the transitions that follow its end. -/
def addInvocation (node : NodeId) (path : StatePath) (w : Walk) : Expr × Nat → Walk
  | (item, index) =>
    match item.props? with
    | none =>
      w.report [{ kind := .stateProperty, path, property := some "invoke", span := item.span }]
    | some props =>
      let value? := Property.value? props
      let (explicit, problems) :=
        readProperty .stateProperty path "invoke.id" Expr.text? (Property.prop? props "id")
      let w := w.report problems
      let id := explicit.getD (w.stateId node ++ s!":invocation[{index}]")
      let w := w.addActor declared node path item (value? "src") id index
      let w := w.addSlotProperty declared node path (.invokeDone index) (.invocationDone id)
        (value? "onDone")
      w.addSlotProperty declared node path (.invokeError index) (.invocationError id)
        (value? "onError")

/-- Adds the invocations of a state. -/
def addInvocations (node : NodeId) (path : StatePath) : Option Property → Walk → Walk
  | none, w => w
  | some prop, w => (itemsOf prop.value).zipIdx.foldl (addInvocation declared node path) w

/-! ## States -/

/-- Adds a node of which no more is known yet than where it is. Its parent lists it. -/
def enter (parent : Option NodeId) (key : String) (path : StatePath) (span : Option Span)
    (w : Walk) : NodeId × Walk :=
  let id := w.nodes.length
  let node : Node :=
    { id := id, parent, path, span, key, attributes := {}, entry := [], exit := [],
      invoke := [] }
  let childIndex := w.childIndex ++ [[]]
  (id, { w with
    nodes := w.nodes ++ [node]
    childIndex :=
      match parent with
      | some parent => childIndex.modify parent (· ++ [id])
      | none => childIndex })

/-- Adds what a state says of itself. -/
def addAttributes (id : NodeId) (path : StatePath) (props : List Property) (w : Walk) : Walk :=
  let (attributes, problems) := readAttributes path props
  let w := (w.report problems).modifyNode id fun node => { node with attributes }
  if path.isEmpty then { w with rootId := attributes.explicitId } else w

/-- Adds the actions of a state under an old keyword or its successor. -/
def addStateActions (id : NodeId) (path : StatePath) (props : List Property)
    (old new : String) (w : Walk) : List BlockId × Walk :=
  let (prop, problems) := pickNewer path props old new
  let w := w.report problems
  match prop with
  | some prop => w.addActions declared (.node id) path new prop.value
  | none => ([], w)

/-- Adds what the properties of a state hold, but for the states below it. -/
def addParts (id : NodeId) (path : StatePath) (props : List Property) (w : Walk) : Walk :=
  let w := w.report (keyProblems (stateKeys ++ ignoredStateKeys) path props)
  let w := w.addAttributes id path props
  let (entry, w) := w.addStateActions declared id path props "onEntry" "entry"
  let w := w.modifyNode id fun node => { node with entry }
  let (exit, w) := w.addStateActions declared id path props "onExit" "exit"
  let w := w.modifyNode id fun node => { node with exit }
  let w := w.addInvocations declared id path (Property.prop? props "invoke")
  let w := w.addSlotMap declared id path "on" .on Trigger.ofEvent (Property.prop? props "on")
  let w := w.addSlotProperty declared id path .always .always (Property.value? props "always")
  let w := w.addSlotMap declared id path "after" .after .after (Property.prop? props "after")
  w.addSlotProperty declared id path .onDone .stateDone (Property.value? props "onDone")

mutual

/-- Adds a state with those below it. -/
def addState (parent : Option NodeId) (key : String) (path : StatePath) : Expr → Walk → Walk
  | .object origin props, w =>
    let (id, w) := w.enter parent key path origin.span
    addStatesOf id path props (w.addParts declared id path props)
  | expr, w => (w.enter parent key path expr.span).2

/-- Adds the states below, from the properties of a state: the last `states` counts. -/
def addStatesOf (parent : NodeId) (path : StatePath) : List (PropertyOf Expr) → Walk → Walk
  | [], w => w
  | ⟨_, key, _, value⟩ :: rest, w =>
    if Property.hasName rest "states" then addStatesOf parent path rest w
    else if key.name == some "states" then addStates parent path value w
    else addStatesOf parent path rest w

/-- Adds the states of an object of states. -/
def addStates (parent : NodeId) (path : StatePath) : Expr → Walk → Walk
  | .object _ entries, w => addStateEntries parent path entries w
  | expr, w =>
    w.report [{ kind := .stateProperty, path, property := some "states", span := expr.span }]

/-- Adds the states among the entries that count. -/
def addStateEntries (parent : NodeId) (path : StatePath) :
    List (PropertyOf Expr) → Walk → Walk
  | [], w => w
  | ⟨origin, key, keySpan, value⟩ :: rest, w =>
    match key.name with
    | none =>
      addStateEntries parent path rest (w.report [{ kind := .key, path, property := none,
                                                    span := keySpan.or origin.span }])
    | some name =>
      if Property.hasName rest name then addStateEntries parent path rest w
      else if !value.isObject then
        addStateEntries parent path rest (w.report [{ kind := .stateProperty, path,
                                                      property := some name, span := value.span }])
      else
        addStateEntries parent path rest
          (addState (some parent) name (path ++ [name]) value w)

end

/-- The graph without its targets. -/
def graph (w : Walk) : Graph where
  nodes := w.nodes
  edges := w.edges
  blocks := w.blocks
  implementations := w.implementations
  childIndex := w.childIndex

end Walk

/-! ## Targets -/

/-- What is known of a machine: its graph, and the problems with its description. -/
structure Extraction where
  graph : Graph
  problems : List Problem
  deriving Inhabited

/-- Adds a target to an edge. -/
def Graph.addTarget (graph : Graph) (id : EdgeId) (target : NodeId) : Graph :=
  { graph with
    edges := graph.edges.modify id fun edge => { edge with targets := edge.targets ++ [target] } }

/-- Looks up a target. One that stands for no state is reported where its edge starts. -/
def Extraction.resolve (extraction : Extraction) (pending : Pending) : Extraction :=
  match extraction.graph.edge? pending.edge with
  | none => extraction
  | some edge =>
    match extraction.graph.resolve? edge.source pending.descriptor with
    | some target =>
      { extraction with graph := extraction.graph.addTarget pending.edge target }
    | none =>
      { extraction with
        problems := extraction.problems ++
          [{ kind := .unresolved, path := extraction.graph.pathOf edge.source,
             property := some pending.descriptor, span := pending.span }] }

/-- The graph and the problems, when all that is pending has been looked up. -/
def Walk.finish (w : Walk) : Extraction :=
  w.pending.foldl Extraction.resolve ⟨w.graph, w.problems⟩

/-- The walk over a description. The options and the setup only tell which implementations
    are declared. -/
def walk (config : Expr) (options setup : Option Expr) : Walk :=
  Walk.addState (declaredNames options setup) none "" [] config {}

/-- The graph and the problems of a machine. -/
def extract (config : Expr) (options setup : Option Expr) : Extraction :=
  (walk config options setup).finish

end Statechart
