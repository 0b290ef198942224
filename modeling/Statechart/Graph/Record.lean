import Statechart.Datum.Layout
import Statechart.Graph.Extraction
import Statechart.Tree.Record

/-!
# The record form of graphs

Graphs, transitions' places and problems as plain data. Fields without a value are
left out.
-/

namespace Statechart

namespace Slot

/-- A slot as plain data. -/
def toDatum : Slot → Datum
  | on event => .ofFields [("type", .text "on"), ("event", .text event)]
  | always => .ofFields [("type", .text "always")]
  | after delay => .ofFields [("type", .text "after"), ("delay", .text delay)]
  | onDone => .ofFields [("type", .text "on_done")]
  | invokeDone invoke => .ofFields [("type", .text "invoke_done"), ("invoke", .ofNat invoke)]
  | invokeError invoke => .ofFields [("type", .text "invoke_error"), ("invoke", .ofNat invoke)]

/-- The parts of slots. -/
def variants : Datum.Variants :=
  [("on", ⟨["event"], []⟩), ("always", ⟨[], []⟩), ("after", ⟨["delay"], []⟩), ("on_done", ⟨[], []⟩),
   ("invoke_done", ⟨["invoke"], []⟩), ("invoke_error", ⟨["invoke"], []⟩)]

/-- The slot that plain data make; with `inner`, as a part of other data. -/
def ofDatum? (inner : Bool) (datum : Datum) : Option Slot := do
  let (type, datum) ← datum.variant? "type" inner variants
  if type == "on" then (datum.get "event").text?.map on
  else if type == "always" then pure always
  else if type == "after" then (datum.get "delay").text?.map after
  else if type == "on_done" then pure onDone
  else if type == "invoke_done" then (datum.get "invoke").nat?.map invokeDone
  else if type == "invoke_error" then (datum.get "invoke").nat?.map invokeError
  else none

end Slot

namespace TransitionPath

/-- A transition's place as plain data. -/
def toDatum (path : TransitionPath) : Datum :=
  .ofFields [("slot", path.slot.toDatum), ("index", .ofNat path.index)]

/-- The place of a transition that plain data make; with `inner`, as a part of other
    data. -/
def ofDatum? (inner : Bool) (datum : Datum) : Option TransitionPath := do
  let datum ← datum.arranged? ⟨["slot", "index"], []⟩
  pure ⟨← Slot.ofDatum? inner (datum.get "slot"), ← (datum.get "index").nat?⟩

end TransitionPath

/-- A trigger as plain data. -/
def Trigger.toDatum : Trigger → Datum
  | named event => .ofFields [("type", .text "named"), ("eventType", .text event)]
  | wildcard => .ofFields [("type", .text "wildcard")]
  | always => .ofFields [("type", .text "always")]
  | after delay => .ofFields [("type", .text "after"), ("delay", .text delay)]
  | stateDone => .ofFields [("type", .text "state.done")]
  | invocationDone id => .ofFields [("type", .text "invocation.done"), ("invocationId", .text id)]
  | invocationError id =>
    .ofFields [("type", .text "invocation.error"), ("invocationId", .text id)]

/-- A list of handles. -/
def handleData (ids : List Nat) : Datum :=
  .ofList .ofNat ids

/-- A state as plain data. -/
def Node.toDatum (node : Node) : Datum :=
  let a := node.attributes
  let data := Datum.ofFields (
    [("key", .text node.key), ("type", .text a.type.name), ("entry", handleData node.entry),
     ("exit", handleData node.exit), ("invoke", handleData node.invoke),
     ("tags", .ofTexts a.tags),
     ("metaEntries", .ofList (fun (key, value) => .list [.text key, value]) a.metaEntries)]
    ++ Datum.optionalField "history" (fun h => .text h.name) a.history
    ++ Datum.optionalField "initial" .text a.initial
    ++ Datum.optionalField "description" .text a.description
    ++ Datum.optionalField "id" .text a.explicitId)
  .ofFields (
    [("uniqueId", .ofNat node.id), ("path", .ofTexts node.path), ("data", data)]
    ++ Datum.optionalField "parentId" .ofNat node.parent)

/-- A transition as plain data. -/
def Edge.toDatum (edge : Edge) : Datum :=
  let data := Datum.ofFields (
    [("eventTypeData", edge.trigger.toDatum), ("actions", handleData edge.actions)]
    ++ Datum.optionalField "guard" .ofNat edge.guard
    ++ Datum.optionalField "internal" .bool edge.internal
    ++ Datum.optionalField "description" .text edge.description)
  .ofFields [("uniqueId", .ofNat edge.id), ("source", .ofNat edge.source),
    ("targets", handleData edge.targets), ("targetDescriptors", .ofTexts edge.descriptors),
    ("path", edge.path.toDatum), ("data", data)]

/-- The owner of a block as plain data. -/
def BlockParent.toDatum : BlockParent → Datum
  | node id => .ofFields [("kind", .text "node"), ("id", .ofNat id)]
  | edge id => .ofFields [("kind", .text "edge"), ("id", .ofNat id)]

/-- A block as plain data. -/
def Block.toDatum (block : Block) : Datum :=
  let properties :=
    match block.detail with
    | .params params =>
      ("type", .text block.sourceId) :: Datum.optionalField "params" (fun p => p) params
    | .invocation id => [("src", .text block.sourceId), ("id", .text id)]
  .ofFields [("uniqueId", .ofNat block.id), ("parentId", block.parent.toDatum),
    ("sourceId", .text block.sourceId), ("blockType", .text block.kind.name),
    ("properties", .ofFields properties)]

/-- An implementation as plain data. -/
def Implementation.toDatum (entry : Implementation) : Datum :=
  .ofFields [("id", .text entry.id), ("name", .text entry.name), ("type", .text entry.kind.name),
    ("inline", .bool entry.inline), ("declared", .bool entry.declared)]

/-- A graph as plain data. -/
def Graph.toDatum (graph : Graph) : Datum :=
  let registry (kind : BlockKind) : Datum :=
    .ofFields ((graph.registry kind).map fun entry => (entry.id, entry.toDatum))
  .ofFields [("root", .ofNat Graph.root), ("nodes", .ofList Node.toDatum graph.nodes),
    ("edges", .ofList Edge.toDatum graph.edges), ("blocks", .ofList Block.toDatum graph.blocks),
    ("implementations", .ofFields [("actions", registry .action), ("guards", registry .guard),
      ("actors", registry .actor)])]

/-- A problem as plain data. -/
def Problem.toDatum (problem : Problem) : Datum :=
  .ofFields (
    [("type", .text problem.kind.name), ("path", .ofTexts problem.path)]
    ++ Datum.optionalField "property" .text problem.property
    ++ Datum.optionalField "span" (fun (span : Span) =>
        .ofFields [("start", .ofNat span.start), ("end", .ofNat span.stop)]) problem.span)

/-- An extraction as plain data, with the places of nodes and edges. -/
def Extraction.toDatum (extraction : Extraction) : Datum :=
  let graph := extraction.graph
  .ofFields [("digraph", graph.toDatum), ("errors", .ofList Problem.toDatum extraction.problems),
    ("messages", .ofTexts (extraction.problems.map Problem.message)),
    ("nodeSpans", .ofList (fun node => .ofOption Span.toDatum node.span) graph.nodes),
    ("edgeSpans", .ofList (fun edge => .ofOption Span.toDatum edge.span) graph.edges),
    ("listIndexes", .ofList (fun block => .ofNat block.listIndex) graph.blocks)]

end Statechart
