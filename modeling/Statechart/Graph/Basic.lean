import Statechart.Reference

/-!
# Graphs of machines

The graph of a machine has a node for each state, an edge for each transition, and
a block for each action, guard and actor. Nodes, edges and blocks are addressed by
handles, which are their positions in the order in which they are met: parents
before children.

* `Node`, `Edge`, `Block`, `Implementation`: the parts;
* `Slot`, `TransitionPath`: where a transition is written on its state;
* `Graph`: all of it, with queries in `Statechart.Graph.Query`.
-/

namespace Statechart

/-- The handle of a node. -/
abbrev NodeId := Nat

/-- The handle of an edge. -/
abbrev EdgeId := Nat

/-- The handle of a block. -/
abbrev BlockId := Nat

/-- The keys of the states from below the root to a state; none for the root. -/
abbrev StatePath := List String

/-- The text of a path: its keys with points between them. -/
def displayPath (path : StatePath) : String :=
  if path.isEmpty then "(root)" else ".".intercalate path

/-! ## Nodes -/

/-- The types of states. -/
inductive StateType where
  | normal
  | parallel
  | final
  | history
  deriving DecidableEq, Repr, Inhabited, Ord

namespace StateType

/-- The name of a type. -/
def name : StateType → String
  | normal => "normal"
  | parallel => "parallel"
  | final => "final"
  | history => "history"

/-- All types. -/
def all : List StateType := [normal, parallel, final, history]

/-- The type that a keyword stands for. -/
def ofKeyword? (text : String) : Option StateType :=
  if text == "atomic" || text == "compound" then some normal
  else all.find? (·.name == text)

end StateType

/-- How much a history state remembers. -/
inductive HistoryKind where
  | shallow
  | deep
  deriving DecidableEq, Repr, Inhabited, Ord

namespace HistoryKind

/-- The name of a kind of history. -/
def name : HistoryKind → String
  | shallow => "shallow"
  | deep => "deep"

/-- The kind of history of a name. -/
def ofName? (text : String) : Option HistoryKind :=
  [shallow, deep].find? (·.name == text)

end HistoryKind

/-- What a state says of itself. -/
structure Attributes where
  type : StateType := .normal
  history : Option HistoryKind := none
  initial : Option String := none
  tags : List String := []
  metaEntries : List (String × Datum) := []
  description : Option String := none
  /-- The `id` that is written, if one is. -/
  explicitId : Option String := none
  deriving Inhabited

/-- A state. -/
structure Node where
  id : NodeId
  parent : Option NodeId
  path : StatePath
  span : Option Span
  key : String
  attributes : Attributes
  entry : List BlockId
  exit : List BlockId
  invoke : List BlockId
  deriving Inhabited

/-! ## Edges -/

/-- Where a transition is written on its state. -/
inductive Slot where
  | on (event : String)
  | always
  | after (delay : String)
  | onDone
  | invokeDone (invoke : Nat)
  | invokeError (invoke : Nat)
  deriving DecidableEq, Repr, Inhabited, Ord

/-- The text of a slot. -/
def Slot.display : Slot → String
  | on event => "on." ++ event
  | always => "always"
  | after delay => "after." ++ delay
  | onDone => "onDone"
  | invokeDone invoke => s!"invoke.{invoke}.onDone"
  | invokeError invoke => s!"invoke.{invoke}.onError"

/-- A slot, and a position among the transitions written in it. -/
structure TransitionPath where
  slot : Slot
  index : Nat
  deriving DecidableEq, Repr, Inhabited

/-- The text of a transition's place. -/
def TransitionPath.display (path : TransitionPath) : String :=
  path.slot.display ++ s!"[{path.index}]"

/-- What sets a transition off. -/
inductive Trigger where
  | named (event : String)
  | wildcard
  | always
  | after (delay : String)
  | stateDone
  | invocationDone (invocation : String)
  | invocationError (invocation : String)
  deriving DecidableEq, Repr, Inhabited

/-- A transition. -/
structure Edge where
  id : EdgeId
  source : NodeId
  /-- The states that the descriptors stand for; those that stand for none are left
      out. -/
  targets : List NodeId
  /-- The targets as they are written. -/
  descriptors : List String
  path : TransitionPath
  span : Option Span
  trigger : Trigger
  guard : Option BlockId
  actions : List BlockId
  /-- Whether the transition is said to be internal or external, if it is. -/
  internal : Option Bool
  description : Option String
  deriving Inhabited

/-! ## Blocks -/

/-- What a block belongs to. -/
inductive BlockParent where
  | node (id : NodeId)
  | edge (id : EdgeId)
  deriving DecidableEq, Repr, Inhabited

/-- What a block says beside its source. -/
inductive BlockDetail where
  /-- The parameters of an action or a guard. -/
  | params (params : Option Datum)
  /-- The id of an invocation. -/
  | invocation (id : String)

instance : Inhabited BlockDetail := ⟨.params none⟩

/-- An action, a guard or an actor. -/
structure Block where
  id : BlockId
  parent : BlockParent
  /-- The implementation, as registered. -/
  sourceId : String
  kind : BlockKind
  detail : BlockDetail
  /-- The position in the list that it is written in, all entries counted. -/
  listIndex : Nat
  deriving Inhabited

/-- An implementation that blocks refer to. -/
structure Implementation where
  id : String
  name : String
  kind : BlockKind
  /-- Whether it is written in place. -/
  inline : Bool
  /-- Whether it is provided along with the machine. -/
  declared : Bool
  deriving DecidableEq, Repr, Inhabited

/-- The graph of a machine. Its root is the first node. -/
structure Graph where
  nodes : List Node
  edges : List Edge
  blocks : List Block
  /-- In the order in which they are first referred to. -/
  implementations : List Implementation
  /-- The children of each node, in the order in which they are written. -/
  childIndex : List (List NodeId)
  deriving Inhabited

/-- The handle of the root. -/
def Graph.root : NodeId := 0

end Statechart
