import Statechart.Shape
import Statechart.Tree.Shape

/-!
# References to implementations

Actions, guards and actors are implemented elsewhere and referred to by name, or
they are written in place. What is written in place has no name and gets one of
the form `inline:kind-n`, numbered in the order in which they are read.

* `Reference`: a reference by name, a call of a built-in creator, or other code;
* `Reference.shape`: the expressions that are references;
* `InlineNames`: the names given to what is written in place. Who gives them is
  `Reference.parser`.
-/

namespace Statechart

/-- What a block of behaviour is. -/
inductive BlockKind where
  | action
  | guard
  | actor
  deriving DecidableEq, Repr, Inhabited

namespace BlockKind

/-- The name of a kind. -/
def name : BlockKind → String
  | action => "action"
  | guard => "guard"
  | actor => "actor"

/-- The kind of a name. -/
def ofName? (text : String) : Option BlockKind :=
  [action, guard, actor].find? (·.name == text)

/-- The functions whose calls create something of this kind. -/
def creators : BlockKind → List String
  | action =>
    ["assign", "send", "sendTo", "sendParent", "raise", "log", "choose", "pure", "stop",
     "stopChild", "forwardTo", "escalate", "respond", "cancel", "emit", "enqueueActions",
     "spawnChild"]
  | guard => ["and", "or", "not", "stateIn"]
  | actor =>
    ["fromPromise", "fromCallback", "fromObservable", "fromEventObservable", "fromTransition",
     "createMachine"]

end BlockKind

/-- A reference to an implementation. -/
inductive Reference where
  /-- By name, with the parameters written beside it. -/
  | named (name : String) (params : Option Datum)
  /-- Written in place as a call of a creator. -/
  | builtin (creator : String) (origin : Origin)
  /-- Written in place in any other way. -/
  | inline (origin : Origin)

namespace Reference

/-- A name with parameters: an object with a string `type`. -/
def ofProps? (props : List Property) : Option Reference :=
  ((Property.value? props "type").bind Expr.text?).map fun name =>
    .named name ((Property.value? props "params").map Expr.datum)

/-- Whether an expression is code, or stands for code. -/
def isCode : Expr → Bool
  | .function _ | .ident _ _ | .member _ _ _ | .call _ _ _ => true
  | _ => false

/-- Code written in place. -/
def code : Shape Reference where
  fits := isCode
  read? expr := some (.inline expr.origin)

/-- A reference of a kind: a name, a name with parameters, the call of a creator,
    or other code, in this order. -/
def shape (kind : BlockKind) : Shape Reference :=
  .oneOf [
    Shape.text.map fun name _ => .named name none,
    Shape.object.andThen fun props _ => ofProps? props,
    (Shape.callOf kind.creators).map fun (name, _) expr => .builtin name expr.origin,
    code]

end Reference

/-- The names given to nodes written in place, each with what the node is, and the number
    of nodes of each kind that have one. What was added last comes first. -/
structure InlineNames where
  ids : List ((String × Origin) × String) := []
  counters : List (String × Nat) := []

namespace InlineNames

/-- The `n`-th name for what is written in place. -/
def name (kind : String) (n : Nat) : String :=
  s!"inline:{kind}-{n}"

/-- The number of nodes of a kind that have a name. -/
def count (names : InlineNames) (kind : String) : Nat :=
  (names.counters.lookup kind).getD 0

/-- The name of a node: the one that it has, or else the next one of its kind. -/
def assign (names : InlineNames) (kind : String) (origin : Origin) : String × InlineNames :=
  match names.ids.lookup (kind, origin) with
  | some id => (id, names)
  | none =>
    let number := names.count kind
    let id := name kind number
    (id, { ids := ((kind, origin), id) :: names.ids
           counters := (kind, number + 1) :: names.counters })

/-- The name by which a reference of a kind is registered. -/
def identify (names : InlineNames) (kind : BlockKind) : Reference → String × InlineNames
  | .named name _ => (name, names)
  | .builtin _ origin | .inline origin => names.assign kind.name origin

end InlineNames

end Statechart
