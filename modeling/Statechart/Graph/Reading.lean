import Statechart.Graph.Problem
import Statechart.Graph.Target

/-!
# Reading a description

What is read off single properties of a machine's description. Each function gives what
it read and the problems that it met, in the order of the text.

* `effective`: the entries that count, those of a name once;
* `pickNewer`: the property of an old keyword or its successor;
* `readAttributes`: what a state says of itself;
* `readTargets`, `readInternal`: parts of a transition.
-/

namespace Statechart

/-- The entries of a property list that count: of each name the last one. Entries
    without a name are kept. -/
def effective : List Property → List Property
  | [] => []
  | prop :: rest =>
    match prop.name with
    | some name => if Property.hasName rest name then effective rest else prop :: effective rest
    | none => prop :: effective rest

/-- The place of a property's key, or of the property. -/
def keyPlace (prop : Property) : Option Span :=
  prop.keySpan.or prop.origin.span

/-- An entry of a written list, with its position in it. -/
abbrev Indexed (α : Type) := Nat × α

/-! ## Keywords -/

/-- The properties of a state that say something about the machine. -/
def stateKeys : List String :=
  ["id", "type", "history", "initial", "states", "entry", "onEntry", "exit", "onExit", "invoke",
   "on", "always", "after", "onDone", "tags", "meta", "description", "parallel"]

/-- The properties of a state that are known and of no interest here. -/
def ignoredStateKeys : List String :=
  ["context", "schema", "tsTypes", "types", "predictableActionArguments", "preserveActionOrder",
   "version", "output", "data", "strict", "delimiter", "key", "activities", "systemId", "input",
   "target"]

/-- The properties of a transition. -/
def transitionKeys : List String :=
  ["target", "guard", "cond", "actions", "internal", "reenter", "description", "meta", "in"]

/-- The problems with the keys of a property list. -/
def keyProblems (known : List String) (path : StatePath) (props : List Property) :
    List Problem :=
  (effective props).filterMap fun prop =>
    let isKnown := prop.name.any known.contains
    if isKnown then none
    else some { kind := .key, path, property := prop.name, span := keyPlace prop }

/-- The property of either an old keyword or its successor, which counts if both are
    written. -/
def pickNewer (path : StatePath) (props : List Property) (old new : String) :
    Option Property × List Problem :=
  match Property.prop? props old, Property.prop? props new with
  | some legacy, some successor =>
    (some successor, [{ kind := .mixed, path, property := some old, span := keyPlace legacy }])
  | some prop, none | none, some prop => (some prop, [])
  | none, none => (none, [])

/-! ## Lists -/

/-- The items of a list that could be read, with their positions, and a problem for
    each of the others. -/
def readMany (items : List (Expr × Option α)) (problem : Expr → Problem) :
    List (Indexed α) × List Problem :=
  let indexed := items.zipIdx
  (indexed.filterMap fun ((_, value), index) => value.map (index, ·),
   items.filterMap fun (expr, value) => if value.isSome then none else some (problem expr))

/-- The items of a one-or-many value: those of an array, or the value itself. -/
def itemsOf (expr : Expr) : List Expr :=
  expr.items?.getD [expr]

/-- One or more items of a shape. -/
def readOneOrMany (shape : Shape α) (expr : Expr) (problem : Expr → Problem) :
    List (Indexed α) × List Problem :=
  match shape.oneOrMany.read? expr with
  | some many => readMany many.items problem
  | none => ([], [])

/-! ## Attributes -/

/-- A property that holds a value, read by `read`; a problem if it holds another. -/
def readProperty (kind : ProblemKind) (path : StatePath) (name : String)
    (read : Expr → Option α) : Option Property → Option α × List Problem
  | none => (none, [])
  | some prop =>
    match read prop.value with
    | some value => (some value, [])
    | none => (none, [{ kind, path, property := some name, span := prop.value.span }])

/-- The type that `parallel` alone gives. -/
def parallelType? : Expr → Option StateType
  | .bool _ true => some .parallel
  | .bool _ false => some .normal
  | _ => none

/-- The target of `initial`: a string, or an object with a string `target`. -/
def initialTarget? : Expr → Option String
  | .str _ value => some value
  | .object _ props => (Property.value? props "target").bind Expr.text?
  | _ => none

/-- The entries of `meta`: those with a name. -/
def metaEntries? (expr : Expr) : Option (List (String × Datum)) :=
  expr.props?.map fun props =>
    (effective props).filterMap fun prop => prop.name.map (·, prop.value.datum)

/-- The history that a type calls for: only history states have one, shallow if
    nothing else is said. -/
def historyFor (type : StateType) (written : Option HistoryKind) : Option HistoryKind :=
  if type == .history then some (written.getD .shallow) else none

/-- What a state says of itself. -/
def readAttributes (path : StatePath) (props : List Property) : Attributes × List Problem :=
  let prop? := Property.prop? props
  let ofState {α : Type} (name : String) (read : Expr → Option α) :=
    readProperty .stateProperty path name read (prop? name)
  let (explicitId, p₁) := ofState "id" Expr.text?
  let (type, p₂) :=
    if (prop? "type").isSome then ofState "type" fun e => e.text?.bind StateType.ofKeyword?
    else ofState "parallel" parallelType?
  let type := type.getD .normal
  let (history, p₃) := ofState "history" fun e => e.text?.bind HistoryKind.ofName?
  let (initial, p₄) := ofState "initial" initialTarget?
  let (tags, p₅) :=
    match prop? "tags" with
    | some prop => readOneOrMany Shape.text prop.value fun expr =>
        { kind := .stateProperty, path, property := some "tags", span := expr.span }
    | none => ([], [])
  let (metaEntries, p₆) := ofState "meta" metaEntries?
  let (description, p₇) := ofState "description" Expr.text?
  ({ type, history := historyFor type history, initial, tags := tags.map (·.2),
     metaEntries := metaEntries.getD [], description, explicitId },
   p₁ ++ p₂ ++ p₃ ++ p₄ ++ p₅ ++ p₆ ++ p₇)

/-- The id of a state for what is named after it: the one in writing, or that of
    the root and the path. -/
def writtenId (rootId explicitId : Option String) (path : StatePath) : String :=
  match explicitId with
  | some id => id
  | none =>
    let root := rootId.getD Graph.defaultRootId
    if path.isEmpty then root else root ++ "." ++ Graph.joinKeys path

/-! ## Transitions -/

/-- The targets of a transition: a string, a list of strings, or nothing. -/
def readTargets (path : StatePath) (expr : Expr) :
    List (String × Option Span) × List Problem :=
  let problem (expr : Expr) : Problem :=
    { kind := .transitionProperty, path, property := some "target", span := expr.span }
  match expr with
  | .str _ value => ([(value, expr.span)], [])
  | .array _ items =>
    (items.filterMap fun item => item.text?.map (·, item.span),
     (items.filter (·.text?.isNone)).map problem)
  | .null _ | .undefined _ => ([], [])
  | _ => ([], [problem expr])

/-- Whether a transition is said to be internal: `internal` says so, `reenter` says
    the opposite. -/
def readInternal (path : StatePath) : Option Property → Option Bool × List Problem
  | none => (none, [])
  | some prop =>
    let name := prop.name.getD "internal"
    match readProperty .transitionProperty path name Shape.truth? (some prop) with
    | (some value, problems) => (some (if name == "reenter" then !value else value), problems)
    | (none, problems) => (none, problems)

/-- The trigger that the key of an event stands for. -/
def Trigger.ofEvent (event : String) : Trigger :=
  if event == "*" then .wildcard
  else if event.isEmpty then .always
  else .named event

end Statechart
