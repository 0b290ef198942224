import Statechart.Graph.Reading

/-!
# Descriptions as trees

A machine's description can be read into a tree of states first, without handles and without
names for what is written in place. Each function gives what it read and the problems that it
met, in the order of the text.

* `Transition`, `Invocation`, `StateInfo`, `StateTree`: what is read;
* `readStateTree`: the reading of a state and all those below it.
-/

namespace Statechart

/-- A transition as it is read. -/
structure Transition where
  path : TransitionPath
  trigger : Trigger
  span : Option Span
  /-- The targets as they are written, with their places. -/
  targets : List (String × Option Span) := []
  guard : Option Reference := none
  actions : List (Indexed Reference) := []
  internal : Option Bool := none
  description : Option String := none

/-- An invocation as it is read, with the transitions that follow its end. -/
structure Invocation where
  index : Nat
  id : String
  source : Option Reference
  done : List Transition
  failed : List Transition

/-- A state as it is read, without those below it. -/
structure StateInfo where
  key : String
  path : StatePath
  span : Option Span
  attributes : Attributes := {}
  entry : List (Indexed Reference) := []
  exit : List (Indexed Reference) := []
  invocations : List Invocation := []
  transitions : List Transition := []

/-- A state with those below it. -/
inductive StateTree where
  | node (info : StateInfo) (children : List StateTree)

/-! ## Actions and transitions -/

/-- A list of actions. -/
def readActions (kind : ProblemKind) (path : StatePath) (property : String) (expr : Expr) :
    List (Indexed Reference) × List Problem :=
  readOneOrMany (Reference.shape .action) expr fun item =>
    { kind, path, property := some property, span := item.span }

/-- A transition that is written as an object. -/
def readTransitionObject (path : StatePath) (base : Transition) (props : List Property) :
    Transition × List Problem :=
  let prop? := Property.prop? props
  let p₁ := keyProblems transitionKeys path props
  let (targets, p₂) :=
    match prop? "target" with
    | some prop => readTargets path prop.value
    | none => ([], [])
  let (guardProp, p₃) := pickNewer path props "cond" "guard"
  let guardName := (guardProp.bind PropertyOf.name).getD "guard"
  let (guard, p₄) :=
    readProperty .transitionProperty path guardName (Reference.shape .guard).value? guardProp
  let (actions, p₅) :=
    match prop? "actions" with
    | some prop => readActions .transitionProperty path "actions" prop.value
    | none => ([], [])
  let (internalProp, p₆) := pickNewer path props "internal" "reenter"
  let (internal, p₇) := readInternal path internalProp
  let (description, p₈) :=
    readProperty .transitionProperty path "description" Expr.text? (prop? "description")
  ({ base with targets, guard, actions, internal, description },
   p₁ ++ p₂ ++ p₃ ++ p₄ ++ p₅ ++ p₆ ++ p₇ ++ p₈)

/-- The transition at a position of a slot. -/
def readTransition (path : StatePath) (slot : Slot) (trigger : Trigger) (item : Expr)
    (index : Nat) : Option Transition × List Problem :=
  let base : Transition := { path := ⟨slot, index⟩, trigger, span := item.span }
  match Shape.transitionItem.value? item with
  | some (.target descriptor) => (some { base with targets := [(descriptor, item.span)] }, [])
  | some .targetless => (some base, [])
  | some (.object props) =>
    let (transition, problems) := readTransitionObject path base props
    (some transition, problems)
  | none =>
    (none, [{ kind := .transitionProperty, path, property := some slot.display,
              span := item.span }])

/-- The transitions of a slot. -/
def readSlot (path : StatePath) (slot : Slot) (trigger : Trigger) (expr : Expr) :
    List Transition × List Problem :=
  let read := (itemsOf expr).zipIdx.map fun (item, index) =>
    readTransition path slot trigger item index
  (read.filterMap (·.1), read.flatMap (·.2))

/-- The transitions of a slot that a property holds, if it is there. -/
def readSlotProperty (path : StatePath) (slot : Slot) (trigger : Trigger) :
    Option Expr → List Transition × List Problem
  | some expr => readSlot path slot trigger expr
  | none => ([], [])

/-- The transitions of a map from names to slots. -/
def readSlotMap (path : StatePath) (property : String) (slot : String → Slot)
    (trigger : String → Trigger) : Option Property → List Transition × List Problem
  | none => ([], [])
  | some prop =>
    match prop.value.props? with
    | none =>
      ([], [{ kind := .stateProperty, path, property := some property, span := prop.value.span }])
    | some entries =>
      let read := (effective entries).map fun entry =>
        match entry.name with
        | some name => readSlot path (slot name) (trigger name) entry.value
        | none =>
          ([], [{ kind := .key, path, property := some property, span := keyPlace entry }])
      (read.flatMap (·.1), read.flatMap (·.2))

/-! ## Invocations -/

/-- The invocation at a position, if it is an object. -/
def readInvocation (stateId : String) (path : StatePath) (item : Expr) (index : Nat) :
    Option Invocation × List Problem :=
  match item.props? with
  | none =>
    (none, [{ kind := .stateProperty, path, property := some "invoke", span := item.span }])
  | some props =>
    let value? := Property.value? props
    let (explicit, p₁) :=
      readProperty .stateProperty path "invoke.id" Expr.text? (Property.prop? props "id")
    let id := explicit.getD (stateId ++ s!":invocation[{index}]")
    let source := (value? "src").bind (Reference.shape .actor).value?
    let p₂ : List Problem :=
      if source.isSome then []
      else [{ kind := .stateProperty, path, property := some "invoke.src",
              span := ((value? "src").bind Expr.span).or item.span }]
    let (done, p₃) :=
      readSlotProperty path (.invokeDone index) (.invocationDone id) (value? "onDone")
    let (failed, p₄) :=
      readSlotProperty path (.invokeError index) (.invocationError id) (value? "onError")
    (some { index := index, id, source, done, failed }, p₁ ++ p₂ ++ p₃ ++ p₄)

/-- The invocations of a state. -/
def readInvocations (stateId : String) (path : StatePath) :
    Option Property → List Invocation × List Problem
  | none => ([], [])
  | some prop =>
    let read := (itemsOf prop.value).zipIdx.map fun (item, index) =>
      readInvocation stateId path item index
    (read.filterMap (·.1), read.flatMap (·.2))

/-! ## States -/

/-- The actions of a state under an old keyword or its successor. -/
def readStateActions (path : StatePath) (props : List Property) (old new : String) :
    List (Indexed Reference) × List Problem :=
  let (prop, p₁) := pickNewer path props old new
  let (actions, p₂) :=
    match prop with
    | some prop => readActions .stateProperty path new prop.value
    | none => ([], [])
  (actions, p₁ ++ p₂)

/-- A state, from its properties, without those below it. -/
def readStateInfo (rootId : Option String) (key : String) (path : StatePath)
    (span : Option Span) (props : List Property) : StateInfo × List Problem :=
  let prop? := Property.prop? props
  let p₀ := keyProblems (stateKeys ++ ignoredStateKeys) path props
  let (attributes, p₁) := readAttributes path props
  let (entry, p₂) := readStateActions path props "onEntry" "entry"
  let (exit, p₃) := readStateActions path props "onExit" "exit"
  let stateId := writtenId rootId attributes.explicitId path
  let (invocations, p₄) := readInvocations stateId path (prop? "invoke")
  let (on, p₅) := readSlotMap path "on" .on Trigger.ofEvent (prop? "on")
  let (always, p₆) := readSlotProperty path .always .always (Property.value? props "always")
  let (after, p₇) := readSlotMap path "after" .after .after (prop? "after")
  let (done, p₈) := readSlotProperty path .onDone .stateDone (Property.value? props "onDone")
  ({ key, path, span, attributes, entry, exit, invocations,
     transitions := on ++ always ++ after ++ done },
   p₀ ++ p₁ ++ p₂ ++ p₃ ++ p₄ ++ p₅ ++ p₆ ++ p₇ ++ p₈)

mutual

/-- A state with those below it. -/
def readStateTree (rootId : Option String) (key : String) (path : StatePath) :
    Expr → StateTree × List Problem
  | .object origin props =>
    let (info, own) := readStateInfo rootId key path origin.span props
    let (children, below) := readStatesOf rootId path props
    (.node info children, own ++ below)
  | expr => (.node { key, path, span := expr.span } [], [])

/-- The states below, from the properties of a state: the last `states` counts. -/
def readStatesOf (rootId : Option String) (path : StatePath) :
    List (PropertyOf Expr) → List StateTree × List Problem
  | [] => ([], [])
  | ⟨_, key, _, value⟩ :: rest =>
    if Property.hasName rest "states" then readStatesOf rootId path rest
    else if key.name == some "states" then readStates rootId path value
    else readStatesOf rootId path rest

/-- The states of an object of states. -/
def readStates (rootId : Option String) (path : StatePath) :
    Expr → List StateTree × List Problem
  | .object _ entries => readStateEntries rootId path entries
  | expr =>
    ([], [{ kind := .stateProperty, path, property := some "states", span := expr.span }])

/-- The states among the entries that count. -/
def readStateEntries (rootId : Option String) (path : StatePath) :
    List (PropertyOf Expr) → List StateTree × List Problem
  | [] => ([], [])
  | ⟨origin, key, keySpan, value⟩ :: rest =>
    let (states, problems) := readStateEntries rootId path rest
    match key.name with
    | none =>
      (states, { kind := .key, path, property := none, span := keySpan.or origin.span } :: problems)
    | some name =>
      if Property.hasName rest name then (states, problems)
      else if !value.isObject then
        (states, { kind := .stateProperty, path, property := some name, span := value.span }
          :: problems)
      else
        let (state, own) := readStateTree rootId name (path ++ [name]) value
        (state :: states, own ++ problems)

end

/-- The id of the root as it is written. -/
def rootIdOf (config : Expr) : Option String :=
  (config.props?.bind (Property.value? · "id")).bind Expr.text?

theorem rootIdOf_object (origin : Origin) (props : List Property) :
    rootIdOf (.object origin props) = (Property.value? props "id").bind Expr.text? := rfl

/-- The reading of a machine's description. -/
def readMachine (config : Expr) : StateTree × List Problem :=
  readStateTree (rootIdOf config) "" [] config

end Statechart
