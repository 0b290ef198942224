import Statechart.Graph.Basic

/-!
# Problems

What a machine's description holds that cannot be understood. A problem never
stops the reading: the property in question counts as absent.
-/

namespace Statechart

/-- The kinds of problems. -/
inductive ProblemKind where
  /-- A property of a state has a form that is not understood. -/
  | stateProperty
  /-- A property of a transition, or a transition, has a form that is not
      understood. -/
  | transitionProperty
  /-- Both an old keyword and its successor are written. -/
  | mixed
  /-- A key is computed, spread or unknown. -/
  | key
  /-- A target stands for no state. -/
  | unresolved
  deriving DecidableEq, Repr, Inhabited

/-- The name of a kind of problem. -/
def ProblemKind.name : ProblemKind → String
  | stateProperty => "state_property_unhandled"
  | transitionProperty => "transition_property_unhandled"
  | mixed => "property_mixed"
  | key => "property_key_unhandled"
  | unresolved => "target_unresolved"

/-- A problem. -/
structure Problem where
  kind : ProblemKind
  /-- The state on which it was found. -/
  path : StatePath
  /-- The property, or the target that stands for no state. -/
  property : Option String
  span : Option Span
  deriving DecidableEq, Repr, Inhabited

/-- The wording of a problem. -/
def Problem.message (problem : Problem) : String :=
  let place := problem.kind.name ++ " at " ++ displayPath problem.path
  match problem.property with
  | some property => place ++ " (" ++ property ++ ")"
  | none => place

end Statechart
