import Statechart.Source.Program

/-!
# Machines in sources

A machine is a call of a *factory* whose first argument is an object literal. The
call may stand anywhere in the source. Its second argument may hold options, and
when the factory is a member of what the *setup function* returned, the argument
of that function belongs to the machine as well.

* `Machine`: a call of a factory;
* `machines`: the machines of a source, in the order in which their calls start,
  inner calls before the outer ones that start at the same place.
-/

namespace Statechart.Source

/-- Which calls make machines. -/
structure Discovery where
  factories : List String
  setupFunction : String
  deriving DecidableEq, Repr

/-- A machine as it is written. -/
structure Machine where
  /-- The factory, as called. -/
  callee : String
  callSpan : Span
  /-- The description of the machine. -/
  config : Expr
  /-- The implementations given beside it. -/
  options : Option Expr
  /-- The implementations given to the setup function. -/
  setup : Option Expr

/-- The machine that a call makes, if it does. -/
def Site.machine? (discovery : Discovery) (site : Site) : Option Machine :=
  if discovery.factories.contains site.callee then
    match site.args with
    | config :: rest =>
      if config.isObject then
        let setup := site.via.bind fun receiver =>
          if receiver.callee == discovery.setupFunction then
            receiver.argument.filter Expr.isObject
          else none
        some { callee := site.callee, callSpan := site.span, config,
               options := rest.head?.filter Expr.isObject, setup }
      else none
    | [] => none
  else none

/-- Whether the first machine comes before the second: it starts before it, or at
    the same place and ends no later. -/
def Machine.precedes (a b : Machine) : Bool :=
  a.callSpan.start < b.callSpan.start
    || (a.callSpan.start == b.callSpan.start && a.callSpan.stop ≤ b.callSpan.stop)

/-- The machines of a source. -/
def machines (dialect : Dialect) (discovery : Discovery) (text : String) : List Machine :=
  ((sites dialect text).filterMap (Site.machine? discovery)).mergeSort Machine.precedes

end Statechart.Source
