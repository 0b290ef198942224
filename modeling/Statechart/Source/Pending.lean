import Statechart.Source.Operand

/-!
# Operators that wait for an operand

Operators are read from the left to the right. One whose last operand is not yet
complete is *pending*: the operators after it may belong to that operand, or to the
expression that it completes. The pending operators form a stack, the latest first.

* `Pending`: such an operator, and where its expression starts;
* `Follower`: what comes after an operand, as far as it matters for the pending
  operators before it;
* `Pending.yields`: whether the pending operator is completed first;
* `Climb`: the stack.
-/

namespace Statechart.Source

/-- How tightly an operator between two expressions binds. -/
inductive Binding where
  | choice | or | and | bitOr | bitXor | bitAnd | equality | relation | shift | sum | product
  | power
  deriving DecidableEq, Repr

namespace Binding

/-- The place of a binding in the order from loose to tight. -/
def rank : Binding → Nat
  | choice => 0
  | or => 1
  | and => 2
  | bitOr => 3
  | bitXor => 4
  | bitAnd => 5
  | equality => 6
  | relation => 7
  | shift => 8
  | sum => 9
  | product => 10
  | power => 11

/-- The operators between two expressions. -/
def table : List (String × Binding) :=
  [("??", choice), ("||", or), ("&&", and), ("|", bitOr), ("^", bitXor), ("&", bitAnd),
   ("==", equality), ("!=", equality), ("===", equality), ("!==", equality),
   ("<", relation), (">", relation), ("<=", relation), (">=", relation),
   ("instanceof", relation), ("in", relation),
   ("<<", shift), (">>", shift), (">>>", shift), ("+", sum), ("-", sum),
   ("*", product), ("/", product), ("%", product), ("**", power)]

/-- The binding of an operator between two expressions. -/
def ofMark? (mark : String) : Option Binding :=
  table.lookup mark

end Binding

/-- The operators that wait for their last operand. -/
inductive PendingKind where
  | binary (binding : Binding)
  /-- `!`, `~`, a sign, `typeof`, `void` or `delete`. -/
  | unary
  /-- `++` or `--` before an expression. -/
  | update
  | await
  /-- A type in angle brackets. -/
  | assertion
  /-- An assignment, by the name of its form. -/
  | assignment (form : String)
  /-- A choice whose first branch is being read. -/
  | consequent
  /-- A choice whose second branch is being read. -/
  | alternative
  /-- A function, after its arrow. -/
  | arrow
  | yield
  deriving DecidableEq, Repr

/-- A pending operator. -/
structure Pending where
  kind : PendingKind
  /-- Where its expression starts. -/
  start : Nat
  deriving DecidableEq, Repr

/-- What comes after an operand. -/
inductive Follower where
  /-- An operator between two expressions. -/
  | binary (binding : Binding)
  /-- A `<`, which may also open a list of types. -/
  | less
  /-- The question mark of a choice. -/
  | choice
  /-- `as` or `satisfies` and a type, or a `!`. -/
  | ascription
  /-- `++` or `--`. -/
  | update
  /-- A member of an expression that members do not bind to. -/
  | looseMember
  deriving DecidableEq, Repr

namespace Pending

/-- Whether a follower completes the pending operator before it applies itself. A
    list of types applies to all that binds tighter than a comparison; a type or a
    `!` after an expression applies to all operators that group to the left, however
    loosely they bind. -/
def yields (pending : Pending) : Follower → Bool
  | .binary binding =>
    match pending.kind with
    | .binary earlier =>
      binding.rank < earlier.rank || (binding == earlier && earlier != .power)
    | .unary | .update | .await | .assertion => true
    | _ => false
  | .less =>
    match pending.kind with
    | .binary earlier => Binding.relation.rank < earlier.rank
    | .unary | .update | .await => true
    | _ => false
  | .choice =>
    match pending.kind with
    | .binary _ | .unary | .update | .await | .assertion => true
    | _ => false
  | .ascription =>
    match pending.kind with
    | .binary earlier => earlier != .power
    | .unary | .update | .assertion => true
    | _ => false
  | .update => pending.kind == .update || pending.kind == .assertion
  | .looseMember => pending.kind == .assertion

/-- The expression that an operand completes. -/
def complete (pending : Pending) (operand : Operand) : Operand :=
  let start := pending.start
  let stop := operand.span.stop
  match pending.kind with
  | .binary _ => .compound "binary_expression" start stop
  | .unary => .compound "unary_expression" start stop
  | .update => .compound "update_expression" start stop
  | .await => .compound "await_expression" start stop
  | .assertion => operand.widen start stop false
  | .assignment form => .compound form start stop
  | .consequent | .alternative => .compound "ternary_expression" start stop
  | .arrow => .function start stop
  | .yield => .compound "yield_expression" start stop

end Pending

/-- The pending operators of an expression. -/
structure Climb where
  /-- The latest first. -/
  stack : List Pending := []
  /-- How many colons have been taken for those before the type of a function's
      result, but may as well separate the branches of a choice. -/
  slack : Nat := 0

namespace Climb

/-- With one more pending operator. -/
def push (climb : Climb) (kind : PendingKind) (start : Nat) : Climb :=
  { climb with stack := { kind := kind, start } :: climb.stack }

/-- Completes the pending operators that yield to a follower. -/
def settleStack (follower : Follower) : List Pending → Operand → List Pending × Operand
  | [], operand => ([], operand)
  | pending :: rest, operand =>
    if pending.yields follower then settleStack follower rest (pending.complete operand)
    else (pending :: rest, operand)

/-- Completes the pending operators that yield to a follower. -/
def settle (climb : Climb) (follower : Follower) (operand : Operand) : Climb × Operand :=
  let (stack, operand) := settleStack follower climb.stack operand
  ({ climb with stack }, operand)

/-- Completes all pending operators. -/
def finish (climb : Climb) (operand : Operand) : Operand :=
  climb.stack.foldl (fun operand pending => pending.complete operand) operand

/-- The number of choices whose first branch is being read. -/
def openChoices (climb : Climb) : Nat :=
  climb.stack.countP (·.kind == .consequent)

/-- Whether the expression may end here as far as choices are concerned. -/
def isClosed (climb : Climb) : Bool :=
  climb.openChoices ≤ climb.slack

/-- Goes on to the second branch of the latest choice. -/
def turn : List Pending → Option (List Pending)
  | [] => none
  | pending :: rest =>
    if pending.kind == .consequent then some ({ pending with kind := .alternative } :: rest)
    else turn rest

end Climb

end Statechart.Source
