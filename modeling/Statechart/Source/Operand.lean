import Statechart.Tree.Basic

/-!
# Operands

An expression that has been read is an *operand* for the operators around it. Brackets
around an expression, a type after `as` or `satisfies` or before it in angle brackets,
and a `!` after it leave no trace in the tree: the tree and its span are those of the
expression inside, while the operand spans all of it.

* `Operand`: an expression together with what surrounds it;
* `Site`: a call of a name, with its arguments.
-/

namespace Statechart.Source

/-- A call of a name by which a member of the result is reached: the name and the
    first argument. -/
structure Receiver where
  callee : String
  argument : Option Expr

/-- An expression that has been read. -/
structure Operand where
  /-- The expression without what surrounds it. -/
  expr : Expr
  /-- Its place, with what surrounds it. -/
  span : Span
  /-- The name of a bare identifier, or the last name of a bare member. -/
  name : Option String := none
  /-- For a call of a name, that call. -/
  called : Option Receiver := none
  /-- For a member of a call's result, the call. -/
  via : Option Receiver := none
  /-- Members bind to it before anything else does. -/
  isPrimary : Bool := true

/-- A call, with brackets for its arguments, of a name. -/
structure Site where
  callee : String
  span : Span
  args : List Expr
  /-- When a member of another call's result is called: that call. -/
  via : Option Receiver

namespace Operand

/-- A form that the tree does not look into. -/
def form (name : String) (start stop : Nat) : Operand where
  expr := .other (.source ⟨start, stop⟩) name
  span := ⟨start, stop⟩

/-- A form made up of expressions, to which members do not bind. -/
def compound (name : String) (start stop : Nat) : Operand :=
  { form name start stop with isPrimary := false }

/-- A function. -/
def function (start stop : Nat) : Operand where
  expr := .function (.source ⟨start, stop⟩)
  span := ⟨start, stop⟩

/-- The operand of a word on its own. -/
def ofWord (text : String) (span : Span) : Operand :=
  let origin := Origin.source span
  if text == "true" then { expr := .bool origin true, span }
  else if text == "false" then { expr := .bool origin false, span }
  else if text == "null" then { expr := .null origin, span }
  else if text == "undefined" then { expr := .undefined origin, span }
  else if text == "this" || text == "super" || text == "import" then
    form text span.start span.stop
  else { expr := .ident origin text, span, name := some text }

/-- The same expression with more around it. -/
def widen (operand : Operand) (start stop : Nat) (isPrimary : Bool) : Operand :=
  { operand with span := ⟨start, stop⟩, name := none, via := none, isPrimary }

/-- A member of the expression. -/
def member (operand : Operand) (property : String) (stop : Nat) : Operand where
  expr := .member (.source ⟨operand.span.start, stop⟩) operand.expr property
  span := ⟨operand.span.start, stop⟩
  name := some property
  via := operand.called

/-- A call of the expression. -/
def call (operand : Operand) (args : List Operand) (stop : Nat) : Operand where
  expr := .call (.source ⟨operand.span.start, stop⟩) operand.expr (args.map Operand.expr)
  span := ⟨operand.span.start, stop⟩
  called := operand.name.map fun callee => { callee, argument := args.head?.map Operand.expr }

/-- Whether the operand is a call. -/
def isCall (operand : Operand) : Bool :=
  match operand.expr with
  | .call _ _ _ => true
  | _ => false

/-- The call as a site, if it calls a name. -/
def site? (operand : Operand) (args : List Operand) (stop : Nat) : Option Site :=
  operand.name.map fun callee =>
    { callee, span := ⟨operand.span.start, stop⟩, args := args.map Operand.expr,
      via := operand.via }

/-- The operand to which several expressions between commas amount: the only one, or
    a sequence. -/
def sequence : List Operand → Option Operand
  | [] => none
  | [operand] => some operand
  | first :: rest =>
    some (compound "sequence_expression" first.span.start
      ((rest.getLast?.map fun last => last.span.stop).getD first.span.stop))

end Operand

end Statechart.Source
