import Statechart.Tree.Property

/-!
# Shapes

A *shape* is a form that an expression may have, together with the value that is
read off an expression of that form. Shapes are tried in order (`oneOf`), lifted to
arrays (`arrayOf`), or to a single item or an array of them (`oneOrMany`).

`fits` is a quick test. An expression that fits may still hold no value.
-/

namespace Statechart

/-- A form of expressions, with values of type `α`. -/
structure Shape (α : Type) where
  /-- Whether the expression has the outer form. -/
  fits : Expr → Bool
  /-- The value of the expression. -/
  read? : Expr → Option α

/-- The values of several items, each with the item that it was read from; items
    without a value are kept. -/
structure Many (α : Type) where
  items : List (Expr × Option α)
  isArray : Bool

namespace Shape

/-- The value of an expression that fits. -/
def value? (shape : Shape α) (expr : Expr) : Option α :=
  if shape.fits expr then shape.read? expr else none

/-- The shape of the values that `f` can read further. -/
def andThen (shape : Shape α) (f : α → Expr → Option β) : Shape β where
  fits := shape.fits
  read? expr := (shape.read? expr).bind (f · expr)

/-- The shape with each value replaced. -/
def map (shape : Shape α) (f : α → Expr → β) : Shape β :=
  shape.andThen fun value expr => some (f value expr)

/-- The first of several shapes that an expression fits and has a value in. -/
def oneOf (arms : List (Shape α)) : Shape α where
  fits expr := arms.any (·.fits expr)
  read? expr := arms.findSome? (·.value? expr)

/-- An array of items of a shape. -/
def arrayOf (shape : Shape α) : Shape (Many α) where
  fits := Expr.isArray
  read? expr := expr.items?.map fun items =>
    { items := items.map fun item => (item, shape.value? item), isArray := true }

/-- An item of a shape, or an array of such items. -/
def oneOrMany (shape : Shape α) : Shape (Many α) where
  fits _ := true
  read? expr :=
    match expr.items? with
    | some items =>
      some { items := items.map fun item => (item, shape.value? item), isArray := true }
    | none => some { items := [(expr, shape.value? expr)], isArray := false }

/-! ## Leaves -/

/-- A string. -/
def text : Shape String where
  fits expr := expr.text?.isSome
  read? := Expr.text?

/-- The name of an identifier. -/
def name? : Expr → Option String
  | .ident _ name => some name
  | _ => none

/-- An identifier. -/
def identifier : Shape String where
  fits expr := (name? expr).isSome
  read? := name?

/-- The value of a boolean. -/
def truth? : Expr → Option Bool
  | .bool _ value => some value
  | _ => none

/-- A boolean. -/
def boolean : Shape Bool where
  fits expr := (truth? expr).isSome
  read? := truth?

/-- Whether the expression is a function. -/
def isFunction : Expr → Bool
  | .function _ => true
  | _ => false

/-- A function. -/
def function : Shape Expr where
  fits := isFunction
  read? := some

/-- Any expression. -/
def anything : Shape Expr where
  fits _ := true
  read? := some

/-- An object literal. -/
def object : Shape (List Property) where
  fits := Expr.isObject
  read? := Expr.props?

/-- The name that a callee has: that of an identifier, or the last one of a
    member. -/
def calleeName? : Expr → Option String
  | .ident _ name => some name
  | .member _ _ property => some property
  | _ => none

/-- The name that a call calls, and its arguments. -/
def call? : Expr → Option (String × List Expr)
  | .call _ callee args => (calleeName? callee).map (·, args)
  | _ => none

/-- A call of one of the names. -/
def callOf (names : List String) : Shape (String × List Expr) where
  fits expr := (call? expr).any fun (name, _) => names.contains name
  read? := call?

end Shape

/-! ## Entries of transition slots -/

/-- An entry of a transition slot. -/
inductive TransitionItem where
  /-- The target alone. -/
  | target (descriptor : String)
  /-- Nothing: the event is taken without effect. -/
  | targetless
  /-- Target, guard, actions and more. -/
  | object (props : List Property)

/-- The entry of a transition slot that an expression is. -/
def TransitionItem.ofExpr? : Expr → Option TransitionItem
  | .str _ value => some (.target value)
  | .null _ | .undefined _ => some .targetless
  | .object _ props => some (.object props)
  | _ => none

/-- An entry of a transition slot. -/
def Shape.transitionItem : Shape TransitionItem where
  fits expr := (TransitionItem.ofExpr? expr).isSome
  read? := TransitionItem.ofExpr?

end Statechart
