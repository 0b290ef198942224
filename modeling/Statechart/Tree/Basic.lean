import Statechart.Text.Bytes
import Statechart.Text.Letter

/-!
# Expression trees

A machine is written as an object literal. Its tree keeps what the literals
say, each node with its *origin*: the place in the source that it was read
from, or the fact that it has none. Two nodes with one origin are the same node,
wherever an edit has moved it.

* `Expr`: literals, names, calls; code is kept as `function` and all else as
  `other` with the name of its form;
* `Property`: an entry of an object literal;
* `Expr.origin`, `Expr.span`, `Expr.props?`, `Expr.items?`, `Expr.text?`: the
  parts of a node.
-/

namespace Statechart

/-- A range of byte positions in a source, without its end. -/
structure Span where
  start : Nat
  stop : Nat
  deriving DecidableEq, Repr, Inhabited

/-- The text that a span covers. -/
def Span.slice (span : Span) (text : Bytes) : String :=
  text.slice span.start span.stop

/-- Where a node comes from. -/
inductive Origin where
  /-- Read from a range of the source. -/
  | source (span : Span)
  /-- Handed in without a place in the source; the mark tells such nodes apart. -/
  | given (mark : Nat)
  /-- Made by an edit. -/
  | written
  deriving DecidableEq, Repr, Inhabited

/-- The place in the source, if there is one. -/
def Origin.span : Origin → Option Span
  | .source span => some span
  | _ => none

/-- The key of a property. -/
inductive Key where
  | ident (name : String)
  | str (value : String)
  | number (text : String)
  /-- A key in brackets, with the text between them. -/
  | computed (text : String)
  /-- No key: `...` and an expression. -/
  | spread
  deriving DecidableEq, Repr, Inhabited

/-- The name of a key; computed keys and spreads have none. -/
def Key.name : Key → Option String
  | .ident name | .str name | .number name => some name
  | .computed _ | .spread => none

/-- An entry of an object literal, with a value of type `α`. -/
structure PropertyOf (α : Type) where
  origin : Origin
  key : Key
  keySpan : Option Span
  value : α
  deriving Repr, Inhabited

/-- An expression. -/
inductive Expr where
  | object (origin : Origin) (props : List (PropertyOf Expr))
  | array (origin : Origin) (items : List Expr)
  /-- A string, or a template without substitutions, with its value. -/
  | str (origin : Origin) (value : String)
  /-- A template with substitutions, as it is written. -/
  | template (origin : Origin) (text : String)
  | number (origin : Origin) (text : String)
  | bool (origin : Origin) (value : Bool)
  | null (origin : Origin)
  | undefined (origin : Origin)
  | ident (origin : Origin) (name : String)
  | member (origin : Origin) (object : Expr) (property : String)
  | call (origin : Origin) (callee : Expr) (args : List Expr)
  | function (origin : Origin)
  /-- Any other form, by its name. -/
  | other (origin : Origin) (form : String)
  deriving Repr

instance : Inhabited Expr := ⟨.null .written⟩

/-- An entry of an object literal. -/
abbrev Property := PropertyOf Expr

/-- The name of a property, if its key has one. -/
def PropertyOf.name (prop : PropertyOf α) : Option String :=
  prop.key.name

/-- Whether the property has the name. -/
def PropertyOf.isNamed (prop : PropertyOf α) (name : String) : Bool :=
  prop.name == some name

namespace Expr

/-- Where the node comes from. -/
def origin : Expr → Origin
  | object origin _ | array origin _ | str origin _ | template origin _ | number origin _
  | bool origin _ | null origin | undefined origin | ident origin _ | member origin _ _
  | call origin _ _ | function origin | other origin _ => origin

/-- The place of the node in the source. -/
def span (expr : Expr) : Option Span :=
  expr.origin.span

/-- The properties of an object literal. -/
def props? : Expr → Option (List Property)
  | object _ props => some props
  | _ => none

/-- The items of an array literal. -/
def items? : Expr → Option (List Expr)
  | array _ items => some items
  | _ => none

/-- The value of a string. -/
def text? : Expr → Option String
  | str _ value => some value
  | _ => none

/-- Whether the expression is `null` or `undefined`. -/
def isNullish : Expr → Bool
  | null _ | undefined _ => true
  | _ => false

/-- Whether the expression is an object literal. -/
def isObject (expr : Expr) : Bool :=
  expr.props?.isSome

/-- Whether the expression is an array literal. -/
def isArray (expr : Expr) : Bool :=
  expr.items?.isSome

/-! ## Nodes that edits make -/

/-- A new string. -/
def ofText (value : String) : Expr := str .written value

/-- A new boolean. -/
def ofBool (value : Bool) : Expr := bool .written value

/-- A new object literal. -/
def ofProps (props : List Property) : Expr := object .written props

/-- A new array literal. -/
def ofItems (items : List Expr) : Expr := array .written items

end Expr

/-- A new property; its key is written bare if it is an identifier. -/
def Property.ofPair (name : String) (value : Expr) : Property where
  origin := .written
  key := if Text.isIdentifier name then .ident name else .str name
  keySpan := none
  value := value

end Statechart
