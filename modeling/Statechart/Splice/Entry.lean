import Statechart.Tree.Shape

/-!
# Entries

The properties of an object and the items of an array are its *entries*: what edits of
a text insert, delete and move.

* `Entry.ofExpr`: the entries of a node;
* `Expr.placed`, `Expr.placedProps`: the nodes and the properties of a tree that have
  a place in the source.
-/

namespace Statechart

/-- An entry of an object or an array. -/
inductive Entry where
  | prop (prop : Property)
  | item (item : Expr)

namespace Entry

/-- Where an entry comes from. -/
def origin : Entry → Origin
  | prop p => p.origin
  | item e => e.origin

/-- The place of an entry. -/
def span (entry : Entry) : Option Span :=
  entry.origin.span

/-- The entries of an object or an array; other nodes have none. -/
def ofExpr : Expr → List Entry
  | .object _ props => props.map prop
  | .array _ items => items.map item
  | _ => []

end Entry

namespace Expr

/-- A node with its place, if it has one. -/
def place (expr : Expr) : List (Span × Expr) :=
  expr.span.toList.map (·, expr)

mutual

/-- The nodes of a tree that have a place, outer ones first. -/
def placed : Expr → List (Span × Expr)
  | object origin props => place (object origin props) ++ placedInProps props
  | array origin items => place (array origin items) ++ placedInItems items
  | member origin base property => place (member origin base property) ++ placed base
  | call origin callee args =>
    place (call origin callee args) ++ placed callee ++ placedInItems args
  | expr => place expr

/-- The nodes of some trees that have a place. -/
def placedInItems : List Expr → List (Span × Expr)
  | [] => []
  | item :: rest => placed item ++ placedInItems rest

/-- The nodes in the values of some properties that have a place. -/
def placedInProps : List (PropertyOf Expr) → List (Span × Expr)
  | [] => []
  | ⟨_, _, _, value⟩ :: rest => placed value ++ placedInProps rest

end

mutual

/-- The properties of a tree that have a place, outer ones first. -/
def placedProps : Expr → List (Span × Property)
  | object _ props => propsInProps props
  | array _ items => propsInItems items
  | member _ base _ => placedProps base
  | call _ callee args => placedProps callee ++ propsInItems args
  | _ => []

/-- The properties within some trees that have a place. -/
def propsInItems : List Expr → List (Span × Property)
  | [] => []
  | item :: rest => placedProps item ++ propsInItems rest

/-- The properties that have a place, of some properties and of their values. -/
def propsInProps : List (PropertyOf Expr) → List (Span × Property)
  | [] => []
  | ⟨origin, key, keySpan, value⟩ :: rest =>
    origin.span.toList.map (·, ⟨origin, key, keySpan, value⟩)
      ++ placedProps value ++ propsInProps rest

end

/-- The node at a place; the innermost, if several share it. -/
def placedAt? (expr : Expr) (span : Span) : Option Expr :=
  expr.placed.reverse.lookup span

/-- The property at a place. -/
def placedPropAt? (expr : Expr) (span : Span) : Option Property :=
  expr.placedProps.reverse.lookup span

end Expr

end Statechart
