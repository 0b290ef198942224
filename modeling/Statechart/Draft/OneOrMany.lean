import Statechart.Tree.Property

/-!
# One or many

Several properties hold a list of which a single item may be written without the
brackets: `entry: 'a'` for `entry: ['a']`. Here such a property is read and changed
as the list that it stands for.

* `items`, `item?`: the list;
* `modifyItem`: changes an item;
* `insert`: a second item brings the brackets;
* `remove?`: the last but one takes them away, and the last one the property.
-/

namespace Statechart

namespace Expr

/-- An object with other properties; any other node is left as it is. -/
def withProps (props : List Property) : Expr → Expr
  | object origin _ => object origin props
  | expr => expr

/-- An array with other items; any other node is left as it is. -/
def withItems (items : List Expr) : Expr → Expr
  | array origin _ => array origin items
  | expr => expr

/-- A new `undefined`. -/
def newUndefined : Expr := undefined .written

end Expr

namespace OneOrMany

/-- The items that a value stands for. -/
def itemsOf : Expr → List Expr
  | .array _ items => items
  | value => [value]

/-- The items of a property; none if it is not written. -/
def items (props : List Property) (key : String) : List Expr :=
  ((Property.value? props key).map itemsOf).getD []

/-- The number of items of a property. -/
def length (props : List Property) (key : String) : Nat :=
  (items props key).length

/-- An item of a property. -/
def item? (props : List Property) (key : String) (index : Nat) : Option Expr :=
  (items props key)[index]?

/-- Changes an item of a property. -/
def modifyItem (props : List Property) (key : String) (index : Nat) (f : Expr → Expr) :
    List Property :=
  Property.modifyValue props key fun
    | .array origin items => .array origin (items.modify index f)
    | value => if index = 0 then f value else value

/-- Inserts an item at a position, or at the end if none is given or it lies behind. -/
def insert (props : List Property) (key : String) (index : Option Nat) (item : Expr) :
    List Property :=
  if Property.hasName props key then
    Property.modifyValue props key fun
      | .array origin items =>
        .array origin (items.insertIdx (min (index.getD items.length) items.length) item)
      | value => .ofItems (if index = some 0 then [item, value] else [value, item])
  else props ++ [Property.ofPair key item]

/-- Takes an item out of a property. -/
def remove? (props : List Property) (key : String) (index : Nat) :
    Option (Expr × List Property) :=
  (item? props key index).map fun removed =>
    (removed,
      match (items props key).eraseIdx index with
      | [] => Property.eraseName props key
      | [last] => Property.modifyValue props key fun _ => last
      | rest => Property.modifyValue props key (·.withItems rest))

end OneOrMany

end Statechart
