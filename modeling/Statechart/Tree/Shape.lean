import Statechart.Tree.Basic
import Statechart.Datum

/-!
# Shapes and data of expressions

* `Expr.sameShape`: whether two expressions say the same, wherever they stand.
  Code, and the forms that the tree does not look into, are only the same as
  themselves;
* `Expr.datum`: the value of a literal; what is not a literal counts as null.
-/

namespace Statechart

namespace Expr

mutual

/-- Whether two expressions say the same. -/
def sameShape : Expr → Expr → Bool
  | object _ a, object _ b => sameProps a b
  | array _ a, array _ b => sameItems a b
  | str _ a, str _ b => a == b
  | template _ a, template _ b => a == b
  | number _ a, number _ b => a == b
  | bool _ a, bool _ b => a == b
  | null _, null _ => true
  | undefined _, undefined _ => true
  | ident _ a, ident _ b => a == b
  | member _ a p, member _ b q => p == q && sameShape a b
  | call _ a x, call _ b y => sameShape a b && sameItems x y
  | function o, function o' => o == o'
  | other o _, other o' _ => o == o'
  | _, _ => false

/-- Whether two lists of expressions say the same, one by one. -/
def sameItems : List Expr → List Expr → Bool
  | [], [] => true
  | a :: as, b :: bs => sameShape a b && sameItems as bs
  | _, _ => false

/-- Whether two lists of properties say the same, one by one. -/
def sameProps : List (PropertyOf Expr) → List (PropertyOf Expr) → Bool
  | [], [] => true
  | ⟨_, k, _, a⟩ :: as, ⟨_, l, _, b⟩ :: bs => k == l && sameShape a b && sameProps as bs
  | _, _ => false

end

/-- The value of a number literal: an integer of 64 bits, else a finite number of
    double precision, else the text itself. -/
def numberDatum (text : String) : Datum :=
  match Decimal.int64? text with
  | some value => .int value
  | none =>
    match (Decimal.Numeral.ofText? text).bind Decimal.Numeral.toBinary? with
    | some value => .real value
    | none => .text text

mutual

/-- The value of a literal. -/
def datum : Expr → Datum
  | object _ props => .record (fieldData [] props)
  | array _ items => .list (itemData items)
  | str _ value => .text value
  | template _ text => .text text
  | number _ text => numberDatum text
  | bool _ value => .bool value
  | _ => .null

/-- The values of a list of literals. -/
def itemData : List Expr → List Datum
  | [] => []
  | item :: rest => datum item :: itemData rest

/-- The fields of an object literal, put into the fields already read. The last
    entry of a name counts, and entries without a name do not. -/
def fieldData (fields : List (String × Datum)) : List (PropertyOf Expr) → List (String × Datum)
  | [] => fields
  | ⟨_, key, _, value⟩ :: rest =>
    match key.name with
    | some name => fieldData (insertField name (datum value) fields) rest
    | none => fieldData fields rest

end

end Expr

end Statechart
