import Statechart.Decimal.Layout

/-!
# Plain data

The values that a literal without code denotes: what parameters and metadata
are made of. The fields of a record stand in ascending order of their names,
each name once.
-/

namespace Statechart

/-- A value without code. -/
inductive Datum where
  | null
  | bool (value : Bool)
  | int (value : Int)
  | real (value : Decimal.Binary)
  | text (value : String)
  | list (items : List Datum)
  | record (fields : List (String × Datum))
  deriving Repr, Inhabited

/-- Whether the first text comes before the second in the order of their code
    points. -/
def textLt (a b : String) : Bool :=
  decide (a < b)

/-- Puts a field into an ordered list of fields, in place of one of its name. -/
def insertField (name : String) (value : α) : List (String × α) → List (String × α)
  | [] => [(name, value)]
  | (key, old) :: rest =>
    if name == key then (key, value) :: rest
    else if textLt name key then (name, value) :: (key, old) :: rest
    else (key, old) :: insertField name value rest

/-- Reals have a point when their first digit weighs between `10 ^ -5` and
    `10 ^ 15`, and an exponent with a sign otherwise. -/
def Datum.realLayout : Decimal.Layout where
  firstPlain := -5
  lastPlain := 15
  plusSign := true

/-- The text of a real: the fewest digits that read back. -/
def Datum.realText (value : Decimal.Binary) : String :=
  Datum.realLayout.render value.shortest

end Statechart
