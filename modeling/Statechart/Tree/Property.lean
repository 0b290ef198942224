import Statechart.Tree.Basic

/-!
# Property lists

An object literal may name a key more than once; the last entry counts.

* `prop?`, `value?`: the entry that counts, and its value;
* `setValue`: changes the value that counts, or adds an entry at the end;
* `eraseName`: drops every entry of a name, since dropping only the last would
  bring an earlier one into effect.
-/

namespace Statechart.Property

/-- The entry that counts for a name. -/
def prop? (props : List Property) (name : String) : Option Property :=
  props.reverse.find? (·.isNamed name)

/-- The value that counts for a name. -/
def value? (props : List Property) (name : String) : Option Expr :=
  (prop? props name).map (·.value)

/-- Whether an entry has the name. -/
def hasName (props : List Property) (name : String) : Bool :=
  props.any (·.isNamed name)

/-- Applies `f` to the last entry of a name. -/
def modifyLast (name : String) (f : Property → Property) : List Property → List Property
  | [] => []
  | prop :: rest =>
    if hasName rest name then prop :: modifyLast name f rest
    else if prop.isNamed name then f prop :: rest
    else prop :: rest

/-- Changes the value that counts for a name. -/
def modifyValue (props : List Property) (name : String) (f : Expr → Expr) : List Property :=
  modifyLast name (fun prop => { prop with value := f prop.value }) props

/-- Makes `value` the value that counts for a name. -/
def setValue (props : List Property) (name : String) (value : Expr) : List Property :=
  if hasName props name then modifyValue props name fun _ => value
  else props ++ [Property.ofPair name value]

/-- Drops every entry of a name. -/
def eraseName (props : List Property) (name : String) : List Property :=
  props.filter (!·.isNamed name)

end Statechart.Property
