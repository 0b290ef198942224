import Statechart.Datum.Read

/-!
# Layouts of records

A record has its parts by name, or is written as the list of its parts in a fixed
order, its *layout*. A record that comes in several variants names its variant, in a
field of its own or at the head of the list.

* `Datum.Layout`: the order of parts, and which of them may be missing;
* `Datum.arranged?`: a record from either way of writing it;
* `Datum.variant?`: the same for a record with variants;
* `Datum.choice?`: a name out of several.
-/

namespace Statechart.Datum

/-- The names of the parts in order. The last ones may be left out of a list, as far as
    they are optional here. -/
structure Layout where
  required : List String := []
  optional : List String := []

/-- A record as it is, or the record that the parts of a list make. -/
def arranged? (layout : Layout) : Datum → Option Datum
  | record fields => some (record fields)
  | list items =>
    let names := layout.required ++ layout.optional
    if layout.required.length ≤ items.length ∧ items.length ≤ names.length then
      some (ofFields (names.zip items))
    else none
  | _ => none

/-- The variants of a record, each with its name and its layout. -/
abbrev Variants := List (String × Layout)

/-- The name that a datum gives: itself, or, with `numbered`, the name in that place. -/
def nameAmong? (numbered : Bool) (names : List String) : Datum → Option String
  | text name => if names.contains name then some name else none
  | datum => if numbered then datum.nat?.bind fun n => names[n]? else none

/-- The variant of a record and the record itself. The field `tag` names the variant; a
    list has that name in front of its parts. With `numbered`, a variant may be given by
    its place among all. -/
def variant? (tag : String) (numbered : Bool) (variants : Variants) (datum : Datum) :
    Option (String × Datum) :=
  let name? := nameAmong? numbered (variants.map (·.1))
  match datum with
  | list (head :: items) => do
    let name ← name? head
    pure (name, ← (list items).arranged? (← variants.lookup name))
  | record _ => do pure (← name? (datum.get tag), datum)
  | _ => none

/-- One of several values by its name, or by a record whose only field has that name and
    holds what counts as nothing. -/
def choice? (isNothing : Datum → Bool) (choices : List (String × α)) : Datum → Option α
  | text name => choices.lookup name
  | record [(name, datum)] => if isNothing datum then choices.lookup name else none
  | _ => none

/-- Whether a datum is null. -/
def isNull : Datum → Bool
  | null => true
  | _ => false

/-- Whether a datum is null or a record without fields. -/
def isBlank : Datum → Bool
  | null => true
  | record fields => fields.isEmpty
  | _ => false

end Statechart.Datum
