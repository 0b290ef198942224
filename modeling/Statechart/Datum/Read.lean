import Statechart.Datum

/-!
# Reading plain data

Each function reads a datum as a value of some type, or gives nothing if it is not
one. A field that a record does not have reads as null.
-/

namespace Statechart.Datum

/-- A text. -/
def text? : Datum → Option String
  | text value => some value
  | _ => none

/-- A truth value. -/
def bool? : Datum → Option Bool
  | bool value => some value
  | _ => none

/-- A natural number that fits into 64 bits. -/
def nat? : Datum → Option Nat
  | int value => if 0 ≤ value ∧ value < UInt64.size then some value.toNat else none
  | _ => none

/-- A list. -/
def list? : Datum → Option (List Datum)
  | list items => some items
  | _ => none

/-- A list of values. -/
def listOf? (read : Datum → Option α) (datum : Datum) : Option (List α) :=
  datum.list?.bind (·.mapM read)

/-- A value, or null for none. -/
def optional? (read : Datum → Option α) : Datum → Option (Option α)
  | null => some none
  | datum => (read datum).map some

/-- A value, or null for the default. -/
def orElse? (fallback : α) (read : Datum → Option α) (datum : Datum) : Option α :=
  (optional? read datum).map (·.getD fallback)

/-- A field of a record. -/
def get : Datum → String → Datum
  | record fields, name => (fields.lookup name).getD null
  | _, _ => null

/-- A field of a record, if the record has it. -/
def find? : Datum → String → Option Datum
  | record fields, name => fields.lookup name
  | _, _ => none

/-- A field that may be left out for the default. -/
def fieldOr? (fallback : α) (read : Datum → Option α) (datum : Datum) (name : String) : Option α :=
  match datum.find? name with
  | some value => read value
  | none => some fallback

/-- A list of texts. -/
def texts? (datum : Datum) : Option (List String) :=
  datum.listOf? text?

/-! ## Writing -/

/-- A record of the given fields. -/
def ofFields (fields : List (String × Datum)) : Datum :=
  record (fields.foldl (fun sorted (name, value) => insertField name value sorted) [])

/-- A natural number. -/
def ofNat (n : Nat) : Datum := int n

/-- A value, or null for none. -/
def ofOption (write : α → Datum) : Option α → Datum
  | some value => write value
  | none => null

/-- A list of values. -/
def ofList (write : α → Datum) (items : List α) : Datum :=
  list (items.map write)

/-- A list of texts. -/
def ofTexts (texts : List String) : Datum :=
  ofList text texts

/-- A field that is left out when there is no value. -/
def optionalField (name : String) (write : α → Datum) (value : Option α) :
    List (String × Datum) :=
  value.toList.map fun v => (name, write v)

end Statechart.Datum
