import Statechart.Datum.Read

/-!
# Tables of a document

A TOML document defines a tree of tables, from headers and from keys with points.
Each table may be defined once; a table that was only passed through on the way to
another may still be defined by a header, and one that dotted keys made may only get
more by dotted keys.

* `Item`: a value, a table or an array of tables;
* `Table.insert?`: defines a key;
* `Table.descend?`: changes a table on a path;
* `Item.toDatum`: the data that a tree stands for.
-/

namespace Statechart.Toml

/-- A table with entries of type `ι`. -/
structure TableOf (ι : Type) where
  /-- Only passed through so far, and not defined by a header of its own. -/
  implicit : Bool := false
  /-- Made by a dotted key. -/
  dotted : Bool := false
  entries : List (String × ι) := []
  deriving Repr

/-- What a key of a document stands for. -/
inductive Item where
  /-- A value that cannot be added to. -/
  | value (datum : Datum)
  | table (table : TableOf Item)
  /-- The elements of an array of tables. -/
  | tables (elements : List (TableOf Item))

/-- A table of a document. -/
abbrev Table := TableOf Item

namespace Table

/-- What a key of a table stands for. -/
def find? (table : Table) (key : String) : Option Item :=
  table.entries.lookup key

/-- Replaces what a key of a table stands for, or adds the key. -/
def set (table : Table) (key : String) (item : Item) : Table :=
  { table with
    entries :=
      if (table.find? key).isSome then
        table.entries.map fun (name, old) => (name, if name = key then item else old)
      else table.entries ++ [(key, item)] }

/-- The table without a key. -/
def erase (table : Table) (key : String) : Table :=
  { table with entries := table.entries.filter (·.1 != key) }

/-- Applies `f` to the table at the end of a path; tables on the way are made if they are
    not there. Dotted keys cannot lead through a table that a header defines. An array of
    tables stands for its last element. -/
def descend? (dotted : Bool) (f : Table → Option Table) : List String → Table → Option Table
  | [], table => f table
  | key :: path, table =>
    match table.find? key with
    | none =>
      (descend? dotted f path { implicit := true, dotted }).map (table.set key <| .table ·)
    | some (.value _) => none
    | some (.tables elements) =>
      elements.getLast?.bind fun last =>
        (descend? dotted f path last).map fun changed =>
          table.set key (.tables (elements.dropLast ++ [changed]))
    | some (.table child) =>
      if dotted && !child.implicit then none
      else (descend? dotted f path child).map (table.set key <| .table ·)

/-- Adds a key that is not there yet. -/
def add? (key : String) (item : Item) (table : Table) : Option Table :=
  if (table.find? key).isSome then none else some (table.set key item)

/-- Defines the key at the end of a dotted key, whose other parts are `path`. -/
def insert? (table : Table) (path : List String) (key : String) (item : Item) : Option Table :=
  descend? true (fun owner =>
    -- A dotted key adds only to tables of dotted keys, and a plain key never does.
    if owner.dotted = path.isEmpty then none else add? key item owner) path table

end Table

mutual

/-- The data that an item stands for. -/
def Item.toDatum : Item → Datum
  | .value datum => datum
  | .table ⟨_, _, entries⟩ => .ofFields (entryData entries)
  | .tables elements => .list (elementData elements)

/-- The data of the entries of a table. -/
def entryData : List (String × Item) → List (String × Datum)
  | [] => []
  | (key, item) :: rest => (key, Item.toDatum item) :: entryData rest

/-- The data of the elements of an array of tables. -/
def elementData : List (TableOf Item) → List Datum
  | [] => []
  | ⟨_, _, entries⟩ :: rest => .ofFields (entryData entries) :: elementData rest

end

/-- The data that a table stands for. -/
def Table.toDatum (table : Table) : Datum :=
  (Item.table table).toDatum

end Statechart.Toml
