import Statechart.Text.Lines
import Statechart.Toml.Number
import Statechart.Toml.Table

/-!
# TOML documents

A document is a sequence of lines: tables' headers, and keys with their values, which
belong to the table of the last header. Of the values those are read that settings are
made of: texts, integers, truth values, arrays and tables; reals and dates are only
checked.

* `value?`: a value;
* `openTable?`, `openElement?`, `define?`: what headers and keys do to the tables;
* `read?`: the data of a document.
-/

namespace Statechart.Toml

/-! ## Values -/

/-- A truth value. -/
def bool? : Reader Bool
  | 't' :: 'r' :: 'u' :: 'e' :: rest => some (true, rest)
  | 'f' :: 'a' :: 'l' :: 's' :: 'e' :: rest => some (false, rest)
  | _ => none

/-- A value without parts. -/
def scalar? (cs : List Char) : Option (Datum × List Char) :=
  match string? cs with
  | some (text, rest) => some (.text text, rest)
  | none =>
    match bool? cs with
    | some (value, rest) => some (.bool value, rest)
    | none =>
      match unread? cs with
      | some result => some result
      | none => (integer? cs).map fun (n, rest) => (.int n, rest)

mutual

/-- A value; all readers of values are bounded by `fuel`. -/
def valueWithin? : Nat → Reader Datum
  | 0, _ => none
  | fuel + 1, '[' :: rest =>
    (itemsWithin? fuel (skipLines rest)).map fun (items, rest) => (.list items, rest)
  | fuel + 1, '\x7b' :: rest =>
    match skipBlanks rest with
    | '\x7d' :: rest => some (.ofFields [], rest)
    | rest => (entriesWithin? fuel {} rest).map fun (table, rest) => (table.toDatum, rest)
  | _ + 1, cs => scalar? cs

/-- The items of an array from here to its end. A comma may follow the last. -/
def itemsWithin? : Nat → Reader (List Datum)
  | 0, _ => none
  | _ + 1, ']' :: rest => some ([], rest)
  | fuel + 1, cs => do
    let (item, rest) ← valueWithin? fuel cs
    match skipLines rest with
    | ',' :: rest =>
      let (items, rest) ← itemsWithin? fuel (skipLines rest)
      pure (item :: items, rest)
    | ']' :: rest => pure ([item], rest)
    | _ => none

/-- The entries of a table in braces from here to its end, added to those before. -/
def entriesWithin? : Nat → Table → Reader Table
  | 0, _, _ => none
  | fuel + 1, table, cs => do
    let ((path, key), rest) ← key? cs
    match rest with
    | '=' :: rest =>
      let (datum, rest) ← valueWithin? fuel (skipBlanks rest)
      let table ← table.insert? path key (.value datum)
      match skipBlanks rest with
      | ',' :: rest => entriesWithin? fuel table rest
      | '\x7d' :: rest => pure (table, rest)
      | _ => none
    | _ => none

end

/-- A value. -/
def value? (cs : List Char) : Option (Datum × List Char) :=
  valueWithin? (cs.length + 1) cs

/-! ## Lines -/

/-- The tables after the header of a table. A table that was only passed through may be
    defined by its header, any other only once. -/
def openTable? (root : Table) (path : List String) (key : String) : Option Table :=
  Table.descend? false (fun parent =>
    match parent.find? key with
    | none => some (parent.set key (.table {}))
    | some (.table table) =>
      if table.implicit && !table.dotted then
        some (parent.set key (.table { table with implicit := false }))
      else none
    | some _ => none) path root

/-- The tables after the header of an element of an array of tables. -/
def openElement? (root : Table) (path : List String) (key : String) : Option Table :=
  Table.descend? false (fun parent =>
    match parent.find? key with
    | none => some (parent.set key (.tables [{}]))
    | some (.tables elements) => some (parent.set key (.tables (elements ++ [{}])))
    | some _ => none) path root

/-- The tables after a key with its value in the table at `owner`. -/
def define? (root : Table) (owner path : List String) (key : String) (datum : Datum) :
    Option Table :=
  Table.descend? false (·.insert? path key (.value datum)) owner root

/-- A key and its value, and the rest after the line. -/
def definition? (cs : List Char) : Option ((List String × String × Datum) × List Char) := do
  let ((path, key), rest) ← key? cs
  match rest with
  | '=' :: rest =>
    let (datum, rest) ← value? (skipBlanks rest)
    pure ((path, key, datum), ← afterLine? rest)
  | _ => none

/-- A header from after its bracket, and the rest after the line. -/
def header? (closing : List Char) (cs : List Char) :
    Option ((List String × String) × List Char) := do
  let (key, rest) ← key? cs
  pure (key, ← (Text.afterStart? closing rest).bind afterLine?)

/-- The tables after the lines from here on, at most `fuel`. Keys are added to the table
    at `owner`. -/
def linesWithin? : Nat → Table → List String → List Char → Option Table
  | 0, _, _, _ => none
  | fuel + 1, root, owner, cs =>
    match skipBlanks cs with
    | [] => some root
    | '[' :: '[' :: rest => do
      let ((path, key), rest) ← header? [']', ']'] rest
      linesWithin? fuel (← openElement? root path key) (path ++ [key]) rest
    | '[' :: rest => do
      let ((path, key), rest) ← header? [']'] rest
      linesWithin? fuel (← openTable? root path key) (path ++ [key]) rest
    | cs =>
      match afterLine? cs with
      | some rest => linesWithin? fuel root owner rest
      | none => do
        let ((path, key, datum), rest) ← definition? cs
        linesWithin? fuel (← define? root owner path key datum) owner rest

/-- The text without the mark of its byte order. -/
def dropMark : List Char → List Char
  | '\uFEFF' :: rest => rest
  | cs => cs

/-- The data of a document. -/
def read? (text : String) : Option Datum :=
  let cs := dropMark text.toList
  (linesWithin? (cs.length + 1) {} [] cs).map Table.toDatum

end Statechart.Toml
