/-!
# Dialects

Sources are written in TypeScript, or in TypeScript with markup elements. The
extension of a file tells which; JavaScript is read as TypeScript.
-/

namespace Statechart.Source

/-- How a source is written. -/
inductive Dialect where
  | typescript
  /-- TypeScript with markup elements. -/
  | tsx
  deriving DecidableEq, Repr, Inhabited

namespace Dialect

/-- The name of a dialect. -/
def name : Dialect → String
  | typescript => "typescript"
  | tsx => "tsx"

/-- The dialect of a name. -/
def ofName? (text : String) : Option Dialect :=
  if text == "typescript" then some typescript
  else if text == "tsx" then some tsx
  else none

end Dialect

/-- The parts of a path between its separators; empty parts do not count, nor does
    a `.` after the first part. -/
def pathParts (path : String) : List String :=
  let parts := path.splitOn "/"
  match parts with
  | [] => []
  | first :: rest =>
    (if first.isEmpty then [] else [first]) ++ rest.filter fun part => !part.isEmpty && part != "."

/-- The last part of a path, unless it leads upwards or is the path `.` itself. -/
def fileName? (path : String) : Option String :=
  (pathParts path).getLast?.filter fun part => part != ".." && part != "."

/-- What follows the last point of a file's name. A name without a point, or whose
    only point comes first, has no extension. -/
def extension? (path : String) : Option String :=
  (fileName? path).bind fun name =>
    let back := name.toList.reverse
    let ext := back.takeWhile (· != '.')
    match back.dropWhile (· != '.') with
    | [] => none
    | [_] => none
    | _ :: _ => some (String.ofList ext.reverse)

/-- The dialect of the file with this path. -/
def Dialect.ofPath (path : String) : Dialect :=
  match extension? path with
  | some ext => if ext == "tsx" || ext == "jsx" then .tsx else .typescript
  | none => .typescript

end Statechart.Source
