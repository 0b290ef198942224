import Statechart.Text.Bytes

/-!
# File trees

A directory with what lies below it, as far as the program looks at it: the contents
of files, and which names there are. A *place* is given by the names that lead down to it
from the directory; places that something lies below exist as well.

Paths in writing may hold more than names: a point for the directory that has been
reached, two for the one above it. They are kept as they are written, since a path that
is found is shown with the parts that led to it.

* `FileTree.contents?`: the bytes of a file;
* `FilePath.parent?`, `FilePath.join`: what paths lead to, in writing;
* `FileTree.resolve?`: the place that a path leads to.
-/

namespace Statechart

/-- The names on the way from the top of a tree. -/
abbrev Place := List String

/-- A directory with what lies below it. -/
structure FileTree where
  files : List (Place × Bytes)
  directories : List Place

/-! ## Paths in writing -/

/-- The parts of a path in writing, between the slashes. -/
structure FilePath where
  parts : List String
  deriving DecidableEq, Repr

namespace FilePath

/-- Whether a part leads nowhere else. -/
def isIdle (part : String) : Bool :=
  part.isEmpty || part == "."

/-- The parts of a text. -/
def ofText (text : String) : FilePath :=
  ⟨text.splitOn "/"⟩

/-- Without the idle parts at the end. -/
def trimEnd (path : FilePath) : FilePath :=
  ⟨(path.parts.reverse.dropWhile isIdle).reverse⟩

/-- Without the idle parts at either end. -/
def trim (path : FilePath) : FilePath :=
  ⟨path.trimEnd.parts.dropWhile isIdle⟩

/-- The path in writing. -/
def display (path : FilePath) : String :=
  "/".intercalate path.trim.parts

/-- The path without its last part; the top has none. -/
def parent? (path : FilePath) : Option FilePath :=
  match path.trimEnd.parts with
  | [] => none
  | parts => some (trimEnd ⟨parts.dropLast⟩)

/-- The path to something in the directory that this one leads to. -/
def join (path : FilePath) (name : String) : FilePath :=
  match path.parts.getLast? with
  | some "" => ⟨path.parts.dropLast ++ [name]⟩
  | _ => ⟨path.parts ++ [name]⟩

/-- The names of a path that has no other parts than names and idle ones. -/
def place (path : FilePath) : Place :=
  path.parts.filter (!isIdle ·)

end FilePath

/-! ## Looking into a tree -/

namespace FileTree

variable (tree : FileTree)

/-- The bytes of the file at a place. -/
def contents? (place : Place) : Option Bytes :=
  tree.files.lookup place

/-- Whether one place lies above another, or is the same. -/
def leadsTo (place target : Place) : Bool :=
  target.take place.length == place

/-- Whether there is a file or a directory at a place. -/
def isPresent (place : Place) : Bool :=
  place.isEmpty || (tree.files.map (·.1) ++ tree.directories).any (leadsTo place)

/-- Whether there is a directory at a place. -/
def isDirectory (place : Place) : Bool :=
  tree.isPresent place && (tree.contents? place).isNone

/-- The place that further parts lead to, from a place that is given from its last name
    to its first; `none` is above the top, where nothing is known. Only a directory can be
    left again. -/
def follow? : List String → Option Place → Option (Option Place)
  | [], place => some place
  | part :: rest, none => if FilePath.isIdle part || part == ".." then follow? rest none else none
  | part :: rest, some place =>
    if !tree.isDirectory place.reverse then none
    else if FilePath.isIdle part then follow? rest (some place)
    else if part == ".." then
      follow? rest (match place with
        | [] => none
        | _ :: above => some above)
    else if tree.isPresent (place.reverse ++ [part]) then follow? rest (some (part :: place))
    else none

/-- The place that a path leads to, if there is something. -/
def resolve? (path : FilePath) : Option Place :=
  ((tree.follow? path.parts (some [])).bind id).map List.reverse

/-- The bytes of the file that a path leads to. -/
def read? (path : FilePath) : Option Bytes :=
  (tree.resolve? path).bind tree.contents?

/-- Whether a path leads to a file. -/
def isFile (path : FilePath) : Bool :=
  (tree.read? path).isSome

end FileTree

end Statechart
