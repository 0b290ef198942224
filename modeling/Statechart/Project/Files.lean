import Statechart.Graph.Extraction
import Statechart.Project.FileTree
import Statechart.Settings.Basic

/-!
# Machines in files

Files are read one by one, in the dialect of their extension. A file that is not there,
or is not text, does not keep the others from being read.
-/

namespace Statechart

/-- The machines of a source, extracted. -/
def extractAll (dialect : Source.Dialect) (settings : Settings) (text : String) :
    List Extraction :=
  (Source.machines dialect settings.discovery text).map fun machine =>
    extract machine.config machine.options machine.setup

namespace FileTree

/-- The text of the file that a path leads to, if there is one and it is text. -/
def text? (tree : FileTree) (path : FilePath) : Option String :=
  (tree.read? path).bind Bytes.decode?

/-- The machines of the file that a path leads to, if it can be read. -/
def extractFile? (tree : FileTree) (settings : Settings) (path : FilePath) :
    Option (List Extraction) :=
  (tree.text? path).map (extractAll (Source.Dialect.ofPath path.display) settings)

/-- The machines of several files, each with its path. -/
def extractFiles (tree : FileTree) (settings : Settings) (paths : List FilePath) :
    List (FilePath × Option (List Extraction)) :=
  paths.map fun path => (path, tree.extractFile? settings path)

end FileTree

end Statechart
