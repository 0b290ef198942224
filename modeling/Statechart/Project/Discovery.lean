import Statechart.Project.FileTree
import Statechart.Settings.File

/-!
# Finding settings

The settings of a file or a directory are those in the nearest directory above it that
has a settings file. A directory with a repository in it is the last that counts. What
lies above is told by the path as it is written.
-/

namespace Statechart.FileTree

variable (tree : FileTree)

/-- The name that marks the top of a repository. -/
def repositoryName : String := ".git"

/-- The settings file that counts for a directory; at most `steps` directories above it are
    looked into. -/
def settingsAbove? : Nat → FilePath → Option FilePath
  | 0, _ => none
  | steps + 1, directory =>
    let candidate := directory.join Settings.fileName
    if tree.isFile candidate then some candidate
    else if (tree.resolve? (directory.join repositoryName)).isSome then none
    else directory.parent?.bind (settingsAbove? steps)

/-- The settings file that counts for a file or a directory. -/
def settingsFile? (start : FilePath) : Option FilePath :=
  let directory := if tree.isFile start then start.parent? else some start
  directory.bind (tree.settingsAbove? (start.parts.length + 1))

/-- The settings that count for a file or a directory, with the file that they are in;
    nothing if there is none. -/
def discover (start : FilePath) : Except SettingsError (Option (Settings × FilePath)) :=
  match tree.settingsFile? start with
  | none => .ok none
  | some path => do
    let settings ← Settings.ofBytes ((tree.read? path).getD [])
    pure (some (settings, path))

end Statechart.FileTree
