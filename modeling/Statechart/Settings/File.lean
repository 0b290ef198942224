import Statechart.Settings.Basic
import Statechart.Toml.Document

/-!
# Settings files

Settings are written as a TOML document, in a file of a fixed name.
-/

namespace Statechart.Settings

/-- The name of settings files. -/
def fileName : String := ".statelit.toml"

/-- Whether a datum of a document holds nothing. -/
def isVoid : Datum → Bool
  | .list items => items.isEmpty
  | .record fields => fields.isEmpty
  | _ => false

/-- Data in documents. -/
def DataForm.document : DataForm where
  allowsSurplus := true
  isNothing := isVoid

/-- The settings that a document makes. -/
def ofText (text : String) : Except SettingsError Settings :=
  match (Toml.read? text).bind (ofDatum? .document) with
  | some settings => settings.check
  | none => .error .malformed

/-- The settings in a file with these bytes. -/
def ofBytes (bytes : Bytes) : Except SettingsError Settings :=
  match bytes.decode? with
  | some text => ofText text
  | none => .error .unreadable

end Statechart.Settings
