import Statechart.Datum.Layout
import Statechart.Source.Machine

/-!
# Settings

What a project may choose: which calls make machines, how new text is laid out,
and which generation of keywords new properties use. Every choice has a default.

* `Settings`: the choices;
* `Settings.check`: the constraints between them;
* `Settings.ofDatum?`: the choices that plain data make. An unknown field is
  refused. How strict the rest is depends on the `DataForm`.
-/

namespace Statechart

/-- The quotes of new strings. -/
inductive QuoteChoice where
  /-- Those that the machine uses. -/
  | auto
  | single
  | double
  deriving DecidableEq, Repr, Inhabited

/-- The generation of keywords that new properties use. -/
inductive FlavorChoice where
  /-- The one that the machine uses. -/
  | auto
  | v4
  | v5
  deriving DecidableEq, Repr, Inhabited

/-- How new text is laid out; what is not chosen is taken from the machine. -/
structure StyleChoice where
  quote : QuoteChoice := .auto
  /-- Spaces for each level. -/
  indent : Option Nat := none
  /-- Tabs in place of spaces. -/
  useTabs : Bool := false
  /-- A comma after the last entry of a literal over several lines. -/
  trailingComma : Option Bool := none
  deriving DecidableEq, Repr, Inhabited

/-- The calls that make machines by default. -/
def Source.Discovery.standard : Source.Discovery where
  factories := ["createMachine", "Machine"]
  setupFunction := "setup"

/-- The choices of a project. -/
structure Settings where
  discovery : Source.Discovery := .standard
  style : StyleChoice := {}
  flavor : FlavorChoice := .auto
  deriving DecidableEq, Repr

/-- Why settings are refused. -/
inductive SettingsError where
  /-- The file cannot be read as text. -/
  | unreadable
  /-- The text is not a description of settings. -/
  | malformed
  | noFactories
  | invalidFactory (name : String)
  | invalidIndent (width : Nat)
  deriving DecidableEq, Repr

/-- The wording of an error. -/
def SettingsError.message : SettingsError → String
  | unreadable => "the settings cannot be read"
  | malformed => "the settings cannot be understood"
  | noFactories => "discovery.factories must not be empty"
  | invalidFactory name => s!"invalid factory name '{name}' (must be an identifier)"
  | invalidIndent width => s!"invalid indent {width} (expected 1..=16)"

namespace Settings

/-- The settings, if they respect the constraints: there is a factory, all names of
    functions are identifiers, and a level has between 1 and 16 spaces. -/
def check (settings : Settings) : Except SettingsError Settings :=
  let names := settings.discovery.factories ++ [settings.discovery.setupFunction]
  if settings.discovery.factories.isEmpty then .error .noFactories
  else
    match names.find? (!Text.isIdentifier ·) with
    | some name => .error (.invalidFactory name)
    | none =>
      match settings.style.indent with
      | some width => if 1 ≤ width ∧ width ≤ 16 then .ok settings else .error (.invalidIndent width)
      | none => .ok settings

/-! ## Settings from plain data -/

/-- What a kind of document lets data be written as. -/
structure DataForm where
  /-- Whether a section written as a list may have items after its last field. -/
  allowsSurplus : Bool
  /-- What may stand beside the name of a choice. -/
  isNothing : Datum → Bool

/-- Data in requests. -/
def DataForm.request : DataForm where
  allowsSurplus := false
  isNothing := Datum.isNull

/-- The fields of a section in their order, from a record or a list. A record may
    leave fields out, and so may the end of a list. -/
def section? (form : DataForm) (names : List String) : Datum → Option (List (Option Datum))
  | .record fields =>
    if fields.all fun (name, _) => names.contains name then
      some (names.map fun name => fields.lookup name)
    else none
  | .list items =>
    if form.allowsSurplus || items.length ≤ names.length then
      some (names.mapIdx fun i _ => items[i]?)
    else none
  | _ => none

/-- The value of a field: the default when it is left out. -/
def field (fallback : α) (read : Datum → Option α) : Option Datum → Option α
  | some datum => read datum
  | none => some fallback

/-- The names of the quotes. -/
def quoteNames : List (String × QuoteChoice) :=
  [("auto", .auto), ("single", .single), ("double", .double)]

/-- The names of the flavors. -/
def flavorNames : List (String × FlavorChoice) :=
  [("auto", .auto), ("v4", .v4), ("v5", .v5)]

/-- The section on calls that make machines. -/
def discovery? (form : DataForm) (datum : Datum) : Option Source.Discovery := do
  let standard := Source.Discovery.standard
  match ← section? form ["factories", "setup_function"] datum with
  | [factories, setupFunction] =>
    let factories ← field standard.factories (Datum.listOf? Datum.text?) factories
    let setupFunction ← field standard.setupFunction Datum.text? setupFunction
    pure { factories := factories, setupFunction }
  | _ => none

/-- The section on layout. -/
def style? (form : DataForm) (datum : Datum) : Option StyleChoice := do
  match ← section? form ["quote", "indent", "use_tabs", "trailing_comma"] datum with
  | [quote, indent, useTabs, trailingComma] =>
    let quote ← field .auto (Datum.choice? form.isNothing quoteNames) quote
    let indent ← field none (Datum.optional? Datum.nat?) indent
    let useTabs ← field false Datum.bool? useTabs
    let trailingComma ← field none (Datum.optional? Datum.bool?) trailingComma
    pure { quote := quote, indent, useTabs, trailingComma }
  | _ => none

/-- The section on edits. -/
def edit? (form : DataForm) (datum : Datum) : Option FlavorChoice := do
  match ← section? form ["flavor"] datum with
  | [flavor] => field .auto (Datum.choice? form.isNothing flavorNames) flavor
  | _ => none

/-- The settings that plain data make. -/
def ofDatum? (form : DataForm) (datum : Datum) : Option Settings := do
  match ← section? form ["discovery", "style", "edit"] datum with
  | [discovery, style, edit] =>
    let discovery ← field .standard (discovery? form) discovery
    let style ← field {} (style? form) style
    let flavor ← field .auto (edit? form) edit
    pure { discovery := discovery, style, flavor }
  | _ => none

/-- The name of a choice. -/
def nameOf [BEq α] (choices : List (String × α)) (choice : α) : String :=
  ((choices.find? fun (_, value) => value == choice).map (·.1)).getD ""

/-- The settings as plain data, with every field. -/
def toDatum (settings : Settings) : Datum :=
  .ofFields [
    ("discovery", .ofFields [
      ("factories", .ofTexts settings.discovery.factories),
      ("setup_function", .text settings.discovery.setupFunction)]),
    ("style", .ofFields [
      ("quote", .text (nameOf quoteNames settings.style.quote)),
      ("indent", .ofOption .ofNat settings.style.indent),
      ("use_tabs", .bool settings.style.useTabs),
      ("trailing_comma", .ofOption .bool settings.style.trailingComma)]),
    ("edit", .ofFields [("flavor", .text (nameOf flavorNames settings.flavor))])]

end Settings

end Statechart
