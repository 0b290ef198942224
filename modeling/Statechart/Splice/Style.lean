import Statechart.Settings.Basic
import Statechart.Text.Quoted

/-!
# Style

How new text is written: with which quotes and indentation, and whether a comma
follows the last entry of a literal over several lines. The style is that of the
machine, as far as the settings do not choose.

* `Style.infer`: the style of a machine;
* `Style.key`: the text of a key.
-/

namespace Statechart

/-- How new text is written. -/
structure Style where
  quote : Char := '\x27'
  indentUnit : String := "  "
  trailingComma : Bool := true
  deriving DecidableEq, Repr

namespace Style

/-- The text of a string. -/
def string (style : Style) (value : String) : String :=
  Text.quote style.quote value

/-- The text of a key. -/
def key (style : Style) : Key → String
  | .ident name => if Text.isIdentifier name then name else style.string name
  | .str name => style.string name
  | .number text => text
  | .computed text => "[" ++ text ++ "]"
  | .spread => ""

/-- The quote that a string is written with. -/
def quoteOf? (source : Bytes) (origin : Origin) : Option Char :=
  origin.span.bind fun span =>
    (span.slice source).toList.head?.filter fun c => c == '\x27' || c == '\x22'

mutual

/-- The quote of the first string in an expression. -/
def firstQuote? (source : Bytes) : Expr → Option Char
  | .str origin _ => quoteOf? source origin
  | .object _ props => firstQuoteOfProps? source props
  | .array _ items => firstQuoteOfItems? source items
  | _ => none

/-- The quote of the first string in some expressions. -/
def firstQuoteOfItems? (source : Bytes) : List Expr → Option Char
  | [] => none
  | item :: rest => (firstQuote? source item).or (firstQuoteOfItems? source rest)

/-- The quote of the first string among the values of some properties. -/
def firstQuoteOfProps? (source : Bytes) : List (PropertyOf Expr) → Option Char
  | [] => none
  | ⟨_, _, _, value⟩ :: rest => (firstQuote? source value).or (firstQuoteOfProps? source rest)

end

/-- What a property on a line of its own is indented by beyond the line that opens
    the literal. -/
def indentUnitOf? (source : Bytes) (config : Expr) : Option String := do
  let props ← config.props?
  let span ← config.span
  let first ← (props.filterMap (·.origin.span)).find? fun s => Text.startsLine source s.start
  let base := (Text.indentAt source span.start).toList
  let unit ← Text.afterStart? base (Text.indentAt source first.start).toList
  if unit.isEmpty then none else pure (String.ofList unit)

/-- Whether a comma follows the last property of a literal over several lines. -/
def trailingCommaOf? (source : Bytes) (config : Expr) : Option Bool := do
  let props ← config.props?
  let last ← props.getLast?
  let lastSpan ← last.origin.span
  let span ← config.span
  if Text.spansLines source span.start span.stop then
    pure ((Text.commaAfter source lastSpan.stop).any (· ≤ span.stop))
  else none

/-- The style of a machine, overridden by the choices of the settings. -/
def infer (source : Bytes) (config : Expr) (choice : StyleChoice) : Style :=
  let standard : Style := {}
  let quote :=
    match choice.quote with
    | .auto => (firstQuote? source config).getD standard.quote
    | .single => '\x27'
    | .double => '\x22'
  let indentUnit :=
    if choice.useTabs then "\t"
    else
      match choice.indent with
      | some width => String.ofList (List.replicate width ' ')
      | none => (indentUnitOf? source config).getD standard.indentUnit
  let trailingComma :=
    choice.trailingComma.getD ((trailingCommaOf? source config).getD standard.trailingComma)
  { quote := quote, indentUnit, trailingComma }

end Style

end Statechart
