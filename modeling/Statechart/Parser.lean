import Statechart.Reference

/-!
# Parsers

A *parser* reads the expressions of a shape, and gives what is written in place in them its
name as it comes to it. Parsers are tried in order (`oneOf`) and lifted to arrays as shapes
are. One that is tried and has no value in the end leaves the names that it gave.

* `Parser`: a reader of expressions that gives names;
* `Identified`: a reference with the name of its implementation;
* `Reference.parser`: the references of a kind.
-/

namespace Statechart

/-- A reader of expressions of a form, with values of type `α`. It goes on from the names
    that were given before. -/
structure Parser (α : Type) where
  /-- Whether the expression has the outer form. -/
  fits : Expr → Bool
  /-- The value of the expression, and all names. -/
  parse : Expr → InlineNames → Option α × InlineNames

namespace Parser

/-- The value of an expression that fits. -/
def value? (parser : Parser α) (expr : Expr) (names : InlineNames) : Option α × InlineNames :=
  if parser.fits expr then parser.parse expr names else (none, names)

/-- The parser of a shape, which gives no names. -/
def ofShape (shape : Shape α) : Parser α where
  fits := shape.fits
  parse expr names := (shape.read? expr, names)

/-- The parser of the values that `f` can read further. -/
def andThen (parser : Parser α) (f : α → Expr → InlineNames → Option β × InlineNames) :
    Parser β where
  fits := parser.fits
  parse expr names :=
    match parser.parse expr names with
    | (some value, names) => f value expr names
    | (none, names) => (none, names)

/-- The parser with each value replaced. -/
def map (parser : Parser α) (f : α → Expr → InlineNames → β × InlineNames) : Parser β :=
  parser.andThen fun value expr names =>
    let (value, names) := f value expr names
    (some value, names)

/-- Tries parsers one after the other, up to one that the expression fits and has a value
    in. -/
def parseFirst (expr : Expr) : List (Parser α) → InlineNames → Option α × InlineNames
  | [], names => (none, names)
  | arm :: arms, names =>
    match arm.value? expr names with
    | (some value, names) => (some value, names)
    | (none, names) => parseFirst expr arms names

/-- The first of several parsers that an expression fits and has a value in. -/
def oneOf (arms : List (Parser α)) : Parser α where
  fits expr := arms.any (·.fits expr)
  parse expr names := parseFirst expr arms names

/-- Reads items one after the other. -/
def parseItems (parser : Parser α) :
    List Expr → InlineNames → List (Expr × Option α) × InlineNames
  | [], names => ([], names)
  | item :: items, names =>
    let (value, names) := parser.value? item names
    let (rest, names) := parseItems parser items names
    ((item, value) :: rest, names)

/-- An array of items. -/
def arrayOf (parser : Parser α) : Parser (Many α) where
  fits := Expr.isArray
  parse expr names :=
    match expr.items? with
    | some items =>
      let (items, names) := parser.parseItems items names
      (some { items, isArray := true }, names)
    | none => (none, names)

/-- An item, or an array of items. -/
def oneOrMany (parser : Parser α) : Parser (Many α) where
  fits _ := true
  parse expr names :=
    if expr.isArray then parser.arrayOf.parse expr names
    else
      let (value, names) := parser.value? expr names
      (some { items := [(expr, value)], isArray := false }, names)

end Parser

/-- A reference with the name by which its implementation is registered. -/
structure Identified where
  reference : Reference
  sourceId : String

namespace Reference

/-- A reference by name. -/
def identifiedByName (name : String) (params : Option Datum) : Identified :=
  ⟨.named name params, name⟩

/-- Code written in place. -/
def codeParser (kind : BlockKind) : Parser Identified where
  fits := isCode
  parse expr names :=
    let (id, names) := names.assign kind.name expr.origin
    (some ⟨.inline expr.origin, id⟩, names)

/-- The parser of references of a kind: a name, a name with parameters, the call of a
    creator, or other code, in this order. -/
def parser (kind : BlockKind) : Parser Identified :=
  .oneOf [
    (Parser.ofShape .text).map fun name _ names => (identifiedByName name none, names),
    (Parser.ofShape .object).andThen fun props _ names =>
      (((Property.value? props "type").bind Expr.text?).map fun name =>
        identifiedByName name ((Property.value? props "params").map Expr.datum), names),
    (Parser.ofShape (.callOf kind.creators)).map fun (creator, _) expr names =>
      let (id, names) := names.assign kind.name expr.origin
      (⟨.builtin creator expr.origin, id⟩, names),
    codeParser kind]

end Reference

end Statechart
