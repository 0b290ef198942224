import Mathlib.Data.List.Forall2
import Statechart.Parser

/-!
# References and their names

A reference that is written in place gets its name while it is read, in the arm that takes it. An
arm that an expression fits may still have no value for it, and then the next one is tried: what has
been tried draws no name. So reading and naming a list of references is reading them all, and then
naming what was read one after the other.

* `InlineNames.identify?`, `InlineNames.identifyItems`: naming what was read;
* `Parser.Names`: a parser that has a value where a shape has one, and names it;
* `Reference.names_parser`: the parser of references is one;
* `Parser.Names.oneOrMany`: so is that of lists of them.
-/

namespace Statechart

namespace InlineNames

/-- Names a reference, if there is one. -/
def identify? (names : InlineNames) (kind : BlockKind) :
    Option Reference → Option Identified × InlineNames
  | some reference =>
    let (sourceId, names) := names.identify kind reference
    (some { reference, sourceId }, names)
  | none => (none, names)

/-- Names the references among the items of a list, one after the other. -/
def identifyItems (kind : BlockKind) :
    List (Expr × Option Reference) → InlineNames → List (Expr × Option Identified) × InlineNames
  | [], names => ([], names)
  | (item, reference) :: rest, names =>
    let (found, names) := names.identify? kind reference
    let (rest, names) := identifyItems kind rest names
    ((item, found) :: rest, names)

end InlineNames

namespace Parser

/-- A parser that has a value where a shape has one: the same reference, with a name. It draws no
    name where it has no value. -/
structure Names (kind : BlockKind) (parser : Parser Identified) (shape : Shape Reference) : Prop
    where
  fits : ∀ expr, parser.fits expr = shape.fits expr
  parse : ∀ expr names, parser.parse expr names = names.identify? kind (shape.read? expr)

variable {kind : BlockKind} {parser : Parser Identified} {shape : Shape Reference}

theorem Names.value? (h : Names kind parser shape) (expr : Expr) (names : InlineNames) :
    parser.value? expr names = names.identify? kind (shape.value? expr) := by
  rw [Parser.value?, Shape.value?, h.fits]
  split
  · exact h.parse expr names
  · rfl

/-- Arms that are tried and rejected leave no names. -/
theorem Names.oneOf {arms : List (Parser Identified)} {shapes : List (Shape Reference)}
    (h : List.Forall₂ (Names kind) arms shapes) : Names kind (.oneOf arms) (.oneOf shapes) where
  fits expr := by
    rw [Parser.oneOf, Shape.oneOf]
    dsimp only
    induction h with
    | nil => rfl
    | cons harm _ ih => rw [List.any_cons, List.any_cons, harm.fits, ih]
  parse expr names := by
    rw [Parser.oneOf, Shape.oneOf]
    dsimp only
    induction h with
    | nil => rfl
    | @cons arm shape _ _ harm _ ih =>
      rw [parseFirst, harm.value?, List.findSome?_cons]
      cases shape.value? expr with
      | none => exact ih
      | some reference => rfl

theorem Names.parseItems (h : Names kind parser shape) (items : List Expr) (names : InlineNames) :
    parser.parseItems items names =
      names.identifyItems kind (items.map fun item => (item, shape.value? item)) := by
  induction items generalizing names with
  | nil => rfl
  | cons item items ih =>
    rw [Parser.parseItems, h.value?, List.map_cons, InlineNames.identifyItems]
    simp only [ih]

/-- The items of a one-or-many value are named one after the other. -/
theorem Names.oneOrMany (h : Names kind parser shape) {expr : Expr} {many : Many Reference}
    (hmany : shape.oneOrMany.read? expr = some many) (names : InlineNames) :
    parser.oneOrMany.value? expr names =
      (some { items := (names.identifyItems kind many.items).1, isArray := many.isArray },
        (names.identifyItems kind many.items).2) := by
  cases expr with
  | array origin items =>
    obtain rfl := Option.some.inj hmany
    dsimp only
    rw [← h.parseItems]
    rfl
  | _ =>
    obtain rfl := Option.some.inj hmany
    dsimp only
    rw [InlineNames.identifyItems, ← h.value?]
    rfl

end Parser

/-- Each arm of the references of a kind names what it takes. -/
theorem Reference.names_parser (kind : BlockKind) :
    Parser.Names kind (Reference.parser kind) (Reference.shape kind) := by
  refine Parser.Names.oneOf (.cons ⟨fun _ => rfl, fun expr names => ?_⟩ (.cons
    ⟨fun _ => rfl, fun expr names => ?_⟩ (.cons ⟨fun _ => rfl, fun expr names => ?_⟩ (.cons
    ⟨fun _ => rfl, fun expr names => ?_⟩ .nil))))
  · cases expr <;> rfl
  · cases expr with
    | object origin props =>
      simp only [Parser.andThen, Parser.ofShape, Shape.andThen, Shape.object, Expr.props?,
        Option.bind_some, ofProps?]
      cases (Property.value? props "type").bind Expr.text? <;> rfl
    | _ => rfl
  · simp only [Parser.map, Parser.andThen, Parser.ofShape, Shape.map, Shape.andThen, Shape.callOf]
    cases Shape.call? expr <;> rfl
  · rfl

end Statechart
