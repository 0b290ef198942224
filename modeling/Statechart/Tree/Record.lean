import Statechart.Datum.Read
import Statechart.Tree.Basic

/-!
# The record form of trees

Trees as plain data. A node is a record with its kind in the field `k`, its place
in `span`, and its parts. A node or property read without a place gets a mark of
its own, so that it differs from every other: the functions that read pass on the
next mark.
-/

namespace Statechart

namespace Span

/-- A span as a pair of positions. -/
def toDatum (span : Span) : Datum :=
  .list [.ofNat span.start, .ofNat span.stop]

/-- The span that a pair of positions makes. -/
def ofDatum? : Datum → Option Span
  | .list [start, stop] => do pure ⟨← start.nat?, ← stop.nat?⟩
  | _ => none

end Span

/-- A place in the source as plain data. -/
def Origin.toDatum (origin : Origin) : Datum :=
  .ofOption Span.toDatum origin.span

namespace Key

/-- A key as plain data. -/
def toDatum : Key → Datum
  | ident name => .ofFields [("k", .text "ident"), ("v", .text name)]
  | str value => .ofFields [("k", .text "str"), ("v", .text value)]
  | number text => .ofFields [("k", .text "number"), ("v", .text text)]
  | computed text => .ofFields [("k", .text "computed"), ("v", .text text)]
  | spread => .ofFields [("k", .text "spread")]

/-- The key that plain data make. -/
def ofDatum? (datum : Datum) : Option Key := do
  let kind ← (datum.get "k").text?
  if kind == "spread" then pure spread
  else
    let value ← (datum.get "v").text?
    if kind == "ident" then pure (ident value)
    else if kind == "str" then pure (str value)
    else if kind == "number" then pure (number value)
    else if kind == "computed" then pure (computed value)
    else none

end Key

namespace Expr

/-- A node as plain data, from its kind, its place and its parts. -/
def node (kind : String) (origin : Origin) (parts : List (String × Datum)) : Datum :=
  .ofFields (("k", .text kind) :: ("span", origin.toDatum) :: parts)

mutual

/-- A tree as plain data. -/
def toDatum : Expr → Datum
  | object origin props => node "object" origin [("props", .list (propsToData props))]
  | array origin items => node "array" origin [("items", .list (itemsToData items))]
  | str origin value => node "str" origin [("v", .text value)]
  | template origin text => node "template" origin [("v", .text text)]
  | number origin text => node "number" origin [("v", .text text)]
  | bool origin value => node "bool" origin [("v", .bool value)]
  | null origin => node "null" origin []
  | undefined origin => node "undefined" origin []
  | ident origin name => node "ident" origin [("v", .text name)]
  | member origin base property =>
    node "member" origin [("object", toDatum base), ("property", .text property)]
  | call origin callee args =>
    node "call" origin [("callee", toDatum callee), ("args", .list (itemsToData args))]
  | function origin => node "function" origin []
  | other origin form => node "other" origin [("v", .text form)]

/-- Trees as plain data. -/
def itemsToData : List Expr → List Datum
  | [] => []
  | item :: rest => toDatum item :: itemsToData rest

/-- Properties as plain data. -/
def propsToData : List (PropertyOf Expr) → List Datum
  | [] => []
  | ⟨origin, key, keySpan, value⟩ :: rest =>
    .ofFields [("span", origin.toDatum), ("key", key.toDatum),
      ("keySpan", .ofOption Span.toDatum keySpan), ("value", toDatum value)] :: propsToData rest

end

end Expr

/-- Reads with the next free mark, which it passes on. -/
abbrev Marked := StateT Nat Option

/-- A place in the source, or a mark of its own. -/
def Origin.ofDatum (datum : Datum) : Marked Origin := do
  match ← (Datum.optional? Span.ofDatum? datum : Option (Option Span)) with
  | some span => pure (.source span)
  | none =>
    let mark ← get
    set (mark + 1)
    pure (.given mark)

namespace Expr

/-- The leaf of the given kind, if there is one. -/
def leaf? (kind : String) (origin : Origin) (value : Datum) : Option Expr :=
  if kind == "null" then some (null origin)
  else if kind == "undefined" then some (undefined origin)
  else if kind == "function" then some (function origin)
  else if kind == "bool" then value.bool?.map (bool origin)
  else if kind == "str" then value.text?.map (str origin)
  else if kind == "template" then value.text?.map (template origin)
  else if kind == "number" then value.text?.map (number origin)
  else if kind == "ident" then value.text?.map (ident origin)
  else if kind == "other" then value.text?.map (other origin)
  else none

mutual

/-- The tree that plain data make, at most `fuel` levels deep. -/
def ofDatumWithin : Nat → Datum → Marked Expr
  | 0, _ => failure
  | fuel + 1, datum => do
    let kind ← ((datum.get "k").text? : Option String)
    let origin ← Origin.ofDatum (datum.get "span")
    if kind == "object" then
      let props ← ((datum.get "props").list? : Option (List Datum))
      pure (object origin (← propsOfData fuel props))
    else if kind == "array" then
      let items ← ((datum.get "items").list? : Option (List Datum))
      pure (array origin (← itemsOfData fuel items))
    else if kind == "member" then
      let base ← ofDatumWithin fuel (datum.get "object")
      pure (member origin base (← ((datum.get "property").text? : Option String)))
    else if kind == "call" then
      let callee ← ofDatumWithin fuel (datum.get "callee")
      let args ← ((datum.get "args").list? : Option (List Datum))
      pure (call origin callee (← itemsOfData fuel args))
    else (leaf? kind origin (datum.get "v") : Option Expr)

/-- The trees that plain data make. -/
def itemsOfData : Nat → List Datum → Marked (List Expr)
  | 0, _ => failure
  | _ + 1, [] => pure []
  | fuel + 1, item :: rest => do
    let expr ← ofDatumWithin fuel item
    pure (expr :: (← itemsOfData fuel rest))

/-- The properties that plain data make. -/
def propsOfData : Nat → List Datum → Marked (List Property)
  | 0, _ => failure
  | _ + 1, [] => pure []
  | fuel + 1, item :: rest => do
    let origin ← Origin.ofDatum (item.get "span")
    let key ← (Key.ofDatum? (item.get "key") : Option Key)
    let keySpan ← (Datum.optional? Span.ofDatum? (item.get "keySpan") : Option (Option Span))
    let value ← ofDatumWithin fuel (item.get "value")
    pure ({ origin := origin, key, keySpan, value } :: (← propsOfData fuel rest))

end

end Expr

mutual

/-- The number of values in a datum. -/
def Datum.size : Datum → Nat
  | .list items => 1 + Datum.sizeOfItems items
  | .record fields => 1 + Datum.sizeOfFields fields
  | _ => 1

/-- The number of values in some data. -/
def Datum.sizeOfItems : List Datum → Nat
  | [] => 0
  | item :: rest => 1 + Datum.size item + Datum.sizeOfItems rest

/-- The number of values in some fields. -/
def Datum.sizeOfFields : List (String × Datum) → Nat
  | [] => 0
  | (_, value) :: rest => 1 + Datum.size value + Datum.sizeOfFields rest

end

/-- The tree that plain data make. -/
def Expr.ofDatum (datum : Datum) : Marked Expr :=
  Expr.ofDatumWithin (2 * datum.size) datum

/-- The properties that plain data make. -/
def Property.listOfDatum (datum : Datum) : Marked (List Property) := do
  let items ← (datum.list? : Option (List Datum))
  Expr.propsOfData (2 * datum.size + 2) items

end Statechart
