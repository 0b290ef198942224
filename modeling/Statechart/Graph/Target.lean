import Statechart.Graph.Query
import Statechart.Text.Lines

/-!
# Target descriptors

A transition names its targets by *descriptors*, of three families:

* of a sibling, `b` or `b.c`: keys to follow from the parent of the source;
* relative, `.c.d`: keys to follow from the source itself;
* anchored, `#id` or `#id.c`: keys to follow from the state with that id.

`resolve?` reads a descriptor, `descriptorFor` writes one for a new target, and
`descriptorLike` writes one for a target that already had one, in the same family
if that can name it.
-/

namespace Statechart

/-- The families of descriptors. -/
inductive Family where
  | sibling
  | relative
  | idAnchored
  deriving DecidableEq, Repr

/-- The name of a family. -/
def Family.name : Family → String
  | sibling => "sibling"
  | relative => "relative"
  | idAnchored => "idAnchored"

/-- A descriptor taken apart: its family, and the text after the mark of it. -/
def splitDescriptor (descriptor : String) : Family × List Char :=
  match descriptor.toList with
  | '#' :: rest => (.idAnchored, rest)
  | '.' :: rest => (.relative, rest)
  | rest => (.sibling, rest)

/-- The family of a descriptor. -/
def Family.of (descriptor : String) : Family :=
  (splitDescriptor descriptor).1

/-- The keys between the points. -/
def keysOf (text : List Char) : List String :=
  (Text.splitOnChar '.' text).map String.ofList

/-- The text before the first point, and the keys after it, if there is a point. -/
def splitAnchor? (text : List Char) : Option (String × List String) :=
  match text.dropWhile (· != '.') with
  | [] => none
  | _ :: rest => some (String.ofList (text.takeWhile (· != '.')), keysOf rest)

namespace Graph

/-- The id of a root without one in writing. -/
def defaultRootId : String := "(machine)"

variable (graph : Graph)

/-- The id of the root. -/
def rootId : String :=
  (graph.explicitId? root).getD defaultRootId

/-- Keys with points between them. -/
def joinKeys (keys : List String) : String :=
  ".".intercalate keys

/-- The id of a state: the one in writing, or that of the root and the path. -/
def stateId (id : NodeId) : String :=
  match graph.explicitId? id with
  | some text => text
  | none =>
    let path := graph.pathOf id
    if path.isEmpty then graph.rootId else graph.rootId ++ "." ++ joinKeys path

/-- The state with this id. -/
def lookupId? (id : String) : Option NodeId :=
  match graph.nodeWithId? id with
  | some node => some node
  | none =>
    if (graph.explicitId? root).isNone && id == defaultRootId then some root else none

/-- The state that the keys of sibling descriptors start from: the parent of the
    source, or the root itself. -/
def siblingBase (source : NodeId) : NodeId :=
  (graph.parent? source).getD root

/-- The state that a descriptor written on `source` stands for. An anchored
    descriptor is first taken as an id as a whole. -/
def resolve? (source : NodeId) (descriptor : String) : Option NodeId :=
  match splitDescriptor descriptor with
  | (.idAnchored, rest) =>
    match graph.lookupId? (String.ofList rest) with
    | some node => some node
    | none =>
      (splitAnchor? rest).bind fun (id, keys) =>
        (graph.lookupId? id).bind fun anchor => graph.descend? anchor keys
  | (.relative, rest) => graph.descend? source (keysOf rest)
  | (.sibling, rest) => graph.descend? (graph.siblingBase source) (keysOf rest)

/-- The keys that lead from a state to one at or below it. -/
def keysBelow (base target : NodeId) : List String :=
  (graph.pathOf target).drop (graph.pathOf base).length

/-- The key of the target, if it is a sibling of the source or the source itself. -/
def siblingForm? (source target : NodeId) : Option String :=
  (graph.parent? source).bind fun parent =>
    if graph.parent? target == some parent then (graph.node? target).map (·.key) else none

/-- The keys from a sibling of the source down to the target, if there is one. -/
def siblingPath? (source target : NodeId) : Option String :=
  let base := graph.siblingBase source
  if graph.isDescendant target base then some (joinKeys (graph.keysBelow base target)) else none

/-- The relative form, if the target lies below the source. -/
def relativeForm? (source target : NodeId) : Option String :=
  if graph.isDescendant target source then
    some ("." ++ joinKeys (graph.keysBelow source target))
  else none

/-- The form anchored at a state at or above the target. -/
def anchoredAt (anchor target : NodeId) : String :=
  let id := if anchor == root then graph.rootId else graph.stateId anchor
  let keys := graph.keysBelow anchor target
  if keys.isEmpty then "#" ++ id else "#" ++ id ++ "." ++ joinKeys keys

/-- The form anchored at the nearest state with an id, from the target upwards. -/
def anchoredForm (target : NodeId) : String :=
  let anchor := ((target :: graph.ancestors target).find? fun id =>
    (graph.explicitId? id).isSome).getD root
  graph.anchoredAt anchor target

/-- The descriptor for a new target. -/
def descriptorFor (source target : NodeId) : String :=
  match graph.siblingForm? source target with
  | some text => text
  | none => (graph.relativeForm? source target).getD (graph.anchoredForm target)

/-- The descriptor for a target that was named by `previous` before. -/
def descriptorLike (source target : NodeId) (previous : String) : String :=
  match splitDescriptor previous with
  | (.sibling, _) =>
    match graph.siblingForm? source target with
    | some text => text
    | none => (graph.siblingPath? source target).getD (graph.descriptorFor source target)
  | (.relative, _) => (graph.relativeForm? source target).getD (graph.descriptorFor source target)
  | (.idAnchored, rest) =>
    if graph.lookupId? (String.ofList rest) == some target then previous
    else
      match graph.lookupId? (String.ofList (rest.takeWhile (· != '.'))) with
      | some anchor =>
        if graph.isSelfOrDescendant target anchor then graph.anchoredAt anchor target
        else graph.anchoredForm target
      | none => graph.anchoredForm target

/-- Whether a transition is internal when nothing says so: all its targets are the
    source or lie below it. -/
def isInternalByDefault (source : NodeId) (targets : List NodeId) : Bool :=
  targets.all (graph.isSelfOrDescendant · source)

end Graph

end Statechart
