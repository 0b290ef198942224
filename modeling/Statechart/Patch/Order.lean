import Statechart.Patch.Basic

/-!
# The order of a batch

The patches of a batch are a set: each is made once, and in an order that does not
depend on the order in which they are given. Patches are made in *phases*, so that
what one refers to is there and has not gone yet:

* nodes are added, parents before children, and then changed;
* edges are removed, changed and added;
* descriptions are replaced;
* blocks are removed, changed and added;
* nodes are removed, children before parents.

Within a phase, patches are ordered by their kinds and parts: a batch is sorted in that
order first, so that equal patches come to stand side by side and all but one can be
dropped, and then by phases, with a sort that leaves the rest as it is.
-/

namespace Statechart.Patch

/-- The phase in which a patch is made. -/
def phase : Patch → Nat
  | addNode .. => 0
  | replaceNodeKey .. => 1
  | replaceNodeParent .. => 2
  | replaceNodeId .. => 3
  | replaceNodeType .. => 4
  | replaceNodeInitial .. => 5
  | removeEdge .. => 6
  | replaceEdgeSource .. => 7
  | replaceEdgeSlot .. => 8
  | replaceEdgeTargets .. => 9
  | replaceEdgeInternal .. => 10
  | addEdge .. => 11
  | replaceDescription .. => 12
  | removeBlock .. => 13
  | replaceBlockSource .. => 14
  | addBlock .. => 15
  | removeNode .. => 16

/-- An integer as 64 bits with a sign hold it. -/
def wrap64 (n : Int) : Int :=
  n.bmod 18446744073709551616

/-- The rank within the phase: additions go down the hierarchy, and removals up. -/
def rank (depth : NodeId → Nat) : Patch → Int
  | addNode node _ _ => wrap64 (depth node)
  | removeNode node => wrap64 (-(depth node : Int))
  | _ => 0

/-- Whether a patch comes before another in the order of kinds and parts, or is the
    other. -/
def ordered (a b : Patch) : Bool :=
  (compare a b).isLE

/-- Whether a patch may be made before another: its phase comes first, or its rank in
    the phase, or neither does. -/
def sooner (depth : NodeId → Nat) (a b : Patch) : Bool :=
  a.phase < b.phase || a.phase == b.phase && a.rank depth ≤ b.rank depth

/-- The patches of a batch, each once, in the order in which they are made. `depth`
    tells how deep a node lies. -/
def canonicalOrder (depth : NodeId → Nat) (patches : List Patch) : List Patch :=
  (patches.mergeSort ordered).eraseReps.mergeSort (sooner depth)

end Statechart.Patch
