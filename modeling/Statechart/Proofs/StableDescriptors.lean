import Statechart.Proofs.DescriptorFamilies
import Statechart.Proofs.Resolution

/-!
# Descriptors that stay as they are

A descriptor that stands for a state is written for that state again just as it is, whatever the
keys and the ids of the states are: keys that are empty, ids with points or given twice, and the id
of a root without one in writing. Reading takes the text apart, and what is written is put together
from the paths and the ids of the states that are found; so each step of reading leaves behind the
part of the text that it has read.

* `joinKeys_keysOf`, `splitDescriptor_eq`, `splitAnchor?_eq_some`: the parts of a text make up
  the text;
* `Graph.anchorId_of_lookupId?`: a state that an id finds is written with that id;
* `Graph.descriptorLike_of_resolve?`: what stands for a state is written for it again.
-/

namespace Statechart

/-! ## Texts from their parts -/

theorem keysOf_ne_nil (text : List Char) : keysOf text ≠ [] := by
  rw [keysOf, ne_eq, List.map_eq_nil_iff]
  fun_cases Text.splitOnChar '.' text <;> simp [*]

/-- A character before the first key. -/
theorem joinKeys_ofList_cons (c : Char) (piece : List Char) (keys : List String) :
    Graph.joinKeys (String.ofList (c :: piece) :: keys) =
      String.singleton c ++ Graph.joinKeys (String.ofList piece :: keys) := by
  cases keys with
  | nil =>
    rw [Graph.joinKeys, Graph.joinKeys, String.intercalate_singleton,
      String.intercalate_singleton, String.ofList_cons]
  | cons key keys =>
    rw [joinKeys_cons_cons, joinKeys_cons_cons, String.ofList_cons]
    simp only [String.append_assoc]

/-- The keys between the points of a text make up the text. -/
theorem joinKeys_keysOf (text : List Char) :
    Graph.joinKeys (keysOf text) = String.ofList text := by
  induction text with
  | nil => rfl
  | cons c text ih =>
    obtain ⟨key, keys, hkeys⟩ := List.exists_cons_of_ne_nil (keysOf_ne_nil text)
    rw [keysOf] at hkeys ih ⊢
    rw [Text.splitOnChar]
    split
    · next hc =>
      rw [List.map_cons, hkeys, joinKeys_cons_cons, ← hkeys, ih, beq_iff_eq.1 hc,
        String.ofList_nil, String.empty_append, String.ofList_cons]
      rfl
    · cases hsplit : Text.splitOnChar '.' text with
      | nil => rw [hsplit] at hkeys; cases hkeys
      | cons piece pieces =>
        rw [hsplit, List.map_cons] at ih
        dsimp only
        rw [List.map_cons, joinKeys_ofList_cons, ih, String.ofList_cons]

/-- The mark that descriptors of a family start with. -/
def Family.mark : Family → String
  | .sibling => ""
  | .relative => "."
  | .idAnchored => "#"

/-- A descriptor is the mark of its family and the text after it. -/
theorem splitDescriptor_eq {descriptor : String} {family : Family} {rest : List Char}
    (h : splitDescriptor descriptor = (family, rest)) :
    descriptor = family.mark ++ String.ofList rest := by
  have htext : String.ofList descriptor.toList = descriptor := String.ofList_toList
  rw [splitDescriptor] at h
  split at h <;> cases h
  · next heq => rw [← htext, heq, String.ofList_cons]; rfl
  · next heq => rw [← htext, heq, String.ofList_cons]; rfl
  · rw [Family.mark, String.empty_append, htext]

/-- An id, a point and keys make up the text that they are taken from. -/
theorem splitAnchor?_eq_some {text : List Char} {id : String} {keys : List String}
    (h : splitAnchor? text = some (id, keys)) :
    String.ofList (text.takeWhile (· != '.')) = id ∧ keys ≠ [] ∧
      String.ofList text = id ++ "." ++ Graph.joinKeys keys := by
  rw [splitAnchor?] at h
  split at h
  · cases h
  · next c rest hdrop =>
    cases h
    refine ⟨rfl, keysOf_ne_nil rest, ?_⟩
    have hc : c = '.' := by
      have hhead := List.head?_dropWhile_not (· != '.') text
      rw [hdrop] at hhead
      simpa using hhead
    have htext := List.takeWhile_append_dropWhile (p := (· != '.')) (l := text)
    rw [hdrop, hc] at htext
    calc String.ofList text
        = String.ofList (text.takeWhile (· != '.')) ++ String.ofList ('.' :: rest) := by
          rw [← String.ofList_append, htext]
      _ = String.ofList (text.takeWhile (· != '.')) ++ "." ++ Graph.joinKeys (keysOf rest) := by
          rw [joinKeys_keysOf, String.ofList_cons, String.append_assoc]
          rfl

namespace Graph

variable {graph : Graph} (hgraph : graph.WellFormed)

include hgraph

/-! ## Families of descriptors -/

/-- A state that an id finds is written with that id, whether or not others have it too. -/
theorem anchorId_of_lookupId? {id : String} {anchor : NodeId}
    (h : graph.lookupId? id = some anchor) :
    (if anchor == root then graph.rootId else graph.stateId anchor) = id := by
  rw [lookupId?] at h
  split at h
  · next node hnode =>
    cases h
    obtain ⟨holder, hholder, rfl⟩ := Option.map_eq_some_iff.1 hnode
    have hid := List.find?_some hholder
    have hgiven : graph.explicitId? holder.id = some id := by
      rw [explicitId?, node?, hgraph.getElem?_of_mem (List.mem_of_find?_eq_some hholder)]
      exact beq_iff_eq.1 hid
    split
    · next hroot => rw [rootId, ← beq_iff_eq.1 hroot, hgiven, Option.getD_some]
    · rw [stateId, hgiven]
  · split at h
    · next himplicit =>
      cases h
      rw [Bool.and_eq_true, Option.isNone_iff_eq_none, beq_iff_eq] at himplicit
      rw [if_pos (beq_self_eq_true root), rootId, himplicit.1, Option.getD_none, himplicit.2]
    · cases h

variable {source target : NodeId} {path : StatePath} {keys : List String}

/-- The keys that lead from the parent of the source are written for what they lead to. -/
theorem siblingPath?_of_at (hsource : graph.At source path)
    (htarget : graph.At target (path.dropLast ++ keys)) (hkeys : keys ≠ []) :
    graph.siblingPath? source target = some (joinKeys keys) := by
  have hbase := at_siblingBase hgraph hsource
  rw [siblingPath?, if_pos ((isDescendant_iff hgraph htarget hbase).2 ⟨keys, rfl, hkeys⟩),
    keysBelow_eq hbase htarget]

/-- The keys that lead from the source are written for what they lead to. -/
theorem relativeForm?_of_at (hsource : graph.At source path)
    (htarget : graph.At target (path ++ keys)) (hkeys : keys ≠ []) :
    graph.relativeForm? source target = some ("." ++ joinKeys keys) := by
  rw [relativeForm?, if_pos ((isDescendant_iff hgraph htarget hsource).2 ⟨keys, rfl, hkeys⟩),
    keysBelow_eq hsource htarget]

/-- An id and the keys that lead from its state are written for what they lead to. -/
theorem anchoredAt_of_lookupId? {id : String} {anchor : NodeId}
    (hanchor : graph.lookupId? id = some anchor) (hat : graph.At anchor path)
    (htarget : graph.At target (path ++ keys)) (hkeys : keys ≠ []) :
    graph.anchoredAt anchor target = "#" ++ (id ++ "." ++ joinKeys keys) := by
  simp only [anchoredAt, anchorId_of_lookupId? hgraph hanchor, keysBelow_eq hat htarget]
  rw [if_neg (by simpa using hkeys)]
  simp only [String.append_assoc]

/-- A descriptor that stands for a state is written for it again as it is. -/
theorem descriptorLike_of_resolve? {descriptor : String} (hsource : graph.At source path)
    (h : graph.resolve? source descriptor = some target) :
    graph.descriptorLike source target descriptor = descriptor := by
  rcases hparts : splitDescriptor descriptor with ⟨family, rest⟩
  have htext := splitDescriptor_eq hparts
  rw [resolve?, hparts] at h
  rw [descriptorLike, hparts]
  cases family with
  | sibling =>
    have htarget := (descend?_eq_some_iff hgraph (at_siblingBase hgraph hsource)).1 h
    have hpath := siblingPath?_of_at hgraph hsource htarget (keysOf_ne_nil rest)
    rw [Family.mark, String.empty_append] at htext
    rw [joinKeys_keysOf, ← htext] at hpath
    dsimp only
    -- Where the key of a sibling is written, it is the whole way from the parent.
    split
    · next text hform =>
      rw [siblingPath?_of_siblingForm hgraph hsource htarget hform] at hpath
      exact Option.some.inj hpath
    · rw [hpath, Option.getD_some]
  | relative =>
    have htarget := (descend?_eq_some_iff hgraph hsource).1 h
    dsimp only
    rw [relativeForm?_of_at hgraph hsource htarget (keysOf_ne_nil rest), Option.getD_some,
      joinKeys_keysOf]
    exact htext.symm
  | idAnchored =>
    dsimp only at h ⊢
    split at h
    · next node hwhole => rw [if_pos (beq_iff_eq.2 (hwhole.trans h))]
    · next hwhole =>
      obtain ⟨⟨id, keys⟩, hsplit, h⟩ := Option.bind_eq_some_iff.1 h
      obtain ⟨anchor, hanchor, h⟩ := Option.bind_eq_some_iff.1 h
      obtain ⟨hid, hkeys, hrest⟩ := splitAnchor?_eq_some hsplit
      have hat := at_of_lookupId? hgraph hanchor
      have htarget := (descend?_eq_some_iff hgraph hat).1 h
      have hbelow := (isSelfOrDescendant_iff hgraph htarget hat).2 ⟨keys, rfl⟩
      rw [if_neg (by rw [hwhole]; exact Bool.false_ne_true), hid, hanchor]
      dsimp only
      rw [if_pos hbelow, anchoredAt_of_lookupId? hgraph hanchor hat htarget hkeys, ← hrest]
      exact htext.symm

end Graph

/-- In the graph of every description, a descriptor on a state that stands for another is written
    for it again as it is. -/
theorem descriptors_stable (config : Expr) (options setup : Option Expr)
    {source target : NodeId} (descriptor : String)
    (hsource : source < (extract config options setup).graph.nodes.length)
    (h : (extract config options setup).graph.resolve? source descriptor = some target) :
    (extract config options setup).graph.descriptorLike source target descriptor = descriptor :=
  Graph.descriptorLike_of_resolve? (extract_wellFormed config options setup)
    (Graph.at_pathOf hsource) h

/-- Two states have an id with a point, and a third has the part before the point, with an empty key
    two levels below: a point more leads there, and both texts stay as they are. -/
theorem descriptors_stable_dottedIds :
    let config : Expr := .ofProps [.ofPair "states" (.ofProps [
      .ofPair "a" (.ofProps [.ofPair "id" (.ofText "x.y")]),
      .ofPair "b" (.ofProps [.ofPair "id" (.ofText "x.y")]),
      .ofPair "c" (.ofProps [.ofPair "id" (.ofText "x"), .ofPair "states" (.ofProps [
        .ofPair "y" (.ofProps [.ofPair "states" (.ofProps [.ofPair "" (.ofProps [])])])])])])]
    let graph := (extract config none none).graph
    graph.nodes.map (·.path) = [[], ["a"], ["b"], ["c"], ["c", "y"], ["c", "y", ""]] ∧
      (graph.resolve? 2 "#x.y" = some 1 ∧ graph.descriptorLike 2 1 "#x.y" = "#x.y") ∧
      graph.resolve? 2 "#x.y." = some 5 ∧ graph.descriptorLike 2 5 "#x.y." = "#x.y." := by
  intro config graph
  have hpaths : graph.nodes.map (·.path) =
      [[], ["a"], ["b"], ["c"], ["c", "y"], ["c", "y", ""]] := by decide +kernel
  have hsource : 2 < graph.nodes.length := by
    have hlength : graph.nodes.length = 6 := by simpa using congrArg List.length hpaths
    omega
  have hwhole : graph.resolve? 2 "#x.y" = some 1 := by decide +kernel
  have hbelow : graph.resolve? 2 "#x.y." = some 5 := by decide +kernel
  exact ⟨hpaths, ⟨hwhole, descriptors_stable config none none _ hsource hwhole⟩, hbelow,
    descriptors_stable config none none _ hsource hbelow⟩

end Statechart
