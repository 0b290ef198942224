import Statechart.Proofs.WellFormedness

/-!
# Families of written descriptors

A descriptor that is written in the place of another is read back as its target, and it is of
the same family as the other just if that family can name the target from the source.

* `Family.Reaches`: the targets that descriptors of a family can name;
* `Graph.family_descriptorLike_iff`: the family is kept if it reaches the target, and only then;
* `descriptors_roundTrip`: the two together, for the graph of a description.
-/

namespace Statechart

/-! ## Families by their forms -/

theorem Family.of_hash (text : String) : Family.of ("#" ++ text) = .idAnchored := by
  rw [Family.of, splitDescriptor_hash]

theorem Family.of_point (text : String) : Family.of ("." ++ text) = .relative := by
  rw [Family.of, splitDescriptor_point]

theorem Family.of_joinKeys {key : String} (hkey : PlainKey key) (keys : List String) :
    Family.of (Graph.joinKeys (key :: keys)) = .sibling := by
  rw [Family.of, splitDescriptor_joinKeys hkey]

/-- The targets that the descriptors of a family can name: anchored ones name every state,
    relative ones the states below the source, and those of siblings the states below its
    parent, or below the root if the source is the root. -/
def Family.Reaches : Family → StatePath → StatePath → Prop
  | .idAnchored, _, _ => True
  | .relative, source, target => ∃ keys, target = source ++ keys ∧ keys ≠ []
  | .sibling, source, target => ∃ keys, target = source.dropLast ++ keys ∧ keys ≠ []

namespace Graph

variable {graph : Graph} {source target : NodeId} {p q : StatePath}

theorem family_anchoredAt (anchor target : NodeId) :
    Family.of (graph.anchoredAt anchor target) = .idAnchored := by
  simp only [anchoredAt]
  split
  · exact Family.of_hash _
  · rw [String.append_assoc, String.append_assoc]
    exact Family.of_hash _

theorem family_anchoredForm (target : NodeId) :
    Family.of (graph.anchoredForm target) = .idAnchored :=
  family_anchoredAt _ target

section Forms

variable (hgraph : graph.WellFormed) (hsource : graph.At source p) (htarget : graph.At target q)

include hgraph hsource htarget

/-- There is a relative form for the states below the source. -/
theorem isSome_relativeForm?_iff :
    (graph.relativeForm? source target).isSome ↔ Family.relative.Reaches p q := by
  rw [Family.Reaches, ← isDescendant_iff hgraph htarget hsource, relativeForm?]
  split <;> simp [*]

/-- There is a form with the keys from a sibling for the states below the parent. -/
theorem isSome_siblingPath?_iff :
    (graph.siblingPath? source target).isSome ↔ Family.sibling.Reaches p q := by
  rw [Family.Reaches, ← isDescendant_iff hgraph htarget (at_siblingBase hgraph hsource),
    siblingPath?]
  split <;> simp [*]

omit hgraph hsource htarget in
theorem family_relativeForm {text : String} (h : graph.relativeForm? source target = some text) :
    Family.of text = .relative := by
  rw [relativeForm?] at h
  split at h
  · cases h
    exact Family.of_point _
  · cases h

/-- The key of a sibling is the path from the parent to it. -/
theorem siblingPath?_of_siblingForm {text : String}
    (h : graph.siblingForm? source target = some text) :
    graph.siblingPath? source target = some text := by
  obtain ⟨parent, hparent, h⟩ := Option.bind_eq_some_iff.1 h
  split at h
  · next hsame =>
    have hbase : graph.siblingBase source = parent := by rw [siblingBase, hparent]; rfl
    have hat := at_siblingBase hgraph hsource
    rcases List.eq_nil_or_concat' q with rfl | ⟨init, key, rfl⟩
    · obtain rfl := At.unique hgraph htarget (at_root hgraph)
      rw [parent?_root hgraph] at hsame
      cases beq_iff_eq.1 hsame
    · obtain ⟨above, habove, -, hinit, hkey⟩ := parent?_of_at hgraph htarget
      obtain rfl := Option.some.inj (habove.symm.trans (beq_iff_eq.1 hsame))
      obtain rfl := Option.some.inj (hkey.symm.trans h)
      rw [hbase] at hat
      obtain rfl := hat.path_unique hinit
      have hbelow := (isDescendant_iff hgraph htarget hat).2 ⟨_, rfl, List.cons_ne_nil _ _⟩
      simp only [siblingPath?, hbase, hbelow, if_true, keysBelow_eq hat htarget, joinKeys,
        String.intercalate_singleton]
  · cases h

theorem family_siblingPath (h : graph.Addressable) {text : String}
    (htext : graph.siblingPath? source target = some text) : Family.of text = .sibling := by
  have hbase := at_siblingBase hgraph hsource
  rw [siblingPath?] at htext
  split at htext
  · next hbelow =>
    cases htext
    obtain ⟨keys, rfl, hkeys⟩ := (isDescendant_iff hgraph htarget hbase).1 hbelow
    rw [keysBelow_eq hbase htarget]
    cases keys with
    | nil => exact absurd rfl hkeys
    | cons key keys =>
      exact Family.of_joinKeys (h.keys htarget key (by simp)) keys
  · cases htext

/-- A descriptor for a new target is relative only if the target lies below the source. -/
theorem family_descriptorFor_ne_relative (h : graph.Addressable)
    (hnot : ¬Family.relative.Reaches p q) :
    Family.of (graph.descriptorFor source target) ≠ .relative := by
  rw [← isSome_relativeForm?_iff hgraph hsource htarget, Option.not_isSome_iff_eq_none] at hnot
  rw [descriptorFor]
  split
  · next text htext =>
    rw [family_siblingPath hgraph hsource htarget h
      (siblingPath?_of_siblingForm hgraph hsource htarget htext)]
    exact Family.noConfusion
  · rw [hnot, Option.getD_none, family_anchoredForm]
    exact Family.noConfusion

theorem family_descriptorFor_ne_sibling (hnot : ¬Family.sibling.Reaches p q) :
    Family.of (graph.descriptorFor source target) ≠ .sibling := by
  rw [← isSome_siblingPath?_iff hgraph hsource htarget, Option.not_isSome_iff_eq_none] at hnot
  rw [descriptorFor]
  split
  · next text htext =>
    rw [siblingPath?_of_siblingForm hgraph hsource htarget htext] at hnot
    cases hnot
  · cases htext : graph.relativeForm? source target with
    | some text =>
      rw [Option.getD_some, family_relativeForm htext]
      exact Family.noConfusion
    | none =>
      rw [Option.getD_none, family_anchoredForm]
      exact Family.noConfusion

/-- A descriptor that is written in the place of another keeps its family just if the family
    reaches the target. -/
theorem family_descriptorLike_iff (h : graph.Addressable) (previous : String) :
    Family.of (graph.descriptorLike source target previous) = Family.of previous ↔
      (Family.of previous).Reaches p q := by
  rcases hparts : splitDescriptor previous with ⟨family, rest⟩
  have hfamily : Family.of previous = family := by rw [Family.of, hparts]
  rw [hfamily, descriptorLike, hparts]
  cases family with
  | sibling =>
    have hreach := isSome_siblingPath?_iff hgraph hsource htarget
    dsimp only
    split
    · next text htext =>
      have hpath := siblingPath?_of_siblingForm hgraph hsource htarget htext
      exact iff_of_true (family_siblingPath hgraph hsource htarget h hpath)
        (hreach.1 (by rw [hpath]; rfl))
    · cases hpath : graph.siblingPath? source target with
      | some text =>
        exact iff_of_true (family_siblingPath hgraph hsource htarget h hpath)
          (hreach.1 (by rw [hpath]; rfl))
      | none =>
        have hnot : ¬Family.sibling.Reaches p q := fun hr => by
          rw [← hreach, hpath] at hr
          cases hr
        exact iff_of_false (family_descriptorFor_ne_sibling hgraph hsource htarget hnot) hnot
  | relative =>
    have hreach := isSome_relativeForm?_iff hgraph hsource htarget
    dsimp only
    cases htext : graph.relativeForm? source target with
    | some text =>
      exact iff_of_true (family_relativeForm htext) (hreach.1 (by rw [htext]; rfl))
    | none =>
      have hnot : ¬Family.relative.Reaches p q := fun hr => by
        rw [← hreach, htext] at hr
        cases hr
      exact iff_of_false (family_descriptorFor_ne_relative hgraph hsource htarget h hnot) hnot
  | idAnchored =>
    refine iff_of_true ?_ trivial
    dsimp only
    -- The text itself, or one of the anchored forms.
    split
    · exact hfamily
    · split
      · split
        · exact family_anchoredAt _ _
        · exact family_anchoredForm _
      · exact family_anchoredForm _

end Forms

end Graph

/-- Writing a descriptor and reading it is the identity, in the graph of every description whose
    keys and ids can be written, for all sources and targets; and a descriptor written in the
    place of another keeps its family just if that can name the target. -/
theorem descriptors_roundTrip (config : Expr) (options setup : Option Expr)
    (h : (extract config options setup).graph.Addressable) {source target : NodeId}
    (hsource : source < (extract config options setup).graph.nodes.length)
    (htarget : target < (extract config options setup).graph.nodes.length) (previous : String) :
    let graph := (extract config options setup).graph
    graph.resolve? source (graph.descriptorFor source target) = some target ∧
      graph.resolve? source (graph.descriptorLike source target previous) = some target ∧
      (Family.of (graph.descriptorLike source target previous) = Family.of previous ↔
        (Family.of previous).Reaches (graph.pathOf source) (graph.pathOf target)) := by
  have hgraph := extract_wellFormed config options setup
  have hs := Graph.at_pathOf hsource
  have ht := Graph.at_pathOf htarget
  refine ⟨?_, Graph.resolve?_descriptorLike hgraph h previous hs ht,
    Graph.family_descriptorLike_iff hgraph hs ht h previous⟩
  exact (Graph.resolve?_eq_some_iff hgraph h.distinct hs ht).2
    (Graph.refers_descriptorFor hgraph h hs ht)

/-- A state below `a` whose target was named below the state with an id: `a` is not there, so it
    is named below the root, which has no id in writing. -/
theorem descriptors_roundTrip_implicitRoot :
    let config : Expr := .ofProps [.ofPair "states" (.ofProps [
      .ofPair "a" (.ofProps [.ofPair "states" (.ofProps [.ofPair "x" (.ofProps [])])]),
      .ofPair "b" (.ofProps [.ofPair "id" (.ofText "far")])])]
    let graph := (extract config none none).graph
    graph.Addressable ∧ graph.nodes.map (·.path) = [[], ["a"], ["a", "x"], ["b"]] ∧
      graph.descriptorLike 2 1 "#far.old" = "#(machine).a" ∧
      graph.resolve? 2 (graph.descriptorFor 2 1) = some 1 ∧
      graph.resolve? 2 (graph.descriptorLike 2 1 "#far.old") = some 1 ∧
      (Family.of (graph.descriptorLike 2 1 "#far.old") = Family.of "#far.old" ↔
        (Family.of "#far.old").Reaches (graph.pathOf 2) (graph.pathOf 1)) := by
  intro config graph
  have hconfig : Draft.WellFormed config := by decide +kernel
  have hgraph : graph.Addressable := hconfig.toAddressable.graph hconfig.object none none
  have hpaths : graph.nodes.map (·.path) = [[], ["a"], ["a", "x"], ["b"]] := by decide +kernel
  have hlength : graph.nodes.length = 4 := by simpa using congrArg List.length hpaths
  exact ⟨hgraph, hpaths, by decide +kernel, descriptors_roundTrip config none none hgraph
    (by rw [hlength]; decide) (by rw [hlength]; decide) "#far.old"⟩

end Statechart
