import Statechart.Proofs.StatePaths

/-!
# References survive

Renaming a state, moving it or giving it an id keeps the references of a well-formed draft: the
edges are the same, each on its state wherever that has gone, and every descriptor that stood for
a state stands for it still.

* `Edit.pathMap`: where an edit sends the states;
* `Editor.Rebases`: the draft has its states where a map sends them, and is mended;
* `Editor.references_survive`: what this means for the references.
-/

namespace Statechart

open Property Draft

/-- Where an edit sends the states. -/
def Edit.pathMap : Edit → StatePath → StatePath
  | renameState path name => Editor.movePath path (path.dropLast ++ [name])
  | reparentState path newParent => Editor.movePath path (newParent ++ path.getLast?.toList)
  | _ => fun path => path

/-- Whether an edit changes the name, the place or the id of a state. -/
def Edit.isStructural : Edit → Bool
  | renameState .. | reparentState .. | setStateId .. => true
  | _ => false

namespace Editor

variable {editor : Editor}

theorem splitPath?_eq_some_iff {path parent : StatePath} {key : String} :
    splitPath? path = some (parent, key) ↔ path = parent ++ [key] := by
  rw [splitPath?]
  constructor
  · intro h
    obtain ⟨last, hlast, heq⟩ := Option.map_eq_some_iff.1 h
    cases heq
    exact (List.dropLast_append_getLast? _ hlast).symm
  · rintro rfl
    simp

variable (editor) in
/-- What a change of names, places or ids gives: either nothing goes elsewhere and the draft is
    as it was, or each state has gone to where `move` sends it and descriptors are mended. -/
def Rebases (move : StatePath → StatePath) (draft' : Expr) : Prop :=
  (∀ path, move path = path) ∧ draft' = editor.draft ∨
    ∃ draft, Relocated move editor.draft draft ∧ editor.rebase draft move = .ok draft'

section

variable (hcurrent : editor.Current) (hold : WellFormed editor.draft) {draft' : Expr}

include hcurrent hold

theorem rebases_renameState {path : StatePath} {name : String}
    (h : editor.renameState path name = .ok draft') :
    editor.Rebases (Edit.renameState path name).pathMap draft' := by
  rw [renameState] at h
  split at h
  · cases h
  · next parent key hsplit =>
    rw [splitPath?_eq_some_iff] at hsplit
    subst hsplit
    rw [Edit.pathMap, List.dropLast_concat]
    obtain ⟨node, hnode, h⟩ := bind_eq_ok.1 h
    have hat := hcurrent.at_of_node hnode
    -- The old name is accepted and changes nothing.
    split at h
    · next heq =>
      cases h
      exact .inl ⟨fun p => heq ▸ movePath_self _ p, rfl⟩
    · next hne =>
      obtain ⟨_, -, h⟩ := bind_eq_ok.1 h
      dsimp only at h
      split at h
      · cases h
      · next hchild =>
        obtain ⟨draft, hdraft, h⟩ := bind_eq_ok.1 h
        -- The name was free among the siblings.
        obtain ⟨above, habove, -, hatAbove, -⟩ := Graph.parent?_of_at hcurrent.wellFormed hat
        rw [habove, Option.bind_some] at hchild
        have hfree := hcurrent.stateProps?_of_child? hatAbove hchild
        obtain ⟨props, new, hprops, hnew, rfl⟩ := modifyState_eq_ok.1 hdraft
        cases hnew
        refine .inr ⟨_, (moved_renameChild hprops (fun states hstates => ?_) hfree
          (Ne.symm hne)).relocated, h⟩
        exact ⟨namesDistinct_stateProps? hold.names hprops hstates,
          hold.hasName_eq_false hprops hstates hfree⟩

omit hold in
theorem rebases_reparentState {path newParent : StatePath}
    (h : editor.reparentState path newParent = .ok draft') :
    editor.Rebases (Edit.reparentState path newParent).pathMap draft' := by
  rw [reparentState] at h
  split at h
  · cases h
  · next parent key hsplit =>
    rw [splitPath?_eq_some_iff] at hsplit
    subst hsplit
    rw [Edit.pathMap, List.getLast?_concat, Option.toList_some]
    obtain ⟨node, hnode, h⟩ := bind_eq_ok.1 h
    obtain ⟨target, htarget, h⟩ := bind_eq_ok.1 h
    have hat := hcurrent.at_of_node hnode
    have hatTarget := hcurrent.at_of_node htarget
    dsimp only at h
    split at h
    · cases h
    -- The old parent is accepted and changes nothing.
    · split at h
      · next hsame =>
        cases h
        obtain ⟨above, habove, -, hatAbove, -⟩ := Graph.parent?_of_at hcurrent.wellFormed hat
        obtain rfl := Option.some.inj (habove.symm.trans hsame)
        obtain rfl := hatAbove.path_unique hatTarget
        exact .inl ⟨movePath_self _, rfl⟩
      · split at h
        · cases h
        · next hchild =>
          obtain ⟨props, hprops, h⟩ := bind_eq_ok.1 h
          rw [state_eq_ok] at hprops
          split at h
          · cases h
          · next child left htake =>
            obtain ⟨draft, hdraft, h⟩ := bind_eq_ok.1 h
            obtain ⟨props', new, hprops', hnew, rfl⟩ := modifyState_eq_ok.1 hdraft
            have happend : appendChild? props' child = some new := by
              split at hnew
              · next happend => cases hnew; exact happend
              · cases hnew
            exact .inr ⟨_, (moved_appendChild hprops htake hprops' happend
              (hcurrent.stateProps?_of_child? hatTarget hchild)).relocated, h⟩

end

theorem rebases_setStateId {path : StatePath} {id : Option String} {draft' : Expr}
    (h : editor.setStateId path id = .ok draft') :
    editor.Rebases (Edit.setStateId path id).pathMap draft' := by
  rw [setStateId] at h
  obtain ⟨node, -, h⟩ := bind_eq_ok.1 h
  dsimp only at h
  split at h
  · cases h
  · split at h
    · cases h
    · obtain ⟨draft, hdraft, h⟩ := bind_eq_ok.1 h
      obtain ⟨props, new, hprops, hnew, rfl⟩ := modifyState_eq_ok.1 hdraft
      cases hnew
      exact .inr ⟨_, relocated_setId hprops id, h⟩

/-- Where nothing changes, references survive. -/
theorem survive_self (hcurrent : editor.Current) (hold : WellFormed editor.draft)
    {move : StatePath → StatePath} (hmove : ∀ path, move path = path) :
    editor.graph.Survive editor.graph move := by
  have hnodup := nodup_edges_graph hcurrent
  have hids : editor.graph.DistinctIds :=
    hcurrent.graph_eq ▸ (extractionOf_addressable hold.toAddressable hold.object).distinct
  refine ⟨fun path => ?_, ?_, hnodup, fun edge hedge newEdge hnewEdge haddress => ?_⟩
  · simp only [hmove, exists_eq_right]
  · simp only [hmove]
    rfl
  · rw [hmove] at haddress
    obtain rfl := List.inj_on_of_nodup_map hnodup hnewEdge hedge haddress
    refine List.forall₂_same.2 fun descriptor _ => ⟨fun target htarget => ?_, fun _ => rfl⟩
    refine ⟨target, htarget, ?_, fun _ => rfl⟩
    rw [hmove]
    exact Graph.exists_at_of_resolve? hcurrent.wellFormed hids (hcurrent.at_source hedge) htarget

/-- Renaming a state, moving it and giving it an id keep the references of a well-formed draft,
    if the new name or id keeps it well formed. -/
theorem references_survive {editor' : Editor} {edit : Edit} (hreached : editor.Reached)
    (hold : WellFormed editor.draft) (hedit : edit.isStructural = true)
    (h : editor.apply edit = .ok editor') (hnew : WellFormed editor'.draft) :
    editor.graph.Survive editor'.graph edit.pathMap := by
  have hcurrent := hreached.current
  -- Each of the three edits moves states along its path map and mends the descriptors.
  obtain ⟨draft', hrevise, rfl⟩ := exists_of_apply h
  have hrebases : editor.Rebases edit.pathMap draft' := by
    cases edit with
    | renameState path name => exact rebases_renameState hcurrent hold hrevise
    | reparentState path newParent => exact rebases_reparentState hcurrent hrevise
    | setStateId path id => exact rebases_setStateId hrevise
    | _ => cases hedit
  rcases hrebases with ⟨hmove, rfl⟩ | ⟨draft, hmoved, hrebase⟩
  · have hgraph : (editor.withDraft editor.draft).graph = editor.graph := hcurrent.graph_eq.symm
    rw [hgraph]
    exact survive_self hcurrent hold hmove
  · exact survive_rebase hcurrent hold hmoved hrebase hnew

/-- A state that moves next to another `b` than its sibling names its old sibling by the root,
    and is itself named by its new path. A relative descriptor is left alone. -/
theorem references_survive_capture : ∃ editor editor',
    ofText? "createMachine(\x7bid: 'm', states: \x7b
      a: \x7bon: \x7bGO: 'b', IN: '.x'\x7d, states: \x7bx: \x7b\x7d\x7d\x7d,
      b: \x7bon: \x7bUP: \x7btarget: ['#m.a', 'c.b']\x7d\x7d\x7d,
      c: \x7bstates: \x7bb: \x7b\x7d\x7d\x7d\x7d\x7d)" [] = some editor ∧
    editor.apply (.reparentState ["a"] ["c"]) = .ok editor' ∧
    editor'.graph.edges.map (·.descriptors) = [["#m.c.a", "c.b"], ["#m.b"], [".x"]] ∧
    editor.graph.Survive editor'.graph (movePath ["a"] ["c", "a"]) := by
  have hfound : (ofText? "createMachine(\x7bid: 'm', states: \x7b
      a: \x7bon: \x7bGO: 'b', IN: '.x'\x7d, states: \x7bx: \x7b\x7d\x7d\x7d,
      b: \x7bon: \x7bUP: \x7btarget: ['#m.a', 'c.b']\x7d\x7d\x7d,
      c: \x7bstates: \x7bb: \x7b\x7d\x7d\x7d\x7d\x7d)" []).any (fun editor =>
        decide (WellFormed editor.draft) &&
          (editor.apply (.reparentState ["a"] ["c"])).toOption.any fun editor' =>
            decide (WellFormed editor'.draft) &&
              editor'.graph.edges.map (·.descriptors) = [["#m.c.a", "c.b"], ["#m.b"], [".x"]]) =
      true := by decide +kernel
  obtain ⟨editor, heditor, h⟩ := (Option.any_eq_true _ _).1 hfound
  rw [Bool.and_eq_true, decide_eq_true_eq] at h
  obtain ⟨editor', hedited, h'⟩ := (Option.any_eq_true _ _).1 h.2
  rw [Bool.and_eq_true, decide_eq_true_eq, decide_eq_true_eq] at h'
  have happly : editor.apply (.reparentState ["a"] ["c"]) = .ok editor' := by
    cases happly : editor.apply (.reparentState ["a"] ["c"]) with
    | error e => rw [happly] at hedited; cases hedited
    | ok found => rw [happly] at hedited; cases hedited; rfl
  exact ⟨editor, editor', heditor, happly, h'.2,
    references_survive (reached_of_ofText? heditor) h.1 rfl happly h'.1⟩

end Editor

end Statechart
