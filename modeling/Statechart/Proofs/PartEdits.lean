import Statechart.Proofs.TransitionParts

/-!
# Edits of the parts of a transition

An edit of the guard, the actions, the flag or the description of a transition changes this part of
it. Whatever form the transition takes then, its other parts stay the expressions that they are, and
so do all other transitions.

* `SaysExternal`: the flags that make a transition external;
* `Editor.Restates`: what an edit makes of the parts;
* `Editor.Current.replacesPart`: an edit replaces its transition by one with these parts;
* `Editor.restates_iff`: it does for every edit that is accepted, but for the removals that misread.
-/

namespace Statechart

open Property Draft

/-- A flag that makes a transition external. `reenter: true` and `internal: false` say the same. -/
def SaysExternal (flag : String × Expr) : Prop :=
  flag.1 ∈ ["reenter", "internal"] ∧ Shape.truth? flag.2 = some (flag.1 == "reenter")

namespace Editor

variable {editor editor' : Editor}

theorem truth?_setFlag (value : Bool) (expr : Expr) :
    Shape.truth? (setFlag value expr) = some value := by
  cases expr with
  | bool origin old =>
    rw [setFlag]
    split
    · next heq => exact congrArg some heq
    · rfl
  | _ => rfl

/-- A flag is written under the key in use, or under a new one. -/
theorem partsIn_setFlag {key : String} (hmem : key ∈ ["reenter", "internal"])
    (props : List Property) (hkey : (effectiveKey? props "reenter" "internal").getD key = key) :
    ∃ flag, SaysExternal flag ∧
      partsIn (if hasName props key then modifyValue props key (setFlag (key == "reenter"))
        else props ++ [ofPair key (.ofBool (key == "reenter"))]) =
      { partsIn props with flag := some flag } := by
  cases heffective : effectiveKey? props "reenter" "internal" with
  | some used =>
    obtain rfl : used = key := by rwa [heffective] at hkey
    obtain ⟨-, hname⟩ := effectiveKey?_mem heffective
    obtain ⟨value, hvalue⟩ := Option.isSome_iff_exists.1 ((isSome_value? props used).trans hname)
    refine ⟨(used, setFlag (used == "reenter") value), ⟨hmem, truth?_setFlag _ _⟩, ?_⟩
    rw [if_pos hname, partsIn_of_flag fun other hother =>
        value?_modifyValue_of_ne (ne_of_mem_of_not_mem hmem hother).symm _ _,
      inUse?_modifyValue heffective (by decide), hvalue]
    rfl
  | none =>
    refine ⟨(key, .ofBool (key == "reenter")), ⟨hmem, rfl⟩, ?_⟩
    rw [hasName_of_effectiveKey?_eq_none heffective hmem, if_neg Bool.false_ne_true,
      partsIn_of_flag fun other hother => ?_, inUse?_append heffective hmem]
    exact (value?_append_ofPair _ _ _ _).trans (if_neg (ne_of_mem_of_not_mem hmem hother).symm)

/-- The flag is written where a transition has to say that it is external. -/
theorem partsOf_flagged {source : NodeId} {targets : List NodeId} {external : Bool}
    (h : (external && editor.graph.isInternalByDefault source targets) = true) (item : Expr) :
    ∃ flag, SaysExternal flag ∧
      partsOf (collapse (editor.restateFlag source targets external item)) =
        { partsOf item with flag := some flag } := by
  obtain ⟨origin, props, hpromote⟩ := exists_promote_eq item
  rw [partsOf_collapse, ← partsOf_promote item, restateFlag, if_pos h, hpromote]
  refine partsIn_setFlag (@flagKey_mem editor props) props ?_
  rw [flagKey]
  cases effectiveKey? props "reenter" "internal" <;> rfl

/-- The flag goes where a transition has nothing to say. -/
theorem partsOf_unflagged {source : NodeId} {targets : List NodeId} {external : Bool}
    (h : (external && editor.graph.isInternalByDefault source targets) = false) (item : Expr) :
    partsOf (collapse (editor.restateFlag source targets external item)) =
      { partsOf item with flag := none } := by
  rw [partsOf_collapse, restateFlag, h, if_neg Bool.false_ne_true]
  cases item with
  | object origin props =>
    change partsIn (erasePair props "reenter" "internal") = { partsIn props with flag := none }
    rw [partsIn_of_flag fun name hname => value?_erasePair hname props, inUse?_erasePair]
  | _ => rfl

end Editor

/-! ## Edits of parts -/

/-- Where an edit of a part of a transition looks for it. -/
def Edit.restated? : Edit → Option (StatePath × TransitionPath)
  | .addGuard source place _ | .editGuard source place _ | .removeGuard source place
  | .markTransitionExternal source place _ | .setDescription source (some place) _
  | .addAction ⟨.transition source place, _⟩ _ | .removeAction ⟨.transition source place, _⟩
  | .editAction ⟨.transition source place, _⟩ _ => some (source, place)
  | _ => none

namespace Editor

variable {editor editor' : Editor} {edit : Edit} {source : StatePath} {place : TransitionPath}

variable (editor) in
/-- Whether a transition is internal unless it says that it is external. -/
def isInternalByDefault (source : StatePath) (place : TransitionPath) : Bool :=
  (editor.graph.nodeAt? source).any fun node =>
    (editor.graph.edgeAt? node place).any fun edge =>
      editor.graph.isInternalByDefault node edge.targets

variable (editor) in
/-- What an edit makes of the parts of a transition: one of them is what the edit asks for, and the
    others stay. -/
def Restates (edit : Edit) (parts parts' : Parts) : Prop :=
  match edit with
  | .addGuard _ _ name | .editGuard _ _ name =>
    ∃ guard, Reference.Names .guard guard name ∧ parts' = { parts with guard := some guard }
  | .removeGuard _ _ => parts' = { parts with guard := none }
  | .markTransitionExternal source place external =>
    if external && editor.isInternalByDefault source place then
      ∃ flag, SaysExternal flag ∧ parts' = { parts with flag := some flag }
    else parts' = { parts with flag := none }
  | .setDescription _ _ (some text) =>
    ∃ description, description.text? = some text ∧
      parts' = { parts with description := some description }
  | .setDescription _ _ none => parts' = { parts with description := none }
  | .addAction _ _ | .removeAction _ | .editAction _ _ =>
    ∃ actions, edit.Alters parts.entries ((actions.map OneOrMany.itemsOf).getD []) ∧
      parts' = { parts with actions }
  | _ => False

/-- The list of actions of a transition is changed, and the other parts stay. -/
theorem partsOf_changedActions {f : List Property → String → Option (List Property)}
    {fits : List Expr → Prop} {result : List Expr → Option (List Expr)}
    (hchange : OneOrMany.Changes f fits result) {create : Bool}
    (hcreate : create = false → ¬fits []) {item : Expr} {new : List Property}
    (hnew : f (itemProps (if create then promote item else item)) "actions" = some new) :
    partsOf (collapse ((if create then promote item else item).withProps new)) =
        { partsOf item with actions := value? new "actions" } ∧
      (value? new "actions").map OneOrMany.itemsOf = result (partsOf item).entries := by
  obtain ⟨origin, props, heq⟩ := exists_object_of_changed hchange hcreate hnew
  have hparts : partsOf item = partsIn props := by
    have hpromoted : partsOf (if create then promote item else item) = partsOf item := by
      split
      · exact partsOf_promote item
      · rfl
    rw [← hpromoted, heq]
    rfl
  rw [partsOf_collapse, hparts]
  rw [heq] at hnew ⊢
  exact ⟨partsIn_of_actions (hchange.others hnew), hchange.reads hnew⟩

theorem guardKey_mem (editor : Editor) : editor.guardKey ∈ ["guard", "cond"] := by
  rw [guardKey]
  cases editor.flavor <;> decide

theorem isInternalByDefault_eq {node : NodeId} {edge : Edge} (hnode : editor.node source = .ok node)
    (hedge : editor.edge source place = .ok edge) :
    editor.isInternalByDefault source place =
      editor.graph.isInternalByDefault node edge.targets := by
  obtain ⟨node', hnode', hedge⟩ := bind_eq_ok.1 hedge
  obtain rfl := Except.ok.inj (hnode'.symm.trans hnode)
  rw [isInternalByDefault, node_eq_ok.1 hnode]
  cases hfound : editor.graph.edgeAt? node' place with
  | none => rw [hfound] at hedge; cases hedge
  | some found =>
    rw [hfound] at hedge
    cases hedge
    simp [hfound]

theorem entries_partsOf {item : Expr} (hitem : itemAt? editor.draft source place = some item) :
    (partsOf item).entries = actionsAt editor.draft (.transition source place) := by
  rw [actionsAt_transition hitem]
  cases item <;> rfl

variable (editor) in
/-- An edit that leads to a draft replaces a transition by one that has the part changed, and the
    others as they were, unless it is one of those that misread. -/
def ReplacesPart (edit : Edit) (source : StatePath) (place : TransitionPath) (draft : Expr) :
    Prop :=
  ∃ item item', itemAt? editor.draft source place = some item ∧
    itemsAt draft = (itemsAt editor.draft).replace (source, place.slot) place.index item' ∧
    (editor.Restates edit (partsOf item) (partsOf item') ↔ editor.misreads edit = false)

section

variable {draft : Expr} (h : editor.Current) (hedge : editor.graph.HasEdgeAt source place)

include h hedge

/-- The transition of an edge is replaced by a transition. -/
theorem Current.exists_of_modifyTransition {f : Expr → Edited Expr}
    (hmodify : modifyTransition editor.draft source place f = .ok draft) :
    ∃ item new, itemAt? editor.draft source place = some item ∧ isTransition item = true ∧
      f item = .ok new ∧ (isTransition new = true →
        itemsAt draft = (itemsAt editor.draft).replace (source, place.slot) place.index new) := by
  obtain ⟨item, hitem, hform⟩ := h.hasEdgeAt_iff.1 hedge
  obtain ⟨item', new, hitem', hnew, htable⟩ := Draft.exists_of_modifyTransition hmodify
  rw [getElem?_itemsAt] at hitem'
  obtain rfl := Option.some.inj (hitem'.symm.trans hitem)
  exact ⟨item', new, hitem, hform, hnew, fun hnew => htable (isArray_of_isTransition hnew)⟩

theorem Current.replacesPart_addGuard {name : String}
    (hrevise : editor.addGuard source place name = .ok draft) :
    editor.ReplacesPart (.addGuard source place name) source place draft := by
  obtain ⟨node, -, hrevise⟩ := bind_eq_ok.1 hrevise
  obtain ⟨item, new, hitem, -, hnew, htable⟩ := h.exists_of_modifyTransition hedge hrevise
  cases hnew
  refine ⟨item, _, hitem, htable ?_,
    iff_of_true (partsOf_addGuard item (guardKey_mem editor)) rfl⟩
  rw [isTransition_withProps, isTransition_promote]

theorem Current.replacesPart_editGuard {name : String}
    (hrevise : editor.editGuard source place name = .ok draft) :
    editor.ReplacesPart (.editGuard source place name) source place draft := by
  obtain ⟨node, -, hrevise⟩ := bind_eq_ok.1 hrevise
  obtain ⟨item, new, hitem, hform, hnew, htable⟩ := h.exists_of_modifyTransition hedge hrevise
  dsimp only at hnew
  split at hnew
  · next key hkey =>
    cases hnew
    refine ⟨item, _, hitem, htable ?_, iff_of_true (partsOf_editGuard item hkey) rfl⟩
    rw [isTransition_withProps, hform]
  · cases hnew

theorem Current.replacesPart_removeGuard (hrevise : editor.removeGuard source place = .ok draft) :
    editor.ReplacesPart (.removeGuard source place) source place draft := by
  obtain ⟨node, -, hrevise⟩ := bind_eq_ok.1 hrevise
  obtain ⟨item, new, hitem, hform, hnew, htable⟩ := h.exists_of_modifyTransition hedge hrevise
  dsimp only at hnew
  split at hnew
  · cases hnew
    refine ⟨item, _, hitem, htable ?_, iff_of_true (partsOf_removeGuard item) rfl⟩
    rw [isTransition_collapse, isTransition_withProps, hform]
  · cases hnew

theorem Current.replacesPart_markTransitionExternal {external : Bool}
    (hrevise : editor.markTransitionExternal source place external = .ok draft) :
    editor.ReplacesPart (.markTransitionExternal source place external) source place draft := by
  obtain ⟨node, hnode, hrevise⟩ := bind_eq_ok.1 hrevise
  obtain ⟨edge, hfound, hrevise⟩ := bind_eq_ok.1 hrevise
  obtain ⟨item, new, hitem, hform, hnew, htable⟩ := h.exists_of_modifyTransition hedge hrevise
  cases hnew
  refine ⟨item, _, hitem, htable (isTransition_collapse_restateFlag _ _ _ _ hform),
    iff_of_true ?_ rfl⟩
  rw [Restates, isInternalByDefault_eq hnode hfound]
  split
  · next hflag => exact partsOf_flagged hflag item
  · next hflag => exact partsOf_unflagged (Bool.not_eq_true _ ▸ hflag) item

theorem Current.replacesPart_setDescription {description : Option String}
    (hrevise : editor.setDescription source (some place) description = .ok draft) :
    editor.ReplacesPart (.setDescription source (some place) description) source place draft := by
  obtain ⟨node, -, hrevise⟩ := bind_eq_ok.1 hrevise
  obtain ⟨item, new, hitem, hform, hnew, htable⟩ := h.exists_of_modifyTransition hedge hrevise
  cases description with
  | some text =>
    cases hnew
    refine ⟨item, _, hitem, htable ?_, iff_of_true (partsOf_describe item text) rfl⟩
    rw [isTransition_withProps, isTransition_promote]
  | none =>
    cases hnew
    refine ⟨item, _, hitem, htable ?_, iff_of_true (partsOf_eraseDescription item) rfl⟩
    rw [isTransition_collapse, isTransition_withProps, hform]

/-! ### Actions -/

/-- A transition whose actions are changed is replaced by one that differs in them alone. -/
theorem Current.exists_of_modifyActions {index : Nat} {create : Bool}
    {f : List Property → String → Option (List Property)} {fits : List Expr → Prop}
    {result : List Expr → Option (List Expr)} (hchange : OneOrMany.Changes f fits result)
    (hcreate : create = false → ¬fits [])
    (hmodify : editor.modifyActions ⟨.transition source place, index⟩ create f = .ok draft) :
    ∃ item item' actions, itemAt? editor.draft source place = some item ∧
      itemsAt draft = (itemsAt editor.draft).replace (source, place.slot) place.index item' ∧
      partsOf item' = { partsOf item with actions } ∧
      actions.map OneOrMany.itemsOf = result (partsOf item).entries := by
  obtain ⟨item, new, hitem, hnew, htable⟩ := Editor.exists_of_modifyActions hmodify
  rw [getElem?_itemsAt] at hitem
  obtain ⟨item', hitem', hform⟩ := h.hasEdgeAt_iff.1 hedge
  obtain rfl := Option.some.inj (hitem.symm.trans hitem')
  obtain ⟨hparts, hreads⟩ := partsOf_changedActions hchange hcreate hnew
  exact ⟨item, _, _, hitem, htable hform, hparts, hreads⟩

theorem Current.replacesPart_addAction {index : Nat} {name : String}
    (hrevise : editor.addAction ⟨.transition source place, index⟩ name = .ok draft) :
    editor.ReplacesPart (.addAction ⟨.transition source place, index⟩ name) source place draft := by
  obtain ⟨item, item', actions, hitem, htable, hparts, hreads⟩ :=
    h.exists_of_modifyActions hedge (OneOrMany.changes_insert index rfl) (by simp) hrevise
  refine ⟨item, item', hitem, htable, iff_of_true ⟨actions, ?_, hparts⟩ rfl⟩
  rw [hreads]
  rfl

theorem Current.replacesPart_editAction {index : Nat} {name : String}
    (hrevise : editor.editAction ⟨.transition source place, index⟩ name = .ok draft) :
    editor.ReplacesPart (.editAction ⟨.transition source place, index⟩ name) source place
      draft := by
  obtain ⟨item, item', actions, hitem, htable, hparts, hreads⟩ := h.exists_of_modifyActions hedge
    (OneOrMany.changes_modify index fun _ _ => isArray_setReference name _) (by simp) hrevise
  refine ⟨item, item', hitem, htable, iff_of_true ⟨actions, ?_, hparts⟩ rfl⟩
  have : Inhabited Expr := ⟨.newUndefined⟩
  rw [hreads]
  exact ⟨_, names_setReference .action name _, List.modify_eq_set _ _ _⟩

theorem Current.replacesPart_removeAction {index : Nat}
    (hrevise : editor.removeAction ⟨.transition source place, index⟩ = .ok draft) :
    editor.ReplacesPart (.removeAction ⟨.transition source place, index⟩) source place draft := by
  obtain ⟨item, item', actions, hitem, htable, hparts, hreads⟩ :=
    h.exists_of_modifyActions hedge (OneOrMany.changes_remove index) (by simp) hrevise
  refine ⟨item, item', hitem, htable, ?_⟩
  rw [← getD_removal_eq_iff, ← entries_partsOf hitem, ← hreads]
  constructor
  · rintro ⟨actions', halters, hparts'⟩
    obtain rfl : actions = actions' := congrArg Parts.actions (hparts.symm.trans hparts')
    exact halters
  · intro halters
    exact ⟨actions, halters, hparts⟩

/-! ### All edits of parts -/

theorem Current.replacesPart (hpart : edit.restated? = some (source, place))
    (hrevise : editor.revise edit = .ok draft) : editor.ReplacesPart edit source place draft := by
  cases edit with
  | addGuard => cases hpart; exact h.replacesPart_addGuard hedge hrevise
  | editGuard => cases hpart; exact h.replacesPart_editGuard hedge hrevise
  | removeGuard => cases hpart; exact h.replacesPart_removeGuard hedge hrevise
  | markTransitionExternal => cases hpart; exact h.replacesPart_markTransitionExternal hedge hrevise
  | setDescription _ transition =>
    cases transition with
    | some => cases hpart; exact h.replacesPart_setDescription hedge hrevise
    | none => cases hpart
  | addAction path =>
    obtain ⟨list, index⟩ := path
    cases list with
    | transition => cases hpart; exact h.replacesPart_addAction hedge hrevise
    | _ => cases hpart
  | editAction path =>
    obtain ⟨list, index⟩ := path
    cases list with
    | transition => cases hpart; exact h.replacesPart_editAction hedge hrevise
    | _ => cases hpart
  | removeAction path =>
    obtain ⟨list, index⟩ := path
    cases list with
    | transition => cases hpart; exact h.replacesPart_removeAction hedge hrevise
    | _ => cases hpart
  | _ => cases hpart

end

/-- An edit of a part of a transition gives the part that it asks for and leaves the other parts,
    and all other transitions, the expressions that they are, unless it is one of those that
    misread. -/
theorem restates_iff (h : editor.Current) (hpart : edit.restated? = some (source, place))
    (hedge : editor.graph.HasEdgeAt source place) (happly : editor.apply edit = .ok editor') :
    (∃ item item', itemAt? editor.draft source place = some item ∧
      editor.Restates edit (partsOf item) (partsOf item') ∧ itemsAt editor'.draft =
        (itemsAt editor.draft).replace (source, place.slot) place.index item') ↔
      editor.misreads edit = false := by
  obtain ⟨draft, hrevise, rfl⟩ := exists_of_apply happly
  change (∃ item item', _ ∧ _ ∧ itemsAt draft = _) ↔ _
  obtain ⟨item, item', hitem, htable, hiff⟩ := h.replacesPart hedge hpart hrevise
  rw [← hiff]
  constructor
  · rintro ⟨old, new, hold, hrestates, hnew⟩
    obtain rfl := Option.some.inj (hold.symm.trans hitem)
    have hlt : place.index < (itemsAt editor.draft (source, place.slot)).length := by
      rw [← getElem?_itemsAt] at hitem
      exact (List.getElem?_eq_some_iff.1 hitem).1
    -- The table tells what was put in the place of the transition.
    have hput := itemAt?_of_replace hnew hlt source place
    rw [itemAt?_of_replace htable hlt source place, if_pos ⟨rfl, rfl⟩, if_pos ⟨rfl, rfl⟩] at hput
    exact Option.some.inj hput ▸ hrestates
  · intro hrestates
    exact ⟨item, item', hitem, hrestates, htable⟩

/-- A guard goes that is written under both keys, and the transition becomes a target alone. -/
theorem restates_iff_bothKeys : ∃ editor editor',
    ofText? ("createMachine(\x7bstates: \x7ba: \x7bon: \x7bE: \x7btarget: 'a', cond: 'x', " ++
      "guard: 'y'\x7d\x7d\x7d\x7d\x7d)") [] = some editor ∧
    editor.apply (.removeGuard ["a"] ⟨.on "E", 0⟩) = .ok editor' ∧
    (itemAt? editor'.draft ["a"] ⟨.on "E", 0⟩).bind Expr.text? = some "a" ∧
    ∃ item item', itemAt? editor.draft ["a"] ⟨.on "E", 0⟩ = some item ∧
      editor.Restates (.removeGuard ["a"] ⟨.on "E", 0⟩) (partsOf item) (partsOf item') ∧
      itemsAt editor'.draft = (itemsAt editor.draft).replace (["a"], .on "E") 0 item' := by
  have hfound : (ofText? (
      "createMachine(\x7bstates: \x7ba: \x7bon: \x7bE: \x7btarget: 'a', cond: 'x', " ++
      "guard: 'y'\x7d\x7d\x7d\x7d\x7d)") []).any (fun editor =>
        editor.graph.edges.any (fun edge =>
          editor.graph.address edge = (["a"], ⟨.on "E", 0⟩)) &&
        (editor.apply (.removeGuard ["a"] ⟨.on "E", 0⟩)).toOption.any fun editor' =>
          (itemAt? editor'.draft ["a"] ⟨.on "E", 0⟩).bind Expr.text? = some "a") = true := by
    decide +kernel
  obtain ⟨editor, heditor, h⟩ := (Option.any_eq_true _ _).1 hfound
  rw [Bool.and_eq_true] at h
  obtain ⟨editor', hedited, hafter⟩ := (Option.any_eq_true _ _).1 h.2
  have happly := eq_ok_of_toOption hedited
  have hedge : editor.graph.HasEdgeAt ["a"] ⟨.on "E", 0⟩ := by
    simpa [Graph.HasEdgeAt] using h.1
  exact ⟨editor, editor', heditor, happly, of_decide_eq_true hafter,
    (restates_iff (reached_of_ofText? heditor).current rfl hedge happly).2 rfl⟩

/-- One of two actions goes, and the other, which is a list, is taken for the list of actions. -/
theorem removeAction_unpacks : ∃ editor editor',
    ofText? ("createMachine(\x7bstates: \x7ba: \x7bon: \x7bE: \x7bactions: [['x', 'y'], 'z']" ++
      "\x7d\x7d\x7d\x7d\x7d)") [] = some editor ∧
    editor.graph.HasEdgeAt ["a"] ⟨.on "E", 0⟩ ∧
    editor.apply (.removeAction ⟨.transition ["a"] ⟨.on "E", 0⟩, 1⟩) = .ok editor' ∧
    ((actionsAt editor.draft (.transition ["a"] ⟨.on "E", 0⟩)).eraseIdx 1).map Expr.text? =
      [none] ∧
    (actionsAt editor'.draft (.transition ["a"] ⟨.on "E", 0⟩)).map Expr.text? =
      [some "x", some "y"] := by
  have hfound : (ofText? (
      "createMachine(\x7bstates: \x7ba: \x7bon: \x7bE: \x7bactions: [['x', 'y'], 'z']" ++
      "\x7d\x7d\x7d\x7d\x7d)") []).any (fun editor =>
        editor.graph.edges.any (fun edge =>
          editor.graph.address edge = (["a"], ⟨.on "E", 0⟩)) &&
        (((actionsAt editor.draft (.transition ["a"] ⟨.on "E", 0⟩)).eraseIdx 1).map Expr.text? =
          [none] : Bool) &&
        (editor.apply (.removeAction ⟨.transition ["a"] ⟨.on "E", 0⟩, 1⟩)).toOption.any
          fun editor' => (actionsAt editor'.draft (.transition ["a"] ⟨.on "E", 0⟩)).map
            Expr.text? = [some "x", some "y"]) = true := by
    decide +kernel
  obtain ⟨editor, heditor, h⟩ := (Option.any_eq_true _ _).1 hfound
  simp only [Bool.and_eq_true] at h
  obtain ⟨editor', hedited, hafter⟩ := (Option.any_eq_true _ _).1 h.2
  have hedge : editor.graph.HasEdgeAt ["a"] ⟨.on "E", 0⟩ := by
    simpa [Graph.HasEdgeAt] using h.1.1
  exact ⟨editor, editor', heditor, hedge, eq_ok_of_toOption hedited, of_decide_eq_true h.1.2,
    of_decide_eq_true hafter⟩

end Editor

end Statechart
