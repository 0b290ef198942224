import Statechart.Proofs.EdgesInStep

/-!
# Slots as lists

The slots of a machine are independent lists. An edit that adds, removes or moves a transition is
one operation on one of them, or takes from one and gives to another, and no other list notices:
it makes no difference in which object a slot is written, whether its items are in brackets, or
whether a map comes or goes with it.

* `Draft.restOf`: what a written transition says besides its targets and its flag;
* `SlotTable.Follows`: what an edit makes of the lists;
* `Editor.slots_follow`: every edit that is accepted makes that of them.
-/

namespace Statechart

open Property Draft

/-! ## What stays when a transition moves -/

namespace Property

variable {keep : Property → Bool} {name : String}

/-- Entries of other names stay as they are when the value of a name changes. -/
theorem filter_modifyValue (hkeep : ∀ prop : Property, prop.isNamed name = true → keep prop = false)
    (props : List Property) (f : Expr → Expr) :
    (modifyValue props name f).filter keep = props.filter keep := by
  induction props with
  | nil => rfl
  | cons prop props ih =>
    rw [modifyValue] at ih ⊢
    rw [modifyLast]
    split
    · rw [List.filter_cons, List.filter_cons, ih]
    · split
      · next hnamed =>
        have hnamed' : PropertyOf.isNamed { prop with value := f prop.value } name = true := hnamed
        rw [List.filter_cons, List.filter_cons, hkeep _ hnamed, hkeep _ hnamed']
        rfl
      · rfl

theorem filter_eraseName (hkeep : ∀ prop : Property, prop.isNamed name = true → keep prop = false)
    (props : List Property) : (eraseName props name).filter keep = props.filter keep := by
  rw [eraseName, List.filter_filter]
  refine List.filter_congr fun prop _ => ?_
  cases hnamed : prop.isNamed name with
  | true => simp [hkeep prop hnamed]
  | false => simp

theorem filter_append_ofPair
    (hkeep : ∀ prop : Property, prop.isNamed name = true → keep prop = false)
    (props : List Property) (value : Expr) :
    (props ++ [ofPair name value]).filter keep = props.filter keep := by
  rw [List.filter_append, List.filter_cons, hkeep _ (isNamed_iff.2 (name_ofPair name value))]
  simp

theorem filter_setValue (hkeep : ∀ prop : Property, prop.isNamed name = true → keep prop = false)
    (props : List Property) (value : Expr) :
    (setValue props name value).filter keep = props.filter keep := by
  rw [setValue]
  split
  · exact filter_modifyValue hkeep _ _
  · exact filter_append_ofPair hkeep _ _

end Property

namespace Draft

/-- Whether an entry of a transition is neither its target nor its flag. -/
def isRest (prop : Property) : Bool :=
  !(["target", "reenter", "internal"].any prop.isNamed)

/-- What a written transition says besides its targets and its flag: all other entries, in the order
    in which they are written. -/
def restOf (item : Expr) : List Property :=
  (itemProps item).filter isRest

theorem isRest_eq_false {name : String} (hname : name ∈ ["target", "reenter", "internal"])
    (prop : Property) (h : prop.isNamed name = true) : isRest prop = false := by
  rw [isRest, Bool.not_eq_false', List.any_eq_true]
  exact ⟨name, hname, h⟩

theorem restOf_withProps {item : Expr} {props : List Property}
    (h : props.filter isRest = (itemProps item).filter isRest) :
    restOf (item.withProps props) = restOf item := by
  cases item with
  | object => exact h
  | _ => rfl

theorem restOf_promote (item : Expr) : restOf (promote item) = restOf item := by
  cases item with
  | str => exact filter_append_ofPair (isRest_eq_false (by simp)) [] _
  | _ => rfl

theorem restOf_collapse (item : Expr) : restOf (collapse item) = restOf item := by
  unfold collapse
  split
  · next origin place key span textOrigin value =>
    split
    · next hkey =>
      have hnamed : PropertyOf.isNamed ⟨place, key, span, Expr.str textOrigin value⟩ "target" =
          true := isNamed_iff.2 hkey
      change [] = [(⟨place, key, span, Expr.str textOrigin value⟩ : Property)].filter isRest
      rw [List.filter_cons, isRest_eq_false (by simp) _ hnamed]
      rfl
    · rfl
  · rfl

theorem restOf_dropEmpty (item : Expr) : restOf (dropEmpty item) = restOf item := by
  unfold dropEmpty
  split <;> rfl

theorem filter_setTargetProp (props : List Property) (descriptors : List String) :
    (setTargetProp props descriptors).filter isRest = props.filter isRest := by
  have htarget (prop : Property) (h : prop.isNamed "target" = true) : isRest prop = false :=
    isRest_eq_false (by simp) prop h
  unfold setTargetProp
  split
  · exact filter_eraseName htarget _
  · exact filter_setValue htarget _ _
  · split
    all_goals exact filter_setValue htarget _ _

theorem restOf_setTargets (descriptors : List String) (item : Expr) :
    restOf (setTargets descriptors item) = restOf item := by
  unfold setTargets
  split
  · split <;> rfl
  · rfl
  · rw [restOf_dropEmpty, restOf_collapse, restOf_withProps (filter_setTargetProp _ _),
      restOf_promote]

end Draft

theorem Editor.restOf_restateFlag (editor : Editor) (source : NodeId) (targets : List NodeId)
    (external : Bool) (item : Expr) :
    restOf (editor.restateFlag source targets external item) = restOf item := by
  rw [restateFlag]
  split
  · have hflag := isRest_eq_false
      (List.mem_cons_of_mem "target" (@flagKey_mem editor (itemProps (promote item))))
    rw [← restOf_promote item]
    refine restOf_withProps ?_
    split
    · exact filter_modifyValue hflag _ _
    · exact filter_append_ofPair hflag _ _
  · refine restOf_withProps ?_
    rw [erasePair, filter_eraseName (isRest_eq_false (by simp)),
      filter_eraseName (isRest_eq_false (by simp))]

/-! ## Edits as operations on lists -/

/-- What an edit that adds, removes or moves a transition makes of the lists of slots. -/
def SlotTable.Follows (table : SlotTable) (edit : Edit) (table' : SlotTable) : Prop :=
  match edit with
  | .addTransition source slot _ _ _ =>
    ∃ item, isTransition item = true ∧ table' = table.append (source, slot) item
  | .removeTransition source transition =>
    transition.index < (table (source, transition.slot)).length ∧
      table' = table.erase (source, transition.slot) transition.index
  | .changeTransitionEvent source transition slot =>
    slot ≠ transition.slot → ∃ item,
      (table (source, transition.slot))[transition.index]? = some item ∧
      table' = (table.erase (source, transition.slot) transition.index).append (source, slot) item
  | .reanchorTransition source transition newSource =>
    newSource ≠ source → ∃ item item',
      (table (source, transition.slot))[transition.index]? = some item ∧
      restOf item' = restOf item ∧
      table' = (table.erase (source, transition.slot) transition.index).append
        (newSource, transition.slot) item'
  | _ => True

namespace Editor

variable {editor editor' : Editor}

/-- The slots of a machine behave as independent lists: an edit that is accepted erases the item
    that it addresses, or appends one, or both, and leaves the other items and all other slots of
    all states as they are. -/
theorem slots_follow (h : editor.Current)
    (hproblems : ∀ problem ∈ editor.extraction.problems, problem.kind ≠ .transitionProperty)
    {edit : Edit} (happly : editor.apply edit = .ok editor') :
    (itemsAt editor.draft).Follows edit (itemsAt editor'.draft) := by
  obtain ⟨draft, hdraft, rfl⟩ := exists_of_apply happly
  change (itemsAt editor.draft).Follows edit (itemsAt draft)
  have hall := h.extractsAll_iff.1 (h.extractsAll_of_problems hproblems)
  cases edit with
  | addTransition source slot target external guard => exact itemsAt_addTransition hdraft
  | removeTransition source transition =>
    obtain ⟨⟨item, draft'⟩, htake, hleft⟩ := bind_eq_ok.1 hdraft
    cases hleft
    obtain ⟨hitem, htable⟩ := itemsAt_takeTransition htake hall
    exact ⟨(List.getElem?_eq_some_iff.1 hitem).1, htable⟩
  | changeTransitionEvent source transition slot =>
    intro hslot
    exact itemsAt_changeTransitionEvent hall hslot hdraft
  | reanchorTransition source transition newSource =>
    intro hne
    have hnodes : ∀ node, editor.node source = .ok node → editor.node newSource ≠ .ok node :=
      fun node hnode hnode' => hne ((h.at_of_node hnode').path_unique (h.at_of_node hnode))
    obtain ⟨item, descriptors, newNode, targets, external, hitem, htable⟩ :=
      exists_of_reanchorTransition hall hdraft hnodes
    refine ⟨item, _, hitem, ?_, htable⟩
    rw [restOf_collapse, restOf_restateFlag, restOf_setTargets]
  | _ => trivial

/-- The item that counts of two keys of one name moves to another event, and the other does not
    come into effect. -/
theorem slots_follow_shadowed : ∃ editor editor',
    ofText? ("createMachine(\x7bstates: \x7ba: \x7bon: \x7bE: 'a', E: 'b', F: ['a', 'b']\x7d" ++
      "\x7d, b: \x7b\x7d\x7d\x7d)") [] = some editor ∧
    editor.apply (.changeTransitionEvent ["a"] ⟨.on "E", 0⟩ (.on "G")) = .ok editor' ∧
    (itemsAt editor'.draft (["a"], .on "E")).isEmpty ∧
    (itemsAt editor.draft).Follows (.changeTransitionEvent ["a"] ⟨.on "E", 0⟩ (.on "G"))
      (itemsAt editor'.draft) := by
  have hfound : (ofText? (
      "createMachine(\x7bstates: \x7ba: \x7bon: \x7bE: 'a', E: 'b', F: ['a', 'b']\x7d" ++
      "\x7d, b: \x7b\x7d\x7d\x7d)") []).any (fun editor =>
        editor.extraction.problems.all (·.kind ≠ .transitionProperty) &&
          (editor.apply (.changeTransitionEvent ["a"] ⟨.on "E", 0⟩ (.on "G"))).toOption.any
            fun editor' => (itemsAt editor'.draft (["a"], .on "E")).isEmpty) = true := by
    decide +kernel
  obtain ⟨editor, heditor, h⟩ := (Option.any_eq_true _ _).1 hfound
  rw [Bool.and_eq_true] at h
  obtain ⟨editor', hedited, hafter⟩ := (Option.any_eq_true _ _).1 h.2
  have happly := eq_ok_of_toOption hedited
  refine ⟨editor, editor', heditor, happly, hafter,
    slots_follow (reached_of_ofText? heditor).current (fun problem hproblem => ?_) happly⟩
  exact of_decide_eq_true (List.all_eq_true.1 h.1 problem hproblem)

end Editor

end Statechart
