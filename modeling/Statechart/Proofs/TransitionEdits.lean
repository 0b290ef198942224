import Statechart.Proofs.AddressAgreement
import Statechart.Proofs.SlotItems

/-!
# What edits make of transitions

An edit of a transition puts an item at the end of a slot, takes one out, moves one from slot to
slot or replaces it in its place. The items stay transitions, and one that is moved or replaced
says what it said before, but for its targets and its flag.

* `Draft.SameBody`: two written forms have all else in common;
* `Draft.sameBody_setTargets`, `Editor.sameBody_restateFlag`: how written forms change;
* `Editor.itemsAt_addTransition`, `Editor.itemsAt_removeTransition`,
  `Editor.itemsAt_retargetTransition`, `Editor.itemsAt_markTransitionExternal`,
  `Editor.itemsAt_reanchorTransition`, `Editor.itemsAt_changeTransitionEvent`: what the edits make
  of the slots.
-/

namespace Statechart

open Property

namespace Draft

/-- Two written forms of a transition say the same, but for the targets and the flag: they have
    the same guard, the same actions, the same description. -/
def SameBody (a b : Expr) : Prop :=
  ∀ name, name ∉ ["target", "reenter", "internal"] →
    value? (itemProps b) name = value? (itemProps a) name

theorem SameBody.refl (item : Expr) : SameBody item item := fun _ _ => rfl

theorem SameBody.trans {a b c : Expr} (hab : SameBody a b) (hbc : SameBody b c) : SameBody a c :=
  fun name hname => (hbc name hname).trans (hab name hname)

theorem sameBody_withProps {item : Expr} {props : List Property}
    (h : ∀ name, name ∉ ["target", "reenter", "internal"] →
      value? props name = value? (itemProps item) name) :
    SameBody item (item.withProps props) := by
  cases item with
  | object => exact h
  | _ => exact .refl _

theorem isTransition_withProps (props : List Property) (item : Expr) :
    isTransition (item.withProps props) = isTransition item := by
  cases item <;> rfl

section

variable {name : String} (hname : name ≠ "target") (item : Expr)

include hname

theorem value?_promote : value? (itemProps (promote item)) name = value? (itemProps item) name := by
  cases item with
  | str origin value => exact (value?_append_ofPair [] _ _ _).trans (if_neg hname)
  | _ => rfl

theorem value?_collapse :
    value? (itemProps (collapse item)) name = value? (itemProps item) name := by
  unfold collapse
  split
  · next origin place key span textOrigin value =>
    split
    · next hkey =>
      have hnamed : PropertyOf.isNamed ⟨place, key, span, Expr.str textOrigin value⟩ "target" =
          true := isNamed_iff.2 hkey
      refine Eq.symm (value?_eq_none ?_)
      change hasName [⟨place, key, span, Expr.str textOrigin value⟩] name = false
      rw [hasName_cons, isNamed_eq_false_of_ne hnamed hname]
      rfl
    · rfl
  · rfl

omit hname in
theorem value?_dropEmpty :
    value? (itemProps (dropEmpty item)) name = value? (itemProps item) name := by
  unfold dropEmpty
  split <;> rfl

theorem value?_setTargetProp (props : List Property) (descriptors : List String) :
    value? (setTargetProp props descriptors) name = value? props name := by
  unfold setTargetProp
  split
  · rw [value?_eraseName, if_neg hname]
  · rw [value?_setValue, if_neg hname]
  · split
    all_goals rw [value?_setValue, if_neg hname]

theorem value?_setTargets (descriptors : List String) :
    value? (itemProps (setTargets descriptors item)) name = value? (itemProps item) name := by
  unfold setTargets
  split
  · split <;> rfl
  · rfl
  · rw [value?_dropEmpty, value?_collapse hname, ← value?_promote hname item]
    cases promote item with
    | object origin props => exact value?_setTargetProp hname props descriptors
    | _ => rfl

end

theorem ne_target {name : String} (h : name ∉ ["target", "reenter", "internal"]) :
    name ≠ "target" :=
  fun heq => h (by simp [heq])

theorem sameBody_promote (item : Expr) : SameBody item (promote item) :=
  fun _ hname => value?_promote (ne_target hname) item

theorem isTransition_promote (item : Expr) : isTransition (promote item) = true := by
  cases item <;> rfl

theorem sameBody_collapse (item : Expr) : SameBody item (collapse item) :=
  fun _ hname => value?_collapse (ne_target hname) item

/-- Other targets leave the rest of a transition as it is. -/
theorem sameBody_setTargets (descriptors : List String) (item : Expr) :
    SameBody item (setTargets descriptors item) :=
  fun _ hname => value?_setTargets (ne_target hname) item descriptors

theorem isTransition_setTargets (descriptors : List String) (item : Expr) :
    isTransition (setTargets descriptors item) = true :=
  (targets_setTargets descriptors item).2

end Draft

open Draft

namespace Editor

variable {editor : Editor}

theorem flagKey_mem (props : List Property) : editor.flagKey props ∈ ["reenter", "internal"] := by
  rw [flagKey, effectiveKey?]
  split
  · simp
  · split
    · simp
    · cases editor.flavor <;> simp

/-- The flag leaves the rest of a transition as it is. -/
theorem sameBody_restateFlag (source : NodeId) (targets : List NodeId) (external : Bool)
    (item : Expr) : SameBody item (editor.restateFlag source targets external item) := by
  rw [restateFlag]
  split
  · refine (sameBody_promote item).trans (sameBody_withProps fun name hname => ?_)
    have hne : name ≠ editor.flagKey (itemProps (promote item)) := by
      rintro rfl
      exact hname (List.mem_cons_of_mem _ (flagKey_mem _))
    split
    · exact value?_modifyValue_of_ne hne _ _
    · rw [value?_append_ofPair, if_neg hne]
  · refine sameBody_withProps fun name hname => ?_
    rw [erasePair, value?_eraseName, value?_eraseName, if_neg fun heq => hname (by simp [heq]),
      if_neg fun heq => hname (by simp [heq])]

theorem isTransition_restateFlag (source : NodeId) (targets : List NodeId) (external : Bool)
    {item : Expr} (h : isTransition item = true) :
    isTransition (editor.restateFlag source targets external item) = true := by
  rw [restateFlag]
  split
  · dsimp only
    rw [isTransition_withProps, isTransition_promote]
  · rw [isTransition_withProps, h]

variable (editor) in
/-- The flag is the last thing that edits restate; a target that is left alone then loses its
    object. -/
theorem isTransition_collapse_restateFlag (source : NodeId) (targets : List NodeId)
    (external : Bool) {item : Expr} (h : isTransition item = true) :
    isTransition (collapse (editor.restateFlag source targets external item)) = true := by
  rw [isTransition_collapse]
  exact isTransition_restateFlag _ _ _ h

theorem sameBody_collapse_restateFlag (source : NodeId) (targets : List NodeId) (external : Bool)
    (item : Expr) :
    SameBody item (collapse (editor.restateFlag source targets external item)) :=
  (sameBody_restateFlag _ _ _ _).trans (sameBody_collapse _)

/-! ## Edits -/

section

variable {draft : Expr} {source : StatePath} {transition : TransitionPath}

/-- A transition is added at the end of its slot. -/
theorem itemsAt_addTransition {slot : Slot} {target : Option StatePath} {external : Bool}
    {guard : Option String}
    (h : editor.addTransition source slot target external guard = .ok draft) :
    ∃ item, isTransition item = true ∧
      itemsAt draft = (itemsAt editor.draft).append (source, slot) item := by
  obtain ⟨node, -, h⟩ := bind_eq_ok.1 h
  obtain ⟨target', -, h⟩ := bind_eq_ok.1 h
  have hitem {node : NodeId} {targets : List NodeId} {props : List Property} :
      isTransition (collapse (dropEmpty
        (editor.restateFlag node targets external (.ofProps props)))) = true := by
    rw [isTransition_collapse, isTransition_dropEmpty]
    exact isTransition_restateFlag _ _ _ rfl
  exact ⟨_, hitem, itemsAt_putTransition h hitem⟩

/-- A transition is given other targets in its place. -/
theorem itemsAt_retargetTransition {targets : List StatePath}
    (h : editor.retargetTransition source transition targets = .ok draft) :
    ∃ item item', (itemsAt editor.draft (source, transition.slot))[transition.index]? = some item ∧
      isTransition item' = true ∧ SameBody item item' ∧ itemsAt draft =
        (itemsAt editor.draft).replace (source, transition.slot) transition.index item' := by
  obtain ⟨node, -, h⟩ := bind_eq_ok.1 h
  obtain ⟨edge, -, h⟩ := bind_eq_ok.1 h
  obtain ⟨targets', -, h⟩ := bind_eq_ok.1 h
  have hform (descriptors : List String) (item : Expr) := isTransition_collapse_restateFlag editor
    node targets' (isMarkedExternal edge) (isTransition_setTargets descriptors item)
  obtain ⟨item, hitem, htable⟩ := itemsAt_modifyTransition h fun item _ => hform _ item
  refine ⟨item, _, hitem, hform _ item, ?_, htable⟩
  exact (sameBody_setTargets _ item).trans (sameBody_collapse_restateFlag _ _ _ _)

variable (hitems : (itemsAt editor.draft).AllTransitions)

include hitems

/-- A transition is taken out of its slot. -/
theorem itemsAt_removeTransition (h : editor.removeTransition source transition = .ok draft) :
    itemsAt draft =
      (itemsAt editor.draft).erase (source, transition.slot) transition.index := by
  obtain ⟨⟨item, draft'⟩, htake, h⟩ := bind_eq_ok.1 h
  cases h
  exact (itemsAt_takeTransition htake hitems).2

/-- A transition is made external, or not, in its place. -/
theorem itemsAt_markTransitionExternal {external : Bool}
    (h : editor.markTransitionExternal source transition external = .ok draft) :
    ∃ item item', (itemsAt editor.draft (source, transition.slot))[transition.index]? = some item ∧
      isTransition item' = true ∧ SameBody item item' ∧ itemsAt draft =
        (itemsAt editor.draft).replace (source, transition.slot) transition.index item' := by
  obtain ⟨node, -, h⟩ := bind_eq_ok.1 h
  obtain ⟨edge, -, h⟩ := bind_eq_ok.1 h
  have hform {item : Expr}
      (hitem : (itemsAt editor.draft (source, transition.slot))[transition.index]? = some item) :=
    isTransition_collapse_restateFlag editor node edge.targets external
      (hitems _ _ (List.mem_of_getElem? hitem))
  obtain ⟨item, hitem, htable⟩ := itemsAt_modifyTransition h fun _ => hform
  exact ⟨item, _, hitem, hform hitem, sameBody_collapse_restateFlag _ _ _ _, htable⟩

/-- A transition is moved to the same slot of another state, with its targets and its flag
    restated there. -/
theorem exists_of_reanchorTransition {newSource : StatePath}
    (h : editor.reanchorTransition source transition newSource = .ok draft)
    (hsource : ∀ node, editor.node source = .ok node → editor.node newSource ≠ .ok node) :
    ∃ item descriptors newNode targets external,
      (itemsAt editor.draft (source, transition.slot))[transition.index]? = some item ∧
      itemsAt draft =
        ((itemsAt editor.draft).erase (source, transition.slot) transition.index).append
          (newSource, transition.slot) (collapse (editor.restateFlag newNode targets external
            (setTargets descriptors item))) := by
  obtain ⟨node, hnode, h⟩ := bind_eq_ok.1 h
  obtain ⟨newNode, hnewNode, h⟩ := bind_eq_ok.1 h
  have hne : node ≠ newNode := by
    rintro rfl
    exact hsource node hnode hnewNode
  rw [if_neg hne] at h
  obtain ⟨edge, -, h⟩ := bind_eq_ok.1 h
  obtain ⟨⟨item, draft'⟩, htake, h⟩ := bind_eq_ok.1 h
  obtain ⟨hitem, htable⟩ := itemsAt_takeTransition htake hitems
  refine ⟨item, _, newNode, edge.targets, isMarkedExternal edge, hitem,
    htable ▸ itemsAt_putTransition h ?_⟩
  exact isTransition_collapse_restateFlag _ _ _ _ (isTransition_setTargets _ item)

/-- The transition that is moved to another state says there what it said, but for its targets and
    its flag. -/
theorem itemsAt_reanchorTransition {newSource : StatePath}
    (h : editor.reanchorTransition source transition newSource = .ok draft)
    (hsource : ∀ node, editor.node source = .ok node → editor.node newSource ≠ .ok node) :
    ∃ item item', (itemsAt editor.draft (source, transition.slot))[transition.index]? = some item ∧
      isTransition item' = true ∧ SameBody item item' ∧ itemsAt draft =
        ((itemsAt editor.draft).erase (source, transition.slot) transition.index).append
          (newSource, transition.slot) item' := by
  obtain ⟨item, descriptors, newNode, targets, external, hitem, htable⟩ :=
    exists_of_reanchorTransition hitems h hsource
  refine ⟨item, _, hitem, isTransition_collapse_restateFlag editor _ _ _
    (isTransition_setTargets descriptors item), ?_, htable⟩
  exact (sameBody_setTargets _ item).trans (sameBody_collapse_restateFlag _ _ _ _)

/-- A transition is moved to another slot of its state as it is. -/
theorem itemsAt_changeTransitionEvent {slot : Slot} (hslot : slot ≠ transition.slot)
    (h : editor.changeTransitionEvent source transition slot = .ok draft) :
    ∃ item, (itemsAt editor.draft (source, transition.slot))[transition.index]? = some item ∧
      itemsAt draft = ((itemsAt editor.draft).erase (source, transition.slot)
        transition.index).append (source, slot) item := by
  obtain ⟨node, -, h⟩ := bind_eq_ok.1 h
  obtain ⟨item, hitem, h⟩ := bind_eq_ok.1 h
  rw [transition_eq_ok, ← getElem?_itemsAt] at hitem
  rw [if_neg hslot] at h
  obtain ⟨state, hstate, h⟩ := bind_eq_ok.1 h
  rw [state_eq_ok] at hstate
  dsimp only at h
  generalize hrenamed : ite (transition.slot.sameMap slot = true) _ none = renamed at h
  cases renamed with
  | some owner =>
    cases h
    obtain ⟨hmap, hrenamed⟩ := Option.ite_none_right_eq_some.1 hrenamed
    obtain ⟨owner', howner, hrenamed⟩ := Option.bind_eq_some_iff.1 hrenamed
    obtain ⟨item', halone, htable⟩ := itemsAt_renameSlot hstate hmap howner hrenamed
    -- The item is alone in its slot, so that it is the first.
    obtain ⟨hindex, rfl⟩ : transition.index = 0 ∧ item' = item := by
      rw [halone] at hitem
      cases hi : transition.index with
      | zero => rw [hi] at hitem; exact ⟨rfl, Option.some.inj hitem⟩
      | succ i => rw [hi] at hitem; cases hitem
    exact ⟨item', hitem, hindex ▸ htable⟩
  | none =>
    obtain ⟨⟨item', draft'⟩, htake, h⟩ := bind_eq_ok.1 h
    obtain ⟨hitem, htable⟩ := itemsAt_takeTransition htake hitems
    refine ⟨item', hitem, htable ▸ itemsAt_putTransition h ?_⟩
    exact hitems _ _ (List.mem_of_getElem? hitem)

end

end Editor

end Statechart
