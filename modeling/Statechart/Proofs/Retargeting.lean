import Statechart.Edit.Editor
import Statechart.Proofs.Addresses
import Statechart.Proofs.Outcome

/-!
# Giving transitions other targets

A transition is given other targets in its place: the targets are read back, and no other
transition, no state and no id changes.

* `targets_setTargets`: the targets are read back;
* `itemIn?_setOwner`: an item is replaced in its place;
* `SameStates`: two descriptions have the same states, with the same ids;
* `modifyTransition_eq_ok`: what replacing an item does to a description.
-/

namespace Statechart

open Property

namespace Draft

/-! ## The targets of an item -/

theorem targets_collapse (item : Expr) : targets (collapse item) = targets item := by
  unfold collapse
  split
  · next key _ origin value =>
    split
    · next hkey =>
      have hnamed (place : Origin) (span : Option Span) :
          PropertyOf.isNamed ⟨place, key, span, Expr.str origin value⟩ "target" = true :=
        isNamed_iff.2 hkey
      rw [targets, targets, value?, prop?_cons, hnamed]
      rfl
    · rfl
  · rfl

theorem isTransition_collapse (item : Expr) : isTransition (collapse item) = isTransition item := by
  unfold collapse
  split
  · split <;> rfl
  · rfl

theorem targets_dropEmpty (item : Expr) : targets (dropEmpty item) = targets item := by
  unfold dropEmpty
  split <;> rfl

theorem isTransition_dropEmpty (item : Expr) :
    isTransition (dropEmpty item) = isTransition item := by
  unfold dropEmpty
  split <;> rfl

/-- Nodes that are used again have the text that is asked for. -/
theorem text?_targetNode (nodes : List Expr) (text : String) :
    ((nodes.find? (·.text? == some text)).getD (.ofText text)).text? = some text := by
  cases h : nodes.find? (·.text? == some text) with
  | none => rfl
  | some node =>
    have hfound := List.find?_some h
    exact beq_iff_eq.1 hfound

theorem targetTexts_of_text? {node : Expr} {text : String} (h : node.text? = some text) :
    targetTexts node = [text] := by
  cases node with
  | str origin value => exact congrArg (fun t => [t]) (Option.some.inj h)
  | _ => cases h

theorem filterMap_text?_targetNodes (nodes : List Expr) (texts : List String) :
    (texts.map fun text =>
      (nodes.find? (·.text? == some text)).getD (.ofText text)).filterMap Expr.text? = texts := by
  rw [List.filterMap_map]
  simp only [Function.comp_def, text?_targetNode, List.filterMap_some]

/-- The descriptors that are written are read back. -/
theorem targetTexts_setTargetProp (props : List Property) (descriptors : List String) :
    ((value? (setTargetProp props descriptors) "target").map targetTexts).getD [] =
      descriptors := by
  unfold setTargetProp
  split
  · rw [value?_eraseName, if_pos rfl]
    rfl
  · rw [value?_setValue, if_pos rfl]
    exact targetTexts_of_text? (text?_targetNode _ _)
  · split
    all_goals
      rw [value?_setValue, if_pos rfl]
      exact filterMap_text?_targetNodes _ _

theorem exists_promote_eq (item : Expr) : ∃ origin props, promote item = .object origin props := by
  cases item <;> exact ⟨_, _, rfl⟩

/-- An item that is given other targets is a transition with these targets. -/
theorem targets_setTargets (descriptors : List String) (item : Expr) :
    targets (setTargets descriptors item) = descriptors ∧
      isTransition (setTargets descriptors item) = true := by
  unfold setTargets
  split
  · split
    · next heq => exact ⟨congrArg (fun t => [t]) heq, rfl⟩
    · exact ⟨rfl, rfl⟩
  · exact ⟨rfl, rfl⟩
  · obtain ⟨origin, props, hobject⟩ := exists_promote_eq item
    dsimp only
    rw [targets_dropEmpty, targets_collapse, isTransition_dropEmpty, isTransition_collapse, hobject]
    exact ⟨targetTexts_setTargetProp props descriptors, rfl⟩

theorem isArray_setTargets {item : Expr} {descriptors : List String}
    (h : isTransition (setTargets descriptors item) = true) :
    (setTargets descriptors item).isArray = false := by
  cases hitem : setTargets descriptors item with
  | array => rw [hitem] at h; cases h
  | _ => rfl

/-! ## Items in their places -/

theorem itemsOf_of_not_isArray {value : Expr} (h : value.isArray = false) :
    itemsOf value = [value] := by
  cases value with
  | array => cases h
  | _ => rfl

/-- Changing an item changes what is found at its position, unless it becomes a list itself. -/
theorem item?_modifyItem {f : Expr → Expr}
    (hf : ∀ item, item.isArray = false → (f item).isArray = false) (props : List Property)
    (key other : String) (index i : Nat) :
    OneOrMany.item? (OneOrMany.modifyItem props key index f) other i =
      if other = key ∧ i = index then (OneOrMany.item? props key index).map f
      else OneOrMany.item? props other i := by
  rw [OneOrMany.modifyItem, oneOrMany_item?, oneOrMany_item?, oneOrMany_item?, value?_modifyValue]
  by_cases hkey : other = key
  · subst hkey
    rw [if_pos rfl]
    simp only [true_and]
    cases value? props other with
    | none => simp
    | some value =>
      rw [Option.map_some, Option.bind_some, Option.bind_some]
      cases value with
      | array origin items =>
        change (items.modify index f)[i]? = if i = index then (items[index]?).map f else items[i]?
        rw [List.getElem?_modify]
        by_cases hi : i = index
        · simp [hi]
        · simp [hi, Ne.symm hi]
      | _ =>
        -- One item without brackets: only the first position is taken.
        change (itemsOf (ite _ _ _))[i]? =
          if i = index then ([_] : List Expr)[index]?.map f else ([_] : List Expr)[i]?
        rw [itemsOf_of_not_isArray (by split <;> [exact hf _ rfl; rfl])]
        cases i <;> cases index <;> simp
  · simp [hkey]

theorem isArray_withProps (props : List Property) (value : Expr) :
    (value.withProps props).isArray = value.isArray := by
  cases value <;> rfl

theorem bind_props?_withProps (value : Option Expr) (props : List Property) :
    (value.map (·.withProps props)).bind Expr.props? = (value.bind Expr.props?).map fun _ => props := by
  cases value with
  | none => rfl
  | some value => exact Expr.props?_withProps props value

section

variable {state owner : List Property} {path : TransitionPath}
  (howner : path.slot.owner? state = some owner) (item : Expr)

include howner

/-- Replacing an item changes the property that holds its slot. -/
theorem value?_setOwner {name : String} (hname : name ≠ path.slot.property) :
    value? (path.slot.setOwner state
        (OneOrMany.modifyItem owner path.slot.key path.index fun _ => item)) name =
      value? state name := by
  obtain ⟨slot, index⟩ := path
  cases slot with
  | always | onDone =>
    obtain rfl : state = owner := Option.some.inj howner
    rw [Slot.setOwner, OneOrMany.modifyItem]
    exact value?_modifyValue_of_ne hname _ _
  | on | after => exact value?_modifyValue_of_ne hname _ _
  | invokeDone | invokeError =>
    rw [Slot.setOwner, OneOrMany.modifyItem]
    exact value?_modifyValue_of_ne hname _ _

/-- An item is replaced in its place. -/
theorem itemIn?_setOwner {old : Expr} (harray : item.isArray = false)
    (hitem : OneOrMany.item? owner path.slot.key path.index = some old) (place : TransitionPath) :
    itemIn? (path.slot.setOwner state
        (OneOrMany.modifyItem owner path.slot.key path.index fun _ => item)) place =
      if place = path then some item else itemIn? state place := by
  -- Slots held by other properties are not met. Those held by the same one are told apart by their
  -- keys in it, or by the position of the invocation.
  by_cases hproperty : place.slot.property = path.slot.property
  · obtain ⟨slot, index⟩ := path
    obtain ⟨slot', index'⟩ := place
    have hreplaced : ∀ other i, OneOrMany.item? (OneOrMany.modifyItem owner slot.key index
        fun _ => item) other i =
          if other = slot.key ∧ i = index then some item else OneOrMany.item? owner other i := by
      intro other i
      rw [item?_modifyItem (fun _ _ => harray), hitem]
      rfl
    dsimp only at howner hproperty
    cases slot with
    | on name | after name =>
      cases slot' <;> simp only [Slot.property, String.reduceEq] at hproperty
      simp only [Slot.owner?] at howner
      simp only [itemIn?_eq, Slot.owner?, Slot.setOwner, Slot.key, value?_modifyValue_self,
        bind_props?_withProps, howner, Option.map_some, Option.bind_some, TransitionPath.mk.injEq,
        Slot.on.injEq, Slot.after.injEq]
      exact hreplaced _ _
    | always | onDone =>
      cases slot' <;> simp only [Slot.property, String.reduceEq] at hproperty
      obtain rfl : state = owner := Option.some.inj howner
      simp only [itemIn?_eq, Slot.owner?, Slot.setOwner, Option.bind_some, hreplaced,
        TransitionPath.mk.injEq, true_and]
    | invokeDone invoke | invokeError invoke =>
      cases slot' <;> simp only [Slot.property, String.reduceEq] at hproperty
      all_goals
        next invoke' =>
        simp only [Slot.owner?] at howner
        simp only [itemIn?_eq, Slot.owner?, Slot.setOwner,
          item?_modifyItem fun value h => (isArray_withProps _ value).trans h, true_and]
        by_cases hinvoke : invoke' = invoke
        · subst hinvoke
          rw [if_pos rfl, bind_props?_withProps, howner, Option.map_some, Option.bind_some,
            hreplaced]
          simp [Slot.key]
        · rw [if_neg hinvoke, if_neg (by simp [hinvoke])]
  · rw [itemIn?_congr (value?_setOwner howner item hproperty), if_neg]
    rintro rfl
    exact hproperty rfl

end

/-! ## Descriptions -/

/-- Two descriptions have the same states, with the same ids. -/
structure SameStates (a b : Expr) : Prop where
  states : ∀ path, (stateProps? a path).isSome = (stateProps? b path).isSome
  ids : ∀ path, idAt? a path = idAt? b path

theorem SameStates.refl (config : Expr) : SameStates config config :=
  ⟨fun _ => rfl, fun _ => rfl⟩

theorem SameStates.trans {a b c : Expr} (hab : SameStates a b) (hbc : SameStates b c) :
    SameStates a c :=
  ⟨fun path => (hab.states path).trans (hbc.states path),
    fun path => (hab.ids path).trans (hbc.ids path)⟩

theorem state_eq_ok {draft : Expr} {path : StatePath} {props : List Property} :
    state draft path = .ok props ↔ stateProps? draft path = some props := by
  rw [state]
  cases stateProps? draft path <;> simp

theorem modifyState_eq_ok {draft draft' : Expr} {path : StatePath}
    {f : List Property → Edited (List Property)} :
    modifyState draft path f = .ok draft' ↔ ∃ old new, stateProps? draft path = some old ∧
      f old = .ok new ∧ draft' = setStateProps new path draft := by
  simp only [modifyState, bind_eq_ok, state_eq_ok]
  constructor
  · rintro ⟨old, hold, new, hnew, h⟩
    cases h
    exact ⟨old, new, hold, hnew, rfl⟩
  · rintro ⟨old, new, hold, hnew, rfl⟩
    exact ⟨old, hold, new, hnew, rfl⟩

/-- Replacing an item by one that is no list changes nothing else. -/
theorem modifyTransition_eq_ok {draft draft' : Expr} {source : StatePath} {path : TransitionPath}
    {f : Expr → Expr}
    (h : modifyTransition draft source path (fun item => pure (f item)) = .ok draft')
    (hf : ∀ item, itemAt? draft source path = some item → (f item).isArray = false) :
    SameStates draft draft' ∧ ∀ p place, itemAt? draft' p place =
      if p = source ∧ place = path then (itemAt? draft source path).map f
      else itemAt? draft p place := by
  obtain ⟨old, new, hold, hnew, rfl⟩ := modifyState_eq_ok.1 h
  have hat : ∀ place, itemAt? draft source place = itemIn? old place := fun place => by
    rw [itemAt?, hold, Option.bind_some]
  cases hin : transitionIn? old path with
  | none => rw [hin] at hnew; cases hnew
  | some found =>
    obtain ⟨owner, item⟩ := found
    rw [hin] at hnew
    cases hnew
    have hitemIn : itemIn? old path = some item := by rw [itemIn?, hin]; rfl
    obtain ⟨howner, hitem⟩ : path.slot.owner? old = some owner ∧
        OneOrMany.item? owner path.slot.key path.index = some item := by
      rw [transitionIn?] at hin
      obtain ⟨owner', howner, hin⟩ := Option.bind_eq_some_iff.1 hin
      obtain ⟨item', hitem, hin⟩ := Option.bind_eq_some_iff.1 hin
      cases hin
      exact ⟨howner, hitem⟩
    have harray := hf item ((hat path).trans hitemIn)
    have hsome : (stateProps? draft source).isSome := by rw [hold]; rfl
    have hself := stateProps?_setStateProps_self hsome (path.slot.setOwner old
      (OneOrMany.modifyItem owner path.slot.key path.index fun _ => f item))
    have hcontent := contentAt?_setStateProps hold
      (value?_setOwner howner (f item) (Slot.property_ne (by decide) path.slot).symm)
    -- The states, their ids and the items: the changed state keeps the first two, and all other
    -- states keep everything.
    refine ⟨⟨fun p => ?_, fun p => ?_⟩, fun p place => ?_⟩
    all_goals by_cases hp : p = source
    · rw [hp, hself, hold]
      rfl
    · rw [← isSome_contentAt?, ← isSome_contentAt?, hcontent, if_neg hp]
    · rw [hp, idAt?, idAt?, hself, hold, Option.bind_some, Option.bind_some, idOf, idOf,
        value?_setOwner howner (f item) (Slot.property_ne (by decide) path.slot).symm]
    · exact (idAt?_eq_of_content ((hcontent p).trans (if_neg hp))).symm
    · rw [hp, itemAt?, hself, Option.bind_some, itemIn?_setOwner howner _ harray hitem, hat, hat,
        hitemIn]
      simp only [true_and, Option.map_some]
    · rw [itemAt?_eq_of_content ((hcontent p).trans (if_neg hp)), if_neg fun h => hp h.1]

end Draft

end Statechart
