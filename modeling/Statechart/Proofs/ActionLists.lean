import Statechart.Proofs.ListChanges
import Statechart.Proofs.Validation

/-!
# Lists of actions

Actions are written in lists: those on entry and on exit of a state, each under a key or its old
form, and those of a transition. An edit of an action is one operation on one of these lists, and
the others stay as they are.

Two removals are exceptions. The last entry under a key takes the key with it, so that what is
written under its old form comes into effect; and an entry that is left alone loses its brackets, so
that a list among the entries is taken for the list itself.

* `Draft.listIn`, `Draft.actionsAt`: the entries of lists of actions;
* `Draft.StateKeys`: the lists of states, with their keys;
* `Editor.Current.actionsAt_modifyActions`: what a change of one list makes of all;
* `Editor.actions_follow_iff`: edits of actions are operations on lists, but for those removals.
-/

namespace Statechart

open Property

/-! ## The lists of a machine -/

namespace Draft

section

variable {props new : List Property} {successor old : String}

/-- The entries of a list of a state: those under the key in use. -/
def listIn (props : List Property) (successor old : String) : List Expr :=
  OneOrMany.items props (actionKey props successor old)

/-- The entries under an old keyword that do not count, since its successor is written. -/
def hiddenIn (props : List Property) (successor old : String) : List Expr :=
  if hasName props successor then OneOrMany.items props old else []

theorem listIn_of_hasName (h : hasName props successor = true) :
    listIn props successor old = OneOrMany.items props successor := by
  rw [listIn, actionKey, effectiveKey?, if_pos h]
  rfl

theorem listIn_of_not_hasName (h : hasName props successor = false) :
    listIn props successor old = OneOrMany.items props old := by
  rw [listIn, actionKey, effectiveKey?, h, if_neg Bool.false_ne_true]
  split
  · rfl
  · next hold =>
    rw [Bool.not_eq_true] at hold
    exact (OneOrMany.items_of_not_hasName h).trans (OneOrMany.items_of_not_hasName hold).symm

theorem actionKey_mem (props : List Property) (successor old : String) :
    actionKey props successor old ∈ [successor, old] := by
  rw [actionKey, effectiveKey?]
  split
  · simp
  · split <;> simp

theorem effectiveKey?_mem {key : String} (h : effectiveKey? props successor old = some key) :
    key ∈ [successor, old] ∧ hasName props key = true := by
  rw [effectiveKey?] at h
  split at h
  · next hname =>
    cases h
    exact ⟨by simp, hname⟩
  · split at h
    · next hname =>
      cases h
      exact ⟨by simp, hname⟩
    · cases h

theorem hasName_of_effectiveKey?_eq_none {key : String}
    (h : effectiveKey? props successor old = none) (hkey : key ∈ [successor, old]) :
    hasName props key = false := by
  rw [effectiveKey?] at h
  split at h
  · cases h
  · next hsuccessor =>
    split at h
    · cases h
    · next hold =>
      rcases List.mem_cons.1 hkey with rfl | hkey
      · exact Bool.not_eq_true _ ▸ hsuccessor
      · exact List.mem_singleton.1 hkey ▸ Bool.not_eq_true _ ▸ hold

theorem value?_actionKey (props : List Property) (successor old : String) :
    value? props (actionKey props successor old) =
      (effectiveKey? props successor old).bind (value? props) := by
  rw [actionKey]
  cases hkey : effectiveKey? props successor old with
  | some key => rfl
  | none => exact value?_eq_none (hasName_of_effectiveKey?_eq_none hkey List.mem_cons_self)

theorem hasName_congr {a b : List Property} {name : String} (h : value? a name = value? b name) :
    hasName a name = hasName b name := by
  rw [← isSome_value?, ← isSome_value?, h]

theorem listIn_congr {a b : List Property} (hsuccessor : value? a successor = value? b successor)
    (hold : value? a old = value? b old) : listIn a successor old = listIn b successor old := by
  have hname := hasName_congr hsuccessor
  cases hb : hasName b successor with
  | true =>
    rw [listIn_of_hasName hb, listIn_of_hasName (hname.trans hb)]
    exact OneOrMany.items_congr hsuccessor
  | false =>
    rw [listIn_of_not_hasName hb, listIn_of_not_hasName (hname.trans hb)]
    exact OneOrMany.items_congr hold

/-- What is read of a list after the key in use was changed: the entries under it, or, if the key
    went, those that were hidden. -/
theorem listIn_of_changed (hne : old ≠ successor)
    (hothers : ∀ name, name ≠ actionKey props successor old → value? new name = value? props name) :
    listIn new successor old =
      ((value? new (actionKey props successor old)).map OneOrMany.itemsOf).getD
        (hiddenIn props successor old) := by
  have hkey : listIn new successor old = if hasName new successor then
      OneOrMany.items new successor else OneOrMany.items new old := by
    split
    · next hname => exact listIn_of_hasName hname
    · next hname => exact listIn_of_not_hasName (Bool.not_eq_true _ ▸ hname)
  rw [hkey, ← isSome_value?]
  rw [actionKey, effectiveKey?] at hothers ⊢
  rw [hiddenIn]
  -- Either the successor is the key in use, or its old form is and the successor stays absent.
  split at hothers
  · next hname =>
    rw [if_pos hname, if_pos hname, Option.getD_some]
    cases hnew : value? new successor with
    | none => exact OneOrMany.items_congr (hothers old hne)
    | some value => exact OneOrMany.items_of_value? hnew
  · next hname =>
    rw [if_neg hname, if_neg hname]
    split at hothers
    · next hold =>
      have hnone : value? new successor = none := by
        rw [hothers successor hne.symm, value?_eq_none (Bool.not_eq_true _ ▸ hname)]
      rw [if_pos hold, hnone]
      rfl
    · next hold =>
      rw [if_neg hold]
      cases hnew : value? new successor with
      | none =>
        have hvalue : value? new old = none :=
          (hothers old hne).trans (value?_eq_none (Bool.not_eq_true _ ▸ hold))
        simp [OneOrMany.items, hvalue, hnew]
      | some value => simp [OneOrMany.items, hnew]

end

/-- The properties of the state at a path; none if there is no state. -/
def propsAt (config : Expr) (path : StatePath) : List Property :=
  (stateProps? config path).getD []

theorem value?_propsAt (config : Expr) (path : StatePath) (name : String) :
    value? (propsAt config path) name = valueAt? config path name := by
  rw [propsAt, valueAt?]
  cases stateProps? config path <;> rfl

/-- The entries of the lists of actions of a machine, whether or not they can be understood. -/
def actionsAt (config : Expr) : ActionList → List Expr
  | .entry path => listIn (propsAt config path) "entry" "onEntry"
  | .exit path => listIn (propsAt config path) "exit" "onExit"
  | .transition source place =>
    OneOrMany.items (((itemAt? config source place).map itemProps).getD []) "actions"

/-- The entries of a list that do not count, since they are under the old form of its key. -/
def hiddenAt (config : Expr) : ActionList → List Expr
  | .entry path => hiddenIn (propsAt config path) "entry" "onEntry"
  | .exit path => hiddenIn (propsAt config path) "exit" "onExit"
  | .transition _ _ => []

theorem actionsAt_transition {config item : Expr} {source : StatePath} {place : TransitionPath}
    (h : itemAt? config source place = some item) :
    actionsAt config (.transition source place) = OneOrMany.items (itemProps item) "actions" := by
  rw [actionsAt, h]
  rfl

/-- The lists of a state, each with its key and the old form of it. -/
inductive StateKeys : (StatePath → ActionList) → String → String → Prop
  | entry : StateKeys .entry "entry" "onEntry"
  | exit : StateKeys .exit "exit" "onExit"

namespace StateKeys

variable {config : Expr} {list : StatePath → ActionList} {successor old : String}
  (hlist : StateKeys list successor old)

include hlist

theorem actionsAt_eq (config : Expr) (path : StatePath) :
    actionsAt config (list path) = listIn (propsAt config path) successor old := by
  cases hlist <;> rfl

theorem hiddenAt_eq (config : Expr) (path : StatePath) :
    hiddenAt config (list path) = hiddenIn (propsAt config path) successor old := by
  cases hlist <;> rfl

theorem old_ne : old ≠ successor := by
  cases hlist <;> decide

theorem not_mem_properties : successor ∉ Slot.properties ∧ old ∉ Slot.properties := by
  cases hlist <;> decide

theorem ne_states : successor ≠ "states" ∧ old ≠ "states" := by
  cases hlist <;> decide

/-- Lists of states are found by the properties under their keys. -/
theorem actionsAt_congr {config' : Expr} {path : StatePath}
    (hsuccessor : valueAt? config' path successor = valueAt? config path successor)
    (hold : valueAt? config' path old = valueAt? config path old) :
    actionsAt config' (list path) = actionsAt config (list path) := by
  rw [hlist.actionsAt_eq, hlist.actionsAt_eq]
  refine listIn_congr ?_ ?_
  · rw [value?_propsAt, value?_propsAt, hsuccessor]
  · rw [value?_propsAt, value?_propsAt, hold]

/-- Two lists are of different states, or have different keys. -/
theorem apart {list' : StatePath → ActionList} {successor' old' : String}
    (hlist' : StateKeys list' successor' old') {path p : StatePath} (hne : list' p ≠ list path) :
    p ≠ path ∨ ∀ name ∈ [successor', old'], name ∉ [successor, old] := by
  by_cases hp : p = path
  · subst hp
    right
    cases hlist <;> cases hlist' <;>
      first
        | exact absurd rfl hne
        | decide
  · exact .inl hp

/-- Lists of other states, and other lists of a state, do not notice a change of one. -/
theorem actionsAt_setStateProps {path : StatePath} {props new : List Property}
    (hprops : stateProps? config path = some props)
    (hothers : ∀ name ∉ [successor, old], value? new name = value? props name) :
    actionsAt (setStateProps new path config) = Function.update (actionsAt config) (list path)
      (listIn new successor old) := by
  have hstates : value? new "states" = value? props "states" :=
    hothers _ (by simpa using ⟨hlist.ne_states.1.symm, hlist.ne_states.2.symm⟩)
  have hvalue {p : StatePath} {name : String} (hname : name ≠ "states")
      (h : p ≠ path ∨ name ∉ [successor, old]) :
      valueAt? (setStateProps new path config) p name = valueAt? config p name := by
    rw [valueAt?_setStateProps hprops hstates p hname]
    split
    · next hp =>
      rw [hothers name (h.resolve_left (not_not_intro hp)), valueAt?, hp, hprops]
      rfl
    · rfl
  have hstate {list' : StatePath → ActionList} {successor' old' : String}
      (hlist' : StateKeys list' successor' old') {p : StatePath} (hne : list' p ≠ list path) :
      actionsAt (setStateProps new path config) (list' p) = actionsAt config (list' p) := by
    have hapart := hlist.apart hlist' hne
    refine hlist'.actionsAt_congr (hvalue hlist'.ne_states.1 ?_) (hvalue hlist'.ne_states.2 ?_)
    · exact hapart.imp_right fun h => h _ (by simp)
    · exact hapart.imp_right fun h => h _ (by simp)
  -- Other lists are under other keys, or on other states, or on transitions, whose items stay.
  funext other
  by_cases hother : other = list path
  · rw [hother, Function.update_self, hlist.actionsAt_eq, propsAt,
      stateProps?_setStateProps_self (Option.isSome_of_eq_some hprops)]
    rfl
  rw [Function.update_of_ne hother]
  cases other with
  | entry p => exact hstate .entry hother
  | exit p => exact hstate .exit hother
  | transition source place =>
    obtain ⟨hsuccessor, hold⟩ := hlist.not_mem_properties
    have hslots : itemsIn new = itemsIn props := by
      funext slot
      refine itemsIn_congr (hothers _ ?_)
      simpa using ⟨Slot.property_ne hsuccessor slot, Slot.property_ne hold slot⟩
    rw [actionsAt, actionsAt, ← getElem?_itemsAt, ← getElem?_itemsAt,
      itemsAt_setStateProps hprops hstates, hslots, withState_itemsIn hprops]

end StateKeys

section

variable {config config' item : Expr} {source : StatePath} {place : TransitionPath}
  (htable : itemsAt config' = (itemsAt config).replace (source, place.slot) place.index item)
  (hlt : place.index < (itemsAt config (source, place.slot)).length)

include htable hlt

/-- An item is found where it was put, and the others where they were. -/
theorem itemAt?_of_replace (p : StatePath) (other : TransitionPath) : itemAt? config' p other =
    if p = source ∧ other = place then some item else itemAt? config p other := by
  rw [← getElem?_itemsAt, ← getElem?_itemsAt, htable, SlotTable.replace]
  by_cases hslot : (p, other.slot) = (source, place.slot)
  · rw [hslot, Function.update_self, List.getElem?_set]
    obtain ⟨rfl, hslot⟩ := Prod.mk.inj hslot
    by_cases hindex : place.index = other.index
    · have hother : other = place := by
        cases other
        cases place
        simp_all
      rw [if_pos hindex, if_pos hlt, if_pos ⟨rfl, hother⟩]
    · have hother : other ≠ place := fun heq => hindex (heq ▸ rfl)
      rw [if_neg hindex, if_neg fun heq => hother heq.2]
  · rw [Function.update_of_ne hslot, if_neg fun heq => hslot (by rw [heq.1, heq.2])]

/-- Replacing a transition changes its own actions, and no others. -/
theorem actionsAt_of_replace (hapart : SlotsApart config config') :
    actionsAt config' = Function.update (actionsAt config) (.transition source place)
      (OneOrMany.items (itemProps item) "actions") := by
  have hstate {list : StatePath → ActionList} {successor old : String}
      (hlist : StateKeys list successor old) (p : StatePath) :
      actionsAt config' (list p) = actionsAt config (list p) := by
    obtain ⟨hsuccessor, hold⟩ := hlist.not_mem_properties
    exact hlist.actionsAt_congr (hapart.values p _ hlist.ne_states.1 hsuccessor)
      (hapart.values p _ hlist.ne_states.2 hold)
  funext other
  cases other with
  | entry p =>
    rw [Function.update_of_ne (by simp)]
    exact hstate .entry p
  | exit p =>
    rw [Function.update_of_ne (by simp)]
    exact hstate .exit p
  | transition p other =>
    rw [actionsAt, itemAt?_of_replace htable hlt, Function.update_apply]
    by_cases hother : p = source ∧ other = place
    · rw [if_pos hother, if_pos (by rw [hother.1, hother.2])]
      rfl
    · rw [if_neg hother, if_neg (by simpa using hother), actionsAt]

end

end Draft

open Draft

namespace Editor

variable {editor : Editor} {draft : Expr} {path : ActionPath} {create : Bool}
  {f : List Property → String → Option (List Property)} {fits : List Expr → Prop}
  {result : List Expr → Option (List Expr)}

variable (editor) in
/-- A list is there if it is one of a state, or of a transition that is an edge. -/
def HasList : ActionList → Prop
  | .entry state | .exit state => (stateProps? editor.draft state).isSome
  | .transition source place => editor.graph.HasEdgeAt source place

theorem modifyActions_eq_ok {list : StatePath → ActionList} {successor old : String}
    (hlist : StateKeys list successor old) {state : StatePath} {index : Nat} :
    editor.modifyActions ⟨list state, index⟩ create f = .ok draft ↔
      (∃ node, editor.node state = .ok node) ∧ ∃ props new,
        stateProps? editor.draft state = some props ∧
        f props (actionKey props successor old) = some new ∧
        draft = setStateProps new state editor.draft := by
  obtain ⟨change, hmodify, hchange⟩ : ∃ change : List Property → Edited (List Property),
      editor.modifyActions ⟨list state, index⟩ create f =
        (editor.node state >>= fun _ => modifyState editor.draft state change) ∧
      ∀ props new, change props = .ok new ↔
        f props (actionKey props successor old) = some new := by
    cases hlist <;> refine ⟨_, rfl, fun props new => ?_⟩ <;> dsimp only <;> cases f props _ <;>
      simp [pure, Except.pure, throw, throwThe, MonadExceptOf.throw]
  rw [hmodify]
  simp only [bind_eq_ok, modifyState_eq_ok, hchange, exists_and_right]

/-- The transition of a list that is changed is replaced by one with the list changed. -/
theorem exists_of_modifyActions {source : StatePath} {place : TransitionPath} {index : Nat}
    (h : editor.modifyActions ⟨.transition source place, index⟩ create f = .ok draft) :
    ∃ item new, (itemsAt editor.draft (source, place.slot))[place.index]? = some item ∧
      f (itemProps (if create then promote item else item)) "actions" = some new ∧
      (isTransition item = true → itemsAt draft =
        (itemsAt editor.draft).replace (source, place.slot) place.index
          (collapse ((if create then promote item else item).withProps new))) := by
  obtain ⟨node, -, h⟩ := bind_eq_ok.1 h
  obtain ⟨item, changed, hitem, hchanged, htable⟩ := exists_of_modifyTransition h
  obtain ⟨new, hnew, hchanged⟩ := bind_eq_ok.1 hchanged
  cases hchanged
  refine ⟨item, new, hitem, ?_, fun hform => htable (isArray_of_isTransition ?_)⟩
  · dsimp only at hnew
    cases hsome : f (itemProps (if create then promote item else item)) "actions" with
    | none =>
      rw [hsome] at hnew
      cases hnew
    | some props =>
      rw [hsome] at hnew
      cases hnew
      rfl
  · rw [isTransition_collapse, isTransition_withProps]
    split
    · exact isTransition_promote item
    · exact hform

/-- The list of a transition is the same when it becomes an object. -/
theorem items_actions (item : Expr) (create : Bool) :
    OneOrMany.items (itemProps (if create then promote item else item)) "actions" =
      OneOrMany.items (itemProps item) "actions" := by
  split
  · exact OneOrMany.items_congr (value?_promote (by decide) item)
  · rfl

section

variable (hchange : OneOrMany.Changes f fits result)

include hchange

/-- A list of actions that is changed is one of an object. -/
theorem exists_object_of_changed (hcreate : create = false → ¬fits []) {item : Expr}
    {new : List Property}
    (hnew : f (itemProps (if create then promote item else item)) "actions" = some new) :
    ∃ origin props, (if create then promote item else item) = .object origin props := by
  cases create with
  | true => exact exists_promote_eq item
  | false =>
    have hfits := (hchange.accepts _ _).1 (Option.isSome_of_eq_some hnew)
    rw [items_actions] at hfits
    cases item with
    | object origin props => exact ⟨origin, props, rfl⟩
    | _ => exact absurd hfits (hcreate rfl)

/-- What is read of the list of a transition that was changed. -/
theorem items_changedActions (hcreate : create = false → ¬fits []) {item : Expr}
    {new : List Property}
    (hnew : f (itemProps (if create then promote item else item)) "actions" = some new) :
    OneOrMany.items (itemProps (collapse ((if create then promote item else item).withProps new)))
        "actions" =
      (result (OneOrMany.items (itemProps item) "actions")).getD [] := by
  obtain ⟨origin, props, heq⟩ := exists_object_of_changed hchange hcreate hnew
  rw [← items_actions item create, ← hchange.reads hnew, OneOrMany.items,
    value?_collapse (by decide), heq]
  rfl

/-- A list can be changed if its entries allow for it. -/
theorem Current.exists_modifyActions_iff_fits (h : editor.Current)
    (hlist : editor.HasList path.list) :
    (∃ draft, editor.modifyActions path create f = .ok draft) ↔
      fits (actionsAt editor.draft path.list) := by
  obtain ⟨list, index⟩ := path
  have hstate {keyed : StatePath → ActionList} {successor old : String}
      (hkeys : StateKeys keyed successor old) {state : StatePath}
      (hsome : (stateProps? editor.draft state).isSome) :
      (∃ draft, editor.modifyActions ⟨keyed state, index⟩ create f = .ok draft) ↔
        fits (actionsAt editor.draft (keyed state)) := by
    obtain ⟨props, hprops⟩ := Option.isSome_iff_exists.1 hsome
    obtain ⟨node, hnode⟩ := (h.has_iff state).2 (.inr hsome)
    have hnode : ∃ node, editor.node state = .ok node :=
      ⟨node, node_eq_ok.2 ((Graph.nodeAt?_eq_some_iff h.wellFormed).2 hnode)⟩
    rw [hkeys.actionsAt_eq, propsAt, hprops, Option.getD_some, listIn, ← hchange.accepts,
      Option.isSome_iff_exists]
    simp only [modifyActions_eq_ok hkeys, hprops, Option.some.injEq, hnode, true_and]
    constructor
    · rintro ⟨draft, props', new, rfl, hnew, -⟩
      exact ⟨new, hnew⟩
    · rintro ⟨new, hnew⟩
      exact ⟨_, props, new, rfl, hnew, rfl⟩
  cases list with
  | entry state => exact hstate .entry hlist
  | exit state => exact hstate .exit hlist
  | transition source place =>
    obtain ⟨item, hitem, -⟩ := h.hasEdgeAt_iff.1 hlist
    rw [h.exists_modifyActions_iff, actionsAt, hitem]
    simp only [hchange.accepts, items_actions, Option.some.injEq, exists_eq_left']
    rfl

/-- A change of a list leaves all others as they are. If the key of the list goes, its old form
    comes into effect. -/
theorem Current.actionsAt_modifyActions (h : editor.Current) (hlist : editor.HasList path.list)
    (hcreate : create = false → ¬fits [])
    (hmodify : editor.modifyActions path create f = .ok draft) :
    actionsAt draft = Function.update (actionsAt editor.draft) path.list
      ((result (actionsAt editor.draft path.list)).getD (hiddenAt editor.draft path.list)) := by
  obtain ⟨list, index⟩ := path
  have hstate {keyed : StatePath → ActionList} {successor old : String}
      (hkeys : StateKeys keyed successor old) {state : StatePath}
      (hmodify : editor.modifyActions ⟨keyed state, index⟩ create f = .ok draft) :
      actionsAt draft = Function.update (actionsAt editor.draft) (keyed state)
        ((result (actionsAt editor.draft (keyed state))).getD
          (hiddenAt editor.draft (keyed state))) := by
    obtain ⟨-, props, new, hprops, hnew, rfl⟩ := (modifyActions_eq_ok hkeys).1 hmodify
    have hothers := hchange.others hnew
    rw [hkeys.actionsAt_setStateProps hprops fun name hname => hothers name fun heq =>
        hname (heq ▸ actionKey_mem _ _ _),
      listIn_of_changed hkeys.old_ne hothers, hchange.reads hnew, hkeys.actionsAt_eq,
      hkeys.hiddenAt_eq, propsAt, hprops, Option.getD_some, listIn]
  cases list with
  | entry state => exact hstate .entry hmodify
  | exit state => exact hstate .exit hmodify
  | transition source place =>
    obtain ⟨item, new, hitem, hnew, htable⟩ := exists_of_modifyActions hmodify
    obtain ⟨item', hitem', hform⟩ := h.hasEdgeAt_iff.1 hlist
    rw [← getElem?_itemsAt, hitem] at hitem'
    cases hitem'
    obtain ⟨node, -, hmodify⟩ := bind_eq_ok.1 hmodify
    rw [actionsAt_of_replace (htable hform) (List.getElem?_eq_some_iff.1 hitem).1
        (slotsApart_modifyTransition hmodify),
      items_changedActions hchange hcreate hnew]
    rw [getElem?_itemsAt] at hitem
    rw [actionsAt_transition hitem]
    rfl

end

end Editor

/-! ## Edits of actions -/

/-- Where an edit of an action looks for it. -/
def Edit.action? : Edit → Option ActionPath
  | .addAction path _ | .removeAction path | .editAction path _ => some path
  | _ => none

/-- Whether a list has the position that an edit of it asks for. -/
def Edit.fits (edit : Edit) (entries : List Expr) : Prop :=
  match edit with
  | .addAction path _ => path.index ≤ entries.length
  | .removeAction path | .editAction path _ => path.index < entries.length
  | _ => False

/-- What an edit of an action makes of its list: the action comes to stand at its position, goes, or
    refers to another name. -/
def Edit.Alters (edit : Edit) (entries entries' : List Expr) : Prop :=
  match edit with
  | .addAction path name => entries' = entries.insertIdx path.index (.ofText name)
  | .removeAction path => entries' = entries.eraseIdx path.index
  | .editAction path name =>
    ∃ entry, Reference.Names .action entry name ∧ entries' = entries.set path.index entry
  | _ => False

namespace Editor

variable {editor : Editor} {edit : Edit} {path : ActionPath}

variable (editor) in
/-- The removals that leave something else than the other entries: the last entry of a list goes and
    uncovers others, or the only entry left is a list itself and is taken for the whole. -/
def misreads : Edit → Bool
  | .removeAction path =>
    match (actionsAt editor.draft path.list).eraseIdx path.index with
    | [] => !(hiddenAt editor.draft path.list).isEmpty
    | [last] => last.isArray
    | _ => false
  | _ => false

/-- Edits of actions are accepted if the list has the position that they ask for. -/
theorem Current.exists_apply_iff_fits (h : editor.Current) (hpath : edit.action? = some path)
    (hlist : editor.HasList path.list) :
    (∃ editor', editor.apply edit = .ok editor') ↔
      edit.fits (actionsAt editor.draft path.list) := by
  have hrevise : (∃ editor', editor.apply edit = .ok editor') ↔
      ∃ draft, editor.revise edit = .ok draft := by
    rw [apply]
    cases editor.revise edit <;> simp [Except.map]
  rw [hrevise]
  cases edit with
  | addAction =>
    cases hpath
    exact h.exists_modifyActions_iff_fits (OneOrMany.changes_insert _ rfl) hlist
  | removeAction =>
    cases hpath
    exact h.exists_modifyActions_iff_fits (OneOrMany.changes_remove _) hlist
  | editAction path name =>
    cases hpath
    exact h.exists_modifyActions_iff_fits
      (OneOrMany.changes_modify _ fun _ _ => isArray_setReference name _) hlist
  | _ => cases hpath

/-- What is read after a removal are the entries left, unless it is one of those that misread. -/
theorem getD_removal_eq_iff :
    (OneOrMany.removal path.index (actionsAt editor.draft path.list)).getD
        (hiddenAt editor.draft path.list) = (actionsAt editor.draft path.list).eraseIdx path.index ↔
      editor.misreads (.removeAction path) = false := by
  rw [OneOrMany.removal, misreads]
  rcases (actionsAt editor.draft path.list).eraseIdx path.index with _ | ⟨last, _ | ⟨next, rest⟩⟩
  · simp
  · simp [OneOrMany.reread, OneOrMany.itemsOf_eq_singleton_iff]
  · simp [OneOrMany.reread]

/-- An edit of an action is one operation on one list of actions, and leaves all other lists as they
    are: it is accepted if the list has the position, and then the list reads as it should, unless
    the edit is one of those that misread. -/
theorem actions_follow_iff (h : editor.Current) (hpath : edit.action? = some path)
    (hlist : editor.HasList path.list) :
    ((∃ editor', editor.apply edit = .ok editor') ↔
      edit.fits (actionsAt editor.draft path.list)) ∧
    ∀ editor', editor.apply edit = .ok editor' →
      ((∃ entries, edit.Alters (actionsAt editor.draft path.list) entries ∧
          actionsAt editor'.draft =
            Function.update (actionsAt editor.draft) path.list entries) ↔
        editor.misreads edit = false) := by
  refine ⟨h.exists_apply_iff_fits hpath hlist, fun editor' happly => ?_⟩
  obtain ⟨draft, hdraft, rfl⟩ := exists_of_apply happly
  change (∃ entries, _ ∧ actionsAt draft = _) ↔ _
  cases edit with
  | addAction _ name =>
    cases hpath
    have htable := h.actionsAt_modifyActions (OneOrMany.changes_insert _ rfl) hlist (by simp) hdraft
    exact iff_of_true ⟨_, rfl, htable⟩ rfl
  | removeAction =>
    cases hpath
    have htable := h.actionsAt_modifyActions (OneOrMany.changes_remove _) hlist (by simp) hdraft
    rw [← getD_removal_eq_iff, htable]
    constructor
    · rintro ⟨entries, rfl, heq⟩
      simpa using congrFun heq path.list
    · intro heq
      exact ⟨_, rfl, by rw [heq]⟩
  | editAction _ name =>
    cases hpath
    have htable := h.actionsAt_modifyActions
      (OneOrMany.changes_modify _ fun _ _ => isArray_setReference name _) hlist (by simp) hdraft
    have : Inhabited Expr := ⟨.newUndefined⟩
    exact iff_of_true
      ⟨_, ⟨_, names_setReference .action name _, List.modify_eq_set _ _ _⟩, htable⟩ rfl
  | _ => cases hpath

/-- One of two entries goes, and the other loses its brackets. What is written under the old form of
    the key stays hidden. -/
theorem actions_follow_iff_brackets : ∃ editor editor',
    ofText? "createMachine(\x7bstates: \x7ba: \x7bentry: ['x', 'y'], onEntry: 'z'\x7d\x7d\x7d)" [] =
      some editor ∧
    editor.apply (.removeAction ⟨.entry ["a"], 0⟩) = .ok editor' ∧
    (actionsAt editor'.draft (.entry ["a"])).map Expr.text? = [some "y"] ∧
    ∃ entries,
      (Edit.removeAction ⟨.entry ["a"], 0⟩).Alters (actionsAt editor.draft (.entry ["a"])) entries ∧
      actionsAt editor'.draft =
        Function.update (actionsAt editor.draft) (.entry ["a"]) entries := by
  have hfound : (ofText?
      "createMachine(\x7bstates: \x7ba: \x7bentry: ['x', 'y'], onEntry: 'z'\x7d\x7d\x7d)"
      []).any (fun editor => (stateProps? editor.draft ["a"]).isSome &&
        !editor.misreads (.removeAction ⟨.entry ["a"], 0⟩) &&
          (editor.apply (.removeAction ⟨.entry ["a"], 0⟩)).toOption.any fun editor' =>
            (actionsAt editor'.draft (.entry ["a"])).map Expr.text? = [some "y"]) = true := by
    decide +kernel
  obtain ⟨editor, heditor, h⟩ := (Option.any_eq_true _ _).1 hfound
  simp only [Bool.and_eq_true, Bool.not_eq_true'] at h
  obtain ⟨editor', hedited, hafter⟩ := (Option.any_eq_true _ _).1 h.2
  have happly := eq_ok_of_toOption hedited
  have hpath : (Edit.removeAction ⟨.entry ["a"], 0⟩).action? = some ⟨.entry ["a"], 0⟩ := rfl
  obtain ⟨-, hiff⟩ := actions_follow_iff (reached_of_ofText? heditor).current hpath h.1.1
  exact ⟨editor, editor', heditor, happly, of_decide_eq_true hafter, (hiff editor' happly).2 h.1.2⟩

/-- The only entry of a list goes, and the list is not empty then: the entry under the old form of
    its key comes into effect. -/
theorem removeAction_uncovers : ∃ editor editor',
    ofText? "createMachine(\x7bstates: \x7ba: \x7bentry: 'x', onEntry: 'y'\x7d\x7d\x7d)" [] =
      some editor ∧
    editor.HasList (.entry ["a"]) ∧
    editor.apply (.removeAction ⟨.entry ["a"], 0⟩) = .ok editor' ∧
    (actionsAt editor.draft (.entry ["a"])).eraseIdx 0 = [] ∧
    (actionsAt editor'.draft (.entry ["a"])).map Expr.text? = [some "y"] := by
  have hfound : (ofText?
      "createMachine(\x7bstates: \x7ba: \x7bentry: 'x', onEntry: 'y'\x7d\x7d\x7d)" []).any
      (fun editor => (stateProps? editor.draft ["a"]).isSome &&
        ((actionsAt editor.draft (.entry ["a"])).eraseIdx 0).isEmpty &&
          (editor.apply (.removeAction ⟨.entry ["a"], 0⟩)).toOption.any fun editor' =>
            (actionsAt editor'.draft (.entry ["a"])).map Expr.text? = [some "y"]) = true := by
    decide +kernel
  obtain ⟨editor, heditor, h⟩ := (Option.any_eq_true _ _).1 hfound
  simp only [Bool.and_eq_true, List.isEmpty_iff] at h
  obtain ⟨editor', hedited, hafter⟩ := (Option.any_eq_true _ _).1 h.2
  exact ⟨editor, editor', heditor, h.1.1, eq_ok_of_toOption hedited, h.1.2,
    of_decide_eq_true hafter⟩

end Editor

end Statechart
