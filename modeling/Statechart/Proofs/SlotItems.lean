import Mathlib.Logic.Function.Basic
import Statechart.Proofs.StateChanges

/-!
# The items of slots

A slot of a state holds a list of items. The changes of a draft that concern transitions are
changes of these lists, one or two at a time: whatever the owner of a slot has to go through in
brackets, keys and maps, the lists of all other slots stay as they are.

* `Draft.itemsIn`, `Draft.itemsAt`: the items of a slot;
* `Draft.itemsIn_setOwner`: changing one key of an owner changes one slot;
* `Draft.itemsAt_takeTransition`, `Draft.itemsAt_putTransition`,
  `Draft.itemsAt_modifyTransition`: an item is erased, comes to the end, or is replaced;
* `Draft.itemsAt_renameSlot`: renaming the key of a map moves its only item.
-/

namespace Statechart

open Property

namespace OneOrMany

variable {props : List Property} {key : String}

theorem items_congr {a b : List Property} (h : value? a key = value? b key) :
    items a key = items b key := by
  rw [items, items, h]

theorem items_of_value? {value : Expr} (h : value? props key = some value) :
    items props key = itemsOf value := by
  rw [items, h]
  rfl

theorem items_of_not_hasName (h : hasName props key = false) : items props key = [] := by
  rw [items, value?_eq_none h]
  rfl

theorem itemsOf_of_not_isArray {value : Expr} (h : value.isArray = false) :
    itemsOf value = [value] :=
  (oneOrMany_itemsOf value).trans (Draft.itemsOf_of_not_isArray h)

/-- An item is replaced in its place. -/
theorem items_modifyItem {index : Nat} {old new : Expr}
    (hold : (items props key)[index]? = some old) (hnew : new.isArray = false) :
    items (modifyItem props key index fun _ => new) key = (items props key).set index new := by
  refine List.ext_getElem? fun i => ?_
  have hitem := Draft.item?_modifyItem (f := fun _ => new) (fun _ _ => hnew) props key key index i
  rw [item?, item?, item?, hold] at hitem
  rw [hitem, List.getElem?_set]
  have hlt := (List.getElem?_eq_some_iff.1 hold).1
  by_cases hi : i = index
  · simp [hi, hlt]
  · simp [hi, Ne.symm hi]

/-- What is inserted comes to stand at its position, and at the end if it has none. -/
theorem items_insertAt (props : List Property) (key : String) (index : Option Nat) {item : Expr}
    (hitem : item.isArray = false) :
    items (insert props key index item) key = (items props key).insertIdx
      (min (index.getD (length props key)) (length props key)) item := by
  rw [insert, length]
  split
  · next hname =>
    obtain ⟨value, hvalue⟩ := Option.isSome_iff_exists.1 ((isSome_value? props key).trans hname)
    rw [items_of_value? hvalue]
    refine (items_of_value? ((value?_modifyValue_self _ _ _).trans (congrArg _ hvalue))).trans ?_
    cases value with
    | array origin items => simp [itemsOf]
    | _ =>
      -- One item has no brackets, and what comes to it is before or behind it.
      rcases index with _ | _ | index <;> simp [itemsOf, Expr.ofItems]
  · next hname =>
    rw [Bool.not_eq_true] at hname
    have hvalue : value? (props ++ [ofPair key item]) key = some item := by
      rw [value?_append_ofPair, if_pos rfl]
    rw [items_of_value? hvalue, items_of_not_hasName hname, itemsOf_of_not_isArray hitem]
    simp

/-- What is inserted without a position comes last. -/
theorem items_insert (props : List Property) (key : String) {item : Expr}
    (hitem : item.isArray = false) :
    items (insert props key none item) key = items props key ++ [item] := by
  rw [items_insertAt props key none hitem, Option.getD_none, Nat.min_self, length,
    List.insertIdx_length_self]

/-- What is read of items that are written without brackets if they are one: that item, or the items
    of an item that is a list itself. -/
def reread : List Expr → List Expr
  | [last] => itemsOf last
  | items => items

/-- An item without brackets is read as itself, unless it is a list. -/
theorem itemsOf_eq_singleton_iff {value : Expr} :
    itemsOf value = [value] ↔ value.isArray = false := by
  refine ⟨fun h => ?_, itemsOf_of_not_isArray⟩
  cases value with
  | array origin items =>
    -- No list is an item of itself.
    have hsize : sizeOf items = sizeOf [Expr.array origin items] := congrArg sizeOf h
    simp only [List.cons.sizeOf_spec, List.nil.sizeOf_spec, Expr.array.sizeOf_spec] at hsize
    omega
  | _ => rfl

theorem reread_eq_self_iff {items : List Expr} :
    reread items = items ↔ ∀ last, items = [last] → last.isArray = false := by
  rcases items with _ | ⟨last, _ | ⟨next, rest⟩⟩
  · simp [reread]
  · simp [reread, itemsOf_eq_singleton_iff]
  · simp [reread]

/-- What is taken out was there, and the other items are read as they are written then. -/
theorem items_of_remove? {index : Nat} {item : Expr} {left : List Property}
    (h : remove? props key index = some (item, left)) :
    (items props key)[index]? = some item ∧
      items left key = reread ((items props key).eraseIdx index) := by
  obtain ⟨removed, hremoved, h⟩ := Option.map_eq_some_iff.1 h
  obtain ⟨rfl, rfl⟩ := Prod.mk.inj h
  refine ⟨hremoved, ?_⟩
  obtain ⟨value, hvalue⟩ : ∃ value, value? props key = some value := by
    cases hvalue : value? props key with
    | none => rw [item?, items, hvalue] at hremoved; cases hremoved
    | some value => exact ⟨value, rfl⟩
  have hself : ∀ f, value? (modifyValue props key f) key = some (f value) := fun f =>
    (value?_modifyValue_self _ _ _).trans (congrArg _ hvalue)
  split
  · next hleft =>
    rw [hleft, items, value?_eraseName, if_pos rfl]
    rfl
  · next last hleft =>
    rw [items_of_value? (hself _), hleft]
    rfl
  · next hnil hone =>
    rw [items_of_value? (hself _), reread_eq_self_iff.2 fun last hlast => absurd hlast (hone last)]
    cases value with
    | array => rfl
    | _ =>
      -- Without brackets there was one item, so that none is left.
      rw [item?, items_of_value? hvalue] at hremoved
      refine absurd ?_ hnil
      rw [items_of_value? hvalue, itemsOf_of_not_isArray rfl] at *
      cases index with
      | zero => rfl
      | succ index => cases hremoved

/-- The other items stay, if none of them is a list that could be taken for the brackets. -/
theorem items_remove? {index : Nat} {item : Expr} {left : List Property}
    (h : remove? props key index = some (item, left))
    (hitems : ∀ item ∈ items props key, item.isArray = false) :
    (items props key)[index]? = some item ∧ items left key = (items props key).eraseIdx index := by
  obtain ⟨hremoved, hleft⟩ := items_of_remove? h
  refine ⟨hremoved, hleft.trans (reread_eq_self_iff.2 fun last hlast => hitems last ?_)⟩
  exact (List.eraseIdx_sublist _ _).subset (hlast ▸ List.mem_singleton_self _)

end OneOrMany

/-- The items of all slots, each given by the path of its state. -/
abbrev SlotTable := StatePath × Slot → List Expr

namespace SlotTable

variable (table : SlotTable) (place : StatePath × Slot)

/-- Takes an item out of a slot. -/
def erase (index : Nat) : SlotTable :=
  Function.update table place ((table place).eraseIdx index)

/-- Puts an item at the end of a slot. -/
def append (item : Expr) : SlotTable :=
  Function.update table place (table place ++ [item])

/-- Replaces an item of a slot. -/
def replace (index : Nat) (item : Expr) : SlotTable :=
  Function.update table place ((table place).set index item)

/-- Gives a state other slots. -/
def withState (path : StatePath) (items : Slot → List Expr) : SlotTable := fun place =>
  if place.1 = path then items place.2 else table place

theorem withState_update (path : StatePath) (items : Slot → List Expr) (slot : Slot)
    (list : List Expr) :
    table.withState path (Function.update items slot list) =
      Function.update (table.withState path items) (path, slot) list := by
  funext ⟨p, other⟩
  by_cases hp : p = path
  · subst hp
    by_cases hslot : other = slot
    · simp [withState, hslot]
    · simp [withState, hslot]
  · simp [withState, hp]

/-- All items have the form of transitions. -/
def AllTransitions : Prop :=
  ∀ place, ∀ item ∈ table place, isTransition item = true

variable {table}

theorem AllTransitions.update (h : table.AllTransitions) {items : List Expr}
    (hitems : ∀ item ∈ items, isTransition item = true) :
    AllTransitions (Function.update table place items) := by
  intro other item hmem
  by_cases hother : other = place
  · rw [hother, Function.update_self] at hmem
    exact hitems item hmem
  · rw [Function.update_of_ne hother] at hmem
    exact h other item hmem

theorem AllTransitions.erase (h : table.AllTransitions) (index : Nat) :
    (table.erase place index).AllTransitions :=
  h.update place fun item hmem => h place item ((List.eraseIdx_sublist _ _).subset hmem)

variable {item : Expr} (hitem : isTransition item = true)

include hitem

theorem AllTransitions.append (h : table.AllTransitions) :
    (table.append place item).AllTransitions := by
  refine h.update place fun other hmem => ?_
  rcases List.mem_append.1 hmem with hmem | hmem
  · exact h place other hmem
  · exact List.mem_singleton.1 hmem ▸ hitem

theorem AllTransitions.replace (h : table.AllTransitions) (index : Nat) :
    (table.replace place index item).AllTransitions := by
  refine h.update place fun other hmem => ?_
  rcases List.mem_or_eq_of_mem_set hmem with hmem | rfl
  · exact h place other hmem
  · exact hitem

end SlotTable

theorem isArray_of_isTransition {item : Expr} (h : isTransition item = true) :
    item.isArray = false := by
  cases item with
  | array => cases h
  | _ => rfl

namespace Draft

/-- The items of a slot of a state. -/
def itemsIn (state : List Property) (slot : Slot) : List Expr :=
  ((slot.owner? state).map (OneOrMany.items · slot.key)).getD []

/-- The items of the slots of a description. -/
def itemsAt (config : Expr) : SlotTable := fun place =>
  ((stateProps? config place.1).map (itemsIn · place.2)).getD []

theorem getElem?_itemsIn (state : List Property) (slot : Slot) (index : Nat) :
    (itemsIn state slot)[index]? = itemIn? state ⟨slot, index⟩ := by
  rw [itemIn?_eq, itemsIn]
  cases slot.owner? state <;> rfl

theorem getElem?_itemsAt (config : Expr) (path : StatePath) (slot : Slot) (index : Nat) :
    (itemsAt config (path, slot))[index]? = itemAt? config path ⟨slot, index⟩ := by
  rw [itemAt?, itemsAt]
  cases stateProps? config path with
  | none => rfl
  | some state => exact getElem?_itemsIn state slot index

/-- Items are found by the property that holds them. -/
theorem itemsIn_congr {a b : List Property} {slot : Slot}
    (h : value? a slot.property = value? b slot.property) : itemsIn a slot = itemsIn b slot := by
  refine List.ext_getElem? fun index => ?_
  rw [getElem?_itemsIn, getElem?_itemsIn]
  exact itemIn?_congr h

theorem itemsIn_of_owner? {state owner : List Property} {slot : Slot}
    (h : slot.owner? state = some owner) : itemsIn state slot = OneOrMany.items owner slot.key := by
  rw [itemsIn, h]
  rfl

/-! ## Owners of slots -/

section

variable {state owner new : List Property} {slot : Slot} (howner : slot.owner? state = some owner)

include howner

theorem owner?_setOwner : slot.owner? (slot.setOwner state new) = some new := by
  cases slot with
  | always | onDone => rfl
  | on | after =>
    simp only [Slot.owner?] at howner
    simp only [Slot.owner?, Slot.setOwner, value?_modifyValue_self, bind_props?_withProps, howner,
      Option.map_some]
  | invokeDone invoke | invokeError invoke =>
    simp only [Slot.owner?] at howner
    simp only [Slot.owner?, Slot.setOwner,
      item?_modifyItem fun value h => (isArray_withProps _ value).trans h, and_self, if_true,
      bind_props?_withProps, howner, Option.map_some]

/-- Slots with the same owner have their items among its new properties. -/
theorem itemsIn_setOwner_of_owner?_eq {other : Slot} (hsame : other.owner? = slot.owner?) :
    itemsIn (slot.setOwner state new) other = OneOrMany.items new other.key :=
  itemsIn_of_owner? (hsame ▸ owner?_setOwner howner)

variable (hnew : slot.mapName? = none →
  ∀ name, name ≠ slot.key → value? new name = value? owner name)

include hnew

/-- Changing the owner of a slot changes the property that holds the slot. -/
theorem value?_setOwner_of_ne {name : String} (hname : name ≠ slot.property) :
    value? (slot.setOwner state new) name = value? state name := by
  cases slot with
  | on | after => exact value?_modifyValue_of_ne hname state _
  | always | onDone =>
    obtain rfl : state = owner := Option.some.inj howner
    exact hnew rfl name hname
  | invokeDone | invokeError => exact value?_modifyItem hname state _ _

omit hnew

/-- Changing one key of an owner changes the slot that is written there, and no other. -/
theorem itemsIn_setOwner (hkey : ∀ name, name ≠ slot.key → value? new name = value? owner name) :
    itemsIn (slot.setOwner state new) =
      Function.update (itemsIn state) slot (OneOrMany.items new slot.key) := by
  funext other
  by_cases hother : other = slot
  · rw [hother, Function.update_self, itemsIn_setOwner_of_owner?_eq howner rfl]
  rw [Function.update_of_ne hother]
  have hsame (heq : other.owner? = slot.owner?) (hne : other.key ≠ slot.key) :
      itemsIn (slot.setOwner state new) other = itemsIn state other := by
    rw [itemsIn_setOwner_of_owner?_eq howner heq, itemsIn_of_owner? (heq ▸ howner)]
    exact OneOrMany.items_congr (hkey _ hne)
  by_cases hproperty : other.property = slot.property
  · -- Slots in one property have one owner and differ in their keys, or follow the ends of
    -- different invocations.
    cases slot with
    | on name | after name =>
      cases other <;> simp only [Slot.property, String.reduceEq] at hproperty
      exact hsame rfl fun heq => hother (congrArg _ heq)
    | always | onDone =>
      cases other <;> simp only [Slot.property, String.reduceEq] at hproperty
      exact absurd rfl hother
    | invokeDone invoke | invokeError invoke =>
      cases other <;> simp only [Slot.property, String.reduceEq] at hproperty
      all_goals
        next invoke' =>
        by_cases hinvoke : invoke' = invoke
        · subst hinvoke
          first
            | exact absurd rfl hother
            | exact hsame rfl (by simp [Slot.key])
        · simp only [itemsIn, Slot.owner?, Slot.setOwner,
            item?_modifyItem fun value h => (isArray_withProps _ value).trans h, true_and,
            if_neg hinvoke]
  · exact itemsIn_congr (value?_setOwner_of_ne howner (fun _ => hkey) hproperty)

end

/-! ## Maps that are empty -/

/-- The slots in a map that is not there or empty have no items. -/
theorem itemsIn_eq_nil {state : List Property} {slot other : Slot} {name : String}
    (hname : slot.mapName? = some name) (hother : other.property = name)
    (hempty : ∀ props, (value? state name).bind Expr.props? = some props → props = []) :
    itemsIn state other = [] := by
  have howner : other.owner? state = (value? state name).bind Expr.props? := by
    cases slot <;> cases hname <;> cases other <;>
      first
        | rfl
        | simp [Slot.property] at hother
  rw [itemsIn, howner]
  cases hprops : (value? state name).bind Expr.props? with
  | none => rfl
  | some props =>
    rw [hempty props hprops]
    rfl

theorem itemsIn_pruneMap (slot : Slot) (state : List Property) :
    itemsIn (slot.pruneMap state) = itemsIn state := by
  rw [Slot.pruneMap]
  split
  · next name hname =>
    split
    · next hempty =>
      funext other
      by_cases hother : other.property = name
      · rw [itemsIn_eq_nil hname hother fun props hprops => ?_,
          itemsIn_eq_nil hname hother fun props hprops => ?_]
        · exact Option.some.inj (hprops.symm.trans hempty)
        · rw [value?_eraseName, if_pos rfl] at hprops
          cases hprops
      · exact itemsIn_congr ((value?_eraseName _ _ _).trans (if_neg hother))
    · rfl
  · rfl

theorem itemsIn_ensureMap (slot : Slot) (state : List Property) :
    itemsIn (slot.ensureMap state) = itemsIn state := by
  rw [Slot.ensureMap]
  split
  · next name hname =>
    split
    · rfl
    · next hnone =>
      rw [Bool.not_eq_true] at hnone
      funext other
      by_cases hother : other.property = name
      · rw [itemsIn_eq_nil hname hother fun props hprops => ?_,
          itemsIn_eq_nil hname hother fun props hprops => ?_]
        · rw [value?_eq_none hnone] at hprops
          cases hprops
        · rw [value?_append_ofPair, if_pos rfl] at hprops
          exact (Option.some.inj hprops).symm
      · exact itemsIn_congr ((value?_append_ofPair _ _ _ _).trans (if_neg hother))
  · rfl

/-! ## Renaming a key -/

/-- The entries of a map after the only item of a key got another. -/
theorem value?_renameSlot? {owner new : List Property} {old name : String}
    (h : Editor.renameSlot? owner old name = some new) :
    OneOrMany.length owner old = 1 ∧ hasName owner name = false ∧ ∀ other, value? new other =
      if other = name then value? owner old else if other = old then none
      else value? owner other := by
  rw [Editor.renameSlot?] at h
  split at h
  · next hfree =>
    cases h
    obtain ⟨hlength, hname⟩ := hfree
    rw [Bool.not_eq_true'] at hname
    refine ⟨hlength, hname, fun other => ?_⟩
    cases haround : around? old owner with
    | none =>
      rw [OneOrMany.length, OneOrMany.items_of_not_hasName (around?_eq_none haround)] at hlength
      cases hlength
    | some found =>
      obtain ⟨entry, rfl, hentry, hbehind⟩ := around?_eq_some haround
      have hold : value? (found.1 ++ entry :: found.2) old = some entry.value := by
        rw [value?_append, value?_cons, value?_eq_none hbehind, hentry]
        rfl
      have hne : name ≠ old := by
        rintro rfl
        rw [value?_eq_none hname] at hold
        cases hold
      rw [hasName_append, hasName_cons, Bool.or_eq_false_iff, Bool.or_eq_false_iff] at hname
      rw [value?_eraseName, value?_renameKey_append hentry hbehind, hold,
        value?_eq_none hname.2.2]
      by_cases hother : other = name
      · simp [hother, hne]
      · simp only [hother, if_false]
        split <;> rfl
  · cases h

theorem property_of_sameMap {a b : Slot} (h : a.sameMap b = true) :
    a.mapName? ≠ none ∧ b.mapName? ≠ none ∧ b.property = a.property := by
  cases a <;> cases b <;> cases h
  all_goals exact ⟨Option.some_ne_none _, Option.some_ne_none _, rfl⟩

/-- Slots in one map have one owner and are told apart by their keys. -/
theorem owner?_eq_of_property {a b : Slot} (hmap : a.mapName? ≠ none)
    (h : b.property = a.property) : b.owner? = a.owner? ∧ (b.key = a.key → b = a) := by
  cases a with
  | on | after =>
    cases b <;> simp only [Slot.property, String.reduceEq] at h
    exact ⟨rfl, fun heq => congrArg _ heq⟩
  | _ => exact absurd rfl hmap

/-- Renaming the key of a slot moves its only item to the slot of the new key, which had none. -/
theorem itemsIn_renameSlot {state owner new : List Property} {old slot : Slot}
    (hmap : old.sameMap slot = true) (howner : old.owner? state = some owner)
    (h : Editor.renameSlot? owner old.key slot.key = some new) :
    ∃ item, itemsIn state old = [item] ∧ itemsIn state slot = [] ∧
      itemsIn (old.setOwner state new) =
        Function.update (Function.update (itemsIn state) old []) slot [item] := by
  obtain ⟨hlength, hfree, hvalue⟩ := value?_renameSlot? h
  obtain ⟨hmapped, hmapped', hproperty⟩ := property_of_sameMap hmap
  obtain ⟨hsame, hinj⟩ := owner?_eq_of_property hmapped hproperty
  obtain ⟨item, hitem⟩ := List.length_eq_one_iff.1 hlength
  refine ⟨item, (itemsIn_of_owner? howner).trans hitem,
    (itemsIn_of_owner? (hsame ▸ howner)).trans (OneOrMany.items_of_not_hasName hfree), ?_⟩
  funext other
  by_cases hslot : other = slot
  · rw [hslot, Function.update_self, itemsIn_setOwner_of_owner?_eq howner hsame, OneOrMany.items,
      hvalue, if_pos rfl]
    exact hitem
  rw [Function.update_of_ne hslot]
  by_cases hold : other = old
  · have hkey : old.key ≠ slot.key := fun heq => hslot (hold.trans (hinj heq.symm).symm)
    rw [hold, Function.update_self, itemsIn_setOwner_of_owner?_eq howner rfl, OneOrMany.items,
      hvalue, if_neg hkey, if_pos rfl]
    rfl
  rw [Function.update_of_ne hold]
  by_cases hother : other.property = old.property
  · -- A third key of the map.
    obtain ⟨hsame', hinj'⟩ := owner?_eq_of_property hmapped hother
    have hkey : other.key ≠ slot.key := fun heq => hslot <|
      (owner?_eq_of_property hmapped' (hother.trans hproperty.symm)).2 heq
    rw [itemsIn_setOwner_of_owner?_eq howner hsame', itemsIn_of_owner? (hsame' ▸ howner)]
    refine OneOrMany.items_congr ?_
    rw [hvalue, if_neg hkey, if_neg fun heq => hold (hinj' heq)]
  · exact itemsIn_congr (value?_setOwner_of_ne howner (fun hnone => absurd hnone hmapped) hother)

/-! ## Descriptions -/

theorem itemsAt_of_stateProps? {config : Expr} {path : StatePath} {state : List Property}
    (h : stateProps? config path = some state) (slot : Slot) :
    itemsAt config (path, slot) = itemsIn state slot := by
  rw [itemsAt, h]
  rfl

theorem withState_itemsIn {config : Expr} {path : StatePath} {state : List Property}
    (h : stateProps? config path = some state) :
    (itemsAt config).withState path (itemsIn state) = itemsAt config := by
  funext ⟨p, slot⟩
  rw [SlotTable.withState]
  split
  · next hp => exact (hp ▸ itemsAt_of_stateProps? h slot).symm
  · rfl

/-- Changing the properties of a state, but not the states below it, changes its own slots
    alone. -/
theorem itemsAt_setStateProps {config : Expr} {path : StatePath} {old new : List Property}
    (hold : stateProps? config path = some old)
    (hstates : value? new "states" = value? old "states") :
    itemsAt (setStateProps new path config) = (itemsAt config).withState path (itemsIn new) := by
  funext ⟨p, slot⟩
  rw [SlotTable.withState]
  split
  · next hp =>
    obtain rfl : p = path := hp
    exact itemsAt_of_stateProps?
      (stateProps?_setStateProps_self (Option.isSome_of_eq_some hold) new) slot
  · next hp =>
    refine List.ext_getElem? fun index => ?_
    rw [getElem?_itemsAt, getElem?_itemsAt, itemAt?_eq_of_content
      ((contentAt?_setStateProps hold hstates p).trans (if_neg hp))]

/-- Changing one slot of a state changes one slot of the description. -/
theorem itemsAt_setStateProps_update {config : Expr} {path : StatePath} {old new : List Property}
    (hold : stateProps? config path = some old)
    (hstates : value? new "states" = value? old "states") {slot : Slot} {items : List Expr}
    (hitems : itemsIn new = Function.update (itemsIn old) slot items) :
    itemsAt (setStateProps new path config) =
      Function.update (itemsAt config) (path, slot) items := by
  rw [itemsAt_setStateProps hold hstates, hitems, SlotTable.withState_update,
    withState_itemsIn hold]

section

variable {draft draft' item : Expr} {source : StatePath}

/-- A transition that is taken out was there, and the other items stay. -/
theorem itemsAt_takeTransition {path : TransitionPath}
    (h : takeTransition draft source path = .ok (item, draft'))
    (hitems : (itemsAt draft).AllTransitions) :
    (itemsAt draft (source, path.slot))[path.index]? = some item ∧
      itemsAt draft' = (itemsAt draft).erase (source, path.slot) path.index := by
  obtain ⟨state, hstate, h⟩ := bind_eq_ok.1 h
  rw [state_eq_ok] at hstate
  split at h
  · next owner howner =>
    split at h
    · next removed left hremove =>
      cases h
      have hat : itemsAt draft (source, path.slot) = OneOrMany.items owner path.slot.key :=
        (itemsAt_of_stateProps? hstate _).trans (itemsIn_of_owner? howner)
      have hother : ∀ name, name ≠ path.slot.key → value? left name = value? owner name :=
        fun name hname => value?_remove? hname hremove
      obtain ⟨hitem, hleft⟩ := OneOrMany.items_remove? hremove fun item hmem =>
        isArray_of_isTransition (hitems _ item (hat ▸ hmem))
      refine ⟨hat ▸ hitem, ?_⟩
      rw [SlotTable.erase, hat, ← hleft]
      refine itemsAt_setStateProps_update hstate ?_ ?_
      · rw [value?_pruneMap (by decide)]
        exact value?_setOwner_states howner fun hmap => hother _ (key_ne_states hmap)
      · rw [itemsIn_pruneMap, itemsIn_setOwner howner hother]
    · cases h
  · cases h

/-- A transition is put at the end of its slot. -/
theorem itemsAt_putTransition {slot : Slot}
    (h : putTransition draft source slot item = .ok draft') (hitem : isTransition item = true) :
    itemsAt draft' = (itemsAt draft).append (source, slot) item := by
  obtain ⟨state, new, hstate, hnew, rfl⟩ := modifyState_eq_ok.1 h
  dsimp only at hnew
  split at hnew
  · next owner howner =>
    cases hnew
    have hother : ∀ name, name ≠ slot.key →
        value? (OneOrMany.insert owner slot.key none item) name = value? owner name :=
      fun name hname => value?_insert hname owner none item
    have hat : itemsAt draft (source, slot) = OneOrMany.items owner slot.key := by
      rw [itemsAt_of_stateProps? hstate, ← itemsIn_ensureMap slot, itemsIn_of_owner? howner]
    rw [SlotTable.append, hat, ← OneOrMany.items_insert _ _ (isArray_of_isTransition hitem)]
    refine itemsAt_setStateProps_update hstate ?_ ?_
    · rw [value?_setOwner_states howner fun hmap => hother _ (key_ne_states hmap),
        value?_ensureMap (by decide)]
    · rw [itemsIn_setOwner howner hother, itemsIn_ensureMap]
  · split at hnew <;> cases hnew

/-- A transition that is changed is replaced in its place. -/
theorem exists_of_modifyTransition {path : TransitionPath} {f : Expr → Edited Expr}
    (h : modifyTransition draft source path f = .ok draft') :
    ∃ item new, (itemsAt draft (source, path.slot))[path.index]? = some item ∧ f item = .ok new ∧
      (new.isArray = false →
        itemsAt draft' = (itemsAt draft).replace (source, path.slot) path.index new) := by
  obtain ⟨state, new, hstate, hnew, rfl⟩ := modifyState_eq_ok.1 h
  split at hnew
  · next owner item hin =>
    obtain ⟨changed, hchanged, hnew⟩ := bind_eq_ok.1 hnew
    cases hnew
    obtain ⟨owner', howner, hin⟩ := Option.bind_eq_some_iff.1 hin
    obtain ⟨item', hitem, hin⟩ := Option.bind_eq_some_iff.1 hin
    cases hin
    have hother : ∀ name, name ≠ path.slot.key → value?
        (OneOrMany.modifyItem owner path.slot.key path.index fun _ => changed) name =
          value? owner name :=
      fun name hname => value?_modifyItem hname owner path.index _
    have hat : itemsAt draft (source, path.slot) = OneOrMany.items owner path.slot.key :=
      (itemsAt_of_stateProps? hstate _).trans (itemsIn_of_owner? howner)
    refine ⟨item, changed, hat ▸ hitem, hchanged, fun harray => ?_⟩
    rw [SlotTable.replace, hat, ← OneOrMany.items_modifyItem hitem harray]
    refine itemsAt_setStateProps_update hstate ?_ (itemsIn_setOwner howner hother)
    exact value?_setOwner_states howner fun hmap => hother _ (key_ne_states hmap)
  · cases hnew

/-- A transition is replaced in its place. -/
theorem itemsAt_modifyTransition {path : TransitionPath} {f : Expr → Expr}
    (h : modifyTransition draft source path (fun item => pure (f item)) = .ok draft')
    (hf : ∀ item, (itemsAt draft (source, path.slot))[path.index]? = some item →
      isTransition (f item) = true) :
    ∃ item, (itemsAt draft (source, path.slot))[path.index]? = some item ∧
      itemsAt draft' = (itemsAt draft).replace (source, path.slot) path.index (f item) := by
  obtain ⟨item, new, hitem, hnew, htable⟩ := exists_of_modifyTransition h
  cases hnew
  exact ⟨item, hitem, htable (isArray_of_isTransition (hf item hitem))⟩

/-- Renaming a key moves the only item of its slot. -/
theorem itemsAt_renameSlot {state owner new : List Property} {old slot : Slot}
    (hstate : stateProps? draft source = some state) (hmap : old.sameMap slot = true)
    (howner : old.owner? state = some owner)
    (h : Editor.renameSlot? owner old.key slot.key = some new) :
    ∃ item, itemsAt draft (source, old) = [item] ∧
      itemsAt (setStateProps (old.setOwner state new) source draft) =
        ((itemsAt draft).erase (source, old) 0).append (source, slot) item := by
  obtain ⟨item, hitem, hnone, hitems⟩ := itemsIn_renameSlot hmap howner h
  have hat := itemsAt_of_stateProps? hstate
  refine ⟨item, (hat old).trans hitem, ?_⟩
  have hne : (source, slot) ≠ (source, old) := by
    rintro heq
    rw [(Prod.mk.inj heq).2, hitem] at hnone
    cases hnone
  have hstates : value? (old.setOwner state new) "states" = value? state "states" :=
    value?_setOwner_states howner fun hmap' => absurd hmap' (property_of_sameMap hmap).1
  rw [itemsAt_setStateProps hstate hstates, hitems, SlotTable.withState_update,
    SlotTable.withState_update, withState_itemsIn hstate, SlotTable.append, SlotTable.erase,
    Function.update_of_ne hne, hat, hat, hitem, hnone]
  rfl

end

end Draft

end Statechart
