import Mathlib.Data.List.Nodup
import Mathlib.Data.List.Pairwise
import Statechart.Proofs.StatesRead

/-!
# The transitions that are read

A state has a transition for each item that is written in one of its slots and has the form of
one, and the place of the transition leads back to that item.

* `written`: the items in the slots of a state, with their places;
* `map_allTransitions`, `view_allTransitions`: what is read of them;
* `mem_written`: the items are those found at their places;
* `nodup_written`: each place is there once.
-/

namespace Statechart

open Property Draft

/-! ## The items in the slots of a state -/

/-- The items of a slot. -/
def slotItems (slot : Slot) (value : Expr) : List (TransitionPath × Expr) :=
  (itemsOf value).zipIdx.map fun (item, index) => (⟨slot, index⟩, item)

/-- The items of a slot that may not be there. -/
def slotItems? (slot : Slot) (value : Option Expr) : List (TransitionPath × Expr) :=
  value.toList.flatMap (slotItems slot)

/-- The items of the slots in a map. -/
def mapItems (slot : String → Slot) (value : Option Expr) : List (TransitionPath × Expr) :=
  (effective ((value.bind Expr.props?).getD [])).flatMap fun entry =>
    match entry.name with
    | some name => slotItems (slot name) entry.value
    | none => []

/-- The items of the slots of invocations. -/
def invokeItems (value : Option Expr) : List (TransitionPath × Expr) :=
  ((value.map itemsOf).getD []).zipIdx.flatMap fun (item, index) =>
    match item.props? with
    | some props => slotItems? (.invokeDone index) (value? props "onDone")
        ++ slotItems? (.invokeError index) (value? props "onError")
    | none => []

/-- The items in the slots of a state, with their places, in the order in which they are
    read. -/
def written (props : List Property) : List (TransitionPath × Expr) :=
  invokeItems (value? props "invoke") ++ (mapItems .on (value? props "on")
    ++ (slotItems? .always (value? props "always") ++ (mapItems .after (value? props "after")
      ++ slotItems? .onDone (value? props "onDone"))))

/-! ## What is read of an item -/

/-- Whether an item has the form of a transition. -/
def isTransition (item : Expr) : Bool :=
  (TransitionItem.ofExpr? item).isSome

/-- The descriptors of a transition, as they are read. -/
def Transition.descriptors (transition : Transition) : List String :=
  transition.targets.map (·.1)

/-- The place and the descriptors of an item that has the form of a transition. -/
def readItem? (item : TransitionPath × Expr) : Option (TransitionPath × List String) :=
  if isTransition item.2 then some (item.1, targets item.2) else none

/-- The place and the descriptors of a transition. -/
def Transition.view (transition : Transition) : TransitionPath × List String :=
  (transition.path, transition.descriptors)

theorem map_fst_readTargets (path : StatePath) (expr : Expr) :
    (readTargets path expr).1.map (·.1) = targetTexts expr := by
  cases expr with
  | array origin items =>
    simp only [readTargets, targetTexts, List.map_filterMap, Option.map_map, Function.comp_def,
      Option.map_id']
  | _ => rfl

theorem descriptors_readTransitionObject (path : StatePath) (base : Transition)
    (props : List Property) :
    (readTransitionObject path base props).1.view =
      (base.path, ((value? props "target").map targetTexts).getD []) := by
  refine Prod.ext rfl ?_
  simp only [Transition.view, Transition.descriptors, readTransitionObject, value?]
  cases prop? props "target" with
  | none => rfl
  | some prop => exact map_fst_readTargets path prop.value

/-- A transition is read from an item as its form says. -/
theorem view_readTransition (path : StatePath) (slot : Slot) (trigger : Trigger) (item : Expr)
    (index : Nat) :
    (readTransition path slot trigger item index).1.map Transition.view =
      readItem? (⟨slot, index⟩, item) := by
  cases item with
  | object origin props =>
    exact congrArg some (descriptors_readTransitionObject path _ props)
  | _ => rfl

/-- The transitions that follow the end of an invocation. -/
def Invocation.transitions (invocation : Invocation) : List Transition :=
  invocation.done ++ invocation.failed

/-- The transitions of a state, those of its invocations first. -/
def StateInfo.allTransitions (info : StateInfo) : List Transition :=
  info.invocations.flatMap Invocation.transitions ++ info.transitions

section

-- What `f` tells of a transition can be told by `g` from the item alone.
variable {β : Type} {f : Transition → β} {g : TransitionPath × Expr → Option β}
  (hread : ∀ path slot trigger item index,
    (readTransition path slot trigger item index).1.map f = g (⟨slot, index⟩, item))

include hread

theorem map_readSlot (path : StatePath) (slot : Slot) (trigger : Trigger) (value : Expr) :
    (readSlot path slot trigger value).1.map f = (slotItems slot value).filterMap g := by
  rw [readSlot, slotItems]
  simp only [List.map_filterMap, List.filterMap_map, Function.comp_def, hread]

theorem map_readSlotProperty (path : StatePath) (slot : Slot) (trigger : Trigger)
    (value : Option Expr) :
    (readSlotProperty path slot trigger value).1.map f = (slotItems? slot value).filterMap g := by
  cases value with
  | none => rfl
  | some value =>
    rw [slotItems?, Option.toList_some, List.flatMap_singleton]
    exact map_readSlot hread path slot trigger value

theorem map_readSlotMap (path : StatePath) (property : String) (slot : String → Slot)
    (trigger : String → Trigger) (prop : Option Property) :
    (readSlotMap path property slot trigger prop).1.map f =
      (mapItems slot (prop.map (·.value))).filterMap g := by
  cases prop with
  | none => rfl
  | some prop =>
    simp only [readSlotMap, mapItems, Option.map_some, Option.bind_some]
    cases prop.value.props? with
    | none => rfl
    | some entries =>
      simp only [Option.getD_some, List.flatMap_map, List.map_flatMap, List.filterMap_flatMap]
      refine List.flatMap_congr fun entry _ => ?_
      cases entry.name with
      | none => rfl
      | some name => exact map_readSlot hread path (slot name) (trigger name) entry.value

theorem map_readInvocation (stateId : String) (path : StatePath) (item : Expr) (index : Nat) :
    ((readInvocation stateId path item index).1.toList.flatMap Invocation.transitions).map f =
      (match item.props? with
        | some props => slotItems? (.invokeDone index) (value? props "onDone")
            ++ slotItems? (.invokeError index) (value? props "onError")
        | none => []).filterMap g := by
  rw [readInvocation]
  cases item.props? with
  | none => rfl
  | some props =>
    simp only [Option.toList_some, List.flatMap_singleton, Invocation.transitions, List.map_append,
      List.filterMap_append, map_readSlotProperty hread]

theorem map_readInvocations (stateId : String) (path : StatePath) (prop : Option Property) :
    ((readInvocations stateId path prop).1.flatMap Invocation.transitions).map f =
      (invokeItems (prop.map (·.value))).filterMap g := by
  cases prop with
  | none => rfl
  | some prop =>
    simp only [readInvocations, invokeItems, Option.map_some, Option.getD_some,
      List.filterMap_flatMap, List.filterMap_map]
    induction (itemsOf prop.value).zipIdx with
    | nil => rfl
    | cons item items ih =>
      have hitem := map_readInvocation hread stateId path item.1 item.2
      rw [List.flatMap_cons, ← ih, ← hitem, ← List.map_append, List.filterMap_cons]
      cases h : (readInvocation stateId path item.1 item.2).1 <;> simp [h]

/-- The transitions of a state are read from the items in its slots. -/
theorem map_allTransitions (rootId : Option String) (key : String) (path : StatePath)
    (span : Option Span) (props : List Property) :
    (infoOf rootId key path span props).allTransitions.map f = (written props).filterMap g := by
  simp only [StateInfo.allTransitions, infoOf, readStateInfo, written, List.map_append,
    List.filterMap_append, map_readInvocations hread, map_readSlotMap hread,
    map_readSlotProperty hread, value?, List.append_assoc]

end

theorem view_allTransitions (rootId : Option String) (key : String) (path : StatePath)
    (span : Option Span) (props : List Property) :
    (infoOf rootId key path span props).allTransitions.map Transition.view =
      (written props).filterMap readItem? :=
  map_allTransitions view_readTransition rootId key path span props

/-! ## Items by their places -/

/-- The item at a place of a state. -/
def itemIn? (props : List Property) (path : TransitionPath) : Option Expr :=
  (transitionIn? props path).map (·.2)

theorem oneOrMany_itemsOf (value : Expr) : OneOrMany.itemsOf value = itemsOf value := by
  cases value <;> rfl

theorem oneOrMany_item? (props : List Property) (key : String) (index : Nat) :
    OneOrMany.item? props key index = (value? props key).bind fun value => (itemsOf value)[index]? := by
  rw [OneOrMany.item?, OneOrMany.items]
  cases value? props key with
  | none => rfl
  | some value => simp [oneOrMany_itemsOf]

theorem itemIn?_eq (props : List Property) (path : TransitionPath) :
    itemIn? props path =
      (path.slot.owner? props).bind (OneOrMany.item? · path.slot.key path.index) := by
  rw [itemIn?, transitionIn?]
  cases path.slot.owner? props with
  | none => rfl
  | some owner =>
    simp only [Option.bind_eq_bind, Option.bind_some]
    cases OneOrMany.item? owner path.slot.key path.index <;> rfl

theorem mem_slotItems {slot : Slot} {value : Expr} {path : TransitionPath} {item : Expr} :
    (path, item) ∈ slotItems slot value ↔
      path.slot = slot ∧ (itemsOf value)[path.index]? = some item := by
  rw [slotItems, List.mem_map]
  constructor
  · rintro ⟨⟨item', index⟩, hmem, heq⟩
    cases heq
    exact ⟨rfl, List.mk_mem_zipIdx_iff_getElem?.1 hmem⟩
  · rintro ⟨rfl, hitem⟩
    exact ⟨(item, path.index), List.mk_mem_zipIdx_iff_getElem?.2 hitem, rfl⟩

theorem mem_slotItems? {slot : Slot} {props : List Property} {key : String}
    {path : TransitionPath} {item : Expr} :
    (path, item) ∈ slotItems? slot (value? props key) ↔
      path.slot = slot ∧ OneOrMany.item? props key path.index = some item := by
  rw [slotItems?, oneOrMany_item?]
  cases value? props key with
  | none => simp
  | some value => simp [mem_slotItems]

theorem mem_mapItems {slot : String → Slot} {value : Option Expr} {path : TransitionPath}
    {item : Expr} :
    (path, item) ∈ mapItems slot value ↔ ∃ name, path.slot = slot name ∧
      ((value.bind Expr.props?).bind (OneOrMany.item? · name path.index)) = some item := by
  rw [mapItems, List.mem_flatMap]
  cases value.bind Expr.props? with
  | none => simp [effective]
  | some entries =>
    simp only [Option.getD_some, Option.bind_some, oneOrMany_item?]
    constructor
    -- Of entries with one name only the last is read, and it is the one that is looked up.
    · rintro ⟨entry, hentry, hmem⟩
      split at hmem
      · next name hname =>
        obtain ⟨hslot, hitem⟩ := mem_slotItems.1 hmem
        refine ⟨name, hslot, ?_⟩
        rw [value?, mem_effective_iff.1 ⟨hentry, hname⟩]
        exact hitem
      · exact absurd hmem List.not_mem_nil
    · rintro ⟨name, hslot, hitem⟩
      obtain ⟨value, hvalue, hitem⟩ := Option.bind_eq_some_iff.1 hitem
      obtain ⟨entry, hentry, rfl⟩ := Option.map_eq_some_iff.1 hvalue
      obtain ⟨hmem, hname⟩ := mem_effective_iff.2 hentry
      exact ⟨entry, hmem, by rw [hname]; exact mem_slotItems.2 ⟨hslot, hitem⟩⟩

theorem mem_invokeItems {props : List Property} {path : TransitionPath} {item : Expr} :
    (path, item) ∈ invokeItems (value? props "invoke") ↔
      ∃ index owner, (OneOrMany.item? props "invoke" index).bind Expr.props? = some owner ∧
        (path.slot = .invokeDone index ∧ OneOrMany.item? owner "onDone" path.index = some item ∨
          path.slot = .invokeError index ∧
            OneOrMany.item? owner "onError" path.index = some item) := by
  have hitems : ∀ index, OneOrMany.item? props "invoke" index =
      (((value? props "invoke").map itemsOf).getD [])[index]? := by
    intro index
    rw [oneOrMany_item?]
    cases value? props "invoke" <;> rfl
  simp only [invokeItems, List.mem_flatMap, Prod.exists, List.mk_mem_zipIdx_iff_getElem?, hitems]
  constructor
  · rintro ⟨invocation, index, hinvocation, hmem⟩
    refine ⟨index, ?_⟩
    rw [hinvocation, Option.bind_some]
    split at hmem
    · next owner howner =>
      rw [List.mem_append, mem_slotItems?, mem_slotItems?] at hmem
      exact ⟨owner, howner, hmem⟩
    · exact absurd hmem List.not_mem_nil
  · rintro ⟨index, owner, howner, hmem⟩
    obtain ⟨invocation, hinvocation, howner⟩ := Option.bind_eq_some_iff.1 howner
    refine ⟨invocation, index, hinvocation, ?_⟩
    rw [howner]
    exact List.mem_append.2 (hmem.imp mem_slotItems?.2 mem_slotItems?.2)

/-- The items in the slots of a state are those found at their places. -/
theorem mem_written {props : List Property} {path : TransitionPath} {item : Expr} :
    (path, item) ∈ written props ↔ itemIn? props path = some item := by
  simp only [written, List.mem_append, mem_invokeItems, mem_mapItems, mem_slotItems?, itemIn?_eq]
  obtain ⟨slot, index⟩ := path
  cases slot with
  | invokeDone invoke | invokeError invoke =>
    simp only [Slot.owner?, Slot.key, Slot.invokeDone.injEq, Slot.invokeError.injEq, reduceCtorEq,
      false_and, exists_false, or_false, false_or]
    constructor
    · rintro ⟨_, owner, howner, rfl, hitem⟩
      rw [howner]
      exact hitem
    · intro h
      obtain ⟨owner, howner, hitem⟩ := Option.bind_eq_some_iff.1 h
      exact ⟨invoke, owner, howner, rfl, hitem⟩
  | _ => simp [Slot.owner?, Slot.key]

/-! ## Each place is there once -/

theorem nodup_slotItems (slot : Slot) (value : Expr) :
    ((slotItems slot value).map (·.1)).Nodup := by
  have hfst : (slotItems slot value).map (·.1) =
      ((itemsOf value).zipIdx.map (·.2)).map (TransitionPath.mk slot) := by
    rw [slotItems, List.map_map, List.map_map]
    rfl
  rw [hfst, List.zipIdx_map_snd]
  exact List.Nodup.map (fun a b h => (TransitionPath.mk.inj h).2) List.nodup_range'

theorem nodup_slotItems? (slot : Slot) (value : Option Expr) :
    ((slotItems? slot value).map (·.1)).Nodup := by
  cases value with
  | none => exact List.nodup_nil
  | some value =>
    rw [slotItems?, Option.toList_some, List.flatMap_singleton]
    exact nodup_slotItems slot value

theorem slot_of_mem_slotItems {slot : Slot} {value : Expr} {path : TransitionPath}
    (h : path ∈ (slotItems slot value).map (·.1)) : path.slot = slot := by
  obtain ⟨⟨_, item⟩, hmem, rfl⟩ := List.mem_map.1 h
  exact (mem_slotItems.1 hmem).1

theorem slot_of_mem_slotItems? {slot : Slot} {value : Option Expr} {path : TransitionPath}
    (h : path ∈ (slotItems? slot value).map (·.1)) : path.slot = slot := by
  cases value with
  | none => exact absurd h List.not_mem_nil
  | some value =>
    rw [slotItems?, Option.toList_some, List.flatMap_singleton] at h
    exact slot_of_mem_slotItems h

theorem nodup_mapItems {slot : String → Slot} (hslot : Function.Injective slot)
    (value : Option Expr) : ((mapItems slot value).map (·.1)).Nodup := by
  rw [mapItems, List.map_flatMap, List.nodup_flatMap]
  refine ⟨fun entry _ => ?_, ?_⟩
  · cases entry.name with
    | none => exact List.nodup_nil
    | some name => exact nodup_slotItems (slot name) entry.value
  · have hnames := nodup_names_effective ((value.bind Expr.props?).getD [])
    rw [List.Nodup, List.pairwise_filterMap] at hnames
    have hslots : ∀ (entry : Property) (path : TransitionPath),
        path ∈ (match entry.name with
          | some name => slotItems (slot name) entry.value
          | none => []).map Prod.fst → ∃ name, entry.name = some name ∧ path.slot = slot name := by
      intro entry path hpath
      split at hpath
      · next name hname => exact ⟨name, hname, slot_of_mem_slotItems hpath⟩
      · exact absurd hpath List.not_mem_nil
    refine hnames.imp fun {a b} hab path ha hb => ?_
    obtain ⟨name, hname, hpath⟩ := hslots a path ha
    obtain ⟨name', hname', hpath'⟩ := hslots b path hb
    exact hab name hname name' hname' (hslot (hpath.symm.trans hpath'))

theorem slot_of_mem_mapItems {slot : String → Slot} {value : Option Expr} {path : TransitionPath}
    (h : path ∈ (mapItems slot value).map (·.1)) : ∃ name, path.slot = slot name := by
  obtain ⟨⟨_, item⟩, hmem, rfl⟩ := List.mem_map.1 h
  obtain ⟨name, hslot, -⟩ := mem_mapItems.1 hmem
  exact ⟨name, hslot⟩

/-- The places of the transitions of one invocation. -/
theorem slot_of_mem_invocation {item : Expr} {index : Nat} {path : TransitionPath}
    (h : path ∈ (match item.props? with
      | some props => slotItems? (.invokeDone index) (value? props "onDone")
          ++ slotItems? (.invokeError index) (value? props "onError")
      | none => []).map Prod.fst) :
    path.slot = .invokeDone index ∨ path.slot = .invokeError index := by
  split at h
  · rw [List.map_append, List.mem_append] at h
    exact h.imp slot_of_mem_slotItems? slot_of_mem_slotItems?
  · exact absurd h List.not_mem_nil

theorem slot_of_mem_invokeItems {value : Option Expr} {path : TransitionPath}
    (h : path ∈ (invokeItems value).map (·.1)) :
    ∃ index, path.slot = .invokeDone index ∨ path.slot = .invokeError index := by
  rw [invokeItems, List.map_flatMap, List.mem_flatMap] at h
  obtain ⟨⟨item, index⟩, -, h⟩ := h
  exact ⟨index, slot_of_mem_invocation h⟩

theorem nodup_invokeItems (value : Option Expr) : ((invokeItems value).map (·.1)).Nodup := by
  rw [invokeItems, List.map_flatMap, List.nodup_flatMap]
  refine ⟨fun ⟨item, index⟩ _ => ?_, ?_⟩
  · dsimp only
    split
    · rw [List.map_append]
      refine (nodup_slotItems? _ _).append (nodup_slotItems? _ _) fun path hdone hfailed => ?_
      exact Slot.noConfusion
        ((slot_of_mem_slotItems? hdone).symm.trans (slot_of_mem_slotItems? hfailed))
    · exact List.nodup_nil
  · have hindex : (((value.map itemsOf).getD []).zipIdx.map (·.2)).Nodup := by
      rw [List.zipIdx_map_snd]
      exact List.nodup_range'
    rw [List.Nodup, List.pairwise_map] at hindex
    refine hindex.imp fun {a b} hab path ha hb => ?_
    have hslot := slot_of_mem_invocation hb
    rcases slot_of_mem_invocation ha with ha | ha
    · rw [ha] at hslot
      simp only [Slot.invokeDone.injEq, reduceCtorEq, or_false] at hslot
      exact hab hslot
    · rw [ha] at hslot
      simp only [Slot.invokeError.injEq, reduceCtorEq, false_or] at hslot
      exact hab hslot

/-- Each place is there once. -/
theorem nodup_written (props : List Property) : ((written props).map (·.1)).Nodup := by
  simp only [written, List.map_append]
  refine (nodup_invokeItems _).append ((nodup_mapItems (fun a b => Slot.on.inj) _).append
    ((nodup_slotItems? _ _).append ((nodup_mapItems (fun a b => Slot.after.inj) _).append
      (nodup_slotItems? _ _) ?_) ?_) ?_) ?_
  all_goals intro path ha hb
  · obtain ⟨name, ha⟩ := slot_of_mem_mapItems ha
    exact Slot.noConfusion (ha.symm.trans (slot_of_mem_slotItems? hb))
  · have ha := slot_of_mem_slotItems? ha
    rcases List.mem_append.1 hb with hb | hb
    · obtain ⟨name, hb⟩ := slot_of_mem_mapItems hb
      exact Slot.noConfusion (ha.symm.trans hb)
    · exact Slot.noConfusion (ha.symm.trans (slot_of_mem_slotItems? hb))
  · obtain ⟨name, ha⟩ := slot_of_mem_mapItems ha
    simp only [List.mem_append] at hb
    rcases hb with hb | hb | hb
    · exact Slot.noConfusion (ha.symm.trans (slot_of_mem_slotItems? hb))
    · obtain ⟨name', hb⟩ := slot_of_mem_mapItems hb
      exact Slot.noConfusion (ha.symm.trans hb)
    · exact Slot.noConfusion (ha.symm.trans (slot_of_mem_slotItems? hb))
  · obtain ⟨index, ha⟩ := slot_of_mem_invokeItems ha
    simp only [List.mem_append] at hb
    have hslot : (∃ name, path.slot = .on name) ∨ path.slot = .always ∨
        (∃ name, path.slot = .after name) ∨ path.slot = .onDone :=
      hb.imp slot_of_mem_mapItems (Or.imp slot_of_mem_slotItems?
        (Or.imp slot_of_mem_mapItems slot_of_mem_slotItems?))
    rcases ha with ha | ha <;> rw [ha] at hslot <;>
      exact absurd hslot (by simp)

end Statechart
