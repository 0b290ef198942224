import Statechart.Proofs.SlotChanges
import Statechart.Proofs.SlotEdges

/-!
# Edits of transitions that are not there

An edit names the transition that it is about by its address. Some edits look for it in the graph,
and others for the item that is written there; and an item need not have the form of a transition.
An edit that goes by what is written is thus accepted at an address where the graph has no edge,
and what was written there is taken out, moved, or overwritten.

* `Edit.transition?`: the transition that an edit is about;
* `Draft.exists_modifyTransition_iff`, `Draft.exists_takeTransition_iff`,
  `Draft.exists_putTransition_iff`: when changes of transitions succeed;
* `Editor.overlooks`: the edits that do not miss the edge;
* `Editor.refused_iff`: without an edge, all other edits are refused;
* `Editor.addGuard_overwrites`: an identifier that is overwritten by a transition.
-/

namespace Statechart

open Draft Property

/-- The transition that an edit is about, by its source and its place. -/
def Edit.transition? : Edit → Option (StatePath × TransitionPath)
  | .removeTransition source place
  | .retargetTransition source place _
  | .reanchorTransition source place _
  | .changeTransitionEvent source place _
  | .markTransitionExternal source place _
  | .addAction ⟨.transition source place, _⟩ _
  | .removeAction ⟨.transition source place, _⟩
  | .editAction ⟨.transition source place, _⟩ _
  | .addGuard source place _
  | .removeGuard source place
  | .editGuard source place _
  | .setDescription source (some place) _ => some (source, place)
  | _ => none

/-- The graph has an edge at an address. -/
def Graph.HasEdgeAt (graph : Graph) (source : StatePath) (place : TransitionPath) : Prop :=
  ∃ edge ∈ graph.edges, graph.address edge = (source, place)

/-! ## Room for transitions -/

/-- Whether a transition can be put into a slot of a state: the map of the slot is an object or not
    written yet, and its invocation is an object. -/
def Slot.isOpen (slot : Slot) (state : List Property) : Bool :=
  match slot with
  | .on _ => (value? state "on").all Expr.isObject
  | .after _ => (value? state "after").all Expr.isObject
  | .always | .onDone => true
  | .invokeDone invoke | .invokeError invoke =>
    (OneOrMany.item? state "invoke" invoke).any Expr.isObject

namespace Slot

theorem isSome_bind_props? (value : Option Expr) :
    (value.bind Expr.props?).isSome = value.any Expr.isObject := by
  cases value <;> rfl

theorem isObject_withProps (props : List Property) (value : Expr) :
    (value.withProps props).isObject = value.isObject := by
  cases value <;> rfl

/-- A slot is open just if it has an owner after its map is written. -/
theorem isSome_owner?_ensureMap (slot : Slot) (state : List Property) :
    (slot.owner? (slot.ensureMap state)).isSome = slot.isOpen state := by
  cases slot with
  | always | onDone => rfl
  | invokeDone invoke | invokeError invoke => exact isSome_bind_props? _
  | on | after =>
    simp only [owner?, ensureMap, mapName?, isOpen, isSome_bind_props?]
    split
    · next hname =>
      rw [← isSome_value?, Option.isSome_iff_exists] at hname
      obtain ⟨value, hvalue⟩ := hname
      rw [hvalue]
      rfl
    · next hname =>
      rw [Bool.not_eq_true] at hname
      rw [value?_append_ofPair, if_pos rfl, value?_eq_none hname]
      rfl

/-- The slots that have an owner are open. -/
theorem isOpen_of_owner? {slot : Slot} {state owner : List Property}
    (h : slot.owner? state = some owner) : slot.isOpen state = true := by
  cases slot with
  | always | onDone => rfl
  | invokeDone invoke | invokeError invoke =>
    rw [isOpen, ← isSome_bind_props?]
    exact Option.isSome_of_eq_some h
  | on | after =>
    obtain ⟨value, hvalue, hprops⟩ := Option.bind_eq_some_iff.1 h
    rw [isOpen, hvalue]
    exact Option.isSome_of_eq_some hprops

theorem isOpen_pruneMap (slot other : Slot) (state : List Property) :
    other.isOpen (slot.pruneMap state) = other.isOpen state := by
  rw [pruneMap]
  split
  · next name hname =>
    split
    · next hempty =>
      -- An empty map that is dropped was an object.
      obtain ⟨value, hvalue, hprops⟩ := Option.bind_eq_some_iff.1 hempty
      have hobject : value.isObject = true := Option.isSome_of_eq_some hprops
      cases slot <;> cases hname <;> cases other <;>
        simp [isOpen, OneOrMany.item?, OneOrMany.items, value?_eraseName, hvalue, hobject]
    · rfl
  · rfl

/-- Changing the owner of a slot leaves open what was. -/
theorem isOpen_setOwner {slot : Slot} {state owner new : List Property}
    (howner : slot.owner? state = some owner)
    (hkey : ∀ name, name ≠ slot.key → value? new name = value? owner name) (other : Slot) :
    other.isOpen (slot.setOwner state new) = other.isOpen state := by
  by_cases hproperty : other.property = slot.property
  · cases slot with
    | on | after =>
      cases other <;> simp only [property, String.reduceEq] at hproperty
      simp [isOpen, setOwner, Option.all_map, isObject_withProps]
    | always | onDone =>
      cases other <;> simp only [property, String.reduceEq] at hproperty
      rfl
    | invokeDone invoke | invokeError invoke =>
      cases other <;> simp only [property, String.reduceEq] at hproperty
      all_goals
        simp only [isOpen, setOwner, item?_modifyItem fun value h =>
          (isArray_withProps _ value).trans h, true_and]
        split
        · next hinvoke =>
          simp [hinvoke, Option.any_map, isObject_withProps]
        · rfl
  · have hvalue := value?_setOwner_of_ne howner (fun _ => hkey) hproperty
    cases other <;> simp only [property] at hvalue <;>
      simp [isOpen, OneOrMany.item?, OneOrMany.items, hvalue]

end Slot

/-! ## When changes of transitions succeed -/

namespace Draft

variable {draft : Expr} {source : StatePath} {place : TransitionPath}

/-- Whether a transition can be put into a slot of the state at a path. -/
def isOpenAt (config : Expr) (path : StatePath) (slot : Slot) : Bool :=
  (stateProps? config path).any slot.isOpen

/-- A state can be changed if it is there and the change can be made. -/
theorem exists_modifyState_iff {f : List Property → Edited (List Property)} :
    (∃ draft', modifyState draft source f = .ok draft') ↔
      ∃ state new, stateProps? draft source = some state ∧ f state = .ok new := by
  simp only [modifyState_eq_ok]
  constructor
  · rintro ⟨_, state, new, hstate, hnew, -⟩
    exact ⟨state, new, hstate, hnew⟩
  · rintro ⟨state, new, hstate, hnew⟩
    exact ⟨_, state, new, hstate, hnew, rfl⟩

/-- An item can be changed if it is there and the change can be made. -/
theorem exists_modifyTransition_iff {f : Expr → Edited Expr} :
    (∃ draft', modifyTransition draft source place f = .ok draft') ↔
      ∃ item new, itemAt? draft source place = some item ∧ f item = .ok new := by
  simp only [modifyTransition, exists_modifyState_iff, itemAt?, Option.bind_eq_some_iff, itemIn?,
    Option.map_eq_some_iff]
  constructor
  · rintro ⟨state, changed, hstate, hchanged⟩
    split at hchanged
    · next owner item hin =>
      obtain ⟨new, hnew, -⟩ := bind_eq_ok.1 hchanged
      exact ⟨item, new, ⟨state, hstate, _, hin, rfl⟩, hnew⟩
    · cases hchanged
  · rintro ⟨_, new, ⟨state, hstate, ⟨owner, item⟩, hin, rfl⟩, hnew⟩
    refine ⟨state, place.slot.setOwner state
      (OneOrMany.modifyItem owner place.slot.key place.index fun _ => new), hstate, ?_⟩
    rw [hin]
    exact bind_eq_ok.2 ⟨new, hnew, rfl⟩

/-- An item can be taken out if it is there. -/
theorem exists_takeTransition_iff :
    (∃ taken, takeTransition draft source place = .ok taken) ↔
      (itemAt? draft source place).isSome := by
  rw [takeTransition, itemAt?, state]
  cases stateProps? draft source with
  | none => simp [bind, Except.bind]
  | some state =>
    rw [Option.bind_some, itemIn?_eq]
    cases howner : place.slot.owner? state with
    | none => simp [bind, Except.bind, howner, throw, throwThe, MonadExceptOf.throw]
    | some owner =>
      cases hitem : OneOrMany.item? owner place.slot.key place.index <;>
        simp [bind, Except.bind, howner, OneOrMany.remove?, hitem, throw, throwThe,
          MonadExceptOf.throw, pure, Except.pure]

/-- An item can be put into a slot that is open. -/
theorem exists_putTransition_iff {slot : Slot} {item : Expr} :
    (∃ draft', putTransition draft source slot item = .ok draft') ↔
      isOpenAt draft source slot = true := by
  simp only [putTransition, exists_modifyState_iff, isOpenAt, Option.any_eq_true,
    ← Slot.isSome_owner?_ensureMap]
  constructor
  · rintro ⟨state, new, hstate, hnew⟩
    refine ⟨state, hstate, ?_⟩
    split at hnew
    · next howner => exact Option.isSome_of_eq_some howner
    · split at hnew <;> cases hnew
  · rintro ⟨state, hstate, howner⟩
    obtain ⟨owner, howner⟩ := Option.isSome_iff_exists.1 howner
    refine ⟨state, slot.setOwner (slot.ensureMap state)
      (OneOrMany.insert owner slot.key none item), hstate, ?_⟩
    rw [howner]
    rfl

/-- Taking a transition out leaves open what was. -/
theorem isOpenAt_takeTransition {draft' item : Expr}
    (h : takeTransition draft source place = .ok (item, draft')) (slot : Slot) :
    isOpenAt draft' source slot = isOpenAt draft source slot := by
  obtain ⟨state, owner, left, hstate, howner, hremove, rfl⟩ := takeTransition_eq_ok h
  rw [isOpenAt, stateProps?_setStateProps_self (Option.isSome_of_eq_some hstate), isOpenAt, hstate]
  change slot.isOpen _ = slot.isOpen _
  rw [Slot.isOpen_pruneMap,
    Slot.isOpen_setOwner howner fun name hname => value?_remove? hname hremove]

/-- The slot of an item is open, and so are those with the same owner. -/
theorem isOpenAt_of_itemAt? {slot : Slot} {item : Expr}
    (hitem : itemAt? draft source place = some item) (hsame : slot.owner? = place.slot.owner?) :
    isOpenAt draft source slot = true := by
  obtain ⟨state, hstate, hin⟩ := Option.bind_eq_some_iff.1 hitem
  rw [itemIn?_eq, ← hsame] at hin
  obtain ⟨owner, howner, -⟩ := Option.bind_eq_some_iff.1 hin
  rw [isOpenAt, hstate]
  exact Slot.isOpen_of_owner? howner

/-- What is no transition has no properties. -/
theorem itemProps_of_not_isTransition {item : Expr} (h : isTransition item = false) :
    itemProps item = [] ∧ itemProps (promote item) = [] := by
  cases item with
  | object | str => cases h
  | _ => exact ⟨rfl, rfl⟩

end Draft

/-! ## When edits of transitions succeed -/

namespace Editor

variable {editor : Editor} {source : StatePath} {place : TransitionPath}

theorem exists_error_apply_iff {edit : Edit} :
    (∃ error, editor.apply edit = .error error) ↔ ¬∃ draft, editor.revise edit = .ok draft := by
  rw [apply]
  cases editor.revise edit <;> simp [Except.map]

theorem exists_removeTransition_iff :
    (∃ draft, editor.removeTransition source place = .ok draft) ↔
      (itemAt? editor.draft source place).isSome := by
  rw [← exists_takeTransition_iff]
  constructor
  · rintro ⟨draft, hdraft⟩
    obtain ⟨taken, htaken, -⟩ := bind_eq_ok.1 hdraft
    exact ⟨taken, htaken⟩
  · rintro ⟨taken, htaken⟩
    exact ⟨taken.2, bind_eq_ok.2 ⟨taken, htaken, rfl⟩⟩

section

variable (h : editor.Current)

include h

/-- The state of an item has a node. -/
theorem Current.exists_node (hitem : (itemAt? editor.draft source place).isSome) :
    ∃ node, editor.node source = .ok node := by
  obtain ⟨item, hitem⟩ := Option.isSome_iff_exists.1 hitem
  obtain ⟨state, hstate, -⟩ := Option.bind_eq_some_iff.1 hitem
  obtain ⟨node, hnode⟩ := (h.has_iff source).2 (.inr (Option.isSome_of_eq_some hstate))
  exact ⟨node, node_eq_ok.2 ((Graph.nodeAt?_eq_some_iff h.wellFormed).2 hnode)⟩

/-- The states that are looked up are there wherever there is an item to be changed. -/
theorem Current.exists_modify_iff {f : Expr → Edited Expr} :
    (∃ draft, (editor.node source >>= fun _ =>
        modifyTransition editor.draft source place f) = .ok draft) ↔
      ∃ item new, itemAt? editor.draft source place = some item ∧ f item = .ok new := by
  rw [← exists_modifyTransition_iff]
  constructor
  · rintro ⟨draft, hdraft⟩
    obtain ⟨node, -, hdraft⟩ := bind_eq_ok.1 hdraft
    exact ⟨draft, hdraft⟩
  · rintro ⟨draft, hdraft⟩
    obtain ⟨item, new, hitem, -⟩ := exists_modifyTransition_iff.1 ⟨draft, hdraft⟩
    obtain ⟨node, hnode⟩ := h.exists_node (Option.isSome_of_eq_some hitem)
    exact ⟨draft, bind_eq_ok.2 ⟨node, hnode, hdraft⟩⟩

/-- A change that can always be made succeeds if there is an item. -/
theorem Current.exists_modify_pure_iff {f : Expr → Expr} :
    (∃ draft, (editor.node source >>= fun _ =>
        modifyTransition editor.draft source place fun item => pure (f item)) = .ok draft) ↔
      (itemAt? editor.draft source place).isSome := by
  rw [h.exists_modify_iff, Option.isSome_iff_exists]
  exact ⟨fun ⟨item, _, hitem, _⟩ => ⟨item, hitem⟩, fun ⟨item, hitem⟩ => ⟨item, _, hitem, rfl⟩⟩

/-- Actions of a transition can be changed if it is there and the change can be made. -/
theorem Current.exists_modifyActions_iff {index : Nat} {create : Bool}
    {f : List Property → String → Option (List Property)} :
    (∃ draft, editor.modifyActions ⟨.transition source place, index⟩ create f = .ok draft) ↔
      ∃ item, itemAt? editor.draft source place = some item ∧
        (f (itemProps (if create then promote item else item)) "actions").isSome := by
  refine h.exists_modify_iff.trans (exists_congr fun item => ?_)
  rw [exists_and_left]
  refine and_congr_right fun _ => ?_
  dsimp only
  cases f (itemProps (if create then promote item else item)) "actions" with
  | none => simp [bind, Except.bind, throw, throwThe, MonadExceptOf.throw]
  | some props => simp [bind, Except.bind, pure, Except.pure]

/-- A transition can be moved to another slot if it is there and the slot is open. -/
theorem Current.exists_changeTransitionEvent_iff {slot : Slot} :
    (∃ draft, editor.changeTransitionEvent source place slot = .ok draft) ↔
      (itemAt? editor.draft source place).isSome ∧ isOpenAt editor.draft source slot = true := by
  constructor
  · rintro ⟨draft, hdraft⟩
    obtain ⟨node, -, hdraft⟩ := bind_eq_ok.1 hdraft
    obtain ⟨item, hitem, hdraft⟩ := bind_eq_ok.1 hdraft
    rw [transition_eq_ok] at hitem
    refine ⟨Option.isSome_of_eq_some hitem, ?_⟩
    dsimp only at hdraft
    split at hdraft
    · next hslot => exact isOpenAt_of_itemAt? hitem (hslot ▸ rfl)
    -- In the same map the key is renamed, and else the item is taken and put into its new slot.
    · obtain ⟨state', -, hdraft⟩ := bind_eq_ok.1 hdraft
      generalize hrenamed : ite (place.slot.sameMap slot = true) _ none = renamed at hdraft
      cases renamed with
      | some new =>
        obtain ⟨hmap, -⟩ := Option.ite_none_right_eq_some.1 hrenamed
        obtain ⟨hmapped, -, hproperty⟩ := property_of_sameMap hmap
        exact isOpenAt_of_itemAt? hitem (owner?_eq_of_property hmapped hproperty).1
      | none =>
        obtain ⟨⟨item', draft'⟩, htake, hput⟩ := bind_eq_ok.1 hdraft
        rw [← isOpenAt_takeTransition htake]
        exact exists_putTransition_iff.1 ⟨draft, hput⟩
  · rintro ⟨hitem, hopen⟩
    obtain ⟨node, hnode⟩ := h.exists_node hitem
    obtain ⟨⟨item', draft'⟩, htake⟩ := exists_takeTransition_iff.2 hitem
    obtain ⟨item, hitem⟩ := Option.isSome_iff_exists.1 hitem
    obtain ⟨state, hstate, -⟩ := Option.bind_eq_some_iff.1 hitem
    rw [← isOpenAt_takeTransition htake] at hopen
    obtain ⟨draft, hput⟩ := exists_putTransition_iff.2 hopen
    simp only [changeTransitionEvent, bind_eq_ok, hnode, transition_eq_ok, hitem,
      Except.ok.injEq, Option.some.injEq, exists_eq_left']
    split
    · exact ⟨_, rfl⟩
    · simp only [bind_eq_ok, state_eq_ok, hstate, Option.some.injEq, exists_eq_left']
      split
      · exact ⟨_, rfl⟩
      · exact ⟨draft, bind_eq_ok.2 ⟨_, htake, hput⟩⟩

/-- There is an edge where the item is a transition. -/
theorem Current.hasEdgeAt_iff : editor.graph.HasEdgeAt source place ↔
    ∃ item, itemAt? editor.draft source place = some item ∧ isTransition item = true := by
  rw [h.graph_eq]
  exact exists_edge_iff_itemAt? _ _

/-! ## Without an edge -/

variable (hnone : ¬editor.graph.HasEdgeAt source place)

include hnone

theorem Current.edge_ne_ok (edge : Edge) : editor.edge source place ≠ .ok edge := fun hfound =>
  hnone ⟨edge, h.mem_of_edge hfound⟩

/-- The item at an address without an edge has no properties, and none when it becomes an
    object. -/
theorem Current.itemProps_eq_nil {item : Expr}
    (hitem : itemAt? editor.draft source place = some item) :
    itemProps item = [] ∧ itemProps (promote item) = [] := by
  refine itemProps_of_not_isTransition (Bool.eq_false_iff.2 fun hform => hnone ?_)
  exact h.hasEdgeAt_iff.2 ⟨item, hitem, hform⟩

/-- Edits that ask for the edge are refused. -/
theorem Current.not_exists_bind_edge {f : NodeId → Edge → Edited Expr} :
    ¬∃ draft, (editor.node source >>= fun node => editor.edge source place >>= f node) =
      .ok draft := by
  rintro ⟨draft, hdraft⟩
  obtain ⟨node, -, hdraft⟩ := bind_eq_ok.1 hdraft
  obtain ⟨edge, hfound, -⟩ := bind_eq_ok.1 hdraft
  exact h.edge_ne_ok hnone edge hfound

/-- Edits that ask for a property of the item are refused. -/
theorem Current.not_exists_modify {f : Expr → Edited Expr}
    (hf : ∀ item new, itemProps item = [] → f item ≠ .ok new) :
    ¬∃ draft, (editor.node source >>= fun _ =>
      modifyTransition editor.draft source place f) = .ok draft := by
  rw [h.exists_modify_iff]
  rintro ⟨item, new, hitem, hnew⟩
  exact hf item new (h.itemProps_eq_nil hnone hitem).1 hnew

/-- Edits of actions see an item that has none. -/
theorem Current.exists_modifyActions_iff_of_no_edge {index : Nat} {create : Bool}
    {f : List Property → String → Option (List Property)} :
    (∃ draft, editor.modifyActions ⟨.transition source place, index⟩ create f = .ok draft) ↔
      (itemAt? editor.draft source place).isSome ∧ (f [] "actions").isSome := by
  rw [h.exists_modifyActions_iff, Option.isSome_iff_exists, ← exists_and_right]
  refine exists_congr fun item => and_congr_right fun hitem => ?_
  obtain ⟨hprops, hpromoted⟩ := h.itemProps_eq_nil hnone hitem
  split
  · rw [hpromoted]
  · rw [hprops]

/-- A transition can be moved only to where it is. -/
theorem Current.exists_reanchorTransition_iff {newSource : StatePath} :
    (∃ draft, editor.reanchorTransition source place newSource = .ok draft) ↔
      source = newSource ∧ (editor.graph.nodeAt? source).isSome := by
  constructor
  · rintro ⟨draft, hdraft⟩
    obtain ⟨node, hnode, hdraft⟩ := bind_eq_ok.1 hdraft
    obtain ⟨newNode, hnewNode, hdraft⟩ := bind_eq_ok.1 hdraft
    split at hdraft
    · next heq =>
      subst heq
      exact ⟨(h.at_of_node hnode).path_unique (h.at_of_node hnewNode),
        Option.isSome_of_eq_some (node_eq_ok.1 hnode)⟩
    · obtain ⟨edge, hfound, -⟩ := bind_eq_ok.1 hdraft
      exact absurd hfound (h.edge_ne_ok hnone edge)
  · rintro ⟨rfl, hsource⟩
    obtain ⟨node, hnode⟩ := Option.isSome_iff_exists.1 hsource
    rw [← node_eq_ok] at hnode
    refine ⟨editor.draft, bind_eq_ok.2 ⟨node, hnode, bind_eq_ok.2 ⟨node, hnode, ?_⟩⟩⟩
    exact if_pos rfl

end

variable (editor) in
/-- The edits that are accepted though the graph has no edge where they look for a transition. They
    go by what is written there, and ask nothing of it; or they would move a transition to where it
    is. -/
def overlooks : Edit → Bool
  | .removeTransition source place
  | .addGuard source place _
  | .setDescription source (some place) _ => (itemAt? editor.draft source place).isSome
  | .addAction ⟨.transition source place, index⟩ _ =>
    (itemAt? editor.draft source place).isSome && index == 0
  | .changeTransitionEvent source place slot =>
    (itemAt? editor.draft source place).isSome && isOpenAt editor.draft source slot
  | .reanchorTransition source _ newSource =>
    source == newSource && (editor.graph.nodeAt? source).isSome
  | _ => false

/-- Where the graph has no edge, edits of a transition are refused, but for those that go by what is
    written. -/
theorem refused_iff (h : editor.Current) {edit : Edit}
    (haddress : edit.transition? = some (source, place))
    (hnone : ¬editor.graph.HasEdgeAt source place) :
    (∃ error, editor.apply edit = .error error) ↔ editor.overlooks edit = false := by
  rw [exists_error_apply_iff, ← Bool.not_eq_true, not_iff_not]
  cases edit with
  | removeTransition =>
    cases haddress
    exact exists_removeTransition_iff
  | retargetTransition =>
    cases haddress
    -- The edge is looked up before anything else.
    exact iff_of_false (h.not_exists_bind_edge hnone) Bool.false_ne_true
  | reanchorTransition =>
    cases haddress
    rw [overlooks, Bool.and_eq_true, beq_iff_eq]
    exact h.exists_reanchorTransition_iff hnone
  | changeTransitionEvent =>
    cases haddress
    rw [overlooks, Bool.and_eq_true]
    exact h.exists_changeTransitionEvent_iff
  | markTransitionExternal =>
    cases haddress
    exact iff_of_false (h.not_exists_bind_edge hnone) Bool.false_ne_true
  | addAction path =>
    obtain ⟨list, index⟩ := path
    cases list with
    | transition =>
      cases haddress
      -- An item without an edge has no properties, and so no actions.
      rw [revise, addAction, h.exists_modifyActions_iff_of_no_edge hnone, overlooks,
        Bool.and_eq_true]
      simp [OneOrMany.length, OneOrMany.items, value?]
    | _ => cases haddress
  | removeAction path =>
    obtain ⟨list, index⟩ := path
    cases list with
    | transition =>
      cases haddress
      -- Out of no actions none can be taken.
      rw [revise, removeAction, h.exists_modifyActions_iff_of_no_edge hnone]
      exact iff_of_false (fun hsome => by cases hsome.2) Bool.false_ne_true
    | _ => cases haddress
  | editAction path =>
    obtain ⟨list, index⟩ := path
    cases list with
    | transition =>
      cases haddress
      rw [revise, editAction, h.exists_modifyActions_iff_of_no_edge hnone]
      exact iff_of_false (fun hsome => by cases hsome.2) Bool.false_ne_true
    | _ => cases haddress
  | addGuard =>
    cases haddress
    -- Only the item is looked at, and it is replaced if it is no object.
    exact h.exists_modify_pure_iff
  | removeGuard =>
    cases haddress
    -- There may be an item, but one that is no transition has no properties.
    refine iff_of_false (h.not_exists_modify hnone fun item new hprops hnew => ?_)
      Bool.false_ne_true
    rw [hprops] at hnew
    cases hnew
  | editGuard =>
    cases haddress
    refine iff_of_false (h.not_exists_modify hnone fun item new hprops hnew => ?_)
      Bool.false_ne_true
    rw [hprops] at hnew
    cases hnew
  | setDescription state transition description =>
    cases transition with
    | some =>
      cases haddress
      cases description
      · exact h.exists_modify_pure_iff
      · exact h.exists_modify_pure_iff
    | none => cases haddress
  | _ => cases haddress

/-- The guard of an item that is no transition cannot be taken away, but the item can. -/
theorem refused_iff_identifier : ∃ editor,
    ofText? "createMachine(\x7bstates: \x7ba: \x7bon: \x7bE: foo\x7d\x7d\x7d\x7d)" [] =
      some editor ∧
    ¬editor.graph.HasEdgeAt ["a"] ⟨.on "E", 0⟩ ∧
    (∃ error, editor.apply (.removeGuard ["a"] ⟨.on "E", 0⟩) = .error error) ∧
    ¬∃ error, editor.apply (.removeTransition ["a"] ⟨.on "E", 0⟩) = .error error := by
  have hfound : (ofText? "createMachine(\x7bstates: \x7ba: \x7bon: \x7bE: foo\x7d\x7d\x7d\x7d)"
      []).any (fun editor => editor.graph.edges.isEmpty &&
        editor.overlooks (.removeTransition ["a"] ⟨.on "E", 0⟩)) = true := by
    decide +kernel
  obtain ⟨editor, heditor, h⟩ := (Option.any_eq_true _ _).1 hfound
  rw [Bool.and_eq_true, List.isEmpty_iff] at h
  have hnone : ¬editor.graph.HasEdgeAt ["a"] ⟨.on "E", 0⟩ := by
    rintro ⟨edge, hedge, -⟩
    rw [h.1] at hedge
    cases hedge
  have hcurrent := (reached_of_ofText? heditor).current
  refine ⟨editor, heditor, hnone, (refused_iff hcurrent rfl hnone).2 rfl, fun herror => ?_⟩
  rw [refused_iff hcurrent rfl hnone, h.2] at herror
  cases herror

/-- An identifier is overwritten by a transition that has a guard, though the graph had no edge
    there. -/
theorem addGuard_overwrites : ∃ editor editor',
    ofText? "createMachine(\x7bstates: \x7ba: \x7bon: \x7bE: foo\x7d\x7d\x7d\x7d)" [] =
      some editor ∧
    ¬editor.graph.HasEdgeAt ["a"] ⟨.on "E", 0⟩ ∧
    editor.apply (.addGuard ["a"] ⟨.on "E", 0⟩ "g") = .ok editor' ∧
    editor'.graph.HasEdgeAt ["a"] ⟨.on "E", 0⟩ := by
  have hfound : (ofText? "createMachine(\x7bstates: \x7ba: \x7bon: \x7bE: foo\x7d\x7d\x7d\x7d)"
      []).any (fun editor => editor.graph.edges.isEmpty &&
        (editor.apply (.addGuard ["a"] ⟨.on "E", 0⟩ "g")).toOption.any fun editor' =>
          editor'.graph.edges.any fun edge =>
            editor'.graph.address edge = (["a"], ⟨.on "E", 0⟩)) = true := by
    decide +kernel
  obtain ⟨editor, heditor, h⟩ := (Option.any_eq_true _ _).1 hfound
  rw [Bool.and_eq_true, List.isEmpty_iff] at h
  obtain ⟨editor', hedited, hedge⟩ := (Option.any_eq_true _ _).1 h.2
  refine ⟨editor, editor', heditor, ?_, eq_ok_of_toOption hedited, ?_⟩
  · rintro ⟨edge, hedge, -⟩
    rw [h.1] at hedge
    cases hedge
  · simpa [Graph.HasEdgeAt] using hedge

end Editor

end Statechart
