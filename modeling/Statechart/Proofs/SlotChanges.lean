import Statechart.Proofs.Resolution
import Statechart.Proofs.SlotItems

/-!
# Changes of slots

A change of a transition is a change of the slots of one state. It leaves alone the other
properties of that state, those of all the others, and the list of the states with their ids, so
that descriptors are read as before.

* `Draft.valueAt?`: the properties of the states of a description;
* `Draft.SlotsApart`: two descriptions have all but the slots in common;
* `Draft.slotsApart_modifyTransition`, `Draft.slotsApart_takeTransition`,
  `Draft.slotsApart_putTransition`: changes of transitions.
-/

namespace Statechart

open Property

namespace Draft

/-- The value of a property of the state at a path. -/
def valueAt? (config : Expr) (path : StatePath) (name : String) : Option Expr :=
  (stateProps? config path).bind (value? · name)

/-- States that are not at or below one whose properties are replaced keep their own, but for
    `states`. -/
theorem valueAt?_setStateProps_elsewhere {path p : StatePath} (h : ¬path <+: p) (config : Expr)
    (new : List Property) {name : String} (hname : name ≠ "states") :
    valueAt? (setStateProps new path config) p name = valueAt? config p name := by
  rw [valueAt?, valueAt?, stateProps?_setStateProps, stateProps?_eq]
  cases config.props? with
  | none => rfl
  | some props =>
    rw [Option.bind_some, Option.bind_some]
    by_cases habove : p <+: path
    · obtain ⟨rest, rfl⟩ := habove
      cases rest with
      | nil => exact absurd (by simp) h
      | cons key rest =>
        rw [propsBelow?_setBelow_above]
        cases propsBelow? props p with
        | none => rfl
        | some above => exact value?_modifyValue_of_ne hname above _
    · rw [propsBelow?_setBelow_apart habove h]

/-- The properties of the states after those of one were replaced, with the same states below. -/
theorem valueAt?_setStateProps {config : Expr} {path : StatePath} {old new : List Property}
    (hold : stateProps? config path = some old)
    (hstates : value? new "states" = value? old "states") (p : StatePath) {name : String}
    (hname : name ≠ "states") :
    valueAt? (setStateProps new path config) p name =
      if p = path then value? new name else valueAt? config p name := by
  by_cases hbelow : path <+: p
  · obtain ⟨rest, rfl⟩ := hbelow
    rw [valueAt?, stateProps?_setStateProps_append (Option.isSome_of_eq_some hold)]
    by_cases hrest : rest = []
    · subst hrest
      rw [List.append_nil, if_pos rfl]
      rfl
    · rw [propsBelow?_congr hstates hrest, if_neg (by simpa using hrest), valueAt?,
        stateProps?_append, hold]
      rfl
  · rw [valueAt?_setStateProps_elsewhere hbelow config new hname,
      if_neg fun heq : p = path => hbelow (heq ▸ List.prefix_refl _)]

/-- Two descriptions have all but the slots of their states in common. -/
structure SlotsApart (a b : Expr) : Prop where
  states : statesOf b = statesOf a
  paths : SamePaths a b
  values : ∀ path name, name ≠ "states" → name ∉ Slot.properties →
    valueAt? b path name = valueAt? a path name

theorem SlotsApart.refl (config : Expr) : SlotsApart config config :=
  ⟨rfl, .refl config, fun _ _ _ _ => rfl⟩

theorem SlotsApart.trans {a b c : Expr} (hab : SlotsApart a b) (hbc : SlotsApart b c) :
    SlotsApart a c where
  states := hbc.states.trans hab.states
  paths := hab.paths.trans hbc.paths
  values path name hstates hname :=
    (hbc.values path name hstates hname).trans (hab.values path name hstates hname)

/-- Replacing properties of a state that hold slots. -/
theorem slotsApart_setStateProps {config : Expr} {path : StatePath} {old new : List Property}
    (hold : stateProps? config path = some old)
    (hvalues : ∀ name ∉ Slot.properties, value? new name = value? old name) :
    SlotsApart config (setStateProps new path config) where
  states := statesOf_of_same hold (hvalues _ (by decide)) (hvalues _ (by decide))
  paths := samePaths_setStateProps hold (hvalues _ (by decide))
  values p name hstates hname := by
    rw [valueAt?_setStateProps hold (hvalues _ (by decide)) p hstates]
    split
    · next hp => rw [hvalues name hname, valueAt?, hp, hold, Option.bind_some]
    · rfl

section

variable {draft draft' item : Expr} {source : StatePath}

theorem value?_setOwner_of_not_mem {slot : Slot} {state owner new : List Property}
    (howner : slot.owner? state = some owner)
    (hnew : ∀ name, name ≠ slot.key → value? new name = value? owner name) {name : String}
    (hname : name ∉ Slot.properties) :
    value? (slot.setOwner state new) name = value? state name :=
  value?_setOwner_of_ne howner (fun _ => hnew) (Slot.property_ne hname slot).symm

theorem slotsApart_modifyTransition {path : TransitionPath} {f : Expr → Edited Expr}
    (h : modifyTransition draft source path f = .ok draft') : SlotsApart draft draft' := by
  obtain ⟨state, new, hstate, hnew, rfl⟩ := modifyState_eq_ok.1 h
  refine slotsApart_setStateProps hstate fun name hname => ?_
  split at hnew
  · next owner item hin =>
    obtain ⟨changed, -, hnew⟩ := bind_eq_ok.1 hnew
    cases hnew
    obtain ⟨owner', howner, hin⟩ := Option.bind_eq_some_iff.1 hin
    obtain ⟨item', -, hin⟩ := Option.bind_eq_some_iff.1 hin
    cases hin
    exact value?_setOwner_of_not_mem howner (fun _ hkey => value?_modifyItem hkey _ _ _) hname
  · cases hnew

/-- A transition is taken out of the owner of its slot. -/
theorem takeTransition_eq_ok {path : TransitionPath}
    (h : takeTransition draft source path = .ok (item, draft')) :
    ∃ state owner left, stateProps? draft source = some state ∧
      path.slot.owner? state = some owner ∧
      OneOrMany.remove? owner path.slot.key path.index = some (item, left) ∧
      draft' = setStateProps (path.slot.pruneMap (path.slot.setOwner state left)) source draft := by
  obtain ⟨state, hstate, h⟩ := bind_eq_ok.1 h
  rw [state_eq_ok] at hstate
  split at h
  · next owner howner =>
    split at h
    · next removed left hremove =>
      cases h
      exact ⟨state, owner, left, hstate, howner, hremove, rfl⟩
    · cases h
  · cases h

theorem slotsApart_takeTransition {path : TransitionPath}
    (h : takeTransition draft source path = .ok (item, draft')) : SlotsApart draft draft' := by
  obtain ⟨state, owner, left, hstate, howner, hremove, rfl⟩ := takeTransition_eq_ok h
  refine slotsApart_setStateProps hstate fun name hname => ?_
  rw [value?_pruneMap hname]
  exact value?_setOwner_of_not_mem howner (fun _ hkey => value?_remove? hkey hremove) hname

theorem slotsApart_putTransition {slot : Slot}
    (h : putTransition draft source slot item = .ok draft') : SlotsApart draft draft' := by
  obtain ⟨state, new, hstate, hnew, rfl⟩ := modifyState_eq_ok.1 h
  refine slotsApart_setStateProps hstate fun name hname => ?_
  dsimp only at hnew
  split at hnew
  · next owner howner =>
    cases hnew
    rw [← value?_ensureMap hname slot state]
    exact value?_setOwner_of_not_mem howner (fun _ hkey => value?_insert hkey _ _ _) hname
  · split at hnew <;> cases hnew

end

end Draft

open Draft

/-! ## Descriptors -/

namespace Editor

variable {editor editor' : Editor}

theorem Current.states_eq (h : editor.Current) : editor.graph.states = statesOf editor.draft := by
  rw [h.graph_eq]
  exact states_extract _ _ _

end Editor

end Statechart
