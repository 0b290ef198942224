import Statechart.Proofs.Mending

/-!
# The paths of the states

Most changes of a draft leave the states where they are, since they leave alone the `states` of
the state that they change.

* `Draft.HasState`: a description has a state at a path;
* `Draft.SamePaths`: two descriptions have states at the same paths;
* `Draft.samePaths_modifyState`, `Draft.samePaths_modifyTransition`,
  `Draft.samePaths_takeTransition`, `Draft.samePaths_putTransition`: changes that keep them;
* `Editor.samePaths_rebase`: mending descriptors keeps them;
* `Editor.Current.has_iff`: the states of the graph are those of the draft.
-/

namespace Statechart

open Property

namespace Draft

/-- There is a state at the path: the root, which every description has, or one that is
    written. -/
def HasState (config : Expr) (path : StatePath) : Prop :=
  path = [] ∨ (stateProps? config path).isSome

/-- Two descriptions have states at the same paths. -/
def SamePaths (a b : Expr) : Prop :=
  ∀ path, (stateProps? b path).isSome = (stateProps? a path).isSome

theorem SamePaths.refl (config : Expr) : SamePaths config config := fun _ => rfl

theorem SamePaths.trans {a b c : Expr} (hab : SamePaths a b) (hbc : SamePaths b c) :
    SamePaths a c :=
  fun path => (hbc path).trans (hab path)

theorem SamePaths.hasState_iff {a b : Expr} (h : SamePaths a b) (path : StatePath) :
    HasState b path ↔ HasState a path := by
  rw [HasState, HasState, h]

/-- Steps that keep the states keep them in a run. -/
theorem samePaths_foldlM {α : Type} {step : Expr → α → Edited Expr}
    (hstep : ∀ {old new : Expr} {a : α}, step old a = .ok new → SamePaths old new)
    {list : List α} {draft draft' : Expr} (h : list.foldlM step draft = .ok draft') :
    SamePaths draft draft' := by
  induction list generalizing draft with
  | nil =>
    cases h
    exact .refl _
  | cons a list ih =>
    rw [List.foldlM_cons] at h
    obtain ⟨next, hnext, h⟩ := bind_eq_ok.1 h
    exact (hstep hnext).trans (ih h)

/-! ## Changing the properties of a state -/

theorem samePaths_setStateProps {config : Expr} {path : StatePath} {old new : List Property}
    (hold : stateProps? config path = some old)
    (hstates : value? new "states" = value? old "states") :
    SamePaths config (setStateProps new path config) := by
  intro p
  by_cases hp : p = path
  · rw [hp, stateProps?_setStateProps_self (Option.isSome_of_eq_some hold), hold]
    rfl
  · rw [← isSome_contentAt?, contentAt?_setStateProps hold hstates, if_neg hp, isSome_contentAt?]

theorem samePaths_modifyState {draft draft' : Expr} {path : StatePath}
    {f : List Property → Edited (List Property)} (h : modifyState draft path f = .ok draft')
    (hf : ∀ {old new}, f old = .ok new → value? new "states" = value? old "states") :
    SamePaths draft draft' := by
  obtain ⟨old, new, hold, hnew, rfl⟩ := modifyState_eq_ok.1 h
  exact samePaths_setStateProps hold (hf hnew)

/-! ## Lists of items -/

section

variable {name key : String} (hname : name ≠ key) (props : List Property)

include hname

theorem value?_modifyItem (index : Nat) (f : Expr → Expr) :
    value? (OneOrMany.modifyItem props key index f) name = value? props name :=
  value?_modifyValue_of_ne hname props _

theorem value?_setText (text : String) : value? (setText props key text) name = value? props name :=
  value?_setOptionalText hname props (some text)

theorem value?_insert (index : Option Nat) (item : Expr) :
    value? (OneOrMany.insert props key index item) name = value? props name := by
  rw [OneOrMany.insert]
  split
  · exact value?_modifyValue_of_ne hname props _
  · rw [value?_append_ofPair, if_neg hname]

variable {props}

theorem value?_remove? {index : Nat} {item : Expr} {left : List Property}
    (h : OneOrMany.remove? props key index = some (item, left)) :
    value? left name = value? props name := by
  obtain ⟨removed, -, h⟩ := Option.map_eq_some_iff.1 h
  obtain ⟨-, rfl⟩ := Prod.mk.inj h
  split
  · rw [value?_eraseName, if_neg hname]
  · exact value?_modifyValue_of_ne hname props _
  · exact value?_modifyValue_of_ne hname props _

end

/-! ## Slots -/

/-- A slot that is no key of a map is not written in the place of the states. -/
theorem key_ne_states {slot : Slot} (h : slot.mapName? = none) : "states" ≠ slot.key := by
  cases slot with
  | on | after => cases h
  | _ => simp [Slot.key]

theorem property_of_mapName? {slot : Slot} {name : String} (h : slot.mapName? = some name) :
    slot.property = name := by
  cases slot <;> cases h <;> rfl

/-- Changing what holds a slot leaves the states of the state alone, unless it is the state itself
    and its states are changed. -/
theorem value?_setOwner_states {slot : Slot} {state owner new : List Property}
    (howner : slot.owner? state = some owner)
    (hnew : slot.mapName? = none → value? new "states" = value? owner "states") :
    value? (slot.setOwner state new) "states" = value? state "states" := by
  cases slot with
  | on | after => exact value?_modifyValue_of_ne (by decide) state _
  | always | onDone =>
    obtain rfl : state = owner := Option.some.inj howner
    exact hnew rfl
  | invokeDone | invokeError => exact value?_modifyItem (by decide) state _ _

theorem value?_pruneMap {name : String} (hname : name ∉ Slot.properties) (slot : Slot)
    (state : List Property) : value? (slot.pruneMap state) name = value? state name := by
  rw [Slot.pruneMap]
  split
  · next map hmap =>
    have hne : map ≠ name := property_of_mapName? hmap ▸ Slot.property_ne hname slot
    split
    · rw [value?_eraseName, if_neg hne.symm]
    · rfl
  · rfl

theorem value?_ensureMap {name : String} (hname : name ∉ Slot.properties) (slot : Slot)
    (state : List Property) : value? (slot.ensureMap state) name = value? state name := by
  rw [Slot.ensureMap]
  split
  · next map hmap =>
    have hne : map ≠ name := property_of_mapName? hmap ▸ Slot.property_ne hname slot
    split
    · rfl
    · rw [value?_append_ofPair, if_neg hne.symm]
  · rfl

/-! ## Transitions -/

theorem samePaths_modifyTransition {draft draft' : Expr} {source : StatePath}
    {path : TransitionPath} {f : Expr → Edited Expr}
    (h : modifyTransition draft source path f = .ok draft') : SamePaths draft draft' := by
  refine samePaths_modifyState h fun {old new} hnew => ?_
  split at hnew
  · next owner item hin =>
    obtain ⟨changed, -, hnew⟩ := bind_eq_ok.1 hnew
    cases hnew
    obtain ⟨owner', howner, hin⟩ := Option.bind_eq_some_iff.1 hin
    obtain ⟨item', -, hin⟩ := Option.bind_eq_some_iff.1 hin
    cases hin
    exact value?_setOwner_states howner fun hmap => value?_modifyItem (key_ne_states hmap) _ _ _
  · cases hnew

theorem samePaths_takeTransition {draft draft' item : Expr} {source : StatePath}
    {path : TransitionPath} (h : takeTransition draft source path = .ok (item, draft')) :
    SamePaths draft draft' := by
  obtain ⟨props, hprops, h⟩ := bind_eq_ok.1 h
  rw [state_eq_ok] at hprops
  split at h
  · next owner howner =>
    split at h
    · next removed left hremove =>
      cases h
      refine samePaths_setStateProps hprops ?_
      rw [value?_pruneMap (by decide)]
      exact value?_setOwner_states howner fun hmap => value?_remove? (key_ne_states hmap) hremove
    · cases h
  · cases h

theorem samePaths_putTransition {draft draft' item : Expr} {source : StatePath} {slot : Slot}
    (h : putTransition draft source slot item = .ok draft') : SamePaths draft draft' := by
  refine samePaths_modifyState h fun {old new} hnew => ?_
  dsimp only at hnew
  split at hnew
  · next owner howner =>
    cases hnew
    rw [← value?_ensureMap (by decide) slot old]
    exact value?_setOwner_states howner fun hmap => value?_insert (key_ne_states hmap) _ _ _
  · split at hnew <;> cases hnew

end Draft

theorem Graph.has_iff_mem {graph : Graph} {path : StatePath} :
    graph.Has path ↔ path ∈ graph.nodes.map (·.path) := by
  rw [List.mem_map]
  constructor
  · rintro ⟨i, node, hnode, rfl⟩
    exact ⟨node, List.mem_of_getElem? hnode, rfl⟩
  · rintro ⟨node, hnode, rfl⟩
    obtain ⟨i, hi⟩ := List.mem_iff_getElem?.1 hnode
    exact ⟨i, node, hi, rfl⟩

open Draft

namespace Editor

variable {editor : Editor}

/-! ## Mending -/

theorem samePaths_rebase {draft draft' : Expr} {move : StatePath → StatePath}
    (h : editor.rebase draft move = .ok draft') : SamePaths draft draft' := by
  refine samePaths_foldlM (fun {draft draft' edge} hstep => ?_) h
  rw [rebaseEdge] at hstep
  split at hstep
  · dsimp only at hstep
    split at hstep
    · exact samePaths_modifyTransition hstep
    · cases hstep
      exact .refl draft
  · cases hstep
    exact .refl draft

/-! ## Graphs -/

/-- The graph of a description has a root, and the states of the description. -/
theorem has_extractionOf (config : Expr) (path : StatePath) :
    (editor.extractionOf config).graph.Has path ↔ HasState config path := by
  rw [HasState]
  cases hconfig : config.isObject with
  | true =>
    rw [has_extractionOf_iff hconfig]
    refine ⟨.inr, ?_⟩
    rintro (rfl | h)
    · exact hconfig
    · exact h
  | false =>
    -- Of what is no object literal only the root is read.
    have hprops : config.props? = none := by rwa [Expr.isObject, Option.isSome_eq_false_iff,
      Option.isNone_iff_eq_none] at hconfig
    have hinfos : (infosOf config).map (·.path) = [[]] := by
      cases config with
      | object => cases hprops
      | _ => rfl
    have hpaths := congrArg (List.map (·.1))
      (nodes_extract config editor.machine.options editor.machine.setup)
    rw [List.map_map, List.map_map] at hpaths
    rw [Graph.has_iff_mem, stateProps?_eq, hprops]
    refine (iff_of_eq (congrArg (path ∈ ·) (hpaths.trans hinfos))).trans ?_
    simp

theorem Current.has_iff (h : editor.Current) (path : StatePath) :
    editor.graph.Has path ↔ HasState editor.draft path := by
  rw [h.graph_eq]
  exact has_extractionOf _ path

/-- Where a state has no child of a name, none is written below it. -/
theorem Current.stateProps?_of_child? (h : editor.Current) {id : NodeId} {path : StatePath}
    {key : String} (hat : editor.graph.At id path)
    (hchild : ¬(editor.graph.child? id key).isSome = true) :
    stateProps? editor.draft (path ++ [key]) = none := by
  rw [← Option.not_isSome_iff_eq_none]
  intro hsome
  obtain ⟨child, hat'⟩ := (h.has_iff _).2 (.inr hsome)
  rw [(Graph.child?_eq_some_iff h.wellFormed hat).2 hat'] at hchild
  exact hchild rfl

/-- A state that is not the root is written. -/
theorem Current.isSome_stateProps? (h : editor.Current) {id : NodeId} {path : StatePath}
    (hat : editor.graph.At id path) (hne : path ≠ []) : (stateProps? editor.draft path).isSome :=
  ((h.has_iff path).1 ⟨id, hat⟩).resolve_left hne

end Editor

end Statechart
