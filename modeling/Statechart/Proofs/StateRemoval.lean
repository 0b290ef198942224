import Statechart.Proofs.DroppedTargets

/-!
# Removing a state

When a state is removed with all below it, a transition goes with them if it comes from one of
them, or if it has targets and all of them are among them. The others stay in their slots, in the
same order, without the targets that were removed, and with all else that they say. What their
descriptors stood for they stand for afterwards, so that none is left dangling.

* `Graph.edgesAt`: the edges of a state and a slot;
* `Graph.goesWith`: an edge goes when states are removed;
* `Editor.Narrows`: an edge before and after states were removed;
* `Editor.Removes`: an editor before and after;
* `Editor.removes_apply`: what removing a state does.
-/

namespace Statechart

open Draft Property

namespace Graph

/-- The transitions of the state at a path in a slot, by their positions. -/
def edgesAt (graph : Graph) (path : StatePath) (slot : Slot) : List Edge :=
  ((graph.nodeAt? path).map (graph.slotEdges · slot)).getD []

/-- Whether an edge goes when the states at and below a path do: it comes from one of them, or it
    has descriptors and all of them stand for one of them. -/
def goesWith (graph : Graph) (path : StatePath) (edge : Edge) : Bool :=
  path.isPrefixOf (graph.pathOf edge.source) ||
    vanishes (graph.leadsInto path edge.source) edge.descriptors

variable {graph : Graph} (hgraph : graph.WellFormed)

include hgraph

theorem edgesAt_of_at {node : NodeId} {path : StatePath} (h : graph.At node path) (slot : Slot) :
    graph.edgesAt path slot = graph.slotEdges node slot := by
  rw [edgesAt, (nodeAt?_eq_some_iff hgraph).2 h]
  rfl

theorem edgesAt_of_not_has {path : StatePath} (h : ¬graph.Has path) (slot : Slot) :
    graph.edgesAt path slot = [] := by
  rw [edgesAt]
  cases hnode : graph.nodeAt? path with
  | none => rfl
  | some node => exact absurd ⟨node, (nodeAt?_eq_some_iff hgraph).1 hnode⟩ h

end Graph

namespace Draft

/-- The state that the `initial` of a state names. -/
def initialAt? (config : Expr) (path : StatePath) : Option String :=
  (stateProps? config path).bind initialKey?

theorem initialAt?_congr {a b : Expr} {path : StatePath}
    (h : valueAt? a path "initial" = valueAt? b path "initial") :
    initialAt? a path = initialAt? b path := by
  -- What is read of a state is read of its property.
  refine (Option.bind_assoc (stateProps? a path) (value? · "initial") _).symm.trans ?_
  refine (congrArg (Option.bind · _) h).trans ?_
  exact Option.bind_assoc (stateProps? b path) (value? · "initial") _

end Draft

namespace Editor

/-- An edge before and after the states at and below a path were removed. -/
structure Narrows (before after : Editor) (path : StatePath) (edge newEdge : Edge) : Prop where
  /-- It loses the descriptors of removed states. -/
  descriptors : newEdge.descriptors =
    edge.descriptors.filter (!before.graph.leadsInto path edge.source ·)
  /-- Those that are left stand for what they stood for. -/
  targets : ∀ descriptor ∈ newEdge.descriptors, ∀ target,
    before.graph.resolve? edge.source descriptor = some target →
      ∃ newTarget, after.graph.resolve? newEdge.source descriptor = some newTarget ∧
        after.graph.pathOf newTarget = before.graph.pathOf target
  /-- All else that it says, it says as before. -/
  form : ∃ item newItem, before.IsWritten edge item ∧ after.IsWritten newEdge newItem ∧
    ∀ name, name ≠ "target" → value? (itemProps newItem) name = value? (itemProps item) name

/-- An editor before and after the states at and below a path were removed. -/
structure Removes (before after : Editor) (path : StatePath) : Prop where
  states : ∀ p, after.graph.Has p ↔ before.graph.Has p ∧ ¬path <+: p
  /-- In each slot of each state, the edges that do not go stay, in the same order. -/
  edges : ∀ p slot, List.Forall₂ (Narrows before after path)
    ((before.graph.edgesAt p slot).filter (!before.graph.goesWith path ·))
    (after.graph.edgesAt p slot)
  /-- A state loses its `initial` just if that names the removed state. -/
  initial : ∀ p, ¬path <+: p → valueAt? after.draft p "initial" =
    if (initialAt? before.draft p).map (p ++ [·]) = some path then none
    else valueAt? before.draft p "initial"
  /-- States say all else as before. -/
  values : ∀ p name, ¬path <+: p → name ∉ "states" :: "initial" :: Slot.properties →
    valueAt? after.draft p name = valueAt? before.draft p name

end Editor

/-! ## Taking the state away -/

namespace Draft

section

variable {config : Expr} {parent : StatePath} {props left : List Property} {key : String}

/-- Taking a state away leaves the properties of those that are not at or below it. -/
theorem valueAt?_takeChild (hparent : stateProps? config parent = some props)
    (hleft : ∀ other,
      childProps? left other = if other = key then none else childProps? props other)
    {p : StatePath} (hp : ¬parent ++ [key] <+: p) {name : String} (hname : name ≠ "states") :
    valueAt? (setStateProps left parent config) p name =
      if p = parent then value? left name else valueAt? config p name := by
  by_cases hbelow : parent <+: p
  · obtain ⟨rest, rfl⟩ := hbelow
    rw [valueAt?, stateProps?_setStateProps_append (Option.isSome_of_eq_some hparent)]
    cases rest with
    | nil =>
      rw [List.append_nil, if_pos rfl]
      rfl
    | cons other rest =>
      have hother : other ≠ key := by
        rintro rfl
        exact hp (by simp)
      rw [if_neg (by simp), valueAt?, stateProps?_append, hparent, Option.bind_some,
        propsBelow?_cons, propsBelow?_cons, hleft, if_neg hother]
  · rw [valueAt?_setStateProps_elsewhere hbelow config left hname,
      if_neg fun heq : p = parent => hbelow (heq ▸ List.prefix_refl _)]

/-- Taking a state away changes the `states` of its parent. -/
theorem value?_takeChild {child : Property} (h : takeChild? props key = some (child, left))
    {name : String} (hname : name ≠ "states") : value? left name = value? props name := by
  obtain ⟨children, -, h⟩ := Option.bind_eq_some_iff.1 h
  obtain ⟨found, -, h⟩ := Option.bind_eq_some_iff.1 h
  simp only [Option.pure_def, Option.some.injEq, Prod.mk.injEq] at h
  obtain ⟨-, rfl⟩ := h
  split
  · rw [value?_eraseName, if_neg hname]
  · exact value?_modifyValue_of_ne hname props _

end

variable {draft draft' : Expr} {parent : StatePath} {key : String}

/-- What is left when a state is taken away, and the `initial` of its parent with it. -/
structure Taken (draft draft' : Expr) (path : StatePath) : Prop where
  states : statesOf draft' = (statesOf draft).without path
  gone : ∀ p, path <+: p → stateProps? draft' p = none
  items : ∀ p, ¬path <+: p → itemAt? draft' p = itemAt? draft p
  initial : ∀ p, ¬path <+: p → valueAt? draft' p "initial" =
    if (initialAt? draft p).map (p ++ [·]) = some path then none else valueAt? draft p "initial"
  values : ∀ p name, ¬path <+: p → name ≠ "states" → name ≠ "initial" →
    valueAt? draft' p name = valueAt? draft p name

theorem Taken.itemsAt {path p : StatePath} (h : Taken draft draft' path) (hp : ¬path <+: p)
    (slot : Slot) : itemsAt draft' (p, slot) = Draft.itemsAt draft (p, slot) := by
  refine List.ext_getElem? fun i => ?_
  rw [getElem?_itemsAt, getElem?_itemsAt, h.items p hp]

theorem Taken.allTransitions {path : StatePath} (h : Taken draft draft' path)
    (hall : (Draft.itemsAt draft).AllTransitions) : (Draft.itemsAt draft').AllTransitions := by
  rintro ⟨p, slot⟩ item hitem
  by_cases hp : path <+: p
  · rw [Draft.itemsAt, h.gone p hp] at hitem
    exact absurd hitem List.not_mem_nil
  · rw [h.itemsAt hp] at hitem
    exact hall _ item hitem

theorem taken_modifyState (hkey : (stateProps? draft (parent ++ [key])).isSome)
    (h : modifyState draft parent (fun props =>
      let props := clearInitial props key
      pure (((takeChild? props key).map (·.2)).getD props)) = .ok draft') :
    Taken draft draft' (parent ++ [key]) := by
  obtain ⟨props, new, hprops, hnew, rfl⟩ := modifyState_eq_ok.1 h
  cases hnew
  rw [stateProps?_append, hprops, Option.bind_some, propsBelow?_singleton] at hkey
  rw [← childProps?_clearInitial props key] at hkey
  obtain ⟨child, left, htake⟩ := Editor.exists_takeChild? hkey
  obtain ⟨-, -, hcontent, hleft⟩ := takeChild?_eq_some htake
  have hid : idOf left = idOf (clearInitial props key) := idOf_congr hcontent
  rw [content_clearInitial] at hcontent
  rw [childProps?_clearInitial] at hleft
  obtain ⟨hgone, hkept⟩ := contentAt?_takeChild hprops hcontent hleft
  rw [htake]
  -- The list of states, the values below the key, items, `initial` values, and all other values.
  refine ⟨?_, ?_, fun p hp => ?_, fun p hp => ?_, fun p name hp hstates hinitial => ?_⟩
  · refine statesOf_takeChild hprops (statesBelow_congr parent ?_ ?_) htake hid
    · rw [idOf, idOf, value?_clearInitial (by decide)]
    · exact value?_clearInitial (by decide) props key
  · rintro p ⟨rest, rfl⟩
    rw [← Option.not_isSome_iff_eq_none, ← isSome_contentAt?]
    exact Bool.eq_false_iff.1 (congrArg Option.isSome (hgone rest))
  · exact itemAt?_eq_of_content (hkept p hp)
  · rw [Option.map_some, Option.getD_some, valueAt?_takeChild hprops hleft hp (by decide)]
    by_cases hparent : p = parent
    · subst hparent
      have hnames : (initialAt? draft p).map (p ++ [·]) = some (p ++ [key]) ↔
          initialKey? props = some key := by
        rw [initialAt?, hprops, Option.bind_some]
        cases initialKey? props <;> simp
      rw [if_pos rfl, value?_takeChild htake (by decide), clearInitial, if_congr hnames rfl rfl,
        valueAt?, hprops]
      split
      · rw [value?_eraseName, if_pos rfl]
      · rfl
    · have hother : (initialAt? draft p).map (p ++ [·]) ≠ some (parent ++ [key]) := by
        intro heq
        obtain ⟨other, -, heq⟩ := Option.map_eq_some_iff.1 heq
        exact hparent (List.append_inj_left' heq rfl)
      rw [if_neg hparent, if_neg hother]
  · rw [Option.map_some, Option.getD_some, valueAt?_takeChild hprops hleft hp hstates]
    split
    · next hparent =>
      rw [value?_of_content hcontent ⟨hstates, hinitial⟩, valueAt?, hparent, hprops]
      rfl
    · rfl

end Draft

/-! ## Edges -/

/-- A descriptor of what stays goes on standing for what it stood for. -/
theorem Graph.exists_resolve?_of_without {old new : Graph} {path : StatePath}
    (hold : old.WellFormed) (hnew : new.WellFormed) (hstates : new.states = old.states.without path)
    (hpath : path ≠ []) {source newSource target : NodeId} {p : StatePath} {descriptor : String}
    (hsource : old.At source p) (hnewSource : new.At newSource p)
    (h : old.resolve? source descriptor = some target)
    (hstays : ¬old.leadsInto path source descriptor = true) :
    ∃ newTarget, new.resolve? newSource descriptor = some newTarget ∧
      new.pathOf newTarget = old.pathOf target := by
  rw [leadsInto, h, Option.any_some, List.isPrefixOf_iff_prefix] at hstays
  have hread := map_pathOf_resolve? hold hsource descriptor
  rw [h, Option.map_some] at hread
  have hread' := map_pathOf_resolve? hnew hnewSource descriptor
  rw [hstates, StateList.resolve?_without (head?_states hold) hpath hread.symm hstays] at hread'
  exact Option.map_eq_some_iff.1 hread'

/-- Lists that correspond to a third, element by element, correspond to each other. -/
theorem forall₂_of_common {α β γ : Type} {R : α → γ → Prop} {S : β → γ → Prop} {T : α → β → Prop}
    (hT : ∀ a b c, R a c → S b c → T a b) {as : List α} {bs : List β} {cs : List γ}
    (hR : List.Forall₂ R as cs) (hS : List.Forall₂ S bs cs) : List.Forall₂ T as bs := by
  induction hR generalizing bs with
  | nil =>
    cases hS
    exact .nil
  | cons hac _ ih =>
    cases hS with
    | cons hbc hrest => exact .cons (hT _ _ _ hac hbc) (ih hrest)

namespace Editor

variable {editor : Editor} {path : StatePath} {draft' : Expr}

/-- Removing a state drops the targets among the removed states, and then takes it away. -/
theorem Current.exists_of_removeState (h : editor.Current)
    (hall : (itemsAt editor.draft).AllTransitions)
    (hremove : editor.removeState path = .ok draft') :
    path ≠ [] ∧ ∃ draft, SlotsApart editor.draft draft ∧ (itemsAt draft).AllTransitions ∧
      (∀ {source p}, editor.graph.At source p → ¬path <+: p → ∀ slot, itemsAt draft (p, slot) =
        narrowed (editor.graph.leadsInto path source) (itemsAt editor.draft (p, slot))) ∧
      Taken draft draft' path := by
  rw [removeState] at hremove
  split at hremove
  · cases hremove
  · next parent key hsplit =>
    rw [splitPath?_eq_some_iff] at hsplit
    subst hsplit
    obtain ⟨node, hnode, hremove⟩ := bind_eq_ok.1 hremove
    dsimp only at hremove
    rw [List.partition_eq_filter_filter] at hremove
    obtain ⟨narrowed, hnarrowed, hremove⟩ := bind_eq_ok.1 hremove
    obtain ⟨dropped, hdropped, hremove⟩ := bind_eq_ok.1 hremove
    have hat := h.at_of_node hnode
    obtain ⟨hapart, hall', hitems⟩ := h.itemsAt_edgesInto hall hat hnarrowed hdropped
    refine ⟨by simp, dropped, hapart, hall', hitems, taken_modifyState ?_ hremove⟩
    rw [hapart.paths]
    exact h.isSome_stateProps? hat (by simp)

/-- The edges of a slot whose items are narrowed. -/
theorem Current.narrows_slotEdges {editor' : Editor} (h : editor.Current) (h' : editor'.Current)
    (hall : (itemsAt editor.draft).AllTransitions) (hall' : (itemsAt editor'.draft).AllTransitions)
    (hpath : path ≠ []) (hstates : editor'.graph.states = editor.graph.states.without path)
    {node newNode : NodeId} {p : StatePath} (hat : editor.graph.At node p)
    (hat' : editor'.graph.At newNode p) (hp : ¬path <+: p) {slot : Slot}
    (hitems : itemsAt editor'.draft (p, slot) =
      narrowed (editor.graph.leadsInto path node) (itemsAt editor.draft (p, slot))) :
    List.Forall₂ (editor.Narrows editor' path)
      ((editor.graph.slotEdges node slot).filter (!editor.graph.goesWith path ·))
      (editor'.graph.slotEdges newNode slot) := by
  have hold := (List.forall₂_and_left _ _).2 ⟨fun edge hedge => (Graph.mem_slotEdges.1 hedge).2.1,
    h.isWritten_slotEdges hall hat slot⟩
  have hnew := (List.forall₂_and_left _ _).2 ⟨fun edge hedge => (Graph.mem_slotEdges.1 hedge).2.1,
    h'.isWritten_slotEdges hall' hat' slot⟩
  rw [hitems, narrowed, List.forall₂_map_right_iff] at hnew
  -- An edge goes just if its item does.
  have hgoes : ∀ ⦃edge item⦄, edge.source = node ∧ editor.IsWritten edge item →
      ((!editor.graph.goesWith path edge) = true ↔
        (!vanishes (editor.graph.leadsInto path node) (targets item)) = true) := by
    rintro edge item ⟨rfl, hwritten⟩
    have houtside : path.isPrefixOf p = false := by
      rw [Bool.eq_false_iff, ne_eq, List.isPrefixOf_iff_prefix]
      exact hp
    rw [Graph.goesWith, hat.pathOf_eq, houtside, hwritten.2, Bool.false_or]
  refine forall₂_of_common ?_ (List.rel_filter hgoes hold) hnew
  rintro edge newEdge item ⟨rfl, hwritten⟩ ⟨rfl, hwritten'⟩
  have hdescriptors : newEdge.descriptors =
      edge.descriptors.filter (!editor.graph.leadsInto path edge.source ·) := by
    rw [hwritten'.2, targets_narrow, hwritten.2]
  refine ⟨hdescriptors, fun descriptor hmem target htarget => ?_,
    item, _, hwritten, hwritten', fun name hname => value?_narrow hname item⟩
  rw [hdescriptors, List.mem_filter] at hmem
  exact Graph.exists_resolve?_of_without h.wellFormed h'.wellFormed hstates hpath hat hat' htarget
    (by simpa using hmem.2)

/-- Removing a state changes what it has to, and nothing else: the states at and below it go, and
    the edges that come from them or lead nowhere else; the others keep their slots and their order,
    and stand for what they stood for. -/
theorem removes_apply (h : editor.Current)
    (hproblems : ∀ problem ∈ editor.extraction.problems, problem.kind ≠ .transitionProperty)
    {editor' : Editor} (happly : editor.apply (.removeState path) = .ok editor') :
    editor.Removes editor' path := by
  have h' := current_apply happly
  obtain ⟨draft', hremove, rfl⟩ := exists_of_apply happly
  have hall := h.extractsAll_iff.1 (h.extractsAll_of_problems hproblems)
  obtain ⟨hpath, draft, hapart, hall', hitems, htaken⟩ := h.exists_of_removeState hall hremove
  have hhas : ∀ p, (editor.withDraft draft').graph.Has p ↔ editor.graph.Has p ∧ ¬path <+: p := by
    intro p
    rw [h'.has_iff, h.has_iff]
    exact hasState_removeState h hremove p
  have hstates : (editor.withDraft draft').graph.states = editor.graph.states.without path := by
    rw [h'.states_eq, h.states_eq, ← hapart.states]
    exact htaken.states
  refine ⟨hhas, fun p slot => ?_, fun p hp => ?_, fun p name hp hname => ?_⟩
  · by_cases hold : editor.graph.Has p
    · obtain ⟨node, hat⟩ := hold
      rw [Graph.edgesAt_of_at h.wellFormed hat]
      by_cases hp : path <+: p
      · -- The state goes, and all its edges with it.
        have hgone : ¬(editor.withDraft draft').graph.Has p := fun hhas' => ((hhas p).1 hhas').2 hp
        rw [Graph.edgesAt_of_not_has h'.wellFormed hgone,
          List.filter_eq_nil_iff.2 fun edge hedge => ?_]
        · exact .nil
        · obtain ⟨-, rfl, -⟩ := Graph.mem_slotEdges.1 hedge
          rw [Graph.goesWith, hat.pathOf_eq, List.isPrefixOf_iff_prefix.2 hp]
          simp
      · obtain ⟨newNode, hat'⟩ := (hhas p).2 ⟨⟨node, hat⟩, hp⟩
        rw [Graph.edgesAt_of_at h'.wellFormed hat']
        exact h.narrows_slotEdges h' hall (htaken.allTransitions hall') hpath hstates hat hat' hp
          ((htaken.itemsAt hp slot).trans (hitems hat hp slot))
    · have hgone : ¬(editor.withDraft draft').graph.Has p := fun hhas' => hold ((hhas p).1 hhas').1
      rw [Graph.edgesAt_of_not_has h.wellFormed hold, Graph.edgesAt_of_not_has h'.wellFormed hgone]
      exact .nil
  · have hvalue := hapart.values p "initial" (by decide) (by decide)
    rw [← hvalue, ← initialAt?_congr hvalue]
    exact htaken.initial p hp
  · simp only [List.mem_cons, not_or] at hname
    exact (htaken.values p name hp hname.1 hname.2.1).trans
      (hapart.values p name hname.1 hname.2.2)

/-- A state goes that is the initial one and the target of two transitions: one of them goes with
    it, and the other has another target and stays. -/
theorem removes_apply_initial : ∃ editor editor',
    ofText? ("createMachine(\x7binitial: 'a', states: \x7ba: \x7b\x7d, b: \x7bon: \x7bE: [" ++
      "'a', 'b', \x7btarget: ['a', 'c'], guard: 'g'\x7d]\x7d\x7d, c: \x7b\x7d\x7d\x7d)")
      [] = some editor ∧
    editor.apply (.removeState ["a"]) = .ok editor' ∧
    editor'.graph.edges.map (fun edge => (edge.path.index, edge.descriptors)) =
      [(0, ["b"]), (1, ["c"])] ∧
    (valueAt? editor'.draft [] "initial").isNone ∧
    editor.Removes editor' ["a"] := by
  have hfound : (ofText? (
      "createMachine(\x7binitial: 'a', states: \x7ba: \x7b\x7d, b: \x7bon: \x7bE: [" ++
      "'a', 'b', \x7btarget: ['a', 'c'], guard: 'g'\x7d]\x7d\x7d, c: \x7b\x7d\x7d\x7d)")
      []).any (fun editor =>
        editor.extraction.problems.all (·.kind ≠ .transitionProperty) &&
          (editor.apply (.removeState ["a"])).toOption.any fun editor' =>
            editor'.graph.edges.map (fun edge => (edge.path.index, edge.descriptors)) =
              [(0, ["b"]), (1, ["c"])] &&
              (valueAt? editor'.draft [] "initial").isNone) = true := by
    decide +kernel
  obtain ⟨editor, heditor, h⟩ := (Option.any_eq_true _ _).1 hfound
  rw [Bool.and_eq_true] at h
  obtain ⟨editor', hedited, hafter⟩ := (Option.any_eq_true _ _).1 h.2
  rw [Bool.and_eq_true, decide_eq_true_eq] at hafter
  have happly := eq_ok_of_toOption hedited
  refine ⟨editor, editor', heditor, happly, hafter.1, hafter.2,
    removes_apply (reached_of_ofText? heditor).current (fun problem hproblem => ?_) happly⟩
  exact of_decide_eq_true (List.all_eq_true.1 h.1 problem hproblem)

end Editor

end Statechart
