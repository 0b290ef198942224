import Statechart.Proofs.SlotChanges
import Statechart.Proofs.SlotEdges

/-!
# Where transitions lead after an edit

An edit that adds a transition, gives one other targets or moves it to another state writes
descriptors, and these are read again when the draft is. None of these edits changes the states or
their ids, so that a descriptor is read as it would have been before. The edit thus does what it
says just if the descriptors that it chooses stand for the states that they are chosen for. They
need not: a key with a point, or with a hash at its start, is written like any other, and so is an
id that another state has too.

* `Graph.LeadsTo`: the edge at an address has the given targets;
* `Graph.ReadsBack`: the descriptor that is chosen for a state stands for it;
* `Editor.redirections_iff`: when edits do what they say;
* `Graph.Addressable.readsBack`: in graphs with plain keys and distinct ids, all is read back;
* `Editor.addTransition_misses`: a transition that is added and leads nowhere.
-/

namespace Statechart

open Draft Property

/-- A step that may fail succeeds for all of a list just if as much comes of it. -/
theorem filterMap_eq_map_iff {α β : Type} {f : α → Option β} {g : α → β} {l : List α} :
    l.filterMap f = l.map g ↔ ∀ a ∈ l, f a = some (g a) := by
  induction l with
  | nil => simp
  | cons a l ih =>
    rw [List.forall_mem_cons, List.map_cons]
    cases ha : f a with
    | none =>
      rw [List.filterMap_cons_none ha]
      refine iff_of_false (fun heq => ?_) fun hall => by cases hall.1
      have hlength := List.length_filterMap_le f l
      rw [heq, List.length_cons, List.length_map] at hlength
      omega
    | some b => rw [List.filterMap_cons_some ha, List.cons.injEq, ih, Option.some.injEq]

namespace Graph

variable (graph : Graph)

/-- The edge at an address has these states for its targets, in this order. -/
def LeadsTo (source : StatePath) (place : TransitionPath) (targets : List StatePath) : Prop :=
  ∃ edge ∈ graph.edges, graph.address edge = (source, place) ∧
    edge.targets.map graph.pathOf = targets

/-- The edge at an address has this state among its targets. -/
def HasTarget (source : StatePath) (place : TransitionPath) (target : StatePath) : Prop :=
  ∃ targets, graph.LeadsTo source place targets ∧ target ∈ targets

/-- The state that a descriptor stands for on another, by their paths. -/
def readAt? (source : StatePath) (descriptor : String) : Option StatePath :=
  (graph.nodeAt? source).bind fun node => (graph.resolve? node descriptor).map graph.pathOf

/-- The descriptor that is chosen on a state for another. -/
def chosenAt? (source target : StatePath) : Option String := do
  let node ← graph.nodeAt? source
  let target ← graph.nodeAt? target
  pure (graph.descriptorFor node target)

/-- The descriptor that is chosen on a state for another stands for that. -/
def ReadsBack (source target : StatePath) : Prop :=
  (graph.chosenAt? source target).bind (graph.readAt? source) = some target

/-- What becomes of a descriptor when its transition is moved to another state. One that stands for
    none is left as it is. -/
def carried (source newSource : StatePath) (descriptor : String) : String :=
  ((graph.readAt? source descriptor).bind (graph.chosenAt? newSource)).getD descriptor

variable {graph} (hgraph : graph.WellFormed)

include hgraph

theorem readAt?_of_at {node : NodeId} {source : StatePath} (h : graph.At node source)
    (descriptor : String) :
    graph.readAt? source descriptor = (graph.resolve? node descriptor).map graph.pathOf := by
  rw [readAt?, (nodeAt?_eq_some_iff hgraph).2 h, Option.bind_some]

theorem readAt?_of_not_has {source : StatePath} (h : ¬graph.Has source) (descriptor : String) :
    graph.readAt? source descriptor = none := by
  rw [readAt?]
  cases hnode : graph.nodeAt? source with
  | none => rfl
  | some node => exact absurd ⟨node, (nodeAt?_eq_some_iff hgraph).1 hnode⟩ h

theorem chosenAt?_of_at {node target : NodeId} {source path : StatePath} (h : graph.At node source)
    (htarget : graph.At target path) :
    graph.chosenAt? source path = some (graph.descriptorFor node target) := by
  rw [chosenAt?, (nodeAt?_eq_some_iff hgraph).2 h, (nodeAt?_eq_some_iff hgraph).2 htarget]
  rfl

theorem readAt?_eq_some_iff {node target : NodeId} {source path : StatePath}
    (h : graph.At node source) (htarget : graph.At target path) {descriptor : String} :
    graph.readAt? source descriptor = some path ↔ graph.resolve? node descriptor = some target := by
  rw [readAt?_of_at hgraph h, Option.map_eq_some_iff]
  constructor
  · rintro ⟨found, hfound, rfl⟩
    rw [hfound, At.unique hgraph (at_of_resolve? hgraph h hfound) htarget]
  · intro hfound
    exact ⟨target, hfound, htarget.pathOf_eq⟩

/-- In a graph with plain keys and distinct ids, all descriptors that are chosen are read back. -/
theorem Addressable.readsBack (h : graph.Addressable) {source target : StatePath}
    (hsource : graph.Has source) (htarget : graph.Has target) : graph.ReadsBack source target := by
  obtain ⟨node, hnode⟩ := hsource
  obtain ⟨found, hfound⟩ := htarget
  rw [ReadsBack, chosenAt?_of_at hgraph hnode hfound, Option.bind_some,
    readAt?_eq_some_iff hgraph hnode hfound,
    resolve?_eq_some_iff hgraph h.distinct hnode hfound]
  exact refers_descriptorFor hgraph h hnode hfound

end Graph

namespace Editor

variable {editor : Editor}

theorem Current.targets_eq (h : editor.Current) {edge : Edge} (hedge : edge ∈ editor.graph.edges) :
    edge.targets = edge.descriptors.filterMap (editor.graph.resolve? edge.source) := by
  rw [h.graph_eq, extractionOf, extract_eq] at hedge ⊢
  exact Graph.targets_resolved hedge

/-- Where an item leads is where its descriptors are read. -/
theorem Current.leadsTo_iff (h : editor.Current) {source : StatePath} {place : TransitionPath}
    {item : Expr} (hitem : itemAt? editor.draft source place = some item)
    (hform : isTransition item = true) {targets : List StatePath} :
    editor.graph.LeadsTo source place targets ↔
      (Draft.targets item).filterMap (editor.graph.readAt? source) = targets := by
  obtain ⟨edge, hedge, haddress, hdescriptors⟩ := h.exists_edge_iff_hasTransition.2
    (show HasTransition editor.draft (source, place) _ from ⟨item, hitem, hform, rfl⟩)
  have hread : edge.targets.map editor.graph.pathOf =
      (Draft.targets item).filterMap (editor.graph.readAt? source) := by
    rw [h.targets_eq hedge, List.map_filterMap, hdescriptors]
    refine List.filterMap_congr fun descriptor _ => (Graph.readAt?_of_at h.wellFormed ?_ _).symm
    exact (Prod.mk.inj haddress).1 ▸ Graph.at_pathOf (h.wellFormed.sources edge hedge)
  rw [← hread]
  constructor
  · rintro ⟨other, hother, haddress', rfl⟩
    rw [h.eq_of_address hedge hother (haddress.trans haddress'.symm)]
  · rintro rfl
    exact ⟨edge, hedge, haddress, rfl⟩

/-- Descriptors are read alike where the states are the same. -/
theorem Current.readAt?_of_slotsApart (h : editor.Current) {draft : Expr}
    (hapart : SlotsApart editor.draft draft) :
    (editor.withDraft draft).graph.readAt? = editor.graph.readAt? := by
  have h' : (editor.withDraft draft).Current := rfl
  have hhas (path : StatePath) :
      (editor.withDraft draft).graph.Has path ↔ editor.graph.Has path := by
    rw [h'.has_iff, h.has_iff]
    exact hapart.paths.hasState_iff path
  have hstates : (editor.withDraft draft).graph.states = editor.graph.states := by
    rw [h'.states_eq, h.states_eq]
    exact hapart.states
  funext source descriptor
  by_cases hsource : editor.graph.Has source
  · obtain ⟨newNode, hnewNode⟩ := (hhas source).2 hsource
    obtain ⟨node, hnode⟩ := hsource
    rw [Graph.readAt?_of_at h'.wellFormed hnewNode, Graph.readAt?_of_at h.wellFormed hnode,
      Graph.map_pathOf_resolve? h'.wellFormed hnewNode,
      Graph.map_pathOf_resolve? h.wellFormed hnode, hstates]
  · rw [Graph.readAt?_of_not_has h.wellFormed hsource,
      Graph.readAt?_of_not_has h'.wellFormed fun hnew => hsource ((hhas source).1 hnew)]

end Editor

/-! ## The items that are written -/

namespace Draft

theorem targets_promote (item : Expr) : targets (promote item) = targets item := by
  cases item <;> rfl

theorem targets_withProps {item : Expr} {props : List Property}
    (h : value? props "target" = value? (itemProps item) "target") :
    targets (item.withProps props) = targets item := by
  cases item with
  | object origin old =>
    change ((value? props "target").map targetTexts).getD [] = _
    rw [h]
    rfl
  | _ => rfl

theorem targets_ofProps {key : String} (hkey : "target" ≠ key) (descriptor : String)
    (text : Option String) :
    targets (.ofProps ([ofPair "target" (.ofText descriptor)] ++
      text.toList.map fun name => ofPair key (.ofText name))) = [descriptor] := by
  have hvalue : value? ([ofPair "target" (.ofText descriptor)] ++
      text.toList.map fun name => ofPair key (.ofText name)) "target" =
        some (.ofText descriptor) := by
    have hfirst : value? [ofPair "target" (.ofText descriptor)] "target" =
        some (.ofText descriptor) := (value?_append_ofPair [] _ _ _).trans (if_pos rfl)
    cases text with
    | none => exact hfirst
    | some name => exact (value?_append_ofPair _ _ _ _).trans ((if_neg hkey).trans hfirst)
  change ((value? _ "target").map targetTexts).getD [] = _
  rw [hvalue]
  rfl

/-- A transition that is taken out was there. -/
theorem itemAt?_takeTransition {draft draft' item : Expr} {source : StatePath}
    {place : TransitionPath} (h : takeTransition draft source place = .ok (item, draft')) :
    itemAt? draft source place = some item := by
  obtain ⟨state, owner, left, hstate, howner, hremove, -⟩ := takeTransition_eq_ok h
  obtain ⟨_, hitem, hremove⟩ := Option.map_eq_some_iff.1 hremove
  obtain ⟨rfl, -⟩ := Prod.mk.inj hremove
  rw [itemAt?, hstate, Option.bind_some, itemIn?_eq, howner]
  exact hitem

/-- A transition that is changed where it is. -/
theorem itemAt?_modifyTransition {draft draft' : Expr} {source : StatePath}
    {place : TransitionPath} {f : Expr → Expr}
    (h : modifyTransition draft source place (fun item => pure (f item)) = .ok draft')
    (hf : ∀ item, itemAt? draft source place = some item → isTransition (f item) = true) :
    ∃ item, itemAt? draft source place = some item ∧
      itemAt? draft' source place = some (f item) := by
  obtain ⟨-, hitems⟩ := modifyTransition_eq_ok h fun item hitem =>
    isArray_of_isTransition (hf item hitem)
  obtain ⟨item, new, hitem, -, -⟩ := exists_of_modifyTransition h
  rw [getElem?_itemsAt] at hitem
  have hnew := hitems source place
  rw [if_pos ⟨rfl, rfl⟩, hitem] at hnew
  exact ⟨item, hitem, hnew⟩

/-- A transition that is put into a slot is its last. -/
theorem itemAt?_putTransition {draft draft' item : Expr} {source : StatePath} {slot : Slot}
    (h : putTransition draft source slot item = .ok draft') (hform : isTransition item = true) :
    itemAt? draft' source ⟨slot, (itemsAt draft (source, slot)).length⟩ = some item := by
  rw [← getElem?_itemsAt, itemsAt_putTransition h hform, SlotTable.append, Function.update_self,
    List.getElem?_concat_length]

/-- Taking a transition out changes the slots of its own state. -/
theorem itemsAt_takeTransition_elsewhere {draft draft' item : Expr} {source p : StatePath}
    {place : TransitionPath} (h : takeTransition draft source place = .ok (item, draft'))
    (hp : p ≠ source) (slot : Slot) : itemsAt draft' (p, slot) = itemsAt draft (p, slot) := by
  obtain ⟨state, owner, left, hstate, howner, hremove, rfl⟩ := takeTransition_eq_ok h
  have hstates : value? (place.slot.pruneMap (place.slot.setOwner state left)) "states" =
      value? state "states" := by
    rw [value?_pruneMap (by decide)]
    exact value?_setOwner_states howner fun hmap => value?_remove? (key_ne_states hmap) hremove
  rw [itemsAt_setStateProps hstate hstates, SlotTable.withState, if_neg hp]

end Draft

namespace Editor

variable {editor : Editor} {draft : Expr}

variable (editor) in
/-- The flag leaves the targets as they are. -/
theorem targets_restateFlag (source : NodeId) (nodes : List NodeId) (external : Bool)
    (item : Expr) : targets (editor.restateFlag source nodes external item) = targets item := by
  have hne : ∀ key ∈ ["reenter", "internal"], "target" ≠ key := by decide
  rw [restateFlag]
  split
  · have hkey : "target" ≠ editor.flagKey (itemProps (promote item)) := hne _ (flagKey_mem _)
    rw [← targets_promote item]
    refine targets_withProps ?_
    split
    · exact value?_modifyValue_of_ne hkey _ _
    · rw [value?_append_ofPair, if_neg hkey]
  · refine targets_withProps ?_
    rw [erasePair, value?_eraseName, value?_eraseName, if_neg (by decide), if_neg (by decide)]

theorem guardKey_ne_target (editor : Editor) : "target" ≠ editor.guardKey := by
  rw [guardKey]
  cases editor.flavor <;> decide

theorem Current.isTransition_of_edge (h : editor.Current) {source : StatePath}
    {place : TransitionPath} {edge : Edge} {item : Expr}
    (hedge : editor.edge source place = .ok edge)
    (hitem : itemAt? editor.draft source place = some item) :
    isTransition item = true ∧ targets item = edge.descriptors := by
  obtain ⟨hmem, haddress⟩ := h.mem_of_edge hedge
  obtain ⟨found, hfound, hform, htargets⟩ :=
    h.exists_edge_iff_hasTransition.1 ⟨edge, hmem, haddress, rfl⟩
  obtain rfl := Option.some.inj (hfound.symm.trans hitem)
  exact ⟨hform, htargets⟩

/-- The nodes at some paths. -/
theorem Current.eq_map_of_mapM (h : editor.Current) {paths : List StatePath} {nodes : List NodeId}
    (hnodes : paths.mapM editor.node = .ok nodes) :
    paths = nodes.map editor.graph.pathOf ∧
      ∀ id ∈ nodes, editor.graph.At id (editor.graph.pathOf id) := by
  have hat := (mapM_eq_ok_iff.1 hnodes).imp fun path id => h.at_of_node
  constructor
  · rw [← List.forall₂_eq_eq_eq, List.forall₂_map_right_iff]
    exact hat.imp fun path id hid => hid.pathOf_eq.symm
  · intro id hid
    obtain ⟨path, -, hnode⟩ := exists_of_mem_mapM hnodes hid
    rw [(h.at_of_node hnode).pathOf_eq]
    exact h.at_of_node hnode

/-- The targets of the edge of an item, by its descriptors. -/
theorem Current.hasTarget_iff (h : editor.Current) {source : StatePath} {place : TransitionPath}
    {item : Expr} {node id : NodeId} (hat : editor.graph.At node source)
    (hid : editor.graph.At id (editor.graph.pathOf id))
    (hitem : itemAt? editor.draft source place = some item) (hform : isTransition item = true) :
    editor.graph.HasTarget source place (editor.graph.pathOf id) ↔
      ∃ descriptor ∈ targets item, editor.graph.resolve? node descriptor = some id := by
  simp only [Graph.HasTarget, h.leadsTo_iff hitem hform, exists_eq_left', List.mem_filterMap,
    Graph.readAt?_eq_some_iff h.wellFormed hat hid]

/-! ## Edits -/

/-- An edit of a transition leads to where its descriptors are read before the edit. -/
theorem Current.leadsTo_withDraft (h : editor.Current) (hapart : SlotsApart editor.draft draft)
    {source : StatePath} {place : TransitionPath} {item : Expr}
    (hitem : itemAt? draft source place = some item) (hform : isTransition item = true)
    {targets : List StatePath} :
    (editor.withDraft draft).graph.LeadsTo source place targets ↔
      (Draft.targets item).filterMap (editor.graph.readAt? source) = targets := by
  have h' : (editor.withDraft draft).Current := rfl
  rw [h'.leadsTo_iff hitem hform, h.readAt?_of_slotsApart hapart]

/-- A transition that is added leads to its target just if the descriptor that is chosen for it
    does. -/
theorem Current.leadsTo_addTransition_iff (h : editor.Current) {source target : StatePath}
    {slot : Slot} {external : Bool} {guard : Option String}
    (hadd : editor.addTransition source slot (some target) external guard = .ok draft) :
    (editor.withDraft draft).graph.LeadsTo source
        ⟨slot, (itemsAt editor.draft (source, slot)).length⟩ [target] ↔
      editor.graph.ReadsBack source target := by
  obtain ⟨node, hnode, hadd⟩ := bind_eq_ok.1 hadd
  obtain ⟨found, hfound, hadd⟩ := bind_eq_ok.1 hadd
  obtain ⟨id, hid, rfl⟩ : ∃ id, editor.node target = .ok id ∧ found = some id := by
    obtain ⟨id, hid, hfound⟩ := bind_eq_ok.1 hfound
    cases hfound
    exact ⟨id, hid, rfl⟩
  dsimp only at hadd
  generalize hitem : collapse (dropEmpty (editor.restateFlag node _ external _)) = item at hadd
  have hform : isTransition item = true := by
    rw [← hitem, isTransition_collapse, isTransition_dropEmpty]
    exact isTransition_restateFlag _ _ _ rfl
  have htargets : targets item = [editor.graph.descriptorFor node id] := by
    rw [← hitem, targets_collapse, targets_dropEmpty, targets_restateFlag]
    exact targets_ofProps (guardKey_ne_target editor) _ guard
  rw [h.leadsTo_withDraft (slotsApart_putTransition hadd) (itemAt?_putTransition hadd hform) hform,
    htargets, Graph.ReadsBack,
    Graph.chosenAt?_of_at h.wellFormed (h.at_of_node hnode) (h.at_of_node hid), Option.bind_some]
  cases hread : editor.graph.readAt? source (editor.graph.descriptorFor node id) <;> simp [hread]

/-- A transition that is given other targets leads to them just if each is among its targets before
    or is read back. -/
theorem Current.leadsTo_retargetTransition_iff (h : editor.Current) {source : StatePath}
    {transition : TransitionPath} {targets : List StatePath}
    (hretarget : editor.retargetTransition source transition targets = .ok draft) :
    (editor.withDraft draft).graph.LeadsTo source transition targets ↔
      ∀ target ∈ targets, editor.graph.HasTarget source transition target ∨
        editor.graph.ReadsBack source target := by
  have hgraph := h.wellFormed
  obtain ⟨node, hnode, hretarget⟩ := bind_eq_ok.1 hretarget
  obtain ⟨edge, hedge, hretarget⟩ := bind_eq_ok.1 hretarget
  obtain ⟨nodes, hnodes, hretarget⟩ := bind_eq_ok.1 hretarget
  have hat := h.at_of_node hnode
  obtain ⟨hpaths, hids⟩ := h.eq_map_of_mapM hnodes
  have hform (descriptors : List String) (item : Expr) := isTransition_collapse_restateFlag editor
    node nodes (isMarkedExternal edge) (isTransition_setTargets descriptors item)
  obtain ⟨item, hitem, hnew⟩ := itemAt?_modifyTransition hretarget fun item _ => hform _ item
  obtain ⟨hold, -⟩ := h.isTransition_of_edge hedge hitem
  rw [h.leadsTo_withDraft (slotsApart_modifyTransition hretarget) hnew (hform _ item),
    targets_collapse, targets_restateFlag, (targets_setTargets _ _).1, List.filterMap_map,
    hpaths, filterMap_eq_map_iff, List.forall_mem_map]
  refine forall₂_congr fun id hid => ?_
  rw [h.hasTarget_iff hat (hids id hid) hitem hold, Function.comp_apply,
    Graph.readAt?_eq_some_iff hgraph hat (hids id hid)]
  cases hkept : (Draft.targets item).find? fun d => editor.graph.resolve? node d = some id with
  | some descriptor =>
    have hresolved : editor.graph.resolve? node descriptor = some id := by
      simpa using List.find?_some hkept
    exact iff_of_true hresolved (.inl ⟨descriptor, List.mem_of_find?_eq_some hkept, hresolved⟩)
  | none =>
    have hnone : ¬∃ d ∈ Draft.targets item, editor.graph.resolve? node d = some id := by
      rintro ⟨d, hd, hresolved⟩
      exact List.find?_eq_none.1 hkept d hd (decide_eq_true hresolved)
    rw [or_iff_right hnone, Graph.ReadsBack, Graph.chosenAt?_of_at hgraph hat (hids id hid),
      Option.bind_some, Graph.readAt?_eq_some_iff hgraph hat (hids id hid)]
    rfl

/-- A transition that is moved to another state leads to where it led just if the descriptors that
    are chosen there, and those that stood for no state, are read so. -/
theorem Current.leadsTo_reanchorTransition_iff (h : editor.Current) {source newSource : StatePath}
    {transition : TransitionPath} (hne : newSource ≠ source)
    (hreanchor : editor.reanchorTransition source transition newSource = .ok draft) :
    ∃ edge ∈ editor.graph.edges, editor.graph.address edge = (source, transition) ∧
      ((editor.withDraft draft).graph.LeadsTo newSource
          ⟨transition.slot, (itemsAt editor.draft (newSource, transition.slot)).length⟩
          (edge.targets.map editor.graph.pathOf) ↔
        (edge.descriptors.map (editor.graph.carried source newSource)).filterMap
          (editor.graph.readAt? newSource) = edge.targets.map editor.graph.pathOf) := by
  obtain ⟨node, hnode, hreanchor⟩ := bind_eq_ok.1 hreanchor
  obtain ⟨newNode, hnewNode, hreanchor⟩ := bind_eq_ok.1 hreanchor
  have hat := h.at_of_node hnode
  have hat' := h.at_of_node hnewNode
  have hnodes : node ≠ newNode := by
    rintro rfl
    exact hne (hat'.path_unique hat)
  rw [if_neg hnodes] at hreanchor
  obtain ⟨edge, hedge, hreanchor⟩ := bind_eq_ok.1 hreanchor
  obtain ⟨⟨item, taken⟩, htake, hreanchor⟩ := bind_eq_ok.1 hreanchor
  obtain ⟨hmem, haddress⟩ := h.mem_of_edge hedge
  obtain ⟨-, htargets⟩ := h.isTransition_of_edge hedge (itemAt?_takeTransition htake)
  refine ⟨edge, hmem, haddress, ?_⟩
  have hform (descriptors : List String) := isTransition_collapse_restateFlag editor
    newNode edge.targets (isMarkedExternal edge) (isTransition_setTargets descriptors item)
  have hapart := (slotsApart_takeTransition htake).trans (slotsApart_putTransition hreanchor)
  have hitem := itemAt?_putTransition hreanchor (hform _)
  rw [itemsAt_takeTransition_elsewhere htake hne] at hitem
  rw [h.leadsTo_withDraft hapart hitem (hform _), targets_collapse, targets_restateFlag,
    (targets_setTargets _ _).1, htargets]
  -- The descriptors that are written are those that are carried over.
  refine iff_of_eq (congrArg (· = _) (congrArg (List.filterMap _) ?_))
  refine List.map_congr_left fun descriptor _ => ?_
  rw [Graph.carried, Graph.readAt?_of_at h.wellFormed hat]
  cases htarget : editor.graph.resolve? node descriptor with
  | none => rfl
  | some target =>
    rw [Option.map_some, Option.bind_some, Graph.chosenAt?_of_at h.wellFormed hat'
      (Graph.at_of_resolve? h.wellFormed hat htarget)]
    rfl

/-- Edits that add a transition, give one other targets or move it to another state lead to the
    states that are asked for just if the descriptors that they write are read so before the
    edit. -/
theorem redirections_iff (h : editor.Current) :
    (∀ source slot target external guard editor',
      editor.apply (.addTransition source slot (some target) external guard) = .ok editor' →
      (editor'.graph.LeadsTo source ⟨slot, (itemsAt editor.draft (source, slot)).length⟩ [target] ↔
        editor.graph.ReadsBack source target)) ∧
    (∀ source transition targets editor',
      editor.apply (.retargetTransition source transition targets) = .ok editor' →
      (editor'.graph.LeadsTo source transition targets ↔
        ∀ target ∈ targets, editor.graph.HasTarget source transition target ∨
          editor.graph.ReadsBack source target)) ∧
    ∀ source transition newSource editor', newSource ≠ source →
      editor.apply (.reanchorTransition source transition newSource) = .ok editor' →
      ∃ edge ∈ editor.graph.edges, editor.graph.address edge = (source, transition) ∧
        (editor'.graph.LeadsTo newSource
            ⟨transition.slot, (itemsAt editor.draft (newSource, transition.slot)).length⟩
            (edge.targets.map editor.graph.pathOf) ↔
          (edge.descriptors.map (editor.graph.carried source newSource)).filterMap
            (editor.graph.readAt? newSource) = edge.targets.map editor.graph.pathOf) := by
  refine ⟨?_, ?_, ?_⟩
  · intro source slot target external guard editor' happly
    obtain ⟨draft, hadd, rfl⟩ := exists_of_apply happly
    exact h.leadsTo_addTransition_iff hadd
  · intro source transition targets editor' happly
    obtain ⟨draft, hretarget, rfl⟩ := exists_of_apply happly
    exact h.leadsTo_retargetTransition_iff hretarget
  · intro source transition newSource editor' hne happly
    obtain ⟨draft, hreanchor, rfl⟩ := exists_of_apply happly
    exact h.leadsTo_reanchorTransition_iff hne hreanchor

/-- A transition between two states, the second of which has a state below it, is one after the
    other given that for its target too and moved to it; and another is added. -/
theorem redirections_iff_nested : ∃ editor,
    ofText? ("createMachine(\x7bstates: \x7ba: \x7bon: \x7bE: 'b'\x7d\x7d, " ++
      "b: \x7bstates: \x7bc: \x7b\x7d\x7d\x7d\x7d\x7d)") [] = some editor ∧
    (∃ added, editor.apply (.addTransition ["a"] (.on "E") (some ["b", "c"]) false none) =
      .ok added ∧ added.graph.LeadsTo ["a"] ⟨.on "E", 1⟩ [["b", "c"]]) ∧
    (∃ retargeted, editor.apply (.retargetTransition ["a"] ⟨.on "E", 0⟩ [["b", "c"], ["b"]]) =
      .ok retargeted ∧ retargeted.graph.LeadsTo ["a"] ⟨.on "E", 0⟩ [["b", "c"], ["b"]]) ∧
    ∃ moved, editor.apply (.reanchorTransition ["a"] ⟨.on "E", 0⟩ ["b", "c"]) = .ok moved ∧
      moved.graph.LeadsTo ["b", "c"] ⟨.on "E", 0⟩ [["b"]] := by
  have hfound : (ofText? ("createMachine(\x7bstates: \x7ba: \x7bon: \x7bE: 'b'\x7d\x7d, " ++
      "b: \x7bstates: \x7bc: \x7b\x7d\x7d\x7d\x7d\x7d)") []).any (fun editor =>
        ((itemsAt editor.draft (["a"], .on "E")).length = 1 &&
          (itemsAt editor.draft (["b", "c"], .on "E")).length = 0) &&
        ((editor.graph.chosenAt? ["a"] ["b", "c"]).bind (editor.graph.readAt? ["a"]) =
            some ["b", "c"] &&
          (editor.graph.chosenAt? ["a"] ["b"]).bind (editor.graph.readAt? ["a"]) = some ["b"]) &&
        editor.graph.edges.all (fun edge =>
          edge.targets.map editor.graph.pathOf = [["b"]] &&
            (edge.descriptors.map (editor.graph.carried ["a"] ["b", "c"])).filterMap
              (editor.graph.readAt? ["b", "c"]) = [["b"]]) &&
        ((editor.apply
            (.addTransition ["a"] (.on "E") (some ["b", "c"]) false none)).toOption.isSome
          && (editor.apply
            (.retargetTransition ["a"] ⟨.on "E", 0⟩ [["b", "c"], ["b"]])).toOption.isSome
          && (editor.apply
            (.reanchorTransition ["a"] ⟨.on "E", 0⟩ ["b", "c"])).toOption.isSome)) = true := by
    decide +kernel
  obtain ⟨editor, heditor, h⟩ := (Option.any_eq_true _ _).1 hfound
  simp only [Bool.and_eq_true, decide_eq_true_eq, List.all_eq_true, Option.isSome_iff_exists] at h
  obtain ⟨⟨⟨⟨hslot, hslot'⟩, hnested, hsibling⟩, hcarried⟩, ⟨⟨added, hadded⟩, retargeted,
    hretargeted⟩, moved, hmoved⟩ := h
  obtain ⟨hadd, hretarget, hreanchor⟩ := redirections_iff (reached_of_ofText? heditor).current
  have hadded := eq_ok_of_toOption hadded
  have hretargeted := eq_ok_of_toOption hretargeted
  have hmoved := eq_ok_of_toOption hmoved
  refine ⟨editor, heditor, ⟨added, hadded, ?_⟩, ⟨retargeted, hretargeted, ?_⟩, moved, hmoved, ?_⟩
  · rw [← hslot]
    exact (hadd _ _ _ _ _ _ hadded).2 hnested
  · refine (hretarget _ _ _ _ hretargeted).2 fun target htarget => .inr ?_
    simp only [List.mem_cons, List.not_mem_nil, or_false] at htarget
    rcases htarget with rfl | rfl
    · exact hnested
    · exact hsibling
  · obtain ⟨edge, hedge, -, hleads⟩ := hreanchor _ _ _ _ (by decide) hmoved
    obtain ⟨htargets, hread⟩ := hcarried edge hedge
    rw [htargets, hslot'] at hleads
    exact hleads.2 hread

/-- The key of a state starts with a hash, so that the descriptor for it is read as an id that no
    state has. -/
theorem addTransition_misses : ∃ editor editor',
    ofText? "createMachine(\x7bstates: \x7b'#x': \x7b\x7d, b: \x7b\x7d\x7d\x7d)" [] =
      some editor ∧
    editor.apply (.addTransition ["b"] (.on "E") (some ["#x"]) false none) = .ok editor' ∧
    editor'.graph.edges.map (fun edge => (edge.descriptors, edge.targets)) = [(["#x"], [])] ∧
    ∀ place, ¬editor'.graph.LeadsTo ["b"] place [["#x"]] := by
  have hfound : (ofText? "createMachine(\x7bstates: \x7b'#x': \x7b\x7d, b: \x7b\x7d\x7d\x7d)"
      []).any (fun editor => (editor.apply
        (.addTransition ["b"] (.on "E") (some ["#x"]) false none)).toOption.any fun editor' =>
          editor'.graph.edges.map (fun edge => (edge.descriptors, edge.targets)) =
            [(["#x"], [])]) = true := by
    decide +kernel
  obtain ⟨editor, heditor, h⟩ := (Option.any_eq_true _ _).1 hfound
  obtain ⟨editor', hedited, hedges⟩ := (Option.any_eq_true _ _).1 h
  rw [decide_eq_true_eq] at hedges
  refine ⟨editor, editor', heditor, eq_ok_of_toOption hedited, hedges, ?_⟩
  rintro place ⟨edge, hedge, -, htargets⟩
  have hmem := hedges ▸ List.mem_map_of_mem hedge
  rw [(Prod.mk.inj (List.mem_singleton.1 hmem)).2] at htargets
  cases htargets

end Editor

end Statechart
