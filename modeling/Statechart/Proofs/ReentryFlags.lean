import Statechart.Proofs.PartEdits
import Statechart.Proofs.Redirection

/-!
# Flags of transitions after an edit

Transitions whose targets all lie at or below their source are internal by default. Where one is to
be external, an edit writes a flag that says so, under the keyword that it finds, else under that of
the flavor; and it takes out all flags that it finds where none is needed. However the flag was
written before, the graph of the new draft has it just if the default would be wrong.

* `Draft.saysInternal?`: what the flag of a written transition says;
* `Graph.IsFlagged`: what an edge says of itself;
* `Editor.flagFor`: the flag that is needed;
* `Editor.flags_follow`: edits that add, redirect, move or mark a transition flag it so.
-/

namespace Statechart

open Draft Property

/-! ## Reading the flag -/

namespace Draft

/-- Whether a flag says that a transition is internal. `reenter` says the opposite of
    `internal`. -/
def readFlag? (flag : String × Expr) : Option Bool :=
  (Shape.truth? flag.2).map fun truth => if flag.1 == "reenter" then !truth else truth

/-- Whether a written transition says that it is internal, or that it is not. -/
def saysInternal? (item : Expr) : Option Bool :=
  (partsOf item).flag.bind readFlag?

theorem readFlag?_of_saysExternal {flag : String × Expr} (h : SaysExternal flag) :
    readFlag? flag = some false := by
  obtain ⟨hkey, htruth⟩ := h
  rw [readFlag?, htruth, Option.map_some]
  cases hreenter : flag.1 == "reenter" <;> rfl

end Draft

theorem readInternal_fst (path : StatePath) (prop : Option Property) :
    (readInternal path prop).1 =
      prop.bind fun prop => readFlag? (prop.name.getD "internal", prop.value) := by
  cases prop with
  | none => rfl
  | some prop =>
    simp only [readInternal, readProperty, readFlag?, Option.bind_some]
    cases Shape.truth? prop.value <;> rfl

theorem internal_readTransitionObject (path : StatePath) (base : Transition)
    (props : List Property) :
    (readTransitionObject path base props).1.internal =
      (inUse? props "reenter" "internal").bind readFlag? := by
  simp only [readTransitionObject, readInternal_fst, pickNewer_fst, effectiveKey?, inUse?, value?,
    ← isSome_prop?]
  cases hnew : prop? props "reenter" with
  | some prop => simp [hnew, (mem_of_prop? hnew).2]
  | none =>
    cases hold : prop? props "internal" with
    | some prop => simp [hold, (mem_of_prop? hold).2]
    | none => rfl

/-- The place of an item that has the form of a transition, and what its flag says. -/
def flagReading? (item : TransitionPath × Expr) : Option (TransitionPath × Option Bool) :=
  if isTransition item.2 then some (item.1, saysInternal? item.2) else none

theorem flag_readTransition (path : StatePath) (slot : Slot) (trigger : Trigger) (item : Expr)
    (index : Nat) :
    (readTransition path slot trigger item index).1.map (fun t => (t.path, t.internal)) =
      flagReading? (⟨slot, index⟩, item) := by
  cases item with
  | object origin props =>
    exact congrArg (fun internal => some (_, internal)) (internal_readTransitionObject path _ props)
  | _ => rfl

/-- There is an edge at an address, and it says this of itself: that it is internal, or that it is
    not, or nothing. -/
structure Graph.IsFlagged (graph : Graph) (source : StatePath) (place : TransitionPath)
    (internal : Option Bool) : Prop where
  hasEdge : graph.HasEdgeAt source place
  flag : ∀ edge ∈ graph.edges, graph.address edge = (source, place) → edge.internal = internal

/-- An edge says what the item at its address says. -/
theorem exists_item_flag {config : Expr} (options setup : Option Expr) {edge : Edge}
    (h : edge ∈ (extract config options setup).graph.edges) :
    ∃ item, itemAt? config ((extract config options setup).graph.pathOf edge.source) edge.path =
        some item ∧ edge.internal = saysInternal? item := by
  obtain ⟨rootId, key, path, span, props, t, hprops, hpath, ht, hmade⟩ :=
    exists_infoOf_edge options setup (isObject_of_mem_edges options setup h) h
  obtain ⟨place, item, hitem, hread⟩ := exists_item_of_map flag_readTransition ht
  rw [flagReading?] at hread
  split at hread
  · obtain ⟨rfl, hinternal⟩ := Prod.mk.inj (Option.some.inj hread)
    refine ⟨item, ?_, hmade.internal.trans hinternal.symm⟩
    rw [hpath, itemAt?, hprops, hmade.path]
    exact hitem
  · cases hread

namespace Editor

variable {editor editor' : Editor} {draft : Expr} {source : StatePath} {place : TransitionPath}

theorem Current.isFlagged_of_itemAt? (h : editor.Current) {item : Expr}
    (hitem : itemAt? editor.draft source place = some item) (hform : isTransition item = true) :
    editor.graph.IsFlagged source place (saysInternal? item) := by
  refine ⟨h.hasEdgeAt_iff.2 ⟨item, hitem, hform⟩, fun edge hedge haddress => ?_⟩
  obtain ⟨found, hfound, hinternal⟩ : ∃ found, itemAt? editor.draft
      (editor.graph.pathOf edge.source) edge.path = some found ∧
        edge.internal = saysInternal? found := by
    rw [h.graph_eq] at hedge ⊢
    exact exists_item_flag _ _ hedge
  obtain ⟨hsource, hplace⟩ := Prod.mk.inj haddress
  rw [hsource, hplace] at hfound
  obtain rfl := Option.some.inj (hfound.symm.trans hitem)
  exact hinternal

/-- The targets of an edge are states. -/
theorem Current.at_targets (h : editor.Current) {edge : Edge} (hedge : edge ∈ editor.graph.edges) :
    ∀ id ∈ edge.targets, editor.graph.At id (editor.graph.pathOf id) := by
  intro id hid
  rw [h.targets_eq hedge] at hid
  obtain ⟨descriptor, -, hresolve⟩ := List.mem_filterMap.1 hid
  exact Graph.at_of_resolve? h.wellFormed
    (Graph.at_pathOf (h.wellFormed.sources edge hedge)) hresolve

/-! ## Writing the flag -/

/-- The flag that a transition needs: one that is to be external has it if all its targets lie at
    or below its source. -/
def flagFor (external : Bool) (source : StatePath) (targets : List StatePath) : Option Bool :=
  if external = true ∧ ∀ target ∈ targets, source <+: target then some false else none

theorem isInternalByDefault_iff (h : editor.Current) {node : NodeId} {nodes : List NodeId}
    (hnode : editor.graph.At node source)
    (hnodes : ∀ id ∈ nodes, editor.graph.At id (editor.graph.pathOf id)) :
    editor.graph.isInternalByDefault node nodes = true ↔
      ∀ target ∈ nodes.map editor.graph.pathOf, source <+: target := by
  rw [Graph.isInternalByDefault, List.all_eq_true, List.forall_mem_map]
  refine forall₂_congr fun id hid => ?_
  rw [Graph.isSelfOrDescendant_iff h.wellFormed (hnodes id hid) hnode]
  exact exists_congr fun q => eq_comm

/-- A transition whose flag is written anew has the flag that it needs. -/
theorem saysInternal?_restateFlag (h : editor.Current) {node : NodeId} {nodes : List NodeId}
    (hnode : editor.graph.At node source)
    (hnodes : ∀ id ∈ nodes, editor.graph.At id (editor.graph.pathOf id)) (external : Bool)
    (item : Expr) :
    saysInternal? (collapse (editor.restateFlag node nodes external item)) =
      flagFor external source (nodes.map editor.graph.pathOf) := by
  have hneeded : (external && editor.graph.isInternalByDefault node nodes) = true ↔
      external = true ∧ ∀ target ∈ nodes.map editor.graph.pathOf, source <+: target := by
    rw [Bool.and_eq_true, isInternalByDefault_iff h hnode hnodes]
  rw [saysInternal?]
  by_cases hflag : (external && editor.graph.isInternalByDefault node nodes) = true
  · obtain ⟨flag, hsays, hparts⟩ := partsOf_flagged hflag item
    rw [hparts, flagFor, if_pos (hneeded.1 hflag)]
    exact readFlag?_of_saysExternal hsays
  · rw [partsOf_unflagged (Bool.not_eq_true _ ▸ hflag), flagFor,
      if_neg fun hboth => hflag (hneeded.2 hboth)]
    rfl

/-! ## Edits -/

/-- A transition that is added has the flag that it needs. -/
theorem Current.isFlagged_addTransition (h : editor.Current) {slot : Slot}
    {target : Option StatePath} {external : Bool} {guard : Option String}
    (hadd : editor.addTransition source slot target external guard = .ok draft) :
    (editor.withDraft draft).graph.IsFlagged source
      ⟨slot, (itemsAt editor.draft (source, slot)).length⟩
      (flagFor external source target.toList) := by
  have h' : (editor.withDraft draft).Current := rfl
  obtain ⟨node, hnode, hadd⟩ := bind_eq_ok.1 hadd
  obtain ⟨found, hfound, hadd⟩ := bind_eq_ok.1 hadd
  have hnodes : target.toList.mapM editor.node = .ok found.toList := by
    cases target with
    | none =>
      cases hfound
      rfl
    | some target =>
      obtain ⟨id, hid, hfound⟩ := bind_eq_ok.1 hfound
      cases hfound
      exact mapM_eq_ok_iff.2 (.cons hid .nil)
  obtain ⟨hpaths, hids⟩ := h.eq_map_of_mapM hnodes
  dsimp only at hadd
  generalize hprops : Expr.ofProps _ = props at hadd
  have hflag := saysInternal?_restateFlag h (h.at_of_node hnode) hids external props
  have hform : isTransition (collapse (dropEmpty
      (editor.restateFlag node found.toList external props))) = true := by
    rw [isTransition_collapse, isTransition_dropEmpty]
    exact isTransition_restateFlag _ _ _ (hprops ▸ rfl)
  rw [hpaths, ← hflag]
  have hnew := h'.isFlagged_of_itemAt? (itemAt?_putTransition hadd hform) hform
  rwa [saysInternal?, partsOf_collapse, partsOf_dropEmpty, ← partsOf_collapse] at hnew

/-- A transition that is given other targets has the flag that it needs then. -/
theorem Current.isFlagged_retargetTransition (h : editor.Current) {targets : List StatePath}
    (hretarget : editor.retargetTransition source place targets = .ok draft) :
    ∃ edge ∈ editor.graph.edges, editor.graph.address edge = (source, place) ∧
      (editor.withDraft draft).graph.IsFlagged source place
        (flagFor (isMarkedExternal edge) source targets) := by
  have h' : (editor.withDraft draft).Current := rfl
  obtain ⟨node, hnode, hretarget⟩ := bind_eq_ok.1 hretarget
  obtain ⟨edge, hedge, hretarget⟩ := bind_eq_ok.1 hretarget
  obtain ⟨nodes, hnodes, hretarget⟩ := bind_eq_ok.1 hretarget
  obtain ⟨hpaths, hids⟩ := h.eq_map_of_mapM hnodes
  obtain ⟨hmem, haddress⟩ := h.mem_of_edge hedge
  refine ⟨edge, hmem, haddress, ?_⟩
  have hform (descriptors : List String) (item : Expr) := isTransition_collapse_restateFlag editor
    node nodes (isMarkedExternal edge) (isTransition_setTargets descriptors item)
  obtain ⟨item, -, hnew⟩ := itemAt?_modifyTransition hretarget fun item _ => hform _ item
  rw [hpaths, ← saysInternal?_restateFlag h (h.at_of_node hnode) hids]
  exact h'.isFlagged_of_itemAt? hnew (hform _ item)

/-- A transition that is moved to another state has the flag that it needs there. -/
theorem Current.isFlagged_reanchorTransition (h : editor.Current) {newSource : StatePath}
    (hne : newSource ≠ source)
    (hreanchor : editor.reanchorTransition source place newSource = .ok draft) :
    ∃ edge ∈ editor.graph.edges, editor.graph.address edge = (source, place) ∧
      (editor.withDraft draft).graph.IsFlagged newSource
        ⟨place.slot, (itemsAt editor.draft (newSource, place.slot)).length⟩
        (flagFor (isMarkedExternal edge) newSource (edge.targets.map editor.graph.pathOf)) := by
  have h' : (editor.withDraft draft).Current := rfl
  obtain ⟨node, hnode, hreanchor⟩ := bind_eq_ok.1 hreanchor
  obtain ⟨newNode, hnewNode, hreanchor⟩ := bind_eq_ok.1 hreanchor
  have hat := h.at_of_node hnode
  have hat' := h.at_of_node hnewNode
  have hnodes : node ≠ newNode := by
    rintro rfl
    exact hne (hat'.path_unique hat)
  rw [if_neg hnodes] at hreanchor
  obtain ⟨edge, hedge, hreanchor⟩ := bind_eq_ok.1 hreanchor
  obtain ⟨⟨item, taken⟩, htake, hreanchor⟩ := bind_eq_ok.1 hreanchor
  obtain ⟨hmem, haddress⟩ := h.mem_of_edge hedge
  refine ⟨edge, hmem, haddress, ?_⟩
  have hform (descriptors : List String) := isTransition_collapse_restateFlag editor
    newNode edge.targets (isMarkedExternal edge) (isTransition_setTargets descriptors item)
  have hitem := itemAt?_putTransition hreanchor (hform _)
  rw [itemsAt_takeTransition_elsewhere htake hne] at hitem
  rw [← saysInternal?_restateFlag h hat' (h.at_targets hmem)]
  exact h'.isFlagged_of_itemAt? hitem (hform _)

/-- A transition that is marked has the flag that it needs. -/
theorem Current.isFlagged_markTransitionExternal (h : editor.Current) {external : Bool}
    (hmark : editor.markTransitionExternal source place external = .ok draft) :
    ∃ edge ∈ editor.graph.edges, editor.graph.address edge = (source, place) ∧
      (editor.withDraft draft).graph.IsFlagged source place
        (flagFor external source (edge.targets.map editor.graph.pathOf)) := by
  have h' : (editor.withDraft draft).Current := rfl
  obtain ⟨node, hnode, hmark⟩ := bind_eq_ok.1 hmark
  obtain ⟨edge, hedge, hmark⟩ := bind_eq_ok.1 hmark
  obtain ⟨hmem, haddress⟩ := h.mem_of_edge hedge
  refine ⟨edge, hmem, haddress, ?_⟩
  have hform {item : Expr} (hitem : itemAt? editor.draft source place = some item) :=
    isTransition_collapse_restateFlag editor node edge.targets external
      (h.isTransition_of_edge hedge hitem).1
  obtain ⟨item, hitem, hnew⟩ := itemAt?_modifyTransition hmark fun _ => hform
  rw [← saysInternal?_restateFlag h (h.at_of_node hnode) (h.at_targets hmem)]
  exact h'.isFlagged_of_itemAt? hnew (hform hitem)

/-- An edit that adds, redirects, moves or marks a transition leaves it with a flag just if one is
    needed: if it is to be external, and all its targets lie at or below its source. -/
theorem flags_follow (h : editor.Current) :
    (∀ source slot target external guard editor',
      editor.apply (.addTransition source slot target external guard) = .ok editor' →
      editor'.graph.IsFlagged source ⟨slot, (itemsAt editor.draft (source, slot)).length⟩
        (flagFor external source target.toList)) ∧
    (∀ source place targets editor',
      editor.apply (.retargetTransition source place targets) = .ok editor' →
      ∃ edge ∈ editor.graph.edges, editor.graph.address edge = (source, place) ∧
        editor'.graph.IsFlagged source place
          (flagFor (isMarkedExternal edge) source targets)) ∧
    (∀ source place newSource editor', newSource ≠ source →
      editor.apply (.reanchorTransition source place newSource) = .ok editor' →
      ∃ edge ∈ editor.graph.edges, editor.graph.address edge = (source, place) ∧
        editor'.graph.IsFlagged newSource
          ⟨place.slot, (itemsAt editor.draft (newSource, place.slot)).length⟩
          (flagFor (isMarkedExternal edge) newSource (edge.targets.map editor.graph.pathOf))) ∧
    ∀ source place external editor',
      editor.apply (.markTransitionExternal source place external) = .ok editor' →
      ∃ edge ∈ editor.graph.edges, editor.graph.address edge = (source, place) ∧
        editor'.graph.IsFlagged source place
          (flagFor external source (edge.targets.map editor.graph.pathOf)) := by
  refine ⟨?_, ?_, ?_, ?_⟩
  · intro source slot target external guard editor' happly
    obtain ⟨draft, hadd, rfl⟩ := exists_of_apply happly
    exact h.isFlagged_addTransition hadd
  · intro source place targets editor' happly
    obtain ⟨draft, hretarget, rfl⟩ := exists_of_apply happly
    exact h.isFlagged_retargetTransition hretarget
  · intro source place newSource editor' hne happly
    obtain ⟨draft, hreanchor, rfl⟩ := exists_of_apply happly
    exact h.isFlagged_reanchorTransition hne hreanchor
  · intro source place external editor' happly
    obtain ⟨draft, hmark, rfl⟩ := exists_of_apply happly
    exact h.isFlagged_markTransitionExternal hmark

/-- A transition to a state below its own, with flags under both keywords, is one after the other
    given its source for a target too, moved to another state and marked as internal; and an
    external one is added. -/
theorem flags_follow_bothKeys : ∃ editor,
    ofText? ("createMachine(\x7bstates: \x7ba: \x7bon: \x7bE: \x7btarget: '.x', " ++
      "internal: true, reenter: false, reenter: true\x7d\x7d, states: \x7bx: \x7b\x7d\x7d\x7d, " ++
        "b: \x7b\x7d\x7d\x7d)") [] = some editor ∧
    (∃ added, editor.apply (.addTransition ["a"] (.on "E") (some ["a", "x"]) true none) =
      .ok added ∧ added.graph.IsFlagged ["a"] ⟨.on "E", 1⟩ (some false)) ∧
    (∃ retargeted, editor.apply (.retargetTransition ["a"] ⟨.on "E", 0⟩ [["a", "x"], ["a"]]) =
      .ok retargeted ∧ retargeted.graph.IsFlagged ["a"] ⟨.on "E", 0⟩ (some false)) ∧
    (∃ moved, editor.apply (.reanchorTransition ["a"] ⟨.on "E", 0⟩ ["b"]) = .ok moved ∧
      moved.graph.IsFlagged ["b"] ⟨.on "E", 0⟩ none) ∧
    ∃ marked, editor.apply (.markTransitionExternal ["a"] ⟨.on "E", 0⟩ false) = .ok marked ∧
      marked.graph.IsFlagged ["a"] ⟨.on "E", 0⟩ none := by
  have hfound : (ofText? ("createMachine(\x7bstates: \x7ba: \x7bon: \x7bE: \x7btarget: '.x', " ++
      "internal: true, reenter: false, reenter: true\x7d\x7d, states: \x7bx: \x7b\x7d\x7d\x7d, " ++
        "b: \x7b\x7d\x7d\x7d)") []).any (fun editor =>
        ((itemsAt editor.draft (["a"], .on "E")).length = 1 &&
          (itemsAt editor.draft (["b"], .on "E")).length = 0) &&
        editor.graph.edges.all (fun edge =>
          edge.targets.map editor.graph.pathOf = [["a", "x"]] && isMarkedExternal edge) &&
        ((editor.apply
            (.addTransition ["a"] (.on "E") (some ["a", "x"]) true none)).toOption.isSome &&
          (editor.apply
            (.retargetTransition ["a"] ⟨.on "E", 0⟩ [["a", "x"], ["a"]])).toOption.isSome) &&
        ((editor.apply (.reanchorTransition ["a"] ⟨.on "E", 0⟩ ["b"])).toOption.isSome &&
          (editor.apply
            (.markTransitionExternal ["a"] ⟨.on "E", 0⟩ false)).toOption.isSome)) = true := by
    decide +kernel
  obtain ⟨editor, heditor, h⟩ := (Option.any_eq_true _ _).1 hfound
  simp only [Bool.and_eq_true, decide_eq_true_eq, List.all_eq_true, Option.isSome_iff_exists] at h
  obtain ⟨⟨⟨⟨hslot, hslot'⟩, hedges⟩, ⟨added, hadded⟩, retargeted, hretargeted⟩, ⟨moved, hmoved⟩,
    marked, hmarked⟩ := h
  obtain ⟨hadd, hretarget, hreanchor, hmark⟩ := flags_follow (reached_of_ofText? heditor).current
  have hadded := eq_ok_of_toOption hadded
  have hretargeted := eq_ok_of_toOption hretargeted
  have hmoved := eq_ok_of_toOption hmoved
  have hmarked := eq_ok_of_toOption hmarked
  refine ⟨editor, heditor, ⟨added, hadded, ?_⟩, ⟨retargeted, hretargeted, ?_⟩, ⟨moved, hmoved, ?_⟩,
    marked, hmarked, ?_⟩
  · rw [← hslot]
    exact hadd _ _ _ _ _ _ hadded
  · obtain ⟨edge, hedge, -, hflag⟩ := hretarget _ _ _ _ hretargeted
    rwa [(hedges edge hedge).2] at hflag
  · obtain ⟨edge, hedge, -, hflag⟩ := hreanchor _ _ _ _ (by decide) hmoved
    obtain ⟨htargets, hexternal⟩ := hedges edge hedge
    rwa [hexternal, htargets, hslot'] at hflag
  · obtain ⟨edge, hedge, -, hflag⟩ := hmark _ _ _ _ hmarked
    exact hflag

end Editor

end Statechart
