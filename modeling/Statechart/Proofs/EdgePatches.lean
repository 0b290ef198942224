import Statechart.Proofs.EdgesInStep

/-!
# Patches of edges

Adding and removing edges, and giving them another source, slot, flag or other targets, keeps
handles and draft in step, in any order and any number. In the draft a slot loses its brackets or
gets them, a key is renamed in its place, an emptied map goes and comes back, while the handles only
count; but both do the same to the lists of items.

* `Patch.isEdgePatch`, `Patch.rewrites`: patches of edges, and those that write one anew;
* `Session.Carries`: handles go on standing for their transitions;
* `Session.StaysInStep`: patches lead from a session to one that is in step, with the same handles;
* `Session.InStep.addEdge`, `Session.InStep.removeEdge`, `Session.InStep.replaceEdgeSource`,
  `Session.InStep.replaceEdgeTargets`, `Session.InStep.replaceEdgeSlot`,
  `Session.InStep.replaceEdgeInternal`: what each kind of patch keeps;
* `Session.InStep.applyOne`, `Session.InStep.apply`, `Session.InStep.reaches`: what patches, batches
  and runs of them keep;
* `Session.edges_in_step`: handles lead to the edges of the graph, and to the same transitions.
-/

namespace Statechart

open Property Draft

namespace Patch

/-- Whether a patch adds, removes or changes an edge. -/
def isEdgePatch : Patch → Bool
  | addEdge .. | removeEdge .. | replaceEdgeSource .. | replaceEdgeTargets .. | replaceEdgeSlot ..
  | replaceEdgeInternal .. => true
  | _ => false

/-- Whether a patch writes the targets or the flag of an edge anew. -/
def rewrites (id : EdgeId) : Patch → Bool
  | replaceEdgeSource edge _ | replaceEdgeTargets edge _ | replaceEdgeInternal edge _ => edge == id
  | _ => false

end Patch

namespace Session

variable {session : Session}

/-! ## Handles across patches -/

/-- What patches make of the handles: those that are not removed go on standing for their
    transitions. -/
def Carries (before after : Session) (patches : List Patch) : Prop :=
  ∀ id item, before.Denotes id item → .removeEdge id ∉ patches →
    ∃ item', after.Denotes id item' ∧ SameBody item item' ∧
      ((∀ patch ∈ patches, patch.rewrites id = false) → item' = item)

theorem Carries.refl (session : Session) : session.Carries session [] :=
  fun _ item hitem _ => ⟨item, hitem, .refl _, fun _ => rfl⟩

theorem Carries.trans {a b c : Session} {ps qs : List Patch} (hab : a.Carries b ps)
    (hbc : b.Carries c qs) : a.Carries c (ps ++ qs) := by
  intro id item hitem hkept
  rw [List.mem_append, not_or] at hkept
  obtain ⟨item', hitem', hbody, hexact⟩ := hab id item hitem hkept.1
  obtain ⟨item'', hitem'', hbody', hexact'⟩ := hbc id item' hitem' hkept.2
  refine ⟨item'', hitem'', hbody.trans hbody', fun hwritten => ?_⟩
  rw [hexact' fun patch hpatch => hwritten patch (List.mem_append_right _ hpatch),
    hexact fun patch hpatch => hwritten patch (List.mem_append_left _ hpatch)]

theorem Carries.mono {after : Session} {ps qs : List Patch} (h : session.Carries after ps)
    (hsub : ps ⊆ qs) : session.Carries after qs := by
  intro id item hitem hkept
  obtain ⟨item', hitem', hbody, hexact⟩ := h id item hitem fun hmem => hkept (hsub hmem)
  exact ⟨item', hitem', hbody, fun hwritten => hexact fun patch hmem => hwritten patch (hsub hmem)⟩

/-- A patch that concerns one handle. -/
theorem KeepsOthers.carries {after : Session} {id : EdgeId} {patch : Patch}
    (hothers : KeepsOthers session after id)
    (hself : ∀ item, session.Denotes id item → patch ≠ .removeEdge id →
      ∃ item', after.Denotes id item' ∧ SameBody item item' ∧
        (patch.rewrites id = false → item' = item)) :
    session.Carries after [patch] := by
  intro other item hitem hkept
  by_cases hother : other = id
  · subst hother
    obtain ⟨item', hitem', hbody, hexact⟩ := hself item hitem fun heq =>
      hkept (List.mem_singleton.2 heq.symm)
    exact ⟨item', hitem', hbody, fun hwritten => hexact (hwritten _ (List.mem_singleton_self _))⟩
  · exact ⟨item, hothers other item hother hitem, .refl _, fun _ => rfl⟩

/-- Patches lead to a session that is in step, in which handles stand for what they stood for. -/
structure StaysInStep (before after : Session) (patches : List Patch) : Prop where
  inStep : after.InStep
  carries : before.Carries after patches

theorem StaysInStep.trans {a b c : Session} {ps qs : List Patch} (hab : a.StaysInStep b ps)
    (hbc : b.StaysInStep c qs) : a.StaysInStep c (ps ++ qs) :=
  ⟨hbc.inStep, hab.carries.trans hbc.carries⟩

theorem StaysInStep.mono {after : Session} {ps qs : List Patch} (h : session.StaysInStep after ps)
    (hsub : ps ⊆ qs) : session.StaysInStep after qs :=
  ⟨h.inStep, h.carries.mono hsub⟩

/-! ## Patch by patch -/

theorem mem_of_transition {id : EdgeId} {address : StatePath × TransitionPath}
    (h : session.transition id = .ok address) : ∃ place, (id, place) ∈ session.model.edges ∧
      (place.source, address.1) ∈ session.model.paths ∧ address.2 = place.path := by
  obtain ⟨place, hplace, h⟩ := bind_eq_ok.1 h
  obtain ⟨path, hpath, h⟩ := bind_eq_ok.1 h
  cases h
  exact ⟨place, Model.mem_of_lookup (Model.edge_eq_ok.1 hplace),
    Model.mem_of_lookup (Model.path_eq_ok.1 hpath), rfl⟩

namespace InStep

variable (h : session.InStep)

include h

section

variable {id : EdgeId} {place : EdgePlace} {path : StatePath} {draft : Expr} {patch : Patch}
  (hplace : (id, place) ∈ session.model.edges)
  (hpath : (place.source, path) ∈ session.model.paths)
  (hsame : SamePaths session.editor.draft draft)

include hplace hpath hsame

/-- A patch that replaces the item of an edge. -/
theorem carries_replace (hwrites : patch.rewrites id = true)
    (htable : ∃ item item', (itemsAt session.editor.draft
        (path, place.path.slot))[place.path.index]? = some item ∧ isTransition item' = true ∧
      SameBody item item' ∧ itemsAt draft = (itemsAt session.editor.draft).replace
        (path, place.path.slot) place.path.index item') :
    session.StaysInStep ⟨session.editor.withDraft draft, session.model⟩ [patch] := by
  obtain ⟨item, item', hitem, hform, hbody, htable⟩ := htable
  obtain ⟨hafter, hothers, hself⟩ := h.replace hsame hplace hpath hform htable
  refine ⟨hafter, hothers.carries fun old hold _ => ⟨item', hself, ?_, fun hkept => ?_⟩⟩
  · obtain rfl := h.tracks.denotes_unique hold ⟨place, path, hplace, hpath, hitem⟩
    exact hbody
  · rw [hwrites] at hkept
    cases hkept

/-- A patch that moves the item of an edge to the end of a slot. -/
theorem carries_move {source : NodeId} {newPath : StatePath} {slot : Slot}
    (hnewPath : (source, newPath) ∈ session.model.paths)
    (htable : ∃ item item', (itemsAt session.editor.draft
        (path, place.path.slot))[place.path.index]? = some item ∧ isTransition item' = true ∧
      SameBody item item' ∧ (patch.rewrites id = false → item' = item) ∧
      itemsAt draft = ((itemsAt session.editor.draft).erase (path, place.path.slot)
        place.path.index).append (newPath, slot) item') :
    session.StaysInStep ⟨session.editor.withDraft draft,
      (session.model.detachEdge id place).attachEdge id source slot⟩ [patch] := by
  obtain ⟨item, item', hitem, hform, hbody, hexact, htable⟩ := htable
  obtain ⟨hafter, hothers, hself⟩ := h.moveEdge hsame hplace hpath hnewPath hform htable
  refine ⟨hafter, hothers.carries fun old hold _ => ?_⟩
  obtain rfl := h.tracks.denotes_unique hold ⟨place, path, hplace, hpath, hitem⟩
  exact ⟨item', hself, hbody, hexact⟩

end

theorem stay (patches : List Patch) : session.StaysInStep session patches :=
  ⟨h, (Carries.refl session).mono (List.nil_subset _)⟩

/-- A step is refused and changes nothing, or it changes draft and places. -/
theorem runSteps_singleton {kind : String} {edit : Edit} {model : Model} {patches : List Patch}
    (hmade : ∀ draft, session.editor.revise edit = .ok draft →
      session.StaysInStep ⟨session.editor.withDraft draft, model⟩ patches) :
    session.StaysInStep (runSteps kind session [(edit, model)]).after patches := by
  rw [runSteps]
  cases happly : session.editor.apply edit with
  | error cause => exact h.stay _
  | ok editor =>
    obtain ⟨draft, hdraft, rfl⟩ := Editor.exists_of_apply happly
    exact hmade draft hdraft

section

variable (kind : String) {steps : List PatchStep} {id : EdgeId}

theorem removeEdge (hsteps : session.stepsOf (.removeEdge id) = .ok steps) :
    session.StaysInStep (runSteps kind session steps).after [.removeEdge id] := by
  obtain ⟨place, hplace, hsteps⟩ := bind_eq_ok.1 hsteps
  obtain ⟨path, hpath, hsteps⟩ := bind_eq_ok.1 hsteps
  cases hsteps
  refine h.runSteps_singleton fun draft hdraft => ?_
  obtain ⟨hafter, hothers⟩ := h.detachEdge (Editor.samePaths_revise rfl hdraft)
    (Model.mem_of_lookup (Model.edge_eq_ok.1 hplace))
    (Model.mem_of_lookup (Model.path_eq_ok.1 hpath))
    (Editor.itemsAt_removeTransition h.transitions hdraft)
  exact ⟨hafter, hothers.carries fun _ _ hkept => absurd rfl hkept⟩

theorem replaceEdgeTargets {targets : List NodeId}
    (hsteps : session.stepsOf (.replaceEdgeTargets id targets) = .ok steps) :
    session.StaysInStep (runSteps kind session steps).after [.replaceEdgeTargets id targets] := by
  obtain ⟨⟨path, transition⟩, htransition, hsteps⟩ := bind_eq_ok.1 hsteps
  obtain ⟨paths, -, hsteps⟩ := bind_eq_ok.1 hsteps
  cases hsteps
  obtain ⟨place, hplace, hpath, rfl⟩ := mem_of_transition htransition
  refine h.runSteps_singleton fun draft hdraft => ?_
  exact h.carries_replace hplace hpath (Editor.samePaths_revise rfl hdraft) (beq_self_eq_true id)
    (Editor.itemsAt_retargetTransition hdraft)

theorem replaceEdgeInternal {internal : Option Bool}
    (hsteps : session.stepsOf (.replaceEdgeInternal id internal) = .ok steps) :
    session.StaysInStep (runSteps kind session steps).after [.replaceEdgeInternal id internal] := by
  obtain ⟨⟨path, transition⟩, htransition, hsteps⟩ := bind_eq_ok.1 hsteps
  cases hsteps
  obtain ⟨place, hplace, hpath, rfl⟩ := mem_of_transition htransition
  refine h.runSteps_singleton fun draft hdraft => ?_
  exact h.carries_replace hplace hpath (Editor.samePaths_revise rfl hdraft) (beq_self_eq_true id)
    (Editor.itemsAt_markTransitionExternal h.transitions hdraft)

theorem replaceEdgeSource {source : NodeId}
    (hsteps : session.stepsOf (.replaceEdgeSource id source) = .ok steps) :
    session.StaysInStep (runSteps kind session steps).after [.replaceEdgeSource id source] := by
  obtain ⟨place, hplace, hsteps⟩ := bind_eq_ok.1 hsteps
  split at hsteps
  · cases hsteps
    exact h.stay _
  next hne =>
  obtain ⟨old, hold, hsteps⟩ := bind_eq_ok.1 hsteps
  obtain ⟨new, hnew, hsteps⟩ := bind_eq_ok.1 hsteps
  cases hsteps
  have hold := Model.mem_of_lookup (Model.path_eq_ok.1 hold)
  have hnew := Model.mem_of_lookup (Model.path_eq_ok.1 hnew)
  refine h.runSteps_singleton fun draft hdraft => ?_
  refine h.carries_move (Model.mem_of_lookup (Model.edge_eq_ok.1 hplace)) hold
    (Editor.samePaths_revise rfl hdraft) hnew ?_
  -- Two nodes are not at one path, so that the edit does not take the new source for the old.
  have hnodes : ∀ node, session.editor.node old = .ok node →
      session.editor.node new ≠ .ok node := by
    intro node hnode hnode'
    have heq := (h.current.at_of_node hnode).path_unique (h.current.at_of_node hnode')
    exact hne (h.tracks.node_eq hold (heq ▸ hnew))
  obtain ⟨item, item', hitem, hform, hbody, htable⟩ :=
    Editor.itemsAt_reanchorTransition h.transitions hdraft hnodes
  refine ⟨item, item', hitem, hform, hbody, fun hkept => ?_, htable⟩
  rw [Patch.rewrites, beq_self_eq_true] at hkept
  cases hkept

theorem replaceEdgeSlot {slot : Slot}
    (hsteps : session.stepsOf (.replaceEdgeSlot id slot) = .ok steps) :
    session.StaysInStep (runSteps kind session steps).after [.replaceEdgeSlot id slot] := by
  obtain ⟨place, hplace, hsteps⟩ := bind_eq_ok.1 hsteps
  split at hsteps
  · cases hsteps
    exact h.stay _
  next hne =>
  obtain ⟨path, hpath, hsteps⟩ := bind_eq_ok.1 hsteps
  cases hsteps
  have hpath := Model.mem_of_lookup (Model.path_eq_ok.1 hpath)
  refine h.runSteps_singleton fun draft hdraft => ?_
  refine h.carries_move (Model.mem_of_lookup (Model.edge_eq_ok.1 hplace)) hpath
    (Editor.samePaths_revise rfl hdraft) hpath ?_
  obtain ⟨item, hitem, htable⟩ :=
    Editor.itemsAt_changeTransitionEvent h.transitions (Ne.symm hne) hdraft
  exact ⟨item, item, hitem, h.transitions _ _ (List.mem_of_getElem? hitem), .refl _,
    fun _ => rfl, htable⟩

/-- An edge with several targets is added with the first, and then given all of them. It has its
    place even if the latter is refused. -/
theorem addEdge {source : NodeId} {targets : List NodeId} {slot : Slot} {internal : Option Bool}
    (hsteps : session.stepsOf (.addEdge id source targets slot internal) = .ok steps) :
    session.StaysInStep (runSteps kind session steps).after
      [.addEdge id source targets slot internal] := by
  obtain ⟨hfree, path, paths, hpath, -, rfl⟩ := addEdge_eq_ok.1 hsteps
  have hpath := Model.mem_of_lookup (Model.path_eq_ok.1 hpath)
  -- The handle is new, so that only the others are there to be kept.
  have hcarries {after : Session} (hothers : KeepsOthers session after id) :
      session.Carries after [.addEdge id source targets slot internal] := by
    refine hothers.carries ?_
    rintro item ⟨place, -, hplace, -⟩
    rw [Model.hasEdge_iff_mem.2 ⟨place, hplace⟩] at hfree
    cases hfree
  rw [runSteps]
  cases happly : session.editor.apply
      (.addTransition path slot paths.head? (internal == some false) none) with
  | error cause => exact h.stay _
  | ok editor =>
    obtain ⟨draft, hdraft, rfl⟩ := Editor.exists_of_apply happly
    obtain ⟨item, hform, htable⟩ := Editor.itemsAt_addTransition hdraft
    obtain ⟨hadded, hothers⟩ := h.attachEdge (Editor.samePaths_revise rfl hdraft) hfree hpath
      hform htable
    dsimp only
    split
    · rw [runSteps]
      cases happly' : (session.editor.withDraft draft).apply
          (.retargetTransition path (session.model.slotEnd source slot) paths) with
      | error cause => exact ⟨hadded, hcarries hothers⟩
      | ok editor' =>
        obtain ⟨draft', hdraft', rfl⟩ := Editor.exists_of_apply happly'
        obtain ⟨_, _, -, hform', -, htable'⟩ := Editor.itemsAt_retargetTransition hdraft'
        obtain ⟨hretargeted, hothers', -⟩ := hadded.replace (Editor.samePaths_revise rfl hdraft')
          (List.mem_append_right _ (List.mem_singleton_self _)) hpath hform' htable'
        exact ⟨hretargeted, hcarries (hothers.trans hothers')⟩
    · exact ⟨hadded, hcarries hothers⟩

end

/-! ## Runs -/

/-- A patch of an edge keeps handles and draft in step. -/
theorem applyOne {patch : Patch} (hedge : patch.isEdgePatch = true) :
    session.StaysInStep (session.applyOne patch).after [patch] := by
  rw [Session.applyOne]
  cases hsteps : session.stepsOf patch with
  | error e => exact h.stay _
  | ok steps =>
    cases patch with
    | addEdge => exact h.addEdge _ hsteps
    | removeEdge => exact h.removeEdge _ hsteps
    | replaceEdgeSource => exact h.replaceEdgeSource _ hsteps
    | replaceEdgeTargets => exact h.replaceEdgeTargets _ hsteps
    | replaceEdgeSlot => exact h.replaceEdgeSlot _ hsteps
    | replaceEdgeInternal => exact h.replaceEdgeInternal _ hsteps
    | _ => cases hedge

omit h in
theorem applyInOrder (h : session.InStep) {patches : List Patch}
    (hedges : ∀ patch ∈ patches, patch.isEdgePatch = true) :
    session.StaysInStep (session.applyInOrder patches).after patches := by
  induction patches generalizing session with
  | nil => exact h.stay _
  | cons patch rest ih =>
    rw [List.forall_mem_cons] at hedges
    have hfirst := h.applyOne hedges.1
    rw [Session.applyInOrder]
    cases (session.applyOne patch).edits with
    | error e => exact hfirst.mono (by simp)
    | ok edits => exact hfirst.trans (ih hfirst.inStep hedges.2)

/-- A batch of patches of edges keeps handles and draft in step. -/
theorem apply {patches : List Patch} (hedges : ∀ patch ∈ patches, patch.isEdgePatch = true) :
    session.StaysInStep (session.apply patches).after patches := by
  rw [Session.apply]
  cases session.model.depthsOfAdded patches with
  | error e => exact h.stay _
  | ok added =>
    have hordered : ∀ patch ∈ Patch.canonicalOrder (session.depth added) patches,
        patch.isEdgePatch = true := fun patch hpatch =>
      hedges patch (Patch.mem_canonicalOrder.1 hpatch)
    exact (h.applyInOrder hordered).mono fun _ => Patch.mem_canonicalOrder.1

end InStep

/-- Batches of patches lead from a session to another, whether they are made or refused. -/
inductive Reaches (session : Session) : List Patch → Session → Prop
  | refl : Reaches session [] session
  | apply {patches : List Patch} {later : Session} (batch : List Patch) :
      Reaches session patches later →
      Reaches session (patches ++ batch) (later.apply batch).after

theorem InStep.reaches (h : session.InStep) {patches : List Patch} {later : Session}
    (hreached : session.Reaches patches later)
    (hedges : ∀ patch ∈ patches, patch.isEdgePatch = true) :
    session.StaysInStep later patches := by
  induction hreached with
  | refl => exact h.stay _
  | apply batch _ ih =>
    rw [List.forall_mem_append] at hedges
    have hlater := ih hedges.1
    exact hlater.trans (hlater.inStep.apply hedges.2)

/-- A patch of an edge is a batch of its own. -/
theorem reaches_applyOne (session : Session) {patch : Patch} (hedge : patch.isEdgePatch = true) :
    session.Reaches [patch] (session.applyOne patch).after := by
  have hdepths : session.model.depthsOfAdded [patch] = .ok [] := by
    cases patch with
    | addEdge | removeEdge | replaceEdgeSource | replaceEdgeTargets | replaceEdgeSlot
    | replaceEdgeInternal => rfl
    | _ => cases hedge
  have horder : Patch.canonicalOrder (session.depth []) [patch] = [patch] :=
    Patch.canonicalOrder_eq_of_pairwise (List.nodup_singleton _) (List.pairwise_singleton _ _)
      fun _ => Iff.rfl
  have happly : (session.apply [patch]).after = (session.applyOne patch).after := by
    rw [Session.apply, hdepths]
    dsimp only
    rw [horder, applyInOrder]
    cases (session.applyOne patch).edits <;> rfl
  rw [← happly]
  exact .apply [patch] .refl

/-- Handles of edges stay in step with the draft through patches of edges, if every entry of every
    slot was an edge at the start. The handles that are known lead to the edges of the graph, one to
    each, and one that is not removed goes on leading to the transition that it led to. That keeps
    all that it says besides its targets and its flag, and these too unless a patch changes them. -/
theorem edges_in_step (text : String) (machine : Source.Machine) (settings : Settings)
    (hall : (Editor.ofMachine text machine settings).ExtractsAll) {patches more : List Patch}
    {session later : Session}
    (hreached : (ofEditor (.ofMachine text machine settings)).Reaches patches session)
    (hlater : session.Reaches more later)
    (hedges : ∀ patch ∈ patches ++ more, patch.isEdgePatch = true) :
    Set.BijOn later.edgeOf? {id | later.model.hasEdge id = true}
        {found | ∃ edge ∈ later.editor.graph.edges, found = some edge} ∧
      ∀ id, session.model.hasEdge id = true → .removeEdge id ∉ more →
        ∃ item item', session.formOf? id = some item ∧ later.formOf? id = some item' ∧
          SameBody item item' ∧
          ((∀ patch ∈ more, patch.rewrites id = false) → item' = item) := by
  rw [List.forall_mem_append] at hedges
  have hstart := inStep_ofEditor (Editor.current_ofMachine text machine settings) hall
  obtain ⟨hsession, -⟩ := hstart.reaches hreached hedges.1
  obtain ⟨hend, hcarries⟩ := hsession.reaches hlater hedges.2
  refine ⟨hend.bijOn_edgeOf?, fun id hid hkept => ?_⟩
  obtain ⟨item, hitem⟩ := hsession.tracks.exists_denotes hid
  obtain ⟨item', hitem', hbody, hexact⟩ := hcarries id item hitem hkept
  exact ⟨item, item', hsession.formOf?_eq_some_iff.2 hitem, hend.formOf?_eq_some_iff.2 hitem',
    hbody, hexact⟩

/-- A machine with a state that has two transitions for one event, the second with a guard. -/
def guardedText : String :=
  "createMachine(\x7bstates: \x7b
    a: \x7bon: \x7bGO: ['b', \x7btarget: 'b', guard: 'ready'\x7d]\x7d\x7d,
    b: \x7b\x7d\x7d\x7d)"

/-- The first of the two transitions is moved to another event, and then the second, which is now
    alone, to another state. -/
theorem edges_in_step_guarded : ∃ machine session later,
    (Source.machines .typescript .standard guardedText)[0]? = some machine ∧
    (ofEditor (.ofMachine guardedText machine {})).Reaches [.replaceEdgeSlot 0 (.on "STOP")]
      session ∧
    session.model.edges = [(1, ⟨1, ⟨.on "GO", 0⟩⟩), (0, ⟨1, ⟨.on "STOP", 0⟩⟩)] ∧
    session.Reaches [.replaceEdgeSource 1 2] later ∧
    later.model.edges = [(0, ⟨1, ⟨.on "STOP", 0⟩⟩), (1, ⟨2, ⟨.on "GO", 0⟩⟩)] ∧
    Set.BijOn later.edgeOf? {id | later.model.hasEdge id = true}
      {found | ∃ edge ∈ later.editor.graph.edges, found = some edge} ∧
    ∃ item item', session.formOf? 1 = some item ∧ later.formOf? 1 = some item' ∧
      SameBody item item' := by
  have hfound : ((Source.machines .typescript .standard guardedText)[0]?).any (fun machine =>
      let first := ((ofEditor (.ofMachine guardedText machine {})).applyOne
        (.replaceEdgeSlot 0 (.on "STOP"))).after
      let second := (first.applyOne (.replaceEdgeSource 1 2)).after
      (Editor.ofMachine guardedText machine {}).extraction.problems.all
          (·.kind ≠ .transitionProperty) &&
        (first.model.edges = [(1, ⟨1, ⟨.on "GO", 0⟩⟩), (0, ⟨1, ⟨.on "STOP", 0⟩⟩)] &&
          second.model.edges = [(0, ⟨1, ⟨.on "STOP", 0⟩⟩), (1, ⟨2, ⟨.on "GO", 0⟩⟩)])) = true := by
    decide +kernel
  obtain ⟨machine, hmachine, h⟩ := (Option.any_eq_true _ _).1 hfound
  simp only [Bool.and_eq_true, decide_eq_true_eq, List.all_eq_true] at h
  obtain ⟨hproblems, hfirst, hsecond⟩ := h
  have hmoved := reaches_applyOne (ofEditor (.ofMachine guardedText machine {}))
    (show (Patch.replaceEdgeSlot 0 (.on "STOP")).isEdgePatch = true from rfl)
  have hmoved' := reaches_applyOne ((ofEditor (.ofMachine guardedText machine {})).applyOne
    (.replaceEdgeSlot 0 (.on "STOP"))).after
    (show (Patch.replaceEdgeSource 1 2).isEdgePatch = true from rfl)
  obtain ⟨hbij, hforms⟩ := edges_in_step guardedText machine {}
    ((Editor.current_ofMachine _ _ _).extractsAll_of_problems hproblems) hmoved hmoved' (by decide)
  obtain ⟨item, item', hitem, hitem', hbody, -⟩ := hforms 1
    (Model.hasEdge_iff_mem.2 ⟨_, hfirst ▸ List.mem_cons_self⟩) (by decide)
  exact ⟨machine, _, _, hmachine, hmoved, hfirst, hmoved', hsecond, hbij, item, item', hitem,
    hitem', hbody⟩

end Session

end Statechart
