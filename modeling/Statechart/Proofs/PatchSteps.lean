import Statechart.Proofs.PatchChanges

/-!
# What patches amount to

A patch looks up the handles that it uses, one after the other, and then has one step or two, or
none. Each kind of patch is taken through its lookups once: what it makes of the places is a change
that it can make, and if a lookup fails, the patch uses a handle that is not live.

* `Session.Needs`, `Session.Finds`: handles that a patch needs, and lookups of them;
* `Session.AmountsTo`: what is to come of the lookups of a patch, with a rule for each way to put
  them together;
* `Session.amountsTo_stepsOf`: every patch amounts to what it should;
* `Session.change_applyOne`: a patch that is made, or refused half-way, has made a change;
* `Session.Reachable`: sessions that batches lead to, whether made or refused;
* `Session.Reachable.sourcesKnown`: the edges of such a session start at known nodes.
-/

namespace Statechart.Session

variable {session : Session} {patch : Patch}

/-! ## Lookups -/

section

variable (session patch)

/-- A patch cannot do without a handle: if that is not known, it uses one that is not live. -/
def Needs (handle : Handle) : Prop :=
  session.model.SourcesKnown → session.model.knows handle = false →
    ∃ used ∈ patch.uses, ¬session.model.Live used

/-- A lookup for a patch fails only if the patch uses a handle that is not live. -/
def Finds {α : Type} (lookup : Patched α) : Prop :=
  session.model.SourcesKnown → ∀ e, lookup = .error e →
    ∃ used ∈ patch.uses, ¬session.model.Live used

/-- What a patch amounts to: steps that are changes it can make, or an error. If that is about an
    unknown handle, the patch uses one that is not live. -/
structure AmountsTo (result : Patched (List PatchStep)) : Prop where
  change : ∀ steps, result = .ok steps → ∀ step ∈ steps, session.model.Change patch step.2
  refused : session.model.SourcesKnown → ∀ e, result = .error e → e.isUnknown = true →
    ∃ used ∈ patch.uses, ¬session.model.Live used

end

theorem needs_of_mem {handle : Handle} (h : handle ∈ patch.uses) : session.Needs patch handle :=
  fun _ hunknown => ⟨handle, h, fun hlive => by simp [hlive.1] at hunknown⟩

/-- The source of an edge is known. -/
theorem needs_source {edge : EdgeId} {place : EdgePlace}
    (hplace : session.model.edge edge = .ok place) : session.Needs patch (.node place.source) := by
  intro hsources hunknown
  have hsource := hsources _ _ (Model.mem_of_lookup (Model.edge_eq_ok.1 hplace))
  exact absurd hunknown (by simp [Model.knows, hsource])

/-- A block is live only if its owner is known. -/
theorem needs_owner {block : BlockId} {place : BlockPlace} (hblock : .block block ∈ patch.uses)
    (hplace : session.model.block block = .ok place) :
    session.Needs patch place.owner.handle := by
  refine fun _ hunknown => ⟨_, hblock, fun hlive => ?_⟩
  have howner := hlive.2 place.owner.handle
    (by rw [Model.ownerOf?, Model.block_eq_ok.1 hplace]; rfl)
  simp [howner] at hunknown

theorem Finds.bind {α β : Type} {lookup : Patched α} {f : α → Patched β}
    (h : session.Finds patch lookup) (hf : ∀ a, lookup = .ok a → session.Finds patch (f a)) :
    session.Finds patch (lookup >>= f) := by
  intro hsources e he
  rcases bind_eq_error.1 he with he | ⟨a, ha, he⟩
  · exact h hsources e he
  · exact hf a ha hsources e he

theorem Finds.pure {α : Type} (a : α) : session.Finds patch (pure a) :=
  fun _ _ he => nomatch he

theorem finds_path {id : NodeId} (h : session.Needs patch (.node id)) :
    session.Finds patch (session.model.path id) := by
  refine fun hsources e he => h hsources ?_
  rw [Model.knows, ← Bool.not_eq_true, Model.hasNode_iff]
  rintro ⟨path, hpath⟩
  rw [hpath] at he
  cases he

theorem finds_edge {id : EdgeId} (h : session.Needs patch (.edge id)) :
    session.Finds patch (session.model.edge id) := by
  refine fun hsources e he => h hsources ?_
  rw [Model.knows, ← Bool.not_eq_true, Model.hasEdge_iff]
  rintro ⟨place, hplace⟩
  rw [hplace] at he
  cases he

theorem finds_block {id : BlockId} (h : session.Needs patch (.block id)) :
    session.Finds patch (session.model.block id) := by
  intro hsources e he
  refine h hsources ?_
  rw [Model.knows, Model.hasBlock]
  cases hplace : session.model.blocks.lookup id with
  | none => rfl
  | some place => rw [Model.block_eq_ok.2 hplace] at he; cases he

theorem finds_targets {targets : List NodeId}
    (h : ∀ target ∈ targets, session.Needs patch (.node target)) :
    session.Finds patch (targets.mapM session.model.path) := by
  induction targets with
  | nil => exact .pure []
  | cons target targets ih =>
    obtain ⟨hfirst, hrest⟩ := List.forall_mem_cons.1 h
    rw [List.mapM_cons]
    exact (finds_path hfirst).bind fun _ _ => (ih hrest).bind fun _ _ => .pure _

theorem finds_transition {edge : EdgeId} (h : session.Needs patch (.edge edge)) :
    session.Finds patch (session.transition edge) :=
  (finds_edge h).bind fun _ hplace => (finds_path (needs_source hplace)).bind fun _ _ => .pure _

theorem finds_actionList {owner : BlockOwner} (h : session.Needs patch owner.handle) :
    session.Finds patch (session.actionList? owner) := by
  cases owner with
  | entry node | exit node => exact (finds_path h).bind fun _ _ => .pure _
  | actions edge =>
    exact (finds_edge h).bind fun _ hplace =>
      (finds_path (needs_source hplace)).bind fun _ _ => .pure _
  | invoke node | guard edge => exact .pure none

/-! ## Putting lookups together -/

namespace AmountsTo

theorem steps {steps : List PatchStep}
    (h : ∀ step ∈ steps, session.model.Change patch step.2) :
    session.AmountsTo patch (.ok steps) where
  change _ heq := by cases heq; exact h
  refused _ _ heq := nomatch heq

theorem step {edit : Edit} {after : Model} (h : session.model.Change patch after) :
    session.AmountsTo patch (.ok [(edit, after)]) :=
  .steps fun step hstep => by rwa [List.mem_singleton.1 hstep]

theorem taken (e : PatchError) (h : e.isUnknown = false) : session.AmountsTo patch (.error e) where
  change _ heq := nomatch heq
  refused _ _ heq hunknown := by cases heq; rw [h] at hunknown; cases hunknown

theorem bind {α : Type} {lookup : Patched α} {f : α → Patched (List PatchStep)}
    (h : session.Finds patch lookup) (hf : ∀ a, lookup = .ok a → session.AmountsTo patch (f a)) :
    session.AmountsTo patch (lookup >>= f) where
  change steps heq := by
    obtain ⟨a, ha, heq⟩ := bind_eq_ok.1 heq
    exact (hf a ha).change steps heq
  refused hsources e heq hunknown := by
    rcases bind_eq_error.1 heq with heq | ⟨a, ha, heq⟩
    · exact h hsources e heq
    · exact (hf a ha).refused hsources e heq hunknown

end AmountsTo

/-! ## Kinds of patches -/

theorem amountsTo_addNode (node parent : NodeId) (key : String) :
    session.AmountsTo (.addNode node parent key) (session.addNode node parent key) := by
  unfold addNode
  cases hfree : session.model.hasNode node with
  | true => exact .taken (.duplicateNode node) rfl
  | false =>
    simp only [Bool.false_eq_true, if_false]
    exact .bind (finds_path (needs_of_mem List.mem_cons_self)) fun path _ =>
      .step (.addNode _ hfree)

theorem amountsTo_addEdge (edge : EdgeId) (source : NodeId) (targets : List NodeId) (slot : Slot)
    (internal : Option Bool) : session.AmountsTo (.addEdge edge source targets slot internal)
      (session.addEdge edge source targets slot internal) := by
  unfold addEdge
  cases hfree : session.model.hasEdge edge with
  | true => simpa only [hfree] using .taken (.duplicateEdge edge) rfl
  | false =>
    simp only [hfree, Bool.false_eq_true, if_false]
    refine .bind (finds_path (needs_of_mem List.mem_cons_self)) fun state hstate =>
      .bind (finds_targets fun target htarget => needs_of_mem ?_) fun paths _ => .steps ?_
    · exact List.mem_cons_of_mem _ (List.mem_map_of_mem htarget)
    · have hchange : session.model.Change (.addEdge edge source targets slot internal)
          (session.model.attachEdge edge source slot) :=
        .addEdge hfree (Model.hasNode_iff.2 ⟨state, hstate⟩)
      split <;> simpa using hchange

theorem amountsTo_addBlock (block : BlockId) (owner : BlockOwner) (index : Option Nat)
    (sourceId : String) : session.AmountsTo (.addBlock block owner index sourceId)
      (session.addBlock block owner index sourceId) := by
  have howner : session.Needs (.addBlock block owner index sourceId) owner.handle :=
    needs_of_mem List.mem_cons_self
  unfold addBlock
  cases hfree : session.model.hasBlock block with
  | true => simpa only [hfree] using .taken (.duplicateBlock block) rfl
  | false =>
    simp only [hfree, Bool.false_eq_true, if_false]
    cases owner with
    | invoke node => exact .bind (finds_path howner) fun _ _ => .step (.addBlock _ hfree)
    | guard edge => exact .bind (finds_transition howner) fun _ _ => .step (.addBlock _ hfree)
    | entry node | exit node | actions edge =>
      refine .bind (finds_actionList howner) fun list _ => ?_
      cases list with
      | none => exact .steps fun _ hstep => nomatch hstep
      | some list => exact .step (.addBlock _ hfree)

theorem amountsTo_removeBlock (block : BlockId) :
    session.AmountsTo (.removeBlock block) (session.removeBlock block) := by
  refine .bind (finds_block (needs_of_mem List.mem_cons_self)) fun place hplace => ?_
  -- Where the owner is not known, the block is not live.
  have howner : session.Needs (.removeBlock block) place.owner.handle :=
    needs_owner List.mem_cons_self hplace
  have hchange : session.model.Change (.removeBlock block)
      (session.model.detachBlock block place) := .removeBlock place
  cases heq : place.owner with
  | invoke node =>
    rw [heq] at howner
    exact .bind (finds_path howner) fun _ _ => .step hchange
  | guard edge =>
    rw [heq] at howner
    exact .bind (finds_transition howner) fun _ _ => .step hchange
  | entry node | exit node | actions edge =>
    rw [heq] at howner
    refine .bind (finds_actionList howner) fun list _ => .steps fun step hstep => ?_
    obtain ⟨_, -, rfl⟩ := List.mem_map.1 hstep
    exact hchange

theorem amountsTo_replaceBlockSource (block : BlockId) (sourceId : String) :
    session.AmountsTo (.replaceBlockSource block sourceId)
      (session.replaceBlockSource block sourceId) := by
  refine .bind (finds_block (needs_of_mem List.mem_cons_self)) fun place hplace => ?_
  have howner : session.Needs (.replaceBlockSource block sourceId) place.owner.handle :=
    needs_owner List.mem_cons_self hplace
  cases heq : place.owner with
  | invoke node =>
    rw [heq] at howner
    exact .bind (finds_path howner) fun _ _ => .step (.stay rfl)
  | guard edge =>
    rw [heq] at howner
    exact .bind (finds_transition howner) fun _ _ => .step (.stay rfl)
  | entry node | exit node | actions edge =>
    rw [heq] at howner
    refine .bind (finds_actionList howner) fun list _ => .steps fun step hstep => ?_
    obtain ⟨_, -, rfl⟩ := List.mem_map.1 hstep
    exact .stay rfl

theorem amountsTo_replaceEdgeSource (edge : EdgeId) (source : NodeId) :
    session.AmountsTo (.replaceEdgeSource edge source)
      (session.stepsOf (.replaceEdgeSource edge source)) := by
  refine .bind (finds_edge (needs_of_mem List.mem_cons_self)) fun place hplace => ?_
  split
  · exact .steps fun _ hstep => nomatch hstep
  · exact .bind (finds_path (needs_source hplace)) fun _ _ =>
      .bind (finds_path (needs_of_mem (List.mem_cons_of_mem _ List.mem_cons_self))) fun new hnew =>
        .step (.moveEdge _ _ _ rfl (Model.hasNode_iff.2 ⟨new, hnew⟩))

theorem amountsTo_replaceEdgeSlot (edge : EdgeId) (slot : Slot) :
    session.AmountsTo (.replaceEdgeSlot edge slot)
      (session.stepsOf (.replaceEdgeSlot edge slot)) := by
  refine .bind (finds_edge (needs_of_mem List.mem_cons_self)) fun place hplace => ?_
  split
  · exact .steps fun _ hstep => nomatch hstep
  · exact .bind (finds_path (needs_source hplace)) fun source hsource =>
      .step (.moveEdge _ _ _ rfl (Model.hasNode_iff.2 ⟨source, hsource⟩))

/-- Every patch amounts to changes that it can make, or fails on a handle that is not live. -/
theorem amountsTo_stepsOf (session : Session) (patch : Patch) :
    session.AmountsTo patch (session.stepsOf patch) := by
  cases patch with
  | addNode node parent key => exact amountsTo_addNode node parent key
  | removeNode node =>
    exact .bind (finds_path (needs_of_mem List.mem_cons_self)) fun path _ =>
      .step (.removeNode path)
  | replaceNodeKey node key =>
    exact .bind (finds_path (needs_of_mem List.mem_cons_self)) fun path _ =>
      .step (.moveNode _ _ rfl rfl)
  | replaceNodeParent node parent =>
    -- Two handles are used, so that either may be the one that is missing.
    exact .bind (finds_path (needs_of_mem List.mem_cons_self)) fun path _ =>
      .bind (finds_path (needs_of_mem (List.mem_cons_of_mem _ List.mem_cons_self))) fun _ _ =>
        .step (.moveNode _ _ rfl rfl)
  | replaceNodeInitial node | replaceNodeType node | replaceNodeId node =>
    exact .bind (finds_path (needs_of_mem List.mem_cons_self)) fun _ _ => .step (.stay rfl)
  | replaceDescription owner description =>
    cases owner with
    | node node =>
      exact .bind (finds_path (needs_of_mem List.mem_cons_self)) fun _ _ => .step (.stay rfl)
    | edge edge =>
      exact .bind (finds_transition (needs_of_mem List.mem_cons_self)) fun _ _ => .step (.stay rfl)
  | addEdge edge source targets slot internal =>
    exact amountsTo_addEdge edge source targets slot internal
  | removeEdge edge =>
    -- The path of its source is looked up too, and is there where sources are known.
    exact .bind (finds_edge (needs_of_mem List.mem_cons_self)) fun place hplace =>
      .bind (finds_path (needs_source hplace)) fun _ _ => .step (.removeEdge place)
  | replaceEdgeSource edge source => exact amountsTo_replaceEdgeSource edge source
  | replaceEdgeTargets edge targets =>
    refine .bind (finds_transition (needs_of_mem List.mem_cons_self)) fun _ _ =>
      .bind (finds_targets fun target htarget => needs_of_mem ?_) fun _ _ => .step (.stay rfl)
    exact List.mem_cons_of_mem _ (List.mem_map_of_mem htarget)
  | replaceEdgeSlot edge slot => exact amountsTo_replaceEdgeSlot edge slot
  | replaceEdgeInternal edge internal =>
    exact .bind (finds_transition (needs_of_mem List.mem_cons_self)) fun _ _ => .step (.stay rfl)
  | addBlock block owner index sourceId => exact amountsTo_addBlock block owner index sourceId
  | removeBlock block => exact amountsTo_removeBlock block
  | replaceBlockSource block sourceId => exact amountsTo_replaceBlockSource block sourceId

/-! ## Patches that introduce a handle -/

/-- A patch that introduces a known handle is refused before it looks anything up. -/
theorem exists_error_of_taken {handle : Handle} (hintroduced : patch.introduces? = some handle)
    (hknown : session.model.knows handle = true) :
    ∃ e, session.stepsOf patch = .error e ∧ e.isUnknown = false := by
  cases patch with
  | addNode node parent key =>
    obtain rfl := Option.some.inj hintroduced
    have htaken : session.model.hasNode node = true := hknown
    refine ⟨.duplicateNode node, ?_, rfl⟩
    simp only [stepsOf, addNode, htaken, if_true]
    rfl
  | addEdge edge source targets slot internal =>
    obtain rfl := Option.some.inj hintroduced
    have htaken : session.model.hasEdge edge = true := hknown
    refine ⟨.duplicateEdge edge, ?_, rfl⟩
    simp only [stepsOf, addEdge, htaken, if_true]
    rfl
  | addBlock block owner index sourceId =>
    obtain rfl := Option.some.inj hintroduced
    have htaken : session.model.hasBlock block = true := hknown
    refine ⟨.duplicateBlock block, ?_, rfl⟩
    simp only [stepsOf, addBlock, htaken, if_true]
    rfl
  | _ => cases hintroduced

theorem addEdge_eq_ok {edge : EdgeId} {source : NodeId} {targets : List NodeId} {slot : Slot}
    {internal : Option Bool} {steps : List PatchStep} :
    session.addEdge edge source targets slot internal = .ok steps ↔
      session.model.hasEdge edge = false ∧ ∃ state paths,
        session.model.path source = .ok state ∧ targets.mapM session.model.path = .ok paths ∧
        steps = (Edit.addTransition state slot paths.head? (internal == some false) none,
            session.model.attachEdge edge source slot) ::
          if 1 < paths.length then
            [(Edit.retargetTransition state (session.model.slotEnd source slot) paths,
              session.model.attachEdge edge source slot)]
          else [] := by
  rw [addEdge]
  cases session.model.hasEdge edge with
  | true => simp [throw, throwThe, MonadExceptOf.throw, bind, Except.bind]
  | false =>
    simp only [Bool.false_eq_true, if_false, bind_eq_ok, true_and]
    constructor
    · rintro ⟨state, hstate, paths, hpaths, h⟩
      refine ⟨state, paths, hstate, hpaths, ?_⟩
      cases h
      split <;> rfl
    · rintro ⟨state, paths, hstate, hpaths, rfl⟩
      refine ⟨state, hstate, paths, hpaths, ?_⟩
      split <;> rfl

theorem actionList?_ne_none {owner : BlockOwner}
    (h : session.actionList? owner = .ok none) :
    ∃ id, owner = .invoke id ∨ owner = .guard id := by
  cases owner with
  | entry node | exit node =>
    obtain ⟨_, -, h⟩ := bind_eq_ok.1 h
    cases h
  | actions edge =>
    obtain ⟨_, -, h⟩ := bind_eq_ok.1 h
    obtain ⟨_, -, h⟩ := bind_eq_ok.1 h
    cases h
  | invoke node => exact ⟨node, .inl rfl⟩
  | guard edge => exact ⟨edge, .inr rfl⟩

theorem addBlock_eq_ok {block : BlockId} {owner : BlockOwner} {index : Option Nat}
    {sourceId : String} {steps : List PatchStep}
    (h : session.addBlock block owner index sourceId = .ok steps) :
    session.model.hasBlock block = false ∧ ∃ edit position,
      steps = [(edit, session.model.attachBlock block owner position)] := by
  unfold addBlock at h
  cases hfree : session.model.hasBlock block with
  | true => simp [hfree, throw, throwThe, MonadExceptOf.throw, bind, Except.bind] at h
  | false =>
    simp only [hfree, Bool.false_eq_true, if_false] at h
    refine ⟨rfl, ?_⟩
    cases owner with
    | invoke node | guard edge =>
      obtain ⟨_, -, h⟩ := bind_eq_ok.1 h
      cases h
      exact ⟨_, _, rfl⟩
    | entry node | exit node | actions edge =>
      obtain ⟨list, hlist, h⟩ := bind_eq_ok.1 h
      cases list with
      | none =>
        obtain ⟨_, howner | howner⟩ := actionList?_ne_none hlist <;> cases howner
      | some list => cases h; exact ⟨_, _, rfl⟩

/-- A patch that introduces a handle has something to do. -/
theorem ne_nil_of_stepsOf {patch : Patch} {steps : List PatchStep}
    (h : session.stepsOf patch = .ok steps) {handle : Handle}
    (hintroduced : patch.introduces? = some handle) : steps ≠ [] := by
  cases patch with
  | addNode node parent key =>
    obtain ⟨-, path, -, rfl⟩ := addNode_eq_ok.1 h
    exact List.cons_ne_nil _ _
  | addEdge edge source targets slot internal =>
    obtain ⟨-, state, paths, -, -, rfl⟩ := addEdge_eq_ok.1 h
    exact List.cons_ne_nil _ _
  | addBlock block owner index sourceId =>
    obtain ⟨-, _, position, rfl⟩ := addBlock_eq_ok h
    exact List.cons_ne_nil _ _
  | _ => cases hintroduced

/-! ## Runs -/

/-- The places after the steps of a patch are those before, or those after one of the steps;
    when all steps are made and there are some, the latter. -/
theorem model_runSteps (session : Session) (kind : String) (steps : List PatchStep) :
    ((runSteps kind session steps).after.model = session.model ∧
        ∀ edits, (runSteps kind session steps).edits = .ok edits → steps = []) ∨
      ∃ step ∈ steps, (runSteps kind session steps).after.model = step.2 := by
  induction steps generalizing session with
  | nil => exact .inl ⟨rfl, fun _ _ => rfl⟩
  | cons step steps ih =>
    obtain ⟨edit, model⟩ := step
    rw [runSteps]
    cases session.editor.apply edit with
    | error cause =>
      refine .inl ⟨rfl, fun _ h => ?_⟩
      cases h
    | ok editor =>
      rcases ih ⟨editor, model⟩ with ⟨h, -⟩ | ⟨step, hstep, h⟩
      · exact .inr ⟨_, List.mem_cons_self, h⟩
      · exact .inr ⟨step, List.mem_cons_of_mem _ hstep, h⟩

/-- A step that is refused is refused as an edit. -/
theorem error_runSteps {kind : String} {steps : List PatchStep} {e : PatchError}
    (h : (runSteps kind session steps).edits = .error e) : ∃ cause, e = .edit kind cause := by
  induction steps generalizing session with
  | nil => cases h
  | cons step steps ih =>
    obtain ⟨edit, model⟩ := step
    rw [runSteps] at h
    cases hedit : session.editor.apply edit with
    | error cause => rw [hedit] at h; cases h; exact ⟨cause, rfl⟩
    | ok editor =>
      rw [hedit] at h
      cases hrest : (runSteps kind ⟨editor, model⟩ steps).edits with
      | error e' =>
        simp only [hrest, Except.map] at h
        cases h
        exact ih hrest
      | ok edits => simp only [hrest, Except.map] at h; cases h

theorem exists_stepsOf {patch : Patch} {edits : List Edit}
    (h : (session.applyOne patch).edits = .ok edits) :
    ∃ steps, session.stepsOf patch = .ok steps := by
  rw [applyOne] at h
  cases hsteps : session.stepsOf patch with
  | error e =>
    rw [hsteps] at h
    cases h
  | ok steps => exact ⟨steps, rfl⟩

/-- A patch that is one edit is that edit and a change of the places. -/
theorem exists_of_applyOne_singleton {patch : Patch} {edit : Edit} {model : Model}
    {edits : List Edit} (hsteps : session.stepsOf patch = .ok [(edit, model)])
    (h : (session.applyOne patch).edits = .ok edits) :
    ∃ draft, session.editor.revise edit = .ok draft ∧
      (session.applyOne patch).after = ⟨session.editor.withDraft draft, model⟩ := by
  have heq : session.applyOne patch = runSteps patch.kind session [(edit, model)] := by
    rw [applyOne, hsteps]
  rw [heq, runSteps] at h ⊢
  cases happly : session.editor.apply edit with
  | error cause =>
    rw [happly] at h
    cases h
  | ok editor =>
    obtain ⟨draft, hdraft, rfl⟩ := Editor.exists_of_apply happly
    exact ⟨draft, hdraft, rfl⟩

/-- What a patch makes of the places, whether it is made or refused. -/
theorem change_applyOne (session : Session) (patch : Patch) :
    (session.applyOne patch).after.model = session.model ∨
      session.model.Change patch (session.applyOne patch).after.model := by
  rw [applyOne]
  cases hsteps : session.stepsOf patch with
  | error e => exact .inl rfl
  | ok steps =>
    rcases model_runSteps session patch.kind steps with ⟨h, -⟩ | ⟨step, hstep, h⟩
    · exact .inl h
    · refine .inr ?_
      rw [h]
      exact (amountsTo_stepsOf session patch).change steps hsteps step hstep

/-- A patch that is made and introduces a handle changes the places. -/
theorem change_of_introduces {patch : Patch} {edits : List Edit}
    (h : (session.applyOne patch).edits = .ok edits) {handle : Handle}
    (hintroduced : patch.introduces? = some handle) :
    session.model.Change patch (session.applyOne patch).after.model := by
  rw [applyOne] at h ⊢
  cases hsteps : session.stepsOf patch with
  | error e => rw [hsteps] at h; cases h
  | ok steps =>
    rw [hsteps] at h
    rcases model_runSteps session patch.kind steps with ⟨-, hnil⟩ | ⟨step, hstep, hafter⟩
    · exact absurd (hnil edits h) (ne_nil_of_stepsOf hsteps hintroduced)
    · dsimp only
      rw [hafter]
      exact (amountsTo_stepsOf session patch).change steps hsteps step hstep

theorem sourcesKnown_applyOne (hsources : session.model.SourcesKnown) (patch : Patch) :
    (session.applyOne patch).after.model.SourcesKnown := by
  rcases change_applyOne session patch with hmodel | hchange
  · rw [hmodel]
    exact hsources
  · exact hsources.change hchange

/-- Edges start at known nodes after any patches, whether made or refused. -/
theorem sourcesKnown_applyInOrder (hsources : session.model.SourcesKnown) (patches : List Patch) :
    (session.applyInOrder patches).after.model.SourcesKnown := by
  induction patches generalizing session with
  | nil => exact hsources
  | cons patch rest ih =>
    have hfirst := sourcesKnown_applyOne hsources patch
    rw [applyInOrder]
    cases (session.applyOne patch).edits with
    | error e => exact hfirst
    | ok edits => exact ih hfirst

/-- A session of a machine, after any batches, whether made or refused. -/
inductive Reachable : Session → Prop
  | ofMachine (text : String) (machine : Source.Machine) (settings : Settings) :
      Reachable (ofEditor (.ofMachine text machine settings))
  | apply {session : Session} (patches : List Patch) :
      Reachable session → Reachable (session.apply patches).after

theorem Reachable.sourcesKnown (h : session.Reachable) : session.model.SourcesKnown := by
  induction h with
  | ofMachine text machine settings =>
    exact Model.sourcesKnown_ofGraph (Editor.current_ofMachine text machine settings).wellFormed
  | @apply session patches _ ih =>
    rw [Session.apply]
    cases session.model.depthsOfAdded patches with
    | error e => exact ih
    | ok added => exact sourcesKnown_applyInOrder ih _

end Statechart.Session
