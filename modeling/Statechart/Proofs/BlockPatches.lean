import Statechart.Proofs.BlocksInStep

/-!
# Patches of the blocks of states

Adding, removing and renaming the actions and invocations of states keeps all handles with what they
lead to, in any order and any number, whatever else is written in the lists. Positions count all
that is written, and the numbers in patches count the blocks that are known: what is in between
moves along, and so do the slots that follow the end of invocations.

* `Session.isNodeBlockPatch`: patches of the blocks of states;
* `Session.Follows`: what such a patch makes of the handles;
* `Session.Anchored.addBlock`, `Session.Anchored.removeBlock`,
  `Session.Anchored.replaceBlockSource`: each kind of patch does that;
* `Session.BlockRun`: runs of such patches, among them batches;
* `Session.blocks_in_step`: every patch of a run does that.
-/

namespace Statechart

open Property Draft

/-- The handle of the block that a patch is about. -/
def Patch.block? : Patch → Option BlockId
  | addBlock block .. | removeBlock block | replaceBlockSource block _ => some block
  | _ => none

namespace Session

/-! ## What patches make of the handles -/

section

variable (session : Session)

/-- Whether a patch is about a block in a list of a state. -/
def isNodeBlockPatch : Patch → Bool
  | .addBlock _ owner _ _ => owner.node?.isSome
  | .removeBlock block | .replaceBlockSource block _ =>
    (session.model.blocks.lookup block).all (·.owner.node?.isSome)
  | _ => false

/-- Whether an edge follows the end of the invocation that a patch removes. -/
def drops (edge : EdgeId) : Patch → Bool
  | .removeBlock block =>
    (session.model.blocks.lookup block).any fun gone =>
      (session.model.edges.lookup edge).any (·.endsInvoke gone)
  | _ => false

end

/-- Where a block comes to stand that is added. An action comes before the block that has the given
    number of blocks before it, which moves down. If there is none, or no number is given, the
    action comes to the end, as invocations do. -/
def Lands (before after : Session) (owner : BlockOwner) (number : Option Nat) (position : Nat) :
    Prop :=
  (∃ n other, number = some n ∧ (∀ node, owner ≠ .invoke node) ∧
      before.model.countBefore owner position = n ∧
      before.model.blocks.lookup other = some ⟨owner, position⟩ ∧
      after.model.blocks.lookup other = some ⟨owner, position + 1⟩) ∨
    ((∀ n, number = some n → (∃ node, owner = .invoke node) ∨ before.model.countOf owner ≤ n) ∧
      position = (before.listOf owner).length)

/-- What a patch makes of the handle that it is about. A block that is removed takes its entry out
    of the list, from which the others are read on. -/
def Makes (before : Session) (patch : Patch) (after : Session) : Prop :=
  match patch with
  | .addBlock id owner number name => ∃ (list : NodeList) (node : NodeId) (position : Nat),
      owner = list.owner node ∧ before.Lands after owner number position ∧
      after.model.blocks.lookup id = some ⟨owner, position⟩ ∧
      after.listOf owner = (before.listOf owner).insertIdx position (list.newEntry name) ∧
      after.entryOf? id = some (list.newEntry name) ∧ after.sourceOf? id = some name
  | .removeBlock id => after.model.hasBlock id = false ∧
      ∃ gone, before.model.blocks.lookup id = some gone ∧
      ∀ left, OneOrMany.removal gone.index (before.listOf gone.owner) = some left →
        after.listOf gone.owner = left
  | .replaceBlockSource id name => after.model = before.model ∧
      ∃ (list : NodeList) (node : NodeId) (index : Nat) (entry : Expr),
      before.model.blocks.lookup id = some ⟨list.owner node, index⟩ ∧
      before.entryOf? id = some entry ∧ after.entryOf? id = some (list.repoint name entry) ∧
      after.sourceOf? id = some name
  | _ => True

/-- What a patch of a block of a state makes of all handles: those of other blocks lead to the same
    entries, and those of edges to the same transitions. With an invocation go the edges that follow
    its end, and the blocks of these. -/
structure Follows (before : Session) (patch : Patch) (after : Session) : Prop where
  edges : ∀ id, after.model.hasEdge id = (before.model.hasEdge id && !before.drops id patch)
  items : ∀ id, after.model.hasEdge id = true →
    ∃ item, before.itemOf? id = some item ∧ after.itemOf? id = some item
  blocks : ∀ id owner, patch.block? ≠ some id →
    ((after.model.blocks.lookup id).map (·.owner) = some owner ↔
      (before.model.blocks.lookup id).map (·.owner) = some owner ∧
        ∀ edge, owner.handle = .edge edge → before.drops edge patch = false)
  entries : ∀ id, patch.block? ≠ some id → after.model.hasBlock id = true →
    ∃ entry, before.entryOf? id = some entry ∧ after.entryOf? id = some entry
  self : before.Makes patch after

/-! ## The steps of patches -/

variable {session : Session} {edits : List Edit}

section

variable {list : NodeList} {node : NodeId} {id : BlockId} {number : Option Nat} {name : String}
  {index : Nat}

/-- The number of entries that are counted in a list. -/
def countAt (editor : Editor) (path : StatePath) : NodeList → Nat
  | .entry => editor.actionCount (.entry path)
  | .exit => editor.actionCount (.exit path)
  | .invoke => editor.invokeCount path

theorem countAt_eq (editor : Editor) (path : StatePath) (list : NodeList) :
    countAt editor path list = (entriesAt editor.draft path list).length := by
  rw [entriesAt, propsAt]
  cases list with
  | entry | exit =>
    rw [countAt, Editor.actionCount, Editor.stateActionCount]
    cases stateProps? editor.draft path <;> rfl
  | invoke =>
    rw [countAt, Editor.invokeCount, NodeList.entriesIn, NodeList.key_invoke]
    cases stateProps? editor.draft path <;> rfl

/-- The position that a block is added at. -/
def addedAt (session : Session) (list : NodeList) (node : NodeId) (number : Option Nat) : Nat :=
  match list with
  | .invoke => (session.listOf (list.owner node)).length
  | .entry | .exit => (number.bind (session.model.positionOfNth? (list.owner node))).getD
      (session.listOf (list.owner node)).length

theorem stepsOf_addBlock {steps : List PatchStep}
    (h : session.stepsOf (.addBlock id (list.owner node) number name) = .ok steps) :
    session.model.hasBlock id = false ∧ ∃ path, session.model.paths.lookup node = some path ∧
      steps = [(list.addition path (session.addedAt list node number) name,
        session.model.attachBlock id (list.owner node) (session.addedAt list node number))] := by
  obtain ⟨hfree, -⟩ := addBlock_eq_ok h
  refine ⟨hfree, ?_⟩
  have h : session.addBlock id (list.owner node) number name = .ok steps := h
  unfold addBlock at h
  simp only [hfree, Bool.false_eq_true, if_false] at h
  cases list with
  | entry | exit =>
    obtain ⟨found, hfound, h⟩ := bind_eq_ok.1 h
    obtain ⟨path, hpath, hfound⟩ := bind_eq_ok.1 hfound
    cases hfound
    cases h
    have hpath := Model.path_eq_ok.1 hpath
    refine ⟨path, hpath, ?_⟩
    rw [addedAt, listOf_owner, entriesOf_of_lookup hpath, ← countAt_eq]
    rfl
  | invoke =>
    obtain ⟨path, hpath, h⟩ := bind_eq_ok.1 h
    cases h
    have hpath := Model.path_eq_ok.1 hpath
    refine ⟨path, hpath, ?_⟩
    rw [addedAt, listOf_owner, entriesOf_of_lookup hpath, ← countAt_eq]
    rfl

variable (hplace : session.model.blocks.lookup id = some ⟨list.owner node, index⟩)

include hplace

theorem stepsOf_removeBlock {steps : List PatchStep}
    (h : session.stepsOf (.removeBlock id) = .ok steps) :
    ∃ path, session.model.paths.lookup node = some path ∧ steps =
      [(list.removal path index, session.model.detachBlock id ⟨list.owner node, index⟩)] := by
  obtain ⟨place, hfound, h⟩ := bind_eq_ok.1 h
  obtain rfl := Option.some.inj ((Model.block_eq_ok.1 hfound).symm.trans hplace)
  cases list with
  | entry | exit =>
    obtain ⟨found, hfound, h⟩ := bind_eq_ok.1 h
    obtain ⟨path, hpath, hfound⟩ := bind_eq_ok.1 hfound
    cases hfound
    cases h
    exact ⟨path, Model.path_eq_ok.1 hpath, rfl⟩
  | invoke =>
    obtain ⟨path, hpath, h⟩ := bind_eq_ok.1 h
    cases h
    exact ⟨path, Model.path_eq_ok.1 hpath, rfl⟩

theorem stepsOf_replaceBlockSource {steps : List PatchStep}
    (h : session.stepsOf (.replaceBlockSource id name) = .ok steps) :
    ∃ path, session.model.paths.lookup node = some path ∧
      steps = [(list.repointing path index name, session.model)] := by
  obtain ⟨place, hfound, h⟩ := bind_eq_ok.1 h
  obtain rfl := Option.some.inj ((Model.block_eq_ok.1 hfound).symm.trans hplace)
  cases list with
  | entry | exit =>
    obtain ⟨found, hfound, h⟩ := bind_eq_ok.1 h
    obtain ⟨path, hpath, hfound⟩ := bind_eq_ok.1 hfound
    cases hfound
    cases h
    exact ⟨path, Model.path_eq_ok.1 hpath, rfl⟩
  | invoke =>
    obtain ⟨path, hpath, h⟩ := bind_eq_ok.1 h
    cases h
    exact ⟨path, Model.path_eq_ok.1 hpath, rfl⟩

end

/-! ## Patch by patch -/

namespace Anchored

variable (h : session.Anchored) {list : NodeList} {node : NodeId} {id : BlockId}
  {number : Option Nat} {name : String} {index : Nat}

include h

/-- A block is added where its number among the known ones says. -/
theorem lands (editor : Editor) (hid : session.model.hasBlock id = false) :
    session.Lands ⟨editor, session.model.attachBlock id (list.owner node)
      (session.addedAt list node number)⟩ (list.owner node) number
      (session.addedAt list node number) := by
  by_cases hlist : list = .invoke
  · subst hlist
    exact .inr ⟨fun _ _ => .inl ⟨node, rfl⟩, rfl⟩
  · have haction : ∀ other, list.owner node ≠ .invoke other := by
      intro other heq
      have heq : list.owner node = NodeList.invoke.owner other := heq
      exact hlist (NodeList.owner_inj heq).1
    have hadded : session.addedAt list node number =
        (number.bind (session.model.positionOfNth? (list.owner node))).getD
          (session.listOf (list.owner node)).length := by
      cases list with
      | entry | exit => rfl
      | invoke => exact absurd rfl hlist
    cases hposition : number.bind (session.model.positionOfNth? (list.owner node)) with
    | none =>
      refine .inr ⟨fun n hn => .inr ?_, by rw [hadded, hposition]; rfl⟩
      rw [hn] at hposition
      exact Model.positionOfNth?_eq_none_iff.1 hposition
    | some position =>
      obtain ⟨n, hn, hnth⟩ := Option.bind_eq_some_iff.1 hposition
      obtain ⟨⟨other, hother⟩, hcount⟩ := (Model.positionOfNth?_eq_some_iff h.blocks).1 hnth
      have hlookup := h.blocks.lookup_eq_some_iff.2 hother
      have hne : other ≠ id := by
        rintro rfl
        rw [Model.hasBlock, hlookup] at hid
        cases hid
      rw [hposition, Option.getD_some] at hadded
      rw [hadded]
      refine .inl ⟨n, other, hn, haction, hcount, hlookup, ?_⟩
      rw [Model.lookup_attachBlock_of_ne _ _ _ hne, hlookup]
      simp [BlockPlace.makeRoom]

/-- A patch that takes nothing away makes of the handles what it makes of its own. -/
theorem follows_of_kept {patch : Patch} {after : Session}
    (hdrops : ∀ edge, session.drops edge patch = false)
    (hedges : after.model.edges = session.model.edges)
    (hitems : ∀ edge, after.itemOf? edge = session.itemOf? edge)
    (howners : ∀ other, patch.block? ≠ some other → (after.model.blocks.lookup other).map
      (·.owner) = (session.model.blocks.lookup other).map (·.owner))
    (hentries : ∀ other, patch.block? ≠ some other → after.entryOf? other = session.entryOf? other)
    (hself : session.Makes patch after) : session.Follows patch after := by
  have hedge (edge : EdgeId) : after.model.hasEdge edge = session.model.hasEdge edge := by
    rw [Model.hasEdge, Model.hasEdge, hedges]
  refine ⟨fun edge => ?_, fun edge hknown => ?_, fun other owner hne => ?_,
    fun other hne hknown => ?_, hself⟩
  · rw [hedge, hdrops, Bool.not_false, Bool.and_true]
  · obtain ⟨item, hitem⟩ := h.items edge (hedge edge ▸ hknown)
    exact ⟨item, hitem, (hitems edge).trans hitem⟩
  · rw [howners other hne]
    exact ⟨fun howner => ⟨howner, fun edge _ => hdrops edge⟩, And.left⟩
  · have hknown : session.model.hasBlock other = true := by
      rw [Model.hasBlock, ← Option.isSome_map, ← howners other hne, Option.isSome_map]
      exact hknown
    obtain ⟨entry, hentry⟩ := h.blocks.exists_entryIn? hknown
    exact ⟨entry, hentry, (hentries other hne).trans hentry⟩

/-- A block that is added leaves the handles where they lead. -/
theorem addBlock (hmade : (session.applyOne
      (.addBlock id (list.owner node) number name)).edits = .ok edits) :
    (session.applyOne (.addBlock id (list.owner node) number name)).after.Anchored ∧
      session.Follows (.addBlock id (list.owner node) number name)
        (session.applyOne (.addBlock id (list.owner node) number name)).after := by
  obtain ⟨steps, hsteps⟩ := exists_stepsOf hmade
  obtain ⟨hid, path, hpath, rfl⟩ := stepsOf_addBlock hsteps
  obtain ⟨draft, hdraft, hafter⟩ := exists_of_applyOne_singleton hsteps hmade
  rw [hafter]
  obtain ⟨hanchored, hitems, hentries, hle, hself, hsource⟩ :=
    h.addition hpath hid hdraft (by rintro rfl; rfl)
  have hlookup := Model.lookup_attachBlock_self (list.owner node)
    (session.addedAt list node number) hid
  refine ⟨hanchored, h.follows_of_kept (fun _ => rfl) rfl hitems (fun other hne => ?_)
    (fun other hne => hentries other fun heq => hne (congrArg some heq.symm))
    ⟨list, node, _, rfl, h.lands _ hid, hlookup, hself, ?_, hsource⟩⟩
  · rw [Model.lookup_attachBlock_of_ne _ _ _ fun heq => hne (congrArg some heq.symm),
      Option.map_map]
    exact Option.map_congr fun place _ => BlockPlace.owner_makeRoom _ place
  · exact (Model.entryIn?_of_lookup hlookup).trans (Model.getElem?_insertIdx_self hle hself)

variable (hplace : session.model.blocks.lookup id = some ⟨list.owner node, index⟩)

include hplace

/-- A block that is given another source leaves the handles where they lead. -/
theorem replaceBlockSource
    (hmade : (session.applyOne (.replaceBlockSource id name)).edits = .ok edits) :
    (session.applyOne (.replaceBlockSource id name)).after.Anchored ∧
      session.Follows (.replaceBlockSource id name)
        (session.applyOne (.replaceBlockSource id name)).after := by
  obtain ⟨steps, hsteps⟩ := exists_stepsOf hmade
  obtain ⟨path, hpath, rfl⟩ := stepsOf_replaceBlockSource hplace hsteps
  obtain ⟨draft, hdraft, hafter⟩ := exists_of_applyOne_singleton hsteps hmade
  rw [hafter]
  obtain ⟨hanchored, hitems, hentries, ⟨entry, hentry, hrepointed⟩, hsource⟩ :=
    h.repointing hpath hplace hdraft
  exact ⟨hanchored, h.follows_of_kept (fun _ => rfl) rfl hitems (fun _ _ => rfl)
    (fun other hne => hentries other fun heq => hne (congrArg some heq.symm))
    ⟨rfl, list, node, index, entry, hplace, hentry, hrepointed, hsource⟩⟩

/-- A block that is removed leaves the handles of other blocks where they lead, besides those of
    the edges that go with it. -/
theorem removeBlock (hmade : (session.applyOne (.removeBlock id)).edits = .ok edits) :
    (session.applyOne (.removeBlock id)).after.Anchored ∧
      session.Follows (.removeBlock id) (session.applyOne (.removeBlock id)).after := by
  obtain ⟨steps, hsteps⟩ := exists_stepsOf hmade
  obtain ⟨path, hpath, rfl⟩ := stepsOf_removeBlock hplace hsteps
  obtain ⟨draft, hdraft, hafter⟩ := exists_of_applyOne_singleton hsteps hmade
  rw [hafter]
  obtain ⟨hanchored, hitems, hentries, hself⟩ := h.removal hpath hplace hdraft
  have hdrops (edge : EdgeId) : session.drops edge (.removeBlock id) =
      (session.model.edges.lookup edge).any (·.endsInvoke ⟨list.owner node, index⟩) := by
    rw [drops, hplace]
    rfl
  have hedge := Model.hasEdge_detachBlock h.edges id ⟨list.owner node, index⟩
  refine ⟨hanchored, fun edge => ?_, fun edge hknown => ?_, fun other owner hne => ?_,
    fun other _ hknown => ?_, Model.hasBlock_detachBlock_self _ _ _, _, hplace, hself⟩
  · rw [hdrops]
    exact hedge edge
  · have hbefore : session.model.hasEdge edge = true := by
      have hboth := (hedge edge).symm.trans hknown
      rw [Bool.and_eq_true] at hboth
      exact hboth.1
    obtain ⟨item, hitem⟩ := h.items edge hbefore
    exact ⟨item, hitem, (hitems edge hknown).trans hitem⟩
  · have hother : other ≠ id := fun heq => hne (congrArg some heq.symm)
    simp only [Option.map_eq_some_iff, Model.lookup_detachBlock_eq_some_iff h.blocks, hdrops]
    constructor
    · rintro ⟨_, ⟨place, hlookup, -, hkept, rfl⟩, rfl⟩
      rw [BlockPlace.owner_closeUp]
      exact ⟨⟨place, hlookup, rfl⟩, (Model.goesWith_eq_false_iff h.edges).1 hkept⟩
    · rintro ⟨⟨place, hlookup, rfl⟩, hkept⟩
      exact ⟨_, ⟨place, hlookup, hother, (Model.goesWith_eq_false_iff h.edges).2 hkept, rfl⟩,
        BlockPlace.owner_closeUp _ place⟩
  · obtain ⟨entry, hentry⟩ := hanchored.blocks.exists_entryIn? hknown
    exact ⟨entry, (hentries other hknown).symm.trans hentry, hentry⟩

omit hplace

/-- What a patch of a block of a state that is made does. -/
theorem applyOne {patch : Patch} (hpatch : session.isNodeBlockPatch patch = true)
    (hmade : (session.applyOne patch).edits = .ok edits) :
    (session.applyOne patch).after.Anchored ∧
      session.Follows patch (session.applyOne patch).after := by
  -- A block that is not known is not found, so that the patch is not made.
  have hfound {block : BlockId} {steps : List PatchStep} {rest : BlockPlace → Patched _}
      (hsteps : session.model.block block >>= rest = .ok steps)
      (howner : (session.model.blocks.lookup block).all (·.owner.node?.isSome) = true) :
      ∃ (list : NodeList) (node : NodeId) (index : Nat),
        session.model.blocks.lookup block = some ⟨list.owner node, index⟩ := by
    obtain ⟨⟨owner, index⟩, hplace, -⟩ := bind_eq_ok.1 hsteps
    have hplace := Model.block_eq_ok.1 hplace
    rw [hplace, Option.all_some] at howner
    obtain ⟨⟨list, node⟩, hnode⟩ := Option.isSome_iff_exists.1 howner
    obtain rfl := BlockOwner.node?_eq_some_iff.1 hnode
    exact ⟨list, node, index, hplace⟩
  obtain ⟨steps, hsteps⟩ := exists_stepsOf hmade
  cases patch with
  | addBlock id owner number name =>
    obtain ⟨⟨list, node⟩, hnode⟩ := Option.isSome_iff_exists.1 hpatch
    obtain rfl := BlockOwner.node?_eq_some_iff.1 hnode
    exact h.addBlock hmade
  | removeBlock id =>
    obtain ⟨list, node, index, hplace⟩ := hfound hsteps hpatch
    exact h.removeBlock hplace hmade
  | replaceBlockSource id name =>
    obtain ⟨list, node, index, hplace⟩ := hfound hsteps hpatch
    exact h.replaceBlockSource hplace hmade
  | _ => cases hpatch

end Anchored

/-! ## Runs -/

/-- Patches of blocks of states that are made lead from a session to another. -/
inductive BlockRun (session : Session) : Session → Prop
  | refl : BlockRun session session
  | step {later : Session} {patch : Patch} {edits : List Edit} : BlockRun session later →
      later.isNodeBlockPatch patch = true → (later.applyOne patch).edits = .ok edits →
      BlockRun session (later.applyOne patch).after

theorem Anchored.blockRun (h : session.Anchored) {later : Session}
    (hrun : session.BlockRun later) : later.Anchored := by
  induction hrun with
  | refl => exact h
  | step _ hpatch hmade ih => exact (ih.applyOne hpatch hmade).1

/-- Blocks of states remain such when patches are made. -/
theorem Follows.all_node? {patch : Patch} {after : Session} (h : session.Follows patch after)
    {id : BlockId}
    (hid : (session.model.blocks.lookup id).all (·.owner.node?.isSome) = true) :
    (after.model.blocks.lookup id).all (·.owner.node?.isSome) = true := by
  by_cases hself : patch.block? = some id
  · have hmakes := h.self
    cases patch with
    | addBlock =>
      obtain rfl := Option.some.inj hself
      obtain ⟨list, node, position, rfl, -, hlookup, -⟩ := hmakes
      rw [hlookup, Option.all_some, BlockOwner.node?_eq_some_iff.2 rfl]
      rfl
    | removeBlock =>
      obtain rfl := Option.some.inj hself
      have hnone := Option.isSome_eq_false_iff.1 hmakes.1
      rw [Option.isNone_iff_eq_none.1 hnone]
      rfl
    | replaceBlockSource =>
      rw [hmakes.1]
      exact hid
    | _ => cases hself
  · cases hlookup : after.model.blocks.lookup id with
    | none => rfl
    | some place =>
      have howner := ((h.blocks id place.owner hself).1 (by rw [hlookup]; rfl)).1
      obtain ⟨old, hold, heq⟩ := Option.map_eq_some_iff.1 howner
      rw [hold, Option.all_some, heq] at hid
      exact hid

theorem Follows.isNodeBlockPatch {patch other : Patch} {after : Session}
    (h : session.Follows patch after) (hother : session.isNodeBlockPatch other = true) :
    after.isNodeBlockPatch other = true := by
  cases other with
  | addBlock => exact hother
  | removeBlock | replaceBlockSource => exact h.all_node? hother
  | _ => cases hother

theorem BlockRun.applyInOrder {start : Session} (hstart : start.Anchored)
    (hrun : start.BlockRun session) {patches : List Patch}
    (hpatches : ∀ patch ∈ patches, session.isNodeBlockPatch patch = true)
    (hmade : (session.applyInOrder patches).edits = .ok edits) :
    start.BlockRun (session.applyInOrder patches).after := by
  induction patches generalizing session edits with
  | nil => exact hrun
  | cons patch rest ih =>
    rw [List.forall_mem_cons] at hpatches
    obtain ⟨⟨first, hfirst⟩, more, hmore⟩ := applyInOrder_cons hmade
    obtain ⟨-, hfollows⟩ := (hstart.blockRun hrun).applyOne hpatches.1 hfirst
    have hafter : (session.applyInOrder (patch :: rest)).after =
        ((session.applyOne patch).after.applyInOrder rest).after := by
      rw [Session.applyInOrder, hfirst]
    rw [hafter]
    exact ih (hrun.step hpatches.1 hfirst)
      (fun other hmem => hfollows.isNodeBlockPatch (hpatches.2 other hmem)) hmore

/-- A batch of patches of blocks of states that is made is a run of them. -/
theorem BlockRun.apply {start : Session} (hstart : start.Anchored)
    (hrun : start.BlockRun session) {patches : List Patch}
    (hpatches : ∀ patch ∈ patches, session.isNodeBlockPatch patch = true)
    (hmade : (session.apply patches).edits = .ok edits) :
    start.BlockRun (session.apply patches).after := by
  rw [Session.apply] at hmade ⊢
  cases hadded : session.model.depthsOfAdded patches with
  | error e =>
    rw [hadded] at hmade
    cases hmade
  | ok added =>
    rw [hadded] at hmade
    exact hrun.applyInOrder hstart
      (fun patch hmem => hpatches patch (Patch.mem_canonicalOrder.1 hmem)) hmade

/-- Handles of blocks stay with their entries through patches of the blocks of states, whatever
    else is written in the lists. Each patch of a run that is made leaves the handles of other
    blocks and those of edges where they lead, and its own leads to the entry that it asks for, or
    is gone. -/
theorem blocks_in_step (text : String) (machine : Source.Machine) (settings : Settings)
    {session : Session} (hrun : (ofEditor (.ofMachine text machine settings)).BlockRun session)
    {patch : Patch} (hpatch : session.isNodeBlockPatch patch = true)
    (hmade : (session.applyOne patch).edits = .ok edits) :
    session.Follows patch (session.applyOne patch).after := by
  have hstart := anchored_ofEditor (Editor.current_ofMachine text machine settings)
  exact ((hstart.blockRun hrun).applyOne hpatch hmade).2

/-- A machine with a list of actions that begins with a number, and with two invocations. -/
def invokingText : String :=
  "createMachine(\x7bstates: \x7ba: \x7bentry: [5, 'x'], invoke: [" ++
    "\x7bsrc: 'p', onDone: \x7bactions: 'y'\x7d\x7d, \x7bsrc: 'q', onError: 'a'\x7d]\x7d\x7d\x7d)"

/-- An action is added before the first known one, which is the second that is written, and then
    the first invocation is removed. The edge that followed its end goes with its action, and the
    other edge now follows the first invocation. -/
theorem blocks_in_step_invoking : ∃ machine session,
    (Source.machines .typescript .standard invokingText)[0]? = some machine ∧
    (ofEditor (.ofMachine invokingText machine {})).BlockRun session ∧
    session.model.blocks = [(0, ⟨.entry 1, 2⟩), (1, ⟨.invoke 1, 0⟩), (3, ⟨.invoke 1, 1⟩),
      (2, ⟨.actions 0, 0⟩), (9, ⟨.entry 1, 1⟩)] ∧
    session.Follows (.removeBlock 1) (session.applyOne (.removeBlock 1)).after ∧
    (session.applyOne (.removeBlock 1)).after.model.blocks =
      [(0, ⟨.entry 1, 2⟩), (3, ⟨.invoke 1, 0⟩), (9, ⟨.entry 1, 1⟩)] ∧
    (session.applyOne (.removeBlock 1)).after.model.edges = [(1, ⟨1, ⟨.invokeError 0, 0⟩⟩)] := by
  have hfound : ((Source.machines .typescript .standard invokingText)[0]?).any (fun machine =>
      let first := (ofEditor (.ofMachine invokingText machine {})).apply
        [.addBlock 9 (.entry 1) (some 0) "z"]
      let second := first.after.applyOne (.removeBlock 1)
      first.edits.toOption.isSome && (second.edits.toOption.isSome && (first.after.model.blocks =
          [(0, ⟨.entry 1, 2⟩), (1, ⟨.invoke 1, 0⟩), (3, ⟨.invoke 1, 1⟩), (2, ⟨.actions 0, 0⟩),
            (9, ⟨.entry 1, 1⟩)] &&
        (second.after.model.blocks =
            [(0, ⟨.entry 1, 2⟩), (3, ⟨.invoke 1, 0⟩), (9, ⟨.entry 1, 1⟩)] &&
          second.after.model.edges = [(1, ⟨1, ⟨.invokeError 0, 0⟩⟩)])))) = true := by
    decide +kernel
  obtain ⟨machine, hmachine, h⟩ := (Option.any_eq_true _ _).1 hfound
  simp only [Bool.and_eq_true, decide_eq_true_eq] at h
  obtain ⟨hadded, hremoved, hblocks, hblocks', hedges'⟩ := h
  obtain ⟨edits, hadded⟩ := Option.isSome_iff_exists.1 hadded
  obtain ⟨edits', hremoved⟩ := Option.isSome_iff_exists.1 hremoved
  have hrun := BlockRun.refl.apply
    (anchored_ofEditor (Editor.current_ofMachine invokingText machine {}))
    (fun patch hpatch => by rw [List.mem_singleton.1 hpatch]; rfl)
    (eq_ok_of_toOption hadded)
  have hpatch : ((ofEditor (.ofMachine invokingText machine {})).apply
      [.addBlock 9 (.entry 1) (some 0) "z"]).after.isNodeBlockPatch (.removeBlock 1) = true := by
    rw [isNodeBlockPatch, hblocks]
    rfl
  exact ⟨machine, _, hmachine, hrun, hblocks,
    blocks_in_step invokingText machine {} hrun hpatch (eq_ok_of_toOption hremoved), hblocks',
    hedges'⟩

end Session

end Statechart
