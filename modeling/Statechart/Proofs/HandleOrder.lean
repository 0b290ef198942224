import Mathlib.Algebra.Group.Nat.Defs
import Statechart.Proofs.LiveHandles

/-!
# New handles are there when they are used

The order of a batch puts what introduces handles before what uses them: nodes before all
else, parents before children, then edges before descriptions and blocks. So a handle that a
batch introduces can be used in the batch, as long as that is in a later phase, or below an
added node. Changes of edges and of blocks come before the additions of edges and of blocks:
they cannot use a new handle.

* `Model.Accounted`: each handle of a batch is known, or introduced once;
* `Model.Timely`: a new handle is not used in a phase before its own;
* `Session.scoped_canonicalOrder`: the order of such a batch introduces handles before they
  are used;
* `Session.new_handles_known`: such a batch is never refused for an unknown handle;
* `Session.changed_new_edge_unknown`: an accounted batch may be, when it changes an edge that it
  adds.
-/

namespace Statechart

/-- The handles in a patch. -/
def Patch.mentions (patch : Patch) : List Handle :=
  patch.introduces?.toList ++ patch.uses

namespace Model

variable {model : Model} {patches : List Patch}

variable (model patches) in
/-- Each handle that patches mention is known, or just one of them introduces it. -/
def Accounted : Prop :=
  ∀ patch ∈ patches, ∀ handle ∈ patch.mentions, model.knows handle = true ∨
    ∃ q ∈ patches, q.introduces? = some handle ∧
      ∀ other ∈ patches, other.introduces? = some handle → other = q

variable (model patches) in
/-- New handles are used in the phase that introduces them or later, and of the blocks that are
    used what they belong to is known. -/
structure Timely : Prop where
  phases : ∀ patch ∈ patches, ∀ handle ∈ patch.uses, model.knows handle = false →
    ∀ q ∈ patches, q.introduces? = some handle → q.phase ≤ patch.phase
  owners : ∀ patch ∈ patches, ∀ handle ∈ patch.uses, model.knows handle = true →
    model.Live handle

instance (model : Model) (patches : List Patch) : Decidable (model.Accounted patches) :=
  inferInstanceAs (Decidable (∀ patch ∈ patches, ∀ handle ∈ patch.mentions, _ ∨
    ∃ q ∈ patches, _ ∧ ∀ other ∈ patches, other.introduces? = some handle → other = q))

instance (model : Model) (patches : List Patch) : Decidable (model.Timely patches) :=
  decidable_of_iff ((∀ patch ∈ patches, ∀ handle ∈ patch.uses, model.knows handle = false →
      ∀ q ∈ patches, q.introduces? = some handle → q.phase ≤ patch.phase) ∧
    ∀ patch ∈ patches, ∀ handle ∈ patch.uses, model.knows handle = true → model.Live handle)
    ⟨fun h => ⟨h.1, h.2⟩, fun h => ⟨h.phases, h.owners⟩⟩

/-! ## Depths -/

/-- A depth is found at a known node, or one step below an added one. -/
theorem depthBelow_eq_ok {parents : List (NodeId × NodeId)} {fuel : Nat} {chain : List NodeId}
    {parent : NodeId} {depth : Nat} (h : model.depthBelow parents fuel chain parent = .ok depth) :
    ∃ fuel', fuel = fuel' + 1 ∧
      ((∃ path, model.paths.lookup parent = some path ∧ depth = path.length + 1) ∨
        model.paths.lookup parent = none ∧ parent ∉ chain ∧ ∃ next rest,
          parents.lookup parent = some next ∧
          model.depthBelow parents fuel' (parent :: chain) next = .ok rest ∧ depth = rest + 1) := by
  cases fuel with
  | zero => exact absurd h (by simp [depthBelow])
  | succ fuel =>
    refine ⟨fuel, rfl, ?_⟩
    rw [depthBelow] at h
    cases hpath : model.paths.lookup parent with
    | some path =>
      simp only [hpath] at h
      exact .inl ⟨path, rfl, (Except.ok.inj h).symm⟩
    | none =>
      cases hnext : parents.lookup parent with
      | none => simp [hpath, hnext] at h
      | some next =>
        simp only [hpath, hnext] at h
        split at h
        · cases h
        · next hchain =>
          cases hrest : model.depthBelow parents fuel (parent :: chain) next with
          | error e => rw [hrest] at h; cases h
          | ok rest =>
            rw [hrest] at h
            exact .inr ⟨rfl, by simpa using hchain, next, rest, rfl, hrest,
              (Except.ok.inj h).symm⟩

/-- A depth does not depend on the way that led to the node. -/
theorem depthBelow_unique {parents : List (NodeId × NodeId)} {fuel fuel' : Nat}
    {chain chain' : List NodeId} {parent : NodeId} {depth depth' : Nat}
    (h : model.depthBelow parents fuel chain parent = .ok depth)
    (h' : model.depthBelow parents fuel' chain' parent = .ok depth') : depth = depth' := by
  induction fuel generalizing fuel' chain chain' parent depth depth' with
  | zero => exact absurd h (by simp [depthBelow])
  | succ fuel ih =>
    obtain ⟨_, heq, h⟩ := depthBelow_eq_ok h
    obtain rfl := Nat.succ.inj heq
    obtain ⟨_, -, h'⟩ := depthBelow_eq_ok h'
    rcases h with ⟨path, hpath, rfl⟩ | ⟨hnone, -, next, rest, hnext, hrest, rfl⟩
    · rcases h' with ⟨path', hpath', rfl⟩ | ⟨hnone', -⟩
      · rw [Option.some.inj (hpath.symm.trans hpath')]
      · rw [hpath] at hnone'; cases hnone'
    · rcases h' with ⟨path', hpath', -⟩ | ⟨-, -, next', rest', hnext', hrest', rfl⟩
      · rw [hnone] at hpath'; cases hpath'
      · obtain rfl := Option.some.inj (hnext.symm.trans hnext')
        rw [ih hrest hrest']

/-- A depth is that of a known node, and at most the number of steps below it. -/
theorem exists_depthBelow_le {parents : List (NodeId × NodeId)} {fuel : Nat}
    {chain : List NodeId} {parent : NodeId} {depth : Nat}
    (h : model.depthBelow parents fuel chain parent = .ok depth) :
    ∃ entry ∈ model.paths, depth ≤ entry.2.length + fuel := by
  induction fuel generalizing chain parent depth with
  | zero => exact absurd h (by simp [depthBelow])
  | succ fuel ih =>
    obtain ⟨_, heq, h⟩ := depthBelow_eq_ok h
    obtain rfl := Nat.succ.inj heq
    rcases h with ⟨path, hpath, rfl⟩ | ⟨-, -, next, rest, -, hrest, rfl⟩
    · exact ⟨_, mem_of_lookup hpath, Nat.add_le_add_left (Nat.le_add_left 1 fuel) _⟩
    · obtain ⟨entry, hentry, hle⟩ := ih hrest
      exact ⟨entry, hentry, Nat.succ_le_succ hle⟩

/-- The depth of a node is found if its parents lead to known ones, or in a circle. -/
theorem not_isUnknown_depthBelow {parents : List (NodeId × NodeId)} {fuel : Nat}
    {chain : List NodeId} {parent : NodeId} {e : PatchError}
    (hparents : ∀ node next, parents.lookup node = some next →
      model.hasNode next = true ∨ (parents.lookup next).isSome = true)
    (hparent : model.hasNode parent = true ∨ (parents.lookup parent).isSome = true)
    (h : model.depthBelow parents fuel chain parent = .error e) : e.isUnknown = false := by
  induction fuel generalizing chain parent with
  | zero => cases h; rfl
  | succ fuel ih =>
    rw [depthBelow] at h
    cases hpath : model.paths.lookup parent with
    | some path => simp [hpath] at h
    | none =>
      cases hnext : parents.lookup parent with
      | none => simp [hasNode, hpath, hnext] at hparent
      | some next =>
        simp only [hpath, hnext] at h
        split at h
        · cases h; rfl
        · cases hrest : model.depthBelow parents fuel (parent :: chain) next with
          | ok rest => rw [hrest] at h; cases h
          | error e' =>
            rw [hrest] at h
            cases h
            exact ih (hparents parent next hnext) hrest

theorem exists_of_error_mapM_pairs {f : NodeId → Patched Nat} {nodes : List NodeId}
    {e : PatchError} (h : nodes.mapM (fun n => (f n).map (n, ·)) = .error e) :
    ∃ node ∈ nodes, f node = .error e := by
  induction nodes with
  | nil => cases h
  | cons node nodes ih =>
    rw [List.mapM_cons] at h
    rcases bind_eq_error.1 h with h | ⟨first, -, h⟩
    · cases hnode : f node with
      | ok depth => rw [hnode] at h; cases h
      | error e' => rw [hnode] at h; cases h; exact ⟨node, List.mem_cons_self, hnode⟩
    · rcases bind_eq_error.1 h with h | ⟨rest, -, h⟩
      · obtain ⟨other, hother, h⟩ := ih h
        exact ⟨other, List.mem_cons_of_mem _ hother, h⟩
      · cases h

/-! ## Added nodes of an accounted batch -/

section Accounted

variable (haccounted : model.Accounted patches)

include haccounted

/-- What a patch uses is known or introduced. -/
theorem Accounted.uses {patch : Patch} (hpatch : patch ∈ patches) {handle : Handle}
    (hhandle : handle ∈ patch.uses) (hnew : model.knows handle = false) :
    ∃ q ∈ patches, q.introduces? = some handle ∧
      ∀ other ∈ patches, other.introduces? = some handle → other = q := by
  refine (haccounted patch hpatch handle (List.mem_append_right _ hhandle)).resolve_left ?_
  rw [hnew]
  exact Bool.false_ne_true

/-- A new node has the parent that a patch says. -/
theorem Accounted.lookup_addedParents {node parent : NodeId} {key : String}
    (hpatch : .addNode node parent key ∈ patches) (hnew : model.hasNode node = false) :
    (addedParents patches).lookup node = some parent := by
  refine lookup_addedParents_of_mem hpatch fun parent' key' hpatch' => ?_
  have hmem : Handle.node node ∈ (Patch.addNode node parent key).mentions := List.mem_cons_self
  rcases haccounted _ hpatch _ hmem with hknown | ⟨q, -, -, honly⟩
  · rw [Model.knows, hnew] at hknown
    cases hknown
  · have heq := (honly _ hpatch' rfl).trans (honly _ hpatch rfl).symm
    exact (Patch.addNode.inj heq).2.1

/-- The parent of an added node is known, or added too. -/
theorem Accounted.parent {node parent : NodeId} {key : String}
    (hpatch : .addNode node parent key ∈ patches) (hnew : model.hasNode parent = false) :
    ∃ next key', .addNode parent next key' ∈ patches := by
  obtain ⟨q, hq, hintroduced, -⟩ := haccounted.uses hpatch List.mem_cons_self hnew
  cases q with
  | addNode node' next key' =>
    obtain rfl := Handle.node.inj (Option.some.inj hintroduced)
    exact ⟨next, key', hq⟩
  | _ => cases hintroduced

/-- Finding the depths of added nodes meets no unknown node. -/
theorem Accounted.not_isUnknown_depthsOfAdded {e : PatchError}
    (h : model.depthsOfAdded patches = .error e) : e.isUnknown = false := by
  have hparents : ∀ node next, (addedParents patches).lookup node = some next →
      model.hasNode next = true ∨ ((addedParents patches).lookup next).isSome = true := by
    intro node next hnext
    obtain ⟨key, hpatch⟩ := mem_addedParents.1 (mem_of_lookup hnext)
    cases hnew : model.hasNode next with
    | true => exact .inl rfl
    | false =>
      obtain ⟨above, key', hadded⟩ := haccounted.parent hpatch hnew
      exact .inr (by rw [haccounted.lookup_addedParents hadded hnew]; rfl)
  rw [depthsOfAdded_eq] at h
  obtain ⟨node, hnode, h⟩ := exists_of_error_mapM_pairs h
  obtain ⟨parent, key, hpatch⟩ := mem_addedNodes.1 hnode
  obtain ⟨found, hfound⟩ : ∃ found, (addedParents patches).lookup node = some found :=
    Option.isSome_iff_exists.1
      (lookup_isSome_iff_exists.2 ⟨parent, mem_addedParents.2 ⟨key, hpatch⟩⟩)
  rw [addedDepth, hfound, Option.getD_some] at h
  exact not_isUnknown_depthBelow hparents (hparents node found hfound) h

/-- A new node lies one step below its parent when that is new too. -/
theorem Accounted.depth_parent {added : List (NodeId × Nat)}
    (hadded : model.depthsOfAdded patches = .ok added) {node parent : NodeId} {key : String}
    (hpatch : .addNode node parent key ∈ patches) (hnode : model.hasNode node = false)
    (hparent : model.hasNode parent = false) :
    node ≠ parent ∧ ∃ depth, added.lookup parent = some depth ∧
      added.lookup node = some (depth + 1) := by
  rw [depthsOfAdded_eq] at hadded
  obtain ⟨next, key', hpatch'⟩ := haccounted.parent hpatch hparent
  have hnext := haccounted.lookup_addedParents hpatch' hparent
  have hnodes := mem_addedNodes.2 ⟨parent, key, hpatch⟩
  have hnodes' := mem_addedNodes.2 ⟨next, key', hpatch'⟩
  obtain ⟨depth, hdepth⟩ := ok_of_mapM_pairs hadded node hnodes
  obtain ⟨depth', hdepth'⟩ := ok_of_mapM_pairs hadded parent hnodes'
  have hbelow := hdepth
  rw [addedDepth, haccounted.lookup_addedParents hpatch hnode, Option.getD_some] at hbelow
  have habove := hdepth'
  rw [addedDepth, hnext, Option.getD_some] at habove
  obtain ⟨_, -, ⟨path, hpath, -⟩ | ⟨-, hchain, next', rest, hnext', hrest, rfl⟩⟩ :=
    depthBelow_eq_ok hbelow
  · rw [hasNode, hpath] at hparent
    cases hparent
  · obtain rfl := Option.some.inj (hnext.symm.trans hnext')
    obtain rfl := depthBelow_unique habove hrest
    exact ⟨fun heq => hchain (heq ▸ List.mem_cons_self), depth',
      (lookup_mapM_pairs hadded).2 ⟨hnodes', hdepth'⟩,
      (lookup_mapM_pairs hadded).2 ⟨hnodes, hdepth⟩⟩

omit haccounted in
theorem length_addedParents_le : (addedParents patches).length ≤ patches.length := by
  rw [addedParents, List.length_reverse]
  exact List.length_filterMap_le _ _

omit haccounted in
/-- The depth of an added node is at most that of a known node and the length of the batch. -/
theorem exists_lookup_le {added : List (NodeId × Nat)}
    (hadded : model.depthsOfAdded patches = .ok added) {node : NodeId} {depth : Nat}
    (h : added.lookup node = some depth) :
    ∃ entry ∈ model.paths, depth ≤ entry.2.length + (patches.length + 1) := by
  rw [depthsOfAdded_eq] at hadded
  obtain ⟨entry, hentry, hle⟩ := exists_depthBelow_le ((lookup_mapM_pairs hadded).1 h).2
  exact ⟨entry, hentry, hle.trans (Nat.add_le_add_left
    (Nat.add_le_add_right length_addedParents_le 1) _)⟩

end Accounted

end Model

namespace Patch

/-- A handle is introduced and used in one phase only by nodes. -/
theorem exists_addNode_of_phase {patch q : Patch} {handle : Handle} (hused : handle ∈ patch.uses)
    (hintroduced : q.introduces? = some handle) (hphase : q.phase = patch.phase) :
    ∃ node parent key next key', patch = .addNode node parent key ∧
      q = .addNode parent next key' := by
  cases q with
  | addNode parent next key' =>
    cases patch <;> simp [phase] at hphase
    case addNode node above key =>
      obtain rfl := Option.some.inj hintroduced
      obtain rfl := Handle.node.inj (List.mem_singleton.1 hused)
      exact ⟨node, parent, key, next, key', rfl, rfl⟩
  | addEdge edge source targets slot internal =>
    obtain rfl := Option.some.inj hintroduced
    cases patch <;> simp [phase] at hphase
    case addEdge => simp [uses] at hused
  | addBlock block owner index sourceId =>
    obtain rfl := Option.some.inj hintroduced
    cases patch <;> simp [phase] at hphase
    case addBlock block' owner' index' sourceId' =>
      cases owner' <;> simp [uses, BlockOwner.handle] at hused
  | _ => cases hintroduced

end Patch

namespace Session

variable {session : Session} {patches : List Patch}

/-- An added node comes after its parent when that is added too. -/
theorem rank_lt_of_parent (haccounted : session.model.Accounted patches)
    (hfits : ∀ entry ∈ session.model.paths, entry.2.length + patches.length + 1 < 2 ^ 63)
    {added : List (NodeId × Nat)} (hadded : session.model.depthsOfAdded patches = .ok added)
    {node parent next : NodeId} {key key' : String} (hpatch : .addNode node parent key ∈ patches)
    (hnode : session.model.hasNode node = false) (hparent : session.model.hasNode parent = false) :
    (Patch.addNode parent next key').rank (session.depth added) <
      (Patch.addNode node parent key).rank (session.depth added) := by
  obtain ⟨-, depth, hdepth, hbelow⟩ := haccounted.depth_parent hadded hpatch hnode hparent
  obtain ⟨entry, hentry, hle⟩ := Model.exists_lookup_le hadded hbelow
  have hbound := hfits entry hentry
  have hrank : ∀ {n d}, added.lookup n = some d → d ≤ depth + 1 →
      Patch.wrap64 (session.depth added n) = d := by
    intro n d hlookup hd
    rw [Session.depth, hlookup, Option.some_or, Option.getD_some]
    exact Patch.wrap64_eq (by omega)
  rw [Patch.rank, Patch.rank, hrank hdepth (Nat.le_succ depth), hrank hbelow (Nat.le_refl _)]
  exact_mod_cast Nat.lt_succ_self depth

/-- The order of a batch introduces handles before they are used. -/
theorem scoped_canonicalOrder (haccounted : session.model.Accounted patches)
    (htimely : session.model.Timely patches)
    (hfits : ∀ entry ∈ session.model.paths, entry.2.length + patches.length + 1 < 2 ^ 63)
    {added : List (NodeId × Nat)} (hadded : session.model.depthsOfAdded patches = .ok added) :
    Scoped session.model (Patch.canonicalOrder (session.depth added) patches) := by
  intro before patch after horder
  by_cases htaken : ∃ handle, patch.introduces? = some handle ∧ session.model.knows handle = true
  · exact .inl htaken
  refine .inr fun handle hused => ?_
  have hmem : ∀ q, q ∈ before ++ patch :: after ↔ q ∈ patches := fun q => by
    rw [← horder, Patch.mem_canonicalOrder]
  have hpatch : patch ∈ patches :=
    (hmem patch).1 (List.mem_append_right _ List.mem_cons_self)
  cases hknown : session.model.knows handle with
  | true => exact .inl (htimely.owners patch hpatch handle hused hknown)
  | false =>
    obtain ⟨q, hq, hintroduced, -⟩ := haccounted.uses hpatch hused hknown
    have hphase := htimely.phases patch hpatch handle hused hknown q hq hintroduced
    -- Behind its use, the introduction would have to be in the same phase, so that both are
    -- additions of nodes. But then the one that introduces the handle has the lower rank.
    have hsame : q.phase = patch.phase → q ≠ patch ∧
        q.rank (session.depth added) < patch.rank (session.depth added) := by
      intro heq
      obtain ⟨node, parent, key, next, key', rfl, rfl⟩ :=
        Patch.exists_addNode_of_phase hused hintroduced heq
      obtain rfl := Option.some.inj hintroduced
      have hnode : session.model.hasNode node = false := by
        by_contra hnode
        exact htaken ⟨.node node, rfl, eq_true_of_ne_false hnode⟩
      obtain ⟨hne, -⟩ := haccounted.depth_parent hadded hpatch hnode hknown
      exact ⟨fun heq => hne (Patch.addNode.inj heq).1.symm,
        rank_lt_of_parent haccounted hfits hadded hpatch hnode hknown⟩
    refine .inr ⟨q, ?_, hintroduced⟩
    rcases List.mem_append.1 ((hmem q).2 hq) with hbefore | hbehind
    · exact hbefore
    · exfalso
      rcases List.mem_cons.1 hbehind with rfl | hafter
      · exact (hsame rfl).1 rfl
      · have hpairwise := Patch.pairwise_canonicalOrder (session.depth added) patches
        rw [horder, List.pairwise_append] at hpairwise
        have hprecedes := (List.pairwise_cons.1 hpairwise.2.1).1 q hafter
        have heq := Nat.le_antisymm hphase (Patch.phase_le_of_precedes hprecedes)
        have hlt := (hsame heq).2
        rw [Patch.precedes, if_neg (by simp [heq]), if_pos (ne_of_gt hlt)] at hprecedes
        exact absurd (of_decide_eq_true hprecedes) (not_lt.2 hlt.le)

/-- A batch that takes nothing away is never refused for an unknown handle if each handle that
    it mentions is known or introduced just once, and not used in an earlier phase; of a block
    that is used, what it belongs to is known. Depths have to fit 64 bits. -/
theorem new_handles_known (session : Session) (hsession : session.Reachable)
    (patches : List Patch) (hkeeps : ∀ patch ∈ patches, patch.isRemoval = false)
    (haccounted : session.model.Accounted patches) (htimely : session.model.Timely patches)
    (hfits : ∀ entry ∈ session.model.paths, entry.2.length + patches.length + 1 < 2 ^ 63)
    (e : PatchError) (h : (session.apply patches).edits = .error e) : e.isUnknown = false := by
  rw [apply] at h
  cases hadded : session.model.depthsOfAdded patches with
  | error e' =>
    rw [hadded] at h
    cases h
    exact haccounted.not_isUnknown_depthsOfAdded hadded
  | ok added =>
    rw [hadded] at h
    exact not_isUnknown_applyInOrder hsession.sourcesKnown
      (fun patch hpatch => hkeeps patch (Patch.mem_canonicalOrder.1 hpatch))
      (scoped_canonicalOrder haccounted htimely hfits hadded) h

/-- A batch that adds a node below an added one, edges between them, and an action of an edge. -/
def nestedBatch : List Patch :=
  [.addBlock 0 (.actions 0) none "log", .addEdge 1 3 [2] (.invokeDone 0) none,
    .addEdge 0 2 [3] (.on "GO") none, .addNode 3 2 "c", .addNode 2 1 "b"]

/-- The batch is refused, but not for its new handles: there is no invocation that the second edge
    could follow. -/
theorem new_handles_known_nested : ∃ e,
    (oneState.apply nestedBatch).edits = .error e ∧ e.isUnknown = false := by
  have hdepths : oneState.model.depthsOfAdded nestedBatch = .ok [(3, 3), (2, 2)] := by
    decide +kernel
  have horder : Patch.canonicalOrder (oneState.depth [(3, 3), (2, 2)]) nestedBatch =
      nestedBatch.reverse :=
    Patch.canonicalOrder_eq_of_pairwise (by decide +kernel) (by decide +kernel)
      fun _ => List.mem_reverse
  have hrefused : (oneState.apply nestedBatch).edits =
      .error (.edit "add_edge" (.invokeNotFound ["a", "b", "c"] 0)) := by
    rw [apply, hdepths]
    dsimp only
    rw [horder]
    decide +kernel
  exact ⟨_, hrefused, new_handles_known oneState (.ofMachine _ _ _) _ (by decide)
    (by decide +kernel) (by decide +kernel) (by decide +kernel) _ hrefused⟩

/-- A batch may be refused for a handle that it introduces: an edge that is added cannot be
    changed by the same batch, since edges are changed before others are added. -/
theorem changed_new_edge_unknown : ∃ session : Session, session.Reachable ∧ ∃ patches,
    (∀ patch ∈ patches, patch.isRemoval = false) ∧ session.model.Accounted patches ∧
    (session.apply patches).edits = .error (.unknownEdge 0) := by
  refine ⟨oneState, .ofMachine _ _ _, [.replaceEdgeTargets 0 [1], .addEdge 0 1 [] (.on "GO") none],
    by decide, by decide +kernel, ?_⟩
  have hdepths : oneState.model.depthsOfAdded
      [.replaceEdgeTargets 0 [1], .addEdge 0 1 [] (.on "GO") none] = .ok [] := rfl
  have horder : Patch.canonicalOrder (oneState.depth [])
      [.replaceEdgeTargets 0 [1], .addEdge 0 1 [] (.on "GO") none] =
        [.replaceEdgeTargets 0 [1], .addEdge 0 1 [] (.on "GO") none] :=
    Patch.canonicalOrder_eq_of_pairwise (by decide +kernel) (by decide +kernel) fun _ => Iff.rfl
  rw [apply, hdepths]
  simp only
  rw [horder]
  decide +kernel

end Session

end Statechart
