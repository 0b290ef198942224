import Statechart.Patch.Session
import Statechart.Proofs.PatchOrder

/-!
# Batches do not depend on how they are listed

A batch is made in its canonical order, and that depends on how deep the nodes lie that it
adds. The depths are found by following parents through other additions of the batch. When
the batch adds a node twice, with two parents, which one is followed depends on the order
in which they are given — but such a batch is refused in any order, as the second addition
meets a handle that is taken. Otherwise the parents, the depths and hence the order are
those of the *set* of patches.

* `AddsOnce`: a batch that says one parent and key for each node that it adds;
* `addsOnce_of_applyInOrder`: only such batches can be made;
* `depthsOfAdded_congr`: their depths depend on the set of patches only;
* `apply_congr`: and so does all that comes of them.
-/

namespace Statechart

/-! ## What a batch adds -/

/-- Each added node has one parent and key. -/
def Patch.AddsOnce (patches : List Patch) : Prop :=
  ∀ node parent key parent' key', .addNode node parent key ∈ patches →
    .addNode node parent' key' ∈ patches → parent = parent' ∧ key = key'

namespace Model

theorem mem_addedParents {patches : List Patch} {node parent : NodeId} :
    (node, parent) ∈ addedParents patches ↔ ∃ key, .addNode node parent key ∈ patches := by
  rw [addedParents, List.mem_reverse, List.mem_filterMap]
  constructor
  · rintro ⟨patch, hpatch, h⟩
    cases patch <;> simp only [Option.some.injEq, Prod.mk.injEq, reduceCtorEq] at h
    obtain ⟨rfl, rfl⟩ := h
    exact ⟨_, hpatch⟩
  · rintro ⟨key, hpatch⟩
    exact ⟨_, hpatch, rfl⟩

/-- The parent that is found is one that the batch gives. -/
theorem mem_of_lookup [BEq α] [LawfulBEq α] {l : List (α × β)} {a : α} {b : β}
    (h : l.lookup a = some b) : (a, b) ∈ l := by
  obtain ⟨l₁, l₂, rfl, -⟩ := List.lookup_eq_some_iff.1 h
  exact List.mem_append_right _ List.mem_cons_self

/-- The parent of a node that is added with one parent only. -/
theorem lookup_addedParents_of_mem {patches : List Patch} {node parent : NodeId} {key : String}
    (hpatch : .addNode node parent key ∈ patches)
    (h : ∀ parent' key', .addNode node parent' key' ∈ patches → parent' = parent) :
    (addedParents patches).lookup node = some parent := by
  cases hfound : (addedParents patches).lookup node with
  | none =>
    have := List.lookup_eq_none_iff.1 hfound _ (mem_addedParents.2 ⟨key, hpatch⟩)
    exact absurd this (by simp)
  | some other =>
    obtain ⟨key', hpatch'⟩ := mem_addedParents.1 (mem_of_lookup hfound)
    rw [h other key' hpatch']

/-- The parents of a batch that adds each node once can be read off its patches. -/
theorem lookup_addedParents {patches : List Patch} (h : Patch.AddsOnce patches)
    {node parent : NodeId} :
    (addedParents patches).lookup node = some parent ↔
      ∃ key, .addNode node parent key ∈ patches := by
  constructor
  · exact fun hfound => mem_addedParents.1 (mem_of_lookup hfound)
  · rintro ⟨key, hpatch⟩
    exact lookup_addedParents_of_mem hpatch fun _ _ hpatch' => (h _ _ _ _ _ hpatch' hpatch).1

/-! ## Depths -/

variable {model : Model}

/-- Depths are found by the parents alone, and any number of steps will do that is not
    less than the number of nodes still to be met: those in `nodes` that are not on the
    chain. -/
theorem depthBelow_congr {parents parents' : List (NodeId × NodeId)} (nodes : List NodeId)
    (hparents : ∀ node, parents.lookup node = parents'.lookup node)
    (hnodes : ∀ node, (parents'.lookup node).isSome → node ∈ nodes)
    {fuel fuel' : Nat} {chain : List NodeId} {parent : NodeId} {depth : Nat}
    (hchain : chain.Nodup) (hsub : chain ⊆ nodes) (hfuel : nodes.length < fuel' + chain.length)
    (h : model.depthBelow parents fuel chain parent = .ok depth) :
    model.depthBelow parents' fuel' chain parent = .ok depth := by
  -- By the steps of the first walk. The chain holds the nodes met so far, without
  -- repetition, so that the second walk has a step left for each of the others.
  induction fuel generalizing fuel' chain parent depth with
  | zero => exact absurd h (by simp [depthBelow])
  | succ fuel ih =>
    cases fuel' with
    | zero =>
      -- The chain would hold more nodes than there are.
      have := hchain.length_le_of_subset hsub
      omega
    | succ fuel' =>
      rw [depthBelow] at h ⊢
      cases hpath : model.paths.lookup parent with
      | some path => simpa only [hpath] using h
      | none =>
        simp only [hpath, hparents] at h ⊢
        cases hnext : parents'.lookup parent with
        | none => simp [hnext] at h
        | some next =>
          simp only [hnext] at h ⊢
          by_cases hmem : chain.contains parent
          · rw [if_pos hmem] at h
            cases h
          · rw [if_neg hmem] at h ⊢
            cases hrest : model.depthBelow parents fuel (parent :: chain) next with
            | error e => simp [hrest, Except.map] at h
            | ok rest =>
              have hparent : parent ∈ nodes := hnodes parent (by rw [hnext]; rfl)
              rw [ih (List.nodup_cons.2 ⟨by simpa using hmem, hchain⟩)
                (List.cons_subset.2 ⟨hparent, hsub⟩) (by simp only [List.length_cons]; omega) hrest]
              rwa [hrest] at h

section Listed

variable {f : NodeId → Patched Nat} {nodes : List NodeId} {added : List (NodeId × Nat)}

/-- The values of some nodes are listed with them if each has one. -/
theorem mapM_pairs_cons {node : NodeId} :
    (node :: nodes).mapM (fun n => (f n).map (n, ·)) = .ok added ↔
      ∃ depth rest, f node = .ok depth ∧ nodes.mapM (fun n => (f n).map (n, ·)) = .ok rest ∧
        added = (node, depth) :: rest := by
  rw [List.mapM_cons]
  cases f node with
  | error e => simp [bind, Except.bind, Except.map]
  | ok depth =>
    cases nodes.mapM fun n => (f n).map (n, ·) with
    | error e => simp [bind, Except.bind, Except.map]
    | ok rest => simp [bind, Except.bind, Except.map, pure, Except.pure, eq_comm]

theorem exists_mapM_pairs (h : ∀ node ∈ nodes, ∃ depth, f node = .ok depth) :
    ∃ added, nodes.mapM (fun n => (f n).map (n, ·)) = .ok added := by
  induction nodes with
  | nil => exact ⟨[], rfl⟩
  | cons node nodes ih =>
    obtain ⟨depth, hdepth⟩ := h node List.mem_cons_self
    obtain ⟨rest, hrest⟩ := ih fun n hn => h n (List.mem_cons_of_mem _ hn)
    exact ⟨_, mapM_pairs_cons.2 ⟨depth, rest, hdepth, hrest, rfl⟩⟩

theorem ok_of_mapM_pairs (h : nodes.mapM (fun n => (f n).map (n, ·)) = .ok added) :
    ∀ node ∈ nodes, ∃ depth, f node = .ok depth := by
  induction nodes generalizing added with
  | nil => exact fun _ hnode => absurd hnode List.not_mem_nil
  | cons first nodes ih =>
    obtain ⟨depth, rest, hdepth, hrest, -⟩ := mapM_pairs_cons.1 h
    exact List.forall_mem_cons.2 ⟨⟨depth, hdepth⟩, ih hrest⟩

theorem lookup_mapM_pairs (h : nodes.mapM (fun n => (f n).map (n, ·)) = .ok added)
    {node : NodeId} {depth : Nat} :
    added.lookup node = some depth ↔ node ∈ nodes ∧ f node = .ok depth := by
  induction nodes generalizing added with
  | nil => cases h; simp
  | cons first nodes ih =>
    obtain ⟨firstDepth, rest, hfirst, hrest, rfl⟩ := mapM_pairs_cons.1 h
    rw [List.lookup_cons]
    by_cases hnode : node = first
    · subst hnode
      simp [hfirst]
    · have : (node == first) = false := by simpa using hnode
      simp [this, ih hrest, hnode]

end Listed

/-- The depth of a node that patches add. -/
def addedDepth (model : Model) (patches : List Patch) (node : NodeId) : Patched Nat :=
  model.depthBelow (addedParents patches) ((addedParents patches).length + 1) [node]
    (((addedParents patches).lookup node).getD node)

/-- The nodes that patches add. -/
def addedNodes (patches : List Patch) : List NodeId :=
  ((addedParents patches).map (·.1)).eraseDups.reverse

theorem mem_addedNodes {patches : List Patch} {node : NodeId} :
    node ∈ addedNodes patches ↔ ∃ parent key, .addNode node parent key ∈ patches := by
  rw [addedNodes, List.mem_reverse, List.mem_eraseDups, List.mem_map]
  constructor
  · rintro ⟨⟨_, parent⟩, h, rfl⟩
    exact ⟨parent, mem_addedParents.1 h⟩
  · rintro ⟨parent, h⟩
    exact ⟨_, mem_addedParents.2 h, rfl⟩

theorem depthsOfAdded_eq (model : Model) (patches : List Patch) :
    model.depthsOfAdded patches = (addedNodes patches).mapM fun node =>
      (model.addedDepth patches node).map (node, ·) := by
  rw [depthsOfAdded, addedNodes]
  congr 1

/-- The depth of an added node depends on the set of patches only. -/
theorem addedDepth_congr {p q : List Patch} (hpq : ∀ patch, patch ∈ p ↔ patch ∈ q)
    (hp : Patch.AddsOnce p) {node : NodeId} {depth : Nat} (hnode : node ∈ addedNodes p)
    (h : model.addedDepth p node = .ok depth) : model.addedDepth q node = .ok depth := by
  have hq : Patch.AddsOnce q := fun node parent key parent' key' h₁ h₂ =>
    hp node parent key parent' key' ((hpq _).2 h₁) ((hpq _).2 h₂)
  have hparents : ∀ node, (addedParents p).lookup node = (addedParents q).lookup node := by
    intro node
    refine Option.ext fun parent => ?_
    simp only [lookup_addedParents hp, lookup_addedParents hq, hpq]
  have hmem : ∀ n parent, (addedParents q).lookup n = some parent →
      n ∈ (addedParents q).map (·.1) :=
    fun n parent hn => List.mem_map.2 ⟨_, mem_of_lookup hn, rfl⟩
  obtain ⟨parent, key, hpatch⟩ := mem_addedNodes.1 hnode
  have hlookup := (lookup_addedParents hq).2 ⟨key, (hpq _).1 hpatch⟩
  rw [addedDepth] at h ⊢
  rw [hparents] at h
  -- The two walks may have different numbers of steps: `q` may repeat patches of `p`.
  refine depthBelow_congr ((addedParents q).map (·.1)) hparents (fun n hn => ?_)
    (List.nodup_cons.2 ⟨List.not_mem_nil, List.nodup_nil⟩) ?_ ?_ h
  · obtain ⟨parent, hn⟩ := Option.isSome_iff_exists.1 hn
    exact hmem n parent hn
  · exact List.cons_subset.2 ⟨hmem node parent hlookup, List.nil_subset _⟩
  · rw [List.length_map, List.length_singleton]
    omega

/-- The depths of the nodes of a batch depend on the set of patches only. -/
theorem depthsOfAdded_congr {p q : List Patch} (hpq : ∀ patch, patch ∈ p ↔ patch ∈ q)
    (hp : Patch.AddsOnce p) {added : List (NodeId × Nat)}
    (h : model.depthsOfAdded p = .ok added) :
    ∃ added', model.depthsOfAdded q = .ok added' ∧
      ∀ node, added'.lookup node = added.lookup node := by
  rw [depthsOfAdded_eq] at h
  have hnodes : ∀ node, node ∈ addedNodes q ↔ node ∈ addedNodes p := by
    intro node
    simp only [mem_addedNodes, hpq]
  have hdepth : ∀ node ∈ addedNodes q, ∃ depth, added.lookup node = some depth ∧
      model.addedDepth q node = .ok depth := by
    intro node hnode
    have hnode := (hnodes node).1 hnode
    obtain ⟨depth, hdepth⟩ := ok_of_mapM_pairs h node hnode
    exact ⟨depth, (lookup_mapM_pairs h).2 ⟨hnode, hdepth⟩,
      addedDepth_congr hpq hp hnode hdepth⟩
  obtain ⟨added', h'⟩ := exists_mapM_pairs fun node hnode =>
    (hdepth node hnode).imp fun _ => And.right
  refine ⟨added', by rw [depthsOfAdded_eq, h'], fun node => Option.ext fun depth => ?_⟩
  rw [lookup_mapM_pairs h', hnodes]
  constructor
  · rintro ⟨hnode, hq⟩
    obtain ⟨depth', hlookup, hq'⟩ := hdepth node ((hnodes node).2 hnode)
    rw [hlookup, Except.ok.inj (hq'.symm.trans hq)]
  · intro hlookup
    obtain ⟨hnode, hp'⟩ := (lookup_mapM_pairs h).1 hlookup
    exact ⟨hnode, addedDepth_congr hpq hp hnode hp'⟩

/-! ## Taken handles -/

theorem hasNode_addNode {id node : NodeId} {path : StatePath} :
    (model.addNode id path).hasNode node = (model.hasNode node || node == id) := by
  rw [hasNode, hasNode, addNode, List.lookup_append, List.lookup_cons]
  cases model.paths.lookup node with
  | some found => rfl
  | none => cases node == id <;> rfl

end Model

namespace Session

variable {session : Session}

/-- A node can be added if its handle is free and its parent is there. -/
theorem addNode_eq_ok {node parent : NodeId} {key : String} {steps : List PatchStep} :
    session.addNode node parent key = .ok steps ↔
      session.model.hasNode node = false ∧ ∃ path, session.model.path parent = .ok path ∧
        steps = [(.addState path key, session.model.addNode node (path ++ [key]))] := by
  rw [addNode]
  cases session.model.hasNode node with
  | true => simp [throw, throwThe, MonadExceptOf.throw, bind, Except.bind]
  | false =>
    cases session.model.path parent with
    | error e => simp [bind, Except.bind]
    | ok path => simp [bind, Except.bind, pure, Except.pure, eq_comm]

/-- A single edit that is made leaves the places that it was said to leave. -/
theorem runSteps_singleton {kind : String} {edit : Edit} {model : Model} {edits : List Edit}
    (h : (runSteps kind session [(edit, model)]).edits = .ok edits) :
    (runSteps kind session [(edit, model)]).after.model = model := by
  rw [runSteps] at h ⊢
  cases happly : session.editor.apply edit with
  | error cause => rw [happly] at h; cases h
  | ok editor => rfl

/-- An added node takes a handle that was free. -/
theorem applyOne_addNode {node parent : NodeId} {key : String} {edits : List Edit}
    (h : (session.applyOne (.addNode node parent key)).edits = .ok edits) :
    session.model.hasNode node = false ∧
      ∃ path, (session.applyOne (.addNode node parent key)).after.model =
        session.model.addNode node path := by
  have heq : session.stepsOf (.addNode node parent key) = session.addNode node parent key := rfl
  rw [applyOne, heq] at h ⊢
  cases hsteps : session.addNode node parent key with
  | error e => rw [hsteps] at h; cases h
  | ok steps =>
    obtain ⟨hfree, path, -, rfl⟩ := addNode_eq_ok.1 hsteps
    rw [hsteps] at h
    exact ⟨hfree, _, runSteps_singleton h⟩

/-- A batch that is made has each of its patches made, one after the other. -/
theorem applyInOrder_cons {patch : Patch} {rest : List Patch} {edits : List Edit}
    (h : (session.applyInOrder (patch :: rest)).edits = .ok edits) :
    (∃ first, (session.applyOne patch).edits = .ok first) ∧
      ∃ more, ((session.applyOne patch).after.applyInOrder rest).edits = .ok more := by
  rw [applyInOrder] at h
  cases hfirst : (session.applyOne patch).edits with
  | error e => simp only [hfirst] at h; cases h
  | ok first =>
    refine ⟨⟨first, rfl⟩, ?_⟩
    simp only [hfirst] at h
    cases hmore : ((session.applyOne patch).after.applyInOrder rest).edits with
    | error e => rw [hmore] at h; cases h
    | ok more => exact ⟨more, rfl⟩

/-- Only additions come before an addition. -/
theorem eq_addNode_of_phase_le {patch : Patch} {node parent : NodeId} {key : String}
    (h : patch.phase ≤ (Patch.addNode node parent key).phase) :
    ∃ node' parent' key', patch = .addNode node' parent' key' := by
  cases patch <;> simp [Patch.phase] at h
  exact ⟨_, _, _, rfl⟩

/-- A node is not added under a handle that is taken: the patches that come before its
    addition leave the handle taken. -/
theorem not_mem_of_hasNode {patches : List Patch} {edits : List Edit}
    (hphase : patches.Pairwise (·.phase ≤ ·.phase)) {node : NodeId}
    (hnode : session.model.hasNode node = true)
    (h : (session.applyInOrder patches).edits = .ok edits) (parent : NodeId) (key : String) :
    .addNode node parent key ∉ patches := by
  induction patches generalizing session edits with
  | nil => exact List.not_mem_nil
  | cons patch rest ih =>
    obtain ⟨hfirst, hrest⟩ := List.pairwise_cons.1 hphase
    obtain ⟨⟨first, happly⟩, more, hmore⟩ := applyInOrder_cons h
    intro hmem
    rcases List.mem_cons.1 hmem with rfl | hin
    · exact absurd hnode (by simp [(applyOne_addNode happly).1])
    -- Additions come first, so the patch before this one is an addition too.
    · obtain ⟨node', parent', key', rfl⟩ := eq_addNode_of_phase_le (hfirst _ hin)
      obtain ⟨-, path, hmodel⟩ := applyOne_addNode happly
      refine ih hrest ?_ hmore hin
      rw [hmodel, Model.hasNode_addNode, hnode, Bool.true_or]

/-- A batch that is made adds no node twice. -/
theorem addsOnce_of_applyInOrder {patches : List Patch} {edits : List Edit}
    (hphase : patches.Pairwise (·.phase ≤ ·.phase))
    (h : (session.applyInOrder patches).edits = .ok edits) : Patch.AddsOnce patches := by
  induction patches generalizing session edits with
  | nil => exact fun _ _ _ _ _ hmem => absurd hmem List.not_mem_nil
  | cons patch rest ih =>
    obtain ⟨-, hrest⟩ := List.pairwise_cons.1 hphase
    obtain ⟨⟨first, happly⟩, more, hmore⟩ := applyInOrder_cons h
    -- Once the first patch has added a node, no other one adds it.
    have hother : ∀ node parent key parent' key', patch = .addNode node parent key →
        .addNode node parent' key' ∉ rest := by
      rintro node parent key parent' key' rfl
      obtain ⟨-, path, hmodel⟩ := applyOne_addNode happly
      refine not_mem_of_hasNode hrest ?_ hmore parent' key'
      rw [hmodel, Model.hasNode_addNode, beq_self_eq_true, Bool.or_true]
    intro node parent key parent' key' hmem hmem'
    rcases List.mem_cons.1 hmem with hpatch | hin
    · rcases List.mem_cons.1 hmem' with hpatch' | hin'
      · exact (Patch.addNode.inj (hpatch.trans hpatch'.symm)).2
      · exact absurd hin' (hother node parent key parent' key' hpatch.symm)
    · rcases List.mem_cons.1 hmem' with hpatch' | hin'
      · exact absurd hin (hother node parent' key' parent key hpatch'.symm)
      · exact ih hrest hmore node parent key parent' key' hin hin'

/-- A batch that can be made adds no node twice, whatever depths it is ordered by. -/
theorem addsOnce_of_canonicalOrder {patches : List Patch} {added : List (NodeId × Nat)}
    {edits : List Edit}
    (h : (session.applyInOrder (Patch.canonicalOrder (session.depth added) patches)).edits =
      .ok edits) : Patch.AddsOnce patches := by
  have hphase := (Patch.pairwise_canonicalOrder (session.depth added) patches).imp
    Patch.phase_le_of_precedes
  intro node parent key parent' key' hmem hmem'
  exact addsOnce_of_applyInOrder hphase h node parent key parent' key'
    (Patch.mem_canonicalOrder.2 hmem) (Patch.mem_canonicalOrder.2 hmem')

theorem addsOnce_of_apply {patches : List Patch} {edits : List Edit}
    (h : (session.apply patches).edits = .ok edits) : Patch.AddsOnce patches := by
  rw [apply] at h
  cases hadded : session.model.depthsOfAdded patches with
  | error e => rw [hadded] at h; cases h
  | ok added =>
    rw [hadded] at h
    exact addsOnce_of_canonicalOrder h

/-- What comes of a batch that can be made depends on the set of its patches only. -/
theorem apply_congr {p q : List Patch} (hpq : ∀ patch, patch ∈ p ↔ patch ∈ q)
    {edits : List Edit} (h : (session.apply p).edits = .ok edits) :
    session.apply q = session.apply p := by
  -- A batch that is made adds each node once. So the depths of its nodes are those that its
  -- set of patches gives them, and with the depths the order is fixed.
  have hp := addsOnce_of_apply h
  rw [apply] at h
  cases hadded : session.model.depthsOfAdded p with
  | error e => rw [hadded] at h; cases h
  | ok added =>
    obtain ⟨added', hadded', hlookup⟩ := Model.depthsOfAdded_congr hpq hp hadded
    have hdepth : session.depth added' = session.depth added := by
      funext node
      rw [depth, depth, hlookup]
    rw [apply, apply, hadded, hadded']
    simp only
    rw [hdepth, Patch.canonicalOrder_congr hpq]

/-- The order of a batch, and how often it repeats a patch, do not matter: when it can be
    made as given by `p`, it can be made as given by `q`, with the same edits, draft, places
    of handles and text edits. So it is refused either way or not at all. -/
theorem batch_order_irrelevant (session : Session) (p q : List Patch)
    (hpq : ∀ patch, patch ∈ p ↔ patch ∈ q) :
    (∀ edits, (session.apply p).edits = .ok edits →
      (session.apply q).edits = .ok edits ∧
      (session.apply q).after.editor.draft = (session.apply p).after.editor.draft ∧
      (session.apply q).after.model = (session.apply p).after.model ∧
      (session.apply q).after.editor.textEdits = (session.apply p).after.editor.textEdits) ∧
    ((∃ e, (session.apply p).edits = .error e) ↔ ∃ e, (session.apply q).edits = .error e) := by
  constructor
  · intro edits h
    rw [apply_congr hpq h]
    exact ⟨h, rfl, rfl, rfl⟩
  · constructor
    · rintro ⟨e, h⟩
      cases hq : (session.apply q).edits with
      | error e' => exact ⟨e', rfl⟩
      | ok edits => rw [apply_congr (fun patch => (hpq patch).symm) hq, hq] at h; cases h
    · rintro ⟨e, h⟩
      cases hp : (session.apply p).edits with
      | error e' => exact ⟨e', rfl⟩
      | ok edits => rw [apply_congr hpq hp, hp] at h; cases h

/-- A session for a machine with one state, `a`. -/
def oneState : Session :=
  let config : Expr := .object (.source ⟨14, 35⟩)
    [⟨.source ⟨16, 33⟩, .ident "states", some ⟨16, 22⟩, .object (.source ⟨24, 33⟩)
      [⟨.source ⟨26, 31⟩, .ident "a", some ⟨26, 27⟩, .object (.source ⟨29, 31⟩) []⟩]⟩]
  ofEditor (.ofMachine "createMachine(\x7b states: \x7b a: \x7b\x7d \x7d \x7d)"
    ⟨"createMachine", ⟨0, 36⟩, config, none, none⟩ {})

/-- Two nodes, one below the other, and once more with the inner one first and repeated: the
    outer node is added first either way. -/
theorem batch_order_irrelevant_nested :
    (oneState.apply [.addNode 2 1 "b", .addNode 3 2 "c"]).edits =
      .ok [.addState ["a"] "b", .addState ["a", "b"] "c"] ∧
    (oneState.apply [.addNode 3 2 "c", .addNode 2 1 "b", .addNode 3 2 "c"]).edits =
      .ok [.addState ["a"] "b", .addState ["a", "b"] "c"] := by
  have hdepths : oneState.model.depthsOfAdded [.addNode 2 1 "b", .addNode 3 2 "c"] =
      .ok [(2, 2), (3, 3)] := by decide +kernel
  have horder : Patch.canonicalOrder (oneState.depth [(2, 2), (3, 3)])
      [.addNode 2 1 "b", .addNode 3 2 "c"] = [.addNode 2 1 "b", .addNode 3 2 "c"] :=
    Patch.canonicalOrder_eq_of_pairwise (by decide +kernel) (by decide +kernel) fun _ => Iff.rfl
  have h : (oneState.apply [.addNode 2 1 "b", .addNode 3 2 "c"]).edits =
      .ok [.addState ["a"] "b", .addState ["a", "b"] "c"] := by
    rw [apply, hdepths]
    simp only
    rw [horder]
    decide +kernel
  exact ⟨h, ((batch_order_irrelevant oneState _ _ (by simp [or_comm])).1 _ h).1⟩

end Session

end Statechart
