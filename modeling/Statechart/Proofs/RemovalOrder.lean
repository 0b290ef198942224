import Mathlib.Data.List.TakeWhile
import Statechart.Proofs.HandleOrder

/-!
# The order of removals

The nodes that a batch removes are removed last, the deeper ones first. How deep a node lies is
looked up before any patch is made, and worked out for the nodes that the batch adds. Additions and
new keys keep to these depths, so that a node is removed before those above it. A node that the
batch moves below another counts with the depth that it had: it may be removed after that one, and
is not known then.

* `Model.IsAbove`: a node stands above another;
* `Model.Leveled`: nodes lie as deep as is said;
* `Session.leveled_applyOne`, `Session.leveled_applyInOrder`: patches that neither remove nor move
  nodes keep them so;
* `Session.not_sublist_of_isAbove`: removals that can be made do not remove a node after one above
  it;
* `Session.removed_first_iff`: when a node is removed before one above it;
* `Session.moved_not_removed_first`: a node that is moved may not be.
-/

namespace Statechart

namespace Patch

/-- Whether a patch removes a node. -/
def removesNode : Patch → Bool
  | removeNode .. => true
  | _ => false

/-- Whether a patch gives a node another parent. -/
def reparents : Patch → Bool
  | replaceNodeParent .. => true
  | _ => false

end Patch

namespace Model

variable {model : Model} {depth : NodeId → Nat}

/-- A node stands above another. -/
def IsAbove (model : Model) (above node : NodeId) : Prop :=
  ∃ path rest, rest ≠ [] ∧ model.paths.lookup above = some path ∧
    model.paths.lookup node = some (path ++ rest)

/-- Nodes lie as deep as is said. -/
def Leveled (model : Model) (depth : NodeId → Nat) : Prop :=
  ∀ node path, model.paths.lookup node = some path → path.length = depth node

/-- A node that is added one step below its parent keeps to the depths. -/
theorem Leveled.addNode (h : model.Leveled depth) {node parent : NodeId} {path : StatePath}
    {key : String} (hparent : model.path parent = .ok path)
    (hdepth : depth node = depth parent + 1) :
    (model.addNode node (path ++ [key])).Leveled depth := by
  intro other path' hlookup
  rw [Model.addNode, List.lookup_append, Option.or_eq_some_iff] at hlookup
  rcases hlookup with hlookup | ⟨-, hlookup⟩
  · exact h other path' hlookup
  · have hmem := mem_of_lookup hlookup
    obtain ⟨rfl, rfl⟩ := Prod.mk.inj (List.mem_singleton.1 hmem)
    rw [List.length_append, List.length_singleton, hdepth, h parent path (path_eq_ok.1 hparent)]

/-- Nodes that move to a path of the same length keep to the depths. -/
theorem Leveled.moveSubtree (h : model.Leveled depth) {old new : StatePath}
    (hlength : new.length = old.length) : (model.moveSubtree old new).Leveled depth := by
  intro node path hlookup
  rw [lookup_moveSubtree, Option.map_eq_some_iff] at hlookup
  obtain ⟨before, hbefore, rfl⟩ := hlookup
  rw [← h node before hbefore]
  split
  · next hbelow =>
    have htake : (before.take old.length).length = old.length :=
      congrArg List.length (beq_iff_eq.1 hbelow)
    rw [List.length_take] at htake
    rw [List.length_append, List.length_drop, hlength]
    omega
  · rfl

/-- Entries that are kept by their keys are found as before. -/
theorem lookup_filter_fst (keep : NodeId → Bool) {l : List (NodeId × StatePath)} {node : NodeId} :
    (l.filter (keep ·.1)).lookup node = if keep node then l.lookup node else none := by
  induction l with
  | nil => simp
  | cons entry l ih =>
    obtain ⟨id, path⟩ := entry
    rw [List.filter_cons]
    by_cases heq : node = id
    · subst heq
      cases hkeep : keep node with
      | true => simp
      | false => simpa [hkeep] using ih
    · have hne : (node == id) = false := beq_eq_false_iff_ne.2 heq
      split
      · rw [List.lookup_cons, List.lookup_cons, hne, ih]
      · rw [List.lookup_cons, hne, ih]

theorem lookup_dropSubtree {root : StatePath} {node : NodeId} :
    (model.dropSubtree root).paths.lookup node =
      if ((model.paths.filter (isBelow root ·.2)).map (·.1)).contains node then none
      else model.paths.lookup node := by
  rw [dropSubtree]
  dsimp only
  rw [lookup_filter_fst fun id => !List.contains _ id]
  cases List.contains _ node <;> rfl

variable (model) in
/-- A node goes with a subtree, or stays where it is. -/
theorem lookup_dropSubtree_or (root : StatePath) (node : NodeId) :
    (model.dropSubtree root).paths.lookup node = none ∨
      (model.dropSubtree root).paths.lookup node = model.paths.lookup node := by
  rw [lookup_dropSubtree]
  split
  · exact .inl rfl
  · exact .inr rfl

/-- What is below a path goes with it. -/
theorem lookup_dropSubtree_of_isBelow {root path : StatePath} {node : NodeId}
    (hpath : model.paths.lookup node = some path) (hbelow : isBelow root path = true) :
    (model.dropSubtree root).paths.lookup node = none := by
  have hmem : (node, path) ∈ model.paths.filter (isBelow root ·.2) :=
    List.mem_filter.2 ⟨mem_of_lookup hpath, hbelow⟩
  rw [lookup_dropSubtree, if_pos (List.contains_iff_mem.2 (List.mem_map_of_mem hmem))]

end Model

namespace Session

variable {session : Session} {patch : Patch} {patches : List Patch} {edits : List Edit}
  {depth : NodeId → Nat}

/-! ## Patches and paths -/

theorem paths_applyOne (hkeeps : patch.changesPaths = false) :
    (session.applyOne patch).after.model.paths = session.model.paths := by
  rcases change_applyOne session patch with h | h
  · exact congrArg Model.paths h
  · exact h.paths_eq hkeeps

/-- A node that is removed is known, and goes with what is below it. -/
theorem exists_of_removeNode {node : NodeId}
    (h : (session.applyOne (.removeNode node)).edits = .ok edits) :
    ∃ path, session.model.paths.lookup node = some path ∧
      (session.applyOne (.removeNode node)).after.model = session.model.dropSubtree path := by
  obtain ⟨steps, hsteps⟩ := exists_stepsOf h
  obtain ⟨path, hpath, hsteps'⟩ := bind_eq_ok.1 hsteps
  cases hsteps'
  obtain ⟨draft, -, hafter⟩ := exists_of_applyOne_singleton hsteps h
  exact ⟨path, Model.path_eq_ok.1 hpath, congrArg Session.model hafter⟩

/-- Patches that neither remove nor move nodes keep nodes at their depths, if additions do. -/
theorem leveled_applyOne (hleveled : session.model.Leveled depth)
    (hremoves : patch.removesNode = false) (hmoves : patch.reparents = false)
    (hadds : ∀ node parent key, patch = .addNode node parent key → depth node = depth parent + 1)
    (h : (session.applyOne patch).edits = .ok edits) :
    (session.applyOne patch).after.model.Leveled depth := by
  obtain ⟨steps, hsteps⟩ := exists_stepsOf h
  cases patch with
  | addNode node parent key =>
    obtain ⟨-, path, hparent, rfl⟩ := addNode_eq_ok.1 hsteps
    obtain ⟨draft, -, hafter⟩ := exists_of_applyOne_singleton hsteps h
    rw [hafter]
    exact hleveled.addNode hparent (hadds node parent key rfl)
  | replaceNodeKey node key =>
    obtain ⟨path, -, hsteps'⟩ := bind_eq_ok.1 hsteps
    cases hsteps'
    obtain ⟨draft, hrename, hafter⟩ := exists_of_applyOne_singleton hsteps h
    rw [hafter]
    -- The root has no key, so that it cannot get another.
    have hne : path ≠ [] := by
      rintro rfl
      cases hrename
    refine hleveled.moveSubtree ?_
    rw [List.length_append, List.length_dropLast, List.length_singleton]
    have := List.length_pos_iff.2 hne
    omega
  | removeNode node => cases hremoves
  | replaceNodeParent node parent => cases hmoves
  | _ =>
    intro node path hpath
    rw [paths_applyOne rfl] at hpath
    exact hleveled node path hpath

theorem after_applyInOrder_cons {rest : List Patch}
    (h : (session.applyOne patch).edits = .ok edits) :
    (session.applyInOrder (patch :: rest)).after =
      ((session.applyOne patch).after.applyInOrder rest).after := by
  rw [applyInOrder]
  simp only [h]

theorem leveled_applyInOrder (hleveled : session.model.Leveled depth)
    (hremoves : ∀ patch ∈ patches, patch.removesNode = false)
    (hmoves : ∀ patch ∈ patches, patch.reparents = false)
    (hadds : ∀ node parent key, .addNode node parent key ∈ patches →
      depth node = depth parent + 1)
    (h : (session.applyInOrder patches).edits = .ok edits) :
    (session.applyInOrder patches).after.model.Leveled depth := by
  induction patches generalizing session edits with
  | nil => exact hleveled
  | cons patch rest ih =>
    obtain ⟨⟨first, hfirst⟩, more, hmore⟩ := applyInOrder_cons h
    rw [after_applyInOrder_cons hfirst]
    obtain ⟨hremoves, hremoves'⟩ := List.forall_mem_cons.1 hremoves
    obtain ⟨hmoves, hmoves'⟩ := List.forall_mem_cons.1 hmoves
    refine ih (leveled_applyOne hleveled hremoves hmoves ?_ hfirst) hremoves' hmoves' ?_ hmore
    · rintro node parent key rfl
      exact hadds node parent key List.mem_cons_self
    · exact fun node parent key hmem => hadds node parent key (List.mem_cons_of_mem _ hmem)

/-! ## Removals that can be made -/

/-- A node that is not known is not removed. -/
theorem not_mem_of_unknown (hremoves : ∀ patch ∈ patches, patch.removesNode = true)
    (h : (session.applyInOrder patches).edits = .ok edits) {node : NodeId}
    (hnode : session.model.paths.lookup node = none) : .removeNode node ∉ patches := by
  induction patches generalizing session edits with
  | nil => exact List.not_mem_nil
  | cons patch rest ih =>
    obtain ⟨⟨first, hfirst⟩, more, hmore⟩ := applyInOrder_cons h
    obtain ⟨hremove, hrest⟩ := List.forall_mem_cons.1 hremoves
    cases patch with
    | removeNode other =>
      obtain ⟨path, hpath, hafter⟩ := exists_of_removeNode hfirst
      intro hmem
      rcases List.mem_cons.1 hmem with heq | hmem
      · obtain rfl := Patch.removeNode.inj heq
        rw [hnode] at hpath
        cases hpath
      · refine ih hrest hmore ?_ hmem
        rw [hafter]
        rcases session.model.lookup_dropSubtree_or path node with hnone | hsame
        · exact hnone
        · rw [hsame, hnode]
    | _ => cases hremove

/-- Removals that can be made do not remove a node after one above it. -/
theorem not_sublist_of_isAbove (hremoves : ∀ patch ∈ patches, patch.removesNode = true)
    (h : (session.applyInOrder patches).edits = .ok edits) {x y : NodeId}
    (habove : session.model.IsAbove y x) :
    ¬[Patch.removeNode y, .removeNode x].Sublist patches := by
  -- By the removals: each takes the two along or leaves them where they are, and the one of the
  -- upper node takes the lower one along.
  induction patches generalizing session edits with
  | nil => simp
  | cons patch rest ih =>
    obtain ⟨⟨first, hfirst⟩, more, hmore⟩ := applyInOrder_cons h
    obtain ⟨hremove, hrest⟩ := List.forall_mem_cons.1 hremoves
    obtain ⟨path, below, hne, hy, hx⟩ := habove
    cases patch with
    | removeNode other =>
      obtain ⟨root, hroot, hafter⟩ := exists_of_removeNode hfirst
      have hgone : ∀ node, (session.model.dropSubtree root).paths.lookup node = none →
          .removeNode node ∉ rest := fun node hnone =>
        not_mem_of_unknown hrest hmore (by rw [hafter]; exact hnone)
      intro hsub
      cases hsub with
      | cons _ hsub =>
        have hmem : .removeNode y ∈ rest ∧ .removeNode x ∈ rest :=
          ⟨hsub.subset List.mem_cons_self, hsub.subset (by simp)⟩
        rcases session.model.lookup_dropSubtree_or root y with hnone | hy'
        · exact hgone y hnone hmem.1
        rcases session.model.lookup_dropSubtree_or root x with hnone | hx'
        · exact hgone x hnone hmem.2
        refine ih hrest hmore ?_ hsub
        rw [hafter]
        exact ⟨path, below, hne, hy'.trans hy, hx'.trans hx⟩
      | cons_cons _ hsub =>
        obtain rfl := Option.some.inj (hroot.symm.trans hy)
        refine hgone x (Model.lookup_dropSubtree_of_isBelow hx ?_) (hsub.subset List.mem_cons_self)
        rw [Model.isBelow, List.take_left, beq_self_eq_true]
    | _ => cases hremove

/-! ## The depths of a batch -/

section Depths

variable {added : List (NodeId × Nat)} (hadded : session.model.depthsOfAdded patches = .ok added)

include hadded

/-- A node that is known and not added lies as deep as it stands. -/
theorem depth_of_known {node : NodeId} {path : StatePath}
    (hpath : session.model.paths.lookup node = some path)
    (hnew : ∀ parent key, .addNode node parent key ∉ patches) :
    session.depth added node = path.length := by
  have hnone : added.lookup node = none := by
    rw [Model.depthsOfAdded_eq] at hadded
    refine Option.eq_none_iff_forall_ne_some.2 fun depth hdepth => ?_
    obtain ⟨parent, key, hpatch⟩ :=
      Model.mem_addedNodes.1 ((Model.lookup_mapM_pairs hadded).1 hdepth).1
    exact hnew parent key hpatch
  rw [depth, hnone, hpath]
  rfl

/-- A node that is added once lies one step below its parent. -/
theorem depth_of_addNode (honce : Patch.AddsOnce patches)
    (hnew : ∀ node parent key, .addNode node parent key ∈ patches →
      session.model.hasNode node = false)
    {node parent : NodeId} {key : String} (hpatch : .addNode node parent key ∈ patches) :
    session.depth added node = session.depth added parent + 1 := by
  have hlist := hadded
  rw [Model.depthsOfAdded_eq] at hlist
  have hfound : ∀ {node parent key}, .addNode node parent key ∈ patches → ∃ depth,
      session.model.depthBelow (Model.addedParents patches)
        ((Model.addedParents patches).length + 1) [node] parent = .ok depth ∧
      session.depth added node = depth := by
    intro node parent key hpatch
    have hnode := Model.mem_addedNodes.2 ⟨parent, key, hpatch⟩
    obtain ⟨depth, hdepth⟩ := Model.ok_of_mapM_pairs hlist node hnode
    refine ⟨depth, ?_, ?_⟩
    · rwa [Model.addedDepth, (Model.lookup_addedParents honce).2 ⟨key, hpatch⟩,
        Option.getD_some] at hdepth
    · rw [Session.depth, (Model.lookup_mapM_pairs hlist).2 ⟨hnode, hdepth⟩]
      rfl
  obtain ⟨depth, hbelow, hdepth⟩ := hfound hpatch
  rw [hdepth]
  obtain ⟨_, -, ⟨path, hpath, rfl⟩ | ⟨-, -, next, rest, hnext, hrest, rfl⟩⟩ :=
    Model.depthBelow_eq_ok hbelow
  · rw [depth_of_known hadded hpath fun above key' hpatch' => ?_]
    have hknown := hnew parent above key' hpatch'
    rw [Model.hasNode, hpath] at hknown
    cases hknown
  · obtain ⟨key', hpatch'⟩ := (Model.lookup_addedParents honce).1 hnext
    obtain ⟨depth', hbelow', hdepth'⟩ := hfound hpatch'
    rw [hdepth', Model.depthBelow_unique hbelow' hrest]

/-- Depths fit 64 bits if those of known nodes and the length of the batch do. -/
theorem depth_lt
    (hfits : ∀ entry ∈ session.model.paths, entry.2.length + patches.length + 1 < 2 ^ 63)
    (node : NodeId) : session.depth added node < 2 ^ 63 := by
  rw [depth]
  cases hlookup : added.lookup node with
  | some depth =>
    obtain ⟨entry, hentry, hle⟩ := Model.exists_lookup_le hadded hlookup
    have := hfits entry hentry
    simp only [Option.some_or, Option.getD_some]
    omega
  | none =>
    cases hpath : session.model.paths.lookup node with
    | some path =>
      have : path.length + patches.length + 1 < 2 ^ 63 := hfits _ (Model.mem_of_lookup hpath)
      simp only [Option.none_or, Option.map_some, Option.getD_some]
      omega
    | none => simp

end Depths

end Session

/-! ## The order of removals -/

namespace Patch

variable {depth : NodeId → Nat} {patches : List Patch} {x y : NodeId}

/-- Of two removals, the one of the deeper node comes first, and else that of the lower handle. -/
theorem precedes_removeNode_iff (hx : depth x < 2 ^ 63) (hy : depth y < 2 ^ 63) :
    precedes depth (.removeNode x) (.removeNode y) = true ↔
      depth y < depth x ∨ depth y = depth x ∧ x ≤ y := by
  have hkey : (!List.lex [1, y] [1, x] fun m n => decide (m < n)) = true ↔ x ≤ y := by
    simp [List.lex]
  simp only [precedes, phase, rank, sortKey, ne_eq, not_true_eq_false, if_false, wrap64_neg hx,
    wrap64_neg hy]
  split
  · next hne =>
    rw [decide_eq_true_eq]
    omega
  · next heq =>
    have hdepth : depth y = depth x := by omega
    simp only [hkey, hdepth, lt_self_iff_false, true_and, false_or]

/-- One patch comes before another if the order says so. -/
theorem pair_sublist_canonicalOrder {a b : Patch} (ha : a ∈ patches) (hb : b ∈ patches)
    (hne : a ≠ b) :
    [a, b].Sublist (canonicalOrder depth patches) ↔ precedes depth a b = true := by
  have hfirst : ∀ {a b}, [a, b].Sublist (canonicalOrder depth patches) →
      precedes depth a b = true := fun hsub =>
    (List.pairwise_cons.1 ((pairwise_canonicalOrder depth patches).sublist hsub)).1 _
      List.mem_cons_self
  refine ⟨hfirst, fun hab => ?_⟩
  refine (pair_sublist_or (mem_canonicalOrder.2 ha) (mem_canonicalOrder.2 hb) hne).resolve_right ?_
  exact fun hsub => hne (precedence_injective depth
    (le_antisymm (precedes_iff.1 hab) (precedes_iff.1 (hfirst hsub))))

/-- From the first removal of a node on, nodes are removed. -/
theorem removesNode_of_mem_dropWhile (depth : NodeId → Nat) (patches : List Patch) :
    ∀ patch ∈ (canonicalOrder depth patches).dropWhile (!·.removesNode),
      patch.removesNode = true := by
  have hphase := (pairwise_canonicalOrder depth patches).imp phase_le_of_precedes
  have hlast : ∀ a b : Patch, a.removesNode = true → a.phase ≤ b.phase → b.removesNode = true := by
    intro a b ha hle
    cases a <;> cases ha
    cases b <;> simp [phase] at hle
    rfl
  generalize canonicalOrder depth patches = order at hphase ⊢
  induction order with
  | nil => exact fun _ h => absurd h List.not_mem_nil
  | cons first rest ih =>
    obtain ⟨hfirst, hrest⟩ := List.pairwise_cons.1 hphase
    rw [List.dropWhile_cons]
    split
    · exact ih hrest
    · next hremoves =>
      have hremoves : first.removesNode = true := by simpa using hremoves
      exact List.forall_mem_cons.2
        ⟨hremoves, fun patch hpatch => hlast first patch hremoves (hfirst patch hpatch)⟩

end Patch

namespace Session

variable {session : Session} {patches : List Patch} {edits : List Edit}

/-- Patches that can be made leave a session in which those behind them can. -/
theorem applyInOrder_append {before behind : List Patch}
    (h : (session.applyInOrder (before ++ behind)).edits = .ok edits) :
    ∃ more, ((session.applyInOrder before).after.applyInOrder behind).edits = .ok more := by
  induction before generalizing session edits with
  | nil => exact ⟨edits, h⟩
  | cons patch before ih =>
    obtain ⟨⟨first, hfirst⟩, more, hmore⟩ := applyInOrder_cons h
    rw [after_applyInOrder_cons hfirst]
    exact ih hmore

variable (session) in
/-- The order of a batch whose added nodes lie at the given depths. -/
def order (added : List (NodeId × Nat)) (patches : List Patch) : List Patch :=
  Patch.canonicalOrder (session.depth added) patches

variable (session) in
/-- What comes of a batch up to the first removal of a node. -/
def untilRemovals (added : List (NodeId × Nat)) (patches : List Patch) : Outcome :=
  session.applyInOrder ((session.order added patches).takeWhile (!·.removesNode))

variable {added : List (NodeId × Nat)} {x y : NodeId}

theorem apply_eq_applyInOrder (hadded : session.model.depthsOfAdded patches = .ok added) :
    session.apply patches = session.applyInOrder (session.order added patches) := by
  rw [apply, hadded]
  rfl

/-- Removals come in the order of the depths before the batch, and of the handles. -/
theorem removeNode_sublist_iff
    (hfits : ∀ entry ∈ session.model.paths, entry.2.length + patches.length + 1 < 2 ^ 63)
    (hadded : session.model.depthsOfAdded patches = .ok added) (hx : .removeNode x ∈ patches)
    (hy : .removeNode y ∈ patches) (hne : x ≠ y) :
    [.removeNode x, .removeNode y].Sublist (session.order added patches) ↔
      session.depth added y < session.depth added x ∨
        session.depth added y = session.depth added x ∧ x < y := by
  have hlt : x ≤ y ↔ x < y := ⟨fun hle => Nat.lt_of_le_of_ne hle hne, Nat.le_of_lt⟩
  rw [← hlt, ← Patch.precedes_removeNode_iff (depth_lt hadded hfits x) (depth_lt hadded hfits y)]
  exact Patch.pair_sublist_canonicalOrder hx hy fun heq => hne (Patch.removeNode.inj heq)

variable (session added patches) in
/-- A batch is made up to its removals of nodes, and then these. -/
theorem order_eq : session.order added patches =
    (session.order added patches).takeWhile (!·.removesNode) ++
      (session.order added patches).dropWhile (!·.removesNode) :=
  List.takeWhile_append_dropWhile.symm

/-- The patches before the removals are those that remove no node. -/
theorem mem_takeWhile_order {patch : Patch} :
    patch ∈ (session.order added patches).takeWhile (!·.removesNode) ↔
      patch ∈ patches ∧ patch.removesNode = false := by
  have hmem : patch ∈ session.order added patches ↔ patch ∈ patches := Patch.mem_canonicalOrder
  constructor
  · intro hpatch
    exact ⟨hmem.1 ((List.takeWhile_sublist _).subset hpatch),
      by simpa using List.mem_takeWhile_imp hpatch⟩
  · rintro ⟨hpatch, hkeeps⟩
    rw [← hmem, order_eq, List.mem_append] at hpatch
    refine hpatch.resolve_right fun hdrop => ?_
    rw [Patch.removesNode_of_mem_dropWhile _ _ patch hdrop] at hkeeps
    cases hkeeps

/-- When nodes are removed from a batch that gives none another parent, they lie as deep as the
    batch was ordered by. -/
theorem leveled_untilRemovals (hadded : session.model.depthsOfAdded patches = .ok added)
    (hmoves : ∀ patch ∈ patches, patch.reparents = false)
    (hmade : (session.untilRemovals added patches).edits = .ok edits) :
    (session.untilRemovals added patches).after.model.Leveled (session.depth added) := by
  have hphase : ((session.order added patches).takeWhile (!·.removesNode)).Pairwise
      (·.phase ≤ ·.phase) :=
    ((Patch.pairwise_canonicalOrder _ patches).imp Patch.phase_le_of_precedes).sublist
      (List.takeWhile_sublist _)
  have hmem : ∀ {node parent key}, .addNode node parent key ∈ patches →
      .addNode node parent key ∈ (session.order added patches).takeWhile (!·.removesNode) :=
    fun hpatch => mem_takeWhile_order.2 ⟨hpatch, rfl⟩
  -- An addition that was made took a free handle, and no other one took the same.
  have honce : Patch.AddsOnce patches := fun node parent key parent' key' hpatch hpatch' =>
    addsOnce_of_applyInOrder hphase hmade node parent key parent' key' (hmem hpatch) (hmem hpatch')
  have hnew : ∀ node parent key, .addNode node parent key ∈ patches →
      session.model.hasNode node = false := by
    intro node parent key hpatch
    by_contra hknown
    exact not_mem_of_hasNode hphase (eq_true_of_ne_false hknown) hmade parent key (hmem hpatch)
  refine leveled_applyInOrder (fun node path hpath => ?_)
    (fun patch hpatch => (mem_takeWhile_order.1 hpatch).2)
    (fun patch hpatch => hmoves patch (mem_takeWhile_order.1 hpatch).1)
    (fun node parent key hpatch =>
      depth_of_addNode hadded honce hnew (mem_takeWhile_order.1 hpatch).1) hmade
  refine (depth_of_known hadded hpath fun parent key hpatch => ?_).symm
  have hfree := hnew node parent key hpatch
  rw [Model.hasNode, hpath] at hfree
  cases hfree

/-- A batch that can be made does not remove a node after one above it. -/
theorem not_sublist_of_made (hadded : session.model.depthsOfAdded patches = .ok added)
    (habove : (session.untilRemovals added patches).after.model.IsAbove y x)
    (h : (session.apply patches).edits = .ok edits) :
    ¬[.removeNode y, .removeNode x].Sublist (session.order added patches) := by
  have hremoves : ∀ patch ∈ (session.order added patches).dropWhile (!·.removesNode),
      patch.removesNode = true := Patch.removesNode_of_mem_dropWhile _ patches
  rw [apply_eq_applyInOrder hadded, order_eq] at h
  obtain ⟨more, hmore⟩ := applyInOrder_append h
  intro hsub
  refine not_sublist_of_isAbove hremoves hmore habove ?_
  -- Before the removals, no node is removed.
  have hfilter : (session.order added patches).filter Patch.removesNode =
      (session.order added patches).dropWhile (!·.removesNode) := by
    rw [order_eq, List.filter_append, List.filter_eq_nil_iff.2 ?_, List.nil_append, ← order_eq,
      List.filter_eq_self.2 hremoves]
    intro patch hpatch
    simp [(mem_takeWhile_order.1 hpatch).2]
  rw [← hfilter]
  exact hsub.filter Patch.removesNode

/-- Two nodes that a batch removes, one of which stands above the other once the patches before the
    removals are made: the lower one is removed first just if it was deeper before the batch, or
    equally deep with the lower handle. That is so when the batch gives no node another parent,
    and whenever it can be made. Depths have to fit 64 bits. -/
theorem removed_first_iff (session : Session) (patches : List Patch)
    (hfits : ∀ entry ∈ session.model.paths, entry.2.length + patches.length + 1 < 2 ^ 63)
    (added : List (NodeId × Nat)) (hadded : session.model.depthsOfAdded patches = .ok added)
    (hmade : ∃ edits, (session.untilRemovals added patches).edits = .ok edits)
    (x y : NodeId) (hx : .removeNode x ∈ patches) (hy : .removeNode y ∈ patches)
    (habove : (session.untilRemovals added patches).after.model.IsAbove y x) :
    ([.removeNode x, .removeNode y].Sublist (session.order added patches) ↔
      session.depth added y < session.depth added x ∨
        session.depth added y = session.depth added x ∧ x < y) ∧
    ((∀ patch ∈ patches, patch.reparents = false) →
      [.removeNode x, .removeNode y].Sublist (session.order added patches)) ∧
    ((∃ edits, (session.apply patches).edits = .ok edits) →
      [.removeNode x, .removeNode y].Sublist (session.order added patches)) := by
  obtain ⟨made, hmade⟩ := hmade
  obtain ⟨path, rest, hrest, hpath, hbelow⟩ := habove
  have hne : x ≠ y := by
    rintro rfl
    rw [hpath] at hbelow
    exact hrest (List.append_right_eq_self.1 (Option.some.inj hbelow).symm)
  have horder := removeNode_sublist_iff hfits hadded hx hy hne
  refine ⟨horder, fun hmoves => ?_, fun ⟨edits, h⟩ => ?_⟩
  · have hleveled := leveled_untilRemovals hadded hmoves hmade
    rw [horder, ← hleveled y path hpath, ← hleveled x _ hbelow, List.length_append]
    exact .inl (Nat.lt_add_of_pos_right (List.length_pos_iff.2 hrest))
  · rcases Patch.pair_sublist_or (Patch.mem_canonicalOrder.2 hx) (Patch.mem_canonicalOrder.2 hy)
      fun heq => hne (Patch.removeNode.inj heq) with hsub | hsub
    · exact hsub
    · exact absurd hsub (not_sublist_of_made hadded ⟨path, rest, hrest, hpath, hbelow⟩ h)

/-- A session for a machine with the states `a`, `d` inside `a`, and `b`. -/
def threeStates : Session :=
  let config : Expr := .object (.source ⟨14, 61⟩)
    [⟨.source ⟨16, 59⟩, .ident "states", some ⟨16, 22⟩, .object (.source ⟨24, 59⟩)
      [⟨.source ⟨26, 50⟩, .ident "a", some ⟨26, 27⟩, .object (.source ⟨29, 50⟩)
        [⟨.source ⟨31, 48⟩, .ident "states", some ⟨31, 37⟩, .object (.source ⟨39, 48⟩)
          [⟨.source ⟨41, 46⟩, .ident "d", some ⟨41, 42⟩, .object (.source ⟨44, 46⟩) []⟩]⟩]⟩,
      ⟨.source ⟨52, 57⟩, .ident "b", some ⟨52, 53⟩, .object (.source ⟨55, 57⟩) []⟩]⟩]
  ofEditor (.ofMachine
    ("createMachine(\x7b states: \x7b a: \x7b states: \x7b d: \x7b\x7d \x7d \x7d, " ++
      "b: \x7b\x7d \x7d \x7d);\n")
    ⟨"createMachine", ⟨0, 62⟩, config, none, none⟩ {})

/-- A node is added two levels below one that is renamed, and both are removed. -/
theorem removed_first_iff_added :
    [.removeNode 4, .removeNode 1].Sublist (threeStates.order [(4, 3)]
      [.addNode 4 2 "e", .replaceNodeKey 1 "c", .removeNode 4, .removeNode 1]) := by
  have hdepths : threeStates.model.depthsOfAdded
      [.addNode 4 2 "e", .replaceNodeKey 1 "c", .removeNode 4, .removeNode 1] = .ok [(4, 3)] := by
    decide +kernel
  have horder : threeStates.order [(4, 3)]
      [.addNode 4 2 "e", .replaceNodeKey 1 "c", .removeNode 4, .removeNode 1] =
        [.addNode 4 2 "e", .replaceNodeKey 1 "c", .removeNode 4, .removeNode 1] :=
    Patch.canonicalOrder_eq_of_pairwise (by decide +kernel) (by decide +kernel) fun _ => Iff.rfl
  have huntil : threeStates.untilRemovals [(4, 3)]
      [.addNode 4 2 "e", .replaceNodeKey 1 "c", .removeNode 4, .removeNode 1] =
        threeStates.applyInOrder [.addNode 4 2 "e", .replaceNodeKey 1 "c"] := by
    rw [untilRemovals, horder]
    rfl
  refine (removed_first_iff threeStates
    [.addNode 4 2 "e", .replaceNodeKey 1 "c", .removeNode 4, .removeNode 1] (by decide +kernel)
    [(4, 3)] hdepths ?_ 4 1 (by decide) (by decide) ?_).2.1 (by decide)
  · rw [huntil]
    exact ⟨[.addState ["a", "d"] "e", .renameState ["a"] "c"], by decide +kernel⟩
  · rw [huntil]
    exact ⟨["c"], ["d", "e"], by decide, by decide +kernel, by decide +kernel⟩

/-- A node that the batch moves below a deeper one is removed after that: it is not known any
    more. -/
theorem moved_not_removed_first : ∃ session : Session, session.Reachable ∧
    ∃ patches added, session.model.depthsOfAdded patches = .ok added ∧
      (∃ edits, (session.untilRemovals added patches).edits = .ok edits) ∧
      .removeNode 3 ∈ patches ∧ .removeNode 2 ∈ patches ∧
      (session.untilRemovals added patches).after.model.IsAbove 2 3 ∧
      ¬[.removeNode 3, .removeNode 2].Sublist (session.order added patches) ∧
      (session.apply patches).edits = .error (.unknownNode 3) := by
  have hdepths : threeStates.model.depthsOfAdded
      [.replaceNodeParent 3 2, .removeNode 2, .removeNode 3] = .ok [] := rfl
  have horder : threeStates.order [] [.replaceNodeParent 3 2, .removeNode 2, .removeNode 3] =
      [.replaceNodeParent 3 2, .removeNode 2, .removeNode 3] :=
    Patch.canonicalOrder_eq_of_pairwise (by decide +kernel) (by decide +kernel) fun _ => Iff.rfl
  have huntil : threeStates.untilRemovals []
      [.replaceNodeParent 3 2, .removeNode 2, .removeNode 3] =
        threeStates.applyInOrder [.replaceNodeParent 3 2] := by
    rw [untilRemovals, horder]
    rfl
  refine ⟨threeStates, .ofMachine _ _ _, [.replaceNodeParent 3 2, .removeNode 2, .removeNode 3], [],
    hdepths, ?_, by decide, by decide, ?_, ?_, ?_⟩
  · rw [huntil]
    exact ⟨[.reparentState ["b"] ["a", "d"]], by decide +kernel⟩
  · rw [huntil]
    exact ⟨["a", "d"], ["b"], by decide, by decide +kernel, by decide +kernel⟩
  · rw [horder]
    decide
  · rw [apply_eq_applyInOrder hdepths, horder]
    decide +kernel

end Session

end Statechart
