import Statechart.Proofs.RemovalOrder

/-!
# Depths of added nodes

How deep an added node lies is found by following parents through the batch, up to a node that is
known. Parents may be missing, and they may lead in a circle. Depths that are found on the way can
be kept and used for the nodes that are looked at later, in any order: it does not matter which.

* `Model.HangsOn`, `Model.Leads`: added nodes below others, and those that hang on a known one;
* `Model.DepthsFound`: what is to come of looking for depths;
* `Model.climb`, `Model.depthsFrom`: looking for the depths of some nodes, keeping those found;
* `Model.depthsFound_depthsFrom`, `Model.depthsFound_depthsOfAdded`: both find depths as they are;
* `Session.applyFrom_eq_apply`: so the order in which added nodes are looked at does not matter;
* `Session.depths_found`: depths are as they are, and nodes are added after their parents.
-/

namespace Statechart

namespace Model

/-! ## What depths are -/

section

variable (model : Model) (patches : List Patch)

/-- A node is added below one that is not known. -/
def HangsOn (node parent : NodeId) : Prop :=
  (∃ key, .addNode node parent key ∈ patches) ∧ model.hasNode parent = false

/-- Following parents from a node through added nodes leads to a known one. -/
def Leads (node : NodeId) : Prop :=
  ∃ last, Relation.ReflTransGen (model.HangsOn patches) node last ∧
    ∃ parent key, .addNode last parent key ∈ patches ∧ model.hasNode parent = true

/-- Why depths are not found: a parent is neither known nor added, or a node hangs on itself. -/
inductive Misses : PatchError → Prop
  | unknown {node id : NodeId} {key : String} : .addNode node id key ∈ patches →
      model.hasNode id = false → (∀ parent key, .addNode id parent key ∉ patches) →
      Misses (.unknownNode id)
  | cyclic {id : NodeId} : Relation.TransGen (model.HangsOn patches) id id →
      Misses (.cyclicParent id)

/-- The depths of the nodes of a batch are found as they are. -/
structure DepthsFound (result : Patched (List (NodeId × Nat))) : Prop where
  /-- They are found just if all added nodes lead to known ones. -/
  ok_iff : (∃ added, result = .ok added) ↔
    ∀ node parent key, .addNode node parent key ∈ patches → model.Leads patches node
  /-- There is one for each added node, and for no other. -/
  isSome_iff : ∀ added, result = .ok added → ∀ node, (added.lookup node).isSome = true ↔
    ∃ parent key, .addNode node parent key ∈ patches
  /-- Below a known node, it is one more than the length of its path. -/
  below_known : ∀ added, result = .ok added → ∀ node parent key path,
    .addNode node parent key ∈ patches → model.path parent = .ok path →
    added.lookup node = some (1 + path.length)
  /-- Below an added node, it is one more than the depth of that. -/
  below_added : ∀ added, result = .ok added → ∀ node parent, model.HangsOn patches node parent →
    ∃ depth, added.lookup parent = some depth ∧ added.lookup node = some (1 + depth)
  refused : ∀ e, result = .error e → model.Misses patches e

/-- An added node lies at a depth. -/
inductive LiesAt : NodeId → Nat → Prop
  | known {node parent : NodeId} {key : String} {path : StatePath} :
      .addNode node parent key ∈ patches → model.paths.lookup parent = some path →
      LiesAt node (path.length + 1)
  | added {node parent : NodeId} {depth : Nat} : model.HangsOn patches node parent →
      LiesAt parent depth → LiesAt node (depth + 1)

end

variable {model : Model} {patches : List Patch}

theorem hasNode_eq_false_iff {node : NodeId} :
    model.hasNode node = false ↔ model.paths.lookup node = none := by
  rw [hasNode, Option.isSome_eq_false_iff, Option.isNone_iff_eq_none]

theorem hasNode_of_lookup {node : NodeId} {path : StatePath}
    (h : model.paths.lookup node = some path) : model.hasNode node = true := by
  rw [hasNode, h]
  rfl

theorem LiesAt.mem {node : NodeId} {depth : Nat} (h : model.LiesAt patches node depth) :
    ∃ parent key, .addNode node parent key ∈ patches := by
  cases h with
  | known hpatch => exact ⟨_, _, hpatch⟩
  | added hhangs => exact ⟨_, hhangs.1⟩

/-- A node that lies at a depth leads to a known one. -/
theorem LiesAt.leads {node : NodeId} {depth : Nat} (h : model.LiesAt patches node depth) :
    model.Leads patches node := by
  induction h with
  | known hpatch hpath => exact ⟨_, .refl, _, _, hpatch, hasNode_of_lookup hpath⟩
  | added hhangs _ ih =>
    obtain ⟨last, hlast, hknown⟩ := ih
    exact ⟨last, .head hhangs hlast, hknown⟩

theorem Leads.exists_liesAt {node : NodeId} (h : model.Leads patches node) :
    ∃ depth, model.LiesAt patches node depth := by
  obtain ⟨last, hlast, parent, key, hpatch, hknown⟩ := h
  induction hlast using Relation.ReflTransGen.head_induction_on with
  | refl =>
    obtain ⟨path, hpath⟩ := Option.isSome_iff_exists.1 hknown
    exact ⟨_, .known hpatch hpath⟩
  | head hhangs _ ih =>
    obtain ⟨depth, hdepth⟩ := ih
    exact ⟨_, .added hhangs hdepth⟩

section Once

variable (honce : Patch.AddsOnce patches)

include honce

theorem HangsOn.unique {node parent other : NodeId} (h : model.HangsOn patches node parent)
    (h' : model.HangsOn patches node other) : parent = other := by
  obtain ⟨⟨key, hpatch⟩, -⟩ := h
  obtain ⟨⟨key', hpatch'⟩, -⟩ := h'
  exact (honce _ _ _ _ _ hpatch hpatch').1

/-- A node below a known one does not hang on an added one. -/
theorem not_hangsOn_of_known {node parent other : NodeId} {key : String} {path : StatePath}
    (hpatch : .addNode node parent key ∈ patches) (hpath : model.paths.lookup parent = some path)
    (h : model.HangsOn patches node other) : False := by
  obtain ⟨⟨key', hpatch'⟩, hnew⟩ := h
  obtain ⟨rfl, -⟩ := honce _ _ _ _ _ hpatch hpatch'
  rw [hasNode_of_lookup hpath] at hnew
  cases hnew

theorem LiesAt.unique {node : NodeId} {depth depth' : Nat} (h : model.LiesAt patches node depth)
    (h' : model.LiesAt patches node depth') : depth = depth' := by
  induction h generalizing depth' with
  | known hpatch hpath =>
    cases h' with
    | known hpatch' hpath' =>
      obtain ⟨rfl, -⟩ := honce _ _ _ _ _ hpatch hpatch'
      rw [Option.some.inj (hpath.symm.trans hpath')]
    | added hhangs' => exact (not_hangsOn_of_known honce hpatch hpath hhangs').elim
  | added hhangs _ ih =>
    cases h' with
    | known hpatch' hpath' => exact (not_hangsOn_of_known honce hpatch' hpath' hhangs).elim
    | added hhangs' hlies' =>
      obtain rfl := hhangs.unique honce hhangs'
      rw [ih hlies']

/-- A node that hangs on itself lies at no depth. -/
theorem LiesAt.not_cyclic {node : NodeId} {depth : Nat} (h : model.LiesAt patches node depth) :
    ¬Relation.TransGen (model.HangsOn patches) node node := by
  induction h with
  | known hpatch hpath =>
    intro hcycle
    obtain ⟨next, hhangs, -⟩ := Relation.TransGen.head'_iff.1 hcycle
    exact not_hangsOn_of_known honce hpatch hpath hhangs
  | added hhangs _ ih =>
    -- The circle goes through the parent.
    intro hcycle
    obtain ⟨next, hhangs', hback⟩ := Relation.TransGen.head'_iff.1 hcycle
    obtain rfl := hhangs.unique honce hhangs'
    exact ih (Relation.TransGen.tail' hback hhangs)

/-- Where something is missed, not all added nodes lie at depths. -/
theorem Misses.exists_not_liesAt {e : PatchError} (h : model.Misses patches e) :
    ∃ node parent key, .addNode node parent key ∈ patches ∧
      ∀ depth, ¬model.LiesAt patches node depth := by
  cases h with
  | unknown hpatch hnew hmissing =>
    refine ⟨_, _, _, hpatch, fun depth hlies => ?_⟩
    cases hlies with
    | known hpatch' hpath =>
      obtain ⟨rfl, -⟩ := honce _ _ _ _ _ hpatch hpatch'
      rw [hasNode_of_lookup hpath] at hnew
      cases hnew
    | added hhangs hlies =>
      obtain rfl := HangsOn.unique honce ⟨⟨_, hpatch⟩, hnew⟩ hhangs
      obtain ⟨parent, key, hadded⟩ := hlies.mem
      exact hmissing parent key hadded
  | cyclic hcycle =>
    obtain ⟨next, ⟨⟨key, hpatch⟩, -⟩, -⟩ := Relation.TransGen.head'_iff.1 hcycle
    exact ⟨_, next, key, hpatch, fun depth hlies => hlies.not_cyclic honce hcycle⟩

/-- Depths are found as they are if the nodes lie at those that are given, and what is missed is
    missing. -/
theorem DepthsFound.of_liesAt {result : Patched (List (NodeId × Nat))}
    (hlies : ∀ added, result = .ok added → ∀ node depth, added.lookup node = some depth →
      model.LiesAt patches node depth)
    (hall : ∀ added, result = .ok added → ∀ node parent key, .addNode node parent key ∈ patches →
      (added.lookup node).isSome = true)
    (hmisses : ∀ e, result = .error e → model.Misses patches e) :
    model.DepthsFound patches result := by
  have hlookup : ∀ {added}, result = .ok added → ∀ {node depth},
      model.LiesAt patches node depth → added.lookup node = some depth := by
    intro added hadded node depth h
    obtain ⟨parent, key, hpatch⟩ := h.mem
    obtain ⟨found, hfound⟩ := Option.isSome_iff_exists.1 (hall added hadded node parent key hpatch)
    rw [hfound, (hlies added hadded node found hfound).unique honce h]
  refine ⟨⟨?_, fun hleads => ?_⟩, ?_, ?_, ?_, hmisses⟩
  · rintro ⟨added, hadded⟩ node parent key hpatch
    obtain ⟨depth, hdepth⟩ := Option.isSome_iff_exists.1 (hall added hadded node parent key hpatch)
    exact (hlies added hadded node depth hdepth).leads
  · cases hresult : result with
    | ok added => exact ⟨added, rfl⟩
    | error e =>
      obtain ⟨node, parent, key, hpatch, hnone⟩ := (hmisses e hresult).exists_not_liesAt honce
      obtain ⟨depth, hdepth⟩ := (hleads node parent key hpatch).exists_liesAt
      exact absurd hdepth (hnone depth)
  · intro added hadded node
    refine ⟨fun hsome => ?_, fun ⟨parent, key, hpatch⟩ => hall added hadded node parent key hpatch⟩
    obtain ⟨depth, hdepth⟩ := Option.isSome_iff_exists.1 hsome
    exact (hlies added hadded node depth hdepth).mem
  · intro added hadded node parent key path hpatch hpath
    rw [Nat.add_comm]
    exact hlookup hadded (.known hpatch (path_eq_ok.1 hpath))
  · intro added hadded node parent hhangs
    obtain ⟨key, hpatch⟩ := hhangs.1
    obtain ⟨depth, hdepth⟩ := Option.isSome_iff_exists.1 (hall added hadded node parent key hpatch)
    -- A node that hangs on an added one does not lie below a known one too.
    cases hlies added hadded node depth hdepth with
    | known hpatch' hpath => exact (not_hangsOn_of_known honce hpatch' hpath hhangs).elim
    | added hhangs' hbelow =>
      obtain rfl := hhangs.unique honce hhangs'
      exact ⟨_, hlookup hadded hbelow, by rw [hdepth, Nat.add_comm]⟩

omit honce in
/-- The depths that are found are those at which the nodes lie. -/
theorem DepthsFound.lookup_eq_some_iff {added : List (NodeId × Nat)}
    (h : model.DepthsFound patches (.ok added)) {node : NodeId} {depth : Nat} :
    added.lookup node = some depth ↔ model.LiesAt patches node depth := by
  have hlookup : ∀ {node depth}, model.LiesAt patches node depth →
      added.lookup node = some depth := by
    intro node depth hlies
    induction hlies with
    | known hpatch hpath =>
      rw [h.below_known added rfl _ _ _ _ hpatch (path_eq_ok.2 hpath), Nat.add_comm]
    | added hhangs _ ih =>
      obtain ⟨found, hfound, hnode⟩ := h.below_added added rfl _ _ hhangs
      rw [hnode, Nat.add_comm, Option.some.inj (hfound.symm.trans ih)]
  refine ⟨fun hnode => ?_, hlookup⟩
  obtain ⟨parent, key, hpatch⟩ := (h.isSome_iff added rfl node).1 (by rw [hnode]; rfl)
  obtain ⟨other, hother⟩ := (h.ok_iff.1 ⟨added, rfl⟩ node parent key hpatch).exists_liesAt
  rwa [Option.some.inj (hnode.symm.trans (hlookup hother))]

end Once

/-! ## Looking for depths -/

/-- Follows parents up to a known node or to one whose depth was found before. What comes of it are
    the nodes on the way, the last one first, and the depth of the node above them. -/
def climb (model : Model) (parents : List (NodeId × NodeId)) (found : List (NodeId × Nat))
    (chain : List NodeId) (parent : NodeId) : Patched (List NodeId × Nat) :=
  match model.paths.lookup parent with
  | some path => .ok (chain, path.length)
  | none =>
    match found.lookup parent with
    | some depth => .ok (chain, depth)
    | none =>
      match _hnext : parents.lookup parent with
      | none => .error (.unknownNode parent)
      | some next =>
        if _hchain : chain.contains parent then .error (.cyclicParent parent)
        else climb model parents found (parent :: chain) next
termination_by (parents.filter fun entry => !chain.contains entry.1).length
decreasing_by
  -- The parent is one more of the added nodes that were met.
  have hmet : (parents.filter fun entry => !(parent :: chain).contains entry.1) =
      (parents.filter fun entry => !chain.contains entry.1).filter (·.1 != parent) := by
    rw [List.filter_filter]
    refine List.filter_congr fun entry _ => ?_
    rw [List.contains_cons, Bool.not_or, bne]
  rw [hmet, List.length_filter_lt_length_iff_exists]
  exact ⟨(parent, next), List.mem_filter.2 ⟨mem_of_lookup _hnext, by simpa using _hchain⟩, by simp⟩

/-- The depths of the nodes that were met on the way to one with the given depth. -/
def chainDepths (chain : List NodeId) (base : Nat) : List (NodeId × Nat) :=
  chain.zipIdx.map fun (node, i) => (node, base + i + 1)

/-- Looks for the depths of nodes one after the other, keeping what is found. -/
def depthsFrom (model : Model) (patches : List Patch) (found : List (NodeId × Nat)) :
    List NodeId → Patched (List (NodeId × Nat))
  | [] => .ok found
  | start :: starts => do
    let parents := addedParents patches
    let (chain, base) ← model.climb parents found [start] ((parents.lookup start).getD start)
    depthsFrom model patches (chainDepths chain base ++ found) starts

/-- Nodes each of which hangs on the one before it. -/
def IsChain (model : Model) (patches : List Patch) (chain : List NodeId) : Prop :=
  chain.IsChain fun upper lower => model.HangsOn patches lower upper

/-- The nodes of a chain hang on its top. -/
theorem IsChain.transGen {top node : NodeId} {chain : List NodeId}
    (h : model.IsChain patches (top :: chain)) (hnode : node ∈ chain) :
    Relation.TransGen (model.HangsOn patches) node top := by
  have hpairs : (top :: chain).Pairwise fun upper lower =>
      Relation.TransGen (model.HangsOn patches) lower upper := by
    have htrans : IsTrans NodeId fun upper lower =>
        Relation.TransGen (model.HangsOn patches) lower upper :=
      ⟨fun _ _ _ hab hbc => hbc.trans hab⟩
    exact List.isChain_iff_pairwise.1 (h.imp fun _ _ hhangs => .single hhangs)
  exact (List.pairwise_cons.1 hpairs).1 node hnode

theorem chainDepths_cons (top : NodeId) (chain : List NodeId) (base : Nat) :
    chainDepths (top :: chain) base = (top, base + 1) :: chainDepths chain (base + 1) := by
  rw [chainDepths, chainDepths, List.zipIdx_cons', List.map_cons, List.map_map]
  refine congrArg _ (List.map_congr_left fun entry _ => ?_)
  rw [Function.comp_apply, Prod.map_apply, id_eq]
  dsimp only
  rw [Nat.add_assoc base 1, Nat.add_comm 1, Nat.add_assoc]

/-- The nodes of a chain lie one below the other. -/
theorem IsChain.liesAt {top : NodeId} {chain : List NodeId} {base : Nat}
    (h : model.IsChain patches (top :: chain)) (htop : model.LiesAt patches top (base + 1)) :
    ∀ entry ∈ chainDepths (top :: chain) base, model.LiesAt patches entry.1 entry.2 := by
  induction chain generalizing top base with
  | nil =>
    rw [chainDepths_cons]
    exact List.forall_mem_cons.2 ⟨htop, fun _ hentry => absurd hentry List.not_mem_nil⟩
  | cons lower chain ih =>
    obtain ⟨hhangs, hchain⟩ := List.isChain_cons_cons.1 h
    rw [chainDepths_cons]
    exact List.forall_mem_cons.2 ⟨htop, ih hchain (.added hhangs htop)⟩

section Climb

variable (model patches) in
/-- Nodes that were met on the way to a parent: the last of them has it, and the others hang on
    that one. -/
def OnTheWay (chain : List NodeId) (parent : NodeId) : Prop :=
  ∃ top below, chain = top :: below ∧ (∃ key, .addNode top parent key ∈ patches) ∧
    model.IsChain patches chain

theorem OnTheWay.cons {chain : List NodeId} {parent next : NodeId} {key : String}
    (h : model.OnTheWay patches chain parent) (hparent : model.paths.lookup parent = none)
    (hpatch : .addNode parent next key ∈ patches) :
    model.OnTheWay patches (parent :: chain) next := by
  obtain ⟨top, below, rfl, hadded, hchain⟩ := h
  exact ⟨parent, _, rfl, ⟨key, hpatch⟩,
    List.isChain_cons_cons.2 ⟨⟨hadded, hasNode_eq_false_iff.2 hparent⟩, hchain⟩⟩

/-- A way that comes back to one of its nodes goes in a circle. -/
theorem OnTheWay.transGen {chain : List NodeId} {parent : NodeId}
    (h : model.OnTheWay patches chain parent) (hparent : model.paths.lookup parent = none)
    (hmem : parent ∈ chain) : Relation.TransGen (model.HangsOn patches) parent parent := by
  obtain ⟨top, below, rfl, hadded, hchain⟩ := h
  have hhangs : model.HangsOn patches top parent := ⟨hadded, hasNode_eq_false_iff.2 hparent⟩
  rcases List.mem_cons.1 hmem with rfl | hbelow
  · exact .single hhangs
  · exact (hchain.transGen hbelow).tail hhangs

variable {found : List (NodeId × Nat)}
  (hfound : ∀ node depth, found.lookup node = some depth → model.LiesAt patches node depth)

include hfound

/-- A climb finds the depths of the nodes on its way, or misses something. -/
theorem climb_spec {chain : List NodeId} {parent : NodeId}
    (hway : model.OnTheWay patches chain parent) :
    (∀ met base, model.climb (addedParents patches) found chain parent = .ok (met, base) →
      (∀ node ∈ chain, node ∈ met) ∧
        ∀ entry ∈ chainDepths met base, model.LiesAt patches entry.1 entry.2) ∧
    ∀ e, model.climb (addedParents patches) found chain parent = .error e →
      model.Misses patches e := by
  fun_induction climb model (addedParents patches) found chain parent with
  | case1 chain parent path hpath =>
    obtain ⟨top, below, rfl, ⟨key, hpatch⟩, hchain⟩ := hway
    refine ⟨fun met base h => ?_, fun e h => nomatch h⟩
    cases h
    exact ⟨fun _ => id, hchain.liesAt (.known hpatch hpath)⟩
  | case2 chain parent hpath depth hdepth =>
    obtain ⟨top, below, rfl, hadded, hchain⟩ := hway
    have hhangs : model.HangsOn patches top parent := ⟨hadded, hasNode_eq_false_iff.2 hpath⟩
    refine ⟨fun met base h => ?_, fun e h => nomatch h⟩
    cases h
    exact ⟨fun _ => id, hchain.liesAt (.added hhangs (hfound parent _ hdepth))⟩
  | case3 chain parent hpath hdepth hnext =>
    obtain ⟨top, below, rfl, ⟨key, hpatch⟩, hchain⟩ := hway
    refine ⟨fun met base h => (nomatch h), fun e h => ?_⟩
    cases h
    refine .unknown hpatch (hasNode_eq_false_iff.2 hpath) fun next key' hpatch' => ?_
    have hmem := List.lookup_eq_none_iff.1 hnext _ (mem_addedParents.2 ⟨key', hpatch'⟩)
    exact absurd hmem (by simp)
  | case4 chain parent hpath hdepth next hnext hmem =>
    refine ⟨fun met base h => (nomatch h), fun e h => ?_⟩
    cases h
    exact .cyclic (hway.transGen hpath (List.contains_iff_mem.1 hmem))
  | case5 chain parent hpath hdepth next hnext hmem ih =>
    obtain ⟨key, hpatch⟩ := mem_addedParents.1 (mem_of_lookup hnext)
    obtain ⟨hok, herror⟩ := ih (hway.cons hpath hpatch)
    refine ⟨fun met base h => ?_, herror⟩
    obtain ⟨hmet, hdepths⟩ := hok met base h
    exact ⟨fun node hnode => hmet node (List.mem_cons_of_mem _ hnode), hdepths⟩

omit hfound in
theorem exists_mem_chainDepths {chain : List NodeId} {base : Nat} {node : NodeId}
    (h : node ∈ chain) : ∃ depth, (node, depth) ∈ chainDepths chain base := by
  obtain ⟨i, hi⟩ := List.mem_iff_getElem?.1 h
  exact ⟨_, List.mem_map_of_mem (List.mk_mem_zipIdx_iff_getElem?.2 hi)⟩

/-- Looking for depths finds those of the starts, or misses something. -/
theorem depthsFrom_spec (honce : Patch.AddsOnce patches) {starts : List NodeId}
    (hstarts : ∀ start ∈ starts, ∃ parent key, .addNode start parent key ∈ patches) :
    (∀ added, model.depthsFrom patches found starts = .ok added →
      (∀ node depth, added.lookup node = some depth → model.LiesAt patches node depth) ∧
        ∀ node, (found.lookup node).isSome = true ∨ node ∈ starts →
          (added.lookup node).isSome = true) ∧
    ∀ e, model.depthsFrom patches found starts = .error e → model.Misses patches e := by
  induction starts generalizing found with
  | nil =>
    refine ⟨fun added h => ?_, fun e h => nomatch h⟩
    cases h
    exact ⟨hfound, fun node hnode => hnode.resolve_right List.not_mem_nil⟩
  | cons start starts ih =>
    obtain ⟨parent, key, hpatch⟩ := hstarts start List.mem_cons_self
    have hway : model.OnTheWay patches [start] parent :=
      ⟨start, [], rfl, ⟨key, hpatch⟩, List.IsChain.singleton _⟩
    obtain ⟨hok, herror⟩ := climb_spec hfound hway
    -- What is kept after a climb lies where it is said to, so that the next start can use it.
    have hstep : ∀ {met base}, model.climb (addedParents patches) found [start] parent =
        .ok (met, base) → ∀ node depth, (chainDepths met base ++ found).lookup node = some depth →
          model.LiesAt patches node depth := by
      intro met base h node depth hlookup
      rw [List.lookup_append, Option.or_eq_some_iff] at hlookup
      rcases hlookup with hlookup | ⟨-, hlookup⟩
      · exact (hok met base h).2 _ (mem_of_lookup hlookup)
      · exact hfound node depth hlookup
    have hnext : (addedParents patches).lookup start = some parent :=
      (lookup_addedParents honce).2 ⟨key, hpatch⟩
    simp only [depthsFrom, hnext, Option.getD_some, bind_eq_ok, bind_eq_error, Prod.exists]
    have hothers := fun other hother => hstarts other (List.mem_cons_of_mem start hother)
    constructor
    · rintro added ⟨met, base, hclimb, hrest⟩
      obtain ⟨hlies, hall⟩ := (ih (hstep hclimb) hothers).1 added hrest
      refine ⟨hlies, fun node hnode => hall node ?_⟩
      rw [List.mem_cons] at hnode
      rw [List.lookup_append, Option.isSome_or, Bool.or_eq_true]
      rcases hnode with hnode | rfl | hnode
      · exact .inl (.inr hnode)
      · have hmet := (hok met base hclimb).1 node List.mem_cons_self
        obtain ⟨depth, hdepth⟩ := exists_mem_chainDepths hmet
        exact .inl (.inl (lookup_isSome_iff_exists.2 ⟨depth, hdepth⟩))
      · exact .inr hnode
    · rintro e (hclimb | ⟨met, base, hclimb, hrest⟩)
      · exact herror e hclimb
      · exact (ih (hstep hclimb) hothers).2 e hrest

end Climb

variable (model patches) in
theorem liesAt_of_nil (node : NodeId) (depth : Nat)
    (h : ([] : List (NodeId × Nat)).lookup node = some depth) :
    model.LiesAt patches node depth :=
  nomatch h

/-- In any order of the added nodes, their depths are found as they are. -/
theorem depthsFound_depthsFrom (honce : Patch.AddsOnce patches) {starts : List NodeId}
    (hstarts : ∀ node, node ∈ starts ↔ ∃ parent key, .addNode node parent key ∈ patches) :
    model.DepthsFound patches (model.depthsFrom patches [] starts) := by
  obtain ⟨hok, herror⟩ := depthsFrom_spec (liesAt_of_nil model patches) honce
    fun start hstart => (hstarts start).1 hstart
  exact .of_liesAt honce (fun added hadded => (hok added hadded).1)
    (fun added hadded node parent key hpatch =>
      (hok added hadded).2 node (.inr ((hstarts node).2 ⟨parent, key, hpatch⟩))) herror

/-! ## Depths without keeping any -/

theorem liesAt_of_depthBelow {fuel : Nat} {chain : List NodeId} {node parent : NodeId}
    {key : String} {depth : Nat} (hpatch : .addNode node parent key ∈ patches)
    (h : model.depthBelow (addedParents patches) fuel chain parent = .ok depth) :
    model.LiesAt patches node depth := by
  induction fuel generalizing chain node parent key depth with
  | zero => exact absurd h (by simp [depthBelow])
  | succ fuel ih =>
    obtain ⟨_, heq, ⟨path, hpath, rfl⟩ | ⟨hnew, -, next, rest, hnext, hrest, rfl⟩⟩ :=
      depthBelow_eq_ok h
    · exact .known hpatch hpath
    · obtain rfl := Nat.succ.inj heq
      obtain ⟨key', hpatch'⟩ := mem_addedParents.1 (mem_of_lookup hnext)
      exact .added ⟨⟨key, hpatch⟩, hasNode_eq_false_iff.2 hnew⟩ (ih hpatch' hrest)

/-- With a step for each node that was not met yet, what is missed is missed by a climb too. -/
theorem climb_of_depthBelow_eq_error {parents : List (NodeId × NodeId)} {fuel : Nat}
    {chain : List NodeId} {parent : NodeId} {e : PatchError} (hnodup : chain.Nodup)
    (hsub : chain ⊆ parents.map (·.1)) (hfuel : parents.length < fuel + chain.length)
    (h : model.depthBelow parents fuel chain parent = .error e) :
    model.climb parents [] chain parent = .error e := by
  induction fuel generalizing chain parent with
  | zero =>
    have hlength := hnodup.length_le_of_subset hsub
    rw [List.length_map] at hlength
    omega
  | succ fuel ih =>
    rw [depthBelow] at h
    rw [climb]
    cases hpath : model.paths.lookup parent with
    | some path => simp [hpath] at h
    | none =>
      simp only [hpath, List.lookup_nil] at h ⊢
      split
      · next hnext =>
        rw [hnext] at h
        exact congrArg Except.error (Except.error.inj h)
      · next next hnext =>
        simp only [hnext] at h
        split at h
        · next hmem =>
          rw [dif_pos hmem]
          exact congrArg Except.error (Except.error.inj h)
        · next hmem =>
          rw [dif_neg hmem]
          cases hrest : model.depthBelow parents fuel (parent :: chain) next with
          | ok depth => rw [hrest] at h; cases h
          | error e' =>
            rw [hrest] at h
            cases h
            have hparent : parent ∈ parents.map (·.1) := List.mem_map_of_mem (mem_of_lookup hnext)
            exact ih (List.nodup_cons.2 ⟨by simpa using hmem, hnodup⟩)
              (List.cons_subset.2 ⟨hparent, hsub⟩) (by rw [List.length_cons]; omega) hrest

/-- Without keeping any, depths are found as they are too. -/
theorem depthsFound_depthsOfAdded (honce : Patch.AddsOnce patches) :
    model.DepthsFound patches (model.depthsOfAdded patches) := by
  have hparent : ∀ {node parent key}, .addNode node parent key ∈ patches →
      model.addedDepth patches node = model.depthBelow (addedParents patches)
        ((addedParents patches).length + 1) [node] parent := fun hpatch => by
    rw [addedDepth, (lookup_addedParents honce).2 ⟨_, hpatch⟩, Option.getD_some]
  rw [depthsOfAdded_eq]
  refine .of_liesAt honce (fun added hadded node depth hnode => ?_)
    (fun added hadded node parent key hpatch => ?_) fun e he => ?_
  · obtain ⟨hmem, hdepth⟩ := (lookup_mapM_pairs hadded).1 hnode
    obtain ⟨parent, key, hpatch⟩ := mem_addedNodes.1 hmem
    rw [hparent hpatch] at hdepth
    exact liesAt_of_depthBelow hpatch hdepth
  · have hmem := mem_addedNodes.2 ⟨parent, key, hpatch⟩
    obtain ⟨depth, hdepth⟩ := ok_of_mapM_pairs hadded node hmem
    rw [(lookup_mapM_pairs hadded).2 ⟨hmem, hdepth⟩]
    rfl
  · obtain ⟨node, hmem, he⟩ := exists_of_error_mapM_pairs he
    obtain ⟨parent, key, hpatch⟩ := mem_addedNodes.1 hmem
    rw [hparent hpatch] at he
    have hkey : node ∈ (addedParents patches).map (·.1) :=
      List.mem_map_of_mem (mem_addedParents.2 ⟨key, hpatch⟩)
    have hway : model.OnTheWay patches [node] parent :=
      ⟨node, [], rfl, ⟨key, hpatch⟩, List.IsChain.singleton _⟩
    have hclimb := climb_of_depthBelow_eq_error (List.nodup_singleton node)
      (List.cons_subset.2 ⟨hkey, List.nil_subset _⟩) (by rw [List.length_singleton]; omega) he
    exact (climb_spec (liesAt_of_nil model patches) hway).2 e hclimb

end Model

namespace Session

variable {session : Session} {patches : List Patch}

/-- Added nodes whose depths fit 64 bits come after the parents that are added with them. -/
theorem addNode_sublist {added : List (NodeId × Nat)}
    (hfound : session.model.DepthsFound patches (.ok added))
    (hfits : ∀ node, session.depth added node < 2 ^ 63) {node parent next : NodeId}
    {key key' : String} (hpatch : .addNode node parent key ∈ patches)
    (hparent : session.model.hasNode parent = false)
    (hpatch' : .addNode parent next key' ∈ patches) :
    [.addNode parent next key', .addNode node parent key].Sublist
      (session.order added patches) := by
  obtain ⟨depth, hdepth, hbelow⟩ :=
    hfound.below_added added rfl node parent ⟨⟨key, hpatch⟩, hparent⟩
  have hrank : ∀ {n d}, added.lookup n = some d →
      Patch.wrap64 (session.depth added n) = d := by
    intro n d hlookup
    rw [Patch.wrap64_eq (hfits n), Session.depth, hlookup, Option.some_or, Option.getD_some]
  have hlt : (Patch.addNode parent next key').rank (session.depth added) <
      (Patch.addNode node parent key).rank (session.depth added) := by
    rw [Patch.rank, Patch.rank, hrank hdepth, hrank hbelow]
    omega
  have hne : Patch.addNode parent next key' ≠ .addNode node parent key := fun heq => by
    rw [heq] at hlt
    exact lt_irrefl _ hlt
  refine (Patch.pair_sublist_canonicalOrder hpatch' hpatch hne).2 ?_
  rw [Patch.precedes, if_neg (by simp [Patch.phase]), if_pos (ne_of_lt hlt)]
  exact decide_eq_true hlt

/-! ## Batches with depths that are kept -/

variable (session) in
/-- Makes a batch in the order that the depths give which are found from the given nodes on. -/
def applyFrom (starts : List NodeId) (patches : List Patch) : Outcome :=
  match session.model.depthsFrom patches [] starts with
  | .error e => ⟨.error e, session⟩
  | .ok added => session.applyInOrder (session.order added patches)

/-- When each node is added once, either both ways of looking for depths give the batch the same
    order, or it is refused both ways before anything is made. -/
theorem applyFrom_eq_or (honce : Patch.AddsOnce patches) {starts : List NodeId}
    (hstarts : ∀ node, node ∈ starts ↔ ∃ parent key, .addNode node parent key ∈ patches) :
    session.applyFrom starts patches = session.apply patches ∨
      ∃ e e', session.applyFrom starts patches = ⟨.error e, session⟩ ∧
        session.apply patches = ⟨.error e', session⟩ := by
  have hkept : session.model.DepthsFound patches (session.model.depthsFrom patches [] starts) :=
    Model.depthsFound_depthsFrom honce hstarts
  have hfound : session.model.DepthsFound patches (session.model.depthsOfAdded patches) :=
    Model.depthsFound_depthsOfAdded honce
  rw [applyFrom, apply]
  cases hfrom : session.model.depthsFrom patches [] starts with
  | ok kept =>
    rw [hfrom] at hkept
    obtain ⟨added, hadded⟩ := hfound.ok_iff.2 (hkept.ok_iff.1 ⟨kept, rfl⟩)
    rw [hadded] at hfound ⊢
    have hdepth : session.depth kept = session.depth added := by
      funext node
      have hlookup : kept.lookup node = added.lookup node := Option.ext fun depth =>
        hkept.lookup_eq_some_iff.trans hfound.lookup_eq_some_iff.symm
      rw [depth, depth, hlookup]
    dsimp only
    rw [order, hdepth]
    exact .inl rfl
  | error e =>
    rw [hfrom] at hkept
    cases hadded : session.model.depthsOfAdded patches with
    | ok added =>
      obtain ⟨kept, hkept'⟩ := hkept.ok_iff.2 (hfound.ok_iff.1 ⟨added, hadded⟩)
      cases hkept'
    | error e' => exact .inr ⟨e, e', rfl, rfl⟩

/-- In any order of the added nodes, a batch that can be made is made with the same outcome. -/
theorem applyFrom_eq_apply {starts : List NodeId}
    (hstarts : ∀ node, node ∈ starts ↔ ∃ parent key, .addNode node parent key ∈ patches)
    {edits : List Edit} (h : (session.applyFrom starts patches).edits = .ok edits ∨
      (session.apply patches).edits = .ok edits) :
    session.applyFrom starts patches = session.apply patches := by
  have honce : Patch.AddsOnce patches := by
    refine h.elim (fun h => ?_) addsOnce_of_apply
    rw [applyFrom] at h
    cases hfrom : session.model.depthsFrom patches [] starts with
    | error e => rw [hfrom] at h; cases h
    | ok added =>
      rw [hfrom] at h
      exact addsOnce_of_canonicalOrder h
  rcases applyFrom_eq_or honce hstarts with heq | ⟨e, e', hfrom, hadded⟩
  · exact heq
  · rw [hfrom, hadded] at h
    rcases h with h | h <;> cases h

/-- The depths of the nodes that a batch adds, each of them once, are found as they are: without
    keeping any, and in any order when those found are kept. A node whose parent is added comes
    after it, as far as depths fit 64 bits. -/
theorem depths_found (session : Session) (patches : List Patch) (honce : Patch.AddsOnce patches) :
    session.model.DepthsFound patches (session.model.depthsOfAdded patches) ∧
    (∀ starts, (∀ node, node ∈ starts ↔ ∃ parent key, .addNode node parent key ∈ patches) →
      session.model.DepthsFound patches (session.model.depthsFrom patches [] starts)) ∧
    ∀ added, session.model.DepthsFound patches (.ok added) →
      (∀ entry ∈ session.model.paths, entry.2.length + patches.length + 1 < 2 ^ 63) →
      ∀ node parent key, .addNode node parent key ∈ patches →
        session.model.hasNode parent = false →
        ∃ next key', .addNode parent next key' ∈ patches ∧
          [.addNode parent next key', .addNode node parent key].Sublist
            (session.order added patches) := by
  have hfound : session.model.DepthsFound patches (session.model.depthsOfAdded patches) :=
    Model.depthsFound_depthsOfAdded honce
  refine ⟨hfound, fun starts hstarts => Model.depthsFound_depthsFrom honce hstarts, ?_⟩
  intro added hadded hfits node parent key hpatch hparent
  -- The same depths are found in the order of the batch, where they are bounded.
  obtain ⟨added', hadded'⟩ := hfound.ok_iff.2 (hadded.ok_iff.1 ⟨added, rfl⟩)
  rw [hadded'] at hfound
  have hlookup : ∀ n, added.lookup n = added'.lookup n := fun n => Option.ext fun d =>
    hadded.lookup_eq_some_iff.trans hfound.lookup_eq_some_iff.symm
  have hdepth : ∀ n, session.depth added n < 2 ^ 63 := fun n => by
    rw [depth, hlookup]
    exact depth_lt hadded' hfits n
  obtain ⟨depth, habove, -⟩ := hadded.below_added added rfl node parent ⟨⟨key, hpatch⟩, hparent⟩
  obtain ⟨next, key', hpatch'⟩ := (hadded.isSome_iff added rfl parent).1 (by rw [habove]; rfl)
  exact ⟨next, key', hpatch', addNode_sublist hadded hdepth hpatch hparent hpatch'⟩

/-- A batch that adds a node below an added one. The depth of the upper one is found on the way
    from the lower one, and kept. -/
theorem depths_found_nested :
    oneState.model.DepthsFound nestedBatch (.ok [(3, 3), (2, 2)]) ∧
    oneState.model.DepthsFound nestedBatch (.ok [(2, 2), (2, 2), (3, 3)]) ∧
    ∃ next key, .addNode 2 next key ∈ nestedBatch ∧
      [.addNode 2 next key, .addNode 3 2 "c"].Sublist
        (oneState.order [(3, 3), (2, 2)] nestedBatch) := by
  have honce : Patch.AddsOnce nestedBatch := by
    intro node parent key parent' key' h h'
    simp only [nestedBatch, List.mem_cons, List.not_mem_nil, or_false, reduceCtorEq, false_or,
      Patch.addNode.injEq] at h h'
    rcases h with ⟨rfl, rfl, rfl⟩ | ⟨rfl, rfl, rfl⟩ <;> simp_all
  have hstarts : ∀ node, node ∈ [3, 2] ↔ ∃ parent key, .addNode node parent key ∈ nestedBatch := by
    intro node
    simp only [← Model.mem_addedNodes]
    have hnodes : Model.addedNodes nestedBatch = [3, 2] := by decide +kernel
    rw [hnodes]
  have hdepths : oneState.model.depthsOfAdded nestedBatch = .ok [(3, 3), (2, 2)] := by
    decide +kernel
  have hkept : oneState.model.depthsFrom nestedBatch [] [3, 2] =
      .ok [(2, 2), (2, 2), (3, 3)] := by decide +kernel
  obtain ⟨hfound, hfrom, horder⟩ := depths_found oneState nestedBatch honce
  rw [hdepths] at hfound
  have hagain := hfrom [3, 2] hstarts
  rw [hkept] at hagain
  exact ⟨hfound, hagain,
    horder _ hfound (by decide +kernel) 3 2 "c" (by decide) (by decide +kernel)⟩

end Session

end Statechart
