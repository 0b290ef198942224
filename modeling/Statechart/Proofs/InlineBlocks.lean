import Statechart.Proofs.EdgesInStep
import Statechart.Proofs.ReferenceOrigins
import Statechart.Proofs.SoundExtraction

/-!
# Blocks that are written in place

What is written in place has no name, and is given one of the form `inline:kind-n`. In a
description whose nodes all have origins of their own, the numbers are those of the blocks: of the
blocks of a kind that are written in place, in the order of their handles, the first has the number
zero, the next the number one, and so on.

* `InlineNames.Numbers`: what has been given names, and which; drawing one more is a step of it;
* `inlineNames_after`: the names drawn in the walk over a description are those drawn for its
  blocks one after the other, in their order;
* `Graph.writtenAs?`, `Graph.inlineBlocks`: what a block is written as, and the blocks of a kind
  that are written in place;
* `Graph.NumbersInline`: they are numbered in the order of their handles;
* `extract_numbersInline`: so are those of every description with origins that differ.
-/

namespace Statechart

open Property Draft

/-! ## Numbers -/

/-- The node that is given a name when a reference is identified. -/
def placed? (reference : BlockKind × Reference) : Option (String × Origin) :=
  reference.2.origin?.map (reference.1.name, ·)

namespace InlineNames

variable {names : InlineNames} {kind : String} {origin : Origin}

/-- Nodes have been given names, in their order: the number of a node is that of the nodes of its
    kind before it, and the counter of a kind is at the number of the next. -/
structure Numbers (names : InlineNames) (nodes : List (String × Origin)) : Prop where
  count : ∀ kind, names.count kind = (nodes.filter fun (k, _) => k == kind).length
  unnamed : ∀ node, node ∉ nodes → names.ids.lookup node = none
  named : ∀ {kind n origin},
    (nodes.filter fun (k, _) => k == kind)[n]? = some (kind, origin) →
      names.ids.lookup (kind, origin) = some (name kind n)

theorem numbers_empty : ({} : InlineNames).Numbers [] where
  count _ := rfl
  unnamed _ _ := rfl
  named h := nomatch h

theorem count_cons (kind other : String) (n : Nat) (ids : List ((String × Origin) × String))
    (counters : List (String × Nat)) :
    count { ids, counters := (kind, n) :: counters } other =
      if other = kind then n else count { ids, counters } other := by
  by_cases hkind : other = kind
  · subst hkind
    simp [count]
  · rw [count, List.lookup_cons, beq_false_of_ne hkind, if_neg hkind]
    rfl

/-- A node that has no name gets the next number of its kind. -/
theorem Numbers.assign {nodes : List (String × Origin)} (h : names.Numbers nodes)
    (hnew : (kind, origin) ∉ nodes) :
    (names.assign kind origin).2.Numbers (nodes ++ [(kind, origin)]) := by
  rw [InlineNames.assign, h.unnamed _ hnew]
  have hother : ∀ node, node ≠ (kind, origin) →
      (((kind, origin), name kind (names.count kind)) :: names.ids).lookup node =
        names.ids.lookup node := fun node hne => by
    rw [List.lookup_cons, beq_false_of_ne hne]
  refine ⟨fun other => ?_, fun node hnode => ?_, fun {other n o} hat => ?_⟩
  · rw [count_cons, List.filter_append, List.length_append, ← h.count]
    by_cases hkind : other = kind
    · simp [hkind]
    · rw [if_neg hkind, List.filter_cons_of_neg (by simpa using Ne.symm hkind)]
      rfl
  · rw [List.mem_append, List.mem_singleton, not_or] at hnode
    rw [hother node hnode.2, h.unnamed node hnode.1]
  · rw [List.filter_append] at hat
    by_cases hold : n < (nodes.filter fun (k, _) => k == other).length
    · rw [List.getElem?_append_left hold] at hat
      have hmem := (List.mem_filter.1 (List.mem_of_getElem? hat)).1
      rw [hother _ fun heq => hnew (heq ▸ hmem), h.named hat]
    · -- Behind the nodes that have names stands the new one, if it is of the kind.
      rw [List.getElem?_append_right (Nat.le_of_not_lt hold)] at hat
      obtain ⟨hmem, -⟩ := List.mem_filter.1 (List.mem_of_getElem? hat)
      obtain ⟨rfl, rfl⟩ := Prod.mk.inj (List.mem_singleton.1 hmem)
      obtain ⟨hlt, -⟩ := List.getElem?_eq_some_iff.1 hat
      have hn : n = names.count other := by
        rw [h.count]
        have := Nat.lt_of_lt_of_le hlt (List.length_filter_le _ _)
        rw [List.length_singleton] at this
        omega
      rw [List.lookup_cons_self, hn]

/-- References to nodes that differ are all given names, in their order. -/
theorem Numbers.after {references : List (BlockKind × Reference)} {nodes : List (String × Origin)}
    (h : names.Numbers nodes) (hnodup : (nodes ++ references.filterMap placed?).Nodup) :
    (names.after references).Numbers (nodes ++ references.filterMap placed?) := by
  induction references generalizing names nodes with
  | nil => rwa [List.filterMap_nil, List.append_nil]
  | cons reference references ih =>
    obtain ⟨kind, reference⟩ := reference
    have hstep : names.after ((kind, reference) :: references) =
        (names.identify kind reference).2.after references := rfl
    cases horigin : reference.origin? with
    | none =>
      have hnone : placed? (kind, reference) = none := by rw [placed?, horigin]; rfl
      have hsame : (names.identify kind reference).2 = names := by
        cases reference <;> first | rfl | cases horigin
      rw [List.filterMap_cons_none hnone] at hnodup ⊢
      rw [hstep, hsame]
      exact ih h hnodup
    | some origin =>
      have hsome : placed? (kind, reference) = some (kind.name, origin) := by
        rw [placed?, horigin]; rfl
      have hidentify : (names.identify kind reference).2 = (names.assign kind.name origin).2 := by
        cases reference <;> cases horigin <;> rfl
      rw [List.filterMap_cons_some hsome, List.append_cons] at hnodup ⊢
      rw [hstep, hidentify]
      refine ih (h.assign fun hmem => ?_) hnodup
      exact (List.disjoint_of_nodup_append (List.Nodup.of_append_left hnodup)) hmem
        List.mem_cons_self

/-- The name of a node is its number among those of its kind. -/
theorem Numbers.assign_of_getElem? {nodes : List (String × Origin)} (h : names.Numbers nodes)
    {n : Nat} (hat : (nodes.filter fun (k, _) => k == kind)[n]? = some (kind, origin)) :
    (names.assign kind origin).1 = name kind n := by
  rw [InlineNames.assign, h.named hat]

end InlineNames

/-! ## What blocks are written as -/

/-- The expression that a block is written as: what refers to an implementation in the entry at
    its position, in the list that the block is in. -/
def Graph.writtenAs? (graph : Graph) (config : Expr) (block : Block) : Option Expr :=
  match block.parent with
  | .node id => do
    let node ← graph.node? id
    let list ← [NodeList.entry, .exit, .invoke].find? fun list =>
      (list.handlesOf node).contains block.id
    (entriesAt config node.path list)[block.listIndex]?.bind list.named?
  | .edge id => do
    let edge ← graph.edge? id
    let item ← itemAt? config (graph.pathOf edge.source) edge.path
    if edge.guard = some block.id then guardExpr? item
    else OneOrMany.item? (itemProps item) "actions" block.listIndex

/-- All that a description refers to, in the order of the blocks. -/
def referencesOf (config : Expr) : List (BlockKind × Reference) :=
  (infosOf config).flatMap StateInfo.references

/-- A block is that of an expression: the reference read from it stands at the position of the
    block, and the block has the name by which it is identified. -/
def BelongsTo (config : Expr) (names : InlineNames) (block : Block) (expr : Expr) : Prop :=
  ∃ reference, (Reference.shape block.kind).value? expr = some reference ∧
    (referencesOf config)[block.id]? = some (block.kind, reference) ∧
    block.sourceId = (names.identify block.kind reference).1

theorem PlacesNode.positions {all : List (BlockKind × Reference)} {info : StateInfo} {node : Node}
    (h : PlacesNode all info node) (list : NodeList) :
    Positions all list.kind (list.readOf info) (list.handlesOf node) := by
  cases list with
  | entry => exact h.entry
  | exit => exact h.exit
  | invoke => exact h.invoke

/-- The blocks in a list belong to its entries. -/
theorem Builder.Lists.exists_belongsTo {final : Builder} {config : Expr} {kind : BlockKind}
    {parent : BlockParent} {entries : List (Indexed Reference)} {ids : List BlockId}
    {listed? : Nat → Option Expr} (hlists : final.Lists 0 kind parent entries ids)
    (hpositions : Positions (referencesOf config) kind entries ids)
    (hreferences : ReferencesIn kind listed? entries) {block : Block} (hid : block.id ∈ ids)
    (hblock : final.blocks[block.id]? = some block) :
    block.parent = parent ∧
      ∃ expr, listed? block.listIndex = some expr ∧ BelongsTo config final.names block expr := by
  obtain ⟨k, hk⟩ := List.mem_iff_getElem?.1 hid
  rcases forall₂_getElem? hlists.blocks k with ⟨-, hnone⟩ | ⟨entry, id, hentry, hid', hholds⟩
  · rw [hnone] at hk
    cases hk
  rcases forall₂_getElem? hpositions k with ⟨-, hnone⟩ | ⟨entry', id', hentry', hid'', hposition⟩
  · rw [hnone] at hk
    cases hk
  obtain rfl := Option.some.inj (hid'.symm.trans hk)
  obtain rfl := Option.some.inj (hid''.symm.trans hk)
  obtain rfl := Option.some.inj (hentry.symm.trans hentry')
  obtain ⟨found, hfound, hkind, hparent, hindex, hsource⟩ := hholds
  obtain rfl := Option.some.inj (hfound.symm.trans hblock)
  obtain ⟨expr, hexpr, hread⟩ := hreferences.mem_iff.1 (List.mem_of_getElem? hentry)
  exact ⟨hparent, expr, hindex ▸ hexpr, entry.2, hkind ▸ hread, hkind ▸ hposition,
    hkind ▸ hsource⟩

section

variable {config : Expr} (options setup : Option Expr)

/-- The handles of a node are the positions of what its state refers to. -/
theorem placesNode_extract {i : NodeId} {node : Node} {info : StateInfo}
    (h : (extract config options setup).graph.nodes[i]? = some node)
    (hinfo : (infosOf config)[i]? = some info) : PlacesNode (referencesOf config) info node := by
  obtain ⟨nodes, hnodes, hplaced⟩ :=
    (Builder.addTree_gains (declaredNames options setup) none (readMachine config).1 {}).nodes
  have hgraph : (extract config options setup).graph.nodes = nodes := by
    rw [extract_eq]
    exact hnodes
  rcases forall₂_getElem? (hplaced (referencesOf config) (List.prefix_refl _)) i with
    ⟨hnone, -⟩ | ⟨info', node', hinfo', hnode', hplaces⟩
  · rw [show (infosOf config)[i]? = none from hnone] at hinfo
    cases hinfo
  · obtain rfl := Option.some.inj (hinfo'.symm.trans hinfo)
    obtain rfl := Option.some.inj (hnode'.symm.trans (hgraph ▸ h))
    exact hplaces

/-- The handles of an edge are the positions of what its transition refers to. -/
theorem placesEdge_extract {k : EdgeId} {edge : Edge} {t : Transition}
    (h : (extract config options setup).graph.edges[k]? = some edge)
    (ht : ((infosOf config).flatMap StateInfo.allTransitions)[k]? = some t) :
    PlacesEdge (referencesOf config) t edge := by
  obtain ⟨edges, hedges, hplaced⟩ :=
    (Builder.addTree_gains (declaredNames options setup) none (readMachine config).1 {}).edges
  rw [extract_eq, Graph.resolved, List.getElem?_map] at h
  obtain ⟨raw, hraw, rfl⟩ := Option.map_eq_some_iff.1 h
  have hraw : edges[k]? = some raw := hraw ▸ congrArg (·[k]?) hedges.symm
  rcases forall₂_getElem? (hplaced (referencesOf config) (List.prefix_refl _)) k with
    ⟨hnone, -⟩ | ⟨t', raw', ht', hraw', hplaces⟩
  · rw [show ((infosOf config).flatMap StateInfo.allTransitions)[k]? = none from hnone] at ht
    cases ht
  · obtain rfl := Option.some.inj (ht'.symm.trans ht)
    obtain rfl := Option.some.inj (hraw'.symm.trans hraw)
    exact ⟨hplaces.guard, hplaces.actions⟩

/-- A block in a list of a node belongs to the entry of the list that it is written as. -/
theorem exists_writtenAs?_of_node {node : Node} {block : Block}
    (hnode : node ∈ (extract config options setup).graph.nodes)
    (hids : ∃ list : NodeList, block.id ∈ list.handlesOf node)
    (hblock : (build config options setup).blocks[block.id]? = some block) :
    ∃ expr, (extract config options setup).graph.writtenAs? config block = some expr ∧
      BelongsTo config (build config options setup).names block expr := by
  -- Of the lists of the node, the one that the block is found in.
  have hfound : ([NodeList.entry, .exit, .invoke].find? fun list =>
      (list.handlesOf node).contains block.id).isSome = true := by
    obtain ⟨list, hlist⟩ := hids
    rw [List.find?_isSome]
    exact ⟨list, by cases list <;> simp, List.contains_iff_mem.2 hlist⟩
  obtain ⟨list, hlist⟩ := Option.isSome_iff_exists.1 hfound
  have hin : block.id ∈ list.handlesOf node := by simpa using List.find?_some hlist
  have hat := (extract_wellFormed config options setup).getElem?_of_mem hnode
  obtain ⟨info, hinfo, hmade⟩ := madeFromState_extract options setup hat
  obtain ⟨hparent, expr, hexpr, hbelongs⟩ := (hmade.lists list).exists_belongsTo
    ((placesNode_extract options setup hat hinfo).positions list)
    (referencesIn_readOf (List.mem_of_getElem? hinfo) list) hin hblock
  refine ⟨expr, ?_, hbelongs⟩
  simp only [Graph.writtenAs?, hparent, Graph.node?, hat, hlist, Option.bind_eq_bind,
    Option.bind_some]
  rw [hmade.path]
  exact hexpr

/-- The guard of an edge and its actions belong to what they are written as in its transition. -/
theorem exists_writtenAs?_of_edge {edge : Edge} {block : Block}
    (hedge : edge ∈ (extract config options setup).graph.edges)
    (hid : edge.guard = some block.id ∨ block.id ∈ edge.actions)
    (hblock : (build config options setup).blocks[block.id]? = some block) :
    ∃ expr, (extract config options setup).graph.writtenAs? config block = some expr ∧
      BelongsTo config (build config options setup).names block expr := by
  obtain ⟨k, hk⟩ := List.mem_iff_getElem?.1 hedge
  obtain rfl : edge.id = k := eq_of_map_eq_range (edgeIds_extract config options setup) hk
  obtain ⟨info, t, hinfo, ht, hat, hmade⟩ := madeFrom_extract_at options setup hk
  have hplaces := placesEdge_extract options setup hk hat
  obtain ⟨item, hitem, -, -, hguard, hactions⟩ :=
    exists_item_of_info options setup (isObject_of_mem_edges options setup hedge) hinfo ht
  rw [← hmade.path] at hitem
  -- The guard is found first, and any other block is an action.
  by_cases hfirst : edge.guard = some block.id
  · have hlists := hmade.guard
    have hpositions := hplaces.guard
    rw [hguard] at hlists hpositions
    obtain ⟨hparent, expr, hexpr, hbelongs⟩ := hlists.exists_belongsTo hpositions
      (referencesIn_guard item) (by rw [hfirst]; exact List.mem_singleton_self _) hblock
    refine ⟨expr, ?_, hbelongs⟩
    simp only [Graph.writtenAs?, hparent, Graph.edge?, hk, hitem, Option.bind_eq_bind,
      Option.bind_some, hfirst, if_true]
    split at hexpr
    · exact hexpr
    · cases hexpr
  · obtain ⟨hparent, expr, hexpr, hbelongs⟩ :=
      hmade.actions.exists_belongsTo hplaces.actions hactions (hid.resolve_left hfirst) hblock
    refine ⟨expr, ?_, hbelongs⟩
    simp only [Graph.writtenAs?, hparent, Graph.edge?, hk, hitem, Option.bind_eq_bind,
      Option.bind_some, if_neg hfirst]
    exact hexpr

/-- Every block belongs to the expression that it is written as. -/
theorem exists_writtenAs? {block : Block}
    (h : block ∈ (extract config options setup).graph.blocks) :
    ∃ expr, (extract config options setup).graph.writtenAs? config block = some expr ∧
      BelongsTo config (inlineNames config options setup) block expr := by
  have hat := getElem?_of_map_eq_range (blockIds_extract config options setup) h
  have hblock : (build config options setup).blocks[block.id]? = some block := by
    rwa [← blocks_extract]
  have hlisted : block.id ∈ (extract config options setup).graph.blockLists.flatten :=
    (blockLists_extract config options setup).mem_iff.2
      (List.mem_range.2 (List.getElem?_eq_some_iff.1 hat).1)
  rw [inlineNames_eq]
  obtain ⟨ids, hids, hid⟩ := List.mem_flatten.1 hlisted
  rcases List.mem_append.1 hids with hids | hids
  · obtain ⟨node, hnode, hids⟩ := List.mem_flatMap.1 hids
    refine exists_writtenAs?_of_node options setup hnode ?_ hblock
    simp only [List.mem_cons, List.not_mem_nil, or_false] at hids
    rcases hids with rfl | rfl | rfl
    · exact ⟨.entry, hid⟩
    · exact ⟨.exit, hid⟩
    · exact ⟨.invoke, hid⟩
  · obtain ⟨edge, hedge, hids⟩ := List.mem_flatMap.1 hids
    refine exists_writtenAs?_of_edge options setup hedge ?_ hblock
    simp only [List.mem_cons, List.not_mem_nil, or_false] at hids
    rcases hids with rfl | rfl
    · exact .inl (Option.mem_toList.1 hid)
    · exact .inr hid

end

/-! ## Blocks in place -/

namespace Graph

section

variable (graph : Graph) (config : Expr)

/-- Whether a block is written in place, and not by a name. -/
def isInline (block : Block) : Bool :=
  (graph.writtenAs? config block).any fun expr => !expr.isName

/-- The blocks of a kind that are written in place, in the order of their handles. -/
def inlineBlocks (kind : BlockKind) : List Block :=
  graph.blocks.filter fun block => block.kind == kind && graph.isInline config block

/-- The blocks that are written in place are numbered, those of each kind in the order of their
    handles. -/
structure NumbersInline : Prop where
  /-- Every block is written as something that a reference of its kind is read from. -/
  written : ∀ block ∈ graph.blocks, ∃ expr, graph.writtenAs? config block = some expr ∧
    ((Reference.shape block.kind).value? expr).isSome = true
  ascending : ∀ kind, ((graph.inlineBlocks config kind).map (·.id)).Pairwise (· < ·)
  numbered : ∀ (kind : BlockKind) (n : Nat) (block : Block),
    (graph.inlineBlocks config kind)[n]? = some block → block.sourceId = s!"inline:{kind.name}-{n}"
  /-- The number of a block is that of the blocks of its kind before it that are written in
      place. -/
  counted : ∀ block ∈ graph.blocks, graph.isInline config block = true →
    block.sourceId = InlineNames.name block.kind.name
      ((graph.inlineBlocks config block.kind).countP fun other => decide (other.id < block.id))
  distinct : ∀ block ∈ graph.blocks, ∀ other ∈ graph.blocks,
    graph.isInline config block = true → graph.isInline config other = true →
    block.sourceId = other.sourceId → block = other

end

end Graph

theorem BlockKind.name_inj {kind other : BlockKind} : kind.name = other.name ↔ kind = other := by
  cases kind <;> cases other <;> decide

/-- A kind and a number make a name of their own. -/
theorem InlineNames.name_inj {kind other : BlockKind} {n m : Nat}
    (h : InlineNames.name kind.name n = InlineNames.name other.name m) :
    kind = other ∧ n = m := by
  have hlist (kind : BlockKind) (n : Nat) : (InlineNames.name kind.name n).toList =
      "inline:".toList ++ kind.name.toList ++ '-' :: Nat.toDigits 10 n := by
    rw [InlineNames.name]
    simp [toString]
  have hchars := congrArg String.toList h
  rw [hlist, hlist] at hchars
  have hkind : kind = other := by
    cases kind <;> cases other <;> first | rfl | simp [BlockKind.name] at hchars
  subst hkind
  have hdigits := (List.cons.inj (List.append_cancel_left hchars)).2
  have hvalue := congrArg (Nat.ofDigitChars 10 · 0) hdigits
  simp only [Nat.ofDigitChars_toDigits (show 1 < 10 by decide) (Nat.le_refl 10)] at hvalue
  exact ⟨rfl, hvalue⟩

/-- Among numbers in ascending order, there are as many below one as its position says. -/
theorem countP_lt_of_ascending {α : Type} {l : List α} {f : α → Nat}
    (h : (l.map f).Pairwise (· < ·)) {n : Nat} {a : α} (ha : l[n]? = some a) :
    l.countP (fun b => decide (f b < f a)) = n := by
  induction l generalizing n with
  | nil => cases ha
  | cons b l ih =>
    obtain ⟨hfirst, hrest⟩ := List.pairwise_cons.1 h
    cases n with
    | zero =>
      obtain rfl := Option.some.inj ha
      rw [List.countP_eq_zero]
      intro c hc
      rw [decide_eq_true_eq, Nat.not_lt]
      rcases List.mem_cons.1 hc with rfl | hc
      · exact Nat.le_refl _
      · exact Nat.le_of_lt (hfirst _ (List.mem_map_of_mem hc))
    | succ n =>
      have hlt : f b < f a := hfirst _ (List.mem_map_of_mem (List.mem_of_getElem? ha))
      rw [List.countP_cons_of_pos (by simpa using hlt), ih hrest ha]

section

variable {config : Expr} (options setup : Option Expr)

/-- A block stands for a reference: it is written in place if the reference is, and has the name
    by which the reference is identified. -/
def StandsFor (graph : Graph) (config : Expr) (names : InlineNames) (block : Block)
    (reference : BlockKind × Reference) : Prop :=
  block.kind = reference.1 ∧ graph.isInline config block = reference.2.origin?.isSome ∧
    block.sourceId = (names.identify reference.1 reference.2).1

variable (config) in
/-- Blocks and references come in the same order. -/
theorem standsFor_extract :
    List.Forall₂ (StandsFor (extract config options setup).graph config
      (inlineNames config options setup)) (extract config options setup).graph.blocks
      (referencesOf config) := by
  have hlength : (extract config options setup).graph.blocks.length =
      (referencesOf config).length := by
    rw [blocks_extract]
    have hgains := (Builder.addTree_gains (declaredNames options setup) none
      (readMachine config).1 {}).length
    exact hgains.trans (Nat.zero_add _)
  refine List.forall₂_iff_get.2 ⟨hlength, fun i hi hi' => ?_⟩
  obtain ⟨expr, hexpr, reference, hread, hposition, hsource⟩ :=
    exists_writtenAs? options setup (List.get_mem _ ⟨i, hi⟩)
  have hid : ((extract config options setup).graph.blocks.get ⟨i, hi⟩).id = i :=
    eq_of_map_eq_range (blockIds_extract config options setup) (List.getElem?_eq_getElem hi)
  rw [hid, List.getElem?_eq_getElem hi', Option.some.injEq] at hposition
  rw [show (referencesOf config).get ⟨i, hi'⟩ = _ from hposition]
  refine ⟨rfl, ?_, hsource⟩
  rw [Graph.isInline, hexpr, origin?_of_value? hread]
  cases hname : expr.isName <;> simp [hname]

/-- The names of the blocks of a kind that are written in place are those of the nodes of the kind,
    one by one. -/
theorem map_sourceId_filter {graph : Graph} {names : InlineNames} {blocks : List Block}
    {references : List (BlockKind × Reference)}
    (h : List.Forall₂ (StandsFor graph config names) blocks references) (kind : BlockKind) :
    (blocks.filter fun block => block.kind == kind && graph.isInline config block).map
        (·.sourceId) =
      ((references.filterMap placed?).filter fun (k, _) => k == kind.name).map
        fun (_, origin) => (names.assign kind.name origin).1 := by
  induction h with
  | nil => rfl
  | @cons block reference blocks references hstands _ ih =>
    obtain ⟨hkind, hinline, hsource⟩ := hstands
    cases horigin : reference.2.origin? with
    | none =>
      rw [horigin] at hinline
      rw [List.filter_cons_of_neg (by simp [hinline]),
        List.filterMap_cons_none (by rw [placed?, horigin]; rfl), ih]
    | some origin =>
      rw [horigin] at hinline
      have hsource : block.sourceId = (names.assign reference.1.name origin).1 := by
        rw [hsource]
        cases href : reference.2 <;> rw [href] at horigin <;> cases horigin <;> rfl
      rw [List.filterMap_cons_some (by rw [placed?, horigin]; rfl)]
      by_cases hsame : block.kind = kind
      · rw [List.filter_cons_of_pos (by simp [hinline, hsame]),
          List.filter_cons_of_pos (by simp [← hkind, hsame]), List.map_cons, List.map_cons, ih,
          hsource, ← hkind, hsame]
      · have hother : reference.1.name ≠ kind.name := fun heq =>
          hsame (hkind.trans (BlockKind.name_inj.1 heq))
        rw [List.filter_cons_of_neg (by simp [hsame]),
          List.filter_cons_of_neg (by simp [hother]), ih]

variable (config) in
/-- What is drawn while lists are read is what would be drawn for the blocks one after the other. -/
theorem inlineNames_after :
    inlineNames config options setup = ({} : InlineNames).after (referencesOf config) := by
  rw [inlineNames_eq]
  exact (Builder.addTree_gains (declaredNames options setup) none (readMachine config).1 {}).names

/-- In a description whose nodes differ in their origins, all that is written in place is given a
    name, in the order of the blocks. -/
theorem numbers_inlineNames (horigins : config.origins.Nodup) :
    (inlineNames config options setup).Numbers ((referencesOf config).filterMap placed?) := by
  have hnodup : ((referencesOf config).filterMap placed?).Nodup := by
    have hinline : (inlineOrigins (referencesOf config)).Nodup := by
      obtain ⟨middle, hperm, hsub⟩ := inlineOrigins_infosOf config
      exact hperm.nodup_iff.1 (horigins.sublist hsub)
    have hsnd : ((referencesOf config).filterMap placed?).map (·.2) =
        inlineOrigins (referencesOf config) := by
      rw [List.map_filterMap, inlineOrigins]
      refine List.filterMap_congr fun reference _ => ?_
      rw [placed?]
      cases reference.2.origin? <;> rfl
    exact List.Nodup.of_map (·.2) (hsnd ▸ hinline)
  rw [inlineNames_after]
  exact InlineNames.numbers_empty.after hnodup

/-- The `n`-th block of a kind that is written in place has the `n`-th name of the kind. -/
theorem sourceId_inlineBlocks (horigins : config.origins.Nodup) {kind : BlockKind} {n : Nat}
    {block : Block}
    (h : ((extract config options setup).graph.inlineBlocks config kind)[n]? = some block) :
    block.sourceId = InlineNames.name kind.name n := by
  have hnames := map_sourceId_filter (standsFor_extract config options setup) kind
  have hat := congrArg (·[n]?) hnames
  dsimp only at hat
  rw [← Graph.inlineBlocks, List.getElem?_map, List.getElem?_map, h, Option.map_some] at hat
  obtain ⟨⟨k, origin⟩, hnode, hname⟩ := Option.map_eq_some_iff.1 hat.symm
  have hkind := (List.mem_filter.1 (List.mem_of_getElem? hnode)).2
  obtain rfl : k = kind.name := beq_iff_eq.1 hkind
  rw [← hname]
  exact (numbers_inlineNames options setup horigins).assign_of_getElem? hnode

end

/-- In a description whose nodes differ in their origins, what is written in place is numbered in
    the order of the blocks, for each kind from zero on and without a gap. -/
theorem extract_numbersInline (config : Expr) (options setup : Option Expr)
    (horigins : config.origins.Nodup) :
    (extract config options setup).graph.NumbersInline config := by
  have hascending : ∀ kind, (((extract config options setup).graph.inlineBlocks config kind).map
      (·.id)).Pairwise (· < ·) := by
    intro kind
    refine List.Pairwise.sublist (List.filter_sublist.map _) ?_
    rw [blockIds_extract]
    exact List.pairwise_lt_range
  have hfound : ∀ block ∈ (extract config options setup).graph.blocks,
      (extract config options setup).graph.isInline config block = true →
      ∃ n, ((extract config options setup).graph.inlineBlocks config block.kind)[n]? =
        some block := fun block hblock hinline =>
    List.mem_iff_getElem?.1 (List.mem_filter.2 ⟨hblock, by simp [hinline]⟩)
  refine ⟨fun block hblock => ?_, hascending, fun kind n block h =>
    sourceId_inlineBlocks options setup horigins h, fun block hblock hinline => ?_,
    fun block hblock other hother hinline hinline' hsource => ?_⟩
  · obtain ⟨expr, hexpr, reference, hread, -⟩ := exists_writtenAs? options setup hblock
    exact ⟨expr, hexpr, Option.isSome_of_eq_some hread⟩
  · obtain ⟨n, hn⟩ := hfound block hblock hinline
    rw [sourceId_inlineBlocks options setup horigins hn,
      countP_lt_of_ascending (hascending block.kind) hn]
  · obtain ⟨n, hn⟩ := hfound block hblock hinline
    obtain ⟨m, hm⟩ := hfound other hother hinline'
    rw [sourceId_inlineBlocks options setup horigins hn,
      sourceId_inlineBlocks options setup horigins hm] at hsource
    obtain ⟨hkind, rfl⟩ := InlineNames.name_inj hsource
    rw [← hkind, hn] at hm
    exact Option.some.inj hm

/-- A machine with actions, guards and actors in place, next to names and below a state. One of the
    names looks as if it had been given. -/
def mixedMachine : Expr :=
  .object (.given 0) [
    ofPair "entry" (.array (.given 1) [.str (.given 2) "track", .function (.given 3),
      .call (.given 4) (.ident (.given 5) "assign") []]),
    ofPair "invoke" (.array (.given 6) [
      .object (.given 7) [ofPair "src" (.str (.given 8) "load")],
      .object (.given 9) [
        ofPair "src" (.call (.given 10) (.ident (.given 11) "fromPromise") []),
        ofPair "onDone" (.object (.given 12) [ofPair "guard" (.function (.given 13)),
          ofPair "actions" (.ident (.given 14) "done")])]]),
    ofPair "on" (.object (.given 15) [ofPair "GO" (.object (.given 16) [
      ofPair "guard" (.object (.given 17) [ofPair "type" (.str (.given 18) "ready")]),
      ofPair "actions" (.array (.given 19) [.str (.given 20) "inline:action-1",
        .number (.given 21) "7"])])]),
    ofPair "states" (.object (.given 22) [ofPair "a" (.object (.given 23) [
      ofPair "onExit" (.member (.given 24) (.ident (.given 25) "api") "leave"),
      ofPair "invoke" (.object (.given 26) [ofPair "src" (.ident (.given 27) "load")]),
      ofPair "always" (.object (.given 28) [
        ofPair "guard" (.call (.given 29) (.ident (.given 30) "not") [.str (.given 31) "ready"]),
        ofPair "actions" (.function (.given 32))])])])]

/-- Each kind has numbers of its own, and a name takes none, whatever it looks like. -/
theorem extract_numbersInline_mixed : mixedMachine.origins.Nodup ∧
    (extract mixedMachine none none).graph.blocks.map (fun b => (b.kind, b.sourceId)) =
      [(.action, "track"), (.action, "inline:action-0"), (.action, "inline:action-1"),
        (.actor, "load"), (.actor, "inline:actor-0"), (.guard, "inline:guard-0"),
        (.action, "inline:action-2"), (.guard, "ready"), (.action, "inline:action-1"),
        (.action, "inline:action-3"), (.actor, "inline:actor-1"), (.guard, "inline:guard-1"),
        (.action, "inline:action-4")] ∧
    ((extract mixedMachine none none).graph.inlineBlocks mixedMachine .action).map (·.id) =
      [1, 2, 6, 9, 12] ∧
    (extract mixedMachine none none).graph.NumbersInline mixedMachine :=
  have horigins : mixedMachine.origins.Nodup := by decide +kernel
  ⟨horigins, by decide +kernel, by decide +kernel,
    extract_numbersInline mixedMachine none none horigins⟩

end Statechart
