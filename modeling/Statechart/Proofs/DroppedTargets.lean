import Statechart.Proofs.SlotChanges
import Statechart.Proofs.SlotEdges

/-!
# Dropping targets

Before states are removed, transitions into them are changed: one that leads elsewhere too loses
the targets among the removed states, one that does not is taken out of its slot. The changes are
made one after the other, each at an address of the draft as it was at first. Those that take items
out go from the back to the front, so that the addresses still to come stay valid.

* `Graph.leadsInto`: a descriptor stands for a state at or below a path;
* `Draft.narrowed`: what is to become of the items of a slot;
* `Draft.foldlM_setTargets`: giving items other targets, one after the other;
* `Draft.foldlM_takeTransition`: taking items out, from the back to the front;
* `Editor.Current.itemsAt_edgesInto`: both together do what is to be done.
-/

namespace Statechart

open Draft

theorem SlotTable.AllTransitions.isTransition {config item : Expr}
    (h : (itemsAt config).AllTransitions) {path : StatePath} {place : TransitionPath}
    (hitem : itemAt? config path place = some item) : isTransition item = true :=
  h (path, place.slot) item (List.mem_of_getElem? ((getElem?_itemsAt _ _ _ _).trans hitem))

namespace Draft

variable {α : Type} {draft draft' : Expr} {list : List α}
  {address : α → StatePath × TransitionPath}

/-! ## Other targets -/

/-- Items at different addresses are given other targets, each its own. -/
theorem foldlM_setTargets {kept : α → List String}
    (h : list.foldlM (fun draft a => modifyTransition draft (address a).1 (address a).2
      fun item => pure (setTargets (kept a) item)) draft = .ok draft')
    (hnodup : (list.map address).Nodup) (hall : (itemsAt draft).AllTransitions) :
    SlotsApart draft draft' ∧ (itemsAt draft').AllTransitions ∧
      (∀ a ∈ list, itemAt? draft' (address a).1 (address a).2 =
        (itemAt? draft (address a).1 (address a).2).map (setTargets (kept a))) ∧
      ∀ p place, (p, place) ∉ list.map address →
        itemAt? draft' p place = itemAt? draft p place := by
  induction list generalizing draft with
  | nil =>
    cases h
    exact ⟨.refl _, hall, fun _ ha => absurd ha List.not_mem_nil, fun _ _ _ => rfl⟩
  | cons a list ih =>
    rw [List.foldlM_cons] at h
    obtain ⟨next, hnext, h⟩ := bind_eq_ok.1 h
    rw [List.map_cons, List.nodup_cons] at hnodup
    have hform (item : Expr) := (targets_setTargets (kept a) item).2
    obtain ⟨-, hitems⟩ := modifyTransition_eq_ok hnext fun item _ => isArray_setTargets (hform item)
    obtain ⟨item, -, htable⟩ := itemsAt_modifyTransition hnext fun item _ => hform item
    have hframe : ∀ p place, (p, place) ≠ address a →
        itemAt? next p place = itemAt? draft p place := fun p place hne =>
      (hitems p place).trans (if_neg fun heq => hne (Prod.ext heq.1 heq.2))
    obtain ⟨hapart, hall', hset, hframe'⟩ := ih h hnodup.2 (htable ▸ hall.replace _ (hform item) _)
    refine ⟨(slotsApart_modifyTransition hnext).trans hapart, hall', fun b hb => ?_,
      fun p place hp => ?_⟩
    · rcases List.mem_cons.1 hb with rfl | hb
      · exact (hframe' _ _ hnodup.1).trans ((hitems _ _).trans (if_pos ⟨rfl, rfl⟩))
      · -- The address of the first is another, so that this item is as it was.
        have hne : address b ≠ address a := fun heq => hnodup.1 (heq ▸ List.mem_map_of_mem hb)
        rw [hset b hb, hframe _ _ hne]
    · rw [List.map_cons, List.mem_cons, not_or] at hp
      exact (hframe' p place hp.2).trans (hframe p place hp.1)

/-! ## Items taken out -/

/-- What is left of a list when the positions that are not to be kept are taken out. -/
def keepAt {β : Type} (keep : Nat → Bool) (l : List β) : List β :=
  (l.zipIdx.filter fun entry => keep entry.2).map (·.1)

theorem keepAt_of_forall {β : Type} {keep : Nat → Bool} (l : List β) (start : Nat)
    (h : ∀ i, start ≤ i → keep i = true) :
    ((l.zipIdx start).filter fun entry => keep entry.2).map (·.1) = l := by
  rw [List.filter_eq_self.2 fun entry hentry => h _ (List.le_snd_of_mem_zipIdx hentry)]
  exact List.zipIdx_map_fst _ _

/-- Of the positions to be taken out the last can be taken out first. -/
theorem keepAt_eraseIdx {β : Type} {keep : Nat → Bool} {i : Nat} {l : List β} (hi : i < l.length)
    (h : ∀ j, i ≤ j → keep j = true) :
    keepAt keep (l.eraseIdx i) = keepAt (fun j => keep j && j != i) l := by
  have hlength : (l.take i).length = i := List.length_take_of_le hi.le
  have hfront : ((l.take i).zipIdx.filter fun entry => keep entry.2) =
      (l.take i).zipIdx.filter fun entry => keep entry.2 && entry.2 != i := by
    refine List.filter_congr fun entry hentry => ?_
    have hlt := List.snd_lt_of_mem_zipIdx hentry
    have hne : entry.2 ≠ i := by omega
    simp [hne]
  have hback : ∀ j, i + 1 ≤ j → (keep j && j != i) = true := by
    intro j hj
    rw [h j (by omega), Bool.true_and, bne_iff_ne]
    omega
  have hsplit : keepAt (fun j => keep j && j != i) l =
      ((l.take i).zipIdx.filter fun entry => keep entry.2 && entry.2 != i).map (·.1) ++
        l.drop (i + 1) := by
    rw [keepAt]
    nth_rewrite 1 [← List.take_append_drop i l]
    rw [List.zipIdx_append, List.filter_append, List.map_append, hlength, Nat.zero_add,
      List.drop_eq_getElem_cons hi, List.zipIdx_cons, List.filter_cons_of_neg (by simp),
      keepAt_of_forall _ _ hback]
  rw [hsplit, List.eraseIdx_eq_take_drop_succ, keepAt, List.zipIdx_append, List.filter_append,
    List.map_append, hlength, Nat.zero_add, keepAt_of_forall _ _ h, hfront]

/-- Items at different addresses are taken out, from the back to the front. -/
theorem foldlM_takeTransition
    (h : list.foldlM (fun draft a => do
      pure (← takeTransition draft (address a).1 (address a).2).2) draft = .ok draft')
    (hnodup : (list.map address).Nodup)
    (hsorted : list.Pairwise fun a b => (address b).2.index ≤ (address a).2.index)
    (hall : (itemsAt draft).AllTransitions) :
    SlotsApart draft draft' ∧ (itemsAt draft').AllTransitions ∧ ∀ p slot, itemsAt draft' (p, slot) =
      keepAt (fun i => (p, ⟨slot, i⟩) ∉ list.map address) (itemsAt draft (p, slot)) := by
  induction list generalizing draft with
  | nil =>
    cases h
    refine ⟨.refl _, hall, fun p slot => ?_⟩
    have hkeep : ∀ i, 0 ≤ i → decide ((p, (⟨slot, i⟩ : TransitionPath)) ∉ [].map address) = true :=
      fun _ _ => rfl
    exact (keepAt_of_forall _ 0 hkeep).symm
  | cons a list ih =>
    rw [List.foldlM_cons] at h
    obtain ⟨next, hnext, h⟩ := bind_eq_ok.1 h
    obtain ⟨⟨item, taken⟩, htake, hnext⟩ := bind_eq_ok.1 hnext
    cases hnext
    rw [List.map_cons, List.nodup_cons] at hnodup
    rw [List.pairwise_cons] at hsorted
    obtain ⟨hitem, herase⟩ := itemsAt_takeTransition htake hall
    obtain ⟨hapart, hall', hkept⟩ := ih h hnodup.2 hsorted.2 (herase ▸ hall.erase _ _)
    refine ⟨(slotsApart_takeTransition htake).trans hapart, hall', fun p slot => ?_⟩
    rw [hkept, herase, SlotTable.erase]
    by_cases hplace : (p, slot) = ((address a).1, (address a).2.slot)
    · obtain ⟨rfl, rfl⟩ := Prod.mk.inj hplace
      have haddress (i : Nat) : ((address a).1, (⟨(address a).2.slot, i⟩ : TransitionPath)) =
          address a ↔ i = (address a).2.index :=
        ⟨fun heq => congrArg (·.2.index) heq, fun heq => heq ▸ rfl⟩
      rw [Function.update_self, keepAt_eraseIdx (List.getElem?_eq_some_iff.1 hitem).1]
      · refine congrArg (keepAt · _) (funext fun i => ?_)
        rw [Bool.eq_iff_iff, List.map_cons]
        simp only [Bool.and_eq_true, decide_eq_true_eq, bne_iff_ne, List.mem_cons, not_or,
          haddress, and_comm]
      · -- What is still to be taken out of this slot stands before.
        intro i hi
        rw [decide_eq_true_eq, List.mem_map]
        rintro ⟨b, hb, heq⟩
        have hle := hsorted.1 b hb
        rw [heq] at hle
        refine hnodup.1 (List.mem_map.2 ⟨b, hb, heq.trans ((haddress i).2 ?_)⟩)
        exact Nat.le_antisymm hle hi
    · rw [Function.update_of_ne hplace]
      refine congrArg (keepAt · _) (funext fun i => ?_)
      have hne : (p, (⟨slot, i⟩ : TransitionPath)) ≠ address a := fun heq =>
        hplace (Prod.ext (congrArg (·.1) heq) (congrArg (·.2.slot) heq))
      rw [Bool.eq_iff_iff, List.map_cons]
      simp only [decide_eq_true_eq, List.mem_cons, not_or, hne, not_false_eq_true, true_and]

/-! ## What becomes of a slot -/

variable (leads : String → Bool)

/-- Whether there are targets, and all of them lead to where they are dropped. -/
def vanishes (descriptors : List String) : Bool :=
  descriptors.any leads && descriptors.all leads

/-- An item without the targets that lead to where they are dropped. -/
def narrow (item : Expr) : Expr :=
  if (targets item).any leads then setTargets ((targets item).filter (!leads ·)) item else item

/-- What is to become of the items of a slot. -/
def narrowed (items : List Expr) : List Expr :=
  (items.filter fun item => !vanishes leads (targets item)).map (narrow leads)

variable {leads}

theorem vanishes_iff {descriptors : List String} :
    vanishes leads descriptors = true ↔
      descriptors.any leads = true ∧ descriptors.filter (!leads ·) = [] := by
  rw [vanishes, Bool.and_eq_true, List.filter_eq_nil_iff, List.all_eq_true]
  simp

theorem targets_narrow (item : Expr) :
    targets (narrow leads item) = (targets item).filter (!leads ·) := by
  rw [narrow]
  split
  · exact (targets_setTargets _ _).1
  · next hnone =>
    rw [Bool.not_eq_true, List.any_eq_false] at hnone
    exact (List.filter_eq_self.2 fun d hd => by simp [hnone d hd]).symm

theorem value?_narrow {name : String} (hname : name ≠ "target") (item : Expr) :
    Property.value? (itemProps (narrow leads item)) name =
      Property.value? (itemProps item) name := by
  rw [narrow]
  split
  · exact value?_setTargets hname item _
  · rfl

/-- Items are narrowed in their places, and then taken out by their positions. -/
theorem keepAt_map_eq_narrowed {items : List Expr} {keep : Nat → Bool}
    (hkeep : ∀ (i : Nat) item, items[i]? = some item → keep i = !vanishes leads (targets item)) :
    keepAt keep (items.map fun item =>
      if vanishes leads (targets item) then item else narrow leads item) =
        narrowed leads items := by
  have hkept : keepAt keep items = items.filter fun item => !vanishes leads (targets item) := by
    nth_rewrite 2 [← List.zipIdx_map_fst 0 items]
    rw [keepAt, List.filter_map]
    refine congrArg _ (List.filter_congr fun entry hentry => ?_)
    exact hkeep _ _ (List.mem_zipIdx_iff_getElem?.1 hentry)
  have hmap : ∀ f : Expr → Expr, keepAt keep (items.map f) = (keepAt keep items).map f := by
    intro f
    rw [keepAt, keepAt, List.zipIdx_map, List.filter_map, List.map_map, List.map_map]
    rfl
  rw [hmap, hkept, narrowed]
  refine List.map_congr_left fun item hitem => ?_
  rw [List.mem_filter, Bool.not_eq_true'] at hitem
  rw [hitem.2]
  rfl

end Draft

/-! ## Descriptors into removed states -/

namespace Graph

variable {graph : Graph} {node source : NodeId} {path p : StatePath}

/-- A descriptor on a node stands for a state at or below a path. -/
def leadsInto (graph : Graph) (path : StatePath) (source : NodeId) (descriptor : String) : Bool :=
  (graph.resolve? source descriptor).any fun target => path.isPrefixOf (graph.pathOf target)

variable (hgraph : graph.WellFormed) (hat : graph.At node path)

include hgraph hat

theorem any_contains_subtree (hsource : graph.At source p) (descriptor : String) :
    (graph.resolve? source descriptor).any (graph.subtree node).contains =
      graph.leadsInto path source descriptor := by
  rw [leadsInto]
  cases htarget : graph.resolve? source descriptor with
  | none => rfl
  | some target =>
    rw [Option.any_some, Option.any_some, Bool.eq_iff_iff, List.contains_iff_mem,
      List.isPrefixOf_iff_prefix]
    exact mem_subtree_iff_path hgraph hat (at_of_resolve? hgraph hsource htarget)

end Graph

namespace Editor

variable {editor : Editor} {node source : NodeId} {path p : StatePath}

/-- The edges into removed states from outside, by their addresses. -/
theorem Current.exists_mem_edgesInto_iff (h : editor.Current) (hat : editor.graph.At node path)
    (hsource : editor.graph.At source p) {place : TransitionPath} {item : Expr}
    (hitem : itemAt? editor.draft p place = some item) (hform : isTransition item = true)
    (kept : List String) :
    (∃ entry ∈ editor.edgesInto (editor.graph.subtree node),
        editor.graph.address entry.1 = (p, place) ∧ entry.2 = kept) ↔
      ¬path <+: p ∧ (targets item).any (editor.graph.leadsInto path source) = true ∧
        (targets item).filter (!editor.graph.leadsInto path source ·) = kept := by
  have hgraph := h.wellFormed
  -- What the editor asks of an edge at the address.
  have hkept : ∀ edge, edge.source = source → edge.descriptors = targets item →
      editor.keptDescriptors? (editor.graph.subtree node) edge =
        if (targets item).any (editor.graph.leadsInto path source) then
          some ((targets item).filter (!editor.graph.leadsInto path source ·)) else none := by
    rintro edge rfl hdescriptors
    rw [keptDescriptors?, hdescriptors]
    simp only [Graph.any_contains_subtree hgraph hat hsource]
  have hinside : (editor.graph.subtree node).contains source = true ↔ path <+: p := by
    rw [List.contains_iff_mem]
    exact Graph.mem_subtree_iff_path hgraph hat hsource
  simp only [edgesInto, List.mem_filterMap, List.mem_filter, Bool.not_eq_true',
    Option.map_eq_some_iff]
  constructor
  · rintro ⟨_, ⟨edge, ⟨hedge, houtside⟩, kept, hfound, rfl⟩, haddress, rfl⟩
    obtain ⟨item', hitem', -, htargets⟩ :=
      h.exists_edge_iff_hasTransition.1 ⟨edge, hedge, haddress, rfl⟩
    obtain rfl := Option.some.inj (hitem'.symm.trans hitem)
    obtain rfl := h.source_eq hedge haddress hsource
    rw [hkept edge rfl htargets.symm, Option.ite_none_right_eq_some, Option.some.injEq] at hfound
    refine ⟨fun hprefix => ?_, hfound⟩
    rw [hinside.2 hprefix] at houtside
    cases houtside
  · rintro ⟨houtside, hany, rfl⟩
    obtain ⟨edge, hedge, haddress, hdescriptors⟩ := h.exists_edge_iff_hasTransition.2
      (show HasTransition editor.draft (p, place) (targets item) from ⟨item, hitem, hform, rfl⟩)
    obtain rfl := h.source_eq hedge haddress hsource
    refine ⟨(edge, _), ⟨edge, ⟨hedge, ?_⟩, _, ?_, rfl⟩, haddress, rfl⟩
    · exact Bool.eq_false_iff.2 fun hcontains => houtside (hinside.1 hcontains)
    · rw [hkept edge rfl hdescriptors, if_pos hany]

/-- No two edges into removed states have the same address. -/
theorem Current.nodup_edgesInto (h : editor.Current) (removed : List NodeId) :
    ((editor.edgesInto removed).map fun entry => editor.graph.address entry.1).Nodup := by
  have hedges : (editor.graph.edges.filter fun edge => !removed.contains edge.source).Pairwise
      fun a b => editor.graph.address a ≠ editor.graph.address b :=
    (List.pairwise_map.1 (nodup_edges_graph h)).filter _
  refine List.pairwise_map.2 (List.pairwise_filterMap.2 (hedges.imp fun hne => ?_))
  intro x hx y hy
  obtain ⟨_, -, rfl⟩ := Option.map_eq_some_iff.1 hx
  obtain ⟨_, -, rfl⟩ := Option.map_eq_some_iff.1 hy
  exact hne

section

variable (h : editor.Current) (hall : (itemsAt editor.draft).AllTransitions)
  (hat : editor.graph.At node path) {draft draft' : Expr}

include h

theorem Current.nodup_filter_edgesInto (removed : List NodeId)
    (keep : Edge × List String → Bool) :
    (((editor.edgesInto removed).filter keep).map
      fun entry => editor.graph.address entry.1).Nodup :=
  (h.nodup_edgesInto removed).sublist (List.filter_sublist.map _)

include hall hat

/-- Transitions that lead elsewhere too lose the targets among the removed states. -/
theorem Current.itemsAt_setTargets
    (hnarrowed : ((editor.edgesInto (editor.graph.subtree node)).filter (!·.2.isEmpty)).foldlM
      (fun draft entry =>
        modifyTransition draft (editor.graph.pathOf entry.1.source) entry.1.path
          fun item => pure (setTargets entry.2 item)) editor.draft = .ok draft) :
    SlotsApart editor.draft draft ∧ (itemsAt draft).AllTransitions ∧
      ∀ {source p}, editor.graph.At source p → ¬path <+: p → ∀ slot,
        itemsAt draft (p, slot) = (itemsAt editor.draft (p, slot)).map fun item =>
          if vanishes (editor.graph.leadsInto path source) (targets item) then item
          else narrow (editor.graph.leadsInto path source) item := by
  obtain ⟨hapart, hall', hset, hframe⟩ :=
    foldlM_setTargets hnarrowed (h.nodup_filter_edgesInto _ _) hall
  refine ⟨hapart, hall', fun {source p} hsource houtside slot => ?_⟩
  refine List.ext_getElem? fun i => ?_
  rw [List.getElem?_map, getElem?_itemsAt, getElem?_itemsAt]
  by_cases hmem : (p, (⟨slot, i⟩ : TransitionPath)) ∈
      ((editor.edgesInto (editor.graph.subtree node)).filter (!·.2.isEmpty)).map
        fun entry => editor.graph.address entry.1
  · obtain ⟨entry, hentry, haddress⟩ := List.mem_map.1 hmem
    have hchanged := hset entry hentry
    rw [haddress] at hchanged
    rw [hchanged]
    cases hitem : itemAt? editor.draft p ⟨slot, i⟩ with
    | none => rfl
    | some item =>
      obtain ⟨hentry, hkept⟩ := List.mem_filter.1 hentry
      obtain ⟨-, hany, hfilter⟩ := (h.exists_mem_edgesInto_iff hat hsource hitem
        (hall.isTransition hitem) _).1 ⟨entry, hentry, haddress, rfl⟩
      have hstays : ¬vanishes (editor.graph.leadsInto path source) (targets item) = true := by
        rw [vanishes_iff, hfilter]
        rintro ⟨-, hnil⟩
        rw [hnil] at hkept
        cases hkept
      rw [Option.map_some, Option.map_some, if_neg hstays, narrow, if_pos hany, hfilter]
  · rw [hframe p _ hmem]
    cases hitem : itemAt? editor.draft p ⟨slot, i⟩ with
    | none => rfl
    | some item =>
      rw [Option.map_some]
      split
      · rfl
      · next hstays =>
        -- An item that is not narrowed has none of the targets.
        rw [narrow, if_neg]
        intro hany
        obtain ⟨entry, hentry, haddress, hkept⟩ := (h.exists_mem_edgesInto_iff hat hsource hitem
          (hall.isTransition hitem) _).2 ⟨houtside, hany, rfl⟩
        refine hmem (List.mem_map.2 ⟨entry, List.mem_filter.2 ⟨hentry, ?_⟩, haddress⟩)
        rw [vanishes_iff, and_iff_right hany, ← hkept, ← List.isEmpty_iff] at hstays
        exact Bool.not_eq_true' _ ▸ Bool.eq_false_iff.2 hstays

/-- Transitions into removed states lose these targets, and are taken out of their slots when they
    have no others. -/
theorem Current.itemsAt_edgesInto
    (hnarrowed : ((editor.edgesInto (editor.graph.subtree node)).filter (!·.2.isEmpty)).foldlM
      (fun draft entry =>
        modifyTransition draft (editor.graph.pathOf entry.1.source) entry.1.path
          fun item => pure (setTargets entry.2 item)) editor.draft = .ok draft)
    (hdropped : (((editor.edgesInto (editor.graph.subtree node)).filter (·.2.isEmpty)).mergeSort
      fun a b => b.1.path.index ≤ a.1.path.index).foldlM (fun draft entry => do
        pure (← takeTransition draft (editor.graph.pathOf entry.1.source) entry.1.path).2) draft =
          .ok draft') :
    SlotsApart editor.draft draft' ∧ (itemsAt draft').AllTransitions ∧
      ∀ {source p}, editor.graph.At source p → ¬path <+: p → ∀ slot, itemsAt draft' (p, slot) =
        narrowed (editor.graph.leadsInto path source) (itemsAt editor.draft (p, slot)) := by
  obtain ⟨hapart, hall', hitems⟩ := h.itemsAt_setTargets hall hat hnarrowed
  have hperm := List.mergeSort_perm
    ((editor.edgesInto (editor.graph.subtree node)).filter (·.2.isEmpty))
    fun a b => b.1.path.index ≤ a.1.path.index
  have hsorted : (((editor.edgesInto (editor.graph.subtree node)).filter (·.2.isEmpty)).mergeSort
      fun a b => b.1.path.index ≤ a.1.path.index).Pairwise
        fun a b => b.1.path.index ≤ a.1.path.index := by
    refine (List.pairwise_mergeSort (fun a b c hab hbc => ?_) (fun a b => ?_) _).imp
      fun hab => of_decide_eq_true hab
    · exact decide_eq_true (Nat.le_trans (of_decide_eq_true hbc) (of_decide_eq_true hab))
    · simpa using Nat.le_total _ _
  obtain ⟨hapart', hall'', hkept⟩ := foldlM_takeTransition hdropped
    ((hperm.map _).nodup_iff.2 (h.nodup_filter_edgesInto _ _)) hsorted hall'
  refine ⟨hapart.trans hapart', hall'', fun {source p} hsource houtside slot => ?_⟩
  rw [hkept, hitems hsource houtside]
  -- An item is dropped just when none of its targets is left.
  refine keepAt_map_eq_narrowed fun i item hitem => ?_
  rw [getElem?_itemsAt] at hitem
  have hmem := h.exists_mem_edgesInto_iff hat hsource hitem (hall.isTransition hitem) []
  rw [and_iff_right houtside, ← vanishes_iff] at hmem
  rw [Bool.eq_iff_iff, decide_eq_true_eq, Bool.not_eq_true', ← Bool.not_eq_true, ← hmem,
    not_iff_not, (hperm.map _).mem_iff, List.mem_map]
  simp only [List.mem_filter, List.isEmpty_iff]
  constructor
  · rintro ⟨entry, ⟨hentry, hnil⟩, haddress⟩
    exact ⟨entry, hentry, haddress, hnil⟩
  · rintro ⟨entry, hentry, haddress, hnil⟩
    exact ⟨entry, ⟨hentry, hnil⟩, haddress⟩

end

end Editor

end Statechart
