import Statechart.Proofs.Addresses
import Statechart.Proofs.BlocksBuilt

/-!
# Blocks and the entries that they are written as

The blocks of a state or of a transition are those of the entries of a written list that are
references, each by its position in the list. A list is found by the key in use, and an entry by
its position, as for edits.

* `ReferencesIn`: what is read of a list;
* `referencesIn_readStateActions`, `referencesIn_readInvocations`, `exists_item_of_mem`: what is
  read of states and transitions;
* `Graph.Realizes`: blocks and the entries of a list;
* `Builder.Lists.realizes`: blocks that were added for what was read are those of its entries.
-/

namespace Statechart

open Property Draft

/-! ## References in a list -/

/-- What is read of a list with the given entries: those that are references, by their
    positions. -/
structure ReferencesIn (kind : BlockKind) (listed? : Nat → Option Expr)
    (references : List (Indexed Reference)) : Prop where
  mem_iff : ∀ {index : Nat} {reference : Reference}, (index, reference) ∈ references ↔
    ∃ expr, listed? index = some expr ∧ (Reference.shape kind).value? expr = some reference
  ascending : (references.map (·.1)).Pairwise (· < ·)

theorem ReferencesIn.nodup {kind : BlockKind} {listed? : Nat → Option Expr}
    {references : List (Indexed Reference)} (h : ReferencesIn kind listed? references) :
    (references.map (·.1)).Nodup :=
  h.ascending.imp Nat.ne_of_lt

theorem referencesIn_filterMap {kind : BlockKind} {α : Type} {list : List α}
    (read : α → Option Reference) {listed? : Nat → Option Expr}
    (hread : ∀ {index a}, list[index]? = some a →
      read a = (listed? index).bind (Reference.shape kind).value?)
    (hnone : ∀ {index}, list[index]? = none → listed? index = none) :
    ReferencesIn kind listed?
      (list.zipIdx.filterMap fun (a, index) => (read a).map (index, ·)) where
  mem_iff := by
    intro index reference
    rw [List.mem_filterMap]
    constructor
    · rintro ⟨⟨a, i⟩, hmem, heq⟩
      obtain ⟨r, hr, heq⟩ := Option.map_eq_some_iff.1 heq
      cases heq
      rw [hread (List.mk_mem_zipIdx_iff_getElem?.1 hmem)] at hr
      exact Option.bind_eq_some_iff.1 hr
    · rintro ⟨expr, hexpr, hreference⟩
      cases ha : list[index]? with
      | none =>
        rw [hnone ha] at hexpr
        cases hexpr
      | some a =>
        refine ⟨(a, index), List.mk_mem_zipIdx_iff_getElem?.2 ha, ?_⟩
        dsimp only
        rw [hread ha, hexpr, Option.bind_some, hreference]
        rfl
  ascending := by
    -- The positions that are kept are some of all positions, in their order.
    have hsub : ((list.zipIdx.filterMap fun (a, index) => (read a).map (index, ·)).map
        (·.1)).Sublist (list.zipIdx.map (·.2)) := by
      induction list.zipIdx with
      | nil => exact .slnil
      | cons entry entries ih =>
        rw [List.filterMap_cons, List.map_cons]
        split
        · exact ih.cons _
        · next h =>
          obtain ⟨r, -, rfl⟩ := Option.map_eq_some_iff.1 h
          exact ih.cons_cons _
    refine List.Pairwise.sublist hsub ?_
    rw [List.zipIdx_map_snd]
    exact List.pairwise_lt_range'

theorem readActions_fst (kind : ProblemKind) (path : StatePath) (property : String)
    (expr : Expr) :
    (readActions kind path property expr).1 = (itemsOf expr).zipIdx.filterMap fun (item, index) =>
      ((Reference.shape .action).value? item).map (index, ·) := by
  simp only [readActions, readOneOrMany, Shape.oneOrMany, itemsOf]
  cases expr.items? with
  | none => rfl
  | some items =>
    simp only [readMany, Option.getD_some, List.zipIdx_map, List.filterMap_map]
    rfl

/-- The actions of a property, read by their positions. -/
theorem referencesIn_actions (kind : ProblemKind) (path : StatePath) (property : String)
    (props : List Property) (key : String) :
    ReferencesIn .action (OneOrMany.item? props key)
      (((value? props key).map fun expr => (readActions kind path property expr).1).getD []) := by
  cases hvalue : value? props key with
  | none =>
    have hitem : ∀ index, OneOrMany.item? props key index = none := fun index => by
      rw [oneOrMany_item?, hvalue]
      rfl
    exact ⟨by simp [hitem], List.Pairwise.nil⟩
  | some expr =>
    rw [Option.map_some, Option.getD_some, readActions_fst]
    have hitem : ∀ index, OneOrMany.item? props key index = (itemsOf expr)[index]? :=
      fun index => by rw [oneOrMany_item?, hvalue, Option.bind_some]
    exact referencesIn_filterMap (Reference.shape .action).value?
      (fun h => by rw [hitem, h]; rfl) fun h => by rw [hitem, h]

/-- The keyword in use is the one that is read. -/
theorem pickNewer_fst (path : StatePath) (props : List Property) (old new : String) :
    (pickNewer path props old new).1 = (effectiveKey? props new old).bind (prop? props) := by
  rw [pickNewer, effectiveKey?, ← isSome_prop?, ← isSome_prop?]
  cases hold : prop? props old <;> cases hnew : prop? props new <;> simp [hold, hnew]

theorem readProperty_fst {α : Type} (kind : ProblemKind) (path : StatePath) (name : String)
    (read : Expr → Option α) (prop : Option Property) :
    (readProperty kind path name read prop).1 = (prop.map (·.value)).bind read := by
  cases prop with
  | none => rfl
  | some prop =>
    rw [readProperty]
    cases hvalue : read prop.value <;> simp [hvalue]

theorem readStateActions_fst (path : StatePath) (props : List Property) (old new : String) :
    (readStateActions path props old new).1 =
      (((effectiveKey? props new old).bind (value? props)).map fun expr =>
        (readActions .stateProperty path new expr).1).getD [] := by
  simp only [readStateActions, pickNewer_fst]
  cases effectiveKey? props new old with
  | none => rfl
  | some key =>
    simp only [Option.bind_some, value?]
    cases prop? props key <;> rfl

/-- The actions of a state, read by their positions in the list of the keyword in use. -/
theorem referencesIn_readStateActions (path : StatePath) (props : List Property)
    (old new : String) :
    ReferencesIn .action (fun index => (effectiveKey? props new old).bind
      (OneOrMany.item? props · index)) (readStateActions path props old new).1 := by
  rw [readStateActions_fst]
  cases effectiveKey? props new old with
  | none => exact ⟨by simp, List.Pairwise.nil⟩
  | some key => exact referencesIn_actions .stateProperty path new props key

/-- The sources of invocations, read by the positions of these. -/
theorem referencesIn_readInvocations (stateId : String) (path : StatePath)
    (props : List Property) :
    ReferencesIn .actor (fun index => (OneOrMany.item? props "invoke" index).bind fun item =>
      item.props?.bind (value? · "src"))
      (Builder.invoked (readInvocations stateId path (prop? props "invoke")).1) := by
  have hitem : ∀ index, OneOrMany.item? props "invoke" index =
      (value? props "invoke").bind fun value => (itemsOf value)[index]? :=
    oneOrMany_item? props "invoke"
  cases hprop : prop? props "invoke" with
  | none =>
    rw [readInvocations]
    exact ⟨by simp [hitem, value?, hprop, Builder.invoked], List.Pairwise.nil⟩
  | some prop =>
    have hread : Builder.invoked (readInvocations stateId path (some prop)).1 =
        (itemsOf prop.value).zipIdx.filterMap fun (item, index) =>
          ((item.props?.bind (value? · "src")).bind (Reference.shape .actor).value?).map
            (index, ·) := by
      simp only [readInvocations, Builder.invoked, List.filterMap_map, List.filterMap_filterMap]
      refine List.filterMap_congr fun pair _ => ?_
      obtain ⟨item, index⟩ := pair
      simp only [Function.comp_def, readInvocation]
      cases item.props? <;> rfl
    rw [hread]
    have hlist : ∀ index, OneOrMany.item? props "invoke" index = (itemsOf prop.value)[index]? :=
      fun index => by rw [hitem, value?, hprop]; rfl
    exact referencesIn_filterMap (fun item : Expr =>
        (item.props?.bind (value? · "src")).bind (Reference.shape .actor).value?)
      (fun h => by rw [hlist, h]; rfl) fun h => by rw [hlist, h]; rfl

/-! ## What is read of a transition -/

/-- The guard of a transition as it is written, under the keyword in use. -/
def guardExpr? (item : Expr) : Option Expr :=
  (effectiveKey? (itemProps item) "guard" "cond").bind (value? (itemProps item))

/-- What the graph has of a transition. -/
def Transition.reading (transition : Transition) :
    TransitionPath × List String × Option Span × Option Reference × List (Indexed Reference) :=
  (transition.path, transition.descriptors, transition.span, transition.guard, transition.actions)

/-- What the graph has of an item that has the form of a transition. -/
def itemReading? (item : TransitionPath × Expr) :
    Option (TransitionPath × List String × Option Span × Option Reference ×
      List (Indexed Reference)) :=
  if isTransition item.2 then
    some (item.1, targets item.2, item.2.span,
      (guardExpr? item.2).bind (Reference.shape .guard).value?,
      ((value? (itemProps item.2) "actions").map fun expr =>
        (readActions .transitionProperty [] "actions" expr).1).getD [])
  else none

theorem guard_readTransitionObject (path : StatePath) (base : Transition) (props : List Property) :
    (readTransitionObject path base props).1.guard =
      ((effectiveKey? props "guard" "cond").bind (value? props)).bind
        (Reference.shape .guard).value? := by
  simp only [readTransitionObject, readProperty_fst, pickNewer_fst]
  cases effectiveKey? props "guard" "cond" with
  | none => rfl
  | some key => rfl

theorem actions_readTransitionObject (path : StatePath) (base : Transition)
    (props : List Property) :
    (readTransitionObject path base props).1.actions =
      ((value? props "actions").map fun expr =>
        (readActions .transitionProperty [] "actions" expr).1).getD [] := by
  simp only [readTransitionObject, value?]
  cases prop? props "actions" with
  | none => rfl
  | some prop =>
    simp only [Option.map_some, Option.getD_some, readActions_fst]

theorem reading_readTransition (path : StatePath) (slot : Slot) (trigger : Trigger) (item : Expr)
    (index : Nat) :
    (readTransition path slot trigger item index).1.map Transition.reading =
      itemReading? (⟨slot, index⟩, item) := by
  cases item with
  | object origin props =>
    have hview := descriptors_readTransitionObject path
      { path := ⟨slot, index⟩, trigger, span := (Expr.object origin props).span } props
    have hguard := guard_readTransitionObject path
      { path := ⟨slot, index⟩, trigger, span := (Expr.object origin props).span } props
    have hactions := actions_readTransitionObject path
      { path := ⟨slot, index⟩, trigger, span := (Expr.object origin props).span } props
    have hdescriptors := congrArg Prod.snd hview
    simp only [Transition.view] at hdescriptors
    simp only [readTransition, Shape.transitionItem, Shape.value?, TransitionItem.ofExpr?,
      Option.isSome_some, if_true, Option.map_some, Transition.reading, hdescriptors, hguard,
      hactions]
    rfl
  | _ => rfl

/-- What can be told of a transition of a state is told of an item of the state. -/
theorem exists_item_of_map {β : Type} {f : Transition → β} {g : TransitionPath × Expr → Option β}
    (hread : ∀ path slot trigger item index,
      (readTransition path slot trigger item index).1.map f = g (⟨slot, index⟩, item))
    {rootId : Option String} {key : String} {path : StatePath} {span : Option Span}
    {props : List Property} {t : Transition}
    (h : t ∈ (infoOf rootId key path span props).allTransitions) :
    ∃ place item, itemIn? props place = some item ∧ g (place, item) = some (f t) := by
  have hmem := List.mem_map_of_mem (f := f) h
  rw [map_allTransitions hread, List.mem_filterMap] at hmem
  obtain ⟨⟨place, item⟩, hwritten, hread⟩ := hmem
  exact ⟨place, item, mem_written.1 hwritten, hread⟩

/-- A transition of a state is read from the item at its place. -/
theorem exists_item_of_mem {rootId : Option String} {key : String} {path : StatePath}
    {span : Option Span} {props : List Property} {t : Transition}
    (h : t ∈ (infoOf rootId key path span props).allTransitions) :
    ∃ item, itemIn? props t.path = some item ∧ isTransition item = true ∧
      t.descriptors = targets item ∧ t.span = item.span ∧
      t.guard = (guardExpr? item).bind (Reference.shape .guard).value? ∧
      ReferencesIn .action (OneOrMany.item? (itemProps item) "actions") t.actions := by
  obtain ⟨place, item, hplace, hread⟩ := exists_item_of_map reading_readTransition h
  rw [itemReading?] at hread
  split at hread
  · next hitem =>
    simp only [Transition.reading, Option.some.injEq, Prod.mk.injEq] at hread
    obtain ⟨rfl, hdescriptors, hspan, hguard, hactions⟩ := hread
    refine ⟨item, hplace, hitem, hdescriptors.symm, hspan.symm, hguard.symm, ?_⟩
    rw [← hactions]
    exact referencesIn_actions _ _ _ _ _
  · cases hread

/-! ## Blocks and entries -/

/-- The blocks with the handles are those of the entries that are references. -/
structure Graph.Realizes (graph : Graph) (names : InlineNames) (kind : BlockKind)
    (parent : BlockParent) (listed? : Nat → Option Expr) (ids : List BlockId) : Prop where
  /-- A block is that of the entry at its position, which is read as its source. -/
  entry : ∀ id ∈ ids, ∃ block expr reference, graph.block? id = some block ∧ block.kind = kind ∧
    block.parent = parent ∧ listed? block.listIndex = some expr ∧
    (Reference.shape kind).value? expr = some reference ∧
    block.sourceId = (names.identify kind reference).1
  /-- An entry that is a reference has one block. -/
  block : ∀ index expr, listed? index = some expr → ((Reference.shape kind).value? expr).isSome →
    ∃! id, id ∈ ids ∧ ∃ block, graph.block? id = some block ∧ block.listIndex = index
  nodup : ids.Nodup

/-- Lists related element by element are so at each position. -/
theorem forall₂_getElem? {α β : Type} {r : α → β → Prop} {l : List α} {l' : List β}
    (h : List.Forall₂ r l l') (k : Nat) :
    (l[k]? = none ∧ l'[k]? = none) ∨ ∃ a b, l[k]? = some a ∧ l'[k]? = some b ∧ r a b := by
  induction h generalizing k with
  | nil => exact .inl ⟨rfl, rfl⟩
  | cons hab _ ih =>
    cases k with
    | zero => exact .inr ⟨_, _, rfl, rfl, hab⟩
    | succ k => exact ih k

theorem Builder.Lists.realizes {final : Builder} {kind : BlockKind} {parent : BlockParent}
    {references : List (Indexed Reference)} {ids : List BlockId} {listed? : Nat → Option Expr}
    {graph : Graph} (h : final.Lists 0 kind parent references ids)
    (hreferences : ReferencesIn kind listed? references) (hgraph : graph.blocks = final.blocks) :
    graph.Realizes final.names kind parent listed? ids := by
  have hblock : ∀ id, graph.block? id = final.blocks[id]? := fun id => by rw [Graph.block?, hgraph]
  have hat : ∀ {k : Nat} {id : BlockId}, ids[k]? = some id → ∃ entry,
      references[k]? = some entry ∧ final.Holds kind parent entry id := by
    intro k id hid
    rcases forall₂_getElem? h.blocks k with ⟨-, hnone⟩ | ⟨entry, id', hentry, hid', hholds⟩
    · rw [hnone] at hid
      cases hid
    · obtain rfl := Option.some.inj (hid'.symm.trans hid)
      exact ⟨entry, hentry, hholds⟩
  refine ⟨fun id hid => ?_, fun index expr hexpr hreference => ?_, h.ascending.imp Nat.ne_of_lt⟩
  · obtain ⟨k, hk⟩ := List.mem_iff_getElem?.1 hid
    obtain ⟨entry, hentry, block, hfound, hkind, hparent, hindex, hsource⟩ := hat hk
    obtain ⟨expr, hexpr, hread⟩ := hreferences.mem_iff.1 (List.mem_of_getElem? hentry)
    exact ⟨block, expr, entry.2, (hblock id).trans hfound, hkind, hparent, hindex ▸ hexpr, hread,
      hsource⟩
  · obtain ⟨reference, hreference⟩ := Option.isSome_iff_exists.1 hreference
    obtain ⟨k, hk⟩ :=
      List.mem_iff_getElem?.1 (hreferences.mem_iff.2 ⟨expr, hexpr, hreference⟩)
    rcases forall₂_getElem? h.blocks k with ⟨hnone, -⟩ | ⟨entry, id, hentry, hid, hholds⟩
    · rw [hnone] at hk
      cases hk
    obtain rfl := Option.some.inj (hentry.symm.trans hk)
    obtain ⟨block, hfound, -, -, hindex, -⟩ := hholds
    refine ⟨id, ⟨List.mem_of_getElem? hid, block, (hblock id).trans hfound, hindex⟩, ?_⟩
    -- Another block at this position would be that of the same reference.
    rintro other ⟨hother, block', hfound', hindex'⟩
    obtain ⟨k', hk'⟩ := List.mem_iff_getElem?.1 hother
    obtain ⟨entry', hentry', block'', hfound'', -, -, hindex'', -⟩ := hat hk'
    obtain rfl := Option.some.inj (((hblock other).symm.trans hfound').symm.trans hfound'')
    have hsame : (references.map (·.1))[k']? = (references.map (·.1))[k]? := by
      rw [List.getElem?_map, List.getElem?_map, hentry', hentry, Option.map_some, Option.map_some,
        ← hindex'', hindex']
    have hlt : k' < (references.map (·.1)).length := by
      rw [List.length_map]
      exact (List.getElem?_eq_some_iff.1 hentry').1
    obtain rfl := (List.getElem?_inj hlt hreferences.nodup).1 hsame
    exact Option.some.inj (hk'.symm.trans hid)

end Statechart
