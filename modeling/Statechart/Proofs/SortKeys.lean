import Mathlib.Data.List.Lex
import Statechart.Patch.Order

/-!
# Sort keys of patches

A patch can be written as a list of numbers, so that patches compare as these lists do. Each of its
parts is written in a *self-delimiting* way: where the key of a part ends can be seen from the key
itself, so that keys tell patches apart and what stands behind a part decides only between equal
ones. So the order of patches is linear.

* `sortKey`: the key of a patch;
* `SelfDelimiting`: keys of which none continues another;
* `sortKey_injective`: different patches have different keys;
* `KeepsOrder`: keys that compare, up to what stands behind them, as their values do;
* `compare_sortKey`: sort keys compare as patches do;
* `ordered_iff`: a patch comes before another if its key does.
-/

namespace Statechart.Patch

/-! ## Sort keys

A patch is written as a list of numbers, so that the order of patches is that of the
lists, from left to right. A text and a list end with a zero, which is less than all
that can stand in its place. -/

/-- The key of a text: its code points. -/
def textKey (text : String) : List Nat :=
  text.toList.map (·.toNat + 1) ++ [0]

/-- The key of a list of handles. -/
def handlesKey (ids : List Nat) : List Nat :=
  ids.map (· + 1) ++ [0]

/-- The key of a value that may be missing; a missing one comes first. -/
def optionKey (key : α → List Nat) : Option α → List Nat
  | some value => 1 :: key value
  | none => [0]

/-- The key of a truth value. -/
def boolKey (value : Bool) : List Nat :=
  [value.toNat]

/-- The key of a type of states. -/
def stateTypeKey : StateType → List Nat
  | .normal => [0]
  | .parallel => [1]
  | .final => [2]
  | .history => [3]

/-- The key of a kind of history. -/
def historyKey : HistoryKind → List Nat
  | .shallow => [0]
  | .deep => [1]

/-- The key of a slot. -/
def slotKey : Slot → List Nat
  | .on event => 0 :: textKey event
  | .always => [1]
  | .after delay => 2 :: textKey delay
  | .onDone => [3]
  | .invokeDone invoke => [4, invoke]
  | .invokeError invoke => [5, invoke]

/-- The key of what a block belongs to. -/
def ownerKey : BlockOwner → List Nat
  | .entry node => [0, node]
  | .exit node => [1, node]
  | .invoke node => [2, node]
  | .actions edge => [3, edge]
  | .guard edge => [4, edge]

/-- The key of what is described. -/
def describedKey : DescriptionOwner → List Nat
  | .node id => [0, id]
  | .edge id => [1, id]

/-- The key of a patch: its kind and its parts. -/
def sortKey : Patch → List Nat
  | addNode node parent key => [0, node, parent] ++ textKey key
  | removeNode node => [1, node]
  | replaceNodeKey node key => [2, node] ++ textKey key
  | replaceNodeParent node parent => [3, node, parent]
  | replaceNodeInitial node initial => [4, node] ++ optionKey textKey initial
  | replaceNodeType node type history =>
    [5, node] ++ stateTypeKey type ++ optionKey historyKey history
  | replaceNodeId node id => [6, node] ++ optionKey textKey id
  | replaceDescription owner description =>
    7 :: describedKey owner ++ optionKey textKey description
  | addEdge edge source targets slot internal =>
    [8, edge, source] ++ handlesKey targets ++ slotKey slot ++ optionKey boolKey internal
  | removeEdge edge => [9, edge]
  | replaceEdgeSource edge source => [10, edge, source]
  | replaceEdgeTargets edge targets => [11, edge] ++ handlesKey targets
  | replaceEdgeSlot edge slot => [12, edge] ++ slotKey slot
  | replaceEdgeInternal edge internal => [13, edge] ++ optionKey boolKey internal
  | addBlock block owner index sourceId =>
    [14, block] ++ ownerKey owner ++ optionKey (fun n => [n]) index ++ textKey sourceId
  | removeBlock block => [15, block]
  | replaceBlockSource block sourceId => [16, block] ++ textKey sourceId

/-! ## Keys of parts -/

/-- A key can be told from what stands behind it. -/
def SelfDelimiting (key : α → List Nat) : Prop :=
  ∀ a b r s, key a ++ r = key b ++ s → a = b ∧ r = s

/-- Numbers that are ended by a zero can be told from what stands behind them. -/
theorem append_zero_inj {as bs r s : List Nat} (ha : 0 ∉ as) (hb : 0 ∉ bs)
    (h : as ++ 0 :: r = bs ++ 0 :: s) : as = bs ∧ r = s := by
  induction as generalizing bs with
  | nil =>
    cases bs with
    | nil => exact ⟨rfl, by simpa using h⟩
    | cons b bs => exact absurd (List.cons.inj h).1 fun h₀ => hb (h₀ ▸ List.mem_cons_self)
  | cons a as ih =>
    cases bs with
    | nil => exact absurd (List.cons.inj h).1 fun h₀ => ha (h₀ ▸ List.mem_cons_self)
    | cons b bs =>
      obtain ⟨rfl, hrest⟩ := List.cons.inj h
      obtain ⟨rfl, rfl⟩ := ih (fun h₀ => ha (List.mem_cons_of_mem _ h₀))
        (fun h₀ => hb (List.mem_cons_of_mem _ h₀)) hrest
      exact ⟨rfl, rfl⟩

theorem selfDelimiting_handlesKey : SelfDelimiting handlesKey := by
  intro a b r s h
  simp only [handlesKey, List.append_assoc, List.singleton_append] at h
  obtain ⟨hids, rfl⟩ := append_zero_inj (by simp) (by simp) h
  exact ⟨List.map_injective_iff.2 (fun m n hmn => Nat.succ.inj hmn) hids, rfl⟩

theorem selfDelimiting_textKey : SelfDelimiting textKey := by
  intro a b r s h
  simp only [textKey, List.append_assoc, List.singleton_append] at h
  obtain ⟨hchars, rfl⟩ := append_zero_inj (by simp) (by simp) h
  refine ⟨String.toList_injective (List.map_injective_iff.2 (fun c d hcd => ?_) hchars), rfl⟩
  exact Char.ext (UInt32.toNat_inj.1 (Nat.succ.inj hcd))

theorem selfDelimiting_boolKey : SelfDelimiting boolKey := by
  intro a b r s h
  cases a <;> cases b <;> simp_all [boolKey]

theorem selfDelimiting_singleton : SelfDelimiting fun n : Nat => [n] :=
  fun _ _ _ _ h => List.cons.inj h

theorem selfDelimiting_stateTypeKey : SelfDelimiting stateTypeKey := by
  intro a b r s h
  cases a <;> cases b <;> simp_all [stateTypeKey]

theorem selfDelimiting_historyKey : SelfDelimiting historyKey := by
  intro a b r s h
  cases a <;> cases b <;> simp_all [historyKey]

theorem selfDelimiting_ownerKey : SelfDelimiting ownerKey := by
  intro a b r s h
  cases a <;> cases b <;> simp_all [ownerKey]

theorem selfDelimiting_describedKey : SelfDelimiting describedKey := by
  intro a b r s h
  cases a <;> cases b <;> simp_all [describedKey]

theorem SelfDelimiting.optionKey {key : α → List Nat} (hkey : SelfDelimiting key) :
    SelfDelimiting (optionKey key) := by
  intro a b r s h
  cases a <;> cases b <;> simp only [Patch.optionKey, List.cons_append, List.cons.injEq] at h
  · exact ⟨rfl, h.2⟩
  · exact absurd h.1 (by decide)
  · exact absurd h.1 (by decide)
  · obtain ⟨rfl, rfl⟩ := hkey _ _ _ _ h.2
    exact ⟨rfl, rfl⟩

theorem selfDelimiting_slotKey : SelfDelimiting slotKey := by
  intro a b r s h
  cases a <;> cases b <;> simp only [slotKey, List.cons_append, List.cons.injEq] at h
  case on.on | after.after =>
    obtain ⟨rfl, rfl⟩ := selfDelimiting_textKey _ _ _ _ h.2
    exact ⟨rfl, rfl⟩
  all_goals simp_all

/-- A self-delimiting key tells values apart. -/
theorem SelfDelimiting.inj {key : α → List Nat} (hkey : SelfDelimiting key) {a b : α}
    (h : key a = key b) : a = b :=
  (hkey a b [] [] (by rw [h])).1

/-- Different patches have different keys. -/
theorem sortKey_injective : Function.Injective sortKey := by
  intro a b h
  cases a <;> cases b
  -- Patches of two kinds differ in the first number of their keys.
  all_goals first
    | exact absurd (List.cons.inj h).1 (by decide)
    | simp only [sortKey, List.cons_append, List.nil_append, List.cons.injEq, true_and,
        List.append_assoc] at h
  case addNode.addNode =>
    obtain ⟨rfl, rfl, h⟩ := h
    rw [selfDelimiting_textKey.inj h]
  case replaceNodeKey.replaceNodeKey | replaceBlockSource.replaceBlockSource =>
    obtain ⟨rfl, h⟩ := h
    rw [selfDelimiting_textKey.inj h]
  case replaceNodeInitial.replaceNodeInitial | replaceNodeId.replaceNodeId =>
    obtain ⟨rfl, h⟩ := h
    rw [selfDelimiting_textKey.optionKey.inj h]
  case replaceNodeType.replaceNodeType =>
    obtain ⟨rfl, h⟩ := h
    obtain ⟨rfl, hhistory⟩ := selfDelimiting_stateTypeKey _ _ _ _ h
    rw [selfDelimiting_historyKey.optionKey.inj hhistory]
  case replaceDescription.replaceDescription =>
    obtain ⟨rfl, htext⟩ := selfDelimiting_describedKey _ _ _ _ h
    rw [selfDelimiting_textKey.optionKey.inj htext]
  case addEdge.addEdge =>
    obtain ⟨rfl, rfl, h⟩ := h
    obtain ⟨rfl, hslot⟩ := selfDelimiting_handlesKey _ _ _ _ h
    obtain ⟨rfl, hflag⟩ := selfDelimiting_slotKey _ _ _ _ hslot
    rw [selfDelimiting_boolKey.optionKey.inj hflag]
  case replaceEdgeTargets.replaceEdgeTargets =>
    obtain ⟨rfl, h⟩ := h
    rw [selfDelimiting_handlesKey.inj h]
  case replaceEdgeSlot.replaceEdgeSlot =>
    obtain ⟨rfl, h⟩ := h
    rw [selfDelimiting_slotKey.inj h]
  case replaceEdgeInternal.replaceEdgeInternal =>
    obtain ⟨rfl, h⟩ := h
    rw [selfDelimiting_boolKey.optionKey.inj h]
  case addBlock.addBlock =>
    obtain ⟨rfl, h⟩ := h
    obtain ⟨rfl, hindex⟩ := selfDelimiting_ownerKey _ _ _ _ h
    obtain ⟨rfl, hsource⟩ := selfDelimiting_singleton.optionKey _ _ _ _ hindex
    rw [selfDelimiting_textKey.inj hsource]
  -- The keys of the other kinds list their parts as they are.
  all_goals simp_all

/-! ## Keys that keep the order -/

/-- Keys compare as their values do, and what stands behind them decides between equal ones. -/
def KeepsOrder [Ord α] (key : α → List Nat) : Prop :=
  ∀ a b r s, compare (key a ++ r) (key b ++ s) = (compare a b).then (compare r s)

theorem compare_cons [Ord α] (a b : α) (as bs : List α) :
    compare (a :: as) (b :: bs) = (compare a b).then (compare as bs) :=
  List.compareLex_cons_cons

theorem compare_succ (m n : Nat) : compare (m + 1) (n + 1) = compare m n := by
  rw [Nat.compare_eq_ite_lt, Nat.compare_eq_ite_lt]
  simp only [Nat.add_lt_add_iff_right]

theorem keepsOrder_handlesKey : KeepsOrder handlesKey := by
  intro a b r s
  induction a generalizing b with
  | nil =>
    cases b with
    | nil => rfl
    | cons b bs => rfl
  | cons a as ih =>
    cases b with
    | nil => rfl
    | cons b bs =>
      have htail := ih bs
      simp only [handlesKey, List.map_cons, List.cons_append, compare_cons, compare_succ] at htail ⊢
      rw [htail, Ordering.then_assoc]

/-- Texts are compared from left to right, and so are their keys. -/
theorem compare_codePoints (a b : List Char) (r s : List Nat) :
    compare (a.map (·.toNat + 1) ++ 0 :: r) (b.map (·.toNat + 1) ++ 0 :: s) =
      (if a < b then Ordering.lt else if a = b then .eq else .gt).then (compare r s) := by
  induction a generalizing b with
  | nil =>
    cases b with
    | nil => rfl
    | cons d b => rfl
  | cons c a ih =>
    cases b with
    | nil => rfl
    | cons d b =>
      simp only [List.map_cons, List.cons_append, compare_cons, compare_succ]
      rcases Nat.lt_trichotomy c.toNat d.toNat with hlt | heq | hgt
      · rw [Nat.compare_eq_lt.2 hlt, if_pos (List.cons_lt_cons_iff.2 (.inl (Char.lt_def.2 hlt)))]
        rfl
      · obtain rfl := Char.toNat_inj.1 heq
        rw [Nat.compare_eq_eq.2 rfl, Ordering.eq_then, ih b]
        simp only [List.cons_lt_cons_self, List.cons.injEq, true_and]
      · have hne : c ≠ d := fun heq => hgt.ne (congrArg Char.toNat heq.symm)
        have hnot : ¬c :: a < d :: b := by
          rw [List.cons_lt_cons_iff, not_or]
          exact ⟨hgt.not_gt, fun h => hne h.1⟩
        rw [Nat.compare_eq_gt.2 hgt, if_neg hnot, if_neg fun h => hne (List.cons.inj h).1]
        rfl

theorem keepsOrder_textKey : KeepsOrder textKey := by
  intro a b r s
  have horder : compare a b =
      if a.toList < b.toList then .lt else if a.toList = b.toList then .eq else .gt := by
    simp only [String.toList_inj, ← String.lt_iff]
    rfl
  simp only [textKey, List.append_assoc, List.singleton_append]
  rw [compare_codePoints, horder]

theorem keepsOrder_singleton : KeepsOrder fun n : Nat => [n] :=
  fun a b r s => compare_cons a b r s

theorem keepsOrder_boolKey : KeepsOrder boolKey := by
  intro a b r s
  cases a <;> cases b <;> rfl

theorem keepsOrder_stateTypeKey : KeepsOrder stateTypeKey := by
  intro a b r s
  cases a <;> cases b <;> rfl

theorem keepsOrder_historyKey : KeepsOrder historyKey := by
  intro a b r s
  cases a <;> cases b <;> rfl

theorem keepsOrder_ownerKey : KeepsOrder ownerKey := by
  intro a b r s
  cases a <;> cases b
  case entry.entry | exit.exit | invoke.invoke | actions.actions | guard.guard =>
    simp only [ownerKey, List.cons_append, List.nil_append, compare_cons, Std.ReflCmp.compare_self,
      Ordering.eq_then]
    exact (congrArg (Ordering.then · (compare r s)) Ordering.then_eq).symm
  all_goals rfl

theorem keepsOrder_describedKey : KeepsOrder describedKey := by
  intro a b r s
  cases a <;> cases b
  case node.node | edge.edge =>
    simp only [describedKey, List.cons_append, List.nil_append, compare_cons,
      Std.ReflCmp.compare_self, Ordering.eq_then]
    exact (congrArg (Ordering.then · (compare r s)) Ordering.then_eq).symm
  all_goals rfl

theorem KeepsOrder.optionKey [Ord α] {key : α → List Nat} (hkey : KeepsOrder key) :
    KeepsOrder (optionKey key) := by
  intro a b r s
  cases a <;> cases b
  case some.some a b =>
    exact (compare_cons 1 1 _ _).trans (hkey a b r s)
  all_goals rfl

theorem keepsOrder_slotKey : KeepsOrder slotKey := by
  intro a b r s
  cases a <;> cases b
  case on.on | after.after =>
    simp only [slotKey, List.cons_append, compare_cons, Std.ReflCmp.compare_self, Ordering.eq_then,
      keepsOrder_textKey _ _ r s]
    exact (congrArg (Ordering.then · (compare r s)) Ordering.then_eq).symm
  case invokeDone.invokeDone | invokeError.invokeError =>
    simp only [slotKey, List.cons_append, List.nil_append, compare_cons, Std.ReflCmp.compare_self,
      Ordering.eq_then]
    exact (congrArg (Ordering.then · (compare r s)) Ordering.then_eq).symm
  all_goals rfl

/-- A key with nothing behind it. -/
theorem KeepsOrder.compare_last [Ord α] {key : α → List Nat} (hkey : KeepsOrder key) (a b : α) :
    compare (key a) (key b) = (compare a b).then .eq := by
  have h := hkey a b [] []
  rwa [List.append_nil, List.append_nil] at h

/-- Sort keys compare as the patches that they stand for. -/
theorem compare_sortKey (a b : Patch) : compare a.sortKey b.sortKey = compare a b := by
  cases a <;> cases b
  -- Patches of two kinds are told apart by the first number of their keys.
  all_goals try rfl
  all_goals
    simp only [sortKey, List.cons_append, List.nil_append, List.append_assoc, compare_cons,
      Std.ReflCmp.compare_self, Ordering.eq_then, keepsOrder_textKey.compare_last,
      keepsOrder_textKey.optionKey.compare_last, keepsOrder_historyKey.optionKey.compare_last,
      keepsOrder_boolKey.optionKey.compare_last, keepsOrder_handlesKey.compare_last,
      keepsOrder_slotKey.compare_last, keepsOrder_handlesKey _ _ _ _, keepsOrder_slotKey _ _ _ _,
      keepsOrder_stateTypeKey _ _ _ _, keepsOrder_describedKey _ _ _ _, keepsOrder_ownerKey _ _ _ _,
      keepsOrder_singleton.optionKey _ _ _ _]
    rfl

/-- Keys compare by the order of lists. -/
theorem compare_eq_lt_iff (as bs : List Nat) : compare as bs = .lt ↔ as < bs := by
  induction as generalizing bs with
  | nil =>
    cases bs with
    | nil => exact iff_of_false nofun (List.lt_irrefl [])
    | cons b bs => exact iff_of_true rfl (List.nil_lt_cons b bs)
  | cons a as ih =>
    cases bs with
    | nil => exact iff_of_false nofun (List.not_lt_nil _)
    | cons b bs =>
      rw [compare_cons, Ordering.then_eq_lt, Nat.compare_eq_lt, Nat.compare_eq_eq, ih,
        List.cons_lt_cons_iff]

/-- A patch comes before another if its key does. -/
theorem ordered_iff {a b : Patch} : ordered a b = true ↔ a.sortKey ≤ b.sortKey := by
  rw [ordered, ← compare_sortKey, Ordering.isLE_iff_ne_gt, ← not_lt, ← compare_eq_lt_iff,
    Std.OrientedCmp.gt_iff_lt.symm]

end Statechart.Patch
