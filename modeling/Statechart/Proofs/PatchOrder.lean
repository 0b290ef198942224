import Mathlib.Algebra.Group.Nat.Defs
import Mathlib.Data.List.Destutter
import Mathlib.Data.Prod.Lex
import Statechart.Proofs.SortKeys

/-!
# The order of a batch is one of its set

A batch is sorted twice, and between the two sorts of neighbours that are equal only one stays.
In a sorted list all that are equal stand together, so that none is left twice; and the second sort
is stable, so that what it leaves undecided has been decided by the first. What comes of it is the
arrangement of the set of patches by one linear order: that of phases, ranks and sort keys.

* `eraseReps_of_pairwise`: dropping equal neighbours of a sorted list leaves no repetitions;
* `pairwise_mergeSort_of_pairwise`: a stable sort keeps ties in their order;
* `precedes_iff`: the order of patches is that of the triples of phase, rank and key;
* `canonicalOrder_eq`: a batch in order is its set, sorted by it once;
* `canonicalOrder_congr`: the same patches come in the same order, however they were given.
-/

namespace Statechart.Patch

/-! ## Sorting and dropping repetitions -/

section

variable {α : Type}

/-- Of each run of equal neighbours one stays. -/
theorem eraseReps_eq_destutter [DecidableEq α] (l : List α) :
    l.eraseReps = l.destutter (· ≠ ·) := by
  have hloop : ∀ (a : α) (rest done : List α),
      List.eraseRepsBy.loop (· == ·) a rest done = done.reverse ++ rest.destutter' (· ≠ ·) a := by
    intro a rest done
    induction rest generalizing a done with
    | nil => simp [List.eraseRepsBy.loop]
    | cons b rest ih =>
      by_cases hab : a = b
      · subst hab
        rw [List.eraseRepsBy.loop, beq_self_eq_true, List.destutter'_cons_neg _ (not_not.2 rfl)]
        exact ih a done
      · rw [List.eraseRepsBy.loop, beq_false_of_ne hab, List.destutter'_cons_pos _ hab]
        simpa using ih b (a :: done)
  cases l with
  | nil => rfl
  | cons a rest => exact hloop a rest []

/-- Dropping equal neighbours of a sorted list leaves each value once. -/
theorem eraseReps_of_pairwise [DecidableEq α] {r : α → α → Prop} [Std.Antisymm r] {l : List α}
    (h : l.Pairwise r) : l.eraseReps = l.dedup := by
  rw [eraseReps_eq_destutter, h.destutter_eq_dedup]

/-- Of two values of a list, one comes before the other. -/
theorem pair_sublist_or {l : List α} {a b : α} (ha : a ∈ l) (hb : b ∈ l) (hne : a ≠ b) :
    [a, b].Sublist l ∨ [b, a].Sublist l := by
  induction l with
  | nil => cases ha
  | cons c rest ih =>
    rcases List.mem_cons.1 ha with rfl | ha'
    · have hb' := (List.mem_cons.1 hb).resolve_left hne.symm
      exact .inl ((List.singleton_sublist.2 hb').cons_cons _)
    · rcases List.mem_cons.1 hb with rfl | hb'
      · exact .inr ((List.singleton_sublist.2 ha').cons_cons _)
      · exact (ih ha' hb').imp (.cons _) (.cons _)

/-- In a list without repetitions, no value comes both before and after another. -/
theorem not_pair_sublist_both {l : List α} (h : l.Nodup) {a b : α} (hab : [a, b].Sublist l) :
    ¬[b, a].Sublist l := by
  induction l with
  | nil => cases hab
  | cons c rest ih =>
    obtain ⟨hc, hrest⟩ := List.nodup_cons.1 h
    intro hba
    cases hab with
    | cons _ hab =>
      cases hba with
      | cons _ hba => exact ih hrest hab hba
      | cons_cons _ hba => exact hc (hab.subset (List.mem_cons_of_mem _ List.mem_cons_self))
    | cons_cons _ hab =>
      have hb := List.singleton_sublist.1 hab
      cases hba with
      | cons _ hba => exact hc (hba.subset (List.mem_cons_of_mem _ List.mem_cons_self))
      | cons_cons _ hba => exact hc hb

/-- A stable sort keeps ties in their order. -/
theorem pairwise_mergeSort_of_pairwise {le : α → α → Bool} {r : α → α → Prop}
    (htrans : ∀ a b c, le a b = true → le b c = true → le a c = true)
    (htotal : ∀ a b, (le a b || le b a) = true) {l : List α} (hnodup : l.Nodup)
    (h : l.Pairwise r) :
    (l.mergeSort le).Pairwise fun a b => le a b = true ∧ (le b a = true → r a b) := by
  have hnodup' : (l.mergeSort le).Nodup := (List.mergeSort_perm l le).nodup_iff.2 hnodup
  refine List.pairwise_iff_forall_sublist.2 fun {a b} hab => ?_
  refine ⟨(List.pairwise_iff_forall_sublist.1 (List.pairwise_mergeSort htrans htotal l)) hab,
    fun hba => ?_⟩
  have hmem : ∀ {c}, c ∈ [a, b] → c ∈ l := fun hc => List.mem_mergeSort.1 (hab.subset hc)
  have hne : a ≠ b := by
    rintro rfl
    exact List.nodup_iff_sublist.1 hnodup' a hab
  rcases pair_sublist_or (hmem List.mem_cons_self)
    (hmem (List.mem_cons_of_mem _ List.mem_cons_self)) hne with hsub | hsub
  · exact List.pairwise_iff_forall_sublist.1 h hsub
  -- Had they stood the other way round, they would still do so.
  · exact absurd (List.pair_sublist_mergeSort htrans htotal hba hsub)
      (not_pair_sublist_both hnodup' hab)

/-- Each value is kept once. -/
theorem nodup_eraseDups [DecidableEq α] : ∀ l : List α, l.eraseDups.Nodup
  | [] => List.nodup_nil
  | a :: l => by
    have : (l.filter fun b => !b == a).length < l.length + 1 :=
      Nat.lt_succ_of_le (List.length_filter_le _ l)
    rw [List.eraseDups_cons]
    refine List.nodup_cons.2 ⟨fun h => ?_, nodup_eraseDups _⟩
    simpa using (List.mem_filter.1 (List.mem_eraseDups.1 h)).2
termination_by l => l.length

end

/-! ## The order of patches -/

theorem wrap64_eq {n : Nat} (h : n < 2 ^ 63) : wrap64 n = n :=
  Int.bmod_eq_of_le (by omega) (by omega)

theorem wrap64_neg {n : Nat} (h : n < 2 ^ 63) : wrap64 (-(n : Int)) = -(n : Int) :=
  Int.bmod_eq_of_le (by omega) (by omega)

/-- Whether a patch is made before another, or is the other: its phase comes first, or its rank in
    the phase, or its key in the lexicographic order. -/
def precedes (depth : NodeId → Nat) (a b : Patch) : Bool :=
  if a.phase ≠ b.phase then a.phase < b.phase
  else if a.rank depth ≠ b.rank depth then a.rank depth < b.rank depth
  else !List.lex b.sortKey a.sortKey (fun m n => decide (m < n))

/-- What patches are ordered by. -/
def precedence (depth : NodeId → Nat) (patch : Patch) : ℕ ×ₗ ℤ ×ₗ List ℕ :=
  toLex (patch.phase, toLex (patch.rank depth, patch.sortKey))

theorem precedence_injective (depth : NodeId → Nat) : Function.Injective (precedence depth) :=
  fun _ _ h => sortKey_injective (congrArg (fun k => (ofLex (ofLex k).2).2) h)

variable {depth : NodeId → Nat} {patches : List Patch} {a b : Patch}

/-- The order of patches is that of their phases, ranks and keys. -/
theorem precedes_iff : precedes depth a b = true ↔ precedence depth a ≤ precedence depth b := by
  have hkey : (!List.lex b.sortKey a.sortKey fun m n => decide (m < n)) = true ↔
      a.sortKey ≤ b.sortKey := by
    rw [Bool.not_eq_true', List.lex_eq_false_iff_not_lex, ← not_lt]
    simp only [decide_eq_true_eq]
    rfl
  rw [precedence, precedence, Prod.Lex.toLex_le_toLex, Prod.Lex.toLex_le_toLex, precedes]
  split
  · next h => simp [h]
  · next h =>
    split
    · next h' => simp_all
    · next h' => simp_all

/-- Patches in the order of a batch come in the order of their phases. -/
theorem phase_le_of_precedes (h : precedes depth a b = true) : a.phase ≤ b.phase := by
  rw [precedes] at h
  split at h
  · exact (of_decide_eq_true h).le
  · next heq => exact (not_not.1 heq).le

theorem precedes_trans {c : Patch} (hab : precedes depth a b = true)
    (hbc : precedes depth b c = true) : precedes depth a c = true := by
  rw [precedes_iff] at hab hbc ⊢
  exact le_trans hab hbc

theorem precedes_total (a b : Patch) : (precedes depth a b || precedes depth b a) = true := by
  rw [Bool.or_eq_true, precedes_iff, precedes_iff]
  exact le_total _ _

/-- Two patches that come before each other are one patch: their keys are equal. -/
theorem eq_of_precedes (hab : precedes depth a b = true) (hba : precedes depth b a = true) :
    a = b :=
  precedence_injective depth (le_antisymm (precedes_iff.1 hab) (precedes_iff.1 hba))

/-! ## The two sorts -/

theorem sooner_iff : sooner depth a b = true ↔
    toLex (a.phase, a.rank depth) ≤ toLex (b.phase, b.rank depth) := by
  simp [sooner, Prod.Lex.toLex_le_toLex]

/-- What neither sort decides the other way is decided by both together. -/
theorem precedes_of_sooner (h : sooner depth a b = true)
    (htie : sooner depth b a = true → ordered a b = true) : precedes depth a b = true := by
  rw [precedes_iff, precedence, precedence, Prod.Lex.toLex_le_toLex, Prod.Lex.toLex_le_toLex]
  rw [sooner_iff, Prod.Lex.toLex_le_toLex] at h htie
  dsimp only at h htie ⊢
  rcases h with hphase | ⟨hphase, hrank⟩
  · exact .inl hphase
  · refine .inr ⟨hphase, ?_⟩
    rcases lt_or_eq_of_le hrank with hlt | heq
    · exact .inl hlt
    · exact .inr ⟨heq, ordered_iff.1 (htie (.inr ⟨hphase.symm, heq.ge⟩))⟩

/-- The patches of a batch in the order of their kinds and parts, each once. -/
theorem eraseReps_mergeSort (patches : List Patch) :
    (patches.mergeSort ordered).eraseReps = (patches.mergeSort ordered).dedup ∧
      (patches.mergeSort ordered).dedup.Pairwise (ordered · · = true) := by
  have hsorted : (patches.mergeSort ordered).Pairwise (ordered · · = true) := by
    refine List.pairwise_mergeSort (fun a b c hab hbc => ?_) (fun a b => ?_) patches
    · rw [ordered_iff] at hab hbc ⊢
      exact le_trans hab hbc
    · rw [Bool.or_eq_true, ordered_iff, ordered_iff]
      exact le_total _ _
  have hantisymm : Std.Antisymm fun a b : Patch => ordered a b = true :=
    ⟨fun a b hab hba => sortKey_injective (le_antisymm (ordered_iff.1 hab) (ordered_iff.1 hba))⟩
  exact ⟨eraseReps_of_pairwise hsorted, hsorted.sublist (List.dedup_sublist _)⟩

/-! ## Batches as sets -/

theorem mem_canonicalOrder {patch : Patch} :
    patch ∈ canonicalOrder depth patches ↔ patch ∈ patches := by
  rw [canonicalOrder, (eraseReps_mergeSort patches).1, List.mem_mergeSort, List.mem_dedup,
    List.mem_mergeSort]

theorem nodup_canonicalOrder (depth : NodeId → Nat) (patches : List Patch) :
    (canonicalOrder depth patches).Nodup := by
  rw [canonicalOrder, (eraseReps_mergeSort patches).1]
  exact (List.mergeSort_perm _ _).nodup_iff.2 (List.nodup_dedup _)

theorem pairwise_canonicalOrder (depth : NodeId → Nat) (patches : List Patch) :
    (canonicalOrder depth patches).Pairwise (precedes depth · · = true) := by
  obtain ⟨heq, hordered⟩ := eraseReps_mergeSort patches
  rw [canonicalOrder, heq]
  refine (pairwise_mergeSort_of_pairwise (fun a b c hab hbc => ?_) (fun a b => ?_)
    (List.nodup_dedup _) hordered).imp fun h => precedes_of_sooner h.1 h.2
  · rw [sooner_iff] at hab hbc ⊢
    exact le_trans hab hbc
  · rw [Bool.or_eq_true, sooner_iff, sooner_iff]
    exact le_total _ _

/-- Patches in order, each once, are all that they and no others can be arranged to. -/
theorem canonicalOrder_eq_of_pairwise {order : List Patch} (hnodup : order.Nodup)
    (h : order.Pairwise (precedes depth · · = true))
    (hmem : ∀ patch, patch ∈ order ↔ patch ∈ patches) : canonicalOrder depth patches = order := by
  refine List.Perm.eq_of_pairwise (fun a b _ _ => eq_of_precedes)
    (pairwise_canonicalOrder depth patches) h ?_
  refine (List.perm_ext_iff_of_nodup (nodup_canonicalOrder depth patches) hnodup).2 fun patch => ?_
  rw [mem_canonicalOrder, hmem]

/-- The two sorts, with equal neighbours dropped between them, are one by phase, rank and key of the
    patches that differ. -/
theorem canonicalOrder_eq (depth : NodeId → Nat) (patches : List Patch) :
    canonicalOrder depth patches = patches.eraseDups.mergeSort (precedes depth) := by
  refine canonicalOrder_eq_of_pairwise ?_ ?_ fun patch => ?_
  · exact (List.mergeSort_perm _ _).nodup_iff.2 (nodup_eraseDups patches)
  · refine List.pairwise_mergeSort (fun a b c hab hbc => ?_) (fun a b => ?_) _
    · exact precedes_trans hab hbc
    · exact precedes_total a b
  · rw [List.mem_mergeSort, List.mem_eraseDups]

/-- The same patches come in the same order, however they are given. -/
theorem canonicalOrder_congr {p q : List Patch} (h : ∀ patch, patch ∈ p ↔ patch ∈ q) :
    canonicalOrder depth p = canonicalOrder depth q :=
  canonicalOrder_eq_of_pairwise (nodup_canonicalOrder depth q) (pairwise_canonicalOrder depth q)
    fun patch => by rw [mem_canonicalOrder, h]

end Statechart.Patch
