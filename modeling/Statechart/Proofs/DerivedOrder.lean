import Statechart.Proofs.PatchOrder

/-!
# The order of patches

Patches have an order of their own, which knows nothing of phases: that of their kinds, and for
patches of one kind that of their parts, from left to right. A batch in order is sorted by phases,
then by depths, and what is left undecided is decided by the order of patches.

* `InOrder`: how a patch stands to the patches after it;
* `canonicalOrder_canonical`: the order of a batch is one of its set, without repetitions.

Depths are ranked as integers of 64 bits with a sign, so that a depth beyond them comes first
(`canonicalOrder_wraps`).
-/

namespace Statechart.Patch

/-- How deep the node that a patch adds or removes lies; other patches have no depth. -/
def level (depth : NodeId → Nat) : Patch → Nat
  | addNode node _ _ | removeNode node => depth node
  | _ => 0

/-- How a patch of a batch stands to one that comes after it. -/
structure InOrder (depth : NodeId → Nat) (a b : Patch) : Prop where
  phase_le : a.phase ≤ b.phase
  /-- Nodes are added from the root down. -/
  down : ∀ {m n p q k l}, a = .addNode m p k → b = .addNode n q l →
    depth m < 2 ^ 63 → depth n < 2 ^ 63 → depth m ≤ depth n
  /-- Nodes are removed from the leaves up. -/
  up : ∀ {m n}, a = .removeNode m → b = .removeNode n →
    depth m < 2 ^ 63 → depth n < 2 ^ 63 → depth n ≤ depth m
  /-- What phases and depths leave undecided is decided by the order of patches. -/
  tie : a.phase = b.phase → a.level depth = b.level depth → compare a b = .lt

variable {depth : NodeId → Nat} {a b : Patch}

/-- The rank of a patch is its depth, with the sign of its phase. -/
theorem rank_eq (depth : NodeId → Nat) (a : Patch) : a.rank depth =
    if a.phase = 0 then wrap64 (a.level depth)
    else if a.phase = 16 then wrap64 (-(a.level depth : Int)) else 0 := by
  cases a <;> simp [rank, phase, level]

/-- Of two patches, the one that is made first stands before the other in the order of phases, ranks
    and patches. -/
theorem lt_of_precedes (h : precedes depth a b = true) (hne : a ≠ b) :
    a.phase < b.phase ∨ a.phase = b.phase ∧
      (a.rank depth < b.rank depth ∨ a.rank depth = b.rank depth ∧ compare a b = .lt) := by
  have hlt : precedence depth a < precedence depth b :=
    lt_of_le_of_ne (precedes_iff.1 h) fun heq => hne (precedence_injective depth heq)
  rwa [precedence, precedence, Prod.Lex.toLex_lt_toLex, Prod.Lex.toLex_lt_toLex,
    ← compare_eq_lt_iff, compare_sortKey] at hlt

theorem inOrder_of_precedes (h : precedes depth a b = true) (hne : a ≠ b) : InOrder depth a b where
  phase_le := phase_le_of_precedes h
  down {m n p q k l} ha hb hm hn := by
    subst ha hb
    rcases lt_of_precedes h hne with hphase | ⟨-, hrank⟩
    · exact absurd hphase (lt_irrefl _)
    · simp only [rank, wrap64_eq hm, wrap64_eq hn] at hrank
      omega
  up {m n} ha hb hm hn := by
    subst ha hb
    rcases lt_of_precedes h hne with hphase | ⟨-, hrank⟩
    · exact absurd hphase (lt_irrefl _)
    · simp only [rank, wrap64_neg hm, wrap64_neg hn] at hrank
      omega
  tie hphase hlevel := by
    have hrank : a.rank depth = b.rank depth := by rw [rank_eq, rank_eq, hphase, hlevel]
    rcases lt_of_precedes h hne with hlt | ⟨-, hlt | ⟨-, hlt⟩⟩
    · exact absurd hlt hphase.not_lt
    · exact absurd hlt hrank.not_lt
    · exact hlt

/-- The order of a batch is one of its set: the same patches come in the same order, however they
    are given. Each comes once, they come by phases and depths, and otherwise in their own order. -/
theorem canonicalOrder_canonical (depth : NodeId → Nat) {p q : List Patch}
    (h : ∀ patch, patch ∈ p ↔ patch ∈ q) :
    canonicalOrder depth p = canonicalOrder depth q ∧
      (canonicalOrder depth p).Nodup ∧
      (∀ patch, patch ∈ canonicalOrder depth p ↔ patch ∈ p) ∧
      (canonicalOrder depth p).Pairwise (InOrder depth) := by
  refine ⟨canonicalOrder_congr h, nodup_canonicalOrder depth p, fun _ => mem_canonicalOrder, ?_⟩
  have hpairs := (pairwise_canonicalOrder depth p).and (nodup_canonicalOrder depth p)
  exact hpairs.imp fun hab => inOrder_of_precedes hab.1 hab.2

/-- A batch in order, and the same patches in disorder, one of them twice. -/
theorem canonicalOrder_canonical_repeated : ∃ (depth : NodeId → Nat) (p q : List Patch),
    p = [.addNode 9 0 "c", .replaceNodeKey 1 "z", .removeNode 3, .removeNode 2] ∧
      (∀ patch, patch ∈ p ↔ patch ∈ q) ∧ canonicalOrder depth p = p ∧
      canonicalOrder depth p = canonicalOrder depth q ∧ (canonicalOrder depth p).Nodup ∧
      (∀ patch, patch ∈ canonicalOrder depth p ↔ patch ∈ p) ∧
      (canonicalOrder depth p).Pairwise (InOrder depth) := by
  have hsame : ∀ patch,
      patch ∈ [addNode 9 0 "c", replaceNodeKey 1 "z", removeNode 3, removeNode 2] ↔
      patch ∈ [removeNode 3, replaceNodeKey 1 "z", removeNode 2, addNode 9 0 "c",
        removeNode 2] := by
    intro patch
    simp only [List.mem_cons, List.not_mem_nil, or_false]
    tauto
  exact ⟨fun node => if node = 3 then 2 else 1, _, _, rfl, hsame,
    canonicalOrder_eq_of_pairwise (by decide +kernel) (by decide +kernel) fun _ => Iff.rfl,
    canonicalOrder_canonical _ hsame⟩

/-- A depth that 64 bits with a sign do not hold is ranked as a negative number, so that the deeper
    node is added first. -/
theorem canonicalOrder_wraps : ∃ (depth : NodeId → Nat) (patches : List Patch),
    ¬(canonicalOrder depth patches).Pairwise fun a b => ∀ m n p q k l,
      a = .addNode m p k → b = .addNode n q l → depth m ≤ depth n := by
  refine ⟨fun node => if node = 2 then 2 ^ 63 else 0, [addNode 2 0 "a", addNode 1 0 "a"], ?_⟩
  have horder : canonicalOrder (fun node => if node = 2 then 2 ^ 63 else 0)
      [addNode 2 0 "a", addNode 1 0 "a"] = [addNode 2 0 "a", addNode 1 0 "a"] :=
    canonicalOrder_eq_of_pairwise (by decide +kernel) (by decide +kernel) fun _ => Iff.rfl
  rw [horder]
  intro hpairs
  have hle := List.rel_of_pairwise_cons hpairs (List.mem_singleton_self _) 2 1 0 0 "a" "a" rfl rfl
  exact absurd hle (by decide)

end Statechart.Patch
