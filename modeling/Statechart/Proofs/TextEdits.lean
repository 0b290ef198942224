import Mathlib.Order.Lattice
import Statechart.Splice.TextEdit
import Statechart.Tree.Basic

/-!
# What edits touch

Where the edits of a text lie does not change when they are put in order and merged: the
merged edits cover the given ones and touch nothing else.

* `Touches`: an edit changes, or inserts into, what stands inside a span;
* `Within`: an edit lies inside a span;
* `exists_covering_of_normalize`: each edit is covered by one of the merged ones;
* `exists_touching_of_normalize`: what a merged edit touches, one of the given ones does.
-/

namespace Statechart.TextEdit

/-- The edit changes, or inserts into, what stands inside the span. -/
def Touches (edit : TextEdit) (span : Span) : Prop :=
  edit.start < span.stop ∧ span.start < edit.stop

/-- The edit lies inside the span. -/
def Within (edit : TextEdit) (span : Span) : Prop :=
  span.start ≤ edit.start ∧ edit.stop ≤ span.stop

instance (edit : TextEdit) (span : Span) : Decidable (edit.Touches span) :=
  inferInstanceAs (Decidable (_ ∧ _))

instance (edit : TextEdit) (span : Span) : Decidable (edit.Within span) :=
  inferInstanceAs (Decidable (_ ∧ _))

/-! ## Distances -/

theorem distance_of_le {offset position : Nat} (h : offset ≤ position) :
    distance offset position = position - offset :=
  if_pos h

theorem distance_of_lt {offset position : Nat} (h : position < offset) :
    distance offset position = position + 18446744073709551616 - offset :=
  if_neg (Nat.not_le_of_lt h)

/-! ## Joining two edits -/

/-- Two edits are joined when they are the same, or when the second starts before the first
    ends or right there; the joined edit reaches over both. -/
theorem join_eq_merged {last edit joined : TextEdit} (h : join last edit = .merged joined) :
    (joined = last ∧ edit = last) ∨
      (joined.start = last.start ∧ joined.stop = max last.stop edit.stop ∧
        edit.start ≤ last.stop) := by
  have hother : (if edit = last then Joined.merged last
      else if edit.start < last.stop then Joined.conflicting
      else Joined.apart) = .merged joined → joined = last ∧ edit = last := by
    intro h
    split at h
    · next heq => exact ⟨(Joined.merged.inj h).symm, heq⟩
    · split at h <;> cases h
  cases last <;> cases edit <;> simp only [join] at h
  case delete.delete =>
    split at h
    · next hle => exact .inr (by cases h; exact ⟨rfl, rfl, hle⟩)
    · exact .inl (hother h)
  case insert.insert =>
    split at h
    · next heq => exact .inr (by cases h; subst heq; exact ⟨rfl, (max_self _).symm, le_rfl⟩)
    · exact .inl (hother h)
  all_goals exact .inl (hother h)

/-- The outcome of joining edits, after its first step. -/
theorem joinFrom_cons_eq_ok {last edit : TextEdit} {rest out : List TextEdit}
    (h : joinFrom last (edit :: rest) = .ok out) :
    (∃ joined, join last edit = .merged joined ∧ joinFrom joined rest = .ok out) ∨
      ∃ out', joinFrom edit rest = .ok out' ∧ out = last :: out' := by
  rw [joinFrom] at h
  split at h
  · next joined hjoin => exact .inl ⟨joined, hjoin, h⟩
  · cases h
  · refine .inr ?_
    cases hrest : joinFrom edit rest with
    | error e => rw [hrest] at h; cases h
    | ok out' => rw [hrest] at h; cases h; exact ⟨out', rfl, rfl⟩

/-- Edits in order are covered by what they are joined to. -/
theorem exists_covering_of_joinFrom {last : TextEdit} {rest out : List TextEdit}
    (hsorted : (last :: rest).Pairwise fun a b => a.start ≤ b.start)
    (h : joinFrom last rest = .ok out) :
    ∀ edit ∈ last :: rest, ∃ cover ∈ out, cover.start ≤ edit.start ∧ edit.stop ≤ cover.stop := by
  -- By the edits still to be joined; `last` is what those before have been joined to.
  induction rest generalizing last out with
  | nil =>
    cases h
    exact fun edit hedit => ⟨edit, hedit, le_rfl, le_rfl⟩
  | cons next rest ih =>
    obtain ⟨hlast, hrest⟩ := List.pairwise_cons.1 hsorted
    rcases joinFrom_cons_eq_ok h with ⟨joined, hjoin, hjoined⟩ | ⟨out', hout, rfl⟩
    · -- The joined edit takes the place of both, so it is what has to be covered.
      have hstart : joined.start = last.start ∧ last.stop ≤ joined.stop ∧
          next.stop ≤ joined.stop := by
        rcases join_eq_merged hjoin with ⟨rfl, rfl⟩ | ⟨hstart, hstop, -⟩
        · exact ⟨rfl, le_rfl, le_rfl⟩
        · exact ⟨hstart, hstop ▸ le_max_left _ _, hstop ▸ le_max_right _ _⟩
      have hordered : (joined :: rest).Pairwise fun a b => a.start ≤ b.start :=
        List.pairwise_cons.2
          ⟨fun edit hedit => hstart.1 ▸ hlast edit (List.mem_cons_of_mem _ hedit),
            (List.pairwise_cons.1 hrest).2⟩
      have hcover := ih hordered hjoined
      obtain ⟨cover, hmem, hcstart, hcstop⟩ := hcover joined List.mem_cons_self
      have hnext := hlast next List.mem_cons_self
      intro edit hedit
      rcases List.mem_cons.1 hedit with rfl | hedit
      · exact ⟨cover, hmem, by omega, by omega⟩
      · rcases List.mem_cons.1 hedit with rfl | hedit
        · exact ⟨cover, hmem, by omega, by omega⟩
        · exact hcover edit (List.mem_cons_of_mem _ hedit)
    · intro edit hedit
      rcases List.mem_cons.1 hedit with rfl | hedit
      · exact ⟨edit, List.mem_cons_self, le_rfl, le_rfl⟩
      · obtain ⟨cover, hmem, hcover⟩ := ih hrest hout edit hedit
        exact ⟨cover, List.mem_cons_of_mem _ hmem, hcover⟩

/-- What edits are joined to starts and ends where they do, and touches what they do. -/
theorem exists_touching_of_joinFrom {last : TextEdit} {rest out : List TextEdit}
    (h : joinFrom last rest = .ok out) {merged : TextEdit} (hmerged : merged ∈ out) :
    (∃ edit ∈ last :: rest, merged.start = edit.start) ∧
      (∃ edit ∈ last :: rest, merged.stop = edit.stop) ∧
      ∀ span : Span, span.start < span.stop → merged.Touches span →
        ∃ edit ∈ last :: rest, edit.Touches span := by
  induction rest generalizing last out with
  | nil =>
    cases h
    obtain rfl := List.mem_singleton.1 hmerged
    exact ⟨⟨_, List.mem_cons_self, rfl⟩, ⟨_, List.mem_cons_self, rfl⟩,
      fun _ _ htouch => ⟨_, List.mem_cons_self, htouch⟩⟩
  | cons next rest ih =>
    rcases joinFrom_cons_eq_ok h with ⟨joined, hjoin, hjoined⟩ | ⟨out', hout, rfl⟩
    · obtain ⟨⟨a, ha, hstart⟩, ⟨b, hb, hstop⟩, htouch⟩ := ih hjoined hmerged
      have hmore : ∀ edit ∈ rest, edit ∈ last :: next :: rest := fun edit hedit =>
        List.mem_cons_of_mem _ (List.mem_cons_of_mem _ hedit)
      have hlast : last ∈ last :: next :: rest := List.mem_cons_self
      have hnext : next ∈ last :: next :: rest := List.mem_cons_of_mem _ List.mem_cons_self
      rcases join_eq_merged hjoin with ⟨rfl, rfl⟩ | ⟨hjstart, hjstop, hle⟩
      · have hall : ∀ edit ∈ next :: rest, edit ∈ next :: next :: rest :=
          fun edit hedit => List.mem_cons_of_mem _ hedit
        exact ⟨⟨a, hall a ha, hstart⟩, ⟨b, hall b hb, hstop⟩, fun span hspan hm =>
          let ⟨edit, hedit, ht⟩ := htouch span hspan hm
          ⟨edit, hall edit hedit, ht⟩⟩
      · refine ⟨?_, ?_, fun span hspan hm => ?_⟩
        · rcases List.mem_cons.1 ha with rfl | ha
          · exact ⟨last, hlast, hstart.trans hjstart⟩
          · exact ⟨a, hmore a ha, hstart⟩
        · rcases List.mem_cons.1 hb with rfl | hb
          · rcases le_total next.stop last.stop with hmax | hmax
            · exact ⟨last, hlast, by omega⟩
            · exact ⟨next, hnext, by omega⟩
          · exact ⟨b, hmore b hb, hstop⟩
        · obtain ⟨edit, hedit, ht⟩ := htouch span hspan hm
          rcases List.mem_cons.1 hedit with rfl | hedit
          · -- A span between the two edits would have to be empty.
            by_cases htl : last.Touches span
            · exact ⟨last, hlast, htl⟩
            · refine ⟨next, hnext, ?_⟩
              simp only [Touches] at ht htl ⊢
              omega
          · exact ⟨edit, hmore edit hedit, ht⟩
    · rcases List.mem_cons.1 hmerged with rfl | hmerged
      · exact ⟨⟨merged, List.mem_cons_self, rfl⟩, ⟨merged, List.mem_cons_self, rfl⟩,
          fun _ _ htouch => ⟨merged, List.mem_cons_self, htouch⟩⟩
      · obtain ⟨⟨a, ha, hstart⟩, ⟨b, hb, hstop⟩, htouch⟩ := ih hout hmerged
        exact ⟨⟨a, List.mem_cons_of_mem _ ha, hstart⟩, ⟨b, List.mem_cons_of_mem _ hb, hstop⟩,
          fun span hspan hm =>
            let ⟨edit, hedit, ht⟩ := htouch span hspan hm
            ⟨edit, List.mem_cons_of_mem _ hedit, ht⟩⟩

/-! ## Normalizing edits -/

theorem start_le_of_precedes {a b : TextEdit} (h : precedes a b = true) : a.start ≤ b.start := by
  simp only [precedes, Bool.or_eq_true, Bool.and_eq_true, decide_eq_true_eq, beq_iff_eq] at h
  omega

theorem pairwise_sorted (edits : List TextEdit) :
    (sorted edits).Pairwise fun a b => a.start ≤ b.start := by
  refine (List.pairwise_mergeSort (fun a b c hab hbc => ?_) (fun a b => ?_) edits).imp
    start_le_of_precedes
  · simp only [precedes, Bool.or_eq_true, Bool.and_eq_true, decide_eq_true_eq, beq_iff_eq] at *
    omega
  · simp only [precedes, Bool.or_eq_true, Bool.and_eq_true, decide_eq_true_eq, beq_iff_eq]
    omega

theorem mem_sorted {edits : List TextEdit} {edit : TextEdit} : edit ∈ sorted edits ↔ edit ∈ edits :=
  List.mem_mergeSort

/-- Each edit is covered by one of the merged edits. -/
theorem exists_covering_of_normalize {edits out : List TextEdit} (h : normalize edits = .ok out)
    {edit : TextEdit} (hedit : edit ∈ edits) :
    ∃ cover ∈ out, cover.start ≤ edit.start ∧ edit.stop ≤ cover.stop := by
  have hmem := mem_sorted.2 hedit
  have hsorted := pairwise_sorted edits
  rw [normalize] at h
  cases hs : sorted edits with
  | nil => rw [hs] at hmem; exact absurd hmem List.not_mem_nil
  | cons first rest =>
    rw [hs] at h hmem hsorted
    exact exists_covering_of_joinFrom hsorted h edit hmem

/-- A merged edit starts and ends where given edits do, and touches what one of them does. -/
theorem exists_touching_of_normalize {edits out : List TextEdit} (h : normalize edits = .ok out)
    {merged : TextEdit} (hmerged : merged ∈ out) :
    (∃ edit ∈ edits, merged.start = edit.start) ∧ (∃ edit ∈ edits, merged.stop = edit.stop) ∧
      ∀ span : Span, span.start < span.stop → merged.Touches span →
        ∃ edit ∈ edits, edit.Touches span := by
  rw [normalize] at h
  cases hs : sorted edits with
  | nil => rw [hs] at h; cases h; exact absurd hmerged List.not_mem_nil
  | cons first rest =>
    rw [hs] at h
    have hmem : ∀ edit ∈ first :: rest, edit ∈ edits := fun edit hedit =>
      mem_sorted.1 (hs ▸ hedit)
    obtain ⟨⟨a, ha, hstart⟩, ⟨b, hb, hstop⟩, htouch⟩ := exists_touching_of_joinFrom h hmerged
    exact ⟨⟨a, hmem a ha, hstart⟩, ⟨b, hmem b hb, hstop⟩, fun span hspan hm =>
      let ⟨edit, hedit, ht⟩ := htouch span hspan hm
      ⟨edit, hmem edit hedit, ht⟩⟩

end Statechart.TextEdit
