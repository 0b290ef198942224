import Mathlib.Data.List.Chain
import Statechart.Proofs.Splicing

/-!
# Merged edits

Merging edits keeps what they make of a text: edits that can be made can be merged, and the merged
ones make the same text of it. Merged edits are in a normal form. They are in order, none starts
before the one before it ends, deletions next to each other do not touch, and insertions next to
each other are at different places, so that merging them again changes nothing.

* `StandsOff`: an edit is not to be merged with the one before it;
* `join_eq_apart_iff`: what `StandsOff` means for the merging;
* `isChain_of_normalize`: merged edits stand off from one another;
* `normalize_of_isChain`: edits that do are merged already;
* `applyAll_normalize`: merged edits make the same text.
-/

namespace Statechart.TextEdit

variable {text : String} {bytes made : Bytes} {a b last edit joined : TextEdit}
  {edits rest out merged : List TextEdit}

/-- Whether an edit only inserts. -/
def isInsertion : TextEdit → Bool
  | insert _ _ => true
  | _ => false

/-- An edit is apart from the one before it: it does not start before that ends. If both delete they
    do not even touch, and if both insert they do so at different places. -/
structure StandsOff (a b : TextEdit) : Prop where
  apart : a.stop ≤ b.start
  deletions : a.isDeletion = true → b.isDeletion = true → a.stop < b.start
  insertions : a.isInsertion = true → b.isInsertion = true → a.start ≠ b.start

/-- Edits are left as two just if they stand off from each other. -/
theorem join_eq_apart_iff (ha : a.Proper) : join a b = .apart ↔ a.StandsOff b := by
  have hother : b ≠ a → ((if b = a then Joined.merged a
      else if b.start < a.stop then Joined.conflicting else Joined.apart) = .apart ↔
        a.stop ≤ b.start) := by
    intro hne
    rw [if_neg hne]
    split
    · next hlt => exact ⟨Joined.noConfusion, fun hle => absurd hlt (Nat.not_lt.2 hle)⟩
    · next hnot => exact ⟨fun _ => Nat.le_of_not_lt hnot, fun _ => rfl⟩
  have hkinds : ¬(a.isDeletion = true ∧ b.isDeletion = true) →
      ¬(a.isInsertion = true ∧ b.isInsertion = true) → (a.stop ≤ b.start ↔ a.StandsOff b) :=
    fun hdel hins => ⟨fun h =>
      ⟨h, fun h h' => absurd ⟨h, h'⟩ hdel, fun h h' => absurd ⟨h, h'⟩ hins⟩,
      StandsOff.apart⟩
  -- Two deletions join when they touch, two insertions when they are at one place, and equal
  -- replacements always do.
  cases a with
  | delete start stop =>
    cases b with
    | delete start' stop' =>
      simp only [join]
      split
      · next htouch =>
        exact ⟨Joined.noConfusion, fun h => absurd (h.deletions rfl rfl) (Nat.not_lt.2 htouch)⟩
      · next htouch =>
        have hlt : stop < start' := Nat.lt_of_not_le htouch
        rw [hother (fun heq => by cases heq; exact htouch ha)]
        exact ⟨fun h => ⟨h, fun _ _ => hlt, Bool.noConfusion⟩, StandsOff.apart⟩
    | insert _ _ | replace _ _ _ =>
      exact (hother (by simp)).trans (hkinds (by simp [isDeletion]) (by simp [isInsertion]))
  | insert place new =>
    cases b with
    | insert place' new' =>
      simp only [join]
      split
      · next hplace =>
        exact ⟨Joined.noConfusion, fun h => absurd hplace (h.insertions rfl rfl)⟩
      · next hplace =>
        rw [hother (fun heq => by cases heq; exact hplace rfl)]
        exact ⟨fun h => ⟨h, Bool.noConfusion, fun _ _ => hplace⟩, StandsOff.apart⟩
    | delete _ _ | replace _ _ _ =>
      exact (hother (by simp)).trans (hkinds (by simp [isDeletion]) (by simp [isInsertion]))
  | replace start stop new =>
    have hkinds := hkinds (by simp [isDeletion]) (by simp [isInsertion])
    by_cases hsame : b = .replace start stop new
    · subst hsame
      have hlt : start < stop := ha
      refine ⟨fun h => ?_, fun h => absurd h.apart (Nat.not_le.2 hlt)⟩
      simp [join] at h
    · cases b <;> exact (hother hsame).trans hkinds

/-! ## What is left after merging -/

/-- An edit starts where another does, and is of its kind. -/
structure Continues (last joined : TextEdit) : Prop where
  start_eq : joined.start = last.start
  deletion_eq : joined.isDeletion = last.isDeletion
  insertion_eq : joined.isInsertion = last.isInsertion

theorem Continues.refl (edit : TextEdit) : edit.Continues edit :=
  ⟨rfl, rfl, rfl⟩

theorem Continues.trans (h : a.Continues b) (h' : b.Continues edit) : a.Continues edit :=
  ⟨h'.start_eq.trans h.start_eq, h'.deletion_eq.trans h.deletion_eq,
    h'.insertion_eq.trans h.insertion_eq⟩

/-- Whether an edit stands off from the one before it depends only on its kind and its start. -/
theorem StandsOff.of_continues (h : a.StandsOff last) (hjoined : last.Continues joined) :
    a.StandsOff joined := by
  obtain ⟨hstart, hdel, hins⟩ := hjoined
  refine ⟨hstart ▸ h.apart, fun ha hb => ?_, fun ha hb => ?_⟩
  · exact hstart ▸ h.deletions ha (hdel ▸ hb)
  · exact hstart ▸ h.insertions ha (hins ▸ hb)

/-- Two edits are merged into one that continues the first. -/
theorem continues_of_join (hlast : last.Proper) (h : join last edit = .merged joined) :
    last.Continues joined ∧ joined.Proper := by
  have hother : (if edit = last then Joined.merged last
      else if edit.start < last.stop then Joined.conflicting
      else Joined.apart) = .merged joined → last.Continues joined ∧ joined.Proper := by
    intro h
    split at h
    · cases h
      exact ⟨.refl _, hlast⟩
    · split at h <;> cases h
  cases last <;> cases edit <;> simp only [join] at h
  case delete.delete =>
    split at h
    · cases h
      exact ⟨⟨rfl, rfl, rfl⟩, Nat.le_trans hlast (Nat.le_max_left _ _)⟩
    · exact hother h
  case insert.insert =>
    split at h
    · cases h
      exact ⟨⟨rfl, rfl, rfl⟩, trivial⟩
    · exact hother h
  all_goals exact hother h

/-- What edits are merged to stands off from one another. -/
theorem isChain_joinFrom (hproper : ∀ edit ∈ last :: rest, edit.Proper)
    (h : joinFrom last rest = .ok out) :
    ∃ first others, out = first :: others ∧ last.Continues first ∧
      (∀ edit ∈ out, edit.Proper) ∧ out.IsChain StandsOff := by
  -- By the edits still to be merged; `last` is what those before have been merged to.
  induction rest generalizing last out with
  | nil =>
    cases h
    exact ⟨last, [], rfl, .refl last, hproper, .singleton last⟩
  | cons edit rest ih =>
    have hlast := hproper last List.mem_cons_self
    have hrest : ∀ e ∈ edit :: rest, e.Proper := fun e he => hproper e (List.mem_cons_of_mem _ he)
    rw [joinFrom] at h
    split at h
    · next joined hjoin =>
      obtain ⟨hjoined, hjoined'⟩ := continues_of_join hlast hjoin
      obtain ⟨first, others, rfl, hfirst, hout⟩ := ih (List.forall_mem_cons.2
        ⟨hjoined', fun e he => hrest e (List.mem_cons_of_mem _ he)⟩) h
      exact ⟨first, others, rfl, hjoined.trans hfirst, hout⟩
    · cases h
    · next hjoin =>
      cases hout : joinFrom edit rest with
      | error e => rw [hout] at h; cases h
      | ok out' =>
        rw [hout] at h
        cases h
        obtain ⟨first, others, rfl, hfirst, hproper', hchain⟩ := ih hrest hout
        have hoff := ((join_eq_apart_iff hlast).1 hjoin).of_continues hfirst
        exact ⟨last, _, rfl, .refl last, List.forall_mem_cons.2 ⟨hlast, hproper'⟩,
          .cons_cons hoff hchain⟩

/-- Merged edits stand off from one another. -/
theorem isChain_of_normalize (hproper : ∀ edit ∈ edits, edit.Proper)
    (h : normalize edits = .ok merged) :
    (∀ edit ∈ merged, edit.Proper) ∧ merged.IsChain StandsOff := by
  rw [normalize] at h
  split at h
  · cases h
    exact ⟨fun _ h => absurd h List.not_mem_nil, .nil⟩
  · next last rest hsorted =>
    obtain ⟨first, others, -, -, hout⟩ := isChain_joinFrom
      (fun edit hedit => hproper edit (mem_sorted.1 (hsorted ▸ hedit))) h
    exact hout

/-! ## Edits that are merged already -/

/-- No edit starts before one that stands farther in front ends. -/
theorem pairwise_of_isChain (hproper : ∀ edit ∈ edits, edit.Proper)
    (hchain : edits.IsChain StandsOff) : edits.Pairwise fun a b => a.stop ≤ b.start := by
  refine pairwise_of_firstOverlap? (fun edit hedit => (hproper edit hedit).le) ?_
  induction edits with
  | nil => rfl
  | cons a rest ih =>
    rcases rest with - | ⟨b, rest⟩
    · rfl
    · obtain ⟨hoff, hrest⟩ := List.isChain_cons_cons.1 hchain
      rw [firstOverlap?, if_neg (Nat.not_lt.2 hoff.apart)]
      exact ih (fun edit hedit => hproper edit (List.mem_cons_of_mem _ hedit)) hrest

theorem joinFrom_of_apart (hchain : (last :: rest).IsChain fun a b => join a b = .apart) :
    joinFrom last rest = .ok (last :: rest) := by
  induction rest generalizing last with
  | nil => rfl
  | cons edit rest ih =>
    obtain ⟨hapart, hrest⟩ := List.isChain_cons_cons.1 hchain
    simp only [joinFrom, hapart, ih hrest]
    rfl

/-- Edits that stand apart and are not joined stay as they are. -/
theorem normalize_of_not_joined (hle : ∀ edit ∈ edits, edit.start ≤ edit.stop)
    (hapart : edits.Pairwise fun a b => a.stop ≤ b.start)
    (hchain : edits.IsChain fun a b => join a b = .apart) : normalize edits = .ok edits := by
  rw [normalize, sorted_of_apart hle hapart]
  cases edits with
  | nil => rfl
  | cons last rest => exact joinFrom_of_apart hchain

/-- Edits that stand off from one another are merged already. -/
theorem normalize_of_isChain (hproper : ∀ edit ∈ edits, edit.Proper)
    (hchain : edits.IsChain StandsOff) : normalize edits = .ok edits := by
  refine normalize_of_not_joined (fun edit hedit => (hproper edit hedit).le)
    (pairwise_of_isChain hproper hchain) (hchain.imp_of_mem_imp ?_)
  exact fun a b ha _ hoff => (join_eq_apart_iff (hproper a ha)).2 hoff

/-! ## Making merged edits -/

/-- Edits can be made only if each of them fits and, in their order, they stand apart. -/
theorem fits_of_applyBytes (h : applyBytes bytes edits = .ok made) :
    (∀ edit ∈ edits, edit.fits bytes = true) ∧
      (sorted edits).Pairwise fun a b => a.stop ≤ b.start := by
  rw [applyBytes] at h
  split at h
  · cases h
  · next hfound =>
    have hfits : ∀ edit ∈ sorted edits, edit.fits bytes = true := fun edit hedit => by
      simpa using List.find?_eq_none.1 hfound edit hedit
    split at h
    · cases h
    · next hfirst =>
      refine ⟨fun edit hedit => hfits edit (mem_sorted.2 hedit),
        pairwise_of_firstOverlap? (fun edit hedit => ?_) hfirst⟩
      exact (fits_iff.1 (hfits edit hedit)).1

/-- Edits that stand apart can be merged, and what they make of a text stays the same. -/
theorem normalize_of_apart (hproper : ∀ edit ∈ edits, edit.Proper)
    (hapart : (sorted edits).Pairwise fun a b => a.stop ≤ b.start) :
    ∃ merged, normalize edits = .ok merged ∧
      ∀ bytes, rendered bytes 0 merged = rendered bytes 0 (sorted edits) := by
  have hfollows : (sorted edits).Pairwise Follows :=
    (pairwise_sorted edits).and hapart |>.imp fun h => ⟨h.1, .inl h.2⟩
  have hproper' : ∀ edit ∈ sorted edits, edit.Proper := fun edit hedit =>
    hproper edit (mem_sorted.1 hedit)
  rw [normalize]
  cases hsorted : sorted edits with
  | nil => exact ⟨[], rfl, fun _ => rfl⟩
  | cons last rest =>
    rw [hsorted] at hfollows hproper'
    obtain ⟨merged, hmerged, -, -, hrender⟩ := joinFrom_of_follows hproper' hfollows
    exact ⟨merged, hmerged, fun bytes => hrender bytes 0⟩

/-- Merged edits start and end where the given ones do, so that they fit a text if those do. -/
theorem fits_of_normalize (hproper : ∀ edit ∈ edits, edit.Proper)
    (h : normalize edits = .ok merged) (hfits : ∀ edit ∈ edits, edit.fits bytes = true) :
    ∀ edit ∈ merged, edit.fits bytes = true := by
  intro edit hedit
  obtain ⟨⟨a, ha, hstart⟩, ⟨b, hb, hstop⟩, -⟩ := exists_touching_of_normalize h hedit
  obtain ⟨-, -, hbegin, -⟩ := fits_iff.1 (hfits a ha)
  obtain ⟨-, hlength, -, hend⟩ := fits_iff.1 (hfits b hb)
  have hle := ((isChain_of_normalize hproper h).1 edit hedit).le
  exact fits_iff.2 ⟨hle, hstop ▸ hlength, hstart ▸ hbegin, hstop ▸ hend⟩

/-- Edits that can be made can be merged, and the merged ones make the same text. -/
theorem applyBytes_normalize (hproper : ∀ edit ∈ edits, edit.Proper)
    (h : applyBytes bytes edits = .ok made) :
    ∃ merged, normalize edits = .ok merged ∧ applyBytes bytes merged = .ok made := by
  obtain ⟨hfits, hapart⟩ := fits_of_applyBytes h
  obtain ⟨merged, hmerged, hrender⟩ := normalize_of_apart hproper hapart
  obtain ⟨hproper', hchain⟩ := isChain_of_normalize hproper hmerged
  have hfits' := fits_of_normalize hproper hmerged hfits
  refine ⟨merged, hmerged, ?_⟩
  rw [applyBytes_of_apart (fun edit hedit => ⟨hproper' edit hedit, hfits' edit hedit⟩)
    (pairwise_of_isChain hproper' hchain), hrender, ← applyBytes_eq_rendered hfits hapart, h]

/-- Edits that stand off from one another are not refused as overlapping. -/
theorem applyAll_ne_overlapping (hproper : ∀ edit ∈ edits, edit.Proper)
    (hchain : edits.IsChain StandsOff) (start stop start' stop' : Nat) :
    applyAll text edits ≠ .error (.overlapping start stop start' stop') := by
  have hapart := pairwise_of_isChain hproper hchain
  intro h
  by_cases hleaves : ∃ edit ∈ edits, edit.LeavesText text
  · obtain ⟨edit, -, -, herror⟩ := applyAll_of_leavesText hleaves
    rw [herror] at h
    cases h
  · have hfits : ∀ edit ∈ edits, edit.fits (utf8 text) = true := fun edit hedit => by
      by_contra hnot
      exact hleaves ⟨edit, hedit, not_fits_iff.1 hnot⟩
    have hno : ¬Overlap (sorted edits) := by
      rw [sorted_of_apart (fun edit hedit => (hproper edit hedit).le) hapart]
      exact not_overlap_iff.2 hapart
    rw [applyAll_of_not_overlap hfits hno] at h
    cases h

/-- Merging keeps the effect of edits that are not reversed and replace something if they replace:
    if they can be made, the merged edits make the same text. Merged edits are in the order of their
    places, stand off from one another, are never refused as overlapping, and stay as they are when
    they are merged again. -/
theorem normalize_canonical (edits : List TextEdit) (hproper : ∀ edit ∈ edits, edit.Proper) :
    (∀ text made, applyAll text edits = .ok made →
      ∃ merged, normalize edits = .ok merged ∧ applyAll text merged = .ok made) ∧
    ∀ merged, normalize edits = .ok merged →
      merged.Pairwise NoLater ∧ merged.IsChain StandsOff ∧
      (∀ text start stop start' stop',
        applyAll text merged ≠ .error (.overlapping start stop start' stop')) ∧
      normalize merged = .ok merged := by
  refine ⟨fun text made h => ?_, fun merged h => ?_⟩
  · obtain ⟨bytes, hbytes, rfl⟩ : ∃ bytes, applyBytes (utf8 text) edits = .ok bytes ∧
        bytes.decode = made := by
      rw [applyAll] at h
      cases hmade : applyBytes (utf8 text) edits with
      | error e => rw [hmade] at h; cases h
      | ok bytes => rw [hmade] at h; exact ⟨bytes, rfl, Except.ok.inj h⟩
    obtain ⟨merged, hmerged, hsame⟩ := applyBytes_normalize hproper hbytes
    exact ⟨merged, hmerged, by rw [applyAll, hsame]; rfl⟩
  · obtain ⟨hproper', hchain⟩ := isChain_of_normalize hproper h
    have hsorted := sorted_of_apart (fun edit hedit => (hproper' edit hedit).le)
      (pairwise_of_isChain hproper' hchain)
    refine ⟨?_, hchain, fun text => applyAll_ne_overlapping hproper' hchain,
      normalize_of_isChain hproper' hchain⟩
    rw [← hsorted]
    exact (byPlace_sorted merged).ascending

/-- Two deletions that touch, the second of a character of two bytes, two insertions behind them, an
    empty deletion at the same place, and a replacement: the empty deletion stays, since it does not
    stand next to the others that delete. -/
theorem normalize_canonical_mixed :
    let edits : List TextEdit := [.delete 0 1, .delete 1 3, .insert 3 "1", .insert 3 "2",
      .delete 3 3, .replace 4 5 "x"]
    let merged : List TextEdit := [.delete 0 3, .insert 3 "12", .delete 3 3, .replace 4 5 "x"]
    applyAll "aäbc" edits = .ok "12bx" ∧ normalize edits = .ok merged ∧
      applyAll "aäbc" merged = .ok "12bx" ∧ merged.IsChain StandsOff ∧
      normalize merged = .ok merged := by
  intro edits merged
  have hproper : ∀ edit ∈ edits, edit.Proper := by
    simp [edits, Proper]
  have hsorted : sorted edits = edits := List.mergeSort_of_pairwise (by decide)
  have hmade : applyAll "aäbc" edits = .ok "12bx" := by
    rw [applyAll, applyBytes, hsorted]
    decide +kernel
  have hmerged : normalize edits = .ok merged := by
    rw [normalize, hsorted]
    decide
  obtain ⟨hkept, hnormal⟩ := normalize_canonical edits hproper
  obtain ⟨-, hchain, -, hagain⟩ := hnormal merged hmerged
  obtain ⟨merged', hmerged', hsame⟩ := hkept "aäbc" "12bx" hmade
  obtain rfl := Except.ok.inj (hmerged.symm.trans hmerged')
  exact ⟨hmade, hmerged, hsame, hchain, hagain⟩

end Statechart.TextEdit
