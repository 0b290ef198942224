import Statechart.Proofs.EditedText

/-!
# Edits as a splice

Making edits is the same as splicing a text: what no edit covers is kept, and what the edits write
stands between, from left to right in the order of their places. Edits at one place come in the
order in which they are given. The edits are refused if one of them leaves the text or cuts a
character, and otherwise if two of them overlap, next to each other or not.

* `ByPlace`: edits in the order of their places;
* `spliced`: the text between the edits, with what they write;
* `LeavesText`, `Overlap`: why edits are refused;
* `leavesText_shifted`: an edit that is shifted to a part of the text behind it is refused;
* `applyAll_eq_spliced`: what comes of edits.
-/

namespace Statechart.TextEdit

variable {text : String} {pos : Nat} {a b edit : TextEdit} {edits ordered other : List TextEdit}

/-! ## The order of edits -/

/-- Whether an edit has the given place. -/
def standsAt (start stop : Nat) (edit : TextEdit) : Bool :=
  edit.start == start && edit.stop == stop

/-- The place of an edit comes before that of another, or is the same. -/
def NoLater (a b : TextEdit) : Prop :=
  a.start < b.start ∨ (a.start = b.start ∧ a.stop ≤ b.stop)

/-- The edits, ordered by their places; those at one place are in the order in which they are
    given. -/
structure ByPlace (edits ordered : List TextEdit) : Prop where
  ascending : ordered.Pairwise NoLater
  places : ∀ start stop, ordered.filter (standsAt start stop) = edits.filter (standsAt start stop)

theorem standsAt_iff {start stop : Nat} :
    standsAt start stop edit = true ↔ edit.start = start ∧ edit.stop = stop := by
  rw [standsAt, Bool.and_eq_true, beq_iff_eq, beq_iff_eq]

theorem standsAt_self (edit : TextEdit) : standsAt edit.start edit.stop edit = true :=
  standsAt_iff.2 ⟨rfl, rfl⟩

theorem precedes_iff_noLater : precedes a b = true ↔ NoLater a b := by
  simp only [precedes, NoLater, Bool.or_eq_true, Bool.and_eq_true, decide_eq_true_eq, beq_iff_eq]

theorem mem_of_places (h : ∀ start stop,
    ordered.filter (standsAt start stop) = edits.filter (standsAt start stop)) :
    edit ∈ ordered ↔ edit ∈ edits := by
  have hfilter : ∀ l : List TextEdit,
      edit ∈ l ↔ edit ∈ l.filter (standsAt edit.start edit.stop) := fun l => by
    rw [List.mem_filter, standsAt_self, and_iff_left rfl]
  rw [hfilter, h, ← hfilter]

/-- Sorting is stable. -/
theorem byPlace_sorted (edits : List TextEdit) : ByPlace edits (sorted edits) := by
  have htrans : ∀ a b c : TextEdit, precedes a b = true → precedes b c = true →
      precedes a c = true := by
    intro a b c hab hbc
    rw [precedes_iff_noLater, NoLater] at *
    omega
  have htotal : ∀ a b : TextEdit, (precedes a b || precedes b a) = true := by
    intro a b
    rw [Bool.or_eq_true, precedes_iff_noLater, precedes_iff_noLater, NoLater, NoLater]
    omega
  refine ⟨(List.pairwise_mergeSort htrans htotal edits).imp precedes_iff_noLater.1,
    fun start stop => ?_⟩
  -- The edits at one place precede one another, so that they are a part of the sorted list.
  have hpart : (edits.filter (standsAt start stop)).Sublist (sorted edits) := by
    refine List.sublist_mergeSort htrans htotal (List.pairwise_of_forall_mem_list ?_)
      List.filter_sublist
    intro a ha b hb
    obtain ⟨hstart, hstop⟩ := standsAt_iff.1 (List.mem_filter.1 ha).2
    obtain ⟨hstart', hstop'⟩ := standsAt_iff.1 (List.mem_filter.1 hb).2
    rw [precedes_iff_noLater, NoLater]
    omega
  have hsub := hpart.filter (standsAt start stop)
  simp only [List.filter_filter, Bool.and_self] at hsub
  refine (hsub.eq_of_length ?_).symm
  exact ((List.mergeSort_perm edits precedes).filter _).length_eq.symm

/-- Edits in the order of their places are told apart by those at each place. -/
theorem eq_of_places (hordered : ordered.Pairwise NoLater) (hother : other.Pairwise NoLater)
    (h : ∀ start stop, ordered.filter (standsAt start stop) = other.filter (standsAt start stop)) :
    ordered = other := by
  induction ordered generalizing other with
  | nil =>
    refine (List.eq_nil_iff_forall_not_mem.2 fun edit hedit => ?_).symm
    exact absurd ((mem_of_places h).2 hedit) List.not_mem_nil
  | cons a ordered ih =>
    cases other with
    | nil => exact absurd ((mem_of_places h).1 List.mem_cons_self) List.not_mem_nil
    | cons b other =>
      rw [List.pairwise_cons] at hordered hother
      -- Each of the first edits is in the other list, so that both have the same place.
      have hfirst : a = b ∨ NoLater b a :=
        (List.mem_cons.1 ((mem_of_places h).1 List.mem_cons_self)).imp_right (hother.1 a)
      have hfirst' : b = a ∨ NoLater a b :=
        (List.mem_cons.1 ((mem_of_places h).2 List.mem_cons_self)).imp_right (hordered.1 b)
      have hab : a = b := by
        rcases hfirst with heq | hba
        · exact heq
        rcases hfirst' with heq | hab
        · exact heq.symm
        have hplace : standsAt a.start a.stop b = true := by
          rw [NoLater] at hab hba
          exact standsAt_iff.2 (by omega)
        have hhere := h a.start a.stop
        rw [List.filter_cons_of_pos (standsAt_self a), List.filter_cons_of_pos hplace] at hhere
        exact (List.cons.inj hhere).1
      subst hab
      refine congrArg (a :: ·) (ih hordered.2 hother.2 fun start stop => ?_)
      have hhere := h start stop
      rw [List.filter_cons, List.filter_cons] at hhere
      split at hhere
      · exact (List.cons.inj hhere).2
      · exact hhere

theorem ByPlace.eq_sorted (h : ByPlace edits ordered) : ordered = sorted edits :=
  eq_of_places h.ascending (byPlace_sorted edits).ascending fun start stop =>
    (h.places start stop).trans ((byPlace_sorted edits).places start stop).symm

/-- Edits with the same ones at each place are made in the same order. -/
theorem sorted_congr {edits' : List TextEdit}
    (h : ∀ start stop, edits'.filter (standsAt start stop) = edits.filter (standsAt start stop)) :
    sorted edits' = sorted edits :=
  ByPlace.eq_sorted ⟨(byPlace_sorted edits').ascending, fun start stop =>
    ((byPlace_sorted edits').places start stop).trans (h start stop)⟩

/-! ## The splice -/

/-- What edits in order make of a text from `pos` on: the text up to the next edit, what that
    writes, and so on behind it. -/
def spliced (text : String) (pos : Nat) : List TextEdit → String
  | [] => (utf8 text).slice pos (utf8 text).length
  | edit :: rest =>
    (utf8 text).slice pos edit.start ++ edit.newText ++ spliced text edit.stop rest

theorem utf8_spliced (hpos : (utf8 text).isBoundary pos = true) (hlen : pos ≤ (utf8 text).length)
    (hfits : ∀ edit ∈ ordered, edit.fits (utf8 text) = true)
    (hstart : ∀ edit ∈ ordered, pos ≤ edit.start)
    (hapart : ordered.Pairwise fun a b => a.stop ≤ b.start) :
    utf8 (spliced text pos ordered) = rendered (utf8 text) pos ordered := by
  induction ordered generalizing pos with
  | nil =>
    rw [spliced, rendered, utf8_slice hlen (Nat.le_refl _) hpos (isBoundary_length _), Bytes.range,
      List.take_of_length_le (by rw [List.length_drop])]
  | cons edit rest ih =>
    obtain ⟨hfirst, hrest⟩ := List.pairwise_cons.1 hapart
    obtain ⟨hle, hstop, hbegin, hend⟩ := fits_iff.1 (hfits edit List.mem_cons_self)
    have hbefore := hstart edit List.mem_cons_self
    rw [spliced, rendered, Nat.max_eq_right (hbefore.trans hle), utf8_append, utf8_append,
      utf8_slice hbefore (hle.trans hstop) hpos hbegin,
      ih hend hstop (fun e he => hfits e (List.mem_cons_of_mem _ he)) hfirst hrest]

/-! ## Edits that are refused -/

/-- The edit is reversed, leaves the text or cuts a character. -/
def LeavesText (text : String) (edit : TextEdit) : Prop :=
  edit.stop < edit.start ∨ (utf8 text).length < edit.stop ∨
    (utf8 text).isBoundary edit.start = false ∨ (utf8 text).isBoundary edit.stop = false

/-- Of two edits, next to each other or not, the later starts before the earlier ends. -/
def Overlap (ordered : List TextEdit) : Prop :=
  ∃ (i j : Nat) (a b : TextEdit), i < j ∧ ordered[i]? = some a ∧ ordered[j]? = some b ∧
    b.start < a.stop

theorem not_fits_iff : ¬edit.fits (utf8 text) = true ↔ edit.LeavesText text := by
  rw [fits_iff, LeavesText, not_and_or, not_and_or, not_and_or, Nat.not_le, Nat.not_le,
    Bool.not_eq_true, Bool.not_eq_true]

theorem not_overlap_iff : ¬Overlap ordered ↔ ordered.Pairwise fun a b => a.stop ≤ b.start := by
  rw [List.pairwise_iff_getElem]
  constructor
  · intro h i j hi hj hij
    refine Nat.le_of_not_lt fun hlt => h ⟨i, j, _, _, hij, List.getElem?_eq_getElem hi,
      List.getElem?_eq_getElem hj, hlt⟩
  · rintro h ⟨i, j, a, b, hij, hi, hj, hlt⟩
    obtain ⟨hilt, rfl⟩ := List.getElem?_eq_some_iff.1 hi
    obtain ⟨hjlt, rfl⟩ := List.getElem?_eq_some_iff.1 hj
    exact Nat.not_lt.2 (h i j hilt hjlt hij) hlt

/-- It is enough to look at neighbours, since none of the edits is reversed. -/
theorem pairwise_of_firstOverlap? (hle : ∀ edit ∈ ordered, edit.start ≤ edit.stop)
    (h : firstOverlap? ordered = none) : ordered.Pairwise fun a b => a.stop ≤ b.start := by
  induction ordered with
  | nil => exact .nil
  | cons a rest ih =>
    cases rest with
    | nil => exact List.pairwise_singleton _ _
    | cons b rest =>
      rw [firstOverlap?] at h
      split at h
      · cases h
      next hnext =>
        have hrest := ih (fun edit hedit => hle edit (List.mem_cons_of_mem _ hedit)) h
        have hb := hle b (List.mem_cons_of_mem _ List.mem_cons_self)
        refine List.pairwise_cons.2 ⟨fun edit hedit => ?_, hrest⟩
        rcases List.mem_cons.1 hedit with rfl | hedit
        · exact Nat.le_of_not_lt hnext
        · have := (List.pairwise_cons.1 hrest).1 edit hedit
          omega

/-- An edit that starts before the part of the text that it is shifted to leaves this part, unless
    64 bits do not hold where the part ends. -/
theorem leavesText_shifted {offset : Nat} (hstart : edit.start < offset)
    (hroom : offset + (utf8 text).length < 18446744073709551616) :
    (edit.shifted offset).LeavesText text := by
  have hfar : (utf8 text).length < (edit.shifted offset).start := by
    have hshifted : (edit.shifted offset).start = distance offset edit.start := by
      cases edit <;> rfl
    rw [hshifted, distance_of_lt hstart]
    omega
  rcases Nat.lt_or_ge (edit.shifted offset).stop (edit.shifted offset).start with hlt | hle
  · exact .inl hlt
  · exact .inr (.inl (Nat.lt_of_lt_of_le hfar hle))

/-- An edit that leaves the text is named when the edits are refused. -/
theorem applyAll_of_leavesText (h : ∃ edit ∈ edits, edit.LeavesText text) :
    ∃ edit ∈ edits, edit.LeavesText text ∧ applyAll text edits =
      .error (.outOfBounds edit.start edit.stop (utf8 text).length) := by
  obtain ⟨bad, hbad, hleaves⟩ := h
  cases hfind : (sorted edits).find? (!·.fits (utf8 text)) with
  | none =>
    have hfits := List.find?_eq_none.1 hfind bad (mem_sorted.2 hbad)
    rw [Bool.not_eq_true', Bool.not_eq_false] at hfits
    exact absurd hfits (not_fits_iff.2 hleaves)
  | some edit =>
    have hnot := List.find?_some hfind
    rw [Bool.not_eq_true', ← Bool.not_eq_true] at hnot
    refine ⟨edit, mem_sorted.1 (List.mem_of_find?_eq_some hfind), not_fits_iff.1 hnot, ?_⟩
    simp only [applyAll, applyBytes, hfind]
    rfl

section

variable (hfits : ∀ edit ∈ edits, edit.fits (utf8 text) = true)

include hfits

theorem applyAll_of_overlap (h : Overlap (sorted edits)) :
    ∃ a b, applyAll text edits = .error (overlap a b) := by
  have hfound : (sorted edits).find? (!·.fits (utf8 text)) = none :=
    List.find?_eq_none.2 fun edit hedit => by simp [hfits edit (mem_sorted.1 hedit)]
  cases hfirst : firstOverlap? (sorted edits) with
  | none =>
    refine absurd h (not_overlap_iff.2 (pairwise_of_firstOverlap? (fun edit hedit => ?_) hfirst))
    exact (fits_iff.1 (hfits edit (mem_sorted.1 hedit))).1
  | some pair =>
    refine ⟨pair.1, pair.2, ?_⟩
    simp only [applyAll, applyBytes, hfound, hfirst]
    rfl

theorem applyAll_of_not_overlap (h : ¬Overlap (sorted edits)) :
    applyAll text edits = .ok (spliced text 0 (sorted edits)) := by
  have hapart := not_overlap_iff.1 h
  have hspliced := utf8_spliced (isBoundary_zero _) (Nat.zero_le _)
    (fun edit hedit => hfits edit (mem_sorted.1 hedit)) (fun _ _ => Nat.zero_le _) hapart
  rw [applyAll, applyBytes_eq_rendered hfits hapart, ← hspliced]
  exact congrArg Except.ok (decode_utf8 _)

end

/-- Making edits is splicing the text. They are refused as out of bounds just if one of them
    leaves the text, otherwise as overlapping just if two of them overlap in the order of their
    places, and else they give the text that no edit covers with what the edits write, in that
    order. Which edits stand at each place, and in what order there, is all that matters. -/
theorem applyAll_eq_spliced (text : String) (edits : List TextEdit) :
    ∃ ordered, ByPlace edits ordered ∧ (∀ other, ByPlace edits other → other = ordered) ∧
      ((∃ start stop length, applyAll text edits = .error (.outOfBounds start stop length)) ↔
        ∃ edit ∈ edits, edit.LeavesText text) ∧
      ((¬∃ edit ∈ edits, edit.LeavesText text) →
        ((∃ a b c d, applyAll text edits = .error (.overlapping a b c d)) ↔ Overlap ordered) ∧
        (¬Overlap ordered → applyAll text edits = .ok (spliced text 0 ordered))) ∧
      ∀ edits', (∀ start stop,
          edits'.filter (standsAt start stop) = edits.filter (standsAt start stop)) →
        applyAll text edits' = applyAll text edits := by
  have hfits : (¬∃ edit ∈ edits, edit.LeavesText text) →
      ∀ edit ∈ edits, edit.fits (utf8 text) = true := by
    intro h edit hedit
    by_contra hnot
    exact h ⟨edit, hedit, not_fits_iff.1 hnot⟩
  refine ⟨sorted edits, byPlace_sorted edits, fun other => ByPlace.eq_sorted, ⟨?_, ?_⟩,
    fun h => ⟨⟨?_, ?_⟩, applyAll_of_not_overlap (hfits h)⟩, fun edits' h => ?_⟩
  · rintro ⟨start, stop, length, herror⟩
    by_contra h
    by_cases hoverlap : Overlap (sorted edits)
    · obtain ⟨a, b, hab⟩ := applyAll_of_overlap (hfits h) hoverlap
      rw [hab] at herror
      cases herror
    · rw [applyAll_of_not_overlap (hfits h) hoverlap] at herror
      cases herror
  · intro h
    obtain ⟨edit, -, -, herror⟩ := applyAll_of_leavesText h
    exact ⟨_, _, _, herror⟩
  · rintro ⟨a, b, c, d, herror⟩
    by_contra hoverlap
    rw [applyAll_of_not_overlap (hfits h) hoverlap] at herror
    cases herror
  · intro hoverlap
    obtain ⟨a, b, hab⟩ := applyAll_of_overlap (hfits h) hoverlap
    exact ⟨_, _, _, _, hab⟩
  · rw [applyAll, applyAll, applyBytes, applyBytes, sorted_congr h]

/-- Insertions at both ends of a deleted character of two bytes, in order and not: those at one
    end keep the order in which they are given. -/
theorem applyAll_eq_spliced_touching :
    applyAll "aäb" [.insert 1 "1", .insert 1 "2", .delete 1 3, .insert 3 "3", .insert 3 "4"] =
        .ok "a1234b" ∧
      applyAll "aäb" [.insert 3 "3", .delete 1 3, .insert 1 "1", .insert 3 "4", .insert 1 "2"] =
        .ok "a1234b" := by
  have hsorted : sorted
      [.insert 1 "1", .insert 1 "2", .delete 1 3, .insert 3 "3", .insert 3 "4"] =
        [.insert 1 "1", .insert 1 "2", .delete 1 3, .insert 3 "3", .insert 3 "4"] :=
    List.mergeSort_of_pairwise (by decide)
  have hordered : applyAll "aäb"
      [.insert 1 "1", .insert 1 "2", .delete 1 3, .insert 3 "3", .insert 3 "4"] =
        .ok "a1234b" := by
    rw [applyAll, applyBytes, hsorted]
    decide +kernel
  obtain ⟨-, -, -, -, -, hsame⟩ := applyAll_eq_spliced "aäb"
    [.insert 1 "1", .insert 1 "2", .delete 1 3, .insert 3 "3", .insert 3 "4"]
  refine ⟨hordered, (hsame _ fun start stop => ?_).trans hordered⟩
  simp only [List.filter_cons, List.filter_nil, standsAt, TextEdit.start, TextEdit.stop]
  grind

end Statechart.TextEdit
