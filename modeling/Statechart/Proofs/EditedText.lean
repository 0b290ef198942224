import Statechart.Proofs.Encoding
import Statechart.Proofs.TextEdits

/-!
# Edited texts

Edits are made from the last to the first. What they make of a text can be read from left to
right all the same: the text up to an edit, what the edit writes, and so on behind the edit. Read
in this way, deletions may overlap, and merging edits makes no difference.

* `rendered`: a text with edits made to it, read from left to right;
* `Follows`: an edit may come behind another;
* `normalize_of_perm`: edits that follow one another can be merged, in whichever order they are
  given, and what they make of a text stays the same;
* `applyBytes_of_apart`: edits that stand apart can be made.
-/

namespace Statechart.TextEdit

variable {text : Bytes} {pos : Nat} {a b last edit : TextEdit} {edits rest out : List TextEdit}

/-- What edits in order make of a text from `pos` on. -/
def rendered (text : Bytes) (pos : Nat) : List TextEdit → Bytes
  | [] => text.drop pos
  | edit :: rest =>
    text.range pos edit.start ++ utf8 edit.newText ++ rendered text (max pos edit.stop) rest

/-- Whether an edit only deletes. -/
def isDeletion : TextEdit → Bool
  | delete _ _ => true
  | _ => false

/-- An edit is not reversed, and replaces something if it replaces. -/
def Proper : TextEdit → Prop
  | insert _ _ => True
  | delete start stop => start ≤ stop
  | replace start stop _ => start < stop

/-- An edit may come behind another: it starts no earlier, and not before the other ends unless
    both only delete. -/
def Follows (a b : TextEdit) : Prop :=
  a.start ≤ b.start ∧ (a.stop ≤ b.start ∨ a.isDeletion = true ∧ b.isDeletion = true)

theorem Proper.le (h : edit.Proper) : edit.start ≤ edit.stop := by
  cases edit with
  | insert => exact le_rfl
  | delete => exact h
  | replace => exact Nat.le_of_lt h

theorem take_append_range {stop : Nat} (h : pos ≤ stop) :
    text.take pos ++ text.range pos stop = text.take stop := by
  rw [Bytes.range, ← List.take_add, Nat.add_sub_cancel' h]

/-- The text up to the first edit stays as it is. -/
theorem rendered_eq_range_append {stop : Nat} (hle : pos ≤ stop)
    (hstart : ∀ edit ∈ edits, edit.Proper ∧ stop ≤ edit.start) :
    rendered text pos edits = text.range pos stop ++ rendered text stop edits := by
  have hsplit : ∀ stop', stop ≤ stop' →
      text.range pos stop' = text.range pos stop ++ text.range stop stop' := by
    intro stop' hstop
    rw [Bytes.range, Bytes.range, Bytes.range, show stop' - pos = stop - pos + (stop' - stop) by
      omega, List.take_add, List.drop_drop, show pos + (stop - pos) = stop by omega]
  cases edits with
  | nil =>
    rw [rendered, rendered, Bytes.range]
    conv_lhs => rw [← List.take_append_drop (stop - pos) (text.drop pos)]
    rw [List.drop_drop, show pos + (stop - pos) = stop by omega]
  | cons edit rest =>
    obtain ⟨hproper, hedit⟩ := hstart edit List.mem_cons_self
    have hstop := hproper.le
    rw [rendered, rendered, hsplit _ hedit, Nat.max_eq_right (by omega),
      Nat.max_eq_right (by omega)]
    simp only [List.append_assoc]

/-! ## Making edits -/

/-- Edits that stand apart, made from the last to the first. -/
theorem foldr_applyOne_eq
    (hbounds : ∀ edit ∈ edits, edit.start ≤ edit.stop ∧ edit.stop ≤ text.length)
    (hapart : edits.Pairwise fun a b => a.stop ≤ b.start)
    (hpos : ∀ edit ∈ edits, pos ≤ edit.start) :
    edits.foldr applyOne text = text.take pos ++ rendered text pos edits := by
  -- Behind the first edit the text is the one that the others have made.
  induction edits generalizing pos with
  | nil => rw [List.foldr_nil, rendered, List.take_append_drop]
  | cons edit rest ih =>
    obtain ⟨hfirst, hrest⟩ := List.pairwise_cons.1 hapart
    obtain ⟨hle, hlen⟩ := hbounds edit List.mem_cons_self
    have hstart := hpos edit List.mem_cons_self
    have htake : (text.take edit.stop).length = edit.stop := List.length_take_of_le hlen
    have hmade := ih (fun e he => hbounds e (List.mem_cons_of_mem _ he)) hrest hfirst
    rw [List.foldr_cons, hmade, applyOne, rendered, Nat.max_eq_right (by omega),
      List.take_append_of_le_length (by omega), List.take_take, Nat.min_eq_left hle,
      List.drop_left' htake, ← List.append_assoc, ← List.append_assoc, take_append_range hstart]

theorem firstOverlap?_eq_none (hapart : edits.Pairwise fun a b => a.stop ≤ b.start) :
    firstOverlap? edits = none := by
  induction edits with
  | nil => rfl
  | cons a rest ih =>
    obtain ⟨hfirst, hrest⟩ := List.pairwise_cons.1 hapart
    rcases rest with - | ⟨b, rest⟩
    · rfl
    · rw [firstOverlap?, if_neg (Nat.not_lt.2 (hfirst b List.mem_cons_self))]
      exact ih hrest

theorem fits_iff : edit.fits text = true ↔ edit.start ≤ edit.stop ∧ edit.stop ≤ text.length ∧
    text.isBoundary edit.start = true ∧ text.isBoundary edit.stop = true := by
  simp only [fits, Bool.and_eq_true, decide_eq_true_eq, and_assoc]

/-- Edits that fit and, in their order, stand apart can be made. -/
theorem applyBytes_eq_rendered (hfits : ∀ edit ∈ edits, edit.fits text = true)
    (hapart : (sorted edits).Pairwise fun a b => a.stop ≤ b.start) :
    applyBytes text edits = .ok (rendered text 0 (sorted edits)) := by
  have hfits' : ∀ edit ∈ sorted edits, edit.fits text = true := fun edit hedit =>
    hfits edit (mem_sorted.1 hedit)
  have hbounds : ∀ edit ∈ sorted edits, edit.start ≤ edit.stop ∧ edit.stop ≤ text.length := by
    intro edit hedit
    obtain ⟨hle, hlen, -⟩ := fits_iff.1 (hfits' edit hedit)
    exact ⟨hle, hlen⟩
  have hfound : (sorted edits).find? (!·.fits text) = none :=
    List.find?_eq_none.2 fun edit hedit => by simp [hfits' edit hedit]
  simp only [applyBytes, hfound, firstOverlap?_eq_none hapart]
  rw [foldr_applyOne_eq hbounds hapart fun _ _ => Nat.zero_le _, List.take_zero, List.nil_append]

/-- Edits that stand apart are in order. -/
theorem sorted_of_apart (hle : ∀ edit ∈ edits, edit.start ≤ edit.stop)
    (hapart : edits.Pairwise fun a b => a.stop ≤ b.start) : sorted edits = edits := by
  refine List.mergeSort_of_pairwise (List.Pairwise.imp_of_mem ?_ hapart)
  intro a b ha hb hab
  have hale := hle a ha
  have hble := hle b hb
  simp only [precedes, Bool.or_eq_true, Bool.and_eq_true, decide_eq_true_eq, beq_iff_eq]
  omega

/-- Edits that stand apart can be made. -/
theorem applyBytes_of_apart (hproper : ∀ edit ∈ edits, edit.Proper ∧ edit.fits text = true)
    (hapart : edits.Pairwise fun a b => a.stop ≤ b.start) :
    applyBytes text edits = .ok (rendered text 0 edits) := by
  have hsorted := sorted_of_apart (fun edit hedit => (hproper edit hedit).1.le) hapart
  have hmade := applyBytes_eq_rendered (fun edit hedit => (hproper edit hedit).2)
    (hsorted.symm ▸ hapart)
  rwa [hsorted] at hmade

/-! ## Merging edits -/

/-- Two edits, one behind the other, are merged into one, and what they make of a text stays the
    same. -/
structure Merges (last edit joined : TextEdit) : Prop where
  join_eq : join last edit = .merged joined
  proper : joined.Proper
  start_eq : joined.start = last.start
  follows : ∀ b, last.Follows b → edit.Follows b → joined.Follows b
  rendered_eq : ∀ text pos rest,
    rendered text pos (joined :: rest) = rendered text pos (last :: edit :: rest)

theorem merges_delete {start stop start' stop' : Nat} (hle : start ≤ stop)
    (htouch : start' ≤ stop) :
    Merges (.delete start stop) (.delete start' stop') (.delete start (max stop stop')) := by
  refine ⟨if_pos htouch, hle.trans (le_max_left _ _), rfl, ?_, ?_⟩
  · rintro b ⟨hb, hb'⟩ ⟨-, hb''⟩
    refine ⟨hb, ?_⟩
    rcases hb' with hb' | ⟨-, hdel⟩
    · rcases hb'' with hb'' | ⟨-, hdel⟩
      · exact .inl (max_le hb' hb'')
      · exact .inr ⟨rfl, hdel⟩
    · exact .inr ⟨rfl, hdel⟩
  · intro text pos rest
    simp only [rendered, TextEdit.start, TextEdit.stop, newText, utf8_empty, List.append_nil]
    rw [range_of_le (htouch.trans (le_max_right _ _)), List.nil_append, max_assoc]

theorem merges_insert (place : Nat) (new new' : String) :
    Merges (.insert place new) (.insert place new') (.insert place (new ++ new')) := by
  refine ⟨if_pos rfl, trivial, rfl, fun b hb _ => hb, ?_⟩
  intro text pos rest
  simp only [rendered, TextEdit.start, TextEdit.stop, newText, utf8_append]
  rw [range_of_le (le_max_right _ _), max_assoc, max_self]
  simp only [List.append_assoc, List.nil_append]

/-- An edit that follows another is merged with it or stands apart from it. -/
theorem join_of_follows (hlast : last.Proper) (h : last.Follows edit) :
    (join last edit = .apart ∧ last.stop ≤ edit.start) ∨ ∃ joined, Merges last edit joined := by
  -- Only deletions may overlap, so that all others stand apart if they are not at one place.
  have hother : last.stop ≤ edit.start → edit ≠ last → (if edit = last then Joined.merged last
      else if edit.start < last.stop then Joined.conflicting else Joined.apart) = .apart :=
    fun hle hne => by rw [if_neg hne, if_neg (Nat.not_lt.2 hle)]
  obtain ⟨hstart, hstop⟩ := h
  cases last with
  | delete start stop =>
    cases edit with
    | delete start' stop' =>
      by_cases htouch : start' ≤ stop
      · exact .inr ⟨_, merges_delete hlast htouch⟩
      · refine .inl ⟨?_, Nat.le_of_not_le htouch⟩
        simp only [join, if_neg htouch]
        refine hother (Nat.le_of_not_le htouch) fun heq => htouch ?_
        cases heq
        exact hlast
    | insert place new | replace start' stop' new =>
      have hle := hstop.elim id fun h => absurd h (by simp [isDeletion])
      exact .inl ⟨hother hle (by simp), hle⟩
  | insert place new =>
    cases edit with
    | insert place' new' =>
      by_cases hplace : place = place'
      · subst hplace
        exact .inr ⟨_, merges_insert place new new'⟩
      · have hle : place ≤ place' := hstart
        refine .inl ⟨?_, hle⟩
        simp only [join, if_neg hplace]
        exact hother hle fun heq => hplace (by cases heq; rfl)
    | delete start stop | replace start stop new' => exact .inl ⟨hother hstart (by simp), hstart⟩
  | replace start stop new =>
    have hle := hstop.elim id fun h => absurd h.1 (by simp [isDeletion])
    cases edit with
    | replace start' stop' new' =>
      refine .inl ⟨hother hle fun heq => ?_, hle⟩
      cases heq
      exact absurd hle (Nat.not_le.2 hlast)
    | insert place new' | delete start' stop' => exact .inl ⟨hother hle (by simp), hle⟩

/-- Edits that follow one another can be merged, so that they stand apart. -/
theorem joinFrom_of_follows (hproper : ∀ edit ∈ last :: rest, edit.Proper)
    (h : (last :: rest).Pairwise Follows) :
    ∃ out, joinFrom last rest = .ok out ∧ (∀ edit ∈ out, edit.Proper ∧ last.start ≤ edit.start) ∧
      out.Pairwise (fun a b => a.stop ≤ b.start) ∧
      ∀ text pos, rendered text pos out = rendered text pos (last :: rest) := by
  induction rest generalizing last with
  | nil =>
    exact ⟨[last], rfl, by simpa using hproper, List.pairwise_singleton _ _, fun _ _ => rfl⟩
  | cons edit rest ih =>
    obtain ⟨hlast, hrest⟩ := List.pairwise_cons.1 h
    have hfollows := hlast edit List.mem_cons_self
    have hproper' : ∀ e ∈ edit :: rest, e.Proper := fun e he =>
      hproper e (List.mem_cons_of_mem _ he)
    rcases join_of_follows (hproper _ List.mem_cons_self) hfollows
      with ⟨hjoin, hle⟩ | ⟨joined, hjoin, hjoined, hstart, hbehind, hsame⟩
    · obtain ⟨out, hout, hbounds, hapart, hrender⟩ := ih hproper' hrest
      refine ⟨last :: out, ?_, ?_, ?_, ?_⟩
      · simp only [joinFrom, hjoin, hout]
        rfl
      · refine List.forall_mem_cons.2 ⟨⟨hproper _ List.mem_cons_self, le_rfl⟩, fun e he => ?_⟩
        exact ⟨(hbounds e he).1, hfollows.1.trans (hbounds e he).2⟩
      · exact List.pairwise_cons.2 ⟨fun e he => hle.trans (hbounds e he).2, hapart⟩
      · intro text pos
        rw [rendered, hrender, ← rendered]
    · have hpair : (joined :: rest).Pairwise Follows :=
        List.pairwise_cons.2 ⟨fun b hb => hbehind b (hlast b (List.mem_cons_of_mem _ hb))
          (List.rel_of_pairwise_cons hrest hb), (List.pairwise_cons.1 hrest).2⟩
      obtain ⟨out, hout, hbounds, hapart, hrender⟩ := ih
        (List.forall_mem_cons.2 ⟨hjoined, fun e he => hproper' e (List.mem_cons_of_mem _ he)⟩)
        hpair
      refine ⟨out, ?_, fun e he => hstart ▸ hbounds e he, hapart, fun text pos => ?_⟩
      · simp only [joinFrom, hjoin, hout]
      · rw [hrender, hsame]

/-- The order of edits is fixed if no two have one place. -/
theorem sorted_of_perm (hperm : edits.Perm out)
    (hstrict : out.Pairwise fun a b =>
      a.start < b.start ∨ (a.start = b.start ∧ a.stop < b.stop)) : sorted edits = out := by
  have hle : ∀ {a b : TextEdit}, precedes a b = true ↔
      a.start < b.start ∨ (a.start = b.start ∧ a.stop ≤ b.stop) := by
    simp [precedes]
  have hout : out.Pairwise fun a b => precedes a b = true :=
    hstrict.imp fun h => hle.2 (by omega)
  have hsorted : (sorted edits).Pairwise fun a b => precedes a b = true :=
    List.pairwise_mergeSort (fun a b c hab hbc => by rw [hle] at *; omega)
      (fun a b => by rw [Bool.or_eq_true, hle, hle]; omega) edits
  have hsort : (sorted edits).Perm out := (List.mergeSort_perm edits precedes).trans hperm
  refine List.Perm.eq_of_pairwise (fun a b ha hb hab hba => ?_) hsorted hout hsort
  -- Two different edits of `out` have different places.
  obtain ⟨i, hi, rfl⟩ := List.getElem_of_mem (hsort.mem_iff.1 ha)
  obtain ⟨j, hj, rfl⟩ := List.getElem_of_mem hb
  have hget := List.pairwise_iff_getElem.1 hstrict
  rw [hle] at hab hba
  rcases Nat.lt_trichotomy i j with hij | rfl | hij
  · have := hget i j hi hj hij
    omega
  · rfl
  · have := hget j i hj hi hij
    omega

/-- Edits that follow one another can be merged, in whichever order they are given, and what they
    make of a text stays the same. -/
theorem normalize_of_perm (hperm : edits.Perm out) (hproper : ∀ edit ∈ out, edit.Proper)
    (hfollows : out.Pairwise Follows)
    (hstrict : out.Pairwise fun a b =>
      a.start < b.start ∨ (a.start = b.start ∧ a.stop < b.stop)) :
    ∃ merged, normalize edits = .ok merged ∧ (∀ edit ∈ merged, edit.Proper) ∧
      merged.Pairwise (fun a b => a.stop ≤ b.start) ∧
      ∀ text, rendered text 0 merged = rendered text 0 out := by
  rw [normalize, sorted_of_perm hperm hstrict]
  cases out with
  | nil => exact ⟨[], rfl, fun _ h => absurd h List.not_mem_nil, List.Pairwise.nil, fun _ => rfl⟩
  | cons last rest =>
    obtain ⟨merged, hmerged, hbounds, hapart, hrender⟩ := joinFrom_of_follows hproper hfollows
    exact ⟨merged, hmerged, fun e he => (hbounds e he).1, hapart, fun text => hrender text 0⟩

end Statechart.TextEdit
