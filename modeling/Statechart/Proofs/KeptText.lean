import Statechart.Proofs.Editors
import Statechart.Proofs.EntryEdits
import Statechart.Proofs.TextEdits
import Statechart.Proofs.TreeEquality

/-!
# The text of kept entries

A draft keeps an entry of the machine when it has it unchanged, in its place in a literal that
is kept in its place too. The text edits should lie inside the machine and leave the text of
kept entries alone.

Edits within a line do so: they end where an entry starts, or start where one ends. Entries on
lines of their own are edited with the comment lines above them and with their tails, and those
are found by reading lines of text, not by where entries stand. So these edits decide.

* `InPlace`, `Kept`: what the draft keeps;
* `Spares`: an edit lies inside the machine and leaves what is kept alone;
* `behind_spares`: edits of the gap behind an entry do so;
* `Baseline.ownLineEdits`: the edits next to entries on lines of their own;
* `Editor.textEdits_spare_iff`: all edits spare what is kept just when these do.
-/

namespace Statechart

open Entry

/-! ## What a draft keeps -/

/-- Two nodes, of a tree and of its draft, that are one node in the same place: on the way to
    them, literals are literals of the same kind, and entries keep their place. -/
inductive InPlace : Expr → Expr → Expr → Expr → Prop
  | self {old new : Expr} : new.origin = old.origin → InPlace old new old new
  | inside {old new old' new' : Expr} {o n : Entry} : new.origin = old.origin →
      Baseline.sameContainer old new = true → KeepsPlace (ofExpr old) (ofExpr new) o n →
      InPlace o.value n.value old' new' → InPlace old new old' new'

/-- The draft keeps an entry unchanged, in a literal that is in its place. -/
def Kept (tree draft : Expr) (entry : Entry) : Prop :=
  ∃ old new, InPlace tree draft old new ∧ Baseline.sameContainer old new = true ∧
    KeepsPlace (ofExpr old) (ofExpr new) entry entry

/-- An edit that lies inside the tree, and neither changes nor inserts anything inside an entry
    that the draft keeps. -/
def Spares (tree draft : Expr) (edit : TextEdit) : Prop :=
  (∃ span, tree.span = some span ∧ edit.Within span) ∧
    ∀ entry place, Kept tree draft entry → entry.span = some place → ¬edit.Touches place

theorem InPlace.origin_eq {old new old' new' : Expr} (h : InPlace old new old' new') :
    new.origin = old.origin := by
  cases h with
  | self h => exact h
  | inside h => exact h

/-- What is kept is an entry of the literal, or is kept inside one that keeps its place. -/
theorem Kept.cases {old new : Expr} {entry : Entry} (h : Kept old new entry) :
    Baseline.sameContainer old new = true ∧
      (KeepsPlace (ofExpr old) (ofExpr new) entry entry ∨
        ∃ o n, KeepsPlace (ofExpr old) (ofExpr new) o n ∧ n.value.origin = o.value.origin ∧
          Kept o.value n.value entry) := by
  obtain ⟨old', new', hplace, hsame, hkeeps⟩ := h
  cases hplace with
  | self => exact ⟨hsame, .inl hkeeps⟩
  | inside _ hsame' hkeeps' hplace =>
    exact ⟨hsame', .inr ⟨_, _, hkeeps', hplace.origin_eq, _, _, hplace, hsame, hkeeps⟩⟩

theorem isLiteral_of_sameContainer {old new : Expr}
    (h : Baseline.sameContainer old new = true) : old.isLiteral = true := by
  cases old <;> cases new <;> first | rfl | exact absurd h (by simp [Baseline.sameContainer])

/-- The value of a well-placed entry stands inside it. -/
theorem Entry.value_inside {entry : Entry} {place : Span} (hspan : entry.span = some place)
    (h : entry.partsPlaced = true) :
    ∃ span, entry.value.span = some span ∧ place.start ≤ span.start ∧ span.stop ≤ place.stop := by
  cases entry with
  | item e => exact ⟨place, hspan, le_rfl, le_rfl⟩
  | prop p =>
    have hspan' : p.origin.span = some place := hspan
    simp only [partsPlaced, Expr.partsPlaced, hspan'] at h
    cases hvalue : p.value.span with
    | none => simp [hvalue] at h
    | some span =>
      simp only [hvalue, Span.inside, Bool.and_eq_true, decide_eq_true_eq] at h
      exact ⟨span, hvalue, h.1.1, h.1.2⟩

/-- What is kept stands inside the tree. -/
theorem Kept.inside {old new : Expr} {entry : Entry} {span : Span} (hspan : old.span = some span)
    (hplaced : old.wellPlaced = true) (h : Kept old new entry) :
    ∃ place, entry.span = some place ∧ span.start ≤ place.start ∧ place.start < place.stop ∧
      place.stop ≤ span.stop := by
  obtain ⟨old', new', hplace, hsame, hkeeps⟩ := h
  induction hplace generalizing span with
  | self =>
    obtain ⟨_, hspan', hentries, -⟩ :=
      Expr.wellPlaced_literal (isLiteral_of_sameContainer hsame) hplaced
    obtain rfl := Option.some.inj (hspan'.symm.trans hspan)
    exact hentries.inside entry hkeeps.mem.1
  | inside _ hsame' hkeeps' _ ih =>
    obtain ⟨_, hspan', hentries, hparts⟩ :=
      Expr.wellPlaced_literal (isLiteral_of_sameContainer hsame') hplaced
    obtain rfl := Option.some.inj (hspan'.symm.trans hspan)
    have hmem := hkeeps'.mem.1
    obtain ⟨outer, houter, hstart, -, hstop⟩ := hentries.inside _ hmem
    obtain ⟨inner, hinner, hstart', hstop'⟩ := value_inside houter (hparts _ hmem).1
    obtain ⟨place, hp, hpstart, hne, hpstop⟩ := ih hinner (hparts _ hmem).2 hsame hkeeps
    exact ⟨place, hp, by omega, hne, by omega⟩

/-- An edit spares what a literal keeps if it lies apart from each entry that keeps its place,
    or if it spares what is kept inside that entry and the entry itself is not unchanged. -/
theorem spares_of_entries {old new : Expr} {span : Span} {edit : TextEdit}
    (hspan : old.span = some span) (hplaced : old.wellPlaced = true) (hwithin : edit.Within span)
    (h : ∀ o n place, KeepsPlace (ofExpr old) (ofExpr new) o n → o.span = some place →
      (edit.stop ≤ place.start ∨ place.stop ≤ edit.start) ∨
        o ≠ n ∧ (n.value.origin = o.value.origin → ∀ entry inner, Kept o.value n.value entry →
          entry.span = some inner → ¬edit.Touches inner)) :
    Spares old new edit := by
  refine ⟨⟨span, hspan, hwithin⟩, fun entry place hkept hentry htouch => ?_⟩
  obtain ⟨hsame, hcases⟩ := hkept.cases
  obtain ⟨_, hspan', hentries, hparts⟩ :=
    Expr.wellPlaced_literal (isLiteral_of_sameContainer hsame) hplaced
  obtain ⟨hleft, hright⟩ := htouch
  -- What is kept further inside stands inside an entry of this literal that keeps its place.
  rcases hcases with hkeeps | ⟨o, n, hkeeps, horigin, hkept⟩
  · rcases h entry entry place hkeeps hentry with hapart | ⟨hne, -⟩
    · omega
    · exact hne rfl
  · have hmem := hkeeps.mem.1
    obtain ⟨outer, houter, -⟩ := hentries.inside o hmem
    rcases h o n outer hkeeps houter with hapart | ⟨-, hinner⟩
    · obtain ⟨value, hvalue, hvstart, hvstop⟩ := value_inside houter (hparts o hmem).1
      obtain ⟨place', hplace', hstart, hne, hstop⟩ := hkept.inside hvalue (hparts o hmem).2
      obtain rfl := Option.some.inj (hplace'.symm.trans hentry)
      omega
    · exact hinner horigin entry place hkept hentry ⟨hleft, hright⟩

/-! ## Gaps -/

namespace Entry

/-- Where the gap behind the entry at position `i` of a literal ends: at the next entry, or at
    the end of the literal. -/
def gapEnd (span : Span) (entries : List Entry) (i : Nat) : Nat :=
  ((entries[i + 1]?.bind (·.span)).map (·.start)).getD span.stop

variable {span place : Span} {entries : List Entry} {i j : Nat} {entry : Entry}

theorem gapEnd_eq {next : Entry} {t : Span} (hnext : entries[i + 1]? = some next)
    (ht : next.span = some t) : gapEnd span entries i = t.start := by
  rw [gapEnd, hnext, Option.bind_some, ht]
  rfl

theorem gapEnd_of_none (hnext : entries[i + 1]? = none) : gapEnd span entries i = span.stop := by
  rw [gapEnd, hnext]
  rfl

/-- The gap behind an entry starts where the entry ends, and lies inside the literal. -/
theorem Placed.gapEnd_mem (h : Placed span entries) (hi : entries[i]? = some entry)
    (hplace : entry.span = some place) :
    place.stop ≤ gapEnd span entries i ∧ gapEnd span entries i ≤ span.stop := by
  cases hnext : entries[i + 1]? with
  | none =>
    obtain ⟨s, hs, -, -, hstop⟩ := h.inside entry (List.mem_of_getElem? hi)
    obtain rfl := Option.some.inj (hs.symm.trans hplace)
    rw [gapEnd_of_none hnext]
    exact ⟨hstop, le_rfl⟩
  | some next =>
    obtain ⟨t, ht, -, hne, hstop⟩ := h.inside next (List.mem_of_getElem? hnext)
    rw [gapEnd_eq hnext ht]
    exact ⟨h.stop_le (Nat.lt_succ_self i) hi hnext hplace ht, hne.le.trans hstop⟩

/-- The entries further on stand behind the gap. -/
theorem Placed.gapEnd_le (h : Placed span entries) (hij : i < j) (hj : entries[j]? = some entry)
    (hplace : entry.span = some place) : gapEnd span entries i ≤ place.start := by
  have hlength := (List.getElem?_eq_some_iff.1 hj).1
  have hnext := List.getElem?_eq_getElem (show i + 1 < entries.length by omega)
  obtain ⟨t, ht, -, hne, -⟩ := h.inside _ (List.mem_of_getElem? hnext)
  rw [gapEnd_eq hnext ht]
  rcases Nat.lt_or_eq_of_le (Nat.succ_le_of_lt hij) with hlt | rfl
  · exact hne.le.trans (h.stop_le hlt hnext hj ht hplace)
  · obtain rfl := Option.some.inj (hnext.symm.trans hj)
    obtain rfl := Option.some.inj (ht.symm.trans hplace)
    exact le_rfl

end Entry

/-- An edit of the gap behind an entry spares what is kept, also when it takes the entry along
    and that is not kept. -/
theorem behind_spares {old new : Expr} {span : Span} (hspan : old.span = some span)
    (hplaced : old.wellPlaced = true) (hsame : Baseline.sameContainer old new = true) {i : Nat}
    {entry : Entry} {place : Span} (hi : (ofExpr old)[i]? = some entry)
    (hplace : entry.span = some place) {edit : TextEdit}
    (hleft : place.stop ≤ edit.start ∨
      i ∉ Splice.keptPositions (ofExpr old) (ofExpr new) ∧ place.start ≤ edit.start)
    (hright : edit.stop ≤ gapEnd span (ofExpr old) i) : Spares old new edit := by
  obtain ⟨_, hspan', hentries, -⟩ :=
    Expr.wellPlaced_literal (isLiteral_of_sameContainer hsame) hplaced
  obtain rfl := Option.some.inj (hspan'.symm.trans hspan)
  obtain ⟨s, hs, hstart, hne, hstop⟩ := hentries.inside entry (List.mem_of_getElem? hi)
  obtain rfl := Option.some.inj (hs.symm.trans hplace)
  have hgap := (hentries.gapEnd_mem hi hplace).2
  refine spares_of_entries hspan hplaced ⟨by omega, hright.trans hgap⟩ fun o n t hkeeps ht => .inl ?_
  obtain ⟨j, hj⟩ := List.mem_iff_getElem?.1 hkeeps.mem.1
  rcases Nat.lt_trichotomy j i with hlt | rfl | hgt
  · have hbefore := hentries.stop_le hlt hj hi ht hplace
    omega
  · obtain rfl := Option.some.inj (hi.symm.trans hj)
    obtain rfl := Option.some.inj (hplace.symm.trans ht)
    rcases hleft with hleft | ⟨hnot, -⟩
    · exact .inr hleft
    · exact absurd ((Splice.mem_kept_iff hentries hi).2 ⟨n, hkeeps⟩) hnot
  · exact .inl (hright.trans (hentries.gapEnd_le hgt hj ht))

/-! ## Edits on lines of their own -/

namespace Baseline

open Splice

variable (baseline : Baseline)

/-- Whether an entry of a literal starts and ends lines of a text. -/
def standsAlone (span place : Span) : Bool :=
  Text.spansLines baseline.source span.start span.stop
    && Text.startsLine baseline.source place.start
    && followsLineFeed baseline.source (Text.itemTailEnd baseline.source place.stop)

/-- The deletions of entries on lines of their own. -/
def ownLineRemovals (span : Span) (old new : List Entry) : List TextEdit :=
  old.zipIdx.flatMap fun (entry, i) =>
    match entry.span with
    | some place =>
      if (keptPositions old new).contains i then []
      else if baseline.standsAlone span place then
        deletion baseline.source true (!((matching old new).getLast? == some none)) old
          (keptPositions old new) i place
      else []
    | none => []

/-- Where new entries are inserted next to entries on lines of their own. -/
def ownLineInsertions (span : Span) (first : Nat) (old new : List Entry) : List TextEdit :=
  (runs (new.zip (matching old new))).flatMap fun (anchor, _) =>
    match old[anchor.getD first]?.bind (·.span) with
    | some place =>
      if Text.spansLines baseline.source span.start span.stop
          && Text.startsLine baseline.source place.start then
        baseline.insertionAt span anchor place []
      else []
    | none => []

/-- The edits of a literal next to entries on lines of their own, less the new text. -/
def ownLineEdits (old new : Expr) : List TextEdit :=
  match sameContainer old new, old.span, keptPositions (ofExpr old) (ofExpr new) with
  | true, some span, first :: _ =>
    baseline.ownLineRemovals span (ofExpr old) (ofExpr new)
      ++ baseline.ownLineInsertions span first (ofExpr old) (ofExpr new)
  | _, _, _ => []

variable {baseline} {span : Span} {old new : Expr}

/-- A choice made for the entries of a literal that have a place and are not kept. -/
theorem mem_flatMap_placed {entries : List Entry} {kept : List Nat}
    {f : Nat → Span → List TextEdit} {edit : TextEdit} :
    edit ∈ (entries.zipIdx.flatMap fun (entry, i) =>
        match entry.span with
        | some place => if kept.contains i then [] else f i place
        | none => []) ↔
      ∃ i entry place, entries[i]? = some entry ∧ entry.span = some place ∧ i ∉ kept ∧
        edit ∈ f i place := by
  simp only [List.mem_flatMap, Prod.exists, List.mk_mem_zipIdx_iff_getElem?]
  constructor
  · rintro ⟨entry, i, hi, hedit⟩
    split at hedit
    · next place hplace =>
      split at hedit
      · exact absurd hedit List.not_mem_nil
      · next hkept =>
        exact ⟨i, entry, place, hi, hplace, fun h => hkept (List.contains_iff_mem.2 h), hedit⟩
    · exact absurd hedit List.not_mem_nil
  · rintro ⟨i, entry, place, hi, hplace, hkept, hedit⟩
    refine ⟨entry, i, hi, ?_⟩
    simp only [hplace]
    rwa [if_neg (fun h => hkept (List.contains_iff_mem.1 h))]

theorem mem_ownLineRemovals {entries entries' : List Entry} {edit : TextEdit} :
    edit ∈ baseline.ownLineRemovals span entries entries' ↔
      ∃ i entry place, entries[i]? = some entry ∧ entry.span = some place ∧
        i ∉ keptPositions entries entries' ∧ baseline.standsAlone span place = true ∧
        edit ∈ deletion baseline.source true (!((matching entries entries').getLast? == some none))
          entries (keptPositions entries entries') i place := by
  refine (mem_flatMap_placed (f := fun i place => if baseline.standsAlone span place then
    deletion baseline.source true (!((matching entries entries').getLast? == some none)) entries
      (keptPositions entries entries') i place else [])).trans ?_
  simp only [List.mem_ite_nil_right]

/-- The deletions are those of entries on lines of their own and those within a line. -/
theorem mem_removals {entries entries' : List Entry} {edit : TextEdit} :
    edit ∈ baseline.removals span entries entries' ↔
      edit ∈ baseline.ownLineRemovals span entries entries' ∨
        ∃ i entry place, entries[i]? = some entry ∧ entry.span = some place ∧
          i ∉ keptPositions entries entries' ∧ baseline.standsAlone span place = false ∧
          edit = inlineDeletion entries (keptPositions entries entries') i place := by
  have hdeletion : ∀ i place, edit ∈ (deletion baseline.source
      (Text.spansLines baseline.source span.start span.stop)
      (Text.spansLines baseline.source span.start span.stop
        && !((matching entries entries').getLast? == some none))
      entries (keptPositions entries entries') i place) ↔
      (baseline.standsAlone span place = true ∧ edit ∈ deletion baseline.source true
        (!((matching entries entries').getLast? == some none))
        entries (keptPositions entries entries') i place) ∨
      (baseline.standsAlone span place = false ∧
        edit = inlineDeletion entries (keptPositions entries entries') i place) := by
    intro i place
    cases hline : Text.spansLines baseline.source span.start span.stop with
    | false => simp [deletion, standsAlone, hline]
    | true =>
      simp only [deletion, standsAlone, hline, Bool.true_and]
      split <;> simp_all
  rw [mem_ownLineRemovals]
  refine (mem_flatMap_placed (f := deletion baseline.source _ _ entries _)).trans ?_
  simp only [hdeletion]
  constructor
  · rintro ⟨i, entry, place, hi, hplace, hkept, hedit | hedit⟩
    · exact .inl ⟨i, entry, place, hi, hplace, hkept, hedit⟩
    · exact .inr ⟨i, entry, place, hi, hplace, hkept, hedit⟩
  · rintro (⟨i, entry, place, hi, hplace, hkept, hedit⟩ | ⟨i, entry, place, hi, hplace, hkept, hedit⟩)
    · exact ⟨i, entry, place, hi, hplace, hkept, .inl hedit⟩
    · exact ⟨i, entry, place, hi, hplace, hkept, .inr hedit⟩

theorem mem_ownLineInsertions {first : Nat} {entries entries' : List Entry} {edit : TextEdit} :
    edit ∈ baseline.ownLineInsertions span first entries entries' ↔
      ∃ anchor run place, (anchor, run) ∈ runs (entries'.zip (matching entries entries')) ∧
        entries[anchor.getD first]?.bind (·.span) = some place ∧
        (Text.spansLines baseline.source span.start span.stop
          && Text.startsLine baseline.source place.start) = true ∧
        edit ∈ baseline.insertionAt span anchor place [] := by
  simp only [ownLineInsertions, List.mem_flatMap, Prod.exists]
  constructor
  · rintro ⟨anchor, run, hrun, hedit⟩
    split at hedit
    · next place hplace =>
      exact ⟨anchor, run, place, hrun, hplace, List.mem_ite_nil_right.1 hedit⟩
    · exact absurd hedit List.not_mem_nil
  · rintro ⟨anchor, run, place, hrun, hplace, hedit⟩
    refine ⟨anchor, run, hrun, ?_⟩
    simp only [hplace]
    exact List.mem_ite_nil_right.2 hedit

/-- A deletion within a line spares what is kept. -/
theorem inlineDeletion_spares (hspan : old.span = some span) (hplaced : old.wellPlaced = true)
    (hsame : sameContainer old new = true) {i : Nat} {entry : Entry} {place : Span}
    (hi : (ofExpr old)[i]? = some entry) (hplace : entry.span = some place)
    (hkept : i ∉ keptPositions (ofExpr old) (ofExpr new)) :
    Spares old new
      (inlineDeletion (ofExpr old) (keptPositions (ofExpr old) (ofExpr new)) i place) := by
  obtain ⟨_, hspan', hentries, -⟩ :=
    Expr.wellPlaced_literal (isLiteral_of_sameContainer hsame) hplaced
  obtain rfl := Option.some.inj (hspan'.symm.trans hspan)
  have hgap := (hentries.gapEnd_mem hi hplace).1
  rw [inlineDeletion]
  split
  · -- The deletion ends where the next entry starts.
    refine behind_spares hspan hplaced hsame hi hplace (.inr ⟨hkept, le_rfl⟩) ?_
    cases hnext : (ofExpr old)[i + 1]? with
    | none => exact hgap
    | some next =>
      obtain ⟨t, ht, -⟩ := hentries.inside next (List.mem_of_getElem? hnext)
      rw [Option.bind_some, ht, gapEnd_eq hnext ht]
      exact le_rfl
  · next hafter =>
    split
    · -- The deletion starts where the kept entry before ends, and no other is kept behind that.
      next j hj =>
      have hji : j < i := by simpa using List.find?_some hj
      obtain ⟨before, hjo⟩ := exists_of_mem_kept hentries
        (List.mem_reverse.1 (List.mem_of_find?_eq_some hj))
      obtain ⟨u, hu, hustart, hune, -⟩ := hentries.inside before (List.mem_of_getElem? hjo)
      obtain ⟨s, hs, -, -, hstop⟩ := hentries.inside entry (List.mem_of_getElem? hi)
      obtain rfl := Option.some.inj (hs.symm.trans hplace)
      simp only [hjo, Option.bind_some, hu, Option.map_some, Option.getD_some]
      refine spares_of_entries hspan hplaced ⟨hustart.trans hune.le, hstop⟩
        fun o n t hkeeps ht => .inl (.inr ?_)
      obtain ⟨k, hk⟩ := List.mem_iff_getElem?.1 hkeeps.mem.1
      have hkkept := (mem_kept_iff hentries hk).2 ⟨n, hkeeps⟩
      have hki : k < i := by
        simp only [keepsAfter, List.any_eq_true, decide_eq_true_eq, not_exists, not_and] at hafter
        exact lt_of_le_of_ne (Nat.not_lt.1 (hafter k hkkept)) fun heq => hkept (heq ▸ hkkept)
      rcases Nat.lt_or_eq_of_le (le_of_keptBefore? hj hkkept hki) with hlt | rfl
      · exact (hentries.stop_le hlt hk hjo ht hu).trans hune.le
      · obtain rfl := Option.some.inj (hk.symm.trans hjo)
        obtain rfl := Option.some.inj (hu.symm.trans ht)
        exact le_rfl
    · exact behind_spares hspan hplaced hsame hi hplace (.inr ⟨hkept, le_rfl⟩) hgap

/-- An insertion at either end of an entry spares what is kept. -/
theorem insert_spares (hspan : old.span = some span) (hplaced : old.wellPlaced = true)
    (hsame : sameContainer old new = true) {entry : Entry} {place : Span}
    (hentry : entry ∈ ofExpr old) (hplace : entry.span = some place) {position : Nat}
    {newText : String} (hposition : position = place.start ∨ position = place.stop) :
    Spares old new (.insert position newText) := by
  obtain ⟨_, hspan', hentries, -⟩ :=
    Expr.wellPlaced_literal (isLiteral_of_sameContainer hsame) hplaced
  obtain rfl := Option.some.inj (hspan'.symm.trans hspan)
  obtain ⟨s, hs, hstart, hne, hstop⟩ := hentries.inside entry hentry
  obtain rfl := Option.some.inj (hs.symm.trans hplace)
  obtain ⟨i, hi⟩ := List.mem_iff_getElem?.1 hentry
  refine spares_of_entries hspan hplaced ?_ fun o n t hkeeps ht => .inl ?_
  · simp only [TextEdit.Within, TextEdit.start, TextEdit.stop]
    omega
  · obtain ⟨j, hj⟩ := List.mem_iff_getElem?.1 hkeeps.mem.1
    simp only [TextEdit.start, TextEdit.stop]
    by_cases hji : j = i
    · subst hji
      obtain rfl := Option.some.inj (hi.symm.trans hj)
      obtain rfl := Option.some.inj (ht.symm.trans hplace)
      omega
    · have := hentries.apart hji hj hi ht hplace
      omega

/-- Insertions within a line are made at either end of the entry. -/
theorem insertionAt_inline {place : Span} {anchor : Option Nat} {texts : List String}
    {edit : TextEdit}
    (hline : (Text.spansLines baseline.source span.start span.stop
      && Text.startsLine baseline.source place.start) = false)
    (hedit : edit ∈ baseline.insertionAt span anchor place texts) :
    ∃ position newText, edit = .insert position newText ∧
      (position = place.start ∨ position = place.stop) := by
  simp only [insertionAt, hline] at hedit
  split at hedit
  · simp only [insertionAfter, Bool.false_eq_true, if_false, List.mem_singleton] at hedit
    exact ⟨_, _, hedit, .inr rfl⟩
  · simp only [insertionBefore, Bool.false_eq_true, if_false, List.mem_singleton] at hedit
    exact ⟨_, _, hedit, .inl rfl⟩

/-- Where insertions are made does not depend on what is inserted. -/
theorem insertionAt_place {place : Span} {anchor : Option Nat} {edit : TextEdit}
    (texts texts' : List String) (hedit : edit ∈ baseline.insertionAt span anchor place texts) :
    ∃ edit' ∈ baseline.insertionAt span anchor place texts',
      edit'.start = edit.start ∧ edit'.stop = edit.stop := by
  have hplaces : (baseline.insertionAt span anchor place texts).map (fun e => (e.start, e.stop)) =
      (baseline.insertionAt span anchor place texts').map (fun e => (e.start, e.stop)) := by
    simp only [insertionAt, insertionAfter, insertionBefore]
    repeat' split
    all_goals rfl
  have hmem := List.mem_map_of_mem (f := fun e : TextEdit => (e.start, e.stop)) hedit
  rw [hplaces] at hmem
  obtain ⟨edit', hedit', heq⟩ := List.mem_map.1 hmem
  exact ⟨edit', hedit', congrArg Prod.fst heq, congrArg Prod.snd heq⟩

/-! ## Changes of kept entries -/

/-- The entries of two literals of one kind are of one kind. -/
theorem entries_of_sameContainer (hsame : sameContainer old new = true) {o n : Entry}
    (ho : o ∈ ofExpr old) (hn : n ∈ ofExpr new) :
    (∃ p q, o = .prop p ∧ n = .prop q) ∨ ∃ a b, o = .item a ∧ n = .item b := by
  cases old <;> cases new <;> simp only [sameContainer, Bool.false_eq_true] at hsame
  · obtain ⟨p, -, rfl⟩ := List.mem_map.1 ho
    obtain ⟨q, -, rfl⟩ := List.mem_map.1 hn
    exact .inl ⟨p, q, rfl, rfl⟩
  · obtain ⟨a, -, rfl⟩ := List.mem_map.1 ho
    obtain ⟨b, -, rfl⟩ := List.mem_map.1 hn
    exact .inr ⟨a, b, rfl, rfl⟩

/-- The edits of a kept entry are those of its key, if that has another name, and those of its
    value, which is replaced if it is another node. -/
theorem edits_planOfEntry {o n : Entry} {edits : List TextEdit}
    (hsame : sameContainer old new = true) (ho : o ∈ ofExpr old) (hn : n ∈ ofExpr new)
    (horigin : n.origin = o.origin) (h : (baseline.planOfEntry n).edits o = .ok edits) :
    ∃ keys values, edits = keys ++ values ∧
      (∀ edit ∈ keys, ∃ p q key newText, o = .prop p ∧ n = .prop q ∧ p.keySpan = some key ∧
        p.key ≠ q.key ∧ edit = .replace key.start key.stop newText) ∧
      ((n.value.origin = o.value.origin ∧ (baseline.planOf n.value).edits o.value = .ok values) ∨
        n.value.origin ≠ o.value.origin ∧ ∀ edit ∈ values, ∃ span newText,
          o.value.span = some span ∧ edit = .replace span.start span.stop newText) := by
  rcases entries_of_sameContainer hsame ho hn with ⟨p, q, rfl, rfl⟩ | ⟨a, b, rfl, rfl⟩
  · have h : baseline.propEdits p q.key (baseline.planOf q.value) = .ok edits := h
    have hkeys : ∀ edit ∈ baseline.keyEdits p q.key, ∃ p' q' key newText, Entry.prop p = .prop p' ∧
        Entry.prop q = .prop q' ∧ p'.keySpan = some key ∧ p'.key ≠ q'.key ∧
        edit = .replace key.start key.stop newText := by
      intro edit hedit
      rw [keyEdits] at hedit
      split at hedit
      · next key hkey =>
        split at hedit
        · exact absurd hedit List.not_mem_nil
        · next hne => exact ⟨p, q, key, _, rfl, rfl, hkey, hne, List.mem_singleton.1 hedit⟩
      · exact absurd hedit List.not_mem_nil
    -- Behind the key comes the value: one that is kept is edited in place, one that is new replaces
    -- the old one.
    rw [propEdits, node_planOf] at h
    split at h
    · next heq =>
      obtain ⟨values, hvalues, h⟩ := bind_eq_ok.1 h
      cases h
      exact ⟨_, values, rfl, hkeys, .inl ⟨heq.symm, hvalues⟩⟩
    · next hne =>
      have hne' : q.value.origin ≠ p.value.origin := fun heq => hne heq.symm
      split at h
      · next span hspan =>
        obtain ⟨newText, -, h⟩ := bind_eq_ok.1 h
        cases h
        exact ⟨_, _, rfl, hkeys, .inr ⟨hne', fun edit hedit =>
          ⟨span, newText, hspan, List.mem_singleton.1 hedit⟩⟩⟩
      · cases h
        exact ⟨_, _, rfl, hkeys, .inr ⟨hne', fun edit hedit => absurd hedit List.not_mem_nil⟩⟩
  · exact ⟨[], edits, rfl, fun edit hedit => absurd hedit List.not_mem_nil, .inl ⟨horigin, h⟩⟩

/-- The values of entries are smaller than the literal. -/
theorem sizeOf_value_lt {expr : Expr} {entry : Entry} (h : entry ∈ ofExpr expr) :
    sizeOf entry.value < sizeOf expr := by
  cases expr with
  | object origin props =>
    obtain ⟨p, hp, rfl⟩ := List.mem_map.1 h
    have hmem := List.sizeOf_lt_of_mem hp
    have hvalue := Property.sizeOf_value_lt p
    simp only [Entry.value, Expr.object.sizeOf_spec]
    omega
  | array origin items =>
    obtain ⟨e, he, rfl⟩ := List.mem_map.1 h
    have hmem := List.sizeOf_lt_of_mem he
    simp only [Entry.value, Expr.array.sizeOf_spec]
    omega
  | _ => exact absurd h List.not_mem_nil

theorem sameContainer_self (expr : Expr) : sameContainer expr expr = expr.isLiteral := by
  cases expr <;> rfl

/-- Entries that are not changed have no edits, if their values have none. -/
theorem entryEdits_self {entries : List Entry} {place : Span} {fresh : String → Spliced String}
    (hentries : Placed place entries)
    (hchanges : ∀ entry ∈ entries, (baseline.planOfEntry entry).edits entry = .ok []) :
    baseline.entryEdits place entries (entries.map baseline.planOfEntry) fresh = .ok [] := by
  refine (entryEdits_of_each hentries rfl (f := fun _ _ => []) fun pair hpair => ?_).trans ?_
  · rw [List.zip_eq_zipWith, List.zipWith_self] at hpair
    obtain ⟨entry, hentry, rfl⟩ := List.mem_map.1 hpair
    exact hchanges entry hentry
  · simp

/-- An entry that is not changed has no edits, if its value has none. -/
theorem edits_planOfEntry_self {entry : Entry}
    (h : (baseline.planOf entry.value).edits entry.value = .ok []) :
    (baseline.planOfEntry entry).edits entry = .ok [] := by
  cases entry with
  | prop p => exact propEdits_of_origin rfl h
  | item e => exact h

/-- A tree that is not changed has no edits. -/
theorem edits_self {expr : Expr} (hplaced : expr.wellPlaced = true) :
    (baseline.planOf expr).edits expr = .ok [] := by
  obtain ⟨place, hspan⟩ := Expr.exists_span hplaced
  have hplan : ∀ (fresh : String → Spliced String) (entries : List EntryPlan),
      (expr.isLiteral = true →
        baseline.entryEdits place (ofExpr expr) entries fresh = .ok []) →
      (baseline.plan expr fresh entries).edits expr = .ok [] := by
    intro fresh entries hentries
    simp only [plan, hspan, isReusable, sameContainer_self, Expr.sameShape_refl, Bool.or_true,
      if_true]
    split
    · next hlit => exact hentries hlit
    · rfl
  have hentries : ∀ fresh : String → Spliced String, expr.isLiteral = true →
      baseline.entryEdits place (ofExpr expr) ((ofExpr expr).map baseline.planOfEntry) fresh =
        .ok [] := by
    intro fresh hlit
    obtain ⟨_, hspan', hentries, hparts⟩ := Expr.wellPlaced_literal hlit hplaced
    obtain rfl := Option.some.inj (hspan'.symm.trans hspan)
    refine entryEdits_self hentries fun entry hentry => edits_planOfEntry_self ?_
    have := sizeOf_value_lt hentry
    exact edits_self (hparts entry hentry).2
  cases expr with
  | object origin props =>
    rw [planOf, planOfProps_eq]
    exact hplan _ _ (hentries _)
  | array origin items =>
    rw [planOf, planOfItems_eq]
    exact hplan _ _ (hentries _)
  | _ => exact hplan _ _ fun hlit => absurd hlit (by simp [Expr.isLiteral, Expr.isObject,
      Expr.isArray, Expr.props?, Expr.items?])
termination_by sizeOf expr

/-! ## Which edits decide -/

theorem ownLineEdits_eq (hspan : old.span = some span) (hsame : sameContainer old new = true)
    {first : Nat} {rest : List Nat}
    (hkept : keptPositions (ofExpr old) (ofExpr new) = first :: rest) :
    baseline.ownLineEdits old new = baseline.ownLineRemovals span (ofExpr old) (ofExpr new)
      ++ baseline.ownLineInsertions span first (ofExpr old) (ofExpr new) := by
  rw [ownLineEdits, hspan, hsame, hkept]

/-- An edit inside an entry that keeps its place, and is changed, spares what is kept if it
    spares what is kept inside that entry. -/
theorem spares_of_entry (hspan : old.span = some span) (hplaced : old.wellPlaced = true)
    (hsame : sameContainer old new = true) {o n : Entry} {place : Span} {edit : TextEdit}
    (hkeeps : KeepsPlace (ofExpr old) (ofExpr new) o n) (hplace : o.span = some place)
    (hwithin : edit.Within place) (hne : o ≠ n)
    (hinner : n.value.origin = o.value.origin → ∀ entry inner, Kept o.value n.value entry →
      entry.span = some inner → ¬edit.Touches inner) :
    Spares old new edit := by
  obtain ⟨_, hspan', hentries, -⟩ :=
    Expr.wellPlaced_literal (isLiteral_of_sameContainer hsame) hplaced
  obtain rfl := Option.some.inj (hspan'.symm.trans hspan)
  obtain ⟨s, hs, hstart, -, hstop⟩ := hentries.inside o hkeeps.mem.1
  obtain rfl := Option.some.inj (hs.symm.trans hplace)
  obtain ⟨hleft, hright⟩ := hwithin
  refine spares_of_entries hspan hplaced ⟨by omega, by omega⟩ fun o' n' t hkeeps' ht => ?_
  obtain ⟨i, hi⟩ := List.mem_iff_getElem?.1 hkeeps.mem.1
  obtain ⟨j, hj⟩ := List.mem_iff_getElem?.1 hkeeps'.mem.1
  by_cases hji : j = i
  · subst hji
    obtain rfl := Option.some.inj (hi.symm.trans hj)
    obtain rfl := hkeeps.unique hentries hkeeps'
    exact .inr ⟨hne, hinner⟩
  · have := hentries.apart hji hj hi ht hplace
    exact .inl (by omega)

/-- The edits of a key that is renamed spare what is kept. -/
theorem key_spares (hspan : old.span = some span) (hplaced : old.wellPlaced = true)
    (hsame : sameContainer old new = true) {p q : Property} {key : Span} {newText : String}
    (hkeeps : KeepsPlace (ofExpr old) (ofExpr new) (.prop p) (.prop q))
    (hkey : p.keySpan = some key) (hne : p.key ≠ q.key) :
    Spares old new (.replace key.start key.stop newText) := by
  obtain ⟨_, -, hentries, hparts⟩ :=
    Expr.wellPlaced_literal (isLiteral_of_sameContainer hsame) hplaced
  obtain ⟨place, hplace, -⟩ := hentries.inside _ hkeeps.mem.1
  obtain ⟨hpart, hvalue⟩ := hparts _ hkeeps.mem.1
  have hplace' : p.origin.span = some place := hplace
  obtain ⟨value, hvspan⟩ := Expr.exists_span hvalue
  have hvspan' : p.value.span = some value := hvspan
  simp only [Entry.partsPlaced, Expr.partsPlaced, hplace', hvspan', Expr.keyPlaced, hkey,
    Span.inside, Bool.and_eq_true, Bool.or_eq_true, decide_eq_true_eq, Bool.not_eq_true'] at hpart
  obtain ⟨-, ⟨hstart, hstop⟩, hbefore⟩ := hpart
  refine spares_of_entry hspan hplaced hsame hkeeps hplace ⟨hstart, hstop⟩
    (fun heq => hne (by cases heq; rfl)) fun _ entry inner hkept hinner htouch => ?_
  -- What is kept inside the value stands behind the key.
  obtain ⟨s, hs, hsstart, -⟩ := hkept.inside hvspan hvalue
  obtain rfl := Option.some.inj (hs.symm.trans hinner)
  have hlit := isLiteral_of_sameContainer hkept.cases.1
  rcases hbefore with hbefore | hbefore
  · have := htouch.2
    simp only [TextEdit.stop] at this
    omega
  · exact absurd hlit (by simp only [Entry.value, hbefore, Bool.false_eq_true, not_false_eq_true])

variable (baseline) in
/-- The edit is made where one next to an entry on lines of its own is made. -/
def OwnLine (old new : Expr) (edit : TextEdit) : Prop :=
  ∃ old' new', InPlace old new old' new' ∧ ∃ edit' ∈ baseline.ownLineEdits old' new',
    edit'.start = edit.start ∧ edit'.stop = edit.stop

/-- The changes of an entry that keeps its place, from those of its value. -/
theorem change_spares (hspan : old.span = some span) (hplaced : old.wellPlaced = true)
    (horigin : new.origin = old.origin) (hsame : sameContainer old new = true) {o n : Entry}
    (hkeeps : KeepsPlace (ofExpr old) (ofExpr new) o n) {change : List TextEdit}
    (hchange : (baseline.planOfEntry n).edits o = .ok change) {edit : TextEdit}
    (hedit : edit ∈ change)
    (ih : ∀ edits, n.value.origin = o.value.origin →
      (baseline.planOf n.value).edits o.value = .ok edits → edit ∈ edits →
        Spares o.value n.value edit ∨ baseline.OwnLine o.value n.value edit) :
    Spares old new edit ∨ baseline.OwnLine old new edit := by
  obtain ⟨_, -, hentries, hparts⟩ :=
    Expr.wellPlaced_literal (isLiteral_of_sameContainer hsame) hplaced
  obtain ⟨ho, hn⟩ := hkeeps.mem
  obtain ⟨place, hplace, -⟩ := hentries.inside o ho
  obtain ⟨value, hvalue, hvstart, hvstop⟩ := value_inside hplace (hparts o ho).1
  obtain ⟨keys, values, rfl, hkeys, hvalues⟩ :=
    edits_planOfEntry hsame ho hn hkeeps.origin_eq hchange
  rcases List.mem_append.1 hedit with hedit | hedit
  · obtain ⟨p, q, key, newText, rfl, rfl, hkey, hne, rfl⟩ := hkeys edit hedit
    exact .inl (key_spares hspan hplaced hsame hkeeps hkey hne)
  rcases hvalues with ⟨hvorigin, hvalues⟩ | ⟨hvorigin, hvalues⟩
  · rcases ih values hvorigin hvalues hedit with
      ⟨⟨_, hvalue', hwithin⟩, hspares⟩ | ⟨old', new', hin, hedit'⟩
    · obtain rfl := Option.some.inj (hvalue'.symm.trans hvalue)
      refine .inl (spares_of_entry hspan hplaced hsame hkeeps hplace
        ⟨hvstart.trans hwithin.1, hwithin.2.trans hvstop⟩ ?_ fun _ => hspares)
      rintro rfl
      obtain rfl := Except.ok.inj (hvalues.symm.trans (edits_self (hparts o ho).2))
      exact List.not_mem_nil hedit
    · exact .inr ⟨old', new', .inside horigin hsame hkeeps hin, hedit'⟩
  · -- Another node stands for the value.
    obtain ⟨_, newText, hvalue', rfl⟩ := hvalues edit hedit
    obtain rfl := Option.some.inj (hvalue'.symm.trans hvalue)
    refine .inl (spares_of_entry hspan hplaced hsame hkeeps hplace ⟨hvstart, hvstop⟩
      ?_ fun heq => absurd heq hvorigin)
    rintro rfl
    exact hvorigin rfl

/-- The insertions of a run of new entries. -/
theorem insertion_spares (hspan : old.span = some span) (hplaced : old.wellPlaced = true)
    (horigin : new.origin = old.origin) (hsame : sameContainer old new = true) {first : Nat}
    {rest : List Nat} (hkept : keptPositions (ofExpr old) (ofExpr new) = first :: rest)
    {anchor : Option Nat} {run : List Entry}
    (hrun : (anchor, run) ∈ runs ((ofExpr new).zip (matching (ofExpr old) (ofExpr new))))
    {place : Span} (hplace : (ofExpr old)[anchor.getD first]?.bind (·.span) = some place)
    {texts : List String} {edit : TextEdit}
    (hedit : edit ∈ baseline.insertionAt span anchor place texts) :
    Spares old new edit ∨ baseline.OwnLine old new edit := by
  cases hline : Text.spansLines baseline.source span.start span.stop
      && Text.startsLine baseline.source place.start with
  | true =>
    obtain ⟨edit', hedit', hsamePlace⟩ := insertionAt_place texts [] hedit
    refine .inr ⟨old, new, .self horigin, edit', ?_, hsamePlace⟩
    rw [ownLineEdits_eq hspan hsame hkept]
    exact List.mem_append_right _
      (mem_ownLineInsertions.2 ⟨anchor, run, place, hrun, hplace, hline, hedit'⟩)
  | false =>
    obtain ⟨position, newText, rfl, hposition⟩ := insertionAt_inline hline hedit
    obtain ⟨entry, hentry, hplace⟩ := Option.bind_eq_some_iff.1 hplace
    exact .inl (insert_spares hspan hplaced hsame (List.mem_of_getElem? hentry) hplace hposition)

/-- Each edit of a node spares what is kept, or is made next to an entry on lines of its
    own. -/
theorem spares_or_ownLine {old new : Expr} (hplaced : old.wellPlaced = true)
    (horigin : new.origin = old.origin) {edits : List TextEdit}
    (h : (baseline.planOf new).edits old = .ok edits) {edit : TextEdit} (hedit : edit ∈ edits) :
    Spares old new edit ∨ baseline.OwnLine old new edit := by
  obtain ⟨span, hspan⟩ := Expr.exists_span hplaced
  rcases edits_planOf hspan h with ⟨hsame, fresh, h⟩ | ⟨hsame, rfl | ⟨-, newText, rfl⟩⟩
  · obtain ⟨_, hspan', hentries, -⟩ :=
      Expr.wellPlaced_literal (isLiteral_of_sameContainer hsame) hplaced
    obtain rfl := Option.some.inj (hspan'.symm.trans hspan)
    cases hkept : keptPositions (ofExpr old) (ofExpr new) with
    | nil =>
      -- No entry keeps its place.
      rcases entryEdits_of_kept_nil hkept h with rfl | ⟨-, newText, rfl⟩
      · exact absurd hedit List.not_mem_nil
      · obtain rfl := List.mem_singleton.1 hedit
        refine .inl (spares_of_entries hspan hplaced ⟨le_rfl, le_rfl⟩ fun o n t hkeeps _ => ?_)
        obtain ⟨i, hi⟩ := List.mem_iff_getElem?.1 hkeeps.mem.1
        have hmem := (mem_kept_iff hentries hi).2 ⟨n, hkeeps⟩
        exact absurd (hkept ▸ hmem) List.not_mem_nil
    | cons first rest =>
      obtain ⟨changes, insertions, hchanges, hinsertions, rfl⟩ := entryEdits_of_kept hkept h
      rcases List.mem_append.1 hedit with hedit | hedit
      · rcases List.mem_append.1 hedit with hedit | hedit
        · obtain ⟨change, hchange, hedit⟩ := List.mem_flatten.1 hedit
          obtain ⟨⟨n, i⟩, hmem, hchange⟩ := exists_of_mem_mapM hchanges hchange
          cases i with
          | none =>
            cases hchange
            exact absurd hedit List.not_mem_nil
          | some i =>
            obtain ⟨o, hi, hkeeps⟩ := keepsPlace_of_mem_zip hentries hmem
            simp only [Option.bind_some, hi] at hchange
            have hsize := sizeOf_value_lt hkeeps.mem.2
            have hvalue := (Expr.wellPlaced_literal (isLiteral_of_sameContainer hsame)
              hplaced).elim fun _ h => (h.2.2 o hkeeps.mem.1).2
            exact change_spares hspan hplaced horigin hsame hkeeps hchange hedit
              fun edits hvorigin hedits hedit => spares_or_ownLine hvalue hvorigin hedits hedit
        · rcases mem_removals.1 hedit with hedit | ⟨i, entry, place, hi, hplace, hi', -, rfl⟩
          · refine .inr ⟨old, new, .self horigin, edit, ?_, rfl, rfl⟩
            rw [ownLineEdits_eq hspan hsame hkept]
            exact List.mem_append_left _ hedit
          · exact .inl (inlineDeletion_spares hspan hplaced hsame hi hplace hi')
      · obtain ⟨insertion, hinsertion, hedit⟩ := List.mem_flatten.1 hedit
        obtain ⟨⟨anchor, run⟩, hrun, hinsertion⟩ := exists_of_mem_mapM hinsertions hinsertion
        dsimp only at hinsertion
        split at hinsertion
        · cases hinsertion
          exact absurd hedit List.not_mem_nil
        · next place hplace =>
          obtain ⟨texts, -, hinsertion⟩ := bind_eq_ok.1 hinsertion
          cases hinsertion
          exact insertion_spares hspan hplaced horigin hsame hkept hrun hplace hedit
  · exact absurd hedit List.not_mem_nil
  · obtain rfl := List.mem_singleton.1 hedit
    refine .inl ⟨⟨span, hspan, le_rfl, le_rfl⟩, fun entry place hkept _ _ => ?_⟩
    exact absurd hkept.cases.1 (by simp [hsame])
termination_by sizeOf new

/-- The edits of a literal next to entries on lines of their own are made. -/
theorem exists_edit_of_mem_ownLineEdits {old new : Expr} {edits : List TextEdit}
    (h : (baseline.planOf new).edits old = .ok edits) {edit' : TextEdit}
    (hedit' : edit' ∈ baseline.ownLineEdits old new) :
    ∃ edit ∈ edits, edit'.start = edit.start ∧ edit'.stop = edit.stop := by
  rw [ownLineEdits] at hedit'
  split at hedit'
  · next span first rest hsame hspan hkept =>
    rcases edits_planOf hspan h with ⟨-, fresh, h⟩ | ⟨hnot, -⟩
    · obtain ⟨changes, insertions, -, hinsertions, rfl⟩ := entryEdits_of_kept hkept h
      rcases List.mem_append.1 hedit' with hedit' | hedit'
      · exact ⟨edit', List.mem_append_left _ (List.mem_append_right _
          (mem_removals.2 (.inl hedit'))), rfl, rfl⟩
      · obtain ⟨anchor, run, place, hrun, hplace, -, hedit'⟩ := mem_ownLineInsertions.1 hedit'
        obtain ⟨insertion, hinsertion, hmade⟩ := exists_mem_of_mapM hinsertions hrun
        simp only [hplace] at hmade
        obtain ⟨texts, -, hmade⟩ := bind_eq_ok.1 hmade
        cases hmade
        obtain ⟨edit, hedit, hstart, hstop⟩ := insertionAt_place [] texts hedit'
        exact ⟨edit, List.mem_append_right _ (List.mem_flatten.2 ⟨_, hinsertion, hedit⟩),
          hstart.symm, hstop.symm⟩
    · exact absurd hsame (by simp [hnot])
  · exact absurd hedit' List.not_mem_nil

/-- The edits next to entries on lines of their own are made wherever literals are in their
    places. -/
theorem exists_edit_of_ownLine {old new old' new' : Expr} (hin : InPlace old new old' new')
    (hplaced : old.wellPlaced = true) {edits : List TextEdit}
    (h : (baseline.planOf new).edits old = .ok edits) {edit' : TextEdit}
    (hedit' : edit' ∈ baseline.ownLineEdits old' new') :
    ∃ edit ∈ edits, edit'.start = edit.start ∧ edit'.stop = edit.stop := by
  induction hin generalizing edits with
  | self => exact exists_edit_of_mem_ownLineEdits h hedit'
  | @inside old new old' new' o n _ hsame hkeeps hin ih =>
    obtain ⟨span, hspan, hentries, hparts⟩ :=
      Expr.wellPlaced_literal (isLiteral_of_sameContainer hsame) hplaced
    rcases edits_planOf hspan h with ⟨-, fresh, h⟩ | ⟨hnot, -⟩
    · obtain ⟨i, hi⟩ := List.mem_iff_getElem?.1 hkeeps.mem.1
      have hmem := (mem_kept_iff hentries hi).2 ⟨n, hkeeps⟩
      cases hkept : keptPositions (ofExpr old) (ofExpr new) with
      | nil => exact absurd (hkept ▸ hmem) List.not_mem_nil
      | cons first rest =>
        obtain ⟨changes, insertions, hchanges, -, rfl⟩ := entryEdits_of_kept hkept h
        obtain ⟨change, hchange, hmade⟩ :=
          exists_mem_of_mapM hchanges (mem_zip_of_keepsPlace hentries hkeeps hi)
        simp only [Option.bind_some, hi] at hmade
        obtain ⟨keys, values, rfl, -, ⟨-, hvalues⟩ | ⟨hne, -⟩⟩ :=
          edits_planOfEntry hsame hkeeps.mem.1 hkeeps.mem.2 hkeeps.origin_eq hmade
        · obtain ⟨edit, hedit, hplace⟩ := ih (hparts o hkeeps.mem.1).2 hvalues hedit'
          refine ⟨edit, List.mem_append_left _ (List.mem_append_left _ ?_), hplace⟩
          exact List.mem_flatten.2 ⟨_, hchange, List.mem_append_right _ hedit⟩
        · exact absurd hin.origin_eq hne
    · exact absurd hsame (by simp [hnot])

end Baseline

/-! ## The edits of an editor -/

/-- An edit that is covered by one that spares what is kept spares it too. -/
theorem Spares.of_covering {tree draft : Expr} {edit cover : TextEdit}
    (h : Spares tree draft cover) (hstart : cover.start ≤ edit.start)
    (hstop : edit.stop ≤ cover.stop) : Spares tree draft edit := by
  obtain ⟨⟨span, hspan, hwithin⟩, hspares⟩ := h
  exact ⟨⟨span, hspan, hwithin.1.trans hstart, hstop.trans hwithin.2⟩,
    fun entry place hkept hplace htouch => hspares entry place hkept hplace
      ⟨hstart.trans_lt htouch.1, htouch.2.trans_le hstop⟩⟩

/-- Merged edits spare what is kept if the given ones do. -/
theorem spares_of_normalize {tree draft : Expr} (hplaced : tree.wellPlaced = true)
    {edits out : List TextEdit} (h : TextEdit.normalize edits = .ok out)
    (hspares : ∀ edit ∈ edits, Spares tree draft edit) : ∀ edit ∈ out, Spares tree draft edit := by
  intro merged hmerged
  obtain ⟨span, hspan⟩ := Expr.exists_span hplaced
  -- A merged edit starts and ends with given ones, and touches only what one of them touches.
  obtain ⟨⟨a, ha, hstart⟩, ⟨b, hb, hstop⟩, htouch⟩ :=
    TextEdit.exists_touching_of_normalize h hmerged
  have hwithin : ∀ edit ∈ edits, edit.Within span := by
    intro edit hedit
    obtain ⟨⟨_, hspan', hwithin⟩, -⟩ := hspares edit hedit
    obtain rfl := Option.some.inj (hspan'.symm.trans hspan)
    exact hwithin
  refine ⟨⟨span, hspan, hstart ▸ (hwithin a ha).1, hstop ▸ (hwithin b hb).2⟩,
    fun entry place hkept hplace hm => ?_⟩
  obtain ⟨s, hs, -, hne, -⟩ := hkept.inside hspan hplaced
  obtain rfl := Option.some.inj (hs.symm.trans hplace)
  obtain ⟨edit, hedit, htouch⟩ := htouch s hne hm
  exact (hspares edit hedit).2 entry s hkept hplace htouch

namespace Editor

variable (editor : Editor)

/-- The machine as it is written. -/
def baseline : Baseline where
  source := utf8 editor.text
  style := editor.style
  tree := editor.machine.config

/-- The text edits of a draft lie inside the machine and leave what the draft keeps alone, just
    when those next to entries on lines of their own do. -/
theorem textEdits_spare_iff (hplaced : editor.machine.config.wellPlaced = true)
    {edits : List TextEdit} (h : editor.textEdits = .ok edits) :
    (∀ edit ∈ edits, Spares editor.machine.config editor.draft edit) ↔
      ∀ old new, InPlace editor.machine.config editor.draft old new →
        ∀ edit ∈ editor.baseline.ownLineEdits old new,
          Spares editor.machine.config editor.draft edit := by
  obtain ⟨span, hspan⟩ := Expr.exists_span hplaced
  have h : editor.baseline.diff editor.draft = .ok edits := h
  rw [Baseline.diff] at h
  split at h
  · next horigin =>
    obtain ⟨raw, hraw, h⟩ := bind_eq_ok.1 h
    constructor
    -- An edit next to an entry may have been merged with its neighbours; the merged one covers it.
    · intro hspares old new hin edit hedit
      obtain ⟨edit', hedit', hstart, hstop⟩ :=
        Baseline.exists_edit_of_ownLine hin hplaced hraw hedit
      obtain ⟨cover, hcover, hleft, hright⟩ := TextEdit.exists_covering_of_normalize h hedit'
      exact (hspares cover hcover).of_covering (hstart ▸ hleft) (hstop ▸ hright)
    · intro hown
      refine spares_of_normalize hplaced h fun edit hedit => ?_
      rcases Baseline.spares_or_ownLine hplaced horigin hraw hedit with
        hspares | ⟨old, new, hin, edit', hedit', hstart, hstop⟩
      · exact hspares
      · exact (hown old new hin edit' hedit').of_covering hstart.le hstop.ge
  · next horigin =>
    -- The machine is replaced as a whole, and nothing is kept.
    have hnothing : ∀ old new, ¬InPlace editor.machine.config editor.draft old new :=
      fun old new hin => horigin hin.origin_eq
    refine ⟨fun _ old new hin => absurd hin (hnothing old new), fun _ => ?_⟩
    have htree : editor.baseline.tree.span = some span := hspan
    rw [htree] at h
    obtain ⟨raw, hraw, h⟩ := bind_eq_ok.1 h
    obtain ⟨newText, rfl⟩ := Baseline.replacement_eq_ok hraw
    refine spares_of_normalize hplaced h fun edit hedit => ?_
    obtain rfl := List.mem_singleton.1 hedit
    exact ⟨⟨span, hspan, le_rfl, le_rfl⟩, fun entry place hkept _ _ =>
      hkept.elim fun old hold => hold.elim fun new hnew => hnothing old new hnew.1⟩

end Editor

end Statechart
