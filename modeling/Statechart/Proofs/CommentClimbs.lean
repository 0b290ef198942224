import Statechart.Proofs.KeptText
import Statechart.Proofs.Trivia

/-!
# Climbing over comment lines

An entry on lines of its own is deleted with the comment lines above it and with its tail, and
new entries are inserted above the comment lines of the first entry that is kept, or in the gap
behind another one. In a tree that was read from its source, the gap behind an entry holds its
tail. So an edit of the gap leaves kept entries alone, and what is left to decide is how far
edits climb.

* `Expr.wellSpaced`: what is read behind an entry ends before the next one;
* `InPlace.spares`: what an edit spares in a literal that is changed in its place;
* `Baseline.climbs`: what edits reach above the entries that they are made for;
* `Editor.textEdits_spare_iff_climbs`: all edits spare what is kept just when these do.

A climb goes line by line, and takes a line with comments at both ends for a comment, whatever
stands between them (`Editor.kept_entry_deleted`).
-/

namespace Statechart

open Entry

/-! ## Spaced trees -/

/-- Whether what is read behind an entry that ends at `stop` ends before `bound`: white space and
    comments, those behind its comma, and the line when nothing else stands on it. -/
def Text.trailsBefore (source : Bytes) (stop bound : Nat) : Bool :=
  stop ≤ source.length && skipTrivia source stop ≤ bound
    && (commaAfter source stop).all (fun comma => skipTrivia source comma ≤ bound)
    && (!Splice.endsLine source stop || lineEnd source stop ≤ bound)

namespace Text

variable {source : Bytes} {stop bound : Nat}

theorem itemTailEnd_mem_of_trailsBefore (h : trailsBefore source stop bound = true) :
    stop ≤ itemTailEnd source stop ∧ itemTailEnd source stop ≤ bound := by
  simp only [trailsBefore, Bool.and_eq_true, decide_eq_true_eq, Option.all_eq_true] at h
  obtain ⟨⟨⟨hlength, htrivia⟩, hcomma⟩, -⟩ := h
  obtain ⟨hleft, hright | ⟨comma, hfound, hright⟩⟩ := itemTailEnd_mem hlength
  · exact ⟨hleft, hright.trans htrivia⟩
  · exact ⟨hleft, hright.trans (hcomma comma hfound)⟩

theorem comma_mem_of_trailsBefore (h : trailsBefore source stop bound = true) {comma : Nat}
    (hfound : commaAfter source stop = some comma) : stop < comma ∧ comma ≤ bound := by
  simp only [trailsBefore, Bool.and_eq_true, decide_eq_true_eq, Option.all_eq_true] at h
  obtain ⟨⟨⟨hlength, -⟩, hcomma⟩, -⟩ := h
  obtain ⟨rfl, hstop⟩ := commaAfter_eq_some hfound
  exact ⟨Nat.lt_succ_of_le (le_skipTrivia hlength),
    (le_skipTrivia hstop).trans (hcomma _ hfound)⟩

theorem lineEnd_mem_of_trailsBefore (h : trailsBefore source stop bound = true)
    (hline : Splice.endsLine source stop = true) :
    stop ≤ lineEnd source stop ∧ lineEnd source stop ≤ bound := by
  simp only [trailsBefore, hline, Bool.and_eq_true, decide_eq_true_eq, Bool.not_true,
    Bool.false_or] at h
  exact ⟨le_lineEnd h.1.1.1, h.2⟩

end Text

namespace Expr

/-- Whether what is read behind the entries of a literal ends with the gaps behind them. -/
def entriesSpaced (source : Bytes) (expr : Expr) : Bool :=
  expr.span.all fun span => (ofExpr expr).zipIdx.all fun (entry, i) =>
    entry.span.all fun place => Text.trailsBefore source place.stop (gapEnd span (ofExpr expr) i)

mutual

/-- Whether the entries of each literal of a tree are spaced. -/
def wellSpaced (source : Bytes) : Expr → Bool
  | object origin props =>
    entriesSpaced source (object origin props) && propsWellSpaced source props
  | array origin items =>
    entriesSpaced source (array origin items) && itemsWellSpaced source items
  | _ => true

/-- Whether items are well spaced. -/
def itemsWellSpaced (source : Bytes) : List Expr → Bool
  | [] => true
  | e :: rest => wellSpaced source e && itemsWellSpaced source rest

/-- Whether the values of properties are well spaced. -/
def propsWellSpaced (source : Bytes) : List (PropertyOf Expr) → Bool
  | [] => true
  | ⟨_, _, _, value⟩ :: rest => wellSpaced source value && propsWellSpaced source rest

end

variable {source : Bytes}

theorem wellSpaced_of_mem {expr : Expr} (h : expr.wellSpaced source = true) :
    ∀ entry ∈ ofExpr expr, entry.value.wellSpaced source = true := by
  have hprops : ∀ props : List Property, propsWellSpaced source props = true →
      ∀ entry ∈ props.map Entry.prop, entry.value.wellSpaced source = true := by
    intro props
    induction props with
    | nil => exact fun _ _ h => absurd h List.not_mem_nil
    | cons p props ih =>
      intro hp
      simp only [propsWellSpaced, Bool.and_eq_true] at hp
      exact List.forall_mem_cons.2 ⟨hp.1, ih hp.2⟩
  have hitems : ∀ items : List Expr, itemsWellSpaced source items = true →
      ∀ entry ∈ items.map Entry.item, entry.value.wellSpaced source = true := by
    intro items
    induction items with
    | nil => exact fun _ _ h => absurd h List.not_mem_nil
    | cons e items ih =>
      intro hp
      simp only [itemsWellSpaced, Bool.and_eq_true] at hp
      exact List.forall_mem_cons.2 ⟨hp.1, ih hp.2⟩
  cases expr with
  | object origin props =>
    rw [wellSpaced, Bool.and_eq_true] at h
    exact hprops props h.2
  | array origin items =>
    rw [wellSpaced, Bool.and_eq_true] at h
    exact hitems items h.2
  | _ => exact fun _ h => absurd h List.not_mem_nil

/-- The gap behind each entry holds what is read behind it. -/
theorem trailsBefore_gapEnd {expr : Expr} (h : expr.wellSpaced source = true) {span place : Span}
    (hspan : expr.span = some span) {i : Nat} {entry : Entry}
    (hi : (ofExpr expr)[i]? = some entry) (hplace : entry.span = some place) :
    Text.trailsBefore source place.stop (gapEnd span (ofExpr expr) i) = true := by
  have hspaced : entriesSpaced source expr = true := by
    cases expr with
    | object origin props =>
      rw [wellSpaced, Bool.and_eq_true] at h
      exact h.1
    | array origin items =>
      rw [wellSpaced, Bool.and_eq_true] at h
      exact h.1
    | _ => cases hi
  rw [entriesSpaced, hspan, Option.all_some, List.all_eq_true] at hspaced
  have hentry := hspaced (entry, i) (List.mk_mem_zipIdx_iff_getElem?.2 hi)
  dsimp only at hentry
  rwa [hplace, Option.all_some] at hentry

end Expr

/-! ## Literals in their places -/

section

variable {old new old' new' : Expr}

theorem InPlace.wellSpaced {source : Bytes} (h : InPlace old new old' new')
    (hspaced : old.wellSpaced source = true) : old'.wellSpaced source = true := by
  induction h with
  | self => exact hspaced
  | inside _ _ hkeeps _ ih => exact ih (Expr.wellSpaced_of_mem hspaced _ hkeeps.mem.1)

theorem InPlace.wellPlaced (h : InPlace old new old' new') (hplaced : old.wellPlaced = true) :
    old'.wellPlaced = true := by
  induction h with
  | self => exact hplaced
  | inside _ hsame hkeeps _ ih =>
    obtain ⟨_, -, -, hparts⟩ :=
      Expr.wellPlaced_literal (isLiteral_of_sameContainer hsame) hplaced
    exact ih (hparts _ hkeeps.mem.1).2

/-- In a tree that is not changed, nodes in the same place are equal. -/
theorem InPlace.eq_of_eq (h : InPlace old new old' new') (hplaced : old.wellPlaced = true)
    (heq : old = new) : old' = new' := by
  induction h with
  | self => exact heq
  | inside _ hsame hkeeps _ ih =>
    subst heq
    obtain ⟨_, -, hentries, hparts⟩ :=
      Expr.wellPlaced_literal (isLiteral_of_sameContainer hsame) hplaced
    have hmem := hkeeps.mem.1
    obtain rfl := (KeepsPlace.refl hentries hmem).unique hentries hkeeps
    exact ih (hparts _ hmem).2 rfl

/-- An edit of a literal that is changed in its place spares what the tree keeps, if it spares
    what the literal keeps. -/
theorem InPlace.spares {edit : TextEdit} (h : InPlace old new old' new')
    (hplaced : old.wellPlaced = true) (hne : old' ≠ new') (hspares : Spares old' new' edit) :
    Spares old new edit := by
  induction h with
  | self => exact hspares
  | @inside old new old' new' o n _ hsame hkeeps hin ih =>
    obtain ⟨span, hspan, hentries, hparts⟩ :=
      Expr.wellPlaced_literal (isLiteral_of_sameContainer hsame) hplaced
    have hmem := hkeeps.mem.1
    have hvalue := (hparts o hmem).2
    obtain ⟨place, hplace, -⟩ := hentries.inside o hmem
    obtain ⟨⟨inner, hinner, hwithin⟩, htouch⟩ := ih hvalue hne hspares
    obtain ⟨_, hinner', hstart, hstop⟩ := value_inside hplace (hparts o hmem).1
    obtain rfl := Option.some.inj (hinner'.symm.trans hinner)
    refine Baseline.spares_of_entry hspan hplaced hsame hkeeps hplace
      ⟨hstart.trans hwithin.1, hwithin.2.trans hstop⟩ ?_ fun _ => htouch
    -- Nothing is changed inside an entry that is not changed.
    rintro rfl
    exact hne (hin.eq_of_eq hvalue rfl)

end

/-! ## Climbs -/

namespace Baseline

open Splice

variable (baseline : Baseline)

/-- What the edits of a literal reach above the entries on lines of their own that they are made
    for: the comment lines of entries that are deleted, and the place above those of the first
    entry that is kept, when new entries stand before it. -/
def climbsFrom (span : Span) (first : Nat) (old new : List Entry) : List TextEdit :=
  (old.zipIdx.flatMap fun (entry, i) =>
    match entry.span with
    | some place =>
      if (keptPositions old new).contains i then []
      else if baseline.standsAlone span place then
        [.delete (Text.leadingCommentStart baseline.source place.start) place.start]
      else []
    | none => [])
  ++ (runs (new.zip (matching old new))).flatMap fun (anchor, _) =>
    match anchor, old[first]?.bind (·.span) with
    | none, some place =>
      if Text.spansLines baseline.source span.start span.stop
          && Text.startsLine baseline.source place.start then
        [.insert (Text.leadingCommentStart baseline.source place.start) ""]
      else []
    | _, _ => []

/-- What the edits of a literal that is in its place reach above entries. -/
def climbs (old new : Expr) : List TextEdit :=
  match sameContainer old new, old.span, keptPositions (ofExpr old) (ofExpr new) with
  | true, some span, first :: _ => baseline.climbsFrom span first (ofExpr old) (ofExpr new)
  | _, _, _ => []

variable {baseline} {span : Span} {old new : Expr}

theorem climbs_eq (hspan : old.span = some span) (hsame : sameContainer old new = true)
    {first : Nat} {rest : List Nat}
    (hkept : keptPositions (ofExpr old) (ofExpr new) = first :: rest) :
    baseline.climbs old new = baseline.climbsFrom span first (ofExpr old) (ofExpr new) := by
  rw [climbs, hspan, hsame, hkept]

theorem mem_climbs (hspan : old.span = some span) (hsame : sameContainer old new = true)
    {first : Nat} {rest : List Nat}
    (hkept : keptPositions (ofExpr old) (ofExpr new) = first :: rest) {edit : TextEdit} :
    edit ∈ baseline.climbs old new ↔
      (∃ i entry place, (ofExpr old)[i]? = some entry ∧ entry.span = some place ∧
        i ∉ keptPositions (ofExpr old) (ofExpr new) ∧ baseline.standsAlone span place = true ∧
        edit = .delete (Text.leadingCommentStart baseline.source place.start) place.start) ∨
      ∃ run place, (none, run) ∈ runs ((ofExpr new).zip (matching (ofExpr old) (ofExpr new))) ∧
        (ofExpr old)[first]?.bind (·.span) = some place ∧
        (Text.spansLines baseline.source span.start span.stop
          && Text.startsLine baseline.source place.start) = true ∧
        edit = .insert (Text.leadingCommentStart baseline.source place.start) "" := by
  rw [climbs_eq hspan hsame hkept, climbsFrom, List.mem_append]
  refine or_congr ?_ ?_
  · refine (mem_flatMap_placed (f := fun _ place => if baseline.standsAlone span place then
      [.delete (Text.leadingCommentStart baseline.source place.start) place.start] else [])).trans ?_
    simp only [List.mem_ite_nil_right, List.mem_singleton]
  · simp only [List.mem_flatMap, Prod.exists]
    constructor
    · rintro ⟨anchor, run, hrun, hedit⟩
      split at hedit
      · next place hplace =>
        rw [List.mem_ite_nil_right, List.mem_singleton] at hedit
        exact ⟨run, place, hrun, hplace, hedit⟩
      · exact absurd hedit List.not_mem_nil
    · rintro ⟨run, place, hrun, hplace, hedit⟩
      refine ⟨none, run, hrun, ?_⟩
      simp only [hplace]
      rwa [List.mem_ite_nil_right, List.mem_singleton]

theorem ne_of_mem_ownLineEdits (hplaced : old.wellPlaced = true) {edit : TextEdit}
    (hedit : edit ∈ baseline.ownLineEdits old new) : old ≠ new := by
  rintro rfl
  obtain ⟨_, hmem, -⟩ := exists_edit_of_mem_ownLineEdits (edits_self hplaced) hedit
  exact List.not_mem_nil hmem

/-- An entry on lines of its own is deleted with the comment lines above it and its tail. -/
theorem deletion_of_standsAlone {place : Span} (h : baseline.standsAlone span place = true)
    (fixComma : Bool) (entries : List Entry) (kept : List Nat) (i : Nat) :
    deletion baseline.source true fixComma entries kept i place =
      .delete (Text.leadingCommentStart baseline.source place.start)
        (Text.itemTailEnd baseline.source place.stop) ::
      (if fixComma then commaFix baseline.source entries kept i place else []) := by
  simp only [standsAlone, Bool.and_eq_true] at h
  simp only [deletion, h, Bool.and_self, if_true]

/-- The mended comma stands in the gap behind an entry. -/
theorem exists_gap_of_commaFix {entries : List Entry} {kept : List Nat} {i : Nat} {place : Span}
    {edit : TextEdit} (h : edit ∈ commaFix baseline.source entries kept i place) :
    ∃ (j : Nat) (before : Entry) (s : Span) (comma : Nat), entries[j]? = some before ∧
      before.span = some s ∧ Text.commaAfter baseline.source s.stop = some comma ∧
      edit = .delete (comma - 1) comma := by
  rw [commaFix] at h
  split at h
  · exact absurd h List.not_mem_nil
  · obtain ⟨comma, hcomma, rfl⟩ := List.mem_map.1 h
    rw [Option.mem_toList] at hcomma
    obtain ⟨j, -, hcomma⟩ := Option.bind_eq_some_iff.1 hcomma
    obtain ⟨before, hbefore, hcomma⟩ := Option.bind_eq_some_iff.1 hcomma
    obtain ⟨s, hs, hcomma⟩ := Option.bind_eq_some_iff.1 hcomma
    exact ⟨j, before, s, comma, hbefore, hs, hcomma, rfl⟩

/-- Entries that are inserted behind another one are inserted in the gap there. -/
theorem mem_gap_of_insertionAfter {place : Span} {bound : Nat}
    (h : Text.trailsBefore baseline.source place.stop bound = true)
    (hgap : place.stop ≤ bound) {texts : List String} {edit : TextEdit}
    (hedit : edit ∈ insertionAfter baseline.source true place texts) :
    place.stop ≤ edit.start ∧ edit.stop ≤ bound := by
  rw [insertionAfter] at hedit
  simp only [if_true] at hedit
  split at hedit
  · next comma hcomma =>
    split at hedit
    · obtain rfl := List.mem_singleton.1 hedit
      exact Text.itemTailEnd_mem_of_trailsBefore h
    · obtain rfl := List.mem_singleton.1 hedit
      obtain ⟨hleft, hright⟩ := Text.comma_mem_of_trailsBefore h hcomma
      exact ⟨hleft.le, hright⟩
  · split at hedit
    · next hline =>
      rcases List.mem_cons.1 hedit with rfl | hedit
      · exact ⟨le_rfl, hgap⟩
      · obtain rfl := List.mem_singleton.1 hedit
        exact Text.lineEnd_mem_of_trailsBefore h hline
    · obtain rfl := List.mem_singleton.1 hedit
      exact ⟨le_rfl, hgap⟩

/-- What is deleted piece by piece. -/
theorem spares_delete_append {tree draft : Expr} (hplaced : tree.wellPlaced = true) {a b c : Nat}
    (hleft : Spares tree draft (.delete a b)) (hright : Spares tree draft (.delete b c)) :
    Spares tree draft (.delete a c) := by
  obtain ⟨⟨span, hspan, hwithin⟩, hleft⟩ := hleft
  obtain ⟨⟨_, hspan', hwithin'⟩, hright⟩ := hright
  obtain rfl := Option.some.inj (hspan'.symm.trans hspan)
  refine ⟨⟨_, hspan, hwithin.1, hwithin'.2⟩, fun entry place hkept hplace htouch => ?_⟩
  obtain ⟨s, hs, -, hne, -⟩ := hkept.inside hspan hplaced
  obtain rfl := Option.some.inj (hs.symm.trans hplace)
  -- An entry across the seam starts before it.
  rcases Nat.lt_or_ge s.start b with hlt | hge
  · exact hleft entry s hkept hs ⟨htouch.1, hlt⟩
  · exact hright entry s hkept hs ⟨hge.trans_lt hne, htouch.2⟩

section

variable {tree draft : Expr} (hin : InPlace tree draft old new) (hplaced : tree.wellPlaced = true)
  (hspaced : tree.wellSpaced baseline.source = true) (hne : old ≠ new)
  (hspan : old.span = some span) (hsame : sameContainer old new = true)

include hin hplaced hspaced hne hspan hsame

/-- A deletion on lines of its own spares what is kept, if it does so above the entry. -/
theorem deletion_spares {i : Nat} {entry : Entry} {place : Span}
    (hi : (ofExpr old)[i]? = some entry) (hplace : entry.span = some place)
    (hnot : i ∉ keptPositions (ofExpr old) (ofExpr new))
    (halone : baseline.standsAlone span place = true)
    (hclimb : Spares tree draft
      (.delete (Text.leadingCommentStart baseline.source place.start) place.start))
    {fixComma : Bool} {edit : TextEdit} (hedit : edit ∈ deletion baseline.source true fixComma
      (ofExpr old) (keptPositions (ofExpr old) (ofExpr new)) i place) :
    Spares tree draft edit := by
  have hplaced' := hin.wellPlaced hplaced
  have hspaced' := hin.wellSpaced hspaced
  rw [deletion_of_standsAlone halone] at hedit
  rcases List.mem_cons.1 hedit with rfl | hedit
  · have htail := Text.itemTailEnd_mem_of_trailsBefore
      (Expr.trailsBefore_gapEnd hspaced' hspan hi hplace)
    -- Above the entry by assumption, from the entry on because its tail lies in the gap.
    refine spares_delete_append hplaced hclimb (hin.spares hplaced hne ?_)
    exact behind_spares hspan hplaced' hsame hi hplace (.inr ⟨hnot, le_rfl⟩) htail.2
  · rw [List.mem_ite_nil_right] at hedit
    obtain ⟨j, before, s, comma, hj, hs, hcomma, rfl⟩ := exists_gap_of_commaFix hedit.2
    have hmem := Text.comma_mem_of_trailsBefore
      (Expr.trailsBefore_gapEnd hspaced' hspan hj hs) hcomma
    refine hin.spares hplaced hne ?_
    exact behind_spares hspan hplaced' hsame hj hs (.inl (Nat.le_pred_of_lt hmem.1)) hmem.2

/-- An insertion behind an entry on lines of its own spares what is kept. -/
theorem insertionAfter_spares {i : Nat} {place : Span}
    (hplace : (ofExpr old)[i]?.bind (·.span) = some place) {texts : List String}
    {edit : TextEdit} (hedit : edit ∈ insertionAfter baseline.source true place texts) :
    Spares tree draft edit := by
  have hplaced' := hin.wellPlaced hplaced
  obtain ⟨entry, hi, hplace⟩ := Option.bind_eq_some_iff.1 hplace
  obtain ⟨_, hspan', hentries, -⟩ :=
    Expr.wellPlaced_literal (isLiteral_of_sameContainer hsame) hplaced'
  obtain rfl := Option.some.inj (hspan'.symm.trans hspan)
  have hmem := mem_gap_of_insertionAfter
    (Expr.trailsBefore_gapEnd (hin.wellSpaced hspaced) hspan hi hplace)
    (hentries.gapEnd_mem hi hplace).1 hedit
  refine hin.spares hplaced hne ?_
  exact behind_spares hspan hplaced' hsame hi hplace (.inl hmem.1) hmem.2

end

section

variable {tree draft : Expr} (hin : InPlace tree draft old new) (hplaced : tree.wellPlaced = true)
  (hspaced : tree.wellSpaced baseline.source = true)

include hin hplaced hspaced

/-- The edits next to entries on lines of their own spare what is kept, if they do so above the
    entries that they are made for. -/
theorem ownLineEdits_spare
    (hclimbs : ∀ edit ∈ baseline.climbs old new, Spares tree draft edit) {edit : TextEdit}
    (hedit : edit ∈ baseline.ownLineEdits old new) : Spares tree draft edit := by
  have hne := ne_of_mem_ownLineEdits (hin.wellPlaced hplaced) hedit
  rw [ownLineEdits] at hedit
  split at hedit
  · next span first rest hsame hspan hkept =>
    rcases List.mem_append.1 hedit with hedit | hedit
    · obtain ⟨i, entry, place, hi, hplace, hnot, halone, hedit⟩ := mem_ownLineRemovals.1 hedit
      refine deletion_spares hin hplaced hspaced hne hspan hsame hi hplace hnot halone ?_ hedit
      exact hclimbs _ ((mem_climbs hspan hsame hkept).2
        (.inl ⟨i, entry, place, hi, hplace, hnot, halone, rfl⟩))
    · obtain ⟨anchor, run, place, hrun, hplace, hline, hedit⟩ := mem_ownLineInsertions.1 hedit
      simp only [insertionAt, hline] at hedit
      cases anchor with
      | none =>
        obtain rfl := List.mem_singleton.1 hedit
        exact (hclimbs _ ((mem_climbs hspan hsame hkept).2
          (.inr ⟨run, place, hrun, hplace, hline, rfl⟩))).of_covering le_rfl le_rfl
      | some i => exact insertionAfter_spares hin hplaced hspaced hne hspan hsame hplace hedit
  · exact absurd hedit List.not_mem_nil

/-- What is reached above an entry belongs to an edit next to it. -/
theorem exists_covering_of_climb {edit : TextEdit} (hedit : edit ∈ baseline.climbs old new) :
    ∃ cover ∈ baseline.ownLineEdits old new, cover.start ≤ edit.start ∧ edit.stop ≤ cover.stop := by
  have hclimbs := hedit
  rw [climbs] at hedit
  split at hedit
  · next span first rest hsame hspan hkept =>
    rw [ownLineEdits_eq hspan hsame hkept]
    rcases (mem_climbs hspan hsame hkept).1 hclimbs with
      ⟨i, entry, place, hi, hplace, hnot, halone, rfl⟩ | ⟨run, place, hrun, hplace, hline, rfl⟩
    · have htail := Text.itemTailEnd_mem_of_trailsBefore
        (Expr.trailsBefore_gapEnd (hin.wellSpaced hspaced) hspan hi hplace)
      obtain ⟨_, -, hentries, -⟩ := Expr.wellPlaced_literal (isLiteral_of_sameContainer hsame)
        (hin.wellPlaced hplaced)
      obtain ⟨s, hs, -, hne, -⟩ := hentries.inside entry (List.mem_of_getElem? hi)
      obtain rfl := Option.some.inj (hs.symm.trans hplace)
      refine ⟨.delete (Text.leadingCommentStart baseline.source s.start)
        (Text.itemTailEnd baseline.source s.stop), List.mem_append_left _ ?_, le_rfl,
        hne.le.trans htail.1⟩
      refine mem_ownLineRemovals.2 ⟨i, entry, s, hi, hs, hnot, halone, ?_⟩
      rw [deletion_of_standsAlone halone]
      exact List.mem_cons_self
    · refine ⟨_, List.mem_append_right _ (mem_ownLineInsertions.2
        ⟨none, run, place, hrun, hplace, hline, ?_⟩), le_rfl, le_rfl⟩
      simp only [insertionAt, hline]
      exact List.mem_singleton_self _
  · exact absurd hedit List.not_mem_nil

end

end Baseline

/-! ## The edits of an editor -/

namespace Editor

variable (editor : Editor)

/-- The text edits of a draft lie inside the machine and leave what the draft keeps alone, just
    when no edit climbs over comment lines out of the machine or into what is kept. -/
theorem textEdits_spare_iff_climbs (hplaced : editor.machine.config.wellPlaced = true)
    (hspaced : editor.machine.config.wellSpaced (utf8 editor.text) = true)
    {edits : List TextEdit} (h : editor.textEdits = .ok edits) :
    (∀ edit ∈ edits, Spares editor.machine.config editor.draft edit) ↔
      ∀ old new, InPlace editor.machine.config editor.draft old new →
        ∀ edit ∈ editor.baseline.climbs old new,
          Spares editor.machine.config editor.draft edit := by
  rw [editor.textEdits_spare_iff hplaced h]
  constructor
  · intro hown old new hin edit hedit
    obtain ⟨cover, hcover, hstart, hstop⟩ :=
      Baseline.exists_covering_of_climb hin hplaced hspaced hedit
    exact (hown old new hin cover hcover).of_covering hstart hstop
  · intro hclimbs old new hin edit hedit
    exact Baseline.ownLineEdits_spare hin hplaced hspaced (hclimbs old new hin) hedit

/-- The entry of the first line in both texts below. -/
def idEntry (start : Nat) : Entry :=
  .prop { origin := .source ⟨start, start + 7⟩, key := .ident "id",
          keySpan := some ⟨start, start + 2⟩, value := .str (.source ⟨start + 4, start + 7⟩) "m" }

/-- A line that opens and closes with comments counts as a comment, so that the entry between
    them is deleted with the entry below. -/
theorem kept_entry_deleted : ∃ editor edits,
    ofText? "createMachine(\x7b\n  /* a */ id: 'm', /* b */\n  description: 'd',\n\x7d);\n"
      [.setDescription [] none none] = some editor ∧
    editor.machine.config.wellPlaced = true ∧
    editor.machine.config.wellSpaced (utf8 editor.text) = true ∧ editor.textEdits = .ok edits ∧
    ¬∀ edit ∈ edits, Spares editor.machine.config editor.draft edit := by
  have hfound : (ofText?
      "createMachine(\x7b\n  /* a */ id: 'm', /* b */\n  description: 'd',\n\x7d);\n"
      [.setDescription [] none none]).any (fun editor =>
        editor.machine.config.wellPlaced
          && editor.machine.config.wellSpaced (utf8 editor.text)
          && editor.textEdits = .ok [.delete 16 63]
          && editor.draft.origin = editor.machine.config.origin
          && Baseline.sameContainer editor.machine.config editor.draft
          && (ofExpr editor.machine.config)[0]? = some (idEntry 26)
          && (ofExpr editor.draft)[0]? = some (idEntry 26)) = true := by decide +kernel
  obtain ⟨editor, heditor, h⟩ := (Option.any_eq_true _ _).1 hfound
  simp only [Bool.and_eq_true, decide_eq_true_eq] at h
  obtain ⟨⟨⟨⟨⟨⟨hplaced, hspaced⟩, hedits⟩, horigin⟩, hsame⟩, hold⟩, hnew⟩ := h
  refine ⟨editor, _, heditor, hplaced, hspaced, hedits, fun hspares => ?_⟩
  have hkept : Kept editor.machine.config editor.draft (idEntry 26) :=
    ⟨_, _, .self horigin, hsame, 0, 0, hold, hnew, rfl, fun d' _ _ _ hlt => absurd hlt d'.not_lt_zero⟩
  exact (hspares _ (List.mem_singleton_self _)).2 _ ⟨26, 33⟩ hkept rfl (by decide)

/-- Without comments on its line the entry is spared. -/
theorem textEdits_spare_iff_climbs_oneComment : ∃ editor edits,
    ofText? "createMachine(\x7b\n  id: 'm',\n  // d\n  description: 'd',\n\x7d);\n"
      [.setDescription [] none none] = some editor ∧ editor.textEdits = .ok edits ∧
    edits = [.delete 27 54] ∧
    ∀ edit ∈ edits, Spares editor.machine.config editor.draft edit := by
  have hfound : (ofText?
      "createMachine(\x7b\n  id: 'm',\n  // d\n  description: 'd',\n\x7d);\n"
      [.setDescription [] none none]).any (fun editor =>
        editor.machine.config.wellPlaced
          && editor.machine.config.wellSpaced (utf8 editor.text)
          && editor.textEdits = .ok [.delete 27 54] && editor.machine.config.span = some ⟨14, 55⟩
          && (ofExpr editor.machine.config).all (fun entry => !entry.value.isLiteral)
          && ofExpr editor.draft = [idEntry 18]
          && editor.baseline.climbs editor.machine.config editor.draft
            = [.delete 27 36]) = true := by decide +kernel
  obtain ⟨editor, heditor, h⟩ := (Option.any_eq_true _ _).1 hfound
  simp only [Bool.and_eq_true, decide_eq_true_eq, List.all_eq_true, Bool.not_eq_true'] at h
  obtain ⟨⟨⟨⟨⟨⟨hplaced, hspaced⟩, hedits⟩, hspan⟩, hflat⟩, hdraft⟩, hclimbs⟩ := h
  refine ⟨editor, _, heditor, hedits, rfl, (textEdits_spare_iff_climbs editor hplaced hspaced
    hedits).2 fun old new hin edit hedit => ?_⟩
  cases hin with
  | self =>
    rw [hclimbs, List.mem_singleton] at hedit
    subst hedit
    refine ⟨⟨_, hspan, by decide⟩, fun entry place hkept hplace => ?_⟩
    obtain ⟨-, hkeeps | ⟨o, n, hkeeps, -, hkept⟩⟩ := hkept.cases
    · have hmem := hkeeps.mem.2
      rw [hdraft, List.mem_singleton] at hmem
      subst hmem
      cases hplace
      decide
    · exact absurd (isLiteral_of_sameContainer hkept.cases.1) (by simp [hflat o hkeeps.mem.1])
  | @inside _ _ _ _ o n _ _ hkeeps hin =>
    have hlit := hflat o hkeeps.mem.1
    cases hin with
    | self =>
      rw [Baseline.climbs] at hedit
      split at hedit
      · next hsame _ _ => exact absurd (isLiteral_of_sameContainer hsame) (by simp [hlit])
      · exact absurd hedit List.not_mem_nil
    | inside _ hsame => exact absurd (isLiteral_of_sameContainer hsame) (by simp [hlit])

end Editor

end Statechart
