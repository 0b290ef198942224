import Statechart.Proofs.LeafTexts
import Statechart.Proofs.MergedEdits
import Statechart.Proofs.PlacedStrings

/-!
# Edits of strings

A draft that only gives other values to strings is written with one replacement for each of them:
entries keep their origins, so that nothing is deleted or inserted, and what is no string stays as
it is. The replacements are found from the outside in, entry by entry, and are not merged.

A string is known by its place. One that is empty in the source can share its place with another,
and then the two cannot be told apart.

* `Baseline.edits_of_blanked`: the edits of a tree are those of its strings;
* `Baseline.diff_of_blanked`: the edits of a draft with other strings.
-/

namespace Statechart.Baseline

open Statechart.Expr

variable {baseline : Baseline} {old new : Expr}

/-! ## Entries with other strings -/

theorem sameContainer_of_blanked (h : old.blanked = new.blanked) (hlit : new.isLiteral = true) :
    sameContainer old new = true := by
  cases new with
  | object _ _ => cases old <;> first | rfl | cases h
  | array _ _ => cases old <;> first | rfl | cases h
  | _ => cases hlit

/-- An entry with other strings has the edits of its value. -/
theorem edits_planOfEntry_of_blanked {n o : Entry} {edits : List TextEdit}
    (h : n.blanked = o.blanked) (hvalue : (baseline.planOf n.value).edits o.value = .ok edits) :
    (baseline.planOfEntry n).edits o = .ok edits := by
  have horigin : n.value.origin = o.value.origin :=
    origin_eq_of_blanked (Entry.value_of_blanked h)
  obtain p | a := n <;> obtain q | b := o
  · have hkey : p.key = q.key := by
      simp only [Entry.blanked, Entry.withValue, Entry.prop.injEq, PropertyOf.mk.injEq] at h
      exact h.2.1
    change baseline.propEdits q p.key (baseline.planOf p.value) = .ok edits
    rw [hkey]
    exact propEdits_of_origin horigin.symm hvalue
  · cases h
  · cases h
  · exact hvalue

/-! ## The edits of a tree -/

/-- Writes another value in the place of a string. -/
def stringEdit (baseline : Baseline) (string : Span × String) : TextEdit :=
  .replace string.1.start string.1.stop (baseline.style.string string.2)

/-- A string with another value is replaced, if the tree does not have that value in its place. -/
theorem edits_str {origin : Origin} {span : Span} {value value' : String}
    (hspan : origin.span = some span) (hne : value' ≠ value)
    (hfresh : ∀ node, baseline.tree.placedAt? span = some node → node.text? ≠ some value) :
    (baseline.planOf (str origin value)).edits (str origin value') =
      .ok [baseline.stringEdit (span, value)] := by
  have hshape : (str origin value').sameShape (str origin value) = false := by
    simpa [sameShape] using hne
  refine edits_planOf_other rfl hspan hshape fun indent => text_planOf_leaf rfl ?_ indent
  intro place node hplace hnode
  obtain rfl := Option.some.inj (hspan.symm.trans hplace)
  have htext := hfresh node hnode
  cases node with
  | str _ other =>
    have hother : other ≠ value := fun heq => htext (congrArg some heq)
    simpa [sameShape] using hother
  | _ => rfl

/-- The edits of a tree with other strings are those of the strings, if none of them has the value
    that the tree has in its place already. -/
theorem edits_of_blanked (hnested : old.nested = true) (h : old.blanked = new.blanked)
    (hfresh : ∀ p ∈ changedStrings old new, ∀ node, baseline.tree.placedAt? p.1 = some node →
      node.text? ≠ some p.2) :
    (baseline.planOf new).edits old = .ok ((changedStrings old new).map baseline.stringEdit) := by
  -- A string is changed or not, the entries of a literal go pair by pair, and all else is equal.
  induction new using byEntries generalizing old with
  | str origin value =>
    obtain ⟨value', rfl⟩ : ∃ value', old = str origin value' := by
      cases old <;> simp only [blanked, reduceCtorEq, str.injEq, and_true] at h
      exact ⟨_, by rw [h]⟩
    obtain ⟨span, hspan⟩ := Option.isSome_iff_exists.1 hnested
    have hspan' : origin.span = some span := hspan
    by_cases hvalue : value' = value
    · subst hvalue
      rw [changedStrings_self]
      exact edits_planOf_same rfl hspan (sameShape_refl _)
    · have hchanged : changedStrings (str origin value') (str origin value) = [(span, value)] := by
        simp [changedStrings, strings, hspan', Ne.symm hvalue]
      rw [hchanged] at hfresh ⊢
      exact edits_str hspan' hvalue (hfresh (span, value) List.mem_cons_self)
  | literal new hlit ih =>
    have hsame := sameContainer_of_blanked h hlit
    obtain ⟨span, hspan, hplaced, hentries⟩ :=
      nested_literal (isLiteral_of_sameContainer hsame) hnested
    obtain ⟨fresh, hplan⟩ := edits_planOf_literal baseline hspan hsame
    rw [changedStrings_literal h hlit] at hfresh ⊢
    rw [hplan, List.map_flatMap]
    refine entryEdits_of_each hplaced (origins_of_blanked h)
      (f := fun n o => (changedStrings o.value n.value).map baseline.stringEdit)
      fun pair hmem => ?_
    obtain ⟨hnew, hold⟩ := List.of_mem_zip hmem
    have hentry := List.forall₂_zip (entries_of_blanked h) hmem
    exact edits_planOfEntry_of_blanked hentry
      (ih pair.1 hnew (hentries pair.2 hold).2 (Entry.value_of_blanked hentry)
        fun p hp => hfresh p (List.mem_flatMap.2 ⟨pair, hmem, hp⟩))
  | other new hlit htext =>
    obtain rfl := eq_of_blanked h hlit htext
    obtain ⟨span, hspan, -⟩ := nested_parts hnested
    have hplaced : old.wellPlaced = true := by
      cases old with
      | object _ _ | array _ _ => cases hlit
      | _ => exact Option.isSome_iff_exists.2 ⟨span, hspan⟩
    rw [changedStrings_self]
    exact edits_self hplaced

/-! ## The edits of a draft -/

/-- Two strings at a place that only one has are the same. -/
theorem eq_of_length_textsAt {tree : Expr} {span : Span} {a b : String}
    (h : (tree.textsAt span).length ≤ 1) (ha : (span, a) ∈ tree.texts)
    (hb : (span, b) ∈ tree.texts) : a = b := by
  have ha : (span, a) ∈ tree.textsAt span := List.mem_filter.2 ⟨ha, beq_self_eq_true span⟩
  have hb : (span, b) ∈ tree.textsAt span := List.mem_filter.2 ⟨hb, beq_self_eq_true span⟩
  obtain ⟨p, hp⟩ := List.length_eq_one_iff.1 (le_antisymm h (List.length_pos_of_mem ha))
  rw [hp, List.mem_singleton] at ha hb
  exact congrArg Prod.snd (ha.trans hb.symm)

/-- The tree has no string with the new value in the place of one that is changed and stands
    there alone. -/
theorem text_ne_of_changed {tree draft node : Expr} (h : tree.blanked = draft.blanked)
    {p : Span × String} (hp : p ∈ tree.changedStrings draft)
    (halone : (tree.textsAt p.1).length ≤ 1) (hnode : tree.placedAt? p.1 = some node) :
    node.text? ≠ some p.2 := by
  intro htext
  obtain ⟨value, hvalue, hne⟩ := exists_of_mem_changedStrings h hp
  have hplaced : (p.1, node) ∈ tree.placed := by
    obtain ⟨l₁, l₂, hl, -⟩ := List.lookup_eq_some_iff.1 hnode
    rw [← List.mem_reverse, hl]
    simp
  have hmem : (p.1, p.2) ∈ tree.texts :=
    List.mem_filterMap.2 ⟨(p.1, node), hplaced, by simp [htext]⟩
  exact hne (eq_of_length_textsAt halone ((strings_sublist_texts tree).subset hvalue) hmem)

/-- The strings that are changed stand in different places if each stands in its own alone. -/
theorem nodup_changedStrings {tree draft : Expr} (h : tree.blanked = draft.blanked)
    (halone : ∀ p ∈ tree.changedStrings draft, (tree.textsAt p.1).length ≤ 1) :
    ((tree.changedStrings draft).map (·.1)).Nodup := by
  refine List.nodup_iff_count_le_one.2 fun span => ?_
  by_cases hmem : span ∈ (tree.changedStrings draft).map (·.1)
  · obtain ⟨p, hp, rfl⟩ := List.mem_map.1 hmem
    have hsub := (changedStrings_sublist h).trans ((strings_sublist_texts tree).map (·.1))
    refine (hsub.count_le p.1).trans (le_trans (le_of_eq ?_) (halone p hp))
    rw [List.count, List.countP_map, List.countP_eq_length_filter]
    rfl
  · rw [List.count_eq_zero.2 hmem]
    exact Nat.zero_le 1

/-- Replacements of strings in different places, one behind the other, are not merged. -/
theorem normalize_stringEdits {strings : List (Span × String)}
    (hle : ∀ p ∈ strings, p.1.start ≤ p.1.stop)
    (hapart : strings.Pairwise fun a b => a.1.stop ≤ b.1.start ∧ a.1 ≠ b.1) :
    TextEdit.normalize (strings.map baseline.stringEdit) =
      .ok (strings.map baseline.stringEdit) := by
  refine TextEdit.normalize_of_not_joined (List.forall_mem_map.2 hle) ?_ (List.Pairwise.isChain ?_)
  · exact List.pairwise_map.2 (hapart.imp fun h => h.1)
  · refine List.pairwise_map.2 (hapart.imp fun {a b} h => ?_)
    have hne : baseline.stringEdit b ≠ baseline.stringEdit a := by
      intro heq
      simp only [stringEdit, TextEdit.replace.injEq] at heq
      exact h.2 (by cases ha : a.1; cases hb : b.1; simp_all)
    have hlt : ¬(baseline.stringEdit b).start < (baseline.stringEdit a).stop := Nat.not_lt.2 h.1
    simp only [stringEdit] at hne hlt ⊢
    simp only [TextEdit.join, if_neg hne, if_neg hlt]

variable {draft : Expr}

/-- The strings that are changed stand one behind the other in different places, if no other string
    stands where one of them does. -/
theorem pairwise_changedStrings_of_alone (hnested : baseline.tree.nested = true)
    (hdraft : baseline.tree.blanked = draft.blanked)
    (halone : ∀ p ∈ baseline.tree.changedStrings draft, (baseline.tree.textsAt p.1).length ≤ 1) :
    (baseline.tree.changedStrings draft).Pairwise
      fun a b => a.1.stop ≤ b.1.start ∧ a.1 ≠ b.1 :=
  (pairwise_changedStrings hnested hdraft).and
    (List.pairwise_map.1 (nodup_changedStrings hdraft halone))

/-- A draft with other strings is written with one replacement for each, if no other string stands
    where one of them does. -/
theorem diff_of_alone (hplace : Span.holds ⟨0, baseline.source.length⟩ baseline.tree.span = true)
    (hnested : baseline.tree.nested = true) (hdraft : baseline.tree.blanked = draft.blanked)
    (halone : ∀ p ∈ baseline.tree.changedStrings draft, (baseline.tree.textsAt p.1).length ≤ 1) :
    baseline.diff draft = .ok ((baseline.tree.changedStrings draft).map baseline.stringEdit) := by
  have hedits := edits_of_blanked hnested hdraft fun p hp node hnode =>
    text_ne_of_changed hdraft hp (halone p hp) hnode
  have hle : ∀ p ∈ baseline.tree.changedStrings draft, p.1.start ≤ p.1.stop := by
    intro p hp
    obtain ⟨value, hvalue, -⟩ := exists_of_mem_changedStrings hdraft hp
    exact (Span.holds_some.1 (holds_of_mem_strings hplace hnested hvalue)).2.1
  rw [diff, if_pos (origin_eq_of_blanked hdraft)]
  exact bind_eq_ok.2 ⟨_, hedits, normalize_stringEdits hle
    (pairwise_changedStrings_of_alone hnested hdraft halone)⟩

/-- A draft that gives other values to strings which are reached through entries, and keeps all
    else, is written with one replacement for each of the strings, in their order, if no other
    string shares its place with one of them that is empty in the source. The tree itself is
    written as it stands. -/
theorem diff_of_blanked (baseline : Baseline) (draft : Expr)
    (hplace : Span.holds ⟨0, baseline.source.length⟩ baseline.tree.span = true)
    (hnested : baseline.tree.nested = true) (hdraft : baseline.tree.blanked = draft.blanked)
    (halone : ∀ p ∈ baseline.tree.changedStrings draft, p.1.start = p.1.stop →
      (baseline.tree.textsAt p.1).length ≤ 1) :
    baseline.diff draft = .ok ((baseline.tree.changedStrings draft).map baseline.stringEdit) ∧
      (baseline.tree.changedStrings draft).Pairwise
        (fun a b => a.1.stop ≤ b.1.start ∧ a.1 ≠ b.1) ∧
      baseline.diff baseline.tree = .ok [] := by
  have hall : ∀ p ∈ baseline.tree.changedStrings draft,
      (baseline.tree.textsAt p.1).length ≤ 1 := by
    intro p hp
    obtain ⟨value, hvalue, -⟩ := exists_of_mem_changedStrings hdraft hp
    have hle := (Span.holds_some.1 (holds_of_mem_strings hplace hnested hvalue)).2.1
    rcases Nat.eq_or_lt_of_le hle with hempty | hlt
    · exact halone p hp hempty
    · exact length_textsAt_le_one hnested hvalue hlt
  have hself : baseline.diff baseline.tree =
      .ok ((baseline.tree.changedStrings baseline.tree).map baseline.stringEdit) := by
    refine diff_of_alone hplace hnested rfl fun p hp => ?_
    rw [changedStrings_self] at hp
    exact absurd hp List.not_mem_nil
  refine ⟨diff_of_alone hplace hnested hdraft hall,
    pairwise_changedStrings_of_alone hnested hdraft hall, ?_⟩
  rw [hself, changedStrings_self]
  rfl

/-- A literal `{ id: 'm', tags: ['x', 'y'], on: go('e') }` with other values of the first and the
    third string. -/
theorem diff_of_blanked_twoStrings :
    let origin (start stop : Nat) : Origin := .source ⟨start, stop⟩
    let tree (id tag : String) : Expr := .object (origin 0 42) [
      ⟨origin 2 9, .ident "id", some ⟨2, 4⟩, .str (origin 6 9) id⟩,
      ⟨origin 11 27, .ident "tags", some ⟨11, 15⟩,
        .array (origin 17 27) [.str (origin 18 21) "x", .str (origin 23 26) tag]⟩,
      ⟨origin 29 40, .ident "on", some ⟨29, 31⟩,
        .call (origin 33 40) (.ident (origin 33 35) "go") [.str (origin 36 39) "e"]⟩]
    let baseline : Baseline :=
      ⟨utf8 "\x7b id: 'm', tags: ['x', 'y'], on: go('e') \x7d", {}, tree "m" "y"⟩
    baseline.diff (tree "n" "it's") =
        .ok [.replace 6 9 "'n'", .replace 23 26 "'it\\'s'"] ∧
      baseline.diff (tree "m" "y") = .ok [] := by
  intro origin tree baseline
  have hchanged : baseline.tree.changedStrings (tree "n" "it's") =
      [(⟨6, 9⟩, "n"), (⟨23, 26⟩, "it's")] := by
    decide
  obtain ⟨hdiff, -, hself⟩ := diff_of_blanked baseline (tree "n" "it's") (by decide) (by decide)
    rfl (by rw [hchanged]; decide)
  refine ⟨hdiff.trans ?_, hself⟩
  rw [hchanged]
  decide

/-- Two strings without a text of their own, in one place between two properties: both get the same
    new value, and the two replacements are taken for one. -/
theorem diff_sharedPlace :
    let origin (start stop : Nat) : Origin := .source ⟨start, stop⟩
    let tree (a b : String) : Expr := .object (origin 0 8) [
      ⟨origin 2 4, .ident "a", some ⟨2, 3⟩, .str (origin 4 4) a⟩,
      ⟨origin 4 6, .ident "b", some ⟨4, 5⟩, .str (origin 4 4) b⟩]
    let baseline : Baseline := ⟨utf8 "\x7b a:b: \x7d", {}, tree "x" "y"⟩
    let draft := tree "n" "n"
    Span.holds ⟨0, baseline.source.length⟩ baseline.tree.span = true ∧
      baseline.tree.nested = true ∧ baseline.tree.blanked = draft.blanked ∧
      (baseline.tree.changedStrings draft).length = 2 ∧
      baseline.diff draft = .ok [.replace 4 4 "'n'"] ∧
      baseline.diff draft ≠
        .ok ((baseline.tree.changedStrings draft).map baseline.stringEdit) := by
  intro origin tree baseline draft
  have hnested : baseline.tree.nested = true := by decide
  have hdraft : baseline.tree.blanked = draft.blanked := rfl
  have hchanged : baseline.tree.changedStrings draft = [(⟨4, 4⟩, "n"), (⟨4, 4⟩, "n")] := by decide
  have hedits : (baseline.planOf draft).edits baseline.tree =
      .ok [.replace 4 4 "'n'", .replace 4 4 "'n'"] := by
    have hfound : baseline.tree.placedAt? ⟨4, 4⟩ = some (.str (origin 4 4) "y") := rfl
    rw [edits_of_blanked hnested hdraft, hchanged]
    · decide
    · rw [hchanged]
      simp [hfound, text?]
  have hmerged : TextEdit.normalize [.replace 4 4 "'n'", .replace 4 4 "'n'"] =
      .ok [.replace 4 4 "'n'"] := by
    rw [TextEdit.normalize, TextEdit.sorted, List.mergeSort_of_pairwise (by decide)]
    decide
  have hdiff : baseline.diff draft = .ok [.replace 4 4 "'n'"] := by
    rw [diff, if_pos (origin_eq_of_blanked hdraft)]
    exact bind_eq_ok.2 ⟨_, hedits, hmerged⟩
  refine ⟨by decide, hnested, hdraft, by rw [hchanged]; rfl, hdiff, ?_⟩
  rw [hdiff, hchanged]
  decide

end Statechart.Baseline
