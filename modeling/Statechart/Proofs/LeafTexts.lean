import Statechart.Proofs.EntryEdits
import Statechart.Proofs.Layouts
import Statechart.Proofs.Scripts
import Statechart.Proofs.Splicing

/-!
# Texts of leaves

What an entry with a leaf is written as: in its place the leaf is edited if it has changed, and in
another place the entry keeps its text with the leaf edited in it.

* `Baseline.Standing`: the entries of a literal stand in the source where they say;
* `DraftEntry.IsWritten`: how an entry of a draft is written, in its place and in another;
* `Baseline.Standing.exists_draft`: what an entry of a draft adds to the text is what it is
  written as.
-/

namespace Statechart

open Splice

/-! ## Moving a text -/

namespace Text

/-- A text is put together again from its lines. -/
theorem append_flatMap_splitOnChar (sep : Char) (cs : List Char) :
    ∃ first rest, splitOnChar sep cs = first :: rest ∧
      first ++ rest.flatMap (fun line => sep :: line) = cs := by
  induction cs with
  | nil => exact ⟨[], [], rfl, rfl⟩
  | cons c cs ih =>
    obtain ⟨first, rest, hsplit, hjoin⟩ := ih
    rw [splitOnChar, hsplit]
    split
    · next hsep =>
      refine ⟨[], first :: rest, rfl, ?_⟩
      rw [List.nil_append, List.flatMap_cons, List.cons_append, hjoin, beq_iff_eq.1 hsep]
    · exact ⟨c :: first, rest, rfl, by rw [List.cons_append, hjoin]⟩

theorem eq_append_of_afterStart? {α : Type} [BEq α] [LawfulBEq α] : ∀ {start l rest : List α},
    afterStart? start l = some rest → l = start ++ rest
  | [], _, _, h => Option.some.inj h
  | a :: start, b :: l, rest, h => by
    rw [afterStart?] at h
    split at h
    · next hab => rw [beq_iff_eq.1 hab, eq_append_of_afterStart? h, List.cons_append]
    · cases h

/-- Moved to the indentation that it has, a text stays as it is. -/
theorem reindent_self (fragment indent : String) : reindent fragment indent indent = fragment := by
  have hline : ∀ line : List Char, reindentLine indent.toList indent.toList line = line := by
    intro line
    rw [reindentLine]
    split
    · next rest h => exact (eq_append_of_afterStart? h).symm
    · rfl
  obtain ⟨first, rest, hsplit, hjoin⟩ := append_flatMap_splitOnChar '\n' fragment.toList
  simp only [reindent, hsplit, hline]
  rw [hjoin, String.ofList_toList]

end Text

namespace Piece

variable {piece : Piece}

/-- What becomes of the text of an entry if its leaf is replaced. -/
def steps (piece : Piece) (leaf? : Option String) : Script :=
  [.copy piece.head,
    match leaf? with
    | some leaf => .swap piece.leaf leaf
    | none => .copy piece.leaf,
    .copy piece.tail]

/-- The edits that replace the leaf. -/
def leafEdits (piece : Piece) (leaf? : Option String) : List TextEdit :=
  leaf?.toList.map fun leaf => .replace piece.leafSpan.start piece.leafSpan.stop leaf

theorem oldText_steps (piece : Piece) (leaf? : Option String) :
    Script.oldText (piece.steps leaf?) = piece.text := by
  cases leaf? <;> simp [steps, Step.oldText, text, withLeaf, String.append_assoc]

theorem newText_steps (piece : Piece) (leaf? : Option String) :
    Script.newText (piece.steps leaf?) = piece.withLeaf (leaf?.getD piece.leaf) := by
  cases leaf? <;> simp [steps, Step.newText, withLeaf, String.append_assoc]

theorem edits_steps (piece : Piece) (leaf? : Option String) :
    Script.edits piece.start (piece.steps leaf?) = piece.leafEdits leaf? := by
  cases leaf? <;> simp [steps, Script.edits, Step.edits, Step.oldText, leafEdits, leafSpan]

theorem isSound_steps_append (h : piece.leaf ≠ "") (free : Bool) (leaf? : Option String)
    (rest : Script) :
    Script.isSound free (piece.steps leaf? ++ rest) = Script.isSound true rest := by
  have hleaf : (piece.leaf != "") = true := bne_iff_ne.2 h
  cases leaf? <;> simp [steps, Script.isSound, hleaf]

theorem IsPlaced.text_ne (h : piece.IsPlaced) : piece.text ≠ "" := by
  intro htext
  have hleaf := length_utf8_pos h.leaf_ne
  have hlength : (utf8 piece.text).length = 0 := by rw [htext]; rfl
  simp only [text, withLeaf, utf8_append, List.length_append] at hlength
  omega

/-- An item is nothing but its leaf. -/
theorem IsPlaced.eq_of_item (h : piece.IsPlaced) {e : Expr} (hitem : piece.entry = .item e) :
    piece.leafSpan = piece.span ∧ ∀ leaf, piece.withLeaf leaf = leaf := by
  have hspan : some piece.leafSpan = some piece.span := by
    rw [← h.span_eq, ← h.leafSpan_eq, hitem]
    rfl
  have hspan := Option.some.inj hspan
  refine ⟨hspan, fun leaf => ?_⟩
  have hstart := congrArg Span.start hspan
  have hstop := congrArg Span.stop hspan
  simp only [leafSpan, span, text, withLeaf, utf8_append, List.length_append] at hstart hstop
  have hhead : piece.head = "" := by
    by_contra hne
    have := length_utf8_pos hne
    omega
  have htail : piece.tail = "" := by
    by_contra hne
    have := length_utf8_pos hne
    omega
  simp [withLeaf, hhead, htail]

end Piece

theorem TextEdit.normalize_toList (edit? : Option TextEdit) :
    TextEdit.normalize edit?.toList = .ok edit?.toList := by
  cases edit? <;> simp [TextEdit.normalize, TextEdit.sorted, TextEdit.joinFrom]

namespace Baseline

variable {baseline : Baseline} {pieces : List Piece} {piece : Piece} {indent : String}

variable (baseline) in
/-- The entries of the literal stand in the source where they say, on lines of one
    indentation. -/
structure Standing (pieces : List Piece) (indent : String) : Prop where
  entries_eq : Entry.ofExpr baseline.tree = pieces.map Piece.entry
  placed : ∀ piece ∈ pieces, piece.IsPlaced
  ordered : pieces.Pairwise fun p q => p.span.stop < q.start
  slice_eq : ∀ piece ∈ pieces, piece.span.slice baseline.source = piece.text
  indent_eq : ∀ piece ∈ pieces, Text.indentAt baseline.source piece.start = indent

/-- A text is not moved with an edit that starts before it. -/
theorem movedText_of_start_lt {span : Span} {edits merged : List TextEdit} {edit : TextEdit}
    (hmerged : TextEdit.normalize edits = .ok merged) (hedit : edit ∈ merged)
    (hstart : edit.start < span.start)
    (hroom : span.start + (utf8 (span.slice baseline.source)).length < 18446744073709551616)
    (indent : String) : ∃ error, baseline.movedText span edits indent = .error error := by
  obtain ⟨bad, -, -, hrefused⟩ := TextEdit.applyAll_of_leavesText
    ⟨_, List.mem_map_of_mem (f := TextEdit.shifted span.start) hedit,
      TextEdit.leavesText_shifted hstart hroom⟩
  refine ⟨.outOfBounds bad.start bad.stop (utf8 (span.slice baseline.source)).length, ?_⟩
  simp only [movedText, hmerged, bind, Except.bind, hrefused]

/-- The text of an entry with its leaf replaced, in another place. -/
theorem movedText_leafEdits (hplaced : piece.IsPlaced)
    (hslice : piece.span.slice baseline.source = piece.text)
    (hindent : Text.indentAt baseline.source piece.start = indent) (leaf? : Option String) :
    baseline.movedText piece.span (piece.leafEdits leaf?) indent
      = .ok (piece.withLeaf (leaf?.getD piece.leaf)) := by
  have hnormal : TextEdit.normalize (piece.leafEdits leaf?) = .ok (piece.leafEdits leaf?) := by
    rw [Piece.leafEdits, ← Option.toList_map, TextEdit.normalize_toList]
  have hshifted : (piece.leafEdits leaf?).map (·.shifted piece.span.start)
      = Script.edits 0 (piece.steps leaf?) := by
    cases leaf? with
    | none => rfl
    | some leaf =>
      have hstart : piece.start ≤ piece.start + (utf8 piece.head).length := Nat.le_add_right _ _
      simp [Piece.leafEdits, Piece.leafSpan, Piece.span, TextEdit.shifted, Piece.steps,
        Script.edits, Step.edits, Step.oldText, Nat.add_assoc, TextEdit.distance_of_le]
  have hsound : Script.isSound true (piece.steps leaf?) = true := by
    rw [← List.append_nil (piece.steps leaf?), Piece.isSound_steps_append hplaced.leaf_ne]
    rfl
  obtain ⟨merged, hmerged, happly⟩ := Script.applyAll_of_perm hsound (List.Perm.refl _)
  have hsame : TextEdit.normalize (Script.edits 0 (piece.steps leaf?))
      = .ok (Script.edits 0 (piece.steps leaf?)) := by
    rw [← hshifted, Piece.leafEdits, ← Option.toList_map, ← Option.toList_map,
      TextEdit.normalize_toList]
  obtain rfl : Script.edits 0 (piece.steps leaf?) = merged := by
    rw [hsame] at hmerged
    exact Except.ok.inj hmerged
  rw [Piece.oldText_steps, Piece.newText_steps] at happly
  refine bind_eq_ok.2 ⟨_, hnormal, bind_eq_ok.2 ⟨piece.withLeaf (leaf?.getD piece.leaf), ?_, ?_⟩⟩
  · rw [hslice, hshifted]
    exact happly
  · rw [show piece.span.start = piece.start from rfl, hindent, Text.reindent_self]
    rfl

/-! ## Leaves of the literal -/

theorem lookup_reverse_map {κ ν : Type} [BEq κ] [LawfulBEq κ] {key : Piece → κ} (val : Piece → ν)
    (hkeys : pieces.Pairwise fun p q => key p ≠ key q) (hmem : piece ∈ pieces) :
    (pieces.map fun p => (key p, val p)).reverse.lookup (key piece) = some (val piece) := by
  obtain ⟨before, after, rfl⟩ := List.append_of_mem hmem
  rw [List.pairwise_append, List.pairwise_cons] at hkeys
  refine List.lookup_eq_some_iff.2 ⟨(after.map fun p => (key p, val p)).reverse,
    (before.map fun p => (key p, val p)).reverse, ?_, fun p hp => ?_⟩
  · simp
  · obtain ⟨q, hq, rfl⟩ := List.mem_map.1 (List.mem_reverse.1 hp)
    exact bne_iff_ne.2 (hkeys.2.1.1 q hq)

theorem Standing.pairwise_leafSpan (h : baseline.Standing pieces indent) :
    pieces.Pairwise fun p q => p.leafSpan ≠ q.leafSpan := by
  refine h.ordered.imp fun {p q} hpq heq => ?_
  have hstart := congrArg Span.start heq
  simp only [Piece.leafSpan, Piece.span, Piece.text, Piece.withLeaf, utf8_append,
    List.length_append] at hstart hpq
  omega

theorem Standing.pairwise_span (h : baseline.Standing pieces indent) :
    pieces.Pairwise fun p q => p.span ≠ q.span := by
  refine h.ordered.imp fun {p q} hpq heq => ?_
  have hstart := congrArg Span.start heq
  simp only [Piece.span] at hstart hpq
  omega

theorem placed_of_isLeaf {leaf : Expr} {span : Span} (hleaf : leaf.isLeaf = true)
    (hspan : leaf.span = some span) : leaf.placed = [(span, leaf)] := by
  have hplace : leaf.place = [(span, leaf)] := by rw [Expr.place, hspan]; rfl
  cases leaf <;> first | exact hplace | exact absurd hleaf (by simp [Expr.isLeaf])

theorem placedProps_of_isLeaf {leaf : Expr} (hleaf : leaf.isLeaf = true) :
    leaf.placedProps = [] := by
  cases leaf <;> first | rfl | exact absurd hleaf (by simp [Expr.isLeaf])

theorem placedInProps_eq {props : List Property} (hplaced : ∀ p ∈ pieces, p.IsPlaced)
    (hprops : props.map Entry.prop = pieces.map Piece.entry) :
    Expr.placedInProps props = pieces.map fun p => (p.leafSpan, p.entry.value) := by
  induction props generalizing pieces with
  | nil => rw [List.map_eq_nil_iff.1 hprops.symm]; rfl
  | cons prop props ih =>
    obtain ⟨p, pieces, rfl, hprop, hrest⟩ := List.map_eq_cons_iff.1 hprops.symm
    have hp := hplaced p List.mem_cons_self
    have hvalue : p.entry.value = prop.value := by rw [hprop]; rfl
    rw [Expr.placedInProps, ih (fun q hq => hplaced q (List.mem_cons_of_mem _ hq)) hrest.symm,
      List.map_cons, hvalue, placed_of_isLeaf (hvalue ▸ hp.isLeaf) (hvalue ▸ hp.leafSpan_eq)]
    rfl

theorem placedInItems_eq {items : List Expr} (hplaced : ∀ p ∈ pieces, p.IsPlaced)
    (hitems : items.map Entry.item = pieces.map Piece.entry) :
    Expr.placedInItems items = pieces.map fun p => (p.leafSpan, p.entry.value) := by
  induction items generalizing pieces with
  | nil => rw [List.map_eq_nil_iff.1 hitems.symm]; rfl
  | cons item items ih =>
    obtain ⟨p, pieces, rfl, hitem, hrest⟩ := List.map_eq_cons_iff.1 hitems.symm
    have hp := hplaced p List.mem_cons_self
    have hvalue : p.entry.value = item := by rw [hitem]; rfl
    rw [Expr.placedInItems, ih (fun q hq => hplaced q (List.mem_cons_of_mem _ hq)) hrest.symm,
      List.map_cons, hvalue, placed_of_isLeaf (hvalue ▸ hp.isLeaf) (hvalue ▸ hp.leafSpan_eq)]
    rfl

/-- The node at the place of a leaf is the leaf. -/
theorem Standing.placedAt?_leafSpan (h : baseline.Standing pieces indent) (hmem : piece ∈ pieces) :
    baseline.tree.placedAt? piece.leafSpan = some piece.entry.value := by
  have hplaced : baseline.tree.placed
      = baseline.tree.place ++ pieces.map fun p => (p.leafSpan, p.entry.value) := by
    have hentries := h.entries_eq
    cases htree : baseline.tree with
    | object origin props =>
      rw [htree] at hentries
      rw [Expr.placed, placedInProps_eq h.placed hentries]
    | array origin items =>
      rw [htree] at hentries
      rw [Expr.placed, placedInItems_eq h.placed hentries]
    | _ =>
      rw [htree] at hentries
      rw [List.map_eq_nil_iff.1 hentries.symm] at hmem
      exact absurd hmem List.not_mem_nil
  rw [Expr.placedAt?, hplaced, List.reverse_append, List.lookup_append,
    lookup_reverse_map _ h.pairwise_leafSpan hmem, Option.some_or]

/-- The property at the place of one is that property. -/
theorem Standing.placedPropAt?_span (h : baseline.Standing pieces indent) (hmem : piece ∈ pieces)
    {prop : Property} (hprop : piece.entry = .prop prop) :
    baseline.tree.placedPropAt? piece.span = some prop := by
  have hentries := h.entries_eq
  -- The properties of an object with leaves are its own.
  have hlist : ∀ {props : List Property} {pieces : List Piece}, (∀ p ∈ pieces, p.IsPlaced) →
      props.map Entry.prop = pieces.map Piece.entry →
      (Expr.propsInProps props).map (Prod.map id Entry.prop)
        = pieces.map fun p => (p.span, p.entry) := by
    intro props
    induction props with
    | nil =>
      intro pieces _ hprops
      rw [List.map_eq_nil_iff.1 hprops.symm]
      rfl
    | cons prop props ih =>
      intro pieces hplaced hprops
      obtain ⟨p, pieces, rfl, hentry, hrest⟩ := List.map_eq_cons_iff.1 hprops.symm
      have hp := hplaced p List.mem_cons_self
      have hspan : prop.origin.span = some p.span := by rw [← hp.span_eq, hentry]; rfl
      have hleaf : prop.value.isLeaf = true := by simpa [hentry, Entry.value] using hp.isLeaf
      rw [Expr.propsInProps, hspan, placedProps_of_isLeaf hleaf, List.append_nil, List.map_append,
        ih (fun q hq => hplaced q (List.mem_cons_of_mem _ hq)) hrest.symm, List.map_cons, hentry]
      rfl
  cases htree : baseline.tree with
  | object origin props =>
    rw [htree] at hentries
    have hlookup := lookup_reverse_map Piece.entry h.pairwise_span hmem
    rw [← hlist h.placed hentries, ← List.map_reverse] at hlookup
    rw [List.lookup_eq_some_iff] at hlookup
    obtain ⟨l₁, l₂, heq, hne⟩ := hlookup
    obtain ⟨l₁, l₂, hl, rfl, hl₂⟩ := List.map_eq_append_iff.1 heq
    obtain ⟨⟨s, q⟩, l₂, rfl, hpair, -⟩ := List.map_eq_cons_iff.1 hl₂
    simp only [Prod.map_apply, id_eq, Prod.mk.injEq, hprop, Entry.prop.injEq] at hpair
    obtain ⟨rfl, rfl⟩ := hpair
    refine List.lookup_eq_some_iff.2 ⟨l₁, l₂, hl, fun p hp => ?_⟩
    exact hne _ (List.mem_map_of_mem hp)
  | array origin items =>
    rw [htree] at hentries
    have hitem : piece.entry ∈ Entry.ofExpr (.array origin items) := by
      rw [hentries]
      exact List.mem_map_of_mem hmem
    obtain ⟨item, -, hitem⟩ := List.mem_map.1 hitem
    rw [hprop] at hitem
    cases hitem
  | _ =>
    rw [htree] at hentries
    rw [List.map_eq_nil_iff.1 hentries.symm] at hmem
    exact absurd hmem List.not_mem_nil

/-! ## Plans of leaves -/

theorem planOf_of_isLeaf {leaf : Expr} (hleaf : leaf.isLeaf = true) :
    baseline.planOf leaf = baseline.plan leaf (fun _ => pure (baseline.leafText leaf)) [] := by
  cases leaf <;> first | rfl | exact absurd hleaf (by simp [Expr.isLeaf])

theorem sameContainer_of_isLeaf {old leaf : Expr} (hleaf : leaf.isLeaf = true) :
    sameContainer old leaf = false := by
  cases leaf <;> first
    | (cases old <;> rfl)
    | exact absurd hleaf (by simp [Expr.isLeaf])

/-- A leaf that cannot be found again is written anew. -/
theorem text_planOf_leaf {leaf : Expr} (hleaf : leaf.isLeaf = true)
    (hfresh : ∀ span old, leaf.span = some span → baseline.tree.placedAt? span = some old →
      old.sameShape leaf = false) (indent : String) :
    (baseline.planOf leaf).text indent = .ok (baseline.leafText leaf) := by
  have hnone : (leaf.span.bind fun span =>
      ((baseline.tree.placedAt? span).filter (isReusable · leaf)).map (span, ·)) = none := by
    refine Option.bind_eq_none_iff.2 fun span hspan => Option.map_eq_none_iff.2 ?_
    refine Option.filter_eq_none_iff.2 fun old hold => ?_
    simp [isReusable, sameContainer_of_isLeaf hleaf, hfresh span old hspan hold]
  rw [planOf_of_isLeaf hleaf]
  simp only [plan, hnone]
  rfl

/-- A leaf that says the same is not edited. -/
theorem edits_planOf_same {old leaf : Expr} {span : Span} (hleaf : leaf.isLeaf = true)
    (hspan : old.span = some span) (hsame : old.sameShape leaf = true) :
    (baseline.planOf leaf).edits old = .ok [] := by
  rw [planOf_of_isLeaf hleaf]
  simp only [plan, hspan, isReusable, hsame, Bool.or_true, if_true, sameContainer_of_isLeaf hleaf,
    Bool.false_eq_true, if_false]
  rfl

/-- Another leaf is written in the place of the old one. -/
theorem edits_planOf_other {old leaf : Expr} {span : Span} {text : String}
    (hleaf : leaf.isLeaf = true) (hspan : old.span = some span) (hsame : old.sameShape leaf = false)
    (htext : ∀ indent, (baseline.planOf leaf).text indent = .ok text) :
    (baseline.planOf leaf).edits old = .ok [.replace span.start span.stop text] := by
  have hedits : (baseline.planOf leaf).edits old
      = baseline.replacement span span.start (baseline.planOf leaf).text := by
    rw [planOf_of_isLeaf hleaf]
    simp only [plan, hspan, isReusable, hsame, sameContainer_of_isLeaf hleaf, Bool.or_self,
      Bool.false_eq_true, if_false]
  rw [hedits]
  exact bind_eq_ok.2 ⟨text, htext _, rfl⟩

/-- A property that gets another node has that written in the place of its value. -/
theorem propEdits_of_ne {prop : Property} {value : Expr} {span : Span} {text : String}
    (horigin : prop.value.origin ≠ value.origin) (hspan : prop.value.span = some span)
    (htext : ∀ indent, (baseline.planOf value).text indent = .ok text) :
    baseline.propEdits prop prop.key (baseline.planOf value)
      = .ok [.replace span.start span.stop text] := by
  simp only [propEdits, node_planOf, if_neg horigin, hspan, keyEdits_self, htext]
  rfl

end Baseline

/-! ## Entries of a draft -/

/-- An entry of a draft with the text that it adds, and the leaf that is written in the place of
    the old one if it stays where it is. -/
structure DraftEntry where
  entry : Entry
  text : String
  leaf? : Option String

/-- The entry is written as its text in another place; in its own, by replacing the leaf, which
    makes the same text. -/
structure DraftEntry.IsWritten (baseline : Baseline) (pieces : List Piece) (indent : String)
    (draft : DraftEntry) : Prop where
  text_eq : (baseline.planOfEntry draft.entry).text indent = .ok draft.text
  edits_eq : ∀ piece ∈ pieces, draft.entry.origin = piece.entry.origin →
    (baseline.planOfEntry draft.entry).edits piece.entry = .ok (piece.leafEdits draft.leaf?) ∧
      draft.text = piece.withLeaf (draft.leaf?.getD piece.leaf)

namespace Baseline

variable {baseline : Baseline} {pieces : List Piece} {piece : Piece} {indent : String}

theorem Standing.eq_of_origin (h : baseline.Standing pieces indent) {p q : Piece}
    (hp : p ∈ pieces) (hq : q ∈ pieces) (horigin : p.entry.origin = q.entry.origin) : p = q := by
  have hspan : some p.span = some q.span := by
    rw [← (h.placed p hp).span_eq, ← (h.placed q hq).span_eq, Entry.span, horigin, Entry.span]
  have hfound := lookup_reverse_map id h.pairwise_span hp
  rw [Option.some.inj hspan, lookup_reverse_map id h.pairwise_span hq] at hfound
  exact (Option.some.inj hfound).symm

/-- A property with its leaf replaced, or as it was. -/
theorem Standing.isWritten_prop (h : baseline.Standing pieces indent) (hmem : piece ∈ pieces)
    {prop : Property} (hprop : piece.entry = .prop prop) (value : Expr) (leaf? : Option String)
    (hedits : baseline.propEdits prop prop.key (baseline.planOf value)
      = .ok (piece.leafEdits leaf?)) :
    DraftEntry.IsWritten baseline pieces indent ⟨.prop { prop with value := value },
      piece.withLeaf (leaf?.getD piece.leaf), leaf?⟩ := by
  have hplaced := h.placed piece hmem
  refine ⟨?_, fun q hq horigin => ?_⟩
  · have hspan : prop.origin.span = some piece.span := by rw [← hplaced.span_eq, hprop]; rfl
    simp only [planOfEntry, propPlan, hspan, Option.bind_some, h.placedPropAt?_span hmem hprop,
      Option.map_some]
    refine bind_eq_ok.2 ⟨_, hedits, ?_⟩
    exact movedText_leafEdits hplaced (h.slice_eq piece hmem) (h.indent_eq piece hmem) leaf?
  · obtain rfl : piece = q := h.eq_of_origin hmem hq (by rw [hprop]; exact horigin)
    rw [hprop]
    exact ⟨hedits, rfl⟩

/-- An item with another text, or as it was. -/
theorem Standing.isWritten_item (h : baseline.Standing pieces indent) (hmem : piece ∈ pieces)
    {item value : Expr} (hitem : piece.entry = .item item) (horigin : value.origin = item.origin)
    (leaf? : Option String)
    (hedits : (baseline.planOf value).edits item = .ok (piece.leafEdits leaf?))
    (htext : (baseline.planOf value).text indent = .ok (leaf?.getD piece.leaf)) :
    DraftEntry.IsWritten baseline pieces indent ⟨.item value,
      piece.withLeaf (leaf?.getD piece.leaf), leaf?⟩ := by
  refine ⟨?_, fun q hq horigin' => ?_⟩
  · rw [((h.placed piece hmem).eq_of_item hitem).2]
    exact htext
  · obtain rfl : piece = q := h.eq_of_origin hmem hq (by
      rw [hitem]
      exact horigin.symm.trans horigin')
    rw [hitem]
    exact ⟨hedits, rfl⟩

/-- An item that has moved keeps its text. -/
theorem Standing.text_planOf_item (h : baseline.Standing pieces indent) (hmem : piece ∈ pieces)
    {item : Expr} (hitem : piece.entry = .item item) :
    (baseline.planOf item).text indent = .ok piece.leaf := by
  have hplaced := h.placed piece hmem
  obtain ⟨hspan, htext⟩ := hplaced.eq_of_item hitem
  have hleaf : item.isLeaf = true := by simpa [hitem, Entry.value] using hplaced.isLeaf
  have hplace : item.span = some piece.span := by
    rw [← hspan, ← hplaced.leafSpan_eq, hitem]
    rfl
  have hfound : baseline.tree.placedAt? piece.span = some item := by
    rw [← hspan, h.placedAt?_leafSpan hmem, hitem]
    rfl
  rw [planOf_of_isLeaf hleaf]
  simp only [plan, hplace, Option.bind_some, hfound, Option.filter_some, isReusable,
    Expr.sameShape_refl, Bool.or_true, if_true, Option.map_some,
    sameContainer_of_isLeaf hleaf, Bool.false_eq_true, if_false]
  have hmoved := movedText_leafEdits hplaced (h.slice_eq piece hmem) (h.indent_eq piece hmem) none
  rw [htext] at hmoved
  exact hmoved

theorem Standing.isWritten_kept (h : baseline.Standing pieces indent) (hmem : piece ∈ pieces) :
    DraftEntry.IsWritten baseline pieces indent ⟨piece.entry, piece.text, none⟩ := by
  have hplaced := h.placed piece hmem
  have hvalue : (baseline.planOf piece.entry.value).edits piece.entry.value = .ok [] :=
    edits_planOf_same hplaced.isLeaf hplaced.leafSpan_eq (Expr.sameShape_refl piece.entry.value)
  cases hentry : piece.entry with
  | prop prop =>
    rw [hentry] at hvalue
    exact h.isWritten_prop hmem hentry prop.value none (propEdits_of_origin rfl hvalue)
  | item item =>
    rw [hentry] at hvalue
    exact h.isWritten_item hmem hentry rfl none hvalue (h.text_planOf_item hmem hentry)

theorem Standing.isWritten_changed (h : baseline.Standing pieces indent) (hmem : piece ∈ pieces)
    {origin : Origin} {value value' : String} (hvalue : piece.entry.value = .str origin value)
    (hne : value' ≠ value) :
    DraftEntry.IsWritten baseline pieces indent ⟨piece.entry.withValue (.str origin value'),
      piece.withLeaf (baseline.style.string value'), some (baseline.style.string value')⟩ := by
  have hshape : Expr.sameShape (.str origin value) (.str origin value') = false := by
    simpa [Expr.sameShape] using Ne.symm hne
  have hleafSpan : (Expr.str origin value).span = some piece.leafSpan :=
    hvalue ▸ (h.placed piece hmem).leafSpan_eq
  have htext : ∀ indent, (baseline.planOf (.str origin value')).text indent
      = .ok (baseline.style.string value') := by
    refine text_planOf_leaf rfl fun span old hspan hold => ?_
    obtain rfl := Option.some.inj (hleafSpan.symm.trans hspan)
    rw [h.placedAt?_leafSpan hmem, hvalue] at hold
    obtain rfl := Option.some.inj hold
    exact hshape
  have hedits : (baseline.planOf (.str origin value')).edits (.str origin value)
      = .ok (piece.leafEdits (some (baseline.style.string value'))) :=
    edits_planOf_other rfl hleafSpan hshape htext
  cases hentry : piece.entry with
  | prop prop =>
    have hprop : prop.value = .str origin value := by simpa [hentry, Entry.value] using hvalue
    refine h.isWritten_prop hmem hentry (.str origin value')
      (some (baseline.style.string value')) (propEdits_of_origin ?_ ?_)
    · rw [hprop]
      rfl
    · rw [hprop]
      exact hedits
  | item item =>
    have hitem : item = .str origin value := by simpa [hentry, Entry.value] using hvalue
    refine h.isWritten_item hmem hentry (by rw [hitem]; rfl)
      (some (baseline.style.string value')) ?_ (htext indent)
    rw [hitem]
    exact hedits

theorem Standing.isWritten_replaced (h : baseline.Standing pieces indent) (hmem : piece ∈ pieces)
    {prop : Property} {leaf : Expr} (hprop : piece.entry = .prop prop)
    (hleaf : leaf.isLeaf = true) (hnew : leaf.span = none) :
    DraftEntry.IsWritten baseline pieces indent ⟨.prop { prop with value := leaf },
      piece.withLeaf (baseline.leafText leaf), some (baseline.leafText leaf)⟩ := by
  have hleafSpan : prop.value.span = some piece.leafSpan := by
    rw [← (h.placed piece hmem).leafSpan_eq, hprop]
    rfl
  have hother : prop.value.origin ≠ leaf.origin := by
    intro heq
    rw [Expr.span, heq, ← Expr.span, hnew] at hleafSpan
    cases hleafSpan
  refine h.isWritten_prop hmem hprop leaf (some (baseline.leafText leaf))
    (propEdits_of_ne hother hleafSpan ?_)
  refine text_planOf_leaf hleaf fun span old hspan _ => ?_
  rw [hnew] at hspan
  cases hspan

theorem Standing.isWritten_new (h : baseline.Standing pieces indent) {entry : Entry}
    (hleaf : entry.value.isLeaf = true) (hnew : entry.span = none)
    (hvalue : entry.value.span = none) :
    DraftEntry.IsWritten baseline pieces indent ⟨entry, baseline.newText entry, none⟩ := by
  have htext : ∀ indent, (baseline.planOf entry.value).text indent
      = .ok (baseline.leafText entry.value) := by
    refine text_planOf_leaf hleaf fun span old hspan _ => ?_
    rw [hvalue] at hspan
    cases hspan
  refine ⟨?_, fun piece hmem horigin => ?_⟩
  · obtain ⟨⟨origin, key, keySpan, value⟩⟩ | ⟨item⟩ := entry
    · have hnone : origin.span = none := hnew
      simp only [planOfEntry, propPlan, hnone, Option.bind_none]
      refine bind_eq_ok.2 ⟨_, htext indent, ?_⟩
      cases key <;> rfl
    · exact htext indent
  · -- It has no place, so it is no entry of the literal.
    have hspan := (h.placed piece hmem).span_eq
    rw [Entry.span, ← horigin, ← Entry.span, hnew] at hspan
    cases hspan

/-- What an entry of a draft adds to the text is what it is written as. -/
theorem Standing.exists_draft (h : baseline.Standing pieces indent) {entry : Entry} {text : String}
    (hdraft : baseline.Drafts pieces entry text) :
    ∃ leaf?, DraftEntry.IsWritten baseline pieces indent ⟨entry, text, leaf?⟩ := by
  cases hdraft with
  | kept hmem => exact ⟨_, h.isWritten_kept hmem⟩
  | changed hmem hvalue hne => exact ⟨_, h.isWritten_changed hmem hvalue hne⟩
  | replaced hmem hprop hleaf hnew => exact ⟨_, h.isWritten_replaced hmem hprop hleaf hnew⟩
  | new hleaf hnew hvalue => exact ⟨_, h.isWritten_new hleaf hnew hvalue⟩

end Baseline

end Statechart
