import Statechart.Proofs.LayoutEdits

/-!
# Layouts are kept

A literal of leaves that is written in one of the two layouts is written in the same layout after
an edit, with the entries of the draft in their order. Entries may be kept, dropped, moved and
repeated, their leaves may be replaced, and new ones may stand anywhere between them, as long as
one entry of the literal is left.

* `Baseline.LaidOut.standing`: the entries of a literal in a layout stand where they say;
* `Baseline.LaidOut.spansLines_eq`: the literal spans lines just in the layout with lines;
* `Baseline.LaidOut.exists_script`: what becomes of such a literal has a script;
* `Baseline.diff_keeps_layout`: the edits of a draft can be made, and give the entries of the
  draft in the layout.
-/

namespace Statechart

open Splice EntrySlot

/-! ## Texts in a layout -/

theorem lineFeed_not_mem_surround {before after : String} {texts : List String}
    (hbefore : '\n' ∉ before.toList) (hafter : '\n' ∉ after.toList)
    (htexts : ∀ text ∈ texts, '\n' ∉ text.toList) :
    '\n' ∉ (surround before after texts).toList := by
  rw [surround, String.toList_join, List.mem_flatMap]
  rintro ⟨part, hpart, hmem⟩
  obtain ⟨text, htext, rfl⟩ := List.mem_map.1 hpart
  simp only [String.toList_append, List.mem_append] at hmem
  rcases hmem with (hmem | hmem) | hmem
  · exact hbefore hmem
  · exact htexts text htext hmem
  · exact hafter hmem

theorem lineFeed_not_mem_intercalate {texts : List String}
    (htexts : ∀ text ∈ texts, '\n' ∉ text.toList) :
    '\n' ∉ (String.intercalate ", " texts).toList := by
  cases texts with
  | nil => simp
  | cons text texts =>
    rw [intercalate_cons, String.toList_append, List.mem_append, not_or]
    exact ⟨htexts text List.mem_cons_self, lineFeed_not_mem_surround (by decide) (by decide)
      fun t ht => htexts t (List.mem_cons_of_mem _ ht)⟩

namespace Piece

variable {lead : String} {pos : Nat} {pieces : List Piece} {piece : Piece}

/-- The place of a piece in a row of texts with a comma and a blank between them. -/
theorem InRow.exists_split (h : InRow "" pos pieces) (hmem : piece ∈ pieces) :
    ∃ left right, String.intercalate ", " (pieces.map text) = left ++ piece.text ++ right ∧
      piece.start = pos + (utf8 left).length := by
  induction pieces generalizing pos with
  | nil => exact absurd hmem List.not_mem_nil
  | cons first rest ih =>
    obtain ⟨-, hstart, hrest⟩ := h
    rw [List.map_cons, intercalate_cons]
    rcases List.mem_cons.1 hmem with rfl | hmem
    · exact ⟨"", surround ", " "" (rest.map text), by rw [String.empty_append], hstart⟩
    · obtain ⟨left, right, htext, hpos⟩ := ih hrest hmem
      have hne : rest.map text ≠ [] := fun heq => by
        rw [List.map_eq_nil_iff.1 heq] at hmem
        exact absurd hmem List.not_mem_nil
      refine ⟨first.text ++ ", " ++ left, right, ?_, ?_⟩
      · rw [surround_eq_intercalate _ hne, htext]
        simp only [String.append_assoc]
      · have hfirst : first.start = pos := hstart
        rw [hpos]
        simp only [span, hfirst, utf8_append, List.length_append,
          show (utf8 ", ").length = 2 from rfl]
        omega

/-- The line of a piece in a row of lines. -/
theorem InRow.exists_ownLine {source : Bytes} {before indent closing : String}
    (h : InRow indent ((utf8 before).length + 1) pieces)
    (hblank : ∀ c ∈ indent.toList, c = ' ' ∨ c = '\t')
    (hstands : ∀ t ∈ pieces.map text, Text.standsOnLine t = true)
    (hsource : source = utf8 (before ++ "\n" ++ surround indent ",\n" (pieces.map text) ++ closing))
    (hmem : piece ∈ pieces) :
    ∃ left right, Text.OwnLine source left indent piece.text right ∧
      piece.start = (utf8 left).length + 1 + (utf8 indent).length := by
  induction pieces generalizing before with
  | nil => exact absurd hmem List.not_mem_nil
  | cons first rest ih =>
    obtain ⟨hline, hnext, hlength⟩ := h.line hblank (hstands _ List.mem_cons_self) hsource
    obtain ⟨-, hstart, hrest⟩ := h
    rcases List.mem_cons.1 hmem with rfl | hmem
    · exact ⟨before, _, hline, hstart⟩
    · rw [← hlength] at hrest
      exact ih hrest (fun t ht => hstands t (List.mem_cons_of_mem _ ht)) hnext hmem

/-- The entries of a row are placed. -/
theorem InRow.exists_placed (h : InRow lead pos pieces) :
    ∃ stop, Entry.Placed ⟨pos, stop⟩ (pieces.map entry) := by
  obtain ⟨stop, hstop⟩ : ∃ stop, ∀ p ∈ pieces, p.span.stop ≤ stop := by
    clear h
    induction pieces with
    | nil => exact ⟨0, fun _ hp => absurd hp List.not_mem_nil⟩
    | cons first rest ih =>
      obtain ⟨stop, hstop⟩ := ih
      refine ⟨max first.span.stop stop, List.forall_mem_cons.2 ⟨le_max_left _ _, fun p hp => ?_⟩⟩
      exact (hstop p hp).trans (le_max_right _ _)
  refine ⟨stop, fun e he => ?_, List.pairwise_map.2 (List.Pairwise.imp_of_mem ?_ h.pairwise)⟩
  · obtain ⟨p, hp, rfl⟩ := List.mem_map.1 he
    obtain ⟨hplaced, hpos⟩ := h.isPlaced hp
    have hlength := length_utf8_pos hplaced.text_ne
    exact ⟨p.span, hplaced.span_eq, hpos, Nat.lt_add_of_pos_right hlength, hstop p hp⟩
  · intro p q hp hq hpq s t hs ht
    rw [(h.isPlaced hp).1.span_eq] at hs
    rw [(h.isPlaced hq).1.span_eq] at ht
    cases hs
    cases ht
    exact hpq.le

end Piece

namespace Baseline

variable {baseline : Baseline} {layout : Layout} {before after : String} {pieces : List Piece}

theorem indentAt_congr {source : Bytes} {pos pos' : Nat}
    (h : Text.lineStart source pos = Text.lineStart source pos') :
    Text.indentAt source pos = Text.indentAt source pos' := by
  rw [Text.indentAt, h, Text.indentAt]

/-- A literal on lines, line by line. -/
theorem LaidOut.lines_eq {opening indent closing : String}
    (h : baseline.LaidOut (.lines opening indent closing) before after pieces) :
    baseline.source = utf8 (before ++ opening ++ "\n"
        ++ surround indent ",\n" (pieces.map Piece.text) ++ (closing ++ after)) ∧
      Piece.InRow indent ((utf8 (before ++ opening)).length + 1) pieces := by
  constructor
  · have hwrite : (Layout.lines opening indent closing).write (pieces.map Piece.text)
        = opening ++ "\n" ++ surround indent ",\n" (pieces.map Piece.text) ++ closing := rfl
    rw [h.source_eq, hwrite]
    simp only [String.append_assoc]
  · have hrow := h.inRow
    rw [Layout.opened, ← String.append_assoc, utf8_append, List.length_append] at hrow
    exact hrow

/-- The entries of a literal in a layout stand where they say. -/
theorem LaidOut.standing (h : baseline.LaidOut layout before after pieces) :
    ∃ indent, baseline.Standing pieces indent := by
  have hrow := h.inRow
  have hentries := h.entries_eq
  cases layout with
  | line opening closing =>
    obtain ⟨hsource, -, -, -, hadmits⟩ := h
    obtain ⟨hopening, -, htexts⟩ := hadmits
    -- A piece stands behind `before` and more of its line.
    have hplace : ∀ p ∈ pieces, ∃ left right, baseline.source
          = utf8 (before ++ left ++ p.text ++ right) ∧ Text.lineFeed ∉ utf8 left ∧
        p.start = (utf8 (before ++ left)).length := by
      intro p hp
      obtain ⟨left, right, hsplit, hstart⟩ := hrow.exists_split hp
      refine ⟨opening ++ left, right ++ closing ++ after, ?_, lineFeed_not_mem_utf8 fun hmem => ?_,
        ?_⟩
      · rw [hsource, Layout.write, hsplit]
        simp only [String.append_assoc]
      · have hfeed := lineFeed_not_mem_intercalate htexts
        rw [hsplit] at hfeed
        simp only [String.toList_append, List.mem_append, not_or] at hfeed hmem
        exact hmem.elim hopening hfeed.1.1
      · rw [hstart, ← String.append_assoc, utf8_append _ left, List.length_append]
        rfl
    refine ⟨Text.indentAt baseline.source (utf8 before).length, hentries,
      fun p hp => (hrow.isPlaced hp).1, hrow.pairwise, fun p hp => ?_, fun p hp => ?_⟩
    · obtain ⟨left, right, hwhole, -, hstart⟩ := hplace p hp
      rw [Span.slice, Piece.span, hwhole, hstart, slice_utf8]
    · obtain ⟨left, right, hwhole, hfeed, hstart⟩ := hplace p hp
      refine indentAt_congr ?_
      rw [hwhole, hstart, String.append_assoc, utf8_append, utf8_append before, List.length_append]
      exact Text.lineStart_append hfeed
  | lines opening indent closing =>
    obtain ⟨hblank, hstands, -⟩ := h.admits
    obtain ⟨hsource, hlines⟩ := h.lines_eq
    have hplace : ∀ p ∈ pieces, ∃ left right,
        Text.OwnLine baseline.source left indent p.text right ∧
          p.start = (utf8 left).length + 1 + (utf8 indent).length := fun p hp =>
      hlines.exists_ownLine hblank hstands hsource hp
    refine ⟨indent, hentries, fun p hp => (hrow.isPlaced hp).1, hrow.pairwise, fun p hp => ?_,
      fun p hp => ?_⟩
    · obtain ⟨left, right, hline, hstart⟩ := hplace p hp
      rw [Span.slice, Piece.span, hstart, hline.slice_text]
    · obtain ⟨left, right, hline, hstart⟩ := hplace p hp
      rw [hstart, hline.indentAt_eq]

/-- A literal spans lines if its entries stand on lines of their own. -/
theorem LaidOut.spansLines_eq (h : baseline.LaidOut layout before after pieces) :
    Text.spansLines baseline.source (utf8 before).length
        (utf8 (before ++ layout.write (pieces.map Piece.text))).length
      = layout.isMultiline := by
  have hwritten : Text.spansLines baseline.source (utf8 before).length
        (utf8 (before ++ layout.write (pieces.map Piece.text))).length
      = (utf8 (layout.write (pieces.map Piece.text))).any (· == Text.lineFeed) := by
    rw [Text.spansLines, h.source_eq, utf8_append, utf8_append, List.length_append, range_append]
  rw [hwritten]
  cases layout with
  | line opening closing =>
    obtain ⟨hopening, hclosing, hfeed⟩ := h.admits
    have hnone : Text.lineFeed ∉ utf8 (opening ++ String.intercalate ", "
        (pieces.map Piece.text) ++ closing) := by
      refine lineFeed_not_mem_utf8 ?_
      simp only [String.toList_append, List.mem_append, not_or]
      exact ⟨⟨hopening, lineFeed_not_mem_intercalate hfeed⟩, hclosing⟩
    exact List.any_eq_false.2 fun byte hbyte heq => hnone (beq_iff_eq.1 heq ▸ hbyte)
  | lines opening indent closing =>
    refine List.any_eq_true.2 ⟨Text.lineFeed, ?_, rfl⟩
    simp [Layout.write, show utf8 "\n" = [Text.lineFeed] from rfl]

/-- What becomes of a literal in a layout has a script. -/
theorem LaidOut.exists_script {slots : List (EntrySlot Piece DraftEntry)}
    (h : baseline.LaidOut layout before after (slots.map EntrySlot.old))
    (hkept : slots.any isKept = true) (hstays : StaysInPlace slots) {span : Span}
    (hspan : baseline.tree.span = some span) (lead : List DraftEntry) (fixComma : Bool) :
    ∃ script, Script.isSound true script = true ∧
      Script.oldText script
        = before ++ layout.write ((slots.map EntrySlot.old).map Piece.text) ++ after ∧
      Script.newText script
        = before ++ layout.write ((lead ++ slots.flatMap EntrySlot.new).map DraftEntry.text)
          ++ after ∧
      (baseline.editing span fixComma ((slots.map EntrySlot.old).map Piece.entry)
        (keptFrom 0 slots)).edits lead 0 slots = Script.edits 0 script := by
  obtain rfl := Option.some.inj (hspan.symm.trans h.span_eq)
  have hrow := h.inRow
  have hlines := h.spansLines_eq
  have hplaced : ∀ p ∈ slots.map EntrySlot.old, p.IsPlaced := fun p hp => (hrow.isPlaced hp).1
  have hleaf : ∀ s ∈ slots, s.old.leaf ≠ "" := fun s hs =>
    (hplaced _ (List.mem_map_of_mem hs)).leaf_ne
  have htexts : slots.map (fun s => s.old.text) = (slots.map EntrySlot.old).map Piece.text := by
    rw [List.map_map]
    rfl
  -- Only the edits of the slots tell the layouts apart: around them the text is copied.
  cases layout with
  | line opening closing =>
    refine ⟨.copy (before ++ opening) :: (inlineScript lead slots ++ [.copy (closing ++ after)]),
      ?_, ?_, ?_, ?_⟩
    · rw [Script.isSound, Script.isSound_append_copy, Bool.true_or]
      exact isSound_inlineScript hleaf (.inr rfl)
    · rw [← htexts]
      simp [Layout.write, oldText_inlineScript hkept, Step.oldText, String.append_assoc]
    · simp [Layout.write, newText_inlineScript hstays hkept, Step.newText, String.append_assoc]
    · rw [Script.edits, Script.edits_append]
      simp only [Script.edits, Step.edits, Step.oldText, Nat.zero_add, List.nil_append,
        List.append_nil]
      exact edits_inlineScript fixComma hlines rfl hplaced (List.nil_append slots).symm hkept hrow
        lead
  | lines opening indent closing =>
    obtain ⟨hblank, hstands, habove⟩ := h.admits
    obtain ⟨hsource, hlinesRow⟩ := h.lines_eq
    refine ⟨.copy (before ++ opening ++ "\n")
      :: (linesScript indent lead slots ++ [.copy (closing ++ after)]), ?_, ?_, ?_, ?_⟩
    · rw [Script.isSound, Script.isSound_append_copy, Bool.true_or]
      exact isSound_linesScript hleaf (.inr rfl)
    · rw [← htexts]
      simp [Layout.write, oldText_linesScript, Step.oldText, String.append_assoc, surround]
    · simp [Layout.write, newText_linesScript hstays (.inr hkept), Step.newText,
        String.append_assoc, surround]
    · rw [Script.edits, Script.edits_append]
      simp only [Script.edits, Step.edits, Step.oldText, Nat.zero_add, List.nil_append,
        List.append_nil]
      rw [utf8_append _ "\n", List.length_append]
      exact edits_linesScript fixComma _ _ hlines hblank hstands hsource hlinesRow habove 0

/-! ## Drafts -/

/-- Where nothing is matched, no origin is one of an old entry. -/
theorem positionOf?_eq_none {old : List Entry} {origins : List Origin}
    (h : ∀ m ∈ matchFrom old 0 origins, m = none) : ∀ o ∈ origins, positionOf? old o = none := by
  induction origins with
  | nil => exact fun _ ho => absurd ho List.not_mem_nil
  | cons origin origins ih =>
    rw [matchFrom] at h
    cases hpos : positionOf? old origin with
    | some i =>
      rw [hpos] at h
      exact absurd (h (some i) List.mem_cons_self) (by simp)
    | none =>
      rw [hpos] at h
      exact List.forall_mem_cons.2 ⟨hpos, ih fun m hm => h m (List.mem_cons_of_mem _ hm)⟩

/-- An entry of a draft with a place is one of the literal. -/
theorem Drafts.exists_piece {entry : Entry} {text : String}
    (h : baseline.Drafts pieces entry text) (hspan : entry.span.isSome = true) :
    ∃ p ∈ pieces, entry.origin = p.entry.origin := by
  cases h with
  | kept hmem => exact ⟨_, hmem, rfl⟩
  | @changed piece origin value value' hmem hvalue hne =>
    refine ⟨piece, hmem, ?_⟩
    cases hentry : piece.entry with
    | prop prop => rfl
    | item item =>
      rw [hentry] at hvalue
      exact (congrArg Expr.origin hvalue).symm
  | @replaced piece prop leaf hmem hprop =>
    exact ⟨piece, hmem, by rw [hprop]; rfl⟩
  | new hleaf hnew hvalue =>
    rw [hnew] at hspan
    cases hspan

/-- The entries of a draft with what they are written as. -/
theorem Standing.exists_drafts {indent : String} (h : baseline.Standing pieces indent)
    {entries : List Entry} {texts : List String}
    (hentries : List.Forall₂ (baseline.Drafts pieces) entries texts) :
    ∃ drafts : List DraftEntry, drafts.map DraftEntry.entry = entries ∧
      drafts.map DraftEntry.text = texts ∧
      ∀ d ∈ drafts, baseline.Drafts pieces d.entry d.text ∧
        d.IsWritten baseline pieces indent := by
  induction hentries with
  | nil => exact ⟨[], rfl, rfl, fun _ hd => absurd hd List.not_mem_nil⟩
  | @cons entry text entries texts hdraft _ ih =>
    obtain ⟨drafts, rfl, rfl, hwritten⟩ := ih
    obtain ⟨leaf?, hleaf⟩ := h.exists_draft hdraft
    exact ⟨⟨entry, text, leaf?⟩ :: drafts, rfl, rfl,
      List.forall_mem_cons.2 ⟨⟨hdraft, hleaf⟩, hwritten⟩⟩

/-- If an entry of the literal is in the draft, some slot is kept. -/
theorem any_isKept {slots : List (EntrySlot Piece DraftEntry)} {lead drafts : List DraftEntry}
    (hzip : drafts.zip (matchFrom (pieces.map Piece.entry) 0 (drafts.map (·.entry.origin)))
      = lead.map (·, none) ++ matched 0 slots) {span : Span}
    (hplaced : Entry.Placed span (pieces.map Piece.entry)) {d : DraftEntry} (hd : d ∈ drafts)
    {p : Piece} (hp : p ∈ pieces) (horigin : d.entry.origin = p.entry.origin) :
    slots.any isKept = true := by
  by_contra hnone
  have hlength : (matchFrom (pieces.map Piece.entry) 0 (drafts.map (·.entry.origin))).length
      = drafts.length := by
    rw [length_matchFrom, List.length_map]
  -- Else nothing would be matched, but the first entry of the literal in the draft is.
  have hpositions := filterMap_eq_keptFrom hlength hzip
  rw [keptFrom_eq_nil.2 (Bool.not_eq_true _ ▸ hnone), List.filterMap_eq_nil_iff] at hpositions
  have hposition := positionOf?_eq_none hpositions d.entry.origin
    (List.mem_map_of_mem (f := fun d : DraftEntry => d.entry.origin) hd)
  obtain ⟨i, hi⟩ := List.mem_iff_getElem?.1 (List.mem_map_of_mem (f := Piece.entry) hp)
  have hfound := (positionOf?_eq_some_iff hplaced).2 ⟨p.entry, hi, horigin.symm⟩
  exact absurd (hposition.symm.trans hfound) (by simp)

/-- A literal in a layout is in the same layout after an edit, with the entries of the draft. -/
theorem diff_keeps_layout (h : baseline.LaidOut layout before after pieces) {draft : Expr}
    (horigin : draft.origin = baseline.tree.origin)
    (hsame : sameContainer baseline.tree draft = true) {texts : List String}
    (hentries : List.Forall₂ (baseline.Drafts pieces) (Entry.ofExpr draft) texts)
    (hleft : ∃ entry ∈ Entry.ofExpr draft, entry.span.isSome = true) :
    ∃ edits, baseline.diff draft = .ok edits ∧
      TextEdit.applyAll (before ++ layout.write (pieces.map Piece.text) ++ after) edits
        = .ok (before ++ layout.write texts ++ after) := by
  obtain ⟨indent, hstanding⟩ := h.standing
  obtain ⟨drafts, hdrafts, rfl, hwritten⟩ := hstanding.exists_drafts hentries
  obtain ⟨stop, hplaced⟩ := h.inRow.exists_placed
  obtain ⟨lead, slots, hslots, hzip, hkept⟩ :=
    exists_slots Piece.entry (fun d : DraftEntry => d.entry.origin) hplaced drafts 0
  rw [List.drop_zero] at hslots
  subst hslots
  have hnew : drafts = lead ++ slots.flatMap EntrySlot.new :=
    eq_append_flatMap_new (by rw [length_matchFrom, List.length_map]) hzip
  have hany : slots.any isKept = true := by
    obtain ⟨entry, hentry, hspan⟩ := hleft
    rw [← hdrafts] at hentry
    obtain ⟨d, hd, rfl⟩ := List.mem_map.1 hentry
    obtain ⟨p, hp, hsource⟩ := (hwritten d hd).1.exists_piece hspan
    exact any_isKept hzip hplaced hd hp hsource
  have hstays : StaysInPlace slots := by
    intro slot hslot d behind hd
    have hmem : d ∈ drafts := by
      rw [hnew]
      refine List.mem_append_right _ (List.mem_flatMap.2 ⟨slot, hslot, ?_⟩)
      obtain ⟨p, k⟩ := slot
      obtain rfl : k = some (d, behind) := hd
      exact List.mem_cons_self
    exact ((hwritten d hmem).2.edits_eq slot.old (List.mem_map_of_mem hslot)
      (hkept slot hslot d behind hd)).2
  -- The edits are those of a script, and the script writes the new texts in the old layout.
  obtain ⟨fresh, hplan⟩ := edits_planOf_literal baseline h.span_eq hsame
  obtain ⟨edits, fixComma, hedits, hperm⟩ := entryEdits_of_slots hstanding rfl hzip
    (fun d hd => (hwritten d hd).2) hkept hany fresh
  obtain ⟨script, hsound, hold, hnewText, hscript⟩ := h.exists_script hany hstays h.span_eq lead
    fixComma
  rw [hscript] at hperm
  obtain ⟨merged, hmerged, happly⟩ := Script.applyAll_of_perm hsound hperm
  refine ⟨merged, ?_, ?_⟩
  · simp only [diff, horigin, if_true, hplan]
    refine bind_eq_ok.2 ⟨edits, ?_, hmerged⟩
    rw [h.entries_eq, ← hdrafts]
    exact hedits
  · rw [← hold, happly, hnewText, ← hnew]

end Baseline

/-- A property with a string, where it is written. -/
def Property.writtenAt (start : Nat) (name value : String) : Property where
  origin := .source ⟨start, start + (utf8 name).length + 4 + (utf8 value).length⟩
  key := .ident name
  keySpan := some ⟨start, start + (utf8 name).length⟩
  value := .str (.source ⟨start + (utf8 name).length + 2,
    start + (utf8 name).length + 4 + (utf8 value).length⟩) value

/-- A property with a string and its text. -/
def Piece.writtenAt (start : Nat) (name value : String) : Piece where
  entry := .prop (Property.writtenAt start name value)
  start := start
  head := name ++ ": "
  leaf := "'" ++ value ++ "'"
  tail := ""

theorem Piece.isPlaced_writtenAt (start : Nat) (name value : String) :
    (writtenAt start name value).IsPlaced := by
  have hcolon : (utf8 ": ").length = 2 := rfl
  have hquote : (utf8 "'").length = 1 := rfl
  refine ⟨congrArg some (congrArg (Span.mk start) ?_), congrArg some (congrArg₂ Span.mk ?_ ?_),
    rfl, ?_⟩
  · simp only [text, withLeaf, writtenAt, utf8_append, utf8_empty, List.length_append,
      List.length_nil, hcolon, hquote]
    omega
  · simp only [writtenAt, utf8_append, List.length_append, hcolon, Nat.add_assoc]
  · simp only [writtenAt, utf8_append, List.length_append, hcolon, hquote]
    omega
  · simp [writtenAt, String.append_eq_empty_iff]

namespace Baseline

/-- Three properties on lines of their own: the first is moved behind the second and gets another
    value, the third gets one in its place, and a new one comes first. -/
theorem diff_keeps_layout_reordered :
    let text := "createMachine(\x7b\n  id: 'm',\n  initial: 'a',\n  description: 'd',\n\x7d);\n"
    let id := Property.writtenAt 18 "id" "m"
    let initial := Property.writtenAt 29 "initial" "a"
    let description := Property.writtenAt 45 "description" "d"
    let baseline : Baseline :=
      ⟨utf8 text, {}, .object (.source ⟨14, 64⟩) [id, initial, description]⟩
    let draft := Expr.object (.source ⟨14, 64⟩) [Property.ofPair "version" (.ofText "2"), initial,
      { id with value := .str id.value.origin "n" },
      { description with value := .str description.value.origin "e" }]
    let pieces : List Piece :=
      [.writtenAt 18 "id" "m", .writtenAt 29 "initial" "a", .writtenAt 45 "description" "d"]
    baseline.LaidOut (.lines "\x7b" "  " "\x7d") "createMachine(" ");\n" pieces ∧
      ∃ edits, baseline.diff draft = .ok edits ∧
        TextEdit.applyAll text edits = .ok ("createMachine(\x7b\n  version: '2',\n"
          ++ "  initial: 'a',\n  id: 'n',\n  description: 'e',\n\x7d);\n") := by
  intro text id initial description baseline draft pieces
  have hlaid : baseline.LaidOut (.lines "\x7b" "  " "\x7d") "createMachine(" ");\n" pieces := by
    refine ⟨by decide +kernel, rfl, rfl, ?_, by simp, by decide +kernel, by decide +kernel⟩
    exact ⟨Piece.isPlaced_writtenAt _ _ _, by decide +kernel, Piece.isPlaced_writtenAt _ _ _,
      by decide +kernel, Piece.isPlaced_writtenAt _ _ _, by decide +kernel, trivial⟩
  have hentries : List.Forall₂ (baseline.Drafts pieces) (Entry.ofExpr draft)
      ["version: '2'", "initial: 'a'", "id: 'n'", "description: 'e'"] := by
    refine .cons ?_ (.cons ?_ (.cons ?_ (.cons ?_ .nil)))
    · exact .new rfl rfl rfl
    · exact .kept (List.mem_cons_of_mem _ List.mem_cons_self)
    · exact .changed List.mem_cons_self rfl (show "n" ≠ "m" by decide)
    · exact .changed (List.mem_cons_of_mem _ (List.mem_cons_of_mem _ List.mem_cons_self)) rfl
        (show "e" ≠ "d" by decide)
  have horigin : draft.origin = baseline.tree.origin := rfl
  exact ⟨hlaid, diff_keeps_layout hlaid horigin rfl hentries
    ⟨.prop initial, List.mem_cons_of_mem _ List.mem_cons_self, rfl⟩⟩

end Baseline

end Statechart
