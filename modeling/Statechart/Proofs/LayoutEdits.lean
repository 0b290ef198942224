import Statechart.Proofs.LayoutScripts
import Statechart.Proofs.LineScans
import Statechart.Proofs.SlotEdits

/-!
# Edits in a layout

In both layouts, the edits next to the entries of a literal are those of its script.

* `Piece.InRow.pairwise`: entries in a row stand apart;
* `Baseline.edits_linesScript`, `Baseline.edits_inlineScript`: the edits of slots are those of
  their script.
-/

namespace Statechart

open Splice EntrySlot

/-! ## Rows -/

namespace Piece

variable {lead : String} {pos : Nat} {pieces : List Piece} {piece : Piece}

theorem InRow.isPlaced (h : InRow lead pos pieces) (hmem : piece ∈ pieces) :
    piece.IsPlaced ∧ pos ≤ piece.start := by
  induction pieces generalizing pos with
  | nil => exact absurd hmem List.not_mem_nil
  | cons first rest ih =>
    obtain ⟨hplaced, hstart, hrest⟩ := h
    rcases List.mem_cons.1 hmem with rfl | hmem
    · exact ⟨hplaced, by omega⟩
    · obtain ⟨hp, hle⟩ := ih hrest hmem
      refine ⟨hp, ?_⟩
      simp only [span] at hle
      omega

/-- Entries in a row stand apart. -/
theorem InRow.pairwise (h : InRow lead pos pieces) :
    pieces.Pairwise fun p q => p.span.stop < q.start := by
  induction pieces generalizing pos with
  | nil => exact List.Pairwise.nil
  | cons first rest ih =>
    obtain ⟨-, -, hrest⟩ := h
    refine List.pairwise_cons.2 ⟨fun q hq => ?_, ih hrest⟩
    have := (hrest.isPlaced hq).2
    omega

/-- The first line of a row of lines, and the row behind it. -/
theorem InRow.line {source : Bytes} {before indent closing : String}
    (h : InRow indent ((utf8 before).length + 1) (piece :: pieces))
    (hblank : ∀ c ∈ indent.toList, c = ' ' ∨ c = '\t')
    (hstands : Text.standsOnLine piece.text = true)
    (hsource : source = utf8 (before ++ "\n"
      ++ surround indent ",\n" ((piece :: pieces).map text) ++ closing)) :
    Text.OwnLine source before indent piece.text
        (surround indent ",\n" (pieces.map text) ++ closing) ∧
      source = utf8 (before ++ "\n" ++ (indent ++ piece.text ++ ",") ++ "\n"
        ++ surround indent ",\n" (pieces.map text) ++ closing) ∧
      (utf8 (before ++ "\n" ++ (indent ++ piece.text ++ ","))).length + 1
        = piece.span.stop + 2 := by
  obtain ⟨-, hstart, -⟩ := h
  rw [List.map_cons, surround_cons] at hsource
  refine ⟨⟨?_, hblank, hstands⟩, ?_, ?_⟩
  · rw [hsource]
    simp only [String.append_assoc]
  · rw [hsource, show ",\n" = "," ++ "\n" from rfl]
    simp only [String.append_assoc]
  · simp only [span, hstart, utf8_append, List.length_append,
      show (utf8 "\n").length = 1 from rfl, show (utf8 ",").length = 1 from rfl]
    omega

end Piece

namespace Baseline

variable {baseline : Baseline} {span : Span} {indent closing : String}
  {slots : List (EntrySlot Piece DraftEntry)} {lead : List DraftEntry} {piece : Piece}

/-! ## Lines -/

/-- An entry on a line of its own is deleted with its line, and new entries get lines before and
    behind that. -/
theorem editing_ownLine (fixComma : Bool) (old : List Entry) (kept : List Nat)
    (hmulti : Text.spansLines baseline.source span.start span.stop = true) {before after : String}
    (hline : Text.OwnLine baseline.source before indent piece.text after)
    (hstart : piece.start = (utf8 before).length + 1 + (utf8 indent).length)
    (habove : Text.endsCommentLine baseline.source (utf8 before).length = false) :
    (∀ pos, (baseline.editing span fixComma old kept).delete pos piece
        = [.delete ((utf8 before).length + 1) (piece.span.stop + 2)]) ∧
      (∀ drafts, (baseline.editing span fixComma old kept).before piece drafts
        = Script.edits ((utf8 before).length + 1) (putTexts indent ",\n" drafts)) ∧
      ∀ drafts, (baseline.editing span fixComma old kept).behind piece drafts
        = Script.edits (piece.span.stop + 2) (putTexts indent ",\n" drafts) := by
  have hcomma : baseline.source.drop piece.span.stop = 0x2C :: Text.lineFeed :: utf8 after := by
    rw [← hline.drop_comma, ← hstart]
    rfl
  have htail := Text.itemTailEnd_eq hcomma
  have hfeed : followsLineFeed baseline.source (piece.span.stop + 2) = true := by
    have hnext : baseline.source.drop (piece.span.stop + 1) = Text.lineFeed :: utf8 after := by
      rw [← List.drop_drop, hcomma]
      rfl
    rw [followsLineFeed, show piece.span.stop + 2 - 1 = piece.span.stop + 1 from rfl,
      Text.getElem?_of_drop hnext]
    simp
  have hstarts : Text.startsLine baseline.source piece.span.start = true := by
    rw [show piece.span.start = piece.start from rfl, hstart]
    exact hline.startsLine_eq
  have hindent : Text.indentAt baseline.source piece.span.start = indent := by
    rw [show piece.span.start = piece.start from rfl, hstart]
    exact hline.indentAt_eq
  have hclimb : Text.leadingCommentStart baseline.source piece.span.start
      = (utf8 before).length + 1 := by
    rw [show piece.span.start = piece.start from rfl, hstart]
    exact hline.leadingCommentStart_eq habove
  -- On a line of its own an entry goes with its line, and what is put next to it gets lines too.
  refine ⟨fun pos => ?_, fun drafts => ?_, fun drafts => ?_⟩
  · simp [editing, deletion, hmulti, hstarts, htail, hfeed, hclimb, commaFix,
      Text.commaAfter_eq hcomma]
  · simp only [editing, insertionAt, hmulti, hstarts, Bool.and_self, Option.isSome_none,
      Bool.false_eq_true, if_false, insertionBefore, if_true, hclimb, hindent, putTexts]
    split <;> rfl
  · simp only [editing, insertionAt, hmulti, hstarts, Bool.and_self, Option.isSome_some, if_true,
      insertionAfter, Text.commaAfter_eq hcomma, htail, hfeed, hindent, putTexts]
    split <;> rfl

/-- On lines of their own, the edits of slots are those of their script. -/
theorem edits_linesScript (fixComma : Bool) (old : List Entry) (kept : List Nat)
    (hmulti : Text.spansLines baseline.source span.start span.stop = true)
    (hblank : ∀ c ∈ indent.toList, c = ' ' ∨ c = '\t')
    (hstands : ∀ text ∈ (slots.map EntrySlot.old).map Piece.text, Text.standsOnLine text = true)
    {before : String} (hsource : baseline.source = utf8 (before ++ "\n"
      ++ surround indent ",\n" ((slots.map EntrySlot.old).map Piece.text) ++ closing))
    (hrow : Piece.InRow indent ((utf8 before).length + 1) (slots.map EntrySlot.old))
    (habove : Text.endsCommentLine baseline.source (utf8 before).length = false) (pos : Nat) :
    (baseline.editing span fixComma old kept).edits lead pos slots
      = Script.edits ((utf8 before).length + 1) (linesScript indent lead slots) := by
  induction slots generalizing lead before pos with
  | nil => rfl
  | cons slot rest ih =>
    obtain ⟨hline, hmore, hlength⟩ := hrow.line hblank (hstands _ List.mem_cons_self) hsource
    obtain ⟨-, hstart, hrest⟩ := hrow
    have hcomma : (utf8 (before ++ "\n" ++ (indent ++ slot.old.text ++ ","))).length
        = (utf8 before).length + 1 + (utf8 (indent ++ slot.old.text ++ ",")).length := by
      simp only [utf8_append, List.length_append, show (utf8 "\n").length = 1 from rfl]
    have hnext : ∀ (lead' : List DraftEntry) (pos' : Nat),
        (baseline.editing span fixComma old kept).edits lead' pos' rest
          = Script.edits (slot.old.span.stop + 2) (linesScript indent lead' rest) := by
      intro lead' pos'
      rw [← hlength]
      refine ih (fun t ht => hstands t (List.mem_cons_of_mem _ ht)) hmore ?_ ?_ pos'
      · rw [hlength]
        exact hrest
      · -- The line is what stands before the next one.
        rw [hcomma]
        exact hline.endsCommentLine_eq
    obtain ⟨hdelete, hbefore, hbehind⟩ := editing_ownLine fixComma old kept hmulti hline hstart
      habove
    obtain ⟨piece, - | ⟨draft, behind⟩⟩ := slot
    · have hstop : (utf8 before).length + 1 + (utf8 (indent ++ piece.text ++ ",\n")).length
          = piece.span.stop + 2 := by
        have hcopied : piece.start = (utf8 before).length + 1 + (utf8 indent).length := hstart
        simp only [Piece.span, utf8_append, List.length_append,
          show (utf8 ",\n").length = 2 from rfl]
        omega
      simp only [Editing.edits, hdelete, hnext, linesScript, Script.edits, Step.edits,
        Step.deletions, Step.oldText, String.join_cons, String.join_nil, String.append_empty,
        hstop]
    · have hcopied : (utf8 before).length + 1 + (utf8 indent).length = piece.start := hstart.symm
      have hstop : piece.start + (utf8 piece.text).length = piece.span.stop := rfl
      simp only [Editing.edits, hbefore, hbehind, hnext, linesScript, List.append_assoc,
        List.cons_append, Script.edits_append, Script.edits, oldText_putTexts, utf8_empty,
        List.length_nil, Nat.add_zero, Step.edits, Step.oldText, List.nil_append, hcopied,
        Piece.edits_steps, Piece.oldText_steps, hstop, show (utf8 ",\n").length = 2 from rfl]
      rfl

/-! ## One line -/

section

variable {pieces : List Piece} (hslots : slots.map EntrySlot.old = pieces)
  (hplaced : ∀ p ∈ pieces, p.IsPlaced) {done dropped rest : List (EntrySlot Piece DraftEntry)}
  {slot next last : EntrySlot Piece DraftEntry}

include hslots hplaced

/-- If one behind it is kept, an entry is deleted up to the next one. -/
theorem inlineDeletion_before (hsplit : slots = done ++ slot :: next :: rest)
    (hkept : (next :: rest).any isKept = true) :
    inlineDeletion (pieces.map Piece.entry) (keptFrom 0 slots) done.length slot.old.span
      = .delete slot.old.start next.old.start := by
  have hnext : slots = (done ++ [slot]) ++ next :: rest := by simpa using hsplit
  have hentry := getElem?_entries hslots hnext
  rw [List.length_append, List.length_singleton] at hentry
  rw [inlineDeletion, keepsAfter_eq hsplit, if_pos hkept, hentry, Option.bind_some,
    (hplaced _ (old_mem hslots hnext)).span_eq]
  rfl

/-- Behind the last that is kept, an entry is deleted from the end of that on. -/
theorem inlineDeletion_behind (hsplit : slots = done ++ slot :: dropped ++ last :: rest)
    (hkept : slot.isKept = true) (hdropped : dropped.any isKept = false)
    (hrest : rest.any isKept = false) :
    inlineDeletion (pieces.map Piece.entry) (keptFrom 0 slots) (done.length + 1 + dropped.length)
        last.old.span
      = .delete slot.old.span.stop last.old.span.stop := by
  have hindex : done.length + 1 + dropped.length = (done ++ slot :: dropped).length := by
    simp only [List.length_append, List.length_cons]
    omega
  have hafter : keepsAfter (keptFrom 0 slots) (done.length + 1 + dropped.length) = false := by
    rw [hindex, keepsAfter_eq hsplit, hrest]
  have hslot : slots = done ++ slot :: (dropped ++ last :: rest) := by simpa using hsplit
  rw [inlineDeletion, hafter, keptBefore?_eq hsplit hkept hdropped]
  simp [getElem?_entries hslots hslot, (hplaced _ (old_mem hslots hslot)).span_eq]

end

section

variable (fixComma : Bool) (hinline : Text.spansLines baseline.source span.start span.stop = false)
  {pieces : List Piece} (hslots : slots.map EntrySlot.old = pieces)
  (hplaced : ∀ p ∈ pieces, p.IsPlaced) {done dropped rest : List (EntrySlot Piece DraftEntry)}

include hinline

theorem editing_inline (old : List Entry) (kept : List Nat) (piece : Piece) :
    (∀ pos, (baseline.editing span fixComma old kept).delete pos piece
        = [inlineDeletion old kept pos piece.span]) ∧
      (∀ drafts, (baseline.editing span fixComma old kept).before piece drafts
        = Script.edits piece.start (putTexts "" ", " drafts)) ∧
      ∀ drafts, (baseline.editing span fixComma old kept).behind piece drafts
        = Script.edits piece.span.stop (putTexts ", " "" drafts) := by
  refine ⟨fun pos => ?_, fun drafts => ?_, fun drafts => ?_⟩
  · simp [editing, deletion, hinline]
  · simp only [editing, insertionAt, hinline, Bool.false_and, Option.isSome_none,
      Bool.false_eq_true, if_false, insertionBefore, putTexts]
    split <;> rfl
  · simp only [editing, insertionAt, hinline, Bool.false_and, Option.isSome_some, if_true,
      insertionAfter, Bool.false_eq_true, if_false, putTexts]
    split <;> rfl

include hslots hplaced

/-- Behind the last entry that is kept, all is deleted from there. -/
theorem edits_dropBehind {slot : EntrySlot Piece DraftEntry}
    (hsplit : slots = done ++ slot :: dropped ++ rest) (hkept : slot.isKept = true)
    (hdropped : dropped.any isKept = false) (hrest : rest.any isKept = false) {pos : Nat}
    (hrow : Piece.InRow "" (pos + 2) (rest.map EntrySlot.old)) :
    (baseline.editing span fixComma (pieces.map Piece.entry) (keptFrom 0 slots)).edits []
        (done.length + 1 + dropped.length) rest
      = Step.deletions slot.old.span.stop pos (rest.map fun s => ", " ++ s.old.text) := by
  induction rest generalizing dropped pos with
  | nil => rfl
  | cons last rest ih =>
    obtain ⟨-, hstart, hrow⟩ := hrow
    obtain ⟨piece, - | kept⟩ := last
    · rw [List.any_cons, Bool.or_eq_false_iff] at hrest
      have hmore : slots = done ++ slot :: (dropped ++ [⟨piece, none⟩]) ++ rest := by
        simpa using hsplit
      have hdelete := inlineDeletion_behind hslots hplaced hsplit hkept hdropped hrest.2
      have hstop : piece.span.stop = pos + (utf8 (", " ++ piece.text)).length := by
        have hpiece : piece.start = pos + 2 := hstart
        simp only [Piece.span, hpiece, utf8_append, List.length_append,
          show (utf8 ", ").length = 2 from rfl]
        omega
      have hnext := ih hmore (by simpa [isKept] using hdropped) hrest.2 hrow
      rw [List.length_append, List.length_singleton, ← Nat.add_assoc] at hnext
      rw [Editing.edits, (editing_inline fixComma hinline _ _ piece).1, hdelete, hnext,
        List.map_cons, Step.deletions, ← hstop]
      rfl
    · cases hrest

/-- On one line, the edits of slots are those of their script. -/
theorem edits_inlineScript (hsplit : slots = done ++ rest) (hrest : rest.any isKept = true)
    {pos : Nat}
    (hrow : Piece.InRow "" pos (rest.map EntrySlot.old)) (lead : List DraftEntry) :
    (baseline.editing span fixComma (pieces.map Piece.entry) (keptFrom 0 slots)).edits lead
        done.length rest
      = Script.edits pos (inlineScript lead rest) := by
  induction rest generalizing done pos lead with
  | nil => cases hrest
  | cons slot rest ih =>
    obtain ⟨-, hstart, hrow⟩ := hrow
    have hnext : ∀ lead', rest.any isKept = true →
        (baseline.editing span fixComma (pieces.map Piece.entry) (keptFrom 0 slots)).edits lead'
            (done.length + 1) rest
          = Script.edits (slot.old.span.stop + 2) (inlineScript lead' rest) := by
      intro lead' hany
      have hmore : slots = (done ++ [slot]) ++ rest := by simpa using hsplit
      have hedits := ih hmore hany hrow lead'
      rwa [List.length_append, List.length_singleton] at hedits
    obtain ⟨hdelete, hbefore, hbehind⟩ := editing_inline fixComma hinline (pieces.map Piece.entry)
      (keptFrom 0 slots) slot.old
    have hpos : slot.old.start = pos := hstart
    obtain ⟨piece, - | ⟨draft, behind⟩⟩ := slot
    · have hany : rest.any isKept = true := by simpa [isKept] using hrest
      -- Something is kept behind the entry, so that there is a next one.
      obtain ⟨next, more, rfl⟩ : ∃ next more, rest = next :: more :=
        List.exists_cons_of_ne_nil fun hnil => by rw [hnil] at hany; cases hany
      have hnextStart : next.old.start = piece.span.stop + 2 := hrow.2.1
      have hdeletion := inlineDeletion_before hslots hplaced hsplit hany
      have hstop : pos + (utf8 (piece.text ++ ", ")).length = piece.span.stop + 2 := by
        have hpiece : piece.start = pos := hpos
        simp only [Piece.span, hpiece, utf8_append, List.length_append,
          show (utf8 ", ").length = 2 from rfl]
        omega
      rw [Editing.edits, hdelete, hdeletion, hnextStart, hnext lead hany, hpos]
      simp only [inlineScript, Script.edits, Step.edits, Step.deletions, Step.oldText,
        String.join_cons, String.join_nil, String.append_empty, hstop]
    · have hstop : pos + (utf8 piece.text).length = piece.span.stop := by
        rw [← hpos]
        rfl
      have htail : (baseline.editing span fixComma (pieces.map Piece.entry)
            (keptFrom 0 slots)).edits [] (done.length + 1) rest
          = Script.edits piece.span.stop
              (if rest.any isKept then .copy ", " :: inlineScript [] rest
                else dropBehind rest) := by
        split
        · next hany =>
          rw [hnext [] hany, Script.edits]
          rfl
        · next hany =>
          have hlast : slots = done ++ ⟨piece, some (draft, behind)⟩ :: [] ++ rest := by
            simpa using hsplit
          have hdropped := edits_dropBehind fixComma hinline hslots hplaced hlast rfl rfl
            (Bool.not_eq_true _ ▸ hany) hrow
          rw [List.length_nil, Nat.add_zero] at hdropped
          rw [hdropped, dropBehind]
          cases rest with
          | nil => rfl
          | cons next more => simp [Script.edits, Step.edits]
      have hedits : Script.edits pos (piece.steps draft.leaf?) = piece.leafEdits draft.leaf? := by
        rw [← hpos]
        exact Piece.edits_steps _ _
      rw [Editing.edits, hbefore, hbehind, htail, hpos, inlineScript]
      simp only [Script.edits_append, oldText_putTexts, utf8_empty, List.length_nil, Nat.add_zero,
        Piece.oldText_steps, Script.oldText_append, String.empty_append, String.append_empty, hstop,
        hedits]
      rfl

end

end Baseline

end Statechart
