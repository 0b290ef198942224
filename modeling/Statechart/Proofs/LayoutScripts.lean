import Statechart.Proofs.LeafTexts
import Statechart.Proofs.Slots

/-!
# Scripts of layouts

What becomes of a literal, slot by slot, in each of the two layouts. On lines of their own, an
entry that is dropped goes with its line, and new entries get lines of theirs. On one line, a
dropped entry goes with the comma behind it, or with the comma before it if nothing is kept behind
it.

* `linesScript`, `inlineScript`: the script of slots in each layout;
* `oldText_linesScript`, `newText_linesScript`, `isSound_linesScript`, and the same for one line:
  the script turns the texts of the old entries into those of the new ones.
-/

namespace Statechart

open Splice EntrySlot

/-! ## Texts in rows -/

theorem surround_nil (before after : String) : surround before after [] = "" :=
  rfl

theorem surround_cons (before after text : String) (texts : List String) :
    surround before after (text :: texts)
      = before ++ text ++ after ++ surround before after texts := by
  rw [surround, List.map_cons, String.join_cons, surround]

theorem surround_append (before after : String) (texts texts' : List String) :
    surround before after (texts ++ texts')
      = surround before after texts ++ surround before after texts' := by
  rw [surround, List.map_append, String.join_append, surround, surround]

theorem intercalate_cons (sep text : String) (texts : List String) :
    String.intercalate sep (text :: texts) = text ++ surround sep "" texts := by
  induction texts generalizing text with
  | nil => rw [String.intercalate_singleton, surround_nil, String.append_empty]
  | cons next texts ih =>
    rw [String.intercalate_cons_cons, ih, surround_cons, String.append_empty]
    simp only [String.append_assoc]

/-- A row behind other texts. -/
theorem surround_eq_intercalate (sep : String) {texts : List String} (h : texts ≠ []) :
    surround sep "" texts = sep ++ String.intercalate sep texts := by
  obtain ⟨text, texts, rfl⟩ := List.exists_cons_of_ne_nil h
  rw [intercalate_cons, surround_cons, String.append_empty, String.append_assoc]

theorem intercalate_append_cons (sep text : String) (texts texts' : List String) :
    String.intercalate sep (texts ++ text :: texts')
      = surround "" sep texts ++ String.intercalate sep (text :: texts') := by
  induction texts with
  | nil => rw [List.nil_append, surround_nil, String.empty_append]
  | cons first texts ih =>
    have hne : texts ++ text :: texts' ≠ [] := by simp
    rw [List.cons_append, intercalate_cons, surround_eq_intercalate sep hne, ih, surround_cons,
      String.empty_append]
    simp only [String.append_assoc]

/-! ## New entries -/

/-- Puts in the texts of new entries, if there are any. -/
def putTexts (before after : String) (drafts : List DraftEntry) : Script :=
  if drafts.isEmpty then [] else [.put (surround before after (drafts.map DraftEntry.text))]

section

variable (before after : String) (drafts : List DraftEntry)

theorem oldText_putTexts : Script.oldText (putTexts before after drafts) = "" := by
  cases drafts <;> rfl

theorem newText_putTexts : Script.newText (putTexts before after drafts)
    = surround before after (drafts.map DraftEntry.text) := by
  cases drafts with
  | nil => rfl
  | cons draft drafts => simp [putTexts, Step.newText]

theorem isSound_putTexts_append {free : Bool} {rest : Script}
    (hfree : drafts.isEmpty = true ∨ free = true)
    (hrest : ∀ free, Script.isSound free rest = true) :
    Script.isSound free (putTexts before after drafts ++ rest) = true := by
  rw [putTexts]
  split
  · exact hrest free
  · next hne =>
    have hfree : free = true := hfree.resolve_left hne
    rw [List.singleton_append, Script.isSound, hfree, Bool.true_and]
    exact hrest false

end

variable {indent : String} {lead : List DraftEntry} {slots : List (EntrySlot Piece DraftEntry)}
  {free : Bool}

/-- The text of an entry of the draft that stays in its place is the old one with its leaf
    replaced. -/
def StaysInPlace (slots : List (EntrySlot Piece DraftEntry)) : Prop :=
  ∀ slot ∈ slots, ∀ draft behind, slot.kept = some (draft, behind) →
    draft.text = slot.old.withLeaf (draft.leaf?.getD slot.old.leaf)

/-! ## Lines -/

/-- The script of entries on lines of their own. -/
def linesScript (indent : String) (lead : List DraftEntry) :
    List (EntrySlot Piece DraftEntry) → Script
  | [] => []
  | ⟨piece, none⟩ :: rest =>
    .drop [indent ++ piece.text ++ ",\n"] :: linesScript indent lead rest
  | ⟨piece, some (draft, behind)⟩ :: rest =>
    putTexts indent ",\n" lead ++ .copy indent :: piece.steps draft.leaf? ++ .copy ",\n"
      :: putTexts indent ",\n" behind ++ linesScript indent [] rest

theorem oldText_linesScript : Script.oldText (linesScript indent lead slots)
    = surround indent ",\n" (slots.map fun s => s.old.text) := by
  induction slots generalizing lead with
  | nil => rfl
  | cons slot rest ih =>
    rw [List.map_cons, surround_cons]
    obtain ⟨piece, - | ⟨draft, behind⟩⟩ := slot
    · simp [linesScript, ih, Step.oldText]
    · simp [linesScript, ih, oldText_putTexts, Piece.oldText_steps, Step.oldText,
        String.append_assoc]

theorem newText_linesScript (hstays : StaysInPlace slots)
    (hlead : lead = [] ∨ slots.any isKept = true) :
    Script.newText (linesScript indent lead slots)
      = surround indent ",\n" ((lead ++ slots.flatMap EntrySlot.new).map DraftEntry.text) := by
  induction slots generalizing lead with
  | nil =>
    obtain rfl : lead = [] := hlead.resolve_right (by simp)
    rfl
  | cons slot rest ih =>
    have hrest : StaysInPlace rest := fun s hs => hstays s (List.mem_cons_of_mem _ hs)
    obtain ⟨piece, - | ⟨draft, behind⟩⟩ := slot
    · have hnext : Script.newText (linesScript indent lead rest) = _ :=
        ih hrest (hlead.imp_right fun h => by simpa [isKept] using h)
      simpa [linesScript, Step.newText, EntrySlot.new] using hnext
    · have hnext : Script.newText (linesScript indent [] rest) = _ := ih hrest (.inl rfl)
      have htext := hstays _ List.mem_cons_self draft behind rfl
      simp only [linesScript, Script.newText_append, Script.newText_cons, newText_putTexts,
        Piece.newText_steps, ← htext, Step.newText, hnext, List.flatMap_cons, EntrySlot.new,
        List.map_append, List.map_cons, List.nil_append, surround_append, surround_cons,
        List.cons_append, String.append_assoc]

theorem isSound_linesScript (hleaf : ∀ s ∈ slots, s.old.leaf ≠ "")
    (hfree : lead.isEmpty = true ∨ free = true) :
    Script.isSound free (linesScript indent lead slots) = true := by
  induction slots generalizing lead free with
  | nil => rfl
  | cons slot rest ih =>
    have hrest : ∀ s ∈ rest, s.old.leaf ≠ "" := fun s hs => hleaf s (List.mem_cons_of_mem _ hs)
    obtain ⟨piece, - | ⟨draft, behind⟩⟩ := slot
    · simp [linesScript, Script.isSound, ih hrest (.inr rfl)]
    · simp only [linesScript, List.append_assoc, List.cons_append]
      refine isSound_putTexts_append _ _ _ hfree fun free' => ?_
      rw [Script.isSound, Piece.isSound_steps_append (hleaf _ List.mem_cons_self), Script.isSound,
        Bool.true_or]
      exact isSound_putTexts_append _ _ _ (.inr rfl) fun _ => ih hrest (.inl rfl)

/-! ## One line -/

/-- Drops what is left behind the last entry that is kept. -/
def dropBehind (slots : List (EntrySlot Piece DraftEntry)) : Script :=
  if slots.isEmpty then [] else [.drop (slots.map fun s => ", " ++ s.old.text)]

/-- The script of entries on one line. -/
def inlineScript (lead : List DraftEntry) : List (EntrySlot Piece DraftEntry) → Script
  | [] => []
  | ⟨piece, none⟩ :: rest => .drop [piece.text ++ ", "] :: inlineScript lead rest
  | ⟨piece, some (draft, behind)⟩ :: rest =>
    putTexts "" ", " lead ++ piece.steps draft.leaf? ++ putTexts ", " "" behind
      ++ if rest.any isKept then .copy ", " :: inlineScript [] rest else dropBehind rest

theorem oldText_dropBehind : Script.oldText (dropBehind slots)
    = surround ", " "" (slots.map fun s => s.old.text) := by
  cases slots with
  | nil => rfl
  | cons slot rest => simp [dropBehind, Step.oldText, surround, Function.comp_def]

theorem oldText_inlineScript (hkept : slots.any isKept = true) :
    Script.oldText (inlineScript lead slots)
      = String.intercalate ", " (slots.map fun s => s.old.text) := by
  induction slots generalizing lead with
  | nil => cases hkept
  | cons slot rest ih =>
    have hne : rest.any isKept = true → rest.map (fun s => s.old.text) ≠ [] := by
      rintro hrest heq
      rw [List.map_eq_nil_iff.1 heq] at hrest
      cases hrest
    rw [List.map_cons, intercalate_cons]
    obtain ⟨piece, - | ⟨draft, behind⟩⟩ := slot
    · have hrest : rest.any isKept = true := by simpa [isKept] using hkept
      rw [inlineScript, Script.oldText_cons, ih hrest, surround_eq_intercalate _ (hne hrest)]
      simp [Step.oldText, String.append_assoc]
    · simp only [inlineScript, Script.oldText_append, oldText_putTexts, Piece.oldText_steps,
        String.empty_append, String.append_empty]
      split
      · next hrest =>
        rw [Script.oldText_cons, ih hrest, surround_eq_intercalate _ (hne hrest)]
        rfl
      · rw [oldText_dropBehind]

theorem newText_dropBehind : Script.newText (dropBehind slots) = "" := by
  cases slots <;> rfl

theorem flatMap_new_eq_nil (h : slots.any isKept = false) : slots.flatMap EntrySlot.new = [] := by
  rw [List.flatMap_eq_nil_iff]
  rintro ⟨piece, - | kept⟩ hslot
  · rfl
  · exact absurd (List.any_eq_false.1 h _ hslot) (by simp [isKept])

theorem flatMap_new_ne_nil (h : slots.any isKept = true) : slots.flatMap EntrySlot.new ≠ [] := by
  obtain ⟨⟨piece, - | kept⟩, hslot, hkept⟩ := List.any_eq_true.1 h
  · cases hkept
  · intro heq
    exact absurd (List.flatMap_eq_nil_iff.1 heq _ hslot) (by simp [EntrySlot.new])

theorem newText_inlineScript (hstays : StaysInPlace slots) (hkept : slots.any isKept = true) :
    Script.newText (inlineScript lead slots)
      = String.intercalate ", " ((lead ++ slots.flatMap EntrySlot.new).map DraftEntry.text) := by
  induction slots generalizing lead with
  | nil => cases hkept
  | cons slot rest ih =>
    have hrest : StaysInPlace rest := fun s hs => hstays s (List.mem_cons_of_mem _ hs)
    obtain ⟨piece, - | ⟨draft, behind⟩⟩ := slot
    · have hnext : Script.newText (inlineScript lead rest) = _ :=
        ih hrest (by simpa [isKept] using hkept)
      simpa [inlineScript, Step.newText, EntrySlot.new] using hnext
    · have htext := hstays _ List.mem_cons_self draft behind rfl
      simp only [inlineScript, Script.newText_append, newText_putTexts, Piece.newText_steps,
        ← htext, List.flatMap_cons, EntrySlot.new, List.map_append, List.map_cons, List.cons_append,
        intercalate_append_cons, intercalate_cons, surround_append]
      have hmore : Script.newText
          (if rest.any isKept then .copy ", " :: inlineScript [] rest else dropBehind rest)
          = surround ", " "" ((rest.flatMap EntrySlot.new).map DraftEntry.text) := by
        split
        · next hany =>
          have hne : (rest.flatMap EntrySlot.new).map DraftEntry.text ≠ [] := fun heq =>
            flatMap_new_ne_nil hany (List.map_eq_nil_iff.1 heq)
          rw [Script.newText_cons, ih hrest hany, surround_eq_intercalate _ hne]
          rfl
        · next hany =>
          rw [newText_dropBehind, flatMap_new_eq_nil (Bool.not_eq_true _ ▸ hany)]
          rfl
      rw [hmore]
      simp only [String.append_assoc]

theorem isSound_dropBehind : Script.isSound free (dropBehind slots) = true := by
  cases slots with
  | nil => rfl
  | cons slot rest => simp [dropBehind, Script.isSound]

theorem isSound_inlineScript (hleaf : ∀ s ∈ slots, s.old.leaf ≠ "")
    (hfree : lead.isEmpty = true ∨ free = true) :
    Script.isSound free (inlineScript lead slots) = true := by
  induction slots generalizing lead free with
  | nil => rfl
  | cons slot rest ih =>
    have hrest : ∀ s ∈ rest, s.old.leaf ≠ "" := fun s hs => hleaf s (List.mem_cons_of_mem _ hs)
    obtain ⟨piece, - | ⟨draft, behind⟩⟩ := slot
    · simp [inlineScript, Script.isSound, ih hrest (.inr rfl)]
    · simp only [inlineScript, List.append_assoc]
      refine isSound_putTexts_append _ _ _ hfree fun free' => ?_
      rw [Piece.isSound_steps_append (hleaf _ List.mem_cons_self)]
      refine isSound_putTexts_append _ _ _ (.inr rfl) fun free'' => ?_
      split
      · rw [Script.isSound]
        exact ih hrest (.inl rfl)
      · exact isSound_dropBehind

end Statechart
