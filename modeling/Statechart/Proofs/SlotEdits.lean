import Statechart.Proofs.LeafTexts
import Statechart.Proofs.Slots

/-!
# Edits of a literal, slot by slot

The edits of a literal with leaves are, up to their order, those of its slots: an entry that is
dropped is deleted, one that is kept has its leaf replaced, and new entries are inserted before the
first that is kept and behind each.

* `Baseline.editing`: the edits next to the entries of the literal;
* `Baseline.entryEdits_of_slots`: the edits of the literal are those of its slots.
-/

namespace Statechart

/-- A step for each element of a list succeeds, and the outcomes are, put together, `edits`. -/
def Collects {α : Type} (f : α → Spliced (List TextEdit)) (l : List α) (edits : List TextEdit) :
    Prop :=
  ∃ out, l.mapM f = .ok out ∧ out.flatten = edits

namespace Collects

variable {α : Type} {f : α → Spliced (List TextEdit)} {a : α} {l l' : List α}
  {edits edits' : List TextEdit}

theorem nil : Collects f [] [] :=
  ⟨[], rfl, rfl⟩

theorem cons (ha : f a = .ok edits) (hl : Collects f l edits') :
    Collects f (a :: l) (edits ++ edits') := by
  obtain ⟨out, hout, rfl⟩ := hl
  refine ⟨edits :: out, ?_, rfl⟩
  rw [List.mapM_cons]
  exact bind_eq_ok.2 ⟨edits, ha, bind_eq_ok.2 ⟨out, hout, rfl⟩⟩

theorem append (hl : Collects f l edits) (hl' : Collects f l' edits') :
    Collects f (l ++ l') (edits ++ edits') := by
  obtain ⟨out, hout, rfl⟩ := hl
  obtain ⟨out', hout', rfl⟩ := hl'
  refine ⟨out ++ out', ?_, List.flatten_append⟩
  rw [List.mapM_append]
  exact bind_eq_ok.2 ⟨out, hout, bind_eq_ok.2 ⟨out', hout', rfl⟩⟩

theorem of_forall_nil (h : ∀ a ∈ l, f a = .ok []) : Collects f l [] := by
  induction l with
  | nil => exact nil
  | cons a l ih =>
    exact cons (h a List.mem_cons_self) (ih fun b hb => h b (List.mem_cons_of_mem _ hb))

end Collects

namespace Baseline

open Splice EntrySlot

variable {baseline : Baseline} {pieces : List Piece} {indent : String} {span : Span}

variable (baseline) in
/-- The edits next to the entries of the literal. -/
def editing (span : Span) (fixComma : Bool) (old : List Entry) (kept : List Nat) :
    Editing Piece DraftEntry where
  delete pos piece := deletion baseline.source
    (Text.spansLines baseline.source span.start span.stop) fixComma old kept pos piece.span
  change piece draft := piece.leafEdits draft.leaf?
  before piece drafts :=
    if drafts.isEmpty then []
    else baseline.insertionAt span none piece.span (drafts.map DraftEntry.text)
  behind piece drafts :=
    if drafts.isEmpty then []
    else baseline.insertionAt span (some 0) piece.span (drafts.map DraftEntry.text)

variable (baseline) in
/-- The edits of an entry of the draft that keeps the one at a position, if it keeps one. -/
def changeEdits (old : List Entry) (draft : DraftEntry × Option Nat) : Spliced (List TextEdit) :=
  match draft.2.bind (old[·]?) with
  | some before => (baseline.planOfEntry draft.1.entry).edits before
  | none => pure []

variable (baseline) in
/-- The edits that insert a run of new entries behind the entry at a position, or before the
    first that is kept. -/
def runEdits (span : Span) (old : List Entry) (first : Nat) (run : Option Nat × List DraftEntry) :
    Spliced (List TextEdit) :=
  match old[run.1.getD first]?.bind (·.span) with
  | none => pure []
  | some place => do
    let texts ← (run.2.map DraftEntry.entry).mapM fun entry =>
      (baseline.planOfEntry entry).text (Text.indentAt baseline.source place.start)
    pure (baseline.insertionAt span run.1 place texts)

variable {slots done rest : List (EntrySlot Piece DraftEntry)} {slot : EntrySlot Piece DraftEntry}
  {lead drafts : List DraftEntry} {first : Nat}

section

variable (span : Span) (fixComma : Bool) (kept : List Nat)
  (hslots : slots.map EntrySlot.old = pieces)

include hslots

theorem getElem?_entries (hsplit : slots = done ++ slot :: rest) :
    (pieces.map Piece.entry)[done.length]? = some slot.old.entry := by
  rw [← hslots, hsplit]
  simp

theorem old_mem (hsplit : slots = done ++ slot :: rest) : slot.old ∈ pieces := by
  rw [← hslots, hsplit]
  simp

theorem deletions_of_slots (hplaced : ∀ p ∈ pieces, p.IsPlaced) :
    deletions baseline.source (Text.spansLines baseline.source span.start span.stop) fixComma
        (pieces.map Piece.entry) (keptFrom 0 slots)
      = (baseline.editing span fixComma (pieces.map Piece.entry) (keptFrom 0 slots)).deleted
          0 slots := by
  obtain ⟨f, hf, hdeletions⟩ : ∃ f : Entry × Nat → List TextEdit,
      (∀ entry i place, entry.span = some place →
        f (entry, i) = if (keptFrom 0 slots).contains i then []
          else deletion baseline.source (Text.spansLines baseline.source span.start span.stop)
            fixComma (pieces.map Piece.entry) (keptFrom 0 slots) i place) ∧
      deletions baseline.source (Text.spansLines baseline.source span.start span.stop) fixComma
        (pieces.map Piece.entry) (keptFrom 0 slots)
        = (pieces.map Piece.entry).zipIdx.flatMap f :=
    ⟨_, fun entry i place hspan => by simp only [hspan], rfl⟩
  -- By the slots still to come, with those before them for the position.
  suffices hsuffix : ∀ rest done, slots = done ++ rest →
      ((rest.map fun s => s.old.entry).zipIdx done.length).flatMap f =
      (baseline.editing span fixComma (pieces.map Piece.entry) (keptFrom 0 slots)).deleted
        done.length rest by
    have hentries : slots.map (fun s => s.old.entry) = pieces.map Piece.entry := by
      rw [← hslots, List.map_map]
      rfl
    have hall := hsuffix slots [] rfl
    rw [hentries] at hall
    exact hdeletions.trans hall
  intro rest
  induction rest with
  | nil => exact fun _ _ => rfl
  | cons slot rest ih =>
    intro done hsplit
    have hnext := ih (done ++ [slot]) (by simpa using hsplit)
    rw [List.length_append, List.length_singleton] at hnext
    rw [List.map_cons, List.zipIdx_cons, List.flatMap_cons, hnext]
    rw [hf _ _ _ (hplaced _ (old_mem hslots hsplit)).span_eq, contains_keptFrom hsplit]
    obtain ⟨p, - | k⟩ := slot
    · rfl
    · rfl

theorem collects_changed
    (hwritten : ∀ s ∈ slots, ∀ d ∈ s.new, d.IsWritten baseline pieces indent)
    (horigin : ∀ s ∈ slots, ∀ d behind, s.kept = some (d, behind) →
      d.entry.origin = s.old.entry.origin) :
    Collects (baseline.changeEdits (pieces.map Piece.entry)) (matched 0 slots)
      (slots.flatMap (baseline.editing span fixComma (pieces.map Piece.entry) kept).changed) := by
  suffices hsuffix : ∀ rest done, slots = done ++ rest →
      Collects (baseline.changeEdits (pieces.map Piece.entry)) (matched done.length rest)
        (rest.flatMap (baseline.editing span fixComma (pieces.map Piece.entry) kept).changed) from
    hsuffix slots [] rfl
  intro rest
  induction rest with
  | nil => exact fun _ _ => Collects.nil
  | cons slot rest ih =>
    intro done hsplit
    have hmem : slot ∈ slots := by
      rw [hsplit]
      simp
    have hnext := ih (done ++ [slot]) (by simpa using hsplit)
    rw [List.length_append, List.length_singleton] at hnext
    have hentry := getElem?_entries hslots hsplit
    obtain ⟨p, - | ⟨d, behind⟩⟩ := slot
    · exact hnext
    · refine Collects.cons ?_ ((Collects.of_forall_nil fun x hx => ?_).append hnext)
      · simp only [changeEdits, Option.bind_some, hentry]
        exact ((hwritten _ hmem d List.mem_cons_self).edits_eq p (old_mem hslots hsplit)
          (horigin _ hmem d behind rfl)).1
      · obtain ⟨b, -, rfl⟩ := List.mem_map.1 hx
        rfl

/-- The texts of a run are inserted next to the entry of a slot. -/
theorem runEdits_eq_ok (h : baseline.Standing pieces indent) (hsplit : slots = done ++ slot :: rest)
    {anchor : Option Nat} (hanchor : anchor.getD first = done.length) {run : List DraftEntry}
    (hrun : ∀ d ∈ run, d.IsWritten baseline pieces indent) :
    baseline.runEdits span (pieces.map Piece.entry) first (anchor, run)
      = .ok (baseline.insertionAt span anchor slot.old.span (run.map DraftEntry.text)) := by
  have hmem := old_mem hslots hsplit
  rw [runEdits, hanchor, getElem?_entries hslots hsplit, Option.bind_some,
    (h.placed _ hmem).span_eq]
  refine bind_eq_ok.2 ⟨run.map DraftEntry.text, ?_, rfl⟩
  rw [mapM_eq_ok_iff, List.forall₂_map_left_iff, List.forall₂_map_right_iff, List.forall₂_same]
  intro d hd
  rw [show slot.old.span.start = slot.old.start from rfl, h.indent_eq _ hmem]
  exact (hrun d hd).text_eq

theorem collects_run (h : baseline.Standing pieces indent) (hsplit : slots = done ++ slot :: rest)
    {anchor : Option Nat} (hanchor : anchor.getD first = done.length) {run : List DraftEntry}
    (hrun : ∀ d ∈ run, d.IsWritten baseline pieces indent) :
    Collects (baseline.runEdits span (pieces.map Piece.entry) first)
      (if run.isEmpty then [] else [(anchor, run)])
      (if run.isEmpty then []
        else baseline.insertionAt span anchor slot.old.span (run.map DraftEntry.text)) := by
  split
  · exact Collects.nil
  · rw [← List.append_nil (baseline.insertionAt _ _ _ _)]
    exact Collects.cons (runEdits_eq_ok span hslots h hsplit hanchor hrun) Collects.nil

theorem collects_appended (h : baseline.Standing pieces indent)
    (hwritten : ∀ s ∈ slots, ∀ d ∈ s.new, d.IsWritten baseline pieces indent) :
    Collects (baseline.runEdits span (pieces.map Piece.entry) first) (runsBehind 0 slots)
      (slots.flatMap (baseline.editing span fixComma (pieces.map Piece.entry) kept).appended) := by
  suffices hsuffix : ∀ rest done, slots = done ++ rest →
      Collects (baseline.runEdits span (pieces.map Piece.entry) first)
        (runsBehind done.length rest)
        (rest.flatMap (baseline.editing span fixComma (pieces.map Piece.entry) kept).appended) from
    hsuffix slots [] rfl
  intro rest
  induction rest with
  | nil => exact fun _ _ => Collects.nil
  | cons slot rest ih =>
    intro done hsplit
    have hmem : slot ∈ slots := by
      rw [hsplit]
      simp
    have hnext := ih (done ++ [slot]) (by simpa using hsplit)
    rw [List.length_append, List.length_singleton] at hnext
    obtain ⟨p, - | ⟨d, behind⟩⟩ := slot
    · exact hnext
    · exact Collects.append (collects_run span hslots h hsplit rfl fun d hd =>
        hwritten _ hmem d (List.mem_cons_of_mem _ hd)) hnext

/-- What leads is inserted before the first entry that is kept. -/
theorem collects_inserted (h : baseline.Standing pieces indent)
    (hlead : ∀ d ∈ lead, d.IsWritten baseline pieces indent) {more : List Nat}
    (hfirst : keptFrom 0 slots = first :: more) :
    Collects (baseline.runEdits span (pieces.map Piece.entry) first)
      (if lead.isEmpty then [] else [(none, lead)])
      ((baseline.editing span fixComma (pieces.map Piece.entry) kept).inserted lead slots) := by
  -- The first slot that is kept has only dropped ones before it.
  suffices hsuffix : ∀ rest done, slots = done ++ rest → keptFrom done.length rest = first :: more →
      Collects (baseline.runEdits span (pieces.map Piece.entry) first)
        (if lead.isEmpty then [] else [(none, lead)])
        ((baseline.editing span fixComma (pieces.map Piece.entry) kept).inserted lead rest) from
    hsuffix slots [] rfl hfirst
  intro rest
  induction rest with
  | nil => exact fun _ _ hkept => absurd hkept (by simp [keptFrom])
  | cons slot rest ih =>
    intro done hsplit hkept
    obtain ⟨p, - | k⟩ := slot
    · refine ih (done ++ [⟨p, none⟩]) (by simpa using hsplit) ?_
      rw [List.length_append, List.length_singleton]
      exact hkept
    · exact collects_run span hslots h hsplit
        (show (none : Option Nat).getD first = done.length from (List.cons.inj hkept).1.symm) hlead

end

/-- The edits of the literal are, up to their order, those of its slots. -/
theorem entryEdits_of_slots (h : baseline.Standing pieces indent)
    (hslots : slots.map EntrySlot.old = pieces)
    (hzip : drafts.zip (matchFrom (pieces.map Piece.entry) 0 (drafts.map (·.entry.origin)))
      = lead.map (·, none) ++ matched 0 slots)
    (hwritten : ∀ d ∈ drafts, d.IsWritten baseline pieces indent)
    (horigin : ∀ s ∈ slots, ∀ d behind, s.kept = some (d, behind) →
      d.entry.origin = s.old.entry.origin)
    (hkept : slots.any isKept = true) (fresh : String → Spliced String) :
    ∃ edits fixComma, baseline.entryEdits span (pieces.map Piece.entry)
        ((drafts.map DraftEntry.entry).map baseline.planOfEntry) fresh = .ok edits ∧
      edits.Perm ((baseline.editing span fixComma (pieces.map Piece.entry)
        (keptFrom 0 slots)).edits lead 0 slots) := by
  have hmatching : matching (pieces.map Piece.entry) (drafts.map DraftEntry.entry)
      = matchFrom (pieces.map Piece.entry) 0 (drafts.map (·.entry.origin)) := by
    rw [matching, List.map_map]
    rfl
  have hlength : (matchFrom (pieces.map Piece.entry) 0 (drafts.map (·.entry.origin))).length
      = drafts.length := by
    rw [length_matchFrom, List.length_map]
  have hpositions : keptPositions (pieces.map Piece.entry) (drafts.map DraftEntry.entry)
      = keptFrom 0 slots := by
    rw [keptPositions, hmatching, filterMap_eq_keptFrom hlength hzip]
  -- All that leads or stands in a slot is in the draft.
  have hnew := eq_append_flatMap_new hlength hzip
  have hslot : ∀ s ∈ slots, ∀ d ∈ s.new, d.IsWritten baseline pieces indent := fun s hs d hd =>
    hwritten d (hnew ▸ List.mem_append_right _ (List.mem_flatMap.2 ⟨s, hs, hd⟩))
  obtain ⟨first, more, hfirst⟩ : ∃ first more, keptFrom 0 slots = first :: more :=
    List.exists_cons_of_ne_nil fun hnil => by
      rw [keptFrom_eq_nil.1 hnil] at hkept
      cases hkept
  have hruns : runs ((lead.map (·, none) ++ matched 0 slots).map (Prod.map DraftEntry.entry id))
      = ((if lead.isEmpty then [] else [(none, lead)]) ++ runsBehind 0 slots).map
          (Prod.map id (List.map DraftEntry.entry)) := by
    have hmap := runsFrom_map DraftEntry.entry none [] (lead.map (·, none) ++ matched 0 slots)
    rwa [runsFrom_new_append, List.nil_append, runsFrom_matched] at hmap
  let fixComma := Text.spansLines baseline.source span.start span.stop &&
    !((matching (pieces.map Piece.entry) (drafts.map DraftEntry.entry)).getLast? == some none)
  have hremovals : baseline.removals span (pieces.map Piece.entry) (drafts.map DraftEntry.entry)
      = (baseline.editing span fixComma (pieces.map Piece.entry) (keptFrom 0 slots)).deleted
          0 slots := by
    rw [removals, hpositions]
    exact deletions_of_slots span fixComma hslots h.placed
  have hlead : ∀ x ∈ lead.map (·, none),
      baseline.changeEdits (pieces.map Piece.entry) x = .ok [] := by
    intro x hx
    obtain ⟨d, -, rfl⟩ := List.mem_map.1 hx
    rfl
  obtain ⟨changes, hchanges, hchanged⟩ := (Collects.of_forall_nil hlead).append
    (collects_changed span fixComma (keptFrom 0 slots) hslots hslot horigin)
  obtain ⟨insertions, hinsertions, hinserted⟩ :=
    (collects_inserted span fixComma (keptFrom 0 slots) hslots h (fun d hd =>
      hwritten d (hnew ▸ List.mem_append_left _ hd)) hfirst).append
      (collects_appended span fixComma (keptFrom 0 slots) hslots h hslot)
  refine ⟨changes.flatten ++ baseline.removals span (pieces.map Piece.entry)
    (drafts.map DraftEntry.entry) ++ insertions.flatten, fixComma, ?_, ?_⟩
  · rw [entryEdits_eq (hpositions.trans hfirst), hmatching, List.zip_map_left, hzip, hruns,
      List.mapM_map, List.mapM_map]
    exact bind_eq_ok.2 ⟨changes, hchanges, bind_eq_ok.2 ⟨insertions, hinsertions, rfl⟩⟩
  · rw [hchanged, hinserted, hremovals, List.nil_append]
    exact Editing.edits_perm _ (fun _ => rfl) lead 0 slots

end Baseline

end Statechart
