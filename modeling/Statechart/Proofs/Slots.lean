import Statechart.Proofs.EntryEdits

/-!
# Slots

Matching goes over the new entries and says which old ones they keep. The edits of a literal go
over the old entries instead. A *slot* is an old entry with the new one that keeps it, if one does,
and with the new ones from there up to the next that keeps one; the new entries before the first
of these *lead*.

* `exists_slots`: each match gives slots;
* `filterMap_matched`, `runsFrom_matched`: the kept positions and the runs, slot by slot;
* `keepsAfter_eq`, `keptBefore?_eq`: what is kept around a slot;
* `edits_perm`: the edits of a literal are, up to their order, those of one slot after the other.
-/

namespace Statechart

/-- An old entry with the new one that keeps it, if one does, and the new ones behind that. -/
structure EntrySlot (α β : Type) where
  old : α
  kept : Option (β × List β)

namespace EntrySlot

variable {α β : Type} {slots done rest : List (EntrySlot α β)} {slot : EntrySlot α β}
  {lead : List β} {pos i : Nat}

/-- The new entries of a slot. -/
def new : EntrySlot α β → List β
  | ⟨_, none⟩ => []
  | ⟨_, some (b, behind)⟩ => b :: behind

/-- Whether the old entry of a slot is kept. -/
def isKept (slot : EntrySlot α β) : Bool :=
  slot.kept.isSome

/-- The new entries of slots from position `pos` on, each with the position that it keeps. -/
def matched (pos : Nat) : List (EntrySlot α β) → List (β × Option Nat)
  | [] => []
  | ⟨_, none⟩ :: rest => matched (pos + 1) rest
  | ⟨_, some (b, behind)⟩ :: rest =>
    (b, some pos) :: behind.map (·, none) ++ matched (pos + 1) rest

/-- The positions that are kept from `pos` on. -/
def keptFrom (pos : Nat) : List (EntrySlot α β) → List Nat
  | [] => []
  | slot :: rest => (if slot.isKept then [pos] else []) ++ keptFrom (pos + 1) rest

/-- The runs of new entries behind the kept ones from `pos` on. -/
def runsBehind (pos : Nat) : List (EntrySlot α β) → List (Option Nat × List β)
  | [] => []
  | ⟨_, none⟩ :: rest => runsBehind (pos + 1) rest
  | ⟨_, some (_, behind)⟩ :: rest =>
    (if behind.isEmpty then [] else [(some pos, behind)]) ++ runsBehind (pos + 1) rest

theorem map_fst_matched : (matched pos slots).map Prod.fst = slots.flatMap new := by
  induction slots generalizing pos with
  | nil => rfl
  | cons slot rest ih =>
    obtain ⟨old, - | ⟨b, behind⟩⟩ := slot
    · rw [matched, ih, List.flatMap_cons]
      rfl
    · simp only [matched, new, List.map_append, List.map_cons, List.map_map, ih,
        List.flatMap_cons, Function.comp_def, List.map_id_fun', id_eq, List.cons_append]

theorem filterMap_matched : (matched pos slots).filterMap Prod.snd = keptFrom pos slots := by
  induction slots generalizing pos with
  | nil => rfl
  | cons slot rest ih =>
    obtain ⟨old, - | ⟨b, behind⟩⟩ := slot
    · exact ih
    · simp only [matched, keptFrom, isKept, Option.isSome_some, if_true, List.cons_append,
        List.filterMap_cons, List.filterMap_append, List.filterMap_map, Function.comp_def,
        List.filterMap_none, List.nil_append, ih]

/-- The new entries are those that lead and those of the slots. -/
theorem eq_append_flatMap_new {drafts : List β} {positions : List (Option Nat)}
    (hlength : positions.length = drafts.length)
    (hzip : drafts.zip positions = lead.map (·, none) ++ matched pos slots) :
    drafts = lead ++ slots.flatMap new := by
  have hfst := congrArg (List.map Prod.fst) hzip
  rw [List.map_fst_zip (Nat.le_of_eq hlength.symm), List.map_append, map_fst_matched,
    List.map_map] at hfst
  simpa [Function.comp_def] using hfst

/-- The positions that are kept are those of the slots. -/
theorem filterMap_eq_keptFrom {drafts : List β} {positions : List (Option Nat)}
    (hlength : positions.length = drafts.length)
    (hzip : drafts.zip positions = lead.map (·, none) ++ matched pos slots) :
    positions.filterMap id = keptFrom pos slots := by
  have hsnd := congrArg (List.map Prod.snd) hzip
  rw [List.map_snd_zip (Nat.le_of_eq hlength)] at hsnd
  rw [hsnd, List.filterMap_map, List.filterMap_append, List.filterMap_map, ← filterMap_matched]
  simp

/-- Dropped slots only move the position. -/
theorem matched_dropped_append (pos : Nat) (dropped : List α) (rest : List (EntrySlot α β)) :
    matched pos (dropped.map (fun a => (⟨a, none⟩ : EntrySlot α β)) ++ rest)
      = matched (pos + dropped.length) rest := by
  induction dropped generalizing pos with
  | nil => rfl
  | cons a dropped ih =>
    rw [List.map_cons, List.cons_append, matched, ih, List.length_cons, Nat.add_right_comm,
      Nat.add_assoc]

/-! ## Slots of a match -/

open Splice in
/-- Each match gives slots, with a new entry in the slot of the old one of its origin. -/
theorem exists_slots {span : Span} (entry : α → Entry) (origin : β → Origin) {old : List α}
    (hold : Entry.Placed span (old.map entry)) (new : List β) (bound : Nat) :
    ∃ (lead : List β) (slots : List (EntrySlot α β)), slots.map EntrySlot.old = old.drop bound ∧
      new.zip (matchFrom (old.map entry) bound (new.map origin))
        = lead.map (·, none) ++ matched bound slots ∧
      ∀ slot ∈ slots, ∀ b behind, slot.kept = some (b, behind) →
        origin b = (entry slot.old).origin := by
  induction new generalizing bound with
  | nil =>
    refine ⟨[], (old.drop bound).map fun a => ⟨a, none⟩, ?_, ?_, fun slot hslot b behind h => ?_⟩
    · simp [List.map_map, Function.comp_def]
    · simpa [matched] using
        (matched_dropped_append bound (old.drop bound) ([] : List (EntrySlot α β))).symm
    · obtain ⟨a, -, rfl⟩ := List.mem_map.1 hslot
      cases h
  | cons n new ih =>
    rw [List.map_cons, matchFrom]
    cases hpos : (positionOf? (old.map entry) (origin n)).filter (bound ≤ ·) with
    | none =>
      obtain ⟨lead, slots, hslots, hzip, horigin⟩ := ih bound
      exact ⟨n :: lead, slots, hslots, by simp only [List.zip_cons_cons, hzip, List.map_cons,
        List.cons_append], horigin⟩
    | some i =>
      -- The new entries up to the next match stand behind this one.
      obtain ⟨hfound, hle⟩ := Option.filter_eq_some_iff.1 hpos
      obtain ⟨o, ho, horigin⟩ := (positionOf?_eq_some_iff hold).1 hfound
      rw [List.getElem?_map, Option.map_eq_some_iff] at ho
      obtain ⟨a, ha, rfl⟩ := ho
      obtain ⟨hi, rfl⟩ := List.getElem?_eq_some_iff.1 ha
      have hle : bound ≤ i := by simpa using hle
      obtain ⟨lead, slots, hslots, hzip, hkept⟩ := ih (i + 1)
      have hdropped : ((old.drop bound).take (i - bound)).length = i - bound := by
        rw [List.length_take, List.length_drop]
        omega
      refine ⟨[], ((old.drop bound).take (i - bound)).map (fun a => ⟨a, none⟩)
        ++ ⟨old[i], some (n, lead)⟩ :: slots, ?_, ?_, ?_⟩
      · rw [List.map_append, List.map_map, List.map_cons, hslots]
        simp only [Function.comp_def, List.map_id_fun', id_eq]
        conv_rhs => rw [← List.take_append_drop (i - bound) (old.drop bound), List.drop_drop,
          Nat.add_sub_cancel' hle, List.drop_eq_getElem_cons hi]
      · rw [matched_dropped_append, hdropped, Nat.add_sub_cancel' hle, matched,
          List.cons_append, ← hzip]
        rfl
      · intro slot hslot b behind h
        rcases List.mem_append.1 hslot with hslot | hslot
        · obtain ⟨a, -, rfl⟩ := List.mem_map.1 hslot
          cases h
        · rcases List.mem_cons.1 hslot with rfl | hslot
          · cases h
            exact horigin.symm
          · exact hkept slot hslot b behind h

open Splice in
/-- New entries that keep none make their run longer. -/
theorem runsFrom_new_append (anchor : Option Nat) (run more : List β)
    (rest : List (β × Option Nat)) :
    runsFrom anchor run (more.map (·, none) ++ rest) = runsFrom anchor (run ++ more) rest := by
  induction more generalizing run with
  | nil => rw [List.map_nil, List.nil_append, List.append_nil]
  | cons b more ih =>
    rw [List.map_cons, List.cons_append, runsFrom, ih, List.append_assoc, List.singleton_append]

open Splice in
/-- The runs of new entries, slot by slot. -/
theorem runsFrom_matched (anchor : Option Nat) (run : List β) :
    runsFrom anchor run (matched pos slots) =
      (if run.isEmpty then [] else [(anchor, run)]) ++ runsBehind pos slots := by
  induction slots generalizing pos anchor run with
  | nil => rw [matched, runsFrom, runsBehind, List.append_nil]
  | cons slot rest ih =>
    obtain ⟨old, - | ⟨b, behind⟩⟩ := slot
    · exact ih anchor run
    · rw [matched, List.cons_append, runsFrom, runsFrom_new_append, List.nil_append, ih,
        runsBehind]

/-! ## What is kept around a slot -/

theorem keptFrom_append :
    keptFrom pos (done ++ rest) = keptFrom pos done ++ keptFrom (pos + done.length) rest := by
  induction done generalizing pos with
  | nil => rfl
  | cons slot done ih =>
    rw [List.cons_append, keptFrom, ih, keptFrom, List.append_assoc, List.length_cons,
      Nat.add_assoc, Nat.add_comm 1]

theorem mem_keptFrom (h : i ∈ keptFrom pos slots) : pos ≤ i ∧ i < pos + slots.length := by
  induction slots generalizing pos with
  | nil => exact absurd h List.not_mem_nil
  | cons slot rest ih =>
    rw [List.length_cons]
    rcases List.mem_append.1 h with h | h
    · have hi : i = pos := by
        split at h
        · exact List.mem_singleton.1 h
        · exact absurd h List.not_mem_nil
      omega
    · have := ih h
      omega

theorem keptFrom_eq_nil : keptFrom pos slots = [] ↔ slots.any isKept = false := by
  induction slots generalizing pos with
  | nil => simp [keptFrom]
  | cons slot rest ih =>
    rw [keptFrom, List.append_eq_nil_iff, ih, List.any_cons, Bool.or_eq_false_iff]
    cases slot.isKept <;> simp

/-- The slot at a position is kept if the position is. -/
theorem contains_keptFrom (hslots : slots = done ++ slot :: rest) :
    (keptFrom 0 slots).contains done.length = slot.isKept := by
  have hdone : done.length ∉ keptFrom 0 done := fun h => by
    have := (mem_keptFrom h).2
    omega
  have hrest : done.length ∉ keptFrom (done.length + 1) rest := fun h => by
    have := (mem_keptFrom h).1
    omega
  rw [hslots, keptFrom_append, Nat.zero_add, keptFrom]
  cases slot.isKept <;> simp [hdone, hrest]

open Splice in
theorem keepsAfter_eq (hslots : slots = done ++ slot :: rest) :
    keepsAfter (keptFrom 0 slots) done.length = rest.any isKept := by
  have hnone : ∀ {kept : List Nat}, (∀ j ∈ kept, j ≤ done.length) →
      kept.any (done.length < ·) = false := by
    intro kept h
    rw [List.any_eq_false]
    intro j hj
    simpa using h j hj
  have hdone : ∀ j ∈ keptFrom 0 done, j ≤ done.length := fun j hj => by
    have := (mem_keptFrom hj).2
    omega
  have hslot : ∀ j ∈ if slot.isKept then [done.length] else [], j ≤ done.length := by
    cases slot.isKept <;> simp
  rw [hslots, keepsAfter, keptFrom_append, Nat.zero_add, keptFrom, List.any_append,
    List.any_append, hnone hdone, hnone hslot, Bool.false_or, Bool.false_or]
  cases hrest : rest.any isKept with
  | false => rw [keptFrom_eq_nil.2 hrest, List.any_nil]
  | true =>
    obtain ⟨j, hj⟩ := List.exists_mem_of_ne_nil (keptFrom (done.length + 1) rest) fun h => by
      rw [keptFrom_eq_nil.1 h] at hrest
      cases hrest
    refine List.any_eq_true.2 ⟨j, hj, ?_⟩
    have := (mem_keptFrom hj).1
    simp only [decide_eq_true_eq]
    omega

open Splice in
/-- If no slot behind it is kept up to another, a kept slot is the last before that. -/
theorem keptBefore?_eq {dropped : List (EntrySlot α β)}
    (hslots : slots = done ++ slot :: dropped ++ rest) (hslot : slot.isKept = true)
    (hdropped : dropped.any isKept = false) :
    keptBefore? (keptFrom 0 slots) (done.length + 1 + dropped.length) = some done.length := by
  have hbehind : ∀ j ∈ (keptFrom (done.length + 1 + dropped.length) rest).reverse,
      ¬ decide (j < done.length + 1 + dropped.length) = true := by
    intro j hj
    have := (mem_keptFrom (List.mem_reverse.1 hj)).1
    simp only [decide_eq_true_eq]
    omega
  rw [hslots, keptBefore?, keptFrom_append, keptFrom_append, keptFrom, hslot, if_pos rfl,
    keptFrom_eq_nil.2 hdropped, List.reverse_append, List.find?_append, List.length_append,
    List.length_cons, Nat.zero_add, Nat.zero_add,
    show done.length + (dropped.length + 1) = done.length + 1 + dropped.length by omega,
    List.find?_eq_none.2 hbehind]
  simp
  omega

/-! ## Edits, slot by slot -/

/-- How edits are made next to the entries of a literal: how the one at a position is deleted and
    how it is changed, and what is inserted before and behind it. -/
structure Editing (α β : Type) where
  delete : Nat → α → List TextEdit
  change : α → β → List TextEdit
  before : α → List β → List TextEdit
  behind : α → List β → List TextEdit

namespace Editing

variable (editing : Editing α β)

/-- The edits of one slot after the other; `lead` is inserted before the first that is kept. -/
def edits (lead : List β) (pos : Nat) : List (EntrySlot α β) → List TextEdit
  | [] => []
  | ⟨a, none⟩ :: rest => editing.delete pos a ++ edits lead (pos + 1) rest
  | ⟨a, some (b, behind)⟩ :: rest =>
    editing.before a lead ++ editing.change a b ++ editing.behind a behind
      ++ edits [] (pos + 1) rest

/-- The edits that change a kept entry. -/
def changed : EntrySlot α β → List TextEdit
  | ⟨_, none⟩ => []
  | ⟨a, some (b, _)⟩ => editing.change a b

/-- The edits that delete an entry. -/
def deleted (pos : Nat) : List (EntrySlot α β) → List TextEdit
  | [] => []
  | ⟨a, none⟩ :: rest => editing.delete pos a ++ deleted (pos + 1) rest
  | ⟨_, some _⟩ :: rest => deleted (pos + 1) rest

/-- The edits that insert what leads. -/
def inserted (lead : List β) : List (EntrySlot α β) → List TextEdit
  | [] => []
  | ⟨_, none⟩ :: rest => inserted lead rest
  | ⟨a, some _⟩ :: _ => editing.before a lead

/-- The edits that insert new entries behind a kept one. -/
def appended : EntrySlot α β → List TextEdit
  | ⟨_, none⟩ => []
  | ⟨a, some (_, behind)⟩ => editing.behind a behind

theorem inserted_nil (hbefore : ∀ a, editing.before a [] = []) (slots : List (EntrySlot α β)) :
    editing.inserted [] slots = [] := by
  induction slots with
  | nil => rfl
  | cons slot rest ih =>
    obtain ⟨a, - | kept⟩ := slot
    · exact ih
    · exact hbefore a

/-- Edits of one kind after the other are, up to their order, those of one slot after the other. -/
theorem edits_perm (hbefore : ∀ a, editing.before a [] = []) (lead : List β) (pos : Nat)
    (slots : List (EntrySlot α β)) :
    (slots.flatMap editing.changed ++ editing.deleted pos slots ++
      (editing.inserted lead slots ++ slots.flatMap editing.appended)).Perm
      (editing.edits lead pos slots) := by
  induction slots generalizing lead pos with
  | nil => exact List.Perm.nil
  | cons slot rest ih =>
    obtain ⟨a, - | ⟨b, behind⟩⟩ := slot
    · have hcount := fun e => List.perm_iff_count.1 (ih lead (pos + 1)) e
      refine List.perm_iff_count.2 fun e => ?_
      have := hcount e
      simp only [List.count_append, List.flatMap_cons, changed, deleted, inserted, appended, edits,
        List.count_nil] at this ⊢
      omega
    · have hcount := fun e => List.perm_iff_count.1 (ih [] (pos + 1)) e
      refine List.perm_iff_count.2 fun e => ?_
      have := hcount e
      simp only [List.count_append, List.flatMap_cons, changed, deleted, inserted, appended, edits,
        editing.inserted_nil hbefore, List.count_nil] at this ⊢
      omega

end Editing

end EntrySlot

end Statechart
