import Statechart.Proofs.EditedText

/-!
# Edit scripts

A *script* goes over a text from left to right and says what becomes of each part: it is copied,
it is dropped, or another text is put in its place; between two parts, a text can be put in. A
script has an old text, a new text and the edits that turn the one into the other.

* `Step.edits`, `Script.edits`: the edits of a script;
* `Script.isSound`: no edit of the script is empty, and no two have one place;
* `Script.applyAll_of_perm`: the edits of a script, in whichever order they are given, can be
  merged and made, and turn its old text into its new text.

What is dropped may be given in parts. There is a deletion for each, from the start of the first
part up to the end of that one, so that deletions may overlap.
-/

namespace Statechart

/-- What becomes of a part of a text. -/
inductive Step where
  | copy (text : String)
  | put (text : String)
  | drop (parts : List String)
  | swap (text new : String)

namespace Step

/-- The part of the old text. -/
def oldText : Step → String
  | copy text | swap text _ => text
  | put _ => ""
  | drop parts => String.join parts

/-- The part of the new text. -/
def newText : Step → String
  | copy text | put text | swap _ text => text
  | drop _ => ""

/-- Deletions from `start` to the end of each part, the first of which starts at `pos`. -/
def deletions (start pos : Nat) : List String → List TextEdit
  | [] => []
  | part :: rest =>
    .delete start (pos + (utf8 part).length) :: deletions start (pos + (utf8 part).length) rest

/-- The edits of a step at a position of the old text. -/
def edits (pos : Nat) : Step → List TextEdit
  | copy _ => []
  | put text => [.insert pos text]
  | drop parts => deletions pos pos parts
  | swap text new => [.replace pos (pos + (utf8 text).length) new]

end Step

/-- What becomes of a text, from left to right. -/
abbrev Script := List Step

namespace Script

open TextEdit

/-- The text before. -/
def oldText (script : Script) : String :=
  String.join (script.map Step.oldText)

/-- The text after. -/
def newText (script : Script) : String :=
  String.join (script.map Step.newText)

/-- The edits of a script that starts at a position of the old text. -/
def edits (pos : Nat) : Script → List TextEdit
  | [] => []
  | step :: rest => step.edits pos ++ edits (pos + (utf8 step.oldText).length) rest

/-- Whether no edit is empty and no two have one place; `free` tells whether nothing has been put
    in where the script starts. -/
def isSound (free : Bool) : Script → Bool
  | [] => true
  | .copy text :: rest => isSound (free || text != "") rest
  | .put _ :: rest => free && isSound false rest
  | .drop parts :: rest => parts != [] && parts.all (· != "") && isSound true rest
  | .swap text _ :: rest => text != "" && isSound true rest

variable {script : Script} {step : Step} {free : Bool} {pos : Nat} {edit : TextEdit}

@[simp]
theorem oldText_nil : oldText [] = "" :=
  rfl

@[simp]
theorem newText_nil : newText [] = "" :=
  rfl

@[simp]
theorem oldText_cons : oldText (step :: script) = step.oldText ++ oldText script := by
  rw [oldText, List.map_cons, String.join_cons, oldText]

@[simp]
theorem newText_cons : newText (step :: script) = step.newText ++ newText script := by
  rw [newText, List.map_cons, String.join_cons, newText]

@[simp]
theorem oldText_append (a b : Script) : oldText (a ++ b) = oldText a ++ oldText b := by
  rw [oldText, List.map_append, String.join_append, oldText, oldText]

@[simp]
theorem newText_append (a b : Script) : newText (a ++ b) = newText a ++ newText b := by
  rw [newText, List.map_append, String.join_append, newText, newText]

@[simp]
theorem edits_append (a b : Script) :
    edits pos (a ++ b) = edits pos a ++ edits (pos + (utf8 (oldText a)).length) b := by
  induction a generalizing pos with
  | nil => simp [edits]
  | cons step a ih =>
    simp only [List.cons_append, edits, ih, oldText_cons, utf8_append, List.length_append,
      List.append_assoc, Nat.add_assoc]

/-- Copying what is left is always sound. -/
theorem isSound_append_copy (text : String) :
    isSound free (script ++ [.copy text]) = isSound free script := by
  induction script generalizing free with
  | nil => rfl
  | cons step script ih => cases step <;> simp only [List.cons_append, isSound, ih]

/-! ## The edits in order -/

theorem mem_deletions {start : Nat} {parts : List String}
    (h : edit ∈ Step.deletions start pos parts) (hstart : start ≤ pos) :
    edit.isDeletion = true ∧ edit.Proper ∧ edit.start = start ∧ pos ≤ edit.stop ∧
      edit.stop ≤ pos + (utf8 (String.join parts)).length ∧
      (parts.all (· != "") = true → pos < edit.stop) := by
  induction parts generalizing pos with
  | nil => exact absurd h List.not_mem_nil
  | cons part parts ih =>
    simp only [String.join_cons, utf8_append, List.length_append, List.all_cons, Bool.and_eq_true,
      bne_iff_ne, ne_eq]
    rcases List.mem_cons.1 h with rfl | h
    · refine ⟨rfl, ?_, rfl, Nat.le_add_right _ _, ?_, fun hne => ?_⟩
      · exact hstart.trans (Nat.le_add_right _ _)
      · exact Nat.add_le_add_left (Nat.le_add_right _ _) _
      · exact Nat.lt_add_of_pos_right (length_utf8_pos hne.1)
    · obtain ⟨hdel, hproper, hstart', hle, hstop, -⟩ := ih h (hstart.trans (Nat.le_add_right _ _))
      exact ⟨hdel, hproper, hstart', by omega, by omega, fun hne => by
        have := length_utf8_pos hne.1
        omega⟩

/-- The edits of a script lie behind its start. Where something has been put in, none is empty. -/
theorem mem_edits (hsound : isSound free script = true) (h : edit ∈ edits pos script) :
    edit.Proper ∧ pos ≤ edit.start ∧ (free = false → pos < edit.stop) := by
  induction script generalizing free pos with
  | nil => exact absurd h List.not_mem_nil
  | cons step script ih =>
    rw [edits, List.mem_append] at h
    -- Behind a part that is not empty, all is behind the start.
    have hbehind : ∀ {free'}, isSound free' script = true → 0 < (utf8 step.oldText).length →
        edit ∈ edits (pos + (utf8 step.oldText).length) script →
        edit.Proper ∧ pos ≤ edit.start ∧ (free = false → pos < edit.stop) := by
      intro free' hrest hpos hmem
      obtain ⟨hproper, hstart, -⟩ := ih hrest hmem
      have hle := hproper.le
      exact ⟨hproper, by omega, fun _ => by omega⟩
    cases step with
    | copy text =>
      rcases h with h | h
      · exact absurd h List.not_mem_nil
      · by_cases hempty : text = ""
        · subst hempty
          have hrest : isSound free script = true := by simpa [isSound] using hsound
          simpa [Step.oldText] using ih hrest (by simpa [Step.oldText] using h)
        · exact hbehind hsound (length_utf8_pos hempty) h
    | put text =>
      simp only [isSound, Bool.and_eq_true] at hsound
      rcases h with h | h
      · obtain rfl := List.mem_singleton.1 h
        exact ⟨trivial, le_rfl, fun hfree => absurd hsound.1 (by simp [hfree])⟩
      · obtain ⟨hproper, hstart, hstop⟩ := ih hsound.2 h
        exact ⟨hproper, hstart, fun _ => hstop rfl⟩
    | drop parts =>
      simp only [isSound, Bool.and_eq_true] at hsound
      rcases h with h | h
      · obtain ⟨-, hproper, hstart, -, -, hne⟩ := mem_deletions h le_rfl
        exact ⟨hproper, hstart.ge, fun _ => hne hsound.1.2⟩
      · obtain ⟨part, parts, rfl⟩ := List.exists_cons_of_ne_nil (bne_iff_ne.1 hsound.1.1)
        have hpart : part ≠ "" := by simpa using (List.all_eq_true.1 hsound.1.2) part (by simp)
        refine hbehind hsound.2 ?_ h
        rw [Step.oldText, String.join_cons, utf8_append, List.length_append]
        exact Nat.add_pos_left (length_utf8_pos hpart) _
    | swap text new =>
      simp only [isSound, Bool.and_eq_true, bne_iff_ne, ne_eq] at hsound
      have hpos := length_utf8_pos hsound.1
      rcases h with h | h
      · obtain rfl := List.mem_singleton.1 h
        exact ⟨Nat.lt_add_of_pos_right hpos, le_rfl, fun _ => Nat.lt_add_of_pos_right hpos⟩
      · exact hbehind hsound.2 hpos h

/-- An edit comes strictly before another that follows it. -/
def Before (a b : TextEdit) : Prop :=
  a.Follows b ∧ (a.start < b.start ∨ (a.start = b.start ∧ a.stop < b.stop))

theorem pairwise_deletions {start : Nat} {parts : List String} (hstart : start ≤ pos)
    (hparts : parts.all (· != "") = true) : (Step.deletions start pos parts).Pairwise Before := by
  induction parts generalizing pos with
  | nil => exact List.Pairwise.nil
  | cons part parts ih =>
    rw [List.all_cons, Bool.and_eq_true] at hparts
    have hle : start ≤ pos + (utf8 part).length := hstart.trans (Nat.le_add_right _ _)
    refine List.pairwise_cons.2 ⟨fun b hb => ?_, ih hle hparts.2⟩
    obtain ⟨hdel, -, hstart', -, -, hstop⟩ := mem_deletions hb hle
    exact ⟨⟨hstart'.ge, .inr ⟨rfl, hdel⟩⟩, .inr ⟨hstart'.symm, hstop hparts.2⟩⟩

/-- The edits of a script are in order. -/
theorem pairwise_edits (hsound : isSound free script = true) (pos : Nat) :
    (edits pos script).Pairwise Before := by
  induction script generalizing free pos with
  | nil => exact List.Pairwise.nil
  | cons step script ih =>
    rw [edits, List.pairwise_append]
    cases step with
    | copy text => exact ⟨List.Pairwise.nil, ih hsound _, fun _ h => absurd h List.not_mem_nil⟩
    | put text =>
      simp only [isSound, Bool.and_eq_true] at hsound
      refine ⟨List.pairwise_singleton _ _, ih hsound.2 _, fun a ha b hb => ?_⟩
      obtain rfl := List.mem_singleton.1 ha
      obtain ⟨-, hstart, hstop⟩ := mem_edits hsound.2 hb
      have hle : pos ≤ b.start := hstart
      exact ⟨⟨hle, .inl hle⟩, hle.lt_or_eq.imp_right fun heq => ⟨heq, hstop rfl⟩⟩
    | drop parts =>
      simp only [isSound, Bool.and_eq_true] at hsound
      refine ⟨pairwise_deletions le_rfl hsound.1.2, ih hsound.2 _, fun a ha b hb => ?_⟩
      obtain ⟨-, -, hstart, -, hstop, hne⟩ := mem_deletions ha le_rfl
      obtain ⟨-, hb, -⟩ := mem_edits hsound.2 hb
      have hlt := hne hsound.1.2
      have hbehind : a.stop ≤ b.start := hstop.trans hb
      exact ⟨⟨by omega, .inl hbehind⟩, .inl (by omega)⟩
    | swap text new =>
      simp only [isSound, Bool.and_eq_true, bne_iff_ne, ne_eq] at hsound
      have hpos := length_utf8_pos hsound.1
      refine ⟨List.pairwise_singleton _ _, ih hsound.2 _, fun a ha b hb => ?_⟩
      obtain rfl := List.mem_singleton.1 ha
      obtain ⟨-, hstart, -⟩ := mem_edits hsound.2 hb
      have hle : pos + (utf8 text).length ≤ b.start := hstart
      have hlt : pos < b.start := by omega
      exact ⟨⟨hlt.le, .inl hle⟩, .inl hlt⟩

/-! ## The edits in the text -/

/-- A position between two parts of a text. -/
def Cuts (text : String) (pos : Nat) : Prop :=
  ∃ a b, text = a ++ b ∧ pos = (utf8 a).length

theorem Cuts.isBoundary {text : String} (h : Cuts text pos) :
    (utf8 text).isBoundary pos = true ∧ pos ≤ (utf8 text).length := by
  obtain ⟨a, b, rfl, rfl⟩ := h
  exact ⟨isBoundary_utf8 a b, by simp⟩

theorem cuts_of_mem_deletions {start : Nat} {parts : List String} {done rest : String}
    (h : edit ∈ Step.deletions start (utf8 done).length parts) :
    Cuts (done ++ String.join parts ++ rest) edit.stop := by
  induction parts generalizing done with
  | nil => exact absurd h List.not_mem_nil
  | cons part parts ih =>
    rw [Step.deletions, ← List.length_append, ← utf8_append, List.mem_cons] at h
    rw [String.join_cons, ← String.append_assoc]
    rcases h with rfl | h
    · exact ⟨done ++ part, String.join parts ++ rest, String.append_assoc, rfl⟩
    · exact ih h

/-- The edits of a script start and end between parts of the text. -/
theorem cuts_of_mem_edits (done : String) (h : edit ∈ edits (utf8 done).length script) :
    Cuts (done ++ oldText script) edit.start ∧ Cuts (done ++ oldText script) edit.stop := by
  induction script generalizing done with
  | nil => exact absurd h List.not_mem_nil
  | cons step script ih =>
    rw [edits, ← List.length_append, ← utf8_append, List.mem_append] at h
    rw [oldText_cons, ← String.append_assoc]
    rcases h with h | h
    · have hhere : Cuts (done ++ step.oldText ++ oldText script) (utf8 done).length :=
        ⟨done, step.oldText ++ oldText script, String.append_assoc, rfl⟩
      cases step with
      | copy text => exact absurd h List.not_mem_nil
      | put text =>
        obtain rfl := List.mem_singleton.1 h
        exact ⟨hhere, hhere⟩
      | drop parts =>
        refine ⟨?_, cuts_of_mem_deletions h⟩
        rwa [(mem_deletions h le_rfl).2.2.1]
      | swap text new =>
        obtain rfl := List.mem_singleton.1 h
        refine ⟨hhere, done ++ text, oldText script, rfl, ?_⟩
        rw [utf8_append, List.length_append]
        rfl
    · exact ih _ h

theorem rendered_deletions {text : Bytes} {start : Nat} {parts : List String}
    {rest : List TextEdit} (hstart : start ≤ pos) :
    rendered text pos (Step.deletions start pos parts ++ rest) =
      rendered text (pos + (utf8 (String.join parts)).length) rest := by
  induction parts generalizing pos with
  | nil => simp [Step.deletions]
  | cons part parts ih =>
    rw [Step.deletions, List.cons_append, rendered, String.join_cons, utf8_append,
      List.length_append, ← Nat.add_assoc, ← ih (hstart.trans (Nat.le_add_right _ _))]
    simp only [TextEdit.start, TextEdit.stop, TextEdit.newText, utf8_empty, List.append_nil]
    rw [range_of_le hstart, List.nil_append, Nat.max_eq_right (Nat.le_add_right _ _)]

/-- What the edits of a script make of its old text is its new text. -/
theorem rendered_edits (done : String) (hsound : isSound free script = true) :
    rendered (utf8 (done ++ oldText script)) (utf8 done).length
      (edits (utf8 done).length script) = utf8 (newText script) := by
  induction script generalizing free done with
  | nil => simp [rendered, edits]
  | cons step script ih =>
    have hrest : ∀ {free'}, isSound free' script = true →
        rendered (utf8 (done ++ step.oldText ++ oldText script))
          ((utf8 done).length + (utf8 step.oldText).length)
          (edits ((utf8 done).length + (utf8 step.oldText).length) script)
          = utf8 (newText script) := by
      intro free' h
      have := ih (done ++ step.oldText) h
      rwa [utf8_append done step.oldText, List.length_append] at this
    rw [edits, oldText_cons, newText_cons, ← String.append_assoc, utf8_append step.newText]
    cases step with
    | copy text =>
      -- Nothing is edited up to the end of what is copied.
      have hcopy : isSound (free || text != "") script = true := hsound
      rw [Step.edits, List.nil_append, rendered_eq_range_append (Nat.le_add_right _ _)
        fun edit hedit => ⟨(mem_edits hcopy hedit).1, (mem_edits hcopy hedit).2.1⟩,
        hrest hcopy, utf8_append, utf8_append]
      exact congrArg (· ++ _) (range_append _ _ _)
    | put text =>
      simp only [isSound, Bool.and_eq_true] at hsound
      have hput := hrest hsound.2
      simp only [Step.oldText, utf8_empty, List.length_nil, Nat.add_zero] at hput ⊢
      rw [Step.edits, List.singleton_append, rendered]
      simp only [TextEdit.start, TextEdit.stop, TextEdit.newText, max_self, range_self,
        List.nil_append, hput, Step.newText]
    | drop parts =>
      simp only [isSound, Bool.and_eq_true] at hsound
      rw [Step.edits, rendered_deletions le_rfl]
      exact hrest hsound.2
    | swap text new =>
      simp only [isSound, Bool.and_eq_true] at hsound
      rw [Step.edits, List.singleton_append, rendered]
      simp only [TextEdit.start, TextEdit.stop, TextEdit.newText, range_self, List.nil_append,
        Nat.max_eq_right (Nat.le_add_right _ _)]
      exact congrArg (_ ++ ·) (hrest hsound.2)

/-- The edits of a script, in whichever order they are given, can be merged and made, and turn
    its old text into its new text. -/
theorem applyAll_of_perm {given : List TextEdit} (hsound : isSound free script = true)
    (hperm : given.Perm (edits 0 script)) :
    ∃ merged, normalize given = .ok merged ∧
      applyAll (oldText script) merged = .ok (newText script) := by
  have hpair := pairwise_edits hsound 0
  obtain ⟨merged, hmerged, hproper, hapart, hrender⟩ := normalize_of_perm hperm
    (fun e he => (mem_edits hsound he).1) (hpair.imp And.left) (hpair.imp And.right)
  have hcuts : ∀ e ∈ given, Cuts (oldText script) e.start ∧ Cuts (oldText script) e.stop := by
    intro e he
    simpa using cuts_of_mem_edits "" (hperm.mem_iff.1 he)
  have hfits : ∀ e ∈ merged, e.Proper ∧ e.fits (utf8 (oldText script)) = true := by
    intro e he
    -- A merged edit starts where one of the given ones does, and ends where one does.
    obtain ⟨⟨a, ha, hstart⟩, ⟨b, hb, hstop⟩, -⟩ := exists_touching_of_normalize hmerged he
    have hleft := (hcuts a ha).1.isBoundary
    have hright := (hcuts b hb).2.isBoundary
    refine ⟨hproper e he, ?_⟩
    simp only [fits, Bool.and_eq_true, decide_eq_true_eq, hstart, hstop]
    exact ⟨⟨⟨hstart ▸ hstop ▸ (hproper e he).le, hright.2⟩, hleft.1⟩, hright.1⟩
  refine ⟨merged, hmerged, ?_⟩
  have htext : rendered (utf8 (oldText script)) 0 merged = utf8 (newText script) := by
    rw [hrender]
    simpa using rendered_edits "" hsound
  rw [applyAll, applyBytes_of_apart hfits hapart, htext]
  exact congrArg Except.ok (decode_utf8 _)

end Script

end Statechart
