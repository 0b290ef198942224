import Statechart.Edit.Apply
import Statechart.Proofs.Hierarchy
import Statechart.Proofs.Outcome

/-!
# Editors and their drafts

What an editor knows of its machine is what is read of its draft, after any number of edits.

* `Editor.Current`: the graph is that of the draft;
* `Editor.Reached`: an editor that edits have led to;
* `Editor.Reached.current`: the graph of such an editor is that of its draft;
* `Editor.ofText?`: the editor of a text, after edits.
-/

namespace Statechart

namespace Editor

variable {editor : Editor}

variable (editor) in
/-- What the editor knows is known of its draft. -/
def Current : Prop :=
  editor.extraction = editor.extractionOf editor.draft

theorem current_ofMachine (text : String) (machine : Source.Machine) (settings : Settings) :
    (ofMachine text machine settings).Current := rfl

theorem exists_of_apply {edit : Edit} {editor' : Editor} (h : editor.apply edit = .ok editor') :
    ∃ draft, editor.revise edit = .ok draft ∧ editor' = editor.withDraft draft := by
  rw [apply] at h
  cases hrevised : editor.revise edit with
  | error e => rw [hrevised] at h; cases h
  | ok draft => rw [hrevised] at h; cases h; exact ⟨draft, rfl, rfl⟩

theorem current_apply {edit : Edit} {editor' : Editor} (h : editor.apply edit = .ok editor') :
    editor'.Current := by
  obtain ⟨draft, -, rfl⟩ := exists_of_apply h
  rfl

/-- Edits keep what is known up to date. -/
theorem Current.applyAll (hcurrent : editor.Current) {edits : List Edit} {editor' : Editor}
    (h : editor.applyAll edits = .ok editor') : editor'.Current := by
  induction edits generalizing editor with
  | nil => cases h; exact hcurrent
  | cons edit edits ih =>
    rw [Editor.applyAll, List.foldlM_cons] at h
    obtain ⟨next, hnext, h⟩ := bind_eq_ok.1 h
    exact ih (current_apply hnext) h

/-- Edits change neither the text nor the machine that the draft started from. -/
theorem applyAll_source {edits : List Edit} {editor' : Editor}
    (h : editor.applyAll edits = .ok editor') :
    editor'.text = editor.text ∧ editor'.machine = editor.machine := by
  induction edits generalizing editor with
  | nil => cases h; exact ⟨rfl, rfl⟩
  | cons edit edits ih =>
    rw [Editor.applyAll, List.foldlM_cons] at h
    obtain ⟨next, hnext, h⟩ := bind_eq_ok.1 h
    obtain ⟨draft, -, rfl⟩ := exists_of_apply hnext
    obtain ⟨htext, hmachine⟩ := ih h
    exact ⟨htext, hmachine⟩

variable (editor) in
/-- An editor that accepted edits have led to, from a machine without edits. -/
def Reached : Prop :=
  ∃ text machine settings edits, (ofMachine text machine settings).applyAll edits = .ok editor

theorem Reached.current (h : editor.Reached) : editor.Current := by
  obtain ⟨text, machine, settings, edits, h⟩ := h
  exact (current_ofMachine text machine settings).applyAll h

theorem Current.graph_eq (h : editor.Current) :
    editor.graph = (editor.extractionOf editor.draft).graph :=
  congrArg Extraction.graph h

theorem extractionOf_wellFormed (config : Expr) : (editor.extractionOf config).graph.WellFormed :=
  extract_wellFormed _ _ _

theorem Current.wellFormed (h : editor.Current) : editor.graph.WellFormed :=
  h.graph_eq ▸ extractionOf_wellFormed _

theorem node_eq_ok {path : StatePath} {id : NodeId} :
    editor.node path = .ok id ↔ editor.graph.nodeAt? path = some id := by
  rw [node]
  cases editor.graph.nodeAt? path <;> simp

theorem Current.at_of_node (hcurrent : editor.Current) {path : StatePath} {id : NodeId}
    (h : editor.node path = .ok id) : editor.graph.At id path :=
  (Graph.nodeAt?_eq_some_iff hcurrent.wellFormed).1 (node_eq_ok.1 h)

/-- The editor of the first machine of a text, after edits. -/
def ofText? (text : String) (edits : List Edit) : Option Editor := do
  let machine ← (Source.machines .typescript .standard text)[0]?
  ((Editor.ofMachine text machine {}).applyAll edits).toOption

theorem reached_of_ofText? {text : String} {edits : List Edit}
    (h : ofText? text edits = some editor) : editor.Reached := by
  obtain ⟨machine, -, h⟩ := Option.bind_eq_some_iff.1 h
  cases hedits : (ofMachine text machine {}).applyAll edits with
  | error e => rw [hedits] at h; cases h
  | ok found => rw [hedits] at h; cases h; exact ⟨text, machine, {}, edits, hedits⟩

end Editor

end Statechart
