import Statechart.Proofs.Encoding
import Statechart.Proofs.KeptText

/-!
# Text and draft

The edited text should say what the draft says: read again, it has the machine at the same
position, with the graph that the editor has, up to the places of its parts.

* `Graph.unplaced`: a graph without places;
* `Editor.Agrees`: the edited text says what the draft says;
* `Editor.agrees_of_draft_eq`: edits that undo each other leave the text as it was, and the two
  agree.

They do not agree for every draft. A property that is written as a name alone has its value where
its key stands, and another value takes the place of both (`Editor.shorthand_loses_key`).
-/

namespace Statechart

/-- A graph without the places of its parts. -/
def Graph.unplaced (graph : Graph) : Graph where
  nodes := graph.nodes.map fun node => { node with span := none }
  edges := graph.edges.map fun edge => { edge with span := none }
  blocks := graph.blocks
  implementations := graph.implementations
  childIndex := graph.childIndex

namespace Editor

variable (editor : Editor)

/-- The edited text can be written, and read again it has, at the position of the machine, one
    with the graph of the draft. -/
def Agrees (dialect : Source.Dialect) (discovery : Source.Discovery) (index : Nat) : Prop :=
  ∃ text machine, editor.editedText = .ok text ∧
    (Source.machines dialect discovery text)[index]? = some machine ∧
    (extract machine.config machine.options machine.setup).graph.unplaced = editor.graph.unplaced

variable {editor}

/-- A draft that is as the machine was has no text edits. -/
theorem textEdits_of_draft_eq (hplaced : editor.machine.config.wellPlaced = true)
    (hdraft : editor.draft = editor.machine.config) : editor.textEdits = .ok [] := by
  rw [textEdits, Baseline.diff, hdraft, if_pos rfl, Baseline.edits_self hplaced]
  refine bind_eq_ok.2 ⟨[], rfl, ?_⟩
  simp [TextEdit.normalize, TextEdit.sorted]

/-- Edits that undo each other leave the text as it was, and text and draft agree. -/
theorem agrees_of_draft_eq {dialect : Source.Dialect} {discovery : Source.Discovery}
    {text : String} {index : Nat} {machine : Source.Machine} {settings : Settings}
    {edits : List Edit}
    (hmachine : (Source.machines dialect discovery text)[index]? = some machine)
    (hplaced : machine.config.wellPlaced = true)
    (h : (ofMachine text machine settings).applyAll edits = .ok editor)
    (hdraft : editor.draft = machine.config) :
    editor.editedText = .ok text ∧ editor.Agrees dialect discovery index := by
  have hcurrent := (current_ofMachine text machine settings).applyAll h
  obtain ⟨htext, rfl⟩ := applyAll_source h
  have hedited : editor.editedText = .ok text := by
    rw [editedText, textEdits_of_draft_eq hplaced hdraft, htext]
    refine bind_eq_ok.2 ⟨[], rfl, ?_⟩
    have hbytes : TextEdit.applyBytes (utf8 text) [] = .ok (utf8 text) := by
      simp [TextEdit.applyBytes, TextEdit.sorted, TextEdit.firstOverlap?]
    change (TextEdit.applyBytes (utf8 text) []).map Bytes.decode = .ok text
    rw [hbytes]
    exact congrArg Except.ok (decode_utf8 text)
  refine ⟨hedited, text, _, hedited, hmachine, ?_⟩
  rw [hcurrent.graph_eq, hdraft]
  rfl

/-- A property that is a name alone has its value where its key stands. Choosing another initial
    state writes the new value there and loses the key, and what is left is no machine. -/
theorem shorthand_loses_key : ∃ editor,
    ofText? "createMachine(\x7b initial, states: \x7b a: \x7b\x7d, b: \x7b\x7d \x7d \x7d);"
      [.setInitialState [] (some "b")] = some editor ∧
    editor.editedText =
      .ok "createMachine(\x7b \x27b\x27, states: \x7b a: \x7b\x7d, b: \x7b\x7d \x7d \x7d);" ∧
    ¬editor.Agrees .typescript .standard 0 := by
  have hfound : (ofText?
      "createMachine(\x7b initial, states: \x7b a: \x7b\x7d, b: \x7b\x7d \x7d \x7d);"
      [.setInitialState [] (some "b")]).any (fun editor => editor.editedText =
        .ok "createMachine(\x7b \x27b\x27, states: \x7b a: \x7b\x7d, b: \x7b\x7d \x7d \x7d);") =
      true := by decide +kernel
  have hread : (Source.machines .typescript .standard
      "createMachine(\x7b \x27b\x27, states: \x7b a: \x7b\x7d, b: \x7b\x7d \x7d \x7d);")[0]?.isNone =
      true := by decide +kernel
  obtain ⟨editor, heditor, h⟩ := (Option.any_eq_true _ _).1 hfound
  rw [decide_eq_true_eq] at h
  refine ⟨editor, heditor, h, ?_⟩
  rintro ⟨text, machine, htext, hmachine, -⟩
  obtain rfl := Except.ok.inj (h.symm.trans htext)
  rw [hmachine] at hread
  cases hread

end Editor

end Statechart
