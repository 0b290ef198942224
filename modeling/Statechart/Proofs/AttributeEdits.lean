import Statechart.Proofs.Editors
import Statechart.Proofs.Retargeting
import Statechart.Proofs.StateAttributes

/-!
# Edits of what a state says of itself

Choosing the initial state of a state, its type or its description changes this one attribute,
however it was written before: as a text, as an object with a target, as something that could not
be read, several times, under an old keyword or not at all. Everything else in the graph stays.

* `Draft.adjusts_initial`, `Draft.adjusts_type`, `Draft.adjusts_description`: what the edits of
  properties change of the attributes that are read;
* `Editor.attributes_follow`: what the edits change of the graph.
-/

namespace Statechart

open Property

/-! ## Entries that edits leave alone -/

namespace KeepsBut

variable {names : List String} {a b c : List Property}

theorem trans (hab : KeepsBut names a b) (hbc : KeepsBut names b c) : KeepsBut names a c :=
  fun name hname => (hbc name hname).trans (hab name hname)

theorem eraseName (props : List Property) (name : String) :
    KeepsBut [name] props (Property.eraseName props name) := fun other hother => by
  rw [prop?_eraseName, if_neg (List.mem_singleton.not.1 hother)]

theorem modifyValue (props : List Property) (name : String) (f : Expr → Expr) :
    KeepsBut [name] props (Property.modifyValue props name f) := fun other hother => by
  rw [prop?_modifyValue, if_neg (List.mem_singleton.not.1 hother)]

theorem setOptionalText (props : List Property) (name : String) (text : Option String) :
    KeepsBut [name] props (Draft.setOptionalText props name text) := by
  cases text with
  | none => exact eraseName props name
  | some text =>
    rw [Draft.setOptionalText, Draft.setText]
    split
    · exact modifyValue props name _
    · intro other hother
      have hne : (ofPair name (.ofText text)).isNamed other = false :=
        isNamed_eq_false_iff.2 fun h =>
          List.mem_singleton.not.1 hother (Option.some.inj (h.symm.trans (name_ofPair _ _)))
      rw [prop?_append, prop?_cons, prop?_nil, hne]
      simp

end KeepsBut

namespace Draft

/-! ## Texts that are written -/

/-- A text that is written is there, whatever was there before. -/
theorem exists_value?_setText (props : List Property) (name text : String) :
    ∃ origin, value? (setText props name text) name = some (.str origin text) := by
  rw [setText]
  split
  · next hname =>
    rw [value?_modifyValue_self]
    obtain ⟨value, hvalue⟩ := Option.isSome_iff_exists.1 ((isSome_value? props name).trans hname)
    rw [hvalue, Option.map_some]
    cases value <;> exact ⟨_, rfl⟩
  · rw [value?_append_ofPair, if_pos rfl]
    exact ⟨_, rfl⟩

/-- What is read of a text that is written or dropped. -/
theorem bind_value?_setOptionalText {α : Type} {read : Expr → Option α} {g : String → Option α}
    (hread : ∀ origin text, read (.str origin text) = g text) (props : List Property)
    (name : String) (text : Option String) :
    (value? (setOptionalText props name text) name).bind read = text.bind g := by
  cases text with
  | none =>
    rw [setOptionalText, value?_eraseName, if_pos rfl]
    rfl
  | some text =>
    obtain ⟨origin, hvalue⟩ := exists_value?_setText props name text
    rw [setOptionalText, hvalue, Option.bind_some, Option.bind_some, hread]

/-- An initial state that is named is named anew in its place. -/
theorem initialTarget?_renameInitial {props : List Property} (h : (initialKey? props).isSome)
    (key : String) :
    (value? (renameInitial props key) "initial").bind initialTarget? = some key := by
  rw [initialKey?] at h
  rw [renameInitial, value?_modifyValue_self]
  cases hinitial : value? props "initial" with
  | none => rw [hinitial] at h; cases h
  | some value =>
    rw [hinitial, Option.bind_some] at h
    rw [Option.map_some, Option.bind_some]
    cases value with
    | object origin inner =>
      dsimp only at h ⊢
      obtain ⟨found, hfound⟩ := Option.isSome_iff_exists.1 (Option.isSome_of_isSome_bind h)
      rw [initialTarget?, value?_modifyValue_self, hfound, Option.map_some, Option.bind_some]
      cases found <;> rfl
    | _ => rfl

/-! ## Properties that are edited -/

section

variable {props new : List Property}

theorem adjusts_initial {initial : Option String} (hkeeps : KeepsBut ["initial"] props new)
    (hread : (value? new "initial").bind initialTarget? = initial) :
    Adjusts (fun attributes => { attributes with initial }) props new := by
  refine ⟨hkeeps.mono (by decide), fun path => ?_⟩
  rw [readAttributes_keepsBut_initial path hkeeps, hread]

variable (props)

theorem adjusts_description (description : Option String) :
    Adjusts (fun attributes => { attributes with description }) props
      (setOptionalText props "description" description) := by
  have hkeeps := KeepsBut.setOptionalText props "description" description
  refine ⟨hkeeps.mono (by decide), fun path => ?_⟩
  rw [readAttributes_keepsBut_description path hkeeps,
    bind_value?_setOptionalText fun _ _ => rfl, Option.bind_fun_some]

/-- The properties of a state with another type, and with the history of that. -/
def withType (type : StateType) (history : Option HistoryKind) : List Property :=
  setOptionalText
    (setOptionalText (eraseName props "parallel") "type"
      (if type = .normal then none else some type.name))
    "history" (if type = .history then history.map (·.name) else none)

theorem keepsBut_withType (type : StateType) (history : Option HistoryKind) :
    KeepsBut ["type", "parallel", "history"] props (withType props type history) :=
  (((KeepsBut.eraseName props "parallel").mono (by decide)).trans
    ((KeepsBut.setOptionalText _ "type" _).mono (by decide))).trans
    ((KeepsBut.setOptionalText _ "history" _).mono (by decide))

/-- The type is read as it was chosen: its name is written, or nothing is left that says one. -/
theorem typeOf_withType (type : StateType) (history : Option HistoryKind) :
    typeOf (withType props type history) = type := by
  have hkept {name : String} (hname : name ∉ ["history"]) :
      prop? (withType props type history) name =
        prop? (setOptionalText (eraseName props "parallel") "type"
          (if type = .normal then none else some type.name)) name :=
    KeepsBut.setOptionalText _ "history" _ name hname
  rw [typeOf, value?, value?, hkept (by decide), hkept (by decide)]
  by_cases hnormal : type = .normal
  · rw [if_pos hnormal, setOptionalText, prop?_eraseName, if_pos rfl, prop?_eraseName,
      if_neg (by decide), prop?_eraseName, if_pos rfl, hnormal]
    rfl
  · obtain ⟨origin, hvalue⟩ :=
      exists_value?_setText (eraseName props "parallel") "type" type.name
    obtain ⟨prop, hprop, hvalue⟩ := Option.map_eq_some_iff.1 hvalue
    rw [if_neg hnormal, setOptionalText, hprop, Option.isSome_some, if_pos rfl, Option.map_some,
      hvalue]
    cases type with
    | normal => exact absurd rfl hnormal
    | _ => rfl

theorem historyFor_withType (type : StateType) (history : Option HistoryKind) :
    historyFor type (historyOf? (withType props type history)) =
      if type = .history then some (history.getD .shallow) else none := by
  rw [historyOf?, withType, bind_value?_setOptionalText fun _ _ => rfl, historyFor]
  by_cases htype : type = .history
  · rw [if_pos (beq_iff_eq.2 htype), if_pos htype, if_pos htype]
    cases history with
    | none => rfl
    | some kind => cases kind <;> rfl
  · rw [if_neg (mt beq_iff_eq.1 htype), if_neg htype]

theorem adjusts_type (type : StateType) (history : Option HistoryKind) :
    Adjusts (fun attributes => { attributes with
        type, history := if type = .history then some (history.getD .shallow) else none })
      props (withType props type history) := by
  have hkeeps := keepsBut_withType props type history
  refine ⟨hkeeps.mono (by decide), fun path => ?_⟩
  rw [readAttributes_keepsBut_type path hkeeps, typeOf_withType, historyFor_withType]

end

end Draft

namespace Editor

variable {editor : Editor} {path : StatePath} {draft : Expr}

/-- An edit of what a state says of itself changes its attributes in the graph. -/
theorem Current.graph_eq_adjust (h : editor.Current) {id : NodeId}
    {g : List Property → Edited (List Property)} {f : Attributes → Attributes}
    (hnode : editor.node path = .ok id) (hdraft : Draft.modifyState editor.draft path g = .ok draft)
    (hg : ∀ {old new}, g old = .ok new → Adjusts f old new)
    (hid : ∀ attributes, (f attributes).explicitId = attributes.explicitId) :
    editor.graph.Has path ∧ (editor.withDraft draft).graph = editor.graph.adjust path f := by
  obtain ⟨old, new, hold, hnew, rfl⟩ := Draft.modifyState_eq_ok.1 hdraft
  refine ⟨⟨id, h.at_of_node hnode⟩, ?_⟩
  rw [h.graph_eq]
  exact extract_setStateProps hold (hg hnew) hid _ _

/-- Choosing the initial state of a state, its type or its description changes this one attribute
    of its node, and leaves everything else in the graph as it is. Only history states have a
    history, which is shallow if none is chosen. -/
theorem attributes_follow (h : editor.Current) :
    (∀ path initial editor', editor.apply (.setInitialState path initial) = .ok editor' →
      editor.graph.Has path ∧
        editor'.graph = editor.graph.adjust path fun attributes => { attributes with initial }) ∧
    (∀ path type history editor', editor.apply (.setStateType path type history) = .ok editor' →
      editor.graph.Has path ∧
        editor'.graph = editor.graph.adjust path fun attributes => { attributes with
          type, history := if type = .history then some (history.getD .shallow) else none }) ∧
    ∀ path description editor',
      editor.apply (.setDescription path none description) = .ok editor' →
      editor.graph.Has path ∧
        editor'.graph =
          editor.graph.adjust path fun attributes => { attributes with description } := by
  refine ⟨?_, ?_, ?_⟩
  · intro path initial editor' happly
    obtain ⟨draft, hedit, rfl⟩ := exists_of_apply happly
    obtain ⟨id, hnode, hedit⟩ := bind_eq_ok.1 hedit
    refine h.graph_eq_adjust hnode hedit (fun {old new} hnew => ?_) fun _ => rfl
    -- `initial` is removed, changed where it is written, or added.
    cases initial with
    | none =>
      cases hnew
      refine Draft.adjusts_initial (.eraseName old "initial") ?_
      rw [value?_eraseName, if_pos rfl]
      rfl
    | some key =>
      dsimp only at hnew
      split at hnew
      · cases hnew
      · split at hnew
        · next hnamed =>
          cases hnew
          exact Draft.adjusts_initial (.modifyValue old "initial" _)
            (Draft.initialTarget?_renameInitial hnamed key)
        · cases hnew
          refine Draft.adjusts_initial (.setOptionalText old "initial" (some key)) ?_
          exact Draft.bind_value?_setOptionalText (fun _ _ => rfl) old "initial" (some key)
  · intro path type history editor' happly
    obtain ⟨draft, hedit, rfl⟩ := exists_of_apply happly
    obtain ⟨id, hnode, hedit⟩ := bind_eq_ok.1 hedit
    refine h.graph_eq_adjust hnode hedit (fun {old new} hnew => ?_) fun _ => rfl
    cases hnew
    exact Draft.adjusts_type old type history
  · intro path description editor' happly
    obtain ⟨draft, hedit, rfl⟩ := exists_of_apply happly
    obtain ⟨id, hnode, hedit⟩ := bind_eq_ok.1 hedit
    refine h.graph_eq_adjust hnode hedit (fun {old new} hnew => ?_) fun _ => rfl
    cases hnew
    exact Draft.adjusts_description old description

/-- A machine of which a state has two initial states, one of them in an object, a type under both
    keywords, and histories and descriptions that cannot be read. -/
def shadowedText : String :=
  "createMachine(\x7bstates: \x7ba: \x7binitial: 'x', initial: \x7btarget: 'y'\x7d, " ++
    "parallel: true, type: 'final', type: 'parallel', history: 'deep', history: 5, " ++
      "description: 'd', description: 5, states: \x7bx: \x7b\x7d, " ++
        "y: \x7bentry: 'log', on: \x7bE: 'x'\x7d\x7d\x7d\x7d\x7d\x7d)"

/-- What the state says of itself is chosen anew. -/
theorem attributes_follow_shadowed : ∃ editor, ofText? shadowedText [] = some editor ∧
    (∃ chosen, editor.apply (.setInitialState ["a"] (some "x")) = .ok chosen ∧
      chosen.graph =
        editor.graph.adjust ["a"] fun attributes => { attributes with initial := some "x" }) ∧
    (∃ cleared, editor.apply (.setInitialState ["a"] none) = .ok cleared ∧
      cleared.graph =
        editor.graph.adjust ["a"] fun attributes => { attributes with initial := none }) ∧
    (∃ typed, editor.apply (.setStateType ["a"] .history none) = .ok typed ∧
      typed.graph = editor.graph.adjust ["a"] fun attributes =>
        { attributes with type := .history, history := some .shallow }) ∧
    ∃ described, editor.apply (.setDescription ["a"] none (some "e")) = .ok described ∧
      described.graph = editor.graph.adjust ["a"] fun attributes =>
        { attributes with description := some "e" } := by
  have hfound : (ofText? shadowedText []).any (fun editor =>
        ((editor.apply (.setInitialState ["a"] (some "x"))).toOption.isSome &&
          (editor.apply (.setInitialState ["a"] none)).toOption.isSome) &&
        ((editor.apply (.setStateType ["a"] .history none)).toOption.isSome &&
          (editor.apply (.setDescription ["a"] none (some "e"))).toOption.isSome)) = true := by
    decide +kernel
  obtain ⟨editor, heditor, h⟩ := (Option.any_eq_true _ _).1 hfound
  simp only [Bool.and_eq_true, Option.isSome_iff_exists] at h
  obtain ⟨⟨⟨chosen, hchosen⟩, cleared, hcleared⟩, ⟨typed, htyped⟩, described, hdescribed⟩ := h
  obtain ⟨hinitial, htype, hdescription⟩ :=
    attributes_follow (reached_of_ofText? heditor).current
  have hchosen := eq_ok_of_toOption hchosen
  have hcleared := eq_ok_of_toOption hcleared
  have htyped := eq_ok_of_toOption htyped
  have hdescribed := eq_ok_of_toOption hdescribed
  exact ⟨editor, heditor, ⟨chosen, hchosen, (hinitial _ _ _ hchosen).2⟩,
    ⟨cleared, hcleared, (hinitial _ _ _ hcleared).2⟩, ⟨typed, htyped, (htype _ _ _ _ htyped).2⟩,
    described, hdescribed, (hdescription _ _ _ hdescribed).2⟩

end Editor

end Statechart
