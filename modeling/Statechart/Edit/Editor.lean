import Statechart.Draft.Transition
import Statechart.Edit.Basic
import Statechart.Graph.Extraction
import Statechart.Splice.Difference

/-!
# Editors

An editor holds a machine, as it is written, and its *draft*: the description with the
edits made to it so far, and the graph of that. The text edits that the draft amounts
to are computed from the two descriptions.

* `Editor.ofMachine`: an editor without edits;
* `Editor.modifyState`, `Editor.modifyTransition`: change a part of the draft;
* `Editor.textEdits`, `Editor.editedText`: the outcome.
-/

namespace Statechart

/-- A generation of keywords. -/
inductive Flavor where
  | v4
  | v5
  deriving DecidableEq, Repr, Inhabited

/-- The name of a generation. -/
def Flavor.name : Flavor → String
  | v4 => "v4"
  | v5 => "v5"

mutual

/-- Whether an object within a description has one of some keys. -/
def Expr.mentions (keys : List String) : Expr → Bool
  | .object _ props => propsMention keys props
  | .array _ items => itemsMention keys items
  | _ => false

/-- Whether an object within some expressions has one of some keys. -/
def itemsMention (keys : List String) : List Expr → Bool
  | [] => false
  | item :: rest => Expr.mentions keys item || itemsMention keys rest

/-- Whether properties, or objects in their values, have one of some keys. -/
def propsMention (keys : List String) : List (PropertyOf Expr) → Bool
  | [] => false
  | ⟨_, key, _, value⟩ :: rest =>
    key.name.any keys.contains || Expr.mentions keys value || propsMention keys rest

end

/-- The generation that a machine is written in: that of the keywords it has, the newer
    one in doubt. -/
def Flavor.detect (machine : Source.Machine) : Flavor :=
  if machine.setup.isSome || machine.config.mentions ["guard", "reenter"] then .v5
  else if machine.callee == "Machine"
      || machine.config.mentions ["cond", "internal", "onEntry", "onExit"] then .v4
  else .v5

/-- A machine with the edits made to it. -/
structure Editor where
  text : String
  machine : Source.Machine
  style : Style
  flavor : Flavor
  /-- The description with the edits. -/
  draft : Expr
  /-- What is known of the draft. -/
  extraction : Extraction

namespace Editor

/-- An editor without edits. -/
def ofMachine (text : String) (machine : Source.Machine) (settings : Settings) : Editor where
  text := text
  machine := machine
  style := Style.infer (utf8 text) machine.config settings.style
  flavor :=
    match settings.flavor with
    | .auto => Flavor.detect machine
    | .v4 => .v4
    | .v5 => .v5
  draft := machine.config
  extraction := extract machine.config machine.options machine.setup

variable (editor : Editor)

/-- The graph of the draft. -/
def graph : Graph :=
  editor.extraction.graph

/-- What is known of a description in place of the draft. -/
def extractionOf (draft : Expr) : Extraction :=
  extract draft editor.machine.options editor.machine.setup

/-- The editor with another draft. -/
def withDraft (draft : Expr) : Editor :=
  { editor with draft, extraction := editor.extractionOf draft }

/-- The text edits that turn the machine into the draft. -/
def textEdits : Spliced (List TextEdit) :=
  let baseline : Baseline :=
    { source := utf8 editor.text, style := editor.style, tree := editor.machine.config }
  baseline.diff editor.draft

/-- The text with the edits made. -/
def editedText : Spliced String := do
  TextEdit.applyAll editor.text (← editor.textEdits)

/-! ## Looking up -/

/-- The node at a path. -/
def node (path : StatePath) : Edited NodeId :=
  match editor.graph.nodeAt? path with
  | some id => .ok id
  | none => .error (.stateNotFound path)

/-- The edge of a transition. -/
def edge (source : StatePath) (transition : TransitionPath) : Edited Edge := do
  match editor.graph.edgeAt? (← editor.node source) transition with
  | some edge => pure edge
  | none => throw (.transitionNotFound source transition)

/-- The key of new guards. -/
def guardKey : String :=
  match editor.flavor with
  | .v4 => "cond"
  | .v5 => "guard"

end Editor

namespace Draft

/-- The properties of a state, which must be there. -/
def state (draft : Expr) (path : StatePath) : Edited (List Property) :=
  match stateProps? draft path with
  | some props => .ok props
  | none => .error (.stateNotFound path)

/-- Changes the properties of a state. -/
def modifyState (draft : Expr) (path : StatePath)
    (f : List Property → Edited (List Property)) : Edited Expr := do
  let props ← state draft path
  pure (setStateProps (← f props) path draft)

/-- The owner of a transition's slot, and the transition itself. -/
def transitionIn? (state : List Property) (path : TransitionPath) :
    Option (List Property × Expr) := do
  let owner ← path.slot.owner? state
  pure (owner, ← OneOrMany.item? owner path.slot.key path.index)

/-- The written form of a transition. -/
def transition (draft : Expr) (source : StatePath) (path : TransitionPath) : Edited Expr := do
  match transitionIn? (← state draft source) path with
  | some (_, item) => pure item
  | none => throw (.transitionNotFound source path)

/-- Changes the written form of a transition. -/
def modifyTransition (draft : Expr) (source : StatePath) (path : TransitionPath)
    (f : Expr → Edited Expr) : Edited Expr :=
  modifyState draft source fun state => do
    match transitionIn? state path with
    | some (owner, item) =>
      let item ← f item
      pure (path.slot.setOwner state
        (OneOrMany.modifyItem owner path.slot.key path.index fun _ => item))
    | none => throw (.transitionNotFound source path)

/-- Takes a transition out of its slot; an emptied map goes too. -/
def takeTransition (draft : Expr) (source : StatePath) (path : TransitionPath) :
    Edited (Expr × Expr) := do
  let props ← state draft source
  match path.slot.owner? props with
  | some owner =>
    match OneOrMany.remove? owner path.slot.key path.index with
    | some (item, owner) =>
      let props := path.slot.pruneMap (path.slot.setOwner props owner)
      pure (item, setStateProps props source draft)
    | none => throw (.transitionNotFound source path)
  | none => throw (.transitionNotFound source path)

/-- Puts a transition at the end of a slot. -/
def putTransition (draft : Expr) (source : StatePath) (slot : Slot) (item : Expr) :
    Edited Expr :=
  modifyState draft source fun state =>
    let state := slot.ensureMap state
    match slot.owner? state with
    | some owner => pure (slot.setOwner state (OneOrMany.insert owner slot.key none item))
    | none =>
      match slot with
      | .invokeDone invoke | .invokeError invoke => throw (.invokeNotFound source invoke)
      | _ => throw (.slotNotObject slot)

end Draft

end Statechart
