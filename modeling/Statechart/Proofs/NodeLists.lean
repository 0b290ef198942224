import Statechart.Proofs.ActionLists
import Statechart.Proofs.AddressAgreement

/-!
# Lists of states

A state has three lists that blocks belong to: the actions on entry, those on exit, and the
invocations. An edit adds an entry to one of them, takes one out, or lets one name another
implementation, and the other lists of all states stay as they are. So do the transitions, but for
those that follow the end of an invocation, which are found by the position of that.

* `NodeList`: the lists of a state, with their keys and what is read of their entries;
* `Draft.entriesAt`: the entries of a list;
* `Draft.Rewrites`: an edit has changed one list of one state;
* `Editor.rewrites_addition`, `Editor.rewrites_removal`, `Editor.rewrites_repointing`: what edits
  make of the lists;
* `realizes_extract`: blocks and the entries of a list.
-/

namespace Statechart

open Property Draft

/-- The lists of a state that blocks belong to. -/
inductive NodeList where
  | entry
  | exit
  | invoke
  deriving DecidableEq, Repr

namespace NodeList

/-- The owner of the blocks of a list. -/
def owner : NodeList → NodeId → BlockOwner
  | entry => .entry
  | exit => .exit
  | invoke => .invoke

/-- The key of a list and the old form of it. Invocations have no other form. -/
def keys : NodeList → String × String
  | entry => ("entry", "onEntry")
  | exit => ("exit", "onExit")
  | invoke => ("invoke", "invoke")

/-- The key in use. -/
def key (list : NodeList) (state : List Property) : String :=
  actionKey state list.keys.1 list.keys.2

/-- The entries of a list, whether or not they can be understood. -/
def entriesIn (list : NodeList) (state : List Property) : List Expr :=
  OneOrMany.items state (list.key state)

/-- The kind of the blocks of a list. -/
def kind : NodeList → BlockKind
  | entry | exit => .action
  | invoke => .actor

/-- The part of an entry that refers to an implementation. -/
def named? : NodeList → Expr → Option Expr
  | entry, expr | exit, expr => some expr
  | invoke, expr => expr.props?.bind (value? · "src")

/-- An entry that refers to an implementation by name. -/
def newEntry (name : String) : NodeList → Expr
  | entry | exit => .ofText name
  | invoke => .ofProps [Property.ofPair "src" (.ofText name)]

/-- An entry that is made to refer to another implementation. -/
def repoint (name : String) : NodeList → Expr → Expr
  | entry, expr | exit, expr => setReference name expr
  | invoke, expr => expr.withProps (Editor.setSource (itemProps expr) (some name))

/-- The handles of the blocks of a list. -/
def handlesOf : NodeList → Node → List BlockId
  | entry, node => node.entry
  | exit, node => node.exit
  | invoke, node => node.invoke

/-! ## Edits -/

/-- The edit that adds an entry. Invocations are added at the end. -/
def addition (path : StatePath) (index : Nat) (name : String) : NodeList → Edit
  | entry => .addAction ⟨.entry path, index⟩ name
  | exit => .addAction ⟨.exit path, index⟩ name
  | invoke => .addInvoke path name none

/-- The edit that takes an entry out. -/
def removal (path : StatePath) (index : Nat) : NodeList → Edit
  | entry => .removeAction ⟨.entry path, index⟩
  | exit => .removeAction ⟨.exit path, index⟩
  | invoke => .removeInvoke path index

/-- The edit that lets an entry name another implementation. -/
def repointing (path : StatePath) (index : Nat) (name : String) : NodeList → Edit
  | entry => .editAction ⟨.entry path, index⟩ name
  | exit => .editAction ⟨.exit path, index⟩ name
  | invoke => .editInvoke path index (some name) none

/-! ## Keys -/

variable {list other : NodeList} {state new : List Property}

theorem key_invoke (state : List Property) : key invoke state = "invoke" := by
  rw [key, actionKey, effectiveKey?]
  split
  · rfl
  · split <;> rfl

theorem key_mem (list : NodeList) (state : List Property) :
    list.key state = list.keys.1 ∨ list.key state = list.keys.2 := by
  have hmem := actionKey_mem state list.keys.1 list.keys.2
  rwa [List.mem_pair] at hmem

theorem key_ne {name : String} (hne : name ≠ list.keys.1) (hne' : name ≠ list.keys.2) :
    name ≠ list.key state := by
  rcases key_mem list state with hkey | hkey
  · exact hkey ▸ hne
  · exact hkey ▸ hne'

theorem entriesIn_congr (h : value? new list.keys.1 = value? state list.keys.1)
    (h' : value? new list.keys.2 = value? state list.keys.2) :
    list.entriesIn new = list.entriesIn state :=
  listIn_congr h h'

theorem key_of_hasName (h : hasName state list.keys.1 = true) : list.key state = list.keys.1 := by
  rw [key, actionKey, effectiveKey?, if_pos h]
  rfl

/-- A key in use stays in use if it is still written. -/
theorem key_eq_of_changed (hname : hasName new (list.key state) = true)
    (hothers : ∀ name, name ≠ list.key state → value? new name = value? state name) :
    list.key new = list.key state := by
  rcases key_mem list state with hkey | hkey
  · rw [hkey] at hname ⊢
    exact key_of_hasName hname
  · by_cases hold : hasName state list.keys.1 = true
    · rw [key_of_hasName hold] at hname ⊢
      exact key_of_hasName hname
    · rw [hkey] at hname hothers ⊢
      by_cases hkeys : list.keys.1 = list.keys.2
      · rw [← hkeys] at hname ⊢
        exact key_of_hasName hname
      · -- The key was not written before its old form was changed, nor is it now.
        have hnew : ¬hasName new list.keys.1 = true := by
          rwa [hasName_congr (hothers _ hkeys)]
        rw [key, actionKey, effectiveKey?, if_neg hnew, if_pos hname]
        rfl

end NodeList

namespace Draft

variable {config config' : Expr} {list other : NodeList} {path p : StatePath}

/-! ## Entries -/

/-- The entries of a list of the state at a path. -/
def entriesAt (config : Expr) (path : StatePath) (list : NodeList) : List Expr :=
  list.entriesIn (propsAt config path)

theorem entriesAt_invoke {state : List Property} (h : stateProps? config path = some state) :
    entriesAt config path .invoke = OneOrMany.items state "invoke" := by
  rw [entriesAt, propsAt, h, Option.getD_some, NodeList.entriesIn, NodeList.key_invoke]

/-- One list of one state is changed: what is read of it then is as given, or it is no longer
    written under its key. -/
def Rewrites (config config' : Expr) (list : NodeList) (path : StatePath)
    (entries : Option (List Expr)) : Prop :=
  ∃ state new, stateProps? config path = some state ∧ config' = setStateProps new path config ∧
    (∀ name, name ≠ list.key state → value? new name = value? state name) ∧
    (value? new (list.key state)).map OneOrMany.itemsOf = entries

section

variable {entries : Option (List Expr)} (h : Rewrites config config' list path entries)

include h

theorem Rewrites.isSome_stateProps? : (stateProps? config' path).isSome = true := by
  obtain ⟨state, new, hstate, rfl, -⟩ := h
  rw [stateProps?_setStateProps_self (Option.isSome_of_eq_some hstate)]
  rfl

theorem Rewrites.valueAt?_eq {name : String} (hne : name ≠ list.keys.1) (hne' : name ≠ list.keys.2)
    (hname : name ≠ "states") : valueAt? config' p name = valueAt? config p name := by
  obtain ⟨state, new, hstate, rfl, hothers, -⟩ := h
  have hstates : value? new "states" = value? state "states" :=
    hothers _ (NodeList.key_ne (by cases list <;> decide) (by cases list <;> decide))
  rw [valueAt?_setStateProps hstate hstates p hname]
  split
  · next hp => rw [hothers _ (NodeList.key_ne hne hne'), valueAt?, hp, hstate, Option.bind_some]
  · rfl

theorem Rewrites.valueAt?_of_ne (hp : p ≠ path) {name : String} (hname : name ≠ "states") :
    valueAt? config' p name = valueAt? config p name := by
  obtain ⟨state, new, hstate, rfl, hothers, -⟩ := h
  have hstates : value? new "states" = value? state "states" :=
    hothers _ (NodeList.key_ne (by cases list <;> decide) (by cases list <;> decide))
  rw [valueAt?_setStateProps hstate hstates p hname, if_neg hp]

/-- Other lists stay as they are. -/
theorem Rewrites.entriesAt_of_ne (hne : (p, other) ≠ (path, list)) :
    entriesAt config' p other = entriesAt config p other := by
  have hvalue (name : String) (hname : name ∈ [other.keys.1, other.keys.2]) :
      valueAt? config' p name = valueAt? config p name := by
    have hstates : name ≠ "states" := by
      rintro rfl
      revert hname
      cases other <;> decide
    by_cases hp : p = path
    · have hlist : other ≠ list := fun heq => hne (by rw [hp, heq])
      refine h.valueAt?_eq ?_ ?_ hstates
      all_goals
        rintro rfl
        revert hname hlist
        cases other <;> cases list <;> decide
    · exact h.valueAt?_of_ne hp hstates
  rw [entriesAt, entriesAt]
  refine NodeList.entriesIn_congr ?_ ?_
  · rw [value?_propsAt, value?_propsAt, hvalue _ (by simp)]
  · rw [value?_propsAt, value?_propsAt, hvalue _ (by simp)]

/-- Transitions stay as they are, unless they follow the end of an invocation of a state whose
    invocations are changed. -/
theorem Rewrites.itemsAt_eq {slot : Slot}
    (hslot : list = .invoke → p = path → slot.property ≠ "invoke") :
    itemsAt config' (p, slot) = itemsAt config (p, slot) := by
  obtain ⟨state, new, hstate, rfl, hothers, -⟩ := h
  have hstates : value? new "states" = value? state "states" :=
    hothers _ (NodeList.key_ne (by cases list <;> decide) (by cases list <;> decide))
  rw [itemsAt_setStateProps hstate hstates, SlotTable.withState]
  split
  · next hp =>
    obtain rfl : p = path := hp
    rw [itemsAt_of_stateProps? hstate]
    refine itemsIn_congr (hothers _ ?_)
    cases list with
    | invoke =>
      rw [NodeList.key_invoke]
      exact hslot rfl rfl
    | entry | exit =>
      exact NodeList.key_ne (Slot.property_ne (by decide) slot) (Slot.property_ne (by decide) slot)
  · rfl

end

/-- The list itself is as given, if it is still written. -/
theorem Rewrites.entriesAt_self {entries : List Expr}
    (h : Rewrites config config' list path (some entries)) :
    entriesAt config' path list = entries := by
  obtain ⟨state, new, hstate, rfl, hothers, hreads⟩ := h
  have hprops : propsAt (setStateProps new path config) path = new := by
    rw [propsAt, stateProps?_setStateProps_self (Option.isSome_of_eq_some hstate)]
    rfl
  obtain ⟨value, hvalue, rfl⟩ := Option.map_eq_some_iff.1 hreads
  have hname : hasName new (list.key state) = true := by
    rw [← isSome_value?, hvalue]
    rfl
  rw [entriesAt, hprops, NodeList.entriesIn, NodeList.key_eq_of_changed hname hothers]
  exact OneOrMany.items_of_value? hvalue

/-- The transitions that follow the end of an invocation are written in its entry. -/
theorem itemsAt_of_invokeOf? {slot : Slot} {index : Nat} (h : Model.invokeOf? slot = some index)
    (config : Expr) (path : StatePath) :
    itemsAt config (path, slot) =
      (((entriesAt config path .invoke)[index]?.bind Expr.props?).map
        (OneOrMany.items · slot.key)).getD [] := by
  have hentries : (entriesAt config path .invoke)[index]? =
      (stateProps? config path).bind (OneOrMany.item? · "invoke" index) := by
    rw [entriesAt, NodeList.entriesIn, NodeList.key_invoke, propsAt]
    cases stateProps? config path <;> rfl
  rw [hentries, itemsAt]
  cases stateProps? config path with
  | none => rfl
  | some state =>
    cases slot with
    | invokeDone invoke | invokeError invoke =>
      obtain rfl := Option.some.inj h
      rfl
    | _ => cases h

end Draft

namespace NodeList

variable {list : NodeList} {entry : Expr} {name : String}

/-! ## References -/

/-- What an entry refers to, if it can be understood. -/
def reference? (list : NodeList) (entry : Expr) : Option Reference :=
  (list.named? entry).bind (Reference.shape list.kind).value?

/-- An entry refers to an implementation by name. -/
def Names (list : NodeList) (entry : Expr) (name : String) : Prop :=
  ∃ params, list.reference? entry = some (.named name params)

/-- A list among the entries refers to nothing. -/
theorem isArray_of_reference? (h : (list.reference? entry).isSome = true) :
    entry.isArray = false := by
  cases entry with
  | array origin items =>
    cases list <;> cases h
  | _ => rfl

theorem names_newEntry (list : NodeList) (name : String) :
    list.Names (list.newEntry name) name := by
  cases list with
  | entry | exit => exact Reference.names_str _
  | invoke => exact Reference.names_str _

theorem value?_setSource {props : List Property} {src : Option String} {key : String}
    (hkey : key ≠ "src") : value? (Editor.setSource props src) key = value? props key := by
  cases src with
  | none => rfl
  | some name =>
    rw [Editor.setSource]
    split
    · exact value?_modifyValue_of_ne hkey props _
    · rw [value?_append_ofPair, if_neg hkey]

/-- An entry that referred to something refers to what it is made to. -/
theorem names_repoint (h : (list.reference? entry).isSome = true) (name : String) :
    list.Names (list.repoint name entry) name := by
  cases list with
  | entry | exit => exact names_setReference .action name _
  | invoke =>
    cases entry with
    | object origin props =>
      have hsource : ∃ expr, value? (Editor.setSource props (some name)) "src" = some expr ∧
          Reference.Names .actor expr name := by
        rw [Editor.setSource]
        split
        · next hname =>
          obtain ⟨old, hold⟩ := Option.isSome_iff_exists.1 ((isSome_value? props "src").trans hname)
          rw [value?_modifyValue_self, hold]
          exact ⟨_, rfl, names_setReference .actor name old⟩
        · rw [value?_append_ofPair, if_pos rfl]
          exact ⟨_, rfl, Reference.names_str _⟩
      obtain ⟨expr, hexpr, params, hparams⟩ := hsource
      refine ⟨params, ?_⟩
      change (value? (Editor.setSource props (some name)) "src").bind _ = _
      rw [hexpr]
      exact hparams
    | _ => cases h

end NodeList

/-! ## Transitions that follow the end of an invocation -/

namespace Draft

variable {config config' : Expr} {list : NodeList} {path p : StatePath} {slot : Slot} {index : Nat}

theorem invokeOf?_isSome_iff : (Model.invokeOf? slot).isSome = true ↔ slot.property = "invoke" := by
  cases slot <;> simp [Model.invokeOf?, Slot.property]

theorem key_ne_src (h : (Model.invokeOf? slot).isSome = true) : slot.key ≠ "src" := by
  cases slot with
  | invokeDone | invokeError => simp [Slot.key]
  | _ => cases h

@[simp] theorem key_shiftInvoke (index : Nat) (slot : Slot) :
    (Model.shiftInvoke index slot).key = slot.key := by
  cases slot <;> rfl

theorem invokeOf?_shiftInvoke (index : Nat) (slot : Slot) :
    Model.invokeOf? (Model.shiftInvoke index slot) =
      (Model.invokeOf? slot).map fun invoke => if index < invoke then invoke - 1 else invoke := by
  cases slot <;> rfl

theorem shiftInvoke_of_none (h : Model.invokeOf? slot = none) (index : Nat) :
    Model.shiftInvoke index slot = slot := by
  cases slot with
  | invokeDone | invokeError => cases h
  | _ => rfl

/-- An invocation with transitions that follow its end is an object. -/
theorem exists_entry_of_itemsAt {invoke : Nat} (hslot : Model.invokeOf? slot = some invoke)
    (hne : itemsAt config (path, slot) ≠ []) : ∃ entry props,
      (entriesAt config path .invoke)[invoke]? = some entry ∧ entry.props? = some props := by
  rw [itemsAt_of_invokeOf? hslot] at hne
  cases hentry : (entriesAt config path .invoke)[invoke]? with
  | none =>
    rw [hentry] at hne
    exact absurd rfl hne
  | some entry =>
    cases hprops : entry.props? with
    | none =>
      rw [hentry, Option.bind_some, hprops] at hne
      exact absurd rfl hne
    | some props => exact ⟨entry, props, rfl, hprops⟩

theorem Rewrites.itemsAt_of_none {entries : Option (List Expr)}
    (h : Rewrites config config' list path entries) (hslot : Model.invokeOf? slot = none) :
    itemsAt config' (p, slot) = itemsAt config (p, slot) := by
  refine h.itemsAt_eq fun _ _ hproperty => ?_
  rw [← invokeOf?_isSome_iff, hslot] at hproperty
  cases hproperty

/-- Transitions stay as they are when an entry is added. -/
theorem Rewrites.itemsAt_of_addition {entry : Expr} (h : Rewrites config config' list path
      (some ((entriesAt config path list).insertIdx index entry)))
    (hindex : list = .invoke → index = (entriesAt config path list).length)
    (hne : itemsAt config (p, slot) ≠ []) :
    itemsAt config' (p, slot) = itemsAt config (p, slot) := by
  cases hslot : Model.invokeOf? slot with
  | none => exact h.itemsAt_of_none hslot
  | some invoke =>
    by_cases hlist : list = .invoke ∧ p = path
    · obtain ⟨rfl, rfl⟩ := hlist
      obtain ⟨found, -, hfound, -⟩ := exists_entry_of_itemsAt hslot hne
      -- What is added comes behind the invocations that were there.
      have hlt := (List.getElem?_eq_some_iff.1 hfound).1
      rw [itemsAt_of_invokeOf? hslot, itemsAt_of_invokeOf? hslot, h.entriesAt_self, hindex rfl,
        List.getElem?_insertIdx_of_lt hlt]
    · exact h.itemsAt_eq fun hinvoke hp => absurd ⟨hinvoke, hp⟩ hlist

/-- Transitions stay as they are when an entry is made to refer to something else. -/
theorem Rewrites.itemsAt_of_repointing {entry : Expr} {name : String}
    (hentry : (entriesAt config path list)[index]? = some entry)
    (h : Rewrites config config' list path
      (some ((entriesAt config path list).set index (list.repoint name entry)))) :
    itemsAt config' (p, slot) = itemsAt config (p, slot) := by
  cases hslot : Model.invokeOf? slot with
  | none => exact h.itemsAt_of_none hslot
  | some invoke =>
    by_cases hlist : list = .invoke ∧ p = path
    · obtain ⟨rfl, rfl⟩ := hlist
      rw [itemsAt_of_invokeOf? hslot, itemsAt_of_invokeOf? hslot, h.entriesAt_self,
        List.getElem?_set]
      split
      · next heq =>
        obtain rfl := heq
        have hkey : slot.key ≠ "src" := key_ne_src (Option.isSome_of_eq_some hslot)
        rw [if_pos (List.getElem?_eq_some_iff.1 hentry).1, hentry, Option.bind_some,
          Option.bind_some, NodeList.repoint, Expr.props?_withProps, itemProps]
        cases entry.props? with
        | none => rfl
        | some props => exact OneOrMany.items_congr (NodeList.value?_setSource hkey)
      · rfl
    · exact h.itemsAt_eq fun hinvoke hp => absurd ⟨hinvoke, hp⟩ hlist

/-- Transitions stay as they are when an entry is taken out, but for those that followed the end of
    an invocation that is gone; those of later invocations are found one position before. -/
theorem Rewrites.itemsAt_of_removal
    (h : Rewrites config config' list path (OneOrMany.removal index (entriesAt config path list)))
    (hkept : list = .invoke → p = path → Model.invokeOf? slot ≠ some index)
    (hne : itemsAt config (p, slot) ≠ []) :
    itemsAt config' (p, if list = .invoke ∧ p = path then Model.shiftInvoke index slot else slot) =
      itemsAt config (p, slot) := by
  cases hslot : Model.invokeOf? slot with
  | none =>
    rw [shiftInvoke_of_none hslot, ite_self]
    exact h.itemsAt_of_none hslot
  | some invoke =>
    by_cases hlist : list = .invoke ∧ p = path
    · rw [if_pos hlist]
      obtain ⟨rfl, rfl⟩ := hlist
      obtain ⟨found, props, hfound, hprops⟩ := exists_entry_of_itemsAt hslot hne
      have hinvoke : invoke ≠ index := fun heq => hkept rfl rfl (heq ▸ hslot)
      have harray : found.isArray = false := by
        cases found with
        | array => cases hprops
        | _ => rfl
      obtain ⟨left, hleft, hmoved⟩ := OneOrMany.getElem?_removal hfound hinvoke harray
      rw [hleft] at h
      have hshift := invokeOf?_shiftInvoke index slot
      rw [hslot] at hshift
      rw [itemsAt_of_invokeOf? hshift, itemsAt_of_invokeOf? hslot, h.entriesAt_self, hmoved, hfound,
        key_shiftInvoke]
    · rw [if_neg hlist]
      exact h.itemsAt_eq fun hinvoke hp => absurd ⟨hinvoke, hp⟩ hlist

end Draft

/-! ## Blocks -/

/-- What stands at a position of a list of actions is found by the key in use. -/
theorem Draft.getElem?_listIn (props : List Property) (successor old : String) (index : Nat) :
    (listIn props successor old)[index]? =
      (effectiveKey? props successor old).bind (OneOrMany.item? props · index) := by
  rw [listIn, actionKey]
  cases hkey : effectiveKey? props successor old with
  | some key => rfl
  | none =>
    have hname := hasName_of_effectiveKey?_eq_none hkey List.mem_cons_self
    rw [Option.getD_none, OneOrMany.items_of_not_hasName hname]
    rfl

/-- What was read of a list. -/
def NodeList.readOf : NodeList → StateInfo → List (Indexed Reference)
  | entry, info => info.entry
  | exit, info => info.exit
  | invoke, info => Builder.invoked info.invocations

theorem Builder.MadeFromState.lists {final : Builder} {info : StateInfo} {node : Node}
    (h : final.MadeFromState info node) (list : NodeList) :
    final.Lists 0 list.kind (.node node.id) (list.readOf info) (list.handlesOf node) := by
  cases list with
  | entry => exact h.entry
  | exit => exact h.exit
  | invoke => exact h.invoke

section

variable {config : Expr} (options setup : Option Expr) {node : Node}

/-- A description that is no object has no lists. -/
theorem entriesAt_eq_nil (hconfig : ¬config.isObject = true) (path : StatePath) (list : NodeList) :
    entriesAt config path list = [] := by
  have hprops : config.props? = none := by simpa [Expr.isObject] using hconfig
  have hstate : stateProps? config path = none := by
    rw [stateProps?_eq, hprops]
    rfl
  rw [entriesAt, propsAt, hstate]
  rfl

/-- What was read of a list are its entries that refer to something. -/
theorem referencesIn_readOf {info : StateInfo} (h : info ∈ infosOf config) (list : NodeList) :
    ReferencesIn list.kind
      (fun index => (entriesAt config info.path list)[index]?.bind list.named?)
      (list.readOf info) := by
  by_cases hconfig : config.isObject = true
  · obtain ⟨origin, top, rfl⟩ := Expr.exists_of_isObject hconfig
    obtain ⟨key, span, props, hprops, heq⟩ := mem_infosOf h
    have hactions (successor old : String) : (fun index =>
        (listIn (propsAt (.object origin top) info.path) successor old)[index]?.bind some) =
          fun index =>
            (effectiveKey? props successor old).bind (OneOrMany.item? props · index) := by
      funext index
      rw [propsAt, hprops, Option.getD_some, getElem?_listIn, Option.bind_fun_some]
    cases list with
    | entry =>
      change ReferencesIn .action (fun index =>
        (listIn (propsAt (.object origin top) info.path) "entry" "onEntry")[index]?.bind some)
          info.entry
      rw [hactions, heq]
      exact referencesIn_readStateActions _ _ _ _
    | exit =>
      change ReferencesIn .action (fun index =>
        (listIn (propsAt (.object origin top) info.path) "exit" "onExit")[index]?.bind some)
          info.exit
      rw [hactions, heq]
      exact referencesIn_readStateActions _ _ _ _
    | invoke =>
      rw [entriesAt_invoke hprops, heq]
      exact referencesIn_readInvocations _ _ _
  · have hempty : list.readOf info = [] := by
      cases config with
      | object => exact absurd rfl hconfig
      | _ =>
        obtain rfl := List.mem_singleton.1 h
        cases list <;> rfl
    rw [entriesAt_eq_nil hconfig, hempty]
    exact ⟨by simp, .nil⟩

/-- The blocks of a list are those of its entries that refer to something. -/
theorem realizes_extract (hnode : node ∈ (extract config options setup).graph.nodes)
    (list : NodeList) :
    (extract config options setup).graph.Realizes (inlineNames config options setup) list.kind
      (.node node.id) (fun index => (entriesAt config node.path list)[index]?.bind list.named?)
      (list.handlesOf node) := by
  obtain ⟨i, hi⟩ := List.mem_iff_getElem?.1 hnode
  obtain ⟨info, hinfo, hmade⟩ := madeFromState_extract options setup hi
  rw [hmade.path, inlineNames_eq]
  exact (hmade.lists list).realizes (referencesIn_readOf (List.mem_of_getElem? hinfo) list)
    (blocks_extract config options setup)

end

/-- The source of the block that a graph has at a position of a list of a state. -/
def Graph.sourceAt? (graph : Graph) (path : StatePath) (list : NodeList) (index : Nat) :
    Option String := do
  let node ← (graph.nodeAt? path).bind graph.node?
  let block ← ((list.handlesOf node).filterMap graph.block?).find? (·.listIndex == index)
  pure block.sourceId

namespace Editor

variable {editor : Editor} {draft : Expr} {list : NodeList} {path : StatePath}

/-! ## Edits of lists -/

theorem rewrites_of_changes {f : List Property → String → Option (List Property)}
    {fits : List Expr → Prop} {result : List Expr → Option (List Expr)}
    (hchange : OneOrMany.Changes f fits result) {state new : List Property}
    (hstate : stateProps? editor.draft path = some state)
    (hnew : f state (list.key state) = some new)
    (hdraft : draft = setStateProps new path editor.draft) :
    fits (entriesAt editor.draft path list) ∧
      Rewrites editor.draft draft list path (result (entriesAt editor.draft path list)) := by
  have hentries : entriesAt editor.draft path list = OneOrMany.items state (list.key state) := by
    rw [entriesAt, propsAt, hstate]
    rfl
  rw [hentries]
  exact ⟨(hchange.accepts _ _).1 (Option.isSome_of_eq_some hnew), state, new, hstate, hdraft,
    hchange.others hnew, hchange.reads hnew⟩

/-- A change of the actions of a state is a change of its list. -/
theorem rewrites_modifyActions {keyed : StatePath → ActionList}
    (hkeys : StateKeys keyed list.keys.1 list.keys.2)
    {f : List Property → String → Option (List Property)} {fits : List Expr → Prop}
    {result : List Expr → Option (List Expr)} (hchange : OneOrMany.Changes f fits result)
    {index : Nat} {create : Bool}
    (h : editor.modifyActions ⟨keyed path, index⟩ create f = .ok draft) :
    fits (entriesAt editor.draft path list) ∧
      Rewrites editor.draft draft list path (result (entriesAt editor.draft path list)) := by
  obtain ⟨-, state, new, hstate, hnew, hdraft⟩ := (modifyActions_eq_ok hkeys).1 h
  exact rewrites_of_changes hchange hstate hnew hdraft

/-- An entry comes to stand at its position. -/
theorem rewrites_addition {index : Nat} {name : String}
    (h : editor.revise (list.addition path index name) = .ok draft)
    (hindex : list = .invoke → index = (entriesAt editor.draft path list).length) :
    index ≤ (entriesAt editor.draft path list).length ∧
      Rewrites editor.draft draft list path
        (some ((entriesAt editor.draft path list).insertIdx index (list.newEntry name))) := by
  cases list with
  | entry =>
    have h : editor.addAction ⟨.entry path, index⟩ name = .ok draft := h
    exact rewrites_modifyActions .entry (OneOrMany.changes_insert index rfl) h
  | exit =>
    have h : editor.addAction ⟨.exit path, index⟩ name = .ok draft := h
    exact rewrites_modifyActions .exit (OneOrMany.changes_insert index rfl) h
  | invoke =>
    obtain ⟨node, -, h⟩ := bind_eq_ok.1 h
    obtain ⟨state, new, hstate, hnew, hdraft⟩ := modifyState_eq_ok.1 h
    cases hnew
    obtain rfl := hindex rfl
    refine ⟨Nat.le_refl _, state, _, hstate, hdraft, fun name hname => ?_, ?_⟩
    · rw [NodeList.key_invoke] at hname
      exact value?_insert hname _ _ _
    · rw [NodeList.key_invoke, OneOrMany.map_itemsOf_value? (OneOrMany.hasName_insert _ _ _ _),
        OneOrMany.items_insert _ _ rfl, entriesAt_invoke hstate, List.insertIdx_length_self]
      rfl

/-- An entry goes. -/
theorem rewrites_removal {index : Nat} (h : editor.revise (list.removal path index) = .ok draft) :
    index < (entriesAt editor.draft path list).length ∧
      Rewrites editor.draft draft list path
        (OneOrMany.removal index (entriesAt editor.draft path list)) := by
  cases list with
  | entry =>
    have h : editor.removeAction ⟨.entry path, index⟩ = .ok draft := h
    exact rewrites_modifyActions .entry (OneOrMany.changes_remove index) h
  | exit =>
    have h : editor.removeAction ⟨.exit path, index⟩ = .ok draft := h
    exact rewrites_modifyActions .exit (OneOrMany.changes_remove index) h
  | invoke =>
    obtain ⟨state, new, hstate, hnew, hdraft⟩ := modifyState_eq_ok.1 h
    refine rewrites_of_changes (OneOrMany.changes_remove index) hstate ?_ hdraft
    rw [NodeList.key_invoke]
    cases hremove : OneOrMany.remove? state "invoke" index with
    | none =>
      rw [hremove] at hnew
      cases hnew
    | some removed =>
      rw [hremove] at hnew
      cases hnew
      rfl

theorem rewrites_editAction {keyed : StatePath → ActionList}
    (hkeys : StateKeys keyed list.keys.1 list.keys.2) {index : Nat} {name : String}
    (h : editor.editAction ⟨keyed path, index⟩ name = .ok draft) :
    ∃ entry, (entriesAt editor.draft path list)[index]? = some entry ∧
      Rewrites editor.draft draft list path
        (some ((entriesAt editor.draft path list).set index (setReference name entry))) := by
  obtain ⟨hlt, hrewrites⟩ := rewrites_modifyActions hkeys
    (OneOrMany.changes_modify index fun item _ => isArray_setReference name item) h
  rw [List.modify_eq_set_getElem?, List.getElem?_eq_getElem hlt] at hrewrites
  exact ⟨_, List.getElem?_eq_getElem hlt, hrewrites⟩

/-- An entry is changed in its place. -/
theorem rewrites_repointing {index : Nat} {name : String}
    (h : editor.revise (list.repointing path index name) = .ok draft) :
    ∃ entry, (entriesAt editor.draft path list)[index]? = some entry ∧
      Rewrites editor.draft draft list path
        (some ((entriesAt editor.draft path list).set index (list.repoint name entry))) := by
  cases list with
  | entry =>
    have h : editor.editAction ⟨.entry path, index⟩ name = .ok draft := h
    exact rewrites_editAction .entry h
  | exit =>
    have h : editor.editAction ⟨.exit path, index⟩ name = .ok draft := h
    exact rewrites_editAction .exit h
  | invoke =>
    obtain ⟨node, -, h⟩ := bind_eq_ok.1 h
    obtain ⟨state, new, hstate, hnew, hdraft⟩ := modifyState_eq_ok.1 h
    cases hitem : (OneOrMany.item? state "invoke" index).bind Expr.props? with
    | none =>
      rw [hitem] at hnew
      cases hnew
    | some invocation =>
      rw [hitem] at hnew
      cases hnew
      obtain ⟨entry, hentry, hprops⟩ := Option.bind_eq_some_iff.1 hitem
      have hchange := OneOrMany.changes_modify index
        (f := (·.withProps (setSource invocation (some name)))) fun item hitem =>
          (isArray_withProps _ item).trans hitem
      obtain ⟨-, hrewrites⟩ : _ ∧ Rewrites editor.draft draft .invoke path _ :=
        rewrites_of_changes hchange hstate (by rw [NodeList.key_invoke, hentry]; rfl) hdraft
      have hentry : (OneOrMany.items state "invoke")[index]? = some entry := hentry
      rw [entriesAt_invoke hstate] at hrewrites ⊢
      rw [List.modify_eq_set_getElem?, hentry] at hrewrites
      refine ⟨entry, hentry, ?_⟩
      rw [NodeList.repoint, itemProps, hprops]
      exact hrewrites

/-! ## What is extracted -/

/-- An entry that refers to an implementation by name is extracted with that name. -/
theorem Current.sourceAt?_eq_some (h : editor.Current) {index : Nat} {entry : Expr} {name : String}
    (hstate : (stateProps? editor.draft path).isSome = true)
    (hentry : (entriesAt editor.draft path list)[index]? = some entry)
    (hnames : list.Names entry name) : editor.graph.sourceAt? path list index = some name := by
  obtain ⟨id, node, hnode, rfl⟩ := (h.has_iff path).2 (.inr hstate)
  have hat : editor.graph.nodeAt? node.path = some id :=
    (Graph.nodeAt?_eq_some_iff h.wellFormed).2 ⟨node, hnode, rfl⟩
  have hfound : editor.graph.node? id = some node := hnode
  obtain ⟨names, hrealizes⟩ : ∃ names, editor.graph.Realizes names list.kind (.node node.id)
      (fun index => (entriesAt editor.draft node.path list)[index]?.bind list.named?)
      (list.handlesOf node) := by
    rw [h.graph_eq] at hnode ⊢
    exact ⟨_, realizes_extract _ _ (List.mem_of_getElem? hnode) list⟩
  obtain ⟨params, hreference⟩ := hnames
  obtain ⟨expr, hexpr, hvalue⟩ := Option.bind_eq_some_iff.1 hreference
  have hlisted : (entriesAt editor.draft node.path list)[index]?.bind list.named? = some expr := by
    rw [hentry, Option.bind_some, hexpr]
  -- There is a block for the entry, and every block at its position is read from it.
  obtain ⟨b, ⟨hb, block, hblock, hindex⟩, -⟩ :=
    hrealizes.block index expr hlisted (Option.isSome_of_eq_some hvalue)
  obtain ⟨first, hfirst⟩ : ∃ first, ((list.handlesOf node).filterMap editor.graph.block?).find?
      (·.listIndex == index) = some first := by
    rw [← Option.isSome_iff_exists, List.find?_isSome]
    exact ⟨block, List.mem_filterMap.2 ⟨b, hb, hblock⟩, beq_iff_eq.2 hindex⟩
  have hposition : first.listIndex = index := by simpa using List.find?_some hfirst
  obtain ⟨b', hb', hfirst'⟩ := List.mem_filterMap.1 (List.mem_of_find?_eq_some hfirst)
  obtain ⟨block', expr', reference, hblock', -, -, hlisted', hvalue', hsource⟩ :=
    hrealizes.entry b' hb'
  obtain rfl := Option.some.inj (hblock'.symm.trans hfirst')
  rw [hposition] at hlisted'
  obtain rfl := Option.some.inj (hlisted'.symm.trans hlisted)
  obtain rfl := Option.some.inj (hvalue'.symm.trans hvalue)
  simp only [Graph.sourceAt?, hat, hfound, hfirst, Option.bind_eq_bind, Option.bind_some]
  exact congrArg some hsource

end Editor

end Statechart
