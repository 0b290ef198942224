import Mathlib.Data.List.Flatten
import Mathlib.Data.List.Perm.Subperm
import Statechart.Proofs.BlockOrder
import Statechart.Proofs.NodeLists
import Statechart.Proofs.ShadowedEntries

/-!
# Origins of what is written in place

What is written in place is referred to by its origin. Reading a description looks at each of its
nodes once at most: properties are looked up by different names, of entries with one name only the
last is read, and items are read one by one. So the references that were read have no origin more
often than the nodes of the description have it.

* `Expr.origins`: the origins of a node and of all nodes below it;
* `inlineOrigins`: the origins of what is written in place among references;
* `flatMap_prop?_subperm`: what is drawn from properties of different names;
* `inlineOrigins_infosOf`: what is drawn from a description.
-/

namespace Statechart

open Property Draft

/-! ## The nodes of an expression -/

namespace Expr

mutual

/-- The origins of a node and of the nodes below it. -/
def origins : Expr → List Origin
  | object origin props => origin :: originsOfProps props
  | array origin items => origin :: originsOfItems items
  | member origin base _ => origin :: origins base
  | call origin callee args => origin :: (origins callee ++ originsOfItems args)
  | str origin _ | template origin _ | number origin _ | bool origin _ | null origin
  | undefined origin | ident origin _ | function origin | other origin _ => [origin]

/-- The origins of nodes and of the nodes below them. -/
def originsOfItems : List Expr → List Origin
  | [] => []
  | item :: rest => origins item ++ originsOfItems rest

/-- The origins of the values of properties and of the nodes below them. -/
def originsOfProps : List (PropertyOf Expr) → List Origin
  | [] => []
  | ⟨_, _, _, value⟩ :: rest => origins value ++ originsOfProps rest

end

theorem originsOfItems_eq (items : List Expr) : originsOfItems items = items.flatMap origins := by
  induction items with
  | nil => rfl
  | cons item items ih => rw [originsOfItems, ih, List.flatMap_cons]

theorem originsOfProps_eq (props : List Property) :
    originsOfProps props = props.flatMap (·.value.origins) := by
  induction props with
  | nil => rfl
  | cons prop props ih => rw [originsOfProps, ih, List.flatMap_cons]

/-- A node comes first. -/
theorem exists_origins_eq (expr : Expr) : ∃ below, expr.origins = expr.origin :: below := by
  cases expr <;> exact ⟨_, rfl⟩

theorem flatMap_itemsOf_sublist (expr : Expr) :
    ((itemsOf expr).flatMap origins).Sublist expr.origins := by
  cases expr with
  | array origin items =>
    rw [origins, originsOfItems_eq]
    exact List.sublist_cons_self _ _
  | _ => simp only [itemsOf, items?, Option.getD_none, List.flatMap_singleton, List.Sublist.refl]

theorem originsOfProps_sublist {expr : Expr} {props : List Property}
    (h : expr.props? = some props) : (originsOfProps props).Sublist expr.origins := by
  cases expr <;> cases h
  exact List.sublist_cons_self _ _

end Expr

/-! ## Parts of a list -/

section

variable {α β : Type} {l l' : List α} {f g : α → List β}

theorem flatMap_subperm (h : ∀ a ∈ l, (f a).Subperm (g a)) :
    (l.flatMap f).Subperm (l.flatMap g) := by
  induction l with
  | nil => exact List.nil_subperm
  | cons a l ih =>
    rw [List.flatMap_cons, List.flatMap_cons]
    exact (h a List.mem_cons_self).append (ih fun b hb => h b (List.mem_cons_of_mem a hb))

theorem flatMap_subperm_of_subperm (h : l.Subperm l') (f : α → List β) :
    (l.flatMap f).Subperm (l'.flatMap f) := by
  obtain ⟨middle, hperm, hsub⟩ := h
  exact (hperm.flatMap_right f).symm.subperm.trans (hsub.flatMap f).subperm

end

/-- Properties that are looked up by different names are different entries. -/
theorem filterMap_prop?_subperm (props : List Property) {names : List String}
    (hnames : names.Nodup) : (names.filterMap (prop? props)).Subperm props := by
  refine List.subperm_of_subset ?_ fun prop hprop => ?_
  · refine List.Nodup.filterMap (fun name other prop hname hother => ?_) hnames
    exact Option.some.inj ((mem_of_prop? hname).2.symm.trans (mem_of_prop? hother).2)
  · obtain ⟨name, -, hname⟩ := List.mem_filterMap.1 hprop
    exact (mem_of_prop? hname).1

/-- What is drawn from properties of different names, each time from the value that counts. -/
theorem flatMap_prop?_subperm (props : List Property)
    (parts : List (String × (Property → List Origin))) (hnames : (parts.map (·.1)).Nodup)
    (hparts : ∀ part ∈ parts, ∀ prop, prop? props part.1 = some prop →
      (part.2 prop).Subperm prop.value.origins) :
    (parts.flatMap fun part => ((prop? props part.1).map part.2).getD []).Subperm
      (Expr.originsOfProps props) := by
  have hall : (parts.flatMap fun part => ((prop? props part.1).map (·.value.origins)).getD []) =
      ((parts.map (·.1)).filterMap (prop? props)).flatMap (·.value.origins) := by
    rw [List.filterMap_map, List.filterMap_eq_flatMap_toList, List.flatMap_assoc]
    refine List.flatMap_congr fun part _ => ?_
    rw [Function.comp_apply]
    cases prop? props part.1 <;> simp
  rw [Expr.originsOfProps_eq]
  refine (flatMap_subperm fun part hpart => ?_).trans
    (hall ▸ flatMap_subperm_of_subperm (filterMap_prop?_subperm props hnames) _)
  cases hprop : prop? props part.1 with
  | none => exact List.nil_subperm
  | some prop => exact hparts part hpart prop hprop

/-- What is drawn from the entries of an object literal that count. -/
theorem flatMap_effective_subperm {expr : Expr} {entries : List Property}
    (hentries : expr.props? = some entries) {f : Property → List Origin}
    (h : ∀ entry ∈ effective entries, (f entry).Subperm entry.value.origins) :
    ((effective entries).flatMap f).Subperm expr.origins := by
  refine (flatMap_subperm h).trans (List.Sublist.subperm ?_)
  refine List.Sublist.trans ?_ (Expr.originsOfProps_sublist hentries)
  rw [Expr.originsOfProps_eq]
  exact (effective_sublist entries).flatMap _

/-- What is drawn from the items of a list, each time from one of them. -/
theorem flatMap_items_subperm (expr : Expr) {f : Expr × Nat → List Origin}
    (h : ∀ item index, (f (item, index)).Subperm item.origins) :
    ((itemsOf expr).zipIdx.flatMap f).Subperm expr.origins := by
  have hitems : ((itemsOf expr).zipIdx.flatMap fun item => item.1.origins) =
      (itemsOf expr).flatMap Expr.origins := by
    rw [← List.flatMap_map, List.zipIdx_map_fst]
  refine (flatMap_subperm fun item _ => h item.1 item.2).trans ?_
  rw [hitems]
  exact (Expr.flatMap_itemsOf_sublist expr).subperm

theorem flatMap_read {α β γ δ : Type} (l : List α) (read : α → Option β × γ) (f : β → List δ) :
    ((l.map read).filterMap (·.1)).flatMap f = l.flatMap fun a => (read a).1.toList.flatMap f := by
  rw [List.filterMap_map, List.filterMap_eq_flatMap_toList, List.flatMap_assoc]
  rfl

/-! ## References -/

/-- The origin of what is written in place. -/
def Reference.origin? : Reference → Option Origin
  | named _ _ => none
  | builtin _ origin | inline origin => some origin

/-- Whether an expression refers to an implementation by its name. -/
def Expr.isName : Expr → Bool
  | .str _ _ => true
  | .object _ props => ((value? props "type").bind Expr.text?).isSome
  | _ => false

/-- What is no name is written in place. -/
theorem origin?_of_value? {kind : BlockKind} {expr : Expr} {reference : Reference}
    (h : (Reference.shape kind).value? expr = some reference) :
    reference.origin? = if expr.isName then none else some expr.origin := by
  rw [Reference.shape, value?_oneOf] at h
  obtain ⟨arm, harm, hread⟩ := List.exists_of_findSome?_eq_some h
  obtain ⟨hfits, hread⟩ := Option.ite_none_right_eq_some.1 hread
  simp only [List.mem_cons, List.not_mem_nil, or_false] at harm
  rcases harm with rfl | rfl | rfl | rfl
  · obtain ⟨name, hname, heq⟩ := Option.bind_eq_some_iff.1 hread
    cases heq
    cases expr <;> cases hname
    rfl
  · obtain ⟨props, hprops, hread⟩ := Option.bind_eq_some_iff.1 hread
    obtain ⟨name, hname, rfl⟩ := Option.map_eq_some_iff.1 hread
    cases expr <;> cases hprops
    rw [Expr.isName, hname]
    rfl
  · obtain ⟨call, hcall, heq⟩ := Option.bind_eq_some_iff.1 hread
    cases heq
    cases expr with
    | call => rfl
    | _ => cases hcall
  · cases hread
    cases expr with
    | function | ident | member | call => rfl
    | _ => cases hfits

/-- The origins of what is written in place among references. -/
def inlineOrigins (references : List (BlockKind × Reference)) : List Origin :=
  references.filterMap (·.2.origin?)

theorem inlineOrigins_append (references more : List (BlockKind × Reference)) :
    inlineOrigins (references ++ more) = inlineOrigins references ++ inlineOrigins more :=
  List.filterMap_append

theorem inlineOrigins_flatMap {α : Type} (l : List α) (f : α → List (BlockKind × Reference)) :
    inlineOrigins (l.flatMap f) = l.flatMap fun a => inlineOrigins (f a) :=
  List.filterMap_flatMap

/-- An expression is the only node that it is referred to by. -/
theorem inlineOrigins_value? (kind : BlockKind) (expr : Expr) :
    (inlineOrigins (((Reference.shape kind).value? expr).toList.map (kind, ·))).Subperm
      expr.origins := by
  obtain ⟨below, hbelow⟩ := expr.exists_origins_eq
  cases hread : (Reference.shape kind).value? expr with
  | none => exact List.nil_subperm
  | some reference =>
    have horigin := origin?_of_value? hread
    rw [hbelow]
    split at horigin <;> simp [inlineOrigins, horigin]

/-! ## Lists of actions -/

theorem inlineOrigins_readActions (kind : ProblemKind) (path : StatePath) (property : String)
    (expr : Expr) :
    (inlineOrigins ((readActions kind path property expr).1.map
      fun action => (.action, action.2))).Subperm expr.origins := by
  have hitems : (readActions kind path property expr).1.map (fun action => (.action, action.2)) =
      (itemsOf expr).zipIdx.flatMap fun item =>
        (((Reference.shape .action).value? item.1).toList.map (BlockKind.action, ·)) := by
    rw [readActions_fst, List.map_filterMap, List.filterMap_eq_flatMap_toList]
    refine List.flatMap_congr fun ⟨item, index⟩ _ => ?_
    dsimp only
    cases (Reference.shape .action).value? item <;> rfl
  rw [hitems, inlineOrigins_flatMap]
  exact flatMap_items_subperm expr fun item _ => inlineOrigins_value? .action item

/-! ## Transitions -/

theorem inlineOrigins_readTransitionObject (path : StatePath) (base : Transition)
    (props : List Property) :
    (inlineOrigins (readTransitionObject path base props).1.references).Subperm
      (Expr.originsOfProps props) := by
  have hparts := flatMap_prop?_subperm props
    [(actionKey props "guard" "cond", fun prop => inlineOrigins
        (((Reference.shape .guard).value? prop.value).toList.map (.guard, ·))),
      ("actions", fun prop => inlineOrigins
        ((readActions .transitionProperty [] "actions" prop.value).1.map
          fun action => (.action, action.2)))] ?_ ?_
  · refine List.Subperm.trans (List.Perm.of_eq ?_).subperm hparts
    rw [Transition.references, inlineOrigins_append, guard_readTransitionObject,
      actions_readTransitionObject, List.flatMap_cons, List.flatMap_singleton, ← value?_actionKey,
      value?, value?]
    congr 1
    · cases prop? props (actionKey props "guard" "cond") <;> rfl
    · cases prop? props "actions" <;> rfl
  · rcases List.mem_pair.1 (actionKey_mem props "guard" "cond") with h | h <;> simp [h]
  · intro part hpart prop _
    simp only [List.mem_cons, List.not_mem_nil, or_false] at hpart
    rcases hpart with rfl | rfl
    · exact inlineOrigins_value? .guard prop.value
    · exact inlineOrigins_readActions _ _ _ prop.value

theorem inlineOrigins_readTransition (path : StatePath) (slot : Slot) (trigger : Trigger)
    (item : Expr) (index : Nat) :
    (inlineOrigins ((readTransition path slot trigger item index).1.toList.flatMap
      Transition.references)).Subperm item.origins := by
  cases item with
  | object origin props =>
    have hread := inlineOrigins_readTransitionObject path
      { path := ⟨slot, index⟩, trigger, span := (Expr.object origin props).span } props
    rw [readTransition]
    refine List.Subperm.trans (List.Perm.of_eq ?_).subperm
      (hread.trans (Expr.originsOfProps_sublist rfl).subperm)
    exact congrArg inlineOrigins (List.flatMap_singleton _ _)
  | _ => exact List.nil_subperm

theorem inlineOrigins_readSlot (path : StatePath) (slot : Slot) (trigger : Trigger)
    (expr : Expr) :
    (inlineOrigins ((readSlot path slot trigger expr).1.flatMap
      Transition.references)).Subperm expr.origins := by
  rw [readSlot, flatMap_read, inlineOrigins_flatMap]
  exact flatMap_items_subperm expr fun item index =>
    inlineOrigins_readTransition path slot trigger item index

/-- What is drawn from the value of a property that holds a slot. -/
theorem inlineOrigins_readSlotProperty (path : StatePath) (slot : Slot) (trigger : Trigger)
    (props : List Property) (name : String) :
    inlineOrigins ((readSlotProperty path slot trigger (value? props name)).1.flatMap
        Transition.references) =
      ((prop? props name).map fun prop => inlineOrigins ((readSlot path slot trigger
        prop.value).1.flatMap Transition.references)).getD [] := by
  rw [value?]
  cases prop? props name <;> rfl

theorem inlineOrigins_readSlotMap (path : StatePath) (property : String) (slot : String → Slot)
    (trigger : String → Trigger) (prop : Property) :
    (inlineOrigins ((readSlotMap path property slot trigger (some prop)).1.flatMap
      Transition.references)).Subperm prop.value.origins := by
  rw [readSlotMap]
  cases hentries : prop.value.props? with
  | none => exact List.nil_subperm
  | some entries =>
    dsimp only
    rw [List.flatMap_map, List.flatMap_assoc, inlineOrigins_flatMap]
    refine flatMap_effective_subperm hentries fun entry _ => ?_
    cases entry.name with
    | none => exact List.nil_subperm
    | some name => exact inlineOrigins_readSlot path (slot name) (trigger name) entry.value

/-! ## Invocations -/

theorem inlineOrigins_invocation (path : StatePath) (index : Nat) (id : String)
    (props : List Property) :
    (inlineOrigins (Invocation.references
      { index, id
        source := (value? props "src").bind (Reference.shape .actor).value?
        done := (readSlotProperty path (.invokeDone index) (.invocationDone id)
          (value? props "onDone")).1
        failed := (readSlotProperty path (.invokeError index) (.invocationError id)
          (value? props "onError")).1 })).Subperm (Expr.originsOfProps props) := by
  have hparts := flatMap_prop?_subperm props
    [("src", fun prop => inlineOrigins
        (((Reference.shape .actor).value? prop.value).toList.map (.actor, ·))),
      ("onDone", fun prop => inlineOrigins ((readSlot path (.invokeDone index)
        (.invocationDone id) prop.value).1.flatMap Transition.references)),
      ("onError", fun prop => inlineOrigins ((readSlot path (.invokeError index)
        (.invocationError id) prop.value).1.flatMap Transition.references))] (by simp) ?_
  · refine List.Subperm.trans (List.Perm.of_eq ?_).subperm hparts
    rw [Invocation.references, Invocation.transitions, List.flatMap_append, inlineOrigins_append,
      inlineOrigins_append, inlineOrigins_readSlotProperty, inlineOrigins_readSlotProperty,
      List.flatMap_cons, List.flatMap_cons, List.flatMap_singleton, value?]
    congr 1
    cases prop? props "src" <;> rfl
  · intro part hpart prop _
    simp only [List.mem_cons, List.not_mem_nil, or_false] at hpart
    rcases hpart with rfl | rfl | rfl
    · exact inlineOrigins_value? .actor prop.value
    · exact inlineOrigins_readSlot _ _ _ prop.value
    · exact inlineOrigins_readSlot _ _ _ prop.value

theorem inlineOrigins_readInvocation (stateId : String) (path : StatePath) (item : Expr)
    (index : Nat) :
    (inlineOrigins ((readInvocation stateId path item index).1.toList.flatMap
      Invocation.references)).Subperm item.origins := by
  rw [readInvocation]
  cases hprops : item.props? with
  | none => exact List.nil_subperm
  | some props =>
    rw [Option.toList_some, List.flatMap_singleton]
    exact (inlineOrigins_invocation path index _ props).trans
      (Expr.originsOfProps_sublist hprops).subperm

theorem inlineOrigins_readInvocations (stateId : String) (path : StatePath) (prop : Property) :
    (inlineOrigins ((readInvocations stateId path (some prop)).1.flatMap
      Invocation.references)).Subperm prop.value.origins := by
  rw [readInvocations, flatMap_read, inlineOrigins_flatMap]
  exact flatMap_items_subperm prop.value fun item index =>
    inlineOrigins_readInvocation stateId path item index

/-! ## States -/

/-- The properties of a state that references are read from, each with what is drawn from it. -/
def drawn (rootId : Option String) (path : StatePath) (props : List Property) :
    List (String × (Property → List Origin)) :=
  [(actionKey props "entry" "onEntry", fun prop => inlineOrigins
      ((readActions .stateProperty path "entry" prop.value).1.map
        fun action => (.action, action.2))),
    (actionKey props "exit" "onExit", fun prop => inlineOrigins
      ((readActions .stateProperty path "exit" prop.value).1.map
        fun action => (.action, action.2))),
    ("invoke", fun prop => inlineOrigins ((readInvocations
      (writtenId rootId (readAttributes path props).1.explicitId path) path (some prop)).1.flatMap
        Invocation.references)),
    ("on", fun prop => inlineOrigins
      ((readSlotMap path "on" .on Trigger.ofEvent (some prop)).1.flatMap Transition.references)),
    ("always", fun prop => inlineOrigins
      ((readSlot path .always .always prop.value).1.flatMap Transition.references)),
    ("after", fun prop => inlineOrigins
      ((readSlotMap path "after" .after .after (some prop)).1.flatMap Transition.references)),
    ("onDone", fun prop => inlineOrigins
      ((readSlot path .onDone .stateDone prop.value).1.flatMap Transition.references)),
    ("states", fun prop => inlineOrigins
      ((readStates rootId path prop.value).1.flatMap fun tree =>
        tree.infos.flatMap StateInfo.references))]

theorem inlineOrigins_infosBelow_eq (rootId : Option String) (key : String) (path : StatePath)
    (span : Option Span) (props : List Property) :
    inlineOrigins ((infosBelow rootId key path span props).flatMap StateInfo.references) =
      (drawn rootId path props).flatMap fun part => ((prop? props part.1).map part.2).getD [] := by
  have hinfo : (infoOf rootId key path span props).references =
      (readStateActions path props "onEntry" "entry").1.map (fun action => (.action, action.2)) ++
      ((readStateActions path props "onExit" "exit").1.map (fun action => (.action, action.2)) ++
      ((readInvocations (writtenId rootId (readAttributes path props).1.explicitId path) path
        (prop? props "invoke")).1.flatMap Invocation.references ++
      ((readSlotMap path "on" .on Trigger.ofEvent (prop? props "on")).1 ++
        (readSlotProperty path .always .always (value? props "always")).1 ++
        (readSlotMap path "after" .after .after (prop? props "after")).1 ++
        (readSlotProperty path .onDone .stateDone (value? props "onDone")).1).flatMap
          Transition.references)) := rfl
  have htrees : childTrees rootId path props =
      ((prop? props "states").map fun prop => (readStates rootId path prop.value).1).getD [] := by
    rw [childTrees, ← readStatesOf_fst, readStatesOf_eq, value?]
    cases prop? props "states" <;> rfl
  rw [infosBelow, StateTree.infos, StateTree.infosOf_eq, List.flatMap_cons, List.flatMap_assoc,
    hinfo, htrees, drawn]
  simp only [List.flatMap_append, inlineOrigins_append, inlineOrigins_readSlotProperty,
    readStateActions_fst, ← value?_actionKey, List.flatMap_cons, List.flatMap_nil,
    List.append_nil, List.append_assoc]
  -- Part by part, each being there or not.
  refine congrArg₂ (· ++ ·) ?entry (congrArg₂ (· ++ ·) ?exit (congrArg₂ (· ++ ·) ?invoke
    (congrArg₂ (· ++ ·) ?on (congrArg _ (congrArg₂ (· ++ ·) ?after (congrArg _ ?states))))))
  case entry => rw [value?]; cases prop? props (actionKey props "entry" "onEntry") <;> rfl
  case exit => rw [value?]; cases prop? props (actionKey props "exit" "onExit") <;> rfl
  case invoke => cases prop? props "invoke" <;> rfl
  case on => cases prop? props "on" <;> rfl
  case after => cases prop? props "after" <;> rfl
  case states => cases prop? props "states" <;> rfl

theorem nodup_drawn (rootId : Option String) (path : StatePath) (props : List Property) :
    ((drawn rootId path props).map (·.1)).Nodup := by
  rcases List.mem_pair.1 (actionKey_mem props "entry" "onEntry") with h | h <;>
    rcases List.mem_pair.1 (actionKey_mem props "exit" "onExit") with h' | h' <;>
    simp [drawn, h, h']

/-- What is drawn from the properties of a state and of those below it. -/
theorem inlineOrigins_infosBelow (rootId : Option String) (key : String) (path : StatePath)
    (span : Option Span) (props : List Property) :
    (inlineOrigins ((infosBelow rootId key path span props).flatMap
      StateInfo.references)).Subperm (Expr.originsOfProps props) := by
  rw [inlineOrigins_infosBelow_eq]
  refine flatMap_prop?_subperm props _ (nodup_drawn rootId path props) fun part hpart prop hprop =>
    ?_
  simp only [drawn, List.mem_cons, List.not_mem_nil, or_false] at hpart
  rcases hpart with rfl | rfl | rfl | rfl | rfl | rfl | rfl | rfl
  · exact inlineOrigins_readActions _ _ _ prop.value
  · exact inlineOrigins_readActions _ _ _ prop.value
  · exact inlineOrigins_readInvocations _ _ prop
  · exact inlineOrigins_readSlotMap _ _ _ _ prop
  · exact inlineOrigins_readSlot _ _ _ prop.value
  · exact inlineOrigins_readSlotMap _ _ _ _ prop
  · exact inlineOrigins_readSlot _ _ _ prop.value
  · dsimp only at hprop ⊢
    rw [readStates_fst]
    cases hentries : prop.value.props? with
    | none => exact List.nil_subperm
    | some entries =>
      rw [Option.getD_some, List.filterMap_eq_flatMap_toList, List.flatMap_assoc,
        inlineOrigins_flatMap]
      refine flatMap_effective_subperm hentries fun entry hentry => ?_
      cases htree : childTree? rootId path entry with
      | none => exact List.nil_subperm
      | some tree =>
        obtain ⟨name, origin, child, hname, hvalue, rfl⟩ := childTree?_eq_some.1 htree
        -- By the size of the properties: a state below is read from smaller ones.
        have hsize : sizeOf child < sizeOf props := by
          have hstates := sizeOf_value?_lt (show value? props "states" = some prop.value by
            rw [value?, hprop]; rfl)
          have hsmaller := sizeOf_props?_lt hentries
          have hmem := List.sizeOf_lt_of_mem (mem_of_mem_effective hentry)
          have hchild := sizeOf_value_lt entry
          rw [hvalue, Expr.object.sizeOf_spec] at hchild
          omega
        have hbelow := inlineOrigins_infosBelow rootId name (path ++ [name]) origin.span child
        rw [Option.toList_some, List.flatMap_singleton, hvalue]
        exact hbelow.trans (List.sublist_cons_self _ _).subperm
termination_by sizeOf props

/-- The references that were read of a description are written at nodes of their own. -/
theorem inlineOrigins_infosOf (config : Expr) :
    (inlineOrigins ((infosOf config).flatMap StateInfo.references)).Subperm config.origins := by
  cases config with
  | object origin props =>
    rw [infosOf, readMachine, readStateTree_object]
    exact (inlineOrigins_infosBelow _ _ _ _ props).trans (List.sublist_cons_self _ _).subperm
  | _ => exact List.nil_subperm

end Statechart
