import Statechart.Proofs.Addresses

/-!
# States in the order of reading

An id may be given to several states, and then stands for the first of them. What a description
says to descriptors is therefore the *list* of its states, parents first, each with the id that it
is given. Changes of a draft are changes of this list: replacing the properties of a state replaces
the piece of the list that the state and those below it take up, and taking a state away filters
the list.

* `StateList`, `Draft.statesOf`: the list, and `Graph.states`, the same list read off a graph;
* `Draft.statesOf_setStateProps`: replacing the properties of a state replaces one piece;
* `Draft.statesOf_of_same`: a state that keeps its id and its states leaves the list as it was;
* `Draft.statesOf_takeChild`: taking a state away takes it and those below it out of the list.
-/

namespace Statechart

open Property

/-- States by their paths, parents first, each with the id that it is given. -/
abbrev StateList := List (StatePath × Option String)

/-- A state as descriptors see it. -/
def StateInfo.named (info : StateInfo) : StatePath × Option String :=
  (info.path, info.attributes.explicitId)

/-- The states of a graph as descriptors see them. -/
def Graph.states (graph : Graph) : StateList :=
  graph.nodes.map fun node => (node.path, node.attributes.explicitId)

/-- Of the entries that count, erasing a name leaves the others. -/
theorem effective_eraseName (props : List Property) (name : String) :
    effective (eraseName props name) = (effective props).filter (!·.isNamed name) := by
  have hhas (rest : List Property) {other : String} (hne : other ≠ name) :
      hasName (eraseName rest name) other = hasName rest other := by
    rw [← isSome_prop?, ← isSome_prop?, prop?_eraseName, if_neg hne]
  induction props with
  | nil => rfl
  | cons prop rest ih =>
    cases hnamed : prop.isNamed name with
    | true =>
      have hleft : eraseName (prop :: rest) name = eraseName rest name :=
        List.filter_cons_of_neg (by simp [hnamed])
      rw [hleft, ih, effective, isNamed_iff.1 hnamed]
      dsimp only
      split
      · rfl
      · exact (List.filter_cons_of_neg (by simp [hnamed])).symm
    | false =>
      have hleft : eraseName (prop :: rest) name = prop :: eraseName rest name :=
        List.filter_cons_of_pos (by simp [hnamed])
      rw [hleft, effective, effective]
      cases hn : prop.name with
      | none =>
        dsimp only
        rw [ih, List.filter_cons_of_pos (by simp [hnamed])]
      | some other =>
        dsimp only
        have hne : other ≠ name := by
          rintro rfl
          exact absurd (isNamed_iff.2 hn) (by simp [hnamed])
        rw [hhas rest hne]
        split
        · exact ih
        · rw [ih, List.filter_cons_of_pos (by simp [hnamed])]

namespace StateList

/-- A list of states without those at and below a path. -/
def without (states : StateList) (path : StatePath) : StateList :=
  states.filter fun state => !path.isPrefixOf state.1

theorem without_of_apart {states : StateList} {path : StatePath}
    (h : ∀ state ∈ states, ¬path <+: state.1) : without states path = states := by
  refine List.filter_eq_self.2 fun state hstate => ?_
  rw [Bool.not_eq_true', Bool.eq_false_iff, ne_eq, List.isPrefixOf_iff_prefix]
  exact h state hstate

theorem without_of_below {states : StateList} {path : StatePath}
    (h : ∀ state ∈ states, path <+: state.1) : without states path = [] := by
  refine List.filter_eq_nil_iff.2 fun state hstate => ?_
  rw [Bool.not_eq_true', Bool.eq_false_iff, ne_eq, not_not, List.isPrefixOf_iff_prefix]
  exact h state hstate

theorem without_append (a b : StateList) (path : StatePath) :
    without (a ++ b) path = without a path ++ without b path :=
  List.filter_append _ _

end StateList

namespace Draft

open StateList

/-! ## The list of a description -/

/-- The entries of the `states` of a state. -/
def childEntries (props : List Property) : List Property :=
  ((value? props "states").bind Expr.props?).getD []

/-- The states at and below one with the given properties, parents first. -/
def statesBelow (path : StatePath) (props : List Property) : StateList :=
  (infosBelow none "" path none props).map StateInfo.named

/-- The states that an entry of `states` brings. -/
def entryStates (path : StatePath) (entry : Property) : StateList :=
  match entry.name, entry.value.props? with
  | some key, some child => statesBelow (path ++ [key]) child
  | _, _ => []

/-- The states of a description, parents first. -/
def statesOf (config : Expr) : StateList :=
  (infosOf config).map StateInfo.named

theorem sizeOf_entry_lt {props : List Property} {entry : Property} {child : List Property}
    (hentry : entry ∈ effective (childEntries props)) (hchild : entry.value.props? = some child) :
    sizeOf child < sizeOf props := by
  rw [childEntries] at hentry
  cases hentries : (value? props "states").bind Expr.props? with
  | none => rw [hentries] at hentry; exact absurd hentry List.not_mem_nil
  | some entries =>
    rw [hentries, Option.getD_some] at hentry
    obtain ⟨states, hstates, hentries⟩ := Option.bind_eq_some_iff.1 hentries
    have h₁ := sizeOf_value?_lt hstates
    have h₂ := sizeOf_props?_lt hentries
    have h₃ := List.sizeOf_lt_of_mem (mem_of_mem_effective hentry)
    have h₄ := sizeOf_value_lt entry
    have h₅ := sizeOf_props?_lt hchild
    omega

/-- What is read of a state and those below it, as descriptors see it: the state itself, and what
    the entries of its `states` bring. -/
theorem named_infosBelow (rootId : Option String) (key : String) (path : StatePath)
    (span : Option Span) (props : List Property) :
    (infosBelow rootId key path span props).map StateInfo.named =
      (path, idOf props) :: (effective (childEntries props)).flatMap (entryStates path) := by
  rw [infosBelow, StateTree.infos, StateTree.infosOf_eq, List.map_cons, List.map_flatMap,
    StateInfo.named, explicitId_infoOf, path_infoOf, childTrees,
    List.filterMap_eq_flatMap_toList, List.flatMap_assoc]
  refine congrArg _ (List.flatMap_congr fun entry hentry => ?_)
  rw [entryStates, childTree?]
  cases hname : entry.name with
  | none => rfl
  | some name =>
    cases hvalue : entry.value with
    | object origin child =>
      have hsize := sizeOf_entry_lt hentry (by rw [hvalue]; rfl)
      have hread := named_infosBelow rootId name (path ++ [name]) origin.span child
      have hsame := named_infosBelow none "" (path ++ [name]) none child
      rw [Option.bind_some, readStateTree_object]
      refine Eq.trans ?_ (hread.trans hsame.symm)
      exact List.flatMap_singleton _ _
    | _ => rfl
termination_by sizeOf props

theorem statesBelow_eq (path : StatePath) (props : List Property) :
    statesBelow path props =
      (path, idOf props) :: (effective (childEntries props)).flatMap (entryStates path) :=
  named_infosBelow none "" path none props

theorem statesOf_object (origin : Origin) (props : List Property) :
    statesOf (.object origin props) = statesBelow [] props := by
  rw [statesOf, infosOf, readMachine, readStateTree_object, statesBelow_eq]
  exact named_infosBelow _ _ _ _ _

/-- The states below a state have its path at the start of theirs. -/
theorem prefix_of_mem_statesBelow {path : StatePath} {props : List Property}
    {state : StatePath × Option String} (h : state ∈ statesBelow path props) :
    path <+: state.1 := by
  obtain ⟨info, hinfo, rfl⟩ := List.mem_map.1 h
  obtain ⟨rest, below, span, -, rfl⟩ := exists_of_mem_infosBelow hinfo
  exact ⟨rest, rfl⟩

theorem prefix_of_mem_entryStates {path : StatePath} {entry : Property}
    {state : StatePath × Option String} (h : state ∈ entryStates path entry) :
    ∃ key, entry.name = some key ∧ path ++ [key] <+: state.1 := by
  rw [entryStates] at h
  split at h
  · next key child hname _ => exact ⟨key, hname, prefix_of_mem_statesBelow h⟩
  · exact absurd h List.not_mem_nil

/-- The list is decided by the id of a state and by its `states`. -/
theorem statesBelow_congr {a b : List Property} (path : StatePath) (hid : idOf a = idOf b)
    (hstates : value? a "states" = value? b "states") :
    statesBelow path a = statesBelow path b := by
  rw [statesBelow_eq, statesBelow_eq, hid, childEntries, childEntries, hstates]

/-! ## Changes -/

theorem not_prefix_of_ne {path rest other : StatePath} {key key' : String} (hne : key' ≠ key)
    (h : path ++ [key'] <+: other) : ¬path ++ key :: rest <+: other := by
  rintro ⟨more, hmore⟩
  obtain ⟨more', rfl⟩ := h
  rw [List.append_assoc, List.append_assoc, List.append_cancel_left_eq] at hmore
  exact hne (List.cons.inj hmore).1.symm

/-- Of the entries that count, the one of a name stands between entries of other names, and these
    stay when its value is changed. -/
theorem exists_effective_eq_append {entries : List Property} {entry : Property} {key : String}
    (hmem : entry ∈ effective entries) (hname : entry.name = some key) :
    ∃ before after, effective entries = before ++ entry :: after ∧
      (∀ other ∈ before ++ after, other.isNamed key = false) ∧
      ∀ f, effective (modifyValue entries key f) =
        before ++ { entry with value := f entry.value } :: after := by
  obtain ⟨before, after, hsplit⟩ := List.append_of_mem hmem
  have hothers : ∀ other ∈ before ++ after, other.isNamed key = false := by
    have hnodup := nodup_names_effective entries
    rw [hsplit, List.filterMap_append, List.filterMap_cons_some hname,
      List.nodup_middle, List.nodup_cons, ← List.filterMap_append] at hnodup
    intro other hother
    refine isNamed_eq_false_iff.2 fun hkey => hnodup.1 ?_
    exact List.mem_filterMap.2 ⟨other, hother, hkey⟩
  refine ⟨before, after, hsplit, hothers, fun f => ?_⟩
  have hkept : ∀ part : List Property, (∀ other ∈ part, other.isNamed key = false) →
      (part.map fun prop => if prop.isNamed key then { prop with value := f prop.value }
        else prop) = part := by
    intro part hpart
    refine (List.map_congr_left fun other hother => ?_).trans (List.map_id _)
    rw [hpart other hother]
    rfl
  rw [effective_modifyValue, hsplit, List.map_append, List.map_cons,
    hkept before fun other hother => hothers other (List.mem_append_left _ hother),
    hkept after fun other hother => hothers other (List.mem_append_right _ hother),
    if_pos (isNamed_iff.2 hname)]

theorem idOf_setBelow (new : List Property) (key : String) (rest : StatePath)
    (props : List Property) : idOf (setBelow new (key :: rest) props) = idOf props := by
  rw [idOf, idOf, setBelow, value?_modifyValue_of_ne (by decide)]

theorem childEntries_setBelow {props entries : List Property}
    (h : (value? props "states").bind Expr.props? = some entries) (new : List Property)
    (key : String) (rest : StatePath) : childEntries (setBelow new (key :: rest) props) =
      modifyValue entries key (setStateProps new rest) := by
  obtain ⟨states, hstates, hprops⟩ := Option.bind_eq_some_iff.1 h
  rw [childEntries, setBelow, value?_modifyValue_self, hstates, Option.map_some,
    Option.bind_some, Expr.props?_modifyProps, hprops]
  rfl

/-- The states of an entry, and those of the entry when a state below it is changed. -/
theorem entryStates_setStateProps {entry : Property} {key : String} {child : List Property}
    (hname : entry.name = some key) (hobject : entry.value.props? = some child)
    (new : List Property) (rest start : StatePath) :
    entryStates start entry = statesBelow (start ++ [key]) child ∧
      entryStates start { entry with value := setStateProps new rest entry.value } =
        statesBelow (start ++ [key]) (setBelow new rest child) := by
  have hname' : PropertyOf.name { entry with value := setStateProps new rest entry.value } =
      some key := hname
  constructor
  · simp only [entryStates, hname, hobject]
  · simp only [entryStates, hname', props?_setStateProps, hobject, Option.map_some]

/-- Replacing the properties of a state below another replaces the piece of the list that it and
    those below it take up. -/
theorem statesBelow_setBelow {path : StatePath} {props old : List Property}
    (h : propsBelow? props path = some old) (new : List Property) (start : StatePath) :
    ∃ before after, statesBelow start props = before ++ statesBelow (start ++ path) old ++ after ∧
      statesBelow start (setBelow new path props) =
        before ++ statesBelow (start ++ path) new ++ after ∧
      ∀ state ∈ before ++ after, ¬start ++ path <+: state.1 := by
  induction path generalizing props start with
  | nil =>
    cases h
    refine ⟨[], [], ?_, ?_, fun state hstate => absurd hstate List.not_mem_nil⟩
    all_goals simp [setBelow]
  | cons key rest ih =>
    rw [propsBelow?] at h
    obtain ⟨child, hchild, h⟩ := Option.bind_eq_some_iff.1 h
    obtain ⟨entries, origin, hentries, hvalue⟩ := exists_of_childProps? hchild
    obtain ⟨entry, hentry, hobject⟩ := Option.map_eq_some_iff.1 hvalue
    obtain ⟨hmem, hname⟩ := mem_effective_iff.2 hentry
    obtain ⟨l, r, hsplit, hothers, hchanged⟩ := exists_effective_eq_append hmem hname
    obtain ⟨hhere, hhere'⟩ := entryStates_setStateProps hname (by rw [hobject]; rfl) new rest start
    -- What comes before and after below the state is put between the states of the other entries.
    obtain ⟨before, after, hbefore, hafter, hapart⟩ := ih h (start ++ [key])
    have hpath : start ++ [key] ++ rest = start ++ key :: rest := by simp
    rw [hpath] at hbefore hafter hapart
    refine ⟨(start, idOf props) :: l.flatMap (entryStates start) ++ before,
      after ++ r.flatMap (entryStates start), ?_, ?_, ?_⟩
    · have hold : childEntries props = entries := by rw [childEntries, hentries]; rfl
      rw [statesBelow_eq, hold, hsplit, List.flatMap_append, List.flatMap_cons, hhere, hbefore]
      simp only [List.append_assoc, List.cons_append]
    · rw [statesBelow_eq, idOf_setBelow, childEntries_setBelow hentries, hchanged,
        List.flatMap_append, List.flatMap_cons, hhere', hafter]
      simp only [List.append_assoc, List.cons_append]
    · have hentries : ∀ other ∈ l ++ r, ∀ state ∈ entryStates start other,
          ¬start ++ key :: rest <+: state.1 := by
        intro other hother state hstate
        obtain ⟨key', hkey', hprefix⟩ := prefix_of_mem_entryStates hstate
        refine not_prefix_of_ne ?_ hprefix
        rintro rfl
        exact absurd (isNamed_iff.2 hkey') (by simp [hothers other hother])
      intro state hstate
      simp only [List.mem_append, List.mem_cons, List.mem_flatMap] at hstate
      rcases hstate with
        ((rfl | ⟨other, hother, hstate⟩) | hstate) | hstate | ⟨other, hother, hstate⟩
      · rintro ⟨more, hmore⟩
        simp at hmore
      · exact hentries other (List.mem_append_left _ hother) state hstate
      · exact hapart state (List.mem_append_left _ hstate)
      · exact hapart state (List.mem_append_right _ hstate)
      · exact hentries other (List.mem_append_right _ hother) state hstate

/-- Replacing the properties of a state replaces one piece of the list. -/
theorem statesOf_setStateProps {config : Expr} {path : StatePath} {old : List Property}
    (h : stateProps? config path = some old) (new : List Property) :
    ∃ before after, statesOf config = before ++ statesBelow path old ++ after ∧
      statesOf (setStateProps new path config) = before ++ statesBelow path new ++ after ∧
      ∀ state ∈ before ++ after, ¬path <+: state.1 := by
  rw [stateProps?_eq] at h
  obtain ⟨props, hprops, h⟩ := Option.bind_eq_some_iff.1 h
  have hprops' := props?_setStateProps new path config
  obtain ⟨origin, rfl⟩ : ∃ origin, config = .object origin props := by
    cases config <;> cases hprops
    exact ⟨_, rfl⟩
  rw [hprops, Option.map_some] at hprops'
  obtain ⟨origin', hobject⟩ : ∃ origin', setStateProps new path (.object origin props) =
      .object origin' (setBelow new path props) := by
    cases hset : setStateProps new path (.object origin props) with
    | object origin' props' =>
      rw [hset] at hprops'
      exact ⟨origin', congrArg _ (Option.some.inj hprops')⟩
    | _ => rw [hset] at hprops'; cases hprops'
  rw [hobject, statesOf_object, statesOf_object]
  exact statesBelow_setBelow h new []

/-- A state that keeps its id and its states leaves the list as it was. -/
theorem statesOf_of_same {config : Expr} {path : StatePath} {old new : List Property}
    (h : stateProps? config path = some old) (hid : value? new "id" = value? old "id")
    (hstates : value? new "states" = value? old "states") :
    statesOf (setStateProps new path config) = statesOf config := by
  obtain ⟨before, after, hbefore, hafter, -⟩ := statesOf_setStateProps h new
  rw [hafter, hbefore, statesBelow_congr path (congrArg (Option.bind · Expr.text?) hid) hstates]

/-- What taking a state away leaves of the entries of `states`. -/
theorem childEntries_takeChild {props left : List Property} {child : Property} {key : String}
    (h : takeChild? props key = some (child, left)) :
    childEntries left = eraseName (childEntries props) key := by
  rw [takeChild?] at h
  obtain ⟨children, hchildren, h⟩ := Option.bind_eq_some_iff.1 h
  obtain ⟨found, -, h⟩ := Option.bind_eq_some_iff.1 h
  simp only [Option.pure_def, Option.some.injEq, Prod.mk.injEq] at h
  obtain ⟨-, rfl⟩ := h
  obtain ⟨states, hstates, hprops⟩ := Option.bind_eq_some_iff.1 hchildren
  have hold : childEntries props = children := by rw [childEntries, hchildren]; rfl
  rw [hold]
  split
  · next hempty =>
    rw [childEntries, value?_eraseName, if_pos rfl, List.isEmpty_iff.1 hempty]
    rfl
  · rw [childEntries, value?_modifyValue_self, hstates, Option.map_some, Option.bind_some,
      Expr.props?_withProps, hprops]
    rfl

/-- Taking a state away takes the piece of the list that belongs to it. -/
theorem statesBelow_takeChild {props left : List Property} {child : Property} {key : String}
    (h : takeChild? props key = some (child, left)) (hid : idOf left = idOf props)
    (path : StatePath) :
    statesBelow path left = without (statesBelow path props) (path ++ [key]) := by
  have hhead : without [(path, idOf props)] (path ++ [key]) = [(path, idOf props)] := by
    refine without_of_apart fun state hstate => ?_
    obtain rfl := List.mem_singleton.1 hstate
    rintro ⟨more, hmore⟩
    simp at hmore
  -- Entry by entry: that of the key goes with all of its states, and the others keep theirs.
  have hentries : ∀ entries : List Property,
      (entries.filter (!·.isNamed key)).flatMap (entryStates path) =
        without (entries.flatMap (entryStates path)) (path ++ [key]) := by
    intro entries
    induction entries with
    | nil => rfl
    | cons entry entries ih =>
      rw [List.flatMap_cons, without_append, ← ih]
      cases hnamed : entry.isNamed key with
      | true =>
        have hgone : without (entryStates path entry) (path ++ [key]) = [] := by
          refine without_of_below fun state hstate => ?_
          obtain ⟨key', hkey', hprefix⟩ := prefix_of_mem_entryStates hstate
          obtain rfl := Option.some.inj (hkey'.symm.trans (isNamed_iff.1 hnamed))
          exact hprefix
        rw [hgone, List.filter_cons_of_neg (by simp [hnamed])]
        rfl
      | false =>
        have hstay : without (entryStates path entry) (path ++ [key]) = entryStates path entry := by
          refine without_of_apart fun state hstate => ?_
          obtain ⟨key', hkey', hprefix⟩ := prefix_of_mem_entryStates hstate
          refine not_prefix_of_ne ?_ hprefix
          rintro rfl
          exact absurd (isNamed_iff.2 hkey') (by simp [hnamed])
        rw [hstay, List.filter_cons_of_pos (by simp [hnamed]), List.flatMap_cons]
  have hsplit := without_append [(path, idOf props)]
    ((effective (childEntries props)).flatMap (entryStates path)) (path ++ [key])
  rw [hhead, List.singleton_append, List.singleton_append] at hsplit
  rw [statesBelow_eq, statesBelow_eq, hid, childEntries_takeChild h, effective_eraseName,
    hentries, hsplit]

/-- Taking a state away takes it and those below it out of the list. -/
theorem statesOf_takeChild {config : Expr} {parent : StatePath}
    {props cleared left : List Property} {child : Property} {key : String}
    (hparent : stateProps? config parent = some props)
    (hcleared : statesBelow parent cleared = statesBelow parent props)
    (h : takeChild? cleared key = some (child, left)) (hid : idOf left = idOf cleared) :
    statesOf (setStateProps left parent config) = without (statesOf config) (parent ++ [key]) := by
  obtain ⟨before, after, hbefore, hafter, hapart⟩ := statesOf_setStateProps hparent left
  have hstay : ∀ {part : StateList}, (∀ state ∈ part, ¬parent <+: state.1) →
      without part (parent ++ [key]) = part := fun hpart =>
    without_of_apart fun state hstate hprefix =>
      hpart state hstate ((List.prefix_append _ _).trans hprefix)
  rw [hafter, hbefore, statesBelow_takeChild h hid, hcleared, without_append, without_append,
    hstay fun state hstate => hapart state (List.mem_append_left _ hstate),
    hstay fun state hstate => hapart state (List.mem_append_right _ hstate)]

end Draft

/-- The states of an extracted graph are those of the description. -/
theorem states_extract (config : Expr) (options setup : Option Expr) :
    (extract config options setup).graph.states = Draft.statesOf config := by
  have hviews := congrArg (List.map fun view => (view.1, view.2.2.2.explicitId))
    (nodes_extract config options setup)
  rw [List.map_map, List.map_map] at hviews
  exact hviews

end Statechart
