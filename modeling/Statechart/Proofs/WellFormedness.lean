import Statechart.Proofs.Retargeting

/-!
# Well-formed descriptions

A description in which every state can be named by a descriptor: no key is written twice, what
stands below `states` are states, and keys and ids can be told apart in a descriptor.

* `Draft.Addressable`: keys and ids that can be written in descriptors;
* `Draft.WellFormed`: well-formed descriptions;
* `Draft.Addressable.graph`: the graph of such a description has descriptors for all states.
-/

namespace Statechart

open Property

mutual

/-- Whether no object literal in an expression has two entries of the same name. -/
def Expr.namesDistinct : Expr → Bool
  | .object _ props => decide (props.filterMap (·.name)).Nodup && valuesNamesDistinct props
  | .array _ items => itemsNamesDistinct items
  | .member _ object _ => Expr.namesDistinct object
  | .call _ callee args => Expr.namesDistinct callee && itemsNamesDistinct args
  | _ => true

/-- Whether no object literal in some expressions has two entries of the same name. -/
def itemsNamesDistinct : List Expr → Bool
  | [] => true
  | item :: rest => Expr.namesDistinct item && itemsNamesDistinct rest

/-- Whether no object literal in the values of properties has two entries of the same name. -/
def valuesNamesDistinct : List (PropertyOf Expr) → Bool
  | [] => true
  | ⟨_, _, _, value⟩ :: rest => Expr.namesDistinct value && valuesNamesDistinct rest

end

theorem namesDistinct_of_mem {props : List Property} (h : valuesNamesDistinct props = true)
    {prop : Property} (hprop : prop ∈ props) : prop.value.namesDistinct = true := by
  induction props with
  | nil => exact absurd hprop List.not_mem_nil
  | cons first rest ih =>
    rw [valuesNamesDistinct, Bool.and_eq_true] at h
    rcases List.mem_cons.1 hprop with rfl | hprop
    · exact h.1
    · exact ih h.2 hprop

theorem Expr.namesDistinct_props? {expr : Expr} (h : expr.namesDistinct = true)
    {props : List Property} (hprops : expr.props? = some props) :
    (props.filterMap (·.name)).Nodup ∧
      ∀ {name value}, value? props name = some value → value.namesDistinct = true := by
  cases expr with
  | object origin inner =>
    cases hprops
    rw [namesDistinct, Bool.and_eq_true, decide_eq_true_eq] at h
    refine ⟨h.1, fun hvalue => ?_⟩
    obtain ⟨prop, hprop, rfl⟩ := Option.map_eq_some_iff.1 hvalue
    exact namesDistinct_of_mem h.2 (mem_of_prop? hprop).1
  | _ => cases hprops

namespace Draft

/-- A description whose keys and ids can be written in descriptors: keys are not empty, have no
    points and are not taken for ids, ids are given once and have no points, and the default
    name of the root is not given to another state. -/
structure Addressable (config : Expr) : Prop where
  keys : ∀ {path}, (stateProps? config path).isSome → ∀ key ∈ path, PlainKey key
  ids : ∀ {p q id}, idAt? config p = some id → idAt? config q = some id → p = q
  points : ∀ {p id}, idAt? config p = some id → '.' ∉ id.toList
  rootName : ∀ {p}, idAt? config p = some Graph.defaultRootId → p = []

/-- A well-formed description: an object literal, in which no object literal has two entries of
    the same name, every entry of a `states` that counts is a state with a name, and the states
    can be named by descriptors. -/
structure WellFormed (config : Expr) : Prop extends Addressable config where
  object : config.isObject = true
  names : config.namesDistinct = true
  entries : ∀ {path props states}, stateProps? config path = some props →
    (value? props "states").bind Expr.props? = some states →
    ∀ entry ∈ states, entry.name.isSome = true ∧ entry.value.isObject = true

variable {config : Expr}

theorem namesDistinct_stateProps? (h : config.namesDistinct = true) {path : StatePath}
    {props : List Property} (hprops : stateProps? config path = some props) {states : List Property}
    (hstates : (value? props "states").bind Expr.props? = some states) :
    (states.filterMap (·.name)).Nodup := by
  induction path generalizing config with
  | nil =>
    obtain ⟨value, hvalue, hstates⟩ := Option.bind_eq_some_iff.1 hstates
    exact (Expr.namesDistinct_props? ((Expr.namesDistinct_props? h hprops).2 hvalue) hstates).1
  | cons key path ih =>
    rw [stateProps?] at hprops
    obtain ⟨above, habove, hprops⟩ := Option.bind_eq_some_iff.1 hprops
    obtain ⟨siblings, hsiblings, hprops⟩ := Option.bind_eq_some_iff.1 hprops
    obtain ⟨value, hvalue, hsiblings⟩ := Option.bind_eq_some_iff.1 hsiblings
    obtain ⟨child, hchild, hprops⟩ := Option.bind_eq_some_iff.1 hprops
    have hdistinct := (Expr.namesDistinct_props? h habove).2 hvalue
    exact ih ((Expr.namesDistinct_props? hdistinct hsiblings).2 hchild) hprops

/-- A name is free where there is no state of that name. -/
theorem WellFormed.hasName_eq_false (h : WellFormed config) {path : StatePath}
    {props states : List Property} (hprops : stateProps? config path = some props)
    (hstates : (value? props "states").bind Expr.props? = some states) {name : String}
    (hfree : stateProps? config (path ++ [name]) = none) : hasName states name = false := by
  -- An entry of the name would be an object literal, and so a state.
  by_contra hname
  rw [Bool.not_eq_false, ← isSome_prop?, Option.isSome_iff_exists] at hname
  obtain ⟨entry, hentry⟩ := hname
  have hobject := (h.entries hprops hstates entry (mem_of_prop? hentry).1).2
  have hchild : childProps? props name = entry.value.props? := by
    rw [childProps?, hstates, Option.bind_some, value?, hentry]
    rfl
  obtain ⟨child, hvalue⟩ := Option.isSome_iff_exists.1 hobject
  rw [stateProps?_append, hprops, Option.bind_some, propsBelow?, hchild, hvalue] at hfree
  cases hfree

theorem SameStates.addressable {a b : Expr} (h : SameStates a b) (hb : Addressable b) :
    Addressable a where
  keys hpath := hb.keys (h.states _ ▸ hpath)
  ids hp hq := hb.ids (h.ids _ ▸ hp) (h.ids _ ▸ hq)
  points hp := hb.points (h.ids _ ▸ hp)
  rootName hp := hb.rootName (h.ids _ ▸ hp)

theorem SameStates.isObject {a b : Expr} (h : SameStates a b) : a.isObject = b.isObject :=
  h.states []

/-- The graph of an addressable description has descriptors for all states. -/
theorem Addressable.graph (h : Addressable config) (hconfig : config.isObject = true)
    (options setup : Option Expr) : (extract config options setup).graph.Addressable := by
  have hgraph := extract_wellFormed config options setup
  have hid : ∀ {i : NodeId} {id : String},
      (extract config options setup).graph.explicitId? i = some id →
      (extract config options setup).graph.At i ((extract config options setup).graph.pathOf i) ∧
        idAt? config ((extract config options setup).graph.pathOf i) = some id := by
    intro i id hi
    have hat := Graph.at_pathOf (Graph.lt_of_explicitId? hi)
    exact ⟨hat, (idAt_extract_iff options setup hconfig).1 ⟨i, hat, hi⟩⟩
  refine ⟨fun hat => ?_, fun i j id hi hj => ?_, fun hi => h.points (hid hi).2, fun hi => ?_⟩
  · exact h.keys ((has_extract_iff options setup hconfig).1 ⟨_, hat⟩)
  · have hpaths := h.ids (hid hi).2 (hid hj).2
    exact Graph.At.unique hgraph (hid hi).1 (hpaths ▸ (hid hj).1)
  · have hroot := h.rootName (hid hi).2
    exact Graph.At.unique hgraph (hroot ▸ (hid hi).1) (Graph.at_root hgraph)

/-! ## Deciding well-formedness -/

/-- The paths of the states of a description. -/
def statePaths (config : Expr) : List StatePath :=
  (infosOf config).map (·.path)

theorem mem_statePaths (hconfig : config.isObject = true) {path : StatePath} :
    path ∈ statePaths config ↔ (stateProps? config path).isSome := by
  obtain ⟨origin, props, rfl⟩ := Expr.exists_of_isObject hconfig
  rw [statePaths, List.mem_map, Option.isSome_iff_exists]
  constructor
  · rintro ⟨info, hinfo, rfl⟩
    obtain ⟨_, _, below, hbelow, -⟩ := mem_infosOf hinfo
    exact ⟨below, hbelow⟩
  · rintro ⟨below, hbelow⟩
    obtain ⟨_, _, hinfo⟩ := infoOf_mem_infosOf hbelow
    exact ⟨_, hinfo, path_infoOf _ _ _ _⟩

/-- The entries of the `states` of the state at a path. -/
def stateEntries (config : Expr) (path : StatePath) : List Property :=
  ((stateProps? config path).bind fun props => (value? props "states").bind Expr.props?).getD []

/-- Well-formedness, state by state. -/
theorem wellFormed_iff : WellFormed config ↔
    config.isObject = true ∧ config.namesDistinct = true ∧ ∀ path ∈ statePaths config,
      (∀ key ∈ path, PlainKey key) ∧
      (∀ other ∈ statePaths config, (idAt? config path).isSome →
        idAt? config path = idAt? config other → path = other) ∧
      (∀ id ∈ idAt? config path, '.' ∉ id.toList) ∧
      (idAt? config path = some Graph.defaultRootId → path = []) ∧
      ∀ entry ∈ stateEntries config path,
        entry.name.isSome = true ∧ entry.value.isObject = true := by
  constructor
  · intro h
    refine ⟨h.object, h.names, fun path hpath => ⟨?_, fun other _ hid heq => ?_, fun id hid => ?_,
      h.rootName, fun entry hentry => ?_⟩⟩
    · exact h.keys ((mem_statePaths h.object).1 hpath)
    · obtain ⟨id, hid⟩ := Option.isSome_iff_exists.1 hid
      exact h.ids hid (heq ▸ hid)
    · exact h.points hid
    · rw [stateEntries] at hentry
      cases hstates : (stateProps? config path).bind fun props =>
          (value? props "states").bind Expr.props? with
      | none => rw [hstates] at hentry; exact absurd hentry List.not_mem_nil
      | some states =>
        rw [hstates] at hentry
        obtain ⟨props, hprops, hstates⟩ := Option.bind_eq_some_iff.1 hstates
        exact h.entries hprops hstates entry hentry
  · rintro ⟨hobject, hnames, h⟩
    -- Ids are asked for at any path, but only those of states have one.
    have hmem : ∀ {path id}, idAt? config path = some id → path ∈ statePaths config := by
      intro path id hid
      obtain ⟨props, hprops, -⟩ := Option.bind_eq_some_iff.1 hid
      exact (mem_statePaths hobject).2 (by rw [hprops]; rfl)
    refine ⟨⟨fun hpath => ?_, fun hp hq => ?_, fun hp => ?_, fun hp => ?_⟩, hobject, hnames,
      fun {path props states} hprops hstates entry hentry => ?_⟩
    · exact (h _ ((mem_statePaths hobject).2 hpath)).1
    · exact (h _ (hmem hp)).2.1 _ (hmem hq) (by rw [hp]; rfl) (hp.trans hq.symm)
    · exact (h _ (hmem hp)).2.2.1 _ hp
    · exact (h _ (hmem hp)).2.2.2.1 hp
    · refine (h path ((mem_statePaths hobject).2 (by rw [hprops]; rfl))).2.2.2.2 entry ?_
      rw [stateEntries, hprops, Option.bind_some, hstates]
      exact hentry

instance (config : Expr) : Decidable (WellFormed config) :=
  decidable_of_iff _ wellFormed_iff.symm

end Draft

end Statechart
