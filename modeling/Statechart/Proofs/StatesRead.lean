import Mathlib.Data.List.Nodup
import Mathlib.Data.List.Pairwise
import Statechart.Proofs.StateLookup
import Statechart.Proofs.StateTrees

/-!
# The states that are read

Reading a description finds its states by following the entries that count, and so finds just
those that have properties at their paths.

* `StateTree.infos`: the states of a tree, parents first;
* `infoOf`: a state as it is read from its properties;
* `exists_of_mem_infos`, `infoOf_mem_infos`: the states that are read are those of the
  description;
* `nodup_paths_infos`: each path is read once.
-/

namespace Statechart

open Property Draft

/-! ## The states of a tree -/

mutual

/-- The states of a tree, parents first. -/
def StateTree.infos : StateTree → List StateInfo
  | .node info children => info :: infosOf children

/-- The states of some trees, parents first. -/
def StateTree.infosOf : List StateTree → List StateInfo
  | [] => []
  | tree :: rest => tree.infos ++ infosOf rest

end

theorem StateTree.infosOf_eq (trees : List StateTree) :
    infosOf trees = trees.flatMap StateTree.infos := by
  induction trees with
  | nil => rfl
  | cons tree rest ih => rw [infosOf, ih, List.flatMap_cons]

/-! ## Reading the states below a state -/

theorem Expr.exists_of_isObject {expr : Expr} (h : expr.isObject = true) :
    ∃ origin props, expr = .object origin props := by
  cases expr with
  | object origin props => exact ⟨origin, props, rfl⟩
  | _ => exact absurd h (by simp [isObject, props?])

variable (rootId : Option String)

/-- A state as it is read from its properties. -/
def infoOf (key : String) (path : StatePath) (span : Option Span) (props : List Property) :
    StateInfo :=
  (readStateInfo rootId key path span props).1

/-- The tree of an entry among states, if the entry is a state. -/
def childTree? (path : StatePath) (prop : Property) : Option StateTree :=
  prop.name.bind fun name =>
    if prop.value.isObject then some (readStateTree rootId name (path ++ [name]) prop.value).1
    else none

theorem readStateEntries_fst (path : StatePath) (entries : List Property) :
    (readStateEntries rootId path entries).1 =
      (effective entries).filterMap (childTree? rootId path) := by
  induction entries with
  | nil => rfl
  | cons prop entries ih =>
    obtain ⟨origin, key, keySpan, value⟩ := prop
    simp only [readStateEntries, effective, PropertyOf.name]
    cases hkey : key.name with
    | none =>
      dsimp only
      rw [List.filterMap_cons_none (by simp [childTree?, PropertyOf.name, hkey]), ih]
    | some name =>
      dsimp only
      split
      · exact ih
      · split
        · next hvalue =>
          rw [List.filterMap_cons_none, ih]
          rw [Bool.not_eq_true'] at hvalue
          simp [childTree?, PropertyOf.name, hkey, hvalue]
        · next hvalue =>
          rw [Bool.not_eq_true', Bool.not_eq_false] at hvalue
          rw [List.filterMap_cons_some, ih]
          simp [childTree?, PropertyOf.name, hkey, hvalue]

theorem readStates_fst (path : StatePath) (expr : Expr) :
    (readStates rootId path expr).1 =
      (effective (expr.props?.getD [])).filterMap (childTree? rootId path) := by
  cases expr with
  | object origin entries => exact readStateEntries_fst rootId path entries
  | _ => rfl

/-- The states below are read from the value of `states` that counts. -/
theorem readStatesOf_eq (path : StatePath) (props : List Property) :
    readStatesOf rootId path props =
      ((value? props "states").map (readStates rootId path)).getD ([], []) := by
  induction props with
  | nil => rfl
  | cons prop props ih =>
    obtain ⟨origin, key, keySpan, value⟩ := prop
    rw [readStatesOf]
    split
    · next h => rw [ih, value?, value?, prop?_of_hasName h]
    · next h =>
      rw [Bool.not_eq_true] at h
      have hnamed : PropertyOf.isNamed ⟨origin, key, keySpan, value⟩ "states"
          = (key.name == some "states") := rfl
      split
      · next hkey =>
        rw [value?, prop?_of_not_hasName h, hnamed, hkey]
        rfl
      · next hkey =>
        rw [ih, value?, value?, prop?_of_not_hasName h, prop?_eq_none h, hnamed, if_neg hkey]

theorem readStatesOf_fst (path : StatePath) (props : List Property) :
    (readStatesOf rootId path props).1 =
      (effective (((value? props "states").bind Expr.props?).getD [])).filterMap
        (childTree? rootId path) := by
  rw [readStatesOf_eq]
  cases value? props "states" with
  | none => rfl
  | some states => exact readStates_fst rootId path states

/-- The trees below a state. -/
def childTrees (path : StatePath) (props : List Property) : List StateTree :=
  (effective (((value? props "states").bind Expr.props?).getD [])).filterMap
    (childTree? rootId path)

theorem readStateTree_object (key : String) (path : StatePath) (origin : Origin)
    (props : List Property) :
    (readStateTree rootId key path (.object origin props)).1 =
      .node (infoOf rootId key path origin.span props) (childTrees rootId path props) := by
  rw [childTrees, ← readStatesOf_fst]
  rfl

variable {rootId}

/-- An entry is a state if it has a name and is an object. -/
theorem childTree?_eq_some {path : StatePath} {prop : Property} {tree : StateTree} :
    childTree? rootId path prop = some tree ↔ ∃ key origin child, prop.name = some key ∧
      prop.value = .object origin child ∧
      tree = .node (infoOf rootId key (path ++ [key]) origin.span child)
        (childTrees rootId (path ++ [key]) child) := by
  constructor
  · intro h
    obtain ⟨key, hkey, h⟩ := Option.bind_eq_some_iff.1 h
    split at h
    · next hobject =>
      obtain ⟨origin, child, hvalue⟩ := Expr.exists_of_isObject hobject
      rw [hvalue, readStateTree_object] at h
      exact ⟨key, origin, child, hkey, hvalue, (Option.some.inj h).symm⟩
    · cases h
  · rintro ⟨key, origin, child, hkey, hvalue, rfl⟩
    rw [childTree?, hkey, Option.bind_some, hvalue, readStateTree_object]
    rfl

/-- The trees below a state are those of its children. -/
theorem mem_childTrees {path : StatePath} {props : List Property} {tree : StateTree} :
    tree ∈ childTrees rootId path props ↔ ∃ key origin child,
      (∃ entries, (value? props "states").bind Expr.props? = some entries ∧
        value? entries key = some (.object origin child)) ∧
      tree = .node (infoOf rootId key (path ++ [key]) origin.span child)
        (childTrees rootId (path ++ [key]) child) := by
  rw [childTrees]
  cases hentries : (value? props "states").bind Expr.props? with
  | none => simp [effective]
  | some entries =>
    rw [Option.getD_some, List.mem_filterMap]
    constructor
    · rintro ⟨prop, hprop, htree⟩
      obtain ⟨key, origin, child, hkey, hvalue, rfl⟩ := childTree?_eq_some.1 htree
      refine ⟨key, origin, child, ⟨entries, rfl, ?_⟩, rfl⟩
      rw [value?, mem_effective_iff.1 ⟨hprop, hkey⟩, Option.map_some, hvalue]
    · rintro ⟨key, origin, child, ⟨_, heq, hchild⟩, rfl⟩
      obtain rfl := Option.some.inj heq
      obtain ⟨prop, hprop, hvalue⟩ := Option.map_eq_some_iff.1 hchild
      obtain ⟨hmem, hkey⟩ := mem_effective_iff.2 hprop
      exact ⟨prop, hmem, childTree?_eq_some.2 ⟨key, origin, child, hkey, hvalue, rfl⟩⟩

theorem childProps?_eq_some {props entries child : List Property} {key : String} {origin : Origin}
    (hentries : (value? props "states").bind Expr.props? = some entries)
    (hchild : value? entries key = some (.object origin child)) :
    childProps? props key = some child := by
  rw [childProps?, hentries, Option.bind_some, hchild]
  rfl

theorem exists_of_childProps? {props child : List Property} {key : String}
    (h : childProps? props key = some child) : ∃ entries origin,
      (value? props "states").bind Expr.props? = some entries ∧
        value? entries key = some (.object origin child) := by
  obtain ⟨entries, hentries, h⟩ := Option.bind_eq_some_iff.1 h
  obtain ⟨value, hvalue, h⟩ := Option.bind_eq_some_iff.1 h
  cases value <;> cases h
  exact ⟨entries, _, hentries, hvalue⟩

/-! ## All states -/

theorem sizeOf_value?_lt {props : List Property} {name : String} {value : Expr}
    (h : value? props name = some value) : sizeOf value < sizeOf props := by
  obtain ⟨prop, hprop, rfl⟩ := Option.map_eq_some_iff.1 h
  have hmem := List.sizeOf_lt_of_mem (mem_of_prop? hprop).1
  have hvalue := sizeOf_value_lt prop
  omega

theorem sizeOf_props?_lt {expr : Expr} {props : List Property} (h : expr.props? = some props) :
    sizeOf props < sizeOf expr := by
  cases expr <;> cases h
  simp only [Expr.object.sizeOf_spec]
  omega

theorem sizeOf_childProps?_lt {props child : List Property} {key : String}
    (h : childProps? props key = some child) : sizeOf child < sizeOf props := by
  obtain ⟨entries, hentries, h⟩ := Option.bind_eq_some_iff.1 h
  obtain ⟨states, hstates, hentries⟩ := Option.bind_eq_some_iff.1 hentries
  obtain ⟨value, hvalue, h⟩ := Option.bind_eq_some_iff.1 h
  have h₁ := sizeOf_value?_lt hstates
  have h₂ := sizeOf_props?_lt hentries
  have h₃ := sizeOf_value?_lt hvalue
  have h₄ := sizeOf_props?_lt h
  omega

variable (rootId) in
/-- The states at and below one with the given properties. -/
def infosBelow (key : String) (path : StatePath) (span : Option Span) (props : List Property) :
    List StateInfo :=
  (StateTree.node (infoOf rootId key path span props) (childTrees rootId path props)).infos

/-- The key of a state: the last of its path, or that of the state that the path starts from. -/
def keyOf (key : String) (path : StatePath) : String :=
  path.getLast?.getD key

theorem mem_infosBelow {key : String} {path : StatePath} {span : Option Span}
    {props : List Property} {info : StateInfo} :
    info ∈ infosBelow rootId key path span props ↔ info = infoOf rootId key path span props ∨
      ∃ tree ∈ childTrees rootId path props, info ∈ tree.infos := by
  rw [infosBelow, StateTree.infos, StateTree.infosOf_eq, List.mem_cons, List.mem_flatMap]

/-- What is read is a state of the description. -/
theorem exists_of_mem_infosBelow {key : String} {path : StatePath} {span : Option Span}
    {props : List Property} {info : StateInfo} (h : info ∈ infosBelow rootId key path span props) :
    ∃ rest below span', propsBelow? props rest = some below ∧
      info = infoOf rootId (keyOf key rest) (path ++ rest) span' below := by
  -- By the size of the properties: a state below is read from smaller ones.
  rcases mem_infosBelow.1 h with rfl | ⟨tree, htree, h⟩
  · exact ⟨[], props, span, rfl, by rw [List.append_nil]; rfl⟩
  · obtain ⟨name, origin, child, ⟨entries, hentries, hchild⟩, rfl⟩ := mem_childTrees.1 htree
    have hchild := childProps?_eq_some hentries hchild
    have hsize := sizeOf_childProps?_lt hchild
    obtain ⟨rest, below, span', hbelow, rfl⟩ := exists_of_mem_infosBelow h
    refine ⟨name :: rest, below, span', ?_, ?_⟩
    · rw [propsBelow?, hchild]
      exact hbelow
    · rw [keyOf, keyOf, List.getLast?_cons, List.append_assoc]
      rfl
termination_by sizeOf props

/-- Each state of the description is read. -/
theorem infoOf_mem_infosBelow (key : String) (path : StatePath) (span : Option Span)
    {props below : List Property} {rest : StatePath} (h : propsBelow? props rest = some below) :
    ∃ span', infoOf rootId (keyOf key rest) (path ++ rest) span' below
      ∈ infosBelow rootId key path span props := by
  induction rest generalizing props key path span with
  | nil =>
    cases h
    exact ⟨span, mem_infosBelow.2 (.inl (by rw [List.append_nil]; rfl))⟩
  | cons name rest ih =>
    rw [propsBelow?] at h
    obtain ⟨child, hchild, h⟩ := Option.bind_eq_some_iff.1 h
    obtain ⟨entries, origin, hentries, hvalue⟩ := exists_of_childProps? hchild
    obtain ⟨span', hinfo⟩ := ih name (path ++ [name]) origin.span h
    refine ⟨span', mem_infosBelow.2 (.inr ⟨_, mem_childTrees.2 ⟨name, origin, child,
      ⟨entries, hentries, hvalue⟩, rfl⟩, ?_⟩)⟩
    rw [keyOf, List.getLast?_cons]
    rw [keyOf, List.append_assoc] at hinfo
    exact hinfo

theorem path_infoOf (key : String) (path : StatePath) (span : Option Span)
    (props : List Property) : (infoOf rootId key path span props).path = path := rfl

/-- Each path is read once. -/
theorem nodup_paths_infosBelow {key : String} {path : StatePath} {span : Option Span}
    {props : List Property} :
    ((infosBelow rootId key path span props).map (·.path)).Nodup := by
  rw [infosBelow, StateTree.infos, StateTree.infosOf_eq, List.map_cons, List.nodup_cons,
    List.map_flatMap, List.nodup_flatMap]
  have hstarts : ∀ {name origin child p},
      p ∈ (StateTree.node (infoOf rootId name (path ++ [name]) origin child)
        (childTrees rootId (path ++ [name]) child)).infos.map (·.path) →
      ∃ rest, p = path ++ name :: rest := by
    intro name origin child p hp
    obtain ⟨info, hinfo, rfl⟩ := List.mem_map.1 hp
    obtain ⟨rest, below, span', -, rfl⟩ := exists_of_mem_infosBelow hinfo
    exact ⟨rest, by rw [path_infoOf, List.append_assoc]; rfl⟩
  refine ⟨fun hmem => ?_, fun tree htree => ?_, ?_⟩
  · obtain ⟨tree, htree, hmem⟩ := List.mem_flatMap.1 hmem
    obtain ⟨name, origin, child, -, rfl⟩ := mem_childTrees.1 htree
    obtain ⟨rest, hrest⟩ := hstarts hmem
    rw [path_infoOf] at hrest
    exact absurd hrest (by simp)
  · obtain ⟨name, origin, child, ⟨entries, hentries, hchild⟩, rfl⟩ := mem_childTrees.1 htree
    have hsize := sizeOf_childProps?_lt (childProps?_eq_some hentries hchild)
    exact nodup_paths_infosBelow
  · rw [childTrees, List.pairwise_filterMap]
    have hnames := nodup_names_effective (((value? props "states").bind Expr.props?).getD [])
    rw [List.Nodup, List.pairwise_filterMap] at hnames
    refine hnames.imp fun {a b} hab tree htree tree' htree' => ?_
    obtain ⟨name, origin, child, hname, -, rfl⟩ := childTree?_eq_some.1 htree
    obtain ⟨name', origin', child', hname', -, rfl⟩ := childTree?_eq_some.1 htree'
    intro p hp hp'
    obtain ⟨rest, rfl⟩ := hstarts hp
    obtain ⟨rest', hrest'⟩ := hstarts hp'
    have hcons := List.append_cancel_left hrest'
    exact hab name hname name' hname' (List.cons.inj hcons).1
termination_by sizeOf props

end Statechart
