import Mathlib.Data.String.Basic
import Statechart.Proofs.Walks

/-!
# Shadowed entries

An entry of an object literal is shadowed if a later one has its name. Entries that are shadowed
may be dropped, wherever they are in a description: what is read of it stays the same, and so do
the problems that are met.

* `Expr.unshadowed`: an expression without them;
* `prop?_unshadowedProps`, `effective_unshadowedProps`: the entries that count are left;
* `datum_unshadowed`: the value of a literal;
* `extract_unshadowed`: the graph of a description, and the problems with it.
-/

namespace Statechart

open Property

/-! ## Dropping shadowed entries -/

namespace Expr

mutual

/-- The expression without the entries of objects that are shadowed by later ones. -/
def unshadowed : Expr → Expr
  | object origin props => object origin (unshadowedProps props)
  | array origin items => array origin (unshadowedItems items)
  | member origin owner property => member origin (unshadowed owner) property
  | call origin callee args => call origin (unshadowed callee) (unshadowedItems args)
  | expr => expr

/-- The items of a list, without shadowed entries in them. -/
def unshadowedItems : List Expr → List Expr
  | [] => []
  | item :: rest => unshadowed item :: unshadowedItems rest

/-- The entries that are not shadowed, without shadowed entries in their values. -/
def unshadowedProps : List (PropertyOf Expr) → List (PropertyOf Expr)
  | [] => []
  | ⟨origin, key, keySpan, value⟩ :: rest =>
    if key.name.any (hasName rest) then unshadowedProps rest
    else ⟨origin, key, keySpan, unshadowed value⟩ :: unshadowedProps rest

end

theorem unshadowedItems_eq (items : List Expr) : unshadowedItems items = items.map unshadowed := by
  induction items with
  | nil => rfl
  | cons item items ih => rw [unshadowedItems, ih, List.map_cons]

end Expr

open Statechart.Expr

/-- An entry without shadowed entries in its value. -/
def Property.unshadowed (prop : Property) : Property :=
  { prop with value := prop.value.unshadowed }

theorem name_unshadowed (prop : Property) : prop.unshadowed.name = prop.name :=
  rfl

theorem unshadowedProps_eq (props : List Property) :
    unshadowedProps props = (effective props).map Property.unshadowed := by
  induction props with
  | nil => rfl
  | cons prop props ih =>
    obtain ⟨origin, key, keySpan, value⟩ := prop
    rw [unshadowedProps, effective, PropertyOf.name]
    cases key.name with
    | none => rw [ih]; rfl
    | some name =>
      cases hname : hasName props name with
      | true => simp [hname, ih]
      | false => simp [hname, ih, Property.unshadowed]

/-! ## The entries that are left -/

section

variable (props : List Property) (name : String)

@[simp]
theorem prop?_unshadowedProps :
    prop? (unshadowedProps props) name = (prop? props name).map Property.unshadowed := by
  rw [unshadowedProps_eq, prop?_map name_unshadowed, prop?_effective]

@[simp]
theorem value?_unshadowedProps :
    value? (unshadowedProps props) name = (value? props name).map Expr.unshadowed := by
  rw [value?, prop?_unshadowedProps, value?, Option.map_map, Option.map_map]
  rfl

@[simp]
theorem hasName_unshadowedProps : hasName (unshadowedProps props) name = hasName props name := by
  rw [← isSome_prop?, prop?_unshadowedProps, Option.isSome_map, isSome_prop?]

@[simp]
theorem effective_unshadowedProps :
    effective (unshadowedProps props) = (effective props).map Property.unshadowed := by
  rw [unshadowedProps_eq, effective_map name_unshadowed, effective_effective]

end

/-! ## The parts of an expression -/

namespace Expr

@[simp]
theorem origin_unshadowed (expr : Expr) : expr.unshadowed.origin = expr.origin := by
  cases expr <;> rfl

@[simp]
theorem span_unshadowed (expr : Expr) : expr.unshadowed.span = expr.span :=
  congrArg Origin.span (origin_unshadowed expr)

@[simp]
theorem text?_unshadowed (expr : Expr) : expr.unshadowed.text? = expr.text? := by
  cases expr <;> rfl

@[simp]
theorem props?_unshadowed (expr : Expr) :
    expr.unshadowed.props? = expr.props?.map unshadowedProps := by
  cases expr <;> rfl

@[simp]
theorem items?_unshadowed (expr : Expr) :
    expr.unshadowed.items? = expr.items?.map (List.map unshadowed) := by
  cases expr with
  | array origin items => exact congrArg some (unshadowedItems_eq items)
  | _ => rfl

@[simp]
theorem isObject_unshadowed (expr : Expr) : expr.unshadowed.isObject = expr.isObject := by
  cases expr <;> rfl

end Expr

/-! ## Values of literals -/

theorem textLt_iff {a b : String} : textLt a b = true ↔ a < b :=
  decide_eq_true_iff

section

variable {α : Type} {name other : String} (value value' : α) (fields : List (String × α))

theorem insertField_cons_of_lt {key : String} (h : name < key) (old : α) :
    insertField name value ((key, old) :: fields) = (name, value) :: (key, old) :: fields := by
  rw [insertField, beq_false_of_ne (ne_of_lt h), if_neg Bool.false_ne_true, if_pos (textLt_iff.2 h)]

theorem insertField_cons_of_gt {key : String} (h : key < name) (old : α) :
    insertField name value ((key, old) :: fields) =
      (key, old) :: insertField name value fields := by
  rw [insertField, beq_false_of_ne (ne_of_gt h), if_neg Bool.false_ne_true,
    if_neg (textLt_iff.not.2 (lt_asymm h))]

theorem insertField_cons_self (old : α) :
    insertField name value ((name, old) :: fields) = (name, value) :: fields := by
  rw [insertField, beq_self_eq_true, if_pos rfl]

/-- Fields of different names can be put in in any order. -/
theorem insertField_comm_of_lt (h : name < other) :
    insertField name value (insertField other value' fields) =
      insertField other value' (insertField name value fields) := by
  induction fields with
  | nil =>
    change insertField name value [(other, value')] = insertField other value' [(name, value)]
    rw [insertField_cons_of_lt _ _ h, insertField_cons_of_gt _ _ h]
    rfl
  | cons field fields ih =>
    obtain ⟨key, old⟩ := field
    rcases lt_trichotomy other key with hother | rfl | hother
    · have hname := h.trans hother
      rw [insertField_cons_of_lt _ _ hother, insertField_cons_of_lt _ _ h,
        insertField_cons_of_lt _ _ hname, insertField_cons_of_gt _ _ h,
        insertField_cons_of_lt _ _ hother]
    · rw [insertField_cons_self, insertField_cons_of_lt _ _ h, insertField_cons_of_lt _ _ h,
        insertField_cons_of_gt _ _ h, insertField_cons_self]
    · rw [insertField_cons_of_gt _ _ hother]
      rcases lt_trichotomy name key with hname | rfl | hname
      · rw [insertField_cons_of_lt _ _ hname, insertField_cons_of_lt _ _ hname,
          insertField_cons_of_gt _ _ h, insertField_cons_of_gt _ _ hother]
      · rw [insertField_cons_self, insertField_cons_self, insertField_cons_of_gt _ _ h]
      · rw [insertField_cons_of_gt _ _ hname, insertField_cons_of_gt _ _ hname, ih,
          insertField_cons_of_gt _ _ hother]

/-- Of two fields of a name, the one that is put in later stays. -/
theorem insertField_insertField_self :
    insertField name value (insertField name value' fields) = insertField name value fields := by
  induction fields with
  | nil => exact insertField_cons_self value [] value'
  | cons field fields ih =>
    obtain ⟨key, old⟩ := field
    rcases lt_trichotomy name key with hname | rfl | hname
    · rw [insertField_cons_of_lt _ _ hname, insertField_cons_of_lt _ _ hname, insertField_cons_self]
    · rw [insertField_cons_self, insertField_cons_self, insertField_cons_self]
    · rw [insertField_cons_of_gt _ _ hname, insertField_cons_of_gt _ _ hname, ih,
        insertField_cons_of_gt _ _ hname]

theorem insertField_comm (hne : name ≠ other) :
    insertField name value (insertField other value' fields) =
      insertField other value' (insertField name value fields) := by
  rcases lt_or_gt_of_ne hne with h | h
  · exact insertField_comm_of_lt value value' fields h
  · exact (insertField_comm_of_lt value' value fields h).symm

end

/-- A field that is put in again by a later entry could be left out. -/
theorem fieldData_insertField {props : List Property} {name : String}
    (h : hasName props name = true) (value : Datum) (fields : List (String × Datum)) :
    fieldData (insertField name value fields) props = fieldData fields props := by
  induction props generalizing fields with
  | nil => cases h
  | cons prop props ih =>
    obtain ⟨origin, key, keySpan, value'⟩ := prop
    rw [hasName_cons, Bool.or_eq_true, isNamed_iff, PropertyOf.name] at h
    rw [fieldData, fieldData]
    cases hkey : key.name with
    | none => exact ih (h.resolve_left (by simp [hkey])) fields
    | some other =>
      dsimp only
      by_cases heq : name = other
      · rw [← heq, insertField_insertField_self]
      · rw [insertField_comm _ _ _ (Ne.symm heq)]
        exact ih (h.resolve_left (by simpa [hkey] using Ne.symm heq)) _

mutual

/-- A shadowed entry is not part of the value of a literal. -/
theorem datum_unshadowed : ∀ expr : Expr, expr.unshadowed.datum = expr.datum
  | .object _ props => congrArg Datum.record (fieldData_unshadowed props [])
  | .array _ items => congrArg Datum.list (itemData_unshadowed items)
  | .str _ _ | .template _ _ | .number _ _ | .bool _ _ | .null _ | .undefined _ | .ident _ _
  | .member _ _ _ | .call _ _ _ | .function _ | .other _ _ => rfl

theorem itemData_unshadowed : ∀ items : List Expr,
    itemData (unshadowedItems items) = itemData items
  | [] => rfl
  | item :: rest => by
    rw [unshadowedItems, itemData, itemData, datum_unshadowed item, itemData_unshadowed rest]

theorem fieldData_unshadowed : ∀ (props : List Property) (fields : List (String × Datum)),
    fieldData fields (unshadowedProps props) = fieldData fields props
  | [], _ => rfl
  | ⟨origin, key, keySpan, value⟩ :: rest, fields => by
    rw [unshadowedProps, fieldData]
    cases hkey : key.name with
    | none =>
      rw [Option.any_none, if_neg Bool.false_ne_true, fieldData, hkey]
      exact fieldData_unshadowed rest fields
    | some name =>
      rw [Option.any_some]
      split
      -- A shadowed field is overwritten further on.
      · next hname =>
        dsimp only
        rw [fieldData_insertField hname]
        exact fieldData_unshadowed rest fields
      · rw [fieldData, hkey, datum_unshadowed value]
        exact fieldData_unshadowed rest _

end

/-! ## References -/

theorem ofProps?_unshadowed (props : List Property) :
    Reference.ofProps? (unshadowedProps props) = Reference.ofProps? props := by
  simp [Reference.ofProps?, Function.comp_def, datum_unshadowed, Option.bind_map]

theorem calleeName?_unshadowed (expr : Expr) :
    Shape.calleeName? expr.unshadowed = Shape.calleeName? expr := by
  cases expr <;> rfl

theorem call?_unshadowed (expr : Expr) :
    Shape.call? expr.unshadowed =
      (Shape.call? expr).map fun (name, args) => (name, unshadowedItems args) := by
  cases expr with
  | call origin callee args =>
    simp [Shape.call?, Expr.unshadowed, calleeName?_unshadowed, Function.comp_def]
  | _ => rfl

theorem isCode_unshadowed (expr : Expr) :
    Reference.isCode expr.unshadowed = Reference.isCode expr := by
  cases expr <;> rfl

/-- The first value is that of the first shape with one. -/
theorem value?_oneOf {α : Type} (arms : List (Shape α)) (expr : Expr) :
    (Shape.oneOf arms).value? expr = arms.findSome? (·.value? expr) := by
  rw [Shape.value?]
  split
  · rfl
  · next hfits =>
    refine (List.findSome?_eq_none_iff.2 fun arm harm => ?_).symm
    rw [Shape.value?, if_neg fun h => hfits (List.any_eq_true.2 ⟨arm, harm, h⟩)]

theorem value?_shape_unshadowed (kind : BlockKind) (expr : Expr) :
    (Reference.shape kind).value? expr.unshadowed = (Reference.shape kind).value? expr := by
  rw [Reference.shape, value?_oneOf, value?_oneOf]
  simp only [List.findSome?_cons, List.findSome?_nil, Shape.value?, Shape.map, Shape.andThen,
    Shape.text, Shape.object, Shape.callOf, Reference.code, text?_unshadowed, isObject_unshadowed,
    props?_unshadowed, call?_unshadowed, isCode_unshadowed, origin_unshadowed, Option.bind_map,
    Option.any_map, Function.comp_def, ofProps?_unshadowed]

/-! ## Lists -/

/-- The items of a one-or-many value are read one by one. -/
theorem readOneOrMany_eq {α : Type} (shape : Shape α) (expr : Expr) (problem : Expr → Problem) :
    readOneOrMany shape expr problem =
      readMany ((itemsOf expr).map fun item => (item, shape.value? item)) problem := by
  simp only [readOneOrMany, Shape.oneOrMany, itemsOf]
  cases expr.items? <;> rfl

theorem itemsOf_unshadowed (expr : Expr) :
    itemsOf expr.unshadowed = (itemsOf expr).map Expr.unshadowed := by
  rw [itemsOf, items?_unshadowed, itemsOf]
  cases expr.items? <;> rfl

theorem readOneOrMany_unshadowed {α : Type} {shape : Shape α}
    (hshape : ∀ expr, shape.value? expr.unshadowed = shape.value? expr) {problem : Expr → Problem}
    (hproblem : ∀ expr, problem expr.unshadowed = problem expr) (expr : Expr) :
    readOneOrMany shape expr.unshadowed problem = readOneOrMany shape expr problem := by
  simp only [readOneOrMany_eq, itemsOf_unshadowed, readMany, List.map_map, List.zipIdx_map,
    List.filterMap_map, Function.comp_def, hshape, hproblem, Prod.map]

/-! ## Readings of a property list -/

section

variable (path : StatePath) (props : List Property)

theorem keyProblems_unshadowed (known : List String) :
    keyProblems known path (unshadowedProps props) = keyProblems known path props := by
  rw [keyProblems, keyProblems, effective_unshadowedProps, List.filterMap_map]
  rfl

theorem pickNewer_unshadowed (old new : String) :
    pickNewer path (unshadowedProps props) old new =
      ((pickNewer path props old new).1.map Property.unshadowed,
        (pickNewer path props old new).2) := by
  rw [pickNewer, pickNewer, prop?_unshadowedProps, prop?_unshadowedProps]
  cases prop? props old <;> cases prop? props new <;> rfl

theorem readProperty_unshadowed {α : Type} (kind : ProblemKind) (name : String)
    {read : Expr → Option α} (hread : ∀ expr, read expr.unshadowed = read expr)
    (prop : Option Property) :
    readProperty kind path name read (prop.map Property.unshadowed) =
      readProperty kind path name read prop := by
  cases prop with
  | none => rfl
  | some prop =>
    simp only [readProperty, Option.map_some, Property.unshadowed, hread, span_unshadowed]

theorem parallelType?_unshadowed (expr : Expr) :
    parallelType? expr.unshadowed = parallelType? expr := by
  cases expr <;> rfl

theorem metaEntries?_unshadowed (expr : Expr) :
    metaEntries? expr.unshadowed = metaEntries? expr := by
  simp [metaEntries?, Function.comp_def, List.filterMap_map, Property.unshadowed,
    PropertyOf.name, datum_unshadowed]

theorem initialTarget?_unshadowed (expr : Expr) :
    initialTarget? expr.unshadowed = initialTarget? expr := by
  cases expr with
  | object origin props =>
    rw [Expr.unshadowed, initialTarget?, value?_unshadowedProps, Option.bind_map]
    exact Option.bind_congr fun target _ => text?_unshadowed target
  | _ => rfl

theorem value?_text_unshadowed (expr : Expr) :
    Shape.text.value? expr.unshadowed = Shape.text.value? expr := by
  change (if expr.unshadowed.text?.isSome then expr.unshadowed.text? else none) = _
  rw [text?_unshadowed]
  rfl

theorem readAttributes_unshadowed :
    readAttributes path (unshadowedProps props) = readAttributes path props := by
  have hfield {α : Type} (name : String) (read : Expr → Option α)
      (hread : ∀ expr, read expr.unshadowed = read expr) :
      readProperty .stateProperty path name read
          ((prop? props name).map Property.unshadowed) =
        readProperty .stateProperty path name read (prop? props name) :=
    readProperty_unshadowed path .stateProperty name hread _
  have htype := hfield "type" (fun e => e.text?.bind StateType.ofKeyword?)
    fun expr => by rw [text?_unshadowed]
  have hhistory := hfield "history" (fun e => e.text?.bind HistoryKind.ofName?)
    fun expr => by rw [text?_unshadowed]
  simp only [readAttributes, prop?_unshadowedProps, Option.isSome_map, htype, hhistory,
    hfield "id" _ text?_unshadowed, hfield "description" _ text?_unshadowed,
    hfield "parallel" _ parallelType?_unshadowed, hfield "initial" _ initialTarget?_unshadowed,
    hfield "meta" _ metaEntries?_unshadowed]
  cases prop? props "tags" with
  | none => rfl
  | some prop =>
    simp only [Option.map_some, Property.unshadowed]
    rw [readOneOrMany_unshadowed value?_text_unshadowed fun expr => by rw [span_unshadowed]]

theorem readActions_unshadowed (kind : ProblemKind) (property : String) (expr : Expr) :
    readActions kind path property expr.unshadowed = readActions kind path property expr :=
  readOneOrMany_unshadowed (value?_shape_unshadowed .action)
    (fun item => by rw [span_unshadowed]) expr

theorem readTargets_unshadowed (expr : Expr) :
    readTargets path expr.unshadowed = readTargets path expr := by
  cases expr with
  | array origin items =>
    simp only [readTargets, Expr.unshadowed, unshadowedItems_eq, List.filterMap_map,
      List.filter_map, List.map_map, Function.comp_def, text?_unshadowed, span_unshadowed]
  | _ => rfl

theorem readInternal_unshadowed (prop : Option Property) :
    readInternal path (prop.map Property.unshadowed) = readInternal path prop := by
  cases prop with
  | none => rfl
  | some prop =>
    have htruth : ∀ expr : Expr, Shape.truth? expr.unshadowed = Shape.truth? expr :=
      fun expr => by cases expr <;> rfl
    have hread := readProperty_unshadowed path .transitionProperty (prop.name.getD "internal")
      htruth (some prop)
    rw [Option.map_some] at hread
    rw [Option.map_some, readInternal, readInternal, name_unshadowed, hread]

theorem bind_name_unshadowed (prop : Option Property) :
    (prop.map Property.unshadowed).bind PropertyOf.name = prop.bind PropertyOf.name := by
  cases prop <;> rfl

theorem readTransitionObject_unshadowed (base : Transition) :
    readTransitionObject path base (unshadowedProps props) =
      readTransitionObject path base props := by
  simp only [readTransitionObject, keyProblems_unshadowed, prop?_unshadowedProps,
    pickNewer_unshadowed, bind_name_unshadowed, readInternal_unshadowed,
    readProperty_unshadowed path .transitionProperty _ (value?_shape_unshadowed .guard),
    readProperty_unshadowed path .transitionProperty _ text?_unshadowed]
  cases prop? props "target" <;> cases prop? props "actions" <;>
    simp only [Option.map_none, Option.map_some, Property.unshadowed, readTargets_unshadowed,
      readActions_unshadowed]

theorem readTransition_unshadowed (slot : Slot) (trigger : Trigger) (item : Expr) (index : Nat) :
    readTransition path slot trigger item.unshadowed index =
      readTransition path slot trigger item index := by
  cases item with
  | object origin props =>
    exact congrArg (fun read : Transition × List Problem => (some read.1, read.2))
      (readTransitionObject_unshadowed path props
        { path := ⟨slot, index⟩, trigger, span := origin.span })
  | _ => rfl

theorem readSlot_unshadowed (slot : Slot) (trigger : Trigger) (expr : Expr) :
    readSlot path slot trigger expr.unshadowed = readSlot path slot trigger expr := by
  simp only [readSlot, itemsOf_unshadowed, List.zipIdx_map, List.map_map, Function.comp_def,
    Prod.map, id, readTransition_unshadowed]

theorem readSlotProperty_unshadowed (slot : Slot) (trigger : Trigger) (expr : Option Expr) :
    readSlotProperty path slot trigger (expr.map Expr.unshadowed) =
      readSlotProperty path slot trigger expr := by
  cases expr with
  | none => rfl
  | some expr => exact readSlot_unshadowed path slot trigger expr

theorem readSlotMap_unshadowed (property : String) (slot : String → Slot)
    (trigger : String → Trigger) (prop : Option Property) :
    readSlotMap path property slot trigger (prop.map Property.unshadowed) =
      readSlotMap path property slot trigger prop := by
  cases prop with
  | none => rfl
  | some prop =>
    simp only [readSlotMap, Option.map_some, Property.unshadowed, props?_unshadowed,
      span_unshadowed]
    cases prop.value.props? with
    | none => rfl
    | some entries =>
      simp only [Option.map_some, effective_unshadowedProps, List.map_map, Function.comp_def,
        Property.unshadowed, readSlot_unshadowed]
      rfl

theorem readInvocation_unshadowed (stateId : String) (item : Expr) (index : Nat) :
    readInvocation stateId path item.unshadowed index =
      readInvocation stateId path item index := by
  simp only [readInvocation, props?_unshadowed, span_unshadowed]
  cases item.props? with
  | none => rfl
  | some props =>
    simp only [Option.map_some, prop?_unshadowedProps, value?_unshadowedProps, Option.bind_map,
      Function.comp_def, value?_shape_unshadowed, span_unshadowed, readSlotProperty_unshadowed,
      readProperty_unshadowed path .stateProperty _ text?_unshadowed]

theorem readInvocations_unshadowed (stateId : String) (prop : Option Property) :
    readInvocations stateId path (prop.map Property.unshadowed) =
      readInvocations stateId path prop := by
  cases prop with
  | none => rfl
  | some prop =>
    simp only [readInvocations, Option.map_some, Property.unshadowed, itemsOf_unshadowed,
      List.zipIdx_map, List.map_map, Function.comp_def, Prod.map, id, readInvocation_unshadowed]

theorem readStateActions_unshadowed (old new : String) :
    readStateActions path (unshadowedProps props) old new =
      readStateActions path props old new := by
  simp only [readStateActions, pickNewer_unshadowed]
  cases (pickNewer path props old new).1 with
  | none => rfl
  | some prop => simp only [Option.map_some, Property.unshadowed, readActions_unshadowed]

theorem readStateInfo_unshadowed (rootId : Option String) (key : String) (span : Option Span) :
    readStateInfo rootId key path span (unshadowedProps props) =
      readStateInfo rootId key path span props := by
  simp only [readStateInfo, keyProblems_unshadowed, readAttributes_unshadowed,
    readStateActions_unshadowed, prop?_unshadowedProps, value?_unshadowedProps,
    readInvocations_unshadowed, readSlotMap_unshadowed, readSlotProperty_unshadowed]

end

/-! ## States -/

mutual

theorem readStateTree_unshadowed (rootId : Option String) (key : String) (path : StatePath) :
    ∀ expr : Expr, readStateTree rootId key path expr.unshadowed =
      readStateTree rootId key path expr
  | .object origin props => by
    rw [Expr.unshadowed, readStateTree, readStateTree, readStateInfo_unshadowed,
      readStatesOf_unshadowed rootId path props]
  | .array .. | .str .. | .template .. | .number .. | .bool .. | .null _ | .undefined _
  | .ident .. | .member .. | .call .. | .function _ | .other .. => rfl

theorem readStatesOf_unshadowed (rootId : Option String) (path : StatePath) :
    ∀ props : List (PropertyOf Expr), readStatesOf rootId path (unshadowedProps props) =
      readStatesOf rootId path props
  | [] => rfl
  | ⟨origin, key, keySpan, value⟩ :: rest => by
    have hrest := readStatesOf_unshadowed rootId path rest
    rw [unshadowedProps, readStatesOf]
    split
    · next hshadowed =>
      obtain ⟨name, hkey, hname⟩ := (Option.any_eq_true _ _).1 hshadowed
      rw [hrest]
      split
      · rfl
      · next hstates =>
        have hne : key.name ≠ some "states" := fun heq => by
          rw [Option.some.inj (hkey.symm.trans heq)] at hname
          exact hstates hname
        rw [if_neg fun h => hne (eq_of_beq h)]
    · rw [readStatesOf, hasName_unshadowedProps, hrest, readStates_unshadowed rootId path value]

theorem readStates_unshadowed (rootId : Option String) (path : StatePath) :
    ∀ expr : Expr, readStates rootId path expr.unshadowed = readStates rootId path expr
  | .object _ entries => by
    rw [Expr.unshadowed, readStates, readStates, readStateEntries_unshadowed rootId path entries]
  | .array .. | .str .. | .template .. | .number .. | .bool .. | .null _ | .undefined _
  | .ident .. | .member .. | .call .. | .function _ | .other .. => rfl

theorem readStateEntries_unshadowed (rootId : Option String) (path : StatePath) :
    ∀ entries : List (PropertyOf Expr), readStateEntries rootId path (unshadowedProps entries) =
      readStateEntries rootId path entries
  | [] => rfl
  | ⟨origin, key, keySpan, value⟩ :: rest => by
    have hrest := readStateEntries_unshadowed rootId path rest
    rw [unshadowedProps, readStateEntries]
    cases hkey : key.name with
    | none =>
      rw [Option.any_none, if_neg Bool.false_ne_true, readStateEntries, hkey, hrest]
    | some name =>
      rw [Option.any_some]
      dsimp only
      split
      · exact hrest
      · next hname =>
        rw [readStateEntries, hkey, hrest]
        simp only [hasName_unshadowedProps, if_neg hname, isObject_unshadowed, span_unshadowed,
          readStateTree_unshadowed rootId name (path ++ [name]) value]

end

/-- Leaving out shadowed entries, all through a description, changes neither the graph nor the
    problems. -/
theorem extract_unshadowed (config : Expr) (options setup : Option Expr) :
    extract config.unshadowed options setup = extract config options setup := by
  have hroot : rootIdOf config.unshadowed = rootIdOf config := by
    cases config with
    | object origin props =>
      rw [Expr.unshadowed, rootIdOf_object, rootIdOf_object, value?_unshadowedProps,
        Option.bind_map]
      exact Option.bind_congr fun id _ => text?_unshadowed id
    | _ => rfl
  have hread : readMachine config.unshadowed = readMachine config := by
    rw [readMachine, readMachine, readStateTree_unshadowed, hroot]
  rw [extract_eq, extract_eq, build, build, hread]

end Statechart
