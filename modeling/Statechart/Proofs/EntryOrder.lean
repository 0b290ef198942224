import Mathlib.Data.List.Forall2
import Statechart.Proofs.ShadowedEntries
import Statechart.Proofs.StatesRead

/-!
# The order of entries

The entries of a state, of a transition and of an invocation may be written in any order: the
keywords are looked up by their names, in an order of their own. So the order in which they are
written shows in nothing but the order of the problems. The order of the entries in a map from
names to states or to transitions does show, and so does the order of the items of an array.

* `Role`: what stands at a place of a description;
* `Reordered`: a description with entries in other orders, wherever these are free;
* `ReadAlike`, `Role.SameReading`: what is the same of the readings of two expressions;
* `Reordered.sameReading`: expressions that differ in the order of entries are read alike;
* `extract_rearranged`: the graph of a description, and the problems with it.
-/

namespace Statechart

open Property

/-! ## Orders of entries -/

/-- What stands at a place of a description: a state, a map from names to states or to slots,
    the transitions of a slot, the invocations of a state, or anything else. -/
inductive Role where
  | state
  | states
  | slotMap
  | slot
  | invocations
  | plain

namespace Role

/-- What stands under a name. -/
def below : Role → Option String → Role
  | state, some "states" => states
  | state, some "on" | state, some "after" => slotMap
  | state, some "always" | state, some "onDone" => slot
  | state, some "invoke" => invocations
  | states, some _ => state
  | slotMap, some _ => slot
  | invocations, some "onDone" | invocations, some "onError" => slot
  | _, _ => plain

/-- Whether the entries of an object may be written in any order. -/
def isFree : Role → Bool
  | state | slot | invocations => true
  | _ => false

/-- Whether several may be written, as an array. -/
def isList : Role → Bool
  | slot | invocations => true
  | _ => false

end Role

/-- The second description is the first one with the entries that count in other orders, in
    states, transitions and invocations. -/
inductive Reordered : Role → Expr → Expr → Prop
  | refl {role : Role} (expr : Expr) : Reordered role expr expr
  | trans {role : Role} {a b c : Expr} :
      Reordered role a b → Reordered role b c → Reordered role a c
  | order {role : Role} {origin : Origin} {props props' : List Property} :
      role.isFree → (effective props').Perm (effective props) →
      Reordered role (.object origin props) (.object origin props')
  | entry {role : Role} {origin : Origin} {prop : Property} {value : Expr}
      (before after : List Property) :
      Reordered (role.below prop.name) prop.value value →
      Reordered role (.object origin (before ++ prop :: after))
        (.object origin (before ++ { prop with value } :: after))
  | item {role : Role} {origin : Origin} {expr expr' : Expr} (before after : List Expr) :
      role.isList → Reordered role expr expr' →
      Reordered role (.array origin (before ++ expr :: after))
        (.array origin (before ++ expr' :: after))

namespace Reordered

variable {role : Role} {expr expr' : Expr}

theorem origin_eq (h : Reordered role expr expr') : expr'.origin = expr.origin := by
  induction h with
  | trans _ _ ih ih' => exact ih'.trans ih
  | _ => rfl

theorem span_eq (h : Reordered role expr expr') : expr'.span = expr.span :=
  congrArg Origin.span h.origin_eq

theorem isObject_eq (h : Reordered role expr expr') : expr'.isObject = expr.isObject := by
  induction h with
  | trans _ _ ih ih' => exact ih'.trans ih
  | _ => rfl

end Reordered

/-! ## Readings -/

/-- The same is read, with the same problems up to their order. -/
def ReadAlike {α : Type} (read read' : α × List Problem) : Prop :=
  read'.1 = read.1 ∧ read'.2.Perm read.2

namespace ReadAlike

variable {α : Type}

theorem refl (read : α × List Problem) : ReadAlike read read :=
  ⟨rfl, .rfl⟩

theorem trans {a b c : α × List Problem} (hab : ReadAlike a b) (hbc : ReadAlike b c) :
    ReadAlike a c :=
  ⟨hbc.1.trans hab.1, hbc.2.trans hab.2⟩

/-- Lists are read alike if their items are. -/
theorem flatMap {reads reads' : List (List α × List Problem)}
    (h : List.Forall₂ ReadAlike reads reads') :
    ReadAlike (reads.flatMap (·.1), reads.flatMap (·.2))
      (reads'.flatMap (·.1), reads'.flatMap (·.2)) := by
  induction h with
  | nil => exact refl _
  | cons hread _ ih =>
    simp only [List.flatMap_cons]
    exact ⟨congrArg₂ _ hread.1 ih.1, hread.2.append ih.2⟩

/-- Lists are read alike if their items are, where some items are not read. -/
theorem filterMap {reads reads' : List (Option α × List Problem)}
    (h : List.Forall₂ ReadAlike reads reads') :
    ReadAlike (reads.filterMap (·.1), reads.flatMap (·.2))
      (reads'.filterMap (·.1), reads'.flatMap (·.2)) := by
  induction h with
  | nil => exact refl _
  | @cons read read' reads reads' hread _ ih =>
    have hitems : reads'.filterMap (·.1) = reads.filterMap (·.1) := ih.1
    simp only [List.filterMap_cons, List.flatMap_cons, hread.1, hitems]
    exact ⟨rfl, hread.2.append ih.2⟩

/-- Items are read by their positions. -/
theorem zipIdx {f : Expr → Nat → α × List Problem} {items items' : List Expr}
    (h : List.Forall₂ (fun item item' => ∀ index, ReadAlike (f item index) (f item' index))
      items items') (start : Nat) :
    List.Forall₂ ReadAlike ((items.zipIdx start).map fun (item, index) => f item index)
      ((items'.zipIdx start).map fun (item, index) => f item index) := by
  induction h generalizing start with
  | nil => exact .nil
  | cons hitem _ ih => exact .cons (hitem start) (ih (start + 1))

end ReadAlike

/-- What is the same of the readings of two expressions, by what they stand for. -/
def Role.SameReading : Role → Expr → Expr → Prop
  | state, expr, expr' =>
    expr'.props?.bind (value? · "id") = expr.props?.bind (value? · "id") ∧
    ∀ rootId key path, ReadAlike (readStateTree rootId key path expr)
      (readStateTree rootId key path expr')
  | states, expr, expr' =>
    ∀ rootId path, ReadAlike (readStates rootId path expr) (readStates rootId path expr')
  | slotMap, expr, expr' =>
    ∀ path property slot trigger (prop : Property),
      ReadAlike (readSlotMap path property slot trigger (some { prop with value := expr }))
        (readSlotMap path property slot trigger (some { prop with value := expr' }))
  | slot, expr, expr' =>
    (∀ path slot trigger index, ReadAlike (readTransition path slot trigger expr index)
      (readTransition path slot trigger expr' index)) ∧
    ∀ path slot trigger, ReadAlike (readSlot path slot trigger expr)
      (readSlot path slot trigger expr')
  | invocations, expr, expr' =>
    (∀ stateId path index, ReadAlike (readInvocation stateId path expr index)
      (readInvocation stateId path expr' index)) ∧
    ∀ stateId path (prop : Property),
      ReadAlike (readInvocations stateId path (some { prop with value := expr }))
        (readInvocations stateId path (some { prop with value := expr' }))
  | plain, expr, expr' => expr' = expr

namespace Role.SameReading

variable {role : Role}

theorem refl (expr : Expr) : role.SameReading expr expr := by
  cases role with
  | state => exact ⟨rfl, fun _ _ _ => .refl _⟩
  | states => exact fun _ _ => .refl _
  | slotMap => exact fun _ _ _ _ _ => .refl _
  | slot => exact ⟨fun _ _ _ _ => .refl _, fun _ _ _ => .refl _⟩
  | invocations => exact ⟨fun _ _ _ => .refl _, fun _ _ _ => .refl _⟩
  | plain => rfl

theorem trans {a b c : Expr} (hab : role.SameReading a b) (hbc : role.SameReading b c) :
    role.SameReading a c := by
  cases role with
  | state => exact ⟨hbc.1.trans hab.1, fun _ _ _ => (hab.2 _ _ _).trans (hbc.2 _ _ _)⟩
  | states => exact fun _ _ => (hab _ _).trans (hbc _ _)
  | slotMap => exact fun _ _ _ _ _ => (hab _ _ _ _ _).trans (hbc _ _ _ _ _)
  | slot =>
    exact ⟨fun _ _ _ _ => (hab.1 _ _ _ _).trans (hbc.1 _ _ _ _),
      fun _ _ _ => (hab.2 _ _ _).trans (hbc.2 _ _ _)⟩
  | invocations =>
    exact ⟨fun _ _ _ => (hab.1 _ _ _).trans (hbc.1 _ _ _),
      fun _ _ _ => (hab.2 _ _ _).trans (hbc.2 _ _ _)⟩
  | plain => exact Eq.trans hbc hab

end Role.SameReading

/-! ## The entries of two lists -/

/-- Entries at the same place, whose values are read alike. -/
structure SameEntry (role : Role) (prop prop' : Property) : Prop where
  place : prop' = { prop with value := prop'.value }
  reordered : Reordered (role.below prop.name) prop.value prop'.value
  reading : (role.below prop.name).SameReading prop.value prop'.value

theorem SameEntry.refl (role : Role) (prop : Property) : SameEntry role prop prop :=
  ⟨rfl, .refl _, .refl _⟩

theorem SameEntry.name_eq {role : Role} {prop prop' : Property} (h : SameEntry role prop prop') :
    prop'.name = prop.name := by
  rw [h.place]
  rfl

theorem SameEntry.keyPlace_eq {role : Role} {prop prop' : Property}
    (h : SameEntry role prop prop') : keyPlace prop' = keyPlace prop := by
  rw [h.place]
  rfl

section

variable {α : Type} {R : α → α → Prop} {a a' b b' : Option α}

theorem rel_refl (hR : ∀ x, R x x) (a : Option α) : Option.Rel R a a := by
  cases a with
  | none => exact .none
  | some x => exact .some (hR x)

theorem rel_or (ha : Option.Rel R a a') (hb : Option.Rel R b b') :
    Option.Rel R (a.or b) (a'.or b') := by
  cases ha with
  | some h => exact .some h
  | none => exact hb

theorem isSome_of_rel (ha : Option.Rel R a a') : a'.isSome = a.isSome := by
  cases ha <;> rfl

end

section

variable {R : Property → Property → Prop} (hname : ∀ {p q}, R p q → q.name = p.name)
  {props props' : List Property}

include hname

theorem rel_prop? (h : List.Forall₂ R props props') (name : String) :
    Option.Rel R (prop? props name) (prop? props' name) := by
  induction h with
  | nil => exact .none
  | cons hpq _ ih =>
    rw [prop?_cons, prop?_cons, PropertyOf.isNamed, PropertyOf.isNamed, hname hpq]
    refine rel_or ih ?_
    split
    · exact .some hpq
    · exact .none

theorem hasName_of_forall₂ (h : List.Forall₂ R props props') (name : String) :
    hasName props' name = hasName props name := by
  rw [← isSome_prop?, ← isSome_prop?, isSome_of_rel (rel_prop? hname h name)]

theorem forall₂_effective (h : List.Forall₂ R props props') :
    List.Forall₂ R (effective props) (effective props') := by
  induction h with
  | nil => exact .nil
  | @cons p q props props' hpq hrest ih =>
    rw [effective, effective, hname hpq]
    cases p.name with
    | none => exact .cons hpq ih
    | some name =>
      dsimp only
      rw [hasName_of_forall₂ hname hrest]
      split
      · exact ih
      · exact .cons hpq ih

end

theorem prop?_eq_of_perm {props props' : List Property}
    (h : (effective props').Perm (effective props)) (name : String) :
    prop? props' name = prop? props name := by
  ext prop
  rw [← mem_effective_iff, ← mem_effective_iff, h.mem_iff]

/-- Two property lists have the same problems with their keys, and the same is read of what
    they have under each name. -/
structure SameEntries (role : Role) (props props' : List Property) : Prop where
  problems : ∀ known path, (keyProblems known path props').Perm (keyProblems known path props)
  entry : ∀ name, Option.Rel (SameEntry role) (prop? props name) (prop? props' name)

namespace SameEntries

variable {role : Role} {props props' : List Property}

theorem of_perm (h : (effective props').Perm (effective props)) :
    SameEntries role props props' where
  problems _ _ := h.filterMap _
  entry name := by
    rw [prop?_eq_of_perm h]
    exact rel_refl (SameEntry.refl role) _

theorem of_forall₂ (h : List.Forall₂ (SameEntry role) props props') :
    SameEntries role props props' where
  problems known path := by
    have heffective := forall₂_effective SameEntry.name_eq h
    rw [keyProblems, keyProblems]
    generalize effective props = entries at heffective
    generalize effective props' = entries' at heffective
    induction heffective with
    | nil => exact .rfl
    | cons hpq _ ih =>
      simp only [List.filterMap_cons, hpq.name_eq, hpq.keyPlace_eq]
      split
      · exact ih
      · exact ih.cons _
  entry := rel_prop? SameEntry.name_eq h

/-- There is no entry of a name, or there is one in the same place, read alike. -/
theorem prop?_cases (h : SameEntries role props props') (name : String) :
    (prop? props name = none ∧ prop? props' name = none) ∨
      ∃ prop value, prop? props name = some prop ∧ prop? props' name = some { prop with value } ∧
        (role.below (some name)).SameReading prop.value value := by
  have hentry := h.entry name
  generalize hprop : prop? props name = found at hentry
  generalize prop? props' name = found' at hentry
  cases hentry with
  | none => exact .inl ⟨rfl, rfl⟩
  | @some prop prop' hsame =>
    have hreading := hsame.reading
    rw [(mem_of_prop? hprop).2] at hreading
    exact .inr ⟨prop, prop'.value, rfl, congrArg some hsame.place, hreading⟩

theorem value? (h : SameEntries role props props') (name : String) :
    Option.Rel (role.below (some name)).SameReading (Property.value? props name)
      (Property.value? props' name) := by
  rw [Property.value?, Property.value?]
  obtain ⟨hprop, hprop'⟩ | ⟨prop, value, hprop, hprop', hreading⟩ := h.prop?_cases name
  · rw [hprop, hprop']
    exact .none
  · rw [hprop, hprop']
    exact .some hreading

/-- Nothing differs under names of what is plain. -/
theorem prop?_eq (h : SameEntries role props props') (name : String)
    (hplain : role.below (some name) = .plain) : prop? props' name = prop? props name := by
  obtain ⟨hprop, hprop'⟩ | ⟨prop, value, hprop, hprop', hreading⟩ := h.prop?_cases name
  · rw [hprop, hprop']
  · rw [hplain] at hreading
    rw [hprop, hprop', show value = prop.value from hreading]

theorem value?_eq (h : SameEntries role props props') (name : String)
    (hplain : role.below (some name) = .plain) :
    Property.value? props' name = Property.value? props name := by
  rw [Property.value?, h.prop?_eq name hplain, Property.value?]

end SameEntries

/-! ## Transitions and invocations -/

section

variable (path : StatePath) {props props' : List Property}

theorem pickNewer_eq {old new : String} (hold : prop? props' old = prop? props old)
    (hnew : prop? props' new = prop? props new) :
    pickNewer path props' old new = pickNewer path props old new := by
  rw [pickNewer, pickNewer, hold, hnew]

theorem readAlike_transitionObject (h : SameEntries .slot props props') (base : Transition) :
    ReadAlike (readTransitionObject path base props) (readTransitionObject path base props') := by
  have hprop : ∀ name, prop? props' name = prop? props name := fun name => h.prop?_eq name rfl
  simp only [readTransitionObject, hprop, pickNewer_eq path (hprop _) (hprop _)]
  exact ⟨rfl, (((((((h.problems _ _).append_right _).append_right _).append_right _).append_right
    _).append_right _).append_right _).append_right _⟩

theorem readAlike_transition (h : SameEntries .slot props props') (origin : Origin) (slot : Slot)
    (trigger : Trigger) (index : Nat) :
    ReadAlike (readTransition path slot trigger (.object origin props) index)
      (readTransition path slot trigger (.object origin props') index) := by
  have hobject := readAlike_transitionObject path h
    { path := ⟨slot, index⟩, trigger, span := origin.span }
  exact ⟨congrArg some hobject.1, hobject.2⟩

theorem readAlike_slot {expr expr' : Expr} {slot : Slot} {trigger : Trigger}
    (h : List.Forall₂ (fun item item' => ∀ index,
      ReadAlike (readTransition path slot trigger item index)
        (readTransition path slot trigger item' index)) (itemsOf expr) (itemsOf expr')) :
    ReadAlike (readSlot path slot trigger expr) (readSlot path slot trigger expr') :=
  .filterMap (ReadAlike.zipIdx h 0)

theorem readAlike_slotProperty (slot : Slot) (trigger : Trigger) {expr expr' : Option Expr}
    (h : Option.Rel (Role.SameReading .slot) expr expr') :
    ReadAlike (readSlotProperty path slot trigger expr)
      (readSlotProperty path slot trigger expr') := by
  cases h with
  | none => exact .refl _
  | some h => exact h.2 path slot trigger

theorem readAlike_invocationObject (h : SameEntries .invocations props props')
    (origin : Origin) (stateId : String) (index : Nat) :
    ReadAlike (readInvocation stateId path (.object origin props) index)
      (readInvocation stateId path (.object origin props') index) := by
  have hdone := fun slot trigger =>
    readAlike_slotProperty path slot trigger (h.value? "onDone")
  have hfailed := fun slot trigger =>
    readAlike_slotProperty path slot trigger (h.value? "onError")
  simp only [readInvocation, Expr.props?, h.prop?_eq "id" rfl, h.value?_eq "src" rfl]
  refine ⟨?_, ((hdone _ _).2.append_left _).append (hfailed _ _).2⟩
  simp only [(hdone _ _).1, (hfailed _ _).1]

theorem readAlike_invocations {stateId : String} {prop prop' : Property}
    (h : List.Forall₂ (fun item item' => ∀ index, ReadAlike (readInvocation stateId path item index)
      (readInvocation stateId path item' index)) (itemsOf prop.value) (itemsOf prop'.value)) :
    ReadAlike (readInvocations stateId path (some prop))
      (readInvocations stateId path (some prop')) :=
  .filterMap (ReadAlike.zipIdx h 0)

/-! ## States -/

theorem readAttributes_eq (h : SameEntries .state props props') :
    readAttributes path props' = readAttributes path props := by
  simp only [readAttributes, h.prop?_eq "id" rfl, h.prop?_eq "type" rfl,
    h.prop?_eq "parallel" rfl, h.prop?_eq "history" rfl,
    h.prop?_eq "initial" rfl, h.prop?_eq "tags" rfl,
    h.prop?_eq "meta" rfl, h.prop?_eq "description" rfl]

theorem readStateActions_eq {old new : String} (hold : prop? props' old = prop? props old)
    (hnew : prop? props' new = prop? props new) :
    readStateActions path props' old new = readStateActions path props old new := by
  rw [readStateActions, readStateActions, pickNewer_eq path hold hnew]

theorem readAlike_stateInfo (h : SameEntries .state props props') (rootId : Option String)
    (key : String) (span : Option Span) :
    ReadAlike (readStateInfo rootId key path span props)
      (readStateInfo rootId key path span props') := by
  -- Invocations and slots are read alike; all else is under keywords whose values are the same.
  have hinvoke : ∀ stateId, ReadAlike (readInvocations stateId path (prop? props "invoke"))
      (readInvocations stateId path (prop? props' "invoke")) := fun stateId => by
    obtain ⟨hprop, hprop'⟩ | ⟨prop, value, hprop, hprop', hreading⟩ := h.prop?_cases "invoke"
    · rw [hprop, hprop']
      exact .refl _
    · rw [hprop, hprop']
      exact hreading.2 stateId path prop
  have hmap : ∀ name property slot trigger, Role.below .state (some name) = .slotMap →
      ReadAlike (readSlotMap path property slot trigger (prop? props name))
        (readSlotMap path property slot trigger (prop? props' name)) :=
    fun name property slot trigger hrole => by
      obtain ⟨hprop, hprop'⟩ | ⟨prop, value, hprop, hprop', hreading⟩ := h.prop?_cases name
      · rw [hprop, hprop']
        exact .refl _
      · rw [hrole] at hreading
        rw [hprop, hprop']
        exact hreading path property slot trigger prop
  have hon := hmap "on" "on" .on Trigger.ofEvent rfl
  have hafter := hmap "after" "after" .after .after rfl
  have halways := readAlike_slotProperty path .always .always (h.value? "always")
  have hdone := readAlike_slotProperty path .onDone .stateDone (h.value? "onDone")
  simp only [readStateInfo, readAttributes_eq path h,
    readStateActions_eq path (h.prop?_eq "onEntry" rfl) (h.prop?_eq "entry" rfl),
    readStateActions_eq path (h.prop?_eq "onExit" rfl) (h.prop?_eq "exit" rfl)]
  constructor
  · simp only [(hinvoke _).1, hon.1, halways.1, hafter.1, hdone.1]
  · exact ((((((((h.problems _ _).append_right _).append_right _).append_right _).append
      (hinvoke _).2).append hon.2).append halways.2).append hafter.2).append hdone.2

theorem readAlike_stateTree (h : SameEntries .state props props') (origin : Origin)
    (rootId : Option String) (key : String) :
    ReadAlike (readStateTree rootId key path (.object origin props))
      (readStateTree rootId key path (.object origin props')) := by
  have hinfo := readAlike_stateInfo path h rootId key origin.span
  have hbelow : ReadAlike (readStatesOf rootId path props) (readStatesOf rootId path props') := by
    rw [readStatesOf_eq, readStatesOf_eq]
    have hvalue := h.value? "states"
    generalize value? props "states" = found at hvalue
    generalize value? props' "states" = found' at hvalue
    cases hvalue with
    | none => exact .refl _
    | some hreading => exact hreading rootId path
  rw [readStateTree, readStateTree]
  exact ⟨congrArg₂ StateTree.node hinfo.1 hbelow.1, hinfo.2.append hbelow.2⟩

/-! ## Maps -/

theorem readAlike_stateEntries (h : List.Forall₂ (SameEntry .states) props props')
    (rootId : Option String) :
    ReadAlike (readStateEntries rootId path props) (readStateEntries rootId path props') := by
  induction h with
  | nil => exact .refl _
  | @cons prop prop' props props' hentry hrest ih =>
    obtain ⟨_, _, _, value⟩ := prop
    obtain ⟨origin, key, keySpan, value'⟩ := prop'
    obtain ⟨hplace, hreordered, hreading⟩ := hentry
    injection hplace with horigin hkey hspan
    subst horigin hkey hspan
    rw [readStateEntries, readStateEntries]
    cases hname : key.name with
    | none => exact ⟨ih.1, ih.2.cons _⟩
    | some name =>
      dsimp only
      rw [hasName_of_forall₂ SameEntry.name_eq hrest, hreordered.isObject_eq, hreordered.span_eq]
      split
      · exact ih
      · split
        · exact ⟨ih.1, ih.2.cons _⟩
        · rw [PropertyOf.name, hname] at hreading
          have hstate := hreading.2 rootId name (path ++ [name])
          exact ⟨congrArg₂ List.cons hstate.1 ih.1, hstate.2.append ih.2⟩

theorem readAlike_slotMap {prop : Property} {origin : Origin}
    (h : List.Forall₂ (SameEntry .slotMap) props props') (property : String)
    (slot : String → Slot) (trigger : String → Trigger) :
    ReadAlike (readSlotMap path property slot trigger
        (some { prop with value := .object origin props }))
      (readSlotMap path property slot trigger
        (some { prop with value := .object origin props' })) := by
  refine .flatMap ?_
  rw [List.forall₂_map_left_iff, List.forall₂_map_right_iff]
  refine (forall₂_effective SameEntry.name_eq h).imp fun entry entry' hentry => ?_
  rw [hentry.name_eq, hentry.keyPlace_eq]
  have hreading := hentry.reading
  cases hname : entry.name with
  | none => exact .refl _
  | some name =>
    rw [hname] at hreading
    exact hreading.2 path (slot name) (trigger name)

end

/-! ## Descriptions -/

theorem forall₂_of_one {α : Type} {R : α → α → Prop} (hrefl : ∀ x, R x x) {x y : α}
    (h : R x y) (before after : List α) :
    List.Forall₂ R (before ++ x :: after) (before ++ y :: after) :=
  List.rel_append (List.forall₂_same.2 fun x _ => hrefl x)
    (.cons h (List.forall₂_same.2 fun x _ => hrefl x))

theorem eq_of_plain {props props' : List Property}
    (h : List.Forall₂ (SameEntry .plain) props props') : props' = props := by
  induction h with
  | nil => rfl
  | @cons prop prop' _ _ hentry _ ih =>
    rw [ih, hentry.place, show prop'.value = prop.value from hentry.reading]

/-- Objects are read alike if the same is read of what they have under each name. -/
theorem sameReading_object {role : Role} {props props' : List Property} (origin : Origin)
    (hrole : role.isFree) (h : SameEntries role props props') :
    role.SameReading (.object origin props) (.object origin props') := by
  cases role with
  | state =>
    exact ⟨h.value?_eq "id" rfl,
      fun rootId key path => readAlike_stateTree path h origin rootId key⟩
  | slot =>
    have hitem := fun path slot trigger index =>
      readAlike_transition path h origin slot trigger index
    exact ⟨hitem, fun path slot trigger =>
      readAlike_slot path (.cons (hitem path slot trigger) .nil)⟩
  | invocations =>
    have hitem := fun stateId path index =>
      readAlike_invocationObject path h origin stateId index
    exact ⟨hitem, fun stateId path prop =>
      readAlike_invocations path (.cons (hitem stateId path) .nil)⟩
  | states | slotMap | plain => cases hrole

/-- Descriptions that differ in the order of entries, where it is free, are read alike. -/
theorem Reordered.sameReading {role : Role} {expr expr' : Expr} (h : Reordered role expr expr') :
    role.SameReading expr expr' := by
  induction h with
  | refl expr => exact .refl expr
  | trans _ _ ih ih' => exact ih.trans ih'
  | @order role origin props props' hrole hperm =>
    -- What is looked up by name does not see an order.
    exact sameReading_object origin hrole (.of_perm hperm)
  | @entry role origin prop value before after hvalue ih =>
    have hentries : List.Forall₂ (SameEntry role) (before ++ prop :: after)
        (before ++ { prop with value } :: after) :=
      forall₂_of_one (SameEntry.refl role) ⟨rfl, hvalue, ih⟩ before after
    cases role with
    | states => exact fun rootId path => readAlike_stateEntries path hentries rootId
    | slotMap =>
      exact fun path property slot trigger prop =>
        readAlike_slotMap path hentries property slot trigger
    | plain => exact congrArg _ (eq_of_plain hentries)
    | state | slot | invocations => exact sameReading_object origin rfl (.of_forall₂ hentries)
  | @item role origin expr expr' before after hrole _ ih =>
    cases role with
    | slot =>
      exact ⟨fun _ _ _ _ => .refl _, fun path slot trigger => readAlike_slot path
        (forall₂_of_one (fun _ _ => .refl _) (ih.1 path slot trigger) before after)⟩
    | invocations =>
      exact ⟨fun _ _ _ => .refl _, fun stateId path prop => readAlike_invocations path
        (forall₂_of_one (fun _ _ => .refl _) (ih.1 stateId path) before after)⟩
    | state | states | slotMap | plain => cases hrole

theorem readAlike_machine {config config' : Expr} (h : Reordered .state config config') :
    ReadAlike (readMachine config) (readMachine config') := by
  have hreading := h.sameReading
  rw [readMachine, readMachine, rootIdOf, rootIdOf, hreading.1]
  exact hreading.2 _ "" []

/-- Only the entries that count are read, and those of a state, of a transition or of an
    invocation in an order that does not depend on how they are written: shadowed entries may be
    dropped all through a description, and the others put in another order, where it is free. -/
theorem extract_rearranged (config : Expr) (options setup : Option Expr) :
    extract config.unshadowed options setup = extract config options setup ∧
      ∀ config', Reordered .state config config' →
        (extract config' options setup).graph = (extract config options setup).graph ∧
          (extract config' options setup).problems.Perm
            (extract config options setup).problems := by
  refine ⟨extract_unshadowed config options setup, fun config' h => ?_⟩
  obtain ⟨htree, hproblems⟩ := readAlike_machine h
  rw [extract_eq, extract_eq, build, build, htree]
  exact ⟨rfl, hproblems.append_right _⟩

/-- A description with a shadowed action, a state with unknown keys in the other order, and an
    invocation with its entries in the other order. -/
theorem extract_rearranged_nested : ∃ config config' : Expr,
    Reordered .state config config' ∧
      ((config.props?.getD []).length = 3 ∧ (config.unshadowed.props?.getD []).length = 2) ∧
      extract config.unshadowed none none = extract config none none ∧
      (extract config' none none).problems ≠ (extract config none none).problems ∧
      (extract config' none none).graph = (extract config none none).graph ∧
      (extract config' none none).problems.Perm (extract config none none).problems := by
  let source : Property := .ofPair "src" (.ofText "s")
  let done : Property := .ofPair "onDone" (.ofText "b")
  let unknown (name : String) : Property := .ofPair name (.ofProps [])
  let invoke (props : List Property) : Property := .ofPair "invoke" (.ofProps props)
  let states (a : Expr) : Property :=
    .ofPair "states" (.ofProps [.ofPair "a" a, .ofPair "b" (.ofProps [])])
  let first : Property := .ofPair "entry" (.ofText "x")
  let second : Property := .ofPair "entry" (.ofText "y")
  let a : Expr := .ofProps [unknown "on fire", unknown "off", invoke [source, done]]
  let a' : Expr := .ofProps [invoke [done, source], unknown "off", unknown "on fire"]
  have hinvoke : Reordered .invocations (.ofProps [source, done]) (.ofProps [done, source]) :=
    .order rfl (.swap _ _ _)
  have ha : Reordered .state a a' :=
    .trans (.entry [unknown "on fire", unknown "off"] [] hinvoke)
      (.order rfl (List.reverse_perm [unknown "on fire", unknown "off", invoke [done, source]]))
  have hstates : Reordered .states (.ofProps [.ofPair "a" a, .ofPair "b" (.ofProps [])])
      (.ofProps [.ofPair "a" a', .ofPair "b" (.ofProps [])]) :=
    .entry [] [.ofPair "b" (.ofProps [])] ha
  have hconfig : Reordered .state (.ofProps [first, states a, second])
      (.ofProps [second, states a']) :=
    .trans (.entry [first] [second] hstates) (.order rfl (.swap _ _ _))
  exact ⟨_, _, hconfig, by decide +kernel, (extract_rearranged _ none none).1, by decide +kernel,
    (extract_rearranged _ none none).2 _ hconfig⟩

end Statechart
