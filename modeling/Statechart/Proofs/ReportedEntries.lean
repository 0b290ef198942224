import Statechart.Proofs.Addresses

/-!
# Entries that are reported

An entry of a slot that does not have the form of a transition is left out of the graph, and it is
reported, wherever in the description it stands. So a description without such reports has an edge
for each entry of its slots.

* `Reported`: some transition, or property of one, is not understood;
* `reported_readStateInfo`: reading a state reports its entries;
* `readStateInfo_subset`: what is reported of a state is reported of the whole description;
* `isTransition_of_not_reported`: the entries of a description without reports are transitions.
-/

namespace Statechart

open Property Draft

/-- One of the problems is with a transition. -/
def Reported (problems : List Problem) : Prop :=
  ∃ problem ∈ problems, problem.kind = .transitionProperty

theorem Reported.mono {a b : List Problem} (h : Reported a) (hsub : a ⊆ b) : Reported b := by
  obtain ⟨problem, hmem, hkind⟩ := h
  exact ⟨problem, hsub hmem, hkind⟩

theorem reported_append {a b : List Problem} : Reported (a ++ b) ↔ Reported a ∨ Reported b := by
  simp only [Reported, List.mem_append, or_and_right, exists_or]

theorem Reported.flatMap {α : Type} {l : List α} {f : α → List Problem} {a : α}
    (h : Reported (f a)) (ha : a ∈ l) : Reported (l.flatMap f) :=
  h.mono fun _ hmem => List.mem_flatMap.2 ⟨a, ha, hmem⟩

/-! ## Slots -/

section

variable {place : TransitionPath} {item : Expr} (hitem : isTransition item = false)
  (path : StatePath)

include hitem

theorem reported_readTransition (slot : Slot) (trigger : Trigger) (index : Nat) :
    Reported (readTransition path slot trigger item index).2 := by
  cases item with
  | object | str | null | undefined => cases hitem
  | _ => exact ⟨_, List.mem_singleton_self _, rfl⟩

theorem reported_readSlot {slot : Slot} (trigger : Trigger) {value : Expr}
    (h : (place, item) ∈ slotItems slot value) : Reported (readSlot path slot trigger value).2 := by
  obtain ⟨-, hindex⟩ := mem_slotItems.1 h
  exact (reported_readTransition hitem path slot trigger place.index).flatMap
    (List.mem_map.2 ⟨(item, place.index), List.mk_mem_zipIdx_iff_getElem?.2 hindex, rfl⟩)

theorem reported_readSlotProperty {slot : Slot} (trigger : Trigger) {value : Option Expr}
    (h : (place, item) ∈ slotItems? slot value) :
    Reported (readSlotProperty path slot trigger value).2 := by
  obtain ⟨value, hvalue, hin⟩ := List.mem_flatMap.1 h
  rw [Option.mem_toList] at hvalue
  obtain rfl := hvalue
  exact reported_readSlot hitem path trigger hin

theorem reported_readSlotMap (property : String) {slot : String → Slot}
    (trigger : String → Trigger) {prop : Option Property}
    (h : (place, item) ∈ mapItems slot (prop.map (·.value))) :
    Reported (readSlotMap path property slot trigger prop).2 := by
  obtain ⟨entry, hentry, hin⟩ := List.mem_flatMap.1 h
  cases prop with
  | none => exact absurd hentry List.not_mem_nil
  | some prop =>
    rw [readSlotMap]
    cases hentries : prop.value.props? with
    | none =>
      simp only [Option.map_some, Option.bind_some, hentries] at hentry
      exact absurd hentry List.not_mem_nil
    | some entries =>
      simp only [Option.map_some, Option.bind_some, hentries, Option.getD_some] at hentry
      refine Reported.flatMap ?_ (List.mem_map.2 ⟨entry, hentry, rfl⟩)
      cases hname : PropertyOf.name entry with
      | some name =>
        rw [hname] at hin
        exact reported_readSlot hitem path (trigger name) hin
      | none =>
        rw [hname] at hin
        exact absurd hin List.not_mem_nil

theorem reported_readInvocations (stateId : String) {prop : Option Property}
    (h : (place, item) ∈ invokeItems (prop.map (·.value))) :
    Reported (readInvocations stateId path prop).2 := by
  obtain ⟨⟨invocation, index⟩, hinvocation, hin⟩ := List.mem_flatMap.1 h
  cases prop with
  | none => exact absurd hinvocation List.not_mem_nil
  | some prop =>
    refine Reported.flatMap ?_ (List.mem_map.2 ⟨(invocation, index), hinvocation, rfl⟩)
    dsimp only at hin ⊢
    rw [readInvocation]
    split at hin
    · next props hprops =>
      rw [hprops]
      simp only [reported_append]
      rcases List.mem_append.1 hin with hin | hin
      · exact .inl (.inr (reported_readSlotProperty hitem path _ hin))
      · exact .inr (reported_readSlotProperty hitem path _ hin)
    · exact absurd hin List.not_mem_nil

/-- Reading a state reports the entries of its slots that are no transitions. -/
theorem reported_readStateInfo {props : List Property} (h : itemIn? props place = some item)
    (rootId : Option String) (key : String) (span : Option Span) :
    Reported (readStateInfo rootId key path span props).2 := by
  rw [readStateInfo]
  simp only [reported_append]
  have hmem := mem_written.2 h
  simp only [written, List.mem_append] at hmem
  rcases hmem with hin | hin | hin | hin | hin
  · have hreport := reported_readInvocations hitem path
      (writtenId rootId (readAttributes path props).1.explicitId path) hin
    simp only [hreport, or_true, true_or]
  · have hreport := reported_readSlotMap hitem path "on" Trigger.ofEvent hin
    simp only [hreport, or_true, true_or]
  · have hreport := reported_readSlotProperty hitem path .always hin
    simp only [hreport, or_true, true_or]
  · have hreport := reported_readSlotMap hitem path "after" .after hin
    simp only [hreport, or_true, true_or]
  · have hreport := reported_readSlotProperty hitem path .stateDone hin
    simp only [hreport, or_true]

end

/-! ## States -/

section

variable {rootId : Option String}

/-- What is reported of a state among others is reported of them all. -/
theorem readStateEntries_subset {path : StatePath} {entries : List Property} {name : String}
    {value : Expr} (h : value? entries name = some value) (hobject : value.isObject = true) :
    (readStateTree rootId name (path ++ [name]) value).2 ⊆
      (readStateEntries rootId path entries).2 := by
  induction entries with
  | nil => cases h
  | cons prop rest ih =>
    obtain ⟨origin, key, keySpan, first⟩ := prop
    rw [value?_cons] at h
    rw [readStateEntries]
    -- The entry that counts is the first, or one of the others.
    cases hrest : value? rest name with
    | some found =>
      rw [hrest, Option.some_or] at h
      have hbelow := ih (hrest.trans h)
      dsimp only
      split
      · exact List.Subset.trans hbelow (List.subset_cons_self _ _)
      · split
        · exact hbelow
        · split
          · exact List.Subset.trans hbelow (List.subset_cons_self _ _)
          · exact List.Subset.trans hbelow (List.subset_append_right _ _)
    | none =>
      have hkey : key.name = some name := by
        rw [hrest, Option.none_or] at h
        split at h
        · next hnamed => exact isNamed_iff.1 hnamed
        · cases h
      have hnone : ¬hasName rest name = true := by
        rw [← isSome_value?, hrest]
        exact Bool.false_ne_true
      have hnamed : PropertyOf.isNamed ⟨origin, key, keySpan, first⟩ name = true :=
        isNamed_iff.2 hkey
      rw [hrest, hnamed, Option.none_or, if_pos rfl] at h
      obtain rfl := Option.some.inj h
      simp only [hkey, if_neg hnone, hobject, Bool.not_true, Bool.false_eq_true, if_false]
      exact List.subset_append_left _ _

/-- What is reported of a state is reported of the states above it. -/
theorem readStateInfo_subset (key : String) (path : StatePath) (origin : Origin)
    {props below : List Property} {rest : StatePath} (h : propsBelow? props rest = some below) :
    ∃ span, (readStateInfo rootId (keyOf key rest) (path ++ rest) span below).2 ⊆
      (readStateTree rootId key path (.object origin props)).2 := by
  induction rest generalizing props key path origin with
  | nil =>
    cases h
    refine ⟨origin.span, ?_⟩
    rw [List.append_nil]
    exact List.subset_append_left _ _
  | cons name rest ih =>
    rw [propsBelow?] at h
    obtain ⟨child, hchild, h⟩ := Option.bind_eq_some_iff.1 h
    obtain ⟨entries, origin', hentries, hvalue⟩ := exists_of_childProps? hchild
    obtain ⟨states, hstates, hentries⟩ := Option.bind_eq_some_iff.1 hentries
    obtain ⟨span, hinfo⟩ := ih name (path ++ [name]) origin' h
    rw [List.append_assoc, keyOf] at hinfo
    refine ⟨span, ?_⟩
    rw [keyOf, List.getLast?_cons]
    have hbelow : (readStateTree rootId name (path ++ [name]) (.object origin' child)).2 ⊆
        (readStatesOf rootId path props).2 := by
      rw [readStatesOf_eq, hstates]
      cases states <;> cases hentries
      exact readStateEntries_subset hvalue rfl
    exact List.Subset.trans (List.Subset.trans hinfo hbelow) (List.subset_append_right _ _)

end

/-- The entries of a description are transitions if none is reported. -/
theorem isTransition_of_not_reported {config : Expr} (h : ¬Reported (readMachine config).2)
    {path : StatePath} {place : TransitionPath} {item : Expr}
    (hitem : itemAt? config path place = some item) : isTransition item = true := by
  refine Bool.of_not_eq_false fun hform => h ?_
  obtain ⟨below, hbelow, hin⟩ := Option.bind_eq_some_iff.1 hitem
  rw [stateProps?_eq] at hbelow
  obtain ⟨props, hprops, hfound⟩ := Option.bind_eq_some_iff.1 hbelow
  cases config <;> cases hprops
  obtain ⟨span, hsub⟩ := readStateInfo_subset "" [] _ hfound
  exact (reported_readStateInfo hform _ hin _ _ span).mono hsub

end Statechart
