import Statechart.Proofs.StateTrees

/-!
# Problems met while reading

Reading a description looks at the form of what is written only. Whether a target stands for a
state is asked when all states are known, so that reading never reports an unresolved target.

* `OfForm`: problems with the form of a description;
* `ofForm_readMachine`: reading reports only such problems.
-/

namespace Statechart

/-- The problems are with what is written, not with what targets stand for. -/
def OfForm (problems : List Problem) : Prop :=
  ∀ problem ∈ problems, problem.kind ≠ .unresolved

theorem ofForm_nil : OfForm [] :=
  fun _ h => absurd h List.not_mem_nil

theorem ofForm_cons {problem : Problem} {problems : List Problem} :
    OfForm (problem :: problems) ↔ problem.kind ≠ .unresolved ∧ OfForm problems :=
  List.forall_mem_cons

theorem ofForm_singleton {problem : Problem} (h : problem.kind ≠ .unresolved) :
    OfForm [problem] :=
  ofForm_cons.2 ⟨h, ofForm_nil⟩

theorem OfForm.append {a b : List Problem} (ha : OfForm a) (hb : OfForm b) : OfForm (a ++ b) :=
  List.forall_mem_append.2 ⟨ha, hb⟩

theorem ofForm_flatMap {α : Type} {l : List α} {f : α → List Problem}
    (h : ∀ a ∈ l, OfForm (f a)) : OfForm (l.flatMap f) := by
  intro problem hmem
  obtain ⟨a, ha, hproblem⟩ := List.mem_flatMap.1 hmem
  exact h a ha problem hproblem

/-! ## Properties and lists -/

section

variable (path : StatePath) (props : List Property)

theorem ofForm_keyProblems (known : List String) : OfForm (keyProblems known path props) := by
  intro problem hmem
  obtain ⟨prop, -, hprop⟩ := List.mem_filterMap.1 hmem
  dsimp only at hprop
  split at hprop
  · cases hprop
  · cases hprop
    exact nofun

theorem ofForm_pickNewer (old new : String) : OfForm (pickNewer path props old new).2 := by
  rw [pickNewer]
  split
  · exact ofForm_singleton nofun
  · exact ofForm_nil
  · exact ofForm_nil
  · exact ofForm_nil

theorem ofForm_readProperty {α : Type} {kind : ProblemKind} (hkind : kind ≠ .unresolved)
    (name : String) (read : Expr → Option α) (prop : Option Property) :
    OfForm (readProperty kind path name read prop).2 := by
  cases prop with
  | none => exact ofForm_nil
  | some prop =>
    rw [readProperty]
    split
    · exact ofForm_nil
    · exact ofForm_singleton hkind

theorem ofForm_readOneOrMany {α : Type} (shape : Shape α) (expr : Expr)
    {problem : Expr → Problem} (hproblem : ∀ item, (problem item).kind ≠ .unresolved) :
    OfForm (readOneOrMany shape expr problem).2 := by
  rw [readOneOrMany]
  split
  · intro found hmem
    obtain ⟨⟨item, value⟩, -, hitem⟩ := List.mem_filterMap.1 hmem
    dsimp only at hitem
    split at hitem
    · cases hitem
    · cases hitem
      exact hproblem item
  · exact ofForm_nil

theorem ofForm_readAttributes : OfForm (readAttributes path props).2 := by
  have hstate : ∀ {α : Type} (name : String) (read : Expr → Option α) (prop : Option Property),
      OfForm (readProperty .stateProperty path name read prop).2 :=
    fun name read prop => ofForm_readProperty path (by decide) name read prop
  rw [readAttributes]
  refine ((((((OfForm.append ?_ ?_).append ?_).append ?_).append ?_).append ?_).append ?_)
  · exact hstate _ _ _
  · split
    · exact hstate _ _ _
    · exact hstate _ _ _
  · exact hstate _ _ _
  · exact hstate _ _ _
  · split
    · exact ofForm_readOneOrMany _ _ fun _ => nofun
    · exact ofForm_nil
  · exact hstate _ _ _
  · exact hstate _ _ _

theorem ofForm_readActions {kind : ProblemKind} (hkind : kind ≠ .unresolved) (property : String)
    (expr : Expr) : OfForm (readActions kind path property expr).2 :=
  ofForm_readOneOrMany _ _ fun _ => hkind

/-! ## Transitions -/

theorem ofForm_readTargets (expr : Expr) : OfForm (readTargets path expr).2 := by
  cases expr with
  | array origin items =>
    intro problem hmem
    obtain ⟨item, -, rfl⟩ := List.mem_map.1 hmem
    exact nofun
  | str | null | undefined => exact ofForm_nil
  | _ => exact ofForm_singleton nofun

theorem ofForm_readInternal (prop : Option Property) : OfForm (readInternal path prop).2 := by
  cases prop with
  | none => exact ofForm_nil
  | some prop =>
    have h : OfForm (readProperty .transitionProperty path (prop.name.getD "internal") Shape.truth?
      (some prop)).2 := ofForm_readProperty path (by decide) _ _ _
    rw [readInternal]
    split
    · next heq => rw [heq] at h; exact h
    · next heq => rw [heq] at h; exact h

theorem ofForm_readTransitionObject (base : Transition) :
    OfForm (readTransitionObject path base props).2 := by
  rw [readTransitionObject]
  refine (((((((OfForm.append ?_ ?_).append ?_).append ?_).append ?_).append ?_).append ?_).append
    ?_)
  · exact ofForm_keyProblems path props _
  · split
    · exact ofForm_readTargets path _
    · exact ofForm_nil
  · exact ofForm_pickNewer path props _ _
  · exact ofForm_readProperty path (by decide) _ _ _
  · split
    · exact ofForm_readActions path (by decide) _ _
    · exact ofForm_nil
  · exact ofForm_pickNewer path props _ _
  · exact ofForm_readInternal path _
  · exact ofForm_readProperty path (by decide) _ _ _

theorem ofForm_readTransition (slot : Slot) (trigger : Trigger) (item : Expr) (index : Nat) :
    OfForm (readTransition path slot trigger item index).2 := by
  rw [readTransition]
  dsimp only
  split
  · exact ofForm_nil
  · exact ofForm_nil
  · next props _ =>
    exact ofForm_readTransitionObject path props
      { path := ⟨slot, index⟩, trigger, span := item.span }
  · exact ofForm_singleton nofun

theorem ofForm_readSlot (slot : Slot) (trigger : Trigger) (expr : Expr) :
    OfForm (readSlot path slot trigger expr).2 := by
  refine ofForm_flatMap fun read hread => ?_
  obtain ⟨⟨item, index⟩, -, rfl⟩ := List.mem_map.1 hread
  exact ofForm_readTransition path slot trigger item index

theorem ofForm_readSlotProperty (slot : Slot) (trigger : Trigger) (expr : Option Expr) :
    OfForm (readSlotProperty path slot trigger expr).2 := by
  cases expr with
  | none => exact ofForm_nil
  | some expr => exact ofForm_readSlot path slot trigger expr

theorem ofForm_readSlotMap (property : String) (slot : String → Slot)
    (trigger : String → Trigger) (prop : Option Property) :
    OfForm (readSlotMap path property slot trigger prop).2 := by
  cases prop with
  | none => exact ofForm_nil
  | some prop =>
    rw [readSlotMap]
    split
    · exact ofForm_singleton nofun
    · refine ofForm_flatMap fun read hread => ?_
      obtain ⟨entry, -, rfl⟩ := List.mem_map.1 hread
      split
      · exact ofForm_readSlot path _ _ _
      · exact ofForm_singleton nofun

/-! ## States -/

theorem ofForm_readInvocation (stateId : String) (item : Expr) (index : Nat) :
    OfForm (readInvocation stateId path item index).2 := by
  rw [readInvocation]
  split
  · exact ofForm_singleton nofun
  · refine ((OfForm.append ?_ ?_).append ?_).append ?_
    · exact ofForm_readProperty path (by decide) _ _ _
    · split
      · exact ofForm_nil
      · exact ofForm_singleton nofun
    · exact ofForm_readSlotProperty path _ _ _
    · exact ofForm_readSlotProperty path _ _ _

theorem ofForm_readInvocations (stateId : String) (prop : Option Property) :
    OfForm (readInvocations stateId path prop).2 := by
  cases prop with
  | none => exact ofForm_nil
  | some prop =>
    refine ofForm_flatMap fun read hread => ?_
    obtain ⟨⟨item, index⟩, -, rfl⟩ := List.mem_map.1 hread
    exact ofForm_readInvocation path stateId item index

theorem ofForm_readStateActions (old new : String) :
    OfForm (readStateActions path props old new).2 := by
  rw [readStateActions]
  refine (ofForm_pickNewer path props old new).append ?_
  split
  · exact ofForm_readActions path (by decide) _ _
  · exact ofForm_nil

theorem ofForm_readStateInfo (rootId : Option String) (key : String) (span : Option Span) :
    OfForm (readStateInfo rootId key path span props).2 := by
  rw [readStateInfo]
  refine ((((((((OfForm.append ?_ ?_).append ?_).append ?_).append ?_).append ?_).append ?_).append
    ?_).append ?_)
  · exact ofForm_keyProblems path props _
  · exact ofForm_readAttributes path props
  · exact ofForm_readStateActions path props _ _
  · exact ofForm_readStateActions path props _ _
  · exact ofForm_readInvocations path _ _
  · exact ofForm_readSlotMap path _ _ _ _
  · exact ofForm_readSlotProperty path _ _ _
  · exact ofForm_readSlotMap path _ _ _ _
  · exact ofForm_readSlotProperty path _ _ _

end

mutual

theorem ofForm_readStateTree (rootId : Option String) (key : String) (path : StatePath) :
    ∀ expr : Expr, OfForm (readStateTree rootId key path expr).2
  | .object origin props => by
    rw [readStateTree]
    exact (ofForm_readStateInfo path props rootId key origin.span).append
      (ofForm_readStatesOf rootId path props)
  | .array .. | .str .. | .template .. | .number .. | .bool .. | .null _ | .undefined _
  | .ident .. | .member .. | .call .. | .function _ | .other .. => ofForm_nil

theorem ofForm_readStatesOf (rootId : Option String) (path : StatePath) :
    ∀ props : List (PropertyOf Expr), OfForm (readStatesOf rootId path props).2
  | [] => ofForm_nil
  | ⟨_, key, _, value⟩ :: rest => by
    rw [readStatesOf]
    split
    · exact ofForm_readStatesOf rootId path rest
    · split
      · exact ofForm_readStates rootId path value
      · exact ofForm_readStatesOf rootId path rest

theorem ofForm_readStates (rootId : Option String) (path : StatePath) :
    ∀ expr : Expr, OfForm (readStates rootId path expr).2
  | .object _ entries => by
    rw [readStates]
    exact ofForm_readStateEntries rootId path entries
  | .array .. | .str .. | .template .. | .number .. | .bool .. | .null _ | .undefined _
  | .ident .. | .member .. | .call .. | .function _ | .other .. => ofForm_singleton nofun

theorem ofForm_readStateEntries (rootId : Option String) (path : StatePath) :
    ∀ entries : List (PropertyOf Expr), OfForm (readStateEntries rootId path entries).2
  | [] => ofForm_nil
  | ⟨origin, key, keySpan, value⟩ :: rest => by
    have hrest := ofForm_readStateEntries rootId path rest
    rw [readStateEntries]
    dsimp only
    split
    · exact ofForm_cons.2 ⟨nofun, hrest⟩
    · split
      · exact hrest
      · split
        · exact ofForm_cons.2 ⟨nofun, hrest⟩
        · exact (ofForm_readStateTree rootId _ _ value).append hrest

end

/-- Reading reports no unresolved targets. -/
theorem ofForm_readMachine (config : Expr) : OfForm (readMachine config).2 :=
  ofForm_readStateTree _ _ _ config

end Statechart
