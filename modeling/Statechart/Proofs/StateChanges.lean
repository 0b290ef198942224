import Statechart.Proofs.References

/-!
# What edits do to the states

An edit adds a state, removes one with all below it, takes them elsewhere, or leaves the states
where they are. Renaming is the exception: it gives the entry that counts another name and leaves
alone the other entries of the two names. One of the old name that did not count before then
counts, and one of the new name that stands further behind hides the renamed state.

* `Edit.statesAfter`: the states that an edit says there are after it;
* `Edit.isUnshadowed`: an edit does not rename a state with such entries next to it;
* `Editor.states_apply_iff`: an edit does what it says just in this case;
* `Editor.renameState_revives_shadowed`: a state that comes back.
-/

namespace Statechart

open Property

/-! ## Entries of the same name -/

namespace Property

/-- The entries before and behind the one that counts for a name. -/
def around? (name : String) : List Property → Option (List Property × List Property)
  | [] => none
  | prop :: rest =>
    match around? name rest with
    | some (before, behind) => some (prop :: before, behind)
    | none => if prop.isNamed name then some ([], rest) else none

variable {name : String} {props before behind : List Property}

theorem around?_eq_none (h : around? name props = none) : hasName props name = false := by
  induction props with
  | nil => rfl
  | cons prop rest ih =>
    rw [around?] at h
    split at h
    · cases h
    · next hrest =>
      split at h
      · cases h
      · next hprop =>
        rw [Bool.not_eq_true] at hprop
        rw [hasName_cons, hprop, ih hrest]
        rfl

theorem around?_eq_some (h : around? name props = some (before, behind)) :
    ∃ entry, props = before ++ entry :: behind ∧ entry.isNamed name = true ∧
      hasName behind name = false := by
  induction props generalizing before with
  | nil => cases h
  | cons prop rest ih =>
    rw [around?] at h
    split at h
    · next before' behind' hrest =>
      cases h
      obtain ⟨entry, rfl, hentry, hbehind⟩ := ih hrest
      exact ⟨entry, rfl, hentry, hbehind⟩
    · next hrest =>
      split at h
      · next hprop =>
        cases h
        exact ⟨prop, rfl, hprop, around?_eq_none hrest⟩
      · cases h

theorem value?_append (a b : List Property) (name : String) :
    value? (a ++ b) name = (value? b name).or (value? a name) := by
  rw [value?, prop?_append, value?, value?]
  cases prop? b name <;> rfl

theorem modifyLast_append {entry : Property} (hentry : entry.isNamed name = true)
    (hbehind : hasName behind name = false) (f : Property → Property) (before : List Property) :
    modifyLast name f (before ++ entry :: behind) = before ++ f entry :: behind := by
  induction before with
  | nil => rw [List.nil_append, modifyLast, hbehind, hentry]; rfl
  | cons prop before ih =>
    have hname : hasName (before ++ entry :: behind) name = true := by
      rw [hasName_append, hasName_cons, hentry, Bool.true_or, Bool.or_true]
    rw [List.cons_append, modifyLast, if_pos hname, ih]
    rfl

end Property

namespace Draft

/-- The entries by their names after the one that counts got a new name. -/
theorem value?_renameKey_append {before behind : List Property} {entry : Property}
    {key name : String} (hentry : entry.isNamed key = true) (hbehind : hasName behind key = false)
    (other : String) :
    value? (renameKey (before ++ entry :: behind) key name) other =
      if other = name then (value? behind name).or (some entry.value)
      else if other = key then value? before key
      else value? (before ++ entry :: behind) other := by
  have hnamed : PropertyOf.isNamed { entry with key := keyFor name } name = true :=
    isNamed_iff.2 (by rw [PropertyOf.name, keyFor]; dsimp only; split <;> rfl)
  rw [renameKey, modifyLast_append hentry hbehind, value?_append, value?_append, value?_cons,
    value?_cons]
  by_cases hname : other = name
  · rw [if_pos hname, hname, hnamed]
    cases value? behind name <;> rfl
  · rw [if_neg hname, isNamed_eq_false_of_ne hnamed hname]
    by_cases hkey : other = key
    · rw [if_pos hkey, hkey, value?_eq_none hbehind]
      rfl
    · rw [if_neg hkey, isNamed_eq_false_of_ne hentry hkey]

/-- Whether the entry of a key can be given another name without an effect on other states: none of
    the new name stands behind it, and no state of the old name before it. -/
def renamesAlone (states : List Property) (key name : String) : Bool :=
  (around? key states).all fun (before, behind) =>
    !hasName behind name && !(value? before key).any Expr.isObject

section

variable {props states : List Property} {key name : String}
  (hstates : (value? props "states").bind Expr.props? = some states)

include hstates

theorem childProps?_eq (other : String) :
    childProps? props other = (value? states other).bind Expr.props? := by
  rw [childProps?, hstates, Option.bind_some]

theorem childProps?_renameChild_eq (other : String) :
    childProps? (renameChild props key name) other =
      (value? (renameKey states key name) other).bind Expr.props? := by
  rw [childProps?, states_renameChild, hstates]
  rfl

/-- A state that is renamed alone is found by its new name only. -/
theorem childProps?_of_renamesAlone (hkey : (childProps? props key).isSome)
    (halone : renamesAlone states key name = true) (other : String) :
    childProps? (renameChild props key name) other =
      if other = name then childProps? props key
      else if other = key then none else childProps? props other := by
  rw [childProps?_renameChild_eq hstates]
  simp only [childProps?_eq hstates] at hkey ⊢
  cases haround : around? key states with
  | none =>
    rw [value?_eq_none (around?_eq_none haround)] at hkey
    cases hkey
  | some found =>
    obtain ⟨before, behind⟩ := found
    obtain ⟨entry, rfl, hentry, hbehind⟩ := around?_eq_some haround
    rw [renamesAlone, haround, Option.all_some, Bool.and_eq_true, Bool.not_eq_true',
      Bool.not_eq_true'] at halone
    have hentryValue : value? (before ++ entry :: behind) key = some entry.value := by
      rw [value?_append, value?_cons, value?_eq_none hbehind, hentry]
      rfl
    rw [value?_renameKey_append hentry hbehind, hentryValue, value?_eq_none halone.1]
    split
    · rfl
    · split
      · cases hbefore : value? before key with
        | none => rfl
        | some value =>
          have hobject := halone.2
          rw [hbefore] at hobject
          exact Option.isNone_iff_eq_none.1 (Option.isSome_eq_false_iff.1 hobject)
      · rfl

/-- A state that is not renamed alone is not found by its new name, or another one is found by the
    old name. -/
theorem childProps?_of_not_renamesAlone (hne : name ≠ key) (hfree : childProps? props name = none)
    (halone : renamesAlone states key name = false) :
    childProps? (renameChild props key name) name = none ∨
      (childProps? (renameChild props key name) key).isSome := by
  simp only [childProps?_renameChild_eq hstates]
  rw [childProps?_eq hstates] at hfree
  cases haround : around? key states with
  | none =>
    rw [renamesAlone, haround] at halone
    cases halone
  | some found =>
    obtain ⟨before, behind⟩ := found
    obtain ⟨entry, rfl, hentry, hbehind⟩ := around?_eq_some haround
    rw [renamesAlone, haround, Option.all_some, Bool.and_eq_false_iff, Bool.not_eq_false',
      Bool.not_eq_false'] at halone
    rw [value?_renameKey_append hentry hbehind, value?_renameKey_append hentry hbehind, if_pos rfl,
      if_neg hne.symm, if_pos rfl]
    rcases halone with hhidden | hrevived
    · -- The entry behind counts for the new name, as it did before, and it is no state.
      left
      rw [← isSome_value?] at hhidden
      obtain ⟨value, hvalue⟩ := Option.isSome_iff_exists.1 hhidden
      rw [value?_append, value?_cons, hvalue] at hfree
      rw [hvalue]
      exact hfree
    · right
      obtain ⟨value, hvalue, hobject⟩ := (Option.any_eq_true _ _).1 hrevived
      rw [hvalue]
      exact hobject

end

/-- Where each state has gone, those of the root and below it are accounted for. -/
theorem hasState_of_relocated {move : StatePath → StatePath} {old new : Expr}
    (h : Relocated move old new) (hroot : move [] = []) (path : StatePath) :
    HasState new path ↔ ∃ p, HasState old p ∧ move p = path := by
  simp only [HasState, h.states]
  constructor
  · rintro (rfl | ⟨p, hp, rfl⟩)
    · exact ⟨[], .inl rfl, hroot⟩
    · exact ⟨p, .inr hp, rfl⟩
  · rintro ⟨p, rfl | hp, rfl⟩
    · exact .inl hroot
    · exact .inr ⟨p, hp, rfl⟩

theorem movePath_nil {source : StatePath} (h : source ≠ []) (dest : StatePath) :
    Editor.movePath source dest [] = [] :=
  movePath_elsewhere (fun hprefix => h (List.prefix_nil.1 hprefix)) dest

theorem propsBelow?_singleton (props : List Property) (key : String) :
    propsBelow? props [key] = childProps? props key := by
  rw [propsBelow?_cons]
  cases childProps? props key <;> rfl

/-- Renaming takes a state to its new name just if it is renamed alone. -/
theorem hasState_renameChild_iff {config : Expr} {parent : StatePath} {props states : List Property}
    {key name : String} (hparent : stateProps? config parent = some props)
    (hstates : (value? props "states").bind Expr.props? = some states)
    (hkey : (childProps? props key).isSome) (hfree : childProps? props name = none)
    (hne : name ≠ key) :
    (∀ path, HasState (setStateProps (renameChild props key name) parent config) path ↔
      ∃ p, HasState config p ∧ Editor.movePath (parent ++ [key]) (parent ++ [name]) p = path) ↔
      renamesAlone states key name = true := by
  have hold : ∀ other, stateProps? config (parent ++ [other]) = childProps? props other :=
    fun other => by rw [stateProps?_append, hparent, Option.bind_some, propsBelow?_singleton]
  cases halone : renamesAlone states key name with
  | true =>
    have hmoved := moved_of_childProps hparent (content_renameChild props key name)
      (childProps?_of_renamesAlone hstates hkey halone) (by rw [hold, hfree]) hne
    exact iff_of_true (hasState_of_relocated hmoved.relocated (movePath_nil (by simp) _)) rfl
  | false =>
    refine iff_of_false (fun hall => ?_) Bool.false_ne_true
    have hfound : ∀ other, HasState (setStateProps (renameChild props key name) parent config)
        (parent ++ [other]) ↔ (childProps? (renameChild props key name) other).isSome := by
      intro other
      rw [HasState, stateProps?_setStateProps_append (Option.isSome_of_eq_some hparent),
        propsBelow?_singleton]
      simp
    rcases childProps?_of_not_renamesAlone hstates hne hfree halone with hhidden | hrevived
    · -- The state should be found by its new name, and is not.
      have himage := (hall (parent ++ [name])).2
        ⟨parent ++ [key], .inr (by rwa [hold]), by
          simpa using movePath_append _ (parent ++ [name]) []⟩
      rw [hfound, hhidden] at himage
      cases himage
    · -- A state is found by the old name, where none should be.
      obtain ⟨p, -, hp⟩ := (hall (parent ++ [key])).1 ((hfound key).2 hrevived)
      by_cases hprefix : parent ++ [key] <+: p
      · obtain ⟨rest, rfl⟩ := hprefix
        rw [movePath_append, List.append_assoc, List.append_cancel_left_eq] at hp
        exact hne (List.cons.inj hp).1
      · rw [movePath_elsewhere hprefix] at hp
        exact hprefix (hp ▸ List.prefix_refl _)

end Draft

open Draft

/-! ## Edits -/

/-- The states that an edit says there are after it. -/
def Edit.statesAfter (edit : Edit) (old : StatePath → Prop) (path : StatePath) : Prop :=
  match edit with
  | addState parent name => old path ∨ path = parent ++ [name]
  | removeState removed => old path ∧ ¬removed <+: path
  | renameState .. | reparentState .. => ∃ p, old p ∧ edit.pathMap p = path
  | _ => old path

/-- Whether an edit leaves the states where they are. -/
def Edit.keepsStates : Edit → Bool
  | addState .. | removeState .. | renameState .. | reparentState .. => false
  | _ => true

/-- Whether an edit does not rename a state next to entries that the renaming brings into effect
    or that hide it. -/
def Edit.isUnshadowed (draft : Expr) : Edit → Bool
  | renameState path name => path.getLast?.all fun key =>
      key == name || renamesAlone (stateEntries draft path.dropLast) key name
  | _ => true

namespace Editor

variable {editor : Editor} {draft' : Expr}

/-! ### Adding and removing -/

/-- Adding a state gives the draft the state at the new path, and no other. -/
theorem hasState_addState (hcurrent : editor.Current) {parent : StatePath} {name : String}
    (h : editor.addState parent name = .ok draft') (path : StatePath) :
    HasState draft' path ↔ HasState editor.draft path ∨ path = parent ++ [name] := by
  obtain ⟨_, -, h⟩ := bind_eq_ok.1 h
  obtain ⟨node, hnode, h⟩ := bind_eq_ok.1 h
  dsimp only at h
  split at h
  · cases h
  · next hchild =>
    have hfree := hcurrent.stateProps?_of_child? (hcurrent.at_of_node hnode) hchild
    obtain ⟨props, new, hprops, hnew, rfl⟩ := modifyState_eq_ok.1 h
    have happend : appendChild? props (Property.ofPair name (.ofProps [])) = some new := by
      split at hnew
      · next happend => cases hnew; exact happend
      · cases hnew
    obtain ⟨hcontent, hchildren⟩ := appendChild?_eq_some (name_ofPair name _) happend
    by_cases hbelow : parent ++ [name] <+: path
    · -- There was nothing at the new state and below it, and nothing is below it now.
      obtain ⟨rest, rfl⟩ := hbelow
      have hnone : ¬HasState editor.draft (parent ++ [name] ++ rest) := by
        rintro (hnil | hsome)
        · simp at hnil
        · have habove := isSome_stateProps?_of_append hsome
          rw [hfree] at habove
          cases habove
      have hfound : stateProps? (setStateProps new parent editor.draft) (parent ++ [name] ++ rest) =
          propsBelow? [] rest := by
        rw [List.append_assoc, List.singleton_append,
          stateProps?_setStateProps_append (Option.isSome_of_eq_some hprops), propsBelow?_cons,
          hchildren, if_pos rfl]
        rfl
      rw [HasState, hfound]
      cases rest with
      | nil => simp [propsBelow?]
      | cons key rest =>
        refine iff_of_false ?_ ?_
        · rintro (hnil | hsome)
          · simp at hnil
          · cases hsome
        · rintro (hsome | heq)
          · exact hnone hsome
          · simp at heq
    · have hsame := contentAt?_setStateProps_of_child hprops hcontent (p := path) <| by
        rintro other rest rfl
        rw [hchildren, if_neg]
        rintro rfl
        exact hbelow (by simp)
      have hne : path ≠ parent ++ [name] := fun heq => hbelow (heq ▸ List.prefix_refl _)
      rw [HasState, HasState, ← isSome_contentAt?, hsame, isSome_contentAt?, or_iff_left hne]

theorem exists_takeChild? {props : List Property} {key : String}
    (h : (childProps? props key).isSome) :
    ∃ child left, takeChild? props key = some (child, left) := by
  obtain ⟨below, h⟩ := Option.isSome_iff_exists.1 h
  obtain ⟨states, hstates, h⟩ := Option.bind_eq_some_iff.1 h
  obtain ⟨value, hvalue, -⟩ := Option.bind_eq_some_iff.1 h
  obtain ⟨child, hchild, -⟩ := Option.map_eq_some_iff.1 hvalue
  rw [takeChild?, hstates, Option.bind_eq_bind, Option.bind_some, hchild]
  exact ⟨_, _, rfl⟩

theorem hasState_removeState (hcurrent : editor.Current) {removed : StatePath}
    (h : editor.removeState removed = .ok draft') (path : StatePath) :
    HasState draft' path ↔ HasState editor.draft path ∧ ¬removed <+: path := by
  rw [removeState] at h
  split at h
  · cases h
  · next parent key hsplit =>
    rw [splitPath?_eq_some_iff] at hsplit
    subst hsplit
    obtain ⟨node, hnode, h⟩ := bind_eq_ok.1 h
    dsimp only at h
    obtain ⟨narrowed, hnarrowed, h⟩ := bind_eq_ok.1 h
    obtain ⟨dropped, hdropped, h⟩ := bind_eq_ok.1 h
    -- Transitions into the state are narrowed or dropped, and only then the state goes.
    have hsame : SamePaths editor.draft dropped := by
      refine (samePaths_foldlM (fun hstep => samePaths_modifyTransition hstep) hnarrowed).trans
        (samePaths_foldlM (fun hstep => ?_) hdropped)
      obtain ⟨⟨item, taken⟩, htake, hstep⟩ := bind_eq_ok.1 hstep
      cases hstep
      exact samePaths_takeTransition htake
    obtain ⟨props, new, hprops, hnew, rfl⟩ := modifyState_eq_ok.1 h
    cases hnew
    have hkey : (childProps? (clearInitial props key) key).isSome := by
      have hsome := hcurrent.isSome_stateProps? (hcurrent.at_of_node hnode) (by simp)
      rw [← hsame, stateProps?_append, hprops, Option.bind_some, propsBelow?_cons] at hsome
      rw [childProps?_clearInitial]
      exact Option.isSome_of_isSome_bind hsome
    obtain ⟨child, left, htake⟩ := exists_takeChild? hkey
    obtain ⟨-, -, hcontent, hleft⟩ := takeChild?_eq_some htake
    rw [content_clearInitial] at hcontent
    rw [childProps?_clearInitial] at hleft
    obtain ⟨hgone, hkept⟩ := contentAt?_takeChild hprops hcontent hleft
    rw [← hsame.hasState_iff, htake]
    simp only [Option.map_some, Option.getD_some]
    by_cases hbelow : parent ++ [key] <+: path
    · obtain ⟨rest, rfl⟩ := hbelow
      rw [HasState, ← isSome_contentAt?, hgone]
      simp
    · rw [HasState, HasState, ← isSome_contentAt?, hkept path hbelow, isSome_contentAt?,
        and_iff_left hbelow]

/-! ### Renaming and moving -/

/-- What goes elsewhere, or nothing, is where the path map sends it. -/
theorem Rebases.hasState_iff {move : StatePath → StatePath} (h : editor.Rebases move draft')
    (hroot : move [] = []) (path : StatePath) :
    HasState draft' path ↔ ∃ p, HasState editor.draft p ∧ move p = path := by
  rcases h with ⟨hmove, rfl⟩ | ⟨draft, hmoved, hrebase⟩
  · simp only [hmove, exists_eq_right]
  · rw [(samePaths_rebase hrebase).hasState_iff]
    exact hasState_of_relocated hmoved hroot path

/-- Renaming a state does what it says just if the state is renamed alone. -/
theorem hasState_renameState_iff (hcurrent : editor.Current) {source : StatePath} {name : String}
    (h : editor.renameState source name = .ok draft') :
    (∀ path, HasState draft' path ↔
      ∃ p, HasState editor.draft p ∧ (Edit.renameState source name).pathMap p = path) ↔
      (Edit.renameState source name).isUnshadowed editor.draft = true := by
  rw [renameState] at h
  split at h
  · cases h
  · next parent key hsplit =>
    rw [splitPath?_eq_some_iff] at hsplit
    subst hsplit
    rw [Edit.pathMap, Edit.isUnshadowed, List.dropLast_concat, List.getLast?_concat,
      Option.all_some]
    obtain ⟨node, hnode, h⟩ := bind_eq_ok.1 h
    have hat := hcurrent.at_of_node hnode
    -- The old name is accepted and changes nothing.
    split at h
    · next heq =>
      cases h
      simp [heq, movePath_self]
    · next hne =>
      obtain ⟨_, -, h⟩ := bind_eq_ok.1 h
      dsimp only at h
      split at h
      · cases h
      · next hchild =>
        obtain ⟨draft, hdraft, h⟩ := bind_eq_ok.1 h
        obtain ⟨above, habove, -, hatAbove, -⟩ := Graph.parent?_of_at hcurrent.wellFormed hat
        rw [habove, Option.bind_some] at hchild
        obtain ⟨props, new, hprops, hnew, rfl⟩ := modifyState_eq_ok.1 hdraft
        cases hnew
        -- The state is written below its parent, and none of the new name is.
        have hfree := hcurrent.stateProps?_of_child? hatAbove hchild
        have hkey := hcurrent.isSome_stateProps? hat (by simp)
        rw [stateProps?_append, hprops, Option.bind_some, propsBelow?_singleton] at hfree hkey
        obtain ⟨states, hstates, -⟩ :=
          Option.bind_eq_some_iff.1 (Option.isSome_iff_exists.1 hkey).choose_spec
        have hentries : stateEntries editor.draft parent = states := by
          rw [stateEntries, hprops, Option.bind_some, hstates]
          rfl
        rw [hentries, beq_eq_false_iff_ne.2 hne, Bool.false_or,
          ← hasState_renameChild_iff hprops hstates hkey hfree (Ne.symm hne)]
        exact forall_congr' fun path => iff_congr ((samePaths_rebase h).hasState_iff path) Iff.rfl

/-! ### All other edits -/

/-- Changing a list of actions changes no other property of its state. -/
theorem samePaths_modifyActions {path : ActionPath} {create : Bool}
    {f : List Property → String → Option (List Property)}
    (hf : ∀ {props new key}, f props key = some new → "states" ≠ key →
      value? new "states" = value? props "states")
    (h : editor.modifyActions path create f = .ok draft') : SamePaths editor.draft draft' := by
  have hkey : ∀ (props : List Property) {a b : String}, "states" ≠ a → "states" ≠ b →
      "states" ≠ actionKey props a b := by
    intro props a b ha hb
    rw [actionKey, effectiveKey?]
    split
    · exact ha
    · split
      · exact hb
      · exact ha
  rw [modifyActions] at h
  dsimp only at h
  split at h
  · obtain ⟨_, -, h⟩ := bind_eq_ok.1 h
    refine samePaths_modifyState h fun hnew => ?_
    split at hnew
    · next hfound => cases hnew; exact hf hfound (hkey _ (by decide) (by decide))
    · cases hnew
  · obtain ⟨_, -, h⟩ := bind_eq_ok.1 h
    refine samePaths_modifyState h fun hnew => ?_
    split at hnew
    · next hfound => cases hnew; exact hf hfound (hkey _ (by decide) (by decide))
    · cases hnew
  · obtain ⟨_, -, h⟩ := bind_eq_ok.1 h
    exact samePaths_modifyTransition h

theorem samePaths_setInitialState {path : StatePath} {initial : Option String}
    (h : editor.setInitialState path initial = .ok draft') : SamePaths editor.draft draft' := by
  obtain ⟨node, -, h⟩ := bind_eq_ok.1 h
  refine samePaths_modifyState h fun {old new} hnew => ?_
  split at hnew
  · cases hnew
    rw [value?_eraseName, if_neg (by decide)]
  · split at hnew
    · cases hnew
    · split at hnew
      · cases hnew
        exact value?_renameInitial (by decide) _ _
      · cases hnew
        exact value?_setText (by decide) _ _

theorem samePaths_setStateType {path : StatePath} {type : StateType} {history : Option HistoryKind}
    (h : editor.setStateType path type history = .ok draft') : SamePaths editor.draft draft' := by
  obtain ⟨_, -, h⟩ := bind_eq_ok.1 h
  refine samePaths_modifyState h fun hnew => ?_
  cases hnew
  rw [value?_setOptionalText (by decide), value?_setOptionalText (by decide), value?_eraseName,
    if_neg (by decide)]

theorem samePaths_setStateId {path : StatePath} {id : Option String}
    (h : editor.setStateId path id = .ok draft') : SamePaths editor.draft draft' := by
  rcases rebases_setStateId h with ⟨-, rfl⟩ | ⟨draft, hmoved, hrebase⟩
  · exact .refl _
  · refine SamePaths.trans (fun path => ?_) (samePaths_rebase hrebase)
    rw [Bool.eq_iff_iff, hmoved.states]
    exact ⟨fun ⟨p, hp, heq⟩ => heq ▸ hp, fun hp => ⟨path, hp, rfl⟩⟩

theorem samePaths_reanchorTransition {source newSource : StatePath} {transition : TransitionPath}
    (h : editor.reanchorTransition source transition newSource = .ok draft') :
    SamePaths editor.draft draft' := by
  obtain ⟨node, -, h⟩ := bind_eq_ok.1 h
  obtain ⟨newNode, -, h⟩ := bind_eq_ok.1 h
  split at h
  · cases h
    exact .refl _
  · obtain ⟨edge, -, h⟩ := bind_eq_ok.1 h
    obtain ⟨⟨item, taken⟩, htake, h⟩ := bind_eq_ok.1 h
    exact (samePaths_takeTransition htake).trans (samePaths_putTransition h)

theorem samePaths_changeTransitionEvent {source : StatePath} {transition : TransitionPath}
    {slot : Slot} (h : editor.changeTransitionEvent source transition slot = .ok draft') :
    SamePaths editor.draft draft' := by
  obtain ⟨_, -, h⟩ := bind_eq_ok.1 h
  obtain ⟨_, -, h⟩ := bind_eq_ok.1 h
  dsimp only at h
  split at h
  · cases h
    exact .refl _
  · obtain ⟨state, hstate, h⟩ := bind_eq_ok.1 h
    rw [state_eq_ok] at hstate
    split at h
    · next owner hrenamed =>
      -- A key is renamed within a map, which is not the state itself.
      cases h
      split at hrenamed
      · next hmap =>
        obtain ⟨old, hold, -⟩ := Option.bind_eq_some_iff.1 hrenamed
        refine samePaths_setStateProps hstate (value?_setOwner_states hold fun hnone => ?_)
        cases hslot : transition.slot with
        | on | after => rw [hslot] at hnone; cases hnone
        | _ => rw [hslot] at hmap; cases hmap
      · cases hrenamed
    · obtain ⟨⟨item, taken⟩, htake, h⟩ := bind_eq_ok.1 h
      exact (samePaths_takeTransition htake).trans (samePaths_putTransition h)

theorem samePaths_editInvoke {state : StatePath} {index : Nat} {src id : Option String}
    (h : editor.editInvoke state index src id = .ok draft') : SamePaths editor.draft draft' := by
  obtain ⟨_, -, h⟩ := bind_eq_ok.1 h
  refine samePaths_modifyState h fun hnew => ?_
  split at hnew
  · cases hnew
    exact value?_modifyItem (by decide) _ _ _
  · cases hnew

theorem samePaths_removeInvoke {state : StatePath} {index : Nat}
    (h : editor.removeInvoke state index = .ok draft') : SamePaths editor.draft draft' := by
  refine samePaths_modifyState h fun hnew => ?_
  split at hnew
  · next hremove =>
    cases hnew
    exact value?_remove? (by decide) hremove
  · cases hnew

theorem samePaths_setDescription {state : StatePath} {transition : Option TransitionPath}
    {description : Option String}
    (h : editor.setDescription state transition description = .ok draft') :
    SamePaths editor.draft draft' := by
  obtain ⟨_, -, h⟩ := bind_eq_ok.1 h
  split at h
  · refine samePaths_modifyState h fun hnew => ?_
    cases hnew
    exact value?_setOptionalText (by decide) _ _
  · exact samePaths_modifyTransition h

/-- Edits that do not add, remove, rename or move states leave all of them where they are. -/
theorem samePaths_revise {edit : Edit} (hkeeps : edit.keepsStates = true)
    (h : editor.revise edit = .ok draft') : SamePaths editor.draft draft' := by
  -- Each edit sets values of one state other than `states`, or puts, takes or changes an item.
  cases edit with
  | addState | removeState | renameState | reparentState => cases hkeeps
  | setInitialState => exact samePaths_setInitialState h
  | setStateId => exact samePaths_setStateId h
  | setStateType => exact samePaths_setStateType h
  | addTransition =>
    obtain ⟨node, -, h⟩ := bind_eq_ok.1 h
    obtain ⟨target, -, h⟩ := bind_eq_ok.1 h
    exact samePaths_putTransition h
  | removeTransition =>
    obtain ⟨⟨item, taken⟩, htake, h⟩ := bind_eq_ok.1 h
    cases h
    exact samePaths_takeTransition htake
  | retargetTransition =>
    obtain ⟨node, -, h⟩ := bind_eq_ok.1 h
    obtain ⟨edge, -, h⟩ := bind_eq_ok.1 h
    obtain ⟨targets, -, h⟩ := bind_eq_ok.1 h
    exact samePaths_modifyTransition h
  | reanchorTransition => exact samePaths_reanchorTransition h
  | changeTransitionEvent => exact samePaths_changeTransitionEvent h
  | markTransitionExternal =>
    obtain ⟨node, -, h⟩ := bind_eq_ok.1 h
    obtain ⟨edge, -, h⟩ := bind_eq_ok.1 h
    exact samePaths_modifyTransition h
  | addAction path name =>
    rw [revise, addAction] at h
    refine samePaths_modifyActions (fun {props new key} hnew hne => ?_) h
    split at hnew
    · cases hnew
      exact value?_insert hne _ _ _
    · cases hnew
  | removeAction path =>
    rw [revise, removeAction] at h
    refine samePaths_modifyActions (fun {props new key} hnew hne => ?_) h
    obtain ⟨⟨item, left⟩, hremove, rfl⟩ := Option.map_eq_some_iff.1 hnew
    exact value?_remove? hne hremove
  | editAction path name =>
    rw [revise, editAction] at h
    refine samePaths_modifyActions (fun {props new key} hnew hne => ?_) h
    obtain ⟨item, -, rfl⟩ := Option.map_eq_some_iff.1 hnew
    exact value?_modifyItem hne _ _ _
  | addGuard | removeGuard | editGuard =>
    obtain ⟨_, -, h⟩ := bind_eq_ok.1 h
    exact samePaths_modifyTransition h
  | addInvoke =>
    obtain ⟨_, -, h⟩ := bind_eq_ok.1 h
    refine samePaths_modifyState h fun hnew => ?_
    cases hnew
    exact value?_insert (by decide) _ _ _
  | removeInvoke => exact samePaths_removeInvoke h
  | editInvoke => exact samePaths_editInvoke h
  | setDescription => exact samePaths_setDescription h

/-! ### The states after an edit -/

/-- After an accepted edit there are the states that it says just if it does not rename a state
    next to entries of the two names that it brings into effect or that hide it. -/
theorem states_apply_iff (hcurrent : editor.Current) {edit : Edit} {editor' : Editor}
    (h : editor.apply edit = .ok editor') :
    (∀ path, editor'.graph.Has path ↔ edit.statesAfter editor.graph.Has path) ↔
      edit.isUnshadowed editor.draft = true := by
  obtain ⟨draft', hrevise, rfl⟩ := exists_of_apply h
  have hnew : ∀ path, (editor.withDraft draft').graph.Has path ↔ HasState draft' path :=
    has_extractionOf draft'
  have hold : editor.graph.Has = HasState editor.draft :=
    funext fun path => propext (hcurrent.has_iff path)
  simp only [hnew, hold]
  cases edit with
  | addState => exact iff_of_true (hasState_addState hcurrent hrevise) rfl
  | removeState => exact iff_of_true (hasState_removeState hcurrent hrevise) rfl
  | renameState => exact hasState_renameState_iff hcurrent hrevise
  | reparentState source newParent =>
    refine iff_of_true (Rebases.hasState_iff (rebases_reparentState hcurrent hrevise) ?_) rfl
    rcases List.eq_nil_or_concat' source with rfl | ⟨parent, key, rfl⟩
    · cases hrevise
    · exact movePath_nil (by simp) _
  | _ => exact iff_of_true (samePaths_revise rfl hrevise).hasState_iff rfl

/-- The other entries of the two names stand before the renamed state and are no states: the
    renaming does what it says, also for the states below. -/
theorem states_apply_iff_hiddenEntry : ∃ editor editor',
    ofText?
      "createMachine(\x7bstates: \x7bb: 0, a: 0, a: \x7bstates: \x7bx: \x7b\x7d\x7d\x7d\x7d\x7d)"
      [] = some editor ∧
    editor.apply (.renameState ["a"] "b") = .ok editor' ∧
    editor'.graph.nodes.map (·.path) = [[], ["b"], ["b", "x"]] ∧
    ∀ path, editor'.graph.Has path ↔
      (Edit.renameState ["a"] "b").statesAfter editor.graph.Has path := by
  have hfound : (ofText?
      "createMachine(\x7bstates: \x7bb: 0, a: 0, a: \x7bstates: \x7bx: \x7b\x7d\x7d\x7d\x7d\x7d)"
      []).any (fun editor =>
        (Edit.renameState ["a"] "b").isUnshadowed editor.draft &&
          (editor.apply (.renameState ["a"] "b")).toOption.any fun editor' =>
            editor'.graph.nodes.map (·.path) = [[], ["b"], ["b", "x"]]) = true := by
    decide +kernel
  obtain ⟨editor, heditor, h⟩ := (Option.any_eq_true _ _).1 hfound
  rw [Bool.and_eq_true] at h
  obtain ⟨editor', hedited, hpaths⟩ := (Option.any_eq_true _ _).1 h.2
  rw [decide_eq_true_eq] at hpaths
  have happly := eq_ok_of_toOption hedited
  exact ⟨editor, editor', heditor, happly, hpaths,
    (states_apply_iff (reached_of_ofText? heditor).current happly).2 h.1⟩

/-- Of two entries of a name the first does not count. Renaming the other brings it back, so that
    there is a state where the old one should be gone. -/
theorem renameState_revives_shadowed : ∃ editor editor',
    ofText? "createMachine(\x7bstates: \x7ba: \x7b\x7d, a: \x7b\x7d\x7d\x7d)" [] = some editor ∧
    editor.apply (.renameState ["a"] "b") = .ok editor' ∧
    editor.graph.nodes.map (·.path) = [[], ["a"]] ∧
    editor'.graph.nodes.map (·.path) = [[], ["a"], ["b"]] ∧
    ¬∀ path, editor'.graph.Has path ↔
      (Edit.renameState ["a"] "b").statesAfter editor.graph.Has path := by
  have hfound : (ofText?
      "createMachine(\x7bstates: \x7ba: \x7b\x7d, a: \x7b\x7d\x7d\x7d)" []).any (fun editor =>
      editor.graph.nodes.map (·.path) = [[], ["a"]] &&
        (editor.apply (.renameState ["a"] "b")).toOption.any fun editor' =>
          editor'.graph.nodes.map (·.path) = [[], ["a"], ["b"]]) = true := by
    decide +kernel
  obtain ⟨editor, heditor, h⟩ := (Option.any_eq_true _ _).1 hfound
  rw [Bool.and_eq_true, decide_eq_true_eq] at h
  obtain ⟨editor', hedited, hpaths⟩ := (Option.any_eq_true _ _).1 h.2
  rw [decide_eq_true_eq] at hpaths
  refine ⟨editor, editor', heditor, eq_ok_of_toOption hedited, h.1, hpaths, fun hall => ?_⟩
  have hback : editor'.graph.Has ["a"] := by rw [Graph.has_iff_mem, hpaths]; simp
  obtain ⟨p, hp, heq⟩ := (hall ["a"]).1 hback
  rw [Graph.has_iff_mem, h.1] at hp
  rcases List.mem_cons.1 hp with rfl | hp
  · cases heq
  · cases List.mem_singleton.1 hp
    exact absurd heq (by decide)

end Editor

end Statechart
