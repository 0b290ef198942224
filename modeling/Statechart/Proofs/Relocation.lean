import Statechart.Edit.State
import Statechart.Proofs.Retargeting

/-!
# States that go elsewhere

Renaming and moving a state take it, with all below it, from one path to another. What the
states say of themselves is the same afterwards, each at its new path.

* `Relocated`: each state has gone to where a map of paths sends it;
* `Moved`: the states at and below a path have gone below another;
* `moved_renameChild`, `moved_appendChild`: what renaming and moving do;
* `relocated_setId`: giving an id leaves the states where they are.
-/

namespace Statechart

open Property

namespace Draft

/-- A description in which each state has gone, with its transitions, to where `move` sends its
    path. -/
structure Relocated (move : StatePath → StatePath) (old new : Expr) : Prop where
  states : ∀ q, (stateProps? new q).isSome ↔ ∃ p, (stateProps? old p).isSome ∧ move p = q
  injective : ∀ {p q}, (stateProps? old p).isSome → (stateProps? old q).isSome →
    move p = move q → p = q
  items : ∀ {p}, (stateProps? old p).isSome → itemAt? new (move p) = itemAt? old p

/-- A description in which the states at and below `source` have gone to `dest`, where there was
    none. -/
structure Moved (source dest : StatePath) (old new : Expr) : Prop where
  free : stateProps? old dest = none
  below : ∀ rest, contentAt? new (dest ++ rest) = contentAt? old (source ++ rest)
  gone : ∀ rest, ¬dest <+: source ++ rest → contentAt? new (source ++ rest) = none
  elsewhere : ∀ p, ¬source <+: p → ¬dest <+: p → contentAt? new p = contentAt? old p

theorem Relocated.isObject {move : StatePath → StatePath} {old new : Expr}
    (h : Relocated move old new) (hold : old.isObject = true) : new.isObject = true := by
  have hroot : (stateProps? new (move [])).isSome := (h.states _).2 ⟨[], hold, rfl⟩
  exact isSome_stateProps?_of_append (p := []) hroot

/-! ## Paths -/

theorem startsWith_iff {path start : StatePath} :
    Editor.startsWith path start = true ↔ start <+: path := by
  rw [Editor.startsWith, beq_iff_eq, List.prefix_iff_eq_take, eq_comm]

theorem movePath_append (source dest rest : StatePath) :
    Editor.movePath source dest (source ++ rest) = dest ++ rest := by
  rw [Editor.movePath, if_pos (startsWith_iff.2 (List.prefix_append source rest)),
    List.drop_left]

theorem movePath_elsewhere {source path : StatePath} (h : ¬source <+: path)
    (dest : StatePath) : Editor.movePath source dest path = path := by
  rw [Editor.movePath, if_neg fun hstart => h (startsWith_iff.1 hstart)]

theorem movePath_self (source path : StatePath) : Editor.movePath source source path = path := by
  by_cases h : source <+: path
  · obtain ⟨rest, rfl⟩ := h
    exact movePath_append source source rest
  · exact movePath_elsewhere h source

namespace Moved

variable {source dest : StatePath} {old new : Expr}

theorem free_dest (h : Moved source dest old new) {p : StatePath}
    (hp : (stateProps? old p).isSome) : ¬dest <+: p := by
  rintro ⟨rest, rfl⟩
  have hdest := isSome_stateProps?_of_append hp
  rw [h.free] at hdest
  cases hdest

/-- What a state says of itself is the same at its new path. -/
theorem contentAt?_movePath (h : Moved source dest old new) {p : StatePath}
    (hp : (stateProps? old p).isSome) :
    contentAt? new (Editor.movePath source dest p) = contentAt? old p := by
  by_cases hbelow : source <+: p
  · obtain ⟨rest, rfl⟩ := hbelow
    rw [movePath_append]
    exact h.below rest
  · rw [movePath_elsewhere hbelow]
    exact h.elsewhere p hbelow (h.free_dest hp)

/-- Every state has come from somewhere. -/
theorem exists_movePath_eq (h : Moved source dest old new) {q : StatePath}
    (hq : (stateProps? new q).isSome) :
    ∃ p, (stateProps? old p).isSome ∧ Editor.movePath source dest p = q := by
  rw [← isSome_contentAt?] at hq
  by_cases hdest : dest <+: q
  · obtain ⟨rest, rfl⟩ := hdest
    rw [h.below, isSome_contentAt?] at hq
    exact ⟨source ++ rest, hq, movePath_append source dest rest⟩
  · by_cases hsource : source <+: q
    · obtain ⟨rest, rfl⟩ := hsource
      rw [h.gone rest hdest] at hq
      cases hq
    · rw [h.elsewhere q hsource hdest, isSome_contentAt?] at hq
      exact ⟨q, hq, movePath_elsewhere hsource dest⟩

theorem movePath_injective (h : Moved source dest old new) {p q : StatePath}
    (hp : (stateProps? old p).isSome) (hq : (stateProps? old q).isSome)
    (heq : Editor.movePath source dest p = Editor.movePath source dest q) : p = q := by
  by_cases hpsource : source <+: p <;> by_cases hqsource : source <+: q
  · obtain ⟨a, rfl⟩ := hpsource
    obtain ⟨b, rfl⟩ := hqsource
    rw [movePath_append, movePath_append] at heq
    rw [List.append_cancel_left heq]
  -- A state that moved does not meet one that stayed, since there was none where it went.
  · obtain ⟨a, rfl⟩ := hpsource
    rw [movePath_append, movePath_elsewhere hqsource] at heq
    exact absurd (heq ▸ List.prefix_append dest a) (h.free_dest hq)
  · obtain ⟨b, rfl⟩ := hqsource
    rw [movePath_append, movePath_elsewhere hpsource] at heq
    exact absurd (heq ▸ List.prefix_append dest b) (h.free_dest hp)
  · rwa [movePath_elsewhere hpsource, movePath_elsewhere hqsource] at heq

theorem relocated (h : Moved source dest old new) :
    Relocated (Editor.movePath source dest) old new where
  states q := by
    refine ⟨h.exists_movePath_eq, ?_⟩
    rintro ⟨p, hp, rfl⟩
    rw [← isSome_contentAt?, h.contentAt?_movePath hp, isSome_contentAt?]
    exact hp
  injective := h.movePath_injective
  items hp := itemAt?_eq_of_content (h.contentAt?_movePath hp)

end Moved

/-! ## Changing the states below one -/

theorem propsBelow?_cons (props : List Property) (key : String) (rest : StatePath) :
    propsBelow? props (key :: rest) = (childProps? props key).bind (propsBelow? · rest) := rfl

theorem contentAt?_append_cons {config : Expr} {path : StatePath} {props : List Property}
    (h : stateProps? config path = some props) (key : String) (rest : StatePath) :
    contentAt? config (path ++ key :: rest) =
      ((childProps? props key).bind (propsBelow? · rest)).map content := by
  rw [contentAt?, stateProps?_append, h]
  rfl

/-- A state that gets other states below it keeps those with the same properties. -/
theorem contentAt?_setStateProps_of_child {config : Expr} {path : StatePath}
    {old new : List Property} (hold : stateProps? config path = some old)
    (hcontent : content new = content old) {p : StatePath}
    (hp : ∀ key rest, p = path ++ key :: rest → childProps? new key = childProps? old key) :
    contentAt? (setStateProps new path config) p = contentAt? config p := by
  by_cases hbelow : path <+: p
  · obtain ⟨rest, rfl⟩ := hbelow
    rw [contentAt?_setStateProps_append (by rw [hold]; rfl)]
    cases rest with
    | nil => rw [List.append_nil, contentAt?, hold, propsBelow?, Option.map_some, hcontent]; rfl
    | cons key rest =>
      rw [contentAt?_append_cons hold, propsBelow?_cons, hp key rest rfl]
  · exact contentAt?_setStateProps_elsewhere hbelow config new

/-! ## Renaming -/

/-- The entries by their names after one got a new name. -/
theorem value?_renameKey {props : List Property} {old new : String}
    (hnames : (props.filterMap (·.name)).Nodup) (hnew : hasName props new = false)
    (name : String) :
    value? (renameKey props old new) name =
      if name = new then value? props old else if name = old then none else value? props name := by
  induction props with
  | nil => simp [renameKey, modifyLast, value?]
  | cons p rest ih =>
    rw [hasName_cons, Bool.or_eq_false_iff] at hnew
    have hnone := value?_eq_none hnew.2
    rw [renameKey, modifyLast]
    by_cases hold : hasName rest old = true
    · -- The entry is further behind, so that the first one has another name.
      have hp : p.isNamed old = false := by
        refine isNamed_eq_false_iff.2 fun hname => ?_
        rw [List.filterMap_cons_some hname, List.nodup_cons] at hnames
        rw [hasName, List.any_eq_true] at hold
        obtain ⟨q, hq, hqname⟩ := hold
        exact hnames.1 (List.mem_filterMap.2 ⟨q, hq, isNamed_iff.1 hqname⟩)
      have hrest : (rest.filterMap (·.name)).Nodup :=
        hnames.sublist ((List.sublist_cons_self p rest).filterMap _)
      rw [if_pos hold, ← renameKey, value?_cons, ih hrest hnew.2, value?_cons p, value?_cons p, hp]
      by_cases hn : name = new
      · simp [hn, hnew.1]
      · by_cases ho : name = old
        · simp [ho, hp]
        · simp [hn, ho]
    · rw [if_neg hold]
      rw [Bool.not_eq_true] at hold
      split
      · next hp =>
        have hnamed : PropertyOf.isNamed { p with key := keyFor new } new = true :=
          isNamed_iff.2 (by rw [PropertyOf.name, keyFor]; dsimp only; split <;> rfl)
        rw [value?_cons, value?_cons p, value?_cons p, hp]
        by_cases hn : name = new
        · simp [hn, hnone, hnamed, value?_eq_none hold]
        · rw [isNamed_eq_false_of_ne hnamed hn]
          by_cases ho : name = old
          · subst ho
            simp [hn, value?_eq_none hold]
          · simp [hn, ho, isNamed_eq_false_of_ne hp ho]
      · next hp =>
        rw [Bool.not_eq_true] at hp
        by_cases hn : name = new
        · simp [hn, value?_cons, hnone, hnew.1, hp, value?_eq_none hold]
        · by_cases ho : name = old
          · simp [ho, value?_cons, hp, value?_eq_none hold]
          · simp [hn, ho]

theorem value?_renameInitial {name : String} (hname : name ≠ "initial") (props : List Property)
    (key : String) : value? (renameInitial props key) name = value? props name :=
  value?_modifyValue_of_ne hname props _

/-- A state with one of the states below it renamed. -/
def renameChild (props : List Property) (key name : String) : List Property :=
  let props := if initialKey? props = some key then renameInitial props name else props
  modifyValue props "states" (modifyProps (renameKey · key name))

theorem value?_renameChild {name : String} (hstates : name ≠ "states") (hinitial : name ≠ "initial")
    (props : List Property) (old new : String) :
    value? (renameChild props old new) name = value? props name := by
  rw [renameChild, value?_modifyValue_of_ne hstates]
  split
  · exact value?_renameInitial hinitial props new
  · rfl

theorem content_renameChild (props : List Property) (old new : String) :
    content (renameChild props old new) = content props :=
  content_congr fun _ hstates hinitial => value?_renameChild hstates hinitial props old new

/-- The entries of the states below one after one of them was renamed. -/
theorem states_renameChild (props : List Property) (old new : String) :
    (value? (renameChild props old new) "states").bind Expr.props? =
      ((value? props "states").bind Expr.props?).map (renameKey · old new) := by
  have hsame : value? (if initialKey? props = some old then renameInitial props new else props)
      "states" = value? props "states" := by
    split
    · exact value?_renameInitial (by decide) props new
    · rfl
  rw [renameChild, value?_modifyValue_self, hsame]
  cases value? props "states" with
  | none => rfl
  | some states => exact Expr.props?_modifyProps _ states

/-- The states below one after one of them was renamed. -/
theorem childProps?_renameChild {props : List Property} {old new : String}
    (hstates : ∀ states, (value? props "states").bind Expr.props? = some states →
      (states.filterMap (·.name)).Nodup ∧ hasName states new = false) (key : String) :
    childProps? (renameChild props old new) key =
      if key = new then childProps? props old
      else if key = old then none else childProps? props key := by
  simp only [childProps?, states_renameChild]
  cases hprops : (value? props "states").bind Expr.props? with
  | none => simp
  | some states =>
    obtain ⟨hnames, hnew⟩ := hstates states hprops
    rw [Option.map_some, Option.bind_some, value?_renameKey hnames hnew]
    split
    · rfl
    · split <;> rfl

/-- A state takes a new name, with those below it, if its parent finds it by that name alone. -/
theorem moved_of_childProps {config : Expr} {parent : StatePath} {props new : List Property}
    {key name : String} (hparent : stateProps? config parent = some props)
    (hcontent : content new = content props)
    (hchild : ∀ other, childProps? new other =
      if other = name then childProps? props key
      else if other = key then none else childProps? props other)
    (hfree : stateProps? config (parent ++ [name]) = none) (hne : name ≠ key) :
    Moved (parent ++ [key]) (parent ++ [name]) config (setStateProps new parent config) where
  free := hfree
  below rest := by
    rw [List.append_assoc, List.append_assoc, List.singleton_append, List.singleton_append,
      contentAt?_setStateProps_append (by rw [hparent]; rfl), contentAt?_append_cons hparent,
      propsBelow?_cons, hchild, if_pos rfl]
  gone rest _ := by
    rw [List.append_assoc, List.singleton_append,
      contentAt?_setStateProps_append (by rw [hparent]; rfl), propsBelow?_cons,
      hchild, if_neg hne.symm, if_pos rfl]
    rfl
  elsewhere p hold hnew := by
    refine contentAt?_setStateProps_of_child hparent hcontent ?_
    -- A path through another key than the two names.
    rintro other rest rfl
    have hne : ∀ key, ¬parent ++ [key] <+: parent ++ other :: rest → other ≠ key := by
      rintro key hkey rfl
      exact hkey (by simp)
    rw [hchild, if_neg (hne name hnew), if_neg (hne key hold)]

/-- Renaming takes a state and those below it to the new name. -/
theorem moved_renameChild {config : Expr} {parent : StatePath} {props : List Property}
    {old new : String} (hparent : stateProps? config parent = some props)
    (hstates : ∀ states, (value? props "states").bind Expr.props? = some states →
      (states.filterMap (·.name)).Nodup ∧ hasName states new = false)
    (hfree : stateProps? config (parent ++ [new]) = none) (hne : new ≠ old) :
    Moved (parent ++ [old]) (parent ++ [new]) config
      (setStateProps (renameChild props old new) parent config) :=
  moved_of_childProps hparent (content_renameChild props old new)
    (childProps?_renameChild hstates) hfree hne

/-! ## Moving -/

theorem value?_clearInitial {name : String} (hname : name ≠ "initial") (props : List Property)
    (key : String) : value? (clearInitial props key) name = value? props name := by
  rw [clearInitial]
  split
  · rw [value?_eraseName, if_neg hname]
  · rfl

theorem content_clearInitial (props : List Property) (key : String) :
    content (clearInitial props key) = content props :=
  content_congr fun _ _ hinitial => value?_clearInitial hinitial props key

theorem childProps?_clearInitial (props : List Property) (key : String) :
    childProps? (clearInitial props key) = childProps? props :=
  childProps?_congr (value?_clearInitial (by decide) props key)

/-- What is taken is the state with the key, and the others below are left. -/
theorem takeChild?_eq_some {props left : List Property} {child : Property} {key : String}
    (h : takeChild? props key = some (child, left)) :
    child.name = some key ∧ child.value.props? = childProps? props key ∧
      content left = content props ∧
      ∀ other, childProps? left other = if other = key then none else childProps? props other := by
  rw [takeChild?] at h
  obtain ⟨children, hchildren, h⟩ := Option.bind_eq_some_iff.1 h
  obtain ⟨found, hfound, h⟩ := Option.bind_eq_some_iff.1 h
  have hleft : ∀ other, value? (eraseName children key) other =
      if other = key then none else value? children other :=
    fun other => value?_eraseName children key other
  have hchild : ∀ other, childProps? props other = (value? children other).bind Expr.props? := by
    intro other
    rw [childProps?, hchildren, Option.bind_some]
  simp only [Option.pure_def, Option.some.injEq, Prod.mk.injEq] at h
  obtain ⟨rfl, rfl⟩ := h
  refine ⟨(mem_of_prop? hfound).2, ?_, ?_, fun other => ?_⟩
  · rw [hchild, value?, hfound]
    rfl
  · refine content_congr fun name hname _ => ?_
    split
    · rw [value?_eraseName, if_neg hname]
    · exact value?_modifyValue_of_ne hname props _
  · have hkept : ((value? children other).bind Expr.props?) = childProps? props other :=
      (hchild other).symm
    split
    · next hempty =>
      -- Nothing is left, so that nothing was there but the state with the key.
      rw [childProps?, value?_eraseName, if_pos rfl, ← hkept]
      have hnone := hleft other
      rw [List.isEmpty_iff.1 hempty] at hnone
      by_cases ho : other = key
      · rw [if_pos ho]; rfl
      · rw [if_neg ho] at hnone ⊢
        rw [← hnone]
        rfl
    · rw [childProps?, value?_modifyValue_self, bind_props?_withProps, hchildren, Option.map_some,
        Option.bind_some, hleft, ← hkept]
      split <;> rfl

theorem value?_append_singleton (props : List Property) (prop : Property) (name : String) :
    value? (props ++ [prop]) name =
      if prop.isNamed name then some prop.value else value? props name := by
  rw [value?, prop?_append, prop?_cons]
  cases prop.isNamed name <;> rfl

/-- A state that is put below another is found there, and the others below stay. -/
theorem appendChild?_eq_some {props new : List Property} {child : Property} {key : String}
    (hname : child.name = some key) (h : appendChild? props child = some new) :
    content new = content props ∧ ∀ other, childProps? new other =
      if other = key then child.value.props? else childProps? props other := by
  have hnamed : ∀ other, child.isNamed other = true ↔ other = key := fun other => by
    rw [isNamed_iff, hname, Option.some.injEq, eq_comm]
  rw [appendChild?] at h
  cases hstates : value? props "states" with
  | none =>
    rw [hstates] at h
    cases h
    refine ⟨content_congr fun name hstates _ => ?_, fun other => ?_⟩
    · rw [value?_append_ofPair, if_neg hstates]
    · rw [childProps?, value?_append_ofPair, if_pos rfl, Option.bind_some, Expr.ofProps,
        Expr.props?, Option.bind_some, ← List.nil_append [child], value?_append_singleton]
      simp only [hnamed, childProps?, hstates]
      split <;> rfl
  | some states =>
    rw [hstates] at h
    obtain ⟨children, hchildren, rfl⟩ := Option.map_eq_some_iff.1 h
    refine ⟨content_modifyStates props _, fun other => ?_⟩
    rw [childProps?, value?_modifyValue_self, bind_props?_withProps, hstates, Option.bind_some,
      hchildren, Option.map_some, Option.bind_some, value?_append_singleton]
    simp only [hnamed, childProps?, hstates, hchildren, Option.bind_some]
    split <;> rfl

/-- Taking a state away leaves what is not at or below it. -/
theorem contentAt?_takeChild {config : Expr} {parent : StatePath} {props left : List Property}
    {key : String} (hparent : stateProps? config parent = some props)
    (hcontent : content left = content props)
    (hleft : ∀ other, childProps? left other = if other = key then none else childProps? props other) :
    (∀ rest, contentAt? (setStateProps left parent config) (parent ++ [key] ++ rest) = none) ∧
      ∀ p, ¬parent ++ [key] <+: p →
        contentAt? (setStateProps left parent config) p = contentAt? config p := by
  constructor
  · intro rest
    rw [List.append_assoc, List.singleton_append,
      contentAt?_setStateProps_append (by rw [hparent]; rfl), propsBelow?_cons, hleft, if_pos rfl]
    rfl
  · intro p hp
    refine contentAt?_setStateProps_of_child hparent hcontent ?_
    rintro other rest rfl
    rw [hleft, if_neg]
    rintro rfl
    exact hp (by simp)

/-- Moving takes a state and those below it to the end of another. -/
theorem moved_appendChild {config : Expr} {parent dest : StatePath}
    {props left props' new : List Property} {child : Property} {key : String}
    (hparent : stateProps? config parent = some props)
    (htake : takeChild? (clearInitial props key) key = some (child, left))
    (hdest : stateProps? (setStateProps left parent config) dest = some props')
    (happend : appendChild? props' child = some new)
    (hfree : stateProps? config (dest ++ [key]) = none) :
    Moved (parent ++ [key]) (dest ++ [key]) config
      (setStateProps new dest (setStateProps left parent config)) := by
  obtain ⟨hname, hvalue, hcontent, hleft⟩ := takeChild?_eq_some htake
  rw [content_clearInitial] at hcontent
  rw [childProps?_clearInitial] at hvalue hleft
  obtain ⟨hgone, hkept⟩ := contentAt?_takeChild hparent hcontent hleft
  obtain ⟨hcontent', hnew⟩ := appendChild?_eq_some hname happend
  have houtside : ∀ p, ¬dest ++ [key] <+: p →
      contentAt? (setStateProps new dest (setStateProps left parent config)) p =
        contentAt? (setStateProps left parent config) p := by
    intro p hp
    refine contentAt?_setStateProps_of_child hdest hcontent' ?_
    rintro other rest rfl
    rw [hnew, if_neg]
    rintro rfl
    exact hp (by simp)
  -- Below the new place is what was taken; below the old one nothing, unless the new place is
  -- there; the rest is as it was.
  refine ⟨hfree, fun rest => ?_, fun rest hrest => ?_, fun p hsource hp => ?_⟩
  · rw [List.append_assoc, List.append_assoc, List.singleton_append,
      contentAt?_setStateProps_append (by rw [hdest]; rfl), contentAt?_append_cons hparent,
      propsBelow?_cons, hnew, if_pos rfl, hvalue]
  · rw [houtside _ hrest, hgone]
  · rw [houtside p hp, hkept p hsource]

/-! ## Ids -/

theorem value?_setOptionalText {name key : String} (hname : name ≠ key) (props : List Property)
    (value : Option String) : value? (setOptionalText props key value) name = value? props name := by
  cases value with
  | none => rw [setOptionalText, value?_eraseName, if_neg hname]
  | some text =>
    rw [setOptionalText, setText]
    split
    · exact value?_modifyValue_of_ne hname props _
    · rw [value?_append_ofPair, if_neg hname]

/-- Giving an id leaves the states, with their transitions, where they are. -/
theorem relocated_setId {config : Expr} {path : StatePath} {props : List Property}
    (hpath : stateProps? config path = some props) (id : Option String) :
    Relocated (fun p => p) config (setStateProps (setOptionalText props "id" id) path config) := by
  have hstates : value? (setOptionalText props "id" id) "states" = value? props "states" :=
    value?_setOptionalText (by decide) props id
  have hcontent := contentAt?_setStateProps hpath hstates
  have hself := stateProps?_setStateProps_self (Option.isSome_of_eq_some hpath)
    (setOptionalText props "id" id)
  have hsome : ∀ p, (stateProps? (setStateProps (setOptionalText props "id" id) path config)
      p).isSome = (stateProps? config p).isSome := by
    intro p
    by_cases hp : p = path
    · rw [hp, hself, hpath]
      rfl
    · rw [← isSome_contentAt?, hcontent, if_neg hp, isSome_contentAt?]
  refine ⟨fun q => ?_, fun _ _ heq => heq, fun {p} _ => ?_⟩
  · rw [hsome]
    exact ⟨fun h => ⟨q, h, rfl⟩, fun ⟨p, h, heq⟩ => heq ▸ h⟩
  · by_cases hp : p = path
    · funext place
      rw [hp, itemAt?, itemAt?, hself, hpath, Option.bind_some, Option.bind_some]
      exact itemIn?_congr (value?_setOptionalText (Slot.property_ne (by decide) _) props id)
    · exact itemAt?_eq_of_content ((hcontent p).trans (if_neg hp))

end Draft

end Statechart
