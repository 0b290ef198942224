import Statechart.Edit.Editor
import Statechart.Proofs.PropertyLists

/-!
# States by their paths

The properties of a state are found key by key, and changing them changes nothing at states
elsewhere but the `states` of those above.

* `propsBelow?`: the properties of a state below one, by the keys that lead there;
* `setBelow`: the same properties with those of a state below replaced;
* `propsBelow?_setBelow_append`: what is found after a replacement;
* `content`: what a state says of itself, without the states below it;
* `contentAt?_setStateProps`: what the states say of themselves after a replacement.
-/

namespace Statechart

namespace Expr

theorem props?_withProps (props : List Property) (expr : Expr) :
    (expr.withProps props).props? = expr.props?.map fun _ => props := by
  cases expr <;> rfl

theorem props?_modifyProps (f : List Property → List Property) (expr : Expr) :
    (Draft.modifyProps f expr).props? = expr.props?.map f := by
  rw [Draft.modifyProps, props?_withProps]
  cases expr.props? <;> rfl

end Expr

namespace Draft

open Property

/-- The properties of a state directly below one with the given properties. -/
def childProps? (props : List Property) (key : String) : Option (List Property) :=
  ((value? props "states").bind Expr.props?).bind fun states =>
    (value? states key).bind Expr.props?

/-- The properties of a state below one with the given properties. -/
def propsBelow? (props : List Property) : StatePath → Option (List Property)
  | [] => some props
  | key :: path => (childProps? props key).bind (propsBelow? · path)

/-- Properties with those of a state below replaced. -/
def setBelow (new : List Property) : StatePath → List Property → List Property
  | [], _ => new
  | key :: path, props =>
    modifyValue props "states" (modifyProps fun states =>
      modifyValue states key (setStateProps new path))

theorem stateProps?_eq (config : Expr) (path : StatePath) :
    stateProps? config path = config.props?.bind (propsBelow? · path) := by
  induction path generalizing config with
  | nil =>
    rw [stateProps?]
    cases config.props? <;> rfl
  | cons key path ih =>
    rw [stateProps?]
    cases hprops : config.props? with
    | none => rfl
    | some props =>
      simp only [Option.bind_eq_bind, Option.bind_some, propsBelow?, childProps?, ih,
        Option.bind_assoc]

theorem propsBelow?_append (props : List Property) (p q : StatePath) :
    propsBelow? props (p ++ q) = (propsBelow? props p).bind (propsBelow? · q) := by
  induction p generalizing props with
  | nil => rfl
  | cons key p ih => simp only [List.cons_append, propsBelow?, Option.bind_assoc, ih]

theorem stateProps?_append (config : Expr) (p q : StatePath) :
    stateProps? config (p ++ q) = (stateProps? config p).bind (propsBelow? · q) := by
  simp only [stateProps?_eq, Option.bind_assoc, propsBelow?_append]

/-- Paths lead through states. -/
theorem isSome_stateProps?_of_append {config : Expr} {p q : StatePath}
    (h : (stateProps? config (p ++ q)).isSome) : (stateProps? config p).isSome := by
  rw [stateProps?_append] at h
  exact Option.isSome_of_isSome_bind h

theorem props?_setStateProps (new : List Property) (path : StatePath) (config : Expr) :
    (setStateProps new path config).props? = config.props?.map (setBelow new path) := by
  cases path with
  | nil => exact Expr.props?_withProps new config
  | cons key path => exact Expr.props?_modifyProps _ config

theorem stateProps?_setStateProps (new : List Property) (path : StatePath) (config : Expr)
    (p : StatePath) :
    stateProps? (setStateProps new path config) p =
      config.props?.bind fun props => propsBelow? (setBelow new path props) p := by
  rw [stateProps?_eq, props?_setStateProps, Option.bind_map]
  rfl

/-- Below a state, a replacement further down changes one child. -/
theorem childProps?_setBelow (new props : List Property) (key : String) (path : StatePath)
    (other : String) :
    childProps? (setBelow new (key :: path) props) other =
      if other = key then (childProps? props key).map (setBelow new path)
      else childProps? props other := by
  rw [childProps?, setBelow, value?_modifyValue_self]
  cases hstates : value? props "states" with
  | none => simp [childProps?, hstates]
  | some states =>
    simp only [Option.map_some, Option.bind_some, Expr.props?_modifyProps, childProps?, hstates]
    cases states.props? with
    | none => simp
    | some entries =>
      simp only [Option.map_some, Option.bind_some, value?_modifyValue]
      split
      · cases value? entries key with
        | none => rfl
        | some child => exact props?_setStateProps new path child
      · rfl

/-- At or below the replaced state, the new properties are found. -/
theorem propsBelow?_setBelow_append {new props : List Property} {path : StatePath}
    (h : (propsBelow? props path).isSome) (p : StatePath) :
    propsBelow? (setBelow new path props) (path ++ p) = propsBelow? new p := by
  induction path generalizing props with
  | nil => rfl
  | cons key path ih =>
    rw [propsBelow?] at h
    cases hchild : childProps? props key with
    | none => rw [hchild] at h; exact absurd h Bool.false_ne_true
    | some child =>
      rw [hchild] at h
      rw [List.cons_append, propsBelow?, childProps?_setBelow, if_pos rfl, hchild]
      exact ih h

/-- Above the replaced state, the `states` are changed. -/
theorem propsBelow?_setBelow_above (new props : List Property) (p q : StatePath) :
    propsBelow? (setBelow new (p ++ q) props) p = (propsBelow? props p).map (setBelow new q) := by
  induction p generalizing props with
  | nil => rfl
  | cons key p ih =>
    rw [List.cons_append, propsBelow?, childProps?_setBelow, if_pos rfl, propsBelow?]
    cases childProps? props key with
    | none => rfl
    | some child => exact ih child

/-- Elsewhere nothing changes. -/
theorem propsBelow?_setBelow_apart {path p : StatePath} (habove : ¬p <+: path)
    (hbelow : ¬path <+: p) (new props : List Property) :
    propsBelow? (setBelow new path props) p = propsBelow? props p := by
  induction path generalizing p props with
  | nil => exact absurd List.nil_prefix hbelow
  | cons key path ih =>
    cases p with
    | nil => exact absurd List.nil_prefix habove
    | cons other p =>
      rw [propsBelow?, childProps?_setBelow, propsBelow?]
      split
      · next heq =>
        subst heq
        cases childProps? props other with
        | none => rfl
        | some child =>
          exact ih (fun h => habove (List.cons_prefix_cons.2 ⟨rfl, h⟩))
            (fun h => hbelow (List.cons_prefix_cons.2 ⟨rfl, h⟩)) child
      · rfl

/-- At or below the replaced state of a description, the new properties are found. -/
theorem stateProps?_setStateProps_append {config : Expr} {path : StatePath}
    (h : (stateProps? config path).isSome) (new : List Property) (rest : StatePath) :
    stateProps? (setStateProps new path config) (path ++ rest) = propsBelow? new rest := by
  obtain ⟨old, hold⟩ := Option.isSome_iff_exists.1 h
  rw [stateProps?_eq] at hold
  obtain ⟨props, hprops, hold⟩ := Option.bind_eq_some_iff.1 hold
  have hsome : (propsBelow? props path).isSome := by rw [hold]; rfl
  rw [stateProps?_setStateProps, hprops, Option.bind_some, propsBelow?_setBelow_append hsome]

theorem stateProps?_setStateProps_self {config : Expr} {path : StatePath}
    (h : (stateProps? config path).isSome) (new : List Property) :
    stateProps? (setStateProps new path config) path = some new := by
  have hself := stateProps?_setStateProps_append h new []
  rwa [List.append_nil] at hself

/-! ## What a state says of itself -/

/-- What a state says of itself, by the names of its properties: not which states are below it,
    nor which of them is the initial one. -/
def content (props : List Property) (name : String) : Option Expr :=
  if name = "states" ∨ name = "initial" then none else value? props name

/-- What the state at a path says of itself. -/
def contentAt? (config : Expr) (path : StatePath) : Option (String → Option Expr) :=
  (stateProps? config path).map content

theorem isSome_contentAt? (config : Expr) (path : StatePath) :
    (contentAt? config path).isSome = (stateProps? config path).isSome :=
  Option.isSome_map

theorem content_congr {a b : List Property}
    (h : ∀ name, name ≠ "states" → name ≠ "initial" → value? a name = value? b name) :
    content a = content b := by
  funext name
  rw [content, content]
  split
  · rfl
  · next hne =>
    rw [not_or] at hne
    exact h name hne.1 hne.2

theorem content_modifyStates (props : List Property) (f : Expr → Expr) :
    content (modifyValue props "states" f) = content props :=
  content_congr fun _ hname _ => value?_modifyValue_of_ne hname props f

theorem content_setBelow_cons (new props : List Property) (key : String) (path : StatePath) :
    content (setBelow new (key :: path) props) = content props :=
  content_modifyStates props _

theorem childProps?_congr {a b : List Property} (h : value? a "states" = value? b "states") :
    childProps? a = childProps? b := by
  funext key
  rw [childProps?, childProps?, h]

theorem propsBelow?_congr {a b : List Property} (h : value? a "states" = value? b "states")
    {path : StatePath} (hpath : path ≠ []) : propsBelow? a path = propsBelow? b path := by
  cases path with
  | nil => exact absurd rfl hpath
  | cons key path => rw [propsBelow?, propsBelow?, childProps?_congr h]

/-- At or below the replaced state, what is found is what the new properties say. -/
theorem contentAt?_setStateProps_append {config : Expr} {path : StatePath}
    (h : (stateProps? config path).isSome) (new : List Property) (rest : StatePath) :
    contentAt? (setStateProps new path config) (path ++ rest) =
      (propsBelow? new rest).map content := by
  rw [contentAt?, stateProps?_setStateProps_append h]

/-- States that are not at or below the replaced one keep their content. -/
theorem contentAt?_setStateProps_elsewhere {path p : StatePath} (h : ¬path <+: p)
    (config : Expr) (new : List Property) :
    contentAt? (setStateProps new path config) p = contentAt? config p := by
  rw [contentAt?, stateProps?_setStateProps, contentAt?, stateProps?_eq]
  cases config.props? with
  | none => rfl
  | some props =>
    rw [Option.bind_some, Option.bind_some]
    by_cases habove : p <+: path
    · obtain ⟨rest, rfl⟩ := habove
      cases rest with
      | nil => exact absurd (by simp) h
      | cons key rest =>
        rw [propsBelow?_setBelow_above, Option.map_map]
        cases propsBelow? props p with
        | none => rfl
        | some above => exact congrArg some (content_setBelow_cons new above key rest)
    · rw [propsBelow?_setBelow_apart habove h]

/-- Replacing the properties of a state by some with the same states below changes the content
    of that state alone. -/
theorem contentAt?_setStateProps {config : Expr} {path : StatePath} {old new : List Property}
    (hold : stateProps? config path = some old) (hstates : value? new "states" = value? old "states")
    (p : StatePath) :
    contentAt? (setStateProps new path config) p =
      if p = path then some (content new) else contentAt? config p := by
  by_cases hbelow : path <+: p
  · obtain ⟨rest, rfl⟩ := hbelow
    rw [contentAt?_setStateProps_append (by rw [hold]; rfl)]
    by_cases hrest : rest = []
    · subst hrest
      rw [List.append_nil, if_pos rfl]
      rfl
    · rw [propsBelow?_congr hstates hrest, if_neg (by simpa using hrest), contentAt?,
        stateProps?_append, hold]
      rfl
  · rw [contentAt?_setStateProps_elsewhere hbelow,
      if_neg fun heq : p = path => hbelow (heq ▸ List.prefix_refl _)]

end Draft

end Statechart
