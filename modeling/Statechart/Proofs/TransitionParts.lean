import Statechart.Proofs.ActionLists

/-!
# The parts of a transition

What a written transition says falls into parts: its target, its guard, its actions, its flag and
its description. A target alone is a transition with no other part, and nothing at all is one
without any. A transition may take one form or another, and the parts are the same; and what is
written under the keys of one part leaves the others alone.

* `Draft.Parts`, `Draft.partsOf`: the parts of a written transition;
* `Draft.partsOf_promote`, `Draft.partsOf_collapse`: the forms of a transition have the same parts;
* `Draft.partsIn_of_guard`, `Draft.partsIn_of_flag`, `Draft.partsIn_of_actions`,
  `Draft.partsIn_of_description`: a change of one part;
* `Draft.partsOf_addGuard`, `Draft.partsOf_editGuard`, `Draft.partsOf_removeGuard`,
  `Draft.partsOf_describe`, `Draft.partsOf_eraseDescription`: transitions with a part changed.
-/

namespace Statechart

open Property

namespace Draft

/-! ## Parts -/

/-- The key in use, of a keyword and its old form, with its value. -/
def inUse? (props : List Property) (successor old : String) : Option (String × Expr) :=
  ((value? props successor).map (successor, ·)).or ((value? props old).map (old, ·))

/-- The parts of a transition, as they are written. -/
structure Parts where
  target : Option Expr := none
  guard : Option Expr := none
  actions : Option Expr := none
  /-- The flag, with the keyword that says what it means. -/
  flag : Option (String × Expr) := none
  description : Option Expr := none

/-- The parts that properties hold. -/
def partsIn (props : List Property) : Parts where
  target := value? props "target"
  guard := (inUse? props "guard" "cond").map (·.2)
  actions := value? props "actions"
  flag := inUse? props "reenter" "internal"
  description := value? props "description"

/-- The parts of a written transition. -/
def partsOf : Expr → Parts
  | .str origin value => { target := some (.str origin value) }
  | item => partsIn (itemProps item)

/-- The entries of the list of actions. -/
def Parts.entries (parts : Parts) : List Expr :=
  (parts.actions.map OneOrMany.itemsOf).getD []

/-- A transition says the same as an object. -/
theorem partsOf_promote (item : Expr) : partsOf (promote item) = partsOf item := by
  cases item <;> rfl

/-- A transition says the same as a target alone, if it is one. -/
theorem partsOf_collapse (item : Expr) : partsOf (collapse item) = partsOf item := by
  unfold collapse
  split
  · next origin place key span textOrigin value =>
    split
    · next hkey =>
      have hnamed : PropertyOf.isNamed ⟨place, key, span, Expr.str textOrigin value⟩ "target" =
          true := isNamed_iff.2 hkey
      have hvalue (name : String) :
          value? [⟨place, key, span, Expr.str textOrigin value⟩] name =
            if name = "target" then some (.str textOrigin value) else none := by
        have hnil : value? [] name = none := rfl
        rw [value?_cons, hnil]
        by_cases hname : name = "target"
        · simp [hname, hnamed]
        · simp [hname, isNamed_eq_false_of_ne hnamed hname]
      simp [partsOf, partsIn, inUse?, itemProps, Expr.props?, hvalue]
    · rfl
  · rfl

theorem partsOf_dropEmpty (item : Expr) : partsOf (dropEmpty item) = partsOf item := by
  unfold dropEmpty
  split <;> rfl

/-- Properties that are replaced are those of an object. -/
theorem partsOf_withProps {item : Expr} {props : List Property} (h : item.isObject = true) :
    partsOf (item.withProps props) = partsIn props := by
  cases item with
  | object => rfl
  | _ => cases h

theorem partsOf_of_isObject {item : Expr} (h : item.isObject = true) :
    partsOf item = partsIn (itemProps item) := by
  cases item with
  | object => rfl
  | _ => cases h

/-! ## Changes of one part -/

section

variable {props new : List Property}

/-- What is written under the keys of the guard is the guard. -/
theorem partsIn_of_guard (h : ∀ name ∉ ["guard", "cond"], value? new name = value? props name) :
    partsIn new =
      { partsIn props with guard := (inUse? new "guard" "cond").map (·.2) } := by
  simp only [partsIn, inUse?, h "target" (by decide), h "actions" (by decide),
    h "description" (by decide), h "reenter" (by decide), h "internal" (by decide)]

/-- What is written under the keys of the flag is the flag. -/
theorem partsIn_of_flag
    (h : ∀ name ∉ ["reenter", "internal"], value? new name = value? props name) :
    partsIn new = { partsIn props with flag := inUse? new "reenter" "internal" } := by
  simp only [partsIn, inUse?, h "target" (by decide), h "actions" (by decide),
    h "description" (by decide), h "guard" (by decide), h "cond" (by decide)]

theorem partsIn_of_actions (h : ∀ name, name ≠ "actions" → value? new name = value? props name) :
    partsIn new = { partsIn props with actions := value? new "actions" } := by
  simp only [partsIn, inUse?, h "target" (by decide), h "guard" (by decide), h "cond" (by decide),
    h "description" (by decide), h "reenter" (by decide), h "internal" (by decide)]

theorem partsIn_of_description
    (h : ∀ name, name ≠ "description" → value? new name = value? props name) :
    partsIn new = { partsIn props with description := value? new "description" } := by
  simp only [partsIn, inUse?, h "target" (by decide), h "actions" (by decide),
    h "guard" (by decide), h "cond" (by decide), h "reenter" (by decide), h "internal" (by decide)]

end

/-! ## Keywords with an old form -/

section

variable {props : List Property} {successor old key : String}

/-- A change of the value in use. -/
theorem inUse?_modifyValue (h : effectiveKey? props successor old = some key)
    (hne : old ≠ successor) (f : Expr → Expr) :
    inUse? (modifyValue props key f) successor old =
      (value? props key).map fun value => (key, f value) := by
  rw [inUse?]
  rw [effectiveKey?] at h
  split at h
  · next hname =>
    cases h
    obtain ⟨value, hvalue⟩ :=
      Option.isSome_iff_exists.1 ((isSome_value? props successor).trans hname)
    simp [hvalue]
  · next hname =>
    split at h
    · cases h
      rw [value?_modifyValue_of_ne hne.symm, value?_eq_none (Bool.not_eq_true _ ▸ hname),
        value?_modifyValue_self]
      simp [Function.comp_def]
    · cases h

/-- A value comes into use where there was none. -/
theorem inUse?_append (h : effectiveKey? props successor old = none)
    (hkey : key ∈ [successor, old]) (value : Expr) :
    inUse? (props ++ [ofPair key value]) successor old = some (key, value) := by
  have hnone := value?_eq_none (hasName_of_effectiveKey?_eq_none h (List.mem_cons_self ..))
  rw [inUse?, value?_append_ofPair, value?_append_ofPair, hnone]
  rcases List.mem_cons.1 hkey with rfl | hkey
  · simp
  · obtain rfl := List.mem_singleton.1 hkey
    by_cases heq : successor = key
    · simp [heq]
    · simp [heq]

theorem inUse?_erasePair (props : List Property) (successor old : String) :
    inUse? (erasePair props successor old) successor old = none := by
  simp [inUse?, erasePair, value?_eraseName]

theorem value?_erasePair {name : String} (hname : name ∉ [successor, old]) (props : List Property) :
    value? (erasePair props successor old) name = value? props name := by
  simp only [List.mem_cons, List.not_mem_nil, or_false, not_or] at hname
  rw [erasePair, value?_eraseName, value?_eraseName, if_neg hname.2, if_neg hname.1]

end

/-! ## Transitions with a part changed -/

section

variable (item : Expr)

/-- An item with a property is an object. -/
theorem isObject_of_hasName {item : Expr} {name : String}
    (h : hasName (itemProps item) name = true) : item.isObject = true := by
  cases item with
  | object => rfl
  | _ => cases h

/-- A guard that is given a name, or a new one with that name. -/
theorem partsOf_addGuard {guardKey name : String} (hkey : guardKey ∈ ["guard", "cond"]) :
    ∃ guard, Reference.Names .guard guard name ∧
      partsOf ((promote item).withProps
        (match effectiveKey? (itemProps (promote item)) "guard" "cond" with
        | some key => modifyValue (itemProps (promote item)) key (setReference name)
        | none => itemProps (promote item) ++ [ofPair guardKey (.ofText name)])) =
      { partsOf item with guard := some guard } := by
  obtain ⟨origin, props, hpromote⟩ := exists_promote_eq item
  have hobject : (promote item).isObject = true := by rw [hpromote]; rfl
  rw [partsOf_withProps hobject, ← partsOf_promote item, partsOf_of_isObject hobject]
  generalize itemProps (promote item) = props
  cases heffective : effectiveKey? props "guard" "cond" with
  | some key =>
    obtain ⟨hmem, hname⟩ := effectiveKey?_mem heffective
    obtain ⟨value, hvalue⟩ := Option.isSome_iff_exists.1 ((isSome_value? props key).trans hname)
    refine ⟨setReference name value, names_setReference _ _ _, ?_⟩
    rw [partsIn_of_guard fun other hother =>
        value?_modifyValue_of_ne (ne_of_mem_of_not_mem hmem hother).symm _ _,
      inUse?_modifyValue heffective (by decide), hvalue]
    rfl
  | none =>
    refine ⟨.ofText name, Reference.names_str _, ?_⟩
    rw [partsIn_of_guard fun other hother => ?_, inUse?_append heffective hkey]
    · rfl
    · rw [value?_append_ofPair, if_neg (ne_of_mem_of_not_mem hkey hother).symm]

/-- The guard that is in use is given a name. -/
theorem partsOf_editGuard {key name : String}
    (hkey : effectiveKey? (itemProps item) "guard" "cond" = some key) :
    ∃ guard, Reference.Names .guard guard name ∧
      partsOf (item.withProps (modifyValue (itemProps item) key (setReference name))) =
        { partsOf item with guard := some guard } := by
  obtain ⟨hmem, hname⟩ := effectiveKey?_mem hkey
  obtain ⟨value, hvalue⟩ :=
    Option.isSome_iff_exists.1 ((isSome_value? (itemProps item) key).trans hname)
  refine ⟨setReference name value, names_setReference _ _ _, ?_⟩
  have hobject := isObject_of_hasName hname
  rw [partsOf_withProps hobject, partsOf_of_isObject hobject,
    partsIn_of_guard fun other hother =>
      value?_modifyValue_of_ne (ne_of_mem_of_not_mem hmem hother).symm _ _,
    inUse?_modifyValue hkey (by decide), hvalue]
  rfl

/-- The guard goes, whichever keys it is written under. -/
theorem partsOf_removeGuard :
    partsOf (collapse (item.withProps (erasePair (itemProps item) "guard" "cond"))) =
      { partsOf item with guard := none } := by
  rw [partsOf_collapse]
  cases item with
  | object origin props =>
    change partsIn (erasePair props "guard" "cond") = { partsIn props with guard := none }
    rw [partsIn_of_guard fun name hname => value?_erasePair hname props, inUse?_erasePair]
    rfl
  | _ => rfl

/-- A description is given another text, or a new one is written. -/
theorem partsOf_describe (text : String) :
    ∃ description, description.text? = some text ∧
      partsOf ((promote item).withProps
        (setText (itemProps (promote item)) "description" text)) =
      { partsOf item with description := some description } := by
  obtain ⟨origin, props, hpromote⟩ := exists_promote_eq item
  rw [← partsOf_promote item, hpromote]
  change ∃ description, _ ∧ partsIn (setText props "description" text) =
    { partsIn props with description := some description }
  have hvalue : ∃ description, description.text? = some text ∧
      value? (setText props "description" text) "description" = some description := by
    rw [setText]
    split
    · next hname =>
      obtain ⟨old, hold⟩ :=
        Option.isSome_iff_exists.1 ((isSome_value? props "description").trans hname)
      obtain ⟨origin, heq⟩ := exists_retext_eq text old
      refine ⟨retext text old, by rw [heq]; rfl, ?_⟩
      rw [value?_modifyValue_self, hold]
      rfl
    · exact ⟨.ofText text, rfl, by rw [value?_append_ofPair, if_pos rfl]⟩
  obtain ⟨description, htext, hvalue⟩ := hvalue
  exact ⟨description, htext, by
    rw [partsIn_of_description fun name hname => value?_setText hname props text, hvalue]⟩

/-- The description goes. -/
theorem partsOf_eraseDescription :
    partsOf (collapse (item.withProps (eraseName (itemProps item) "description"))) =
      { partsOf item with description := none } := by
  rw [partsOf_collapse]
  cases item with
  | object origin props =>
    change partsIn (eraseName props "description") = { partsIn props with description := none }
    rw [partsIn_of_description fun name hname => (value?_eraseName _ _ _).trans (if_neg hname),
      value?_eraseName, if_pos rfl]
  | _ => rfl

end

end Draft

end Statechart
