import Mathlib.Data.List.Nodup
import Statechart.Draft.State
import Statechart.Graph.Reading

/-!
# Laws of property lists

What the entry that counts for a name is after a change, and which entries count.

* `prop?_cons`, `prop?_append`, `prop?_eraseName`: the entry that counts;
* `value?_modifyValue`: a changed value is read back, and the others stay;
* `mem_effective_iff`, `nodup_names_effective`: the entries that count are those found by
  their names, each name once;
* `effective_modifyValue`: a changed value stays in its place;
* `prop?_effective`, `prop?_map`, `effective_map`: entries that are dropped, since they do not
  count, and entries that are changed in their places.
-/

namespace Statechart

namespace Property

variable {props : List Property} {prop : Property} {name other : String}

theorem isNamed_iff : prop.isNamed name = true ↔ prop.name = some name := beq_iff_eq

theorem isNamed_eq_false_iff : prop.isNamed name = false ↔ prop.name ≠ some name := by
  rw [Bool.eq_false_iff, ne_eq, isNamed_iff]

/-- An entry has no second name. -/
theorem isNamed_eq_false_of_ne (h : prop.isNamed name = true) (hne : other ≠ name) :
    prop.isNamed other = false := by
  rw [isNamed_iff] at h
  rw [isNamed_eq_false_iff, h]
  exact fun heq => hne (Option.some.inj heq).symm

theorem sizeOf_value_lt (prop : Property) : sizeOf prop.value < sizeOf prop := by
  cases prop
  simp only [PropertyOf.mk.sizeOf_spec]
  omega

@[simp] theorem prop?_nil (name : String) : prop? [] name = none := rfl

@[simp] theorem hasName_nil (name : String) : hasName [] name = false := rfl

@[simp] theorem hasName_cons (prop : Property) (props : List Property) (name : String) :
    hasName (prop :: props) name = (prop.isNamed name || hasName props name) := rfl

@[simp] theorem hasName_append (a b : List Property) (name : String) :
    hasName (a ++ b) name = (hasName a name || hasName b name) :=
  List.any_append

/-- Of two lists, the entries of the second count first. -/
theorem prop?_append (a b : List Property) (name : String) :
    prop? (a ++ b) name = (prop? b name).or (prop? a name) := by
  rw [prop?, List.reverse_append, List.find?_append]
  rfl

theorem prop?_cons (prop : Property) (props : List Property) (name : String) :
    prop? (prop :: props) name =
      (prop? props name).or (if prop.isNamed name then some prop else none) := by
  rw [prop?, List.reverse_cons, List.find?_append]
  cases h : prop.isNamed name <;> simp [h, prop?]

theorem value?_cons (prop : Property) (props : List Property) (name : String) :
    value? (prop :: props) name =
      (value? props name).or (if prop.isNamed name then some prop.value else none) := by
  rw [value?, prop?_cons, value?]
  cases prop? props name <;> cases prop.isNamed name <;> rfl

theorem isSome_prop? (props : List Property) (name : String) :
    (prop? props name).isSome = hasName props name := by
  rw [Bool.eq_iff_iff, prop?, List.find?_isSome, hasName, List.any_eq_true]
  simp only [List.mem_reverse]

theorem isSome_value? (props : List Property) (name : String) :
    (value? props name).isSome = hasName props name := by
  rw [value?, Option.isSome_map, isSome_prop?]

theorem prop?_eq_none (h : hasName props name = false) : prop? props name = none := by
  rw [← Option.not_isSome_iff_eq_none, isSome_prop?, h]
  exact Bool.false_ne_true

theorem value?_eq_none (h : hasName props name = false) : value? props name = none := by
  rw [value?, prop?_eq_none h]
  rfl

/-- The entry that counts for a name is one of the entries, and has the name. -/
theorem mem_of_prop? (h : prop? props name = some prop) :
    prop ∈ props ∧ prop.name = some name := by
  rw [prop?] at h
  have hnamed := List.find?_some h
  exact ⟨List.mem_reverse.1 (List.mem_of_find?_eq_some h), isNamed_iff.1 hnamed⟩

theorem prop?_of_hasName (h : hasName props name = true) (prop : Property) :
    prop? (prop :: props) name = prop? props name := by
  rw [← isSome_prop?, Option.isSome_iff_exists] at h
  obtain ⟨found, h⟩ := h
  rw [prop?_cons, h]
  rfl

theorem prop?_of_not_hasName (h : hasName props name = false) (prop : Property) :
    prop? (prop :: props) name = if prop.isNamed name then some prop else none := by
  rw [prop?_cons, prop?_eq_none h]
  rfl

/-! ## Changing the entry that counts -/

variable {f : Property → Property}

/-- Changing an entry keeps which names there are, as long as it keeps its own. -/
theorem hasName_modifyLast (hf : ∀ p, p.isNamed name = true → (f p).isNamed other = p.isNamed other) :
    hasName (modifyLast name f props) other = hasName props other := by
  induction props with
  | nil => rfl
  | cons p props ih =>
    rw [modifyLast]
    split
    · rw [hasName_cons, hasName_cons, ih]
    · split
      · next hp => rw [hasName_cons, hasName_cons, hf p hp]
      · rfl

theorem prop?_modifyLast_self (hf : ∀ p, p.isNamed name = true → (f p).isNamed name = true) :
    prop? (modifyLast name f props) name = (prop? props name).map f := by
  have hname : ∀ p, p.isNamed name = true → (f p).isNamed name = p.isNamed name :=
    fun p hp => by rw [hp, hf p hp]
  induction props with
  | nil => rfl
  | cons p props ih =>
    rw [modifyLast]
    split
    · next h => rw [prop?_of_hasName h, prop?_of_hasName (by rwa [hasName_modifyLast hname]), ih]
    · next h =>
      rw [Bool.not_eq_true] at h
      split
      · next hp => rw [prop?_of_not_hasName h, prop?_of_not_hasName h, hf p hp, hp]; rfl
      · next hp =>
        rw [Bool.not_eq_true] at hp
        rw [prop?_of_not_hasName h, hp]
        rfl

theorem prop?_modifyLast_of_ne
    (hf : ∀ p, p.isNamed name = true → (f p).isNamed other = false) (hne : other ≠ name) :
    prop? (modifyLast name f props) other = prop? props other := by
  induction props with
  | nil => rfl
  | cons p props ih =>
    rw [modifyLast]
    split
    · rw [prop?_cons, prop?_cons, ih]
    · split
      · next hp =>
        rw [prop?_cons, prop?_cons, hf p hp, isNamed_eq_false_of_ne hp hne]
        rfl
      · rfl

/-- A changed value is read back, and the others stay. -/
theorem prop?_modifyValue (props : List Property) (name other : String) (f : Expr → Expr) :
    prop? (modifyValue props name f) other =
      if other = name then
        (prop? props name).map fun prop => { prop with value := f prop.value }
      else prop? props other := by
  split
  · next h => subst h; exact prop?_modifyLast_self fun p hp => hp
  · next h =>
    exact prop?_modifyLast_of_ne (fun _ hp => isNamed_eq_false_of_ne hp h) h

theorem value?_modifyValue (props : List Property) (name other : String) (f : Expr → Expr) :
    value? (modifyValue props name f) other =
      if other = name then (value? props name).map f else value? props other := by
  rw [value?, prop?_modifyValue]
  split <;> simp [value?, Function.comp_def]

@[simp] theorem value?_modifyValue_self (props : List Property) (name : String) (f : Expr → Expr) :
    value? (modifyValue props name f) name = (value? props name).map f := by
  rw [value?_modifyValue, if_pos rfl]

theorem value?_modifyValue_of_ne (h : other ≠ name) (props : List Property) (f : Expr → Expr) :
    value? (modifyValue props name f) other = value? props other := by
  rw [value?_modifyValue, if_neg h]

theorem hasName_modifyValue (props : List Property) (name other : String) (f : Expr → Expr) :
    hasName (modifyValue props name f) other = hasName props other :=
  hasName_modifyLast fun _ _ => rfl

/-! ## Dropping and adding entries -/

theorem prop?_eraseName (props : List Property) (name other : String) :
    prop? (eraseName props name) other = if other = name then none else prop? props other := by
  induction props with
  | nil => simp [eraseName]
  | cons p props ih =>
    rw [eraseName, List.filter_cons]
    cases hp : p.isNamed name with
    | true =>
      simp only [Bool.not_true, Bool.false_eq_true, if_false]
      rw [← eraseName, ih, prop?_cons]
      split
      · rfl
      · next h =>
        simp [isNamed_eq_false_of_ne hp h]
    | false =>
      simp only [Bool.not_false, if_true]
      rw [← eraseName, prop?_cons, ih, prop?_cons]
      split
      · next h => simp [h, hp]
      · rfl

theorem value?_eraseName (props : List Property) (name other : String) :
    value? (eraseName props name) other = if other = name then none else value? props other := by
  rw [value?, prop?_eraseName]
  split <;> rfl

theorem name_ofPair (name : String) (value : Expr) : (ofPair name value).name = some name := by
  rw [PropertyOf.name, ofPair]
  dsimp only
  split <;> rfl

theorem value?_append_ofPair (props : List Property) (name other : String) (value : Expr) :
    value? (props ++ [ofPair name value]) other =
      if other = name then some value else value? props other := by
  rw [value?, prop?_append, prop?_cons]
  by_cases h : other = name
  · subst h
    have hnamed : (ofPair other value).isNamed other = true := isNamed_iff.2 (name_ofPair _ _)
    rw [hnamed, if_pos rfl, if_pos rfl]
    rfl
  · have hnamed : (ofPair name value).isNamed name = true := isNamed_iff.2 (name_ofPair _ _)
    rw [isNamed_eq_false_of_ne hnamed h, if_neg h]
    rfl

theorem value?_setValue (props : List Property) (name other : String) (value : Expr) :
    value? (setValue props name value) other =
      if other = name then some value else value? props other := by
  rw [setValue]
  split
  · next h =>
    rw [value?_modifyValue]
    split
    · rw [← isSome_value?, Option.isSome_iff_exists] at h
      obtain ⟨old, h⟩ := h
      rw [h]
      rfl
    · rfl
  · exact value?_append_ofPair props name other value

end Property

/-! ## The entries that count -/

open Property

variable {props : List Property} {prop : Property} {name : String}

/-- The entries that count are those found by their names. -/
theorem mem_effective_iff :
    prop ∈ effective props ∧ prop.name = some name ↔ prop? props name = some prop := by
  induction props with
  | nil => simp [effective]
  | cons p props ih =>
    rw [effective]
    cases hp : p.name with
    | none =>
      have hnot : p.isNamed name = false := isNamed_eq_false_iff.2 (by simp [hp])
      dsimp only
      rw [prop?_cons, hnot, List.mem_cons, or_and_right, ih]
      simp only [Bool.false_eq_true, if_false, Option.or_none, or_iff_right_iff_imp, and_imp]
      rintro rfl h
      exact absurd h (by simp [hp])
    | some n =>
      dsimp only
      by_cases hn : n = name
      · subst hn
        split
        · next h => rw [prop?_of_hasName h, ih]
        · next h =>
          rw [Bool.not_eq_true] at h
          rw [prop?_of_not_hasName h, isNamed_iff.2 hp, List.mem_cons, or_and_right, ih,
            prop?_eq_none h]
          simp only [if_true, Option.some.injEq, reduceCtorEq, or_false]
          exact ⟨fun h => h.1.symm, fun h => ⟨h.symm, h ▸ hp⟩⟩
      · have hnot : p.isNamed name = false := isNamed_eq_false_iff.2 (by simp [hp, hn])
        rw [prop?_cons, hnot]
        simp only [Bool.false_eq_true, if_false, Option.or_none]
        split
        · exact ih
        · rw [List.mem_cons, or_and_right, ih, or_iff_right_iff_imp]
          rintro ⟨rfl, h⟩
          exact absurd (Option.some.inj (hp.symm.trans h)) hn

theorem effective_sublist (props : List Property) : (effective props).Sublist props := by
  induction props with
  | nil => exact .slnil
  | cons prop props ih =>
    rw [effective]
    split
    · split
      · exact ih.cons _
      · exact ih.cons_cons _
    · exact ih.cons_cons _

theorem mem_of_mem_effective (h : prop ∈ effective props) : prop ∈ props :=
  (effective_sublist props).subset h

/-- Each name counts once. -/
theorem nodup_names_effective (props : List Property) :
    ((effective props).filterMap (·.name)).Nodup := by
  induction props with
  | nil => exact List.nodup_nil
  | cons p props ih =>
    rw [effective]
    split
    · next n hn =>
      split
      · exact ih
      · next h =>
        rw [List.filterMap_cons_some hn, List.nodup_cons]
        refine ⟨fun hmem => h ?_, ih⟩
        obtain ⟨q, hq, hqn⟩ := List.mem_filterMap.1 hmem
        rw [hasName, List.any_eq_true]
        exact ⟨q, mem_of_mem_effective hq, isNamed_iff.2 hqn⟩
    · next hn =>
      rw [List.filterMap_cons_none hn]
      exact ih

/-- Changing the value of a name does nothing where the name is not there. -/
theorem map_effective_of_not_hasName (h : hasName props name = false) (f : Expr → Expr) :
    ((effective props).map fun prop =>
      if prop.isNamed name then { prop with value := f prop.value } else prop) =
      effective props := by
  rw [List.map_congr_left (g := id), List.map_id]
  intro prop hprop
  rw [hasName, List.any_eq_false] at h
  rw [if_neg (h prop (mem_of_mem_effective hprop))]
  rfl

/-- A changed value stays in its place. -/
theorem effective_modifyValue (props : List Property) (name : String) (f : Expr → Expr) :
    effective (modifyValue props name f) = (effective props).map fun prop =>
      if prop.isNamed name then { prop with value := f prop.value } else prop := by
  induction props with
  | nil => rfl
  | cons p props ih =>
    rw [modifyValue, modifyLast]
    split
    · next h =>
      rw [← modifyValue, effective, effective]
      cases hn : p.name with
      | none =>
        have hnot : p.isNamed name = false := isNamed_eq_false_iff.2 (by simp [hn])
        simp [hnot, ih]
      | some n =>
        simp only [hasName_modifyValue]
        split
        · exact ih
        · next hlast =>
          -- The entry counts, so that it is not of the name that comes again.
          have hnot : p.isNamed name = false := isNamed_eq_false_iff.2 fun heq =>
            hlast (Option.some.inj (hn.symm.trans heq) ▸ h)
          simp [hnot, ih]
    · next h =>
      rw [Bool.not_eq_true] at h
      split
      · next hp =>
        have hn := isNamed_iff.1 hp
        have hn' : PropertyOf.name { p with value := f p.value } = some name := hn
        rw [effective, effective, hn, hn']
        simp only [h, Bool.false_eq_true, if_false, List.map_cons, hp, if_true]
        rw [map_effective_of_not_hasName h]
      · next hp =>
        rw [Bool.not_eq_true] at hp
        rw [map_effective_of_not_hasName (by rw [hasName_cons, hp, h]; rfl)]

theorem prop?_effective (props : List Property) (name : String) :
    prop? (effective props) name = prop? props name := by
  induction props with
  | nil => rfl
  | cons prop props ih =>
    rw [effective]
    cases hprop : prop.name with
    | none => rw [prop?_cons, prop?_cons, ih]
    | some other =>
      dsimp only
      split
      · next hother =>
        rw [ih]
        by_cases heq : name = other
        · rw [prop?_of_hasName (heq ▸ hother)]
        · rw [prop?_cons, isNamed_eq_false_of_ne (isNamed_iff.2 hprop) heq, if_neg (by simp),
            Option.or_none]
      · rw [prop?_cons, prop?_cons, ih]

/-- Entries that count are not shadowed. -/
theorem effective_effective (props : List Property) :
    effective (effective props) = effective props := by
  induction props with
  | nil => rfl
  | cons prop props ih =>
    rw [effective]
    cases hprop : prop.name with
    | none =>
      dsimp only
      rw [effective, hprop, ih]
    | some name =>
      dsimp only
      split
      · exact ih
      · next hname =>
        rw [← isSome_prop?, ← prop?_effective, isSome_prop?] at hname
        rw [effective, hprop, ih]
        simp only [hname, Bool.false_eq_true, if_false]

section

variable {f : Property → Property} (hf : ∀ prop, (f prop).name = prop.name)

include hf

/-- Entries may be changed in their places, as long as they keep their names. -/
theorem prop?_map (props : List Property) (name : String) :
    prop? (props.map f) name = (prop? props name).map f := by
  induction props with
  | nil => rfl
  | cons prop props ih =>
    rw [List.map_cons, prop?_cons, prop?_cons, ih, PropertyOf.isNamed, hf, ← PropertyOf.isNamed]
    cases prop? props name <;> cases prop.isNamed name <;> rfl

theorem effective_map (props : List Property) :
    effective (props.map f) = (effective props).map f := by
  induction props with
  | nil => rfl
  | cons prop props ih =>
    rw [List.map_cons, effective, effective, hf, ih]
    cases prop.name with
    | none => rfl
    | some name =>
      dsimp only
      rw [← isSome_prop?, prop?_map hf, Option.isSome_map, isSome_prop?]
      split <;> rfl

end

end Statechart
