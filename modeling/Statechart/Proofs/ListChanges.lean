import Statechart.Proofs.SlotItems

/-!
# Changes under a key

The entries of a list are written under a key of an object, with brackets or without. A change of
such a list depends on its entries alone, and tells what is read under the key afterwards: other
entries, or nothing, if the key goes with the last of them. An entry that is left alone loses its
brackets, so that one that is a list itself is taken for the whole.

* `Reference.Names`: an expression refers to an implementation by name;
* `Draft.names_setReference`: an entry that is given a name does so;
* `OneOrMany.Changes`: a change under a key;
* `OneOrMany.changes_insert`, `OneOrMany.changes_remove`, `OneOrMany.changes_modify`: entries come,
  go, or are changed in their place.
-/

namespace Statechart

open Property

/-! ## Names -/

namespace Reference

variable {kind : BlockKind} {name : String}

/-- An expression refers to an implementation by name, perhaps with parameters. -/
def Names (kind : BlockKind) (expr : Expr) (name : String) : Prop :=
  ∃ params, (shape kind).value? expr = some (.named name params)

theorem names_str (origin : Origin) : Names kind (.str origin name) name := by
  refine ⟨none, ?_⟩
  simp [shape, Shape.value?, Shape.oneOf, Shape.text, Shape.map, Shape.andThen, Expr.text?]

theorem names_object {origin : Origin} {props : List Property}
    (h : (value? props "type").bind Expr.text? = some name) :
    Names kind (.object origin props) name := by
  have hread : ofProps? props = some (.named name ((value? props "params").map Expr.datum)) := by
    rw [ofProps?, h]
    rfl
  refine ⟨_, Eq.trans ?_ hread⟩
  simp [shape, Shape.value?, Shape.oneOf, Shape.text, Shape.map, Shape.andThen, Shape.object,
    Expr.text?, Expr.isObject, Expr.props?, hread]

end Reference

namespace Draft

theorem exists_retext_eq (value : String) (expr : Expr) :
    ∃ origin, retext value expr = .str origin value := by
  cases expr with
  | str origin => exact ⟨origin, rfl⟩
  | _ => exact ⟨_, rfl⟩

/-- A reference that is given a name refers to it by that name. -/
theorem names_setReference (kind : BlockKind) (name : String) (expr : Expr) :
    Reference.Names kind (setReference name expr) name := by
  cases expr with
  | object origin props =>
    rw [setReference]
    split
    · next hname =>
      refine Reference.names_object ?_
      obtain ⟨old, hold⟩ := Option.isSome_iff_exists.1 ((isSome_value? props "type").trans hname)
      obtain ⟨origin, heq⟩ := exists_retext_eq name old
      rw [setText, if_pos hname, value?_modifyValue_self, hold, Option.map_some, heq]
      rfl
    · exact Reference.names_str _
  | _ => exact Reference.names_str _

theorem isArray_setReference (name : String) (expr : Expr) :
    (setReference name expr).isArray = false := by
  cases expr with
  | object =>
    rw [setReference]
    split <;> rfl
  | _ => rfl

end Draft

/-! ## Changes of one list -/

namespace OneOrMany

variable {props new : List Property} {key : String}

theorem map_itemsOf_value? (h : hasName props key = true) :
    (value? props key).map itemsOf = some (items props key) := by
  obtain ⟨value, hvalue⟩ := Option.isSome_iff_exists.1 ((isSome_value? props key).trans h)
  rw [items, hvalue]
  rfl

theorem hasName_of_getElem? {index : Nat} {item : Expr}
    (h : (items props key)[index]? = some item) : hasName props key = true := by
  by_contra hname
  rw [items_of_not_hasName (Bool.not_eq_true _ ▸ hname)] at h
  cases h

theorem hasName_insert (props : List Property) (key : String) (index : Option Nat) (item : Expr) :
    hasName (insert props key index item) key = true := by
  rw [insert]
  split
  · next hname => exact (hasName_modifyValue _ _ _ _).trans hname
  · rw [hasName_append, hasName_cons, isNamed_iff.2 (name_ofPair key item)]
    simp

/-- The entries that are read after one is taken out; none if the key goes with the last. -/
def removal (index : Nat) (items : List Expr) : Option (List Expr) :=
  match items.eraseIdx index with
  | [] => none
  | left => some (reread left)

/-- An entry that is no list is still there once another is taken out. -/
theorem getElem?_removal {entries : List Expr} {i j : Nat} {entry : Expr}
    (hentry : entries[j]? = some entry) (hne : j ≠ i) (harray : entry.isArray = false) :
    ∃ left, removal i entries = some left ∧
      left[if i < j then j - 1 else j]? = some entry := by
  have hleft : (entries.eraseIdx i)[if i < j then j - 1 else j]? = some entry := by
    rw [List.getElem?_eraseIdx, ← hentry]
    split
    · rw [if_neg (by omega), Nat.sub_add_cancel (by omega)]
    · rw [if_pos (by omega)]
  rw [removal]
  split
  · next hnil =>
    rw [hnil] at hleft
    cases hleft
  · refine ⟨_, rfl, ?_⟩
    rw [reread_eq_self_iff.2 fun last hlast => ?_]
    · exact hleft
    · -- The only entry that is left is the one in question.
      obtain rfl : entry = last := by
        have hmem := List.mem_of_getElem? hleft
        rw [hlast] at hmem
        exact List.mem_singleton.1 hmem
      exact harray

theorem map_itemsOf_remove? {index : Nat} {item : Expr}
    (h : remove? props key index = some (item, new)) :
    (value? new key).map itemsOf = removal index (items props key) := by
  obtain ⟨hitem, hitems⟩ := items_of_remove? h
  have hname := hasName_of_getElem? hitem
  have hkept (f : Expr → Expr) : hasName (modifyValue props key f) key = true :=
    (hasName_modifyValue _ _ _ _).trans hname
  obtain ⟨removed, -, h⟩ := Option.map_eq_some_iff.1 h
  obtain ⟨-, rfl⟩ := Prod.mk.inj h
  rw [removal]
  split at hitems
  · next hleft =>
    rw [value?_eraseName, if_pos rfl, hleft]
    rfl
  · next last hleft => rw [map_itemsOf_value? (hkept _), hitems, hleft]
  · next hnil hone =>
    rw [map_itemsOf_value? (hkept _), hitems]
    split
    · next hleft => exact absurd hleft hnil
    · rfl

/-- A change of the entries under a key. It depends on the entries whether it can be made and what
    is read then (nothing, if the key goes), and other keys stay as they are. -/
structure Changes (f : List Property → String → Option (List Property)) (fits : List Expr → Prop)
    (result : List Expr → Option (List Expr)) : Prop where
  accepts : ∀ props key, (f props key).isSome ↔ fits (items props key)
  others : ∀ {props key new}, f props key = some new →
    ∀ name, name ≠ key → value? new name = value? props name
  reads : ∀ {props key new}, f props key = some new →
    (value? new key).map itemsOf = result (items props key)

/-- Inserting an entry. -/
theorem changes_insert (index : Nat) {item : Expr} (hitem : item.isArray = false) :
    Changes (fun props key =>
        if index ≤ length props key then some (insert props key (some index) item) else none)
      (index ≤ ·.length) fun entries => some (entries.insertIdx index item) where
  accepts props key := by
    rw [length]
    split
    · next hindex => exact iff_of_true rfl hindex
    · next hindex => exact iff_of_false Bool.false_ne_true hindex
  others h name hname := by
    obtain ⟨-, hnew⟩ := Option.ite_none_right_eq_some.1 h
    cases hnew
    exact Draft.value?_insert hname _ _ _
  reads {props key new} h := by
    obtain ⟨hindex, hnew⟩ := Option.ite_none_right_eq_some.1 h
    cases hnew
    rw [map_itemsOf_value? (hasName_insert _ _ _ _), items_insertAt props key _ hitem,
      Option.getD_some, Nat.min_eq_left hindex]

/-- Taking an entry out. -/
theorem changes_remove (index : Nat) :
    Changes (fun props key => (remove? props key index).map (·.2)) (index < ·.length)
      (removal index) where
  accepts props key := by
    rw [Option.isSome_map, remove?, Option.isSome_map, item?, isSome_getElem?]
  others h name hname := by
    obtain ⟨⟨item, left⟩, hremove, rfl⟩ := Option.map_eq_some_iff.1 h
    exact Draft.value?_remove? hname hremove
  reads h := by
    obtain ⟨⟨item, left⟩, hremove, rfl⟩ := Option.map_eq_some_iff.1 h
    exact map_itemsOf_remove? hremove

/-- Changing an entry in its place, unless it becomes a list. -/
theorem changes_modify (index : Nat) {f : Expr → Expr}
    (hf : ∀ item, item.isArray = false → (f item).isArray = false) :
    Changes (fun props key => (item? props key index).map fun _ => modifyItem props key index f)
      (index < ·.length) fun entries => some (entries.modify index f) where
  accepts props key := by
    rw [Option.isSome_map, item?, isSome_getElem?]
  others h name hname := by
    obtain ⟨item, -, rfl⟩ := Option.map_eq_some_iff.1 h
    exact Draft.value?_modifyItem hname _ _ _
  reads {props key new} h := by
    obtain ⟨item, hitem, rfl⟩ := Option.map_eq_some_iff.1 h
    have hname : hasName (modifyItem props key index f) key = true :=
      (hasName_modifyValue _ _ _ _).trans (hasName_of_getElem? hitem)
    rw [map_itemsOf_value? hname]
    refine congrArg some (List.ext_getElem? fun i => ?_)
    have hat := Draft.item?_modifyItem hf props key key index i
    rw [item?, item?] at hat
    rw [hat, List.getElem?_modify, item?]
    by_cases hi : i = index
    · simp [hi]
    · simp [hi, Ne.symm hi]

end OneOrMany

end Statechart
