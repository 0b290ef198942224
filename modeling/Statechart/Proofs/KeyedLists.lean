import Statechart.Proofs.ListChanges

/-!
# Lists under keys

What is written under a key is a list of entries: none if the key is not there, the items of a
list in brackets, and otherwise one. Entries can be inserted and taken out as if it were a list,
whatever brackets come and go with them. They are the same nodes before and after, with their
origins, and all other keys stay as they are.

* `OneOrMany.Becomes`: what a change makes of the entries under a key;
* `OneOrMany.becomes_iff`: entries are inserted, and taken out, unless an entry that is a list
  itself is left alone.

An entry that is left alone loses its brackets. If it is a list itself, its own items are taken for
the entries (`OneOrMany.remove?_unwraps`).
-/

namespace Statechart.OneOrMany

open Property

variable {props new : List Property} {key : String} {entries : List Expr}

/-- The entries with another at its position, or at the end if it has none or it lies behind. -/
def inserted (index : Option Nat) (item : Expr) (entries : List Expr) : List Expr :=
  match index with
  | some i => entries.insertIdx (min i entries.length) item
  | none => entries ++ [item]

/-- The entries under a key have become others, and no other key has another value. -/
structure Becomes (props new : List Property) (key : String) (entries : List Expr) : Prop where
  entries_eq : items new key = entries
  others : ∀ other, other ≠ key → value? new other = value? props other

theorem becomes_insert (props : List Property) (key : String) (index : Option Nat) {item : Expr}
    (hitem : item.isArray = false) :
    Becomes props (insert props key index item) key (inserted index item (items props key)) where
  entries_eq := by
    cases index with
    | none => exact items_insert props key hitem
    | some i => exact items_insertAt props key (some i) hitem
  others _ hother := Draft.value?_insert hother props index item

theorem remove?_eq_none {index : Nat} (h : length props key ≤ index) :
    remove? props key index = none := by
  rw [remove?, item?, List.getElem?_eq_none h]
  rfl

/-- An entry can be taken out where there is one, and what is left is read as it is written then. -/
theorem exists_becomes_of_getElem? {index : Nat} {entry : Expr}
    (h : (items props key)[index]? = some entry) :
    ∃ left, remove? props key index = some (entry, left) ∧
      Becomes props left key (reread ((items props key).eraseIdx index)) := by
  obtain ⟨left, hleft⟩ : ∃ left, remove? props key index = some (entry, left) := by
    rw [remove?, item?, h]
    exact ⟨_, rfl⟩
  exact ⟨left, hleft, (items_of_remove? hleft).2, fun _ hother => Draft.value?_remove? hother hleft⟩

theorem Becomes.iff_eq (h : Becomes props new key entries) {entries' : List Expr} :
    Becomes props new key entries' ↔ entries = entries' :=
  ⟨fun h' => h.entries_eq.symm.trans h'.entries_eq, fun heq => heq ▸ h⟩

/-- What is written under a key behaves as a list, except that a list that is the only entry left
    is taken for the entries. -/
theorem becomes_iff (props : List Property) (key : String) :
    (∀ index item, item.isArray = false →
      Becomes props (insert props key index item) key (inserted index item (items props key))) ∧
    ∀ index,
      (length props key ≤ index → remove? props key index = none) ∧
      ∀ entry, (items props key)[index]? = some entry →
        ∃ left, remove? props key index = some (entry, left) ∧
          Becomes props left key (reread ((items props key).eraseIdx index)) ∧
          (Becomes props left key ((items props key).eraseIdx index) ↔
            ∀ last, (items props key).eraseIdx index = [last] → last.isArray = false) := by
  refine ⟨fun index item => becomes_insert props key index, fun index =>
    ⟨remove?_eq_none, fun entry hentry => ?_⟩⟩
  obtain ⟨left, hremove, hleft⟩ := exists_becomes_of_getElem? hentry
  exact ⟨left, hremove, hleft, hleft.iff_eq.trans reread_eq_self_iff⟩

/-- Of two entries of one name the last counts, and the first does not come into effect when the
    list of the last loses its brackets. -/
theorem becomes_iff_shadowed : ∃ props left : List Property,
    props.length = 2 ∧ (items props "entry")[0]? = some (.ofText "y") ∧
      remove? props "entry" 0 = some (.ofText "y", left) ∧
      Becomes props left "entry" [.ofText "z"] ∧
      Becomes props (insert props "entry" (some 7) (.ofText "w")) "entry"
        [.ofText "y", .ofText "z", .ofText "w"] := by
  obtain ⟨hinsert, hremove⟩ := becomes_iff
    [ofPair "entry" (.ofText "x"), ofPair "entry" (.ofItems [.ofText "y", .ofText "z"])] "entry"
  obtain ⟨left, hleft, -, hiff⟩ := (hremove 0).2 (.ofText "y") rfl
  refine ⟨_, left, rfl, rfl, hleft, hiff.2 fun last hlast => ?_, hinsert (some 7) (.ofText "w") rfl⟩
  obtain rfl : Expr.ofText "z" = last := (List.cons.inj hlast).1
  rfl

/-- One of two entries goes, and the other, which is a list, is taken for the entries. -/
theorem remove?_unwraps : ∃ props entry left,
    remove? props "exit" 0 = some (entry, left) ∧
      (items props "exit").eraseIdx 0 = [.ofItems [.ofText "x", .ofText "y"]] ∧
      items left "exit" = [.ofText "x", .ofText "y"] :=
  ⟨[ofPair "exit" (.ofItems [.ofText "z", .ofItems [.ofText "x", .ofText "y"]])], _, _,
    rfl, rfl, rfl⟩

end Statechart.OneOrMany
