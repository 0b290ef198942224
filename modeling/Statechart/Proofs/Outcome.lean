import Mathlib.Data.List.Forall2

/-!
# Computations that may fail

What is known of the parts of a computation that has succeeded or failed.

* `bind_eq_ok`, `bind_eq_error`: two steps succeed when each does, and fail when one does;
* `mapM_eq_ok_iff`: a step for each element of a list succeeds when each does, and gives
  the list of outcomes.
-/

namespace Statechart

variable {ε α β : Type}

theorem bind_eq_ok {x : Except ε α} {f : α → Except ε β} {b : β} :
    (x >>= f) = .ok b ↔ ∃ a, x = .ok a ∧ f a = .ok b := by
  cases x with
  | error e => simp [bind, Except.bind]
  | ok a => simp [bind, Except.bind]

theorem bind_eq_error {x : Except ε α} {f : α → Except ε β} {e : ε} :
    (x >>= f) = .error e ↔ x = .error e ∨ ∃ a, x = .ok a ∧ f a = .error e := by
  cases x with
  | error e => simp [bind, Except.bind]
  | ok a => simp [bind, Except.bind]

theorem eq_ok_of_toOption {x : Except ε α} {a : α} (h : x.toOption = some a) : x = .ok a := by
  cases x with
  | error => cases h
  | ok => exact congrArg Except.ok (Option.some.inj h)

theorem mapM_eq_ok_iff {f : α → Except ε β} {l : List α} {out : List β} :
    l.mapM f = .ok out ↔ List.Forall₂ (fun a b => f a = .ok b) l out := by
  induction l generalizing out with
  | nil => simp [pure, Except.pure, eq_comm]
  | cons a l ih =>
    simp only [List.mapM_cons, bind_eq_ok, ih, List.forall₂_cons_left_iff]
    constructor
    · rintro ⟨b, hb, bs, hbs, h⟩
      cases h
      exact ⟨b, bs, hb, hbs, rfl⟩
    · rintro ⟨b, bs, hb, hbs, rfl⟩
      exact ⟨b, hb, bs, hbs, rfl⟩

variable {f : α → Except ε β} {l : List α} {out : List β}

theorem exists_of_mem_mapM (h : l.mapM f = .ok out) {b : β} (hb : b ∈ out) :
    ∃ a ∈ l, f a = .ok b := by
  obtain ⟨k, hk, rfl⟩ := List.getElem_of_mem hb
  have hall := mapM_eq_ok_iff.1 h
  have hlen := hall.length_eq
  exact ⟨l[k], List.getElem_mem _, hall.get (hlen ▸ hk) hk⟩

theorem exists_mem_of_mapM (h : l.mapM f = .ok out) {a : α} (ha : a ∈ l) :
    ∃ b ∈ out, f a = .ok b := by
  obtain ⟨k, hk, rfl⟩ := List.getElem_of_mem ha
  have hall := mapM_eq_ok_iff.1 h
  have hlen := hall.length_eq
  exact ⟨out[k], List.getElem_mem _, hall.get hk (hlen ▸ hk)⟩

end Statechart
