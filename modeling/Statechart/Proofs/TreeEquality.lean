import Statechart.Splice.Entry

/-!
# Equality of trees

Whether two trees are the same node by node, with their origins, can be computed.

* `Expr.isSame`: compares two trees;
* `Expr.isSame_iff`: it finds the same trees.
-/

namespace Statechart

namespace Expr

mutual

/-- Whether two trees are the same, origins and all. -/
def isSame : Expr → Expr → Bool
  | object o a, object o' b => o == o' && areSameProps a b
  | array o a, array o' b => o == o' && areSame a b
  | str o a, str o' b => o == o' && a == b
  | template o a, template o' b => o == o' && a == b
  | number o a, number o' b => o == o' && a == b
  | bool o a, bool o' b => o == o' && a == b
  | null o, null o' => o == o'
  | undefined o, undefined o' => o == o'
  | ident o a, ident o' b => o == o' && a == b
  | member o a p, member o' b q => o == o' && isSame a b && p == q
  | call o a x, call o' b y => o == o' && isSame a b && areSame x y
  | function o, function o' => o == o'
  | other o a, other o' b => o == o' && a == b
  | _, _ => false

/-- Whether the trees of two lists are the same, one by one. -/
def areSame : List Expr → List Expr → Bool
  | [], [] => true
  | a :: as, b :: bs => isSame a b && areSame as bs
  | _, _ => false

/-- Whether the properties of two lists are the same, one by one. -/
def areSameProps : List (PropertyOf Expr) → List (PropertyOf Expr) → Bool
  | [], [] => true
  | ⟨o, k, s, a⟩ :: as, ⟨o', k', s', b⟩ :: bs =>
    o == o' && k == k' && s == s' && isSame a b && areSameProps as bs
  | _, _ => false

end

mutual

/-- The comparison finds the same trees. -/
theorem isSame_iff (a b : Expr) : isSame a b = true ↔ a = b := by
  cases a with
  | object o props => cases b <;> simp [isSame, areSameProps_iff props]
  | array o items => cases b <;> simp [isSame, areSame_iff items]
  | member o base property => cases b <;> simp [isSame, isSame_iff base, and_assoc]
  | call o callee args => cases b <;> simp [isSame, isSame_iff callee, areSame_iff args, and_assoc]
  | _ => cases b <;> simp [isSame]
termination_by sizeOf a

theorem areSame_iff (a b : List Expr) : areSame a b = true ↔ a = b := by
  cases a with
  | nil => cases b <;> simp [areSame]
  | cons x as => cases b <;> simp [areSame, isSame_iff x, areSame_iff as]
termination_by sizeOf a

theorem areSameProps_iff (a b : List (PropertyOf Expr)) : areSameProps a b = true ↔ a = b := by
  cases a with
  | nil => cases b <;> simp [areSameProps]
  | cons p as =>
    obtain ⟨o, k, s, x⟩ := p
    cases b with
    | nil => simp [areSameProps]
    | cons q bs =>
      obtain ⟨o', k', s', y⟩ := q
      simp [areSameProps, isSame_iff x, areSameProps_iff as, and_assoc]
termination_by sizeOf a

end

instance : DecidableEq Expr := fun a b => decidable_of_iff _ (isSame_iff a b)

end Expr

deriving instance DecidableEq for PropertyOf, Entry

end Statechart
