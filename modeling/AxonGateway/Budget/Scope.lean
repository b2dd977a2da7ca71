import Mathlib

/-!
# Budget scopes

The names under which one charge is counted, in the order of their strings.
-/

namespace AxonGateway.Budget

inductive Scope where
  | project
  | quota
  | user
  deriving DecidableEq, Repr, Inhabited

/-- The position of the scope's string among `"project"`, `"quota"`, `"user"`. -/
def Scope.rank : Scope → ℕ
  | project => 0
  | quota => 1
  | user => 2

theorem Scope.rank_injective : Function.Injective Scope.rank := by
  intro a b h
  cases a <;> cases b <;> simp_all [Scope.rank]

end AxonGateway.Budget
