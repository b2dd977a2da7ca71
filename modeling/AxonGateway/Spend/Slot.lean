import Mathlib

/-!
# A local copy of a shared spend counter

One scope's entries in a process's maps of totals and billing epochs, with the
rules by which results of shared operations and own charges change them.  An
absent entry reads as zero.  Amounts are exact.
-/

namespace AxonGateway.Spend

/-- A shared counter: its total and its billing epoch. -/
structure SpendCounterState where
  total : ℚ
  epoch : ℕ
  deriving DecidableEq

/-- What a process has on file of a counter. -/
structure Slot where
  total : ℚ := 0
  epoch : ℕ := 0
  deriving DecidableEq

namespace Slot

/-- Take over a shared total with its epoch, never back in the same epoch. -/
def adopt (s : Slot) (state : SpendCounterState) : Slot :=
  if state.epoch < s.epoch then s
  else if s.epoch < state.epoch then ⟨state.total, state.epoch⟩
  else { s with total := max state.total s.total }

/-- Take over a shared total without its epoch. -/
def raise (s : Slot) (total : ℚ) : Slot := { s with total := max total s.total }

/-- Add an own charge. -/
def add (s : Slot) (cost : ℚ) : Slot := { s with total := s.total + cost }

theorem adopt_of_eq {s : Slot} {state : SpendCounterState} (h : state.epoch = s.epoch) :
    s.adopt state = { s with total := max state.total s.total } := by
  simp [adopt, h]

theorem adopt_of_lt {s : Slot} {state : SpendCounterState} (h : s.epoch < state.epoch) :
    s.adopt state = ⟨state.total, state.epoch⟩ := by
  simp [adopt, h, h.le]

theorem adopt_of_gt {s : Slot} {state : SpendCounterState} (h : state.epoch < s.epoch) :
    s.adopt state = s := by
  simp [adopt, h]

theorem le_epoch_adopt (s : Slot) (state : SpendCounterState) :
    s.epoch ≤ (s.adopt state).epoch := by
  rcases lt_trichotomy state.epoch s.epoch with h | h | h
  · rw [adopt_of_gt h]
  · rw [adopt_of_eq h]
  · rw [adopt_of_lt h]
    exact h.le

/-- An adopted total is the shared one, or what was on file. -/
theorem total_adopt_le (s : Slot) (state : SpendCounterState) {bound : ℚ}
    (hs : s.total ≤ bound) (hstate : state.total ≤ bound) : (s.adopt state).total ≤ bound := by
  rcases lt_trichotomy state.epoch s.epoch with h | h | h
  · rwa [adopt_of_gt h]
  · rw [adopt_of_eq h]
    exact max_le hstate hs
  · rwa [adopt_of_lt h]

end Slot

namespace CostTracker

/-- The part of `_refresh_spend_state` after its read. -/
def refreshSpendState (s : Slot) : Option SpendCounterState → Slot
  | none => s
  | some state => s.adopt state

def bumpSpend (s : Slot) (cost : ℚ) : Slot := s.add cost

def adoptReservedSpend (s : Slot) (total : ℚ) : Slot := s.raise total

/-- Drop the total and the epoch. -/
def clearProjectSpend (_ : Slot) : Slot := {}

end CostTracker

structure BudgetStatus where
  currentSpend : ℚ
  budgetLimit : Option ℚ
  alertThreshold : Option ℚ
  isOverBudget : Bool
  isAlertTriggered : Bool

/-- What `check_budget` reports of a slot. -/
def budgetStatus (budgetLimit alertThreshold : Option ℚ) (s : Slot) : BudgetStatus where
  currentSpend := s.total
  budgetLimit := budgetLimit
  alertThreshold := alertThreshold
  isOverBudget := budgetLimit.any fun limit ↦ decide (limit ≤ s.total)
  isAlertTriggered := alertThreshold.any fun threshold ↦ decide (threshold ≤ s.total)

end AxonGateway.Spend
