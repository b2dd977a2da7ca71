import AxonGateway.Lib.Schedule
import AxonGateway.Spend.Slot

/-!
# The budget gate of one gateway

Budgeted requests of one project on one gateway.  Each checks the budget
against the local total, reserves its estimate in the shared counter, replaces
the estimate by its cost, adds the cost to the local total and takes over the
total that the shared counter then shows.  Between any two of these steps other
requests may run.
-/

namespace AxonGateway.Spend.Gate

open Interleaving

/-- The shared project counter, the gateway's slot for it, and a record of what
went on: the largest value of the counter, the requests that hold a value of it
they have not taken over, and those between reserving and taking over their
final total. -/
structure State where
  shared : SpendCounterState
  slot : Slot
  peak : ℚ
  reading : Finset ℕ
  accounting : Finset ℕ

namespace State

/-- Change the shared counter. -/
def store (s : State) (total : ℚ) : State :=
  { s with shared := { s.shared with total := total }, peak := max total s.peak }

end State

/-- The steps between which a request lets others run. -/
inductive Op where
  | getSpendState
  | refreshSpendState (state : Option SpendCounterState)
  | reserveBudget (amount limit : ℚ)
  | finalizeBudget (reserved actual : ℚ)
  | finalTotal
  | recordUsage (cost : ℚ)
  | adoptReservedSpend (total : ℚ)

/-- What a step answers. -/
abbrev Ret : Op → Type
  | .getSpendState => Option SpendCounterState
  | .refreshSpendState _ => Slot
  | .reserveBudget _ _ => Bool
  | .finalizeBudget _ _ => Unit
  | .finalTotal => ℚ
  | .recordUsage _ => Unit
  | .adoptReservedSpend _ => Unit

/-- A read may fail.  A reservation may be refused by another counter it needs. -/
inductive Exec (i : ℕ) : (o : Op) → State → Ret o → State → Prop
  | getSpendState (s : State) :
      Exec i .getSpendState s (some s.shared) { s with reading := insert i s.reading }
  | getSpendState_failed (s : State) : Exec i .getSpendState s none s
  | refreshSpendState (state : Option SpendCounterState) (s : State) :
      Exec i (.refreshSpendState state) s (CostTracker.refreshSpendState s.slot state)
        { s with
          slot := CostTracker.refreshSpendState s.slot state
          reading := s.reading.erase i }
  | reserveBudget (amount limit : ℚ) (s : State) (hroom : s.shared.total ≤ limit - amount) :
      Exec i (.reserveBudget amount limit) s true
        { s.store (s.shared.total + amount) with accounting := insert i s.accounting }
  | reserveBudget_denied (amount limit : ℚ) (s : State) :
      Exec i (.reserveBudget amount limit) s false s
  | finalizeBudget (reserved actual : ℚ) (s : State) :
      Exec i (.finalizeBudget reserved actual) s () (s.store (s.shared.total + (actual - reserved)))
  | finalTotal (s : State) : Exec i .finalTotal s s.shared.total s
  | recordUsage (cost : ℚ) (s : State) :
      Exec i (.recordUsage cost) s () { s with slot := CostTracker.bumpSpend s.slot cost }
  | adoptReservedSpend (total : ℚ) (s : State) :
      Exec i (.adoptReservedSpend total) s ()
        { s with
          slot := CostTracker.adoptReservedSpend s.slot total
          accounting := s.accounting.erase i }

abbrev Program := Prog Op Ret

/-- A request: the limits its project is registered with, the limit it reserves
under, its estimate and what it turns out to cost. -/
structure Request where
  budgetLimit : Option ℚ
  alertThreshold : Option ℚ
  reservationLimit : ℚ
  estimate : ℚ
  cost : ℚ

def checkBudget (budgetLimit alertThreshold : Option ℚ) : Program BudgetStatus := do
  let state ← if budgetLimit.isSome || alertThreshold.isSome then Prog.op Op.getSpendState
    else pure none
  let slot ← Prog.op (Op.refreshSpendState state)
  pure (budgetStatus budgetLimit alertThreshold slot)

/-- The cost tracking step after the provider's answer. -/
def trackCost (r : Request) : Program Unit := do
  -- a negative charge is refused before the counter is touched
  if r.cost < 0 then pure ()
  else
    Prog.op (Op.finalizeBudget r.estimate r.cost)
    let total ← Prog.op Op.finalTotal
    Prog.op (Op.recordUsage r.cost)
    Prog.op (Op.adoptReservedSpend total)

def handle (r : Request) : Program BudgetStatus := do
  let status ← checkBudget r.budgetLimit r.alertThreshold
  if status.isOverBudget || r.estimate ≤ 0 then pure status
  else
    let allowed ← Prog.op (Op.reserveBudget r.estimate r.reservationLimit)
    if allowed then trackCost r
    pure status

/-- One gateway, on which requests may start at any time. -/
def gateway : Service Op Ret State Request BudgetStatus where
  machine := { exec := Exec, env := Eq }
  body := handle
  admits _ _ := True

/-- A gateway that has just started. -/
def start (shared : SpendCounterState) : State := ⟨shared, {}, shared.total, ∅, ∅⟩

/-- The gateway never saw more spend than the counter has held, so no budget
check reports a limit as reached that the counter stayed below. -/
structure Honest (s : State) : Prop where
  total_le_peak : s.slot.total ≤ s.peak
  isOverBudget : ∀ limit alertThreshold,
    (budgetStatus (some limit) alertThreshold s.slot).isOverBudget = true → limit ≤ s.peak

/-- While one request accounts for its charge no other reads or reserves, and
none reserves while another holds a value it has not taken over. -/
def Undisturbed (_ : ℕ) : Op → State → Prop
  | .getSpendState, s => s.accounting = ∅
  | .reserveBudget _ _, s => s.accounting = ∅ ∧ s.reading = ∅
  | _, _ => True

instance (i : ℕ) (o : Op) (s : State) : Decidable (Undisturbed i o s) := by
  cases o <;> unfold Undisturbed <;> infer_instance

/-- How an operation turns out when nothing fails. -/
def act (i : ℕ) : (o : Op) → State → Ret o × State
  | .getSpendState, s => (some s.shared, { s with reading := insert i s.reading })
  | .refreshSpendState state, s =>
      (CostTracker.refreshSpendState s.slot state,
        { s with
          slot := CostTracker.refreshSpendState s.slot state
          reading := s.reading.erase i })
  | .reserveBudget amount limit, s =>
      if s.shared.total ≤ limit - amount then
        (true, { s.store (s.shared.total + amount) with accounting := insert i s.accounting })
      else (false, s)
  | .finalizeBudget reserved actual, s => ((), s.store (s.shared.total + (actual - reserved)))
  | .finalTotal, s => (s.shared.total, s)
  | .recordUsage cost, s => ((), { s with slot := CostTracker.bumpSpend s.slot cost })
  | .adoptReservedSpend total, s =>
      ((), { s with
        slot := CostTracker.adoptReservedSpend s.slot total
        accounting := s.accounting.erase i })

theorem exec_act (i : ℕ) (o : Op) (s : State) : Exec i o s (act i o s).1 (act i o s).2 := by
  cases o with
  | reserveBudget amount limit =>
      by_cases hroom : s.shared.total ≤ limit - amount
      · simp only [act, if_pos hroom]
        exact .reserveBudget amount limit s hroom
      · simp only [act, if_neg hroom]
        exact .reserveBudget_denied amount limit s
  | getSpendState => exact .getSpendState s
  | refreshSpendState state => exact .refreshSpendState state s
  | finalizeBudget reserved actual => exact .finalizeBudget reserved actual s
  | finalTotal => exact .finalTotal s
  | recordUsage cost => exact .recordUsage cost s
  | adoptReservedSpend total => exact .adoptReservedSpend total s

end AxonGateway.Spend.Gate
