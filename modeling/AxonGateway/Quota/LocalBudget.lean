import AxonGateway.Budget.Scope
import AxonGateway.Lib.PyText

/-!
# Budgets without shared persistence

A single process keeps what each project and each user has spent, counts an
estimate when a request is admitted and corrects it when the cost is known.
Every critical section updates this state without giving up control, so calls
take effect one after the other.
-/

namespace AxonGateway.Quota

open Budget

/-- A dictionary with string keys. -/
abbrev Dict (α : Type) := AList fun _ : String ↦ α

/-- `d.get(key, default)` -/
def Dict.getD {α : Type} (d : Dict α) (key : String) (default : α) : α :=
  (d.lookup key).getD default

theorem Dict.getD_insert {α : Type} (d : Dict α) (key other : String) (value default : α) :
    Dict.getD (d.insert key value) other default =
      if other = key then value else d.getD other default := by
  by_cases h : other = key
  · subst h
    simp [Dict.getD]
  · simp [Dict.getD, AList.lookup_insert_ne h, h]

theorem Dict.getD_erase {α : Type} (d : Dict α) (key other : String) (default : α) :
    Dict.getD (d.erase key) other default =
      if other = key then default else d.getD other default := by
  by_cases h : other = key
  · subst h
    simp [Dict.getD]
  · simp [Dict.getD, AList.lookup_erase_ne h, h]

/-- The counters that a request was charged to, with their limits. -/
structure BudgetReservation where
  requestId : String
  counters : List (Scope × String × ℚ)
  amount : ℚ
  epochs : List (Scope × ℤ) := []
  deriving DecidableEq, Repr

structure QuotaDecision where
  allowed : Bool := true
  limitType : String := ""
  limitValue : Option ℚ := none
  currentValue : Option ℚ := none
  reservation : Option BudgetReservation := none
  statusCode : ℕ := 429
  deriving DecidableEq, Repr

/-- The part of the enforcer that the local mode uses. -/
structure QuotaEnforcer where
  spendTracker : Dict ℚ := ∅
  localUserSpend : Dict ℚ := ∅
  localReservations : Dict (BudgetReservation × Bool) := ∅
  spendEpochs : Dict ℤ := ∅

/-- Why a call raises. -/
inductive ValueError where
  | tenantId
  | userId
  deriving DecidableEq, Repr

def normalizeTenantId (tenantId : Option String) : Except ValueError (Option String) :=
  if tenantId.any PyText.isBlank then .error .tenantId else .ok tenantId

def tenantScopedProjectId (tenantId : Option String) (projectId : String) : String :=
  match tenantId with
  | none => projectId
  | some t => "tenant:" ++ toString t.length ++ ":" ++ t ++ ":" ++
      "project:" ++ toString projectId.length ++ ":" ++ projectId

def tenantScopedUserId (tenantId : Option String) (userId : String) : Except ValueError String :=
  if PyText.isBlank userId then .error .userId else
    match tenantId with
    | none => .ok userId
    | some t => .ok ("tenant:" ++ toString t.length ++ ":" ++ t ++ ":" ++
        "user:" ++ toString userId.length ++ ":" ++ userId)

/-- The arguments of `reserve_budget`. -/
structure ReserveArgs where
  requestId : String
  projectId : String
  userId : String
  estimatedCost : ℚ
  projectBudgetLimit : Option ℚ
  userBudgetLimit : Option ℚ
  tenantId : Option String := none
  projectCurrentSpend : ℚ := 0
  userCurrentSpend : ℚ := 0
  deriving DecidableEq, Repr

/-- The counters of a request, the project's before the user's. -/
def counters (args : ReserveArgs) (projectScope userScope : String) :
    List (Scope × String × ℚ) :=
  (args.projectBudgetLimit.map fun limit ↦ (Scope.quota, projectScope, limit)).toList ++
    (args.userBudgetLimit.map fun limit ↦ (Scope.user, userScope, limit)).toList

namespace QuotaEnforcer

/-- What a counter of the given scope has spent. -/
def current (s : QuotaEnforcer) (scope : Scope) (ident : String) : ℚ :=
  if scope = .user then s.localUserSpend.getD ident 0 else s.spendTracker.getD ident 0

/-- The figures of the caller are taken over when they are larger. -/
def adopt (s : QuotaEnforcer) (projectScope userScope : String)
    (projectCurrentSpend userCurrentSpend : ℚ) : QuotaEnforcer :=
  { s with
    spendTracker := s.spendTracker.insert projectScope
      (max (s.spendTracker.getD projectScope 0) projectCurrentSpend)
    localUserSpend := s.localUserSpend.insert userScope
      (max (s.localUserSpend.getD userScope 0) userCurrentSpend) }

/-- The first counter that the estimate would take over its limit. -/
def exceeded (s : QuotaEnforcer) (projectScope userScope : String) (estimatedCost : ℚ)
    (cs : List (Scope × String × ℚ)) : Option (Scope × String × ℚ) :=
  cs.find? fun c ↦ decide
    (s.current c.1 (if c.1 = .user then userScope else projectScope) + estimatedCost > c.2.2)

/-- Charge the estimate to every limited counter and remember the reservation. -/
def charge (s : QuotaEnforcer) (args : ReserveArgs) (projectScope userScope : String)
    (reservation : BudgetReservation) : QuotaEnforcer :=
  { s with
    spendTracker := if args.projectBudgetLimit.isSome then
        s.spendTracker.insert projectScope
          (s.spendTracker.getD projectScope 0 + args.estimatedCost)
      else s.spendTracker
    localUserSpend := if args.userBudgetLimit.isSome then
        s.localUserSpend.insert userScope
          (s.localUserSpend.getD userScope 0 + args.estimatedCost)
      else s.localUserSpend
    localReservations := s.localReservations.insert args.requestId (reservation, false) }

/-- `reserve_budget` in the local mode, from the lock on. -/
def reserveLocked (s : QuotaEnforcer) (args : ReserveArgs) (projectScope userScope : String) :
    QuotaDecision × QuotaEnforcer :=
  let cs := counters args projectScope userScope
  let reservation : BudgetReservation :=
    { requestId := args.requestId, counters := cs, amount := args.estimatedCost }
  match s.localReservations.lookup args.requestId with
  | some (prior, finalized) =>
      if prior ≠ reservation ∨ finalized then
        ({ allowed := false, limitType := "budget_request_replayed" }, s)
      else ({ reservation := some reservation }, s)
  | none =>
      let s₁ := s.adopt projectScope userScope args.projectCurrentSpend args.userCurrentSpend
      match s₁.exceeded projectScope userScope args.estimatedCost cs with
      | some (scope, _, limit) =>
          ({ allowed := false
             limitType := if scope = .user then "user_budget_limit" else "budget_limit"
             limitValue := some limit
             currentValue :=
              some (s₁.current scope (if scope = .user then userScope else projectScope)) }, s₁)
      | none =>
          ({ reservation := some reservation }, s₁.charge args projectScope userScope reservation)

def reserveBudget (s : QuotaEnforcer) (args : ReserveArgs) :
    Except ValueError (QuotaDecision × QuotaEnforcer) := do
  let tenantId ← normalizeTenantId args.tenantId
  if args.projectBudgetLimit.isNone && args.userBudgetLimit.isNone then
    return ({}, s)
  if args.estimatedCost ≤ 0 then
    return ({ allowed := false, limitType := "budget_estimate_unavailable", statusCode := 503 }, s)
  let userScope ← tenantScopedUserId tenantId args.userId
  return s.reserveLocked args (tenantScopedProjectId tenantId args.projectId) userScope

/-- Correct one counter by the difference between the actual and the estimated
cost, never below zero. -/
def settle (delta : ℚ) (s : QuotaEnforcer) (c : Scope × String × ℚ) : QuotaEnforcer :=
  if c.1 = .user then
    { s with localUserSpend :=
      s.localUserSpend.insert c.2.1 (max 0 (s.localUserSpend.getD c.2.1 0 + delta)) }
  else
    { s with spendTracker :=
      s.spendTracker.insert c.2.1 (max 0 (s.spendTracker.getD c.2.1 0 + delta)) }

/-- Correct all counters of a reservation and mark it as finalized. -/
def applyActual (s : QuotaEnforcer) (reservation : BudgetReservation) (actualCost : ℚ) :
    QuotaEnforcer :=
  let settled := reservation.counters.foldl (settle (actualCost - reservation.amount)) s
  { settled with localReservations :=
    settled.localReservations.insert reservation.requestId (reservation, true) }

/-- `finalize_budget` in the local mode: the new totals, or nothing when the
reservation is not the recorded one. -/
def finalizeBudget (s : QuotaEnforcer) (reservation : BudgetReservation) (actualCost : ℚ)
    (tenantId : Option String) (projectId : String) :
    Except ValueError (Option (List (Scope × ℚ)) × QuotaEnforcer) := do
  let tenantId ← normalizeTenantId tenantId
  let projectScope := tenantScopedProjectId tenantId projectId
  match s.localReservations.lookup reservation.requestId with
  | none => return (none, s)
  | some (existing, finalized) =>
      if existing ≠ reservation then return (none, s)
      if finalized then return (some [(.quota, s.spendTracker.getD projectScope 0)], s)
      let s' := s.applyActual reservation actualCost
      return (some (reservation.counters.map fun c ↦ (c.1, s'.current c.1 c.2.1)), s')

/-- `release_budget`: nothing was billed. -/
def releaseBudget (s : QuotaEnforcer) (reservation : BudgetReservation)
    (tenantId : Option String) (projectId : String) : Except ValueError (Bool × QuotaEnforcer) := do
  let (totals, s') ← s.finalizeBudget reservation 0 tenantId projectId
  return (totals.isSome, s')

/-- `reset_spend` in the local mode. -/
def resetSpend (s : QuotaEnforcer) (projectId : String) (tenantId : Option String) :
    Except ValueError (Bool × QuotaEnforcer) := do
  let tenantId ← normalizeTenantId tenantId
  let scopeId := tenantScopedProjectId tenantId projectId
  return (true, { s with
    spendTracker := s.spendTracker.erase scopeId
    spendEpochs := s.spendEpochs.insert scopeId (s.spendEpochs.getD scopeId 0 + 1) })

end QuotaEnforcer

end AxonGateway.Quota
