import AxonGateway.Budget.Table

/-!
# The budget operations

Reserving, finalizing and releasing the estimated cost of a request, adding to
a counter and resetting counters.  Each operation is a client of the table: a
sequence of single storage steps between which other clients may run.
-/

namespace AxonGateway.Budget

open ConditionalStore Interleaving Binary64

inductive PyError where
  | valueError (message : String)
  | overflowError
  deriving DecidableEq, Repr

inductive ResultState where
  | reserved
  | finalized
  | denied
  deriving DecidableEq

structure BudgetReservationResult where
  allowed : Bool
  requestId : String
  reservedAmount : PyFloat
  totals : List (Scope × PyFloat) := []
  epochs : List (Scope × ℕ) := []
  state : ResultState := .reserved
  deniedScope : Option Scope := none
  idempotent : Bool := false
  crossedThresholds : List ℚ := []

/-! ## Arguments -/

/-- Check the counters one by one; `seen` are the scopes so far. -/
def validateReservations (seen : List Scope) :
    List (Scope × String × PyNum) → Except PyError (List Counter)
  | [] => .ok []
  | (scope, ident, limit) :: rest =>
      if PyText.isBlank ident then
        .error (.valueError "budget reservation scope and ident must be non-empty")
      else if scope ∈ seen then
        .error (.valueError "a budget reservation may contain one counter per scope")
      else match limit.toDec with
        | none =>
            .error (.valueError "budget reservation limits must be finite and non-negative")
        | some d =>
            if d.val < 0 then
              .error (.valueError "budget reservation limits must be finite and non-negative")
            else match validateReservations (scope :: seen) rest with
              | .error e => .error e
              | .ok normalized => .ok ((scope, ident, d) :: normalized)

/-- The order of the counters; their scopes are distinct. -/
def CounterLe (a b : Counter) : Prop := a.1.rank ≤ b.1.rank

instance : DecidableRel CounterLe := fun a b ↦ inferInstanceAs (Decidable (a.1.rank ≤ b.1.rank))

def normalizeBudgetReservations (reservations : List (Scope × String × PyNum)) :
    Except PyError (List Counter) :=
  match validateReservations [] reservations with
  | .error e => .error e
  | .ok [] => .error (.valueError "at least one budget reservation is required")
  | .ok (c :: cs) => .ok ((c :: cs).insertionSort CounterLe)

def budgetAmount (value : PyNum) (name : String) : Except PyError ℚ :=
  match value.toDec with
  | none => .error (.valueError (name ++ " must be finite and non-negative"))
  | some d =>
      if d.val < 0 then .error (.valueError (name ++ " must be finite and non-negative"))
      else .ok d.val

def sha256 (text : String) : Digest := ⟨text⟩

/-- Where a request's marker is stored: with its first counter. -/
structure MarkerKey where
  scope : Scope
  ident : String
  request : Digest
  deriving DecidableEq

def MarkerKey.key (k : MarkerKey) : Key := .reservation k.scope k.ident k.request

def budgetReservationKey (requestId : String) (reservations : List Counter) :
    Except PyError MarkerKey :=
  if PyText.isBlank requestId ∨ 256 < requestId.length then
    .error (.valueError "budget reservation request_id must be 1-256 characters")
  else match reservations with
    | [] => .error (.valueError "at least one budget reservation is required")
    | (scope, ident, _) :: _ => .ok ⟨scope, ident, sha256 requestId⟩

/-! ## Reading counters -/

def spendCounterState (row : Option SpendRow) : SpendCounterState where
  total := ofRat ((Write.attributes row).spend.getD 0)
  epoch := (Write.attributes row).epoch.getD 0

/-- `_budget_states_from_table` -/
def budgetStatesFromTable : List Counter → Client schema (List (Scope × SpendCounterState))
  | [] => pure []
  | (scope, ident, _) :: rest => do
      let row ← Client.get (S := schema) (.total scope ident)
      let states ← budgetStatesFromTable rest
      pure ((scope, spendCounterState row) :: states)

def totalsOf (states : List (Scope × SpendCounterState)) : List (Scope × PyFloat) :=
  states.map fun s ↦ (s.1, s.2.total)

def epochsOf (states : List (Scope × SpendCounterState)) : List (Scope × ℕ) :=
  states.map fun s ↦ (s.1, s.2.epoch)

def epochIn (epochs : List (Scope × ℕ)) (scope : Scope) : ℕ := (epochs.lookup scope).getD 0

def scopesOf (reservations : List Counter) : List Scope := reservations.map fun c ↦ c.1

/-- `_budget_epochs_from_marker` -/
def budgetEpochsFromMarker (marker : Marker) (reservations : List Counter) :
    Client schema (List (Scope × ℕ)) :=
  match marker.reservationEpochs with
  | none => pure ((scopesOf reservations).map fun scope ↦ (scope, 0))
  | some epochs =>
      if (epochs.map Prod.fst).toFinset = (scopesOf reservations).toFinset then pure epochs
      else Client.raise "budget reservation has invalid billing epochs"

/-! ## Reserving -/

/-- The checked arguments of `reserve_budget`. -/
structure ReserveRequest where
  requestId : String
  normalized : List Counter
  reserved : ℚ
  leaseExpiresAt : ℤ
  markerKey : MarkerKey

def prepareReserve (requestId : String) (reservations : List (Scope × String × PyNum))
    (amount : PyNum) (now leaseSeconds : ℤ) : Except PyError ReserveRequest := do
  let normalized ← normalizeBudgetReservations reservations
  let reserved ← budgetAmount amount "reservation amount"
  if reserved ≤ 0 then
    throw (.valueError "reservation amount must be greater than zero")
  if leaseSeconds < 60 then
    throw (.valueError "budget reservation lease must be at least 60s")
  let markerKey ← budgetReservationKey requestId normalized
  return { requestId, normalized, reserved, leaseExpiresAt := now + leaseSeconds, markerKey }

namespace ReserveRequest

/-- The marker that the transaction stores. -/
def marker (r : ReserveRequest) (epochs : List (Scope × ℕ)) : Marker where
  requestId := r.requestId
  reservationSignature := r.normalized
  reservationEpochs := some epochs
  reservedAmount := r.reserved
  settlementAmount := some r.reserved
  settlementState := some .estimated
  state := .reserved
  leaseExpiresAt := r.leaseExpiresAt

def operations (r : ReserveRequest) (epochs : List (Scope × ℕ)) : List Write :=
  .putMarker r.markerKey.scope r.markerKey.ident r.markerKey.request (r.marker epochs) ::
    r.normalized.map fun c ↦
      .reserveCounter c.1 c.2.1 (epochIn epochs c.1) r.reserved (c.2.2.val - r.reserved)

/-- The first counter whose limit is below the estimate. -/
def impossibleScope (r : ReserveRequest) : Option Scope :=
  (r.normalized.find? fun c ↦ decide (r.reserved > c.2.2.val)).map Prod.fst

def denied (r : ReserveRequest) (states : List (Scope × SpendCounterState)) (scope : Scope) :
    BudgetReservationResult where
  allowed := false
  requestId := r.requestId
  reservedAmount := ofRat r.reserved
  totals := totalsOf states
  epochs := epochsOf states
  state := .denied
  deniedScope := some scope

/-- The marker is the one of this very request. -/
def Matches (r : ReserveRequest) (m : Marker) : Prop :=
  m.requestId = r.requestId ∧ m.reservationSignature = r.normalized ∧
    m.reservedAmount = r.reserved

instance (r : ReserveRequest) (m : Marker) : Decidable (r.Matches m) :=
  inferInstanceAs (Decidable (_ ∧ _))

/-- The result for a request whose marker exists already. -/
def replay (r : ReserveRequest) (existing : Marker) : Client schema BudgetReservationResult := do
  if ¬ r.Matches existing then
    Client.raise "budget reservation idempotency conflict"
  let current ← budgetStatesFromTable r.normalized
  let epochs ← budgetEpochsFromMarker existing r.normalized
  return { allowed := true
           requestId := r.requestId
           reservedAmount := ofRat r.reserved
           totals := totalsOf current
           epochs := epochs
           state := match existing.state with
            | .reserved => .reserved
            | .finalized => .finalized
           idempotent := true }

/-- The first counter whose condition failed. -/
def deniedIndex (r : ReserveRequest) (exc : Failure) : Option ℕ :=
  (List.range r.normalized.length).find? fun i ↦ exc.conditionFailed (i + 1)

/-- `_reserve` with the number of attempts left. -/
def run (r : ReserveRequest) : ℕ → Client schema BudgetReservationResult
  | 0 => Client.raise "budget reservation raced repeated billing-cycle resets"
  | attempts + 1 => do
      let states ← budgetStatesFromTable r.normalized
      let epochs := epochsOf states
      match ← Client.attempt (Client.transact (S := schema) (r.operations epochs)) with
      | .ok _ =>
          let current ← budgetStatesFromTable r.normalized
          return { allowed := true
                   requestId := r.requestId
                   reservedAmount := ofRat r.reserved
                   totals := totalsOf current
                   epochs := epochs }
      | .error exc =>
          match ← Client.get (S := schema) r.markerKey.key with
          | some existing => r.replay existing
          | none =>
              match r.deniedIndex exc with
              | none => throw exc
              | some i =>
                  let current ← budgetStatesFromTable r.normalized
                  if epochsOf current ≠ epochs then r.run attempts
                  else return r.denied current ((scopesOf r.normalized).getD i .project)

/-- An estimate above a limit is denied at once, with the totals if they can be read. -/
def denyImpossible (r : ReserveRequest) (scope : Scope) : Client schema BudgetReservationResult := do
  match ← Client.attempt (budgetStatesFromTable r.normalized) with
  | .ok states => return r.denied states scope
  | .error _ => return r.denied [] scope

end ReserveRequest

/-- Every failure inside an operation becomes `None`. -/
def orNone {α : Type} (x : Client schema α) : Prog (Op schema) Ret (Option α) :=
  x.run >>= fun r ↦ pure r.toOption

def reserveBudget (requestId : String) (reservations : List (Scope × String × PyNum))
    (amount : PyNum) (now leaseSeconds : ℤ) :
    Prog (Op schema) Ret (Except PyError (Option BudgetReservationResult)) :=
  match prepareReserve requestId reservations amount now leaseSeconds with
  | .error e => pure (.error e)
  | .ok r =>
      match r.impossibleScope with
      | some scope => do
          let result ← orNone (r.denyImpossible scope)
          pure (.ok result)
      | none => do
          let result ← orNone (r.run 5)
          pure (.ok result)

/-! ## Finalizing -/

/-- The alert thresholds as fractions of the limit. -/
def budgetAlertThresholds : List ℚ := [4 / 5, 9 / 10, 1]

/-- `int(threshold * 100)` -/
def thresholdPct (threshold : ℚ) : ℕ := ⌊threshold * 100⌋.toNat

/-- The checked arguments of `finalize_budget_reservation`. -/
structure FinalizeRequest where
  requestId : String
  normalized : List Counter
  reserved : ℚ
  actual : ℚ
  expiresAt : ℤ
  markerKey : MarkerKey

/-- Seven days -/
def markerTtlSeconds : ℤ := 7 * 24 * 60 * 60

def prepareFinalize (requestId : String) (reservations : List (Scope × String × PyNum))
    (reservedAmount actualCost : PyNum) (now : ℤ) : Except PyError FinalizeRequest := do
  let normalized ← normalizeBudgetReservations reservations
  let reserved ← budgetAmount reservedAmount "reserved amount"
  let actual ← budgetAmount actualCost "actual cost"
  if reserved ≤ 0 then
    throw (.valueError "reserved amount must be greater than zero")
  let markerKey ← budgetReservationKey requestId normalized
  return { requestId, normalized, reserved, actual, expiresAt := now + markerTtlSeconds, markerKey }

namespace FinalizeRequest

def Matches (f : FinalizeRequest) (m : Marker) : Prop :=
  m.requestId = f.requestId ∧ m.reservationSignature = f.normalized ∧
    m.reservedAmount = f.reserved

instance (f : FinalizeRequest) (m : Marker) : Decidable (f.Matches m) :=
  inferInstanceAs (Decidable (_ ∧ _))

def delta (f : FinalizeRequest) : ℚ := f.actual - f.reserved

def result (f : FinalizeRequest) (idempotent : Bool) (crossedThresholds : List ℚ) :
    Client schema BudgetReservationResult := do
  let states ← budgetStatesFromTable f.normalized
  return { allowed := true
           requestId := f.requestId
           reservedAmount := ofRat f.reserved
           totals := totalsOf states
           epochs := epochsOf states
           state := .finalized
           idempotent
           crossedThresholds }

def readMarker (f : FinalizeRequest) : Client schema (Option Marker) :=
  Client.get (S := schema) f.markerKey.key

/-- The marker's transition and the corrections of the counters that are still
in the epoch of the reservation. -/
def operations (f : FinalizeRequest) (reservationEpochs : List (Scope × ℕ))
    (states : List (Scope × SpendCounterState)) : List Write :=
  .finalizeMarker f.markerKey.scope f.markerKey.ident f.markerKey.request f.normalized f.actual
      f.expiresAt (states.lookup .quota) ::
    if f.delta ≠ 0 then
      (f.normalized.filter fun c ↦
        decide (epochIn (epochsOf states) c.1 = epochIn reservationEpochs c.1)).map fun c ↦
          .reconcileCounter c.1 c.2.1 (epochIn reservationEpochs c.1) f.reserved f.delta
    else []

/-- The counter whose thresholds are watched. -/
def quotaCounter (f : FinalizeRequest) : Option (String × ℚ) :=
  (f.normalized.find? fun c ↦ decide (c.1 = .quota)).map fun c ↦ (c.2.1, c.2.2.val)

/-- `Decimal(str(total)) + delta >= bound` -/
def reaches (total : PyFloat) (delta bound : ℚ) : Bool :=
  match (PyNum.float total).toDec with
  | some d => decide (bound ≤ d.val + delta)
  | none => true

/-- The thresholds that the new total reaches and that have no alert yet. -/
def newAlerts (ident : String) (limit : ℚ) (epoch : ℕ) (total : PyFloat) (delta : ℚ) :
    List ℚ → Client schema (List ℚ)
  | [] => pure []
  | threshold :: rest =>
      if reaches total delta (limit * threshold) then do
        let existing ← Client.get (S := schema) (.alert .quota ident epoch (thresholdPct threshold))
        let others ← newAlerts ident limit epoch total delta rest
        match existing with
        | some _ => pure others
        | none => pure (threshold :: others)
      else newAlerts ident limit epoch total delta rest

/-- The thresholds that this finalization crosses. -/
def crossedThresholds (f : FinalizeRequest) (reservationEpochs : List (Scope × ℕ))
    (states : List (Scope × SpendCounterState)) : Client schema (List ℚ) :=
  match f.quotaCounter, states.lookup .quota with
  | some (ident, limit), some quota =>
      if 0 < limit ∧ quota.epoch = epochIn reservationEpochs .quota then
        newAlerts ident limit quota.epoch quota.total f.delta budgetAlertThresholds
      else pure []
  | _, _ => pure []

def alertOperations (f : FinalizeRequest) (reservationEpochs : List (Scope × ℕ))
    (crossed : List ℚ) : List Write :=
  match f.quotaCounter with
  | none => []
  | some (ident, _) => crossed.map fun threshold ↦
      .putAlert .quota ident (epochIn reservationEpochs .quota) (thresholdPct threshold)

def transaction (f : FinalizeRequest) (reservationEpochs : List (Scope × ℕ))
    (states : List (Scope × SpendCounterState)) (crossed : List ℚ) : List Write :=
  f.operations reservationEpochs states ++ f.alertOperations reservationEpochs crossed

/-- The reconciliation, with the number of attempts left. -/
def reconcile (f : FinalizeRequest) (reservationEpochs : List (Scope × ℕ)) :
    ℕ → Client schema BudgetReservationResult
  | 0 => Client.raise "budget finalization raced repeated billing-cycle resets"
  | attempts + 1 => do
      let states ← budgetStatesFromTable f.normalized
      if reservationEpochs.any fun e ↦ decide (epochIn (epochsOf states) e.1 < e.2) then
        Client.raise "budget counter epoch moved backwards"
      let crossed ← f.crossedThresholds reservationEpochs states
      match ← Client.attempt (Client.transact (S := schema)
          (f.transaction reservationEpochs states crossed)) with
      | .ok _ => f.result false crossed
      | .error exc =>
          let latest ← f.readMarker
          if latest.any fun m ↦ decide (m.state = .finalized) then
            if latest.any fun m ↦ decide (m.actualCost ≠ some f.actual) then
              Client.raise "budget reservation finalized concurrently with another cost"
            f.result true []
          else if (List.range crossed.length).any fun i ↦
              exc.conditionFailed ((f.operations reservationEpochs states).length + i) then
            f.reconcile reservationEpochs attempts
          else
            let current ← budgetStatesFromTable f.normalized
            if epochsOf current ≠ epochsOf states then f.reconcile reservationEpochs attempts
            else throw exc

/-- The cost that is about to be settled. -/
def intent (f : FinalizeRequest) : Write :=
  .reportSettlement f.markerKey.scope f.markerKey.ident f.markerKey.request f.normalized f.actual

/-- The settlement intent is stored before the reconciliation. -/
def settle (f : FinalizeRequest) (marker : Marker) : Client schema BudgetReservationResult := do
  let reservationEpochs ← budgetEpochsFromMarker marker f.normalized
  match ← Client.attempt (Client.update (S := schema) f.intent) with
  | .ok _ => f.reconcile reservationEpochs 3
  | .error exc =>
      let latest ← f.readMarker
      if latest.any fun m ↦ decide (m.state = .finalized ∧ m.actualCost = some f.actual) then
        f.result true []
      else if latest.any fun m ↦ decide (m.state = .reserved ∧
          m.settlementState = some .reported ∧ m.settlementAmount ≠ some f.actual) then
        Client.raise "budget reservation was reported with another cost"
      else throw exc

/-- `_finalize` -/
def run (f : FinalizeRequest) : Client schema BudgetReservationResult := do
  match ← f.readMarker with
  | none => Client.raise "budget reservation does not exist"
  | some marker =>
      if ¬ f.Matches marker then
        Client.raise "budget reservation finalization conflict"
      match marker.state with
      | .finalized =>
          if marker.actualCost ≠ some f.actual then
            Client.raise "budget reservation was finalized with another cost"
          f.result true []
      | .reserved => f.settle marker

end FinalizeRequest

def finalizeBudgetReservation (requestId : String)
    (reservations : List (Scope × String × PyNum)) (reservedAmount actualCost : PyNum) (now : ℤ) :
    Prog (Op schema) Ret (Except PyError (Option BudgetReservationResult)) :=
  match prepareFinalize requestId reservations reservedAmount actualCost now with
  | .error e => pure (.error e)
  | .ok f => do
      let result ← orNone f.run
      pure (.ok result)

/-! ## Releasing expired reservations -/

/-- The markers of one partition. -/
def isReservationOf (scope : Scope) (ident : String) : Key → Bool
  | .reservation scope' ident' _ => decide (scope' = scope ∧ ident' = ident)
  | _ => false

/-- All pages of the query, at most `pages` of them. -/
def queryReservations (scope : Scope) (ident : String) :
    ℕ → Option Key → Client schema (List (Sigma Row))
  | 0, _ => Client.raise "more pages than expected"
  | pages + 1, start => do
      let (items, last) ← Client.query (S := schema) (isReservationOf scope ident) start
      match last with
      | none => pure items
      | some k => do
          let rest ← queryReservations scope ident pages (some k)
          pure (items ++ rest)

/-- The marker in an item of the query. -/
def markerOf : Sigma Row → Option Marker
  | ⟨.reservation _ _ _, m⟩ => some m
  | _ => none

/-- The expired markers among the items. -/
def expiredMarkers (nowEpoch : ℤ) (items : List (Sigma Row)) : List Marker :=
  (items.filterMap markerOf).filter fun m ↦
    decide (m.state = .reserved ∧ m.leaseExpiresAt ≤ nowEpoch)

/-- `float` of a stored decimal that was made an integer where it is integral. -/
def nativeFloat (value : ℚ) : Except PyError PyFloat :=
  match ofRat value with
  | .nonFinite => if value.den = 1 then .error .overflowError else .ok .nonFinite
  | x => .ok x

/-- The arguments that are read back from a marker: identity, counters, reserved
amount and cost. -/
def argumentsOf (marker : Marker) :
    Except PyError (List (Scope × String × PyNum) × PyNum × PyNum) := do
  let reservations := marker.reservationSignature.map fun c ↦
    (c.1, c.2.1, PyNum.float (ofDec c.2.2))
  let reserved ← nativeFloat marker.reservedAmount
  let actual ← nativeFloat (marker.settlementAmount.getD marker.reservedAmount)
  return (reservations, .float reserved, .float actual)

/-- Finalize the expired markers one after the other and count the successes. -/
def releaseMarkers (now : ℤ) :
    List Marker → ℕ → Prog (Op schema) Ret (Except PyError ℕ)
  | [], released => pure (.ok released)
  | marker :: rest, released =>
      match argumentsOf marker with
      | .error .overflowError => pure (.error .overflowError)
      | .error (.valueError _) => releaseMarkers now rest released
      | .ok (reservations, reserved, actual) => do
          match ← finalizeBudgetReservation marker.requestId reservations reserved actual now with
          | .error .overflowError => pure (.error .overflowError)
          | .error (.valueError _) => releaseMarkers now rest released
          | .ok none => releaseMarkers now rest released
          | .ok (some _) => releaseMarkers now rest (released + 1)

/-- `release_expired_budget_reservations`, for a partition of at most `pages` pages. -/
def releaseExpiredBudgetReservations (primaryScope : Scope) (primaryIdent : String) (now : ℤ)
    (pages : ℕ) : Prog (Op schema) Ret (Except PyError (Option ℕ)) :=
  if PyText.isBlank primaryIdent then
    pure (.error (.valueError "budget cleanup scope and ident must be non-empty"))
  else do
    match ← (queryReservations primaryScope primaryIdent pages none).run with
    | .error _ => pure (.ok none)
    | .ok items => do
        match ← releaseMarkers now (expiredMarkers now items) 0 with
        | .error e => pure (.error e)
        | .ok released => pure (.ok (some released))

/-! ## Plain counters -/

def validateSpendIdentity (ident : String) : Except PyError Unit :=
  if PyText.isBlank ident then .error (.valueError "spend scope and ident must be non-empty")
  else .ok ()

/-- `add_spend_state` -/
def addSpendState (scope : Scope) (ident : String) (cost : PyNum) :
    Prog (Op schema) Ret (Except PyError (Option SpendCounterState)) :=
  match (do validateSpendIdentity ident; budgetAmount cost "spend cost") with
  | .error e => pure (.error e)
  | .ok amount => do
      let row ← orNone (Client.update (S := schema) (.addSpend scope ident amount))
      pure (.ok (row.map spendCounterState))

/-- The checks of `reset_spend_counters` on each counter. -/
def validateCounters (seen : List Scope) : List (Scope × String) → Except PyError Unit
  | [] => .ok ()
  | (scope, ident) :: rest => do
      validateSpendIdentity ident
      if scope ∈ seen then
        throw (.valueError "a spend reset may contain one counter per scope")
      validateCounters (scope :: seen) rest

def resetSpendCounters (counters : List (Scope × String)) :
    Prog (Op schema) Ret (Except PyError (Option (List (Scope × SpendCounterState)))) :=
  if counters = [] then pure (.error (.valueError "at least one spend counter is required"))
  else if 99 < counters.length then
    pure (.error (.valueError "at most 99 spend counters may be reset"))
  else match validateCounters [] counters with
    | .error e => pure (.error e)
    | .ok _ => do
        let states ← orNone do
          Client.transact (S := schema) (counters.map fun c ↦ .resetCounter c.1 c.2)
          budgetStatesFromTable (counters.map fun c ↦ (c.1, c.2, ⟨false, 0, 0⟩))
        pure (.ok states)

/-! ## The service -/

/-- A call of one of the operations. -/
inductive Call where
  | reserveBudget (requestId : String) (reservations : List (Scope × String × PyNum))
      (amount : PyNum) (now leaseSeconds : ℤ)
  | finalizeBudgetReservation (requestId : String)
      (reservations : List (Scope × String × PyNum)) (reservedAmount actualCost : PyNum) (now : ℤ)
  | releaseExpiredBudgetReservations (primaryScope : Scope) (primaryIdent : String) (now : ℤ)
      (pages : ℕ)
  | addSpendState (scope : Scope) (ident : String) (cost : PyNum)
  | resetSpendCounters (counters : List (Scope × String))

/-- What a call returns. -/
inductive Outcome where
  | reservation (r : Except PyError (Option BudgetReservationResult))
  | finalization (r : Except PyError (Option BudgetReservationResult))
  | released (r : Except PyError (Option ℕ))
  | added (r : Except PyError (Option SpendCounterState))
  | reset (r : Except PyError (Option (List (Scope × SpendCounterState))))

def Call.body : Call → Prog (Op schema) Ret Outcome
  | .reserveBudget requestId reservations amount now leaseSeconds => do
      let r ← Budget.reserveBudget requestId reservations amount now leaseSeconds
      pure (.reservation r)
  | .finalizeBudgetReservation requestId reservations reservedAmount actualCost now => do
      let r ← Budget.finalizeBudgetReservation requestId reservations reservedAmount actualCost now
      pure (.finalization r)
  | .releaseExpiredBudgetReservations primaryScope primaryIdent now pages => do
      let r ← Budget.releaseExpiredBudgetReservations primaryScope primaryIdent now pages
      pure (.released r)
  | .addSpendState scope ident cost => do
      let r ← Budget.addSpendState scope ident cost
      pure (.added r)
  | .resetSpendCounters counters => do
      let r ← Budget.resetSpendCounters counters
      pure (.reset r)

/-- The shared table with the calls started so far. -/
abbrev BudgetPool := Pool (Op schema) Ret (Store schema) Call Outcome

/-- Any number of clients of one table, each free to call what it likes; when
`faulty`, any storage step may fail before or after it took effect. -/
def service (faulty : Bool) : Service (Op schema) Ret (Store schema) Call Outcome where
  machine := machine schema faulty
  body := Call.body
  admits _ _ := True

/-- The pool that a schedule leads to from the empty table. -/
def playAll (moves : List (Move Call)) : BudgetPool :=
  play Call.body moves ⟨Store.empty schema, []⟩

/-- One call after the other. -/
def inTurn (cs : List Call) : List (Move Call) :=
  cs.zipIdx.flatMap fun c ↦ [.start c.1, .run c.2 50]

theorem reachable_playAll {V : Service (Op schema) Ret (Store schema) Call Outcome} {faulty : Bool}
    (hmachine : V.machine = machine schema faulty) (hbody : V.body = Call.body) {cs : List Call}
    (hadmits : ∀ p c, p.calls ⊆ cs → c ∈ cs → V.admits p c) {moves : List (Move Call)}
    (hmoves : ∀ c, .start c ∈ moves → c ∈ cs) :
    Reachable V (Store.empty schema) (playAll moves) := by
  rw [playAll, ← hbody]
  exact steps_play hmachine hadmits hmoves (List.nil_subset cs)

theorem mem_of_start_mem_inTurn {cs : List Call} {c : Call} (h : .start c ∈ inTurn cs) : c ∈ cs := by
  obtain ⟨⟨c', i⟩, hc', hmem⟩ := List.mem_flatMap.mp h
  rcases List.mem_cons.mp hmem with hstart | hrun
  · obtain rfl := Move.start.inj hstart
    exact (List.mem_zipIdx hc').2.2 ▸ List.getElem_mem _
  · cases List.mem_singleton.mp hrun

end AxonGateway.Budget
