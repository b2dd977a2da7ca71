import AxonGateway.Lib.Binary64
import AxonGateway.Lib.ConditionalStore
import AxonGateway.Lib.PyText
import AxonGateway.Budget.Scope

/-!
# The budget rows of the table

Three kinds of rows: spend counters, reservation markers in the partition of a
request's first counter, and the alerts of a billing epoch.  Amounts are exact
decimals.  The writes are the ones that the budget operations issue, each with
its condition expression and its update expression.
-/

namespace AxonGateway.Budget

open ConditionalStore Interleaving Binary64

/-- A SHA-256 digest, represented by the text it was taken of: the digests of
different request ids are taken to be different. -/
structure Digest where
  preimage : String
  deriving DecidableEq

/-- Scope, identity and limit of one counter. -/
abbrev Counter := Scope × String × Dec

/-- The counters of a request in canonical order.  The stored text lists scope,
identity and the digits of the limit, and determines them. -/
abbrev Signature := List Counter

inductive Key where
  | total (scope : Scope) (ident : String)
  | reservation (scope : Scope) (ident : String) (request : Digest)
  | alert (scope : Scope) (ident : String) (epoch : ℕ) (pct : ℕ)
  deriving DecidableEq

/-- A spend counter; an attribute may be missing. -/
structure SpendRow where
  spend : Option ℚ := none
  epoch : Option ℕ := none
  deriving DecidableEq

inductive SettlementState where
  | estimated
  | reported
  deriving DecidableEq

inductive MarkerState where
  | reserved
  | finalized
  deriving DecidableEq

/-- A reservation marker. -/
structure Marker where
  requestId : String
  reservationSignature : Signature
  reservationEpochs : Option (List (Scope × ℕ))
  reservedAmount : ℚ
  settlementAmount : Option ℚ
  settlementState : Option SettlementState
  state : MarkerState
  actualCost : Option ℚ := none
  leaseExpiresAt : ℤ
  expiresAt : Option ℤ := none

def Marker.report (m : Marker) (actual : ℚ) : Marker :=
  { m with settlementAmount := some actual, settlementState := some .reported }

def Marker.finalize (m : Marker) (actual : ℚ) (expiresAt : ℤ) : Marker :=
  { m with state := .finalized, actualCost := some actual, expiresAt := some expiresAt }

def Row : Key → Type
  | .total _ _ => SpendRow
  | .reservation _ _ _ => Marker
  | .alert _ _ _ _ => Unit

/-- One counter's total, read as a double, and its billing epoch. -/
structure SpendCounterState where
  total : PyFloat
  epoch : ℕ

/-- The writes of the budget operations.  `seen`, the quota counter as the client
last read it, is a ghost: no condition and no update looks at it. -/
inductive Write where
  | putMarker (scope : Scope) (ident : String) (request : Digest) (marker : Marker)
  | reserveCounter (scope : Scope) (ident : String) (expectedEpoch : ℕ) (amount maxBefore : ℚ)
  | reportSettlement (scope : Scope) (ident : String) (request : Digest)
      (signature : Signature) (actual : ℚ)
  | finalizeMarker (scope : Scope) (ident : String) (request : Digest)
      (signature : Signature) (actual : ℚ) (expiresAt : ℤ) (seen : Option SpendCounterState)
  | reconcileCounter (scope : Scope) (ident : String) (expectedEpoch : ℕ) (reserved delta : ℚ)
  | putAlert (scope : Scope) (ident : String) (epoch : ℕ) (pct : ℕ)
  | addSpend (scope : Scope) (ident : String) (cost : ℚ)
  | resetCounter (scope : Scope) (ident : String)

namespace Write

def key : Write → Key
  | putMarker scope ident request _ => .reservation scope ident request
  | reserveCounter scope ident _ _ _ => .total scope ident
  | reportSettlement scope ident request _ _ => .reservation scope ident request
  | finalizeMarker scope ident request _ _ _ _ => .reservation scope ident request
  | reconcileCounter scope ident _ _ _ => .total scope ident
  | putAlert scope ident epoch pct => .alert scope ident epoch pct
  | addSpend scope ident _ => .total scope ident
  | resetCounter scope ident => .total scope ident

/-- `#spend` and `#epoch` of a counter that may be missing. -/
def attributes (row : Option SpendRow) : SpendRow := row.getD {}

/-- The condition expressions. -/
def cond : (w : Write) → Option (Row (key w)) → Bool
  | putMarker _ _ _ _, row => row.isNone
  | reserveCounter _ _ expectedEpoch _ maxBefore, row =>
      (attributes row).epoch.all (fun epoch ↦ decide (epoch = expectedEpoch)) &&
        (attributes row).spend.all fun spend ↦ decide (spend ≤ maxBefore)
  | reportSettlement _ _ _ signature actual, row =>
      row.any fun (m : Marker) ↦
        decide (m.state = .reserved ∧ m.reservationSignature = signature ∧
          (m.settlementState = none ∨ m.settlementState = some .estimated ∨
            m.settlementState = some .reported ∧ m.settlementAmount = some actual))
  | finalizeMarker _ _ _ signature actual _ _, row =>
      row.any fun (m : Marker) ↦
        decide (m.state = .reserved ∧ m.reservationSignature = signature ∧
          m.settlementState = some .reported ∧ m.settlementAmount = some actual)
  | reconcileCounter _ _ expectedEpoch reserved _, row =>
      (attributes row).spend.any (fun spend ↦ decide (reserved ≤ spend)) &&
        ((attributes row).epoch == some expectedEpoch ||
          (attributes row).epoch == none && expectedEpoch == 0)
  | putAlert _ _ _ _, row => row.isNone
  | addSpend _ _ _, _ => true
  | resetCounter _ _, _ => true

/-- `SET #epoch = if_not_exists(#epoch, 0) ADD #spend amount` -/
def add (row : Option SpendRow) (amount : ℚ) : SpendRow where
  spend := some ((attributes row).spend.getD 0 + amount)
  epoch := some ((attributes row).epoch.getD 0)

/-- The update expressions; an update of a missing marker fails its condition. -/
def next : (w : Write) → Option (Row (key w)) → Option (Row (key w))
  | putMarker _ _ _ marker, _ => some marker
  | reserveCounter _ _ _ amount _, row => some (add row amount)
  | reportSettlement _ _ _ _ actual, row =>
      row.map fun (m : Marker) ↦ m.report actual
  | finalizeMarker _ _ _ _ actual expiresAt _, row =>
      row.map fun (m : Marker) ↦ m.finalize actual expiresAt
  | reconcileCounter _ _ _ _ delta, row => some (add row delta)
  | putAlert _ _ _ _, _ => some ()
  | addSpend _ _ cost, row => some (add row cost)
  | resetCounter _ _, row =>
      some ({ spend := some 0, epoch := some ((attributes row).epoch.getD 0 + 1) } : SpendRow)

end Write

/-- The table.  Within a partition, rows are ordered by their sort keys; the
markers of a partition are the only rows that are queried. -/
abbrev schema : Schema where
  Key := Key
  Row := Row
  Write := Write
  key := Write.key
  cond := Write.cond
  next := Write.next
  sortKey
    | .total _ _ => "TOTAL"
    | .reservation _ _ request => "RESERVATION#" ++ request.preimage
    | .alert _ _ epoch pct => "ALERT#" ++ toString epoch ++ "#" ++ toString pct

end AxonGateway.Budget
