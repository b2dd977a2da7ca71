import AxonGateway.Lib.Base64
import AxonGateway.Lib.JsonRead
import AxonGateway.Lib.PyText

/-!
# Claiming interrupted queries

A page scans a part of the table, claims the lifecycles that need recovery and returns the key to go
on from as a cursor.  A row without a lifecycle stands for the other entities of the table, and the
tokens of the claims are numbered.
-/

namespace AxonGateway.Query

open PyValue

structure Key where
  pk : Text
  sk : Text
  deriving DecidableEq

/-! ### The cursor -/

def keyField (t : Text) : Bool := !t.isEmpty && t.length ≤ 2048

def payload (key : Key) : Text :=
  JsonText.object [("key".toList, JsonText.object [("PK".toList, JsonText.text key.pk),
    ("SK".toList, JsonText.text key.sk)]), ("v".toList, ['1'])]

def cursorText (key : Key) : Text := Base64.strip (Base64.encode ((payload key).map Char.toNat))

def encodeQueryReconciliationCursor : Option Key → Except String (Option Text)
  | none => .ok none
  | some key =>
      if keyField key.pk ∧ keyField key.sk then .ok (some (cursorText key))
      else .error "query reconciliation continuation key is invalid"

def readKey (fields : Fields) : Option Key :=
  match fields.lookup "PK".toList, fields.lookup "SK".toList with
  | some (.str pk), some (.str sk) =>
      if fields.length = 2 ∧ keyField pk ∧ keyField sk then some ⟨pk, sk⟩ else none
  | _, _ => none

def readPayload : Value → Option Key
  | .obj fields =>
      match fields.lookup "v".toList, fields.lookup "key".toList with
      | some version, some (.obj key) =>
          if fields.length = 2 ∧ JsonText.isOne version then readKey key else none
      | _, _ => none
  | _ => none

/-- The text of a payload; `wide` reads what is not plain ASCII. -/
def payloadText (wide : List ℕ → Option Text) (bytes : List ℕ) : Option Text :=
  if ∀ b ∈ bytes, 0 < b ∧ b < 128 then some (bytes.map Char.ofNat) else wide bytes

def decodeQueryReconciliationCursor (wide : List ℕ → Option Text) :
    Option Text → Except String (Option Key)
  | none => .ok none
  | some cursor =>
      if cursor = [] ∨ 4096 < cursor.length ∨ cursor.any PyText.isSpace then
        .error "query reconciliation cursor is invalid"
      else
        match (Base64.decode (cursor ++ Base64.pad cursor)).bind (payloadText wide)
            |>.bind JsonText.loads |>.bind readPayload with
        | some key => .ok (some key)
        | none => .error "query reconciliation cursor is invalid"

/-! ### Lifecycles -/

inductive Status where
  | accepted
  | running
  | succeeded
  | failed
  | cancelled
  deriving DecidableEq

def Status.isTerminal : Status → Bool
  | .accepted | .running => false
  | .succeeded | .failed | .cancelled => true

inductive AthenaState where
  | succeeded
  | failed
  | cancelled
  deriving DecidableEq

inductive ScanAccounting where
  | actual
  | reservedFallback
  | reservationCeiling
  | zeroBeforeStart
  deriving DecidableEq

structure QueryAdmissionLease where
  tenantId : Text
  projectId : Text
  principalId : Text
  requestId : Text
  datasourceId : Text
  querySha256 : Text
  leaseToken : Text
  windowStart : ℤ
  leaseExpiresAt : ℤ
  projectSlot : ℤ
  principalSlot : ℤ
  reservedScanBytes : ℤ
  deriving DecidableEq

structure QueryTerminalAudit where
  status : Status
  failureCode : Option Text
  executionId : Option Text
  athenaState : Option AthenaState
  observedScanBytes : Option ℤ
  accountedScanBytes : ℤ
  engineExecutionMs : Option ℤ
  cancellationRequested : Bool
  scanAccounting : ScanAccounting
  rowCount : Option ℤ
  truncated : Option Bool
  resultBytes : Option ℤ
  deriving DecidableEq

/-- The attributes that a claim writes. -/
structure Reconciliation where
  token : ℕ
  owner : Text
  expiresAt : ℤ
  deriving DecidableEq

structure Lifecycle extends QueryAdmissionLease where
  status : Status
  executionId : Option Text
  auditPending : Bool
  terminalAudit : Option QueryTerminalAudit
  reconciliation : Option Reconciliation
  deriving DecidableEq

structure Row where
  key : Key
  lifecycle : Option Lifecycle
  deriving DecidableEq

structure QueryLifecycleClaim where
  lease : QueryAdmissionLease
  claimToken : ℕ
  status : Status
  executionId : Option Text
  terminalAudit : Option QueryTerminalAudit
  deriving DecidableEq

structure QueryLifecyclePage where
  claims : List QueryLifecycleClaim
  nextCursor : Option Text
  deriving DecidableEq

/-- `if not ok: raise ValueError(message)` -/
def require (ok : Prop) [Decidable ok] (message : String) : Except String Unit :=
  if ok then .ok () else .error message

def QueryTerminalAudit.postInit (a : QueryTerminalAudit) : Except String Unit := do
  require a.status.isTerminal "query terminal audit status is invalid"
  for (name, value) in [("observed_scan_bytes", a.observedScanBytes),
      ("engine_execution_ms", a.engineExecutionMs), ("row_count", a.rowCount),
      ("result_bytes", a.resultBytes)] do
    require (∀ n ∈ value, 0 ≤ n) s!"{name} must be None or non-negative"
  require (0 ≤ a.accountedScanBytes) "accounted_scan_bytes must be a non-negative integer"
  for (name, value) in [("failure_code", a.failureCode), ("execution_id", a.executionId)] do
    require (value ≠ some []) s!"{name} must be None or non-empty"
  require (a.status = .succeeded → a.failureCode = none)
    "succeeded query audit cannot have a failure code"
  require (a.status ≠ .succeeded → a.failureCode ≠ none) "failed query audit requires a failure code"
  require (a.status ≠ .succeeded → a.rowCount = none ∧ a.truncated = none ∧ a.resultBytes = none)
    "failed query audit cannot contain result metadata"

def QueryLifecycleClaim.postInit (c : QueryLifecycleClaim) : Except String Unit := do
  require (c.executionId ≠ some []) "query execution ID is invalid"
  require (c.status = .running → c.executionId ≠ none)
    "running query lifecycle requires an execution ID"
  require (c.status = .accepted → c.executionId = none)
    "accepted query lifecycle must not have an execution ID"
  match c.status.isTerminal, c.terminalAudit with
  | true, none => .error "terminal reconciliation claim requires pending audit data"
  | true, some a =>
      require (a.status = c.status) "terminal audit status does not match lifecycle status"
      require (a.executionId = c.executionId) "terminal audit execution ID does not match lifecycle"
      require (a.accountedScanBytes ≤ c.lease.reservedScanBytes)
        "terminal accounting exceeds the query reservation"
  | false, some _ => .error "active reconciliation claim cannot have terminal audit data"
  | false, none => .ok ()

def requiredString (name : String) (value : Text) : Except String Unit :=
  require (value ≠ [] ∧ value.length ≤ 2048) s!"query lifecycle {name} is invalid"

def queryReconciliationInteger (name : String) (minimum value : ℤ) : Except String Unit :=
  require (minimum ≤ value) s!"{name} must be an integer"

def optionalInteger (name : String) (value : Option ℤ) : Except String Unit :=
  value.elim (.ok ()) (queryReconciliationInteger name 0)

section Table

variable (sha256 : Text → Text)

def queryLifecycleKey (tenantId projectId requestId : Text) : Key where
  pk := "TENANT#".toList ++ tenantId
  sk := "QUERY#".toList ++ projectId ++ '#' :: sha256 requestId

/-- The audit of a terminal lifecycle; an active one has none. -/
def terminalAuditFromItem (l : Lifecycle) : Except String (Option QueryTerminalAudit) :=
  if l.status.isTerminal then do
    require l.auditPending "terminal query lifecycle audit is not pending"
    match l.terminalAudit with
    | none => .error "query terminal audit document is invalid"
    | some a => do
        optionalInteger "observed_scan_bytes" a.observedScanBytes
        queryReconciliationInteger "accounted_scan_bytes" 0 a.accountedScanBytes
        optionalInteger "engine_execution_ms" a.engineExecutionMs
        optionalInteger "row_count" a.rowCount
        optionalInteger "result_bytes" a.resultBytes
        a.postInit
        pure (some a)
  else .ok none

def lifecycleClaim (key : Key) (l : Lifecycle) (claimToken : ℕ) :
    Except String QueryLifecycleClaim := do
  requiredString "tenant_id" l.tenantId
  requiredString "project_id" l.projectId
  requiredString "request_id" l.requestId
  require (key = queryLifecycleKey sha256 l.tenantId l.projectId l.requestId)
    "query lifecycle ownership key is invalid"
  requiredString "principal_id" l.principalId
  requiredString "datasource_id" l.datasourceId
  requiredString "query_sha256" l.querySha256
  requiredString "lease_token" l.leaseToken
  queryReconciliationInteger "window_start" 0 l.windowStart
  queryReconciliationInteger "lease_expires_at" 1 l.leaseExpiresAt
  queryReconciliationInteger "project_slot" 0 l.projectSlot
  queryReconciliationInteger "principal_slot" 0 l.principalSlot
  queryReconciliationInteger "reserved_scan_bytes" 1 l.reservedScanBytes
  require (l.executionId ≠ some []) "query lifecycle execution ID is invalid"
  let terminalAudit ← terminalAuditFromItem l
  let claim : QueryLifecycleClaim :=
    { lease := l.toQueryAdmissionLease, claimToken, status := l.status,
      executionId := l.executionId, terminalAudit }
  claim.postInit
  pure claim

def queryReconciliationClaimFromItem (row : Row) (claimToken : ℕ) :
    Except String QueryLifecycleClaim :=
  match row.lifecycle with
  | none => .error "query lifecycle entity type is invalid"
  | some l => lifecycleClaim sha256 row.key l claimToken

/-! ### The table -/

/-- No claim on it, or an expired one. -/
def Lifecycle.isUnclaimed (now : ℤ) (l : Lifecycle) : Bool :=
  l.reconciliation.all fun r ↦ r.expiresAt ≤ now

/-- `FilterExpression` -/
def Row.isEligible (now : ℤ) (row : Row) : Bool :=
  row.lifecycle.any fun l ↦
    (l.leaseExpiresAt ≤ now && (l.status = .accepted || l.status = .running) ||
      l.auditPending && (l.status = .succeeded || l.status = .failed || l.status = .cancelled)) &&
    l.isUnclaimed now

/-- What one scan meets: how many rows it gets to, whether it reports a key at the end of the table,
and the number of the first token drawn for its rows. -/
structure ScanAnswer where
  count : ℕ
  reports : Bool
  token : ℕ

def scanLimit (limit : ℕ) : ℕ := min 1000 (max limit (limit * 20))

/-- The rows behind the key where a scan starts. -/
def rowsAfter (startKey : Option Key) (table : List Row) : List Row :=
  match startKey with
  | none => table
  | some key => (table.dropWhile fun row ↦ row.key ≠ key).tail

/-- The rows that pass the filter, and `LastEvaluatedKey`. -/
def scan (now : ℤ) (limit : ℕ) (startKey : Option Key) (answer : ScanAnswer) (table : List Row) :
    List Row × Option Key :=
  let rest := rowsAfter startKey table
  let examined := rest.take (min answer.count (scanLimit limit))
  (examined.filter (Row.isEligible now),
    if examined.length < rest.length ∨ answer.reports then examined.getLast?.map Row.key else none)

/-- `update_item` of one row; nothing where the condition fails. -/
def markRow (now : ℤ) (claim : QueryLifecycleClaim) (r : Reconciliation) (row : Row) : Option Row :=
  row.lifecycle.bind fun l ↦
    if l.leaseToken = claim.lease.leaseToken ∧ l.status = claim.status ∧
        (if claim.status.isTerminal then l.auditPending else l.leaseExpiresAt ≤ now) ∧
        l.isUnclaimed now then
      some { row with lifecycle := some { l with reconciliation := some r } }
    else none

def updateItem (key : Key) (f : Row → Option Row) (table : List Row) : Option (List Row × Row) :=
  ((table.find? fun row ↦ row.key = key).bind f).map fun updated ↦
    (table.map fun row ↦ if row.key = key then updated else row, updated)

/-- The loop's variables. -/
structure Progress where
  table : List Row
  claims : List QueryLifecycleClaim
  lastExaminedKey : Option Key
  stoppedBeforePageEnd : Bool

variable (owner : Text) (now claimExpiresAt : ℤ) (limit : ℕ)

def claimItems (token : ℕ) (p : Progress) : List Row → Except String Progress
  | [] => .ok p
  | row :: items =>
      match encodeQueryReconciliationCursor (some row.key) with
      | .error _ => claimItems (token + 1) p items
      | .ok _ =>
          let p := { p with lastExaminedKey := some row.key }
          match queryReconciliationClaimFromItem sha256 row token with
          | .error _ => claimItems (token + 1) p items
          | .ok candidate =>
              match updateItem row.key
                  (markRow now candidate ⟨token, owner, claimExpiresAt⟩) p.table with
              | none => claimItems (token + 1) p items
              | some (table, claimed) => do
                  let claim ← queryReconciliationClaimFromItem sha256 claimed token
                  let p := { p with table, claims := p.claims ++ [claim] }
                  if limit ≤ p.claims.length then
                    .ok { p with stoppedBeforePageEnd := !items.isEmpty }
                  else claimItems (token + 1) p items

/-- A request that is not refused. -/
def ValidRequest (claimSeconds : ℤ) : Prop :=
  owner ≠ [] ∧ (owner.dropWhile PyText.isSpace).rdropWhile PyText.isSpace = owner ∧
    owner.length ≤ 256 ∧ (15 ≤ claimSeconds ∧ claimSeconds ≤ 900) ∧ 1 ≤ limit ∧ limit ≤ 100

instance (claimSeconds : ℤ) : Decidable (ValidRequest owner limit claimSeconds) :=
  inferInstanceAs (Decidable (_ ∧ _))

def claimQueryReconciliationPage (wide : List ℕ → Option Text) (claimSeconds : ℤ)
    (cursor : Option Text) (answer : ScanAnswer) (table : List Row) :
    Except String (List Row × QueryLifecyclePage) := do
  require (ValidRequest owner limit claimSeconds) "query reconciliation claim request is invalid"
  let startKey ← decodeQueryReconciliationCursor wide cursor
  let (items, lastEvaluatedKey) := scan now limit startKey answer table
  let p ← claimItems sha256 owner now (now + claimSeconds) limit answer.token
    ⟨table, [], none, false⟩ items
  let continuation := if p.stoppedBeforePageEnd then p.lastExaminedKey else lastEvaluatedKey
  let nextCursor ← encodeQueryReconciliationCursor continuation
  pure (p.table, ⟨p.claims, nextCursor⟩)

end Table

end AxonGateway.Query
