import AxonGateway.Lib.PyText

/-!
# Audit records and their rows

A record carries the hash of its own fields and the hash of the record before
it.  A row of the store holds the fields of a record; the JSON text of the data
and the text of the time stamp stand for their values.
-/

namespace AxonGateway.Audit

inductive AuditEventType where
  | llmRequest
  | llmResponse
  | piiRedaction
  | injectionDetected
  | injectionBlocked
  | authSuccess
  | authFailure
  | policyDeny
  | keyIssued
  | keyListed
  | keyRevoked
  | keyRotated
  | breakGlassAccess
  | queryRequest
  | queryResult
  | queryRejected
  | datasourceMutationRequest
  | datasourceMutationResult
  | tenantConfigMutationRequest
  | tenantConfigMutationResult
  deriving DecidableEq, Repr

namespace AuditEventType

def value : AuditEventType → String
  | llmRequest => "llm_request"
  | llmResponse => "llm_response"
  | piiRedaction => "pii_redaction"
  | injectionDetected => "injection_detected"
  | injectionBlocked => "injection_blocked"
  | authSuccess => "auth_success"
  | authFailure => "auth_failure"
  | policyDeny => "policy_deny"
  | keyIssued => "key_issued"
  | keyListed => "key_listed"
  | keyRevoked => "key_revoked"
  | keyRotated => "key_rotated"
  | breakGlassAccess => "break_glass_access"
  | queryRequest => "query_request"
  | queryResult => "query_result"
  | queryRejected => "query_rejected"
  | datasourceMutationRequest => "datasource_mutation_request"
  | datasourceMutationResult => "datasource_mutation_result"
  | tenantConfigMutationRequest => "tenant_config_mutation_request"
  | tenantConfigMutationResult => "tenant_config_mutation_result"

def all : List AuditEventType :=
  [llmRequest, llmResponse, piiRedaction, injectionDetected, injectionBlocked, authSuccess,
    authFailure, policyDeny, keyIssued, keyListed, keyRevoked, keyRotated, breakGlassAccess,
    queryRequest, queryResult, queryRejected, datasourceMutationRequest,
    datasourceMutationResult, tenantConfigMutationRequest, tenantConfigMutationResult]

def ofValue (s : String) : Option AuditEventType := all.find? fun e ↦ e.value == s

theorem ofValue_value (e : AuditEventType) : ofValue e.value = some e := by
  cases e <;> decide +kernel

end AuditEventType

/-- A JSON document. -/
inductive Json where
  | null
  | bool (b : Bool)
  | number (q : ℚ)
  | text (s : String)
  | array (items : List Json)
  | object (fields : List (String × Json))

structure AuditRecord where
  recordId : String
  eventType : AuditEventType
  timestamp : String
  userId : String
  projectId : String
  requestId : String
  data : Json
  prevHash : String := ""
  recordHash : String := ""
  tenantId : String

def genesisHash : String := "genesis"

def legacyTenantId : String := "__legacy__"

/-- What a hash is taken of. -/
structure Payload where
  recordId : String
  eventType : String
  timestamp : String
  userId : String
  projectId : String
  requestId : String
  data : Json
  prevHash : String
  tenantId : Option String

/-- The hash of the payload's JSON text with sorted keys. -/
abbrev Digest := Payload → String

def AuditRecord.computeHash (digest : Digest) (r : AuditRecord) : String :=
  digest {
    recordId := r.recordId
    eventType := r.eventType.value
    timestamp := r.timestamp
    userId := r.userId
    projectId := r.projectId
    requestId := r.requestId
    data := r.data
    prevHash := r.prevHash
    tenantId := if r.tenantId = legacyTenantId then none else some r.tenantId }

/-- A row of the store, its sort key aside. -/
structure Row where
  recordId : String
  eventType : String
  timestamp : String
  tenantId : String
  userId : String
  projectId : String
  requestId : String
  data : Json
  prevHash : String
  recordHash : String

def serializeRecord (r : AuditRecord) : Row where
  recordId := r.recordId
  eventType := r.eventType.value
  timestamp := r.timestamp
  tenantId := r.tenantId
  userId := r.userId
  projectId := r.projectId
  requestId := r.requestId
  data := r.data
  prevHash := r.prevHash
  recordHash := r.recordHash

/-- A row of another tenant, or of an unknown event type, is not readable. -/
def deserializeRecord (row : Row) (tenantId : String) : Option AuditRecord := do
  if row.tenantId ≠ tenantId then none
  let eventType ← AuditEventType.ofValue row.eventType
  if PyText.isBlank row.tenantId then none
  some {
    recordId := row.recordId
    eventType := eventType
    timestamp := row.timestamp
    userId := row.userId
    projectId := row.projectId
    requestId := row.requestId
    data := row.data
    prevHash := row.prevHash
    recordHash := row.recordHash
    tenantId := row.tenantId }

theorem deserializeRecord_serializeRecord {r : AuditRecord} {tenantId : String}
    (htenant : r.tenantId = tenantId) (hblank : PyText.isBlank tenantId = false) :
    deserializeRecord (serializeRecord r) tenantId = some r := by
  subst htenant
  simp [deserializeRecord, serializeRecord, AuditEventType.ofValue_value, hblank]

namespace Row

def sortKey (row : Row) : String := "AUDIT#RECORD#" ++ row.timestamp ++ "#" ++ row.recordId

/-- The fields that the store insists on. -/
def complete (row : Row) : Bool :=
  row.recordId ≠ "" && row.timestamp ≠ "" && row.prevHash ≠ "" && row.recordHash ≠ ""

end Row

/-! ## Verification -/

structure VerifyResult where
  available : Bool
  valid : Bool
  checked : ℕ
  matched : ℕ := 0
  brokenAt : Option String := none
  reason : String := ""
  deriving DecidableEq

/-- Check the rows one after the other, from the hash `prev` on. -/
def verifyRows (digest : Digest) (tenantId : String) (projectId : Option String) (genesis : Bool) :
    List Row → String → ℕ → ℕ → Except VerifyResult (String × ℕ × ℕ)
  | [], prev, checked, matched => .ok (prev, checked, matched)
  | row :: rows, prev, checked, matched =>
      match deserializeRecord row tenantId with
      | none => .error {
          available := true, valid := false, checked := checked, brokenAt := row.recordId
          reason := "unreadable row" }
      | some r =>
          if r.computeHash digest ≠ r.recordHash then .error {
            available := true, valid := false, checked := checked, brokenAt := r.recordId
            reason := "record_hash mismatch (content altered)" }
          else if r.prevHash ≠ prev then .error {
            available := true, valid := false, checked := checked, brokenAt := r.recordId
            reason := if checked = 0 && genesis then
                "first record does not link to expected genesis hash"
              else "prev_hash link broken (row removed/reordered)" }
          else verifyRows digest tenantId projectId genesis rows r.recordHash (checked + 1)
            (if projectId.all (· == r.projectId) then matched + 1 else matched)

/-- The verdict on the rows and the head, if they could be loaded. -/
def verifyPersistedChain (digest : Digest) (tenantId : String) (projectId : Option String)
    (expectedPrevHash : String) : Option (List Row × Option String) → VerifyResult
  | none => {
      available := false, valid := false, checked := 0
      reason := "durable audit store unavailable" }
  | some (rows, head) =>
      match verifyRows digest tenantId projectId (expectedPrevHash == genesisHash) rows
          expectedPrevHash 0 0 with
      | .error result => result
      | .ok (prev, checked, matched) =>
          if (rows ≠ [] ∧ head ≠ some prev) ∨ (rows = [] ∧ head ≠ none) then {
            available := true, valid := false, checked := checked
            reason := "durable audit head does not match loaded records" }
          else { available := true, valid := true, checked := checked, matched := matched }

/-- The `repr` of a text without quotes and control characters. -/
def quoted (s : String) : String := "'" ++ s ++ "'"

/-- Follow the chain of the records from the hash `previous` on. -/
def followChain (digest : Digest) : List AuditRecord → String → Except String String
  | [], previous => .ok previous
  | r :: rs, previous =>
      if r.prevHash ≠ previous then .error "Durable audit records do not form a continuous chain"
      else if r.recordHash ≠ r.computeHash digest then
        .error "Durable audit record hash validation failed"
      else followChain digest rs r.recordHash

/-- The records a trail reloads with the last hash, or why the store cannot be
trusted. -/
def hydrateRecords (digest : Digest) (tenantId : String) (rows : List Row)
    (head : Option String) : Except String (List AuditRecord × String) :=
  match rows.mapM (deserializeRecord · tenantId) with
  | none => .error ("Audit records unavailable for tenant " ++ quoted tenantId)
  | some records =>
      match followChain digest records genesisHash with
      | .error e => .error e
      | .ok previous =>
          if head ≠ (if records.isEmpty then none else some previous) then
            .error "Durable audit head does not match loaded records"
          else .ok (records, previous)

end AxonGateway.Audit
