import AxonGateway.Audit.Record
import AxonGateway.Lib.Schedule

/-!
# Audit trails over one store

Any number of processes append to the chain of one tenant.  Each keeps the last
hash it knows of; the store takes a record only together with the head moving
from the hash the record names.
-/

namespace AxonGateway.Audit

open Interleaving

/-- A tenant with a durable chain of its own. -/
structure TenantId where
  id : String
  notBlank : PyText.isBlank id = false
  notLegacy : id ≠ legacyTenantId

/-- One process's trail: the last hash, once it is initialized, and its recent
records. -/
structure Trail where
  lastHash : Option String := none
  buffer : List AuditRecord := []

/-- The tenant's rows in the order in which they were committed, the chain head,
and the trails with their locks. -/
structure World where
  rows : List Row
  head : Option String
  trails : ℕ → Trail
  locked : ℕ → Bool

namespace World

def setTrail (w : World) (j : ℕ) (trail : Trail) : World :=
  { w with trails := Function.update w.trails j trail }

/-- The condition on the head, of which an absent one is the start of the chain. -/
def HeadIs (w : World) (expected : String) : Prop :=
  w.head = some expected ∨ (w.head = none ∧ expected = genesisHash)

instance (w : World) (expected : String) : Decidable (w.HeadIs expected) :=
  inferInstanceAs (Decidable (_ ∨ _))

/-- Put the row and advance the head. -/
def commit (w : World) (row : Row) : World :=
  { w with rows := w.rows ++ [row], head := some row.recordHash }

/-- The rows in the order of their sort keys. -/
def loadTenantAuditRecords (w : World) : List Row :=
  w.rows.insertionSort fun a b ↦ a.sortKey ≤ b.sortKey

end World

/-- The answer to an append: done, overtaken by another writer, or unknown. -/
inductive Appended where
  | committed
  | conflict
  | unavailable

inductive Op where
  | acquire (j : ℕ)
  | release (j : ℕ)
  | lastHash (j : ℕ)
  | setLastHash (j : ℕ) (hash : String)
  | remember (j : ℕ) (record : AuditRecord)
  | now
  | newRecordId
  | getLatestTenantAuditHash
  | transactAppend (row : Row) (expected : String)

abbrev Ret : Op → Type
  | .acquire _ => Unit
  | .release _ => Unit
  | .lastHash _ => Option String
  | .setLastHash _ _ => Unit
  | .remember _ _ => Unit
  | .now => String
  | .newRecordId => String
  | .getLatestTenantAuditHash => Option (Option String)
  | .transactAppend _ _ => Appended

/-- Clocks show what they like.  A read of the head may fail; an append may fail
before or after it is committed. -/
inductive Exec (w : World) : (o : Op) → Ret o → World → Prop
  | acquire (j : ℕ) (hfree : w.locked j = false) :
      Exec w (.acquire j) () { w with locked := Function.update w.locked j true }
  | release (j : ℕ) :
      Exec w (.release j) () { w with locked := Function.update w.locked j false }
  | lastHash (j : ℕ) : Exec w (.lastHash j) (w.trails j).lastHash w
  | setLastHash (j : ℕ) (hash : String) :
      Exec w (.setLastHash j hash) () (w.setTrail j { w.trails j with lastHash := some hash })
  | remember (j : ℕ) (record : AuditRecord) :
      Exec w (.remember j record) () (w.setTrail j
        { lastHash := some record.recordHash, buffer := (w.trails j).buffer ++ [record] })
  | now (timestamp : String) : Exec w .now timestamp w
  | newRecordId (recordId : String) : Exec w .newRecordId recordId w
  | getLatestTenantAuditHash : Exec w .getLatestTenantAuditHash (some w.head) w
  | getLatestTenantAuditHash_failed : Exec w .getLatestTenantAuditHash none w
  | append (row : Row) (expected : String) (hnew : row.sortKey ∉ w.rows.map Row.sortKey)
      (hhead : w.HeadIs expected) :
      Exec w (.transactAppend row expected) .committed (w.commit row)
  | append_lost (row : Row) (expected : String) (hnew : row.sortKey ∉ w.rows.map Row.sortKey)
      (hhead : w.HeadIs expected) :
      Exec w (.transactAppend row expected) .unavailable (w.commit row)
  | append_conflict (row : Row) (expected : String) (hhead : ¬ w.HeadIs expected) :
      Exec w (.transactAppend row expected) .conflict w
  | append_failed (row : Row) (expected : String) :
      Exec w (.transactAppend row expected) .unavailable w

abbrev Program := Prog Op Ret

/-- The store refuses an incomplete record before it writes anything. -/
def appendTenantAuditRecord (row : Row) (expected : String) : Program Appended :=
  if row.complete then Prog.op (Op.transactAppend row expected) else pure .unavailable

/-- Load the head unless the trail has one. -/
def initializeTenantLocked (j : ℕ) (tenantId : String) : Program (Except String Unit) := do
  match ← Prog.op (Op.lastHash j) with
  | some _ => pure (.ok ())
  | none =>
      match ← Prog.op Op.getLatestTenantAuditHash with
      | none => pure (.error ("Audit chain head unavailable for tenant " ++ quoted tenantId))
      | some head =>
          Prog.op (Op.setLastHash j (head.getD genesisHash))
          pure (.ok ())

/-- Link the record to a hash and compute its own. -/
def AuditRecord.link (digest : Digest) (r : AuditRecord) (expected : String) : AuditRecord :=
  { r with
    prevHash := expected
    recordHash := { r with prevHash := expected }.computeHash digest }

def maxAppendAttempts : ℕ := 5

def takeTime (again : Bool) (timestamp : String) : Program String :=
  if again then Prog.op Op.now else pure timestamp

/-- Append with some attempts left; from the second one on the time is taken anew. -/
def appendAttempts (digest : Digest) (j : ℕ) :
    ℕ → Bool → AuditRecord → Program (Except String AuditRecord)
  | 0, _, _ => pure (.error "Audit chain remained contended after 5 attempts")
  | attempts + 1, again, r => do
      let timestamp ← takeTime again r.timestamp
      let last ← Prog.op (Op.lastHash j)
      let expected := last.getD genesisHash
      let linked := { r with timestamp := timestamp }.link digest expected
      match ← appendTenantAuditRecord (serializeRecord linked) expected with
      | .committed => pure (.ok linked)
      | .unavailable =>
          pure (.error ("Audit append unavailable for tenant " ++ quoted r.tenantId))
      | .conflict =>
          match ← Prog.op Op.getLatestTenantAuditHash with
          | none =>
              pure (.error ("Audit conflict recovery unavailable for tenant " ++ quoted r.tenantId))
          | some head =>
              Prog.op (Op.setLastHash j (head.getD genesisHash))
              appendAttempts digest j attempts true linked

/-- What is recorded, on which trail. -/
structure Call where
  trail : ℕ
  eventType : AuditEventType
  userId : String
  projectId : String
  requestId : String
  data : Json

/-- The part of `record` under the lock of the trail. -/
def recordLocked (digest : Digest) (tenantId : String) (c : Call) :
    Program (Except String AuditRecord) := do
  match ← initializeTenantLocked c.trail tenantId with
  | .error e => pure (.error e)
  | .ok () =>
      let recordId ← Prog.op Op.newRecordId
      let timestamp ← Prog.op Op.now
      let appended ← appendAttempts digest c.trail maxAppendAttempts false {
        recordId := recordId, eventType := c.eventType, timestamp := timestamp
        userId := c.userId, projectId := c.projectId, requestId := c.requestId
        data := c.data, tenantId := tenantId }
      match appended with
      | .error e => pure (.error e)
      | .ok r =>
          Prog.op (Op.remember c.trail r)
          pure (.ok r)

def record (digest : Digest) (tenantId : String) (c : Call) :
    Program (Except String AuditRecord) := do
  Prog.op (Op.acquire c.trail)
  let result ← recordLocked digest tenantId c
  Prog.op (Op.release c.trail)
  pure result

/-- The trails of one tenant.  A record call may start on any of them at any time. -/
def trailService (digest : Digest) (tenant : TenantId) :
    Service Op Ret World Call (Except String AuditRecord) where
  machine := { exec := fun _ o w r w' ↦ Exec w o r w', env := Eq }
  body := record digest tenant.id
  admits _ _ := True

/-- No records yet, and no trail initialized. -/
def start : World := ⟨[], none, fun _ ↦ {}, fun _ ↦ false⟩

end AxonGateway.Audit
