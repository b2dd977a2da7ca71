import AxonGateway.Lib.Schedule
import AxonGateway.Lib.PyValue
import AxonGateway.Rehearsal.Record

/-!
# The rehearsal ledger

Workers share rows that they replace as a whole.  Each operation reads its row, rebuilds it and
puts it back under the condition that binding and revision are still those that were read.
-/

namespace Rehearsal

open Interleaving

/-- The condition of a put. -/
inductive Condition where
  | absent
  | current (previous : Record)

/-- The attribute is there and has this value. -/
def attrIs (item : Item) (name : String) (value : Scalar) : Bool :=
  match item.lookup name, value with
  | some (.str s), .text s' => s = s'
  | some (.num q), .integer n => q = n
  | _, _ => false

def Condition.holds : Condition → Option Item → Bool
  | .absent, item => item.isNone
  | .current _, none => false
  | .current previous, some item =>
      attrIs item "revision" (.integer previous.revision) &&
        attrIs item "tenant_id" (.text previous.binding.tenantId) &&
          attrIs item "project_id" (.text previous.binding.projectId) &&
            attrIs item "correlation_id" (.text previous.binding.correlationId) &&
              attrIs item "owner_id" (.text previous.binding.ownerId) &&
                attrIs item "release_commit" (.text previous.binding.releaseCommit) &&
                  attrIs item "fence_token" (.integer previous.binding.fenceToken) &&
                    attrIs item "expires_at_epoch" (.integer previous.binding.expiresAtEpoch)

inductive PutStatus where
  | written
  | conflict
  | failed
  deriving DecidableEq

inductive Op where
  | now
  | getItem (key : String)
  | putItem (record : Record) (condition : Condition)

abbrev Ret : Op → Type
  | .now => Option ℤ
  | .getItem _ => Option (Option Item)
  | .putItem _ _ => PutStatus

abbrev Program := Prog Op Ret

/-- The table and the slowest of the clocks.  No operation reads `log`, which has for each key
the records that were written there and by which call, the latest first. -/
structure World where
  rows : String → Option Item
  time : ℤ
  log : String → List (ℕ × Record)

structure Config where
  sha256 : List Char → String
  enabled : Bool

section Programs

variable (cfg : Config)

def World.put (w : World) (i : ℕ) (record : Record) : World :=
  let key := ledgerKey cfg.sha256 record.binding
  { w with
    rows := Function.update w.rows key (some (recordItem cfg.sha256 record))
    log := Function.update w.log key ((i, record) :: w.log key) }

/-- One operation; the clocks are within 300 seconds of each other, and a put that fails may have
been carried out. -/
inductive Exec (i : ℕ) (w : World) : (o : Op) → Ret o → World → Prop
  | now (n : ℤ) (hslow : w.time ≤ n) (hfast : n ≤ w.time + 300) : Exec i w .now (some n) w
  | now_raised : Exec i w .now none w
  | getItem (key : String) : Exec i w (.getItem key) (some (w.rows key)) w
  | getItem_raised (key : String) : Exec i w (.getItem key) none w
  | put (record : Record) (condition : Condition) (status : PutStatus)
      (hholds : condition.holds (w.rows (ledgerKey cfg.sha256 record.binding)) = true)
      (hstatus : status ≠ .conflict) :
      Exec i w (.putItem record condition) status (w.put cfg i record)
  | conflict (record : Record) (condition : Condition)
      (hfails : condition.holds (w.rows (ledgerKey cfg.sha256 record.binding)) = false) :
      Exec i w (.putItem record condition) .conflict w
  | put_raised (record : Record) (condition : Condition) :
      Exec i w (.putItem record condition) .failed w

def ask (o : Op) : Program (Ret o) := Prog.op o

/-- `_read`: whether the row is readable, and its record. -/
def read (binding : RehearsalBinding) (nowEpoch : ℤ) (requireActive : Bool) :
    Program (Bool × Option Record) := do
  match ← ask (.getItem (ledgerKey cfg.sha256 binding)) with
  | none => pure (false, none)
  | some none => pure (true, none)
  | some (some item) =>
      let record := decodeRecord cfg.sha256 item nowEpoch requireActive
      pure (record.isSome, record)

/-- A put of a record that is small enough. -/
def putRecord (record : Record) (condition : Condition) : Program PutStatus :=
  if fits maxLedgerBytes (.map (recordItem cfg.sha256 record)) then ask (.putItem record condition)
  else pure .failed

/-- `_put_new` -/
def putNew (record : Record) : Program PutStatus := putRecord cfg record .absent

/-- `_replace` -/
def replace (previous replacement : Record) : Program PutStatus :=
  putRecord cfg replacement (.current previous)

def maxCasAttempts : ℕ := 2

/-- What a put means for a call that writes `answer`; `retry` is what it does after a conflict. -/
def afterPut {α : Type} (status : PutStatus) (written failed : α) (retry : Program α) : Program α :=
  match status with
  | .written => pure written
  | .failed => pure failed
  | .conflict => retry

/-- The loop of `claim`. -/
def claimAttempts (binding : RehearsalBinding) (nowEpoch : ℤ) : ℕ → Program (Option ℤ)
  | 0 => pure none
  | n + 1 => do
      let (readable, current) ← read cfg binding nowEpoch false
      if !readable then pure none
      else
        match current with
        | none => do
            let status ← putNew cfg (emptyRecord binding nowEpoch 1)
            afterPut status (some 1) none (claimAttempts binding nowEpoch n)
        | some current =>
            if current.binding = binding then pure (some current.revision)
            else if !sameClaimWithoutFence current.binding binding ||
                binding.fenceToken ≤ current.binding.fenceToken then pure none
            else do
              let status ← replace cfg current
                (emptyRecord binding nowEpoch (current.revision + 1))
              afterPut status (some (current.revision + 1)) none
                (claimAttempts binding nowEpoch n)

/-- The start of an operation: the clock, unless the binding is not current by it. -/
def currentTime (binding : RehearsalBinding) : Program (Option ℤ) := do
  let nowEpoch ← ask .now
  pure (nowEpoch.filter fun n ↦ bindingIsCurrent binding n)

/-- `claim` -/
def claim (binding : RehearsalBinding) : Program (Option ℤ) :=
  if !cfg.enabled then pure none
  else do
    match ← currentTime binding with
    | none => pure none
    | some nowEpoch => claimAttempts cfg binding nowEpoch maxCasAttempts

/-- The record with a control put in. -/
def withControl (record : Record) (nowEpoch : ℤ) (controlType name : String) (control : Control) :
    Record :=
  { record with
    revision := record.revision + 1
    updatedAtEpoch := nowEpoch
    faults := if controlType = "fault" then PyValue.set record.faults name control
      else record.faults
    checkpoints := if controlType = "fault" then record.checkpoints
      else PyValue.set record.checkpoints name control }

/-- `write_control` -/
def writeControl (binding : RehearsalBinding) (controlType name : String) (parameters : Attr)
    (active : Bool) (expectedRevision : ℤ) : Program (Option ℤ) :=
  match normalizeControlParameters controlType name parameters with
  | none => pure none
  | some normalized =>
      if !cfg.enabled || !positiveInteger maxFenceToken expectedRevision then pure none
      else do
        match ← currentTime binding with
        | none => pure none
        | some nowEpoch => do
            let (_, current) ← read cfg binding nowEpoch true
            match current with
            | none => pure none
            | some current =>
                if current.binding ≠ binding ∨ current.revision ≠ expectedRevision then pure none
                else do
                  let replacement :=
                    withControl current nowEpoch controlType name ⟨active, normalized⟩
                  let status ← replace cfg current replacement
                  pure (if status = .written then some replacement.revision else none)

structure ActiveRehearsalControl where
  controlType : String
  name : String
  parameters : Fields
  revision : ℤ
  expiresAtEpoch : ℤ
  deriving DecidableEq

/-- The controls of a record that are of one type. -/
def Record.controls (r : Record) (controlType : String) : Controls :=
  if controlType = "fault" then r.faults else r.checkpoints

/-- `_read_active_control` -/
def readActiveControl (binding : RehearsalBinding) (controlType name : String) :
    Program (Option ActiveRehearsalControl) :=
  if !cfg.enabled || !(controlNames controlType).contains name then pure none
  else do
    match ← ask .now with
    | none => pure none
    | some nowEpoch => do
        let (_, record) ← read cfg binding nowEpoch true
        match record with
        | none => pure none
        | some record =>
            if record.binding ≠ binding then pure none
            else
              match (record.controls controlType).lookup name with
              | some ⟨true, parameters⟩ =>
                  pure (some ⟨controlType, name, parameters, record.revision,
                    binding.expiresAtEpoch⟩)
              | _ => pure none

/-- The record with an observation at its end. -/
def withObservation (record : Record) (nowEpoch : ℤ) (kind : String) (payload : Fields) :
    Record :=
  { record with
    revision := record.revision + 1
    updatedAtEpoch := nowEpoch
    observations := record.observations ++
      [⟨record.observations.length + 1, kind, nowEpoch, payload⟩] }

/-- The loop of `append_observation`. -/
def appendAttempts (binding : RehearsalBinding) (nowEpoch : ℤ) (kind : String)
    (payload : Fields) : ℕ → Program Bool
  | 0 => pure false
  | n + 1 => do
      let (_, current) ← read cfg binding nowEpoch true
      match current with
      | none => pure false
      | some current =>
          if current.binding ≠ binding ∨ maxObservations ≤ current.observations.length then
            pure false
          else do
            let status ← replace cfg current (withObservation current nowEpoch kind payload)
            afterPut status true false (appendAttempts binding nowEpoch kind payload n)

/-- `append_observation` -/
def appendObservation (binding : RehearsalBinding) (kind : String) (payload : Attr) :
    Program Bool :=
  match normalizeObservationPayload kind payload with
  | none => pure false
  | some normalized =>
      if !cfg.enabled || !fits maxObservationBytes normalized.toAttr then pure false
      else do
        match ← currentTime binding with
        | none => pure false
        | some nowEpoch => appendAttempts cfg binding nowEpoch kind normalized maxCasAttempts

/-- `_required_observation_kinds` -/
def requiredObservationKinds (values : List String) : Option (List String) :=
  if values.length ≤ observationSchemas.length ∧
      values.all fun v ↦ (observationSchemas.map Prod.fst).contains v then some values
  else none

/-- `collect_observations`; nothing where it raises. -/
def collectObservations (binding : RehearsalBinding) (requiredKinds : List String) :
    Program (Option (List RehearsalObservation)) :=
  match requiredObservationKinds requiredKinds with
  | none => pure none
  | some required => do
      match ← ask .now with
      | none => pure none
      | some nowEpoch =>
          if !cfg.enabled then pure none
          else do
            let (_, record) ← read cfg binding nowEpoch true
            match record with
            | none => pure none
            | some record =>
                if record.binding ≠ binding ∨
                    ¬ required.all fun k ↦ (record.observations.map (·.kind)).contains k then
                  pure none
                else pure (some record.observations)

/-! ### Calls -/

inductive Call where
  | claim (binding : RehearsalBinding)
  | writeControl (binding : RehearsalBinding) (controlType name : String) (parameters : Attr)
      (active : Bool) (expectedRevision : ℤ)
  | readActiveFault (binding : RehearsalBinding) (name : String)
  | readActiveCheckpoint (binding : RehearsalBinding) (name : String)
  | appendObservation (binding : RehearsalBinding) (kind : String) (payload : Attr)
  | collectObservations (binding : RehearsalBinding) (requiredKinds : List String)

def Call.binding : Call → RehearsalBinding
  | claim b => b
  | writeControl b _ _ _ _ _ => b
  | readActiveFault b _ => b
  | readActiveCheckpoint b _ => b
  | appendObservation b _ _ => b
  | collectObservations b _ => b

inductive Answer where
  | revision (r : Option ℤ)
  | control (c : Option ActiveRehearsalControl)
  | appended (b : Bool)
  | observations (os : Option (List RehearsalObservation))

def body : Call → Program Answer
  | .claim b => do
      let r ← claim cfg b
      pure (.revision r)
  | .writeControl b controlType name parameters active expected => do
      let r ← writeControl cfg b controlType name parameters active expected
      pure (.revision r)
  | .readActiveFault b name => do
      let c ← readActiveControl cfg b "fault" name
      pure (.control c)
  | .readActiveCheckpoint b name => do
      let c ← readActiveControl cfg b "checkpoint" name
      pure (.control c)
  | .appendObservation b kind payload => do
      let done ← appendObservation cfg b kind payload
      pure (.appended done)
  | .collectObservations b required => do
      let os ← collectObservations cfg b required
      pure (.observations os)

/-- The workers and their calls; time passes in between. -/
def service : Service Op Ret World Call Answer where
  machine :=
    { exec := fun i o w r w' ↦ Exec cfg i w o r w'
      env := fun w w' ↦ ∃ time, w.time ≤ time ∧ w' = { w with time := time } }
  body := body cfg
  admits _ _ := True

end Programs

/-- Nothing has been written yet. -/
def start (time : ℤ) : World := ⟨fun _ ↦ none, time, fun _ ↦ []⟩

end Rehearsal
