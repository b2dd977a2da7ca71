import AxonGateway.Export.Job
import AxonGateway.Lib.Schedule

/-!
# Export workers

Services queue jobs and workers claim, render, upload and complete them, over
one table and one object store.
-/

namespace AxonGateway.Export

open Interleaving UpdateItem

/-- `uuid4().hex` -/
structure Uuid where
  hex : String
  isHex_hex : (hex.length == 32 && hex.toList.all isHex) = true

theorem isJobId_append (u : Uuid) : isJobId ("exp_" ++ u.hex) = true := by
  have h := u.isHex_hex
  simp only [Bool.and_eq_true, beq_iff_eq] at h
  simp [isJobId, String.length_toList, h.1, h.2]

/-- `exports/<tenant hash>/<job id>/<file name>` -/
def exportKey (digest : Digest) (tenantId jobId filename : String) : String :=
  let tenantHash := digest.hexdigest tenantId.toUTF8.data.toList
  "exports/" ++ String.ofList (tenantHash.toList.take 32) ++ "/" ++ jobId ++ "/" ++ filename

def jobObjectKey (digest : Digest) (job : ExportJob) : String :=
  exportKey digest job.tenantId job.jobId job.filename

/-- An object and the claim tokens under which these bytes were uploaded. -/
structure Stored where
  content : List UInt8
  carriers : List String

/-- The table, the objects, and who drew which random identifier. -/
structure World where
  rows : Table
  objects : String → Option Stored
  issued : List (ℕ × Uuid)

namespace World

def setRow (w : World) (k : Key) (row : Item) : World :=
  { w with rows := Function.update w.rows k row }

theorem rows_setRow_self (w : World) (k : Key) (row : Item) : (w.setRow k row).rows k = row := by
  simp [setRow]

theorem rows_setRow_of_ne (w : World) {k k' : Key} (h : k' ≠ k) (row : Item) :
    (w.setRow k row).rows k' = w.rows k' := by
  simp [setRow, h]

def putObject (w : World) (objectKey : String) (content : List UInt8) (token : String) : World :=
  let before := match w.objects objectKey with
    | some stored => if stored.content = content then stored.carriers else []
    | none => []
  { w with objects := Function.update w.objects objectKey (some ⟨content, token :: before⟩) }

end World

/-- An exception, or the cancellation of the task. -/
inductive Interrupt where
  | exception
  | cancelled
  deriving DecidableEq

inductive Outcome (α : Type) where
  | ok (a : α)
  | conditionFailed
  | raised (e : Interrupt)

inductive Op where
  | uuid4
  | now
  | putItem (job : ExportJob)
  | getItem (k : Key)
  | updateItem (k : Key) (request : Request)
  | enqueue (job : ExportJob)
  | render (job : ExportJob)
  | putObject (objectKey : String) (rendered : RenderedExport) (token : String)

abbrev Ret : Op → Type
  | .uuid4 => Uuid
  | .now => ℤ
  | .putItem _ => Outcome Unit
  | .getItem _ => Outcome Item
  | .updateItem _ _ => Outcome Item
  | .enqueue _ => Outcome Unit
  | .render _ => Outcome RenderedExport
  | .putObject _ _ _ => Outcome Unit

/-- What an operation of program `i` answers and does.  An operation that raises
may have taken effect. -/
inductive Exec (strict : Bool) (digest : Digest) (i : ℕ) (w : World) :
    (o : Op) → Ret o → World → Prop
  | uuid4 (u : Uuid) (hnew : ∀ e ∈ w.issued, e.2.hex ≠ u.hex) (hne : u.hex ≠ "") :
      Exec strict digest i w .uuid4 u { w with issued := (i, u) :: w.issued }
  | now (t : ℤ) : Exec strict digest i w .now t w
  | put (job : ExportJob) (r : Outcome Unit) (hr : r ≠ .conditionFailed)
      (hnew : w.rows (jobKey job.tenantId job.jobId) "PK" = none) :
      Exec strict digest i w (.putItem job) r
        (w.setRow (jobKey job.tenantId job.jobId) (jobItem job))
  | put_not (job : ExportJob) (r : Outcome Unit) (hr : r ≠ .ok ()) :
      Exec strict digest i w (.putItem job) r w
  | get (k : Key) : Exec strict digest i w (.getItem k) (.ok (w.rows k)) w
  | get_raised (k : Key) (e : Interrupt) : Exec strict digest i w (.getItem k) (.raised e) w
  | update (k : Key) (request : Request) (row : Item) (r : Outcome Item)
      (hr : r = .ok row ∨ ∃ e, r = .raised e)
      (hrow : request.update strict (w.rows k) = .ok row) :
      Exec strict digest i w (.updateItem k request) r (w.setRow k row)
  | update_conditionFailed (k : Key) (request : Request)
      (hrow : request.update strict (w.rows k) = .error .conditionalCheckFailed) :
      Exec strict digest i w (.updateItem k request) .conditionFailed w
  | update_raised (k : Key) (request : Request) (e : Interrupt) :
      Exec strict digest i w (.updateItem k request) (.raised e) w
  | enqueue (job : ExportJob) (r : Outcome Unit) : Exec strict digest i w (.enqueue job) r w
  | render (job : ExportJob) (content : List UInt8) (rowCount : ℕ) :
      Exec strict digest i w (.render job) (.ok (job.rendered digest content rowCount)) w
  | render_raised (job : ExportJob) (e : Interrupt) :
      Exec strict digest i w (.render job) (.raised e) w
  | upload (objectKey : String) (rendered : RenderedExport) (token : String) (r : Outcome Unit) :
      Exec strict digest i w (.putObject objectKey rendered token) r
        (w.putObject objectKey rendered.content token)
  | upload_raised (objectKey : String) (rendered : RenderedExport) (token : String)
      (e : Interrupt) : Exec strict digest i w (.putObject objectKey rendered token) (.raised e) w

abbrev Program := Prog Op Ret

inductive ExportError where
  | notFound
  | leaseLost
  | notQueued
  | raised (e : Interrupt)

/-- `_update_status` -/
def updateStatus (k : Key) (request : Request) : Program (Except ExportError Unit) := do
  match ← Prog.op (Op.updateItem k request) with
  | .ok _ => pure (.ok ())
  | .conditionFailed => pure (.error .leaseLost)
  | .raised e => pure (.error (.raised e))

def ExportJob.key (job : ExportJob) : Key := jobKey job.tenantId job.jobId

def complete (job : ExportJob) (rendered : RenderedExport) (objectKey : String) :
    Program (Except ExportError Unit) :=
  updateStatus job.key (completeRequest job rendered objectKey)

def releaseOrFail (job : ExportJob) (errorCode : String) (final : Bool) :
    Program (Except ExportError Unit) :=
  updateStatus job.key (releaseOrFailRequest job errorCode final)

def failQueued (job : ExportJob) (errorCode : String) : Program (Except ExportError Unit) :=
  updateStatus job.key (failQueuedRequest job errorCode)

/-- The claimed job, or nothing if another worker has it. -/
def claim (tenantId jobId : String) : Program (Except ExportError (Option ExportJob)) := do
  let now ← Prog.op Op.now
  let token ← Prog.op Op.uuid4
  match ← Prog.op (Op.updateItem (jobKey tenantId jobId) (claimRequest token.hex now)) with
  | .ok row =>
      match jobFromItem row with
      | some job => pure (.ok (some job))
      | none => pure (.error (.raised .exception))
  | .raised e => pure (.error (.raised e))
  | .conditionFailed =>
      match ← Prog.op (Op.getItem (jobKey tenantId jobId)) with
      | .ok row => if row "PK" = none then pure (.error .notFound) else pure (.ok none)
      | .conditionFailed => pure (.error (.raised .exception))
      | .raised e => pure (.error (.raised e))

/-- What a worker does about an exception while it has the job. -/
def giveUp (job : ExportJob) : ExportError → Program (Except ExportError String)
  | .raised .cancelled => do
      match ← releaseOrFail job "worker_cancelled" false with
      | .ok () => pure (.error (.raised .cancelled))
      | .error e => pure (.error e)
  | e => do
      let final := decide (exportMaxAttempts ≤ job.attemptCount)
      match ← releaseOrFail job (if final then "generation_failed" else "retry_pending") final with
      | .ok () => pure (if final then .ok job.jobId else .error e)
      | .error e => pure (.error e)

/-- Upload what was rendered and complete the job. -/
def upload (digest : Digest) (job : ExportJob) (rendered : RenderedExport) :
    Program (Except ExportError Unit) := do
  let objectKey := jobObjectKey digest job
  match ← Prog.op (Op.putObject objectKey rendered job.claimToken) with
  | .conditionFailed => pure (.error (.raised .exception))
  | .raised e => pure (.error (.raised e))
  | .ok () => complete job rendered objectKey

/-- What a worker tries once it has claimed a job. -/
def attempt (digest : Digest) (job : ExportJob) : Program (Except ExportError Unit) := do
  match ← Prog.op (Op.render job) with
  | .conditionFailed => pure (.error (.raised .exception))
  | .raised e => pure (.error (.raised e))
  | .ok rendered => upload digest job rendered

def process (digest : Digest) (tenantId jobId : String) : Program (Except ExportError String) := do
  match ← claim tenantId jobId with
  | .error e => pure (.error e)
  | .ok none => pure (.ok jobId)
  | .ok (some job) =>
      match ← attempt digest job with
      | .ok () => pure (.ok job.jobId)
      | .error e => giveUp job e

def newJob (tenantId filename : String) (h : isSafeText tenantId = true) (u : Uuid) :
    ExportJob where
  jobId := "exp_" ++ u.hex
  tenantId := tenantId
  status := .queued
  filename := filename
  isJobId_jobId := isJobId_append u
  isSafeText_tenantId := h
  isSha256_contentSha256 hne := absurd rfl hne

/-- Store a new job and queue it; a job that cannot be queued fails. -/
def create (tenantId filename : String) (h : isSafeText tenantId = true) :
    Program (Except ExportError String) := do
  let u ← Prog.op Op.uuid4
  let job := newJob tenantId filename h u
  match ← Prog.op (Op.putItem job) with
  | .conditionFailed => pure (.error .notQueued)
  | .raised e => pure (.error (.raised e))
  | .ok () =>
      match ← Prog.op (Op.enqueue job) with
      | .ok () => pure (.ok job.jobId)
      | .raised .cancelled => pure (.error (.raised .cancelled))
      | _ =>
          match ← failQueued job "enqueue_failed" with
          | .ok () => pure (.error .notQueued)
          | .error e => pure (.error e)

inductive Call where
  | create (tenantId filename : String) (h : isSafeText tenantId = true)
  | process (tenantId jobId : String)

/-- Services and workers, any number of them. -/
def exports (strict : Bool) (digest : Digest) :
    Service Op Ret World Call (Except ExportError String) where
  machine := { exec := fun i o w r w' ↦ Exec strict digest i w o r w', env := Eq }
  body
    | .create tenantId filename h => create tenantId filename h
    | .process tenantId jobId => process digest tenantId jobId
  admits _ _ := True

def start : World := ⟨fun _ _ ↦ none, fun _ ↦ none, []⟩

end AxonGateway.Export
