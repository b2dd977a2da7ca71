import AxonGateway.Lib.PyText
import AxonGateway.Lib.UpdateItem

/-!
# Export jobs

The durable row of an export job and the requests that move it from one status
to the next.
-/

namespace AxonGateway.Export

open UpdateItem

def exportMaxAttempts : ℕ := 3

def exportLeaseSeconds : ℤ := 14 * 60

inductive ExportStatus where
  | queued
  | processing
  | complete
  | failed
  deriving DecidableEq

namespace ExportStatus

def value : ExportStatus → String
  | queued => "queued"
  | processing => "processing"
  | complete => "complete"
  | failed => "failed"

def ofValue (s : String) : Option ExportStatus :=
  [queued, processing, complete, failed].find? (·.value == s)

theorem value_injective : Function.Injective value := by
  intro s s' h
  cases s <;> cases s' <;> first | rfl | exact absurd h (by decide)

end ExportStatus

def isHex (c : Char) : Bool := ('0' ≤ c && c ≤ '9') || ('a' ≤ c && c ≤ 'f')

/-- `exp_` and 32 hexadecimal digits. -/
def isJobId (s : String) : Bool :=
  s.toList.take 4 == "exp_".toList && (s.toList.drop 4).length == 32 &&
    (s.toList.drop 4).all isHex

/-- Up to 256 characters, without control characters and surrounding white space. -/
def isSafeText (s : String) : Bool :=
  0 < s.length && s.length ≤ 256 && s.toList.all (fun c ↦ 0x1f < c.toNat && c.toNat != 0x7f) &&
    s.toList.head?.all (!PyText.isSpace ·) && s.toList.getLast?.all (!PyText.isSpace ·)

def isSha256 (s : String) : Bool := s.length == 64 && s.toList.all isHex

/-- SHA-256, of which only the form of its values matters. -/
structure Digest where
  hexdigest : List UInt8 → String
  isSha256_hexdigest : ∀ content, isSha256 (hexdigest content) = true

structure ExportJob where
  jobId : String
  tenantId : String
  status : ExportStatus
  attemptCount : ℕ := 0
  claimToken : String := ""
  leaseExpiresAt : ℤ := 0
  objectKey : String := ""
  filename : String := ""
  contentSha256 : String := ""
  contentLength : ℕ := 0
  rowCount : ℕ := 0
  errorCode : String := ""
  isJobId_jobId : isJobId jobId = true
  isSafeText_tenantId : isSafeText tenantId = true
  isSha256_contentSha256 : contentSha256 ≠ "" → isSha256 contentSha256 = true

/-- A local file with its bytes, their digest and their number. -/
structure RenderedExport where
  content : List UInt8
  filename : String
  contentSha256 : String
  contentLength : ℕ
  rowCount : ℕ
  isSha256_contentSha256 : isSha256 contentSha256 = true

/-- What the renderer returns once it has written the file. -/
def ExportJob.rendered (digest : Digest) (job : ExportJob) (content : List UInt8)
    (rowCount : ℕ) : RenderedExport where
  content := content
  filename := job.filename
  contentSha256 := digest.hexdigest content
  contentLength := content.length
  rowCount := rowCount
  isSha256_contentSha256 := digest.isSha256_hexdigest content

/-! ## Rows -/

abbrev Key := String × String

abbrev Table := Key → Item

def jobPartition (tenantId : String) : String := "TENANT#" ++ tenantId

def jobSort (jobId : String) : String := "EXPORT#" ++ jobId

def jobKey (tenantId jobId : String) : Key := (jobPartition tenantId, jobSort jobId)

def jobItem (job : ExportJob) : Item := fun a ↦ [
    ("PK", Value.str (jobPartition job.tenantId)),
    ("SK", .str (jobSort job.jobId)),
    ("job_id", .str job.jobId),
    ("tenant_id", .str job.tenantId),
    ("status", .str job.status.value),
    ("attempt_count", .num job.attemptCount),
    ("claim_token", .str job.claimToken),
    ("lease_expires_at", .num job.leaseExpiresAt),
    ("object_key", .str job.objectKey),
    ("filename", .str job.filename),
    ("content_sha256", .str job.contentSha256),
    ("content_length", .num job.contentLength),
    ("row_count", .num job.rowCount),
    ("error_code", .str job.errorCode)].lookup a

/-- `str(item.get(a, ""))` -/
def strOf (item : Item) (a : String) : String :=
  match item a with
  | none => ""
  | some (.str s) => s
  | some (.num n) => toString n

/-- `int(item.get(a, 0))` -/
def intOf (item : Item) (a : String) : Option ℤ :=
  match item a with
  | none => some 0
  | some (.str s) => s.toInt?
  | some (.num n) => some n

def countOf (item : Item) (a : String) : Option ℕ :=
  (intOf item a).bind fun n ↦ if 0 ≤ n then some n.toNat else none

/-- The job of a row, unless a field is not valid. -/
def jobFromItem (item : Item) : Option ExportJob := do
  let status ← ExportStatus.ofValue (strOf item "status")
  let attemptCount ← countOf item "attempt_count"
  let leaseExpiresAt ← intOf item "lease_expires_at"
  let contentLength ← countOf item "content_length"
  let rowCount ← countOf item "row_count"
  if h : isJobId (strOf item "job_id") = true ∧ isSafeText (strOf item "tenant_id") = true ∧
      (strOf item "content_sha256" ≠ "" → isSha256 (strOf item "content_sha256") = true) then
    some {
      jobId := strOf item "job_id"
      tenantId := strOf item "tenant_id"
      status := status
      attemptCount := attemptCount
      claimToken := strOf item "claim_token"
      leaseExpiresAt := leaseExpiresAt
      objectKey := strOf item "object_key"
      filename := strOf item "filename"
      contentSha256 := strOf item "content_sha256"
      contentLength := contentLength
      rowCount := rowCount
      errorCode := strOf item "error_code"
      isJobId_jobId := h.1
      isSafeText_tenantId := h.2.1
      isSha256_contentSha256 := h.2.2 }
  else none

theorem jobFromItem_eq_some {item : Item} {job : ExportJob} (h : jobFromItem item = some job) :
    job.jobId = strOf item "job_id" ∧ job.tenantId = strOf item "tenant_id" ∧
      job.filename = strOf item "filename" ∧ job.claimToken = strOf item "claim_token" := by
  simp only [jobFromItem, Option.bind_eq_bind, Option.bind_eq_some_iff] at h
  obtain ⟨status, -, attemptCount, -, leaseExpiresAt, -, contentLength, -, rowCount, -, h⟩ := h
  split_ifs at h
  cases h
  exact ⟨rfl, rfl, rfl, rfl⟩

/-! ## Requests -/

/-- Take a queued job, or one whose lease has run out. -/
def claimRequest (token : String) (now : ℤ) : Request where
  actions := [.set "status" ":processing", .set "claim_token" ":token",
    .set "lease_expires_at" ":lease", .set "error_code" ":empty", .add "attempt_count" ":one"]
  condition := .or (.eq "status" ":queued")
    (.and (.eq "status" ":processing") (.lt "lease_expires_at" ":now"))
  values := [
    (":empty", .str ""),
    (":lease", .num (now + exportLeaseSeconds)),
    (":now", .num now),
    (":one", .num 1),
    (":processing", .str ExportStatus.processing.value),
    (":queued", .str ExportStatus.queued.value),
    (":token", .str token)]

/-- The request that `_update_status` builds. -/
def statusRequest (job : ExportJob) (status : ExportStatus) (errorCode : String)
    (requireClaim : Bool) : Request where
  actions := [.set "status" ":status", .set "error_code" ":error", .set "claim_token" ":empty",
      .set "lease_expires_at" ":zero"] ++
    if status = .complete then [.set "object_key" ":object_key",
      .set "content_sha256" ":content_sha256", .set "content_length" ":content_length",
      .set "row_count" ":row_count"] else []
  condition := if requireClaim then
      .and (.eq "status" ":processing") (.eq "claim_token" ":claim_token")
    else .eq "status" ":queued"
  values := [
      (":status", .str status.value),
      (":error", .str errorCode),
      (":empty", .str ""),
      (":zero", .num 0)] ++
    (if status = .complete then [
      (":object_key", .str job.objectKey),
      (":content_sha256", .str job.contentSha256),
      (":content_length", .num job.contentLength),
      (":row_count", .num job.rowCount)] else []) ++
    -- the value is there whether or not the condition names it
    [(":queued", .str ExportStatus.queued.value)] ++
    if requireClaim then [
      (":processing", .str ExportStatus.processing.value),
      (":claim_token", .str job.claimToken)] else []

def completeRequest (job : ExportJob) (rendered : RenderedExport) (objectKey : String) : Request :=
  statusRequest { job with
    status := .complete
    objectKey := objectKey
    contentSha256 := rendered.contentSha256
    contentLength := rendered.contentLength
    rowCount := rendered.rowCount
    leaseExpiresAt := 0
    errorCode := ""
    isSha256_contentSha256 := fun _ ↦ rendered.isSha256_contentSha256 } .complete "" true

def releaseOrFailRequest (job : ExportJob) (errorCode : String) (final : Bool) : Request :=
  let status := if final then ExportStatus.failed else .queued
  statusRequest { job with
    status := status
    leaseExpiresAt := 0
    errorCode := errorCode } status errorCode true

def failQueuedRequest (job : ExportJob) (errorCode : String) : Request :=
  statusRequest job .failed errorCode false

/-! ## What the requests do -/

/-- The row is processing under the token. -/
def HeldBy (row : Item) (token : String) : Prop :=
  row "status" = some (.str ExportStatus.processing.value) ∧
    row "claim_token" = some (.str token)

/-- No request changes these. -/
def fixedAttributes : List String := ["PK", "SK", "tenant_id", "job_id", "filename"]

section Requests

variable {job : ExportJob} {status : ExportStatus} {errorCode token token' : String} {row : Item}

theorem HeldBy.eq (h : HeldBy row token) (h' : HeldBy row token') :
    token = token' := by
  have heq := h.2.symm.trans h'.2
  simpa using heq

theorem holds_statusRequest (htoken : job.claimToken = token) :
    (statusRequest job status errorCode true).condition.Holds
      (statusRequest job status errorCode true).values row ↔ HeldBy row token := by
  subst htoken
  cases status <;>
    simp [statusRequest, Condition.Holds, HeldBy, List.lookup]

theorem fixed_claimRequest {now : ℤ} (a : String) (ha : a ∈ fixedAttributes) :
    a ∉ (claimRequest token now).actions.map Action.path := by
  simp only [fixedAttributes, List.mem_cons, List.not_mem_nil, or_false] at ha
  rcases ha with rfl | rfl | rfl | rfl | rfl <;> simp [claimRequest, Action.path]

theorem fixed_statusRequest (a : String) (ha : a ∈ fixedAttributes) (requireClaim : Bool) :
    a ∉ (statusRequest job status errorCode requireClaim).actions.map Action.path := by
  simp only [fixedAttributes, List.mem_cons, List.not_mem_nil, or_false] at ha
  rcases ha with rfl | rfl | rfl | rfl | rfl <;>
    cases status <;> simp [statusRequest, Action.path]

end Requests

end AxonGateway.Export
