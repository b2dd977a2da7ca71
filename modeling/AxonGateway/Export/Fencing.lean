import AxonGateway.Export.Job

/-!
# The lease of an export job

Each call of the job store writes one row by one conditional request, so the
calls of any number of workers take effect in some order.  All but `create` go
through the same update builder, whose requests carry the value `:queued` even
where the condition does not name it; a store that refuses unused values then
never takes an update of the worker that holds the job.
-/

namespace AxonGateway.Export

open UpdateItem

/-- A call of the store, with the token it draws and the time it reads. -/
inductive StoreCall where
  | create (job : ExportJob)
  | claim (tenantId jobId token : String) (now : ℤ)
  | complete (job : ExportJob) (rendered : RenderedExport) (objectKey : String)
  | releaseOrFail (job : ExportJob) (errorCode : String) (final : Bool)
  | failQueued (job : ExportJob) (errorCode : String)

namespace StoreCall

def key : StoreCall → Key
  | create job => jobKey job.tenantId job.jobId
  | claim tenantId jobId _ _ => jobKey tenantId jobId
  | complete job _ _ => jobKey job.tenantId job.jobId
  | releaseOrFail job _ _ => jobKey job.tenantId job.jobId
  | failQueued job _ => jobKey job.tenantId job.jobId

/-- The claim token that a worker shows for its update. -/
def token? : StoreCall → Option String
  | complete job _ _ => some job.claimToken
  | releaseOrFail job _ _ => some job.claimToken
  | _ => none

/-- The new row, or why the row stays as it is. -/
def answer (strict : Bool) (row : Item) : StoreCall → Except Refusal Item
  | create job =>
      if row "PK" = none ∧ row "SK" = none then .ok (jobItem job)
      else .error .conditionalCheckFailed
  | claim _ _ token now => (claimRequest token now).update strict row
  | complete job rendered objectKey =>
      (completeRequest job rendered objectKey).update strict row
  | releaseOrFail job errorCode final =>
      (releaseOrFailRequest job errorCode final).update strict row
  | failQueued job errorCode => (failQueuedRequest job errorCode).update strict row

def write (strict : Bool) (table : Table) (c : StoreCall) : Table :=
  match c.answer strict (table c.key) with
  | .ok row => Function.update table c.key row
  | .error _ => table

def Accepted (strict : Bool) (table : Table) (c : StoreCall) : Prop :=
  ∃ row, c.answer strict (table c.key) = .ok row

end StoreCall

/-- The table after some calls, one after the other. -/
def run (strict : Bool) (calls : List StoreCall) : Table :=
  calls.foldl (StoreCall.write strict) fun _ _ ↦ none

def Terminal (row : Item) : Prop :=
  row "status" = some (.str ExportStatus.complete.value) ∨
    row "status" = some (.str ExportStatus.failed.value)

/-- Some update under the token would be accepted. -/
def CanMove (strict : Bool) (table : Table) (k : Key) (token : String) : Prop :=
  ∃ c : StoreCall, c.key = k ∧ c.token? = some token ∧ c.Accepted strict table

/-- What the lease promises for a run of the store. -/
structure Fenced (strict : Bool) (calls : List StoreCall) : Prop where
  accepted_iff : ∀ before c after, calls = before ++ c :: after → ∀ token, c.token? = some token →
    (c.Accepted strict (run strict before) ↔ HeldBy (run strict before c.key) token)
  rejected : ∀ before c after, calls = before ++ c :: after →
    ¬ c.Accepted strict (run strict before) → run strict (before ++ [c]) = run strict before
  terminal : ∀ before after, calls = before ++ after → ∀ k, Terminal (run strict before k) →
    run strict calls k = run strict before k
  exclusive : ∀ before after, calls = before ++ after → ∀ k token token',
    CanMove strict (run strict before) k token → CanMove strict (run strict before) k token' →
      token = token'

/-! ## The update builder -/

section Builder

variable {strict : Bool} {job : ExportJob} {status : ExportStatus} {errorCode : String}
  {row row' : Item}

/-- An update of a worker leaves `:queued` unused. -/
theorem update_statusRequest_strict :
    (statusRequest job status errorCode true).update true row = .error .validation := by
  apply Request.update_of_unused (p := ":queued") (v := .str ExportStatus.queued.value)
  · simp [statusRequest]
  · cases status <;>
      simp [statusRequest, Request.placeholders, Condition.placeholders, Action.placeholder]

theorem wellFormed_statusRequest :
    (statusRequest job status errorCode true).wellFormed false = true := by
  cases status <;> simp [Request.wellFormed, statusRequest, Request.placeholders,
    Condition.placeholders, Action.placeholder, List.lookup]

theorem applicable_statusRequest (requireClaim : Bool) :
    (statusRequest job status errorCode requireClaim).actions.all
      (Action.applicable (statusRequest job status errorCode requireClaim).values row) = true := by
  cases status <;> rfl

/-- Without the check for unused values, an update of a worker is taken exactly
from the one that holds the row. -/
theorem update_statusRequest_ok_iff {token : String} (htoken : job.claimToken = token) :
    (∃ row', (statusRequest job status errorCode true).update false row = .ok row') ↔
      HeldBy row token := by
  simp only [Request.update_ok_iff, wellFormed_statusRequest, applicable_statusRequest,
    holds_statusRequest htoken, true_and, exists_and_left, exists_eq', and_true]

/-- What was accepted created the row or found it queued or processing. -/
theorem answer_ok {c : StoreCall} (h : c.answer strict row = .ok row') :
    (row "PK" = none ∧ row' "PK" ≠ none) ∨
      ((row "status" = some (.str ExportStatus.queued.value) ∨
        row "status" = some (.str ExportStatus.processing.value)) ∧ row' "PK" = row "PK") := by
  cases c with
  | create job =>
      simp only [StoreCall.answer] at h
      split_ifs at h with hnew
      cases h
      exact .inl ⟨hnew.1, by simp [jobItem, List.lookup]⟩
  | claim tenantId jobId token now =>
      obtain ⟨-, hcond, -, rfl⟩ := Request.update_ok_iff.mp h
      refine .inr ⟨?_, Request.apply_of_notMem (fixed_claimRequest "PK" (by simp [fixedAttributes]))⟩
      rcases hcond with ⟨v, hv, hlookup⟩ | ⟨⟨v, hv, hlookup⟩, -⟩
      · obtain rfl : Value.str ExportStatus.queued.value = v := by
          simpa [claimRequest, List.lookup] using hlookup
        exact .inl hv
      · obtain rfl : Value.str ExportStatus.processing.value = v := by
          simpa [claimRequest, List.lookup] using hlookup
        exact .inr hv
  | complete job rendered objectKey =>
      obtain ⟨-, hcond, -, rfl⟩ := Request.update_ok_iff.mp h
      exact .inr ⟨.inr ((holds_statusRequest rfl).mp hcond).1,
        Request.apply_of_notMem (fixed_statusRequest "PK" (by simp [fixedAttributes]) true)⟩
  | releaseOrFail job errorCode final =>
      obtain ⟨-, hcond, -, rfl⟩ := Request.update_ok_iff.mp h
      exact .inr ⟨.inr ((holds_statusRequest rfl).mp hcond).1,
        Request.apply_of_notMem (fixed_statusRequest "PK" (by simp [fixedAttributes]) true)⟩
  | failQueued job errorCode =>
      obtain ⟨-, ⟨v, hv, hlookup⟩, -, rfl⟩ := Request.update_ok_iff.mp h
      obtain rfl : Value.str ExportStatus.queued.value = v := by
        simpa [failQueuedRequest, statusRequest, List.lookup] using hlookup
      exact .inr ⟨.inl hv, Request.apply_of_notMem (fixed_statusRequest "PK" (by simp [fixedAttributes]) false)⟩

/-- What a worker asks for with its token goes through the builder. -/
theorem answer_of_token (row : Item) {c : StoreCall} {token : String}
    (htoken : c.token? = some token) :
    ∃ job status errorCode, job.claimToken = token ∧
      c.answer strict row = (statusRequest job status errorCode true).update strict row := by
  cases c with
  | complete job rendered objectKey =>
      refine ⟨_, _, _, ?_, rfl⟩
      exact Option.some.inj htoken
  | releaseOrFail job errorCode final =>
      refine ⟨_, _, _, ?_, rfl⟩
      exact Option.some.inj htoken
  | _ => cases htoken

theorem accepted_iff {c : StoreCall} {table : Table} {token : String}
    (htoken : c.token? = some token) :
    c.Accepted strict table ↔ strict = false ∧ HeldBy (table c.key) token := by
  obtain ⟨job, status, errorCode, hjob, hanswer⟩ :=
    answer_of_token (table c.key) htoken
  unfold StoreCall.Accepted
  rw [hanswer]
  cases strict with
  | false => simp only [update_statusRequest_ok_iff hjob, true_and]
  | true => simp [update_statusRequest_strict]

end Builder

/-! ## Runs -/

section Runs

variable {strict : Bool} {calls before after : List StoreCall} {table : Table} {c : StoreCall}
  {k : Key} {token token' : String}

theorem run_append : run strict (before ++ after) = after.foldl (StoreCall.write strict)
    (run strict before) := List.foldl_append

/-- Either nothing changes or one row does, as the store answers. -/
theorem write_cases (strict : Bool) (table : Table) (c : StoreCall) :
    (c.write strict table = table ∧ ¬ c.Accepted strict table) ∨
      ∃ row, c.answer strict (table c.key) = .ok row ∧
        c.write strict table = Function.update table c.key row := by
  unfold StoreCall.write StoreCall.Accepted
  cases h : c.answer strict (table c.key) with
  | ok row => exact .inr ⟨row, rfl, rfl⟩
  | error e => exact .inl ⟨rfl, by simp⟩

/-- Rows with a status are keyed. -/
def Keyed (table : Table) : Prop := ∀ k, table k "status" ≠ none → table k "PK" ≠ none

theorem Keyed.write (h : Keyed table) : Keyed (c.write strict table) := by
  rcases write_cases strict table c with ⟨hw, -⟩ | ⟨row, hanswer, hw⟩
  · rwa [hw]
  · intro k hk
    rw [hw] at hk ⊢
    rcases eq_or_ne k c.key with rfl | hne
    · rw [Function.update_self] at hk ⊢
      rcases answer_ok hanswer with ⟨-, hnew⟩ | ⟨hstatus, hsame⟩
      · exact hnew
      · rw [hsame]
        apply h
        rcases hstatus with hstatus | hstatus <;> simp [hstatus]
    · rw [Function.update_of_ne hne] at hk ⊢
      exact h k hk

theorem keyed_run : Keyed (run strict calls) := by
  induction calls using List.reverseRecOn with
  | nil => exact fun k hk ↦ absurd rfl hk
  | append_singleton calls c ih =>
      rw [run_append]
      exact ih.write

/-- The step lemma for finished jobs. -/
theorem write_terminal (hkeyed : Keyed table) (h : Terminal (table k)) :
    c.write strict table k = table k := by
  rcases write_cases strict table c with ⟨hw, -⟩ | ⟨row, hanswer, hw⟩
  · rw [hw]
  · rw [hw, Function.update_apply, if_neg]
    rintro rfl
    have hstatus : table c.key "status" ≠ none := by
      rcases h with h | h <;> simp [h]
    rcases answer_ok hanswer with ⟨hnew, -⟩ | ⟨hopen, -⟩
    · exact hkeyed _ hstatus hnew
    · rcases h with h | h <;> rw [h] at hopen <;> revert hopen <;> decide

theorem run_terminal (h : Terminal (run strict before k)) :
    run strict (before ++ after) k = run strict before k := by
  induction after using List.reverseRecOn with
  | nil => rw [List.append_nil]
  | append_singleton after c ih =>
      rw [← List.append_assoc, run_append, ← ih]
      exact write_terminal keyed_run (by rwa [ih])

theorem CanMove.heldBy (h : CanMove strict table k token) : HeldBy (table k) token := by
  obtain ⟨c, rfl, htoken, haccepted⟩ := h
  exact ((accepted_iff htoken).mp haccepted).2

theorem fenced_iff : Fenced strict calls ↔ ∀ before c after, calls = before ++ c :: after →
    ∀ token, c.token? = some token → HeldBy (run strict before c.key) token → strict = false := by
  constructor
  · intro h before c after hcalls token htoken hheld
    have haccepted := (h.accepted_iff before c after hcalls token htoken).mpr hheld
    exact ((accepted_iff htoken).mp haccepted).1
  · intro h
    refine ⟨fun before c after hcalls token htoken ↦ ?_, fun before c after _ hrejected ↦ ?_,
      ?_, fun before after _ k token token' hmove hmove' ↦ hmove.heldBy.eq hmove'.heldBy⟩
    · rw [accepted_iff htoken]
      exact ⟨fun h ↦ h.2, fun hheld ↦ ⟨h before c after hcalls token htoken hheld, hheld⟩⟩
    · rw [run_append]
      rcases write_cases strict (run strict before) c with ⟨hw, -⟩ | ⟨row, hanswer, -⟩
      · exact hw
      · exact absurd ⟨row, hanswer⟩ hrejected
    · rintro before after rfl k hterminal
      exact run_terminal hterminal

/-- A store that does not mind unused values keeps the promise in every run. -/
theorem fenced_lenient (calls : List StoreCall) : Fenced false calls :=
  fenced_iff.mpr fun _ _ _ _ _ _ _ ↦ rfl

/-- A store that refuses unused values breaks it with the first update of a worker
that holds its job, and keeps everything else. -/
theorem fenced_strict_iff (calls : List StoreCall) :
    Fenced true calls ↔ ∀ before c after, calls = before ++ c :: after →
      ∀ token, c.token? = some token → ¬ HeldBy (run true before c.key) token := by
  rw [fenced_iff]
  simp only [Bool.true_eq_false, imp_false]

end Runs

theorem isSafeText_acme : isSafeText "acme" = true := by decide +kernel

theorem isSha256_of_no_digest : ("" : String) ≠ "" → isSha256 "" = true := absurd rfl

def queuedJob : ExportJob where
  jobId := "exp_00000000000000000000000000000000"
  tenantId := "acme"
  status := .queued
  filename := "axonllm-audit-records.json"
  isJobId_jobId := by decide +kernel
  isSafeText_tenantId := isSafeText_acme
  isSha256_contentSha256 := isSha256_of_no_digest

def claimedJob : ExportJob :=
  { queuedJob with
    status := .processing
    attemptCount := 1
    claimToken := "t"
    leaseExpiresAt := exportLeaseSeconds }

def emptyExport : RenderedExport where
  content := []
  filename := "axonllm-audit-records.json"
  contentSha256 := "e3b0c44298fc1c149afbf4c8996fb92427ae41e4649b934ca495991b7852b855"
  contentLength := 0
  rowCount := 0
  isSha256_contentSha256 := by decide +kernel

/-- A job is queued, claimed and completed by the worker that claimed it. -/
def oneWorker : List StoreCall := [
  .create queuedJob,
  .claim queuedJob.tenantId queuedJob.jobId "t" 0,
  .complete claimedJob emptyExport "exports/acme"]

theorem not_fenced_oneWorker : ¬ Fenced true oneWorker := by
  intro h
  have hheld : HeldBy (run true (oneWorker.take 2) (jobKey claimedJob.tenantId claimedJob.jobId))
      "t" := ⟨by decide +kernel, by decide +kernel⟩
  have haccepted := (h.accepted_iff (oneWorker.take 2)
    (.complete claimedJob emptyExport "exports/acme") [] rfl "t" rfl).mpr hheld
  exact absurd ((accepted_iff rfl).mp haccepted).1 (by decide)

end AxonGateway.Export
