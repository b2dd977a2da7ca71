import AxonGateway.Export.Fencing
import AxonGateway.Export.Integrity

/-!
# The queue of export jobs

A message is deleted when a worker has processed it without an exception, and
delivered again otherwise.  A worker that meets the lease of another one returns
normally, so a job whose worker has crashed can lose its last message.
-/

namespace AxonGateway.Export

open Interleaving UpdateItem

/-- The body of a message, once it is parsed. -/
structure Message where
  tenantId : String
  jobId : String
  deriving DecidableEq

def Message.key (m : Message) : Key := jobKey m.tenantId m.jobId

def exportMessage (job : ExportJob) : Message := ⟨job.tenantId, job.jobId⟩

/-- The table and the objects, the messages that are not deleted, the jobs whose
message was ever sent, and which threads have left `process` or crashed. -/
structure Delivery where
  world : World
  messages : List Message
  sent : List Key
  returned : List ℕ
  crashed : List ℕ

inductive QueueOp where
  | store (o : Op)
  | leave
  | delete (m : Message)

abbrev QueueRet : QueueOp → Type
  | .store o => Ret o
  | .leave => Unit
  | .delete _ => Unit

def Delivery.send (s : Delivery) (job : ExportJob) : Delivery :=
  { s with messages := exportMessage job :: s.messages, sent := job.key :: s.sent }

inductive Perform (strict : Bool) (digest : Digest) (i : ℕ) (s : Delivery) :
    (o : QueueOp) → QueueRet o → Delivery → Prop
  | store (o : Op) (r : Ret o) (w : World) (ho : ∀ job, o ≠ .enqueue job)
      (hexec : Exec strict digest i s.world o r w) :
      Perform strict digest i s (.store o) r { s with world := w }
  | send (job : ExportJob) (r : Outcome Unit) :
      Perform strict digest i s (.store (.enqueue job)) r (s.send job)
  | send_not (job : ExportJob) (r : Outcome Unit) (hr : r ≠ .ok ()) :
      Perform strict digest i s (.store (.enqueue job)) r s
  | leave : Perform strict digest i s .leave () { s with returned := i :: s.returned }
  | delete (m : Message) :
      Perform strict digest i s (.delete m) () { s with messages := s.messages.erase m }

abbrev QueueProgram := Prog QueueOp QueueRet

def stored {α : Type} (p : Program α) : QueueProgram α := p.embed QueueOp.store fun _ r ↦ r

/-- Process a message and delete it unless an exception was raised. -/
def deliver (digest : Digest) (m : Message) : QueueProgram (Except ExportError String) := do
  let r ← stored (process digest m.tenantId m.jobId)
  let _ ← Prog.op QueueOp.leave
  match r with
  | .error e => pure (.error e)
  | .ok jobId => do
      let _ ← Prog.op (QueueOp.delete m)
      pure (.ok jobId)

inductive DeliveryCall where
  | create (tenantId filename : String) (h : isSafeText tenantId = true)
  | deliver (m : Message)

/-- Services and workers with a queue between them; whatever runs may crash. -/
def deliveries (strict : Bool) (digest : Digest) :
    Service QueueOp QueueRet Delivery DeliveryCall (Except ExportError String) where
  machine := {
    exec := fun i o s r s' ↦ i ∉ s.crashed ∧ Perform strict digest i s o r s'
    env := fun s s' ↦ ∃ i, s' = { s with crashed := i :: s.crashed } }
  body
    | .create tenantId filename h => stored (create tenantId filename h)
    | .deliver m => deliver digest m
  admits p
    | .create _ _ _ => True
    | .deliver m => m ∈ p.state.messages

def quiet : Delivery := ⟨start, [], [], [], []⟩

abbrev DeliveryPool := Pool QueueOp QueueRet Delivery DeliveryCall (Except ExportError String)

def Open (row : Item) : Prop :=
  row "status" = some (.str ExportStatus.queued.value) ∨
    row "status" = some (.str ExportStatus.processing.value)

/-- A worker that has not crashed is executing `process` and drew the token. -/
def Executing (s : Delivery) (token : String) : Prop :=
  ∃ e ∈ s.world.issued, e.2.hex = token ∧ e.1 ∉ s.returned ∧ e.1 ∉ s.crashed

def Message.Undeleted (s : Delivery) (k : Key) : Prop := ∃ m ∈ s.messages, m.key = k

/-- Every job that was sent and is not over has a message or a worker. -/
def NoneStranded (s : Delivery) : Prop :=
  ∀ k ∈ s.sent, Open (s.world.rows k) → Message.Undeleted s k ∨
    ∃ token, s.world.rows k "claim_token" = some (.str token) ∧ Executing s token

/-- A claim that meets a job in processing comes when its lease has run out. -/
def Patient (_ : ℕ) : QueueOp → Delivery → Prop
  | .store (.updateItem k request), s => ∀ token now, request = claimRequest token now →
      s.world.rows k "status" = some (.str ExportStatus.processing.value) →
        ∃ lease, s.world.rows k "lease_expires_at" = some (.num lease) ∧ lease < now
  | _, _ => True

/-! ## Requests of the store -/

section Requests

variable {strict : Bool} {row row' : Item} {request : Request} {token : String} {now : ℤ}

inductive JobRequest : Request → Prop
  | claim (token : String) (now : ℤ) : JobRequest (claimRequest token now)
  | status (job : ExportJob) (status : ExportStatus) (errorCode : String) (requireClaim : Bool) :
      JobRequest (statusRequest job status errorCode requireClaim)

/-- What a request that is taken can do to a row. -/
theorem JobRequest.update_ok (hrequest : JobRequest request)
    (h : request.update strict row = .ok row') :
    Open row ∧ (∃ status : ExportStatus, row' "status" = some (.str status.value)) ∧
      ∀ a ∈ fixedAttributes, row' a = row a := by
  cases hrequest with
  | claim token now =>
      have hheld : HeldBy row' token := heldBy_of_claim h
      obtain ⟨-, hcond, -, rfl⟩ := Request.update_ok_iff.mp h
      refine ⟨?_, ⟨_, hheld.1⟩, fun a ha ↦ Request.apply_of_notMem (fixed_claimRequest a ha)⟩
      rcases hcond with ⟨v, hv, hlookup⟩ | ⟨⟨v, hv, hlookup⟩, -⟩
      · obtain rfl : Value.str ExportStatus.queued.value = v := by
          simpa [claimRequest, List.lookup] using hlookup
        exact .inl hv
      · obtain rfl : Value.str ExportStatus.processing.value = v := by
          simpa [claimRequest, List.lookup] using hlookup
        exact .inr hv
  | status job status errorCode requireClaim =>
      obtain ⟨hstatus, -, hheld, -⟩ := updated plainDigest h
      obtain ⟨-, hcond, -, rfl⟩ := Request.update_ok_iff.mp h
      refine ⟨?_, ⟨_, hstatus⟩, fun a ha ↦ Request.apply_of_notMem (fixed_statusRequest a ha _)⟩
      cases requireClaim with
      | true => exact .inr (hheld rfl).1
      | false =>
          obtain ⟨v, hv, hlookup⟩ := hcond
          obtain rfl : Value.str ExportStatus.queued.value = v := by
            cases status <;> simpa [statusRequest, List.lookup] using hlookup
          exact .inl hv

/-- A claim that is refused though no lease is running meets a job that is over. -/
theorem terminal_of_refused {status : ExportStatus}
    (hstatus : row "status" = some (.str status.value))
    (hpatient : row "status" = some (.str ExportStatus.processing.value) →
      ∃ lease, row "lease_expires_at" = some (.num lease) ∧ lease < now)
    (h : (claimRequest token now).update strict row = .error .conditionalCheckFailed) :
    Terminal row := by
  have hcond : ¬ (claimRequest token now).condition.Holds (claimRequest token now).values row := by
    intro hcond
    unfold Request.update at h
    split_ifs at h <;> first | contradiction | cases h
  cases status with
  | queued => exact absurd (.inl ⟨_, hstatus, rfl⟩) hcond
  | processing =>
      obtain ⟨lease, hlease, hlt⟩ := hpatient hstatus
      exact absurd (.inr ⟨⟨_, hstatus, rfl⟩, lease, now, hlease, rfl, hlt⟩) hcond
  | complete => exact .inl hstatus
  | failed => exact .inr hstatus

theorem Open.not_terminal (h : Open row) : ¬ Terminal row := by
  rintro (h' | h') <;> rcases h with h | h <;> rw [h] at h' <;> revert h' <;> decide

end Requests

/-! ## The invariant -/

/-- A row is filed under the job that it describes. -/
structure Filed (k : Key) (row : Item) : Prop where
  status : ∃ status : ExportStatus, row "status" = some (.str status.value)
  key : jobKey (strOf row "tenant_id") (strOf row "job_id") = k

structure Delivered (s : Delivery) : Prop where
  filed : ∀ k, s.world.rows k "PK" ≠ none → Filed k (s.world.rows k)
  keyed : ∀ k, s.world.rows k "status" ≠ none → s.world.rows k "PK" ≠ none
  present : ∀ k ∈ s.sent, s.world.rows k "PK" ≠ none
  addressed : ∀ m ∈ s.messages, m.key ∈ s.sent
  covered : ∀ k ∈ s.sent, Message.Undeleted s k ∨ Terminal (s.world.rows k)

/-- Rows stay, and finished jobs stay finished. -/
structure Lasts (s s' : Delivery) : Prop where
  present : ∀ k, s.world.rows k "PK" ≠ none → s'.world.rows k "PK" ≠ none
  terminal : ∀ k, Terminal (s.world.rows k) → Terminal (s'.world.rows k)
  sent : s.sent ⊆ s'.sent

theorem Lasts.refl (s : Delivery) : Lasts s s := ⟨fun _ h ↦ h, fun _ h ↦ h, fun _ h ↦ h⟩

theorem Lasts.trans {s₁ s₂ s₃ : Delivery} (h : Lasts s₁ s₂) (h' : Lasts s₂ s₃) : Lasts s₁ s₃ :=
  ⟨fun k hk ↦ h'.present k (h.present k hk), fun k hk ↦ h'.terminal k (h.terminal k hk),
    fun _ hk ↦ h'.sent (h.sent hk)⟩

theorem Delivered.noneStranded {s : Delivery} (h : Delivered s) : NoneStranded s := by
  intro k hk hopen
  rcases h.covered k hk with hmessage | hterminal
  · exact .inl hmessage
  · exact absurd hterminal hopen.not_terminal

def deliveryProtocol : Protocol Delivery where
  inv := Delivered
  rely _ := Lasts
  refl _ := Lasts.refl
  trans _ _ _ _ := Lasts.trans

/-! ## Operations -/

def Orderly : QueueOp → Delivery → Prop
  | .store (.putItem job), _ => job.status = .queued
  | .store (.updateItem _ request), _ => JobRequest request
  | .store (.enqueue job), s => s.world.rows job.key "PK" ≠ none
  | .delete m, s => Terminal (s.world.rows m.key)
  | _, _ => True

section Operations

variable {strict : Bool} {digest : Digest} {s s' : Delivery} {w : World} {k : Key} {row : Item}
  {i : ℕ}

theorem delivered_setRow (hinv : Delivered s) (hfiled : Filed k row) (hpresent : row "PK" ≠ none)
    (hterminal : ¬ Terminal (s.world.rows k)) :
    Delivered { s with world := s.world.setRow k row } ∧
      Lasts s { s with world := s.world.setRow k row } := by
  have hcases : ∀ k', (s.world.setRow k row).rows k' = s.world.rows k' ∨
      k' = k ∧ (s.world.setRow k row).rows k' = row := by
    intro k'
    rcases eq_or_ne k' k with rfl | hne
    · exact .inr ⟨rfl, World.rows_setRow_self _ _ _⟩
    · exact .inl (World.rows_setRow_of_ne _ hne _)
  have hstays : ∀ k', s.world.rows k' "PK" ≠ none →
      (s.world.setRow k row).rows k' "PK" ≠ none := by
    intro k' hk'
    rcases hcases k' with h | ⟨-, h⟩ <;> rw [h]
    · exact hk'
    · exact hpresent
  have hover : ∀ k', Terminal (s.world.rows k') → Terminal ((s.world.setRow k row).rows k') := by
    intro k' hk'
    rcases hcases k' with h | ⟨rfl, -⟩
    · rwa [h]
    · exact absurd hk' hterminal
  refine ⟨⟨fun k' hk' ↦ ?_, fun k' hk' ↦ ?_, fun k' hk' ↦ hstays k' (hinv.present k' hk'),
    hinv.addressed, fun k' hk' ↦ ?_⟩, hstays, hover, fun _ h ↦ h⟩
  · change (s.world.setRow k row).rows k' "PK" ≠ none at hk'
    change Filed k' ((s.world.setRow k row).rows k')
    rcases hcases k' with h | ⟨rfl, h⟩
    · rw [h] at hk' ⊢
      exact hinv.filed k' hk'
    · rwa [h]
  · change (s.world.setRow k row).rows k' "status" ≠ none at hk'
    change (s.world.setRow k row).rows k' "PK" ≠ none
    rcases hcases k' with h | ⟨-, h⟩
    · rw [h] at hk' ⊢
      exact hinv.keyed k' hk'
    · rwa [h]
  · rcases hinv.covered k' hk' with h | h
    · exact .inl h
    · exact .inr (hover k' h)

theorem delivered_update {request : Request} (hinv : Delivered s) (hrequest : JobRequest request)
    (hrow : request.update strict (s.world.rows k) = .ok row) :
    Delivered { s with world := s.world.setRow k row } ∧
      Lasts s { s with world := s.world.setRow k row } := by
  obtain ⟨hopen, hstatus, hfixed⟩ := hrequest.update_ok hrow
  have hpresent : s.world.rows k "PK" ≠ none := by
    apply hinv.keyed
    rcases hopen with h | h <;> simp [h]
  apply delivered_setRow hinv _ _ hopen.not_terminal
  · refine ⟨hstatus, ?_⟩
    rw [← (hinv.filed k hpresent).key, strOf, strOf, strOf, strOf,
      hfixed "tenant_id" (by simp [fixedAttributes]), hfixed "job_id" (by simp [fixedAttributes])]
  · rwa [hfixed "PK" (by simp [fixedAttributes])]

theorem filed_jobItem (job : ExportJob) : Filed job.key (jobItem job) := ⟨⟨job.status, rfl⟩, rfl⟩

/-- Without its row an operation changes nothing that the queue is about. -/
theorem delivered_frame (hinv : Delivered s) (hrows : w.rows = s.world.rows) :
    Delivered { s with world := w } ∧ Lasts s { s with world := w } := by
  obtain ⟨hfiled, hkeyed, hpresent, haddressed, hcovered⟩ := hinv
  rw [← hrows] at hfiled hkeyed hpresent hcovered
  refine ⟨⟨hfiled, hkeyed, hpresent, haddressed, hcovered⟩, ?_, ?_, fun _ h ↦ h⟩
  · exact fun k hk ↦ by rwa [hrows]
  · exact fun k hk ↦ by rwa [hrows]

/-- The step lemma. -/
theorem delivered_perform (hinv : Delivered s) {o : QueueOp} {r : QueueRet o}
    (h : Perform strict digest i s o r s') (horderly : Orderly o s) :
    Delivered s' ∧ Lasts s s' := by
  cases h with
  | store o r w ho hexec =>
      cases hexec with
      | put job r hr hnew =>
          apply delivered_setRow hinv (filed_jobItem job)
          · simp [jobItem, List.lookup]
          · intro hterminal
            have hstatus : s.world.rows job.key "status" ≠ none := by
              rcases hterminal with h | h <;> simp [h]
            exact hinv.keyed _ hstatus hnew
      | update k request row r hr hrow => exact delivered_update hinv horderly hrow
      | _ => exact delivered_frame hinv rfl
  | send job r =>
      refine ⟨⟨hinv.filed, hinv.keyed, ?_, ?_, ?_⟩, fun _ h ↦ h, fun _ h ↦ h,
        List.subset_cons_self _ _⟩
      · intro k hk
        rcases List.mem_cons.mp hk with rfl | hk
        · exact horderly
        · exact hinv.present k hk
      · intro m hm
        rcases List.mem_cons.mp hm with rfl | hm
        · exact List.mem_cons_self
        · exact List.mem_cons_of_mem _ (hinv.addressed m hm)
      · intro k hk
        rcases List.mem_cons.mp hk with rfl | hk
        · exact .inl ⟨_, List.mem_cons_self, rfl⟩
        · rcases hinv.covered k hk with ⟨m, hm, hkey⟩ | hterminal
          · exact .inl ⟨m, List.mem_cons_of_mem _ hm, hkey⟩
          · exact .inr hterminal
  | send_not job r hr => exact ⟨hinv, Lasts.refl s⟩
  | leave => exact ⟨⟨hinv.filed, hinv.keyed, hinv.present, hinv.addressed, hinv.covered⟩,
      fun _ h ↦ h, fun _ h ↦ h, fun _ h ↦ h⟩
  | delete m =>
      refine ⟨⟨hinv.filed, hinv.keyed, hinv.present, ?_, ?_⟩, fun _ h ↦ h, fun _ h ↦ h,
        fun _ h ↦ h⟩
      · exact fun m' hm' ↦ hinv.addressed m' (List.mem_of_mem_erase hm')
      · intro k hk
        rcases hinv.covered k hk with ⟨m', hm', hkey⟩ | hterminal
        · rcases eq_or_ne m' m with rfl | hne
          · rw [← hkey]
            exact .inr horderly
          · exact .inl ⟨m', (List.mem_erase_of_ne hne).mpr hm', hkey⟩
        · exact .inr hterminal

end Operations

/-! ## Programs -/

abbrev queueMachine (strict : Bool) (digest : Digest) : Machine QueueOp QueueRet Delivery :=
  ((deliveries strict digest).restrict Patient).machine

/-- What the queue does at the operations of the store. -/
abbrev storeMachine (strict : Bool) (digest : Digest) : Machine Op Ret Delivery :=
  (queueMachine strict digest).comap QueueOp.store fun _ r ↦ r

section Programs

variable {strict : Bool} {digest : Digest} {i : ℕ} {s s' : Delivery} {α β : Type}

abbrev Within (strict : Bool) (digest : Digest) (i : ℕ) (Q : α → Delivery → Prop)
    (p : Program α) (s : Delivery) : Prop :=
  Safe (storeMachine strict digest) deliveryProtocol i Q p s

theorem within_op {Q : α → Delivery → Prop} {o : Op} {k : Ret o → Program α}
    (h : ∀ s₁, Lasts s s₁ → Delivered s₁ → Orderly (.store o) s₁ ∧
      ∀ r s₂, Perform strict digest i s₁ (.store o) r s₂ → Patient i (.store o) s₁ →
        Delivered s₂ → Lasts s₁ s₂ → Within strict digest i Q (k r) s₂) :
    Within strict digest i Q (.call o k) s := by
  rintro s₁ hs hinv r s₂ ⟨r, rfl, ⟨-, hexec⟩, hpatient⟩
  obtain ⟨horderly, hk⟩ := h s₁ hs hinv
  obtain ⟨hinv₂, hlasts⟩ := delivered_perform hinv hexec horderly
  exact ⟨hinv₂, fun _ _ ↦ hlasts, hk r s₂ hexec hpatient hinv₂ hlasts⟩

/-- A job is over once its row has been moved to a final status. -/
theorem updateStatus_within (job : ExportJob) (status : ExportStatus) (errorCode : String)
    (requireClaim : Bool) :
    Within strict digest i (fun r s' ↦ r = .ok () → status = .complete ∨ status = .failed →
        Terminal (s'.world.rows job.key))
      (updateStatus job.key (statusRequest job status errorCode requireClaim)) s := by
  refine within_op fun s₁ _ _ ↦ ⟨.status job status errorCode requireClaim, ?_⟩
  intro r s₂ hperform _ _ _
  cases r with
  | raised e => exact Safe.done fun _ _ _ h ↦ by cases h
  | conditionFailed => exact Safe.done fun _ _ _ h ↦ by cases h
  | ok row =>
      cases hperform with
      | store _ _ w ho hexec =>
          cases hexec with
          | update _ _ row' _ hr hrow =>
              refine Safe.done fun s₃ hs₃ _ _ hfinal ↦ hs₃.terminal _ ?_
              obtain ⟨hstatus, -⟩ := updated digest hrow
              change Terminal ((s₁.world.setRow job.key row').rows job.key)
              rw [World.rows_setRow_self]
              rcases hfinal with rfl | rfl
              · exact .inl hstatus
              · exact .inr hstatus

theorem giveUp_within (job : ExportJob) (e : ExportError) :
    Within strict digest i (fun r s' ↦ ∀ a, r = .ok a → Terminal (s'.world.rows job.key))
      (giveUp job e) s := by
  have hlast : ∀ (errorCode : String) (final : Bool) (f : Except ExportError Unit →
      Program (Except ExportError String)),
      (∀ r a, f r = .done (.ok a) → r = .ok () ∧ final = true) → (∀ r, ∃ a, f r = .done a) →
      Within strict digest i (fun r s' ↦ ∀ a, r = .ok a → Terminal (s'.world.rows job.key))
        (releaseOrFail job errorCode final >>= f) s := by
    intro errorCode final f hok hdone
    refine Safe.seq (updateStatus_within _ _ errorCode true) fun r s₁ _ hr ↦ ?_
    obtain ⟨b, hb⟩ := hdone r
    rw [hb]
    refine Safe.done fun s₂ hs₂ _ a ha ↦ hs₂.terminal _ ?_
    obtain ⟨hunit, hfinal⟩ := hok r a (by rw [hb, ha])
    exact hr hunit (.inr (by rw [hfinal]; rfl))
  unfold giveUp
  split
  next =>
    refine hlast "worker_cancelled" false _ (fun r a h ↦ ?_) fun r ↦ ?_
    · cases r <;> cases h
    · cases r <;> exact ⟨_, rfl⟩
  next =>
    refine hlast _ _ _ (fun r a h ↦ ?_) fun r ↦ ?_
    · cases r with
      | error e => cases h
      | ok =>
          refine ⟨rfl, ?_⟩
          by_contra hfinal
          rw [Bool.not_eq_true] at hfinal
          simp [hfinal] at h
    · cases r <;> exact ⟨_, rfl⟩

theorem upload_within (job : ExportJob) (rendered : RenderedExport) :
    Within strict digest i (fun r s' ↦ r = .ok () → Terminal (s'.world.rows job.key))
      (upload digest job rendered) s := by
  refine within_op fun s₁ _ _ ↦ ⟨trivial, fun r s₂ _ _ _ _ ↦ ?_⟩
  cases r with
  | conditionFailed => exact Safe.done fun _ _ _ h ↦ by cases h
  | raised e => exact Safe.done fun _ _ _ h ↦ by cases h
  | ok =>
      have hcomplete : Within strict digest i _ _ s₂ := updateStatus_within
        { job with
          status := .complete
          objectKey := jobObjectKey digest job
          contentSha256 := rendered.contentSha256
          contentLength := rendered.contentLength
          rowCount := rendered.rowCount
          leaseExpiresAt := 0
          errorCode := ""
          isSha256_contentSha256 := fun _ ↦ rendered.isSha256_contentSha256 } .complete "" true
      exact Safe.imp (fun r s' h hr ↦ h hr (.inl rfl)) hcomplete

theorem attempt_within (job : ExportJob) :
    Within strict digest i (fun r s' ↦ r = .ok () → Terminal (s'.world.rows job.key))
      (attempt digest job) s := by
  refine within_op fun s₁ _ _ ↦ ⟨trivial, fun r s₂ _ _ _ _ ↦ ?_⟩
  cases r with
  | conditionFailed => exact Safe.done fun _ _ _ h ↦ by cases h
  | raised e => exact Safe.done fun _ _ _ h ↦ by cases h
  | ok rendered => exact upload_within job rendered

/-- A worker gets the job that it asked for, or nothing because it is over. -/
theorem claim_within (tenantId jobId : String) (hsent : jobKey tenantId jobId ∈ s.sent) :
    Within strict digest i (fun r s' ↦
        (r = .ok none → Terminal (s'.world.rows (jobKey tenantId jobId))) ∧
          ∀ job, r = .ok (some job) → job.key = jobKey tenantId jobId)
      (claim tenantId jobId) s := by
  unfold claim
  refine within_op fun s₁ hs₁ _ ↦ ⟨trivial, fun now s₂ _ _ _ hs₂ ↦ ?_⟩
  refine within_op fun s₃ hs₃ _ ↦ ⟨trivial, fun token s₄ _ _ _ hs₄ ↦ ?_⟩
  refine within_op fun s₅ hs₅ hinv₅ ↦ ⟨.claim token.hex now, fun r s₆ hperform hpatient hinv₆ _ ↦ ?_⟩
  have hsent₅ : jobKey tenantId jobId ∈ s₅.sent :=
    hs₅.sent (hs₄.sent (hs₃.sent (hs₂.sent (hs₁.sent hsent))))
  cases hperform with
  | store _ _ w ho hexec =>
  cases hexec with
  | update_raised _ _ e => exact Safe.done fun _ _ _ ↦ ⟨(by rintro ⟨⟩), by rintro _ ⟨⟩⟩
  | update_conditionFailed _ _ hrefused =>
      obtain ⟨status, hstatus⟩ := (hinv₅.filed _ (hinv₅.present _ hsent₅)).status
      have hterminal : Terminal (s₅.world.rows (jobKey tenantId jobId)) :=
        terminal_of_refused hstatus (hpatient token.hex now rfl) hrefused
      refine within_op fun s₇ hs₇ _ ↦ ⟨trivial, fun r s₈ _ _ _ hs₈ ↦ ?_⟩
      have hterminal₈ := hs₈.terminal _ (hs₇.terminal _ hterminal)
      cases r with
      | conditionFailed => exact Safe.done fun _ _ _ ↦ ⟨(by rintro ⟨⟩), by rintro _ ⟨⟩⟩
      | raised e => exact Safe.done fun _ _ _ ↦ ⟨(by rintro ⟨⟩), by rintro _ ⟨⟩⟩
      | ok row =>
          change Within strict digest i _ (if row "PK" = none then _ else _) s₈
          split_ifs
          · exact Safe.done fun _ _ _ ↦ ⟨(by rintro ⟨⟩), by rintro _ ⟨⟩⟩
          · exact Safe.done fun s₉ hs₉ _ ↦ ⟨fun _ ↦ hs₉.terminal _ hterminal₈, by rintro _ ⟨⟩⟩
  | update _ _ row' _ hr hrow =>
      cases r with
      | conditionFailed => exact absurd hr (by simp)
      | raised e => exact Safe.done fun _ _ _ ↦ ⟨(by rintro ⟨⟩), by rintro _ ⟨⟩⟩
      | ok row =>
          obtain rfl : row = row' := by simpa using hr
          simp only [Prog.bind]
          cases hjob : jobFromItem row with
          | none => exact Safe.done fun _ _ _ ↦ ⟨(by rintro ⟨⟩), by rintro _ ⟨⟩⟩
          | some job =>
              refine Safe.done fun _ _ _ ↦ ⟨(by rintro ⟨⟩), ?_⟩
              rintro _ ⟨⟩
              obtain ⟨hid, htenant, -, -⟩ := jobFromItem_eq_some hjob
              -- the row came from under its own key
              have hpresent : row "PK" ≠ none := by
                have hafter := hinv₆.keyed (jobKey tenantId jobId)
                change (s₅.world.setRow _ row).rows _ "status" ≠ none →
                  (s₅.world.setRow _ row).rows _ "PK" ≠ none at hafter
                rw [World.rows_setRow_self] at hafter
                apply hafter
                rw [(heldBy_of_claim hrow).1]
                simp
              have hfiled := hinv₆.filed (jobKey tenantId jobId)
              change (s₅.world.setRow _ row).rows _ "PK" ≠ none →
                Filed _ ((s₅.world.setRow _ row).rows _) at hfiled
              rw [World.rows_setRow_self] at hfiled
              rw [ExportJob.key, hid, htenant]
              exact (hfiled hpresent).key

/-- A job whose message was processed without an exception is over. -/
theorem process_within (tenantId jobId : String) (hsent : jobKey tenantId jobId ∈ s.sent) :
    Within strict digest i (fun r s' ↦ ∀ a, r = .ok a →
        Terminal (s'.world.rows (jobKey tenantId jobId)))
      (process digest tenantId jobId) s := by
  refine Safe.seq (claim_within tenantId jobId hsent) fun r s₁ _ hr ↦ ?_
  cases r with
  | error e => exact Safe.done fun _ _ _ _ h ↦ by cases h
  | ok claimed =>
      cases claimed with
      | none => exact Safe.done fun s₂ hs₂ _ _ _ ↦ hs₂.terminal _ (hr.1 rfl)
      | some job =>
          have hkey := hr.2 job rfl
          rw [← hkey]
          refine Safe.seq (attempt_within job) fun r s₂ _ hr ↦ ?_
          cases r with
          | ok => exact Safe.done fun s₃ hs₃ _ _ _ ↦ hs₃.terminal _ (hr rfl)
          | error e => exact giveUp_within job e

theorem create_within (tenantId filename : String) (h : isSafeText tenantId = true) :
    Within strict digest i (fun _ _ ↦ True) (create tenantId filename h) s := by
  unfold create
  refine within_op fun s₁ _ _ ↦ ⟨trivial, fun u s₂ _ _ _ _ ↦ ?_⟩
  refine within_op fun s₃ _ _ ↦ ⟨rfl, fun r s₄ hperform _ _ _ ↦ ?_⟩
  cases r with
  | conditionFailed => exact Safe.done fun _ _ _ ↦ trivial
  | raised e => exact Safe.done fun _ _ _ ↦ trivial
  | ok =>
      have hpresent : s₄.world.rows (newJob tenantId filename h u).key "PK" ≠ none := by
        cases hperform with
        | store _ _ w ho hexec =>
            cases hexec with
            | put => simp [World.setRow, ExportJob.key, jobItem, List.lookup]
            | put_not _ _ hr => exact absurd rfl hr
      refine within_op fun s₅ hs₅ _ ↦ ⟨hs₅.present _ hpresent, fun r s₆ _ _ _ _ ↦ ?_⟩
      have hfailed : ∀ k : Except ExportError Unit → Program (Except ExportError String),
          (∀ r s₇, Within strict digest i (fun _ _ ↦ True) (k r) s₇) →
            Within strict digest i (fun _ _ ↦ True)
              (failQueued (newJob tenantId filename h u) "enqueue_failed" >>= k) s₆ :=
        fun k hk ↦ Safe.seq (updateStatus_within _ _ _ _) fun r s₇ _ _ ↦ hk r s₇
      have hdone : ∀ (r : Except ExportError String) s₇,
          Within strict digest i (fun _ _ ↦ True) (pure r) s₇ :=
        fun _ _ ↦ Safe.done fun _ _ _ ↦ trivial
      cases r with
      | ok => exact Safe.done fun _ _ _ ↦ trivial
      | conditionFailed => exact hfailed _ fun r s₇ ↦ by cases r <;> exact hdone _ s₇
      | raised e =>
          cases e with
          | exception => exact hfailed _ fun r s₇ ↦ by cases r <;> exact hdone _ s₇
          | cancelled => exact Safe.done fun _ _ _ ↦ trivial

theorem deliver_safe (m : Message) (hsent : m.key ∈ s.sent) :
    Safe (queueMachine strict digest) deliveryProtocol i (fun _ _ ↦ True) (deliver digest m) s := by
  have hop : ∀ {o : QueueOp} {k : QueueRet o → QueueProgram (Except ExportError String)}
      {s : Delivery}, (∀ s₁, Lasts s s₁ → Orderly o s₁ ∧ ∀ r s₂, Lasts s₁ s₂ →
        Safe (queueMachine strict digest) deliveryProtocol i (fun _ _ ↦ True) (k r) s₂) →
      Safe (queueMachine strict digest) deliveryProtocol i (fun _ _ ↦ True) (.call o k) s := by
    rintro o k s h s₁ hs hinv r s₂ ⟨⟨-, hexec⟩, -⟩
    obtain ⟨horderly, hk⟩ := h s₁ hs
    obtain ⟨hinv₂, hlasts⟩ := delivered_perform hinv hexec horderly
    exact ⟨hinv₂, fun _ _ ↦ hlasts, hk r s₂ hlasts⟩
  refine Safe.seq (Safe.embed (process_within m.tenantId m.jobId hsent)) fun r s₁ _ hr ↦ ?_
  refine hop fun s₂ hs₂ ↦ ⟨trivial, fun _ s₃ hs₃ ↦ ?_⟩
  cases r with
  | error e => exact Safe.done fun _ _ _ ↦ trivial
  | ok jobId =>
      refine hop fun s₄ hs₄ ↦ ⟨?_, fun _ _ _ ↦ Safe.done fun _ _ _ ↦ trivial⟩
      exact hs₄.terminal _ (hs₃.terminal _ (hs₂.terminal _ (hr jobId rfl)))

end Programs

theorem deliveryObligations (strict : Bool) (digest : Digest) :
    Obligations ((deliveries strict digest).restrict Patient) deliveryProtocol
      (fun _ _ ↦ True) (fun _ _ _ _ _ ↦ True) where
  pre_rely _ _ _ _ _ := trivial
  env s s' hinv henv := by
    obtain ⟨i, rfl⟩ := henv
    exact ⟨⟨hinv.filed, hinv.keyed, hinv.present, hinv.addressed, hinv.covered⟩,
      fun _ ↦ ⟨fun _ h ↦ h, fun _ h ↦ h, fun _ h ↦ h⟩⟩
  start p c hinv _ hc _ := by
    cases c with
    | create tenantId filename h => exact Safe.embed (create_within tenantId filename h)
    | deliver m => exact deliver_safe m (hinv.addressed m hc)

theorem delivered_quiet : Delivered quiet where
  filed _ h := absurd rfl h
  keyed _ h := absurd rfl h
  present _ h := nomatch h
  addressed _ h := nomatch h
  covered _ h := nomatch h

/-- Whatever crashes, is cancelled or is delivered twice: as long as no claim meets
the lease of another worker, no job is stranded. -/
theorem noneStranded_of_patient {strict : Bool} {digest : Digest} {p : DeliveryPool}
    (hp : Reachable ((deliveries strict digest).restrict Patient) quiet p) :
    NoneStranded p.state :=
  (Reachable.poolSafe (deliveryObligations strict digest) delivered_quiet
    (fun _ ↦ trivial) hp).inv.noneStranded

/-! ## A worker that crashes -/

/-- No claim comes before the time that is stored in the row. -/
def afterLease : QueueOp → Delivery → Bool
  | .store (.updateItem k request), s =>
      match s.world.rows k "lease_expires_at", request.values.lookup ":now" with
      | some (.num lease), some (.num now) => lease < now
      | _, some _ => false
      | _, none => true
  | _, _ => true

theorem patient_of_afterLease {i : ℕ} {o : QueueOp} {s : Delivery} (h : afterLease o s = true) :
    Patient i o s := by
  cases o with
  | store o =>
      cases o with
      | updateItem k request =>
          rintro token now rfl -
          have hnow : (claimRequest token now).values.lookup ":now" = some (.num now) := rfl
          simp only [afterLease, hnow] at h
          split at h
          next lease now' hlease hnow' =>
            cases hnow'
            exact ⟨lease, hlease, of_decide_eq_true h⟩
          next => cases h
          next hnone => cases hnone
      | _ => trivial
  | _ => trivial

section Crash

variable (late : ℤ) (ok : QueueOp → Delivery → Bool)

/-- How an operation turns out when nothing fails but what has crashed. -/
def play (i : ℕ) : (o : QueueOp) → Delivery → Option (QueueRet o × Delivery)
  | .store (.enqueue job), s => some (.ok (), s.send job)
  | .store .now, s => some (if i = 1 then 0 else late, s)
  | .store o, s => (act i o s.world).map fun e ↦ (e.1, { s with world := e.2 })
  | .leave, s => some ((), { s with returned := i :: s.returned })
  | .delete m, s => some ((), { s with messages := s.messages.erase m })

def playWhen (i : ℕ) (o : QueueOp) (s : Delivery) : Option (QueueRet o × Delivery) :=
  if i ∉ s.crashed ∧ ok o s = true then play late i o s else none

variable {late ok}

theorem perform_play {i : ℕ} {o : QueueOp} {s s' : Delivery} {r : QueueRet o}
    (h : play late i o s = some (r, s')) : Perform false plainDigest i s o r s' := by
  cases o with
  | leave =>
      cases h
      exact .leave
  | delete m =>
      cases h
      exact .delete m
  | store o =>
      have hact : (∀ job, o ≠ .enqueue job) →
          ((act i o s.world).map fun e ↦ (e.1, { s with world := e.2 })) = some (r, s') →
          Perform false plainDigest i s (.store o) r s' := by
        intro ho h
        obtain ⟨⟨r', w⟩, hw, heq⟩ := Option.map_eq_some_iff.mp h
        cases heq
        exact .store o _ _ ho (exec_act hw)
      cases o with
      | enqueue job =>
          cases h
          exact .send job _
      | now =>
          cases h
          exact .store _ _ _ (by simp) (.now _)
      | _ => exact hact (by simp) h

def report : Message := ⟨"acme", "exp_" ++ (uuidOf 0).hex⟩

variable (late ok)

/-- A worker gets the message; the first `n` operations of thread `i`. -/
def DeliveryPool.deliver (i n : ℕ) (p : DeliveryPool) : DeliveryPool :=
  Pool.playTurns (deliveries false plainDigest).body (playWhen late ok) (List.replicate n (.next i))
    ⟨p.state, p.threads ++ [⟨.deliver report, p.state, Export.deliver plainDigest report⟩]⟩

def created : DeliveryPool :=
  Pool.playTurns (deliveries false plainDigest).body (playWhen late ok)
    (.start (.create "acme" "report.json" isSafeText_acme) :: List.replicate 3 (.next 0))
    ⟨quiet, []⟩

def claimed : DeliveryPool := (created late ok).deliver late ok 1 3

/-- The worker with the claim crashes and its message is delivered again. -/
def redelivered : DeliveryPool :=
  DeliveryPool.deliver late ok 2 8
    ⟨{ (claimed late ok).state with crashed := [1] }, (claimed late ok).threads⟩

variable {late ok}

theorem exec_playWhen {R : ℕ → QueueOp → Delivery → Prop} (hok : ∀ i o s, ok o s = true → R i o s)
    {i : ℕ} {o : QueueOp} {s s' : Delivery} {r : QueueRet o}
    (h : playWhen late ok i o s = some (r, s')) :
    ((deliveries false plainDigest).restrict R).machine.exec i o s r s' := by
  unfold playWhen at h
  split_ifs at h with hcond
  exact ⟨⟨hcond.1, perform_play h⟩, hok i o s hcond.2⟩

theorem reachable_deliver {R : ℕ → QueueOp → Delivery → Prop}
    (hok : ∀ i o s, ok o s = true → R i o s) (i n : ℕ) {p : DeliveryPool}
    (hp : Reachable ((deliveries false plainDigest).restrict R) quiet p)
    (hreport : report ∈ p.state.messages) :
    Reachable ((deliveries false plainDigest).restrict R) quiet (p.deliver late ok i n) := by
  refine (hp.steps (Relation.ReflTransGen.single (.start p (.deliver report) hreport))).steps ?_
  refine Steps.playTurns (fun i o s r s' ↦ exec_playWhen hok) _ (fun _ c h ↦ ?_) _
  have heq := List.eq_of_mem_replicate h
  cases heq

theorem reachable_redelivered {R : ℕ → QueueOp → Delivery → Prop}
    (hok : ∀ i o s, ok o s = true → R i o s)
    (hqueued : report ∈ (created late ok).state.messages)
    (hclaimed : report ∈ (claimed late ok).state.messages)
    (hnone : (claimed late ok).state.crashed = []) :
    Reachable ((deliveries false plainDigest).restrict R) quiet (redelivered late ok) := by
  have hcreate : Reachable ((deliveries false plainDigest).restrict R) quiet (created late ok) := by
    refine Steps.playTurns (fun i o s r s' ↦ exec_playWhen hok) _ (fun p c hc ↦ ?_) _
    rcases List.mem_cons.mp hc with heq | hc
    · cases heq
      exact trivial
    · have heq := List.eq_of_mem_replicate hc
      cases heq
  have hclaim : Reachable ((deliveries false plainDigest).restrict R) quiet (claimed late ok) :=
    reachable_deliver hok 1 3 hcreate hqueued
  have hcrash : Step ((deliveries false plainDigest).restrict R) (claimed late ok)
      ⟨{ (claimed late ok).state with crashed := [1] }, (claimed late ok).threads⟩ :=
    .env _ _ ⟨1, by rw [hnone]⟩
  exact reachable_deliver hok 2 8 (hclaim.steps (Relation.ReflTransGen.single hcrash)) hclaimed

end Crash

/-- The second worker comes after the lease and completes the job. -/
theorem noneStranded_redelivered : NoneStranded (redelivered 1000 afterLease).state ∧
    (redelivered 1000 afterLease).state.world.rows report.key "status" =
      some (.str ExportStatus.complete.value) := by
  constructor
  · have hreach : Reachable ((deliveries false plainDigest).restrict Patient) quiet
        (redelivered 1000 afterLease) := by
      apply reachable_redelivered (fun _ _ _ ↦ patient_of_afterLease)
      all_goals decide +kernel
    exact noneStranded_of_patient hreach
  · decide +kernel

/-- The second worker comes while the lease of the first one, which has crashed, is
still running: it returns normally and the message is deleted. -/
theorem not_noneStranded_redelivered :
    Reachable (deliveries false plainDigest) quiet (redelivered 0 fun _ _ ↦ true) ∧
      ¬ NoneStranded (redelivered 0 fun _ _ ↦ true).state := by
  constructor
  · have hreach : Reachable ((deliveries false plainDigest).restrict fun _ _ _ ↦ True) quiet
        (redelivered 0 fun _ _ ↦ true) := by
      apply reachable_redelivered (fun _ _ _ _ ↦ trivial)
      all_goals decide +kernel
    refine Steps.mono ?_ ?_ ?_ ?_ hreach
    · rfl
    · exact fun _ _ _ _ _ h ↦ h.1
    · exact fun _ _ h ↦ h
    · exact fun _ _ h ↦ h
  · intro h
    have hsent : report.key ∈ (redelivered 0 fun _ _ ↦ true).state.sent := by decide +kernel
    rcases h report.key hsent (.inr (by decide +kernel)) with ⟨m, hm, -⟩ | ⟨token, htoken, e, he,
      rfl, hreturned, hcrashed⟩
    · revert hm
      have hnone : (redelivered 0 fun _ _ ↦ true).state.messages = [] := by decide +kernel
      rw [hnone]
      exact List.not_mem_nil
    · -- the token is the one of the worker that has crashed
      have hrow : some (Value.str (uuidOf 1).hex) = some (.str e.2.hex) := by
        rw [← htoken]
        decide +kernel
      have hthreads : ∀ e ∈ (redelivered 0 fun _ _ ↦ true).state.world.issued,
          e.2.hex = (uuidOf 1).hex → e.1 = 1 := by decide +kernel
      have hone : e.1 = 1 := hthreads e he (by simpa using hrow.symm)
      apply hcrashed
      rw [hone]
      decide +kernel

end AxonGateway.Export
