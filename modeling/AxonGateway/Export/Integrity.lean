import AxonGateway.Export.Worker

/-!
# The object of a completed export

The claim token fences the row of a job but not its object.  A completed row and
its object agree as long as no worker uploads to the object of a job after the
worker that holds or completed it did.
-/

namespace AxonGateway.Export

open Interleaving UpdateItem

variable {strict : Bool} {digest : Digest}

/-- The object of every completed job is what its row says. -/
def Intact (digest : Digest) (w : World) : Prop :=
  ∀ k, w.rows k "status" = some (.str ExportStatus.complete.value) →
    ∃ objectKey stored, w.rows k "object_key" = some (.str objectKey) ∧
      w.objects objectKey = some stored ∧
      w.rows k "content_sha256" = some (.str (digest.hexdigest stored.content)) ∧
      w.rows k "content_length" = some (.num stored.content.length)

/-- The object key of the job in a row. -/
def rowKey (digest : Digest) (row : Item) : String :=
  exportKey digest (strOf row "tenant_id") (strOf row "job_id") (strOf row "filename")

/-- An upload changes no object of a completed job, nor one that the current
holder of its job has uploaded. -/
def Timely (digest : Digest) (_ : ℕ) : Op → World → Prop
  | .putObject objectKey rendered token, w => ∀ k, rowKey digest (w.rows k) = objectKey →
      (∃ stored, w.objects objectKey = some stored ∧ stored.content = rendered.content) ∨
        w.rows k "status" ≠ some (.str ExportStatus.complete.value) ∧
          ∀ holder, HeldBy (w.rows k) holder → holder = token ∨
            ∀ stored, w.objects objectKey = some stored → holder ∉ stored.carriers
  | _, _ => True

/-- A row that says what its object is. -/
def Sound (digest : Digest) (w : World) (row : Item) : Prop :=
  row "status" = some (.str ExportStatus.complete.value) →
    row "object_key" = some (.str (rowKey digest row)) ∧
      ∃ stored, w.objects (rowKey digest row) = some stored ∧
        row "content_sha256" = some (.str (digest.hexdigest stored.content)) ∧
        row "content_length" = some (.num stored.content.length)

structure Inv (digest : Digest) (w : World) : Prop where
  sound : ∀ k, Sound digest w (w.rows k)
  tokens : ∀ k token, HeldBy (w.rows k) token → ∃ e ∈ w.issued, e.2.hex = token
  owner : ∀ e ∈ w.issued, ∀ e' ∈ w.issued, e.2.hex = e'.2.hex → e.1 = e'.1

/-- The object has the content, and was uploaded so under the token. -/
def Carries (w : World) (objectKey : String) (content : List UInt8) (token : String) : Prop :=
  ∃ carriers, w.objects objectKey = some ⟨content, carriers⟩ ∧ token ∈ carriers

/-- What the others leave to program `i`: the jobs it holds and what it uploaded
for them. -/
structure Leaves (digest : Digest) (i : ℕ) (w w' : World) : Prop where
  issued : w.issued ⊆ w'.issued
  holds : ∀ u, (i, u) ∈ w.issued → ∀ k, HeldBy (w'.rows k) u.hex → HeldBy (w.rows k) u.hex ∧
    rowKey digest (w'.rows k) = rowKey digest (w.rows k) ∧
    ∀ content, Carries w (rowKey digest (w.rows k)) content u.hex →
      Carries w' (rowKey digest (w.rows k)) content u.hex

theorem Inv.intact {w : World} (hinv : Inv digest w) : Intact digest w := by
  intro k hk
  obtain ⟨hkey, stored, hstored, hsha, hlength⟩ := hinv.sound k hk
  exact ⟨_, stored, hkey, hstored, hsha, hlength⟩

theorem Leaves.refl (i : ℕ) (w : World) : Leaves digest i w w :=
  ⟨fun _ h ↦ h, fun _ _ _ hk ↦ ⟨hk, rfl, fun _ h ↦ h⟩⟩

theorem Leaves.trans {i : ℕ} {w₁ w₂ w₃ : World} (h : Leaves digest i w₁ w₂)
    (h' : Leaves digest i w₂ w₃) : Leaves digest i w₁ w₃ := by
  refine ⟨fun _ hu ↦ h'.issued (h.issued hu), fun u hu k hk ↦ ?_⟩
  obtain ⟨hk₂, hkey₂, hcarried₂⟩ := h'.holds u (h.issued hu) k hk
  obtain ⟨hk₁, hkey₁, hcarried₁⟩ := h.holds u hu k hk₂
  refine ⟨hk₁, hkey₂.trans hkey₁, fun content hcarries ↦ ?_⟩
  have hcarries₂ := hcarried₁ content hcarries
  rw [← hkey₁] at hcarries₂ ⊢
  exact hcarried₂ content hcarries₂

/-! ## Rows -/

section Rows

variable {row row' : Item} {job : ExportJob} {status : ExportStatus} {errorCode token : String}
  {w : World} {k : Key} {i j : ℕ}

theorem rowKey_congr (h : ∀ a ∈ fixedAttributes, row' a = row a) :
    rowKey digest row' = rowKey digest row := by
  simp only [rowKey, strOf, h "tenant_id" (by simp [fixedAttributes]),
    h "job_id" (by simp [fixedAttributes]), h "filename" (by simp [fixedAttributes])]

theorem heldBy_of_claim {now : ℤ} (h : (claimRequest token now).update strict row = .ok row') :
    HeldBy row' token := by
  obtain ⟨-, -, -, rfl⟩ := Request.update_ok_iff.mp h
  exact ⟨rfl, rfl⟩

variable (digest) in
theorem updated {requireClaim : Bool}
    (h : (statusRequest job status errorCode requireClaim).update strict row = .ok row') :
    row' "status" = some (.str status.value) ∧ rowKey digest row' = rowKey digest row ∧
      (requireClaim = true → HeldBy row job.claimToken) ∧
      (status = .complete → row' "object_key" = some (.str job.objectKey) ∧
        row' "content_sha256" = some (.str job.contentSha256) ∧
        row' "content_length" = some (.num job.contentLength)) := by
  obtain ⟨-, hcond, -, rfl⟩ := Request.update_ok_iff.mp h
  refine ⟨?_, rowKey_congr fun a ha ↦ Request.apply_of_notMem (fixed_statusRequest a ha _), ?_, ?_⟩
  · cases status <;> rfl
  · rintro rfl
    exact (holds_statusRequest rfl).mp hcond
  · rintro rfl
    exact ⟨rfl, rfl, rfl⟩

theorem not_heldBy_of_status (h : row "status" = some (.str status.value))
    (hstatus : status ≠ .processing) : ¬ HeldBy row token := by
  rintro ⟨hrow, -⟩
  rw [h] at hrow
  exact hstatus (ExportStatus.value_injective (by simpa using hrow))

theorem inv_setRow (hinv : Inv digest w) (hsound : Sound digest w row)
    (htokens : ∀ token, HeldBy row token → ∃ e ∈ w.issued, e.2.hex = token) :
    Inv digest (w.setRow k row) := by
  refine ⟨fun k' ↦ ?_, fun k' token hk' ↦ ?_, hinv.owner⟩
  · rcases eq_or_ne k' k with rfl | hne
    · rw [World.rows_setRow_self]
      exact hsound
    · rw [World.rows_setRow_of_ne w hne]
      exact hinv.sound k'
  · rcases eq_or_ne k' k with rfl | hne
    · rw [World.rows_setRow_self] at hk'
      exact htokens token hk'
    · rw [World.rows_setRow_of_ne w hne] at hk'
      exact hinv.tokens k' token hk'

theorem leaves_setRow (h : ∀ u, (j, u) ∈ w.issued → ¬ HeldBy row u.hex) :
    Leaves digest j w (w.setRow k row) := by
  refine ⟨fun _ hu ↦ hu, fun u hu k' hk' ↦ ?_⟩
  rcases eq_or_ne k' k with rfl | hne
  · rw [World.rows_setRow_self] at hk'
    exact absurd hk' (h u hu)
  · rw [World.rows_setRow_of_ne w hne] at hk' ⊢
    exact ⟨hk', rfl, fun _ hcarries ↦ hcarries⟩

end Rows

/-! ## Operations -/

/-- A request that program `i` may make: a claim under a token of its own, or a
change of status that describes the object. -/
inductive Due (digest : Digest) (i : ℕ) (w : World) (k : Key) : Request → Prop
  | claim (u : Uuid) (now : ℤ) (hu : (i, u) ∈ w.issued) : Due digest i w k (claimRequest u.hex now)
  | release (job : ExportJob) (status : ExportStatus) (errorCode : String) (requireClaim : Bool)
      (hstatus : status = .queued ∨ status = .failed) :
      Due digest i w k (statusRequest job status errorCode requireClaim)
  | complete (job : ExportJob) (errorCode : String) (content : List UInt8)
      (hcontent : HeldBy (w.rows k) job.claimToken → job.objectKey = rowKey digest (w.rows k) ∧
        Carries w job.objectKey content job.claimToken)
      (hsha : job.contentSha256 = digest.hexdigest content)
      (hlength : job.contentLength = content.length) :
      Due digest i w k (statusRequest job .complete errorCode true)

def Proper (digest : Digest) (i : ℕ) : Op → World → Prop
  | .putItem job, _ => job.status = .queued
  | .updateItem k request, w => Due digest i w k request
  | .putObject _ _ token, w => ∃ u, (i, u) ∈ w.issued ∧ u.hex = token
  | _, _ => True

section Operations

variable {w w' : World} {i j : ℕ} {k : Key} {row : Item} {request : Request}

theorem sound_of_status {status : ExportStatus} (h : row "status" = some (.str status.value))
    (hstatus : status ≠ .complete) : Sound digest w row := by
  intro hcomplete
  rw [h] at hcomplete
  exact absurd (ExportStatus.value_injective (by simpa using hcomplete)) hstatus

theorem inv_update (hinv : Inv digest w) (hdue : Due digest i w k request)
    (hrow : request.update strict (w.rows k) = .ok row) :
    Inv digest (w.setRow k row) ∧ ∀ j, j ≠ i → Leaves digest j w (w.setRow k row) := by
  cases hdue with
  | claim u now hu =>
      have hheld : HeldBy row u.hex := heldBy_of_claim hrow
      constructor
      · refine inv_setRow hinv (sound_of_status hheld.1 (by simp)) fun token htoken ↦ ?_
        exact ⟨_, hu, hheld.eq htoken⟩
      · intro j hj
        apply leaves_setRow
        -- the token is the caller's
        intro u' hu' hheld'
        exact hj (hinv.owner _ hu' _ hu (hheld'.eq hheld))
  | release job status errorCode requireClaim hstatus =>
      obtain ⟨hrow', -⟩ := updated digest hrow
      have hne : status ≠ .processing ∧ status ≠ .complete := by
        rcases hstatus with rfl | rfl <;> simp
      constructor
      · refine inv_setRow hinv (sound_of_status hrow' hne.2) fun token htoken ↦ ?_
        exact absurd htoken (not_heldBy_of_status hrow' hne.1)
      · exact fun j _ ↦ leaves_setRow fun u _ ↦ not_heldBy_of_status hrow' hne.1
  | complete job errorCode content hcontent hsha hlength =>
      obtain ⟨hrow', hkey, hheld, hobject⟩ := updated digest hrow
      obtain ⟨hobjectKey, hsha', hlength'⟩ := hobject rfl
      constructor
      · refine inv_setRow hinv (fun _ ↦ ?_) fun token htoken ↦ ?_
        · obtain ⟨hrowKey, carriers, hstored, -⟩ := hcontent (hheld rfl)
          rw [hkey, ← hrowKey]
          refine ⟨hobjectKey, _, hstored, ?_, ?_⟩
          · rw [hsha', hsha]
          · rw [hlength', hlength]
        · exact absurd htoken (not_heldBy_of_status hrow' (by simp))
      · exact fun j _ ↦ leaves_setRow fun u _ ↦ not_heldBy_of_status hrow' (by simp)

theorem objects_putObject (w : World) (objectKey : String) (content : List UInt8)
    (token : String) : ∃ carriers, (w.putObject objectKey content token).objects =
      Function.update w.objects objectKey (some ⟨content, token :: carriers⟩) ∧
      ∀ stored, w.objects objectKey = some stored → stored.content = content →
        carriers = stored.carriers := by
  refine ⟨_, rfl, fun stored hstored hcontent ↦ ?_⟩
  simp [hstored, hcontent]

/-- A timely upload. -/
theorem inv_putObject (hinv : Inv digest w) {objectKey token : String}
    {rendered : RenderedExport} (htimely : Timely digest i (.putObject objectKey rendered token) w)
    (htoken : ∃ u, (i, u) ∈ w.issued ∧ u.hex = token) :
    Inv digest (w.putObject objectKey rendered.content token) ∧
      ∀ j, j ≠ i → Leaves digest j w (w.putObject objectKey rendered.content token) := by
  obtain ⟨carriers, hobjects, hcarriers⟩ := objects_putObject w objectKey rendered.content token
  constructor
  · refine ⟨fun k hk ↦ ?_, hinv.tokens, hinv.owner⟩
    obtain ⟨hkey, stored, hstored, hsha, hlength⟩ := hinv.sound k hk
    refine ⟨hkey, ?_⟩
    rw [hobjects]
    rcases eq_or_ne (rowKey digest (w.rows k)) objectKey with rfl | hne
    · rcases htimely k rfl with ⟨stored', hstored', hsame⟩ | ⟨hopen, -⟩
      · obtain rfl : stored' = stored := Option.some.inj (hstored'.symm.trans hstored)
        exact ⟨_, Function.update_self _ _ _, by rw [← hsame]; exact hsha,
          by rw [← hsame]; exact hlength⟩
      · exact absurd hk hopen
    · exact ⟨stored, (Function.update_of_ne hne _ _).trans hstored, hsha, hlength⟩
  · refine fun j hj ↦ ⟨fun _ hu ↦ hu, fun u hu k hk ↦ ⟨hk, rfl, ?_⟩⟩
    rintro content ⟨cs, hstored, hcarrier⟩
    obtain ⟨u₀, hu₀, rfl⟩ := htoken
    unfold Carries
    rw [hobjects]
    rcases eq_or_ne (rowKey digest (w.rows k)) objectKey with rfl | hne
    · rw [Function.update_self]
      rcases htimely k rfl with ⟨stored', hstored', hsame⟩ | ⟨-, hholder⟩
      · obtain rfl : stored' = _ := Option.some.inj (hstored'.symm.trans hstored)
        refine ⟨_, by rw [← hsame], List.mem_cons_of_mem _ ?_⟩
        rw [hcarriers _ hstored hsame]
        exact hcarrier
      · rcases hholder u.hex hk with hmine | hnone
        · exact absurd (hinv.owner _ hu _ hu₀ hmine) hj
        · exact absurd hcarrier (hnone _ hstored)
    · exact ⟨cs, (Function.update_of_ne hne _ _).trans hstored, hcarrier⟩

/-- The step lemma. -/
theorem inv_exec (hinv : Inv digest w) {o : Op} {r : Ret o} (h : Exec strict digest i w o r w')
    (htimely : Timely digest i o w) (hproper : Proper digest i o w) :
    Inv digest w' ∧ ∀ j, j ≠ i → Leaves digest j w w' := by
  cases h with
  | uuid4 u hnew hne =>
      refine ⟨⟨hinv.sound, fun k token htoken ↦ ?_, fun e he e' he' heq ↦ ?_⟩,
        fun j _ ↦ ⟨fun _ he ↦ List.mem_cons_of_mem _ he, fun _ _ _ hk ↦ ⟨hk, rfl, fun _ h ↦ h⟩⟩⟩
      · obtain ⟨e, he, heq⟩ := hinv.tokens k token htoken
        exact ⟨e, List.mem_cons_of_mem _ he, heq⟩
      · rcases List.mem_cons.mp he with rfl | he <;> rcases List.mem_cons.mp he' with rfl | he'
        · rfl
        · exact absurd heq.symm (hnew _ he')
        · exact absurd heq (hnew _ he)
        · exact hinv.owner e he e' he' heq
  | put job r hr hnew =>
      have hstatus : jobItem job "status" = some (.str ExportStatus.queued.value) := by
        have hjob : job.status = .queued := hproper
        rw [← hjob]
        rfl
      constructor
      · refine inv_setRow hinv (sound_of_status hstatus (by simp)) fun token htoken ↦ ?_
        exact absurd htoken (not_heldBy_of_status hstatus (by simp))
      · exact fun j _ ↦ leaves_setRow fun u _ ↦ not_heldBy_of_status hstatus (by simp)
  | update k request row r hr hrow => exact inv_update hinv hproper hrow
  | upload objectKey rendered token r => exact inv_putObject hinv htimely hproper
  | _ => exact ⟨hinv, fun j _ ↦ Leaves.refl j w⟩

end Operations

/-! ## Programs -/

def protocol (digest : Digest) : Protocol World where
  inv := Inv digest
  rely := Leaves digest
  refl := Leaves.refl
  trans _ _ _ _ := Leaves.trans

abbrev machine (strict : Bool) (digest : Digest) : Machine Op Ret World :=
  ((exports strict digest).restrict (Timely digest)).machine

/-- The job is claimed by program `i`, under a token of its own. -/
def Mine (digest : Digest) (i : ℕ) (job : ExportJob) (w : World) : Prop :=
  ∃ u, (i, u) ∈ w.issued ∧ u.hex = job.claimToken ∧
    ∀ k, HeldBy (w.rows k) u.hex → rowKey digest (w.rows k) = jobObjectKey digest job

section Programs

variable {i : ℕ} {w w' : World} {α β : Type}

abbrev Keeps (strict : Bool) (digest : Digest) (i : ℕ) (p : Program α) (w : World) : Prop :=
  Safe (machine strict digest) (protocol digest) i (fun _ _ ↦ True) p w

theorem Mine.leaves {job : ExportJob} (h : Mine digest i job w) (hw : Leaves digest i w w') :
    Mine digest i job w' := by
  obtain ⟨u, hu, htoken, hkey⟩ := h
  refine ⟨u, hw.issued hu, htoken, fun k hk ↦ ?_⟩
  obtain ⟨hheld, hsame, -⟩ := hw.holds u hu k hk
  rw [hsame, hkey k hheld]

theorem op_safe {Q : α → World → Prop} {o : Op} {k : Ret o → Program α}
    (h : ∀ w₁, Leaves digest i w w₁ → Inv digest w₁ → Proper digest i o w₁ ∧
      ∀ r w₂, Exec strict digest i w₁ o r w₂ → Inv digest w₂ →
        Safe (machine strict digest) (protocol digest) i Q (k r) w₂) :
    Safe (machine strict digest) (protocol digest) i Q (.call o k) w := by
  intro w₁ hw₁ hinv r w₂ hexec
  obtain ⟨hproper, hk⟩ := h w₁ hw₁ hinv
  obtain ⟨hinv₂, hleaves⟩ := inv_exec hinv hexec.1 hexec.2 hproper
  exact ⟨hinv₂, hleaves, hk r w₂ hexec.1 hinv₂⟩

theorem keeps_done (a : α) : Keeps strict digest i (.done a) w := Safe.done fun _ _ _ ↦ trivial

theorem Keeps.bind {p : Program α} {f : α → Program β} (h : Keeps strict digest i p w)
    (hf : ∀ a w', Keeps strict digest i (f a) w') : Keeps strict digest i (p >>= f) w := by
  apply Safe.bind
  refine Safe.imp ?_ h
  exact fun a w' _ _ ↦ hf a w'

theorem updateStatus_keeps {k : Key} {request : Request}
    (hdue : ∀ w₁, Leaves digest i w w₁ → Inv digest w₁ → Due digest i w₁ k request) :
    Keeps strict digest i (updateStatus k request) w := by
  refine op_safe fun w₁ hw₁ hinv ↦ ⟨hdue w₁ hw₁ hinv, fun r w₂ _ _ ↦ ?_⟩
  cases r <;> exact keeps_done _

theorem releaseOrFail_keeps (job : ExportJob) (errorCode : String) (final : Bool) :
    Keeps strict digest i (releaseOrFail job errorCode final) w := by
  apply updateStatus_keeps
  refine fun w₁ _ _ ↦ Due.release _ _ _ _ ?_
  cases final
  · exact .inl rfl
  · exact .inr rfl

theorem failQueued_keeps (job : ExportJob) (errorCode : String) :
    Keeps strict digest i (failQueued job errorCode) w :=
  updateStatus_keeps fun _ _ _ ↦ Due.release _ _ _ _ (.inr rfl)

theorem giveUp_keeps (job : ExportJob) (e : ExportError) :
    Keeps strict digest i (giveUp job e) w := by
  unfold giveUp
  split
  all_goals
    refine Keeps.bind (releaseOrFail_keeps _ _ _) fun r w' ↦ ?_
    cases r <;> exact keeps_done _

theorem complete_keeps {job : ExportJob} {rendered : RenderedExport} (hmine : Mine digest i job w)
    (hcarries : ∀ k, HeldBy (w.rows k) job.claimToken →
      Carries w (jobObjectKey digest job) rendered.content job.claimToken)
    (hsha : rendered.contentSha256 = digest.hexdigest rendered.content)
    (hlength : rendered.contentLength = rendered.content.length) :
    Keeps strict digest i (complete job rendered (jobObjectKey digest job)) w := by
  apply updateStatus_keeps
  intro w₁ hw₁ _
  refine Due.complete _ _ rendered.content (fun hheld ↦ ?_) hsha hlength
  obtain ⟨u, hu, htoken, hkey⟩ := hmine
  change HeldBy _ job.claimToken at hheld
  change jobObjectKey digest job = _ ∧ Carries w₁ (jobObjectKey digest job) _ job.claimToken
  rw [← htoken] at hheld hcarries ⊢
  obtain ⟨hheld₀, hsame, hcarried⟩ := hw₁.holds u hu _ hheld
  rw [hsame, hkey _ hheld₀]
  rw [hkey _ hheld₀] at hcarried
  exact ⟨rfl, hcarried _ (hcarries _ hheld₀)⟩

/-- The object as its worker leaves it. -/
theorem upload_keeps {job : ExportJob} {rendered : RenderedExport} (hmine : Mine digest i job w)
    (hsha : rendered.contentSha256 = digest.hexdigest rendered.content)
    (hlength : rendered.contentLength = rendered.content.length) :
    Keeps strict digest i (upload digest job rendered) w := by
  refine op_safe fun w₁ hw₁ _ ↦ ?_
  have hmine₁ := hmine.leaves hw₁
  obtain ⟨u, hu, htoken, -⟩ := id hmine₁
  refine ⟨⟨u, hu, htoken⟩, fun r w₂ hexec _ ↦ ?_⟩
  cases r with
  | conditionFailed => exact keeps_done _
  | raised e => exact keeps_done _
  | ok =>
      cases hexec
      refine complete_keeps hmine₁ (fun k _ ↦ ?_) hsha hlength
      obtain ⟨carriers, hobjects, -⟩ := objects_putObject w₁ (jobObjectKey digest job)
        rendered.content job.claimToken
      exact ⟨_, (congrFun hobjects _).trans (Function.update_self _ _ _), List.mem_cons_self⟩

theorem attempt_keeps {job : ExportJob} (hmine : Mine digest i job w) :
    Keeps strict digest i (attempt digest job) w := by
  refine op_safe fun w₁ hw₁ _ ↦ ⟨trivial, fun r w₂ hexec _ ↦ ?_⟩
  cases hexec with
  | render_raised e => exact keeps_done _
  | render => exact upload_keeps (hmine.leaves hw₁) rfl rfl

variable (digest) in
theorem mine_of_claimed {u : Uuid} {job : ExportJob} {k : Key} {row : Item}
    (hu : (i, u) ∈ w.issued) (hfree : ∀ k, ¬ HeldBy (w.rows k) u.hex) (hheld : HeldBy row u.hex)
    (hjob : jobFromItem row = some job) : Mine digest i job (w.setRow k row) := by
  obtain ⟨hid, htenant, hfile, htoken⟩ := jobFromItem_eq_some hjob
  refine ⟨u, hu, ?_, fun k' hk' ↦ ?_⟩
  · rw [htoken, strOf, hheld.2]
  · rcases eq_or_ne k' k with rfl | hne
    · rw [World.rows_setRow_self, rowKey, jobObjectKey, hid, htenant, hfile]
    · rw [World.rows_setRow_of_ne w hne] at hk'
      exact absurd hk' (hfree k')

/-- A claimed job is the worker's own. -/
theorem claim_safe (tenantId jobId : String) :
    Safe (machine strict digest) (protocol digest) i
      (fun r w' ↦ ∀ job, r = .ok (some job) → Mine digest i job w') (claim tenantId jobId) w := by
  unfold claim
  refine op_safe fun w₁ _ _ ↦ ⟨trivial, fun now w₂ _ _ ↦ ?_⟩
  refine op_safe fun w₃ _ hinv₃ ↦ ⟨trivial, fun u w₄ hexec _ ↦ ?_⟩
  cases hexec with
  | uuid4 _ hnew hne =>
      -- nobody has the token before its claim
      have hfree : ∀ k, ¬ HeldBy (w₃.rows k) u.hex := by
        intro k hk
        obtain ⟨e, he, heq⟩ := hinv₃.tokens k _ hk
        exact hnew e he heq
      refine op_safe fun w₅ hw₅ _ ↦ ?_
      have hu : (i, u) ∈ w₅.issued := hw₅.issued List.mem_cons_self
      have hfree₅ : ∀ k, ¬ HeldBy (w₅.rows k) u.hex := fun k hk ↦
        hfree k (hw₅.holds u List.mem_cons_self k hk).1
      refine ⟨Due.claim u now hu, fun r w₆ hexec _ ↦ ?_⟩
      cases r with
      | raised e => exact Safe.done fun _ _ _ job hjob ↦ by cases hjob
      | conditionFailed =>
          refine op_safe fun w₇ _ _ ↦ ⟨trivial, fun r w₈ _ _ ↦ ?_⟩
          cases r with
          | raised e => exact Safe.done fun _ _ _ job hjob ↦ by cases hjob
          | conditionFailed => exact Safe.done fun _ _ _ job hjob ↦ by cases hjob
          | ok row =>
              change Safe _ _ i _ (if row "PK" = none then _ else _) w₈
              split_ifs
              · exact Safe.done fun _ _ _ job hjob ↦ by cases hjob
              · exact Safe.done fun _ _ _ job hjob ↦ by cases hjob
      | ok row =>
          cases hexec with
          | update _ _ row' _ hr hrow =>
              obtain rfl : row = row' := by simpa using hr
              have hheld : HeldBy row u.hex := heldBy_of_claim hrow
              simp only [Prog.bind]
              cases hjob : jobFromItem row with
              | none => exact Safe.done fun _ _ _ job hjob ↦ by cases hjob
              | some job =>
                  have hmine := mine_of_claimed digest (k := jobKey tenantId jobId) hu hfree₅
                    hheld hjob
                  refine Safe.done fun w₇ hw₇ _ job' hjob' ↦ ?_
                  cases hjob'
                  exact hmine.leaves hw₇

theorem process_keeps (tenantId jobId : String) :
    Keeps strict digest i (process digest tenantId jobId) w := by
  unfold process
  apply Safe.bind
  refine Safe.imp ?_ (claim_safe tenantId jobId)
  intro r w₁ hr _
  cases r with
  | error e => exact keeps_done _
  | ok claimed =>
      cases claimed with
      | none => exact keeps_done _
      | some job =>
          refine Keeps.bind (attempt_keeps (hr job rfl)) fun r w₂ ↦ ?_
          cases r with
          | ok => exact keeps_done _
          | error e => exact giveUp_keeps job e

theorem create_keeps (tenantId filename : String) (h : isSafeText tenantId = true) :
    Keeps strict digest i (create tenantId filename h) w := by
  unfold create
  refine op_safe fun w₁ _ _ ↦ ⟨trivial, fun u w₂ _ _ ↦ ?_⟩
  refine op_safe fun w₃ _ _ ↦ ⟨rfl, fun r w₄ _ _ ↦ ?_⟩
  cases r with
  | conditionFailed => exact keeps_done _
  | raised e => exact keeps_done _
  | ok =>
      refine op_safe fun w₅ _ _ ↦ ⟨trivial, fun r w₆ _ _ ↦ ?_⟩
      have hfailed : ∀ k : Except ExportError Unit → Program (Except ExportError String),
          (∀ r w₇, Keeps strict digest i (k r) w₇) → Keeps strict digest i
            (failQueued (newJob tenantId filename h u) "enqueue_failed" >>= k) w₆ :=
        fun k hk ↦ Keeps.bind (failQueued_keeps _ _) hk
      cases r with
      | ok => exact keeps_done _
      | conditionFailed => exact hfailed _ fun r w₇ ↦ by cases r <;> exact keeps_done _
      | raised e =>
          cases e with
          | exception => exact hfailed _ fun r w₇ ↦ by cases r <;> exact keeps_done _
          | cancelled => exact keeps_done _

end Programs

theorem obligations (strict : Bool) (digest : Digest) :
    Obligations ((exports strict digest).restrict (Timely digest)) (protocol digest)
      (fun _ _ ↦ True) (fun _ _ _ _ _ ↦ True) where
  pre_rely _ _ _ _ _ := trivial
  env w w' hinv henv := by
    obtain rfl : w = w' := henv
    exact ⟨hinv, fun i ↦ Leaves.refl i w⟩
  start _ c _ _ _ _ := by
    cases c with
    | create tenantId filename h => exact create_keeps tenantId filename h
    | process tenantId jobId => exact process_keeps tenantId jobId

theorem inv_start : Inv digest start :=
  ⟨fun _ h ↦ (by cases h), fun _ _ h ↦ (by cases h.1), fun _ h ↦ (by cases h)⟩

abbrev ExportPool := Pool Op Ret World Call (Except ExportError String)

/-- Any number of workers, crashes, lost leases and lost answers: as long as all
uploads are timely, the object of every completed job is intact. -/
theorem intact_of_timely {p : ExportPool}
    (hp : Reachable ((exports strict digest).restrict (Timely digest)) start p) :
    Intact digest p.state :=
  (Reachable.poolSafe (obligations strict digest) inv_start (fun _ ↦ trivial) hp).inv.intact

/-! ## Two workers -/

/-- A stand-in for SHA-256 that tells an empty file from others. -/
def plainDigest : Digest where
  hexdigest content := String.ofList (List.replicate 64 (if content = [] then '0' else '1'))
  isSha256_hexdigest content := by
    split_ifs <;> decide +kernel

/-- What thread `i` draws. -/
def uuidOf (i : ℕ) : Uuid where
  hex := String.ofList (List.replicate 32 (if i = 0 then '0' else if i = 1 then '1' else '2'))
  isHex_hex := by
    split_ifs <;> decide +kernel

/-- How an operation turns out when nothing fails: the second worker comes when the
lease of the first one is over, and renders something else. -/
def act (i : ℕ) : (o : Op) → World → Option (Ret o × World)
  | .uuid4, w =>
      if (∀ e ∈ w.issued, e.2.hex ≠ (uuidOf i).hex) ∧ (uuidOf i).hex ≠ "" then
        some (uuidOf i, { w with issued := (i, uuidOf i) :: w.issued })
      else none
  | .now, w => some (if i = 1 then 0 else 1000, w)
  | .putItem job, w =>
      if w.rows (jobKey job.tenantId job.jobId) "PK" = none then
        some (.ok (), w.setRow (jobKey job.tenantId job.jobId) (jobItem job))
      else some (.conditionFailed, w)
  | .getItem k, w => some (.ok (w.rows k), w)
  | .updateItem k request, w =>
      match request.update false (w.rows k) with
      | .ok row => some (.ok row, w.setRow k row)
      | .error .conditionalCheckFailed => some (.conditionFailed, w)
      | .error .validation => some (.raised .exception, w)
  | .enqueue _, w => some (.ok (), w)
  | .render job, w =>
      some (.ok (job.rendered plainDigest (if i = 1 then [] else [0]) 0), w)
  | .putObject objectKey rendered token, w =>
      some (.ok (), w.putObject objectKey rendered.content token)

theorem exec_act {i : ℕ} {o : Op} {w w' : World} {r : Ret o} (h : act i o w = some (r, w')) :
    Exec false plainDigest i w o r w' := by
  cases o with
  | uuid4 =>
      dsimp only [act] at h
      split_ifs at h with hnew
      cases h
      exact .uuid4 _ hnew.1 hnew.2
  | now =>
      cases h
      exact .now _
  | putItem job =>
      dsimp only [act] at h
      split_ifs at h with hnew
      · cases h
        exact .put job _ (by simp) hnew
      · cases h
        exact .put_not job _ (by simp)
  | getItem k =>
      cases h
      exact .get k
  | updateItem k request =>
      dsimp only [act] at h
      split at h
      next row hrow =>
        cases h
        exact .update k request row _ (.inl rfl) hrow
      next hrow =>
        cases h
        exact .update_conditionFailed k request hrow
      next hrow =>
        cases h
        exact .update_raised k request .exception
  | enqueue job =>
      cases h
      exact .enqueue job _
  | render job =>
      cases h
      exact .render job _ 0
  | putObject objectKey rendered token =>
      cases h
      exact .upload objectKey rendered token _

/-- A job is queued; one worker claims and renders it, another one takes over,
uploads and completes it, and then the first one may upload. -/
def twoWorkers (ok : (o : Op) → World → Bool) : ExportPool :=
  Pool.playTurns (exports false plainDigest).body
    (fun i o w ↦ if ok o w then act i o w else none)
    (.start (.create "acme" "report.json" (by decide +kernel)) :: List.replicate 3 (.next 0) ++
      .start (.process "acme" ("exp_" ++ (uuidOf 0).hex)) :: List.replicate 4 (.next 1) ++
      .start (.process "acme" ("exp_" ++ (uuidOf 0).hex)) :: List.replicate 6 (.next 2) ++
      [.next 1])
    ⟨start, []⟩

def reportKey : Key := jobKey "acme" ("exp_" ++ (uuidOf 0).hex)

/-- No object is uploaded twice. -/
def firstUpload : Op → World → Bool
  | .putObject objectKey _ _, w => (w.objects objectKey).isNone
  | _, _ => true

theorem timely_of_isNone {i : ℕ} {o : Op} {w : World} (hinv : Inv plainDigest w)
    (h : firstUpload o w = true) : Timely plainDigest i o w := by
  cases o with
  | putObject objectKey rendered token =>
      have hnone : w.objects objectKey = none := by simpa [firstUpload] using h
      rintro k rfl
      refine .inr ⟨fun hcomplete ↦ ?_, fun _ _ ↦ .inr fun stored hstored ↦ ?_⟩
      · obtain ⟨-, stored, hstored, -⟩ := hinv.sound k hcomplete
        rw [hnone] at hstored
        cases hstored
      · rw [hnone] at hstored
        cases hstored
  | _ => trivial

theorem intact_firstUpload :
    Intact plainDigest (twoWorkers firstUpload).state ∧
      (twoWorkers firstUpload).state.rows reportKey "status" =
        some (.str ExportStatus.complete.value) := by
  have hreach : Reachable ((exports false plainDigest).restrict (Timely plainDigest)) start
      (twoWorkers firstUpload) := by
    refine Steps.playTurns_of_reached (fun p hp i o r w' h ↦ ?_) _ fun _ _ _ ↦ trivial
    have hinv := (Reachable.poolSafe (obligations false plainDigest) inv_start
      (fun _ ↦ trivial) hp).inv
    split_ifs at h with hfirst
    exact ⟨exec_act h, timely_of_isNone hinv hfirst⟩
  exact ⟨intact_of_timely hreach, by decide +kernel⟩

/-- The first worker uploads after the second one has completed the job: the row
tells of one byte, the object is empty. -/
theorem not_intact_lateUpload :
    Reachable (exports false plainDigest) start (twoWorkers fun _ _ ↦ true) ∧
      ¬ Intact plainDigest (twoWorkers fun _ _ ↦ true).state := by
  constructor
  · exact Steps.playTurns (S := exports false plainDigest)
      (fun i o w r w' h ↦ exec_act (by simpa using h)) _ (fun _ _ _ ↦ trivial) _
  · intro h
    obtain ⟨objectKey, stored, hkey, hstored, -, hlength⟩ := h reportKey (by decide +kernel)
    have hobject : some (Value.str (exportKey plainDigest "acme" ("exp_" ++ (uuidOf 0).hex)
        "report.json")) = some (.str objectKey) := by
      rw [← hkey]
      decide +kernel
    obtain rfl : exportKey plainDigest "acme" ("exp_" ++ (uuidOf 0).hex) "report.json" =
        objectKey := by simpa using hobject
    have hcontent := congrArg (Option.map Stored.content) hstored
    have hempty : some [] = some stored.content := by
      refine Eq.trans ?_ hcontent
      decide +kernel
    rw [← Option.some.inj hempty] at hlength
    revert hlength
    decide +kernel

end AxonGateway.Export
