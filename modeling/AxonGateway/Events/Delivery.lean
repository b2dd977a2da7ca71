import AxonGateway.Events.Outbox

/-!
# Deliveries of the outbox

However dispatchers, workers and functions interleave and wherever they stop, deliveries stay in one
tenant, nothing that was queued is lost, and each destination gets its events in their order.
-/

namespace AxonGateway.Events

open PyValue JsonText Interleaving GroupedQueue

variable {ι : Type} {sha256 : Text → Text} {number : Text → Value}

/-! ### Destinations -/

/-- Every destination stands under its tenant, with a configuration of JSON. -/
def Tidy (number : Text → Value) (destinations : Destinations) : Prop :=
  ∀ entry ∈ destinations, ∀ destination ∈ entry.2,
    destination.tenantId = entry.1 ∧ IsJson number (.obj destination.config)

theorem Tidy.ofTenant {destinations : Destinations} (h : Tidy number destinations) {tenantId : Text}
    {destination : EventDestination} (hmem : destination ∈ destinations.ofTenant tenantId) :
    destination.tenantId = tenantId ∧ IsJson number (.obj destination.config) := by
  unfold Destinations.ofTenant at hmem
  cases hlookup : destinations.lookup tenantId with
  | none =>
      rw [hlookup] at hmem
      cases hmem
  | some l =>
      rw [hlookup] at hmem
      exact h (tenantId, l) (mem_of_lookup hlookup) destination hmem

theorem Tidy.set {destinations : Destinations} (h : Tidy number destinations) {tenantId : Text}
    {l : List EventDestination} (hl : ∀ destination ∈ l,
      destination.tenantId = tenantId ∧ IsJson number (.obj destination.config)) :
    Tidy number (set destinations tenantId l) := by
  intro entry hentry
  rcases mem_set hentry with rfl | hentry
  · exact hl
  · exact h entry hentry

theorem Tidy.addDestination {destinations new : Destinations} (h : Tidy number destinations)
    {destination : EventDestination} (hjson : IsJson number (.obj destination.config))
    {tenantId : Option Text} (hnew : addDestination destinations destination tenantId = .ok new) :
    Tidy number new := by
  obtain ⟨target, -, hnew⟩ := Outcome.bind_ok_iff.mp hnew
  split_ifs at hnew with htenant
  obtain rfl := Except.ok.inj hnew
  refine h.set fun d hd ↦ ?_
  rcases List.mem_append.mp hd with hd | hd
  · exact h.ofTenant hd
  · rw [List.mem_singleton.mp hd]
    exact ⟨not_not.mp htenant, hjson⟩

theorem Tidy.removeDestination {destinations new : Destinations} (h : Tidy number destinations)
    {name tenantId : Text} {removed : Bool}
    (hnew : removeDestination destinations name tenantId = .ok (removed, new)) :
    Tidy number new := by
  obtain ⟨target, -, hnew⟩ := Outcome.bind_ok_iff.mp hnew
  dsimp only at hnew
  split_ifs at hnew
  · obtain ⟨-, rfl⟩ := Prod.mk.inj (Except.ok.inj hnew)
    exact h
  · obtain ⟨-, rfl⟩ := Prod.mk.inj (Except.ok.inj hnew)
    exact h.set fun d hd ↦ h.ofTenant (List.mem_of_mem_filter hd)

theorem Tidy.replaceDestinations {destinations new : Destinations} (h : Tidy number destinations)
    {tenantId : Text} {l : List EventDestination}
    (hjson : ∀ destination ∈ l, IsJson number (.obj destination.config))
    (hnew : replaceDestinations destinations tenantId l = .ok new) : Tidy number new := by
  obtain ⟨target, -, hnew⟩ := Outcome.bind_ok_iff.mp hnew
  split_ifs at hnew with htenant
  obtain rfl := Except.ok.inj hnew
  refine h.set fun d hd ↦ ⟨?_, hjson d hd⟩
  by_contra hne
  exact htenant (List.any_eq_true.mpr ⟨d, hd, by simpa using hne⟩)

/-! ### What holds in every state -/

/-- The message was written for a destination that may have the event. -/
def Genuine (sha256 : Text → Text) (number : Text → Value) (m : Message) : Prop :=
  ∃ event destination, IsJson number (.obj event.data) ∧ IsJson number (.obj destination.config) ∧
    destination.enabled = true ∧ destination.Admits event ∧
    outboxMessageBody sha256 event destination = .ok m.body ∧
    deliveryIdentity sha256 event destination = .ok m.messageDeduplicationId ∧
    m.messageGroupId = destinationGroupIdentity sha256 destination

/-- The destination is enabled, in the tenant of the event, and lets the event pass. -/
structure Attempt.Confined (a : Attempt) : Prop where
  tenant : a.destination.tenantId = a.event.tenantId
  enabled : a.destination.enabled = true
  admits : a.destination.Admits a.event

/-- The delivery carried out the message. -/
def Attempt.Fulfils (sha256 : Text → Text) (number : Text → Value) (a : Attempt) (m : Message) :
    Prop :=
  a.succeeded = true ∧
    decodeOutboxMessage sha256 number (.str m.body) = .ok (a.event, a.destination)

structure Sound (sha256 : Text → Text) (number : Text → Value) (w : World ι) : Prop where
  queue : Invariant Message.messageGroupId w.queue
  own : ∀ m ∈ w.own, m ∈ w.queue.accepted ∧ Genuine sha256 number m
  tidy : ∀ i, Tidy number (w.destinations i)
  confined : ∀ a ∈ w.attempts, a.Confined
  fulfilled : ∀ m ∈ w.queue.delivered, ∃ a ∈ w.attempts, a.Fulfils sha256 number m

theorem sound_startWorld : Sound sha256 number (startWorld ι) where
  queue := invariant_start
  own := by simp [startWorld]
  tidy := by simp [startWorld, Tidy]
  confined := by simp [startWorld]
  fulfilled := by simp [startWorld, start]

/-- What a consumer relies on: its batch is its own, and what was sent stays sent. -/
structure Kept (c : ℕ) (w w' : World ι) : Prop where
  batch : w'.queue.batch c = w.queue.batch c
  own : w.own ⊆ w'.own

def protocol (sha256 : Text → Text) (number : Text → Value) : Protocol (World ι) where
  inv := Sound sha256 number
  rely := Kept
  refl _ w := ⟨rfl, List.Subset.refl w.own⟩
  trans _ _ _ _ h h' := ⟨h'.batch.trans h.batch, List.Subset.trans h.own h'.own⟩

/-- What the programs see to before an operation. -/
def Proper (sha256 : Text → Text) (number : Text → Value) (c : ℕ) : Op ι → World ι → Prop
  | .sendMessage body groupId deduplicationId, _ =>
      ∀ messageId, Genuine sha256 number ⟨messageId, body, groupId, deduplicationId⟩
  | .send none event destination, _ => ∀ ok, (⟨event, destination, ok⟩ : Attempt).Confined
  | .send (some m) event destination, w =>
      decodeOutboxMessage sha256 number (.str m.body) = .ok (event, destination) ∧
        ∃ done todo, w.queue.batch c = ⟨done, m :: todo⟩
  | .deleteMessage m, w => m ∈ (w.queue.batch c).done
  | _, _ => True

theorem confined_of_decode (hnumber : Numerals number) {body : Text} {event : SecurityEvent}
    {destination : EventDestination}
    (h : decodeOutboxMessage sha256 number (.str body) = .ok (event, destination)) (ok : Bool) :
    (⟨event, destination, ok⟩ : Attempt).Confined := by
  obtain ⟨-, hpair, henabled, hadmits, -⟩ := (decode_eq_ok_iff hnumber).mp h
  exact ⟨hpair.tenant.symm, henabled, hadmits⟩

namespace Sound

variable {w : World ι}

theorem accept (h : Sound sha256 number w) {m : Message} (hnew : m ∉ w.queue.accepted) :
    Sound sha256 number (w.accept m) where
  queue := h.queue.accept hnew
  own m' hm' := ⟨List.mem_append_left _ (h.own m' hm').1, (h.own m' hm').2⟩
  tidy := h.tidy
  confined := h.confined
  fulfilled := h.fulfilled

theorem attempt (h : Sound sha256 number w) {event : SecurityEvent} {destination : EventDestination}
    {ok : Bool} (hconfined : (⟨event, destination, ok⟩ : Attempt).Confined) :
    Sound sha256 number (w.attempt event destination ok) where
  queue := h.queue
  own := h.own
  tidy := h.tidy
  confined := List.forall_mem_append.mpr ⟨h.confined, List.forall_mem_singleton.mpr hconfined⟩
  fulfilled m hm := by
    obtain ⟨a, ha, hfulfils⟩ := h.fulfilled m hm
    exact ⟨a, List.mem_append_left _ ha, hfulfils⟩

theorem configure [DecidableEq ι] (h : Sound sha256 number w) {i : ι} {new : Destinations}
    (hnew : Tidy number new) :
    Sound sha256 number { w with destinations := Function.update w.destinations i new } where
  queue := h.queue
  own := h.own
  tidy j := by
    by_cases heq : j = i
    · simpa [heq] using hnew
    · simpa [heq] using h.tidy j
  confined := h.confined
  fulfilled := h.fulfilled

/-- The step lemma. -/
theorem exec (hnumber : Numerals number) (h : Sound sha256 number w) {c : ℕ} {o : Op ι} {r : Ret o}
    {w' : World ι} (hexec : Exec c w o r w') (hproper : Proper sha256 number c o w) :
    Sound sha256 number w' ∧ ∀ j, j ≠ c → Kept j w w' := by
  have hsame : ∀ j, j ≠ c → Kept j w w := fun j _ ↦ ⟨rfl, List.Subset.refl w.own⟩
  cases hexec with
  | refresh => exact ⟨h, hsame⟩
  | destinationsForTenant => exact ⟨h, hsame⟩
  | sendMessage m hnew =>
      have haccept := h.accept hnew
      refine ⟨⟨haccept.queue, ?_, haccept.tidy, haccept.confined, haccept.fulfilled⟩, fun j _ ↦
        ⟨rfl, List.subset_append_left _ _⟩⟩
      refine List.forall_mem_append.mpr ⟨haccept.own, List.forall_mem_singleton.mpr ⟨?_, ?_⟩⟩
      · exact List.mem_append_right _ (List.mem_singleton_self m)
      · exact hproper m.messageId
  | duplicate => exact ⟨h, hsame⟩
  | sendMessage_raised => exact ⟨h, hsame⟩
  | receiveMessage limit messages hlimit horder =>
      exact ⟨⟨h.queue.receive c horder, h.own, h.tidy, h.confined, h.fulfilled⟩, fun j hj ↦
        ⟨Function.update_of_ne hj _ _, List.Subset.refl _⟩⟩
  | send event destination =>
      exact ⟨h.attempt (hproper _), fun j _ ↦ ⟨rfl, List.Subset.refl _⟩⟩
  | deliver m event destination done todo hbatch =>
      obtain ⟨hdecode, -⟩ := hproper
      have hattempt := h.attempt (confined_of_decode hnumber hdecode true)
      refine ⟨⟨hattempt.queue.deliver hbatch, h.own, h.tidy, hattempt.confined, ?_⟩, fun j hj ↦
        ⟨Function.update_of_ne hj _ _, List.Subset.refl _⟩⟩
      refine List.forall_mem_append.mpr ⟨hattempt.fulfilled, List.forall_mem_singleton.mpr ?_⟩
      exact ⟨⟨event, destination, true⟩, List.mem_append_right _ (List.mem_singleton_self _), rfl,
        hdecode⟩
  | stray m event destination hbatch =>
      obtain ⟨-, done, todo, hfirst⟩ := hproper
      exact absurd hfirst (hbatch done todo)
  | deliver_raised m event destination =>
      exact ⟨h.attempt (confined_of_decode hnumber hproper.1 false), fun j _ ↦
        ⟨rfl, List.Subset.refl _⟩⟩
  | deleteMessage m =>
      exact ⟨⟨h.queue.remove hproper, h.own, h.tidy, h.confined, h.fulfilled⟩, fun j _ ↦
        ⟨rfl, List.Subset.refl _⟩⟩
  | deleteMessage_raised => exact ⟨h, hsame⟩
  | changeMessageVisibility => exact ⟨h, hsame⟩

theorem env [DecidableEq ι] (h : Sound sha256 number w) {w' : World ι} (henv : Env number w w') :
    Sound sha256 number w' ∧ ∀ c, Kept c w w' := by
  cases henv with
  | accept m hnew => exact ⟨h.accept hnew, fun c ↦ ⟨rfl, List.Subset.refl _⟩⟩
  | giveUp m =>
      exact ⟨⟨h.queue.giveUp m, h.own, h.tidy, h.confined, h.fulfilled⟩, fun c ↦
        ⟨rfl, List.Subset.refl _⟩⟩
  | add i destination tenantId new hjson hnew =>
      exact ⟨h.configure ((h.tidy i).addDestination hjson hnew), fun c ↦ ⟨rfl, List.Subset.refl _⟩⟩
  | remove i name tenantId removed new hnew =>
      exact ⟨h.configure ((h.tidy i).removeDestination hnew), fun c ↦ ⟨rfl, List.Subset.refl _⟩⟩
  | replace i tenantId destinations new hjson hnew =>
      exact ⟨h.configure ((h.tidy i).replaceDestinations hjson hnew), fun c ↦
        ⟨rfl, List.Subset.refl _⟩⟩
  | restart i => exact ⟨h.configure (by simp [Tidy]), fun c ↦ ⟨rfl, List.Subset.refl _⟩⟩

theorem kept (h : Sound sha256 number w) {m : Message} (hm : m ∈ w.queue.accepted) :
    m ∈ w.queue.queue ∨ m ∈ w.queue.aside ∨ ∃ a ∈ w.attempts, a.Fulfils sha256 number m := by
  rcases h.queue.kept m hm with hqueue | hdelivered | haside
  · exact .inl hqueue
  · exact .inr (.inr (h.fulfilled m hdelivered))
  · exact .inr (.inl haside)

end Sound

/-! ### Programs -/

section Programs

variable [DecidableEq ι] {c : ℕ} {w : World ι}

/-- A program of consumer `c` is safe from a state, with a postcondition. -/
abbrev SafeFrom {α : Type} (sha256 : Text → Text) (number : Text → Value) (c : ℕ)
    (Q : α → World ι → Prop) (x : Program ι α) (w : World ι) : Prop :=
  Safe (outboxService sha256 number).machine (protocol sha256 number) c Q x w

/-- The rule for one operation. -/
theorem safe_op (hnumber : Numerals number) {α : Type} {Q : α → World ι → Prop} {o : Op ι}
    {k : Ret o → Program ι α}
    (h : ∀ w₁, Kept c w w₁ → Sound sha256 number w₁ → Proper sha256 number c o w₁ ∧
      ∀ r w₂, Exec c w₁ o r w₂ → Sound sha256 number w₂ → SafeFrom sha256 number c Q (k r) w₂) :
    SafeFrom sha256 number c Q (.call o k) w := by
  refine @Safe.proper _ _ _ _ _ _ _ _ (Proper sha256 number c) ?_ _ _ _ h
  exact fun _ _ _ _ hsound hexec hproper ↦ Sound.exec hnumber hsound hexec hproper

/-- The batch of a consumer after the delivery of its first message, or before it. -/
def Delivered (c : ℕ) (done : List Message) (m : Message) (todo : List Message) (ok : Bool)
    (w : World ι) : Prop :=
  w.queue.batch c = if ok then ⟨done ++ [m], todo⟩ else ⟨done, m :: todo⟩

theorem safe_deliverOutboxBody (hnumber : Numerals number) {done todo : List Message} {m : Message}
    (hbatch : w.queue.batch c = ⟨done, m :: todo⟩) :
    SafeFrom sha256 number c (fun r ↦ Delivered c done m todo r.isSome)
      (deliverOutboxBody sha256 number m) w := by
  have hkept : ∀ {w' : World ι}, Kept c w w' → w'.queue.batch c = ⟨done, m :: todo⟩ :=
    fun hrely ↦ hrely.batch.trans hbatch
  unfold deliverOutboxBody
  cases hdecode : decodeOutboxMessage sha256 number (.str m.body) with
  | error e => exact Safe.done fun w' hrely _ ↦ hkept hrely
  | ok pair =>
      obtain ⟨event, destination⟩ := pair
      have hconfined : (⟨event, destination, true⟩ : Attempt).Confined :=
        confined_of_decode hnumber hdecode true
      dsimp only
      rw [sendToDestination, if_neg (not_not.mpr hconfined.tenant)]
      apply safe_op hnumber
      intro w₁ hrely _
      have hfirst : w₁.queue.batch c = ⟨done, m :: todo⟩ := hkept hrely
      refine ⟨⟨hdecode, done, todo, hfirst⟩, fun r w₂ hexec _ ↦ ?_⟩
      cases hexec with
      | deliver _ _ _ done' todo' hbatch' =>
          obtain ⟨rfl, htodo⟩ := Batch.mk.inj (hbatch'.symm.trans hfirst)
          obtain ⟨-, rfl⟩ := List.cons.inj htodo
          refine Safe.done fun w' hrely' _ ↦ hrely'.batch.trans ?_
          exact Function.update_self _ _ _
      | stray _ _ _ hstray => exact absurd hfirst (hstray done todo)
      | deliver_raised => exact Safe.done fun w' hrely' _ ↦ hrely'.batch.trans hfirst

theorem safe_defer (hnumber : Numerals number) (m : Message) (count : ℕ) {α : Type} (a : α)
    (w : World ι) : SafeFrom sha256 number c (fun _ _ ↦ True)
      (do
        deferOutboxMessage m count
        pure a) w := by
  apply safe_op hnumber
  exact fun _ _ _ ↦ ⟨trivial, fun _ _ _ _ ↦ Safe.done fun _ _ _ ↦ trivial⟩

theorem safe_processOutboxMessage (hnumber : Numerals number) {done todo : List Message}
    {m : Message} (hbatch : w.queue.batch c = ⟨done, m :: todo⟩) (count : ℕ) :
    SafeFrom sha256 number c (fun _ _ ↦ True) (processOutboxMessage sha256 number m count) w := by
  refine Safe.seq (safe_deliverOutboxBody hnumber hbatch) fun r w₁ _ hdelivered ↦ ?_
  cases r with
  | none => exact safe_defer hnumber m count false w₁
  | some tenantId =>
      apply safe_op hnumber
      intro w₂ hrely _
      refine ⟨?_, fun ok w₃ _ _ ↦ ?_⟩
      · change m ∈ (w₂.queue.batch c).done
        rw [hrely.batch, hdelivered]
        simp
      · cases ok with
        | true => exact Safe.done fun _ _ _ ↦ trivial
        | false => exact safe_defer hnumber m count false w₃

/-- A worker takes one message at a time. -/
theorem safe_outboxWorkerTurn (hnumber : Numerals number) (w : World ι) :
    SafeFrom sha256 number c (fun _ _ ↦ True) (outboxWorkerTurn sha256 number) w := by
  rw [outboxWorkerTurn, Prog.op_bind]
  apply safe_op hnumber
  intro w₁ _ _
  refine ⟨trivial, fun messages w₂ hexec _ ↦ ?_⟩
  cases hexec with
  | receiveMessage _ _ hlimit horder =>
      cases messages with
      | nil => exact Safe.done fun _ _ _ ↦ trivial
      | cons first rest =>
          obtain ⟨m, count⟩ := first
          obtain rfl : rest = [] :=
            List.eq_nil_of_length_eq_zero (Nat.le_zero.mp (Nat.le_of_succ_le_succ hlimit))
          refine Safe.seq (safe_processOutboxMessage hnumber (Function.update_self _ _ _) _) ?_
          exact fun _ _ _ _ ↦ Safe.done fun _ _ _ ↦ trivial

/-- Everything before the first failure was delivered. -/
theorem safe_processRecords (hnumber : Numerals number) {done : List Message}
    (messages : List Message) (hbatch : w.queue.batch c = ⟨done, messages⟩) :
    SafeFrom sha256 number c (fun failures w' ↦ ∃ delivered rest, messages = delivered ++ rest ∧
        failures = rest.map Message.messageId ∧ w'.queue.batch c = ⟨done ++ delivered, rest⟩)
      (processRecords sha256 number messages) w := by
  induction messages generalizing done w with
  | nil =>
      refine Safe.done fun w' hrely _ ↦ ⟨[], [], rfl, rfl, ?_⟩
      rw [hrely.batch, hbatch, List.append_nil]
  | cons m messages ih =>
      refine Safe.seq (safe_deliverOutboxBody hnumber hbatch) fun r w₁ _ hdelivered ↦ ?_
      cases r with
      | none =>
          refine Safe.done fun w' hrely _ ↦ ⟨[], m :: messages, rfl, rfl, ?_⟩
          rw [hrely.batch, List.append_nil]
          exact hdelivered
      | some tenantId =>
          refine (ih hdelivered).imp fun failures w' ↦ ?_
          rintro ⟨delivered, rest, rfl, rfl, hrest⟩
          refine ⟨m :: delivered, rest, rfl, rfl, ?_⟩
          rw [hrest, List.append_assoc, List.singleton_append]

theorem safe_deleteMessages (hnumber : Numerals number) (messages : List Message)
    (hdone : ∀ m ∈ messages, m ∈ (w.queue.batch c).done) :
    SafeFrom sha256 number c (fun _ _ ↦ True) (deleteMessages messages) w := by
  induction messages generalizing w with
  | nil => exact Safe.done fun _ _ _ ↦ trivial
  | cons m messages ih =>
      apply safe_op hnumber
      intro w₁ hrely _
      obtain ⟨hm, hmessages⟩ := List.forall_mem_cons.mp hdone
      refine ⟨?_, fun ok w₂ hexec _ ↦ ih ?_⟩
      · change m ∈ (w₁.queue.batch c).done
        rwa [hrely.batch]
      · have hbatch : w₂.queue.batch c = w.queue.batch c := by
          cases hexec with
          | deleteMessage => exact hrely.batch
          | deleteMessage_raised => exact hrely.batch
        rwa [hbatch]

/-- What a function does not report was delivered. -/
theorem safe_processSecurityEventSqsBatch (hnumber : Numerals number) {messages : List Message}
    (hbatch : w.queue.batch c = ⟨[], messages⟩) :
    SafeFrom sha256 number c (fun r w' ↦ ∀ failures, r = some failures → ∃ delivered rest,
        messages = delivered ++ rest ∧ failures = rest.map Message.messageId ∧
          w'.queue.batch c = ⟨delivered, rest⟩)
      (processSecurityEventSqsBatch sha256 number messages) w := by
  unfold processSecurityEventSqsBatch securityEventRecords
  split_ifs
  · exact Safe.done fun _ _ _ _ h ↦ by cases h
  · refine Safe.seq (safe_processRecords hnumber messages hbatch) fun failures w₁ _ hrecords ↦ ?_
    refine Safe.done fun w' hrely _ failures' h ↦ ?_
    obtain rfl := Option.some.inj h
    obtain ⟨delivered, rest, hsplit, hfailures, hrest⟩ := hrecords
    exact ⟨delivered, rest, hsplit, hfailures, hrely.batch.trans hrest⟩

theorem safe_invokeFunction (hnumber : Numerals number) (w : World ι) :
    SafeFrom sha256 number c (fun _ _ ↦ True) (invokeFunction sha256 number) w := by
  rw [invokeFunction, Prog.op_bind]
  apply safe_op hnumber
  intro w₁ _ _
  refine ⟨trivial, fun received w₂ hexec _ ↦ ?_⟩
  have hbatch : w₂.queue.batch c = ⟨[], received.map Prod.fst⟩ := by
    cases hexec with
    | receiveMessage => exact Function.update_self _ _ _
  refine Safe.seq (safe_processSecurityEventSqsBatch hnumber hbatch) fun r w₃ _ hreported ↦ ?_
  cases r with
  | none => exact Safe.done fun _ _ _ ↦ trivial
  | some failures =>
      obtain ⟨delivered, rest, hsplit, rfl, hrest⟩ := hreported failures rfl
      refine safe_deleteMessages hnumber _ fun m hm ↦ ?_
      obtain ⟨hmem, hkept⟩ := List.mem_filter.mp hm
      rw [hsplit] at hmem
      rw [hrest]
      refine (List.mem_append.mp hmem).resolve_right fun hlater ↦ ?_
      exact of_decide_eq_true hkept (List.mem_map_of_mem hlater)

/-- The delivery was sent to the queue, now or before. -/
def Enqueued (sha256 : Text → Text) (event : SecurityEvent) (destination : EventDestination)
    (w : World ι) : Prop :=
  ∃ m ∈ w.own, deliveryIdentity sha256 event destination = .ok m.messageDeduplicationId

omit [DecidableEq ι] in
theorem Enqueued.mono {event : SecurityEvent} {destination : EventDestination} {w' : World ι}
    (h : Enqueued sha256 event destination w) (hown : w.own ⊆ w'.own) :
    Enqueued sha256 event destination w' := by
  obtain ⟨m, hm, hidentity⟩ := h
  exact ⟨m, hown hm, hidentity⟩

omit [DecidableEq ι] in
/-- After `send_message` a message with the identifier was sent, unless the call has raised. -/
theorem Exec.sendMessage_own {body groupId deduplicationId : Text} {r : Bool} {w' : World ι}
    (h : Exec c w (.sendMessage body groupId deduplicationId) r w') :
    w.own ⊆ w'.own ∧ (r = true → ∃ m ∈ w'.own, m.messageDeduplicationId = deduplicationId) := by
  cases h with
  | sendMessage m hnew =>
      exact ⟨List.subset_append_left _ _, fun _ ↦
        ⟨m, List.mem_append_right _ (List.mem_singleton_self m), rfl⟩⟩
  | duplicate _ _ m hm => exact ⟨List.Subset.refl _, fun _ ↦ ⟨m, hm, rfl⟩⟩
  | sendMessage_raised => exact ⟨List.Subset.refl _, by simp⟩

/-- The destination may have the event and is written as JSON. -/
structure Matches (number : Text → Value) (event : SecurityEvent) (destination : EventDestination) :
    Prop where
  config : IsJson number (.obj destination.config)
  tenant : destination.tenantId = event.tenantId
  enabled : destination.enabled = true
  admits : destination.Admits event

variable {event : SecurityEvent}

theorem safe_enqueueOutboxMessage (hnumber : Numerals number)
    (hdata : IsJson number (.obj event.data)) {destination : EventDestination}
    (hmatches : Matches number event destination) {known : List Message} (hknown : known ⊆ w.own) :
    SafeFrom sha256 number c
      (fun r w' ↦ known ⊆ w'.own ∧ (r = true → Enqueued sha256 event destination w'))
      (enqueueOutboxMessage sha256 event destination) w := by
  have hfailed : SafeFrom sha256 number c
      (fun r w' ↦ known ⊆ w'.own ∧ (r = true → Enqueued sha256 event destination w'))
      (pure false) w :=
    Safe.done fun w' hrely _ ↦ ⟨List.Subset.trans hknown hrely.own, by simp⟩
  unfold enqueueOutboxMessage
  cases hbody : outboxMessageBody sha256 event destination with
  | error e => exact hfailed
  | ok body =>
      cases hidentity : deliveryIdentity sha256 event destination with
      | error e => exact hfailed
      | ok deliveryId =>
          apply safe_op hnumber
          intro w₁ hrely _
          have hown : known ⊆ w₁.own := List.Subset.trans hknown hrely.own
          refine ⟨fun messageId ↦ ⟨event, destination, hdata, hmatches.config, hmatches.enabled,
            hmatches.admits, hbody, hidentity, rfl⟩, fun r w₂ hexec _ ↦ ?_⟩
          obtain ⟨hgrown, hsent⟩ := hexec.sendMessage_own
          refine Safe.done fun w' hrely' _ ↦ ⟨?_, fun htrue ↦ ?_⟩
          · exact List.Subset.trans hown (List.Subset.trans hgrown hrely'.own)
          · obtain ⟨m, hm, hid⟩ := hsent htrue
            exact ⟨m, hrely'.own hm, hidentity.trans (congrArg Except.ok hid.symm)⟩

theorem safe_enqueueAll (hnumber : Numerals number) (hdata : IsJson number (.obj event.data))
    (destinations : List EventDestination)
    (hmatches : ∀ destination ∈ destinations, Matches number event destination)
    {known : List Message} (hknown : known ⊆ w.own) :
    SafeFrom sha256 number c
      (fun r w' ↦ known ⊆ w'.own ∧ (r = true → ∀ destination ∈ destinations,
        Enqueued sha256 event destination w'))
      (enqueueAll sha256 event destinations) w := by
  induction destinations generalizing w known with
  | nil => exact Safe.done fun w' hrely _ ↦ ⟨List.Subset.trans hknown hrely.own, by simp⟩
  | cons destination destinations ih =>
      obtain ⟨hfirst, hrest⟩ := List.forall_mem_cons.mp hmatches
      refine Safe.seq (safe_enqueueOutboxMessage hnumber hdata hfirst hknown) ?_
      rintro enqueued w₁ _ ⟨hknown₁, henqueued⟩
      refine Safe.seq (ih hrest (List.Subset.refl w₁.own)) ?_
      rintro others w₂ _ ⟨hgrown, hothers⟩
      refine Safe.done fun w' hrely _ ↦ ⟨?_, fun hall ↦ ?_⟩
      · exact List.Subset.trans hknown₁ (List.Subset.trans hgrown hrely.own)
      · obtain ⟨htrue, htrue'⟩ := (Bool.and_eq_true _ _).mp hall
        exact List.forall_mem_cons.mpr
          ⟨(henqueued htrue).mono (List.Subset.trans hgrown hrely.own), fun d hd ↦
            (hothers htrue' d hd).mono hrely.own⟩

theorem safe_sendAll (hnumber : Numerals number) (destinations : List EventDestination)
    (hmatches : ∀ destination ∈ destinations, Matches number event destination) (w : World ι) :
    SafeFrom sha256 number c (fun _ _ ↦ True) (sendAll event destinations) w := by
  induction destinations generalizing w with
  | nil => exact Safe.done fun _ _ _ ↦ trivial
  | cons destination destinations ih =>
      obtain ⟨hfirst, hrest⟩ := List.forall_mem_cons.mp hmatches
      have hsent : SafeFrom sha256 number c (fun _ _ ↦ True)
          (sendToDestination none event destination) w := by
        rw [sendToDestination, if_neg (not_not.mpr hfirst.tenant)]
        apply safe_op hnumber
        exact fun _ _ _ ↦ ⟨fun _ ↦ ⟨hfirst.tenant, hfirst.enabled, hfirst.admits⟩, fun _ _ _ _ ↦
          Safe.done fun _ _ _ ↦ trivial⟩
      exact Safe.seq hsent fun _ w₁ _ _ ↦ ih hrest w₁

/-- What a dispatch has returned for was sent to the queue. -/
def Reported (sha256 : Text → Text) (number : Text → Value) (event : SecurityEvent)
    (dispatched : Dispatched) (w : World ι) : Prop :=
  ∀ destinations, dispatched = .enqueued destinations → ∀ destination ∈ destinations,
    Matches number event destination ∧ Enqueued sha256 event destination w

theorem safe_dispatch (hnumber : Numerals number) (hdata : IsJson number (.obj event.data))
    (outbox : Bool) (dispatcher : ι) (w : World ι) :
    SafeFrom sha256 number c (Reported sha256 number event)
      (dispatch sha256 outbox dispatcher event) w := by
  have hother : ∀ {dispatched : Dispatched} {w : World ι},
      (∀ destinations, dispatched ≠ .enqueued destinations) →
      SafeFrom sha256 number c (Reported sha256 number event) (pure dispatched) w :=
    fun hne ↦ Safe.done fun _ _ _ destinations heq ↦ absurd heq (hne destinations)
  rw [dispatch, Prog.op_bind]
  apply safe_op hnumber
  refine fun _ _ _ ↦ ⟨trivial, fun refreshed w₁ _ _ ↦ ?_⟩
  cases refreshed with
  | false => exact hother (by simp)
  | true =>
      change SafeFrom sha256 number c _ (_ >>= _) w₁
      rw [Prog.op_bind]
      apply safe_op hnumber
      refine fun w₂ _ hsound ↦ ⟨trivial, fun destinations w₃ hexec _ ↦ ?_⟩
      cases hexec with
      | destinationsForTenant =>
          have hmatches : ∀ destination ∈ ((w₂.destinations dispatcher).ofTenant
              event.tenantId).filter fun destination ↦ destination.enabled ∧ destination.Admits event,
              Matches number event destination := by
            intro destination hmem
            obtain ⟨hmem, hcondition⟩ := List.mem_filter.mp hmem
            obtain ⟨henabled, hadmits⟩ := of_decide_eq_true hcondition
            obtain ⟨htenant, hconfig⟩ := (hsound.tidy dispatcher).ofTenant hmem
            exact ⟨hconfig, htenant, henabled, hadmits⟩
          cases outbox with
          | false =>
              refine Safe.seq (safe_sendAll hnumber _ hmatches w₂) fun _ w₄ _ _ ↦ ?_
              exact hother (by simp)
          | true =>
              refine Safe.seq (safe_enqueueAll hnumber hdata _ hmatches (List.Subset.refl w₂.own)) ?_
              rintro ok w₄ _ ⟨-, henqueued⟩
              cases ok with
              | false => exact hother (by simp)
              | true =>
                  refine Safe.done fun w' hrely _ ds heq destination hmem ↦ ?_
                  obtain rfl := Dispatched.enqueued.inj heq
                  exact ⟨hmatches destination hmem, (henqueued rfl destination hmem).mono hrely.own⟩

/-! ### Runs -/

theorem obligations (hnumber : Numerals number) :
    Obligations (outboxService (ι := ι) sha256 number) (protocol sha256 number) (fun _ _ ↦ True)
      fun _ call _ result w ↦ ∀ outbox dispatcher event dispatched,
        call = .dispatch outbox dispatcher event → result = some dispatched →
          Reported sha256 number event dispatched w where
  pre_rely _ _ _ _ _ := trivial
  env _ _ h henv := h.env henv
  start p call _ _ hadmits _ := by
    cases call with
    | dispatch outbox dispatcher event =>
        refine Safe.seq (safe_dispatch hnumber hadmits outbox dispatcher p.state) ?_
        intro dispatched w₁ _ hreported
        refine Safe.done fun w' hrely _ outbox' dispatcher' event' dispatched' hcall hresult ↦ ?_
        obtain ⟨-, -, rfl⟩ := Call.dispatch.inj hcall
        obtain rfl := Option.some.inj hresult
        exact fun ds heq d hd ↦ ⟨(hreported ds heq d hd).1, (hreported ds heq d hd).2.mono hrely.own⟩
    | worker =>
        refine Safe.seq (safe_outboxWorkerTurn hnumber p.state) fun _ _ _ _ ↦ ?_
        exact Safe.done fun _ _ _ _ _ _ _ hcall ↦ by cases hcall
    | function =>
        refine Safe.seq (safe_invokeFunction hnumber p.state) fun _ _ _ _ ↦ ?_
        exact Safe.done fun _ _ _ _ _ _ _ hcall ↦ by cases hcall

theorem poolSafe_of_reachable (hnumber : Numerals number)
    {p : Pool (Op ι) Ret (World ι) (Call ι) (Option Dispatched)}
    (hp : Reachable (outboxService sha256 number) (startWorld ι) p) :
    PoolSafe (outboxService sha256 number) (protocol sha256 number) (fun _ _ ↦ True)
      (fun _ call _ result w ↦ ∀ outbox dispatcher event dispatched,
        call = .dispatch outbox dispatcher event → result = some dispatched →
          Reported sha256 number event dispatched w) p :=
  hp.poolSafe (obligations hnumber) sound_startWorld fun _ ↦ trivial

/-- Every delivery stays in its tenant. A message that was accepted is queued, was given up by the
queue, or was delivered as it reads. Nothing is delivered before what came earlier in its group. -/
theorem deliveries_of_reachable (hnumber : Numerals number)
    {p : Pool (Op ι) Ret (World ι) (Call ι) (Option Dispatched)}
    (hp : Reachable (outboxService sha256 number) (startWorld ι) p) :
    (∀ a ∈ p.state.attempts, a.Confined) ∧
    (∀ m ∈ p.state.queue.accepted, m ∈ p.state.queue.queue ∨ m ∈ p.state.queue.aside ∨
      ∃ a ∈ p.state.attempts, a.Fulfils sha256 number m) ∧
    ∀ before m after, p.state.queue.delivered = before ++ m :: after →
      ∀ m', Earlier Message.messageGroupId p.state.queue.accepted m' m →
        m' ∈ before ∨ m' ∈ p.state.queue.aside := by
  have hsound : Sound sha256 number p.state := (poolSafe_of_reachable hnumber hp).inv
  exact ⟨hsound.confined, fun m hm ↦ hsound.kept hm, hsound.queue.order⟩

/-- A message that was delivered was delivered under its own identifier. -/
theorem Genuine.identity (hnumber : Numerals number) (hsha : ∀ t, isDigest (sha256 t) = true)
    {m : Message} (hm : Genuine sha256 number m) {a : Attempt}
    (ha : a.Fulfils sha256 number m) :
    deliveryIdentity sha256 a.event a.destination = .ok m.messageDeduplicationId := by
  obtain ⟨event, destination, hdata, hconfig, henabled, hadmits, hbody, hidentity, -⟩ := hm
  have hdecode := decode_of_admits hnumber hsha hdata hconfig hbody henabled hadmits
  obtain ⟨hevent, hdestination⟩ := Prod.mk.inj (Except.ok.inj (ha.2.symm.trans hdecode))
  have hpair := (outboxMessageBody_eq_ok_iff.mp hbody).1
  rw [hevent, hdestination, hpair.inOrder.identity, sorted_material, ← hpair.identity, hidentity]

end Programs

/-! ### A run -/

def blockedMessage : Message where
  messageId := 0
  body := blockedBody
  messageGroupId := destinationGroupIdentity blockedSha256 siemDestination
  messageDeduplicationId := blockedSha256 (canonical (material blockedEvent siemDestination))

/-- One destination is configured. -/
def configuredWorld : World Unit :=
  { startWorld Unit with
    destinations := Function.update (startWorld Unit).destinations ()
      [("acme".toList, [siemDestination])] }

/-- The event was queued for it. -/
def queuedWorld : World Unit :=
  { configuredWorld.accept blockedMessage with own := [blockedMessage] }

/-- A worker has delivered and removed the message. -/
def deliveredWorld : World Unit :=
  ((((queuedWorld.receive 1 [blockedMessage]).attempt blockedEvent.inOrder siemDestination.inOrder
    true).deliver 1 blockedMessage ⟨[blockedMessage], []⟩)).remove blockedMessage

abbrev blockedService : Service (Op Unit) Ret (World Unit) (Call Unit) (Option Dispatched) :=
  outboxService blockedSha256 blockedNumber

theorem configuredWorld_env : Env blockedNumber (startWorld Unit) configuredWorld :=
  .add () siemDestination none _ isJson_siemDestination rfl

theorem deliveryIdentity_blockedMessage : deliveryIdentity blockedSha256 blockedEvent siemDestination =
    .ok blockedMessage.messageDeduplicationId := by
  rw [deliverable_blockedEvent.identity, blockedMessage]

theorem evals_dispatch : Evals blockedService.machine 0
    (blockedService.body (.dispatch true () blockedEvent)) configuredWorld
    (some (.enqueued [siemDestination])) queuedWorld := by
  have hmatching : ((configuredWorld.destinations ()).ofTenant blockedEvent.tenantId).filter
      (fun destination ↦ destination.enabled ∧ destination.Admits blockedEvent) =
      [siemDestination] := rfl
  have hsend : Exec 0 configuredWorld (.sendMessage blockedMessage.body
      blockedMessage.messageGroupId blockedMessage.messageDeduplicationId) true queuedWorld :=
    .sendMessage blockedMessage List.not_mem_nil true
  rw [show blockedMessage.body = blockedBody by rw [blockedMessage],
    show blockedMessage.messageGroupId = destinationGroupIdentity blockedSha256 siemDestination by
      rw [blockedMessage]] at hsend
  refine Evals.call _ _ _ configuredWorld _ true _ (.refresh _ _ _) ?_
  refine Evals.call _ _ _ configuredWorld _ _ _ (.destinationsForTenant _ _) ?_
  simp only [Prog.bind, hmatching, if_true]
  rw [enqueueAll, enqueueOutboxMessage, outboxMessageBody_blockedBody,
    deliveryIdentity_blockedMessage]
  exact Evals.call _ _ _ _ _ _ _ hsend (Evals.done _ _)

theorem evals_worker : Evals blockedService.machine 1 (blockedService.body .worker) queuedWorld none
    deliveredWorld := by
  have hdecode : decodeOutboxMessage blockedSha256 blockedNumber (.str blockedMessage.body) =
      .ok (blockedEvent.inOrder, siemDestination.inOrder) := by
    rw [blockedMessage]
    exact decode_blockedBody
  refine Evals.call _ _ _ _ _ [(blockedMessage, 1)] _
    (.receiveMessage _ _ (by decide) fun g ↦ List.prefix_refl _) ?_
  simp only [Prog.bind]
  rw [processMessages, processOutboxMessage, deliverOutboxBody, hdecode]
  refine Evals.call _ _ _ _ _ _ _ (Exec.deliver blockedMessage _ _ [] [] rfl) ?_
  exact Evals.call _ _ _ _ _ _ _ (Exec.deleteMessage _ true) (Evals.done _ _)

def blockedPool : Pool (Op Unit) Ret (World Unit) (Call Unit) (Option Dispatched) :=
  ⟨deliveredWorld, [⟨.dispatch true () blockedEvent, configuredWorld,
    .done (some (.enqueued [siemDestination]))⟩, ⟨.worker, queuedWorld, .done none⟩]⟩

theorem reachable_blockedPool : Reachable blockedService (startWorld Unit) blockedPool := by
  have hconfigured : Steps blockedService ⟨startWorld Unit, []⟩ ⟨configuredWorld, []⟩ :=
    .single (.env _ _ configuredWorld_env)
  have hqueued := steps_of_evals (S := blockedService) (p := ⟨configuredWorld, []⟩)
    (c := .dispatch true () blockedEvent) isJson_blockedEvent evals_dispatch
  have hdelivered := steps_of_evals (S := blockedService)
    (p := ⟨queuedWorld, [⟨.dispatch true () blockedEvent, configuredWorld,
      .done (some (.enqueued [siemDestination]))⟩]⟩) (c := .worker) trivial evals_worker
  exact hconfigured.trans (hqueued.trans hdelivered)

theorem blockedPool_deliveries :
    (∀ a ∈ deliveredWorld.attempts, a.Confined) ∧
    (∀ m ∈ deliveredWorld.queue.accepted, m ∈ deliveredWorld.queue.queue ∨
      m ∈ deliveredWorld.queue.aside ∨
      ∃ a ∈ deliveredWorld.attempts, a.Fulfils blockedSha256 blockedNumber m) ∧
    ∀ before m after, deliveredWorld.queue.delivered = before ++ m :: after →
      ∀ m', Earlier Message.messageGroupId deliveredWorld.queue.accepted m' m →
        m' ∈ before ∨ m' ∈ deliveredWorld.queue.aside :=
  deliveries_of_reachable numerals_blockedNumber reachable_blockedPool

end AxonGateway.Events
