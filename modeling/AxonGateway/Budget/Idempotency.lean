import AxonGateway.Budget.Conservation

/-!
# One charge for one request id

The marker that makes a reservation idempotent is stored with the request's first
counter, and it lists the limits digit by digit.  When all calls of a request id
agree on the first counter and write equal limits alike, the request is charged
at most once and every retry is told so; otherwise it may be charged again.
-/

namespace AxonGateway.Budget

open ConditionalStore Interleaving Binary64

/-! ## Calls of one request -/

namespace ReserveRequest

/-- Scopes, identities and limits as numbers. -/
def figures (r : ReserveRequest) : List (Scope × String × ℚ) :=
  r.normalized.map fun c ↦ (c.1, c.2.1, c.2.2.val)

/-- The same counters, limits and amount. -/
def Same (r r' : ReserveRequest) : Prop := r.figures = r'.figures ∧ r.reserved = r'.reserved

end ReserveRequest

/-- The call is a reservation with these checked arguments. -/
def Prepares (c : Call) (r : ReserveRequest) : Prop :=
  match c with
  | .reserveBudget requestId reservations amount now leaseSeconds =>
      prepareReserve requestId reservations amount now leaseSeconds = .ok r
  | _ => False

/-- Reservations of one request id have the same first counter, and equal limits
have the same digits. -/
def Compatible (c c' : Call) : Prop :=
  ∀ r r', Prepares c r → Prepares c' r' → r.requestId = r'.requestId →
    r.markerKey = r'.markerKey ∧ (r.figures = r'.figures → r.normalized = r'.normalized)

theorem Compatible.symm {c c' : Call} (h : Compatible c c') : Compatible c' c := by
  intro r r' hr hr' hid
  obtain ⟨hkey, hfigures⟩ := h r' r hr' hr hid.symm
  exact ⟨hkey.symm, fun heq ↦ (hfigures heq.symm).symm⟩

theorem Compatible.refl (c : Call) : Compatible c c := by
  intro r r' hr hr' _
  cases c with
  | reserveBudget requestId reservations amount now leaseSeconds =>
      obtain rfl := Except.ok.inj (hr.symm.trans hr')
      exact ⟨rfl, fun _ ↦ rfl⟩
  | _ => cases hr

/-- Retries with the same list are compatible, whatever their amounts. -/
theorem compatible_of_same_reservations {requestId : String}
    {reservations : List (Scope × String × PyNum)} {amount amount' : PyNum}
    {now now' leaseSeconds leaseSeconds' : ℤ} :
    Compatible (.reserveBudget requestId reservations amount now leaseSeconds)
      (.reserveBudget requestId reservations amount' now' leaseSeconds') := by
  intro r r' hr hr' hid
  obtain ⟨hvalid, -, hn, -⟩ := prepareReserve_ok hr
  obtain ⟨hvalid', -, hn', -⟩ := prepareReserve_ok hr'
  have hsame : r.normalized = r'.normalized := Except.ok.inj (hn.symm.trans hn')
  have hkey := hvalid.markerKey
  rw [hsame, hid] at hkey
  exact ⟨Except.ok.inj (hkey.symm.trans hvalid'.markerKey), fun _ ↦ hsame⟩

theorem requested_iff {ok : Call → Prop} {r : ReserveRequest} :
    Requested ok r ↔ ∃ c, ok c ∧ Prepares c r := by
  constructor
  · rintro ⟨requestId, reservations, amount, now, leaseSeconds, hok, hr⟩
    exact ⟨_, hok, hr⟩
  · rintro ⟨c, hok, hr⟩
    cases c with
    | reserveBudget requestId reservations amount now leaseSeconds =>
        exact ⟨_, _, _, _, _, hok, hr⟩
    | _ => cases hr

/-! ## Commits of one request -/

/-- The commit stores the marker of a reservation of the request. -/
def reserves (requestId : String) (c : Commit schema) : Bool :=
  c.writes.any fun w ↦ match w with
    | .putMarker _ _ _ m => decide (m.requestId = requestId)
    | _ => false

theorem reserves_operations (r : ReserveRequest) (epochs : List (Scope × ℕ)) (who : ℕ)
    (t : Table schema) : reserves r.requestId ⟨who, r.operations epochs, t⟩ = true := by
  simp [reserves, ReserveRequest.operations, ReserveRequest.marker]

theorem exists_operations_of_reserves {ok : Call → Prop} {c : Commit schema} {requestId : String}
    (hproper : Proper ok c.before c.writes) (h : reserves requestId c = true) :
    ∃ r epochs, Requested ok r ∧ c.writes = r.operations epochs ∧ r.requestId = requestId := by
  obtain ⟨w, hw, hput⟩ := List.any_eq_true.mp h
  obtain ⟨who, ws, t⟩ := c
  dsimp only at hproper hw ⊢
  cases hproper with
  | reserve r epochs hok =>
      refine ⟨r, epochs, hok, rfl, ?_⟩
      rcases List.mem_cons.mp hw with rfl | hw
      · exact of_decide_eq_true hput
      · obtain ⟨c, -, rfl⟩ := List.mem_map.mp hw
        cases hput
  | report f =>
      obtain rfl := List.mem_singleton.mp hw
      cases hput
  | finalize f m reservationEpochs states crossed =>
      rcases mem_finalize hw with rfl | ⟨c, -, -, -, rfl⟩ | ⟨_, _, _, rfl⟩
      · cases hput
      · cases hput
      · cases hput
  | addSpend scope ident value cost =>
      obtain rfl := List.mem_singleton.mp hw
      cases hput
  | reset counters =>
      obtain ⟨c, -, rfl⟩ := List.mem_map.mp hw
      cases hput

section Log

variable {ok : Call → Prop} {extra : Commit schema → Prop} {log : List (Commit schema)}
  {t : Table schema}

/-- A committed reservation is found at its key ever after. -/
theorem marker_of_commit (hlog : Logged log t) {c : Commit schema} (hc : c ∈ log)
    {r : ReserveRequest} {epochs : List (Scope × ℕ)} (hwrites : c.writes = r.operations epochs) :
    ∃ m, markerAt t r.markerKey = some m ∧ r.Matches m := by
  obtain ⟨l, hsuffix, hacc, hl⟩ := hlog.of_mem hc
  have hafter : Logged (c :: l) (c.before.applyAll c.writes) := ⟨rfl, hacc, hl⟩
  rw [hwrites] at hacc hafter
  have hput : markerAt (c.before.applyAll (r.operations epochs)) r.markerKey =
      some (r.marker epochs) :=
    Table.lookup_applyAll_of_mem (S := schema) hacc.1 List.mem_cons_self
  obtain ⟨m, hm, hgrows⟩ := (discipline (fun _ ↦ True) fun _ ↦ True).grows_of_suffix hlog hafter
    hsuffix r.markerKey.key (r.marker epochs) hput
  exact ⟨m, hm, hgrows.requestId, hgrows.signature, hgrows.amount⟩

theorem putMarker_of_created {ws : List Write} (hacc : t.Accepts ws) {k : MarkerKey} {m : Marker}
    (hbefore : markerAt t k = none) (hafter : markerAt (t.applyAll ws) k = some m) :
    .putMarker k.scope k.ident k.request m ∈ ws := by
  have hmem : k.key ∈ ws.map Write.key := by
    by_contra hmem
    rw [markerAt_of_notMem hmem, hbefore] at hafter
    cases hafter
  obtain ⟨w, hw, hkey⟩ := List.mem_map.mp hmem
  have hrow : (t.applyAll ws).lookup w.key = w.next (t.lookup w.key) :=
    Table.lookup_applyAll_of_mem (S := schema) hacc.1 hw
  have hcond := hacc.2 w hw
  cases w with
  | putMarker scope ident request marker =>
      cases hkey
      obtain rfl : marker = m := Option.some.inj (hrow.symm.trans hafter)
      exact hw
  | reportSettlement scope ident request signature actual =>
      cases hkey
      have hnone : t.lookup (Key.reservation k.scope k.ident k.request) = none := hbefore
      change Option.any _ (t.lookup (Key.reservation k.scope k.ident k.request)) = true at hcond
      rw [hnone] at hcond
      cases hcond
  | finalizeMarker scope ident request signature actual expiresAt seen =>
      cases hkey
      have hnone : t.lookup (Key.reservation k.scope k.ident k.request) = none := hbefore
      change Option.any _ (t.lookup (Key.reservation k.scope k.ident k.request)) = true at hcond
      rw [hnone] at hcond
      cases hcond
  | _ => cases hkey

/-- Every stored marker was stored by a committed reservation. -/
theorem commit_of_marker (hlog : Logged log t) (hproper : ∀ c ∈ log, Proper ok c.before c.writes)
    {k : MarkerKey} {m : Marker} (hm : markerAt t k = some m) :
    ∃ c ∈ log, ∃ r epochs, Requested ok r ∧ c.writes = r.operations epochs ∧ r.Matches m := by
  induction log generalizing t m with
  | nil =>
      obtain rfl : t = ∅ := hlog
      cases hm
  | cons c log ih =>
      obtain ⟨rfl, hacc, hrest⟩ := hlog
      rw [List.forall_mem_cons] at hproper
      cases hbefore : markerAt c.before k with
      | some m₀ =>
          obtain ⟨m', hm', hgrows⟩ : ∃ m', markerAt (c.before.applyAll c.writes) k = some m' ∧
              MarkerGrows m₀ m' :=
            Table.applyAll_rel grows_refl grows_write hacc.1 hacc.2 k.key m₀ hbefore
          obtain rfl := Option.some.inj (hm'.symm.trans hm)
          obtain ⟨c', hc', r, epochs, hr, hwrites, hmatches⟩ := ih hrest hproper.2 hbefore
          refine ⟨c', List.mem_cons_of_mem c hc', r, epochs, hr, hwrites, ?_, ?_, ?_⟩
          · exact hgrows.requestId.trans hmatches.1
          · exact hgrows.signature.trans hmatches.2.1
          · exact hgrows.amount.trans hmatches.2.2
      | none =>
          have hput := putMarker_of_created hacc hbefore hm
          have hreserves : reserves m.requestId c = true :=
            List.any_eq_true.mpr ⟨_, hput, decide_eq_true rfl⟩
          obtain ⟨r, epochs, hr, hwrites, -⟩ := exists_operations_of_reserves hproper.1 hreserves
          refine ⟨c, List.mem_cons_self, r, epochs, hr, hwrites, ?_⟩
          rw [hwrites] at hput
          rcases List.mem_cons.mp hput with hput | hput
          · obtain ⟨-, -, -, rfl⟩ := Write.putMarker.inj hput
            exact ⟨rfl, rfl, rfl⟩
          · obtain ⟨c', -, hc'⟩ := List.mem_map.mp hput
            cases hc'

/-- Where the requests of one id share a key, one of them is committed. -/
theorem length_filter_reserves_le_one (hlog : Logged log t)
    (hproper : ∀ c ∈ log, Proper ok c.before c.writes)
    (hkeys : ∀ r r', Requested ok r → Requested ok r' → r.requestId = r'.requestId →
      r.markerKey = r'.markerKey) (requestId : String) :
    (log.filter (reserves requestId)).length ≤ 1 := by
  induction log generalizing t with
  | nil => exact Nat.zero_le 1
  | cons c log ih =>
      obtain ⟨rfl, hacc, hrest⟩ := hlog
      rw [List.forall_mem_cons] at hproper
      cases hreserves : reserves requestId c with
      | false =>
          rw [List.filter_cons_of_neg (by simp [hreserves])]
          exact ih hrest hproper.2
      | true =>
          obtain ⟨r, epochs, hr, hwrites, hid⟩ := exists_operations_of_reserves hproper.1 hreserves
          rw [hwrites] at hacc
          have hnone : markerAt c.before r.markerKey = none :=
            Option.isNone_iff_eq_none.mp (hacc.2 _ List.mem_cons_self)
          have hfirst : log.filter (reserves requestId) = [] := by
            refine List.filter_eq_nil_iff.mpr fun c' hc' hreserves' ↦ ?_
            obtain ⟨r', epochs', hr', hwrites', hid'⟩ :=
              exists_operations_of_reserves (hproper.2 c' hc') hreserves'
            obtain ⟨m, hm, -⟩ := marker_of_commit hrest hc' hwrites'
            rw [hkeys r' r hr' hr (hid'.trans hid.symm), hnone] at hm
            cases hm
          rw [List.filter_cons_of_pos hreserves, hfirst, List.length_singleton]

end Log

/-! ## Runs -/

/-- What is decided about a reservation by the commits so far: after a commit of
the same request nothing is charged, and success is reported just to an equal
request; before any, it is charged or rejected. -/
inductive Decided (i : ℕ) (r : ReserveRequest) (s₁ s : Store schema) :
    Option BudgetReservationResult → Prop
  | equal (c : Commit schema) (r₁ : ReserveRequest) (epochs : List (Scope × ℕ))
      (res : BudgetReservationResult) (hc : c ∈ s₁.log) (hwrites : c.writes = r₁.operations epochs)
      (hid : r₁.requestId = r.requestId) (hsame : r.Same r₁) (hown : Discipline.own i s = [])
      (hres : res.allowed = true ∧ res.idempotent = true) : Decided i r s₁ s (some res)
  | different (c : Commit schema) (r₁ : ReserveRequest) (epochs : List (Scope × ℕ))
      (result : Option BudgetReservationResult) (hc : c ∈ s₁.log)
      (hwrites : c.writes = r₁.operations epochs) (hid : r₁.requestId = r.requestId)
      (hsame : ¬ r.Same r₁) (hown : Discipline.own i s = []) (hres : Rejected result) :
      Decided i r s₁ s result
  | first (epochs : List (Scope × ℕ)) (res : BudgetReservationResult)
      (hnone : ∀ c ∈ s₁.log, reserves r.requestId c = false)
      (hown : Discipline.own i s = [⟨i, r.operations epochs, s₁.table⟩])
      (hres : res.allowed = true ∧ res.idempotent = false) : Decided i r s₁ s (some res)
  | refused (result : Option BudgetReservationResult)
      (hnone : ∀ c ∈ s₁.log, reserves r.requestId c = false) (hown : Discipline.own i s = [])
      (hres : Rejected result) : Decided i r s₁ s result

/-- Each request id is charged once, and each finished reservation with valid
arguments was decided at some time from its start to its end. -/
structure ChargedOnce (p : BudgetPool) : Prop where
  once : ∀ requestId, (p.state.log.filter (reserves requestId)).length ≤ 1
  decided : ∀ i c s₀ outcome r, p.threads[i]? = some ⟨c, s₀, .done outcome⟩ → Prepares c r →
    ∃ result s₁, outcome = .reservation (.ok result) ∧ Between s₀ s₁ p.state ∧
      Decided i r s₁ p.state result

/-- Runs without storage faults in which every call is compatible with the
earlier ones. -/
def careful : Service (Op schema) Ret (Store schema) Call Outcome :=
  { service false with admits := fun p c ↦ ∀ c' ∈ p.calls, Compatible c' c }

theorem careful_compatible {p : BudgetPool} (hp : Reachable careful (Store.empty schema) p) {c c' : Call}
    (hc : c ∈ p.calls) (hc' : c' ∈ p.calls) : Compatible c c' := by
  have hpairwise : p.calls.Pairwise Compatible := hp.pairwise_calls fun _ _ h ↦ h
  have hsymm : Std.Symm Compatible := ⟨fun _ _ h ↦ h.symm⟩
  exact hpairwise.forall_of_forall (fun c _ ↦ .refl c) hc hc'

section Decided

variable {ok : Call → Prop} {extra : Commit schema → Prop} {i : ℕ} {r : ReserveRequest}
  {s₀ s : Store schema}

/-- A decision at the marker is a decision about the commits. -/
theorem decided_of_decision (hinv : (discipline ok extra).protocol.inv s)
    (hcompatible : ∀ c c', ok c → ok c' → Compatible c c') (hr : Requested ok r)
    (hown₀ : Discipline.own i s₀ = []) {result : Option BudgetReservationResult}
    (h : Decision i r s₀ s result) :
    ∃ s₁, Between s₀ s₁ s ∧ Decided i r s₁ s result := by
  have hagree : ∀ r₁, Requested ok r₁ → r₁.requestId = r.requestId →
      r₁.markerKey = r.markerKey ∧ (r.figures = r₁.figures → r.normalized = r₁.normalized) := by
    intro r₁ hr₁ hid
    obtain ⟨c, hc, hprepares⟩ := requested_iff.mp hr
    obtain ⟨c₁, hc₁, hprepares₁⟩ := requested_iff.mp hr₁
    obtain ⟨hkey, hfigures⟩ := hcompatible c c₁ hc hc₁ r r₁ hprepares hprepares₁ hid.symm
    exact ⟨hkey.symm, hfigures⟩
  have hproper : ∀ s₁, Between s₀ s₁ s → ∀ c ∈ s₁.log, Proper ok c.before c.writes :=
    fun s₁ hs₁ c hc ↦ (hinv.2 c (hs₁.2.1.subset hc)).1
  -- without a marker at the common key, no reservation of the request is committed
  have hnone : ∀ s₁, Between s₀ s₁ s → markerAt s₁.table r.markerKey = none →
      ∀ c ∈ s₁.log, reserves r.requestId c = false := by
    intro s₁ hs₁ hm c hc
    by_contra hreserves
    obtain ⟨r₁, epochs, hr₁, hwrites, hid⟩ := exists_operations_of_reserves (hproper s₁ hs₁ c hc)
      (Bool.eq_true_of_not_eq_false hreserves)
    obtain ⟨m, hm₁, -⟩ := marker_of_commit hs₁.2.2 hc hwrites
    rw [(hagree r₁ hr₁ hid).1, hm] at hm₁
    cases hm₁
  cases h with
  | charged s₁ epochs res hs₁ hm hown hres =>
      rw [hown₀] at hown
      exact ⟨s₁, hs₁, .first epochs res (hnone s₁ hs₁ hm) hown hres⟩
  | repeated s₁ m res hs₁ hm hmatches hown hres =>
      obtain ⟨c, hc, r₁, epochs, hr₁, hwrites, hmatches₁⟩ :=
        commit_of_marker hs₁.2.2 (hproper s₁ hs₁) hm
      refine ⟨s₁, hs₁, .equal c r₁ epochs res hc hwrites ?_ ⟨?_, ?_⟩ (hown.trans hown₀) hres⟩
      · exact hmatches₁.1.symm.trans hmatches.1
      · rw [ReserveRequest.figures, ReserveRequest.figures, ← hmatches.2.1, ← hmatches₁.2.1]
      · exact hmatches.2.2.symm.trans hmatches₁.2.2
  | conflicting s₁ m result hs₁ hm hmatches hown hres =>
      obtain ⟨c, hc, r₁, epochs, hr₁, hwrites, hmatches₁⟩ :=
        commit_of_marker hs₁.2.2 (hproper s₁ hs₁) hm
      have hkept := (ledger_of_logged hs₁.2.2 (hproper s₁ hs₁)).markers _ _ hm
      have hid : r₁.requestId = r.requestId :=
        hmatches₁.1.symm.trans (requestId_eq_of_key hkept.key hr.valid.markerKey)
      refine ⟨s₁, hs₁, .different c r₁ epochs result hc hwrites hid (fun hsame ↦ hmatches ?_)
        (hown.trans hown₀) hres⟩
      refine ⟨hmatches₁.1.trans hid, hmatches₁.2.1.trans ?_, hmatches₁.2.2.trans hsame.2.symm⟩
      exact ((hagree r₁ hr₁ hid).2 hsame.1).symm
  | refused s₁ result hs₁ hm hown hres =>
      exact ⟨s₁, hs₁, .refused result (hnone s₁ hs₁ hm) (hown.trans hown₀) hres⟩

end Decided

theorem chargedOnce_of_careful {p : BudgetPool} (hp : Reachable careful (Store.empty schema) p) :
    ChargedOnce p := by
  have hcompatible : ∀ c c', c ∈ p.calls → c' ∈ p.calls → Compatible c c' :=
    fun c c' hc hc' ↦ careful_compatible hp hc hc'
  have hrestrict : Reachable ((careful.among p.calls).restrict (Commits fun _ ↦ True))
      (Store.empty schema) p := by
    refine Steps.mono ?_ ?_ ?_ ?_ hp.among_calls
    · rfl
    · exact fun i o s r s' h ↦ exec_restrict_true h
    · exact fun s s' h ↦ h
    · exact fun q c h ↦ h
  have hsafe : PoolSafe ((careful.among p.calls).restrict (Commits fun _ ↦ True))
      (discipline (· ∈ p.calls) fun _ ↦ True).protocol (fun i s ↦ Discipline.own i s = [])
      (fun i c s₀ outcome s ↦ Owed false i c s₀ outcome s) p := by
    refine poolSafe ?_ ?_ ?_ hrestrict
    · rfl
    · rfl
    · exact fun q c h ↦ h.2
  refine ⟨fun requestId ↦ ?_, fun i c s₀ outcome r hi hr ↦ ?_⟩
  · refine length_filter_reserves_le_one hsafe.inv.1 (fun c hc ↦ (hsafe.inv.2 c hc).1) ?_ requestId
    intro r r' hr hr' hid
    obtain ⟨c, hc, hprepares⟩ := requested_iff.mp hr
    obtain ⟨c', hc', hprepares'⟩ := requested_iff.mp hr'
    exact (hcompatible c c' hc hc' r r' hprepares hprepares' hid).1
  · have hmem : c ∈ p.calls := List.mem_map.mpr ⟨_, List.mem_of_getElem? hi, rfl⟩
    have howed := hsafe.result hi
    cases c with
    | reserveBudget requestId reservations amount now leaseSeconds =>
        obtain ⟨hown₀, hreserved⟩ := howed
        cases outcome with
        | reservation result =>
            have hprepared : prepareReserve requestId reservations amount now leaseSeconds = .ok r :=
              hr
            simp only [hprepared] at hreserved
            obtain ⟨res, rfl, hdecision⟩ := hreserved
            obtain ⟨s₁, hs₁, hdecided⟩ := decided_of_decision hsafe.inv
              (fun c c' hc hc' ↦ hcompatible c c' hc hc')
              ⟨_, _, _, _, _, hmem, hprepared⟩ hown₀ (hdecision rfl)
            exact ⟨res, s₁, rfl, hs₁, hdecided⟩
        | _ => cases hreserved
    | _ => cases hr

/-- A retry with the same figures. -/
theorem chargedOnce_retried : ChargedOnce (playAll (inTurn
    [.reserveBudget "r" [(.quota, "q", .int 100)] (.int 10) 0 900,
      .reserveBudget "r" [(.quota, "q", .int 100)] (.int 10) 1 900])) := by
  refine chargedOnce_of_careful (reachable_playAll rfl rfl (fun p c hp hc c' hc' ↦ ?_)
    fun _ h ↦ mem_of_start_mem_inTurn h)
  have hretry : ∀ d ∈ [Call.reserveBudget "r" [(.quota, "q", .int 100)] (.int 10) 0 900,
      Call.reserveBudget "r" [(.quota, "q", .int 100)] (.int 10) 1 900],
      ∃ now, d = .reserveBudget "r" [(.quota, "q", .int 100)] (.int 10) now 900 := by
    simp
  obtain ⟨now, rfl⟩ := hretry c hc
  obtain ⟨now', rfl⟩ := hretry c' (hp hc')
  exact compatible_of_same_reservations

/-! ### Another first counter -/

/-- A request under a quota limit, and its retry once the project has a limit too. -/
def retriedUnderProject : BudgetPool :=
  playAll (inTurn [.reserveBudget "r" [(.quota, "q", .int 100)] (.int 10) 0 900,
    .reserveBudget "r" [(.quota, "q", .int 100), (.project, "p", .int 50)] (.int 10) 1 900])

/-- The retry is charged again. -/
theorem not_chargedOnce_retriedUnderProject :
    Reachable (service false) (Store.empty schema) retriedUnderProject ∧
      ¬ ChargedOnce retriedUnderProject ∧
      spendOf retriedUnderProject.state.table .quota "q" = 20 :=
  ⟨reachable_playAll rfl rfl (fun _ _ _ _ ↦ trivial) fun _ h ↦ mem_of_start_mem_inTurn h,
    fun h ↦ absurd (h.once "r") (by decide +kernel), by decide +kernel⟩

end AxonGateway.Budget
