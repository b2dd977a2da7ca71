import AxonGateway.Budget.Idempotency

/-!
# Threshold alerts

A finalization decides by the total it has read which alerts it puts, and its
transaction does not ask for that total.  Alerts are never repeated.  None is
lost as long as the totals read are up to date where it matters: when the last
outstanding reservation of an epoch is finalized.
-/

namespace AxonGateway.Budget

open ConditionalStore Interleaving Binary64

/-! ## Alerts in the log -/

section Log

variable {ok : Call → Prop} {log : List (Commit schema)} {t : Table schema}

/-- An alert that is put ends up in the table. -/
theorem alert_of_commit (hlog : Logged log t) {c : Commit schema} (hc : c ∈ log) {ident : String}
    {epoch : ℕ} {threshold : ℚ}
    (hput : .putAlert .quota ident epoch (thresholdPct threshold) ∈ c.writes) :
    (alertAt t ident epoch threshold).isSome = true := by
  obtain ⟨l, hsuffix, hacc, hl⟩ := hlog.of_mem hc
  have hafter : Logged (c :: l) (c.before.applyAll c.writes) := ⟨rfl, hacc, hl⟩
  have hrow : alertAt (c.before.applyAll c.writes) ident epoch threshold = some () :=
    Table.lookup_applyAll_of_mem (S := schema) hacc.1 hput
  have hsome : (alertAt (c.before.applyAll c.writes) ident epoch threshold).isSome = true := by
    rw [hrow]
    rfl
  exact (discipline (fun _ ↦ True) fun _ ↦ True).grows_of_suffix hlog hafter hsuffix
    (.alert .quota ident epoch (thresholdPct threshold)) hsome

/-- An alert in the table was put. -/
theorem commit_of_alert (hlog : Logged log t) {ident : String} {epoch : ℕ} {threshold : ℚ}
    (h : (alertAt t ident epoch threshold).isSome = true) :
    ∃ c ∈ log, .putAlert .quota ident epoch (thresholdPct threshold) ∈ c.writes := by
  induction log generalizing t with
  | nil =>
      obtain rfl : t = ∅ := hlog
      cases h
  | cons c log ih =>
      obtain ⟨rfl, hacc, hrest⟩ := hlog
      by_cases hmem : Key.alert .quota ident epoch (thresholdPct threshold) ∈ c.writes.map Write.key
      · obtain ⟨w, hw, hkey⟩ := List.mem_map.mp hmem
        refine ⟨c, List.mem_cons_self, ?_⟩
        cases w with
        | putAlert scope ident' epoch' pct =>
            cases hkey
            exact hw
        | _ => cases hkey
      · have hold : alertAt (c.before.applyAll c.writes) ident epoch threshold =
            alertAt c.before ident epoch threshold :=
          Table.lookup_applyAll_of_notMem (S := schema) hmem
        rw [hold] at h
        obtain ⟨c', hc', hput⟩ := ih hrest h
        exact ⟨c', List.mem_cons_of_mem c hc', hput⟩

/-- An alert is put once. -/
theorem who_eq_of_putAlert (hlog : Logged log t) {c c' : Commit schema} (hc : c ∈ log)
    (hc' : c' ∈ log) {ident : String} {epoch : ℕ} {threshold : ℚ}
    (hput : .putAlert .quota ident epoch (thresholdPct threshold) ∈ c.writes)
    (hput' : .putAlert .quota ident epoch (thresholdPct threshold) ∈ c'.writes) :
    c.who = c'.who := by
  induction log generalizing t with
  | nil => cases hc
  | cons d log ih =>
      obtain ⟨-, hacc, hrest⟩ := hlog
      -- the newest transaction finds no alert of its own, so no older one has put it
      have hfirst : ∀ e ∈ log, .putAlert .quota ident epoch (thresholdPct threshold) ∈ e.writes →
          .putAlert .quota ident epoch (thresholdPct threshold) ∉ d.writes := by
        intro e he hpute hputd
        have hsome := alert_of_commit hrest he hpute
        have hnone : alertAt d.before ident epoch threshold = none :=
          Option.isNone_iff_eq_none.mp (hacc.2 _ hputd)
        rw [hnone] at hsome
        cases hsome
      rcases List.mem_cons.mp hc with rfl | hold
      · rcases List.mem_cons.mp hc' with rfl | hold'
        · rfl
        · exact absurd hput (hfirst c' hold' hput')
      · rcases List.mem_cons.mp hc' with rfl | hold'
        · exact absurd hput' (hfirst c hold hput)
        · exact ih hrest hold hold'

end Log

/-! ## No alert is lost -/

/-- The reservations of a quota counter's current epoch. -/
def CurrentQuota (t : Table schema) (ident : String) (m : Marker) : Prop :=
  Names m .quota ident ∧ recordedEpoch m .quota = epochOf t .quota ident

/-- Every reservation of the current epoch is finalized, other than the one at `k`. -/
def SettledExcept (t : Table schema) (ident : String) (k : Option MarkerKey) : Prop :=
  ∀ k' m, k ≠ some k' → markerAt t k' = some m → CurrentQuota t ident m → m.state = .finalized

/-- Once all reservations of the epoch are finalized, every threshold that the
spend has reached has its alert. -/
def Covered (limit : String → ℚ) (t : Table schema) (ident : String) : Prop :=
  SettledExcept t ident none → ∀ threshold ∈ budgetAlertThresholds,
    limit ident * threshold ≤ spendOf t .quota ident →
      (alertAt t ident (epochOf t .quota ident) threshold).isSome = true

/-- The total that a finalization has read is not outdated: where it settles the
last outstanding reservation of the epoch, what it read shows every threshold
that the stored spend reaches and that has no alert. -/
def UpToDate (limit : String → ℚ) (c : Commit schema) : Prop :=
  ∀ (k : MarkerKey) signature actual expiresAt quota m ident,
    .finalizeMarker k.scope k.ident k.request signature actual expiresAt (some quota) ∈ c.writes →
      markerAt c.before k = some m → CurrentQuota c.before ident m →
        SettledExcept c.before ident (some k) → ∀ threshold ∈ budgetAlertThresholds,
          limit ident * threshold ≤ spendOf c.before .quota ident + (actual - m.reservedAmount) →
            (alertAt c.before ident (epochOf c.before .quota ident) threshold).isSome = true ∨
              FinalizeRequest.reaches quota.total (actual - m.reservedAmount)
                (limit ident * threshold) = true

/-- Reservations, with a fixed limit for each quota counter, finalizations and resets. -/
def Watched (limit : String → ℚ) : Call → Prop
  | .reserveBudget requestId reservations amount now leaseSeconds =>
      ∀ r, prepareReserve requestId reservations amount now leaseSeconds = .ok r →
        ∀ c ∈ r.normalized, c.1 = .quota → c.2.2.val = limit c.2.1
  | .finalizeBudgetReservation _ _ _ _ _ => True
  | .resetSpendCounters _ => True
  | _ => False

section Covered

variable {limit : String → ℚ} {t : Table schema} {ident : String}

theorem threshold_pos {threshold : ℚ} (h : threshold ∈ budgetAlertThresholds) : 0 < threshold := by
  simp only [budgetAlertThresholds, List.mem_cons, List.not_mem_nil, or_false] at h
  rcases h with rfl | rfl | rfl <;> norm_num

theorem thresholdPct_injOn {a b : ℚ} (ha : a ∈ budgetAlertThresholds)
    (hb : b ∈ budgetAlertThresholds) (h : thresholdPct a = thresholdPct b) : a = b := by
  have hall : ∀ a ∈ budgetAlertThresholds, ∀ b ∈ budgetAlertThresholds,
      thresholdPct a = thresholdPct b → a = b := by decide +kernel
  exact hall a ha b hb h

/-- A transaction that leaves counter and states alone keeps it covered. -/
theorem Covered.frame {ws : List Write} (h : Covered limit t ident) (hacc : t.Accepts ws)
    (hepoch : epochOf (t.applyAll ws) .quota ident = epochOf t .quota ident)
    (hspend : spendOf (t.applyAll ws) .quota ident = spendOf t .quota ident)
    (hstate : ∀ k m m', markerAt t k = some m → CurrentQuota t ident m →
      markerAt (t.applyAll ws) k = some m' → m'.state = .finalized → m.state = .finalized) :
    Covered limit (t.applyAll ws) ident := by
  intro hsettled threshold hthreshold hreached
  rw [hspend] at hreached
  have hsome := h (fun k m _ hm hcurrent ↦ ?_) threshold hthreshold hreached
  · rw [hepoch]
    exact Table.applyAll_rel grows_refl grows_write hacc.1 hacc.2
      (Key.alert .quota ident (epochOf t .quota ident) (thresholdPct threshold)) hsome
  · obtain ⟨m', hm', hgrows⟩ : ∃ m', markerAt (t.applyAll ws) k = some m' ∧ MarkerGrows m m' :=
      Table.applyAll_rel grows_refl grows_write hacc.1 hacc.2 k.key m hm
    refine hstate k m m' hm hcurrent hm' (hsettled k m' (by simp) hm' ⟨?_, ?_⟩)
    · rw [Names, hgrows.signature]
      exact hcurrent.1
    · rw [recordedEpoch, hgrows.epochs, hepoch]
      exact hcurrent.2

/-- The quota counter of a finalization is the one that its reservation names. -/
theorem quotaCounter_eq {f : FinalizeRequest} (h : Canonical f.normalized) {c : Counter}
    (hc : c ∈ f.normalized) (hquota : c.1 = .quota) :
    f.quotaCounter = some (c.2.1, c.2.2.val) := by
  have hfound : ∃ c', f.normalized.find? (fun c ↦ decide (c.1 = .quota)) = some c' := by
    refine Option.isSome_iff_exists.mp ?_
    rw [List.find?_isSome]
    exact ⟨c, hc, decide_eq_true hquota⟩
  obtain ⟨c', hfind⟩ := hfound
  have hc' := List.find?_some hfind
  have hsame : c' = c := by
    refine List.inj_on_of_nodup_map h.nodup (List.mem_of_find?_eq_some hfind) hc ?_
    exact (of_decide_eq_true hc').trans hquota.symm
  rw [FinalizeRequest.quotaCounter, hfind, hsame]
  rfl

theorem covered_reserve (h : Covered limit t ident) {r : ReserveRequest}
    {epochs : List (Scope × ℕ)}
    (hread : ∀ c ∈ r.normalized, epochIn epochs c.1 ≤ epochOf t c.1 c.2.1)
    (hacc : t.Accepts (r.operations epochs)) :
    Covered limit (t.applyAll (r.operations epochs)) ident := by
  obtain ⟨hepoch, hspend⟩ := row_of_reserve hacc .quota ident
  have hput : markerAt (t.applyAll (r.operations epochs)) r.markerKey = some (r.marker epochs) :=
    Table.lookup_applyAll_of_mem (S := schema) hacc.1 List.mem_cons_self
  by_cases hnamed : ∃ c ∈ r.normalized, c.1 = .quota ∧ c.2.1 = ident
  · -- the new reservation is outstanding
    intro hsettled
    have hcurrent : CurrentQuota (t.applyAll (r.operations epochs)) ident (r.marker epochs) := by
      refine ⟨hnamed, ?_⟩
      obtain ⟨c, hc, hquota, rfl⟩ := hnamed
      have hrecorded := epochOf_eq_of_reserve hacc hc (hread c hc)
      rw [hquota] at hrecorded
      exact (hepoch.trans hrecorded).symm
    cases hsettled _ _ (by simp) hput hcurrent
  · rw [if_neg hnamed, add_zero] at hspend
    refine h.frame hacc hepoch hspend fun k m m' hm _ hm' hfinal ↦ ?_
    have hnone : markerAt t r.markerKey = none :=
      Option.isNone_iff_eq_none.mp (hacc.2 _ List.mem_cons_self)
    have hk : k ≠ r.markerKey := by
      rintro rfl
      rw [hnone] at hm
      cases hm
    have hsame : markerAt (t.applyAll (r.operations epochs)) k = markerAt t k :=
      markerAt_cons rfl (key_of_reserveCounters r epochs) hk
    obtain rfl := Option.some.inj (hm.symm.trans (hsame.symm.trans hm'))
    exact hfinal

theorem covered_report (h : Covered limit t ident) {f : FinalizeRequest}
    (hacc : t.Accepts [f.intent]) : Covered limit (t.applyAll [f.intent]) ident := by
  have hrow := spendRow_of_report (t := t) f .quota ident
  refine h.frame hacc (epochOf_congr hrow) (spendOf_congr hrow) fun k m m' hm _ hm' hfinal ↦ ?_
  rcases eq_or_ne k f.markerKey with rfl | hk
  · have hput : markerAt (t.applyAll [f.intent]) f.markerKey =
        (markerAt t f.markerKey).map fun m ↦ m.report f.actual :=
      Table.lookup_applyAll_of_mem (S := schema) hacc.1 List.mem_cons_self
    rw [hm, Option.map_some] at hput
    obtain rfl := Option.some.inj (hput.symm.trans hm')
    exact hfinal
  · have hsame : markerAt (t.applyAll [f.intent]) k = markerAt t k := markerAt_cons rfl (by simp) hk
    obtain rfl := Option.some.inj (hm.symm.trans (hsame.symm.trans hm'))
    exact hfinal

theorem covered_reset (hlimit : 0 < limit ident) (h : Covered limit t ident)
    {counters : List (Scope × String)}
    (hacc : t.Accepts (counters.map fun c ↦ .resetCounter c.1 c.2)) :
    Covered limit (t.applyAll (counters.map fun c ↦ .resetCounter c.1 c.2)) ident := by
  obtain ⟨-, hspend⟩ | ⟨-, hrow⟩ := row_of_reset hacc .quota ident
  · intro _ threshold hthreshold hreached
    rw [hspend] at hreached
    have hpos := mul_pos hlimit (threshold_pos hthreshold)
    exact absurd hreached (not_le.mpr hpos)
  · refine h.frame hacc (epochOf_congr hrow) (spendOf_congr hrow) fun k m m' hm _ hm' hfinal ↦ ?_
    have hsame := markerAt_of_no_marker (t := t) (key_of_reset counters) k
    obtain rfl := Option.some.inj (hm.symm.trans (hsame.symm.trans hm'))
    exact hfinal

theorem lookup_of_mem_epochsOf {states : List (Scope × SpendCounterState)} {scope : Scope}
    (h : scope ∈ (epochsOf states).map Prod.fst) :
    ∃ state, states.lookup scope = some state ∧ state.epoch = epochIn (epochsOf states) scope := by
  induction states with
  | nil => cases h
  | cons head states ih =>
      obtain ⟨scope', state⟩ := head
      rcases eq_or_ne scope scope' with rfl | hne
      · exact ⟨state, by simp, by simp [epochIn, epochsOf]⟩
      · have htail : scope ∈ (epochsOf states).map Prod.fst :=
          (List.mem_cons.mp h).resolve_left hne
        obtain ⟨state, hlookup, hepoch⟩ := ih htail
        refine ⟨state, ?_, hepoch.trans ?_⟩
        · rw [List.lookup_cons, beq_false_of_ne hne, hlookup]
        · rw [epochIn, epochIn, epochsOf, epochsOf, List.map_cons, List.lookup_cons,
            beq_false_of_ne hne]

/-- The step that can lose an alert: it does not when what it read is up to date. -/
theorem covered_finalize (hlimit : 0 < limit ident) (h : Covered limit t ident) {who : ℕ}
    {f : FinalizeRequest} {m : Marker} {reservationEpochs : List (Scope × ℕ)}
    {states : List (Scope × SpendCounterState)} {crossed : List ℚ} (hvalid : f.Valid)
    (hmarker : markerAt t f.markerKey = some m) (hmatches : f.Matches m)
    (hepochs : m.reservationEpochs = some reservationEpochs)
    (hstates : (epochsOf states).map Prod.fst = scopesOf f.normalized)
    (hread : ∀ c ∈ f.normalized, epochOf t c.1 c.2.1 = epochIn reservationEpochs c.1 →
      epochIn (epochsOf states) c.1 = epochIn reservationEpochs c.1)
    (hnoticed : Noticed t f reservationEpochs states crossed)
    (hwatched : ∀ c ∈ f.normalized, c.1 = .quota → c.2.2.val = limit c.2.1)
    (hupToDate : UpToDate limit ⟨who, f.transaction reservationEpochs states crossed, t⟩)
    (hacc : t.Accepts (f.transaction reservationEpochs states crossed)) :
    Covered limit (t.applyAll (f.transaction reservationEpochs states crossed)) ident := by
  obtain ⟨hepoch, hspend⟩ := row_of_finalize hacc hread .quota ident
  have hother : ∀ k, k ≠ f.markerKey → markerAt (t.applyAll
      (f.transaction reservationEpochs states crossed)) k = markerAt t k :=
    fun k hk ↦ markerAt_cons rfl (key_of_finalize_tail hacc) hk
  have hnames : CurrentQuota t ident m ↔ (∃ c ∈ f.normalized, c.1 = .quota ∧ c.2.1 = ident) ∧
      epochIn reservationEpochs .quota = epochOf t .quota ident := by
    rw [CurrentQuota, Names, recordedEpoch, hepochs, Option.getD_some, hmatches.2.1]
  by_cases hcurrent : CurrentQuota t ident m
  · obtain ⟨⟨c, hc, hquota, rfl⟩, hrecorded⟩ := hnames.mp hcurrent
    rw [if_pos (hnames.mp hcurrent)] at hspend
    intro hsettled threshold hthreshold hreached
    rw [hspend] at hreached
    have hrest : SettledExcept t c.2.1 (some f.markerKey) := by
      intro k m' hk hm' hcurrent'
      have hk' : k ≠ f.markerKey := fun heq ↦ hk (congrArg some heq.symm)
      refine hsettled k m' (by simp) ((hother k hk').trans hm') ⟨hcurrent'.1, ?_⟩
      rw [hepoch]
      exact hcurrent'.2
    have hcounter : f.quotaCounter = some (c.2.1, limit c.2.1) := by
      rw [quotaCounter_eq hvalid.canonical hc hquota, hwatched c hc hquota]
    -- the transaction tells what it saw of the counter
    obtain ⟨quota, hseen, hquotaEpoch⟩ : ∃ quota, states.lookup .quota = some quota ∧
        quota.epoch = epochIn reservationEpochs .quota := by
      have hmem : Scope.quota ∈ (epochsOf states).map Prod.fst := by
        rw [hstates]
        exact List.mem_map.mpr ⟨c, hc, hquota⟩
      obtain ⟨quota, hseen, hquotaEpoch⟩ := lookup_of_mem_epochsOf hmem
      refine ⟨quota, hseen, hquotaEpoch.trans ?_⟩
      have hcurrent' := hread c hc (by rw [hquota]; exact hrecorded.symm)
      rwa [hquota] at hcurrent'
    have hdelta : f.actual - m.reservedAmount = f.delta := by
      rw [hmatches.2.2, FinalizeRequest.delta]
    have hmem : Write.finalizeMarker f.markerKey.scope f.markerKey.ident f.markerKey.request
        f.normalized f.actual f.expiresAt (some quota) ∈
          f.transaction reservationEpochs states crossed := by
      rw [← hseen]
      exact List.mem_cons_self
    have hshown := hupToDate f.markerKey _ _ _ quota m c.2.1 hmem hmarker hcurrent hrest threshold
      hthreshold (by rw [hdelta]; exact hreached)
    rw [hepoch]
    have hkeep : (alertAt t c.2.1 (epochOf t .quota c.2.1) threshold).isSome = true →
        (alertAt (t.applyAll (f.transaction reservationEpochs states crossed)) c.2.1
          (epochOf t .quota c.2.1) threshold).isSome = true := fun hsome ↦
      Table.applyAll_rel grows_refl grows_write hacc.1 hacc.2
        (Key.alert .quota c.2.1 (epochOf t .quota c.2.1) (thresholdPct threshold)) hsome
    rcases hshown with hsome | hreaches
    · exact hkeep hsome
    · rw [hdelta] at hreaches
      rcases hnoticed c.2.1 (limit c.2.1) quota hcounter hlimit hseen hquotaEpoch threshold
        hthreshold hreaches with hcrossed | hsome
      · have hput : Write.putAlert .quota c.2.1 (epochIn reservationEpochs .quota)
            (thresholdPct threshold) ∈ f.transaction reservationEpochs states crossed := by
          refine List.mem_append_right _ ?_
          rw [FinalizeRequest.alertOperations, hcounter]
          exact List.mem_map.mpr ⟨threshold, hcrossed, rfl⟩
        have hrow : alertAt (t.applyAll (f.transaction reservationEpochs states crossed)) c.2.1
            (epochIn reservationEpochs .quota) threshold = some () :=
          Table.lookup_applyAll_of_mem (S := schema) hacc.1 hput
        rw [← hrecorded, hrow]
        rfl
      · rw [hquotaEpoch, hrecorded] at hsome
        exact hkeep hsome
  · have hzero : ¬ ((∃ c ∈ f.normalized, c.1 = .quota ∧ c.2.1 = ident) ∧
        epochIn reservationEpochs .quota = epochOf t .quota ident) :=
      fun hn ↦ hcurrent (hnames.mpr hn)
    rw [if_neg hzero, add_zero] at hspend
    refine h.frame hacc hepoch hspend fun k m' m'' hm' hcurrent' hm'' hfinal ↦ ?_
    rcases eq_or_ne k f.markerKey with rfl | hk
    · obtain rfl := Option.some.inj (hmarker.symm.trans hm')
      exact absurd hcurrent' hcurrent
    · obtain rfl := Option.some.inj (hm'.symm.trans ((hother k hk).symm.trans hm''))
      exact hfinal

end Covered

/-- Where every finalization is up to date, every alert is there when it should be. -/
theorem covered_of_logged {limit : String → ℚ} {log : List (Commit schema)} {t : Table schema}
    (hlog : Logged log t) (hproper : ∀ c ∈ log, Proper (Watched limit) c.before c.writes)
    (hupToDate : ∀ c ∈ log, UpToDate limit c) {ident : String} (hlimit : 0 < limit ident) :
    Covered limit t ident := by
  induction log generalizing t with
  | nil =>
      obtain rfl : t = ∅ := hlog
      intro _ threshold hthreshold hreached
      have hpos := mul_pos hlimit (threshold_pos hthreshold)
      exact absurd hreached (not_le.mpr hpos)
  | cons c log ih =>
      obtain ⟨rfl, hacc, hrest⟩ := hlog
      rw [List.forall_mem_cons] at hproper hupToDate
      have hbefore := ih hrest hproper.2 hupToDate.2
      have hledger : Ledger (Watched limit) log c.before := ledger_of_logged hrest hproper.2
      obtain ⟨who, ws, t⟩ := c
      obtain ⟨hproper, -⟩ := hproper
      dsimp only at hproper hacc hbefore hledger ⊢
      cases hproper with
      | reserve r epochs hok haffordable hscopes hread => exact covered_reserve hbefore hread hacc
      | report f hvalid => exact covered_report hbefore hacc
      | finalize f m reservationEpochs states crossed hvalid hm hmatches hepochs hstates hread
          hnoticed =>
          refine covered_finalize hlimit hbefore hvalid hm hmatches hepochs hstates hread hnoticed
            (fun c hc hquota ↦ ?_) hupToDate.1 hacc
          obtain ⟨r, ⟨_, _, _, _, _, hok, hr⟩, -, hrmatches⟩ := (hledger.markers _ _ hm).requested
          rw [← hmatches.2.1, hrmatches.2.1] at hc
          exact hok r hr c hc hquota
      | addSpend scope ident value cost hcost hok => cases hok
      | reset counters => exact covered_reset hlimit hbefore hacc

/-! ## Runs -/

/-- The finished call returned the threshold as crossed in the epoch of the quota counter. -/
def Returned (p : BudgetPool) (i : ℕ) (ident : String) (epoch : ℕ) (threshold : ℚ) : Prop :=
  ∃ requestId reservations reservedAmount actualCost now s₀ res f limit m,
    p.threads[i]? = some ⟨.finalizeBudgetReservation requestId reservations reservedAmount actualCost
      now, s₀, .done (.finalization (.ok (some res)))⟩ ∧
    prepareFinalize requestId reservations reservedAmount actualCost now = .ok f ∧
    f.quotaCounter = some (ident, limit) ∧ markerAt p.state.table f.markerKey = some m ∧
    recordedEpoch m .quota = epoch ∧ threshold ∈ res.crossedThresholds

/-- No call is in flight. -/
def Quiescent (p : BudgetPool) : Prop :=
  ∀ (i : ℕ) t, p.threads[i]? = some t → ∃ outcome, t.prog = .done outcome

/-- Alerts are neither repeated nor lost. -/
structure AlertedOnce (limit : String → ℚ) (p : BudgetPool) : Prop where
  atMostOnce : ∀ ident epoch threshold i j, Returned p i ident epoch threshold →
    Returned p j ident epoch threshold → i = j
  exactlyOnce : Quiescent p → ∀ ident, SettledExcept p.state.table ident none →
    ∀ threshold ∈ budgetAlertThresholds,
      limit ident * threshold ≤ spendOf p.state.table .quota ident →
        ∃! i, Returned p i ident (epochOf p.state.table .quota ident) threshold

/-- Runs of watched calls without storage faults. -/
def watchedService (limit : String → ℚ) : Service (Op schema) Ret (Store schema) Call Outcome :=
  { service false with admits := fun _ c ↦ Watched limit c }

section Returned

/-- A reservation puts no alerts. -/
theorem alertsPut_of_reserved {i : ℕ} {prepared : Except PyError ReserveRequest}
    {s₀ s : Store schema} {result : Except PyError (Option BudgetReservationResult)}
    (hown₀ : Discipline.own i s₀ = []) (h : Reserved false i prepared s₀ result s) :
    alertsPut i s = [] := by
  have hnil : Discipline.own i s = Discipline.own i s₀ → alertsPut i s = [] := by
    intro hown
    rw [alertsPut, hown, hown₀, List.flatMap_nil]
  cases prepared with
  | error e => exact hnil h.2
  | ok r =>
      obtain ⟨res, -, hdecision⟩ := h
      cases hdecision rfl with
      | charged s₁ epochs res hbetween hmarker hown hres =>
          rw [alertsPut, hown, hown₀, List.flatMap_cons, List.flatMap_nil, List.append_nil]
          refine alertsAmong_eq_nil fun w hw scope ident epoch pct heq ↦ ?_
          subst heq
          rcases List.mem_cons.mp hw with hw | hw
          · cases hw
          · obtain ⟨c, -, hc⟩ := List.mem_map.mp hw
            cases hc
      | repeated s₁ m res hbetween hmarker hmatches hown hres => exact hnil hown
      | conflicting s₁ m result hbetween hmarker hmatches hown hres => exact hnil hown
      | refused s₁ result hbetween hmarker hown hres => exact hnil hown

variable {limit : String → ℚ} {extra : Commit schema → Prop} {p : BudgetPool}

/-- A call that returned a threshold has put its alert. -/
theorem commit_of_returned
    (howed : ∀ i c s₀ outcome, p.threads[i]? = some ⟨c, s₀, .done outcome⟩ →
      Owed false i c s₀ outcome p.state) {i : ℕ} {ident : String} {epoch : ℕ} {threshold : ℚ}
    (h : Returned p i ident epoch threshold) :
    ∃ c ∈ p.state.log, c.who = i ∧
      .putAlert .quota ident epoch (thresholdPct threshold) ∈ c.writes := by
  obtain ⟨requestId, reservations, reservedAmount, actualCost, now, s₀, res, f, l, m, hi, hf,
    hcounter, hm, hepoch, hthreshold⟩ := h
  obtain ⟨-, hfinal⟩ := howed i _ s₀ _ hi
  have hfinal' := hfinal rfl
  rw [hf] at hfinal'
  obtain ⟨reservationEpochs, ⟨m', hm', hmatches, hepochs⟩, hput, -⟩ := hfinal' rfl
  obtain rfl := Option.some.inj (hm'.symm.trans hm)
  have hrecorded : epochIn reservationEpochs .quota = epoch := by
    rw [← hepoch, recordedEpoch, hepochs, Option.getD_some]
  have hmem : Write.putAlert .quota ident epoch (thresholdPct threshold) ∈ alertsPut i p.state := by
    rw [hput, List.append_nil, FinalizeRequest.alertOperations, hcounter, ← hrecorded]
    exact List.mem_map.mpr ⟨threshold, hthreshold, rfl⟩
  obtain ⟨c, hc, hw⟩ := List.mem_flatMap.mp hmem
  obtain ⟨hc, hwho⟩ := List.mem_filter.mp hc
  exact ⟨c, hc, of_decide_eq_true hwho, (List.mem_filter.mp hw).1⟩

/-- A finished call that has put an alert returned its threshold. -/
theorem returned_of_commit
    (howed : ∀ i c s₀ outcome, p.threads[i]? = some ⟨c, s₀, .done outcome⟩ →
      Owed false i c s₀ outcome p.state) {c : Call} (hcall : Watched limit c) {i : ℕ}
    {s₀ : Store schema} {outcome : Outcome} (hi : p.threads[i]? = some ⟨c, s₀, .done outcome⟩)
    {ident : String} {epoch : ℕ} {threshold : ℚ} (hthreshold : threshold ∈ budgetAlertThresholds)
    (hput : .putAlert .quota ident epoch (thresholdPct threshold) ∈ alertsPut i p.state) :
    Returned p i ident epoch threshold := by
  obtain ⟨hown₀, howed⟩ := howed i c s₀ outcome hi
  have hnot : alertsPut i p.state ≠ [] := List.ne_nil_of_mem hput
  cases c with
  | reserveBudget requestId reservations amount now leaseSeconds =>
      cases outcome with
      | reservation result => exact absurd (alertsPut_of_reserved hown₀ howed) hnot
      | _ => cases howed
  | finalizeBudgetReservation requestId reservations reservedAmount actualCost now =>
      cases outcome with
      | finalization result =>
          have howed' := howed rfl
          cases hf : prepareFinalize requestId reservations reservedAmount actualCost now with
          | error e =>
              rw [hf] at howed'
              rcases result with e' | _
              · exact absurd howed' hnot
              · cases howed'
          | ok f =>
              rw [hf] at howed'
              rcases result with e' | _ | res
              · cases howed'
              · exact absurd howed' hnot
              · obtain ⟨reservationEpochs, ⟨m, hm, -, hepochs⟩, hputs, hcrossed⟩ := howed' rfl
                rw [hputs, List.append_nil] at hput
                unfold FinalizeRequest.alertOperations at hput
                split at hput
                · cases hput
                next ident' l hcounter =>
                  obtain ⟨threshold', hthreshold', heq⟩ := List.mem_map.mp hput
                  obtain ⟨-, rfl, rfl, hpct⟩ := Write.putAlert.inj heq
                  obtain rfl := thresholdPct_injOn (hcrossed _ hthreshold') hthreshold hpct
                  refine ⟨_, _, _, _, _, s₀, res, f, l, m, hi, hf, hcounter, hm, ?_, hthreshold'⟩
                  rw [recordedEpoch, hepochs, Option.getD_some]
      | _ => cases howed
  | resetSpendCounters counters =>
      cases outcome with
      | reset result => exact absurd (howed rfl) hnot
      | _ => cases howed
  | releaseExpiredBudgetReservations scope ident now pages => cases hcall
  | addSpendState scope ident cost => cases hcall

/-- No alert is returned twice, in any run of watched calls. -/
theorem eq_of_returned (hsafe : PoolSafe ((watchedService limit).restrict (Commits extra))
      (discipline (Watched limit) extra).protocol (fun i s ↦ Discipline.own i s = [])
      (fun i c s₀ outcome s ↦ Owed false i c s₀ outcome s) p)
    {i j : ℕ} {ident : String} {epoch : ℕ} {threshold : ℚ}
    (hi : Returned p i ident epoch threshold) (hj : Returned p j ident epoch threshold) :
    i = j := by
  obtain ⟨c, hc, rfl, hput⟩ := commit_of_returned (fun i c s₀ o hi ↦ hsafe.result hi) hi
  obtain ⟨c', hc', rfl, hput'⟩ := commit_of_returned (fun i c s₀ o hi ↦ hsafe.result hi) hj
  exact who_eq_of_putAlert hsafe.inv.1 hc hc' hput hput'

/-- Where no finalization that settles an epoch is outdated, alerts are neither
repeated nor lost, however the calls interleave. -/
theorem alertedOnce_of_upToDate (hlimit : ∀ ident, 0 < limit ident)
    (hp : Reachable ((watchedService limit).restrict (Commits (UpToDate limit)))
      (Store.empty schema) p) : AlertedOnce limit p := by
  have hsafe : PoolSafe ((watchedService limit).restrict (Commits (UpToDate limit)))
      (discipline (Watched limit) (UpToDate limit)).protocol (fun i s ↦ Discipline.own i s = [])
      (fun i c s₀ outcome s ↦ Owed false i c s₀ outcome s) p := by
    refine poolSafe ?_ ?_ ?_ hp
    · rfl
    · rfl
    · exact fun _ _ h ↦ h
  refine ⟨fun ident epoch threshold i j hi hj ↦ eq_of_returned hsafe hi hj, ?_⟩
  intro hquiescent ident hsettled threshold hthreshold hreached
  have hsome := covered_of_logged hsafe.inv.1 (fun c hc ↦ (hsafe.inv.2 c hc).1)
    (fun c hc ↦ (hsafe.inv.2 c hc).2) (hlimit ident) hsettled threshold hthreshold hreached
  obtain ⟨c, hc, hput⟩ := commit_of_alert hsafe.inv.1 hsome
  have hown : c ∈ Discipline.own c.who p.state :=
    List.mem_filter.mpr ⟨hc, decide_eq_true rfl⟩
  have hlt : c.who < p.threads.length := by
    by_contra hge
    rw [hsafe.pre c.who (not_lt.mp hge)] at hown
    cases hown
  have hi := List.getElem?_eq_getElem hlt
  obtain ⟨outcome, hdone⟩ := hquiescent c.who _ hi
  generalize p.threads[c.who] = t at hi hdone
  obtain ⟨call, s₀, prog⟩ := t
  obtain rfl : prog = .done outcome := hdone
  have hcall : Watched limit call :=
    hp.forall_calls (fun _ _ h ↦ h) call (List.mem_map.mpr ⟨_, List.mem_of_getElem? hi, rfl⟩)
  have hputs : Write.putAlert .quota ident (epochOf p.state.table .quota ident)
      (thresholdPct threshold) ∈ alertsPut c.who p.state :=
    List.mem_flatMap.mpr ⟨c, hown, List.mem_filter.mpr ⟨hput, rfl⟩⟩
  have hreturned := returned_of_commit (fun i c s₀ o hi ↦ hsafe.result hi) hcall hi hthreshold hputs
  exact ⟨c.who, hreturned, fun j hj ↦ eq_of_returned hsafe hj hreturned⟩

end Returned

/-! ### Runs that lose nothing and runs that lose an alert -/

/-- Whether the totals that the finalizations of a commit have read show what they should. -/
def shows (limit : String → ℚ) (c : Commit schema) : Bool :=
  c.writes.all fun w ↦ match w with
    | .finalizeMarker scope ident request _ actual _ (some quota) =>
        (markerAt c.before ⟨scope, ident, request⟩).all fun m ↦
          m.reservationSignature.all fun counter ↦ budgetAlertThresholds.all fun threshold ↦
            decide (spendOf c.before .quota counter.2.1 + (actual - m.reservedAmount) <
                limit counter.2.1 * threshold) ||
              FinalizeRequest.reaches quota.total (actual - m.reservedAmount)
                (limit counter.2.1 * threshold)
    | _ => true

theorem upToDate_of_shows {limit : String → ℚ} {c : Commit schema} (h : shows limit c = true) :
    UpToDate limit c := by
  intro k signature actual expiresAt quota m ident hw hm hcurrent _ threshold hthreshold hreached
  have hwrite := List.all_eq_true.mp h _ hw
  simp only at hwrite
  rw [hm] at hwrite
  obtain ⟨counter, hcounter, -, rfl⟩ := hcurrent.1
  have hshown := List.all_eq_true.mp (List.all_eq_true.mp hwrite counter hcounter) threshold hthreshold
  rcases Bool.or_eq_true_iff.mp hshown with hlt | hreaches
  · exact absurd hreached (not_le.mpr (of_decide_eq_true hlt))
  · exact .inr hreaches

/-- A quota of 100 is watched by everybody in these runs. -/
theorem watched_hundred {c : Call} (h : (∃ requestId amount, c = .reserveBudget requestId
      [(.quota, "q", .int 100)] amount 0 900) ∨
    ∃ requestId actualCost, c = .finalizeBudgetReservation requestId [(.quota, "q", .int 100)]
      (.int 10) actualCost 5) : Watched (fun _ ↦ 100) c := by
  obtain ⟨requestId, amount, rfl⟩ | ⟨requestId, actualCost, rfl⟩ := h
  · intro r hr counter hcounter _
    obtain ⟨-, -, hn, -⟩ := prepareReserve_ok hr
    obtain ⟨limit, hmem, hlimit⟩ := mem_of_mem_normalize hn hcounter
    obtain ⟨-, -, rfl⟩ : counter.1 = .quota ∧ counter.2.1 = "q" ∧ limit = .int 100 := by
      simpa using hmem
    have hval : (⟨decide ((100 : ℤ) < 0), Int.natAbs 100, 0⟩ : Dec).val = 100 := by decide +kernel
    rw [← Option.some.inj hlimit]
    exact hval
  · trivial

/-- A reservation that ends above the first two thresholds. -/
def oneFinalization : BudgetPool :=
  playAll (inTurn [.reserveBudget "r" [(.quota, "q", .int 100)] (.int 10) 0 900,
    .finalizeBudgetReservation "r" [(.quota, "q", .int 100)] (.int 10) (.int 95) 5])

theorem alertedOnce_oneFinalization : AlertedOnce (fun _ ↦ 100) oneFinalization := by
  have hlog : ∀ c ∈ oneFinalization.state.log, shows (fun _ ↦ 100) c = true := by decide +kernel
  have hreachable : Reachable (watchedService fun _ ↦ 100) (Store.empty schema) oneFinalization := by
    refine reachable_playAll rfl rfl (fun p c _ hc ↦ watched_hundred ?_)
      fun _ h ↦ mem_of_start_mem_inTurn h
    simp only [List.mem_cons, List.not_mem_nil, or_false] at hc
    rcases hc with rfl | rfl
    · exact .inl ⟨_, _, rfl⟩
    · exact .inr ⟨_, _, rfl⟩
  exact alertedOnce_of_upToDate (fun _ ↦ by norm_num)
    (steps_restrict rfl hreachable fun c hc ↦ upToDate_of_shows (hlog c hc))

/-- Two requests finish at once: each reads the quota at 20, adds 40 or 30 to it,
and sees no threshold of 80. -/
def finalizedAtOnce : BudgetPool :=
  playAll [.start (.reserveBudget "a" [(.quota, "q", .int 100)] (.int 10) 0 900), .run 0 9,
    .start (.reserveBudget "b" [(.quota, "q", .int 100)] (.int 10) 0 900), .run 1 9,
    .start (.finalizeBudgetReservation "a" [(.quota, "q", .int 100)] (.int 10) (.int 50) 5),
    .start (.finalizeBudgetReservation "b" [(.quota, "q", .int 100)] (.int 10) (.int 40) 5),
    .run 2 3, .run 3 3, .run 2 9, .run 3 9]

/-- Whether some call of the pool is still in flight, and whether one returned a threshold. -/
def inFlight (p : BudgetPool) : Bool := p.threads.any fun t ↦ match t.prog with
  | .done _ => false
  | .call _ _ => true

def anyReturned (p : BudgetPool) : Bool := p.threads.any fun t ↦ match t.prog with
  | .done (.finalization (.ok (some res))) => !res.crossedThresholds.isEmpty
  | _ => false

theorem quiescent_of_inFlight {p : BudgetPool} (h : inFlight p = false) : Quiescent p := by
  intro i t hi
  obtain ⟨c, s₀, prog⟩ := t
  cases prog with
  | done outcome => exact ⟨outcome, rfl⟩
  | call o k =>
      have hany : inFlight p = true := List.any_eq_true.mpr ⟨_, List.mem_of_getElem? hi, rfl⟩
      rw [h] at hany
      cases hany

theorem anyReturned_of_returned {p : BudgetPool} {i : ℕ} {ident : String} {epoch : ℕ}
    {threshold : ℚ} (h : Returned p i ident epoch threshold) : anyReturned p = true := by
  obtain ⟨_, _, _, _, _, s₀, res, _, _, _, hi, -, -, -, -, hthreshold⟩ := h
  refine List.any_eq_true.mpr ⟨_, List.mem_of_getElem? hi, ?_⟩
  cases hcrossed : res.crossedThresholds with
  | nil =>
      rw [hcrossed] at hthreshold
      cases hthreshold
  | cons a l => simp [hcrossed]

/-- Whether every stored marker is finalized. -/
def allFinalized (t : Table schema) : Bool := t.entries.all fun x ↦ match x with
  | ⟨.reservation _ _ _, (m : Marker)⟩ => decide (m.state = .finalized)
  | _ => true

theorem settled_of_allFinalized {t : Table schema} (h : allFinalized t = true) (ident : String)
    (k : Option MarkerKey) : SettledExcept t ident k := by
  intro k' m _ hm _
  have hmem := List.all_eq_true.mp h _ (AList.mem_lookup_iff.mp hm)
  exact of_decide_eq_true hmem

/-- The quota ends at 90 with all reservations finalized and no alert returned. -/
theorem not_alertedOnce_finalizedAtOnce :
    Reachable (watchedService fun _ ↦ 100) (Store.empty schema) finalizedAtOnce ∧
      spendOf finalizedAtOnce.state.table .quota "q" = 90 ∧
      ¬ AlertedOnce (fun _ ↦ 100) finalizedAtOnce := by
  refine ⟨?_, by decide +kernel, fun h ↦ ?_⟩
  · have hmoves : ∀ c, .start c ∈ [Move.start (.reserveBudget "a" [(.quota, "q", .int 100)]
          (.int 10) 0 900), .run 0 9,
        .start (.reserveBudget "b" [(.quota, "q", .int 100)] (.int 10) 0 900), .run 1 9,
        .start (.finalizeBudgetReservation "a" [(.quota, "q", .int 100)] (.int 10) (.int 50) 5),
        .start (.finalizeBudgetReservation "b" [(.quota, "q", .int 100)] (.int 10) (.int 40) 5),
        .run 2 3, .run 3 3, .run 2 9, .run 3 9] →
        c ∈ [Call.reserveBudget "a" [(.quota, "q", .int 100)] (.int 10) 0 900,
          .reserveBudget "b" [(.quota, "q", .int 100)] (.int 10) 0 900,
          .finalizeBudgetReservation "a" [(.quota, "q", .int 100)] (.int 10) (.int 50) 5,
          .finalizeBudgetReservation "b" [(.quota, "q", .int 100)] (.int 10) (.int 40) 5] := by
      simp
    refine reachable_playAll rfl rfl (fun p c _ hc ↦ watched_hundred ?_) hmoves
    simp only [List.mem_cons, List.not_mem_nil, or_false] at hc
    rcases hc with rfl | rfl | rfl | rfl
    · exact .inl ⟨_, _, rfl⟩
    · exact .inl ⟨_, _, rfl⟩
    · exact .inr ⟨_, _, rfl⟩
    · exact .inr ⟨_, _, rfl⟩
  · have hquiescent : Quiescent finalizedAtOnce := quiescent_of_inFlight (by decide +kernel)
    have hsettled : SettledExcept finalizedAtOnce.state.table "q" none :=
      settled_of_allFinalized (by decide +kernel) "q" none
    obtain ⟨i, hi, -⟩ := h.exactlyOnce hquiescent "q" hsettled (4 / 5) (by decide +kernel)
      (by decide +kernel)
    have hany := anyReturned_of_returned hi
    have hnone : anyReturned finalizedAtOnce = false := by decide +kernel
    rw [hnone] at hany
    cases hany

end AxonGateway.Budget
