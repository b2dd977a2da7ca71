import AxonGateway.Budget.Arguments

/-!
# The ledger of the budget table

Every commit of the budget operations is of one of five kinds.  Over any log of
such commits the spend of a counter is accounted for: what was added in the
current epoch, plus what each marker of that epoch is charged.
-/

namespace AxonGateway.Budget

open ConditionalStore Binary64

/-! ## Rows -/

def spendRow (t : Table schema) (scope : Scope) (ident : String) : Option SpendRow :=
  t.lookup (Key.total scope ident)

/-- The stored spend of a counter, zero when there is none. -/
def spendOf (t : Table schema) (scope : Scope) (ident : String) : ℚ :=
  (Write.attributes (spendRow t scope ident)).spend.getD 0

/-- The current epoch of a counter. -/
def epochOf (t : Table schema) (scope : Scope) (ident : String) : ℕ :=
  (Write.attributes (spendRow t scope ident)).epoch.getD 0

def markerAt (t : Table schema) (k : MarkerKey) : Option Marker := t.lookup k.key

/-- The alert of a threshold of a quota counter in an epoch. -/
def alertAt (t : Table schema) (ident : String) (epoch : ℕ) (threshold : ℚ) : Option Unit :=
  t.lookup (Key.alert .quota ident epoch (thresholdPct threshold))

/-- What no write changes in a marker. -/
structure MarkerGrows (m m' : Marker) : Prop where
  requestId : m'.requestId = m.requestId
  signature : m'.reservationSignature = m.reservationSignature
  epochs : m'.reservationEpochs = m.reservationEpochs
  amount : m'.reservedAmount = m.reservedAmount
  lease : m'.leaseExpiresAt = m.leaseExpiresAt
  finalized : m.state = .finalized → m' = m

theorem MarkerGrows.refl (m : Marker) : MarkerGrows m m := ⟨rfl, rfl, rfl, rfl, rfl, fun _ ↦ rfl⟩

theorem MarkerGrows.trans {m₁ m₂ m₃ : Marker} (h : MarkerGrows m₁ m₂) (h' : MarkerGrows m₂ m₃) :
    MarkerGrows m₁ m₃ where
  requestId := h'.requestId.trans h.requestId
  signature := h'.signature.trans h.signature
  epochs := h'.epochs.trans h.epochs
  amount := h'.amount.trans h.amount
  lease := h'.lease.trans h.lease
  finalized hf := by
    obtain rfl := h.finalized hf
    exact h'.finalized hf

/-- Epochs do not go back, markers keep what identifies them and stay finalized,
alerts stay. -/
def Grows : (k : Key) → Option (Row k) → Option (Row k) → Prop
  | .total _ _, r, r' =>
      (Write.attributes r).epoch.getD 0 ≤ (Write.attributes r').epoch.getD 0
  | .reservation _ _ _, r, r' => ∀ m : Marker, r = some m → ∃ m', r' = some m' ∧ MarkerGrows m m'
  | .alert _ _ _ _, r, r' => r.isSome → r'.isSome

theorem grows_refl (k : Key) (r : Option (Row k)) : Grows k r r := by
  cases k with
  | total scope ident => exact le_rfl
  | reservation scope ident request => exact fun m hm ↦ ⟨m, hm, .refl m⟩
  | alert scope ident epoch pct => exact id

theorem grows_trans (k : Key) (r₁ r₂ r₃ : Option (Row k)) (h : Grows k r₁ r₂)
    (h' : Grows k r₂ r₃) : Grows k r₁ r₃ := by
  cases k with
  | total scope ident => exact Nat.le_trans h h'
  | reservation scope ident request =>
      intro m hm
      obtain ⟨m₂, hm₂, hg⟩ := h m hm
      obtain ⟨m₃, hm₃, hg'⟩ := h' m₂ hm₂
      exact ⟨m₃, hm₃, hg.trans hg'⟩
  | alert scope ident epoch pct => exact fun hr ↦ h' (h hr)

theorem grows_write (w : Write) (r : Option (Row w.key)) (h : w.cond r = true) :
    Grows w.key r (w.next r) := by
  cases w with
  | putMarker scope ident request marker =>
      intro m hm
      simp only [Write.cond, Option.isNone_iff_eq_none] at h
      rw [h] at hm
      cases hm
  | reserveCounter scope ident expectedEpoch amount maxBefore => exact le_rfl
  | reportSettlement scope ident request signature actual =>
      intro m hm
      subst hm
      have hstate : m.state = .reserved := (of_decide_eq_true h).1
      refine ⟨_, rfl, rfl, rfl, rfl, rfl, rfl, fun hf ↦ ?_⟩
      rw [hstate] at hf
      cases hf
  | finalizeMarker scope ident request signature actual expiresAt seen =>
      intro m hm
      subst hm
      have hstate : m.state = .reserved := (of_decide_eq_true h).1
      refine ⟨_, rfl, rfl, rfl, rfl, rfl, rfl, fun hf ↦ ?_⟩
      rw [hstate] at hf
      cases hf
  | reconcileCounter scope ident expectedEpoch reserved delta => exact le_rfl
  | putAlert scope ident epoch pct => exact fun _ ↦ rfl
  | addSpend scope ident cost => exact le_rfl
  | resetCounter scope ident => exact Nat.le_succ _

/-! ## Proper commits -/

/-- The checked arguments of a permitted reservation. -/
def Requested (ok : Call → Prop) (r : ReserveRequest) : Prop :=
  ∃ requestId reservations amount now leaseSeconds,
    ok (.reserveBudget requestId reservations amount now leaseSeconds) ∧
      prepareReserve requestId reservations amount now leaseSeconds = .ok r

theorem Requested.valid {ok : Call → Prop} {r : ReserveRequest} (h : Requested ok r) : r.Valid := by
  obtain ⟨_, _, _, _, _, -, hr⟩ := h
  exact (prepareReserve_ok hr).1

/-- Each threshold that the total as it was read reaches, the difference added, is
among the crossed ones or has its alert. -/
def Noticed (t : Table schema) (f : FinalizeRequest) (reservationEpochs : List (Scope × ℕ))
    (states : List (Scope × SpendCounterState)) (crossed : List ℚ) : Prop :=
  ∀ ident limit quota, f.quotaCounter = some (ident, limit) → 0 < limit →
    states.lookup .quota = some quota → quota.epoch = epochIn reservationEpochs .quota →
      ∀ threshold ∈ budgetAlertThresholds,
        FinalizeRequest.reaches quota.total f.delta (limit * threshold) = true →
          threshold ∈ crossed ∨ (alertAt t ident quota.epoch threshold).isSome = true

/-- The commits of the budget operations in the state that they meet, when `ok`
says which calls are permitted. -/
inductive Proper (ok : Call → Prop) (t : Table schema) : List Write → Prop
  | reserve (r : ReserveRequest) (epochs : List (Scope × ℕ)) (hok : Requested ok r)
      (haffordable : r.impossibleScope = none)
      (hscopes : epochs.map Prod.fst = scopesOf r.normalized)
      (hread : ∀ c ∈ r.normalized, epochIn epochs c.1 ≤ epochOf t c.1 c.2.1) :
      Proper ok t (r.operations epochs)
  | report (f : FinalizeRequest) (hvalid : f.Valid) : Proper ok t [f.intent]
  | finalize (f : FinalizeRequest) (m : Marker) (reservationEpochs : List (Scope × ℕ))
      (states : List (Scope × SpendCounterState)) (crossed : List ℚ) (hvalid : f.Valid)
      (hmarker : markerAt t f.markerKey = some m) (hmatches : f.Matches m)
      (hepochs : m.reservationEpochs = some reservationEpochs)
      (hstates : (epochsOf states).map Prod.fst = scopesOf f.normalized)
      (hread : ∀ c ∈ f.normalized, epochOf t c.1 c.2.1 = epochIn reservationEpochs c.1 →
        epochIn (epochsOf states) c.1 = epochIn reservationEpochs c.1)
      (hnoticed : Noticed t f reservationEpochs states crossed) :
      Proper ok t (f.transaction reservationEpochs states crossed)
  | addSpend (scope : Scope) (ident : String) (value : PyNum) (cost : ℚ) (hcost : 0 ≤ cost)
      (hok : ok (.addSpendState scope ident value)) : Proper ok t [.addSpend scope ident cost]
  | reset (counters : List (Scope × String)) :
      Proper ok t (counters.map fun c ↦ .resetCounter c.1 c.2)

/-- The discipline of the budget operations; `ok` restricts the calls and `extra`
the commits that are considered. -/
def discipline (ok : Call → Prop) (extra : Commit schema → Prop) :
    Discipline schema where
  proper c := Proper ok c.before c.writes ∧ extra c
  grows := Grows
  refl := grows_refl
  trans := grows_trans
  write := grows_write

/-! ## Accounts -/

/-- The marker names the counter. -/
def Names (m : Marker) (scope : Scope) (ident : String) : Prop :=
  ∃ c ∈ m.reservationSignature, c.1 = scope ∧ c.2.1 = ident

instance (m : Marker) (scope : Scope) (ident : String) : Decidable (Names m scope ident) :=
  inferInstanceAs (Decidable (∃ c ∈ m.reservationSignature, c.1 = scope ∧ c.2.1 = ident))

/-- The epoch that the marker recorded for a scope. -/
def recordedEpoch (m : Marker) (scope : Scope) : ℕ := epochIn (m.reservationEpochs.getD []) scope

/-- What a marker is charged: its actual cost once it is finalized. -/
def markerCharge (m : Marker) : ℚ :=
  match m.state with
  | .reserved => m.reservedAmount
  | .finalized => m.actualCost.getD 0

/-- What a marker is charged to a counter in an epoch. -/
def share (scope : Scope) (ident : String) (epoch : ℕ) (m : Marker) : ℚ :=
  if Names m scope ident ∧ recordedEpoch m scope = epoch then markerCharge m else 0

/-- The charge of a row to a counter in an epoch. -/
def charge (scope : Scope) (ident : String) (epoch : ℕ) : (k : Key) → Row k → ℚ
  | .reservation _ _ _, m => share scope ident epoch m
  | _, _ => 0

/-- What a write adds to a counter in an epoch by a plain addition. -/
def addedBy (t : Table schema) (scope : Scope) (ident : String) (epoch : ℕ) : Write → ℚ
  | .addSpend scope' ident' cost =>
      if scope' = scope ∧ ident' = ident ∧ epochOf t scope ident = epoch then cost else 0
  | _ => 0

/-- The plain additions to a counter in an epoch. -/
def added (log : List (Commit schema)) (scope : Scope) (ident : String) (epoch : ℕ) : ℚ :=
  (log.map fun c ↦ (c.writes.map (addedBy c.before scope ident epoch)).sum).sum

/-- What holds of every stored marker. -/
structure MarkerKept (ok : Call → Prop) (t : Table schema) (k : MarkerKey) (m : Marker) : Prop where
  requested : ∃ r, Requested ok r ∧ r.markerKey = k ∧ r.Matches m
  canonical : Canonical m.reservationSignature
  key : budgetReservationKey m.requestId m.reservationSignature = .ok k
  positive : 0 < m.reservedAmount
  affordable : ∀ c ∈ m.reservationSignature, m.reservedAmount ≤ c.2.2.val
  epochs : ∃ epochs, m.reservationEpochs = some epochs ∧
    epochs.map Prod.fst = scopesOf m.reservationSignature
  past : ∀ c ∈ m.reservationSignature, recordedEpoch m c.1 ≤ epochOf t c.1 c.2.1
  settlement : ∃ amount, m.settlementAmount = some amount ∧ 0 ≤ amount ∧
    (m.settlementState = some .estimated ∨ m.settlementState = some .reported) ∧
    (m.settlementState = some .estimated → amount = m.reservedAmount)
  finalized : m.state = .finalized → ∃ actual, m.actualCost = some actual ∧ 0 ≤ actual

/-- The books are in order. -/
structure Ledger (ok : Call → Prop) (log : List (Commit schema)) (t : Table schema) : Prop where
  markers : ∀ k m, markerAt t k = some m → MarkerKept ok t k m
  future : ∀ scope ident epoch, epochOf t scope ident < epoch → added log scope ident epoch = 0
  nonneg : ∀ scope ident epoch, 0 ≤ added log scope ident epoch
  spend : ∀ scope ident, spendOf t scope ident =
    added log scope ident (epochOf t scope ident) +
      Table.total (charge scope ident (epochOf t scope ident)) t

/-! ## Rows after a commit -/

section Rows

variable {t : Table schema} {ws : List Write} {scope : Scope} {ident : String} {epoch : ℕ}

@[simp] theorem attributes_some (row : SpendRow) : Write.attributes (some row) = row := rfl

@[simp] theorem add_spend (row : Option SpendRow) (amount : ℚ) :
    (Write.add row amount).spend = some ((Write.attributes row).spend.getD 0 + amount) := rfl

@[simp] theorem add_epoch (row : Option SpendRow) (amount : ℚ) :
    (Write.add row amount).epoch = some ((Write.attributes row).epoch.getD 0) := rfl

theorem MarkerKey.key_injective : Function.Injective MarkerKey.key := by
  rintro ⟨s, i, d⟩ ⟨s', i', d'⟩ h
  cases h
  rfl

theorem MarkerKey.key_ne_total (k : MarkerKey) : k.key ≠ Key.total scope ident := by
  intro h
  cases h

theorem epochOf_mono (hacc : t.Accepts ws) (scope : Scope) (ident : String) :
    epochOf t scope ident ≤ epochOf (t.applyAll ws) scope ident :=
  Table.applyAll_rel grows_refl grows_write hacc.1 hacc.2 (Key.total scope ident)

theorem epochOf_congr {t' : Table schema} (h : spendRow t' scope ident = spendRow t scope ident) :
    epochOf t' scope ident = epochOf t scope ident := by
  rw [epochOf, h, epochOf]

theorem spendOf_congr {t' : Table schema} (h : spendRow t' scope ident = spendRow t scope ident) :
    spendOf t' scope ident = spendOf t scope ident := by
  rw [spendOf, h, spendOf]

theorem spendRow_of_notMem (h : Key.total scope ident ∉ ws.map Write.key) :
    spendRow (t.applyAll ws) scope ident = spendRow t scope ident :=
  Table.lookup_applyAll_of_notMem (S := schema) h

theorem markerAt_of_notMem {k : MarkerKey} (h : k.key ∉ ws.map Write.key) :
    markerAt (t.applyAll ws) k = markerAt t k :=
  Table.lookup_applyAll_of_notMem (S := schema) h

theorem markerAt_of_no_marker (h : ∀ w ∈ ws, ∀ k : MarkerKey, w.key ≠ k.key) (k : MarkerKey) :
    markerAt (t.applyAll ws) k = markerAt t k := by
  refine markerAt_of_notMem fun hmem ↦ ?_
  obtain ⟨w, hw, hk⟩ := List.mem_map.mp hmem
  exact h w hw k hk

theorem valueAt_charge {k : Key} (hk : ∀ k' : MarkerKey, k ≠ k'.key) (r : Option (Row k)) :
    Table.valueAt (S := schema) (charge scope ident epoch) k r = 0 := by
  cases k with
  | total scope ident => cases r <;> rfl
  | reservation scope ident request => exact absurd rfl (hk ⟨scope, ident, request⟩)
  | alert scope ident epoch pct => cases r <;> rfl

/-- Writes that leave the markers alone leave all charges alone. -/
theorem total_charge_of_no_marker (hacc : t.Accepts ws)
    (h : ∀ w ∈ ws, ∀ k : MarkerKey, w.key ≠ k.key) :
    Table.total (charge scope ident epoch) (t.applyAll ws) =
      Table.total (charge scope ident epoch) t := by
  rw [Table.total_applyAll _ hacc.1, List.sum_eq_zero, add_zero]
  intro x hx
  obtain ⟨w, hw, rfl⟩ := List.mem_map.mp hx
  rw [valueAt_charge (h w hw), valueAt_charge (h w hw), sub_zero]

theorem valueAt_charge_marker {k : Key} {k₀ : MarkerKey} (hk : k = k₀.key) (t : Table schema) :
    Table.valueAt (S := schema) (charge scope ident epoch) k (t.lookup k) =
      (markerAt t k₀).elim 0 (share scope ident epoch) := by
  subst hk
  unfold markerAt
  cases hm : t.lookup k₀.key with
  | none => rfl
  | some m => rfl

/-- One marker among the writes changes the charges by its own difference. -/
theorem total_charge_cons {w : Write} {k₀ : MarkerKey} (hw : w.key = k₀.key)
    (hacc : t.Accepts (w :: ws)) (h : ∀ v ∈ ws, ∀ k : MarkerKey, v.key ≠ k.key) :
    Table.total (charge scope ident epoch) (t.applyAll (w :: ws)) =
      Table.total (charge scope ident epoch) t +
        ((markerAt (t.applyAll (w :: ws)) k₀).elim 0 (share scope ident epoch) -
          (markerAt t k₀).elim 0 (share scope ident epoch)) := by
  have hnext : (t.applyAll (w :: ws)).lookup w.key = w.next (t.lookup w.key) :=
    Table.lookup_applyAll_of_mem (S := schema) hacc.1 List.mem_cons_self
  rw [← valueAt_charge_marker hw, ← valueAt_charge_marker hw, hnext,
    Table.total_applyAll _ hacc.1, List.map_cons, List.sum_cons, List.sum_eq_zero, add_zero]
  intro x hx
  obtain ⟨v, hv, rfl⟩ := List.mem_map.mp hx
  rw [valueAt_charge (h v hv), valueAt_charge (h v hv), sub_zero]

end Rows

section Commit

variable {ok : Call → Prop} {log : List (Commit schema)} {t : Table schema} {who : ℕ}

theorem MarkerKept.mono {t' : Table schema} {k : MarkerKey} {m : Marker} (h : MarkerKept ok t k m)
    (ht : ∀ scope ident, epochOf t scope ident ≤ epochOf t' scope ident) : MarkerKept ok t' k m :=
  { h with past := fun c hc ↦ (h.past c hc).trans (ht _ _) }

theorem added_cons (ws : List Write) (scope : Scope) (ident : String) (epoch : ℕ) :
    added (⟨who, ws, t⟩ :: log) scope ident epoch =
      (ws.map (addedBy t scope ident epoch)).sum + added log scope ident epoch := by
  simp [added]

theorem sum_addedBy_eq_zero {ws : List Write} {scope : Scope} {ident : String} {epoch : ℕ}
    (h : ∀ w ∈ ws, addedBy t scope ident epoch w = 0) :
    (ws.map (addedBy t scope ident epoch)).sum = 0 := by
  apply List.sum_eq_zero
  intro x hx
  obtain ⟨w, hw, rfl⟩ := List.mem_map.mp hx
  exact h w hw

theorem mem_operations {r : ReserveRequest} {epochs : List (Scope × ℕ)} {c : Counter}
    (hc : c ∈ r.normalized) :
    Write.reserveCounter c.1 c.2.1 (epochIn epochs c.1) r.reserved (c.2.2.val - r.reserved) ∈
      r.operations epochs :=
  List.mem_cons_of_mem _ (List.mem_map.mpr ⟨c, hc, rfl⟩)

/-- A counter that an accepted reservation names is in the epoch that it recorded. -/
theorem epochOf_eq_of_reserve {r : ReserveRequest} {epochs : List (Scope × ℕ)}
    (hacc : t.Accepts (r.operations epochs)) {c : Counter} (hc : c ∈ r.normalized)
    (hread : epochIn epochs c.1 ≤ epochOf t c.1 c.2.1) :
    epochOf t c.1 c.2.1 = epochIn epochs c.1 := by
  have hcond := hacc.2 _ (mem_operations hc)
  have hcond' := (Bool.and_eq_true_iff.mp hcond).1
  change ((Write.attributes (spendRow t c.1 c.2.1)).epoch.all _) = true at hcond'
  unfold epochOf at hread ⊢
  cases hepoch : (Write.attributes (spendRow t c.1 c.2.1)).epoch with
  | none =>
      rw [hepoch] at hread
      exact (Nat.le_zero.mp hread).symm
  | some e =>
      rw [hepoch] at hcond'
      simpa using hcond'

/-- An accepted reservation adds its amount to the counters that it names. -/
theorem row_of_reserve {r : ReserveRequest} {epochs : List (Scope × ℕ)}
    (hacc : t.Accepts (r.operations epochs)) (scope : Scope) (ident : String) :
    epochOf (t.applyAll (r.operations epochs)) scope ident = epochOf t scope ident ∧
      spendOf (t.applyAll (r.operations epochs)) scope ident = spendOf t scope ident +
        if ∃ c ∈ r.normalized, c.1 = scope ∧ c.2.1 = ident then r.reserved else 0 := by
  split_ifs with hnamed
  · obtain ⟨c, hc, rfl, rfl⟩ := hnamed
    have hrow : spendRow (t.applyAll (r.operations epochs)) c.1 c.2.1 =
        some (Write.add (spendRow t c.1 c.2.1) r.reserved) :=
      Table.lookup_applyAll_of_mem hacc.1 (mem_operations hc)
    simp [epochOf, spendOf, hrow]
  · have hrow : spendRow (t.applyAll (r.operations epochs)) scope ident =
        spendRow t scope ident := by
      refine spendRow_of_notMem fun hmem ↦ ?_
      obtain ⟨w, hw, hkey⟩ := List.mem_map.mp hmem
      rcases List.mem_cons.mp hw with rfl | hw
      · cases hkey
      · obtain ⟨c, hc, rfl⟩ := List.mem_map.mp hw
        cases hkey
        exact hnamed ⟨c, hc, rfl, rfl⟩
    rw [add_zero]
    exact ⟨epochOf_congr hrow, spendOf_congr hrow⟩

/-- What an accepted finalization finds. -/
theorem marker_of_finalize {f : FinalizeRequest} {m : Marker}
    {reservationEpochs : List (Scope × ℕ)} {states : List (Scope × SpendCounterState)}
    {crossed : List ℚ} (hmarker : markerAt t f.markerKey = some m)
    (hacc : t.Accepts (f.transaction reservationEpochs states crossed)) :
    m.state = .reserved ∧ m.reservationSignature = f.normalized ∧
      m.settlementState = some .reported ∧ m.settlementAmount = some f.actual := by
  have hcond := hacc.2 _ List.mem_cons_self
  change (Option.any _ (markerAt t f.markerKey)) = true at hcond
  rw [hmarker] at hcond
  exact of_decide_eq_true hcond

theorem mem_finalize {f : FinalizeRequest} {reservationEpochs : List (Scope × ℕ)}
    {states : List (Scope × SpendCounterState)}
    {crossed : List ℚ} {w : Write}
    (hw : w ∈ f.transaction reservationEpochs states crossed) :
    w = .finalizeMarker f.markerKey.scope f.markerKey.ident f.markerKey.request f.normalized
        f.actual f.expiresAt (states.lookup .quota) ∨
      (∃ c ∈ f.normalized, f.delta ≠ 0 ∧ epochIn (epochsOf states) c.1 = epochIn reservationEpochs c.1 ∧
        w = .reconcileCounter c.1 c.2.1 (epochIn reservationEpochs c.1) f.reserved f.delta) ∨
      ∃ ident epoch pct, w = .putAlert .quota ident epoch pct := by
  rcases List.mem_append.mp hw with hw | hw
  · rcases List.mem_cons.mp hw with rfl | hw
    · exact .inl rfl
    · split_ifs at hw with hdelta
      · obtain ⟨c, hc, rfl⟩ := List.mem_map.mp hw
        obtain ⟨hc, hepoch⟩ := List.mem_filter.mp hc
        exact .inr (.inl ⟨c, hc, hdelta, of_decide_eq_true hepoch, rfl⟩)
      · cases hw
  · unfold FinalizeRequest.alertOperations at hw
    split at hw
    · cases hw
    · obtain ⟨threshold, -, rfl⟩ := List.mem_map.mp hw
      exact .inr (.inr ⟨_, _, _, rfl⟩)

/-- A counter that an accepted finalization changes is in the epoch it expects. -/
theorem epochOf_eq_of_reconcile {scope : Scope} {ident : String} {expectedEpoch : ℕ}
    {reserved delta : ℚ} {ws : List Write} (hacc : t.Accepts ws)
    (hw : .reconcileCounter scope ident expectedEpoch reserved delta ∈ ws) :
    epochOf t scope ident = expectedEpoch := by
  have hcond := (Bool.and_eq_true_iff.mp (hacc.2 _ hw)).2
  change ((Write.attributes (spendRow t scope ident)).epoch == some expectedEpoch ||
    (Write.attributes (spendRow t scope ident)).epoch == none && expectedEpoch == 0) = true at hcond
  unfold epochOf
  cases hepoch : (Write.attributes (spendRow t scope ident)).epoch with
  | none =>
      rw [hepoch] at hcond
      have hzero : expectedEpoch = 0 := by simpa using hcond
      exact hzero.symm
  | some e =>
      rw [hepoch] at hcond
      simpa using hcond

/-- An accepted finalization adds its difference to the counters that are still
in the epoch of the reservation. -/
theorem row_of_finalize {f : FinalizeRequest} {reservationEpochs : List (Scope × ℕ)}
    {states : List (Scope × SpendCounterState)}
    {crossed : List ℚ}
    (hacc : t.Accepts (f.transaction reservationEpochs states crossed))
    (hread : ∀ c ∈ f.normalized, epochOf t c.1 c.2.1 = epochIn reservationEpochs c.1 →
      epochIn (epochsOf states) c.1 = epochIn reservationEpochs c.1) (scope : Scope) (ident : String) :
    epochOf (t.applyAll (f.transaction reservationEpochs states crossed)) scope ident = epochOf t scope ident ∧
      spendOf (t.applyAll (f.transaction reservationEpochs states crossed)) scope ident = spendOf t scope ident +
        if (∃ c ∈ f.normalized, c.1 = scope ∧ c.2.1 = ident) ∧
          epochIn reservationEpochs scope = epochOf t scope ident then f.delta else 0 := by
  by_cases hnamed : (∃ c ∈ f.normalized, c.1 = scope ∧ c.2.1 = ident) ∧
    epochIn reservationEpochs scope = epochOf t scope ident ∧ f.delta ≠ 0
  · obtain ⟨⟨c, hc, rfl, rfl⟩, hepoch, hdelta⟩ := hnamed
    rw [if_pos ⟨⟨c, hc, rfl, rfl⟩, hepoch⟩]
    have hmem : Write.reconcileCounter c.1 c.2.1 (epochIn reservationEpochs c.1) f.reserved
        f.delta ∈ f.transaction reservationEpochs states crossed := by
      refine List.mem_append_left _ (List.mem_cons_of_mem _ ?_)
      rw [if_pos hdelta]
      refine List.mem_map.mpr ⟨c, List.mem_filter.mpr ⟨hc, ?_⟩, rfl⟩
      exact decide_eq_true (hread c hc hepoch.symm)
    have hrow : spendRow (t.applyAll (f.transaction reservationEpochs states crossed)) c.1 c.2.1 =
        some (Write.add (spendRow t c.1 c.2.1) f.delta) :=
      Table.lookup_applyAll_of_mem (S := schema) hacc.1 hmem
    simp [epochOf, spendOf, hrow]
  · have hzero : (if (∃ c ∈ f.normalized, c.1 = scope ∧ c.2.1 = ident) ∧
        epochIn reservationEpochs scope = epochOf t scope ident then f.delta else 0) = 0 := by
      split_ifs with h
      · by_contra hdelta
        exact hnamed ⟨h.1, h.2, hdelta⟩
      · rfl
    have hrow : spendRow (t.applyAll (f.transaction reservationEpochs states crossed)) scope ident =
        spendRow t scope ident := by
      refine spendRow_of_notMem fun hmem ↦ ?_
      obtain ⟨w, hw, hkey⟩ := List.mem_map.mp hmem
      rcases mem_finalize hw with rfl | ⟨c, hc, hdelta, -, rfl⟩ | ⟨_, _, _, rfl⟩
      · cases hkey
      · have hepoch := epochOf_eq_of_reconcile hacc hw
        cases hkey
        exact hnamed ⟨⟨c, hc, rfl, rfl⟩, hepoch.symm, hdelta⟩
      · cases hkey
    rw [hzero, add_zero]
    exact ⟨epochOf_congr hrow, spendOf_congr hrow⟩

theorem addedBy_of_epoch_lt {scope : Scope} {ident : String} {epoch : ℕ}
    (h : epochOf t scope ident < epoch) (w : Write) : addedBy t scope ident epoch w = 0 := by
  unfold addedBy
  split
  · exact if_neg fun hw ↦ h.ne hw.2.2
  · rfl

theorem addedBy_nonneg {ws : List Write} (h : Proper ok t ws) (scope : Scope) (ident : String)
    (epoch : ℕ) : ∀ w ∈ ws, 0 ≤ addedBy t scope ident epoch w := by
  intro w hw
  cases h with
  | reserve r epochs hok haffordable hscopes hread =>
      rcases List.mem_cons.mp hw with rfl | hw
      · exact le_rfl
      · obtain ⟨c, -, rfl⟩ := List.mem_map.mp hw
        exact le_rfl
  | report f hvalid =>
      obtain rfl := List.mem_singleton.mp hw
      exact le_rfl
  | finalize f m reservationEpochs states crossed =>
      rcases mem_finalize hw with rfl | ⟨c, -, -, -, rfl⟩ | ⟨_, _, _, rfl⟩
      · exact le_rfl
      · exact le_rfl
      · exact le_rfl
  | addSpend scope ident value cost hcost =>
      obtain rfl := List.mem_singleton.mp hw
      dsimp only [addedBy]
      split_ifs
      · exact hcost
      · exact le_rfl
  | reset counters =>
      obtain ⟨c, -, rfl⟩ := List.mem_map.mp hw
      exact le_rfl

/-- What is left to check of one commit: the marker that it writes, and the spend. -/
theorem Ledger.step {ws : List Write} (h : Ledger ok log t) (hproper : Proper ok t ws)
    (hacc : t.Accepts ws)
    (hmarkers : ∀ k m, markerAt (t.applyAll ws) k = some m →
      markerAt t k = some m ∨ MarkerKept ok (t.applyAll ws) k m)
    (hspend : ∀ scope ident, spendOf (t.applyAll ws) scope ident =
      (ws.map (addedBy t scope ident (epochOf (t.applyAll ws) scope ident))).sum +
        added log scope ident (epochOf (t.applyAll ws) scope ident) +
        Table.total (charge scope ident (epochOf (t.applyAll ws) scope ident)) (t.applyAll ws)) :
    Ledger ok (⟨who, ws, t⟩ :: log) (t.applyAll ws) where
  markers k m hm := by
    rcases hmarkers k m hm with hold | hkept
    · exact (h.markers k m hold).mono fun scope ident ↦ epochOf_mono hacc scope ident
    · exact hkept
  future scope ident epoch hlt := by
    have hlt' := (epochOf_mono hacc scope ident).trans_lt hlt
    rw [added_cons, h.future scope ident epoch hlt', add_zero]
    exact sum_addedBy_eq_zero fun w _ ↦ addedBy_of_epoch_lt hlt' w
  nonneg scope ident epoch := by
    rw [added_cons]
    refine add_nonneg (List.sum_nonneg fun x hx ↦ ?_) (h.nonneg scope ident epoch)
    obtain ⟨w, hw, rfl⟩ := List.mem_map.mp hx
    exact addedBy_nonneg hproper scope ident epoch w hw
  spend scope ident := by
    rw [added_cons]
    exact hspend scope ident

theorem addedBy_operations {r : ReserveRequest} {epochs : List (Scope × ℕ)} {scope : Scope}
    {ident : String} {epoch : ℕ} :
    ((r.operations epochs).map (addedBy t scope ident epoch)).sum = 0 := by
  refine sum_addedBy_eq_zero fun w hw ↦ ?_
  rcases List.mem_cons.mp hw with rfl | hw
  · rfl
  · obtain ⟨c, -, rfl⟩ := List.mem_map.mp hw
    rfl

/-- Only the head of the list writes a marker. -/
theorem markerAt_cons {w : Write} {ws : List Write} {k₀ : MarkerKey} (hw : w.key = k₀.key)
    (h : ∀ v ∈ ws, ∀ k : MarkerKey, v.key ≠ k.key) {k : MarkerKey} (hk : k ≠ k₀) :
    markerAt (t.applyAll (w :: ws)) k = markerAt t k := by
  apply markerAt_of_notMem
  rw [List.map_cons, List.mem_cons, not_or]
  refine ⟨fun heq ↦ hk (MarkerKey.key_injective (heq.trans hw)), fun hmem ↦ ?_⟩
  obtain ⟨v, hv, hkey⟩ := List.mem_map.mp hmem
  exact h v hv k hkey

theorem key_of_reserveCounters (r : ReserveRequest) (epochs : List (Scope × ℕ)) :
    ∀ v ∈ r.normalized.map fun c ↦ Write.reserveCounter c.1 c.2.1 (epochIn epochs c.1) r.reserved
      (c.2.2.val - r.reserved), ∀ k : MarkerKey, v.key ≠ k.key := by
  intro v hv k hkey
  obtain ⟨c, -, rfl⟩ := List.mem_map.mp hv
  cases hkey

theorem Ledger.reserve (h : Ledger ok log t) {r : ReserveRequest} {epochs : List (Scope × ℕ)}
    (hproper : Proper ok t (r.operations epochs)) (hok : Requested ok r)
    (haffordable : r.impossibleScope = none)
    (hscopes : epochs.map Prod.fst = scopesOf r.normalized)
    (hread : ∀ c ∈ r.normalized, epochIn epochs c.1 ≤ epochOf t c.1 c.2.1)
    (hacc : t.Accepts (r.operations epochs)) :
    Ledger ok (⟨who, r.operations epochs, t⟩ :: log) (t.applyAll (r.operations epochs)) := by
  have hcounters := key_of_reserveCounters r epochs
  have hnone : markerAt t r.markerKey = none :=
    Option.isNone_iff_eq_none.mp (hacc.2 _ List.mem_cons_self)
  have hput : markerAt (t.applyAll (r.operations epochs)) r.markerKey = some (r.marker epochs) :=
    Table.lookup_applyAll_of_mem (S := schema) hacc.1 List.mem_cons_self
  refine h.step hproper hacc (fun k m hm ↦ ?_) fun scope ident ↦ ?_
  · rcases eq_or_ne k r.markerKey with rfl | hk
    · obtain rfl := Option.some.inj (hput.symm.trans hm)
      refine .inr ⟨⟨r, hok, rfl, rfl, rfl, rfl⟩, hok.valid.canonical, hok.valid.markerKey,
        hok.valid.positive, fun c hc ↦ ?_, ⟨epochs, rfl, hscopes⟩, fun c hc ↦ ?_,
        ⟨r.reserved, rfl, hok.valid.positive.le, .inl rfl, fun _ ↦ rfl⟩, fun hf ↦ by cases hf⟩
      · have hfind := List.find?_eq_none.mp (Option.map_eq_none_iff.mp haffordable) c hc
        exact not_lt.mp (of_decide_eq_false (Bool.eq_false_of_not_eq_true hfind))
      · exact (hread c hc).trans (epochOf_mono hacc _ _)
    · exact .inl ((markerAt_cons rfl hcounters hk).symm.trans hm)
  · obtain ⟨hepoch, hspend⟩ := row_of_reserve hacc scope ident
    have htotal : Table.total (charge scope ident (epochOf t scope ident))
        (t.applyAll (r.operations epochs)) = _ + ((markerAt (t.applyAll (r.operations epochs))
          r.markerKey).elim 0 _ - (markerAt t r.markerKey).elim 0 _) :=
      total_charge_cons rfl hacc hcounters
    have hshare : share scope ident (epochOf t scope ident) (r.marker epochs) =
        if ∃ c ∈ r.normalized, c.1 = scope ∧ c.2.1 = ident then r.reserved else 0 := by
      refine if_congr ⟨fun hn ↦ hn.1, fun hn ↦ ⟨hn, ?_⟩⟩ rfl rfl
      obtain ⟨c, hc, rfl, rfl⟩ := hn
      exact (epochOf_eq_of_reserve hacc hc (hread c hc)).symm
    rw [hput, hnone, Option.elim_some, Option.elim_none, sub_zero, hshare] at htotal
    rw [hepoch, hspend, addedBy_operations, h.spend scope ident, htotal]
    ring

theorem spendRow_of_report (f : FinalizeRequest) (scope : Scope) (ident : String) :
    spendRow (t.applyAll [f.intent]) scope ident = spendRow t scope ident :=
  spendRow_of_notMem (by simp [FinalizeRequest.intent, Write.key])

/-- The settlement intent changes no charge. -/
theorem Ledger.report (h : Ledger ok log t) {f : FinalizeRequest} (hproper : Proper ok t [f.intent])
    (hvalid : f.Valid) (hacc : t.Accepts [f.intent]) :
    Ledger ok (⟨who, [f.intent], t⟩ :: log) (t.applyAll [f.intent]) := by
  have hcond := hacc.2 _ List.mem_cons_self
  change (Option.any _ (markerAt t f.markerKey)) = true at hcond
  obtain ⟨m, hm, -⟩ := Option.any_eq_true _ _ |>.mp hcond
  have hput : markerAt (t.applyAll [f.intent]) f.markerKey =
      (markerAt t f.markerKey).map fun m ↦ m.report f.actual :=
    Table.lookup_applyAll_of_mem (S := schema) hacc.1 List.mem_cons_self
  have hkept := h.markers _ _ hm
  refine h.step hproper hacc (fun k m' hm' ↦ ?_) fun scope ident ↦ ?_
  · rcases eq_or_ne k f.markerKey with rfl | hk
    · rw [hput, hm] at hm'
      obtain rfl := Option.some.inj hm'
      exact .inr { (hkept.mono fun scope ident ↦ epochOf_mono hacc scope ident) with
        settlement := ⟨f.actual, rfl, hvalid.actual_nonneg, .inr rfl, fun he ↦ by cases he⟩ }
    · exact .inl ((markerAt_cons rfl (by simp) hk).symm.trans hm')
  · have hrow := spendRow_of_report (t := t) f scope ident
    have htotal : Table.total (charge scope ident (epochOf t scope ident))
        (t.applyAll [f.intent]) = _ + ((markerAt (t.applyAll [f.intent]) f.markerKey).elim 0 _ -
          (markerAt t f.markerKey).elim 0 _) :=
      total_charge_cons rfl hacc (by simp)
    have hshare : share scope ident (epochOf t scope ident) (m.report f.actual) =
        share scope ident (epochOf t scope ident) m := rfl
    rw [hput, hm, Option.map_some, Option.elim_some, Option.elim_some, hshare, sub_self,
      add_zero] at htotal
    rw [epochOf_congr hrow, spendOf_congr hrow, h.spend scope ident, htotal]
    simp [addedBy, FinalizeRequest.intent]

theorem key_of_finalize_tail {f : FinalizeRequest} {reservationEpochs : List (Scope × ℕ)}
    {states : List (Scope × SpendCounterState)} {crossed : List ℚ}
    (hacc : t.Accepts (f.transaction reservationEpochs states crossed)) :
    ∀ v ∈ (f.transaction reservationEpochs states crossed).tail, ∀ k : MarkerKey,
      v.key ≠ k.key := by
  intro v hv k hkey
  have hnd := (List.nodup_cons.mp hacc.1).1
  rcases mem_finalize (List.mem_of_mem_tail hv) with rfl | ⟨c, -, -, -, rfl⟩ | ⟨_, _, _, rfl⟩
  · exact hnd (List.mem_map_of_mem hv)
  · cases hkey
  · cases hkey

/-- A finalization replaces the reserved amount by the actual cost, in the
counter and in the books, where the epoch is still the recorded one. -/
theorem Ledger.finalize (h : Ledger ok log t) {f : FinalizeRequest} {m : Marker}
    {reservationEpochs : List (Scope × ℕ)}
    {states : List (Scope × SpendCounterState)} {crossed : List ℚ}
    (hproper : Proper ok t (f.transaction reservationEpochs states crossed))
    (hvalid : f.Valid) (hmarker : markerAt t f.markerKey = some m)
    (hmatches : f.Matches m) (hepochs : m.reservationEpochs = some reservationEpochs)
    (hread : ∀ c ∈ f.normalized, epochOf t c.1 c.2.1 = epochIn reservationEpochs c.1 →
      epochIn (epochsOf states) c.1 = epochIn reservationEpochs c.1)
    (hacc : t.Accepts (f.transaction reservationEpochs states crossed)) :
    Ledger ok (⟨who, f.transaction reservationEpochs states crossed, t⟩ :: log)
      (t.applyAll (f.transaction reservationEpochs states crossed)) := by
  obtain ⟨hstate, hsignature, -, -⟩ := marker_of_finalize hmarker hacc
  have hput : markerAt (t.applyAll (f.transaction reservationEpochs states crossed)) f.markerKey =
      (markerAt t f.markerKey).map fun m ↦ m.finalize f.actual f.expiresAt :=
    Table.lookup_applyAll_of_mem (S := schema) hacc.1 List.mem_cons_self
  rw [hmarker, Option.map_some] at hput
  have hrest := key_of_finalize_tail hacc
  have hkept := h.markers _ _ hmarker
  refine h.step hproper hacc (fun k m' hm' ↦ ?_) fun scope ident ↦ ?_
  · rcases eq_or_ne k f.markerKey with rfl | hk
    · obtain rfl := Option.some.inj (hput.symm.trans hm')
      exact .inr { (hkept.mono fun scope ident ↦ epochOf_mono hacc scope ident) with
        finalized := fun _ ↦ ⟨f.actual, rfl, hvalid.actual_nonneg⟩ }
    · exact .inl ((markerAt_cons rfl hrest hk).symm.trans hm')
  · obtain ⟨hepoch, hspend⟩ := row_of_finalize hacc hread scope ident
    have htotal : Table.total (charge scope ident (epochOf t scope ident))
        (t.applyAll (f.transaction reservationEpochs states crossed)) = _ +
        ((markerAt (t.applyAll (f.transaction reservationEpochs states crossed)) f.markerKey).elim 0 _ -
            (markerAt t f.markerKey).elim 0 _) :=
      total_charge_cons rfl hacc hrest
    have hadded : ((f.transaction reservationEpochs states crossed).map
          (addedBy t scope ident (epochOf t scope ident))).sum = 0 := by
      refine sum_addedBy_eq_zero fun w hw ↦ ?_
      rcases mem_finalize hw with rfl | ⟨c, -, -, -, rfl⟩ | ⟨_, _, _, rfl⟩
      · rfl
      · rfl
      · rfl
    have hshare : share scope ident (epochOf t scope ident) (m.finalize f.actual f.expiresAt) -
        share scope ident (epochOf t scope ident) m =
        if (∃ c ∈ f.normalized, c.1 = scope ∧ c.2.1 = ident) ∧
          epochIn reservationEpochs scope = epochOf t scope ident then f.delta else 0 := by
      have hcharge : markerCharge (m.finalize f.actual f.expiresAt) - markerCharge m = f.delta := by
        simp [markerCharge, Marker.finalize, hstate, hmatches.2.2, FinalizeRequest.delta]
      have hnames : Names m scope ident ∧ recordedEpoch m scope = epochOf t scope ident ↔
          (∃ c ∈ f.normalized, c.1 = scope ∧ c.2.1 = ident) ∧
            epochIn reservationEpochs scope = epochOf t scope ident := by
        rw [Names, hsignature, recordedEpoch, hepochs, Option.getD_some]
      by_cases hc : Names m scope ident ∧ recordedEpoch m scope = epochOf t scope ident
      · rw [if_pos (hnames.mp hc), ← hcharge, share, share, if_pos hc]
        exact congrArg (· - _) (if_pos hc)
      · rw [if_neg (fun hn ↦ hc (hnames.mpr hn)), share, share, if_neg hc, sub_zero]
        exact if_neg hc
    rw [hput, hmarker, Option.elim_some, Option.elim_some, hshare] at htotal
    rw [hepoch, hspend, hadded, h.spend scope ident, htotal]
    ring

/-- An addition is booked in the current epoch. -/
theorem Ledger.addSpend (h : Ledger ok log t) {scope : Scope} {ident : String} {cost : ℚ}
    (hproper : Proper ok t [.addSpend scope ident cost])
    (hacc : t.Accepts [.addSpend scope ident cost]) :
    Ledger ok (⟨who, [.addSpend scope ident cost], t⟩ :: log)
      (t.applyAll [.addSpend scope ident cost]) := by
  have hkey : ∀ w ∈ [Write.addSpend scope ident cost], ∀ k : MarkerKey, w.key ≠ k.key := by
    intro w hw k hk
    obtain rfl := List.mem_singleton.mp hw
    cases hk
  refine h.step hproper hacc (fun k m hm ↦ .inl ?_) fun scope' ident' ↦ ?_
  · exact (markerAt_of_no_marker hkey k).symm.trans hm
  · rw [total_charge_of_no_marker hacc hkey]
    by_cases hsame : scope' = scope ∧ ident' = ident
    · obtain ⟨rfl, rfl⟩ := hsame
      have hrow : spendRow (t.applyAll [.addSpend scope' ident' cost]) scope' ident' =
          some (Write.add (spendRow t scope' ident') cost) :=
        Table.lookup_applyAll_of_mem (S := schema) hacc.1 List.mem_cons_self
      have hepoch : epochOf (t.applyAll [.addSpend scope' ident' cost]) scope' ident' =
          epochOf t scope' ident' := by simp [epochOf, hrow]
      have hspend : spendOf (t.applyAll [.addSpend scope' ident' cost]) scope' ident' =
          spendOf t scope' ident' + cost := by simp [spendOf, hrow]
      rw [hepoch, hspend, h.spend scope' ident']
      simp only [List.map_cons, List.map_nil, List.sum_singleton, addedBy, true_and, if_true]
      ring
    · have hrow : spendRow (t.applyAll [.addSpend scope ident cost]) scope' ident' =
          spendRow t scope' ident' := by
        refine spendRow_of_notMem fun hmem ↦ hsame ?_
        have hk := List.mem_singleton.mp hmem
        cases hk
        exact ⟨rfl, rfl⟩
      have hadded : addedBy t scope' ident' (epochOf t scope' ident')
          (.addSpend scope ident cost) = 0 :=
        if_neg fun hc ↦ hsame ⟨hc.1.symm, hc.2.1.symm⟩
      rw [epochOf_congr hrow, spendOf_congr hrow, h.spend scope' ident']
      simp [hadded]

theorem key_of_reset (counters : List (Scope × String)) :
    ∀ w ∈ counters.map fun c ↦ Write.resetCounter c.1 c.2, ∀ k : MarkerKey, w.key ≠ k.key := by
  intro w hw k hk
  obtain ⟨c, -, rfl⟩ := List.mem_map.mp hw
  cases hk

/-- A reset starts a new epoch with no spend, or leaves a counter alone. -/
theorem row_of_reset {counters : List (Scope × String)}
    (hacc : t.Accepts (counters.map fun c ↦ .resetCounter c.1 c.2)) (scope : Scope)
    (ident : String) :
    (epochOf (t.applyAll (counters.map fun c ↦ .resetCounter c.1 c.2)) scope ident =
        epochOf t scope ident + 1 ∧
      spendOf (t.applyAll (counters.map fun c ↦ .resetCounter c.1 c.2)) scope ident = 0) ∨
    ((scope, ident) ∉ counters ∧
      spendRow (t.applyAll (counters.map fun c ↦ .resetCounter c.1 c.2)) scope ident =
        spendRow t scope ident) := by
  by_cases hreset : (scope, ident) ∈ counters
  · have hrow : spendRow (t.applyAll (counters.map fun c ↦ .resetCounter c.1 c.2)) scope ident =
        some ⟨some 0, some (epochOf t scope ident + 1)⟩ :=
      Table.lookup_applyAll_of_mem (S := schema) (w := .resetCounter scope ident) hacc.1
        (List.mem_map.mpr ⟨_, hreset, rfl⟩)
    refine .inl ⟨?_, ?_⟩
    · simp [epochOf, hrow]
    · simp [spendOf, hrow]
  · refine .inr ⟨hreset, spendRow_of_notMem fun hmem ↦ hreset ?_⟩
    obtain ⟨w, hw, hk⟩ := List.mem_map.mp hmem
    obtain ⟨c, hc, rfl⟩ := List.mem_map.mp hw
    cases hk
    exact hc

/-- Nothing is booked ahead of time, so a new epoch starts empty. -/
theorem Ledger.reset (h : Ledger ok log t) {counters : List (Scope × String)}
    (hproper : Proper ok t (counters.map fun c ↦ .resetCounter c.1 c.2))
    (hacc : t.Accepts (counters.map fun c ↦ .resetCounter c.1 c.2)) :
    Ledger ok (⟨who, counters.map fun c ↦ .resetCounter c.1 c.2, t⟩ :: log)
      (t.applyAll (counters.map fun c ↦ .resetCounter c.1 c.2)) := by
  have hkey := key_of_reset counters
  refine h.step hproper hacc (fun k m hm ↦ .inl ?_) fun scope ident ↦ ?_
  · exact (markerAt_of_no_marker hkey k).symm.trans hm
  · have hadded : ∀ epoch, ((counters.map fun c ↦ Write.resetCounter c.1 c.2).map
        (addedBy t scope ident epoch)).sum = 0 := by
      refine fun epoch ↦ sum_addedBy_eq_zero fun w hw ↦ ?_
      obtain ⟨c, -, rfl⟩ := List.mem_map.mp hw
      rfl
    rw [total_charge_of_no_marker hacc hkey, hadded, zero_add]
    obtain ⟨hepoch, hspend⟩ | ⟨-, hrow⟩ := row_of_reset hacc scope ident
    · rw [hepoch, hspend, h.future _ _ _ (Nat.lt_succ_self _), zero_add]
      refine (Table.total_eq_zero fun k r hk ↦ ?_).symm
      cases k with
      | reservation scope' ident' request =>
          refine if_neg fun hnamed ↦ ?_
          obtain ⟨⟨c, hc, rfl, rfl⟩, hrecorded⟩ := hnamed
          have hpast := (h.markers ⟨scope', ident', request⟩ r hk).past c hc
          omega
      | total scope' ident' => rfl
      | alert scope' ident' epoch pct => rfl
    · rw [epochOf_congr hrow, spendOf_congr hrow, h.spend scope ident]

/-- The step lemma: a proper commit keeps the books in order. -/
theorem Ledger.commit {ws : List Write} (h : Ledger ok log t) (hproper : Proper ok t ws)
    (hacc : t.Accepts ws) : Ledger ok (⟨who, ws, t⟩ :: log) (t.applyAll ws) := by
  cases id hproper with
  | reserve r epochs hok haffordable hscopes hread =>
      exact h.reserve hproper hok haffordable hscopes hread hacc
  | report f hvalid => exact h.report hproper hvalid hacc
  | finalize f m reservationEpochs states crossed hvalid hmarker hmatches hepochs _ hread =>
      exact h.finalize hproper hvalid hmarker hmatches hepochs hread hacc
  | addSpend scope ident value cost => exact h.addSpend hproper hacc
  | reset counters => exact h.reset hproper hacc

end Commit

theorem ledger_empty : Ledger ok [] (∅ : Table schema) where
  markers k m hm := by cases hm
  future scope ident epoch _ := rfl
  nonneg scope ident epoch := le_rfl
  spend scope ident := (add_zero (0 : ℚ)).symm

/-- The run lemma: the books are in order after any proper commits. -/
theorem ledger_of_logged {ok : Call → Prop} {log : List (Commit schema)}
    {t : Table schema} (h : Logged log t) (hproper : ∀ c ∈ log, Proper ok c.before c.writes) :
    Ledger ok log t := by
  refine h.induction ledger_empty fun c l hsuffix hacc _ hl ↦ ?_
  exact hl.commit (hproper c (hsuffix.subset List.mem_cons_self)) hacc

end AxonGateway.Budget
