import AxonGateway.Spend.Gate

/-!
# What the budget gate sees

Undisturbed requests keep the local total at or below the shared counter.  A
request whose reservation another request reads and takes over too early is
counted twice.
-/

namespace AxonGateway.Spend.Gate

open Interleaving

theorem limit_le_of_isOverBudget {limit : ℚ} {alertThreshold : Option ℚ} {s : Slot}
    (h : (budgetStatus (some limit) alertThreshold s).isOverBudget = true) : limit ≤ s.total := by
  simpa [budgetStatus] using h

theorem Honest.of_le {s : State} (h : s.slot.total ≤ s.peak) : Honest s :=
  ⟨h, fun _ _ hover ↦ (limit_le_of_isOverBudget hover).trans h⟩

/-- Between requests the gateway has seen no more than the counter shows. -/
structure Inv (s : State) : Prop where
  slot_le : s.slot.total ≤ s.shared.total
  shared_le : s.shared.total ≤ s.peak
  apart : s.accounting = ∅ ∨ s.reading = ∅
  alone : ∀ i ∈ s.accounting, ∀ j ∈ s.accounting, i = j

/-- What the other requests leave as it is for request `i`. -/
structure Spares (i : ℕ) (s t : State) : Prop where
  accounting : i ∈ t.accounting ↔ i ∈ s.accounting
  reading : i ∈ t.reading ↔ i ∈ s.reading
  slot : i ∈ s.accounting → t.slot = s.slot
  shared : i ∈ s.accounting ∨ i ∈ s.reading → t.shared = s.shared

theorem Spares.refl (i : ℕ) (s : State) : Spares i s s :=
  ⟨Iff.rfl, Iff.rfl, fun _ ↦ rfl, fun _ ↦ rfl⟩

theorem Spares.trans {i : ℕ} {s t t' : State} (h : Spares i s t) (h' : Spares i t t') :
    Spares i s t' where
  accounting := h'.accounting.trans h.accounting
  reading := h'.reading.trans h.reading
  slot hi := (h'.slot (h.accounting.mpr hi)).trans (h.slot hi)
  shared hi := (h'.shared (hi.imp h.accounting.mpr h.reading.mpr)).trans (h.shared hi)

def protocol : Protocol State where
  inv := Inv
  rely := Spares
  refl := Spares.refl
  trans _ _ _ _ := Spares.trans

/-- The machine on which the requests of `gateway` run undisturbed. -/
abbrev machine : Machine Op Ret State := (gateway.restrict Undisturbed).machine

section Steps

variable {i : ℕ} {s t : State}

/-- The request neither reads nor accounts. -/
def Quiet (i : ℕ) (s : State) : Prop := i ∉ s.accounting ∧ i ∉ s.reading

theorem Quiet.spares (h : Quiet i s) (hs : Spares i s t) : Quiet i t :=
  ⟨fun hi ↦ h.1 (hs.accounting.mp hi), fun hi ↦ h.2 (hs.reading.mp hi)⟩

theorem inv_read (hinv : Inv s) (hfree : s.accounting = ∅) :
    Inv { s with reading := insert i s.reading } ∧
      ∀ j, j ≠ i → Spares j s { s with reading := insert i s.reading } := by
  refine ⟨⟨hinv.slot_le, hinv.shared_le, .inl hfree, hinv.alone⟩, fun j hj ↦ ?_⟩
  exact ⟨Iff.rfl, by simp [hj], fun _ ↦ rfl, fun _ ↦ rfl⟩

theorem inv_refresh (hinv : Inv s) {state : Option SpendCounterState}
    (hstate : ∀ st ∈ state, i ∈ s.reading ∧ st.total ≤ s.shared.total) :
    Inv { s with
        slot := CostTracker.refreshSpendState s.slot state
        reading := s.reading.erase i } ∧
      ∀ j, j ≠ i → Spares j s { s with
        slot := CostTracker.refreshSpendState s.slot state
        reading := s.reading.erase i } := by
  constructor
  · refine ⟨?_, hinv.shared_le, hinv.apart.imp_right fun h ↦ by simp [h], hinv.alone⟩
    cases state with
    | none => exact hinv.slot_le
    | some st => exact Slot.total_adopt_le _ _ hinv.slot_le (hstate st rfl).2
  · refine fun j hj ↦ ⟨Iff.rfl, by simp [hj], fun hacc ↦ ?_, fun _ ↦ rfl⟩
    cases state with
    | none => rfl
    | some st =>
        -- a value in hand means that nobody accounts
        rcases hinv.apart with h | h
        · simp [h] at hacc
        · simp [h] at hstate

theorem inv_reserve (hinv : Inv s) (hfree : s.accounting = ∅) (hread : s.reading = ∅)
    {amount : ℚ} (hamount : 0 ≤ amount) :
    Inv { s.store (s.shared.total + amount) with accounting := insert i s.accounting } ∧
      ∀ j, j ≠ i → Spares j s
        { s.store (s.shared.total + amount) with accounting := insert i s.accounting } := by
  constructor
  · refine ⟨?_, le_max_left _ _, .inr hread, ?_⟩
    · have hslot := hinv.slot_le
      simp only [State.store]
      linarith
    · simp [hfree]
  · intro j hj
    exact ⟨by simp [hj], Iff.rfl, by simp [hfree], by simp [hfree, hread]⟩

/-- What a request does to the counter and the slot while it accounts concerns
no other request. -/
theorem inv_account (hinv : Inv s) (hi : i ∈ s.accounting) (hreading : t.reading = s.reading)
    (hslot : t.slot.total ≤ t.shared.total) (hpeak : t.shared.total ≤ t.peak)
    (hacc : t.accounting = s.accounting ∨ t.accounting = s.accounting.erase i) :
    Inv t ∧ ∀ j, j ≠ i → Spares j s t := by
  have hread : s.reading = ∅ := hinv.apart.resolve_left fun h ↦ by simp [h] at hi
  have hsub : t.accounting ⊆ s.accounting := by
    rcases hacc with h | h
    · rw [h]
    · rw [h]
      exact Finset.erase_subset _ _
  constructor
  · exact ⟨hslot, hpeak, .inr (hreading.trans hread),
      fun j hj k hk ↦ hinv.alone j (hsub hj) k (hsub hk)⟩
  · intro j hj
    have hother : j ∉ s.accounting := fun h ↦ hj (hinv.alone j h i hi)
    refine ⟨⟨fun h ↦ hsub h, fun h ↦ absurd h hother⟩, by rw [hreading],
      fun h ↦ absurd h hother, fun h ↦ ?_⟩
    rw [hread] at h
    exact absurd h (by simp [hother])

end Steps

section Programs

variable {i : ℕ} {s : State}

theorem refresh_safe {Q : BudgetStatus → State → Prop} {state : Option SpendCounterState}
    {budgetLimit alertThreshold : Option ℚ} (hacc : i ∉ s.accounting)
    (hstate : ∀ st ∈ state, i ∈ s.reading ∧ st.total ≤ s.shared.total)
    (hQ : ∀ a t, Quiet i t → Q a t) :
    Safe machine protocol i Q
      (Prog.op (Op.refreshSpendState state) >>= fun slot ↦
        pure (budgetStatus budgetLimit alertThreshold slot)) s := by
  apply Safe.call
  rintro s₁ hs hinv r s₂ ⟨hexec, -⟩
  cases hexec
  have hstate' : ∀ st ∈ state, i ∈ s₁.reading ∧ st.total ≤ s₁.shared.total := by
    intro st hst
    obtain ⟨hi, hle⟩ := hstate st hst
    refine ⟨hs.reading.mpr hi, ?_⟩
    rwa [hs.shared (.inr hi)]
  obtain ⟨hinv', hspares⟩ := inv_refresh hinv hstate'
  refine ⟨hinv', hspares, Safe.done fun t hs' _ ↦ hQ _ _ (Quiet.spares ?_ hs')⟩
  exact ⟨fun h ↦ hacc (hs.accounting.mp h), Finset.notMem_erase i _⟩

theorem checkBudget_safe {budgetLimit alertThreshold : Option ℚ} (hquiet : Quiet i s) :
    Safe machine protocol i (fun _ t ↦ Quiet i t)
      (checkBudget budgetLimit alertThreshold) s := by
  unfold checkBudget
  split_ifs with hlimits
  · apply Safe.call
    rintro s₁ hs hinv r s₂ ⟨hexec, hok⟩
    have hacc : i ∉ s₁.accounting := fun h ↦ hquiet.1 (hs.accounting.mp h)
    cases hexec with
    | getSpendState =>
        obtain ⟨hinv', hspares⟩ := inv_read (i := i) hinv hok
        refine ⟨hinv', hspares, refresh_safe hacc ?_ fun _ _ h ↦ h⟩
        rintro st ⟨⟩
        exact ⟨Finset.mem_insert_self _ _, le_rfl⟩
    | getSpendState_failed =>
        refine ⟨hinv, fun j _ ↦ Spares.refl j _, refresh_safe hacc ?_ fun _ _ h ↦ h⟩
        rintro st ⟨⟩
  · refine refresh_safe hquiet.1 ?_ fun _ _ h ↦ h
    rintro st ⟨⟩

theorem adoptReservedSpend_safe {total : ℚ} (hi : i ∈ s.accounting)
    (htotal : total ≤ s.shared.total) :
    Safe machine protocol i (fun _ _ ↦ True) (Prog.op (Op.adoptReservedSpend total)) s := by
  apply Safe.call
  rintro s₁ hs hinv _ s₂ ⟨hexec, -⟩
  cases hexec
  rw [← hs.shared (.inl hi)] at htotal
  obtain ⟨hinv', hspares⟩ := inv_account hinv (hs.accounting.mpr hi)
    (t := ⟨s₁.shared, s₁.slot.raise total, s₁.peak, s₁.reading, s₁.accounting.erase i⟩)
    rfl (max_le htotal hinv.slot_le) hinv.shared_le (.inr rfl)
  exact ⟨hinv', hspares, Safe.done fun _ _ _ ↦ trivial⟩

/-- The charge enters the slot, and then the total that the counter had with it. -/
theorem recordUsage_safe {cost total : ℚ} (hi : i ∈ s.accounting)
    (hroom : s.slot.total + cost ≤ s.shared.total) (htotal : total ≤ s.shared.total) :
    Safe machine protocol i (fun _ _ ↦ True)
      (Prog.op (Op.recordUsage cost) >>= fun _ ↦ Prog.op (Op.adoptReservedSpend total)) s := by
  apply Safe.call
  rintro s₁ hs hinv _ s₂ ⟨hexec, -⟩
  cases hexec
  rw [← hs.shared (.inl hi)] at htotal
  rw [← hs.slot hi, ← hs.shared (.inl hi)] at hroom
  have hi₁ : i ∈ s₁.accounting := hs.accounting.mpr hi
  obtain ⟨hinv', hspares⟩ := inv_account hinv hi₁
    (t := { s₁ with slot := s₁.slot.add cost }) rfl hroom hinv.shared_le (.inl rfl)
  exact ⟨hinv', hspares, adoptReservedSpend_safe hi₁ htotal⟩

/-- A request that reserved more than the slot has seen accounts for its charge. -/
theorem trackCost_safe {r : Request} (hi : i ∈ s.accounting)
    (hroom : s.slot.total + r.estimate ≤ s.shared.total) :
    Safe machine protocol i (fun _ _ ↦ True) (trackCost r) s := by
  unfold trackCost
  split_ifs with hneg
  · exact Safe.done fun _ _ _ ↦ trivial
  have hcost : 0 ≤ r.cost := not_lt.mp hneg
  -- the counter comes down to the charge, which the slot does not hold yet
  apply Safe.call
  rintro s₁ hs hinv _ s₂ ⟨hexec, -⟩
  cases hexec
  rw [← hs.slot hi, ← hs.shared (.inl hi)] at hroom
  have hi₁ : i ∈ s₁.accounting := hs.accounting.mpr hi
  have hroom₁ : s₁.slot.total + r.cost ≤ s₁.shared.total + (r.cost - r.estimate) := by linarith
  obtain ⟨hinv₁, hspares₁⟩ := inv_account hinv hi₁
    (t := s₁.store (s₁.shared.total + (r.cost - r.estimate)))
    rfl ((le_add_of_nonneg_right hcost).trans hroom₁) (le_max_left _ s₁.peak) (.inl rfl)
  refine ⟨hinv₁, hspares₁, ?_⟩
  -- the value that is read has the charge in it
  apply Safe.read
  · rintro s₂ total s₃ ⟨hexec, -⟩
    cases hexec
    rfl
  rintro s₂ hs₂ hinv₂ total ⟨hexec, -⟩
  cases hexec
  have hroom₂ : s₂.slot.total + r.cost ≤ s₂.shared.total := by
    rw [hs₂.slot hi₁, hs₂.shared (.inl hi₁)]
    exact hroom₁
  exact recordUsage_safe (hs₂.accounting.mpr hi₁) hroom₂ le_rfl

theorem handle_safe (r : Request) (hquiet : Quiet i s) :
    Safe machine protocol i (fun _ _ ↦ True) (handle r) s := by
  unfold handle
  apply Safe.bind
  refine (checkBudget_safe hquiet).imp fun status s₁ hquiet₁ _ ↦ ?_
  by_cases hstop : (status.isOverBudget || decide (r.estimate ≤ 0)) = true
  · rw [if_pos hstop]
    exact Safe.done fun _ _ _ ↦ trivial
  rw [if_neg hstop]
  have hestimate : 0 < r.estimate := by
    by_contra h
    exact hstop (by simp [not_lt.mp h])
  apply Safe.call
  rintro s₂ hs hinv allowed s₃ ⟨hexec, hok⟩
  cases hexec with
  | reserveBudget =>
      obtain ⟨hinv', hspares⟩ := inv_reserve (i := i) hinv hok.1 hok.2 hestimate.le
      refine ⟨hinv', hspares, ?_⟩
      change Safe machine protocol i _ (trackCost r >>= fun _ ↦ pure status) _
      apply Safe.bind
      refine (trackCost_safe (Finset.mem_insert_self _ _) ?_).imp fun _ _ _ _ ↦ ?_
      · exact add_le_add_left hinv.slot_le r.estimate
      · exact Safe.done fun _ _ _ ↦ trivial
  | reserveBudget_denied =>
      exact ⟨hinv, fun j _ ↦ Spares.refl j _, Safe.done fun _ _ _ ↦ trivial⟩

end Programs

theorem obligations : Obligations (gateway.restrict Undisturbed) protocol Quiet
    (fun _ _ _ _ _ ↦ True) where
  pre_rely _ _ _ hs hquiet := hquiet.spares hs
  env s t hinv henv := by
    obtain rfl : s = t := henv
    exact ⟨hinv, fun i ↦ Spares.refl i s⟩
  start p c _ hquiet _ _ := handle_safe c hquiet

theorem inv_start {shared : SpendCounterState} (hshared : 0 ≤ shared.total) :
    Inv (start shared) :=
  ⟨hshared, le_rfl, .inl rfl, by simp [start]⟩

/-- However many requests run, as long as none is disturbed the gateway sees no
more spend than the shared counter has held. -/
theorem honest_of_undisturbed {shared : SpendCounterState} (hshared : 0 ≤ shared.total)
    {p : Pool Op Ret State Request BudgetStatus}
    (hp : Reachable (gateway.restrict Undisturbed) (start shared) p) : Honest p.state := by
  have hpool := Reachable.poolSafe obligations (inv_start hshared)
    (fun i ↦ by simp [Quiet, start]) hp
  exact Honest.of_le (hpool.inv.slot_le.trans hpool.inv.shared_le)

/-! ## Two runs -/

/-- A request that costs what it estimates, under a limit of 100. -/
def ten : Request := ⟨some 100, none, 100, 10, 10⟩

/-- Requests on a gateway over a new counter. -/
def playWhere (ok : ℕ → (o : Op) → State → Bool) (turns : List (Turn Request)) :
    Pool Op Ret State Request BudgetStatus :=
  Pool.playTurns handle (fun i o s ↦ if ok i o s then some (act i o s) else none) turns
    ⟨start ⟨0, 0⟩, []⟩

/-- Two requests one after the other. -/
def inTurn : Pool Op Ret State Request BudgetStatus :=
  playWhere (fun i o s ↦ decide (Undisturbed i o s))
    (.start ten :: List.replicate 7 (.next 0) ++ .start ten :: List.replicate 7 (.next 1))

theorem honest_inTurn : Honest inTurn.state ∧ inTurn.state.slot.total = 20 := by
  have hstart : 0 ≤ (⟨0, 0⟩ : SpendCounterState).total := le_rfl
  refine ⟨honest_of_undisturbed hstart ?_, by decide +kernel⟩
  refine Steps.playTurns (S := gateway.restrict Undisturbed) (fun i o s r t h ↦ ?_) _
    (fun _ _ _ ↦ trivial) _
  split_ifs at h with hok
  obtain ⟨rfl, rfl⟩ := Prod.mk.inj (Option.some.inj h)
  exact ⟨exec_act i o s, of_decide_eq_true hok⟩

/-- The second request checks the budget while the first has its estimate
reserved. -/
def overlapping : Pool Op Ret State Request BudgetStatus :=
  playWhere (fun _ _ _ ↦ true)
    (.start ten :: List.replicate 3 (.next 0) ++
      .start ten :: List.replicate 2 (.next 1) ++ List.replicate 3 (.next 0))

/-- The local total is 20, and a limit of 20 counts as reached, although the
shared counter never held more than 10. -/
theorem not_honest_overlapping :
    Reachable gateway (start ⟨0, 0⟩) overlapping ∧ overlapping.state.slot.total = 20 ∧
      overlapping.state.peak = 10 ∧ ¬ Honest overlapping.state := by
  refine ⟨?_, by decide +kernel, by decide +kernel, fun h ↦ ?_⟩
  · refine Steps.playTurns (S := gateway) (fun i o s r t h ↦ ?_) _ (fun _ _ _ ↦ trivial) _
    rw [if_pos rfl] at h
    obtain ⟨rfl, rfl⟩ := Prod.mk.inj (Option.some.inj h)
    exact exec_act i o s
  · have hle := h.total_le_peak
    revert hle
    decide +kernel

end AxonGateway.Spend.Gate
