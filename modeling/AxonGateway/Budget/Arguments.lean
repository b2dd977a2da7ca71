import AxonGateway.Budget.Operations

/-!
# Checked arguments

What the argument checks of the budget operations establish: distinct scopes in
canonical order, named counters, limits that are not negative, and the marker's
key as a function of the request id and the first counter.
-/

namespace AxonGateway.Budget

open Binary64

/-- Counters as `normalizeBudgetReservations` returns them. -/
structure Canonical (normalized : List Counter) : Prop where
  nonempty : normalized ≠ []
  nodup : (scopesOf normalized).Nodup
  sorted : normalized.Pairwise CounterLe
  named : ∀ c ∈ normalized, PyText.isBlank c.2.1 = false
  nonneg : ∀ c ∈ normalized, 0 ≤ c.2.2.val

theorem validateReservations_ok {reservations : List (Scope × String × PyNum)} {seen : List Scope}
    {cs : List Counter} (h : validateReservations seen reservations = .ok cs) :
    (scopesOf cs).Nodup ∧ (∀ scope ∈ scopesOf cs, scope ∉ seen) ∧
      ∀ c ∈ cs, PyText.isBlank c.2.1 = false ∧ 0 ≤ c.2.2.val := by
  induction reservations generalizing seen cs with
  | nil =>
      obtain rfl := Except.ok.inj h
      simp [scopesOf]
  | cons r rest ih =>
      obtain ⟨scope, ident, limit⟩ := r
      unfold validateReservations at h
      split at h
      · cases h
      next hblank =>
        split at h
        · cases h
        next hseen =>
          split at h
          · cases h
          next d hd =>
            split at h
            · cases h
            next hneg =>
              split at h
              · cases h
              next normalized hrest =>
                obtain rfl := Except.ok.inj h
                obtain ⟨hnd, hnew, hall⟩ := ih hrest
                refine ⟨?_, ?_, ?_⟩
                · rw [scopesOf, List.map_cons, List.nodup_cons]
                  exact ⟨fun hmem ↦ hnew scope hmem List.mem_cons_self, hnd⟩
                · rw [scopesOf, List.map_cons, List.forall_mem_cons]
                  exact ⟨hseen, fun s hs hs' ↦ hnew s hs (List.mem_cons_of_mem _ hs')⟩
                · rw [List.forall_mem_cons]
                  exact ⟨⟨by simpa using hblank, not_lt.mp hneg⟩, hall⟩

theorem normalize_canonical {reservations : List (Scope × String × PyNum)}
    {normalized : List Counter} (h : normalizeBudgetReservations reservations = .ok normalized) :
    Canonical normalized := by
  unfold normalizeBudgetReservations at h
  split at h
  · cases h
  · cases h
  next c cs hcs =>
    obtain rfl := Except.ok.inj h
    obtain ⟨hnd, -, hall⟩ := validateReservations_ok hcs
    have hperm := List.perm_insertionSort CounterLe (c :: cs)
    have : Std.Total CounterLe := ⟨fun a b ↦ le_total a.1.rank b.1.rank⟩
    have : IsTrans Counter CounterLe := ⟨fun a b c hab hbc ↦ le_trans hab hbc⟩
    refine ⟨?_, ?_, List.pairwise_insertionSort CounterLe _, ?_, ?_⟩
    · intro hnil
      have hlen := hperm.length_eq
      rw [hnil] at hlen
      simp at hlen
    · exact ((hperm.map Prod.fst).nodup_iff).mpr hnd
    · exact fun c hc ↦ (hall c (hperm.mem_iff.mp hc)).1
    · exact fun c hc ↦ (hall c (hperm.mem_iff.mp hc)).2

theorem mem_of_mem_validate {reservations : List (Scope × String × PyNum)} {seen : List Scope}
    {cs : List Counter} (h : validateReservations seen reservations = .ok cs) {c : Counter}
    (hc : c ∈ cs) : ∃ limit, (c.1, c.2.1, limit) ∈ reservations ∧ limit.toDec = some c.2.2 := by
  induction reservations generalizing seen cs with
  | nil =>
      obtain rfl := Except.ok.inj h
      cases hc
  | cons r rest ih =>
      obtain ⟨scope, ident, limit⟩ := r
      unfold validateReservations at h
      split at h
      · cases h
      · split at h
        · cases h
        · split at h
          · cases h
          next d hd =>
            split at h
            · cases h
            · split at h
              · cases h
              next normalized hrest =>
                obtain rfl := Except.ok.inj h
                rcases List.mem_cons.mp hc with rfl | hc
                · exact ⟨limit, List.mem_cons_self, hd⟩
                · obtain ⟨limit', hmem, hdec⟩ := ih hrest hc
                  exact ⟨limit', List.mem_cons_of_mem _ hmem, hdec⟩

/-- Every checked counter is one of the given ones. -/
theorem mem_of_mem_normalize {reservations : List (Scope × String × PyNum)}
    {normalized : List Counter} (h : normalizeBudgetReservations reservations = .ok normalized)
    {c : Counter} (hc : c ∈ normalized) :
    ∃ limit, (c.1, c.2.1, limit) ∈ reservations ∧ limit.toDec = some c.2.2 := by
  unfold normalizeBudgetReservations at h
  split at h
  · cases h
  · cases h
  next c' cs hcs =>
    obtain rfl := Except.ok.inj h
    exact mem_of_mem_validate hcs ((List.perm_insertionSort CounterLe _).mem_iff.mp hc)

/-- Sorting leaves canonical counters alone. -/
theorem Canonical.insertionSort {normalized : List Counter} (h : Canonical normalized) :
    normalized.insertionSort CounterLe = normalized :=
  List.Pairwise.insertionSort_eq h.sorted

/-- The key of the marker of canonical counters. -/
theorem budgetReservationKey_ok {requestId : String} {normalized : List Counter} {k : MarkerKey}
    (h : budgetReservationKey requestId normalized = .ok k) :
    ∃ c rest, normalized = c :: rest ∧ k = ⟨c.1, c.2.1, sha256 requestId⟩ := by
  unfold budgetReservationKey at h
  split at h
  · cases h
  · split at h
    · cases h
    next scope ident d rest =>
      exact ⟨(scope, ident, d), rest, rfl, (Except.ok.inj h).symm⟩

/-- The key of a marker determines the request id. -/
theorem requestId_eq_of_key {requestId requestId' : String} {normalized normalized' : List Counter}
    {k : MarkerKey} (h : budgetReservationKey requestId normalized = .ok k)
    (h' : budgetReservationKey requestId' normalized' = .ok k) : requestId = requestId' := by
  obtain ⟨_, _, -, rfl⟩ := budgetReservationKey_ok h
  obtain ⟨_, _, -, hk⟩ := budgetReservationKey_ok h'
  exact congrArg (fun k ↦ k.request.preimage) hk

theorem budgetAmount_nonneg {value : PyNum} {name : String} {amount : ℚ}
    (h : budgetAmount value name = .ok amount) : 0 ≤ amount := by
  unfold budgetAmount at h
  split at h
  · cases h
  · split at h
    · cases h
    next hneg =>
      obtain rfl := Except.ok.inj h
      exact not_lt.mp hneg

/-- The arguments of a reservation after the checks. -/
structure ReserveRequest.Valid (r : ReserveRequest) : Prop where
  canonical : Canonical r.normalized
  positive : 0 < r.reserved
  markerKey : budgetReservationKey r.requestId r.normalized = .ok r.markerKey

theorem prepareReserve_ok {requestId : String} {reservations : List (Scope × String × PyNum)}
    {amount : PyNum} {now leaseSeconds : ℤ} {r : ReserveRequest}
    (h : prepareReserve requestId reservations amount now leaseSeconds = .ok r) :
    r.Valid ∧ r.requestId = requestId ∧
      normalizeBudgetReservations reservations = .ok r.normalized ∧
      budgetAmount amount "reservation amount" = .ok r.reserved := by
  unfold prepareReserve at h
  cases hn : normalizeBudgetReservations reservations with
  | error e => simp [hn, bind, Except.bind] at h
  | ok normalized =>
      cases ha : budgetAmount amount "reservation amount" with
      | error e => simp [hn, ha, bind, Except.bind] at h
      | ok reserved =>
          by_cases hpos : reserved ≤ 0
          · simp [hn, ha, hpos, bind, Except.bind, throw, throwThe, MonadExceptOf.throw] at h
          by_cases hlease : leaseSeconds < 60
          · simp [hn, ha, hpos, hlease, bind, Except.bind, throw, throwThe, MonadExceptOf.throw] at h
          cases hk : budgetReservationKey requestId normalized with
          | error e => simp [hn, ha, hpos, hlease, hk, bind, Except.bind] at h
          | ok markerKey =>
              simp only [hn, ha, hpos, hlease, hk, bind, Except.bind, pure, Except.pure,
                if_false, Except.ok.injEq] at h
              subst h
              exact ⟨⟨normalize_canonical hn, not_le.mp hpos, hk⟩, rfl, rfl, rfl⟩

/-- The arguments of a finalization after the checks. -/
structure FinalizeRequest.Valid (f : FinalizeRequest) : Prop where
  canonical : Canonical f.normalized
  positive : 0 < f.reserved
  actual_nonneg : 0 ≤ f.actual
  markerKey : budgetReservationKey f.requestId f.normalized = .ok f.markerKey

theorem prepareFinalize_ok {requestId : String} {reservations : List (Scope × String × PyNum)}
    {reservedAmount actualCost : PyNum} {now : ℤ} {f : FinalizeRequest}
    (h : prepareFinalize requestId reservations reservedAmount actualCost now = .ok f) :
    f.Valid ∧ f.requestId = requestId ∧
      normalizeBudgetReservations reservations = .ok f.normalized ∧
      budgetAmount reservedAmount "reserved amount" = .ok f.reserved ∧
      budgetAmount actualCost "actual cost" = .ok f.actual := by
  unfold prepareFinalize at h
  cases hn : normalizeBudgetReservations reservations with
  | error e => simp [hn, bind, Except.bind] at h
  | ok normalized =>
      cases hr : budgetAmount reservedAmount "reserved amount" with
      | error e => simp [hn, hr, bind, Except.bind] at h
      | ok reserved =>
          cases ha : budgetAmount actualCost "actual cost" with
          | error e => simp [hn, hr, ha, bind, Except.bind] at h
          | ok actual =>
              by_cases hpos : reserved ≤ 0
              · simp [hn, hr, ha, hpos, bind, Except.bind, throw, throwThe,
                  MonadExceptOf.throw] at h
              cases hk : budgetReservationKey requestId normalized with
              | error e => simp [hn, hr, ha, hpos, hk, bind, Except.bind] at h
              | ok markerKey =>
                  simp only [hn, hr, ha, hpos, hk, bind, Except.bind, pure, Except.pure,
                    if_false, Except.ok.injEq] at h
                  subst h
                  exact ⟨⟨normalize_canonical hn, not_le.mp hpos, budgetAmount_nonneg ha, hk⟩,
                    rfl, rfl, rfl, rfl⟩

end AxonGateway.Budget
