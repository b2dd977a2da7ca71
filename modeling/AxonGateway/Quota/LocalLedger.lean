import AxonGateway.Quota.LocalBudget

/-!
# What the local spend figures stand for

Next to the enforcer runs a book of the reservations that were made, with the
reset period they were made in and what they cost in the end.  The figure of a
project is the sum over the book's entries of the current period as long as no
correction is lost at zero or charged to a period it does not belong to.
-/

namespace AxonGateway.Quota

open Budget

/-- The calls of the enforcer. -/
inductive Call where
  | reserve (args : ReserveArgs)
  | finalize (reservation : BudgetReservation) (actualCost : ℚ) (tenantId : Option String)
      (projectId : String)
  | release (reservation : BudgetReservation) (tenantId : Option String) (projectId : String)
  | reset (projectId : String) (tenantId : Option String)

/-- The enforcer after a call.  A call that raises changes nothing, and no caller
reports spend of its own. -/
def QuotaEnforcer.after (s : QuotaEnforcer) : Call → QuotaEnforcer
  | .reserve args =>
      match s.reserveBudget { args with projectCurrentSpend := 0, userCurrentSpend := 0 } with
      | .ok r => r.2
      | .error _ => s
  | .finalize reservation actualCost tenantId projectId =>
      match s.finalizeBudget reservation actualCost tenantId projectId with
      | .ok r => r.2
      | .error _ => s
  | .release reservation tenantId projectId =>
      match s.releaseBudget reservation tenantId projectId with
      | .ok r => r.2
      | .error _ => s
  | .reset projectId tenantId => match s.resetSpend projectId tenantId with
      | .ok r => r.2
      | .error _ => s

theorem QuotaEnforcer.after_finalize (s : QuotaEnforcer) (r : BudgetReservation) (a : ℚ)
    (tenantId : Option String) (projectId : String) :
    s.after (.finalize r a tenantId projectId) =
      if s.localReservations.lookup r.requestId = some (r, false) ∧
        ¬ tenantId.any PyText.isBlank then s.applyActual r a else s := by
  simp only [after, finalizeBudget, normalizeTenantId]
  by_cases hblank : tenantId.any PyText.isBlank = true
  · simp [hblank, bind, Except.bind]
  · simp only [hblank, Bool.false_eq_true, if_false, bind, Except.bind, pure, Except.pure,
      not_false_eq_true, and_true]
    cases hlookup : s.localReservations.lookup r.requestId with
    | none => simp
    | some record =>
        obtain ⟨existing, finalized⟩ := record
        by_cases heq : existing = r
        · cases finalized <;> simp [heq]
        · simp [heq]

theorem QuotaEnforcer.after_release (s : QuotaEnforcer) (r : BudgetReservation)
    (tenantId : Option String) (projectId : String) :
    s.after (.release r tenantId projectId) = s.after (.finalize r 0 tenantId projectId) := by
  simp only [after, releaseBudget]
  cases s.finalizeBudget r 0 tenantId projectId <;> rfl

/-- A reservation call does nothing, or takes over the caller's figures, or charges. -/
theorem QuotaEnforcer.reserveBudget_cases {s s' : QuotaEnforcer} {args : ReserveArgs}
    {d : QuotaDecision} (h : s.reserveBudget args = .ok (d, s')) :
    s' = s ∨ s.localReservations.lookup args.requestId = none ∧ 0 < args.estimatedCost ∧
      ∃ projectScope userScope s₁,
        s₁ = s.adopt projectScope userScope args.projectCurrentSpend args.userCurrentSpend ∧
        (s' = s₁ ∨ s₁.exceeded projectScope userScope args.estimatedCost
            (counters args projectScope userScope) = none ∧
          s' = s₁.charge args projectScope userScope
            { requestId := args.requestId
              counters := counters args projectScope userScope
              amount := args.estimatedCost }) := by
  simp only [reserveBudget, normalizeTenantId] at h
  generalize hp : tenantScopedProjectId args.tenantId args.projectId = projectScope at h
  by_cases hblank : args.tenantId.any PyText.isBlank = true
  · simp [hblank, bind, Except.bind] at h
  by_cases hlimits : (args.projectBudgetLimit.isNone && args.userBudgetLimit.isNone) = true
  · simp [hblank, hlimits, bind, Except.bind, pure, Except.pure] at h
    exact .inl h.2.symm
  by_cases hcost : args.estimatedCost ≤ 0
  · simp [hblank, hlimits, hcost, bind, Except.bind, pure, Except.pure] at h
    exact .inl h.2.symm
  cases huser : tenantScopedUserId args.tenantId args.userId with
  | error e => simp [hblank, hlimits, hcost, huser, bind, Except.bind] at h
  | ok userScope =>
      simp only [hblank, hlimits, hcost, huser, bind, Except.bind, pure, Except.pure, if_false,
        Bool.false_eq_true, hp, reserveLocked, Except.ok.injEq] at h
      cases hlookup : s.localReservations.lookup args.requestId with
      | some record =>
          simp only [hlookup] at h
          split at h <;> exact .inl (Prod.mk.inj h).2.symm
      | none =>
          refine .inr ⟨rfl, by linarith, projectScope, userScope, _, rfl, ?_⟩
          simp only [hlookup] at h
          split at h
          · exact .inl (Prod.mk.inj h).2.symm
          · next hexceeded => exact .inr ⟨hexceeded, (Prod.mk.inj h).2.symm⟩

/-! ## The book -/

/-- A reservation, the reset period of its project in which it was made, and
its actual cost once it is finalized. -/
structure Entry where
  reservation : BudgetReservation
  period : ℤ
  actual : Option ℚ := none

/-- The project counter of a reservation with its limit. -/
def BudgetReservation.projectCounter (r : BudgetReservation) : Option (String × ℚ) :=
  (r.counters.find? fun c ↦ decide (c.1 ≠ .user)).map Prod.snd

def QuotaEnforcer.period (s : QuotaEnforcer) (scope : String) : ℤ := s.spendEpochs.getD scope 0

/-- The entry of a reservation that is made now. -/
def QuotaEnforcer.entry (s : QuotaEnforcer) (r : BudgetReservation) : Entry where
  reservation := r
  period := (r.projectCounter.map fun c ↦ s.period c.1).getD 0

/-- The actual cost is written down for one request. -/
def Entry.settle (requestId : String) (actualCost : ℚ) (e : Entry) : Entry :=
  if e.reservation.requestId = requestId then { e with actual := some actualCost } else e

/-- The enforcer and the book, the newest entry first. -/
structure Ledger where
  enforcer : QuotaEnforcer := {}
  book : List Entry := []

namespace Ledger

/-- The request whose reservation a call touches, with the cost it reports. -/
def subject : Call → Option (String × ℚ)
  | .reserve args => some (args.requestId, 0)
  | .finalize reservation actualCost _ _ => some (reservation.requestId, actualCost)
  | .release reservation _ _ => some (reservation.requestId, 0)
  | .reset _ _ => none

/-- The book after a call, read off the enforcer's record of the request: a new
record is a new entry, a record that becomes finalized settles its entry. -/
def recordOf (s s' : QuotaEnforcer) (requestId : String) (cost : ℚ) (book : List Entry) :
    List Entry :=
  match s.localReservations.lookup requestId, s'.localReservations.lookup requestId with
  | none, some (r, _) => s.entry r :: book
  | some (_, false), some (_, true) => book.map (Entry.settle requestId cost)
  | _, _ => book

def step (l : Ledger) (c : Call) : Ledger where
  enforcer := l.enforcer.after c
  book := match subject c with
    | some (requestId, cost) => recordOf l.enforcer (l.enforcer.after c) requestId cost l.book
    | none => l.book

/-- The state after the calls, given with the newest first. -/
def run : List Call → Ledger
  | [] => {}
  | c :: cs => (run cs).step c

def spend (l : Ledger) (scope : String) : ℚ := l.enforcer.spendTracker.getD scope 0

def period (l : Ledger) (scope : String) : ℤ := l.enforcer.period scope

/-- The entry counts for the project in the given reset period. -/
def Counts (period : ℤ) (scope : String) (e : Entry) : Prop :=
  e.reservation.projectCounter.map Prod.fst = some scope ∧ e.period = period

instance (period : ℤ) (scope : String) (e : Entry) : Decidable (Counts period scope e) :=
  inferInstanceAs (Decidable (_ ∧ _))

/-- The actual cost of a finalized reservation, the amount of an outstanding one. -/
def cost (e : Entry) : ℚ := e.actual.getD e.reservation.amount

/-- The cost, where it did not go over the estimate. -/
def costWithinEstimate (e : Entry) : ℚ :=
  if cost e ≤ e.reservation.amount then cost e else 0

/-- The sum over the entries that count. -/
def sumOf (value : Entry → ℚ) (period : ℤ) (scope : String) (book : List Entry) : ℚ :=
  (book.map fun e ↦ if Counts period scope e then value e else 0).sum

/-- The figure of every project is the sum of the costs of its present period. -/
def Exact (l : Ledger) : Prop :=
  ∀ scope, l.spend scope = sumOf cost (l.period scope) scope l.book

/-- What was admitted in the present period up to some reservation stays within
the limit of that reservation. -/
def WithinLimits (l : Ledger) : Prop :=
  ∀ scope limit e older, e :: older <:+ l.book → Counts (l.period scope) scope e →
    e.reservation.projectCounter = some (scope, limit) →
      sumOf costWithinEstimate (l.period scope) scope (e :: older) ≤ limit

/-- The call finalizes the outstanding reservation `r` at the given cost. -/
def Settles (l : Ledger) (c : Call) (r : BudgetReservation) (actualCost : ℚ) : Prop :=
  l.enforcer.localReservations.lookup r.requestId = some (r, false) ∧
    match c with
    | .finalize r' cost tenantId _ => r' = r ∧ cost = actualCost ∧ ¬ tenantId.any PyText.isBlank
    | .release r' tenantId _ => r' = r ∧ 0 = actualCost ∧ ¬ tenantId.any PyText.isBlank
    | _ => False

/-- The correction is right where it is made: in the period of the reservation
it does not go below zero, in a later one it changes nothing. -/
def Corrects (l : Ledger) (c : Call) : Prop :=
  ∀ r actualCost scope limit, Settles l c r actualCost →
    r.projectCounter = some (scope, limit) →
      if ∃ e ∈ l.book, e.reservation = r ∧ e.period = l.period scope then
        r.amount ≤ l.spend scope + actualCost
      else actualCost = r.amount ∨ l.spend scope = 0 ∧ actualCost ≤ r.amount

/-! ## Sums over the book -/

theorem sumOf_cons (value : Entry → ℚ) (period : ℤ) (scope : String) (e : Entry)
    (book : List Entry) : sumOf value period scope (e :: book) =
      (if Counts period scope e then value e else 0) + sumOf value period scope book := by
  simp [sumOf]

theorem sumOf_eq_zero {value : Entry → ℚ} {period : ℤ} {scope : String} {book : List Entry}
    (h : ∀ e ∈ book, ¬ Counts period scope e) : sumOf value period scope book = 0 := by
  apply List.sum_eq_zero
  intro x hx
  obtain ⟨e, he, rfl⟩ := List.mem_map.mp hx
  exact if_neg (h e he)

theorem sumOf_le_sumOf {value value' : Entry → ℚ} {period : ℤ} {scope : String}
    {book : List Entry} (h : ∀ e ∈ book, value e ≤ value' e) :
    sumOf value period scope book ≤ sumOf value' period scope book := by
  apply List.sum_le_sum
  intro e he
  split
  · exact h e he
  · exact le_rfl

theorem counts_settle {period : ℤ} {scope requestId : String} {actualCost : ℚ} {e : Entry} :
    Counts period scope (e.settle requestId actualCost) ↔ Counts period scope e := by
  unfold Entry.settle
  split <;> rfl

theorem sumOf_map_settle_le {value : Entry → ℚ} {period : ℤ} {scope requestId : String}
    {actualCost : ℚ} {book : List Entry}
    (h : ∀ e ∈ book, value (e.settle requestId actualCost) ≤ value e) :
    sumOf value period scope (book.map (Entry.settle requestId actualCost)) ≤
      sumOf value period scope book := by
  rw [sumOf, sumOf, List.map_map]
  apply List.sum_le_sum
  intro e he
  simp only [Function.comp_apply, counts_settle]
  split
  · exact h e he
  · exact le_rfl

theorem map_settle_eq {requestId : String} {actualCost : ℚ} {book : List Entry}
    (h : ∀ e ∈ book, e.reservation.requestId ≠ requestId) :
    book.map (Entry.settle requestId actualCost) = book := by
  conv_rhs => rw [← List.map_id book]
  apply List.map_congr_left
  intro e he
  simp [Entry.settle, h e he]

/-- Settling the only entry of a request changes the sum by its own difference. -/
theorem sumOf_map_settle {value : Entry → ℚ} {period : ℤ} {scope requestId : String}
    {actualCost : ℚ} {book : List Entry}
    (hnd : (book.map fun e ↦ e.reservation.requestId).Nodup) {e : Entry} (he : e ∈ book)
    (hid : e.reservation.requestId = requestId) :
    sumOf value period scope (book.map (Entry.settle requestId actualCost)) =
      sumOf value period scope book +
        if Counts period scope e then value { e with actual := some actualCost } - value e
        else 0 := by
  induction book with
  | nil => simp at he
  | cons x book ih =>
      rw [List.map_cons, List.nodup_cons] at hnd
      rw [List.map_cons, sumOf_cons, sumOf_cons]
      rcases List.mem_cons.mp he with rfl | he
      · have hrest : book.map (Entry.settle requestId actualCost) = book := by
          apply map_settle_eq
          intro y hy heq
          exact hnd.1 (List.mem_map.mpr ⟨y, hy, heq.trans hid.symm⟩)
        rw [hrest]
        simp only [counts_settle]
        have hself : e.settle requestId actualCost = { e with actual := some actualCost } := by
          simp [Entry.settle, hid]
        rw [hself]
        split <;> ring
      · have hne : x.reservation.requestId ≠ requestId := by
          rintro rfl
          exact hnd.1 (List.mem_map.mpr ⟨e, he, hid⟩)
        rw [ih hnd.2 he]
        simp only [Entry.settle, hne, if_false]
        ring

/-! ## What a call does -/

/-- At most one project counter, then at most one user counter. -/
def Shaped (r : BudgetReservation) : Prop :=
  ∃ project user : Option (String × ℚ), r.counters =
    (project.map fun c ↦ (Scope.quota, c)).toList ++ (user.map fun c ↦ (Scope.user, c)).toList

theorem settle_counters {r : BudgetReservation} (hr : Shaped r) (delta : ℚ) (s : QuotaEnforcer) :
    (∀ scope, (r.counters.foldl (QuotaEnforcer.settle delta) s).spendTracker.getD scope 0 =
      if r.projectCounter.map Prod.fst = some scope then max 0 (s.spendTracker.getD scope 0 + delta)
      else s.spendTracker.getD scope 0) ∧
    (r.counters.foldl (QuotaEnforcer.settle delta) s).spendEpochs = s.spendEpochs ∧
    (r.counters.foldl (QuotaEnforcer.settle delta) s).localReservations = s.localReservations := by
  obtain ⟨project, user, hcounters⟩ := hr
  have hproject : r.projectCounter = project := by
    rw [BudgetReservation.projectCounter, hcounters]
    cases project <;> cases user <;> simp
  rw [hproject, hcounters]
  refine ⟨fun scope ↦ ?_, ?_, ?_⟩
  · cases project with
    | none => cases user <;> simp [QuotaEnforcer.settle]
    | some p =>
        have hcomm : (p.1 = scope) = (scope = p.1) := propext eq_comm
        cases user with
        | none =>
            simp only [QuotaEnforcer.settle, Dict.getD_insert, Option.map_some, Option.toList_some,
              Option.map_none, Option.toList_none, List.append_nil, List.foldl_cons,
              List.foldl_nil, reduceCtorEq, if_false, Option.some.injEq, hcomm]
            split
            · next h => rw [h]
            · rfl
        | some u =>
            simp only [QuotaEnforcer.settle, Dict.getD_insert, Option.map_some, Option.toList_some,
              List.cons_append, List.nil_append, List.foldl_cons, List.foldl_nil, reduceCtorEq,
              if_false, if_true, Option.some.injEq, hcomm]
            split
            · next h => rw [h]
            · rfl
  · cases project <;> cases user <;> simp [QuotaEnforcer.settle]
  · cases project <;> cases user <;> simp [QuotaEnforcer.settle]

/-- The bookkeeping that no call breaks. -/
structure WellKept (l : Ledger) : Prop where
  nodup : (l.book.map fun e ↦ e.reservation.requestId).Nodup
  recorded : ∀ e ∈ l.book, l.enforcer.localReservations.lookup e.reservation.requestId =
    some (e.reservation, e.actual.isSome)
  booked : ∀ id r finalized, l.enforcer.localReservations.lookup id = some (r, finalized) →
    r.requestId = id ∧ ∃ e ∈ l.book, e.reservation = r
  positive : ∀ e ∈ l.book, 0 < e.reservation.amount
  shaped : ∀ e ∈ l.book, Shaped e.reservation
  past : ∀ e ∈ l.book, ∀ scope, e.reservation.projectCounter.map Prod.fst = some scope →
    e.period ≤ l.period scope
  nonneg : ∀ scope, 0 ≤ l.spend scope

/-- The four things that a call can do. -/
inductive Effect (l : Ledger) (c : Call) (l' : Ledger) : Prop
  | idle (hnone : ∀ r a, ¬ Settles l c r a) (hspend : l'.spend = l.spend)
      (hperiod : l'.period = l.period)
      (hrecords : l'.enforcer.localReservations = l.enforcer.localReservations)
      (hbook : l'.book = l.book)
  | made (r : BudgetReservation) (hnone : ∀ r a, ¬ Settles l c r a)
      (hfresh : l.enforcer.localReservations.lookup r.requestId = none) (hshaped : Shaped r)
      (hpos : 0 < r.amount)
      (hlimit : ∀ scope limit, r.projectCounter = some (scope, limit) →
        l.spend scope + r.amount ≤ limit)
      (hspend : ∀ scope, l'.spend scope = l.spend scope +
        if r.projectCounter.map Prod.fst = some scope then r.amount else 0)
      (hperiod : l'.period = l.period)
      (hrecords : l'.enforcer.localReservations =
        l.enforcer.localReservations.insert r.requestId (r, false))
      (hbook : l'.book = l.enforcer.entry r :: l.book)
  | settled (r : BudgetReservation) (a : ℚ) (hsettles : Settles l c r a)
      (hspend : ∀ scope, l'.spend scope =
        if r.projectCounter.map Prod.fst = some scope then max 0 (l.spend scope + (a - r.amount))
        else l.spend scope)
      (hperiod : l'.period = l.period)
      (hrecords : l'.enforcer.localReservations =
        l.enforcer.localReservations.insert r.requestId (r, true))
      (hbook : l'.book = l.book.map (Entry.settle r.requestId a))
  | reset (scope₀ : String) (hnone : ∀ r a, ¬ Settles l c r a)
      (hspend : ∀ scope, l'.spend scope = if scope = scope₀ then 0 else l.spend scope)
      (hperiod : ∀ scope, l'.period scope =
        if scope = scope₀ then l.period scope + 1 else l.period scope)
      (hrecords : l'.enforcer.localReservations = l.enforcer.localReservations)
      (hbook : l'.book = l.book)

theorem recordOf_of_lookup_eq {s s' : QuotaEnforcer} {requestId : String} {c : ℚ}
    {book : List Entry}
    (h : s'.localReservations.lookup requestId = s.localReservations.lookup requestId) :
    recordOf s s' requestId c book = book := by
  rw [recordOf, h]
  rcases s.localReservations.lookup requestId with _ | ⟨r, _ | _⟩ <;> rfl

/-- A call that leaves the enforcer as it is leaves the book as it is. -/
theorem Effect.of_after_eq {l : Ledger} {c : Call} (hnone : ∀ r a, ¬ Settles l c r a)
    (hafter : l.enforcer.after c = l.enforcer) : Effect l c (l.step c) := by
  have hstep : l.step c = l := by
    rw [step, hafter]
    cases subject c with
    | none => rfl
    | some s => simp only [recordOf_of_lookup_eq]
  rw [hstep]
  exact .idle hnone rfl rfl rfl rfl

theorem not_settles_reserve (l : Ledger) (args : ReserveArgs) (r : BudgetReservation) (a : ℚ) :
    ¬ Settles l (.reserve args) r a := fun h ↦ h.2

theorem effect_reserve {l : Ledger} (h : WellKept l) (args : ReserveArgs) :
    Effect l (.reserve args) (l.step (.reserve args)) := by
  set args' : ReserveArgs := { args with projectCurrentSpend := 0, userCurrentSpend := 0 }
    with hargs
  have hnone := not_settles_reserve l args
  cases hres : l.enforcer.reserveBudget args' with
  | error e =>
      have hafter : l.enforcer.after (.reserve args) = l.enforcer := by
        simp only [QuotaEnforcer.after, ← hargs, hres]
      exact .of_after_eq hnone hafter
  | ok result =>
      obtain ⟨d, s'⟩ := result
      have hafter : l.enforcer.after (.reserve args) = s' := by
        simp only [QuotaEnforcer.after, ← hargs, hres]
      rcases QuotaEnforcer.reserveBudget_cases hres with
        rfl | ⟨hfresh, hcost, projectScope, userScope, s₁, hs₁, hcharge⟩
      · exact .of_after_eq hnone hafter
      have hadopt : ∀ scope, s₁.spendTracker.getD scope 0 = l.spend scope := by
        intro scope
        have hmax : max (l.enforcer.spendTracker.getD projectScope 0) 0 = l.spend projectScope :=
          max_eq_left (h.nonneg projectScope)
        simp only [hs₁, QuotaEnforcer.adopt, Dict.getD_insert, hargs, hmax]
        split
        · next heq => rw [heq]
        · rfl
      have hepochs : s₁.spendEpochs = l.enforcer.spendEpochs := by rw [hs₁]; rfl
      have hrecords : s₁.localReservations = l.enforcer.localReservations := by rw [hs₁]; rfl
      rcases hcharge with rfl | ⟨hexceeded, rfl⟩
      · refine .idle hnone ?_ ?_ ?_ ?_
        · funext scope
          rw [← hadopt scope, spend, step, hafter]
        · funext scope
          simp only [period, step, hafter, QuotaEnforcer.period, hepochs]
        · simp only [step, hafter, hrecords]
        · simp only [step, subject, hafter]
          exact recordOf_of_lookup_eq (by rw [hrecords])
      · set r : BudgetReservation :=
          { requestId := args'.requestId
            counters := counters args' projectScope userScope
            amount := args'.estimatedCost } with hr
        have hproject : r.projectCounter =
            args.projectBudgetLimit.map fun limit ↦ (projectScope, limit) := by
          simp only [BudgetReservation.projectCounter, hr, counters, hargs]
          cases args.projectBudgetLimit <;> cases args.userBudgetLimit <;> simp
        refine .made r hnone hfresh ?_ hcost ?_ ?_ ?_ ?_ ?_
        · refine ⟨args.projectBudgetLimit.map fun limit ↦ (projectScope, limit),
            args.userBudgetLimit.map fun limit ↦ (userScope, limit), ?_⟩
          simp only [hr, counters, hargs, Option.map_map]
          rfl
        · intro scope limit hcounter
          obtain ⟨limit', hlimit, heq⟩ := Option.map_eq_some_iff.mp (hproject.symm.trans hcounter)
          obtain ⟨rfl, rfl⟩ := Prod.mk.inj heq
          have hmem : (Scope.quota, projectScope, limit') ∈ counters args' projectScope userScope := by
            simp [counters, hargs, hlimit]
          have hle := List.find?_eq_none.mp hexceeded _ hmem
          simp only [QuotaEnforcer.current, reduceCtorEq, if_false, hadopt, decide_eq_true_eq,
            not_lt] at hle
          exact hle
        · intro scope
          have hcharged : (l.step (.reserve args)).spend scope =
              (s₁.charge args' projectScope userScope r).spendTracker.getD scope 0 := by
            rw [spend, step, hafter]
          rw [hcharged, hproject, QuotaEnforcer.charge, ← hadopt scope]
          cases hlimit : args.projectBudgetLimit with
          | none => simp
          | some limit =>
              simp only [hargs, hlimit, Option.isSome_some, if_true, Dict.getD_insert,
                Option.map_some, Option.some.injEq, @eq_comm _ projectScope scope, hr]
              split
              · next heq => rw [heq]
              · rw [add_zero]
        · funext scope
          simp only [period, step, hafter, QuotaEnforcer.period, QuotaEnforcer.charge, hepochs]
        · simp only [step, hafter, QuotaEnforcer.charge, hrecords]
          rfl
        · have hlookup : (s₁.charge args' projectScope userScope r).localReservations.lookup
              args.requestId = some (r, false) := by
            simp [QuotaEnforcer.charge, hargs]
          have hfresh' : l.enforcer.localReservations.lookup args.requestId = none := hfresh
          simp only [step, subject, hafter, recordOf, hfresh', hlookup]

theorem effect_finalize {l : Ledger} (h : WellKept l) {c : Call} {r : BudgetReservation} {a : ℚ}
    {tenantId : Option String} {projectId : String}
    (hafter : l.enforcer.after c = l.enforcer.after (.finalize r a tenantId projectId))
    (hsubject : subject c = some (r.requestId, a))
    (hsettles : ∀ r' a', Settles l c r' a' ↔
      l.enforcer.localReservations.lookup r'.requestId = some (r', false) ∧
        r = r' ∧ a = a' ∧ ¬ tenantId.any PyText.isBlank) :
    Effect l c (l.step c) := by
  rw [QuotaEnforcer.after_finalize] at hafter
  split_ifs at hafter with hcond
  · obtain ⟨hlookup, hblank⟩ := hcond
    obtain ⟨-, e, he, rfl⟩ := h.booked _ _ _ hlookup
    obtain ⟨hspend, hepochs, hrecords⟩ :=
      settle_counters (h.shaped e he) (a - e.reservation.amount) l.enforcer
    refine .settled e.reservation a ((hsettles _ _).mpr ⟨hlookup, rfl, rfl, hblank⟩) ?_ ?_ ?_ ?_
    · intro scope
      have happlied : (l.step c).spend scope =
          (l.enforcer.applyActual e.reservation a).spendTracker.getD scope 0 := by
        rw [spend, step, hafter]
      rw [happlied]
      exact hspend scope
    · funext scope
      simp only [period, step, hafter, QuotaEnforcer.period, QuotaEnforcer.applyActual, hepochs]
    · simp only [step, hafter, QuotaEnforcer.applyActual, hrecords]
    · simp only [step, hsubject, hafter, recordOf, hlookup, QuotaEnforcer.applyActual,
        AList.lookup_insert]
  · refine .of_after_eq ?_ hafter
    intro r' a' hs
    obtain ⟨hlookup, rfl, rfl, hblank⟩ := (hsettles _ _).mp hs
    exact hcond ⟨hlookup, hblank⟩

/-- Every call has one of the four effects. -/
theorem effect {l : Ledger} (h : WellKept l) (c : Call) : Effect l c (l.step c) := by
  cases c with
  | reserve args => exact effect_reserve h args
  | finalize r a tenantId projectId =>
      exact effect_finalize h rfl rfl fun r' a' ↦ Iff.rfl
  | release r tenantId projectId =>
      exact effect_finalize h (l.enforcer.after_release r tenantId projectId) rfl
        fun r' a' ↦ Iff.rfl
  | reset projectId tenantId =>
      by_cases hblank : tenantId.any PyText.isBlank = true
      · have hafter : l.enforcer.after (.reset projectId tenantId) = l.enforcer := by
          simp [QuotaEnforcer.after, QuotaEnforcer.resetSpend, normalizeTenantId, hblank, bind,
            Except.bind]
        exact .of_after_eq (fun r a hs ↦ hs.2) hafter
      · have hafter : l.enforcer.after (.reset projectId tenantId) =
            { l.enforcer with
              spendTracker := l.enforcer.spendTracker.erase
                (tenantScopedProjectId tenantId projectId)
              spendEpochs := l.enforcer.spendEpochs.insert
                (tenantScopedProjectId tenantId projectId)
                (l.enforcer.spendEpochs.getD (tenantScopedProjectId tenantId projectId) 0 + 1) } := by
          simp [QuotaEnforcer.after, QuotaEnforcer.resetSpend, normalizeTenantId, hblank, bind,
            Except.bind, pure, Except.pure]
        refine .reset (tenantScopedProjectId tenantId projectId) (fun r a hs ↦ hs.2) ?_ ?_
          (by simp only [step, hafter]) rfl
        · intro scope
          simp only [spend, step, hafter, Dict.getD_erase]
        · intro scope
          simp only [period, step, hafter, QuotaEnforcer.period, Dict.getD_insert]
          split
          · next heq => rw [heq]
          · rfl

/-! ## The bookkeeping is kept -/

theorem settle_reservation (requestId : String) (a : ℚ) (e : Entry) :
    (e.settle requestId a).reservation = e.reservation := by
  unfold Entry.settle
  split <;> rfl

theorem settle_period (requestId : String) (a : ℚ) (e : Entry) :
    (e.settle requestId a).period = e.period := by
  unfold Entry.settle
  split <;> rfl

theorem entry_period (l : Ledger) {r : BudgetReservation} {scope : String}
    (h : r.projectCounter.map Prod.fst = some scope) :
    (l.enforcer.entry r).period = l.period scope := by
  obtain ⟨c, hc, rfl⟩ := Option.map_eq_some_iff.mp h
  simp only [QuotaEnforcer.entry, hc, Option.map_some, Option.getD_some, period]

theorem WellKept.empty : WellKept {} where
  nodup := List.nodup_nil
  recorded := by simp
  booked := by simp
  positive := by simp
  shaped := by simp
  past := by simp
  nonneg scope := le_rfl

theorem WellKept.step {l : Ledger} (h : WellKept l) (c : Call) : WellKept (l.step c) := by
  cases effect h c with
  | idle hnone hspend hperiod hrecords hbook =>
      constructor
      · rw [hbook]
        exact h.nodup
      · rw [hbook, hrecords]
        exact h.recorded
      · rw [hbook, hrecords]
        exact h.booked
      · rw [hbook]
        exact h.positive
      · rw [hbook]
        exact h.shaped
      · rw [hbook, hperiod]
        exact h.past
      · rw [hspend]
        exact h.nonneg
  | made r hnone hfresh hshaped hpos hlimit hspend hperiod hrecords hbook =>
      have hnew : ∀ e ∈ l.book, e.reservation.requestId ≠ r.requestId := by
        intro e he heq
        have hrec := h.recorded e he
        rw [heq, hfresh] at hrec
        cases hrec
      constructor
      · rw [hbook, List.map_cons, List.nodup_cons]
        refine ⟨fun hmem ↦ ?_, h.nodup⟩
        obtain ⟨e, he, heq⟩ := List.mem_map.mp hmem
        exact hnew e he heq
      · rw [hbook, hrecords, List.forall_mem_cons]
        refine ⟨AList.lookup_insert _, fun e he ↦ ?_⟩
        rw [AList.lookup_insert_ne (hnew e he)]
        exact h.recorded e he
      · intro id r' finalized hlookup
        rw [hrecords] at hlookup
        rw [hbook]
        by_cases hid : id = r.requestId
        · subst hid
          rw [AList.lookup_insert] at hlookup
          cases hlookup
          exact ⟨rfl, l.enforcer.entry r, by simp, rfl⟩
        · rw [AList.lookup_insert_ne hid] at hlookup
          obtain ⟨hid', e, he, heq⟩ := h.booked id r' finalized hlookup
          exact ⟨hid', e, List.mem_cons_of_mem _ he, heq⟩
      · rw [hbook, List.forall_mem_cons]
        exact ⟨hpos, h.positive⟩
      · rw [hbook, List.forall_mem_cons]
        exact ⟨hshaped, h.shaped⟩
      · rw [hbook, hperiod, List.forall_mem_cons]
        exact ⟨fun scope hscope ↦ (entry_period l hscope).le, h.past⟩
      · intro scope
        rw [hspend]
        have hold := h.nonneg scope
        split <;> linarith
  | settled r a hsettles hspend hperiod hrecords hbook =>
      have hother : ∀ e ∈ l.book, e.reservation.requestId = r.requestId → e.reservation = r := by
        intro e he heq
        have hrec := h.recorded e he
        rw [heq, hsettles.1] at hrec
        exact (Prod.mk.inj (Option.some.inj hrec)).1.symm
      constructor
      · rw [hbook, List.map_map]
        have hmap : l.book.map ((fun e ↦ e.reservation.requestId) ∘ Entry.settle r.requestId a) =
            l.book.map fun e ↦ e.reservation.requestId :=
          List.map_congr_left fun e _ ↦ by simp only [Function.comp_apply, settle_reservation]
        rw [hmap]
        exact h.nodup
      · rw [hbook, List.forall_mem_map]
        intro e he
        rw [settle_reservation, hrecords]
        by_cases hid : e.reservation.requestId = r.requestId
        · rw [hid, AList.lookup_insert, hother e he hid]
          simp [Entry.settle, hid]
        · rw [AList.lookup_insert_ne hid, h.recorded e he]
          simp [Entry.settle, hid]
      · intro id r' finalized hlookup
        have hbooked : r'.requestId = id ∧ ∃ e ∈ l.book, e.reservation = r' := by
          rw [hrecords] at hlookup
          by_cases hid : id = r.requestId
          · subst hid
            rw [AList.lookup_insert] at hlookup
            cases hlookup
            exact h.booked _ _ _ hsettles.1
          · rw [AList.lookup_insert_ne hid] at hlookup
            exact h.booked id r' finalized hlookup
        obtain ⟨hid, e, he, heq⟩ := hbooked
        rw [hbook]
        exact ⟨hid, _, List.mem_map_of_mem he, (settle_reservation _ _ e).trans heq⟩
      · rw [hbook, List.forall_mem_map]
        intro e he
        rw [settle_reservation]
        exact h.positive e he
      · rw [hbook, List.forall_mem_map]
        intro e he
        rw [settle_reservation]
        exact h.shaped e he
      · rw [hbook, hperiod, List.forall_mem_map]
        intro e he
        rw [settle_reservation, settle_period]
        exact h.past e he
      · intro scope
        rw [hspend]
        split
        · exact le_max_left _ _
        · exact h.nonneg scope
  | reset scope₀ hnone hspend hperiod hrecords hbook =>
      constructor
      · rw [hbook]
        exact h.nodup
      · rw [hbook, hrecords]
        exact h.recorded
      · rw [hbook, hrecords]
        exact h.booked
      · rw [hbook]
        exact h.positive
      · rw [hbook]
        exact h.shaped
      · rw [hbook]
        intro e he scope hscope
        have hle := h.past e he scope hscope
        rw [hperiod]
        split <;> omega
      · intro scope
        rw [hspend]
        split
        · exact le_rfl
        · exact h.nonneg scope

theorem wellKept_run (calls : List Call) : WellKept (run calls) := by
  induction calls with
  | nil => exact WellKept.empty
  | cons c calls ih => exact ih.step c

/-! ## When the figures stay exact -/

/-- The step lemma: a call keeps the figures exact exactly when it corrects right. -/
theorem exact_step_iff {l : Ledger} (h : WellKept l) (hl : Exact l) (c : Call) :
    Exact (l.step c) ↔ Corrects l c := by
  cases effect h c with
  | idle hnone hspend hperiod hrecords hbook =>
      refine iff_of_true ?_ fun r a scope limit hs ↦ absurd hs (hnone r a)
      intro scope
      rw [hspend, hperiod, hbook]
      exact hl scope
  | made r hnone hfresh hshaped hpos hlimit hspend hperiod hrecords hbook =>
      refine iff_of_true ?_ fun r' a scope limit hs ↦ absurd hs (hnone r' a)
      intro scope
      have hcounts : Counts (l.period scope) scope (l.enforcer.entry r) ↔
          r.projectCounter.map Prod.fst = some scope :=
        ⟨fun hc ↦ hc.1, fun hr ↦ ⟨hr, entry_period l hr⟩⟩
      rw [hspend, hperiod, hbook, sumOf_cons, hl scope, add_comm]
      simp only [hcounts]
      rfl
  | settled r a hsettles hspend hperiod hrecords hbook =>
      obtain ⟨-, e, he, rfl⟩ := h.booked _ _ _ hsettles.1
      have hunsettled : e.actual = none := by
        have hrec := h.recorded e he
        rw [hsettles.1] at hrec
        simpa using (Prod.mk.inj (Option.some.inj hrec)).2.symm
      have hcost : cost e = e.reservation.amount := by rw [cost, hunsettled]; rfl
      have hsum : ∀ scope, sumOf cost ((l.step c).period scope) scope (l.step c).book =
          l.spend scope + if Counts (l.period scope) scope e then a - e.reservation.amount
            else 0 := by
        intro scope
        rw [hperiod, hbook, sumOf_map_settle h.nodup he rfl, hl scope, hcost]
        rfl
      have hpresent : ∀ scope, e.reservation.projectCounter.map Prod.fst = some scope →
          (Counts (l.period scope) scope e ↔
            ∃ e' ∈ l.book, e'.reservation = e.reservation ∧ e'.period = l.period scope) := by
        intro scope hscope
        refine ⟨fun hc ↦ ⟨e, he, rfl, hc.2⟩, fun ⟨e', he', heq, hp⟩ ↦ ⟨hscope, ?_⟩⟩
        have hee : e' = e :=
          List.inj_on_of_nodup_map h.nodup he' he (congrArg BudgetReservation.requestId heq)
        rw [← hee]
        exact hp
      constructor
      · intro hexact r' a' scope limit hs hcounter
        obtain ⟨rfl, rfl⟩ : e.reservation = r' ∧ a = a' := by
          cases c with
          | reserve args => exact absurd hs.2 id
          | finalize r₀ a₀ tenantId projectId =>
              exact ⟨hsettles.2.1.symm.trans hs.2.1, hsettles.2.2.1.symm.trans hs.2.2.1⟩
          | release r₀ tenantId projectId =>
              exact ⟨hsettles.2.1.symm.trans hs.2.1, hsettles.2.2.1.symm.trans hs.2.2.1⟩
          | reset projectId tenantId => exact absurd hs.2 id
        have hscope : e.reservation.projectCounter.map Prod.fst = some scope := by
          rw [hcounter]
          rfl
        have heq := hexact scope
        rw [hsum, hspend, if_pos hscope] at heq
        by_cases hc : Counts (l.period scope) scope e
        · rw [if_pos hc] at heq
          rw [if_pos ((hpresent scope hscope).mp hc)]
          have hle := le_max_left 0 (l.spend scope + (a - e.reservation.amount))
          linarith
        · rw [if_neg hc, add_zero] at heq
          rw [if_neg fun hex ↦ hc ((hpresent scope hscope).mpr hex)]
          rcases max_choice 0 (l.spend scope + (a - e.reservation.amount)) with hmax | hmax
          · have hle := le_max_right 0 (l.spend scope + (a - e.reservation.amount))
            exact .inr ⟨by linarith, by linarith⟩
          · exact .inl (by linarith)
      · intro hcorrects scope
        rw [hsum, hspend]
        split_ifs with hscope hc hc
        · obtain ⟨⟨p, limit⟩, hcounter, hp⟩ := Option.map_eq_some_iff.mp hscope
          obtain rfl : p = scope := hp
          have hright := hcorrects _ _ _ _ hsettles hcounter
          rw [if_pos ((hpresent p hscope).mp hc)] at hright
          exact max_eq_right (by linarith)
        · obtain ⟨⟨p, limit⟩, hcounter, hp⟩ := Option.map_eq_some_iff.mp hscope
          obtain rfl : p = scope := hp
          have hright := hcorrects _ _ _ _ hsettles hcounter
          rw [if_neg fun hex ↦ hc ((hpresent p hscope).mpr hex)] at hright
          rcases hright with rfl | ⟨hzero, hle⟩
          · rw [sub_self, add_zero]
            exact max_eq_right (h.nonneg p)
          · rw [hzero, add_zero]
            exact max_eq_left (by linarith)
        · exact absurd hc.1 hscope
        · rw [add_zero]
  | reset scope₀ hnone hspend hperiod hrecords hbook =>
      refine iff_of_true ?_ fun r a scope limit hs ↦ absurd hs (hnone r a)
      intro scope
      rw [hspend, hperiod, hbook]
      split
      · next heq =>
          refine (sumOf_eq_zero fun e he hc ↦ ?_).symm
          have hle := h.past e he scope hc.1
          have hnow := hc.2
          omega
      · exact hl scope

theorem costWithinEstimate_le_amount {e : Entry} (h : 0 ≤ e.reservation.amount) :
    costWithinEstimate e ≤ e.reservation.amount := by
  unfold costWithinEstimate
  split
  · assumption
  · exact h

theorem costWithinEstimate_le_cost {l : Ledger} (h : WellKept l) {e : Entry} (he : e ∈ l.book) :
    costWithinEstimate e ≤ cost e := by
  unfold costWithinEstimate
  split
  · exact le_rfl
  · have hpos := h.positive e he
    linarith

/-- Limits hold through every call that starts from exact figures. -/
theorem withinLimits_step {l : Ledger} (h : WellKept l) (hl : Exact l) (hw : WithinLimits l)
    (c : Call) : WithinLimits (l.step c) := by
  cases effect h c with
  | idle hnone hspend hperiod hrecords hbook =>
      intro scope limit e older hsuf hc hcounter
      rw [hbook] at hsuf
      rw [hperiod] at hc ⊢
      exact hw scope limit e older hsuf hc hcounter
  | made r hnone hfresh hshaped hpos hlimit hspend hperiod hrecords hbook =>
      intro scope limit e older hsuf hc hcounter
      rw [hbook] at hsuf
      rw [hperiod] at hc ⊢
      rcases List.suffix_cons_iff.mp hsuf with heq | hsuf
      · obtain ⟨rfl, rfl⟩ := List.cons.inj heq
        have hvalue : costWithinEstimate (l.enforcer.entry r) = r.amount := by
          simp [costWithinEstimate, cost, QuotaEnforcer.entry]
        have hadmitted : l.spend scope + r.amount ≤ limit := hlimit scope limit hcounter
        have hle : sumOf costWithinEstimate (l.period scope) scope l.book ≤ l.spend scope := by
          rw [hl scope]
          exact sumOf_le_sumOf fun e he ↦ costWithinEstimate_le_cost h he
        rw [sumOf_cons, if_pos hc, hvalue]
        linarith
      · exact hw scope limit e older hsuf hc hcounter
  | settled r a hsettles hspend hperiod hrecords hbook =>
      intro scope limit e older hsuf hc hcounter
      rw [hbook] at hsuf
      rw [hperiod] at hc ⊢
      obtain ⟨suffix, hsuffix, heq⟩ : ∃ t, t <:+ l.book ∧
          t.map (Entry.settle r.requestId a) = e :: older := by
        obtain ⟨pre, hpre⟩ := hsuf
        obtain ⟨l₁, l₂, hl₁₂, -, hl₂⟩ := List.map_eq_append_iff.mp hpre.symm
        exact ⟨l₂, ⟨l₁, hl₁₂.symm⟩, hl₂⟩
      obtain ⟨e₀, older₀, rfl, rfl, rfl⟩ := List.map_eq_cons_iff.mp heq
      have hold := hw scope limit e₀ older₀ hsuffix (counts_settle.mp hc)
        (by rwa [settle_reservation] at hcounter)
      refine le_trans ?_ hold
      rw [← List.map_cons]
      apply sumOf_map_settle_le
      intro x hx
      have hxbook : x ∈ l.book := hsuffix.subset hx
      unfold Entry.settle
      split
      · next hid =>
          have hrec := h.recorded x hxbook
          rw [hid, hsettles.1] at hrec
          have hopen : x.actual = none := by
            simpa using (Prod.mk.inj (Option.some.inj hrec)).2.symm
          have hamount : costWithinEstimate x = x.reservation.amount := by
            simp [costWithinEstimate, cost, hopen]
          rw [hamount]
          exact costWithinEstimate_le_amount (e := { x with actual := some a })
            (h.positive x hxbook).le
      · exact le_rfl
  | reset scope₀ hnone hspend hperiod hrecords hbook =>
      intro scope limit e older hsuf hc hcounter
      rw [hbook] at hsuf
      have hmem : e ∈ l.book := hsuf.subset List.mem_cons_self
      have hle := h.past e hmem scope hc.1
      have hnow := hc.2
      rw [hperiod] at hc hnow ⊢
      split at hnow
      · omega
      · next hne =>
          rw [if_neg hne] at hc ⊢
          exact hw scope limit e older hsuf hc hcounter

/-- A request of project `p` with an estimate of 5 under a limit of 10. -/
def requestOf (requestId : String) : ReserveArgs where
  requestId := requestId
  projectId := "p"
  userId := "u"
  estimatedCost := 5
  projectBudgetLimit := some 10
  userBudgetLimit := none

/-- The first request is finalized at a cost of 1 after the billing cycle was
reset and a second request was admitted; the newest call comes first. -/
def lateFinalization : List Call :=
  [.finalize { requestId := "r1", counters := [(.quota, "p", 10)], amount := 5 } 1 none "p",
    .reserve (requestOf "r2"), .reset "p" none, .reserve (requestOf "r1")]

end Ledger

end AxonGateway.Quota
