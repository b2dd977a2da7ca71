import AxonGateway.Budget.Ledger

/-!
# The budget operations under interference

Every operation commits only proper transactions, whatever other clients do
between its steps, and its result tells what it committed.
-/

namespace AxonGateway.Budget

open ConditionalStore Interleaving Binary64

/-! ## Errors and time -/

section Time

variable {ok : Call → Prop} {extra : Commit schema → Prop} {i : ℕ} {s s' : Store schema}

theorem rely_epochOf (h : (discipline ok extra).protocol.rely i s s') (scope : Scope)
    (ident : String) : epochOf s.table scope ident ≤ epochOf s'.table scope ident :=
  h.2.1 (.total scope ident)

theorem rely_markerAt (h : (discipline ok extra).protocol.rely i s s') {k : MarkerKey} {m : Marker}
    (hm : markerAt s.table k = some m) : ∃ m', markerAt s'.table k = some m' ∧ MarkerGrows m m' :=
  h.2.1 k.key m hm

theorem rely_alertAt (h : (discipline ok extra).protocol.rely i s s') {ident : String} {epoch : ℕ}
    {threshold : ℚ} (ha : (alertAt s.table ident epoch threshold).isSome = true) :
    (alertAt s'.table ident epoch threshold).isSome = true :=
  h.2.1 (.alert .quota ident epoch (thresholdPct threshold)) ha

theorem inv_ledger (h : (discipline ok extra).protocol.inv s) : Ledger ok s.log s.table :=
  ledger_of_logged h.1 fun c hc ↦ (h.2 c hc).1

/-- The same epochs were read for the same counters, none ahead of its time. -/
def EpochsRead (t : Table schema) : List Counter → List (Scope × SpendCounterState) → Prop :=
  List.Forall₂ fun c st ↦ st.1 = c.1 ∧ st.2.epoch ≤ epochOf t c.1 c.2.1

theorem EpochsRead.rely {cs : List Counter} {states : List (Scope × SpendCounterState)}
    (h : EpochsRead s.table cs states) (hs : (discipline ok extra).protocol.rely i s s') :
    EpochsRead s'.table cs states :=
  h.imp fun c _ hst ↦ ⟨hst.1, hst.2.trans (rely_epochOf hs c.1 c.2.1)⟩

theorem EpochsRead.scopes {t : Table schema} {cs : List Counter}
    {states : List (Scope × SpendCounterState)} (h : EpochsRead t cs states) :
    (epochsOf states).map Prod.fst = scopesOf cs := by
  induction h with
  | nil => rfl
  | cons hst _ ih =>
      simp only [epochsOf, scopesOf, List.map_cons] at ih ⊢
      rw [hst.1, ih]

theorem EpochsRead.epochIn_le {t : Table schema} {cs : List Counter}
    {states : List (Scope × SpendCounterState)} (h : EpochsRead t cs states)
    (hnd : (scopesOf cs).Nodup) : ∀ c ∈ cs, epochIn (epochsOf states) c.1 ≤ epochOf t c.1 c.2.1 := by
  induction h with
  | nil => simp
  | @cons c st cs states hst hrest ih =>
      rw [scopesOf, List.map_cons, List.nodup_cons] at hnd
      intro c' hc'
      rcases List.mem_cons.mp hc' with rfl | hc'
      · have hhead : epochIn (epochsOf (st :: states)) c'.1 = st.2.epoch := by
          simp [epochIn, epochsOf, hst.1]
        exact hhead.trans_le hst.2
      · have hne : c'.1 ≠ c.1 := fun heq ↦ hnd.1 (heq ▸ List.mem_map_of_mem hc')
        have htail : epochIn (epochsOf (st :: states)) c'.1 = epochIn (epochsOf states) c'.1 := by
          simp [epochIn, epochsOf, hst.1, List.lookup_cons, beq_false_of_ne hne]
        exact htail.trans_le (ih hnd.2 c' hc')

end Time

/-! ## Reading -/

section Reading

variable {ok : Call → Prop} {extra : Commit schema → Prop} {faulty : Bool} {i : ℕ}
  {E : Failure → Store schema → Prop}

theorem holds_budgetStatesFromTable
    (hE : ∀ e s s', (discipline ok extra).protocol.rely i s s' → E e s → E e s')
    {cs : List Counter} {Q : List (Scope × SpendCounterState) → Store schema → Prop}
    {s : Store schema}
    (hok : ∀ states s', (discipline ok extra).protocol.rely i s s' →
      (discipline ok extra).protocol.inv s' → EpochsRead s'.table cs states → Q states s')
    (herror : ∀ s', faulty = true → (discipline ok extra).protocol.rely i s s' →
      (discipline ok extra).protocol.inv s' → E (.store .unavailable) s') :
    Holds faulty extra (discipline ok extra).protocol i E Q (budgetStatesFromTable cs) s := by
  set P := (discipline ok extra).protocol
  induction cs generalizing s Q with
  | nil => exact Holds.pure fun s' hs' hinv ↦ hok [] s' hs' hinv .nil
  | cons c rest ih =>
      obtain ⟨scope, ident, d⟩ := c
      refine Holds.bind hE (Holds.get (fun s₁ hs₁ hinv₁ s₂ hs₂ hinv₂ _ ↦ ?_) herror)
      have hs : P.rely i s s₂ := P.trans i _ _ _ hs₁ hs₂
      refine Holds.bind hE (ih (fun states s₃ hs₃ hinv₃ hread _ ↦ ?_)
        fun s₃ hf hs₃ hinv₃ ↦ herror s₃ hf (P.trans i _ _ _ hs hs₃) hinv₃)
      refine Holds.pure fun s₄ hs₄ hinv₄ ↦ hok _ s₄ ?_ hinv₄ (.cons ⟨rfl, ?_⟩ (hread.rely hs₄))
      · exact P.trans i _ _ _ hs (P.trans i _ _ _ hs₃ hs₄)
      · exact rely_epochOf (P.trans i _ _ _ hs₂ (P.trans i _ _ _ hs₃ hs₄)) scope ident

/-- A kept marker gives its epochs for its own counters. -/
theorem budgetEpochsFromMarker_of_kept {t : Table schema} {k : MarkerKey} {m : Marker}
    (h : MarkerKept ok t k m) :
    ∃ epochs, m.reservationEpochs = some epochs ∧
      budgetEpochsFromMarker m m.reservationSignature = pure epochs := by
  obtain ⟨epochs, hepochs, hscopes⟩ := h.epochs
  refine ⟨epochs, hepochs, ?_⟩
  simp only [budgetEpochsFromMarker, hepochs, hscopes, if_true]

end Reading

/-! ## Reserving -/

section Reserving

variable {ok : Call → Prop} {extra : Commit schema → Prop} {faulty : Bool} {i : ℕ}

/-- The table of `s₁` was the stored one at some time from `s₀` to `s`. -/
def Between (s₀ s₁ s : Store schema) : Prop :=
  s₀.log <:+ s₁.log ∧ s₁.log <:+ s.log ∧ Logged s₁.log s₁.table

theorem suffix_of_rely {s s' : Store schema} (h : (discipline ok extra).protocol.rely i s s') :
    s.log <:+ s'.log := by
  obtain ⟨new, hnew, -⟩ := h.1
  exact ⟨new, hnew.symm⟩

theorem Between.rely {s₀ s₁ s s' : Store schema} (h : Between s₀ s₁ s)
    (hs : (discipline ok extra).protocol.rely i s s') : Between s₀ s₁ s' :=
  ⟨h.1, h.2.1.trans (suffix_of_rely hs), h.2.2⟩

/-- The result is no success. -/
def Rejected (result : Option BudgetReservationResult) : Prop :=
  ∀ res, result = some res → res.allowed = false

/-- How a reservation was decided, at some time from its start to its end: it was
charged once, it was found charged already, or it changed nothing. -/
inductive Decision (i : ℕ) (r : ReserveRequest) (s₀ s : Store schema) :
    Option BudgetReservationResult → Prop
  | charged (s₁ : Store schema) (epochs : List (Scope × ℕ)) (res : BudgetReservationResult)
      (hbetween : Between s₀ s₁ s) (hmarker : markerAt s₁.table r.markerKey = none)
      (hown : Discipline.own i s = ⟨i, r.operations epochs, s₁.table⟩ :: Discipline.own i s₀)
      (hres : res.allowed = true ∧ res.idempotent = false) : Decision i r s₀ s (some res)
  | repeated (s₁ : Store schema) (m : Marker) (res : BudgetReservationResult)
      (hbetween : Between s₀ s₁ s) (hmarker : markerAt s₁.table r.markerKey = some m)
      (hmatches : r.Matches m) (hown : Discipline.own i s = Discipline.own i s₀)
      (hres : res.allowed = true ∧ res.idempotent = true) : Decision i r s₀ s (some res)
  | conflicting (s₁ : Store schema) (m : Marker) (result : Option BudgetReservationResult)
      (hbetween : Between s₀ s₁ s) (hmarker : markerAt s₁.table r.markerKey = some m)
      (hmatches : ¬ r.Matches m) (hown : Discipline.own i s = Discipline.own i s₀)
      (hres : Rejected result) : Decision i r s₀ s result
  | refused (s₁ : Store schema) (result : Option BudgetReservationResult)
      (hbetween : Between s₀ s₁ s) (hmarker : markerAt s₁.table r.markerKey = none)
      (hown : Discipline.own i s = Discipline.own i s₀) (hres : Rejected result) :
      Decision i r s₀ s result

theorem Decision.rely {r : ReserveRequest} {s₀ s s' : Store schema}
    {result : Option BudgetReservationResult} (h : Decision i r s₀ s result)
    (hs : (discipline ok extra).protocol.rely i s s') : Decision i r s₀ s' result := by
  have hown := Discipline.own_rely hs
  cases h with
  | charged s₁ epochs res hbetween hmarker hown' hres =>
      exact .charged s₁ epochs res (hbetween.rely hs) hmarker (hown.trans hown') hres
  | repeated s₁ m res hbetween hmarker hmatches hown' hres =>
      exact .repeated s₁ m res (hbetween.rely hs) hmarker hmatches (hown.trans hown') hres
  | conflicting s₁ m result hbetween hmarker hmatches hown' hres =>
      exact .conflicting s₁ m result (hbetween.rely hs) hmarker hmatches (hown.trans hown') hres
  | refused s₁ result hbetween hmarker hown' hres =>
      exact .refused s₁ result (hbetween.rely hs) hmarker (hown.trans hown') hres

/-- A call without a commit of its own stands where its start left it. -/
theorem between_of_rely {s₀ s₁ s : Store schema}
    (h : (discipline ok extra).protocol.rely i s₀ s₁) (hinv : (discipline ok extra).protocol.inv s₁)
    (hs : (discipline ok extra).protocol.rely i s₁ s) : Between s₀ s₁ s :=
  ⟨suffix_of_rely h, suffix_of_rely hs, hinv.1⟩

variable {r : ReserveRequest} {s₀ s : Store schema}

/-- What is owed when the call fails. -/
def ReserveFails (faulty : Bool) (i : ℕ) (r : ReserveRequest) (s₀ : Store schema) (_ : Failure)
    (s : Store schema) : Prop := faulty = false → Decision i r s₀ s none

/-- What is owed when the call returns. -/
def ReserveReturns (faulty : Bool) (i : ℕ) (r : ReserveRequest) (s₀ : Store schema)
    (res : BudgetReservationResult) (s : Store schema) : Prop :=
  faulty = false → Decision i r s₀ s (some res)

theorem ReserveFails.rely (e : Failure) (s s' : Store schema)
    (hs : (discipline ok extra).protocol.rely i s s') (h : ReserveFails faulty i r s₀ e s) :
    ReserveFails faulty i r s₀ e s' := fun hf ↦ (h hf).rely hs

theorem holds_replay {s₁ : Store schema} {m : Marker}
    (hs₁ : faulty = false → (discipline ok extra).protocol.rely i s₀ s₁)
    (hinv : (discipline ok extra).protocol.inv s₁)
    (hmarker : markerAt s₁.table r.markerKey = some m)
    (hs : (discipline ok extra).protocol.rely i s₁ s) :
    Holds faulty extra (discipline ok extra).protocol i (ReserveFails faulty i r s₀)
      (ReserveReturns faulty i r s₀) (r.replay m) s := by
  set P := (discipline ok extra).protocol
  have hbetween : ∀ s', faulty = false → P.rely i s s' → Between s₀ s₁ s' :=
    fun s' hf hs' ↦ between_of_rely (hs₁ hf) hinv (P.trans i _ _ _ hs hs')
  have hown : ∀ s', faulty = false → P.rely i s s' → Discipline.own i s' = Discipline.own i s₀ :=
    fun s' hf hs' ↦ Discipline.own_rely (P.trans i _ _ _ (hs₁ hf) (P.trans i _ _ _ hs hs'))
  unfold ReserveRequest.replay
  by_cases hmatches : r.Matches m
  · rw [if_neg (not_not_intro hmatches)]
    obtain ⟨epochs, -, hepochs⟩ :=
      budgetEpochsFromMarker_of_kept ((inv_ledger hinv).markers _ _ hmarker)
    rw [hmatches.2.1] at hepochs
    have hfails : ∀ s', faulty = true → P.rely i s s' → P.inv s' →
        ReserveFails faulty i r s₀ (.store .unavailable) s' := by
      intro s' hf _ _ hf'
      simp [hf] at hf'
    beta_reduce
    refine Holds.bind ReserveFails.rely (holds_budgetStatesFromTable ReserveFails.rely
      (fun states s₂ hs₂ hinv₂ hread _ ↦ ?_) hfails)
    rw [hepochs]
    refine Holds.pure fun s₃ hs₃ _ hf ↦ ?_
    have hs' : P.rely i s s₃ := P.trans i _ _ _ hs₂ hs₃
    exact .repeated s₁ m _ (hbetween s₃ hf hs') hmarker hmatches (hown s₃ hf hs') ⟨rfl, rfl⟩
  · rw [if_pos hmatches]
    refine Holds.bind ReserveFails.rely (Holds.throw fun s₂ hs₂ _ hf ↦ ?_)
    exact .conflicting s₁ m _ (hbetween s₂ hf hs₂) hmarker hmatches (hown s₂ hf hs₂)
      fun res hres ↦ by cases hres

/-- A call that has committed nothing and read no marker may still fail. -/
theorem refused_of_rely {s₁ : Store schema}
    (hs₁ : (discipline ok extra).protocol.rely i s₀ s₁)
    (hinv : (discipline ok extra).protocol.inv s₁) (hmarker : markerAt s₁.table r.markerKey = none)
    (hs : (discipline ok extra).protocol.rely i s₁ s) {result : Option BudgetReservationResult}
    (hres : Rejected result) : Decision i r s₀ s result :=
  .refused s₁ result (between_of_rely hs₁ hinv hs) hmarker
    (Discipline.own_rely ((discipline ok extra).protocol.trans i _ _ _ hs₁ hs)) hres

/-- One attempt after the other; when none is left, the last one found no marker. -/
theorem holds_reserveRun (hok : Requested ok r) (haffordable : r.impossibleScope = none)
    (attempts : ℕ) (hs : faulty = false → (discipline ok extra).protocol.rely i s₀ s)
    (hlast : attempts = 0 → faulty = false → ∀ s', (discipline ok extra).protocol.rely i s s' →
      Decision i r s₀ s' none) :
    Holds faulty extra (discipline ok extra).protocol i (ReserveFails faulty i r s₀)
      (ReserveReturns faulty i r s₀) (r.run attempts) s := by
  set P := (discipline ok extra).protocol
  have hfails : ∀ s', faulty = true → ReserveFails faulty i r s₀ (.store .unavailable) s' := by
    intro s' hf hf'
    simp [hf] at hf'
  induction attempts generalizing s with
  | zero => exact Holds.throw fun s' hs' _ hf ↦ hlast rfl hf s' hs'
  | succ attempts ih =>
      unfold ReserveRequest.run
      refine Holds.bind ReserveFails.rely (holds_budgetStatesFromTable ReserveFails.rely
        (fun states s₁ hs₁ hinv₁ hread _ ↦ ?_) fun s' hf _ _ ↦ hfails s' hf)
      have hread' : ∀ s', P.rely i s₁ s' → ∀ c ∈ r.normalized,
          epochIn (epochsOf states) c.1 ≤ epochOf s'.table c.1 c.2.1 := fun s' hs' ↦
        (hread.rely hs').epochIn_le hok.valid.canonical.nodup
      -- after the transaction: either charged, or nothing happened
      have hcontinue : ∀ exc s₂, (faulty = false → P.rely i s₀ s₂) →
          ∀ k : Option (schema.Row r.markerKey.key) → Client schema BudgetReservationResult,
            (∀ existing, k (some existing) = r.replay existing) →
            (r.deniedIndex exc = none → k none = throw exc) →
            (∀ j, r.deniedIndex exc = some j → k none = do
              let current ← budgetStatesFromTable r.normalized
              if epochsOf current ≠ epochsOf states then r.run attempts
              else return r.denied current ((scopesOf r.normalized).getD j .project)) →
            Holds faulty extra P i (ReserveFails faulty i r s₀) (ReserveReturns faulty i r s₀)
              (Client.get (S := schema) r.markerKey.key >>= k) s₂ := by
        intro exc s₂ hs₂ k hreplayed hthrown hdenied
        refine Holds.bind ReserveFails.rely (Holds.get (fun s₃ hs₃ hinv₃ s₄ hs₄ hinv₄ _ ↦ ?_)
          fun s' hf _ _ ↦ hfails s' hf)
        have hs₀ : faulty = false → P.rely i s₀ s₃ := fun hf ↦ P.trans i _ _ _ (hs₂ hf) hs₃
        cases hm : s₃.table.lookup r.markerKey.key with
        | some m =>
            rw [hreplayed]
            exact holds_replay hs₀ hinv₃ hm hs₄
        | none =>
            have hrefused : ∀ s', P.rely i s₃ s' → ∀ result, Rejected result → faulty = false →
                Decision i r s₀ s' result := fun s' hs' result hres hf ↦
              refused_of_rely (hs₀ hf) hinv₃ hm hs' hres
            cases hindex : r.deniedIndex exc with
            | none =>
                rw [hthrown hindex]
                refine Holds.throw fun s' hs' _ hf ↦ hrefused s' ?_ none ?_ hf
                · exact P.trans i _ _ _ hs₄ hs'
                · exact fun res hres ↦ by cases hres
            | some j =>
                rw [hdenied j hindex]
                refine Holds.bind ReserveFails.rely (holds_budgetStatesFromTable ReserveFails.rely
                  (fun current s₅ hs₅ hinv₅ _ _ ↦ ?_) fun s' hf _ _ ↦ hfails s' hf)
                have hs₃₅ : P.rely i s₃ s₅ := P.trans i _ _ _ hs₄ hs₅
                split_ifs with hepochs
                · refine ih (fun hf ↦ P.trans i _ _ _ (hs₀ hf) hs₃₅) fun _ hf s' hs' ↦ ?_
                  exact hrefused s' (P.trans i _ _ _ hs₃₅ hs') none (fun res hres ↦ by cases hres) hf
                · refine Holds.pure fun s' hs' _ hf ↦ hrefused s' ?_ _ ?_ hf
                  · exact P.trans i _ _ _ hs₃₅ hs'
                  · rintro res ⟨⟩
                    rfl
      refine Holds.bind ReserveFails.rely (Holds.attempt (Holds.transact ?_ ?_ ?_ ?_))
      · intro s₂ hs₂ hinv₂ hacc hextra
        exact Discipline.keeps hinv₂ hacc
          ⟨.reserve r _ hok haffordable hread.scopes (hread' s₂ hs₂), hextra⟩
      · intro s₂ hs₂ hinv₂ hacc s₃ hs₃ hinv₃ s₄ hs₄ hinv₄ _
        refine Holds.bind ReserveFails.rely (holds_budgetStatesFromTable ReserveFails.rely
          (fun current s₅ hs₅ hinv₅ _ _ ↦ ?_) fun s' hf _ _ ↦ hfails s' hf)
        refine Holds.pure fun s₆ hs₆ _ hf ↦ ?_
        have hs₀₂ : P.rely i s₀ s₂ := P.trans i _ _ _ (hs hf) (P.trans i _ _ _ hs₁ hs₂)
        have hafter : P.rely i (s₂.commit i (r.operations (epochsOf states))) s₆ :=
          P.trans i _ _ _ hs₃ (P.trans i _ _ _ hs₄ (P.trans i _ _ _ hs₅ hs₆))
        refine .charged s₂ (epochsOf states) _ ⟨suffix_of_rely hs₀₂, ?_, hinv₂.1⟩ ?_ ?_ ⟨rfl, rfl⟩
        · exact (List.suffix_cons _ _).trans (suffix_of_rely hafter)
        · exact Option.isNone_iff_eq_none.mp (hacc.2 _ List.mem_cons_self)
        · rw [Discipline.own_rely hafter, Discipline.own_commit, Discipline.own_rely hs₀₂]
      · intro s₂ hs₂ hinv₂ _ s₃ hs₃ hinv₃ s₄ hs₄ hinv₄ _
        refine hcontinue (.store (Store.refusal s₂.table (r.operations (epochsOf states)))) s₄
          (fun hf ↦ P.trans i _ _ _ (hs hf) ?_) _ (fun _ ↦ rfl) (fun h ↦ by simp only [h])
          fun _ h ↦ by simp only [h]
        exact P.trans i _ _ _ hs₁ (P.trans i _ _ _ hs₂ (P.trans i _ _ _ hs₃ hs₄))
      · intro s₂ hf _ _ s₃ _ _ s₄ _ _ _
        refine hcontinue (.store .unavailable) s₄ (fun hf' ↦ ?_) _ (fun _ ↦ rfl)
          (fun h ↦ by simp only [h]) fun _ h ↦ by simp only [h]
        simp [hf] at hf'

/-- An impossible estimate differs from that of every stored marker. -/
theorem decision_of_impossible {scope : Scope} (hscope : r.impossibleScope = some scope)
    (hs : (discipline ok extra).protocol.rely i s₀ s) (hinv : (discipline ok extra).protocol.inv s)
    {result : Option BudgetReservationResult} (hres : Rejected result) :
    Decision i r s₀ s result := by
  set P := (discipline ok extra).protocol
  have hbetween : Between s₀ s s := between_of_rely hs hinv (P.refl i s)
  have hown := Discipline.own_rely hs
  cases hm : markerAt s.table r.markerKey with
  | none => exact .refused s result hbetween hm hown hres
  | some m =>
      refine .conflicting s m result hbetween hm (fun hmatches ↦ ?_) hown hres
      obtain ⟨c, hfind, -⟩ := Option.map_eq_some_iff.mp hscope
      have hfound := List.find?_some hfind
      have himpossible : r.reserved > c.2.2.val := of_decide_eq_true hfound
      have haffordable := ((inv_ledger hinv).markers _ _ hm).affordable c
        (hmatches.2.1 ▸ List.mem_of_find?_eq_some hfind)
      rw [hmatches.2.2] at haffordable
      exact absurd haffordable (not_le.mpr himpossible)

theorem holds_denyImpossible {scope : Scope} (hscope : r.impossibleScope = some scope)
    (hs : (discipline ok extra).protocol.rely i s₀ s) :
    Holds faulty extra (discipline ok extra).protocol i (ReserveFails faulty i r s₀)
      (ReserveReturns faulty i r s₀) (r.denyImpossible scope) s := by
  set P := (discipline ok extra).protocol
  have hdenied : ∀ states s₁, P.rely i s s₁ → Holds faulty extra P i (ReserveFails faulty i r s₀)
      (ReserveReturns faulty i r s₀) (pure (r.denied states scope)) s₁ := by
    intro states s₁ hs₁
    refine Holds.pure fun s₂ hs₂ hinv₂ _ ↦ decision_of_impossible hscope
      (P.trans i _ _ _ hs (P.trans i _ _ _ hs₁ hs₂)) hinv₂ ?_
    rintro res ⟨⟩
    rfl
  refine Holds.bind ReserveFails.rely (Holds.attempt (holds_budgetStatesFromTable ?_
    (fun states s₁ hs₁ _ _ s₂ hs₂ _ _ ↦ ?_) fun s₁ _ hs₁ _ s₂ hs₂ _ _ ↦ ?_))
  · exact fun e s₁ s₂ hs₂ h s₃ hs₃ hinv₃ ↦ h s₃ (P.trans i _ _ _ hs₂ hs₃) hinv₃
  · exact hdenied states s₂ (P.trans i _ _ _ hs₁ hs₂)
  · exact hdenied [] s₂ (P.trans i _ _ _ hs₁ hs₂)

/-- The rule for operations that turn every failure into `None`. -/
theorem safe_orNone {P : Protocol (Store schema)} {α : Type} {x : Client schema α}
    {R : Option α → Store schema → Prop} (hR : ∀ o s s', P.rely i s s' → R o s → R o s')
    (h : Holds faulty extra P i (fun _ ↦ R none) (fun a ↦ R (some a)) x s) :
    Safe ((machine schema faulty).restrict (Commits extra)) P i R (orNone x) s := by
  refine Safe.bind (Safe.imp (fun result s₁ hresult _ ↦ ?_) h)
  cases result with
  | ok a => exact Safe.done fun s₂ hs₂ _ ↦ hR (some a) s₁ s₂ hs₂ hresult
  | error e => exact Safe.done fun s₂ hs₂ _ ↦ hR none s₁ s₂ hs₂ hresult

/-- What a reservation owes: without faults, checked arguments are decided and
others change nothing. -/
def Reserved (faulty : Bool) (i : ℕ) (prepared : Except PyError ReserveRequest)
    (s₀ : Store schema) (result : Except PyError (Option BudgetReservationResult))
    (s : Store schema) : Prop :=
  match prepared with
  | .ok r => ∃ res, result = .ok res ∧ (faulty = false → Decision i r s₀ s res)
  | .error e => result = .error e ∧ Discipline.own i s = Discipline.own i s₀

theorem Reserved.rely {prepared : Except PyError ReserveRequest} {s₁ s₂ : Store schema}
    {result : Except PyError (Option BudgetReservationResult)}
    (h : Reserved faulty i prepared s₀ result s₁)
    (hs : (discipline ok extra).protocol.rely i s₁ s₂) :
    Reserved faulty i prepared s₀ result s₂ := by
  cases prepared with
  | ok r =>
      obtain ⟨res, hres, hdecision⟩ := h
      exact ⟨res, hres, fun hf ↦ (hdecision hf).rely hs⟩
  | error e => exact ⟨h.1, (Discipline.own_rely hs).trans h.2⟩

theorem safe_reserveBudget {requestId : String} {reservations : List (Scope × String × PyNum)}
    {amount : PyNum} {now leaseSeconds : ℤ}
    (hok : ok (.reserveBudget requestId reservations amount now leaseSeconds)) :
    Safe ((machine schema faulty).restrict (Commits extra)) (discipline ok extra).protocol i
      (Reserved faulty i (prepareReserve requestId reservations amount now leaseSeconds) s)
      (reserveBudget requestId reservations amount now leaseSeconds) s := by
  set P := (discipline ok extra).protocol
  unfold reserveBudget
  cases hr : prepareReserve requestId reservations amount now leaseSeconds with
  | error e => exact Safe.done fun s' hs' _ ↦ ⟨rfl, Discipline.own_rely hs'⟩
  | ok r =>
      have hsafe : ∀ x : Client schema BudgetReservationResult,
          Holds faulty extra P i (ReserveFails faulty i r s) (ReserveReturns faulty i r s) x s →
          Safe ((machine schema faulty).restrict (Commits extra)) P i (Reserved faulty i (.ok r) s)
            (orNone x >>= fun result ↦ pure (.ok result)) s := by
        intro x hx
        have hnone := safe_orNone (R := fun o s' ↦ faulty = false → Decision i r s s' o)
          (fun o s₁ s₂ hs₂ h hf ↦ (h hf).rely hs₂) hx
        refine Safe.bind (Safe.imp (fun o s₁ ho _ ↦ ?_) hnone)
        exact Safe.done fun s₂ hs₂ _ ↦ ⟨o, rfl, fun hf ↦ (ho hf).rely hs₂⟩
      have hrequested : Requested ok r := ⟨_, _, _, _, _, hok, hr⟩
      cases hscope : r.impossibleScope with
      | some scope =>
          simp only [hscope]
          exact hsafe (r.denyImpossible scope) (holds_denyImpossible hscope (P.refl i s))
      | none =>
          have hrun : Holds faulty extra P i (ReserveFails faulty i r s)
              (ReserveReturns faulty i r s) (r.run 5) s :=
            holds_reserveRun hrequested hscope 5 (fun _ ↦ P.refl i s) fun h ↦ absurd h (by decide)
          simp only [hscope]
          exact hsafe (r.run 5) hrun

end Reserving

/-! ## Finalizing -/

section Finalizing

variable {ok : Call → Prop} {extra : Commit schema → Prop} {faulty : Bool} {i : ℕ}
  {s s' : Store schema} {f : FinalizeRequest} {reservationEpochs : List (Scope × ℕ)}

/-- The alerts among some writes. -/
def alertsAmong (ws : List Write) : List Write :=
  ws.filter fun w ↦ match w with
    | .putAlert _ _ _ _ => true
    | _ => false

/-- The alerts that a client has put. -/
def alertsPut (i : ℕ) (s : Store schema) : List Write :=
  (Discipline.own i s).flatMap fun c ↦ alertsAmong c.writes

theorem alertsPut_rely (h : (discipline ok extra).protocol.rely i s s') :
    alertsPut i s' = alertsPut i s := by
  rw [alertsPut, Discipline.own_rely h, alertsPut]

theorem alertsPut_commit (ws : List Write) :
    alertsPut i (s.commit i ws) = alertsAmong ws ++ alertsPut i s := by
  rw [alertsPut, Discipline.own_commit, List.flatMap_cons, alertsPut]

theorem alertsAmong_eq_nil {ws : List Write}
    (h : ∀ w ∈ ws, ∀ scope ident epoch pct, w ≠ .putAlert scope ident epoch pct) :
    alertsAmong ws = [] := by
  refine List.filter_eq_nil_iff.mpr fun w hw ↦ ?_
  cases w with
  | putAlert scope ident epoch pct => exact absurd rfl (h _ hw scope ident epoch pct)
  | _ => exact Bool.false_ne_true

theorem alertsAmong_transaction (states : List (Scope × SpendCounterState)) (crossed : List ℚ) :
    alertsAmong (f.transaction reservationEpochs states crossed) =
      f.alertOperations reservationEpochs crossed := by
  have hoperations : alertsAmong (f.operations reservationEpochs states) = [] := by
    refine alertsAmong_eq_nil fun w hw scope ident epoch pct heq ↦ ?_
    subst heq
    rcases List.mem_cons.mp hw with hw | hw
    · cases hw
    · split_ifs at hw
      · obtain ⟨c, -, hc⟩ := List.mem_map.mp hw
        cases hc
      · cases hw
  have halerts : alertsAmong (f.alertOperations reservationEpochs crossed) =
      f.alertOperations reservationEpochs crossed := by
    refine List.filter_eq_self.mpr fun w hw ↦ ?_
    unfold FinalizeRequest.alertOperations at hw
    split at hw
    · cases hw
    · obtain ⟨threshold, -, rfl⟩ := List.mem_map.mp hw
      rfl
  have happend : alertsAmong (f.transaction reservationEpochs states crossed) =
      alertsAmong (f.operations reservationEpochs states) ++
        alertsAmong (f.alertOperations reservationEpochs crossed) := List.filter_append _ _
  rw [happend, hoperations, halerts, List.nil_append]

/-- The request's marker is stored and recorded these epochs. -/
def MarkerThere (f : FinalizeRequest) (reservationEpochs : List (Scope × ℕ)) (s : Store schema) :
    Prop :=
  ∃ m, markerAt s.table f.markerKey = some m ∧ f.Matches m ∧
    m.reservationEpochs = some reservationEpochs

theorem MarkerThere.of_grows
    (hgrows : ∀ k, Grows k (s.table.lookup k) (s'.table.lookup k))
    (h : MarkerThere f reservationEpochs s) : MarkerThere f reservationEpochs s' := by
  obtain ⟨m, hm, hmatches, hepochs⟩ := h
  obtain ⟨m', hm', hg⟩ := hgrows f.markerKey.key m hm
  refine ⟨m', hm', ⟨?_, ?_, ?_⟩, hg.epochs.trans hepochs⟩
  · exact hg.requestId.trans hmatches.1
  · exact hg.signature.trans hmatches.2.1
  · exact hg.amount.trans hmatches.2.2

theorem MarkerThere.rely (h : MarkerThere f reservationEpochs s)
    (hs : (discipline ok extra).protocol.rely i s s') : MarkerThere f reservationEpochs s' :=
  h.of_grows hs.2.1

theorem MarkerThere.commit (h : MarkerThere f reservationEpochs s) {ws : List Write}
    (hacc : s.table.Accepts ws) : MarkerThere f reservationEpochs (s.commit i ws) :=
  h.of_grows fun k ↦
    Discipline.grows_commit (D := discipline (fun _ ↦ True) fun _ ↦ True) hacc i k

/-- What is owed when a finalization fails: no alert was put. -/
def FinalizeFails (faulty : Bool) (i : ℕ) (before : List Write) (_ : Failure) (s : Store schema) :
    Prop := faulty = false → alertsPut i s = before

/-- What is owed when a finalization returns: the alerts that it put are the
thresholds that it returns, in the epoch of the marker. -/
def FinalizeReturns (faulty : Bool) (i : ℕ) (f : FinalizeRequest) (before : List Write)
    (res : BudgetReservationResult) (s : Store schema) : Prop :=
  faulty = false → ∃ reservationEpochs, MarkerThere f reservationEpochs s ∧
    alertsPut i s = f.alertOperations reservationEpochs res.crossedThresholds ++ before ∧
      ∀ threshold ∈ res.crossedThresholds, threshold ∈ budgetAlertThresholds

theorem FinalizeFails.rely {before : List Write} (e : Failure) (s s' : Store schema)
    (hs : (discipline ok extra).protocol.rely i s s') (h : FinalizeFails faulty i before e s) :
    FinalizeFails faulty i before e s' := fun hf ↦ (alertsPut_rely hs).trans (h hf)

theorem FinalizeReturns.rely {before : List Write} {res : BudgetReservationResult}
    (hs : (discipline ok extra).protocol.rely i s s')
    (h : FinalizeReturns faulty i f before res s) : FinalizeReturns faulty i f before res s' := by
  intro hf
  obtain ⟨reservationEpochs, hthere, hput, hcrossed⟩ := h hf
  exact ⟨reservationEpochs, hthere.rely hs, (alertsPut_rely hs).trans hput, hcrossed⟩

theorem finalizeFails_of_faulty {before : List Write} {e : Failure} (hf : faulty = true) :
    FinalizeFails faulty i before e s := by
  intro hf'
  rw [hf] at hf'
  cases hf'

theorem holds_finalizeResult {before : List Write} {idempotent : Bool} {crossed : List ℚ}
    (hthere : MarkerThere f reservationEpochs s)
    (hput : faulty = false →
      alertsPut i s = f.alertOperations reservationEpochs crossed ++ before)
    (hcrossed : ∀ threshold ∈ crossed, threshold ∈ budgetAlertThresholds) :
    Holds faulty extra (discipline ok extra).protocol i (FinalizeFails faulty i before)
      (FinalizeReturns faulty i f before) (f.result idempotent crossed) s := by
  set P := (discipline ok extra).protocol
  unfold FinalizeRequest.result
  refine Holds.bind FinalizeFails.rely (holds_budgetStatesFromTable FinalizeFails.rely
    (fun states s₁ hs₁ _ _ _ ↦ ?_) fun s₁ hf _ _ ↦ finalizeFails_of_faulty hf)
  refine Holds.pure fun s₂ hs₂ _ hf ↦ ⟨reservationEpochs, ?_, ?_, hcrossed⟩
  · exact hthere.rely (P.trans i _ _ _ hs₁ hs₂)
  · exact (alertsPut_rely (P.trans i _ _ _ hs₁ hs₂)).trans (hput hf)

theorem holds_newAlerts {E : Failure → Store schema → Prop}
    (hE : ∀ e s s', (discipline ok extra).protocol.rely i s s' → E e s → E e s')
    {ident : String} {limit delta : ℚ} {epoch : ℕ} {total : PyFloat} {thresholds : List ℚ}
    {Q : List ℚ → Store schema → Prop}
    (hok : ∀ crossed s', (discipline ok extra).protocol.rely i s s' →
      (discipline ok extra).protocol.inv s' → (∀ threshold ∈ crossed, threshold ∈ thresholds) →
      (∀ threshold ∈ thresholds, FinalizeRequest.reaches total delta (limit * threshold) = true →
        threshold ∈ crossed ∨ (alertAt s'.table ident epoch threshold).isSome = true) →
      Q crossed s')
    (herror : ∀ s', faulty = true → (discipline ok extra).protocol.rely i s s' →
      (discipline ok extra).protocol.inv s' → E (.store .unavailable) s') :
    Holds faulty extra (discipline ok extra).protocol i E Q
      (FinalizeRequest.newAlerts ident limit epoch total delta thresholds) s := by
  set P := (discipline ok extra).protocol
  induction thresholds generalizing s Q with
  | nil => exact Holds.pure fun s' hs' hinv ↦ hok [] s' hs' hinv (by simp) (by simp)
  | cons threshold rest ih =>
      unfold FinalizeRequest.newAlerts
      split_ifs with hreaches
      · refine Holds.bind hE (Holds.get (fun s₁ hs₁ hinv₁ s₂ hs₂ hinv₂ _ ↦ ?_) herror)
        have hs : P.rely i s s₂ := P.trans i _ _ _ hs₁ hs₂
        refine Holds.bind hE (ih (fun crossed s₃ hs₃ _ hsub hcover _ ↦ ?_)
          fun s₃ hf hs₃ hinv₃ ↦ herror s₃ hf (P.trans i _ _ _ hs hs₃) hinv₃)
        have hs₁₃ : P.rely i s₁ s₃ := P.trans i _ _ _ hs₂ hs₃
        have hcover' : ∀ s', P.rely i s₃ s' → ∀ threshold' ∈ rest,
            FinalizeRequest.reaches total delta (limit * threshold') = true →
            threshold' ∈ crossed ∨ (alertAt s'.table ident epoch threshold').isSome = true :=
          fun s' hs' threshold' hmem hr ↦
            (hcover threshold' hmem hr).imp_right fun ha ↦ rely_alertAt hs' ha
        cases ha : s₁.table.lookup (Key.alert .quota ident epoch (thresholdPct threshold)) with
        | some a =>
            refine Holds.pure fun s₄ hs₄ hinv₄ ↦ hok crossed s₄ ?_ hinv₄ ?_ ?_
            · exact P.trans i _ _ _ hs (P.trans i _ _ _ hs₃ hs₄)
            · exact fun t ht ↦ List.mem_cons_of_mem _ (hsub t ht)
            · rw [List.forall_mem_cons]
              refine ⟨fun _ ↦ .inr ?_, hcover' s₄ hs₄⟩
              have hsome : (alertAt s₁.table ident epoch threshold).isSome = true := by
                rw [alertAt, ha]
                rfl
              exact rely_alertAt (P.trans i _ _ _ hs₁₃ hs₄) hsome
        | none =>
            refine Holds.pure fun s₄ hs₄ hinv₄ ↦ hok (threshold :: crossed) s₄ ?_ hinv₄ ?_ ?_
            · exact P.trans i _ _ _ hs (P.trans i _ _ _ hs₃ hs₄)
            · rw [List.forall_mem_cons]
              exact ⟨List.mem_cons_self, fun t ht ↦ List.mem_cons_of_mem _ (hsub t ht)⟩
            · rw [List.forall_mem_cons]
              refine ⟨fun _ ↦ .inl List.mem_cons_self, fun t ht hr ↦ ?_⟩
              exact (hcover' s₄ hs₄ t ht hr).imp_left (List.mem_cons_of_mem _)
      · refine ih (fun crossed s₁ hs₁ hinv₁ hsub hcover ↦ hok crossed s₁ hs₁ hinv₁ ?_ ?_) herror
        · exact fun t ht ↦ List.mem_cons_of_mem _ (hsub t ht)
        · rw [List.forall_mem_cons]
          exact ⟨fun hr ↦ absurd hr hreaches, hcover⟩

theorem holds_crossedThresholds {E : Failure → Store schema → Prop}
    (hE : ∀ e s s', (discipline ok extra).protocol.rely i s s' → E e s → E e s')
    {states : List (Scope × SpendCounterState)} {Q : List ℚ → Store schema → Prop}
    (hok : ∀ crossed s', (discipline ok extra).protocol.rely i s s' →
      (discipline ok extra).protocol.inv s' →
      (∀ threshold ∈ crossed, threshold ∈ budgetAlertThresholds) →
      Noticed s'.table f reservationEpochs states crossed → Q crossed s')
    (herror : ∀ s', faulty = true → (discipline ok extra).protocol.rely i s s' →
      (discipline ok extra).protocol.inv s' → E (.store .unavailable) s') :
    Holds faulty extra (discipline ok extra).protocol i E Q
      (f.crossedThresholds reservationEpochs states) s := by
  unfold FinalizeRequest.crossedThresholds
  split
  next ident limit quota hcounter hquota =>
    split_ifs with hwatched
    · refine holds_newAlerts hE (fun crossed s₁ hs₁ hinv₁ hsub hcover ↦ ?_) herror
      refine hok crossed s₁ hs₁ hinv₁ hsub fun ident' limit' quota' hcounter' _ hquota' _ ↦ ?_
      rw [hcounter] at hcounter'
      rw [hquota] at hquota'
      cases hcounter'
      cases hquota'
      exact hcover
    · refine Holds.pure fun s₁ hs₁ hinv₁ ↦ hok [] s₁ hs₁ hinv₁ (by simp) ?_
      intro ident' limit' quota' hcounter' hpos hquota' hepoch
      rw [hcounter] at hcounter'
      rw [hquota] at hquota'
      cases hcounter'
      cases hquota'
      exact absurd ⟨hpos, hepoch⟩ hwatched
  next hother =>
    refine Holds.pure fun s₁ hs₁ hinv₁ ↦ hok [] s₁ hs₁ hinv₁ (by simp) ?_
    intro ident limit quota hcounter _ hquota _
    exact absurd hquota (hother ident limit quota hcounter)

theorem epochIn_le_of_not_backwards {epochs : List (Scope × ℕ)}
    (h : ¬ (reservationEpochs.any fun e ↦ decide (epochIn epochs e.1 < e.2)) = true)
    (scope : Scope) : epochIn reservationEpochs scope ≤ epochIn epochs scope := by
  cases hlookup : reservationEpochs.lookup scope with
  | none =>
      have hzero : epochIn reservationEpochs scope = 0 := by rw [epochIn, hlookup, Option.getD_none]
      rw [hzero]
      exact Nat.zero_le _
  | some e =>
      have he : epochIn reservationEpochs scope = e := by rw [epochIn, hlookup, Option.getD_some]
      have hmem : (scope, e) ∈ reservationEpochs := by
        obtain ⟨l₁, l₂, hl, -⟩ := List.lookup_eq_some_iff.mp hlookup
        rw [hl]
        simp
      rw [List.any_eq_true] at h
      have hnot : ¬ epochIn epochs scope < e := fun hlt ↦ h ⟨_, hmem, decide_eq_true hlt⟩
      omega

/-- One attempt after the other: at most one of them commits, and then it returns. -/
theorem holds_reconcile {before : List Write} (hvalid : f.Valid) (attempts : ℕ)
    (hthere : MarkerThere f reservationEpochs s)
    (hput : faulty = false → alertsPut i s = before) :
    Holds faulty extra (discipline ok extra).protocol i (FinalizeFails faulty i before)
      (FinalizeReturns faulty i f before) (f.reconcile reservationEpochs attempts) s := by
  set P := (discipline ok extra).protocol
  induction attempts generalizing s with
  | zero => exact Holds.throw fun s' hs' _ hf ↦ (alertsPut_rely hs').trans (hput hf)
  | succ attempts ih =>
      unfold FinalizeRequest.reconcile
      refine Holds.bind FinalizeFails.rely (holds_budgetStatesFromTable FinalizeFails.rely
        (fun states s₁ hs₁ hinv₁ hread _ ↦ ?_) fun s' hf _ _ ↦ finalizeFails_of_faulty hf)
      by_cases hbackwards : (reservationEpochs.any fun e ↦
          decide (epochIn (epochsOf states) e.1 < e.2)) = true
      · rw [if_pos hbackwards]
        refine Holds.bind FinalizeFails.rely (Holds.throw fun s₂ hs₂ _ hf ↦ ?_)
        exact (alertsPut_rely (P.trans i _ _ _ hs₁ hs₂)).trans (hput hf)
      rw [if_neg hbackwards]
      beta_reduce
      have hread' : ∀ s', P.rely i s₁ s' → ∀ c ∈ f.normalized,
          epochOf s'.table c.1 c.2.1 = epochIn reservationEpochs c.1 →
            epochIn (epochsOf states) c.1 = epochIn reservationEpochs c.1 := by
        intro s' hs' c hc hcurrent
        have hle := (hread.rely hs').epochIn_le hvalid.canonical.nodup c hc
        have hge := epochIn_le_of_not_backwards hbackwards c.1
        omega
      refine Holds.bind FinalizeFails.rely (holds_crossedThresholds FinalizeFails.rely
        (fun crossed s₂ hs₂ _ hsub hnoticed _ ↦ ?_) fun s' hf _ _ ↦ finalizeFails_of_faulty hf)
      have hs : P.rely i s s₂ := P.trans i _ _ _ hs₁ hs₂
      have hnoticed' : ∀ s', P.rely i s₂ s' →
          Noticed s'.table f reservationEpochs states crossed :=
        fun s' hs' ident limit quota hc hpos hq he t ht hr ↦
          (hnoticed ident limit quota hc hpos hq he t ht hr).imp_right fun ha ↦ rely_alertAt hs' ha
      have hcontinue : ∀ exc s₃, MarkerThere f reservationEpochs s₃ →
          (faulty = false → alertsPut i s₃ = before) → Holds faulty extra P i
          (FinalizeFails faulty i before) (FinalizeReturns faulty i f before)
          (do
            let latest ← f.readMarker
            if latest.any fun m ↦ decide (m.state = .finalized) then
              if latest.any fun m ↦ decide (m.actualCost ≠ some f.actual) then
                Client.raise "budget reservation finalized concurrently with another cost"
              f.result true []
            else if (List.range crossed.length).any fun i ↦
                exc.conditionFailed ((f.operations reservationEpochs states).length + i) then
              f.reconcile reservationEpochs attempts
            else
              let current ← budgetStatesFromTable f.normalized
              if epochsOf current ≠ epochsOf states then f.reconcile reservationEpochs attempts
              else throw exc) s₃ := by
        intro exc s₃ hthere₃ hput₃
        refine Holds.bind FinalizeFails.rely (Holds.get (fun s₄ hs₄ _ s₅ hs₅ _ _ ↦ ?_)
          fun s' hf _ _ ↦ finalizeFails_of_faulty hf)
        have hs₃₅ : P.rely i s₃ s₅ := P.trans i _ _ _ hs₄ hs₅
        have hput₅ : ∀ s', P.rely i s₅ s' → faulty = false → alertsPut i s' = before :=
          fun s' hs' hf ↦ (alertsPut_rely (P.trans i _ _ _ hs₃₅ hs')).trans (hput₃ hf)
        have hthere₅ : ∀ s', P.rely i s₅ s' → MarkerThere f reservationEpochs s' :=
          fun s' hs' ↦ hthere₃.rely (P.trans i _ _ _ hs₃₅ hs')
        split_ifs
        · exact Holds.bind FinalizeFails.rely (Holds.throw fun s' hs' _ ↦ hput₅ s' hs')
        · refine holds_finalizeResult (hthere₅ s₅ (P.refl i s₅)) (fun hf ↦ ?_) (by simp)
          rw [hput₅ s₅ (P.refl i s₅) hf]
          unfold FinalizeRequest.alertOperations
          split <;> rfl
        · exact ih (hthere₅ s₅ (P.refl i s₅)) (hput₅ s₅ (P.refl i s₅))
        · refine Holds.bind FinalizeFails.rely (holds_budgetStatesFromTable FinalizeFails.rely
            (fun current s₆ hs₆ _ _ _ ↦ ?_) fun s' hf _ _ ↦ finalizeFails_of_faulty hf)
          split_ifs
          · exact ih (hthere₅ s₆ hs₆) (hput₅ s₆ hs₆)
          · exact Holds.throw fun s' hs' _ ↦ hput₅ s' (P.trans i _ _ _ hs₆ hs')
      refine Holds.bind FinalizeFails.rely (Holds.attempt (Holds.transact ?_ ?_ ?_ ?_))
      · intro s₃ hs₃ hinv₃ hacc hextra
        obtain ⟨m, hm, hmatches, hepochs⟩ := hthere.rely (P.trans i _ _ _ hs hs₃)
        exact Discipline.keeps hinv₃ hacc ⟨.finalize f m reservationEpochs states crossed hvalid hm
          hmatches hepochs hread.scopes (hread' s₃ (P.trans i _ _ _ hs₂ hs₃)) (hnoticed' s₃ hs₃), hextra⟩
      · intro s₃ hs₃ _ hacc s₄ hs₄ _ s₅ hs₅ _ _
        have hafter := P.trans i _ _ _ hs₄ hs₅
        refine holds_finalizeResult (((hthere.rely (P.trans i _ _ _ hs hs₃)).commit hacc).rely hafter)
          (fun hf ↦ ?_) hsub
        rw [alertsPut_rely hafter, alertsPut_commit, alertsAmong_transaction,
          alertsPut_rely (P.trans i _ _ _ hs hs₃), hput hf]
      · intro s₃ hs₃ _ _ s₄ hs₄ _ s₅ hs₅ _ _
        have hs₅' : P.rely i s s₅ :=
          P.trans i _ _ _ hs (P.trans i _ _ _ hs₃ (P.trans i _ _ _ hs₄ hs₅))
        exact hcontinue _ s₅ (hthere.rely hs₅') fun hf ↦ (alertsPut_rely hs₅').trans (hput hf)
      · intro s₃ hf hs₃ _ s₄ hs₄ _ s₅ hs₅ _ _
        refine hcontinue _ s₅ ?_ fun hf' ↦ by rw [hf] at hf'; cases hf'
        have hthere₃ := hthere.rely (P.trans i _ _ _ hs hs₃)
        rcases hs₄ with hs₄ | ⟨hacc, hs₄⟩
        · exact hthere₃.rely (P.trans i _ _ _ hs₄ hs₅)
        · exact (hthere₃.commit hacc).rely (P.trans i _ _ _ hs₄ hs₅)

theorem alertOperations_nil : f.alertOperations reservationEpochs [] = [] := by
  unfold FinalizeRequest.alertOperations
  split <;> rfl

theorem holds_idempotentResult {before : List Write}
    (hthere : MarkerThere f reservationEpochs s)
    (hput : faulty = false → alertsPut i s = before) :
    Holds faulty extra (discipline ok extra).protocol i (FinalizeFails faulty i before)
      (FinalizeReturns faulty i f before) (f.result true []) s := by
  refine holds_finalizeResult hthere (fun hf ↦ ?_) (by simp)
  rw [alertOperations_nil, List.nil_append, hput hf]

theorem holds_settle {before : List Write} {m : Marker} (hvalid : f.Valid)
    (hepochs : budgetEpochsFromMarker m f.normalized = pure reservationEpochs)
    (hthere : MarkerThere f reservationEpochs s)
    (hput : faulty = false → alertsPut i s = before) :
    Holds faulty extra (discipline ok extra).protocol i (FinalizeFails faulty i before)
      (FinalizeReturns faulty i f before) (f.settle m) s := by
  set P := (discipline ok extra).protocol
  unfold FinalizeRequest.settle
  rw [hepochs, Client.pure_bind]
  have hintent : alertsAmong [f.intent] = [] := rfl
  have hcontinue : ∀ exc s₁, MarkerThere f reservationEpochs s₁ →
      (faulty = false → alertsPut i s₁ = before) → Holds faulty extra P i
      (FinalizeFails faulty i before) (FinalizeReturns faulty i f before)
      (do
        let latest ← f.readMarker
        if latest.any fun m ↦ decide (m.state = .finalized ∧ m.actualCost = some f.actual) then
          f.result true []
        else if latest.any fun m ↦ decide (m.state = .reserved ∧
            m.settlementState = some .reported ∧ m.settlementAmount ≠ some f.actual) then
          Client.raise "budget reservation was reported with another cost"
        else throw exc) s₁ := by
    intro exc s₁ hthere₁ hput₁
    refine Holds.bind FinalizeFails.rely (Holds.get (fun s₂ hs₂ _ s₃ hs₃ _ _ ↦ ?_)
      fun s' hf _ _ ↦ finalizeFails_of_faulty hf)
    have hs : P.rely i s₁ s₃ := P.trans i _ _ _ hs₂ hs₃
    have hput₃ : ∀ s', P.rely i s₃ s' → faulty = false → alertsPut i s' = before :=
      fun s' hs' hf ↦ (alertsPut_rely (P.trans i _ _ _ hs hs')).trans (hput₁ hf)
    split_ifs
    · exact holds_idempotentResult (hthere₁.rely hs) (hput₃ s₃ (P.refl i s₃))
    · exact Holds.throw fun s' hs' _ ↦ hput₃ s' hs'
    · exact Holds.throw fun s' hs' _ ↦ hput₃ s' hs'
  refine Holds.bind FinalizeFails.rely (Holds.attempt (Holds.update ?_ ?_ ?_ ?_))
  · exact fun s₁ _ hinv₁ hacc hextra ↦ Discipline.keeps hinv₁ hacc ⟨.report f hvalid, hextra⟩
  · intro s₁ hs₁ _ hacc s₂ hs₂ _ s₃ hs₃ _ _
    have hafter := P.trans i _ _ _ hs₂ hs₃
    refine holds_reconcile hvalid 3 (((hthere.rely hs₁).commit hacc).rely hafter) fun hf ↦ ?_
    rw [alertsPut_rely hafter, alertsPut_commit, hintent, List.nil_append, alertsPut_rely hs₁,
      hput hf]
  · intro s₁ hs₁ _ _ s₂ hs₂ _ s₃ hs₃ _ _
    have hs₃' : P.rely i s s₃ := P.trans i _ _ _ hs₁ (P.trans i _ _ _ hs₂ hs₃)
    exact hcontinue _ s₃ (hthere.rely hs₃') fun hf ↦ (alertsPut_rely hs₃').trans (hput hf)
  · intro s₁ hf hs₁ _ s₂ hs₂ _ s₃ hs₃ _ _
    refine hcontinue _ s₃ ?_ fun hf' ↦ by rw [hf] at hf'; cases hf'
    rcases hs₂ with hs₂ | ⟨hacc, hs₂⟩
    · exact (hthere.rely hs₁).rely (P.trans i _ _ _ hs₂ hs₃)
    · exact ((hthere.rely hs₁).commit hacc).rely (P.trans i _ _ _ hs₂ hs₃)

theorem holds_finalizeRun (hvalid : f.Valid) :
    Holds faulty extra (discipline ok extra).protocol i (FinalizeFails faulty i (alertsPut i s))
      (FinalizeReturns faulty i f (alertsPut i s)) f.run s := by
  set P := (discipline ok extra).protocol
  unfold FinalizeRequest.run
  refine Holds.bind FinalizeFails.rely (Holds.get (fun s₁ hs₁ hinv₁ s₂ hs₂ _ _ ↦ ?_)
    fun s' hf _ _ ↦ finalizeFails_of_faulty hf)
  have hs : P.rely i s s₂ := P.trans i _ _ _ hs₁ hs₂
  have hput : ∀ s', P.rely i s₂ s' → faulty = false → alertsPut i s' = alertsPut i s :=
    fun s' hs' _ ↦ alertsPut_rely (P.trans i _ _ _ hs hs')
  cases hm : s₁.table.lookup f.markerKey.key with
  | none => exact Holds.throw fun s' hs' _ ↦ hput s' hs'
  | some marker =>
      by_cases hmatches : f.Matches marker
      · obtain ⟨epochs, hepochs, hpure⟩ :=
          budgetEpochsFromMarker_of_kept ((inv_ledger hinv₁).markers _ _ hm)
        rw [hmatches.2.1] at hpure
        have hthere : MarkerThere f epochs s₂ :=
          MarkerThere.rely ⟨marker, hm, hmatches, hepochs⟩ hs₂
        simp only [hmatches, not_true_eq_false, if_false]
        cases marker.state with
        | reserved => exact holds_settle hvalid hpure hthere (hput s₂ (P.refl i s₂))
        | finalized =>
            simp only
            split_ifs
            · exact Holds.bind FinalizeFails.rely (Holds.throw fun s' hs' _ ↦ hput s' hs')
            · exact holds_idempotentResult hthere (hput s₂ (P.refl i s₂))
      · simp only [hmatches, not_false_eq_true, if_true]
        exact Holds.bind FinalizeFails.rely (Holds.throw fun s' hs' _ ↦ hput s' hs')

/-- What a finalization owes when nothing fails. -/
def Finalized (faulty : Bool) (i : ℕ) (prepared : Except PyError FinalizeRequest)
    (before : List Write) (result : Except PyError (Option BudgetReservationResult))
    (s : Store schema) : Prop :=
  faulty = false → match prepared, result with
    | .ok f, .ok (some res) => FinalizeReturns faulty i f before res s
    | .ok _, .error _ => False
    | .error _, .ok _ => False
    | _, _ => alertsPut i s = before

theorem Finalized.rely {prepared : Except PyError FinalizeRequest} {before : List Write}
    {result : Except PyError (Option BudgetReservationResult)}
    (h : Finalized faulty i prepared before result s)
    (hs : (discipline ok extra).protocol.rely i s s') :
    Finalized faulty i prepared before result s' := by
  intro hf
  have h' := h hf
  rcases prepared with e | f
  · rcases result with e' | _
    · exact (alertsPut_rely hs).trans h'
    · exact h'
  · rcases result with e' | _ | res
    · exact h'
    · exact (alertsPut_rely hs).trans h'
    · exact FinalizeReturns.rely hs h'

theorem safe_finalizeBudgetReservation {requestId : String}
    {reservations : List (Scope × String × PyNum)} {reservedAmount actualCost : PyNum} {now : ℤ} :
    Safe ((machine schema faulty).restrict (Commits extra)) (discipline ok extra).protocol i
      (Finalized faulty i (prepareFinalize requestId reservations reservedAmount actualCost now)
        (alertsPut i s))
      (finalizeBudgetReservation requestId reservations reservedAmount actualCost now) s := by
  set P := (discipline ok extra).protocol
  unfold finalizeBudgetReservation
  cases hf : prepareFinalize requestId reservations reservedAmount actualCost now with
  | error e => exact Safe.done fun s' hs' _ _ ↦ alertsPut_rely hs'
  | ok f =>
      have hrun : Holds faulty extra P i (FinalizeFails faulty i (alertsPut i s))
          (FinalizeReturns faulty i f (alertsPut i s)) f.run s :=
        holds_finalizeRun (prepareFinalize_ok hf).1
      have hnone := safe_orNone (R := fun o s' ↦ Finalized faulty i (.ok f) (alertsPut i s) (.ok o) s')
        (fun o s₁ s₂ hs₂ h ↦ h.rely hs₂) (Holds.imp (fun e s₁ h hf ↦ h hf) (fun a s₁ h _ ↦ h) hrun)
      refine Safe.bind (Safe.imp (fun o s₁ ho _ ↦ ?_) hnone)
      exact Safe.done fun s₂ hs₂ _ ↦ ho.rely hs₂

end Finalizing

/-! ## The other operations -/

section Others

variable {ok : Call → Prop} {extra : Commit schema → Prop} {faulty : Bool} {i : ℕ}
  {s : Store schema}

theorem safe_releaseMarkers (now : ℤ) (markers : List Marker) (released : ℕ) :
    Safe ((machine schema faulty).restrict (Commits extra)) (discipline ok extra).protocol i
      (fun _ _ ↦ True) (releaseMarkers now markers released) s := by
  induction markers generalizing released s with
  | nil => exact Safe.done fun _ _ _ ↦ trivial
  | cons marker rest ih =>
      unfold releaseMarkers
      split
      · exact Safe.done fun _ _ _ ↦ trivial
      · exact ih released
      · refine Safe.bind (Safe.imp (fun result s₁ _ _ ↦ ?_) safe_finalizeBudgetReservation)
        split
        · exact Safe.done fun _ _ _ ↦ trivial
        · exact ih released
        · exact ih released
        · exact ih (released + 1)

theorem holds_queryReservations (scope : Scope) (ident : String) (pages : ℕ) (start : Option Key) :
    Holds faulty extra (discipline ok extra).protocol i (fun _ _ ↦ True) (fun _ _ ↦ True)
      (queryReservations scope ident pages start) s := by
  induction pages generalizing start s with
  | zero => exact Holds.throw fun _ _ _ ↦ trivial
  | succ pages ih =>
      unfold queryReservations
      refine Holds.bind (fun _ _ _ _ _ ↦ trivial)
        (Holds.query (fun s₁ _ _ items last _ s₂ _ _ _ ↦ ?_) fun _ _ _ _ ↦ trivial)
      cases last with
      | none => exact Holds.pure fun _ _ _ ↦ trivial
      | some k =>
          refine Holds.bind (fun _ _ _ _ _ ↦ trivial) (Holds.imp (fun _ _ _ ↦ trivial)
            (fun rest s₃ _ _ ↦ ?_) (ih (some k)))
          exact Holds.pure fun _ _ _ ↦ trivial

theorem safe_releaseExpired {scope : Scope} {ident : String} {now : ℤ} {pages : ℕ} :
    Safe ((machine schema faulty).restrict (Commits extra)) (discipline ok extra).protocol i
      (fun _ _ ↦ True) (releaseExpiredBudgetReservations scope ident now pages) s := by
  unfold releaseExpiredBudgetReservations
  split_ifs
  · exact Safe.done fun _ _ _ ↦ trivial
  · refine Safe.bind (Safe.imp (fun result s₁ _ _ ↦ ?_)
      (holds_queryReservations scope ident pages none))
    split
    · exact Safe.done fun _ _ _ ↦ trivial
    · refine Safe.bind (Safe.imp (fun released s₂ _ _ ↦ ?_) (safe_releaseMarkers now _ 0))
      split <;> exact Safe.done fun _ _ _ ↦ trivial

theorem safe_addSpendState {scope : Scope} {ident : String} {cost : PyNum}
    (hok : ok (.addSpendState scope ident cost)) :
    Safe ((machine schema faulty).restrict (Commits extra)) (discipline ok extra).protocol i
      (fun _ s' ↦ faulty = false → alertsPut i s' = alertsPut i s)
      (addSpendState scope ident cost) s := by
  set P := (discipline ok extra).protocol
  unfold addSpendState
  split
  · exact Safe.done fun s' hs' _ _ ↦ alertsPut_rely hs'
  next amount hamount =>
    have hnonneg : 0 ≤ amount := by
      cases hident : validateSpendIdentity ident with
      | error e => simp [hident, bind, Except.bind] at hamount
      | ok _ => exact budgetAmount_nonneg (by simpa [hident, bind, Except.bind] using hamount)
    have hupdate : Holds faulty extra P i (fun _ s' ↦ faulty = false → alertsPut i s' = alertsPut i s)
        (fun _ s' ↦ faulty = false → alertsPut i s' = alertsPut i s)
        (Client.update (S := schema) (.addSpend scope ident amount)) s := by
      refine Holds.update ?_ ?_ ?_ ?_
      · exact fun s₁ _ hinv hacc hextra ↦
          Discipline.keeps hinv hacc ⟨.addSpend scope ident cost amount hnonneg hok, hextra⟩
      · intro s₁ hs₁ _ _ s₂ hs₂ _ _
        rw [alertsPut_rely hs₂, alertsPut_commit, alertsPut_rely hs₁]
        rfl
      · exact fun s₁ hs₁ _ _ s₂ hs₂ _ _ ↦ alertsPut_rely (P.trans i _ _ _ hs₁ hs₂)
      · intro s₁ hf _ _ s₂ _ _ hf'
        rw [hf] at hf'
        cases hf'
    have hnone := safe_orNone
      (R := fun _ s' ↦ faulty = false → alertsPut i s' = alertsPut i s)
      (fun o s₁ s₂ hs₂ h hf ↦ (alertsPut_rely hs₂).trans (h hf)) hupdate
    refine Safe.bind (Safe.imp (fun o s₁ ho _ ↦ ?_) hnone)
    exact Safe.done fun s₂ hs₂ _ hf ↦ (alertsPut_rely hs₂).trans (ho hf)

theorem safe_resetSpendCounters {counters : List (Scope × String)} :
    Safe ((machine schema faulty).restrict (Commits extra)) (discipline ok extra).protocol i
      (fun _ s' ↦ faulty = false → alertsPut i s' = alertsPut i s)
      (resetSpendCounters counters) s := by
  set P := (discipline ok extra).protocol
  have hsame : ∀ (s' : Store schema) (result : Except PyError
      (Option (List (Scope × SpendCounterState)))),
      (faulty = false → alertsPut i s' = alertsPut i s) →
      Safe ((machine schema faulty).restrict (Commits extra)) P i
        (fun _ s'' ↦ faulty = false → alertsPut i s'' = alertsPut i s) (.done result) s' :=
    fun s' result h ↦ Safe.done fun s'' hs'' _ hf ↦ (alertsPut_rely hs'').trans (h hf)
  unfold resetSpendCounters
  split_ifs
  · exact hsame s _ fun _ ↦ rfl
  · exact hsame s _ fun _ ↦ rfl
  split
  · exact hsame s _ fun _ ↦ rfl
  have hE : ∀ (e : Failure) (s₁ s₂ : Store schema), P.rely i s₁ s₂ →
      (faulty = false → alertsPut i s₁ = alertsPut i s) →
      (faulty = false → alertsPut i s₂ = alertsPut i s) :=
    fun _ s₁ s₂ hs₂ h hf ↦ (alertsPut_rely hs₂).trans (h hf)
  refine Safe.bind (Safe.imp (fun o s₁ ho _ ↦ hsame s₁ _ ho) (safe_orNone
    (R := fun _ s' ↦ faulty = false → alertsPut i s' = alertsPut i s)
    (fun o s₁ s₂ hs₂ h hf ↦ (alertsPut_rely hs₂).trans (h hf)) ?_))
  have hreset : alertsAmong (counters.map fun c ↦ .resetCounter c.1 c.2) = [] := by
    refine alertsAmong_eq_nil fun w hw scope ident epoch pct heq ↦ ?_
    obtain ⟨c, -, rfl⟩ := List.mem_map.mp hw
    cases heq
  refine Holds.bind hE (Holds.transact ?_ ?_ ?_ ?_)
  · exact fun s₁ _ hinv hacc hextra ↦ Discipline.keeps hinv hacc ⟨.reset counters, hextra⟩
  · intro s₁ hs₁ _ _ s₂ hs₂ _ _
    refine holds_budgetStatesFromTable hE (fun states s₃ hs₃ _ _ _ ↦ ?_) fun s₃ hf _ _ hf' ↦ ?_
    · rw [alertsPut_rely hs₃, alertsPut_rely hs₂, alertsPut_commit, hreset, List.nil_append,
        alertsPut_rely hs₁]
    · rw [hf] at hf'
      cases hf'
  · exact fun s₁ hs₁ _ _ s₂ hs₂ _ _ ↦ alertsPut_rely (P.trans i _ _ _ hs₁ hs₂)
  · intro s₁ hf _ _ s₂ _ _ hf'
    rw [hf] at hf'
    cases hf'

end Others

/-! ## Runs -/

section Runs

variable {ok : Call → Prop} {extra : Commit schema → Prop} {faulty : Bool}

/-- What a call owes at its end, started with no commit of its own. -/
def Owed (faulty : Bool) (i : ℕ) (c : Call) (s₀ : Store schema) (outcome : Outcome)
    (s : Store schema) : Prop :=
  Discipline.own i s₀ = [] ∧ match c, outcome with
    | .reserveBudget requestId reservations amount now leaseSeconds, .reservation result =>
        Reserved faulty i (prepareReserve requestId reservations amount now leaseSeconds) s₀ result s
    | .finalizeBudgetReservation requestId reservations reservedAmount actualCost now,
        .finalization result =>
        Finalized faulty i
          (prepareFinalize requestId reservations reservedAmount actualCost now) [] result s
    | .releaseExpiredBudgetReservations _ _ _ _, .released _ => True
    | .addSpendState _ _ _, .added _ => faulty = false → alertsPut i s = []
    | .resetSpendCounters _, .reset _ => faulty = false → alertsPut i s = []
    | _, _ => False

theorem safe_body {c : Call} (hok : ok c) {i : ℕ} {s : Store schema}
    (hown : Discipline.own i s = []) :
    Safe ((machine schema faulty).restrict (Commits extra)) (discipline ok extra).protocol i
      (Owed faulty i c s) c.body s := by
  have halerts : alertsPut i s = [] := by rw [alertsPut, hown, List.flatMap_nil]
  have hsame : ∀ s₁ s₂, (discipline ok extra).protocol.rely i s₁ s₂ →
      (faulty = false → alertsPut i s₁ = alertsPut i s) → faulty = false → alertsPut i s₂ = [] :=
    fun s₁ s₂ hs₂ h hf ↦ (alertsPut_rely hs₂).trans ((h hf).trans halerts)
  cases c with
  | reserveBudget requestId reservations amount now leaseSeconds =>
      refine Safe.bind (Safe.imp (fun result s₁ hresult _ ↦ ?_) (safe_reserveBudget hok))
      exact Safe.done fun s₂ hs₂ _ ↦ ⟨hown, hresult.rely hs₂⟩
  | finalizeBudgetReservation requestId reservations reservedAmount actualCost now =>
      refine Safe.bind (Safe.imp (fun result s₁ hresult _ ↦ ?_) safe_finalizeBudgetReservation)
      refine Safe.done fun s₂ hs₂ _ ↦ ⟨hown, ?_⟩
      have hfinal := hresult.rely hs₂
      rwa [halerts] at hfinal
  | releaseExpiredBudgetReservations scope ident now pages =>
      refine Safe.bind (Safe.imp (fun result s₁ _ _ ↦ ?_) safe_releaseExpired)
      exact Safe.done fun s₂ _ _ ↦ ⟨hown, trivial⟩
  | addSpendState scope ident cost =>
      refine Safe.bind (Safe.imp (fun result s₁ hresult _ ↦ ?_) (safe_addSpendState hok))
      exact Safe.done fun s₂ hs₂ _ ↦ ⟨hown, hsame s₁ s₂ hs₂ hresult⟩
  | resetSpendCounters counters =>
      refine Safe.bind (Safe.imp (fun result s₁ hresult _ ↦ ?_) safe_resetSpendCounters)
      exact Safe.done fun s₂ hs₂ _ ↦ ⟨hown, hsame s₁ s₂ hs₂ hresult⟩

/-- In every run of permitted calls the protocol is kept and every finished call
has done what it owes. -/
theorem poolSafe {S : Service (Op schema) Ret (Store schema) Call Outcome}
    (hmachine : S.machine = (machine schema faulty).restrict (Commits extra))
    (hbody : S.body = Call.body) (hadmits : ∀ p c, S.admits p c → ok c) {p : BudgetPool}
    (hp : Reachable S (Store.empty schema) p) :
    PoolSafe S (discipline ok extra).protocol (fun i s ↦ Discipline.own i s = [])
      (fun i c s₀ outcome s ↦ Owed faulty i c s₀ outcome s) p := by
  have hinit : (discipline ok extra).protocol.inv (Store.empty schema) :=
    ⟨rfl, fun c hc ↦ by cases hc⟩
  refine Reachable.poolSafe ⟨fun i s s' hs h ↦ (Discipline.own_rely hs).trans h, ?_, ?_⟩ hinit
    (fun _ ↦ rfl) hp
  · intro s s' hinv henv
    rw [hmachine] at henv
    have henv' : (machine schema faulty).env s s' := henv
    exact Discipline.env_rely hinv henv'
  · intro p c _ hown hc _
    rw [hmachine, hbody]
    exact safe_body (hadmits p c hc) hown

end Runs

end AxonGateway.Budget
