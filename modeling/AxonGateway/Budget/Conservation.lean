import AxonGateway.Budget.Protocol

/-!
# Conservation of the shared budget

In every reachable state, whatever clients interleave, stop or fail, the spend
of a counter is what was added to it plus what its reservations are charged.
-/

namespace AxonGateway.Budget

open ConditionalStore Interleaving Binary64

/-- The books of a state and of all that led to it. -/
structure Conserved (s : Store schema) : Prop where
  /-- The spend of the current epoch is accounted for. -/
  spend : ∀ scope ident, spendOf s.table scope ident =
    added s.log scope ident (epochOf s.table scope ident) +
      Table.total (charge scope ident (epochOf s.table scope ident)) s.table
  /-- A marker that was ever stored is stored, with its counters, epochs and amount. -/
  kept : ∀ c ∈ s.log, ∀ k m, markerAt (c.before.applyAll c.writes) k = some m →
    ∃ m', markerAt s.table k = some m' ∧ MarkerGrows m m'
  /-- A reservation is stored where none is, so it is charged once. -/
  once : ∀ c ∈ s.log, ∀ scope ident request m, .putMarker scope ident request m ∈ c.writes →
    markerAt c.before ⟨scope, ident, request⟩ = none
  /-- A finalization leaves the counters of other epochs alone. -/
  otherEpochs : ∀ c ∈ s.log, ∀ k m signature actual expiresAt seen,
    .finalizeMarker k.scope k.ident k.request signature actual expiresAt seen ∈ c.writes →
      markerAt c.before k = some m → ∀ scope ident,
        recordedEpoch m scope ≠ epochOf c.before scope ident →
          spendOf (c.before.applyAll c.writes) scope ident = spendOf c.before scope ident ∧
            epochOf (c.before.applyAll c.writes) scope ident = epochOf c.before scope ident

/-- Only a finalization finalizes a marker, and it spares the other epochs. -/
theorem otherEpochs_of_proper {ok : Call → Prop} {t : Table schema} {ws : List Write}
    (hproper : Proper ok t ws) (hacc : t.Accepts ws) {k : MarkerKey} {m : Marker}
    {signature : Signature} {actual : ℚ} {expiresAt : ℤ} {seen : Option SpendCounterState}
    (hw : .finalizeMarker k.scope k.ident k.request signature actual expiresAt seen ∈ ws)
    (hm : markerAt t k = some m) {scope : Scope} {ident : String}
    (hepoch : recordedEpoch m scope ≠ epochOf t scope ident) :
    spendOf (t.applyAll ws) scope ident = spendOf t scope ident ∧
      epochOf (t.applyAll ws) scope ident = epochOf t scope ident := by
  cases hproper with
  | reserve r epochs =>
      rcases List.mem_cons.mp hw with hw | hw
      · cases hw
      · obtain ⟨c, -, hc⟩ := List.mem_map.mp hw
        cases hc
  | report f => cases List.mem_singleton.mp hw
  | finalize f m' reservationEpochs states crossed hvalid hmarker hmatches hepochs _ hread =>
      obtain rfl : k = f.markerKey := by
        rcases mem_finalize hw with hw | ⟨c, -, -, -, hw⟩ | ⟨_, _, _, hw⟩
        · cases k
          cases hw
          rfl
        · cases hw
        · cases hw
      obtain rfl := Option.some.inj (hm.symm.trans hmarker)
      obtain ⟨hsame, hspend⟩ := row_of_finalize hacc hread scope ident
      have hother : ¬ ((∃ c ∈ f.normalized, c.1 = scope ∧ c.2.1 = ident) ∧
          epochIn reservationEpochs scope = epochOf t scope ident) := by
        rintro ⟨-, heq⟩
        rw [recordedEpoch, hepochs, Option.getD_some] at hepoch
        exact hepoch heq
      rw [if_neg hother, add_zero] at hspend
      exact ⟨hspend, hsame⟩
  | addSpend scope ident value cost => cases List.mem_singleton.mp hw
  | reset counters =>
      obtain ⟨c, -, hc⟩ := List.mem_map.mp hw
      cases hc

theorem conserved_of_inv {ok : Call → Prop} {extra : Commit schema → Prop} {s : Store schema}
    (hinv : (discipline ok extra).protocol.inv s) : Conserved s where
  spend := (inv_ledger hinv).spend
  kept c hc k m hm := by
    obtain ⟨l, hsuffix, hacc, hl⟩ := hinv.1.of_mem hc
    have hafter : Logged (c :: l) (c.before.applyAll c.writes) := ⟨rfl, hacc, hl⟩
    exact (discipline ok extra).grows_of_suffix hinv.1 hafter hsuffix k.key m hm
  once c hc scope ident request m hw := by
    obtain ⟨l, -, hacc, -⟩ := hinv.1.of_mem hc
    exact Option.isNone_iff_eq_none.mp (hacc.2 _ hw)
  otherEpochs c hc k m signature actual expiresAt seen hw hm scope ident hepoch := by
    obtain ⟨l, -, hacc, -⟩ := hinv.1.of_mem hc
    exact otherEpochs_of_proper (hinv.2 c hc).1 hacc hw hm hepoch

/-- Conservation, for any number of clients, any interleaving of their storage
steps and any of their failures. -/
theorem conserved_of_reachable {p : BudgetPool}
    (hp : Reachable (service true) (Store.empty schema) p) : Conserved p.state := by
  have hrestrict : Reachable ((service true).restrict (Commits fun _ ↦ True))
      (Store.empty schema) p := by
    refine Steps.mono ?_ ?_ ?_ ?_ hp
    · rfl
    · exact fun i o s r s' h ↦ exec_restrict_true h
    · exact fun s s' h ↦ h
    · exact fun q c h ↦ h
  have hinv : (discipline (fun _ ↦ True) fun _ ↦ True).protocol.inv p.state :=
    (poolSafe rfl rfl (fun _ _ _ ↦ trivial) hrestrict).inv
  exact conserved_of_inv hinv

/-- A reservation of 10 under a limit of 100, finalized with 4, and an addition of 1. -/
def oneReservation : BudgetPool :=
  playAll (inTurn [.reserveBudget "r" [(.quota, "q", .int 100)] (.int 10) 0 900,
    .finalizeBudgetReservation "r" [(.quota, "q", .int 100)] (.int 10) (.int 4) 5,
    .addSpendState .quota "q" (.int 1)])

theorem conserved_oneReservation :
    Conserved oneReservation.state ∧ spendOf oneReservation.state.table .quota "q" = 5 :=
  ⟨conserved_of_reachable (reachable_playAll rfl rfl (fun _ _ _ _ ↦ trivial)
    fun _ h ↦ mem_of_start_mem_inTurn h), by decide +kernel⟩

end AxonGateway.Budget
