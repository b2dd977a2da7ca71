import AxonGateway.Spend.Instance

/-!
# Slots and billing epochs

When no result is overtaken by a reset, a slot never goes back to an earlier
epoch, and beyond what the shared counter held in the slot's epoch it holds only
charges that the instance added by itself in that epoch.
-/

namespace AxonGateway.Spend.Instance

open Interleaving Budget

/-- The cases in which the code does not look at the epoch of a result: a
reservation is reported with the total read after it, a finalized total is
handed on without its epoch, and clearing a slot sets or drops its epoch. -/
def Timely (_ : ℕ) : Op → World → Prop
  | .readReserved k epoch, w => (w.current k).epoch = epoch
  | .raise k state, w => state.epoch = (w.slots k).epoch
  | .clearSpend ident (some epoch), w => (w.slots (.quota, ident)).epoch ≤ epoch
  | .clearProjectSpend ident, w => (w.slots (.project, ident)).epoch = 0
  | _, _ => True

/-- What the slots hold is bounded by the shared counters epoch by epoch. -/
structure EpochIsolated (w : World) : Prop where
  bounded : ∀ k, ∃ state ∈ w.history k, state.epoch = (w.slots k).epoch ∧
    (w.slots k).total ≤ state.total + w.own k (w.slots k).epoch
  adopted : ∀ a ∈ w.adoptions, a.state ∈ w.history a.key ∧ a.state.epoch = a.slotEpoch

structure Inv (w : World) : Prop extends EpochIsolated w where
  nonneg : ∀ k, ∀ state ∈ w.history k, 0 ≤ state.total
  own_nonneg : ∀ k epoch, 0 ≤ w.own k epoch

/-- Shared states stay on record and no slot goes back. -/
structure Grows (w w' : World) : Prop where
  log : ∀ k, w.log k <:+ w'.log k
  epoch : ∀ k, (w.slots k).epoch ≤ (w'.slots k).epoch

theorem Grows.refl (w : World) : Grows w w := ⟨fun _ ↦ List.suffix_rfl, fun _ ↦ le_rfl⟩

theorem Grows.trans {w w' w'' : World} (h : Grows w w') (h' : Grows w' w'') : Grows w w'' :=
  ⟨fun k ↦ (h.log k).trans (h'.log k), fun k ↦ (h.epoch k).trans (h'.epoch k)⟩

theorem Grows.history {w w' : World} (h : Grows w w') {k : Key} {state : SpendCounterState}
    (hstate : state ∈ w.history k) : state ∈ w'.history k := by
  rcases List.mem_append.mp hstate with hlog | hzero
  · exact List.mem_append_left _ ((h.log k).subset hlog)
  · exact List.mem_append_right _ hzero

def protocol : Protocol World where
  inv := Inv
  rely _ := Grows
  refl _ := Grows.refl
  trans _ _ _ _ := Grows.trans

theorem current_mem_history (w : World) (k : Key) : w.current k ∈ w.history k := by
  unfold World.current World.history
  cases w.log k with
  | nil => exact List.mem_singleton.mpr rfl
  | cons state log => exact List.mem_cons_self

section Shared

variable {w : World}

theorem grows_transact (w : World) (f : Key → Option SpendCounterState) :
    Grows w (w.transact f) :=
  ⟨fun _ ↦ List.suffix_append _ _, fun _ ↦ le_rfl⟩

theorem Inv.transact (hinv : Inv w) {f : Key → Option SpendCounterState}
    (hf : ∀ k, ∀ state ∈ f k, 0 ≤ state.total) : Inv (w.transact f) where
  bounded k := by
    obtain ⟨state, hstate, hrest⟩ := hinv.bounded k
    exact ⟨state, (grows_transact w f).history hstate, hrest⟩
  adopted a ha := ⟨(grows_transact w f).history (hinv.adopted a ha).1, (hinv.adopted a ha).2⟩
  nonneg k state hstate := by
    have hsplit : state ∈ (f k).toList ∨ state ∈ w.history k := by
      simpa [World.history, World.transact, or_assoc] using hstate
    rcases hsplit with hnew | hold
    · exact hf k state (Option.mem_toList.mp hnew)
    · exact hinv.nonneg k state hold
  own_nonneg := hinv.own_nonneg

/-- The step lemma for the shared counters. -/
theorem Inv.changes (hinv : Inv w) {w' : World} (h : Changes w w') : Inv w' ∧ Grows w w' := by
  have hcurrent : ∀ k, 0 ≤ (w.current k).total :=
    fun k ↦ hinv.nonneg k _ (current_mem_history w k)
  cases h with
  | addSpend key cost hcost =>
      refine ⟨hinv.transact fun k state hstate ↦ ?_, grows_transact w _⟩
      split_ifs at hstate
      · obtain rfl := Option.some.inj hstate
        exact add_nonneg (hcurrent k) hcost
      · cases hstate
  | reserve request counters amount hamount hnew hroom =>
      have hmid : Inv (w.transact fun k ↦ if k ∈ counters.map Prod.fst then
          some ⟨(w.current k).total + amount, (w.current k).epoch⟩ else none) := by
        refine hinv.transact fun k state hstate ↦ ?_
        split_ifs at hstate
        · obtain rfl := Option.some.inj hstate
          exact add_nonneg (hcurrent k) hamount.le
        · cases hstate
      exact ⟨⟨⟨hmid.bounded, hmid.adopted⟩, hmid.nonneg, hmid.own_nonneg⟩,
        ⟨(grows_transact w _).log, fun _ ↦ le_rfl⟩⟩
  | finalize request m actual hmarker hopen hactual hspent =>
      have hmid : Inv (w.transact fun k ↦ if (k, (w.current k).epoch) ∈ m.epochs then
          some ⟨(w.current k).total + (actual - m.amount), (w.current k).epoch⟩ else none) := by
        refine hinv.transact fun k state hstate ↦ ?_
        split_ifs at hstate with hk
        · obtain rfl := Option.some.inj hstate
          have hle := hspent k hk
          simp only
          linarith
        · cases hstate
      exact ⟨⟨⟨hmid.bounded, hmid.adopted⟩, hmid.nonneg, hmid.own_nonneg⟩,
        ⟨(grows_transact w _).log, fun _ ↦ le_rfl⟩⟩
  | reset keys =>
      refine ⟨hinv.transact fun k state hstate ↦ ?_, grows_transact w _⟩
      split_ifs at hstate
      · obtain rfl := Option.some.inj hstate
        exact le_rfl
      · cases hstate

end Shared

section Slots

variable {w : World} {k : Key} {state : SpendCounterState}

/-- A slot may take any epoch not before its own in which the counter was, with
a total that the counter and the own charges cover there. -/
theorem Inv.setSlot (hinv : Inv w) {slot : Slot} (hepoch : (w.slots k).epoch ≤ slot.epoch)
    (hslot : ∃ state ∈ w.history k, state.epoch = slot.epoch ∧
      slot.total ≤ state.total + w.own k slot.epoch) :
    Inv (w.setSlot k slot) ∧ Grows w (w.setSlot k slot) := by
  constructor
  · refine ⟨⟨fun k' ↦ ?_, hinv.adopted⟩, hinv.nonneg, hinv.own_nonneg⟩
    rcases eq_or_ne k' k with rfl | hne
    · simpa [World.setSlot, World.history] using hslot
    · simpa [World.setSlot, World.history, hne] using hinv.bounded k'
  · refine ⟨fun _ ↦ List.suffix_rfl, fun k' ↦ ?_⟩
    rcases eq_or_ne k' k with rfl | hne
    · simpa [World.setSlot] using hepoch
    · simp [World.setSlot, hne]

theorem Inv.takeOver (hinv : Inv w) (hstate : state ∈ w.history k) {slot : Slot}
    (hepoch : (w.slots k).epoch ≤ slot.epoch)
    (hslot : slot ≠ w.slots k → state.epoch = slot.epoch ∧
      (slot.total ≤ state.total ∨ slot.epoch = (w.slots k).epoch ∧
        slot.total ≤ max state.total (w.slots k).total)) :
    Inv (w.takeOver k state slot) ∧ Grows w (w.takeOver k state slot) := by
  unfold World.takeOver
  split_ifs with hsame
  · exact ⟨hinv, Grows.refl w⟩
  obtain ⟨hstateEpoch, htotal⟩ := hslot hsame
  have hcover : ∃ st ∈ w.history k, st.epoch = slot.epoch ∧
      slot.total ≤ st.total + w.own k slot.epoch := by
    have hown := hinv.own_nonneg k slot.epoch
    rcases htotal with hle | ⟨heq, hle⟩
    · exact ⟨state, hstate, hstateEpoch, by linarith⟩
    · rcases le_max_iff.mp hle with hle | hle
      · exact ⟨state, hstate, hstateEpoch, by linarith⟩
      · obtain ⟨st, hst, hstEpoch, hbound⟩ := hinv.bounded k
        rw [heq]
        exact ⟨st, hst, hstEpoch, hle.trans hbound⟩
  obtain ⟨hset, hgrows⟩ := hinv.setSlot hepoch hcover
  refine ⟨⟨⟨hset.bounded, fun a ha ↦ ?_⟩, hset.nonneg, hset.own_nonneg⟩,
    ⟨hgrows.log, hgrows.epoch⟩⟩
  rcases List.mem_cons.mp ha with rfl | ha
  · exact ⟨hstate, hstateEpoch⟩
  · exact hinv.adopted a ha

theorem Inv.adopt (hinv : Inv w) (hstate : state ∈ w.history k) :
    Inv (w.takeOver k state ((w.slots k).adopt state)) ∧
      Grows w (w.takeOver k state ((w.slots k).adopt state)) := by
  refine hinv.takeOver hstate (Slot.le_epoch_adopt _ _) fun hne ↦ ?_
  rcases lt_trichotomy state.epoch (w.slots k).epoch with h | h | h
  · exact absurd (Slot.adopt_of_gt h) hne
  · rw [Slot.adopt_of_eq h]
    exact ⟨h, .inr ⟨rfl, le_rfl⟩⟩
  · rw [Slot.adopt_of_lt h]
    exact ⟨rfl, .inl le_rfl⟩

theorem Inv.raise (hinv : Inv w) (hstate : state ∈ w.history k)
    (hepoch : state.epoch = (w.slots k).epoch) :
    Inv (w.takeOver k state ((w.slots k).raise state.total)) ∧
      Grows w (w.takeOver k state ((w.slots k).raise state.total)) :=
  hinv.takeOver hstate le_rfl fun _ ↦ ⟨hepoch, .inr ⟨rfl, le_rfl⟩⟩

theorem Inv.addOwn (hinv : Inv w) (k : Key) (cost : ℚ) :
    Inv (w.addOwn k cost) ∧ Grows w (w.addOwn k cost) := by
  have hown : ∀ k' epoch, w.own k' epoch ≤ (w.addOwn k cost).own k' epoch := by
    intro k' epoch
    rcases eq_or_ne k' k with rfl | hne
    · rcases eq_or_ne epoch (w.slots k').epoch with rfl | hne'
      · simp [World.addOwn]
      · simp [World.addOwn, hne']
    · simp [World.addOwn, hne]
  constructor
  · refine ⟨⟨fun k' ↦ ?_, hinv.adopted⟩, hinv.nonneg, fun k' epoch ↦ ?_⟩
    · obtain ⟨st, hst, hstEpoch, hbound⟩ := hinv.bounded k'
      rcases eq_or_ne k' k with rfl | hne
      · refine ⟨st, hst, by simpa [World.addOwn, World.setSlot, Slot.add] using hstEpoch, ?_⟩
        have hcost := le_max_right 0 cost
        simp only [World.addOwn, World.setSlot, Slot.add, Function.update_self]
        linarith
      · refine ⟨st, hst, by simpa [World.addOwn, World.setSlot, hne] using hstEpoch, ?_⟩
        simpa [World.addOwn, World.setSlot, hne] using hbound
    · exact (hinv.own_nonneg k' epoch).trans (hown k' epoch)
  · refine ⟨fun _ ↦ List.suffix_rfl, fun k' ↦ ?_⟩
    rcases eq_or_ne k' k with rfl | hne
    · simp [World.addOwn, World.setSlot, Slot.add]
    · simp [World.addOwn, World.setSlot, hne]

/-- A cleared slot may take any epoch not before its own in which the counter was. -/
theorem Inv.clear (hinv : Inv w) {epoch : ℕ} (hepoch : (w.slots k).epoch ≤ epoch)
    (hbacked : ∃ state ∈ w.history k, state.epoch = epoch) :
    Inv (w.setSlot k ⟨0, epoch⟩) ∧ Grows w (w.setSlot k ⟨0, epoch⟩) := by
  obtain ⟨state, hstate, hstateEpoch⟩ := hbacked
  exact hinv.setSlot hepoch ⟨state, hstate, hstateEpoch,
    add_nonneg (hinv.nonneg k state hstate) (hinv.own_nonneg k epoch)⟩

end Slots

/-- What a thread must know of a result before it delivers it. -/
def Backed : Op → World → Prop
  | .adopt k state, w => state ∈ w.history k
  | .raise k state, w => state ∈ w.history k
  | .clearSpend ident (some epoch), w => ∃ state ∈ w.history (.quota, ident), state.epoch = epoch
  | _, _ => True

theorem Backed.grows {o : Op} {w w' : World} (h : Backed o w) (hgrows : Grows w w') :
    Backed o w' := by
  cases o with
  | adopt k state => exact hgrows.history h
  | raise k state => exact hgrows.history h
  | clearSpend ident epoch =>
      cases epoch with
      | none => trivial
      | some epoch =>
          obtain ⟨state, hstate, hepoch⟩ := h
          exact ⟨state, hgrows.history hstate, hepoch⟩
  | _ => trivial

/-- The step lemma. -/
theorem Inv.exec {i : ℕ} {o : Op} {w w' : World} {r : Ret o} (hinv : Inv w) (h : Exec w o r w')
    (htimely : Timely i o w) (hbacked : Backed o w) : Inv w' ∧ Grows w w' := by
  cases h with
  | addSpendState k cost hcost => exact hinv.changes (.addSpend k cost hcost)
  | addSpendState_lost k cost hcost => exact hinv.changes (.addSpend k cost hcost)
  | reserveBudget request counters amount hamount hnew hroom =>
      exact hinv.changes (.reserve request counters amount hamount hnew hroom)
  | reserveBudget_lost request counters amount hamount hnew hroom =>
      exact hinv.changes (.reserve request counters amount hamount hnew hroom)
  | finalizeBudget request m actual _ hmarker hopen hactual hspent =>
      exact hinv.changes (.finalize request m actual hmarker hopen hactual hspent)
  | resetSpendCounters keys => exact hinv.changes (.reset keys)
  | adopt k state => exact hinv.adopt hbacked
  | raise k state => exact hinv.raise hbacked htimely
  | addOwn k cost => exact hinv.addOwn k cost
  | clearSpend ident epoch =>
      cases epoch with
      | none =>
          obtain ⟨state, hstate, hepoch, -⟩ := hinv.bounded (.quota, ident)
          exact hinv.clear le_rfl ⟨state, hstate, hepoch⟩
      | some epoch => exact hinv.clear htimely hbacked
  | clearProjectSpend ident =>
      exact hinv.clear htimely.le ⟨⟨0, 0⟩, List.mem_append_right _ (List.mem_singleton.mpr rfl), rfl⟩
  | _ => exact ⟨hinv, Grows.refl w⟩

/-! ## Programs -/

/-- The machine on which no result is overtaken. -/
abbrev machine : Machine Op Ret World := (instanceService.restrict Timely).machine

section Programs

variable {i : ℕ} {w : World} {α : Type}

/-- An operation whose result is backed keeps the invariant. -/
theorem op_safe {Q : α → World → Prop} {o : Op} {k : Ret o → Program α} (hbacked : Backed o w)
    (hk : ∀ r w₁ w', Grows w w₁ → Exec w₁ o r w' → Timely i o w₁ → Grows w₁ w' →
      Safe machine protocol i Q (k r) w') : Safe machine protocol i Q (.call o k) w := by
  intro w₁ hw hinv r w' hexec
  obtain ⟨hinv', hgrows⟩ := hinv.exec hexec.1 hexec.2 (hbacked.grows hw)
  exact ⟨hinv', fun _ _ ↦ hgrows, hk r w₁ w' hw hexec.1 hexec.2 hgrows⟩

/-- Programs of which nothing is asked but to keep the invariant. -/
abbrev Keeps (i : ℕ) (p : Program α) (w : World) : Prop :=
  Safe machine protocol i (fun _ _ ↦ True) p w

theorem keeps_done (a : α) : Keeps i (.done a) w := Safe.done fun _ _ _ ↦ trivial

theorem Keeps.bind {β : Type} {p : Program α} {f : α → Program β} (h : Keeps i p w)
    (hf : ∀ a w', Grows w w' → Keeps i (f a) w') : Keeps i (p >>= f) w := by
  have hgrows := Safe.guarantee (Nat.succ_ne_self i) (fun _ _ hs ↦ hs) h
  apply Safe.bind
  refine Safe.imp ?_ hgrows
  exact fun a w' hw _ ↦ hf a w' hw.2

theorem keeps_op {o : Op} (hbacked : Backed o w) : Keeps i (Prog.op o) w :=
  op_safe hbacked fun _ _ _ _ _ _ _ ↦ keeps_done _

theorem history_of_getSpendState {w w' : World} {k : Key} {state : SpendCounterState}
    (h : Exec w (.getSpendState k) (some state) w') : state ∈ w'.history k := by
  cases h
  exact current_mem_history w k

theorem history_of_addSpendState {w w' : World} {k : Key} {cost : ℚ} {state : SpendCounterState}
    (h : Exec w (.addSpendState k cost) (some state) w') : state ∈ w'.history k := by
  cases h
  exact current_mem_history _ k

theorem history_of_readState {w w' : World} {k : Key} {state : SpendCounterState}
    (h : Exec w (.readState k) (some state) w') : state ∈ w'.history k := by
  cases h
  exact current_mem_history w k

/-- A total read in the epoch of the reservation goes with that epoch. -/
theorem history_of_readReserved {w w' : World} {k : Key} {epoch : ℕ} {total : ℚ}
    (h : Exec w (.readReserved k epoch) (some total) w') (htimely : Timely i (.readReserved k epoch) w) :
    ⟨total, epoch⟩ ∈ w'.history k := by
  cases h
  obtain rfl : (w.current k).epoch = epoch := htimely
  exact current_mem_history w k

namespace QuotaEnforcer

theorem refreshSpend_keeps (ident : String) : Keeps i (refreshSpend ident) w := by
  refine op_safe trivial fun r w₁ w' _ hexec _ _ ↦ ?_
  cases r with
  | none => exact keeps_done _
  | some state => exact keeps_op (history_of_getSpendState hexec)

theorem recordSpend_keeps (ident : String) (cost : ℚ) (share : Bool) :
    Keeps i (recordSpend ident cost share) w := by
  unfold recordSpend
  cases share with
  | false => exact keeps_op trivial
  | true =>
      refine op_safe trivial fun r w₁ w' _ hexec _ _ ↦ ?_
      cases r with
      | none => exact keeps_op trivial
      | some state => exact keeps_op (history_of_addSpendState hexec)

theorem reserveBudget_keeps (request ident user : String) (amount : ℚ)
    (projectLimit userLimit : Option ℚ) :
    Keeps i (reserveBudget request ident user amount projectLimit userLimit) w := by
  unfold reserveBudget
  dsimp only
  split_ifs
  · exact keeps_done _
  refine op_safe trivial fun r w₁ w' _ _ _ _ ↦ ?_
  cases r with
  | unavailable => exact keeps_done _
  | denied => exact keeps_done _
  | granted epochs finalized =>
      simp only [Prog.bind]
      cases epochs.lookup (.quota, ident) with
      | none => exact keeps_done _
      | some epoch =>
          refine op_safe trivial fun r w₁ w' _ hexec htimely _ ↦ ?_
          cases r with
          | none => exact keeps_done _
          | some total =>
              cases finalized with
              | true => exact keeps_done _
              | false => exact keeps_op (history_of_readReserved hexec htimely)

end QuotaEnforcer

/-- Every reported state is one that its counter was in. -/
def Reported (totals : Option (List (Key × SpendCounterState))) (w : World) : Prop :=
  ∀ ts ∈ totals, ∀ e ∈ ts, e.2 ∈ w.history e.1

theorem Reported.grows {totals : Option (List (Key × SpendCounterState))} {w w' : World}
    (h : Reported totals w) (hgrows : Grows w w') : Reported totals w' :=
  fun ts hts e he ↦ hgrows.history (h ts hts e he)

theorem reported_none : Reported none w := by
  rintro ts ⟨⟩

theorem Reported.lookup {totals : List (Key × SpendCounterState)} (h : Reported (some totals) w)
    {k : Key} {state : SpendCounterState} (hk : totals.lookup k = some state) :
    state ∈ w.history k := by
  obtain ⟨l₁, l₂, rfl, -⟩ := List.lookup_eq_some_iff.mp hk
  exact h _ rfl (k, state) (by simp)

theorem readStates_safe (ks : List Key) :
    Safe machine protocol i Reported (readStates ks) w := by
  induction ks generalizing w with
  | nil =>
      refine Safe.done fun w' _ _ ↦ ?_
      rintro ts ⟨⟩ e he
      cases he
  | cons k ks ih =>
      refine op_safe trivial fun r w₁ w' _ hexec _ _ ↦ ?_
      cases r with
      | none => exact Safe.done fun _ _ _ ↦ reported_none
      | some state =>
          have hstate := history_of_readState hexec
          have hrest := Safe.guarantee (Nat.succ_ne_self i) (fun _ _ hs ↦ hs) (ih (w := w'))
          change Safe machine protocol i Reported (readStates ks >>= _) w'
          apply Safe.bind
          refine Safe.imp ?_ hrest
          rintro (_ | states) w₂ ⟨hreported, hgrows⟩ _
          · exact Safe.done fun _ _ _ ↦ reported_none
          · refine Safe.done fun w₃ hgrows' _ ↦ ?_
            rintro ts ⟨⟩ e he
            rcases List.mem_cons.mp he with rfl | he
            · exact hgrows'.history (Grows.history hgrows hstate)
            · exact hgrows'.history (hreported states rfl e he)

namespace QuotaEnforcer

theorem finalizeBudget_safe (request ident : String) (keys : List Key) (actual : ℚ) :
    Safe machine protocol i Reported (finalizeBudget request ident keys actual) w := by
  refine op_safe trivial fun r w₁ w' _ _ _ _ ↦ ?_
  cases r with
  | false => exact Safe.done fun _ _ _ ↦ reported_none
  | true =>
      change Safe machine protocol i Reported (readStates keys >>= _) w'
      apply Safe.bind
      refine Safe.imp ?_ (readStates_safe keys)
      rintro (_ | totals) w₂ hreported _
      · exact Safe.done fun _ _ _ ↦ reported_none
      · dsimp only
        cases hstate : totals.lookup (.quota, ident) with
        | none => exact Safe.done fun _ hgrows _ ↦ Reported.grows hreported hgrows
        | some state =>
            refine op_safe (hreported.lookup hstate) fun _ w₃ w₄ hgrows _ _ hgrows' ↦ ?_
            exact Safe.done fun _ hgrows'' _ ↦
              ((hreported.grows hgrows).grows hgrows').grows hgrows''

end QuotaEnforcer

namespace CostTracker

theorem refreshSpendState_keeps (scope : Scope) (ident : String) :
    Keeps i (refreshSpendState scope ident) w := by
  refine op_safe trivial fun r w₁ w' _ hexec _ _ ↦ ?_
  cases r with
  | none => exact keeps_done _
  | some state => exact keeps_op (history_of_getSpendState hexec)

theorem shareSpend_keeps (skip : List Scope) (key : Key) (cost : ℚ) :
    Keeps i (shareSpend skip key cost) w := by
  unfold shareSpend
  split_ifs
  · exact keeps_done _
  refine op_safe trivial fun r w₁ w' _ hexec _ _ ↦ ?_
  cases r with
  | none => exact keeps_done _
  | some state => exact keeps_op (history_of_addSpendState hexec)

theorem recordUsage_keeps (ident user : String) (cost : ℚ) (share : Bool) (skip : List Scope) :
    Keeps i (recordUsage ident user cost share skip) w := by
  have hbump : Keeps i (bumpSpend ident user cost) w :=
    Keeps.bind (keeps_op trivial) fun _ _ _ ↦ keeps_op trivial
  refine hbump.bind fun _ w' _ ↦ ?_
  split_ifs
  · exact Keeps.bind (shareSpend_keeps _ _ _) fun _ _ _ ↦ shareSpend_keeps _ _ _
  · exact keeps_done _

theorem raiseSpend_keeps {totals : List (Key × SpendCounterState)} (h : Reported (some totals) w)
    (key : Key) : Keeps i (raiseSpend totals key) w := by
  unfold raiseSpend
  cases hstate : totals.lookup key with
  | none => exact keeps_done _
  | some state => exact keeps_op (h.lookup hstate)

theorem adoptReservedSpend_keeps (ident user : String) {totals : List (Key × SpendCounterState)}
    (h : Reported (some totals) w) : Keeps i (adoptReservedSpend ident user totals) w :=
  (raiseSpend_keeps h _).bind fun _ _ hgrows ↦ raiseSpend_keeps (h.grows hgrows) _

end CostTracker

theorem trackCost_keeps (request ident user : String) (keys : List Key) (cost : ℚ) :
    Keeps i (trackCost request ident user keys cost) w := by
  apply Safe.bind
  refine Safe.imp ?_ (QuotaEnforcer.finalizeBudget_safe request ident keys cost)
  intro totals w₁ hreported _
  refine Keeps.bind (CostTracker.recordUsage_keeps _ _ _ _ _) fun _ w₂ hgrows ↦ ?_
  have hreported' : Reported (some (totals.getD [])) w₂ := by
    cases totals with
    | none =>
        rintro ts ⟨⟩ e he
        cases he
    | some totals => exact Reported.grows hreported hgrows
  refine Keeps.bind (CostTracker.adoptReservedSpend_keeps _ _ hreported') fun _ w₃ _ ↦ ?_
  split_ifs
  · exact keeps_done _
  · exact QuotaEnforcer.recordSpend_keeps _ _ _

theorem resetSpend_keeps (ident : String) : Keeps i (QuotaEnforcer.resetSpend ident) w := by
  have hcounters : Safe machine protocol i
      (fun state w' ↦ Backed (.clearSpend ident (state.map SpendCounterState.epoch)) w')
      (QuotaEnforcer.resetCounters ident) w := by
    refine op_safe trivial fun r w₁ w' _ _ _ _ ↦ ?_
    cases r with
    | false => exact Safe.done fun _ _ _ ↦ trivial
    | true =>
        refine op_safe trivial fun r w₂ w₃ _ hexec _ _ ↦ ?_
        cases r with
        | none => exact Safe.done fun _ _ _ ↦ trivial
        | some state =>
            exact Safe.done fun _ hgrows _ ↦
              ⟨state, Grows.history hgrows (history_of_readState hexec), rfl⟩
  apply Safe.bind
  refine Safe.imp ?_ hcounters
  exact fun state w' hbacked _ ↦ Keeps.bind (keeps_op hbacked) fun _ _ _ ↦ keeps_done _

theorem run_keeps (c : Call) : Keeps i (run c) w := by
  cases c with
  | refreshSpend ident => exact QuotaEnforcer.refreshSpend_keeps ident
  | currentSpend ident => exact QuotaEnforcer.refreshSpend_keeps ident
  | checkBudget ident => exact CostTracker.refreshSpendState_keeps .project ident
  | checkUserBudget user => exact CostTracker.refreshSpendState_keeps .user user
  | reserveBudget request ident user amount projectLimit userLimit =>
      exact QuotaEnforcer.reserveBudget_keeps request ident user amount projectLimit userLimit
  | releaseBudget request ident keys =>
      have hfinalize : Keeps i (QuotaEnforcer.finalizeBudget request ident keys 0) w :=
        (QuotaEnforcer.finalizeBudget_safe request ident keys 0).imp fun _ _ _ ↦ trivial
      exact hfinalize.bind fun _ _ _ ↦ keeps_done _
  | trackCost request ident user keys cost => exact trackCost_keeps request ident user keys cost
  | recordUsage ident user cost share =>
      exact CostTracker.recordUsage_keeps ident user cost share []
  | recordSpend ident cost share => exact QuotaEnforcer.recordSpend_keeps ident cost share
  | resetSpend ident =>
      refine Keeps.bind (QuotaEnforcer.refreshSpend_keeps ident) fun _ _ _ ↦ ?_
      refine Keeps.bind (resetSpend_keeps ident) fun done _ _ ↦ ?_
      cases done with
      | false => exact keeps_done _
      | true => exact keeps_op trivial

end Programs

/-! ## Runs -/

theorem obligations : Obligations (instanceService.restrict Timely) protocol (fun _ _ ↦ True)
    (fun _ _ _ _ _ ↦ True) where
  pre_rely _ _ _ _ _ := trivial
  env _ _ hinv henv := ⟨(hinv.changes henv).1, fun _ ↦ (hinv.changes henv).2⟩
  start _ c _ _ _ _ := run_keeps c

theorem inv_start : Inv start where
  bounded _ := ⟨⟨0, 0⟩, List.mem_singleton.mpr rfl, rfl, by simp [start]⟩
  adopted _ ha := by cases ha
  nonneg _ _ hstate := (List.mem_singleton.mp hstate ▸ le_rfl)
  own_nonneg _ _ := le_rfl

abbrev InstancePool := Pool Op Ret World Call Unit

/-- How an operation turns out when nothing fails. -/
def act : (o : Op) → World → Option (Ret o × World)
  | .getSpendState k, w => if w.log k = [] then some (none, w) else some (some (w.current k), w)
  | .addSpendState k cost, w =>
      if 0 ≤ cost then some (some ((w.addSpend k cost).current k), w.addSpend k cost)
      else some (none, w)
  | .reserveBudget request counters amount, w =>
      if 0 < amount ∧ (w.markers request).isNone ∧
          ∀ c ∈ counters, (w.current c.1).total ≤ c.2 - amount then
        some (.granted (counters.map fun c ↦ (c.1, (w.current c.1).epoch)) false,
          w.reserve request counters amount)
      else some (.denied, w)
  | .finalizeBudget _ _, w => some (false, w)
  | .resetSpendCounters keys, w => some (true, w.reset keys)
  | .readState k, w => some (some (w.current k), w)
  | .readReserved k _, w => some (some (w.current k).total, w)
  | .adopt k state, w => some ((), w.takeOver k state ((w.slots k).adopt state))
  | .raise k state, w => some ((), w.takeOver k state ((w.slots k).raise state.total))
  | .addOwn k cost, w => some ((), w.addOwn k cost)
  | .clearSpend ident epoch, w =>
      some ((), w.setSlot (.quota, ident) ⟨0, epoch.getD (w.slots (.quota, ident)).epoch⟩)
  | .clearProjectSpend ident, w => some ((), w.setSlot (.project, ident)
      (CostTracker.clearProjectSpend (w.slots (.project, ident))))

theorem exec_act {o : Op} {w w' : World} {r : Ret o} (h : act o w = some (r, w')) :
    Exec w o r w' := by
  cases o with
  | getSpendState k =>
      dsimp only [act] at h
      split_ifs at h with hrow
      · cases h
        exact .getSpendState_none k
      · cases h
        exact .getSpendState k hrow
  | addSpendState k cost =>
      dsimp only [act] at h
      split_ifs at h with hcost
      · cases h
        exact .addSpendState k cost hcost
      · cases h
        exact .addSpendState_failed k cost
  | reserveBudget request counters amount =>
      dsimp only [act] at h
      split_ifs at h with hroom
      · cases h
        exact .reserveBudget request counters amount hroom.1 (Option.isNone_iff_eq_none.mp hroom.2.1)
          hroom.2.2
      · cases h
        exact .reserveBudget_denied request counters amount
  | finalizeBudget request actual =>
      cases h
      exact .finalizeBudget_failed request actual
  | resetSpendCounters keys =>
      cases h
      exact .resetSpendCounters keys true
  | readState k =>
      cases h
      exact .readState k
  | readReserved k epoch =>
      cases h
      exact .readReserved k epoch
  | adopt k state =>
      cases h
      exact .adopt k state
  | raise k state =>
      cases h
      exact .raise k state
  | addOwn k cost =>
      cases h
      exact .addOwn k cost
  | clearSpend ident epoch =>
      cases h
      exact .clearSpend ident epoch
  | clearProjectSpend ident =>
      cases h
      exact .clearProjectSpend ident

instance (i : ℕ) (o : Op) (w : World) : Decidable (Timely i o w) := by
  cases o with
  | clearSpend ident epoch => cases epoch <;> unfold Timely <;> infer_instance
  | _ => unfold Timely; infer_instance

/-- Calls on a new instance, the operations that `ok` lets pass. -/
def playWhere (ok : ℕ → (o : Op) → World → Bool) (turns : List (Turn Call)) : InstancePool :=
  Pool.playTurns run (fun i o w ↦ if ok i o w then act o w else none) turns ⟨start, []⟩

/-- A charge is recorded, shared and adopted, and the project is then reset. -/
def chargeAndReset : InstancePool :=
  playWhere (fun i o w ↦ decide (Timely i o w))
    (.start (.recordSpend "p" 5 true) :: List.replicate 2 (.next 0) ++
      .start (.resetSpend "p") :: List.replicate 6 (.next 1))

/-- A charge that is recorded and not shared yet. -/
def unshared : InstancePool :=
  playWhere (fun _ _ _ ↦ true) [.start (.recordUsage "p" "u" 5 true), .next 0]

/-- Two resets, of which the first has read its epoch and not cleared its slot
when the second comes to an end, -/
def overtaken : InstancePool :=
  playWhere (fun _ _ _ ↦ true)
    (.start (.resetSpend "p") :: List.replicate 3 (.next 0) ++
      .start (.resetSpend "p") :: List.replicate 5 (.next 1))

/-- and then does. -/
def wentBack : InstancePool :=
  overtaken.playTurns run (fun _ o w ↦ act o w) [.next 0]

end AxonGateway.Spend.Instance
