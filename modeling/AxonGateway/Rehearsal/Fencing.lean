import AxonGateway.Lib.Effects
import AxonGateway.Rehearsal.History

/-!
# Fences, revisions and evidence

A record that was read is still the latest one when its revision is, so every put that is carried
out continues the chain.  From the chain follow the fences, the numbering of the observations and
who has added what.
-/

namespace Rehearsal

open Interleaving

variable {cfg : Config} {cs : List Call} {i : ℕ} {c : Call} {w w' : World} {key : String}
  {record prev : Record} {b : RehearsalBinding} {nowEpoch : ℤ}

def World.latest (w : World) (key : String) : Option Record := History.latest (w.log key)

/-- The times of a record are not ahead of any clock by more than 300 seconds. -/
def Record.Stamped (record : Record) (time : ℤ) : Prop :=
  record.updatedAtEpoch ≤ time + 300 ∧ ∀ o ∈ record.observations, o.observedAtEpoch ≤ time + 300

structure Inv (cfg : Config) (cs : List Call) (w : World) : Prop where
  rows : ∀ key, w.rows key = (w.latest key).map (recordItem cfg.sha256)
  sound : ∀ key, ∀ e ∈ w.log key, e.2.Sound cfg.sha256
  stamped : ∀ key, ∀ e ∈ w.log key, e.2.Stamped w.time
  chained : ∀ key, History.Chained cs (w.log key)

/-- The others only add records of their own. -/
structure Rely (i : ℕ) (w w' : World) : Prop where
  time : w.time ≤ w'.time
  log : ∀ key, ∃ new, w'.log key = new ++ w.log key ∧ ∀ e ∈ new, e.1 ≠ i

theorem Rely.refl (i : ℕ) (w : World) : Rely i w w := ⟨le_rfl, fun _ ↦ ⟨[], rfl, by simp⟩⟩

theorem Rely.trans {w₁ w₂ w₃ : World} (h : Rely i w₁ w₂) (h' : Rely i w₂ w₃) : Rely i w₁ w₃ := by
  refine ⟨h.time.trans h'.time, fun key ↦ ?_⟩
  obtain ⟨new, hnew, hwho⟩ := h.log key
  obtain ⟨new', hnew', hwho'⟩ := h'.log key
  refine ⟨new' ++ new, by rw [hnew', hnew, List.append_assoc], fun e he ↦ ?_⟩
  rcases List.mem_append.mp he with he | he
  · exact hwho' e he
  · exact hwho e he

def protocol (cfg : Config) (cs : List Call) : Protocol World where
  inv := Inv cfg cs
  rely := Rely
  refl := Rely.refl
  trans _ _ _ _ := Rely.trans

/-- The record has been written under the key. -/
def World.Wrote (w : World) (key : String) (record : Record) : Prop := ∃ j, (j, record) ∈ w.log key

theorem World.Wrote.rely (h : w.Wrote key record) (hw : Rely i w w') : w'.Wrote key record := by
  obtain ⟨j, hj⟩ := h
  obtain ⟨new, hnew, -⟩ := hw.log key
  exact ⟨j, by rw [hnew]; exact List.mem_append_right _ hj⟩

def World.own (w : World) (key : String) (i : ℕ) : History := History.own (w.log key) i

theorem own_rely (hw : Rely i w w') (key : String) : w'.own key i = w.own key i := by
  obtain ⟨new, hnew, hwho⟩ := hw.log key
  have hnone : new.filter (fun e ↦ decide (e.1 = i)) = [] :=
    List.filter_eq_nil_iff.mpr fun e he ↦ by simpa using hwho e he
  rw [World.own, History.own, hnew, List.filter_append, hnone]
  rfl

theorem Record.Stamped.mono {time time' : ℤ} (h : record.Stamped time) (htime : time ≤ time') :
    record.Stamped time' :=
  ⟨h.1.trans (by omega), fun o ho ↦ (h.2 o ho).trans (by omega)⟩

/-! ### The table -/

theorem put_log (w : World) (i : ℕ) (record : Record) (key : String) :
    (w.put cfg i record).log key =
      if key = ledgerKey cfg.sha256 record.binding then (i, record) :: w.log key
      else w.log key := by
  change Function.update w.log _ _ key = _
  rcases eq_or_ne key (ledgerKey cfg.sha256 record.binding) with rfl | hne
  · rw [Function.update_self, if_pos rfl]
  · rw [Function.update_of_ne hne, if_neg hne]

/-- A call continues the chain under the key of its record. -/
theorem Inv.put (hinv : Inv cfg cs w) (hc : cs[i]? = some c)
    (hwrites : Writes c (w.latest (ledgerKey cfg.sha256 record.binding)) record)
    (hsound : record.Sound cfg.sha256) (hstamped : record.Stamped w.time) :
    Inv cfg cs (w.put cfg i record) ∧ ∀ j, j ≠ i → Rely j w (w.put cfg i record) := by
  have hmem : ∀ key, ∀ e ∈ (w.put cfg i record).log key, e = (i, record) ∨ e ∈ w.log key := by
    intro key e he
    rw [put_log] at he
    split_ifs at he
    · exact List.mem_cons.mp he
    · exact .inr he
  refine ⟨⟨fun key ↦ ?_, fun key e he ↦ ?_, fun key e he ↦ ?_, fun key ↦ ?_⟩, fun j hj ↦ ?_⟩
  · rw [World.latest, put_log]
    change Function.update w.rows _ _ key = _
    split_ifs with hkey
    · rw [hkey, Function.update_self]
      rfl
    · rw [Function.update_of_ne hkey]
      exact hinv.rows key
  · rcases hmem key e he with rfl | he
    · exact hsound
    · exact hinv.sound key e he
  · rcases hmem key e he with rfl | he
    · exact hstamped
    · exact hinv.stamped key e he
  · rw [put_log]
    split_ifs with hkey
    · subst hkey
      exact ⟨⟨c, hc, hwrites⟩, hinv.chained _⟩
    · exact hinv.chained key
  · refine ⟨le_rfl, fun key ↦ ?_⟩
    rw [put_log]
    split_ifs
    · exact ⟨[(i, record)], rfl, by simpa using Ne.symm hj⟩
    · exact ⟨[], rfl, by simp⟩

theorem put_own (w : World) (i : ℕ) (record : Record) :
    (w.put cfg i record).own (ledgerKey cfg.sha256 record.binding) i =
      (i, record) :: w.own (ledgerKey cfg.sha256 record.binding) i := by
  rw [World.own, History.own, put_log, if_pos rfl, List.filter_cons_of_pos (by simp)]
  rfl

theorem revision_of_holds {item : Item}
    (h : (Condition.current prev).holds (some item) = true) :
    attrIs item "revision" (.integer prev.revision) = true := by
  simp only [Condition.holds, Bool.and_eq_true] at h
  exact h.1.1.1.1.1.1.1

/-- Where the condition of a replacement holds, the record that was read is the latest one. -/
theorem Inv.latest_of_holds (hinv : Inv cfg cs w) (hprev : w.Wrote key prev)
    (h : (Condition.current prev).holds (w.rows key) = true) : w.latest key = some prev := by
  rw [hinv.rows key] at h
  cases hlatest : w.latest key with
  | none => rw [hlatest] at h; cases h
  | some r =>
      rw [hlatest] at h
      have hrevision : r.revision = prev.revision := by
        have hattr : ((r.revision : ℚ) == (prev.revision : ℚ)) = true := revision_of_holds h
        exact_mod_cast eq_of_beq hattr
      obtain ⟨j, hj⟩ := hprev
      exact congrArg some ((hinv.chained key).eq_latest hj hlatest hrevision).symm

theorem Inv.latest_of_absent (hinv : Inv cfg cs w)
    (h : Condition.absent.holds (w.rows key) = true) : w.latest key = none := by
  rw [hinv.rows key] at h
  cases hlatest : w.latest key with
  | none => rfl
  | some r => rw [hlatest] at h; cases h

/-- What is read is the latest record. -/
theorem Inv.decode_row (hinv : Inv cfg cs w) {item : Item} (hrow : w.rows key = some item)
    {requireActive : Bool} {r : Record}
    (h : decodeRecord cfg.sha256 item nowEpoch requireActive = some r) :
    w.Wrote key r ∧ r.Readable nowEpoch requireActive := by
  rw [hinv.rows key] at hrow
  obtain ⟨r', hlatest, rfl⟩ := Option.map_eq_some_iff.mp hrow
  obtain ⟨e, he, rfl⟩ := Option.map_eq_some_iff.mp hlatest
  have hmem : e ∈ w.log key := List.mem_of_head? he
  rw [decodeRecord_recordItem (hinv.sound key e hmem)] at h
  split_ifs at h with hreadable
  cases h
  exact ⟨⟨e.1, hmem⟩, hreadable⟩

/-! ### Operations -/

abbrev Runs (cfg : Config) (cs : List Call) (i : ℕ) {α : Type} (Q : α → World → Prop)
    (p : Program α) (w : World) : Prop :=
  Safe (service cfg).machine (protocol cfg cs) i Q p w

theorem runs_pure {α : Type} {Q : α → World → Prop} {a : α} (h : ∀ w', Rely i w w' → Q a w') :
    Runs cfg cs i Q (pure a) w :=
  Safe.done fun w' hw _ ↦ h w' hw

theorem runs_now {α : Type} {Q : α → World → Prop} {k : Option ℤ → Program α}
    (h : ∀ w₁, Rely i w w₁ → ∀ r : Option ℤ, (∀ n, r = some n → n ≤ w₁.time + 300) →
      Runs cfg cs i Q (k r) w₁) : Runs cfg cs i Q (ask .now >>= k) w := by
  intro w₁ hw hinv r w₂ hexec
  cases hexec with
  | now n hslow hfast =>
      exact ⟨hinv, fun j _ ↦ Rely.refl j w₁, h w₁ hw (some n) fun m hm ↦ by cases hm; exact hfast⟩
  | now_raised => exact ⟨hinv, fun j _ ↦ Rely.refl j w₁, h w₁ hw none fun m hm ↦ by cases hm⟩

theorem runs_read {α : Type} {Q : α → World → Prop} {requireActive : Bool}
    {k : Bool × Option Record → Program α}
    (h : ∀ w₁, Rely i w w₁ → Inv cfg cs w₁ → ∀ x : Bool × Option Record,
      (∀ r, x.2 = some r → w₁.Wrote (ledgerKey cfg.sha256 b) r ∧
        r.Readable nowEpoch requireActive) → Runs cfg cs i Q (k x) w₁) :
    Runs cfg cs i Q (read cfg b nowEpoch requireActive >>= k) w := by
  intro w₁ hw hinv r w₂ hexec
  cases hexec with
  | getItem =>
      refine ⟨hinv, fun j _ ↦ Rely.refl j w₁, ?_⟩
      cases hrow : w₁.rows (ledgerKey cfg.sha256 b) with
      | none => exact h w₁ hw hinv (true, none) fun r hr ↦ by cases hr
      | some item => exact h w₁ hw hinv _ fun r hr ↦ hinv.decode_row hrow hr
  | getItem_raised =>
      exact ⟨hinv, fun j _ ↦ Rely.refl j w₁, h w₁ hw hinv (false, none) fun r hr ↦ by cases hr⟩

/-- A put is carried out once or not at all; a conflict says that it was not. -/
theorem runs_putRecord {α : Type} {Q : α → World → Prop} {condition : Condition}
    {k : PutStatus → Program α} (hc : cs[i]? = some c)
    (hwrites : ∀ w₁, Rely i w w₁ → Inv cfg cs w₁ →
      condition.holds (w₁.rows (ledgerKey cfg.sha256 record.binding)) = true →
        Writes c (w₁.latest (ledgerKey cfg.sha256 record.binding)) record)
    (hsound : fits maxLedgerBytes (.map (recordItem cfg.sha256 record)) = true →
      record.Sound cfg.sha256) (hstamped : record.Stamped w.time)
    (hconflict : ∀ w₁, Rely i w w₁ → Runs cfg cs i Q (k .conflict) w₁)
    (hfailed : ∀ w₁, w.time ≤ w₁.time → Runs cfg cs i Q (k .failed) w₁)
    (hwritten : ∀ w₁, w.time ≤ w₁.time →
      w₁.own (ledgerKey cfg.sha256 record.binding) i =
        (i, record) :: w.own (ledgerKey cfg.sha256 record.binding) i →
      Runs cfg cs i Q (k .written) w₁) :
    Runs cfg cs i Q (putRecord cfg record condition >>= k) w := by
  unfold putRecord
  split_ifs with hfits
  · intro w₁ hw hinv r w₂ hexec
    cases hexec with
    | put _ _ _ hholds hstatus =>
        obtain ⟨hinv', hrely⟩ := hinv.put hc (hwrites w₁ hw hinv hholds) (hsound hfits)
          (hstamped.mono hw.time)
        refine ⟨hinv', hrely, ?_⟩
        cases r with
        | written =>
            refine hwritten _ hw.time ?_
            rw [put_own, own_rely hw]
        | conflict => exact absurd rfl hstatus
        | failed => exact hfailed _ hw.time
    | conflict _ _ hfails => exact ⟨hinv, fun j _ ↦ Rely.refl j w₁, hconflict w₁ hw⟩
    | put_raised => exact ⟨hinv, fun j _ ↦ Rely.refl j w₁, hfailed w₁ hw.time⟩
  · exact hfailed w le_rfl

theorem runs_currentTime {α : Type} {Q : α → World → Prop} {k : Option ℤ → Program α}
    (h : ∀ w₁, Rely i w w₁ → ∀ r : Option ℤ,
      (∀ n, r = some n → bindingIsCurrent b n = true ∧ n ≤ w₁.time + 300) →
        Runs cfg cs i Q (k r) w₁) : Runs cfg cs i Q (currentTime b >>= k) w := by
  intro w₁ hw hinv r w₂ hexec
  cases hexec with
  | now n hslow hfast =>
      refine ⟨hinv, fun j _ ↦ Rely.refl j w₁, h w₁ hw _ fun m hm ↦ ?_⟩
      obtain ⟨hn, hcurrent⟩ := Option.filter_eq_some_iff.mp hm
      cases hn
      exact ⟨hcurrent, hfast⟩
  | now_raised => exact ⟨hinv, fun j _ ↦ Rely.refl j w₁, h w₁ hw none fun m hm ↦ by cases hm⟩

/-! ### Records that a call writes -/

theorem current_bounds (h : bindingIsCurrent b nowEpoch = true) :
    b.expiresAtEpoch - maxLedgerTtlSeconds ≤ nowEpoch ∧ nowEpoch ≤ b.expiresAtEpoch := by
  simp only [bindingIsCurrent, Bool.and_eq_true, decide_eq_true_eq] at h
  omega

theorem emptyRecord_sound {revision : ℤ} (hcurrent : bindingIsCurrent b nowEpoch = true)
    (hrevision : 1 ≤ revision)
    (hsmall : fits maxLedgerBytes
      (.map (recordItem cfg.sha256 (emptyRecord b nowEpoch revision))) = true) :
    (emptyRecord b nowEpoch revision).Sound cfg.sha256 where
  positive := hrevision
  after := (current_bounds hcurrent).1
  before := (current_bounds hcurrent).2
  faults := fun c hc ↦ by cases hc
  checkpoints := fun c hc ↦ by cases hc
  few := Nat.zero_le _
  numbered := fun k o hk ↦ by cases hk
  observations := fun o ho ↦ by cases ho
  small := hsmall

theorem controls_normal {controlType controlType' name : String} {control : Control}
    {controls : Controls} {parameters : Attr} (h : controls.Normal controlType)
    (hnormal : normalizeControlParameters controlType' name parameters = some control.parameters)
    (htype : controlType' = "fault" ↔ controlType = "fault")
    (hkind : controlType = "fault" ∨ controlType = "checkpoint") :
    Controls.Normal controlType (PyValue.set controls name control) := by
  have hsame : controlType' = controlType := by
    rcases controlType_of_normal hnormal with ⟨rfl, -⟩ | ⟨rfl, -⟩ <;>
      rcases hkind with rfl | rfl <;> simp_all
  subst hsame
  intro c hc
  rcases PyValue.mem_set hc with rfl | hc
  · refine ⟨?_, normalizeControlParameters_toAttr hnormal⟩
    rcases controlType_of_normal hnormal with ⟨rfl, hname⟩ | ⟨rfl, hname⟩
    · exact hname
    · exact hname
  · exact h c hc

theorem withControl_sound {controlType name : String} {parameters : Attr} {active : Bool}
    {normalized : Fields} (h : prev.Sound cfg.sha256)
    (hcurrent : bindingIsCurrent prev.binding nowEpoch = true)
    (hnormal : normalizeControlParameters controlType name parameters = some normalized)
    (hsmall : fits maxLedgerBytes (.map (recordItem cfg.sha256
      (withControl prev nowEpoch controlType name ⟨active, normalized⟩))) = true) :
    (withControl prev nowEpoch controlType name ⟨active, normalized⟩).Sound cfg.sha256 where
  positive := by
    have hpositive := h.positive
    change 1 ≤ prev.revision + 1
    omega
  after := (current_bounds hcurrent).1
  before := (current_bounds hcurrent).2
  faults := by
    change Controls.Normal "fault" (if controlType = "fault" then _ else _)
    split_ifs with htype
    · exact controls_normal h.faults hnormal (by simp [htype]) (.inl rfl)
    · exact h.faults
  checkpoints := by
    change Controls.Normal "checkpoint" (if controlType = "fault" then _ else _)
    split_ifs with htype
    · exact h.checkpoints
    · exact controls_normal h.checkpoints hnormal (by simp [htype]) (.inr rfl)
  few := h.few
  numbered := h.numbered
  observations := h.observations
  small := hsmall

theorem withObservation_sound {kind : String} {payload : Attr} {normalized : Fields}
    (h : prev.Sound cfg.sha256) (hcurrent : bindingIsCurrent prev.binding nowEpoch = true)
    (hroom : prev.observations.length < maxObservations)
    (hnormal : normalizeObservationPayload kind payload = some normalized)
    (hpayload : fits maxObservationBytes normalized.toAttr = true)
    (hsmall : fits maxLedgerBytes (.map (recordItem cfg.sha256
      (withObservation prev nowEpoch kind normalized))) = true) :
    (withObservation prev nowEpoch kind normalized).Sound cfg.sha256 where
  positive := by
    have hpositive := h.positive
    change 1 ≤ prev.revision + 1
    omega
  after := (current_bounds hcurrent).1
  before := (current_bounds hcurrent).2
  faults := h.faults
  checkpoints := h.checkpoints
  few := by
    change (prev.observations ++ [_]).length ≤ maxObservations
    rw [List.length_append, List.length_singleton]
    omega
  numbered := by
    intro k o hk
    change (prev.observations ++ [_])[k]? = some o at hk
    rcases lt_or_ge k prev.observations.length with hlt | hge
    · rw [List.getElem?_append_left hlt] at hk
      exact h.numbered k o hk
    · rw [List.getElem?_append_right hge, List.getElem?_singleton] at hk
      split_ifs at hk with hk'
      cases hk
      have hk'' : k = prev.observations.length := by omega
      rw [hk'']
  observations := by
    intro o ho
    rcases List.mem_append.mp ho with ho | ho
    · exact h.observations o ho
    · obtain rfl := List.mem_singleton.mp ho
      exact ⟨normalizeObservationPayload_toAttr hnormal, hpayload, (current_bounds hcurrent).1,
        (current_bounds hcurrent).2⟩
  small := hsmall

/-! ### Calls -/

theorem claimAttempts_runs (hc : cs[i]? = some (.claim b))
    (hcurrent : bindingIsCurrent b nowEpoch = true) (n : ℕ) (hnow : nowEpoch ≤ w.time + 300) :
    Runs cfg cs i (fun _ _ ↦ True) (claimAttempts cfg b nowEpoch n) w := by
  induction n generalizing w with
  | zero => exact runs_pure fun _ _ ↦ trivial
  | succ n ih =>
      refine runs_read fun w₁ hw₁ hinv ⟨readable, current⟩ hread ↦ ?_
      have hnow₁ : nowEpoch ≤ w₁.time + 300 := hnow.trans (by have h := hw₁.time; omega)
      have hstamped : ∀ revision, (emptyRecord b nowEpoch revision).Stamped w₁.time :=
        fun _ ↦ ⟨hnow₁, fun o ho ↦ by cases ho⟩
      have hretry : ∀ w₂, Rely i w₁ w₂ →
          Runs cfg cs i (fun _ _ ↦ True) (claimAttempts cfg b nowEpoch n) w₂ := by
        intro w₂ hw₂
        exact ih (hnow₁.trans (by have h := hw₂.time; omega))
      dsimp only
      split_ifs
      · exact runs_pure fun _ _ ↦ trivial
      cases current with
      | none =>
          dsimp only [putNew]
          refine runs_putRecord hc (fun w₂ _ hinv₂ hholds ↦ ?_)
            (emptyRecord_sound hcurrent le_rfl) (hstamped 1) hretry
            (fun _ _ ↦ runs_pure fun _ _ ↦ trivial) fun _ _ _ ↦ runs_pure fun _ _ ↦ trivial
          have hnone := hinv₂.latest_of_absent hholds
          change w₂.latest (ledgerKey cfg.sha256 b) = none at hnone
          change Writes _ (w₂.latest (ledgerKey cfg.sha256 b)) _
          rw [hnone]
          exact .first b nowEpoch
      | some current =>
          obtain ⟨hwrote, -⟩ := hread current rfl
          dsimp only
          split_ifs with hsame hfence
          · exact runs_pure fun _ _ ↦ trivial
          · exact runs_pure fun _ _ ↦ trivial
          have hlt : current.binding.fenceToken < b.fenceToken := by
            simp only [Bool.or_eq_true, decide_eq_true_eq, not_or, not_le] at hfence
            exact hfence.2
          have hpositive : 1 ≤ current.revision + 1 := by
            obtain ⟨j, hj⟩ := hwrote
            have h := (hinv.sound _ _ hj).positive
            dsimp only at h
            omega
          unfold replace
          refine runs_putRecord hc (fun w₂ hw₂ hinv₂ hholds ↦ ?_)
            (emptyRecord_sound hcurrent hpositive) (hstamped _) hretry
            (fun _ _ ↦ runs_pure fun _ _ ↦ trivial) fun _ _ _ ↦ runs_pure fun _ _ ↦ trivial
          have hlatest := hinv₂.latest_of_holds (hwrote.rely hw₂) hholds
          change Writes _ (w₂.latest (ledgerKey cfg.sha256 b)) _
          rw [hlatest]
          exact .fenced b nowEpoch current hlt

theorem claim_runs (hc : cs[i]? = some (.claim b)) :
    Runs cfg cs i (fun _ _ ↦ True) (claim cfg b) w := by
  unfold claim
  split_ifs
  · exact runs_pure fun _ _ ↦ trivial
  · refine runs_currentTime fun w₁ _ r hr ↦ ?_
    cases r with
    | none => exact runs_pure fun _ _ ↦ trivial
    | some nowEpoch =>
        obtain ⟨hcurrent, hnow⟩ := hr nowEpoch rfl
        exact claimAttempts_runs hc hcurrent _ hnow

theorem writeControl_runs {controlType name : String} {parameters : Attr} {active : Bool}
    {expected : ℤ} (hc : cs[i]? = some (.writeControl b controlType name parameters active expected)) :
    Runs cfg cs i (fun _ _ ↦ True) (writeControl cfg b controlType name parameters active expected)
      w := by
  unfold writeControl
  split
  · exact runs_pure fun _ _ ↦ trivial
  · next normalized hnormal =>
    split_ifs
    · exact runs_pure fun _ _ ↦ trivial
    refine runs_currentTime fun w₁ _ r hr ↦ ?_
    cases r with
    | none => exact runs_pure fun _ _ ↦ trivial
    | some nowEpoch =>
        obtain ⟨hcurrent, hnow⟩ := hr nowEpoch rfl
        refine runs_read fun w₂ hw₂ hinv ⟨readable, current⟩ hread ↦ ?_
        cases current with
        | none => exact runs_pure fun _ _ ↦ trivial
        | some current =>
            obtain ⟨hwrote, hreadable⟩ := hread current rfl
            dsimp only
            split_ifs with hcond
            · exact runs_pure fun _ _ ↦ trivial
            obtain ⟨rfl, -⟩ : current.binding = b ∧ current.revision = expected := by
              simpa using hcond
            obtain ⟨j, hj⟩ := hwrote
            have hnow₂ : nowEpoch ≤ w₂.time + 300 := hnow.trans (by have h := hw₂.time; omega)
            refine runs_putRecord hc (fun w₃ hw₃ hinv₃ hholds ↦ ?_)
              (withControl_sound (hinv.sound _ _ hj) hcurrent hnormal)
              ⟨hnow₂, (hinv.stamped _ _ hj).2⟩
              (fun _ _ ↦ runs_pure fun _ _ ↦ trivial) (fun _ _ ↦ runs_pure fun _ _ ↦ trivial)
              fun _ _ _ ↦ runs_pure fun _ _ ↦ trivial
            have hwrote : w₂.Wrote (ledgerKey cfg.sha256 current.binding) current := ⟨j, hj⟩
            have hlatest := hinv₃.latest_of_holds (hwrote.rely hw₃) hholds
            change Writes _ (w₃.latest (ledgerKey cfg.sha256 current.binding)) _
            rw [hlatest]
            exact .control controlType name parameters active expected nowEpoch current normalized
              hnormal

theorem readActiveControl_runs {controlType name : String} :
    Runs cfg cs i (fun answer w' ↦ ∀ c, answer = some c →
      ∃ r, w'.Wrote (ledgerKey cfg.sha256 b) r ∧ r.binding = b ∧
        (name, ⟨true, c.parameters⟩) ∈ r.controls controlType)
      (readActiveControl cfg b controlType name) w := by
  unfold readActiveControl
  split_ifs
  · exact runs_pure fun _ _ c hc ↦ by cases hc
  refine runs_now fun w₁ _ r hr ↦ ?_
  cases r with
  | none => exact runs_pure fun _ _ c hc ↦ by cases hc
  | some nowEpoch =>
      refine runs_read fun w₂ _ _ ⟨readable, record⟩ hread ↦ ?_
      cases record with
      | none => exact runs_pure fun _ _ c hc ↦ by cases hc
      | some record =>
          obtain ⟨hwrote, -⟩ := hread record rfl
          dsimp only
          split_ifs with hb
          · exact runs_pure fun _ _ c hc ↦ by cases hc
          split
          · next parameters hlookup =>
            refine runs_pure fun w' hw' c hc ↦ ?_
            cases hc
            obtain ⟨before, after, heq, -⟩ := List.lookup_eq_some_iff.mp hlookup
            exact ⟨record, hwrote.rely hw', not_not.mp hb, by rw [heq]; simp⟩
          · exact runs_pure fun _ _ c hc ↦ by cases hc

theorem appendAttempts_runs {kind : String} {payload : Attr} {normalized : Fields}
    (hc : cs[i]? = some (.appendObservation b kind payload))
    (hcurrent : bindingIsCurrent b nowEpoch = true)
    (hnormal : normalizeObservationPayload kind payload = some normalized)
    (hsmall : fits maxObservationBytes normalized.toAttr = true) (n : ℕ)
    (hnow : nowEpoch ≤ w.time + 300) (hown : w.own (ledgerKey cfg.sha256 b) i = []) :
    Runs cfg cs i (fun done w' ↦ done = true →
      ∃ r, w'.own (ledgerKey cfg.sha256 b) i = [(i, r)])
      (appendAttempts cfg b nowEpoch kind normalized n) w := by
  induction n generalizing w with
  | zero => exact runs_pure fun _ _ h ↦ by cases h
  | succ n ih =>
      refine runs_read fun w₁ hw₁ hinv ⟨readable, current⟩ hread ↦ ?_
      have hnow₁ : nowEpoch ≤ w₁.time + 300 := hnow.trans (by have h := hw₁.time; omega)
      have hown₁ : w₁.own (ledgerKey cfg.sha256 b) i = [] := (own_rely hw₁ _).trans hown
      cases current with
      | none => exact runs_pure fun _ _ h ↦ by cases h
      | some current =>
          obtain ⟨⟨j, hj⟩, -⟩ := hread current rfl
          dsimp only
          split_ifs with hcond
          · exact runs_pure fun _ _ h ↦ by cases h
          obtain ⟨rfl, hroom⟩ : current.binding = b ∧
              current.observations.length < maxObservations := by
            simpa using hcond
          have hstamped : (withObservation current nowEpoch kind normalized).Stamped w₁.time := by
            refine ⟨hnow₁, fun o ho ↦ ?_⟩
            rcases List.mem_append.mp ho with ho | ho
            · exact (hinv.stamped _ _ hj).2 o ho
            · obtain rfl := List.mem_singleton.mp ho
              exact hnow₁
          refine runs_putRecord hc (fun w₂ hw₂ hinv₂ hholds ↦ ?_)
            (withObservation_sound (hinv.sound _ _ hj) hcurrent hroom hnormal hsmall) hstamped
            (fun w₂ hw₂ ↦ ?_) (fun _ _ ↦ runs_pure fun _ _ h ↦ by cases h)
            fun w₂ _ hown₂ ↦ runs_pure fun w' hw' _ ↦ ?_
          · have hwrote : w₁.Wrote (ledgerKey cfg.sha256 current.binding) current := ⟨j, hj⟩
            have hlatest := hinv₂.latest_of_holds (hwrote.rely hw₂) hholds
            change Writes _ (w₂.latest (ledgerKey cfg.sha256 current.binding)) _
            rw [hlatest]
            exact .observation kind payload nowEpoch current normalized hnormal
          · exact ih (hnow₁.trans (by have h := hw₂.time; omega)) ((own_rely hw₂ _).trans hown₁)
          · refine ⟨withObservation current nowEpoch kind normalized, ?_⟩
            rw [own_rely hw']
            change w₂.own (ledgerKey cfg.sha256 current.binding) i = _ at hown₂
            rw [hown₂]
            exact congrArg _ hown₁

theorem appendObservation_runs {kind : String} {payload : Attr}
    (hc : cs[i]? = some (.appendObservation b kind payload))
    (hown : w.own (ledgerKey cfg.sha256 b) i = []) :
    Runs cfg cs i (fun done w' ↦ done = true →
      ∃ r, w'.own (ledgerKey cfg.sha256 b) i = [(i, r)]) (appendObservation cfg b kind payload) w := by
  unfold appendObservation
  split
  · exact runs_pure fun _ _ h ↦ by cases h
  · next normalized hnormal =>
    split_ifs with hcond
    · exact runs_pure fun _ _ h ↦ by cases h
    have hsmall : fits maxObservationBytes normalized.toAttr = true := by
      by_contra h
      exact hcond (by simp [h])
    refine runs_currentTime fun w₁ hw₁ r hr ↦ ?_
    cases r with
    | none => exact runs_pure fun _ _ h ↦ by cases h
    | some nowEpoch =>
        obtain ⟨hcurrent, hnow⟩ := hr nowEpoch rfl
        exact appendAttempts_runs hc hcurrent hnormal hsmall _ hnow ((own_rely hw₁ _).trans hown)

theorem collectObservations_runs {required : List String} :
    Runs cfg cs i (fun answer w' ↦ ∀ os, answer = some os →
      ∃ r, w'.Wrote (ledgerKey cfg.sha256 b) r ∧ r.binding = b ∧ os = r.observations)
      (collectObservations cfg b required) w := by
  unfold collectObservations
  split
  · exact runs_pure fun _ _ os hos ↦ by cases hos
  refine runs_now fun w₁ _ r hr ↦ ?_
  cases r with
  | none => exact runs_pure fun _ _ os hos ↦ by cases hos
  | some nowEpoch =>
      dsimp only
      split_ifs
      · exact runs_pure fun _ _ os hos ↦ by cases hos
      refine runs_read fun w₂ _ _ ⟨readable, record⟩ hread ↦ ?_
      cases record with
      | none => exact runs_pure fun _ _ os hos ↦ by cases hos
      | some record =>
          obtain ⟨hwrote, -⟩ := hread record rfl
          dsimp only
          split_ifs with hcond
          · exact runs_pure fun _ _ os hos ↦ by cases hos
          · refine runs_pure fun w' hw' os hos ↦ ?_
            cases hos
            exact ⟨record, hwrote.rely hw', not_not.mp (not_or.mp hcond).1, rfl⟩

/-! ### Any number of workers -/

/-- What the answer of a call tells. -/
def Tells (cfg : Config) (i : ℕ) : Call → Answer → World → Prop
  | .appendObservation b _ _, .appended true, w =>
      ∃ r, w.own (ledgerKey cfg.sha256 b) i = [(i, r)]
  | .collectObservations b _, .observations (some os), w =>
      ∃ r, w.Wrote (ledgerKey cfg.sha256 b) r ∧ r.binding = b ∧ os = r.observations
  | .readActiveFault b name, .control (some c), w =>
      ∃ r, w.Wrote (ledgerKey cfg.sha256 b) r ∧ r.binding = b ∧
        (name, ⟨true, c.parameters⟩) ∈ r.faults
  | .readActiveCheckpoint b name, .control (some c), w =>
      ∃ r, w.Wrote (ledgerKey cfg.sha256 b) r ∧ r.binding = b ∧
        (name, ⟨true, c.parameters⟩) ∈ r.checkpoints
  | _, _, _ => True

theorem Tells.rely {answer : Answer} (h : Tells cfg i c answer w) (hw : Rely i w w') :
    Tells cfg i c answer w' := by
  unfold Tells at h ⊢
  split
  · rwa [own_rely hw]
  · obtain ⟨r, hr, hrest⟩ := h
    exact ⟨r, hr.rely hw, hrest⟩
  · obtain ⟨r, hr, hrest⟩ := h
    exact ⟨r, hr.rely hw, hrest⟩
  · obtain ⟨r, hr, hrest⟩ := h
    exact ⟨r, hr.rely hw, hrest⟩
  · trivial

theorem body_runs (hc : cs[i]? = some c) (hown : ∀ key, w.own key i = []) :
    Runs cfg cs i (Tells cfg i c) (body cfg c) w := by
  cases c with
  | claim b =>
      refine Safe.seq (claim_runs hc) fun r w₁ _ _ ↦ runs_pure fun _ _ ↦ ?_
      trivial
  | writeControl b controlType name parameters active expected =>
      refine Safe.seq (writeControl_runs hc) fun r w₁ _ _ ↦ runs_pure fun _ _ ↦ ?_
      trivial
  | readActiveFault b name =>
      refine Safe.seq readActiveControl_runs fun r w₁ _ hr ↦ runs_pure fun w' hw' ↦ ?_
      refine Tells.rely ?_ hw'
      cases r with
      | none => trivial
      | some control => exact hr control rfl
  | readActiveCheckpoint b name =>
      refine Safe.seq readActiveControl_runs fun r w₁ _ hr ↦ runs_pure fun w' hw' ↦ ?_
      refine Tells.rely ?_ hw'
      cases r with
      | none => trivial
      | some control => exact hr control rfl
  | appendObservation b kind payload =>
      refine Safe.seq (appendObservation_runs hc (hown _)) fun done w₁ _ hdone ↦
        runs_pure fun w' hw' ↦ ?_
      refine Tells.rely ?_ hw'
      cases done with
      | false => trivial
      | true => exact hdone rfl
  | collectObservations b required =>
      refine Safe.seq collectObservations_runs fun os w₁ _ hos ↦ runs_pure fun w' hw' ↦ ?_
      refine Tells.rely ?_ hw'
      cases os with
      | none => trivial
      | some os => exact hos os rfl

theorem obligations (cfg : Config) (cs : List Call) :
    Obligations ((service cfg).placed cs) (protocol cfg cs) (fun i w ↦ ∀ key, w.own key i = [])
      fun i c _ answer w ↦ Tells cfg i c answer w where
  pre_rely i w w' hw hown key := (own_rely hw key).trans (hown key)
  env := by
    rintro w w' hinv ⟨time, htime, rfl⟩
    exact ⟨⟨hinv.rows, hinv.sound, fun key e he ↦ (hinv.stamped key e he).mono htime, hinv.chained⟩,
      fun i ↦ ⟨htime, fun key ↦ ⟨[], rfl, by simp⟩⟩⟩
  start p c _ hown hc _ := body_runs hc.2 hown

theorem inv_start (cfg : Config) (cs : List Call) (time : ℤ) : Inv cfg cs (start time) where
  rows _ := rfl
  sound _ _ he := by cases he
  stamped _ _ he := by cases he
  chained _ := trivial

abbrev RehearsalPool := Pool Op Ret World Call Answer

/-- Nothing that has been written is lost from a log. -/
theorem log_suffix {p q : RehearsalPool} (h : Steps (service cfg) p q) (key : String) :
    p.state.log key <:+ q.state.log key := by
  induction h with
  | refl => exact List.suffix_rfl
  | tail _ hstep ih =>
      refine ih.trans ?_
      cases hstep with
      | start c hc => exact List.suffix_rfl
      | env s' henv =>
          obtain ⟨time, -, rfl⟩ := henv
          exact List.suffix_rfl
      | run i c s₀ o k r s' hi hexec =>
          cases hexec with
          | now | now_raised | getItem | getItem_raised | conflict | put_raised =>
              exact List.suffix_rfl
          | put record condition _ hholds hstatus =>
              rw [put_log]
              split_ifs
              · exact List.suffix_cons _ _
              · exact List.suffix_rfl

theorem reachable_safe {time : ℤ} {p : RehearsalPool}
    (hp : Reachable (service cfg) (start time) p) :
    PoolSafe ((service cfg).placed p.calls) (protocol cfg p.calls) (fun i w ↦ ∀ key, w.own key i = [])
      (fun i c _ answer w ↦ Tells cfg i c answer w) p :=
  Reachable.poolSafe (obligations cfg p.calls) (inv_start cfg p.calls time) (fun _ _ ↦ rfl)
    hp.placed_calls

/-- What holds of a ledger in every state that any workers reach. -/
structure Fenced (cfg : Config) (p : RehearsalPool) : Prop where
  stored : ∀ key, p.state.rows key = (p.state.latest key).map (recordItem cfg.sha256)
  /-- What was written is read back from now on, if its revision and its time can be read. -/
  decoded : ∀ key, ∀ e ∈ p.state.log key, 0 ≤ e.2.updatedAtEpoch → e.2.revision ≤ maxFenceToken →
    ∀ nowEpoch requireActive, p.state.time ≤ nowEpoch →
      (requireActive = true → bindingIsCurrent e.2.binding nowEpoch = true) →
        decodeRecord cfg.sha256 (recordItem cfg.sha256 e.2) nowEpoch requireActive = some e.2
  numbered : ∀ key, ∀ e ∈ p.state.log key, ∀ (k : ℕ) (o : RehearsalObservation),
    e.2.observations[k]? = some o → o.sequence = k + 1
  added : ∀ key r, p.state.latest key = some r →
    (History.added (p.state.log key)).map Prod.snd = r.observations
  /-- A successful append is in the list exactly once, until a higher fence is claimed. -/
  once : ∀ (i : ℕ) (b : RehearsalBinding) (kind : String) (payload : Attr) (w₀ : World),
    p.threads[i]? = some ⟨.appendObservation b kind payload, w₀, .done (.appended true)⟩ →
      ∃ r, p.state.latest (ledgerKey cfg.sha256 b) = some r ∧
        (b.fenceToken < r.binding.fenceToken ∨ r.binding = b ∧
          ∃ o, ((History.added (p.state.log (ledgerKey cfg.sha256 b))).filter fun e ↦ e.1 = i) =
            [(i, o)] ∧ o.kind = kind ∧ normalizeObservationPayload kind payload = some o.payload)
  /-- All that a row has comes from calls of its binding. -/
  provenance : ∀ key, ∀ e ∈ p.state.log key,
    (∀ o ∈ e.2.observations, ∃ j, Appended p.calls e.2.binding j o) ∧
      (∀ c ∈ e.2.faults, Installed p.calls e.2.binding "fault" c) ∧
        ∀ c ∈ e.2.checkpoints, Installed p.calls e.2.binding "checkpoint" c
  collected : ∀ (i : ℕ) (b : RehearsalBinding) (required : List String) (w₀ : World)
    (os : List RehearsalObservation),
    p.threads[i]? = some ⟨.collectObservations b required, w₀, .done (.observations (some os))⟩ →
      ∀ o ∈ os, ∃ j, Appended p.calls b j o
  activeFault : ∀ (i : ℕ) (b : RehearsalBinding) (name : String) (w₀ : World)
    (c : ActiveRehearsalControl),
    p.threads[i]? = some ⟨.readActiveFault b name, w₀, .done (.control (some c))⟩ →
      Installed p.calls b "fault" (name, ⟨true, c.parameters⟩)
  activeCheckpoint : ∀ (i : ℕ) (b : RehearsalBinding) (name : String) (w₀ : World)
    (c : ActiveRehearsalControl),
    p.threads[i]? = some ⟨.readActiveCheckpoint b name, w₀, .done (.control (some c))⟩ →
      Installed p.calls b "checkpoint" (name, ⟨true, c.parameters⟩)

def perform (cfg : Config) (i : ℕ) : (o : Op) → World → Ret o × World
  | .now, w => (some w.time, w)
  | .getItem key, w => (some (w.rows key), w)
  | .putItem record condition, w =>
      if condition.holds (w.rows (ledgerKey cfg.sha256 record.binding)) then
        (.written, w.put cfg i record)
      else (.conflict, w)

theorem exec_perform (cfg : Config) (i : ℕ) (o : Op) (w : World) :
    Exec cfg i w o (perform cfg i o w).1 (perform cfg i o w).2 := by
  cases o with
  | now => exact .now _ le_rfl (by omega)
  | getItem key => exact .getItem key
  | putItem record condition =>
      simp only [perform]
      split_ifs with hholds
      · exact .put record condition .written hholds (by decide)
      · exact .conflict record condition (Bool.eq_false_iff.mpr hholds)

/-- One call that runs alone. -/
def alone (cfg : Config) (p : RehearsalPool) (c : Call) : RehearsalPool :=
  let result := (body cfg c).play (perform cfg p.threads.length) p.state
  ⟨result.2, p.threads ++ [⟨c, p.state, .done result.1⟩]⟩

theorem Reachable.alone {time : ℤ} {p : RehearsalPool}
    (hp : Reachable (service cfg) (start time) p) (c : Call) :
    Reachable (service cfg) (start time) (alone cfg p c) := by
  refine Relation.ReflTransGen.trans hp (steps_of_evals trivial ?_)
  exact Evals.play (M := (service cfg).machine) (exec_perform cfg _) _ _

/-- A ledger whose digests are the texts themselves. -/
def plain : Config := ⟨String.ofList, true⟩

def stage (fenceToken expiresAtEpoch : ℤ) : BindingFields where
  tenantId := "tenant-a"
  projectId := "project-a"
  correlationId := "0123456789abcdef0123456789abcdef"
  ownerId := "0123456789abcdef0123456789abcdef0123456789abcdef0123456789abcdef"
  releaseCommit := "0123456789abcdef0123456789abcdef01234567"
  fenceToken := fenceToken
  expiresAtEpoch := expiresAtEpoch

def first : RehearsalBinding := ⟨stage 1 3600, by decide +kernel⟩

def begun (cfg : Config) (time : ℤ) (c : Call) : RehearsalPool := alone cfg ⟨start time, []⟩ c

theorem begun_reachable (cfg : Config) (time : ℤ) (c : Call) :
    Reachable (service cfg) (start time) (begun cfg time c) :=
  Reachable.alone Relation.ReflTransGen.refl c

theorem toString_length {n : ℤ} (h : 0 ≤ n) (hn : n ≤ 2 ^ 63) : (toString n).length ≤ 20 := by
  obtain ⟨k, rfl⟩ := Int.eq_ofNat_of_zero_le h
  have hk : k < 10 ^ 20 := by omega
  exact Nat.repr_length k 20 (by decide) hk

def delay : Fields := [("delay_seconds", .integer 30)]

/-- The record after so many writes of one control. -/
def counted (n : ℤ) : Record := ⟨first, n, 0, [("startup-delay", ⟨true, delay⟩)], [], []⟩

theorem counted_item (n : ℤ) : recordItem plain.sha256 (counted n) =
    (recordItem plain.sha256 (counted 0)).take 11 ++ [("revision", .num n)] ++
      (recordItem plain.sha256 (counted 0)).drop 12 := rfl

theorem counted_fits {n : ℤ} (h : 0 ≤ n) (hn : n ≤ 2 ^ 63) :
    fits maxLedgerBytes (.map (recordItem plain.sha256 (counted n))) = true := by
  obtain ⟨before, hbefore, hsmall⟩ : ∃ sizes,
      fieldSizes ((recordItem plain.sha256 (counted 0)).take 11) = some sizes ∧
        sizes.sum + sizes.length ≤ 2000 := by
    have h : (fieldSizes ((recordItem plain.sha256 (counted 0)).take 11)).any
        (fun sizes ↦ sizes.sum + sizes.length ≤ 2000) = true := by decide +kernel
    simpa [Option.any_eq_true] using h
  obtain ⟨after, hafter, hsmall'⟩ : ∃ sizes,
      fieldSizes ((recordItem plain.sha256 (counted 0)).drop 12) = some sizes ∧
        sizes.sum + sizes.length ≤ 2000 := by
    have h : (fieldSizes ((recordItem plain.sha256 (counted 0)).drop 12)).any
        (fun sizes ↦ sizes.sum + sizes.length ≤ 2000) = true := by decide +kernel
    simpa [Option.any_eq_true] using h
  have hrevision : fieldSizes [("revision", .num n)] = some [11 + (toString n).length] := by
    have hname : (JsonText.string "revision").length = 10 := by decide +kernel
    simp [fieldSizes, fieldSize, canonicalSize, hname]
  have hlength := toString_length h hn
  have hsizes : fieldSizes (recordItem plain.sha256 (counted n)) =
      some (before ++ [11 + (toString n).length] ++ after) := by
    rw [counted_item, fieldSizes_append, fieldSizes_append, hbefore, hrevision, hafter]
    rfl
  rw [fits, canonicalSize, hsizes]
  refine decide_eq_true ?_
  simp only [separated, maxLedgerBytes, List.sum_append, List.length_append, List.sum_singleton,
    List.length_singleton]
  omega

theorem counted_sound {n : ℤ} (h : 1 ≤ n) (hn : n ≤ 2 ^ 63) : (counted n).Sound plain.sha256 where
  positive := h
  after := by change (3600 : ℤ) - maxLedgerTtlSeconds ≤ 0; decide
  before := by change (0 : ℤ) ≤ 3600; decide
  faults := by
    rintro c hc
    obtain rfl := List.mem_singleton.mp hc
    decide +kernel
  checkpoints := fun c hc ↦ by cases hc
  few := Nat.zero_le _
  numbered := fun k o hk ↦ by cases hk
  observations := fun o ho ↦ by cases ho
  small := counted_fits (by omega) hn

theorem holds_recordItem (sha256 : List Char → String) (r : Record) :
    (Condition.current r).holds (some (recordItem sha256 r)) = true := by
  simp [Condition.holds, attrIs, recordItem, List.lookup]

theorem fits_empty : fits maxLedgerBytes
    (.map (recordItem plain.sha256 (emptyRecord first 0 1))) = true := by decide +kernel

theorem empty_sound : (emptyRecord first 0 1).Sound plain.sha256 :=
  emptyRecord_sound rfl le_rfl fits_empty

theorem play_claim {w : World} (i : ℕ) (hcurrent : bindingIsCurrent first w.time = true)
    (hrow : w.rows (ledgerKey plain.sha256 first) = none)
    (hfits : fits maxLedgerBytes
      (.map (recordItem plain.sha256 (emptyRecord first w.time 1))) = true) :
    ((body plain (.claim first)).play (perform plain i) w).2 =
      w.put plain i (emptyRecord first w.time 1) := by
  have hkey : ledgerKey plain.sha256 (emptyRecord first w.time 1).binding =
      ledgerKey plain.sha256 first := rfl
  have henabled : (!plain.enabled) = false := rfl
  simp only [body, claim, henabled, currentTime, ask, claimAttempts, maxCasAttempts, read, putNew,
    putRecord, hfits, Prog.play_bind, Prog.op, Prog.play_call, perform, Prog.play_done, hrow, hkey,
    Option.filter_some, hcurrent, Condition.holds, Option.isNone_none, Bool.not_true, if_true,
    Prog.pure_eq, Bool.false_eq_true, if_false, afterPut]

/-- The record of a claim that runs alone. -/
theorem begun_latest (time : ℤ) (hcurrent : bindingIsCurrent first time = true)
    (hfits : fits maxLedgerBytes
      (.map (recordItem plain.sha256 (emptyRecord first time 1))) = true) :
    (begun plain time (.claim first)).state.time = time ∧
      (begun plain time (.claim first)).state.latest (ledgerKey plain.sha256 first) =
        some (emptyRecord first time 1) := by
  have hplay := play_claim (w := start time) 0 hcurrent rfl hfits
  have hkey : ledgerKey plain.sha256 first =
      ledgerKey plain.sha256 (emptyRecord first (start time).time 1).binding := rfl
  constructor
  · rw [begun, alone, List.length_nil, hplay]
    rfl
  · rw [begun, alone, List.length_nil, hplay, World.latest, put_log, if_pos hkey]
    rfl

theorem play_writeControl {w : World} {r : Record} (i : ℕ) (hsound : r.Sound plain.sha256)
    (hbinding : r.binding = first) (hpositive : positiveInteger maxFenceToken r.revision = true)
    (hreadable : r.Readable 0 true) (htime : w.time = 0)
    (hrow : w.rows (ledgerKey plain.sha256 first) = some (recordItem plain.sha256 r))
    (hfits : fits maxLedgerBytes (.map (recordItem plain.sha256
      (withControl r 0 "fault" "startup-delay" ⟨true, delay⟩))) = true) :
    ((body plain (.writeControl first "fault" "startup-delay" delay.toAttr true r.revision)).play
      (perform plain i) w).2 =
        w.put plain i (withControl r 0 "fault" "startup-delay" ⟨true, delay⟩) := by
  have hread : decodeRecord plain.sha256 (recordItem plain.sha256 r) 0 true = some r := by
    rw [decodeRecord_recordItem hsound, if_pos hreadable]
  have hnormal : normalizeControlParameters "fault" "startup-delay" delay.toAttr = some delay := by
    decide +kernel
  have hexpected : (!plain.enabled || !positiveInteger maxFenceToken r.revision) = false := by
    rw [hpositive]
    rfl
  have hcurrent : bindingIsCurrent first 0 = true := rfl
  have hsame : ¬ (r.binding ≠ first ∨ r.revision ≠ r.revision) := by simp [hbinding]
  have hkey : ledgerKey plain.sha256 (withControl r 0 "fault" "startup-delay" ⟨true, delay⟩).binding =
      ledgerKey plain.sha256 first := congrArg _ hbinding
  simp only [body, writeControl, hnormal, hexpected, currentTime, ask, read, replace, putRecord,
    hfits, Prog.play_bind, Prog.op, Prog.play_call, perform, Prog.play_done, htime, hrow, hread,
    Option.filter_some, hcurrent, if_true, if_neg hsame, hkey, holds_recordItem, Prog.pure_eq,
    Bool.false_eq_true, if_false]

/-- A control written over the latest record. -/
theorem latest_writeControl {p : RehearsalPool} {r : Record}
    (hp : Reachable (service plain) (start 0) p) (htime : p.state.time = 0)
    (hlatest : p.state.latest (ledgerKey plain.sha256 first) = some r)
    (hsound : r.Sound plain.sha256) (hbinding : r.binding = first)
    (hpositive : positiveInteger maxFenceToken r.revision = true) (hreadable : r.Readable 0 true)
    (hfits : fits maxLedgerBytes (.map (recordItem plain.sha256
      (withControl r 0 "fault" "startup-delay" ⟨true, delay⟩))) = true) :
    ∃ q, Reachable (service plain) (start 0) q ∧ q.state.time = 0 ∧
      q.state.latest (ledgerKey plain.sha256 first) =
        some (withControl r 0 "fault" "startup-delay" ⟨true, delay⟩) := by
  have hrow := (reachable_safe hp).inv.rows (ledgerKey plain.sha256 first)
  rw [hlatest, Option.map_some] at hrow
  have hplay := play_writeControl p.threads.length hsound hbinding hpositive hreadable htime hrow
    hfits
  refine ⟨_, Reachable.alone hp
    (.writeControl first "fault" "startup-delay" delay.toAttr true r.revision), ?_, ?_⟩
  · rw [alone, hplay]
    exact htime
  · have hkey : ledgerKey plain.sha256 first = ledgerKey plain.sha256
        (withControl r 0 "fault" "startup-delay" ⟨true, delay⟩).binding :=
      congrArg _ hbinding.symm
    rw [alone, hplay, World.latest, put_log, if_pos hkey]
    rfl

theorem readable_of_positive {r : Record} (hbinding : r.binding = first)
    (hupdated : r.updatedAtEpoch = 0) (hobservations : r.observations = [])
    (hpositive : positiveInteger maxFenceToken r.revision = true) : r.Readable 0 true := by
  refine ⟨?_, by simp [hobservations]⟩
  rw [admissible, hpositive, hbinding, hupdated]
  rfl

/-- The same control written so many times. -/
theorem exists_counted (n : ℕ) (hn : n + 2 ≤ 2 ^ 63) :
    ∃ p, Reachable (service plain) (start 0) p ∧ p.state.time = 0 ∧
      p.state.latest (ledgerKey plain.sha256 first) = some (counted (n + 2)) := by
  have hmax : maxFenceToken = 2 ^ 63 - 1 := rfl
  induction n with
  | zero =>
      obtain ⟨htime, hlatest⟩ := begun_latest 0 rfl fits_empty
      exact latest_writeControl (begun_reachable plain 0 (.claim first)) htime hlatest empty_sound rfl
        rfl (readable_of_positive rfl rfl rfl rfl) (counted_fits (n := 2) (by omega) (by omega))
  | succ n ih =>
      obtain ⟨p, hp, htime, hlatest⟩ := ih (by omega)
      have hpositive : positiveInteger maxFenceToken (counted (n + 2)).revision = true := by
        change positiveInteger maxFenceToken ((n : ℤ) + 2) = true
        simp only [positiveInteger, Bool.and_eq_true, decide_eq_true_eq]
        omega
      have hnext : ((n + 1 : ℕ) : ℤ) + 2 = n + 2 + 1 := by omega
      rw [hnext]
      exact latest_writeControl hp htime hlatest (counted_sound (by omega) (by omega)) rfl hpositive
        (readable_of_positive rfl rfl rfl hpositive)
        (counted_fits (n := (n : ℤ) + 2 + 1) (by omega) (by omega))

theorem Inv.undecodable (hinv : Inv cfg cs w) (hlatest : w.latest key = some record)
    (h : record.updatedAtEpoch < 0 ∨ maxFenceToken < record.revision) :
    ∃ item, w.rows key = some item ∧
      ∀ nowEpoch requireActive, decodeRecord cfg.sha256 item nowEpoch requireActive = none := by
  obtain ⟨e, he, rfl⟩ := Option.map_eq_some_iff.mp hlatest
  refine ⟨recordItem cfg.sha256 e.2, by rw [hinv.rows key, hlatest]; rfl,
    fun nowEpoch requireActive ↦ ?_⟩
  rw [decodeRecord_recordItem (hinv.sound key e (List.mem_of_head? he)), if_neg]
  rintro ⟨hadmissible, -⟩
  simp only [admissible, positiveInteger, Bool.and_eq_true, decide_eq_true_eq] at hadmissible
  omega

/-- A claim and an append. -/
def rehearsed : RehearsalPool :=
  alone plain (begun plain 0 (.claim first)) (.appendObservation first "routing-decision"
    (.map [("provider", .str "openai"), ("request_id", .str "req-1"), ("strategy", .str "smart")]))

theorem latest_rehearsed :
    (rehearsed.state.latest (ledgerKey plain.sha256 first)).map (·.observations.length) = some 1 := by
  obtain ⟨htime, hlatest⟩ := begun_latest 0 rfl fits_empty
  have hrow := (reachable_safe (begun_reachable plain 0 (.claim first))).inv.rows
    (ledgerKey plain.sha256 first)
  rw [hlatest, Option.map_some] at hrow
  have hread : decodeRecord plain.sha256 (recordItem plain.sha256 (emptyRecord first 0 1)) 0 true =
      some (emptyRecord first 0 1) := by
    rw [decodeRecord_recordItem empty_sound, if_pos (readable_of_positive rfl rfl rfl rfl)]
  obtain ⟨payload, hnormal, hfits, hpayload⟩ : ∃ payload,
      normalizeObservationPayload "routing-decision" (.map [("provider", .str "openai"),
        ("request_id", .str "req-1"), ("strategy", .str "smart")]) = some payload ∧
      fits maxLedgerBytes (.map (recordItem plain.sha256
        (withObservation (emptyRecord first 0 1) 0 "routing-decision" payload))) = true ∧
      fits maxObservationBytes (Fields.toAttr payload) = true :=
    ⟨[("provider", .text "openai"), ("request_id", .text "req-1"),
      ("strategy", .text "smart")], by decide +kernel, by decide +kernel, by decide +kernel⟩
  have hcurrent : bindingIsCurrent first 0 = true := rfl
  have henabled : (!plain.enabled) = false := rfl
  have hroom : ¬ ((emptyRecord first 0 1).binding ≠ first ∨
      maxObservations ≤ (emptyRecord first 0 1).observations.length) := by decide
  have hkey : ledgerKey plain.sha256
      (withObservation (emptyRecord first 0 1) 0 "routing-decision" payload).binding =
        ledgerKey plain.sha256 first := rfl
  have hplay : ((body plain (.appendObservation first "routing-decision" (.map
      [("provider", .str "openai"), ("request_id", .str "req-1"), ("strategy", .str "smart")]))).play
        (perform plain (begun plain 0 (.claim first)).threads.length)
        (begun plain 0 (.claim first)).state).2 =
      (begun plain 0 (.claim first)).state.put plain
        (begun plain 0 (.claim first)).threads.length
        (withObservation (emptyRecord first 0 1) 0 "routing-decision" payload) := by
    simp only [body, appendObservation, hnormal, henabled, hpayload, Bool.not_true, Bool.or_self,
      currentTime, ask, appendAttempts, maxCasAttempts, read, replace, putRecord, hfits,
      Prog.play_bind, Prog.op, Prog.play_call, perform, Prog.play_done, htime, hrow, hread,
      Option.filter_some, hcurrent, if_true, if_neg hroom, hkey, holds_recordItem, Prog.pure_eq,
      Bool.false_eq_true, if_false, afterPut]
  rw [rehearsed, alone, hplay, World.latest, put_log, if_pos hkey.symm]
  rfl

end Rehearsal
