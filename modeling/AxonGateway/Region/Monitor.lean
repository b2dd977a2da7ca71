import AxonGateway.Region.Router

/-!
# The health monitor

Checks and operators write the status of the same spokes.  A spoke that is unhealthy does not
recover before its cooldown has ended.
-/

namespace Region

structure MonitorConfig where
  failoverThresholdConsecutive : ℤ
  failoverCooldownSeconds : ℤ

/-- The monitor with the live topology. -/
structure Monitor where
  spokes : List SpokeConfig
  consecutiveFailures : String → ℤ
  failoverCooldownUntil : String → ℚ

/-- What happens to a region at a time. -/
inductive Event where
  | checked (region : String) (healthy : Bool)
  | markUnhealthy (region : String)
  | markHealthy (region : String)
  | markDraining (region : String)
  deriving DecidableEq

def Event.region : Event → String
  | checked region _ => region
  | markUnhealthy region => region
  | markHealthy region => region
  | markDraining region => region

/-- The status of the spoke that `get_spoke` finds. -/
def statusIn (spokes : List SpokeConfig) (region : String) : Option SpokeStatus :=
  (spokes.find? fun s ↦ s.region = region).map SpokeConfig.status

/-- A status is written to that spoke. -/
def setStatus (region : String) (status : SpokeStatus) : List SpokeConfig → List SpokeConfig
  | [] => []
  | s :: rest =>
      if s.region = region then { s with status := status } :: rest
      else s :: setStatus region status rest

theorem statusIn_setStatus (spokes : List SpokeConfig) (region region' : String)
    (status : SpokeStatus) :
    statusIn (setStatus region status spokes) region' =
      if region' = region then (statusIn spokes region').map fun _ ↦ status
      else statusIn spokes region' := by
  induction spokes with
  | nil => simp [statusIn, setStatus]
  | cons s rest ih =>
      unfold setStatus
      unfold statusIn at ih ⊢
      by_cases hs : s.region = region
      · by_cases hr : region' = region
        · simp [hs, hr]
        · simp [hs, hr, Ne.symm hr]
      · rw [if_neg hs, List.find?_cons, List.find?_cons]
        by_cases hr : s.region = region'
        · have hne : region' ≠ region := fun h ↦ hs (hr.trans h)
          simp [hr, hne]
        · simpa [hr] using ih

namespace Monitor

variable (config : MonitorConfig)

def statusOf (m : Monitor) (region : String) : Option SpokeStatus := statusIn m.spokes region

/-- A failed check writes its counter, and at the threshold the status with a new cooldown. -/
def failedCheck (m : Monitor) (now : ℚ) (region : String) (status : SpokeStatus) : Monitor :=
  let failures := m.consecutiveFailures region + 1
  let m := { m with consecutiveFailures := Function.update m.consecutiveFailures region failures }
  if config.failoverThresholdConsecutive ≤ failures ∧ status ≠ .unhealthy then
    { m with
      spokes := setStatus region .unhealthy m.spokes
      failoverCooldownUntil := Function.update m.failoverCooldownUntil region
        (now + config.failoverCooldownSeconds) }
  else m

/-- A successful check; an unhealthy spoke waits for the end of its cooldown. -/
def passedCheck (m : Monitor) (now : ℚ) (region : String) (status : SpokeStatus) : Monitor :=
  let m := { m with consecutiveFailures := Function.update m.consecutiveFailures region 0 }
  if status = .unhealthy ∧ now < m.failoverCooldownUntil region then m
  else { m with spokes := setStatus region .healthy m.spokes }

/-- `mark_unhealthy`, for a spoke that is found. -/
def unhealthyMark (m : Monitor) (now : ℚ) (region : String) : Monitor :=
  { m with
    spokes := setStatus region .unhealthy m.spokes
    failoverCooldownUntil := Function.update m.failoverCooldownUntil region
      (now + config.failoverCooldownSeconds) }

/-- `mark_healthy`, for a spoke that is found. -/
def healthyMark (m : Monitor) (region : String) : Monitor :=
  { m with
    spokes := setStatus region .healthy m.spokes
    consecutiveFailures := Function.update m.consecutiveFailures region 0 }

/-- `mark_draining`, for a spoke that is found. -/
def drainingMark (m : Monitor) (region : String) : Monitor :=
  { m with spokes := setStatus region .draining m.spokes }

/-- What an event does to a spoke with this status. -/
def update (m : Monitor) (now : ℚ) (status : SpokeStatus) : Event → Monitor
  | .checked region true => m.passedCheck now region status
  | .checked region false => m.failedCheck config now region status
  | .markUnhealthy region => m.unhealthyMark config now region
  | .markHealthy region => m.healthyMark region
  | .markDraining region => m.drainingMark region

/-- One event; nothing happens where no spoke is found. -/
def step (m : Monitor) (now : ℚ) (e : Event) : Monitor :=
  match m.statusOf e.region with
  | none => m
  | some status => m.update config now status e

/-- The monitor after some events. -/
def run (m : Monitor) (events : List (ℚ × Event)) : Monitor :=
  events.foldl (fun m e ↦ m.step config e.1 e.2) m

/-- The monitor of a topology before its first event. -/
def start (spokes : List SpokeConfig) : Monitor := ⟨spokes, fun _ ↦ 0, fun _ ↦ 0⟩

/-- The spoke of the region may get traffic. -/
def Routable (m : Monitor) (region : String) : Prop :=
  m.statusOf region = some .healthy ∨ m.statusOf region = some .degraded

instance (m : Monitor) (region : String) : Decidable (m.Routable region) :=
  inferInstanceAs (Decidable (_ ∨ _))

/-! ### One event -/

variable {config} {m : Monitor} {now : ℚ} {region : String} {e : Event} {status : SpokeStatus}

theorem statusOf_setStatus (m : Monitor) (region region' : String) (status : SpokeStatus) :
    statusIn (setStatus region status m.spokes) region' =
      if region' = region then (m.statusOf region').map fun _ ↦ status else m.statusOf region' :=
  statusIn_setStatus m.spokes region region' status

variable (config now) in
/-- The status that a check or an override leaves. -/
theorem statusOf_update (hstatus : m.statusOf e.region = some status) :
    (m.update config now status e).statusOf e.region = some
      (match e with
        | .checked region true =>
            if status = .unhealthy ∧ now < m.failoverCooldownUntil region then .unhealthy
            else .healthy
        | .checked region false =>
            if config.failoverThresholdConsecutive ≤ m.consecutiveFailures region + 1 then .unhealthy
            else status
        | .markUnhealthy _ => .unhealthy
        | .markHealthy _ => .healthy
        | .markDraining _ => .draining) := by
  have hset : ∀ status', statusIn (setStatus e.region status' m.spokes) e.region = some status' := by
    intro status'
    rw [statusOf_setStatus, if_pos rfl, hstatus]
    rfl
  cases e with
  | checked region healthy =>
      cases healthy with
      | true =>
          simp only [update, passedCheck]
          split_ifs with h
          · exact hstatus.trans (by rw [h.1])
          · exact hset .healthy
      | false =>
          simp only [update, failedCheck]
          split_ifs with h h' h'
          · exact hset .unhealthy
          · exact absurd h.1 h'
          · have hunhealthy : status = .unhealthy := by tauto
            exact hstatus.trans (by rw [hunhealthy])
          · exact hstatus
  | markUnhealthy region => exact hset .unhealthy
  | markHealthy region => exact hset .healthy
  | markDraining region => exact hset .draining

/-- An event of another region changes nothing here. -/
theorem step_of_ne (h : e.region ≠ region) :
    (m.step config now e).statusOf region = m.statusOf region ∧
      (m.step config now e).consecutiveFailures region = m.consecutiveFailures region ∧
        (m.step config now e).failoverCooldownUntil region = m.failoverCooldownUntil region := by
  have hne : region ≠ e.region := h.symm
  have hset : ∀ status', statusIn (setStatus e.region status' m.spokes) region =
      m.statusOf region := fun status' ↦ (statusOf_setStatus m _ _ _).trans (if_neg hne)
  unfold step
  cases m.statusOf e.region with
  | none => exact ⟨rfl, rfl, rfl⟩
  | some status =>
      cases e with
      | checked region' healthy =>
          cases healthy with
          | true =>
              simp only [update, passedCheck]
              split_ifs
              · exact ⟨rfl, Function.update_of_ne hne _ _, rfl⟩
              · exact ⟨hset _, Function.update_of_ne hne _ _, rfl⟩
          | false =>
              simp only [update, failedCheck]
              split_ifs
              · exact ⟨hset _, Function.update_of_ne hne _ _, Function.update_of_ne hne _ _⟩
              · exact ⟨rfl, Function.update_of_ne hne _ _, rfl⟩
      | markUnhealthy region' => exact ⟨hset _, rfl, Function.update_of_ne hne _ _⟩
      | markHealthy region' => exact ⟨hset _, Function.update_of_ne hne _ _, rfl⟩
      | markDraining region' => exact ⟨hset _, rfl, rfl⟩

theorem step_of_some (hstatus : m.statusOf e.region = some status) :
    m.step config now e = m.update config now status e := by
  rw [step, hstatus]

theorem step_of_none (hstatus : m.statusOf e.region = none) : m.step config now e = m := by
  rw [step, hstatus]

/-- Spokes neither come nor go. -/
theorem isSome_step (m : Monitor) (now : ℚ) (e : Event) (region : String) :
    ((m.step config now e).statusOf region).isSome = (m.statusOf region).isSome := by
  rcases eq_or_ne e.region region with rfl | hne
  · cases hstatus : m.statusOf e.region with
    | none => rw [step_of_none hstatus, hstatus]
    | some status => rw [step_of_some hstatus, statusOf_update config now hstatus]; rfl
  · rw [(step_of_ne hne).1]

/-- Only an override or a successful check makes a spoke routable. -/
theorem not_routable_step (h : ¬ m.Routable region) (hhealthy : e ≠ .markHealthy region)
    (hpassed : e ≠ .checked region true) : ¬ (m.step config now e).Routable region := by
  rcases eq_or_ne e.region region with rfl | hne
  · cases hstatus : m.statusOf e.region with
    | none => rwa [step_of_none hstatus]
    | some status =>
        rw [Routable, hstatus] at h
        rw [step_of_some hstatus, Routable, statusOf_update config now hstatus]
        cases e with
        | checked region healthy =>
            cases healthy with
            | true => exact absurd rfl hpassed
            | false =>
                dsimp only
                split_ifs
                · simp
                · exact h
        | markHealthy region => exact absurd rfl hhealthy
        | markUnhealthy region => simp
        | markDraining region => simp
  · rwa [Routable, (step_of_ne hne).1]

theorem not_routable_run {events : List (ℚ × Event)} (h : ¬ m.Routable region)
    (hhealthy : ∀ e ∈ events, e.2 ≠ .markHealthy region)
    (hpassed : ∀ e ∈ events, e.2 ≠ .checked region true) :
    ¬ (m.run config events).Routable region := by
  induction events generalizing m with
  | nil => exact h
  | cons e events ih =>
      obtain ⟨hhealthy', hhealthy⟩ := List.forall_mem_cons.mp hhealthy
      obtain ⟨hpassed', hpassed⟩ := List.forall_mem_cons.mp hpassed
      exact ih (not_routable_step h hhealthy' hpassed') hhealthy hpassed

/-! ### Cooldowns -/

/-- The spoke is unhealthy and cannot recover before `until`. -/
structure Cooling (m : Monitor) (region : String) (until' : ℚ) : Prop where
  unhealthy : m.statusOf region = some .unhealthy
  cooldown : until' ≤ m.failoverCooldownUntil region

theorem Cooling.not_routable {until' : ℚ} (h : m.Cooling region until') : ¬ m.Routable region := by
  rw [Routable, h.unhealthy]
  simp

/-- A cooldown starts where a spoke becomes unhealthy or is marked so. -/
theorem cooling_of_step (hunhealthy : (m.step config now e).statusOf region = some .unhealthy)
    (hstarts : e = .markUnhealthy region ∨ m.statusOf region ≠ some .unhealthy) :
    (m.step config now e).Cooling region (now + config.failoverCooldownSeconds) := by
  refine ⟨hunhealthy, ?_⟩
  rcases eq_or_ne e.region region with rfl | hne
  · cases hstatus : m.statusOf e.region with
    | none =>
        rw [step_of_none hstatus, hstatus] at hunhealthy
        cases hunhealthy
    | some status =>
        rw [step_of_some hstatus, statusOf_update config now hstatus] at hunhealthy
        rw [step_of_some hstatus]
        rw [hstatus] at hstarts
        cases e with
        | checked region healthy =>
            have hne : status ≠ .unhealthy := by
              rintro rfl
              rcases hstarts with h | h
              · cases h
              · exact h rfl
            cases healthy with
            | true =>
                dsimp only at hunhealthy
                rw [if_neg fun h ↦ hne h.1] at hunhealthy
                cases hunhealthy
            | false =>
                dsimp only at hunhealthy
                split_ifs at hunhealthy with hthreshold
                · simp only [update, failedCheck]
                  rw [if_pos ⟨hthreshold, hne⟩]
                  simp [Event.region]
                · exact absurd (Option.some.inj hunhealthy) hne
        | markUnhealthy region => simp [update, unhealthyMark, Event.region]
        | markHealthy region => cases hunhealthy
        | markDraining region => cases hunhealthy
  · rw [(step_of_ne hne).1] at hunhealthy
    rcases hstarts with rfl | h
    · exact absurd rfl hne
    · exact absurd hunhealthy h

theorem Cooling.step {since : ℚ}
    (h : m.Cooling region (since + config.failoverCooldownSeconds)) (hsince : since ≤ now)
    (hnow : now < since + config.failoverCooldownSeconds) (hhealthy : e ≠ .markHealthy region)
    (hdraining : e ≠ .markDraining region) :
    (m.step config now e).Cooling region (since + config.failoverCooldownSeconds) := by
  rcases eq_or_ne e.region region with rfl | hne
  · have hstatus := h.unhealthy
    rw [step_of_some hstatus]
    refine ⟨?_, ?_⟩
    · rw [statusOf_update config now hstatus]
      cases e with
      | checked region healthy =>
          cases healthy with
          | true => exact congrArg some (if_pos ⟨rfl, hnow.trans_le h.cooldown⟩)
          | false => simp
      | markUnhealthy region => rfl
      | markHealthy region => exact absurd rfl hhealthy
      | markDraining region => exact absurd rfl hdraining
    · cases e with
      | checked region healthy =>
          cases healthy with
          | true =>
              simp only [update, passedCheck]
              split_ifs <;> exact h.cooldown
          | false =>
              simp only [update, failedCheck]
              rw [if_neg fun h ↦ h.2 rfl]
              exact h.cooldown
      | markUnhealthy region =>
          simp only [update, unhealthyMark, Event.region, Function.update_self]
          linarith
      | markHealthy region => exact absurd rfl hhealthy
      | markDraining region => exact absurd rfl hdraining
  · obtain ⟨hstatus, -, hcooldown⟩ := (step_of_ne hne : _ ∧ _ ∧ (m.step config now e).failoverCooldownUntil region = _)
    exact ⟨hstatus.trans h.unhealthy, h.cooldown.trans hcooldown.ge⟩

/-- An unhealthy spoke stays so until its cooldown ends, or it is drained and then recovers. -/
theorem Cooling.run {since : ℚ} {events : List (ℚ × Event)}
    (h : m.Cooling region (since + config.failoverCooldownSeconds))
    (htimes : ∀ e ∈ events, since ≤ e.1 ∧ e.1 < since + config.failoverCooldownSeconds)
    (hhealthy : ∀ e ∈ events, e.2 ≠ .markHealthy region)
    (hdraining : ∀ before now after, events = before ++ (now, .markDraining region) :: after →
      ∀ e ∈ after, e.2 ≠ .checked region true) : ¬ (m.run config events).Routable region := by
  induction events generalizing m with
  | nil => exact h.not_routable
  | cons e events ih =>
      obtain ⟨now, e⟩ := e
      obtain ⟨⟨hsince, hnow⟩, htimes⟩ := List.forall_mem_cons.mp htimes
      obtain ⟨hhealthy', hlater⟩ := List.forall_mem_cons.mp hhealthy
      by_cases he : e = .markDraining region
      · subst he
        change ¬ ((m.step config now (.markDraining region)).run config events).Routable region
        refine not_routable_run (not_routable_step h.not_routable hhealthy' (by simp)) hlater ?_
        exact hdraining [] now events rfl
      · refine ih (h.step hsince hnow hhealthy' he) htimes hlater fun before now' after heq ↦ ?_
        exact hdraining ((now, e) :: before) now' after (by rw [heq]; rfl)

/-! ### Failures -/

/-- The failed checks of a region. -/
def failedChecks (region : String) (events : List (ℚ × Event)) : List (ℚ × Event) :=
  events.filter fun e ↦ e.2 = .checked region false

/-- The counter of a region is at most the number of its failed checks since the last success. -/
def Counted (m : Monitor) (region : String) (events : List (ℚ × Event)) : Prop :=
  ∃ earlier recent, events = earlier ++ recent ∧ (∀ e ∈ recent, e.2 ≠ .checked region true) ∧
    m.consecutiveFailures region ≤ (failedChecks region recent).length

theorem Counted.step {events : List (ℚ × Event)} (h : m.Counted region events)
    (hfound : (m.statusOf region).isSome = true) :
    (m.step config now e).Counted region (events ++ [(now, e)]) := by
  obtain ⟨earlier, recent, rfl, hrecent, hcount⟩ := h
  have hmono : (failedChecks region recent).length ≤
      (failedChecks region (recent ++ [(now, e)])).length := by
    rw [failedChecks, failedChecks, List.filter_append, List.length_append]
    omega
  have hkeep : m.consecutiveFailures region = (m.step config now e).consecutiveFailures region →
      e ≠ .checked region true → (m.step config now e).Counted region
        (earlier ++ recent ++ [(now, e)]) := by
    intro heq hne
    refine ⟨earlier, recent ++ [(now, e)], by rw [List.append_assoc], ?_, ?_⟩
    · intro e' he'
      rcases List.mem_append.mp he' with he' | he'
      · exact hrecent e' he'
      · obtain rfl := List.mem_singleton.mp he'
        exact hne
    · omega
  have hreset : (m.step config now e).consecutiveFailures region = 0 →
      (m.step config now e).Counted region (earlier ++ recent ++ [(now, e)]) := by
    intro hzero
    refine ⟨earlier ++ recent ++ [(now, e)], [], by simp, by simp, ?_⟩
    rw [hzero]
    exact Int.natCast_nonneg _
  rcases eq_or_ne e.region region with rfl | hne
  · obtain ⟨status, hstatus⟩ := Option.isSome_iff_exists.mp hfound
    have hstep : m.step config now e = m.update config now status e := step_of_some hstatus
    cases e with
    | checked region healthy =>
        cases healthy with
        | true =>
            refine hreset ?_
            rw [hstep]
            simp only [update, passedCheck]
            split_ifs <;> exact Function.update_self _ _ _
        | false =>
            refine ⟨earlier, recent ++ [(now, .checked region false)], by rw [List.append_assoc], ?_, ?_⟩
            · intro e' he'
              rcases List.mem_append.mp he' with he' | he'
              · exact hrecent e' he'
              · obtain rfl := List.mem_singleton.mp he'
                simp
            · have hfailures : (m.step config now (.checked region false)).consecutiveFailures region =
                  m.consecutiveFailures region + 1 := by
                rw [hstep]
                simp only [update, failedCheck]
                split_ifs <;> exact Function.update_self _ _ _
              have hone : (failedChecks region (recent ++ [(now, .checked region false)])).length =
                  (failedChecks region recent).length + 1 := by
                simp [failedChecks]
              change (m.step config now (.checked region false)).consecutiveFailures region ≤ _
              rw [hfailures]
              change _ ≤ ((failedChecks region (recent ++ [(now, .checked region false)])).length : ℤ)
              rw [hone]
              push_cast
              exact Int.add_le_add_right hcount 1
    | markUnhealthy region => exact hkeep (by rw [hstep]; rfl) (by simp)
    | markHealthy region => exact hreset (by rw [hstep]; exact Function.update_self _ _ _)
    | markDraining region => exact hkeep (by rw [hstep]; rfl) (by simp)
  · refine hkeep (step_of_ne hne).2.1.symm ?_
    rintro rfl
    exact hne rfl

theorem run_append (m : Monitor) (events : List (ℚ × Event)) (e : ℚ × Event) :
    m.run config (events ++ [e]) = (m.run config events).step config e.1 e.2 := by
  rw [run, run, List.foldl_append]
  rfl

variable (config) in
theorem counted_run {spokes : List SpokeConfig} (events : List (ℚ × Event))
    (hfound : ((start spokes).statusOf region).isSome = true) :
    (((start spokes).run config events).statusOf region).isSome = true ∧
      ((start spokes).run config events).Counted region events := by
  induction events using List.reverseRecOn with
  | nil => exact ⟨hfound, [], [], rfl, by simp, le_rfl⟩
  | append_singleton events e ih =>
      rw [run_append]
      exact ⟨(isSome_step _ _ _ _).trans ih.1, ih.2.step ih.1⟩

variable (config) in
theorem isSome_run (m : Monitor) (events : List (ℚ × Event)) :
    ((m.run config events).statusOf region).isSome = (m.statusOf region).isSome := by
  induction events using List.reverseRecOn with
  | nil => rfl
  | append_singleton events e ih => rw [run_append, isSome_step, ih]

end Monitor

/-! ### Runs -/

/-- What a monitor keeps of its topology's health, over every run. -/
structure Supervises (config : MonitorConfig) (spokes : List SpokeConfig) : Prop where
  /-- A drained spoke gets no traffic until it is marked healthy or passes a check. -/
  drained : ∀ (before after : List (ℚ × Event)) (now : ℚ) (region : String),
    (∀ e ∈ after, e.2 ≠ .markHealthy region) → (∀ e ∈ after, e.2 ≠ .checked region true) →
      ¬ ((Monitor.start spokes).run config
        (before ++ (now, .markDraining region) :: after)).Routable region
  /-- A check makes a spoke unhealthy only at the end of enough failed checks in a row. -/
  failed : ∀ (before : List (ℚ × Event)) (now : ℚ) (region : String) (healthy : Bool),
    ((Monitor.start spokes).run config before).statusOf region ≠ some .unhealthy →
    ((Monitor.start spokes).run config (before ++ [(now, .checked region healthy)])).statusOf
      region = some .unhealthy →
    ∃ earlier recent, before ++ [(now, .checked region healthy)] = earlier ++ recent ∧
      (∀ e ∈ recent, e.2 ≠ .checked region true) ∧
        config.failoverThresholdConsecutive ≤ (Monitor.failedChecks region recent).length
  /-- A spoke that becomes unhealthy or is marked so gets no traffic until its cooldown ends,
  unless it is marked healthy, or drained and then passes a check. -/
  cooled : ∀ (before after : List (ℚ × Event)) (since : ℚ) (e : Event) (region : String),
    ((Monitor.start spokes).run config (before ++ [(since, e)])).statusOf region =
      some .unhealthy →
    e = .markUnhealthy region ∨
      ((Monitor.start spokes).run config before).statusOf region ≠ some .unhealthy →
    (∀ e ∈ after, since ≤ e.1 ∧ e.1 < since + config.failoverCooldownSeconds) →
    (∀ e ∈ after, e.2 ≠ .markHealthy region) →
    (∀ before' now after', after = before' ++ (now, .markDraining region) :: after' →
      ∀ e ∈ after', e.2 ≠ .checked region true) →
    ¬ ((Monitor.start spokes).run config (before ++ (since, e) :: after)).Routable region

theorem run_split (m : Monitor) (config : MonitorConfig) (before after : List (ℚ × Event))
    (e : ℚ × Event) : m.run config (before ++ e :: after) =
      ((m.run config before).step config e.1 e.2).run config after := by
  rw [Monitor.run, Monitor.run, List.foldl_append]
  rfl

theorem supervises (config : MonitorConfig) (spokes : List SpokeConfig) :
    Supervises config spokes where
  drained before after now region hhealthy hpassed := by
    rw [run_split]
    refine Monitor.not_routable_run ?_ hhealthy hpassed
    dsimp only
    set m := (Monitor.start spokes).run config before
    cases hstatus : m.statusOf region with
    | none =>
        rw [Monitor.step_of_none (e := .markDraining region) hstatus, Monitor.Routable, hstatus]
        simp
    | some status =>
        have hdraining := Monitor.statusOf_update config now
          (e := .markDraining region) hstatus
        rw [Monitor.step_of_some (e := .markDraining region) hstatus, Monitor.Routable]
        change (Monitor.update config m now status (.markDraining region)).statusOf region = _ at hdraining
        rw [hdraining]
        simp
  failed before now region healthy hbefore hafter := by
    have hfound : ((Monitor.start spokes).statusOf region).isSome = true := by
      rw [← Monitor.isSome_run config (Monitor.start spokes), hafter]
      rfl
    obtain ⟨hfound', hcounted⟩ := Monitor.counted_run config before hfound
    obtain ⟨status, hstatus⟩ := Option.isSome_iff_exists.mp hfound'
    have hne : status ≠ .unhealthy := fun h ↦ hbefore (by rw [hstatus, h])
    have hupdate := Monitor.statusOf_update config now
      (e := .checked region healthy) hstatus
    rw [Monitor.run_append, Monitor.step_of_some (e := .checked region healthy) hstatus] at hafter
    rw [show (Event.checked region healthy).region = region from rfl, hafter] at hupdate
    cases healthy with
    | true =>
        dsimp only at hupdate
        rw [if_neg fun h ↦ hne h.1] at hupdate
        cases hupdate
    | false =>
        dsimp only at hupdate
        split_ifs at hupdate with hthreshold
        · obtain ⟨earlier, recent, rfl, hrecent, hcount⟩ := hcounted
          refine ⟨earlier, recent ++ [(now, .checked region false)], by rw [List.append_assoc],
            ?_, ?_⟩
          · intro e he
            rcases List.mem_append.mp he with he | he
            · exact hrecent e he
            · obtain rfl := List.mem_singleton.mp he
              simp
          · have hone : (Monitor.failedChecks region
                (recent ++ [(now, .checked region false)])).length =
                  (Monitor.failedChecks region recent).length + 1 := by
              simp [Monitor.failedChecks]
            rw [hone]
            push_cast
            omega
        · exact absurd (Option.some.inj hupdate).symm hne
  cooled before after since e region hunhealthy hstarts htimes hhealthy hdraining := by
    rw [run_split]
    rw [Monitor.run_append] at hunhealthy
    exact (Monitor.cooling_of_step hunhealthy hstarts).run htimes hhealthy hdraining

/-- Two spokes, and a cooldown of a minute. -/
def pair : List SpokeConfig :=
  [⟨"us-east-1", .primary, 50, .healthy, [], []⟩, ⟨"eu-west-1", .active, 50, .healthy, [], []⟩]

def minute : MonitorConfig := ⟨3, 60⟩

/-- A check that passes makes a drained spoke routable, also one that was still cooling down. -/
theorem drained_recovers :
    ((Monitor.start pair).run minute
      [(0, .markDraining "us-east-1"), (1, .checked "us-east-1" true)]).Routable "us-east-1" ∧
    ((Monitor.start pair).run minute
      [(0, .markUnhealthy "us-east-1"), (1, .markDraining "us-east-1"),
        (2, .checked "us-east-1" true)]).Routable "us-east-1" := by
  decide +kernel

end Region