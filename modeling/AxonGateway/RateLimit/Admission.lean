import AxonGateway.RateLimit.SlidingWindow

/-!
# What the limiter admits

As long as no id without tenant spells the key of an id within a tenant, every
window of every identity stays within its limit and a denial finds a full one.
-/

namespace AxonGateway.RateLimit

open TimeWindow SlidingWindowRateLimiter

/-- The times of the admitted requests with `sel` equal to `x`. -/
def admitted {ι : Type} [DecidableEq ι] (sel : Request → ι) (x : ι) (h : List (Request × Bool)) :
    List ℤ :=
  (h.filter fun e ↦ e.2 && decide (sel e.1 = x)).map fun e ↦ e.1.now

/-- What a limiter promises of one run of checks: the windows of each user and
each project keep to their limits, and a denied check changes no later count and
finds one of its two windows full. -/
structure AdmissionBound (config : RateLimitConfig) (limit : Identity → ℤ) (cs : List Check) :
    Prop where
  user : ∀ u t, ((within (window config) t
    (admitted Request.user u (run config cs).2)).length : ℤ) ≤ max 0 config.userRpm
  project : ∀ p t, ((within (window config) t
    (admitted Request.project p (run config cs).2)).length : ℤ) ≤ max 0 (limit p)
  denied_keeps : ∀ before c rest r result s', cs = before ++ c :: rest →
    c.resolve config = .ok r → (run config before).1.checkRateLimit c = (.ok result, s') →
    result.allowed = false → ∀ key t, c.now ≤ t →
      after (t - window config) (s'.userRequests key) =
        after (t - window config) ((run config before).1.userRequests key) ∧
      after (t - window config) (s'.projectRequests key) =
        after (t - window config) ((run config before).1.projectRequests key)
  denied_full : ∀ before c rest r result s', cs = before ++ c :: rest →
    c.resolve config = .ok r → (run config before).1.checkRateLimit c = (.ok result, s') →
    result.allowed = false →
      config.userRpm ≤ (within (window config) c.now
        (admitted Request.user r.user (run config before).2)).length ∨
      limit r.project ≤ (within (window config) c.now
        (admitted Request.project r.project (run config before).2)).length

/-- The clock never goes back. -/
def Chronological (cs : List Check) : Prop := cs.Pairwise fun c d ↦ c.now ≤ d.now

/-- Every check of a project finds the same limit. -/
def FixedLimits (config : RateLimitConfig) (limit : Identity → ℤ) (cs : List Check) : Prop :=
  ∀ c ∈ cs, ∀ r, c.resolve config = .ok r → r.projectLimit = limit r.project

/-- No id without tenant spells the key of an id within a tenant. -/
def Unambiguous (config : RateLimitConfig) (cs : List Check) : Prop :=
  ∀ c ∈ cs, ∀ d ∈ cs, ∀ r r', c.resolve config = .ok r → d.resolve config = .ok r' →
    r.user.tenantId = none → r'.user.tenantId ≠ none →
      r.user.id ≠ r'.userKey ∧ r.project.id ≠ r'.projectKey

/-! ## Keys -/

theorem tenantScopedId_some_inj {t t' : String} {type id id' : String}
    (h : tenantScopedId (some t) type id = tenantScopedId (some t') type id') :
    t = t' ∧ id = id' := by
  simp only [tenantScopedId, String.append_assoc, String.append_right_inj] at h
  obtain ⟨ht, hrest⟩ := Netstring.frame_append_inj h
  simp only [String.append_right_inj] at hrest
  exact ⟨ht, Netstring.frame_injective hrest⟩

/-- Identities that share a key are the same, unless an id without tenant spells
the key of an id within one. -/
theorem eq_of_tenantScopedId_eq {i j : Identity} {type : String}
    (h : tenantScopedId i.tenantId type i.id = tenantScopedId j.tenantId type j.id)
    (hi : i.tenantId = none → j.tenantId ≠ none → i.id ≠ tenantScopedId j.tenantId type j.id)
    (hj : j.tenantId = none → i.tenantId ≠ none → j.id ≠ tenantScopedId i.tenantId type i.id) :
    i = j := by
  obtain ⟨ti, i⟩ := i
  obtain ⟨tj, j⟩ := j
  cases ti with
  | none =>
      cases tj with
      | none => exact congrArg (Identity.mk none) h
      | some tj => exact absurd h (hi rfl (by simp))
  | some ti =>
      cases tj with
      | none => exact absurd h.symm (hj rfl (by simp))
      | some tj =>
          obtain ⟨rfl, rfl⟩ := tenantScopedId_some_inj h
          rfl

theorem Check.resolve_spec {c : Check} {config : RateLimitConfig} {r : Request}
    (h : c.resolve config = .ok r) :
    r.now = c.now ∧ r.user.tenantId = r.project.tenantId := by
  unfold Check.resolve at h
  cases hscope : projectScope c.tenantId c.projectId c.project with
  | error e =>
      rw [hscope] at h
      cases h
  | ok scope =>
      rw [hscope] at h
      cases h
      exact ⟨rfl, rfl⟩

section Unambiguous

variable {config : RateLimitConfig} {cs : List Check} {c d : Check} {r r' : Request}

theorem Unambiguous.userKey_inj (h : Unambiguous config cs) (hc : c ∈ cs) (hd : d ∈ cs)
    (hr : c.resolve config = .ok r) (hr' : d.resolve config = .ok r') :
    r.userKey = r'.userKey ↔ r.user = r'.user := by
  refine ⟨fun hkey ↦ eq_of_tenantScopedId_eq hkey ?_ ?_, fun huser ↦ ?_⟩
  · exact fun hn hs ↦ (h c hc d hd r r' hr hr' hn hs).1
  · exact fun hn hs ↦ (h d hd c hc r' r hr' hr hn hs).1
  · rw [Request.userKey, huser, Request.userKey]

theorem Unambiguous.projectKey_inj (h : Unambiguous config cs) (hc : c ∈ cs) (hd : d ∈ cs)
    (hr : c.resolve config = .ok r) (hr' : d.resolve config = .ok r') :
    r.projectKey = r'.projectKey ↔ r.project = r'.project := by
  have htenant := (Check.resolve_spec hr).2
  have htenant' := (Check.resolve_spec hr').2
  refine ⟨fun hkey ↦ eq_of_tenantScopedId_eq hkey ?_ ?_, fun hproject ↦ ?_⟩
  · intro hn hs
    rw [← htenant] at hn
    rw [← htenant'] at hs
    exact (h c hc d hd r r' hr hr' hn hs).2
  · intro hn hs
    rw [← htenant'] at hn
    rw [← htenant] at hs
    exact (h d hd c hc r' r hr' hr hn hs).2
  · rw [Request.projectKey, hproject, Request.projectKey]

end Unambiguous

/-! ## One check -/

section Step

variable {config : RateLimitConfig} {cs : List Check} {c : Check} {r : Request}
  {s : SlidingWindowRateLimiter}

theorem run_append_singleton (config : RateLimitConfig) (cs : List Check) (c : Check) :
    run config (cs ++ [c]) = (((run config cs).1.checkRateLimit c).2,
      (run config cs).2 ++ (run config cs).1.decision c) := by
  simp [run]

theorem checkRateLimit_of_ok (hr : c.resolve s.config = .ok r) :
    s.checkRateLimit c = (.ok (s.admitRequest r).1, (s.admitRequest r).2) := by
  rw [checkRateLimit, hr]

theorem decision_of_ok (hr : c.resolve s.config = .ok r) :
    s.decision c = [(r, (s.admitRequest r).1.allowed)] := by
  rw [decision, checkRateLimit_of_ok hr, hr]

theorem checkRateLimit_of_error {e : String} (hr : c.resolve s.config = .error e) :
    s.checkRateLimit c = (.error e, s) := by
  rw [checkRateLimit, hr]

theorem decision_of_error {e : String} (hr : c.resolve s.config = .error e) :
    s.decision c = [] := by
  rw [decision, hr]

theorem checkRateLimit_config : (s.checkRateLimit c).2.config = s.config := by
  cases hr : c.resolve s.config with
  | error e => rw [checkRateLimit_of_error hr]
  | ok r =>
      rw [checkRateLimit_of_ok hr]
      rfl

/-- A request is admitted when both its buckets have room. -/
theorem admitRequest_allowed_iff :
    (s.admitRequest r).1.allowed = true ↔
      ((after (r.now - window s.config) (s.userRequests r.userKey)).length : ℤ) <
          s.config.userRpm ∧
        ((after (r.now - window s.config) (s.projectRequests r.projectKey)).length : ℤ) <
          r.projectLimit := by
  simp [admitRequest, cleanup]

/-- What an admitted request adds to a list of times. -/
def recorded (s : SlidingWindowRateLimiter) (r : Request) : List ℤ :=
  if (s.admitRequest r).1.allowed then [r.now] else []

theorem admitRequest_userRequests :
    (s.admitRequest r).2.userRequests = Function.update s.userRequests r.userKey
      (after (r.now - window s.config) (s.userRequests r.userKey) ++ recorded s r) := rfl

theorem admitRequest_projectRequests :
    (s.admitRequest r).2.projectRequests = Function.update s.projectRequests r.projectKey
      (after (r.now - window s.config) (s.projectRequests r.projectKey) ++ recorded s r) := rfl

end Step

/-! ## Runs -/

section Admitted

variable {ι : Type} [DecidableEq ι] {sel : Request → ι} {x : ι} {h : List (Request × Bool)}

theorem admitted_append_singleton (sel : Request → ι) (h : List (Request × Bool)) (r : Request)
    (allowed : Bool) :
    (fun x ↦ admitted sel x (h ++ [(r, allowed)])) =
      Function.update (fun x ↦ admitted sel x h) (sel r)
        (admitted sel (sel r) h ++ if allowed then [r.now] else []) := by
  funext x
  rcases eq_or_ne x (sel r) with rfl | hne
  · rw [Function.update_self]
    cases allowed <;> simp [admitted]
  · rw [Function.update_of_ne hne]
    have hsel : sel r ≠ x := hne.symm
    simp [admitted, hsel]

theorem mem_admitted {t : ℤ} (ht : t ∈ admitted sel x h) : ∃ e ∈ h, e.1.now = t := by
  obtain ⟨e, he, rfl⟩ := List.mem_map.mp ht
  exact ⟨e, List.mem_of_mem_filter he, rfl⟩

theorem pairwise_admitted (hsorted : h.Pairwise fun e e' ↦ e.1.now ≤ e'.1.now) :
    (admitted sel x h).Pairwise (· ≤ ·) := by
  rw [admitted, List.pairwise_map]
  exact hsorted.sublist List.filter_sublist

/-- Two ways to tell requests apart that agree on the requests of a history. -/
theorem admitted_congr {κ : Type} [DecidableEq κ] {key : Request → κ} {r : Request}
    (hkey : ∀ e ∈ h, key e.1 = key r ↔ sel e.1 = sel r) :
    admitted key (key r) h = admitted sel (sel r) h := by
  refine congrArg (List.map _) (List.filter_congr fun e he ↦ ?_)
  rw [decide_eq_decide.mpr (hkey e he)]

/-- An admission that finds fewer than the limit leaves the admissions sparse. -/
theorem sparse_admitted {w : ℤ} {limit : ι → ℤ} {r : Request} {allowed : Bool}
    (hsparse : ∀ x, Sparse w (limit x).toNat (admitted sel x h))
    (hroom : allowed = true →
      ((after (r.now - w) (admitted sel (sel r) h)).length : ℤ) < limit (sel r)) (x : ι) :
    Sparse w (limit x).toNat (admitted sel x (h ++ [(r, allowed)])) := by
  have happend := congrFun (admitted_append_singleton sel h r allowed) x
  rw [happend]
  rcases eq_or_ne x (sel r) with rfl | hne
  · rw [Function.update_self]
    cases allowed with
    | false => simpa using hsparse (sel r)
    | true =>
        have hlt := hroom rfl
        exact (hsparse (sel r)).append_singleton (by omega)
  · rw [Function.update_of_ne hne]
    exact hsparse x

end Admitted

section Run

variable {config : RateLimitConfig} {limit : Identity → ℤ} {cs : List Check} {c : Check}
  {r : Request}

theorem run_config (config : RateLimitConfig) (cs : List Check) :
    (run config cs).1.config = config := by
  induction cs using List.reverseRecOn with
  | nil => rfl
  | append_singleton cs c ih =>
      rw [run_append_singleton, checkRateLimit_config]
      exact ih

/-- After a run the buckets show the admitted requests of their keys to every
later window, and no identity had more than its limit in a window. -/
structure Tracked (config : RateLimitConfig) (limit : Identity → ℤ) (cs : List Check) : Prop where
  resolved : ∀ e ∈ (run config cs).2, ∃ c ∈ cs, c.resolve config = .ok e.1
  sorted : (run config cs).2.Pairwise fun e e' ↦ e.1.now ≤ e'.1.now
  users : ∀ now, (∀ c ∈ cs, c.now ≤ now) → Tracks (window config)
    (run config cs).1.userRequests (fun k ↦ admitted Request.userKey k (run config cs).2) now
  projects : ∀ now, (∀ c ∈ cs, c.now ≤ now) → Tracks (window config)
    (run config cs).1.projectRequests
    (fun k ↦ admitted Request.projectKey k (run config cs).2) now
  user_sparse : ∀ u, Sparse (window config) config.userRpm.toNat
    (admitted Request.user u (run config cs).2)
  project_sparse : ∀ p, Sparse (window config) (limit p).toNat
    (admitted Request.project p (run config cs).2)

theorem Tracked.nil (config : RateLimitConfig) (limit : Identity → ℤ) :
    Tracked config limit [] := by
  constructor
  · exact fun e he ↦ by cases he
  · exact List.Pairwise.nil
  · exact fun now _ k t _ ↦ rfl
  · exact fun now _ k t _ ↦ rfl
  · exact fun u ↦ sparse_nil
  · exact fun p ↦ sparse_nil

/-- What a check counts is what the windows of its user and project hold. -/
theorem Tracked.counts (h : Tracked config limit cs) (hcs : Unambiguous config (cs ++ [c]))
    (hle : ∀ d ∈ cs, d.now ≤ c.now) (hr : c.resolve config = .ok r) :
    after (r.now - window config) ((run config cs).1.userRequests r.userKey) =
        after (r.now - window config) (admitted Request.user r.user (run config cs).2) ∧
      after (r.now - window config) ((run config cs).1.projectRequests r.projectKey) =
        after (r.now - window config) (admitted Request.project r.project (run config cs).2) := by
  have hnow : r.now = c.now := (Check.resolve_spec hr).1
  have hc : c ∈ cs ++ [c] := by simp
  constructor
  · rw [h.users c.now hle r.userKey r.now hnow.ge]
    refine congrArg _ (admitted_congr fun e he ↦ ?_)
    obtain ⟨d, hd, hrd⟩ := h.resolved e he
    exact hcs.userKey_inj (List.mem_append_left _ hd) hc hrd hr
  · rw [h.projects c.now hle r.projectKey r.now hnow.ge]
    refine congrArg _ (admitted_congr fun e he ↦ ?_)
    obtain ⟨d, hd, hrd⟩ := h.resolved e he
    exact hcs.projectKey_inj (List.mem_append_left _ hd) hc hrd hr

theorem Tracked.append_singleton (h : Tracked config limit cs)
    (hcs : Unambiguous config (cs ++ [c])) (hle : ∀ d ∈ cs, d.now ≤ c.now)
    (hlimit : ∀ r, c.resolve config = .ok r → r.projectLimit = limit r.project) :
    Tracked config limit (cs ++ [c]) := by
  have hconfig := run_config config cs
  cases hr : c.resolve config with
  | error e =>
      have hr' : c.resolve (run config cs).1.config = .error e := by rw [hconfig, hr]
      have hrun : run config (cs ++ [c]) = run config cs := by
        rw [run_append_singleton, checkRateLimit_of_error hr', decision_of_error hr',
          List.append_nil]
      have hnow : ∀ now, (∀ d ∈ cs ++ [c], d.now ≤ now) → ∀ d ∈ cs, d.now ≤ now :=
        fun now hall d hd ↦ hall d (List.mem_append_left _ hd)
      constructor <;> rw [hrun]
      · intro e he
        obtain ⟨d, hd, hrd⟩ := h.resolved e he
        exact ⟨d, List.mem_append_left _ hd, hrd⟩
      · exact h.sorted
      · exact fun now hall ↦ h.users now (hnow now hall)
      · exact fun now hall ↦ h.projects now (hnow now hall)
      · exact h.user_sparse
      · exact h.project_sparse
  | ok r =>
      have hr' : c.resolve (run config cs).1.config = .ok r := by rw [hconfig, hr]
      obtain ⟨huser, hproject⟩ := h.counts hcs hle hr
      have hnow : r.now = c.now := (Check.resolve_spec hr).1
      have hrun : run config (cs ++ [c]) = (((run config cs).1.admitRequest r).2,
          (run config cs).2 ++ [(r, ((run config cs).1.admitRequest r).1.allowed)]) := by
        rw [run_append_singleton, checkRateLimit_of_ok hr', decision_of_ok hr']
      have hallowed := admitRequest_allowed_iff (s := (run config cs).1) (r := r)
      rw [hconfig, huser, hproject, hlimit r hr] at hallowed
      constructor <;> rw [hrun]
      · intro e he
        rcases List.mem_append.mp he with he | he
        · obtain ⟨d, hd, hrd⟩ := h.resolved e he
          exact ⟨d, List.mem_append_left _ hd, hrd⟩
        · obtain rfl := List.mem_singleton.mp he
          exact ⟨c, by simp, hr⟩
      · rw [List.pairwise_append]
        refine ⟨h.sorted, List.pairwise_singleton _ _, fun e he e' he' ↦ ?_⟩
        obtain rfl := List.mem_singleton.mp he'
        obtain ⟨d, hd, hrd⟩ := h.resolved e he
        calc e.1.now = d.now := (Check.resolve_spec hrd).1
          _ ≤ c.now := hle d hd
          _ = r.now := hnow.symm
      · intro now hall
        have hrnow : r.now ≤ now := hnow ▸ hall c (by simp)
        have hstep := (h.users r.now (hnow ▸ hle)).update r.userKey
          (recorded (run config cs).1 r)
        rw [admitRequest_userRequests, hconfig, admitted_append_singleton]
        exact hstep.mono hrnow
      · intro now hall
        have hrnow : r.now ≤ now := hnow ▸ hall c (by simp)
        have hstep := (h.projects r.now (hnow ▸ hle)).update r.projectKey
          (recorded (run config cs).1 r)
        rw [admitRequest_projectRequests, hconfig, admitted_append_singleton]
        exact hstep.mono hrnow
      · exact sparse_admitted h.user_sparse fun ha ↦ (hallowed.mp ha).1
      · exact sparse_admitted h.project_sparse fun ha ↦ (hallowed.mp ha).2

theorem Tracked.of_run (hcs : Unambiguous config cs) (hsorted : Chronological cs)
    (hlimits : FixedLimits config limit cs) : Tracked config limit cs := by
  induction cs using List.reverseRecOn with
  | nil => exact Tracked.nil config limit
  | append_singleton cs c ih =>
      have hsub : ∀ d ∈ cs, d ∈ cs ++ [c] := fun d hd ↦ List.mem_append_left _ hd
      obtain ⟨hbefore, -, hle⟩ := List.pairwise_append.mp hsorted
      have hgrown : Tracked config limit cs :=
        ih (fun c hc d hd ↦ hcs c (hsub c hc) d (hsub d hd)) hbefore
          (fun d hd ↦ hlimits d (hsub d hd))
      exact hgrown.append_singleton hcs (fun d hd ↦ hle d hd c (by simp))
        (hlimits c (by simp))

theorem Tracked.before {before rest : List Check} (hcs : Unambiguous config cs)
    (hsorted : Chronological cs) (hlimits : FixedLimits config limit cs)
    (heq : cs = before ++ c :: rest) :
    Tracked config limit before ∧ Unambiguous config (before ++ [c]) ∧
      ∀ d ∈ before, d.now ≤ c.now := by
  have hsub : ∀ d ∈ before ++ [c], d ∈ cs := by
    intro d hd
    rw [heq, ← List.singleton_append, ← List.append_assoc]
    exact List.mem_append_left _ hd
  have hcs' : Unambiguous config (before ++ [c]) :=
    fun d hd d' hd' ↦ hcs d (hsub d hd) d' (hsub d' hd')
  rw [heq] at hsorted
  obtain ⟨hbefore, -, hle⟩ := List.pairwise_append.mp hsorted
  have hmem : ∀ d ∈ before, d ∈ before ++ [c] := fun d hd ↦ List.mem_append_left _ hd
  refine ⟨Tracked.of_run (fun d hd d' hd' ↦ hcs' d (hmem d hd) d' (hmem d' hd')) hbefore
    fun d hd ↦ hlimits d (hsub d (hmem d hd)), hcs', fun d hd ↦ hle d hd c (by simp)⟩

/-- A limiter whose clock does not go back, whose limits are fixed and whose ids
without tenant spell no other key keeps its promise. -/
theorem admissionBound_of_unambiguous (hcs : Unambiguous config cs) (hsorted : Chronological cs)
    (hlimits : FixedLimits config limit cs) : AdmissionBound config limit cs := by
  have htracked : Tracked config limit cs := Tracked.of_run hcs hsorted hlimits
  constructor
  · intro u t
    have hle := (htracked.user_sparse u).length_within_le (pairwise_admitted htracked.sorted) t
    omega
  · intro p t
    have hle := (htracked.project_sparse p).length_within_le
      (pairwise_admitted htracked.sorted) t
    omega
  · intro before c rest r result s' _ hr hstep hdenied key t ht
    have hr' : c.resolve (run config before).1.config = .ok r := by rw [run_config, hr]
    rw [checkRateLimit_of_ok hr', Prod.mk.injEq, Except.ok.injEq] at hstep
    obtain ⟨rfl, rfl⟩ := hstep
    have hnone : recorded (run config before).1 r = [] := by simp [recorded, hdenied]
    have hnow : r.now - window config ≤ t - window config := by
      rw [(Check.resolve_spec hr).1]
      omega
    rw [admitRequest_userRequests, admitRequest_projectRequests, hnone, List.append_nil,
      List.append_nil, run_config]
    constructor
    · rcases eq_or_ne key r.userKey with rfl | hne
      · rw [Function.update_self, after_after hnow]
      · rw [Function.update_of_ne hne]
    · rcases eq_or_ne key r.projectKey with rfl | hne
      · rw [Function.update_self, after_after hnow]
      · rw [Function.update_of_ne hne]
  · intro before c rest r result s' heq hr hstep hdenied
    obtain ⟨hbefore, hcs', hle⟩ := Tracked.before hcs hsorted hlimits heq
    obtain ⟨huser, hproject⟩ := hbefore.counts hcs' hle hr
    have hr' : c.resolve (run config before).1.config = .ok r := by rw [run_config, hr]
    have hnow : r.now = c.now := (Check.resolve_spec hr).1
    have hlimit : r.projectLimit = limit r.project := hlimits c (by simp [heq]) r hr
    rw [checkRateLimit_of_ok hr', Prod.mk.injEq, Except.ok.injEq] at hstep
    obtain ⟨rfl, rfl⟩ := hstep
    have hallowed := admitRequest_allowed_iff (s := (run config before).1) (r := r)
    rw [run_config, huser, hproject, hlimit, hdenied, hnow] at hallowed
    have hle' : ∀ {ι : Type} [DecidableEq ι] (sel : Request → ι) (x : ι),
        ∀ t ∈ admitted sel x (run config before).2, t ≤ c.now := by
      intro ι _ sel x t ht
      obtain ⟨e, he, rfl⟩ := mem_admitted ht
      obtain ⟨d, hd, hrd⟩ := hbefore.resolved e he
      rw [(Check.resolve_spec hrd).1]
      exact hle d hd
    rw [within_eq_after (hle' Request.user r.user), within_eq_after (hle' Request.project r.project)]
    by_contra hroom
    rw [not_or, not_le, not_le] at hroom
    exact absurd (hallowed.mpr hroom) (by simp)

/-- Checks that all carry a tenant share no key, and neither do checks of which
none does. -/
theorem unambiguous_of_tenants
    (htenants : (∀ c ∈ cs, ∀ r, c.resolve config = .ok r → r.user.tenantId ≠ none) ∨
      ∀ c ∈ cs, ∀ r, c.resolve config = .ok r → r.user.tenantId = none) :
    Unambiguous config cs := by
  intro c hc d hd r r' hr hr' hnone hsome
  rcases htenants with hall | hall
  · exact absurd hnone (hall c hc r hr)
  · exact absurd (hall d hd r' hr') hsome

end Run

/-- One request a window for each user. -/
def oneEach : RateLimitConfig := { userRpm := 1 }

/-- A user of two tenants at once. -/
def twoTenants : List Check :=
  [{ userId := "x", projectId := "p", tenantId := some "a", now := 0 },
    { userId := "x", projectId := "p", tenantId := some "b", now := 1 },
    { userId := "x", projectId := "p", tenantId := some "a", now := 2 }]

theorem admissionBound_twoTenants : AdmissionBound oneEach (fun _ ↦ 600) twoTenants := by
  refine admissionBound_of_unambiguous (unambiguous_of_tenants (.inl ?_)) ?_ ?_
  · intro c hc r hr
    fin_cases hc <;> cases hr <;> simp
  · simp [Chronological, twoTenants]
  · intro c hc r hr
    fin_cases hc <;> cases hr <;> rfl

/-- A user without tenant whose id spells the key of tenant `a`'s user `x`. -/
def spelledUser : List Check :=
  [{ userId := "tenant:1:a:user:1:x", projectId := "p", now := 0 },
    { userId := "x", projectId := "q", tenantId := some "a", now := 0 }]

/-- The clock stands and the limits are fixed, but tenant `a`'s user `x` is
denied a first request. -/
theorem not_admissionBound_spelledUser :
    Chronological spelledUser ∧ FixedLimits oneEach (fun _ ↦ 600) spelledUser ∧
      ¬ AdmissionBound oneEach (fun _ ↦ 600) spelledUser := by
  refine ⟨by simp [Chronological, spelledUser], ?_, fun hbound ↦ ?_⟩
  · intro c hc r hr
    fin_cases hc <;> cases hr <;> rfl
  · have hfull := hbound.denied_full [spelledUser[0]] spelledUser[1] []
      ⟨⟨some "a", "x"⟩, ⟨some "a", "q"⟩, 600, 0⟩ _ _ rfl (by decide +kernel) rfl (by decide +kernel)
    revert hfull
    decide +kernel

end AxonGateway.RateLimit
