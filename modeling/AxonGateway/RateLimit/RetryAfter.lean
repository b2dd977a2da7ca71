import AxonGateway.RateLimit.Admission

/-!
# Waiting after a denial

A denial tells how many seconds to wait.  Meanwhile buckets are only pruned, so
the wait is long enough when the stamps that keep each exhausted limit closed
leave the window in that time.  The number is counted from the earliest stamp of
the exhausted buckets and rounded to whole seconds, so it may be too short for
the other bucket, and by up to a millisecond for its own.
-/

namespace AxonGateway.RateLimit

open TimeWindow SlidingWindowRateLimiter
open scoped List

/-- Some checks, one after the other, from a given state. -/
def checks (s : SlidingWindowRateLimiter) (cs : List Check) :
    SlidingWindowRateLimiter × List (Request × Bool) :=
  cs.foldl (fun p c ↦ ((p.1.checkRateLimit c).2, p.2 ++ p.1.decision c)) (s, [])

theorem run_eq_checks (config : RateLimitConfig) (cs : List Check) :
    run config cs = checks { config } cs := rfl

/-- A denied check tells a wait, and when nothing is admitted meanwhile the same
check passes after it. -/
def RetrySuffices (s : SlidingWindowRateLimiter) (c : Check) : Prop :=
  ∀ result s', s.checkRateLimit c = (.ok result, s') → result.allowed = false →
    ∃ wait, result.retryAfterSeconds = some wait ∧
      ∀ between, (∀ e ∈ (checks s' between).2, e.2 = false) →
        ∀ t, c.now + wait * 1000000 ≤ t →
          ∃ again, ((checks s' between).1.checkRateLimit { c with now := t }).1 = .ok again ∧
            again.allowed = true

/-- What rounding to whole seconds, at least one, adds to a time. -/
def slack (micros : ℤ) : ℤ := max 1 (ceilSeconds micros) * 1000000 - micros

/-- Half a millisecond is dropped. -/
example : slack 5000500 = -500 := by decide +kernel

section Buckets

variable (s : SlidingWindowRateLimiter) (r : Request)

/-- The stamps of the user that count for a request. -/
def userStamps : List ℤ := cleanup (s.userRequests r.userKey) (r.now - window s.config)

/-- The stamps of the project that count for a request. -/
def projectStamps : List ℤ := cleanup (s.projectRequests r.projectKey) (r.now - window s.config)

/-- The exhausted limits of a request with the stamps that count for them. -/
def exhausted : List (ℕ × List ℤ) :=
  [(s.config.userRpm.toNat, userStamps s r), (r.projectLimit.toNat, projectStamps s r)].filter
    fun b ↦ decide (b.1 ≤ b.2.length)

/-- The earliest of the first stamps of the exhausted limits. -/
def earliest : Option ℤ := ((exhausted s r).filterMap fun b ↦ b.2.head?).min?

/-- No stamp that keeps a limit closed is further behind the earliest than
rounding makes up for. -/
def InTime : Prop :=
  ∀ first ∈ earliest s r, ∀ b ∈ exhausted s r, ∀ last ∈ blocker b.1 b.2,
    last - first ≤ slack (first + window s.config - r.now)

end Buckets

/-! ## Checks that admit nothing -/

section Checks

variable {s : SlidingWindowRateLimiter} {c : Check} {r : Request} {cs : List Check}

theorem checks_append_singleton (s : SlidingWindowRateLimiter) (cs : List Check) (c : Check) :
    checks s (cs ++ [c]) = (((checks s cs).1.checkRateLimit c).2,
      (checks s cs).2 ++ (checks s cs).1.decision c) := by
  simp [checks]

/-- A check that admits nothing only prunes. -/
theorem checkRateLimit_sublist (h : ∀ e ∈ s.decision c, e.2 = false) (key : String) :
    (s.checkRateLimit c).2.userRequests key <+ s.userRequests key ∧
      (s.checkRateLimit c).2.projectRequests key <+ s.projectRequests key := by
  cases hr : c.resolve s.config with
  | error e =>
      rw [checkRateLimit_of_error hr]
      exact ⟨List.Sublist.refl _, List.Sublist.refl _⟩
  | ok r =>
      rw [decision_of_ok hr] at h
      have hdenied : (s.admitRequest r).1.allowed = false := h _ (List.mem_singleton_self _)
      have hnone : recorded s r = [] := by simp [recorded, hdenied]
      rw [checkRateLimit_of_ok hr, admitRequest_userRequests, admitRequest_projectRequests, hnone,
        List.append_nil, List.append_nil]
      constructor
      · rcases eq_or_ne key r.userKey with rfl | hne
        · rw [Function.update_self]
          exact List.filter_sublist
        · rw [Function.update_of_ne hne]
      · rcases eq_or_ne key r.projectKey with rfl | hne
        · rw [Function.update_self]
          exact List.filter_sublist
        · rw [Function.update_of_ne hne]

theorem checks_config (s : SlidingWindowRateLimiter) (cs : List Check) :
    (checks s cs).1.config = s.config := by
  induction cs using List.reverseRecOn with
  | nil => rfl
  | append_singleton cs c ih =>
      rw [checks_append_singleton, checkRateLimit_config]
      exact ih

theorem checks_sublist (h : ∀ e ∈ (checks s cs).2, e.2 = false) (key : String) :
    (checks s cs).1.userRequests key <+ s.userRequests key ∧
      (checks s cs).1.projectRequests key <+ s.projectRequests key := by
  induction cs using List.reverseRecOn with
  | nil => exact ⟨List.Sublist.refl _, List.Sublist.refl _⟩
  | append_singleton cs c ih =>
      rw [checks_append_singleton] at h ⊢
      obtain ⟨huser, hproject⟩ := ih fun e he ↦ h e (List.mem_append_left _ he)
      obtain ⟨huser', hproject'⟩ :=
        checkRateLimit_sublist (fun e he ↦ h e (List.mem_append_right _ he)) key
      exact ⟨huser'.trans huser, hproject'.trans hproject⟩

end Checks

/-! ## The wait -/

section Wait

variable {s : SlidingWindowRateLimiter} {c : Check} {r : Request}

theorem mem_exhausted {b : ℕ × List ℤ} : b ∈ exhausted s r ↔
    (b = (s.config.userRpm.toNat, userStamps s r) ∨
      b = (r.projectLimit.toNat, projectStamps s r)) ∧ b.1 ≤ b.2.length := by
  simp [exhausted]

/-- A request is denied when some limit is exhausted. -/
theorem admitRequest_allowed_iff_exhausted (huser : 0 < s.config.userRpm)
    (hproject : 0 < r.projectLimit) :
    (s.admitRequest r).1.allowed = true ↔ exhausted s r = [] := by
  rw [admitRequest_allowed_iff, exhausted, List.filter_eq_nil_iff]
  simp only [List.mem_cons, List.not_mem_nil, or_false, forall_eq_or_imp, forall_eq,
    decide_eq_true_eq, not_le]
  constructor
  · rintro ⟨hu, hp⟩
    exact ⟨by simp only [userStamps, cleanup]; omega, by simp only [projectStamps, cleanup]; omega⟩
  · rintro ⟨hu, hp⟩
    simp only [userStamps, projectStamps, cleanup] at hu hp
    omega

theorem retryAfterSeconds_of_denied (hdenied : (s.admitRequest r).1.allowed = false) :
    (s.admitRequest r).1.retryAfterSeconds = (earliest s r).map fun first ↦
      max 1 (ceilSeconds (first + window s.config - r.now)) := by
  have hcandidates : (exhausted s r).filterMap (fun b ↦ b.2.head?) =
      (if s.config.userRpm ≤ ((userStamps s r).length : ℤ) then (userStamps s r).take 1 else []) ++
        (if r.projectLimit ≤ ((projectStamps s r).length : ℤ) then (projectStamps s r).take 1
          else []) := by
    have htake : ∀ l : List ℤ, [l].filterMap List.head? = l.take 1 := by
      intro l
      cases l <;> rfl
    simp only [exhausted, ← Int.toNat_le]
    by_cases hu : s.config.userRpm.toNat ≤ (userStamps s r).length
    · by_cases hp : r.projectLimit.toNat ≤ (projectStamps s r).length
      · simp [hu, hp, ← htake, List.filterMap_cons]
        cases (userStamps s r).head? <;> rfl
      · simp [hu, hp, ← htake, List.filterMap_cons]
    · by_cases hp : r.projectLimit.toNat ≤ (projectStamps s r).length
      · simp [hu, hp, ← htake, List.filterMap_cons]
      · simp [hu, hp]
  rw [earliest, hcandidates]
  simp only [admitRequest, userStamps, projectStamps] at hdenied ⊢
  rw [if_neg (by simpa using hdenied)]
  rfl

/-- A denial has an earliest stamp. -/
theorem earliest_of_exhausted (huser : 0 < s.config.userRpm) (hproject : 0 < r.projectLimit)
    (h : exhausted s r ≠ []) : ∃ first, earliest s r = some first := by
  obtain ⟨b, hb⟩ := List.exists_mem_of_ne_nil _ h
  obtain ⟨hcase, hfull⟩ := mem_exhausted.mp hb
  have hpos : 0 < b.1 := by
    rcases hcase with rfl | rfl
    · exact Int.lt_toNat.mpr huser
    · exact Int.lt_toNat.mpr hproject
  obtain ⟨a, l, hl⟩ := List.exists_cons_of_length_pos (hpos.trans_le hfull)
  have hmem : a ∈ (exhausted s r).filterMap fun b ↦ b.2.head? :=
    List.mem_filterMap.mpr ⟨b, hb, by rw [hl, List.head?_cons]⟩
  rw [earliest]
  apply Option.isSome_iff_exists.mp
  rw [List.isSome_min?_iff]
  exact List.ne_nil_of_mem hmem

/-- Pruned stamps leave room when each of those that keep the limit closed has
left the window. -/
theorem length_after_lt_of_sublist {stamps bucket : List ℤ} {limit : ℤ} {cutoff : ℤ}
    (hlimit : 0 < limit) (hsub : bucket <+ stamps)
    (h : limit.toNat ≤ stamps.length → ∀ last ∈ blocker limit.toNat stamps, last ≤ cutoff) :
    ((after cutoff bucket).length : ℤ) < limit := by
  have hle : (after cutoff bucket).length ≤ (after cutoff stamps).length :=
    (hsub.filter _).length_le
  have hpos : 0 < limit.toNat := Int.lt_toNat.mpr hlimit
  rcases le_or_gt limit.toNat stamps.length with hfull | hroom
  · have hlt := (length_after_lt_iff_blocker hpos hfull).mpr (h hfull)
    omega
  · have hall : (after cutoff stamps).length ≤ stamps.length := List.length_filter_le _ _
    omega

/-- The wait of a denial suffices exactly when each exhausted limit opens within
what rounding adds to the time of the earliest stamp. -/
theorem retrySuffices_iff (hr : c.resolve s.config = .ok r) (huser : 0 < s.config.userRpm)
    (hproject : 0 < r.projectLimit) : RetrySuffices s c ↔ InTime s r := by
  have hnow : r.now = c.now := (Check.resolve_spec hr).1
  have hagain : ∀ t, { c with now := t }.resolve s.config = .ok { r with now := t } := by
    intro t
    unfold Check.resolve at hr ⊢
    cases hscope : projectScope c.tenantId c.projectId c.project with
    | error e =>
        rw [hscope] at hr
        cases hr
    | ok scope =>
        rw [hscope] at hr
        cases hr
        rfl
  have hstep := checkRateLimit_of_ok hr
  have hallowed := admitRequest_allowed_iff_exhausted huser hproject
  constructor
  · intro h first hfirst b hb last hlast
    have hdenied : (s.admitRequest r).1.allowed = false := by
      rw [Bool.eq_false_iff, Ne, hallowed]
      exact List.ne_nil_of_mem hb
    obtain ⟨wait, hwait, hretry⟩ := h _ _ hstep hdenied
    rw [retryAfterSeconds_of_denied hdenied, Option.mem_def.mp hfirst, Option.map_some,
      Option.some_inj] at hwait
    -- the same check after the wait, with nothing in between
    obtain ⟨again, hok, hpass⟩ := hretry [] (by simp [checks]) _ le_rfl
    have hconfig : (s.admitRequest r).2.config = s.config := rfl
    rw [checks, List.foldl_nil, checkRateLimit_of_ok (by rw [hconfig]; exact hagain _),
      Except.ok.injEq] at hok
    rw [← hok, admitRequest_allowed_iff, hconfig] at hpass
    have hnone : recorded s r = [] := by simp [recorded, hdenied]
    have huserBucket : (s.admitRequest r).2.userRequests r.userKey = userStamps s r := by
      rw [admitRequest_userRequests, hnone, List.append_nil, Function.update_self]
      rfl
    have hprojectBucket : (s.admitRequest r).2.projectRequests r.projectKey =
        projectStamps s r := by
      rw [admitRequest_projectRequests, hnone, List.append_nil, Function.update_self]
      rfl
    have hpass' : ((after (c.now + wait * 1000000 - window s.config) (userStamps s r)).length : ℤ) <
        s.config.userRpm ∧ ((after (c.now + wait * 1000000 - window s.config)
          (projectStamps s r)).length : ℤ) < r.projectLimit := by
      rw [← huserBucket, ← hprojectBucket]
      exact hpass
    have hleft : last ≤ c.now + wait * 1000000 - window s.config := by
      obtain ⟨rfl | rfl, hfull⟩ := mem_exhausted.mp hb
      · have hroom := Int.lt_toNat.mpr hpass'.1
        exact (length_after_lt_iff_blocker (Int.lt_toNat.mpr huser) hfull).mp hroom last hlast
      · have hroom := Int.lt_toNat.mpr hpass'.2
        exact (length_after_lt_iff_blocker (Int.lt_toNat.mpr hproject) hfull).mp hroom last hlast
    rw [slack, hnow] at *
    omega
  · intro h result s' hcheck hdenied
    rw [hstep, Prod.mk.injEq, Except.ok.injEq] at hcheck
    obtain ⟨rfl, rfl⟩ := hcheck
    have hne : exhausted s r ≠ [] := by
      rw [Ne, ← hallowed, hdenied]
      exact Bool.false_ne_true
    obtain ⟨first, hfirst⟩ := earliest_of_exhausted huser hproject hne
    refine ⟨max 1 (ceilSeconds (first + window s.config - r.now)), ?_, ?_⟩
    · rw [retryAfterSeconds_of_denied hdenied, hfirst, Option.map_some]
    · intro between hbetween t ht
      have hconfig : (checks (s.admitRequest r).2 between).1.config = s.config :=
        checks_config _ _
      have hnone : recorded s r = [] := by simp [recorded, hdenied]
      obtain ⟨husers, -⟩ := checks_sublist hbetween r.userKey
      obtain ⟨-, hprojects⟩ := checks_sublist hbetween r.projectKey
      rw [admitRequest_userRequests, hnone, List.append_nil, Function.update_self] at husers
      rw [admitRequest_projectRequests, hnone, List.append_nil, Function.update_self] at hprojects
      have hopens : ∀ b ∈ exhausted s r, ∀ last ∈ blocker b.1 b.2,
          last ≤ t - window s.config := by
        intro b hb last hlast
        have hle := h first hfirst b hb last hlast
        rw [slack, hnow] at hle
        rw [hnow] at ht
        omega
      refine ⟨_, by rw [checkRateLimit_of_ok (by rw [hconfig]; exact hagain t)], ?_⟩
      rw [admitRequest_allowed_iff, hconfig]
      constructor
      · exact length_after_lt_of_sublist huser husers fun hfull ↦
          hopens _ (mem_exhausted.mpr ⟨.inl rfl, hfull⟩)
      · exact length_after_lt_of_sublist hproject hprojects fun hfull ↦
          hopens _ (mem_exhausted.mpr ⟨.inr rfl, hfull⟩)

end Wait

/-- One request a window for each user and each project. -/
def oneForAll : RateLimitConfig := { userRpm := 1, projectRpm := 1 }

theorem retrySuffices_alone :
    RetrySuffices (run oneForAll [{ userId := "a", projectId := "p", now := 0 }]).1
      { userId := "a", projectId := "p", now := 40000000 } := by
  refine (retrySuffices_iff (r := ⟨⟨none, "a"⟩, ⟨none, "p"⟩, 1, 40000000⟩) rfl (by decide)
    (by decide)).mpr ?_
  unfold InTime
  decide +kernel

/-- User `a` in project `q` and half a minute later user `b` in project `p`. -/
def crossed : List Check :=
  [{ userId := "a", projectId := "q", now := 0 },
    { userId := "b", projectId := "p", now := 30000000 }]

/-- Ten seconds later user `a` is told to wait for its own window only, though
project `p` stays full for ten seconds after it. -/
theorem not_retrySuffices_crossed : ¬ RetrySuffices (run oneForAll crossed).1
    { userId := "a", projectId := "p", now := 40000000 } := by
  intro h
  obtain ⟨wait, hwait, hretry⟩ := h _ _ (by rfl) (by decide +kernel)
  have hwait' : wait = 20 := by
    apply Option.some_inj.mp
    rw [← hwait]
    decide +kernel
  obtain ⟨again, hok, hpass⟩ := hretry [] (by simp [checks]) 60000000 (by rw [hwait']; decide)
  have hdenied := congrArg (fun answer ↦ answer.toOption.map RateLimitResult.allowed) hok
  simp only [Except.toOption, Option.map_some, hpass] at hdenied
  revert hdenied
  decide +kernel

end AxonGateway.RateLimit
