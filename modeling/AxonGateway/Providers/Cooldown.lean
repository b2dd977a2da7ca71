import AxonGateway.Providers.Availability

/-!
# The cooldown of a failed route

A failed credential is kept out of use for five minutes. Requests of the same
route that were under way settle after that, and what they do to the cooldown
depends on their status code and on the other routes at that moment.
-/

namespace AxonGateway.Providers

variable {lower : String → String} {s s' s'' : System} {pool pool' pool'' : RoutePool}
  {leases : List RouteLease} {lease : RouteLease} {key : GenerationKey}
  {state state' : RouteRuntime} {statusCode : ℤ} {now stop : ℚ}

/-! ## One failure -/

/-- A cooldown that is running is not shortened. -/
def KeepsCooldown (pool pool' : RoutePool) (key : GenerationKey) (now : ℚ) : Prop :=
  ∀ state state', pool.runtime.lookup key = some state → pool'.runtime.lookup key = some state' →
    now < state.cooldownUntil → state.cooldownUntil ≤ state'.cooldownUntil

/-- A failure that leaves every cooldown alone. -/
def Harmless (statusCode : ℤ) : Prop := statusCode ∉ [0, 401, 402, 403, 404, 429] ∧ statusCode < 500

/-- A failure does not touch the cooldown, or asks for one that is at least as long and that,
unless the credential failed, is not waived for want of another route. -/
def AsksNoLess (pool : RoutePool) (lease : RouteLease) (statusCode : ℤ) (now : ℚ)
    (state : RouteRuntime) : Prop :=
  Harmless statusCode ∨
  (statusCode ∈ [401, 402, 403] ∧ state.cooldownUntil ≤ now + authCooldownSeconds) ∨
  HasSibling pool lease now ∧
    (statusCode = 429 ∧ state.cooldownUntil ≤ now + throttleCooldownSeconds ∨
      (statusCode = 404 ∨ (statusCode = 0 ∨ 500 ≤ statusCode) ∧ 0 < state.consecutiveFailures) ∧
        state.cooldownUntil ≤ now + failureCooldownSeconds)

/-- A failure spares a cooldown that is running, or is the last request of a retired
generation, which goes with it. -/
def Spared (pool : RoutePool) (lease : RouteLease) (statusCode : ℤ) (now : ℚ) : Prop :=
  ∀ state, pool.runtime.lookup lease.key = some state → now < state.cooldownUntil →
    (pool.isRetired lease.key = true ∧ state.inflight ≤ 1) ∨ AsksNoLess pool lease statusCode now state

theorem lookup_settle_self (pool : RoutePool) (key : GenerationKey) (state : RouteRuntime) :
    (pool.settle key state).runtime.lookup key =
      if pool.isRetired key = true ∧ state.inflight = 0 then none else some state := by
  have hself : (pool.setRuntime key state).runtime.lookup key = some state := by
    rw [lookup_setRuntime, if_pos rfl]
  have hretired : (pool.setRuntime key state).activeGenerations.lookup key.1 = some key.2 ↔
      ¬ pool.isRetired key = true := by
    rw [isRetired_iff, not_not]
    rfl
  unfold RoutePool.settle RoutePool.pruneRuntimeKey
  rw [hself]
  by_cases hr : pool.isRetired key = true
  · rw [if_neg (mt hretired.mp (not_not_intro hr))]
    dsimp only
    by_cases hzero : state.inflight = 0
    · rw [if_pos hzero, if_pos ⟨hr, hzero⟩]
      exact AList.lookup_erase _ _
    · rw [if_neg hzero, if_neg fun h ↦ hzero h.2, hself]
  · rw [if_pos (hretired.mpr hr), if_neg fun h ↦ hr h.1, hself]

section Asked

variable {hasSibling : Bool} (hsibling : hasSibling = true ↔ HasSibling pool lease now)

include hsibling

/-- The cooldown after the failure is not shorter. -/
theorem cooldown_le (h : AsksNoLess pool lease statusCode now state) :
    state.cooldownUntil ≤ (state.affect statusCode now hasSibling).cooldownUntil := by
  unfold AsksNoLess Harmless at h
  rw [← hsibling] at h
  rw [cooldownUntil_affect]
  simp only [List.mem_cons, List.not_mem_nil, or_false, not_or] at h ⊢
  -- One goal for every branch of the code; in each the condition has one case left.
  split_ifs <;> grind

theorem asksNoLess_of_le (hnow : 0 ≤ now) (hcooling : now < state.cooldownUntil)
    (h : state.cooldownUntil ≤ (state.affect statusCode now hasSibling).cooldownUntil) :
    AsksNoLess pool lease statusCode now state := by
  have hlate : ¬ state.cooldownUntil ≤ 0 := (hnow.trans_lt hcooling).not_ge
  unfold AsksNoLess Harmless
  rw [← hsibling]
  rw [cooldownUntil_affect] at h
  simp only [List.mem_cons, List.not_mem_nil, or_false, not_or] at h ⊢
  split_ifs at h <;> grind

end Asked

theorem keepsCooldown_settle_iff (hstate : pool.runtime.lookup key = some state) :
    KeepsCooldown pool (pool.settle key state') key now ↔ now < state.cooldownUntil →
      (pool.isRetired key = true ∧ state'.inflight = 0) ∨
        state.cooldownUntil ≤ state'.cooldownUntil := by
  unfold KeepsCooldown
  rw [hstate, lookup_settle_self]
  constructor
  · intro h hcooling
    by_cases hgone : pool.isRetired key = true ∧ state'.inflight = 0
    · exact .inl hgone
    · exact .inr (h state state' rfl (if_neg hgone) hcooling)
  · rintro h _ new ⟨⟩ hnew hcooling
    rcases h hcooling with hgone | hle
    · rw [if_pos hgone] at hnew
      cases hnew
    · split_ifs at hnew
      obtain rfl := Option.some.inj hnew
      exact hle

/-- The step lemma. -/
theorem keepsCooldown_of_spared (h : Balanced pool leases)
    (hok : pool.recordFailure lease statusCode now = .ok pool')
    (hspared : Spared pool lease statusCode now) : KeepsCooldown pool pool' lease.key now := by
  cases hstate : pool.runtime.lookup lease.key with
  | none =>
      intro state _ hsome
      cases hstate.symm.trans hsome
  | some state =>
      obtain ⟨hasSibling, hsibling, hrecord⟩ := recordFailure_sibling h hstate statusCode now
      obtain rfl := Except.ok.inj (hrecord.symm.trans hok)
      rw [keepsCooldown_settle_iff hstate, inflight_affect, Nat.sub_eq_zero_iff_le]
      exact fun hcooling ↦ (hspared state hstate hcooling).imp_right (cooldown_le hsibling)

/-- The condition is exact for clock readings that are not negative. -/
theorem spared_of_keepsCooldown (h : Balanced pool leases) (hnow : 0 ≤ now)
    (hok : pool.recordFailure lease statusCode now = .ok pool')
    (hkeeps : KeepsCooldown pool pool' lease.key now) : Spared pool lease statusCode now := by
  intro state hstate hcooling
  obtain ⟨hasSibling, hsibling, hrecord⟩ := recordFailure_sibling h hstate statusCode now
  obtain rfl := Except.ok.inj (hrecord.symm.trans hok)
  rw [keepsCooldown_settle_iff hstate, inflight_affect, Nat.sub_eq_zero_iff_le] at hkeeps
  exact (hkeeps hcooling).imp_right (asksNoLess_of_le hsibling hnow hcooling)

/-! ## The generations that a pool knows -/

/-- The generation has been opened, so its number is not given out again. -/
def Known (pool : RoutePool) (key : GenerationKey) : Prop :=
  ∃ last, pool.lastGenerations.lookup key.1 = some last ∧ key.2 ≤ last

/-- What is in the later pool was in the earlier one, with the same state. -/
structure Keeps (key : GenerationKey) (pool pool' : RoutePool) : Prop where
  known : Known pool' key
  kept : ∀ state, pool'.runtime.lookup key = some state → pool.runtime.lookup key = some state

theorem Keeps.refl (hknown : Known pool key) : Keeps key pool pool := ⟨hknown, fun _ h ↦ h⟩

theorem Keeps.trans (h : Keeps key pool pool') (h' : Keeps key pool' pool'') :
    Keeps key pool pool'' :=
  ⟨h'.known, fun state hstate ↦ h.kept state (h'.kept state hstate)⟩

/-- A new generation is none of those that are known. -/
theorem keeps_openGeneration (hknown : Known pool key) (route : ProviderRoute) :
    Keeps key pool (pool.openGeneration route
      ((pool.lastGenerations.lookup route.routeId).getD 0 + 1)) := by
  obtain ⟨last, hlast, hle⟩ := hknown
  refine ⟨?_, fun state hstate ↦ ?_⟩
  · change ∃ last, (pool.lastGenerations.insert route.routeId _).lookup key.1 = some last ∧ _
    rw [Dict.lookup_insert_eq]
    split_ifs with hid
    · refine ⟨_, rfl, ?_⟩
      rw [← hid, hlast, Option.getD_some]
      omega
    · exact ⟨last, hlast, hle⟩
  · have hlookup := (Dict.lookup_insert_eq _ _ _ _).symm.trans hstate
    split_ifs at hlookup with hkey
    · subst hkey
      rw [hlast, Option.getD_some] at hle
      omega
    · exact hlookup

theorem keeps_adopt {adoption : RoutePool.Adoption} (hknown : Known adoption.pool key)
    (route : ProviderRoute) : Keeps key adoption.pool (RoutePool.adopt adoption route).pool := by
  unfold RoutePool.adopt
  cases adoption.pool.keptGeneration route with
  | some generation => exact ⟨hknown, fun _ h ↦ h⟩
  | none =>
      obtain ⟨hopened, hkept⟩ := keeps_openGeneration hknown route
      exact ⟨hopened, hkept⟩

theorem keeps_adopt_all (routes : List ProviderRoute) (adoption : RoutePool.Adoption)
    (hknown : Known adoption.pool key) :
    Keeps key adoption.pool (routes.foldl RoutePool.adopt adoption).pool := by
  induction routes generalizing adoption with
  | nil => exact Keeps.refl hknown
  | cons route routes ih =>
      have hone := keeps_adopt hknown route
      exact hone.trans (ih _ hone.known)

theorem keeps_replace (hknown : Known pool key) {routes : List ProviderRoute}
    (hok : pool.replace routes = .ok pool') : Keeps key pool pool' := by
  obtain ⟨index, -, hok⟩ := bind_ok_iff.mp hok
  have hadopted : Keeps key pool (routes.foldl RoutePool.adopt { pool := pool }).pool :=
    keeps_adopt_all routes { pool := pool } hknown
  generalize routes.foldl RoutePool.adopt { pool := pool } = adoption at hok hadopted
  cases hok
  refine ⟨hadopted.known, fun state hstate ↦ hadopted.kept state ?_⟩
  have hlookup := (Dict.lookup_eraseAll _ _ _).symm.trans hstate
  split_ifs at hlookup
  exact hlookup

/-! ## Selection and cooldowns -/

/-- The pool is used at the time `now`: a cooldown that is not over stays as it is. -/
structure Ages (now : ℚ) (pool pool' : RoutePool) : Prop where
  numbered : pool'.lastGenerations = pool.lastGenerations
  cooldown : ∀ key state', pool'.runtime.lookup key = some state' →
    ∃ state, pool.runtime.lookup key = some state ∧
      (now < state.cooldownUntil → state'.cooldownUntil = state.cooldownUntil)

theorem Ages.refl (now : ℚ) (pool : RoutePool) : Ages now pool pool :=
  ⟨rfl, fun _ state h ↦ ⟨state, h, fun _ ↦ rfl⟩⟩

theorem Ages.trans (h : Ages now pool pool') (h' : Ages now pool' pool'') : Ages now pool pool'' := by
  refine ⟨h'.numbered.trans h.numbered, fun key state'' hstate'' ↦ ?_⟩
  obtain ⟨state', hstate', hcooldown'⟩ := h'.cooldown key state'' hstate''
  obtain ⟨state, hstate, hcooldown⟩ := h.cooldown key state' hstate'
  refine ⟨state, hstate, fun hcooling ↦ ?_⟩
  have hsame := hcooldown hcooling
  exact (hcooldown' (by rwa [hsame])).trans hsame

theorem ages_setRuntime (hstate : pool.runtime.lookup key = some state)
    (hcooldown : now < state.cooldownUntil → state'.cooldownUntil = state.cooldownUntil) :
    Ages now pool (pool.setRuntime key state') := by
  refine ⟨rfl, fun key' new hnew ↦ ?_⟩
  rw [lookup_setRuntime] at hnew
  split_ifs at hnew with hkey
  · obtain rfl := Option.some.inj hnew
    exact ⟨state, by rw [hkey, hstate], hcooldown⟩
  · exact ⟨new, hnew, fun _ ↦ rfl⟩

theorem ages_recover {route : ProviderRoute}
    (hok : RoutePool.recover now pool route = .ok pool') : Ages now pool pool' := by
  obtain ⟨generation, -, hok⟩ := bind_ok_iff.mp hok
  obtain ⟨state, hstate, hok⟩ := bind_ok_iff.mp hok
  obtain rfl := Except.ok.inj hok
  split_ifs with hover
  · refine ages_setRuntime (getItem_ok_iff.mp hstate) fun hcooling ↦ ?_
    exact absurd hover.2 hcooling.not_ge
  · exact Ages.refl now pool

theorem ages_recover_all (routes : List ProviderRoute)
    (hok : routes.foldlM (RoutePool.recover now) pool = .ok pool') : Ages now pool pool' := by
  induction routes generalizing pool with
  | nil =>
      obtain rfl := Except.ok.inj hok
      exact Ages.refl now pool
  | cons route routes ih =>
      rw [List.foldlM_cons] at hok
      obtain ⟨pool₁, hpool₁, hok⟩ := bind_ok_iff.mp hok
      exact (ages_recover hpool₁).trans (ih hok)

theorem ages_reserve {eligible : List ProviderRoute} {modelId : String} {random : ℚ}
    (hok : pool.reserve eligible modelId now random = .ok (lease, pool')) : Ages now pool pool' := by
  obtain ⟨pool₁, hpool₁, hok⟩ := bind_ok_iff.mp hok
  obtain ⟨weights, -, hok⟩ := bind_ok_iff.mp hok
  cases hchoice : choices (RoutePool.candidates eligible) weights random with
  | none =>
      rw [hchoice] at hok
      cases hok
  | some route =>
      rw [hchoice] at hok
      obtain ⟨generation, -, hok⟩ := bind_ok_iff.mp hok
      obtain ⟨state, hstate, hok⟩ := bind_ok_iff.mp hok
      obtain ⟨-, rfl⟩ := Prod.mk.inj (Except.ok.inj hok)
      exact (ages_recover_all _ hpool₁).trans
        (ages_setRuntime (getItem_ok_iff.mp hstate) fun _ ↦ rfl)

theorem ages_acquire {name modelId : String} {random : ℚ}
    (hok : pool.acquire lower name modelId now random = .ok (lease, pool')) :
    Ages now pool pool' := by
  obtain ⟨configured, -, hok⟩ := bind_ok_iff.mp hok
  obtain ⟨eligible, -, hok⟩ := bind_ok_iff.mp hok
  split_ifs at hok
  exact ages_reserve hok

/-! ## Until the cooldown is over -/

/-- The generation is cooling until `stop`, as long as it is there. -/
structure CoolingUntil (key : GenerationKey) (stop : ℚ) (pool : RoutePool) : Prop where
  known : Known pool key
  cooling : ∀ state, pool.runtime.lookup key = some state → stop ≤ state.cooldownUntil

/-- The reading of the clock in an action. -/
def Action.clock? : Action → Option ℚ
  | .acquire _ _ now _ => some now
  | .recordFailure _ _ now => some now
  | _ => none

/-- An action before the end of a cooldown that has no success to report for the
generation, and no failure that does not spare it. -/
structure Undisturbing (pool : RoutePool) (key : GenerationKey) (stop : ℚ) (a : Action) : Prop where
  early : ∀ now, a.clock? = some now → now < stop
  unsuccessful : ∀ lease latencyMs outputTokens,
    a = .recordSuccess lease latencyMs outputTokens → lease.key ≠ key
  spared : ∀ lease statusCode now, a = .recordFailure lease statusCode now → lease.key = key →
    Spared pool lease statusCode now

/-- A run before the end of a cooldown. -/
inductive Undisturbed (lower : String → String) (key : GenerationKey) (stop : ℚ) :
    System → System → Prop
  | refl (s : System) : Undisturbed lower key stop s s
  | perform (s s' s'' : System) (a : Action) (hs : Undisturbed lower key stop s s')
      (ha : Undisturbing s'.pool key stop a) (h : s'.perform lower a = .ok s'') :
      Undisturbed lower key stop s s''

theorem lastGenerations_settle (pool : RoutePool) (key : GenerationKey) (state : RouteRuntime) :
    (pool.settle key state).lastGenerations = pool.lastGenerations := by
  unfold RoutePool.settle RoutePool.pruneRuntimeKey
  split_ifs
  · rfl
  · cases (pool.setRuntime key state).runtime.lookup key with
    | none => rfl
    | some _ =>
        dsimp only
        split_ifs <;> rfl

theorem lookup_settle_of_ne {key' : GenerationKey} (hne : key ≠ key') (pool : RoutePool)
    (state : RouteRuntime) :
    (pool.settle key' state).runtime.lookup key = pool.runtime.lookup key := by
  rcases lookup_pruneRuntimeKey (pool.setRuntime key' state) key' key with h | ⟨heq, -⟩
  · rw [RoutePool.settle, h, lookup_setRuntime, if_neg hne]
  · exact absurd heq hne

namespace CoolingUntil

theorem keeps (h : CoolingUntil key stop pool) (hkeeps : Keeps key pool pool') :
    CoolingUntil key stop pool' :=
  ⟨hkeeps.known, fun state hstate ↦ h.cooling state (hkeeps.kept state hstate)⟩

theorem ages (h : CoolingUntil key stop pool) (hages : Ages now pool pool') (hearly : now < stop) :
    CoolingUntil key stop pool' := by
  refine ⟨?_, fun state' hstate' ↦ ?_⟩
  · unfold Known
    rw [hages.numbered]
    exact h.known
  · obtain ⟨state, hstate, hsame⟩ := hages.cooldown key state' hstate'
    have hstop := h.cooling state hstate
    rwa [hsame (hearly.trans_le hstop)]

/-- A settlement that leaves the cooldown of the generation alone. -/
theorem settle (h : CoolingUntil key stop pool) {key' : GenerationKey}
    (hcooling : key' = key → ∀ new, (pool.settle key' state').runtime.lookup key = some new →
      stop ≤ new.cooldownUntil) : CoolingUntil key stop (pool.settle key' state') := by
  refine ⟨?_, fun new hnew ↦ ?_⟩
  · unfold Known
    rw [lastGenerations_settle]
    exact h.known
  · rcases eq_or_ne key' key with heq | hne
    · exact hcooling heq new hnew
    · rw [lookup_settle_of_ne hne.symm] at hnew
      exact h.cooling new hnew

theorem release (h : CoolingUntil key stop pool) (lease : RouteLease) :
    CoolingUntil key stop (pool.release lease) := by
  cases hstate : pool.runtime.lookup lease.key with
  | none =>
      unfold RoutePool.release
      rw [hstate]
      exact h
  | some state =>
      rw [release_eq_settle hstate]
      refine h.settle fun heq new hnew ↦ ?_
      rw [← heq, lookup_settle_self] at hnew
      split_ifs at hnew
      obtain rfl := Option.some.inj hnew
      exact h.cooling state (heq ▸ hstate)

theorem recordSuccess (h : CoolingUntil key stop pool) (hne : lease.key ≠ key) (latencyMs : ℚ)
    (outputTokens : ℤ) : CoolingUntil key stop (pool.recordSuccess lease latencyMs outputTokens) := by
  unfold RoutePool.recordSuccess
  cases pool.runtime.lookup lease.key with
  | none => exact h
  | some state => exact h.settle fun heq ↦ absurd heq hne

theorem recordFailure (h : CoolingUntil key stop pool) (hb : Balanced pool leases)
    (hearly : now < stop) (hspared : lease.key = key → Spared pool lease statusCode now)
    (hok : pool.recordFailure lease statusCode now = .ok pool') : CoolingUntil key stop pool' := by
  cases hstate : pool.runtime.lookup lease.key with
  | none =>
      rw [recordFailure_none hstate] at hok
      obtain rfl := Except.ok.inj hok
      exact h
  | some state =>
      obtain ⟨hasSibling, -, hrecord⟩ := recordFailure_sibling hb hstate statusCode now
      obtain rfl := Except.ok.inj (hrecord.symm.trans hok)
      refine h.settle fun heq new hnew ↦ ?_
      have hstop := h.cooling state (heq ▸ hstate)
      have hkeeps := keepsCooldown_of_spared hb hok (hspared heq)
      exact hstop.trans (hkeeps state new hstate (heq ▸ hnew) (hearly.trans_le hstop))

/-- Every action before the end of the cooldown. -/
theorem perform (h : CoolingUntil key stop s.pool) (hb : Balanced s.pool leases) {a : Action}
    (ha : Undisturbing s.pool key stop a) (hok : s.perform lower a = .ok s') :
    CoolingUntil key stop s'.pool := by
  cases a with
  | replace routes =>
      obtain ⟨pool, hpool, hok⟩ := bind_ok_iff.mp hok
      obtain rfl := Except.ok.inj hok
      exact h.keeps (keeps_replace h.known hpool)
  | acquire name modelId now random =>
      obtain ⟨granted, hgranted, hok⟩ := bind_ok_iff.mp hok
      obtain rfl := Except.ok.inj hok
      exact h.ages (ages_acquire hgranted) (ha.early now rfl)
  | release lease =>
      obtain rfl := Except.ok.inj hok
      exact h.release lease
  | recordSuccess lease latencyMs outputTokens =>
      obtain rfl := Except.ok.inj hok
      exact h.recordSuccess (ha.unsuccessful _ _ _ rfl) latencyMs outputTokens
  | recordFailure lease statusCode now =>
      obtain ⟨pool, hpool, hok⟩ := bind_ok_iff.mp hok
      obtain rfl := Except.ok.inj hok
      exact h.recordFailure hb (ha.early now rfl) (ha.spared _ _ _ rfl) hpool

/-- The route is not given out. -/
theorem acquire_ne (h : CoolingUntil key stop pool) (hb : Balanced pool leases) (hearly : now < stop)
    {name modelId : String} {random : ℚ}
    (hok : pool.acquire lower name modelId now random = .ok (lease, pool')) : lease.key ≠ key := by
  rintro rfl
  rcases acquire_cases hb lower name modelId now random with ⟨b, herror⟩ | ⟨l, p, hl, hgranted, -⟩
  · cases herror.symm.trans hok
  · obtain ⟨rfl, -⟩ := Prod.mk.inj (Except.ok.inj (hl.symm.trans hok))
    obtain ⟨state, hstate⟩ := Dict.mem_iff_lookup.mp (hb.wired.mem_runtime hgranted.active)
    have hcooled := hgranted.eligible.cooled hb.wired hb.counted hgranted.active hstate
    exact (hearly.trans_le (h.cooling state hstate)).not_ge hcooled

end CoolingUntil

theorem Undisturbed.visited (h : Undisturbed lower key stop s s') (hs : Visited lower s) :
    Visited lower s' := by
  induction h with
  | refl => exact hs
  | perform s' s'' a _ _ h ih => exact .perform s' s'' a ih h

/-- The run lemma. -/
theorem Undisturbed.coolingUntil (h : Undisturbed lower key stop s s') (hs : Visited lower s)
    (hcooling : CoolingUntil key stop s.pool) : CoolingUntil key stop s'.pool := by
  induction h with
  | refl => exact hcooling
  | perform s' s'' a hrun ha h ih =>
      obtain ⟨leases, hb⟩ := (hrun.visited hs).balanced
      exact ih.perform hb ha h

/-- The failure of a credential starts the cooldown. -/
theorem coolingUntil_of_credential (hb : Balanced pool leases) (hkey : lease.key ∈ pool.runtime)
    (hcode : statusCode ∈ [401, 402, 403])
    (hok : pool.recordFailure lease statusCode now = .ok pool') :
    CoolingUntil lease.key (now + authCooldownSeconds) pool' := by
  obtain ⟨state, hstate⟩ := Dict.mem_iff_lookup.mp hkey
  obtain ⟨hasSibling, -, hrecord⟩ := recordFailure_sibling hb hstate statusCode now
  obtain rfl := Except.ok.inj (hrecord.symm.trans hok)
  refine ⟨?_, fun new hnew ↦ ?_⟩
  · unfold Known
    rw [lastGenerations_settle]
    exact hb.counted.numbered lease.key hkey
  · rw [lookup_settle_self] at hnew
    split_ifs at hnew
    obtain rfl := Option.some.inj hnew
    rw [cooldownUntil_affect, if_pos hcode]

/-- In every run a failure keeps the cooldown that is running exactly when it spares it,
and where all failures of a generation do, the generation is not given out before the end of
the cooldown of its credential, unless it has reported a success. -/
theorem cooldown_kept (hs : Visited lower s) :
    (∀ lease statusCode now pool', s.pool.recordFailure lease statusCode now = .ok pool' →
      (Spared s.pool lease statusCode now → KeepsCooldown s.pool pool' lease.key now) ∧
      (0 ≤ now → KeepsCooldown s.pool pool' lease.key now → Spared s.pool lease statusCode now)) ∧
    ∀ lease statusCode start s₀ s₁, statusCode ∈ [401, 402, 403] → lease.key ∈ s.pool.runtime →
      s.perform lower (.recordFailure lease statusCode start) = .ok s₀ →
      Undisturbed lower lease.key (start + authCooldownSeconds) s₀ s₁ →
      ∀ name modelId now random lease' pool', now < start + authCooldownSeconds →
        s₁.pool.acquire lower name modelId now random = .ok (lease', pool') →
        lease'.key ≠ lease.key := by
  obtain ⟨leases, hb⟩ := hs.balanced
  constructor
  · intro lease statusCode now pool' hok
    exact ⟨keepsCooldown_of_spared hb hok, fun hnow ↦ spared_of_keepsCooldown hb hnow hok⟩
  · intro lease statusCode start s₀ s₁ hcode hkey hok hrun name modelId now random lease' pool' hnow
      hacquire
    have hs₀ : Visited lower s₀ := .perform s s₀ _ hs hok
    obtain ⟨pool₀, hpool₀, hok⟩ := bind_ok_iff.mp hok
    obtain rfl := Except.ok.inj hok
    have hcooling := coolingUntil_of_credential hb hkey hcode hpool₀
    obtain ⟨leases₁, hb₁⟩ := (hrun.visited hs₀).balanced
    exact (hrun.coolingUntil hs₀ hcooling).acquire_ne hb₁ hnow hacquire

/-! ## Two requests of one route -/

/-- After a `401` the next request for the model goes to the other route. -/
theorem moved_partialRun : ∃ s s₀, partialRun = .ok s ∧
    s.perform (fun s ↦ s) (.recordFailure firstLease 401 0) = .ok s₀ ∧
    ∃ lease pool', s₀.pool.acquire (fun s ↦ s) "openai" "x" 1 0 = .ok (lease, pool') ∧
      lease.key ≠ firstLease.key := by
  have hrun : (partialRun >>= fun s ↦ s.perform (fun s ↦ s) (.recordFailure firstLease 401 0) >>=
      fun s₀ ↦ (s₀.pool.acquire (fun s ↦ s) "openai" "x" 1 0).map fun r ↦
        decide (firstLease.key ∈ s.pool.runtime)) = .ok true := by decide +kernel
  obtain ⟨s, hs, hrun⟩ := bind_ok_iff.mp hrun
  obtain ⟨s₀, hs₀, hrun⟩ := bind_ok_iff.mp hrun
  obtain ⟨⟨lease, pool'⟩, hacquire, hkey⟩ := ok_of_map hrun
  have hearly : (1 : ℚ) < 0 + authCooldownSeconds := by norm_num [authCooldownSeconds]
  have hkept := (cooldown_kept (visited_foldlM .start hs)).2 firstLease 401 0 s₀ s₀ (by decide)
    (of_decide_eq_true hkey) hs₀ (.refl s₀) "openai" "x" 1 0 lease pool' hearly hacquire
  exact ⟨s, s₀, hs, hs₀, lease, pool', hacquire, hkept⟩

/-- A route without siblings has two requests under way. The credential is refused for the
first; the second ends with a server error a second later, and the route is given out again. -/
theorem shortened_oneRoute : ∃ s, Visited (fun s ↦ s) s ∧ ∃ lease ∈ s.leases, ∃ state pool' state',
    s.pool.runtime.lookup lease.key = some state ∧ state.cooldownUntil = 300 ∧
    s.pool.recordFailure lease 500 1 = .ok pool' ∧
    pool'.runtime.lookup lease.key = some state' ∧ state'.cooldownUntil = 0 ∧
    ∃ lease' pool'', pool'.acquire (fun s ↦ s) "openai" "x" 2 0 = .ok (lease', pool'') ∧
      lease'.key = lease.key := by
  have hrun : ([Action.replace [firstLease.route], .acquire "openai" "x" 0 0,
      .acquire "openai" "x" 0 0, .recordFailure firstLease 401 0].foldlM
        (System.perform fun s ↦ s) {} >>= fun s ↦ s.pool.recordFailure firstLease 500 1 >>=
      fun pool' ↦ (pool'.acquire (fun s ↦ s) "openai" "x" 2 0).map fun r ↦
        (s.leases, (s.pool.runtime.lookup firstLease.key).map RouteRuntime.cooldownUntil,
          (pool'.runtime.lookup firstLease.key).map RouteRuntime.cooldownUntil, r.1.key)) =
      .ok ([firstLease], some 300, some 0, firstLease.key) := by decide +kernel
  obtain ⟨s, hs, hrun⟩ := bind_ok_iff.mp hrun
  obtain ⟨pool', hpool', hrun⟩ := bind_ok_iff.mp hrun
  obtain ⟨⟨lease', pool''⟩, hacquire, h⟩ := ok_of_map hrun
  simp only [Prod.mk.injEq] at h
  obtain ⟨hleases, hbefore, hafter, hagain⟩ := h
  obtain ⟨state, hstate, hcooling⟩ := Option.map_eq_some_iff.mp hbefore
  obtain ⟨state', hstate', hcooled⟩ := Option.map_eq_some_iff.mp hafter
  refine ⟨s, visited_foldlM .start hs, firstLease, ?_, state, pool', state', hstate, hcooling,
    hpool', hstate', hcooled, lease', pool'', hacquire, hagain⟩
  rw [hleases]
  exact List.mem_singleton_self _

end AxonGateway.Providers
