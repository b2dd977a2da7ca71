import AxonGateway.Providers.Accounting

/-!
# Which routes are available

Callers may settle a lease twice, or settle one that the pool never gave out. The
pool stays consistent under all of them; what a route is eligible for is read off
its own state and the load of its capacity group.
-/

namespace AxonGateway.Providers

variable {lower : String → String} {s s' : System} {pool pool' : RoutePool}
  {leases leases' : List RouteLease} {lease : RouteLease} {key : GenerationKey}
  {route : ProviderRoute} {state state' : RouteRuntime} {provider modelId : String} {now : ℚ}

/-! ## Any use of a pool -/

/-- The systems of callers that settle whatever they like. -/
inductive Visited (lower : String → String) : System → Prop
  | start : Visited lower {}
  | perform (s s' : System) (a : Action) (hs : Visited lower s) (h : s.perform lower a = .ok s') :
      Visited lower s'

/-- One lease of the generation is given up, if there is one. -/
def dropLease (leases : List RouteLease) (key : GenerationKey) : List RouteLease :=
  leases.eraseP fun lease ↦ lease.key = key

theorem unsettled_dropLease (leases : List RouteLease) (key key' : GenerationKey) :
    unsettled (dropLease leases key) key' =
      unsettled leases key' - if key = key' then 1 else 0 := by
  induction leases with
  | nil =>
      change 0 = 0 - _
      omega
  | cons lease leases ih =>
      unfold dropLease at ih ⊢
      rw [List.eraseP_cons, unsettled_cons]
      by_cases hkey : lease.key = key
      · rw [decide_eq_true hkey, cond_true, hkey]
        omega
      · rw [decide_eq_false hkey, cond_false, unsettled_cons, ih]
        by_cases hkey' : key = key'
        · subst hkey'
          rw [if_neg hkey]
          omega
        · rw [if_neg hkey']
          omega

theorem dropLease_sublist (leases : List RouteLease) (key : GenerationKey) :
    (dropLease leases key).Sublist leases :=
  List.eraseP_sublist

/-- One request of a generation less is in flight, whoever had it. -/
theorem counted_dropLease (h : Counted pool leases) (hstate : pool.runtime.lookup key = some state)
    (hstate' : state'.inflight = state.inflight - 1) :
    Counted (pool.setRuntime key state') (dropLease leases key) := by
  have hkey : key ∈ pool.runtime := Dict.mem_iff_lookup.mpr ⟨state, hstate⟩
  refine ⟨fun key' s hs ↦ ?_, fun l hl ↦ h.leased l ((dropLease_sublist _ _).subset hl),
    fun key' hmem ↦ h.numbered key' ((mem_setRuntime hkey key').mp hmem)⟩
  rw [unsettled_dropLease]
  have hs' : (if key' = key then some state' else pool.runtime.lookup key') = some s :=
    (Dict.lookup_insert_eq _ _ _ _).symm.trans hs
  rcases eq_or_ne key' key with rfl | hne
  · rw [if_pos rfl] at hs' ⊢
    obtain rfl := Option.some.inj hs'
    rw [hstate', h.inflight _ _ hstate]
  · rw [if_neg hne] at hs'
    rw [if_neg hne.symm, h.inflight _ _ hs', Nat.sub_zero]

/-- A settlement of a request of the generation `key`. -/
def RoutePool.settle (pool : RoutePool) (key : GenerationKey) (state : RouteRuntime) : RoutePool :=
  (pool.setRuntime key state).pruneRuntimeKey key

theorem balanced_dropLease (h : Balanced pool leases)
    (hstate : pool.runtime.lookup key = some state)
    (hstate' : state'.inflight = state.inflight - 1) :
    Balanced (pool.settle key state') (dropLease leases key) := by
  have hkey : key ∈ pool.runtime := Dict.mem_iff_lookup.mpr ⟨state, hstate⟩
  apply balanced_pruneRuntimeKey (h.wired.setRuntime hkey state')
    (counted_dropLease h.counted hstate hstate')
  intro key' hmem hne hretired
  have hpos := h.pruned key' ((mem_setRuntime hkey key').mp hmem) hretired
  rwa [unsettled_dropLease, if_neg hne.symm, Nat.sub_zero]

/-- What a failure that affects the route does to its health. -/
def RouteRuntime.affect (state : RouteRuntime) (statusCode : ℤ) (now : ℚ) (hasSibling : Bool) :
    RouteRuntime :=
  if isRequestError statusCode then state.fail statusCode
  else (state.fail statusCode).worsen.penalize statusCode now hasSibling

@[simp] theorem inflight_affect (state : RouteRuntime) (statusCode : ℤ) (now : ℚ)
    (hasSibling : Bool) : (state.affect statusCode now hasSibling).inflight = state.inflight - 1 := by
  unfold RouteRuntime.affect
  split_ifs
  · rfl
  · rw [inflight_penalize]
    rfl

/-- Everything that recording a failure can do. -/
theorem recordFailure_spec (hw : Wired pool) (hc : Counted pool leases)
    (hstate : pool.runtime.lookup lease.key = some state) (statusCode : ℤ) (now : ℚ) :
    ∃ hasSibling, (pool.setRuntime lease.key (state.fail statusCode).worsen).hasAvailable
        lease.route.provider lease.modelId now lease.route.routeId = .ok hasSibling ∧
      pool.recordFailure lease statusCode now =
        .ok (pool.settle lease.key (state.affect statusCode now hasSibling)) := by
  have hkey : lease.key ∈ pool.runtime := Dict.mem_iff_lookup.mpr ⟨state, hstate⟩
  have hcounted : Counted (pool.setRuntime lease.key (state.fail statusCode).worsen)
      (dropLease leases lease.key) := counted_dropLease hc hstate rfl
  obtain ⟨hasSibling, hok⟩ := hasAvailable_ok (hw.setRuntime hkey _) hcounted
    lease.route.provider lease.modelId now lease.route.routeId
  refine ⟨hasSibling, hok, ?_⟩
  unfold RoutePool.recordFailure RouteRuntime.affect
  rw [hstate]
  dsimp only
  split_ifs
  · rfl
  · exact bind_ok_iff.mpr ⟨hasSibling, hok, rfl⟩

theorem recordFailure_none (hstate : pool.runtime.lookup lease.key = none) (statusCode : ℤ)
    (now : ℚ) : pool.recordFailure lease statusCode now = .ok pool := by
  unfold RoutePool.recordFailure
  rw [hstate]
  rfl

/-- The step lemma: the books balance for leases that the callers may not have. -/
theorem balanced_visit (h : Balanced s.pool leases) {a : Action}
    (hok : s.perform lower a = .ok s') : ∃ leases', Balanced s'.pool leases' := by
  cases a with
  | replace routes =>
      obtain ⟨pool, hpool, hok⟩ := bind_ok_iff.mp hok
      cases hok
      exact ⟨leases, balanced_replace h hpool⟩
  | acquire name modelId now random =>
      obtain ⟨granted, hgranted, hok⟩ := bind_ok_iff.mp hok
      cases hok
      have hghost : (System.mk s.pool leases).perform lower (.acquire name modelId now random) =
          .ok ⟨granted.2, granted.1 :: leases⟩ := bind_ok_iff.mpr ⟨granted, hgranted, rfl⟩
      have hbalanced := balanced_perform (s := ⟨s.pool, leases⟩) h (admissible_of_none rfl) hghost
      exact ⟨_, hbalanced⟩
  | release lease =>
      cases hok
      change ∃ leases', Balanced (s.pool.release lease) leases'
      unfold RoutePool.release
      cases hstate : s.pool.runtime.lookup lease.key with
      | none => exact ⟨leases, h⟩
      | some state => exact ⟨_, balanced_dropLease h hstate rfl⟩
  | recordSuccess lease latencyMs outputTokens =>
      cases hok
      change ∃ leases', Balanced (s.pool.recordSuccess lease latencyMs outputTokens) leases'
      unfold RoutePool.recordSuccess
      cases hstate : s.pool.runtime.lookup lease.key with
      | none => exact ⟨leases, h⟩
      | some state => exact ⟨_, balanced_dropLease h hstate rfl⟩
  | recordFailure lease statusCode now =>
      obtain ⟨pool, hpool, hok⟩ := bind_ok_iff.mp hok
      cases hok
      cases hstate : s.pool.runtime.lookup lease.key with
      | none =>
          rw [recordFailure_none hstate] at hpool
          cases hpool
          exact ⟨leases, h⟩
      | some state =>
          obtain ⟨hasSibling, -, hrecord⟩ := recordFailure_spec h.wired h.counted hstate statusCode now
          rw [hrecord] at hpool
          cases hpool
          exact ⟨_, balanced_dropLease h hstate (inflight_affect ..)⟩

theorem Visited.balanced (hs : Visited lower s) : ∃ leases, Balanced s.pool leases := by
  induction hs with
  | start => exact ⟨[], balanced_empty⟩
  | perform s s' a hs h ih =>
      obtain ⟨leases, hleases⟩ := ih
      exact balanced_visit hleases h

/-! ## Eligible routes -/

/-- The leases of a capacity group. -/
def groupLoad (leases : List RouteLease) (group : String) : ℕ :=
  leases.countP fun lease ↦ lease.route.capacityGroup == group

theorem groupLoad_dropLease_le (leases : List RouteLease) (key : GenerationKey) (group : String) :
    groupLoad (dropLease leases key) group ≤ groupLoad leases group :=
  (dropLease_sublist leases key).countP_le

/-- A route is not cooling and has capacity left. -/
structure HasRoom (state : RouteRuntime) (load : ℕ) (now : ℚ) (route : ProviderRoute) : Prop where
  cooled : state.cooldownUntil ≤ now
  concurrency : state.inflight < route.maxConcurrency
  group : route.capacityGroup ≠ "" → route.capacityLimit ≠ 0 → load < route.capacityLimit

theorem isEligible_iff (hw : Wired pool) (hc : Counted pool leases)
    (hroute : pool.routes.lookup route.routeId = some route) {generation : ℕ}
    (hactive : pool.activeGenerations.lookup route.routeId = some generation)
    (hstate : pool.runtime.lookup (route.routeId, generation) = some state) :
    pool.isEligible now route = .ok true ↔
      HasRoom state (groupLoad leases route.capacityGroup) now route := by
  have hactiveState : pool.activeState route.routeId = .ok state :=
    bind_ok_iff.mpr ⟨generation, getItem_ok_iff.mpr hactive, getItem_ok_iff.mpr hstate⟩
  constructor
  · intro h
    obtain ⟨⟨state', hstate', hcooled⟩, hconcurrency, hgroup⟩ := eligible_spec hw hc hroute h hactive
    obtain rfl : state' = state := Except.ok.inj (hstate'.symm.trans hactiveState)
    rw [← hc.inflight _ _ hstate] at hconcurrency
    exact ⟨hcooled, hconcurrency, hgroup⟩
  · intro h
    unfold RoutePool.isEligible
    rw [hactiveState, groupInflight_ok hw hc]
    change (if now < state.cooldownUntil then (.ok false : Except PoolError Bool) else
      if route.maxConcurrency ≤ state.inflight then .ok false else
      if route.capacityGroup ≠ "" ∧ route.capacityLimit ≠ 0 then
        .ok (decide (groupLoad leases route.capacityGroup < route.capacityLimit))
      else .ok true) = .ok true
    rw [if_neg h.cooled.not_gt, if_neg h.concurrency.not_ge]
    split_ifs with hgroup
    · rw [decide_eq_true (h.group hgroup.1 hgroup.2)]
    · rfl

/-- Two pools have the same routes in use. -/
structure SameCatalog (pool pool' : RoutePool) : Prop where
  routes : pool'.routes = pool.routes
  byProvider : pool'.byProvider = pool.byProvider
  actives : pool'.activeGenerations = pool.activeGenerations

theorem sameCatalog_pruneRuntimeKey (pool : RoutePool) (key : GenerationKey) :
    SameCatalog pool (pool.pruneRuntimeKey key) := by
  unfold RoutePool.pruneRuntimeKey
  split_ifs
  · exact ⟨rfl, rfl, rfl⟩
  · cases pool.runtime.lookup key with
    | none => exact ⟨rfl, rfl, rfl⟩
    | some state =>
        dsimp only
        split_ifs <;> exact ⟨rfl, rfl, rfl⟩

/-- A route stays eligible where its cooldown and its load do. -/
theorem Eligible.transfer (hw : Wired pool) (hc : Counted pool leases) (hw' : Wired pool')
    (hc' : Counted pool' leases') (hsame : SameCatalog pool pool')
    (hload : ∀ group, groupLoad leases' group ≤ groupLoad leases group)
    (hroom : ∀ generation state state',
      pool.activeGenerations.lookup route.routeId = some generation →
      pool.runtime.lookup (route.routeId, generation) = some state →
      pool'.runtime.lookup (route.routeId, generation) = some state' →
      state'.inflight ≤ state.inflight ∧
        (state.cooldownUntil ≤ now → state'.cooldownUntil ≤ now))
    (h : Eligible pool provider modelId now route) : Eligible pool' provider modelId now route := by
  obtain ⟨hid, hroute, henabled, hsupports, heligible⟩ := h
  have hroute' : pool'.routes.lookup route.routeId = some route := by rwa [hsame.routes]
  obtain ⟨generation, state, hactive, hstate, -⟩ := hw.activeState_ok hroute
  obtain ⟨generation', state', hactive', hstate', -⟩ := hw'.activeState_ok hroute'
  rw [hsame.actives] at hactive'
  obtain rfl : generation' = generation := Option.some.inj (hactive'.symm.trans hactive)
  obtain ⟨hinflight, hcooldown⟩ := hroom generation' state state' hactive hstate hstate'
  have hroom := (isEligible_iff hw hc hroute hactive hstate).mp heligible
  refine ⟨by rwa [hsame.byProvider], hroute', henabled, hsupports, ?_⟩
  refine (isEligible_iff hw' hc' hroute' (by rwa [hsame.actives]) hstate').mpr ⟨?_, ?_, ?_⟩
  · exact hcooldown hroom.cooled
  · exact hinflight.trans_lt hroom.concurrency
  · exact fun hgroup hlimit ↦ (hload _).trans_lt (hroom.group hgroup hlimit)

/-! ## The routes that are available -/

namespace RoutePool

/-- Whether one of the routes serves the model. -/
def anyAvailable (pool : RoutePool) (routeIds : List String) (modelId : String) (now : ℚ) :
    Except PoolError Bool := do
  let routes ← collectM (getItem pool.routes) routeIds
  let available ← keepM (pool.isEligible now)
    (routes.filter fun route ↦ route.enabled && route.supportsModel modelId)
  pure (!available.isEmpty)

/-- Whether a route is not the one to leave out. -/
def isIncluded (pool : RoutePool) (excludeRouteId : Option String) (excludeGeneration : Option ℕ)
    (routeId : String) : Except PoolError Bool :=
  if some routeId = excludeRouteId then
    match excludeGeneration with
    | none => pure false
    | some excluded => do
        let generation ← getItem pool.activeGenerations routeId
        pure (decide (generation ≠ excluded))
  else pure true

def hasAvailableLocked (pool : RoutePool) (provider modelId : String) (now : ℚ)
    (excludeRouteId : Option String) (excludeGeneration : Option ℕ) : Except PoolError Bool := do
  let routeIds ← keepM (pool.isIncluded excludeRouteId excludeGeneration)
    ((pool.byProvider.lookup provider).getD [])
  pool.anyAvailable routeIds modelId now

/-- `has_available` with nothing to leave out. -/
def isAvailable (pool : RoutePool) (lower : String → String) (name modelId : String) (now : ℚ) :
    Except PoolError Bool :=
  pool.hasAvailableLocked (canonicalProvider lower name) modelId now none none

end RoutePool

theorem keepM_pure {α : Type} (p : α → Bool) (l : List α) :
    keepM (fun a ↦ pure (p a)) l = pure (l.filter p) := by
  induction l with
  | nil => rfl
  | cons a l ih =>
      rw [keepM, ih, List.filter_cons]
      rfl

/-- The sibling of a failed route is looked for by its route id. -/
theorem hasAvailableLocked_some (pool : RoutePool) (provider modelId : String) (now : ℚ)
    (routeId : String) : pool.hasAvailableLocked provider modelId now (some routeId) none =
      pool.hasAvailable provider modelId now routeId := by
  have hincluded : pool.isIncluded (some routeId) none = fun id ↦ pure (id != routeId) := by
    funext id
    unfold RoutePool.isIncluded
    by_cases hid : id = routeId
    · rw [if_pos (congrArg some hid), hid, bne_self_eq_false]
    · rw [if_neg fun h ↦ hid (Option.some.inj h), bne_iff_ne.mpr hid]
  unfold RoutePool.hasAvailableLocked
  rw [hincluded, keepM_pure]
  rfl

theorem anyAvailable_iff (hw : Wired pool) (hc : Counted pool leases) {ids : List String}
    (hids : ∀ routeId ∈ ids, ∃ route, pool.routes.lookup routeId = some route) :
    pool.anyAvailable ids modelId now = .ok true ↔ ∃ route, route.routeId ∈ ids ∧
      pool.routes.lookup route.routeId = some route ∧ route.enabled = true ∧
      route.supportsModel modelId = true ∧ pool.isEligible now route = .ok true := by
  obtain ⟨routes, hroutes, hmem⟩ := configured_ok hw ids hids
  obtain ⟨kept, hkept, hiff⟩ := keepM_ok (f := pool.isEligible now)
    (l := routes.filter fun route ↦ route.enabled && route.supportsModel modelId)
    fun route hroute ↦ isEligible_ok hw hc now ((hmem route).mp (List.mem_filter.mp hroute).1).1
  have hany : pool.anyAvailable ids modelId now = .ok (!kept.isEmpty) :=
    bind_ok_iff.mpr ⟨routes, hroutes, bind_ok_iff.mpr ⟨kept, hkept, rfl⟩⟩
  rw [hany, Except.ok.injEq, Bool.not_eq_true', List.isEmpty_eq_false_iff_exists_mem]
  refine exists_congr fun route ↦ ?_
  rw [hiff, List.mem_filter, hmem, Bool.and_eq_true]
  tauto

theorem hasAvailable_iff (hw : Wired pool) (hc : Counted pool leases) {routeId : String} :
    pool.hasAvailable provider modelId now routeId = .ok true ↔
      ∃ route, Eligible pool provider modelId now route ∧ route.routeId ≠ routeId := by
  have hany : pool.hasAvailable provider modelId now routeId =
      pool.anyAvailable (((pool.byProvider.lookup provider).getD []).filter (· != routeId))
        modelId now := rfl
  rw [hany, anyAvailable_iff hw hc fun id hid ↦
    (hw.providers provider id (List.mem_filter.mp hid).1).imp fun _ h ↦ h.1]
  refine exists_congr fun route ↦ ?_
  rw [List.mem_filter, bne_iff_ne]
  unfold Eligible
  tauto

theorem isAvailable_iff (hw : Wired pool) (hc : Counted pool leases) {name : String} :
    pool.isAvailable lower name modelId now = .ok true ↔
      ∃ route, Eligible pool (canonicalProvider lower name) modelId now route := by
  have hany : pool.isAvailable lower name modelId now = pool.anyAvailable
      ((pool.byProvider.lookup (canonicalProvider lower name)).getD []) modelId now := by
    have hincluded : pool.isIncluded none none = fun _ ↦ pure true := rfl
    unfold RoutePool.isAvailable RoutePool.hasAvailableLocked
    rw [hincluded, keepM_pure, List.filter_true]
    rfl
  rw [hany, anyAvailable_iff hw hc fun id hid ↦ (hw.providers _ id hid).imp fun _ h ↦ h.1]
  rfl

/-! ## After a settlement -/

theorem lookup_setRuntime (pool : RoutePool) (key key' : GenerationKey) (state : RouteRuntime) :
    (pool.setRuntime key state).runtime.lookup key' =
      if key' = key then some state else pool.runtime.lookup key' :=
  Dict.lookup_insert_eq _ _ _ _

/-- Only a retired generation without requests goes. -/
theorem lookup_pruneRuntimeKey (pool : RoutePool) (key key' : GenerationKey) :
    (pool.pruneRuntimeKey key).runtime.lookup key' = pool.runtime.lookup key' ∨
      key' = key ∧ pool.isRetired key = true ∧
        (pool.runtime.lookup key).map RouteRuntime.inflight = some 0 ∧
        (pool.pruneRuntimeKey key).runtime.lookup key' = none := by
  unfold RoutePool.pruneRuntimeKey
  split_ifs with hactive
  · exact .inl rfl
  · cases hstate : pool.runtime.lookup key with
    | none => exact .inl rfl
    | some state =>
        dsimp only
        split_ifs with hzero
        · rw [Dict.lookup_erase_eq]
          split_ifs with hkey
          · exact .inr ⟨hkey, isRetired_iff.mpr hactive, by rw [Option.map_some, hzero], rfl⟩
          · exact .inl rfl
        · exact .inl rfl

theorem lookup_settle_active (hactive : pool.activeGenerations.lookup key.1 = some key.2)
    (key' : GenerationKey) (state : RouteRuntime) :
    (pool.settle key' state).runtime.lookup key =
      if key = key' then some state else pool.runtime.lookup key := by
  rw [← lookup_setRuntime]
  rcases lookup_pruneRuntimeKey (pool.setRuntime key' state) key' key with h | ⟨rfl, hretired, -⟩
  · exact h
  · exact absurd hactive (isRetired_iff.mp hretired)

theorem sameCatalog_settle (pool : RoutePool) (key : GenerationKey) (state : RouteRuntime) :
    SameCatalog pool (pool.settle key state) := by
  obtain ⟨hroutes, hproviders, hactives⟩ :=
    sameCatalog_pruneRuntimeKey (pool.setRuntime key state) key
  exact ⟨hroutes, hproviders, hactives⟩

theorem release_eq_settle (hstate : pool.runtime.lookup lease.key = some state) :
    pool.release lease = pool.settle lease.key { state with inflight := state.inflight - 1 } := by
  unfold RoutePool.release
  rw [hstate]
  rfl

section Settled

variable {state₁ state₂ : RouteRuntime} (h : Balanced pool leases)
  (hstate : pool.runtime.lookup key = some state)

include h hstate

/-- A settlement leaves every route eligible that it does not cool. -/
theorem eligible_settle (hinflight : state₁.inflight = state.inflight - 1)
    (hcooldown : route.routeId = key.1 → pool.isRetired key = false →
      state.cooldownUntil ≤ now → state₁.cooldownUntil ≤ now)
    (he : Eligible pool provider modelId now route) :
    Eligible (pool.settle key state₁) provider modelId now route := by
  have hbalanced := balanced_dropLease h hstate hinflight
  refine he.transfer h.wired h.counted hbalanced.wired hbalanced.counted
    (sameCatalog_settle pool key state₁) (groupLoad_dropLease_le leases key) ?_
  intro generation old new hactive hold hnew
  have hactive' : pool.activeGenerations.lookup (route.routeId, generation).1 =
      some (route.routeId, generation).2 := hactive
  have hnew' := (lookup_settle_active hactive' key state₁).symm.trans hnew
  split_ifs at hnew' with heq
  · obtain rfl := Option.some.inj hnew'
    rw [heq, hstate] at hold
    obtain rfl := Option.some.inj hold
    have hused : pool.isRetired key = false := by
      rw [← heq, ← Bool.not_eq_true, isRetired_iff]
      exact not_not_intro hactive
    exact ⟨by omega, hcooldown (congrArg Prod.fst heq) hused⟩
  · obtain rfl := Option.some.inj (hnew'.symm.trans hold)
    exact ⟨le_rfl, id⟩

/-- What the settlement does to the health of its own route is all the same to the others. -/
theorem eligible_settle_other (h₁ : state₁.inflight = state.inflight - 1)
    (h₂ : state₂.inflight = state.inflight - 1) (hother : route.routeId ≠ key.1)
    (he : Eligible (pool.settle key state₁) provider modelId now route) :
    Eligible (pool.settle key state₂) provider modelId now route := by
  have hb₁ := balanced_dropLease h hstate h₁
  have hb₂ := balanced_dropLease h hstate h₂
  have hs₁ := sameCatalog_settle pool key state₁
  have hs₂ := sameCatalog_settle pool key state₂
  refine he.transfer hb₁.wired hb₁.counted hb₂.wired hb₂.counted
    ⟨hs₂.routes.trans hs₁.routes.symm, hs₂.byProvider.trans hs₁.byProvider.symm,
      hs₂.actives.trans hs₁.actives.symm⟩ (fun _ ↦ le_rfl) ?_
  intro generation old new hactive hold hnew
  rw [hs₁.actives] at hactive
  have hne : (route.routeId, generation) ≠ key := fun heq ↦ hother (congrArg Prod.fst heq)
  rw [lookup_settle_active hactive, if_neg hne] at hold hnew
  obtain rfl := Option.some.inj (hnew.symm.trans hold)
  exact ⟨le_rfl, id⟩

/-- The sibling is the same before and after the retired generation is gone. -/
theorem hasAvailable_setRuntime (h₁ : state₁.inflight = state.inflight - 1)
    (h₂ : state₂.inflight = state.inflight - 1) :
    (pool.setRuntime key state₁).hasAvailable provider modelId now key.1 = .ok true ↔
      (pool.settle key state₂).hasAvailable provider modelId now key.1 = .ok true := by
  have hkey : key ∈ pool.runtime := Dict.mem_iff_lookup.mpr ⟨state, hstate⟩
  have hw := h.wired.setRuntime hkey state₁
  have hc := counted_dropLease h.counted hstate h₁
  have hb₁ := balanced_dropLease h hstate h₁
  have hb₂ := balanced_dropLease h hstate h₂
  have hpruned : ∀ route, Eligible (pool.setRuntime key state₁) provider modelId now route ↔
      Eligible (pool.settle key state₁) provider modelId now route := by
    intro route
    have hs := sameCatalog_settle pool key state₁
    have hlookup : ∀ {generation},
        pool.activeGenerations.lookup route.routeId = some generation →
        (pool.settle key state₁).runtime.lookup (route.routeId, generation) =
          (pool.setRuntime key state₁).runtime.lookup (route.routeId, generation) := by
      intro generation hactive
      rw [lookup_settle_active hactive, lookup_setRuntime]
    constructor
    · intro he
      refine he.transfer hw hc hb₁.wired hb₁.counted ⟨hs.routes, hs.byProvider, hs.actives⟩
        (fun _ ↦ le_rfl) fun generation old new hactive hold hnew ↦ ?_
      rw [hlookup hactive] at hnew
      obtain rfl := Option.some.inj (hnew.symm.trans hold)
      exact ⟨le_rfl, id⟩
    · intro he
      refine he.transfer hb₁.wired hb₁.counted hw hc
        ⟨hs.routes.symm, hs.byProvider.symm, hs.actives.symm⟩
        (fun _ ↦ le_rfl) fun generation old new hactive hold hnew ↦ ?_
      rw [hs.actives] at hactive
      rw [hlookup hactive] at hold
      obtain rfl := Option.some.inj (hnew.symm.trans hold)
      exact ⟨le_rfl, id⟩
  rw [hasAvailable_iff hw hc, hasAvailable_iff hb₂.wired hb₂.counted]
  refine exists_congr fun route ↦ and_congr_left fun hother ↦ (hpruned route).trans ?_
  constructor
  · exact eligible_settle_other h hstate h₁ h₂ hother
  · exact eligible_settle_other h hstate h₂ h₁ hother

end Settled

/-! ## What a failure does to the cooldown -/

/-- Another route could serve the model of a lease that is given back. -/
def HasSibling (pool : RoutePool) (lease : RouteLease) (now : ℚ) : Prop :=
  (pool.release lease).hasAvailable lease.route.provider lease.modelId now lease.route.routeId =
    .ok true

theorem recordFailure_sibling (h : Balanced pool leases)
    (hstate : pool.runtime.lookup lease.key = some state) (statusCode : ℤ) (now : ℚ) :
    ∃ hasSibling, (hasSibling = true ↔ HasSibling pool lease now) ∧
      pool.recordFailure lease statusCode now =
        .ok (pool.settle lease.key (state.affect statusCode now hasSibling)) := by
  obtain ⟨hasSibling, hok, hrecord⟩ := recordFailure_spec h.wired h.counted hstate statusCode now
  refine ⟨hasSibling, ?_, hrecord⟩
  have hsibling : (pool.setRuntime lease.key (state.fail statusCode).worsen).hasAvailable
      lease.route.provider lease.modelId now lease.key.1 = .ok true ↔
      (pool.settle lease.key { state with inflight := state.inflight - 1 }).hasAvailable
        lease.route.provider lease.modelId now lease.key.1 = .ok true :=
    hasAvailable_setRuntime h hstate rfl rfl
  unfold HasSibling
  rw [release_eq_settle hstate]
  refine Iff.trans ?_ hsibling
  change _ ↔ (pool.setRuntime lease.key (state.fail statusCode).worsen).hasAvailable
    lease.route.provider lease.modelId now lease.route.routeId = .ok true
  rw [hok, Except.ok.injEq]

/-- The cooldown of a generation after a failure. -/
theorem cooldownUntil_affect (state : RouteRuntime) (statusCode : ℤ) (now : ℚ)
    (hasSibling : Bool) : (state.affect statusCode now hasSibling).cooldownUntil =
      if statusCode ∈ [401, 402, 403] then now + authCooldownSeconds
      else if statusCode = 404 then if hasSibling then now + failureCooldownSeconds else 0
      else if statusCode = 429 then if hasSibling then now + throttleCooldownSeconds else 0
      else if statusCode = 0 ∨ 500 ≤ statusCode then
        if hasSibling ∧ 0 < state.consecutiveFailures then now + failureCooldownSeconds else 0
      else state.cooldownUntil := by
  unfold RouteRuntime.affect
  by_cases hrequest : isRequestError statusCode = true
  · have hcode : statusCode = 400 ∨ statusCode = 405 ∨ statusCode = 409 ∨ statusCode = 422 := by
      simpa [isRequestError] using hrequest
    have hauth : statusCode ∉ [401, 402, 403] := by
      simp only [List.mem_cons, List.not_mem_nil, or_false]
      omega
    rw [if_pos hrequest, if_neg hauth, if_neg (by omega), if_neg (by omega), if_neg (by omega)]
    rfl
  · have hagain : (hasSibling && decide (2 ≤ (state.fail statusCode).worsen.consecutiveFailures)) =
        true ↔ hasSibling = true ∧ 0 < state.consecutiveFailures := by
      rw [Bool.and_eq_true, decide_eq_true_eq]
      exact and_congr_right fun _ ↦ Nat.succ_le_succ_iff
    rw [if_neg hrequest]
    unfold RouteRuntime.penalize
    by_cases hauth : statusCode ∈ [401, 402, 403]
    · simp only [if_pos hauth]
    simp only [if_neg hauth]
    by_cases hmissing : statusCode = 404
    · simp only [if_pos hmissing]
    simp only [if_neg hmissing]
    by_cases hthrottled : statusCode = 429
    · simp only [if_pos hthrottled]
    simp only [if_neg hthrottled]
    by_cases hserver : statusCode = 0 ∨ 500 ≤ statusCode
    · simp only [if_pos hserver]
      exact if_congr hagain rfl rfl
    · simp only [if_neg hserver]
      rfl

/-- A failure leaves the route cooling, if it was not. -/
def Cools (pool : RoutePool) (lease : RouteLease) (statusCode : ℤ) (now : ℚ) : Prop :=
  (statusCode = 404 ∨ statusCode = 429 ∨ statusCode = 0 ∨ 500 ≤ statusCode) ∧
    (now < 0 ∨ HasSibling pool lease now ∧ (statusCode = 404 ∨ statusCode = 429 ∨
      ∃ state, pool.runtime.lookup lease.key = some state ∧ 0 < state.consecutiveFailures))

/-- The cooldown after a failure that is not about the credential. -/
theorem cooling_iff (hstate : pool.runtime.lookup lease.key = some state) {statusCode : ℤ}
    (hcode : statusCode ∉ [401, 402, 403]) {hasSibling : Bool}
    (hsibling : hasSibling = true ↔ HasSibling pool lease now) (hcooled : state.cooldownUntil ≤ now) :
    now < (state.affect statusCode now hasSibling).cooldownUntil ↔
      Cools pool lease statusCode now := by
  have hfailures : (∃ state, pool.runtime.lookup lease.key = some state ∧
      0 < state.consecutiveFailures) ↔ 0 < state.consecutiveFailures := by
    simp [hstate]
  unfold Cools
  rw [hfailures, ← hsibling, cooldownUntil_affect, if_neg hcode]
  have hlater : now < now + failureCooldownSeconds := lt_add_of_pos_right _ (by decide)
  have hlater' : now < now + throttleCooldownSeconds := lt_add_of_pos_right _ (by decide)
  split_ifs with hmissing hsib hthrottled hsib hserver hagain
  · simp [hmissing, hsib, hlater]
  · simp [hmissing, hsib]
  · simp [hthrottled, hsib, hlater']
  · simp [hthrottled, hsib]
  · simp [hserver, hagain, hlater]
  · simp [hserver, hmissing, hthrottled, hagain]
  · simp [hserver, hmissing, hthrottled, hcooled]

/-! ## The last route -/

/-- Every model that the route of a lease can serve can be served without it. -/
def Replaceable (lower : String → String) (pool : RoutePool) (lease : RouteLease) (now : ℚ) : Prop :=
  ∀ name modelId route, Eligible pool (canonicalProvider lower name) modelId now route →
    route.routeId = lease.route.routeId →
    ∃ other, Eligible (pool.release lease) (canonicalProvider lower name) modelId now other ∧
      other.routeId ≠ lease.route.routeId

/-- Whatever could be served before can be served after. -/
def KeepsServing (lower : String → String) (pool pool' : RoutePool) (now : ℚ) : Prop :=
  ∀ name modelId, pool.isAvailable lower name modelId now = .ok true →
    pool'.isAvailable lower name modelId now = .ok true

theorem Eligible.cooled (hw : Wired pool) (hc : Counted pool leases)
    (he : Eligible pool provider modelId now route) {generation : ℕ}
    (hactive : pool.activeGenerations.lookup route.routeId = some generation)
    (hstate : pool.runtime.lookup (route.routeId, generation) = some state) :
    state.cooldownUntil ≤ now :=
  ((isEligible_iff hw hc he.2.1 hactive hstate).mp he.2.2.2.2).cooled

section Failure

variable {statusCode : ℤ} {hasSibling : Bool} (h : Balanced pool leases)
  (hstate : pool.runtime.lookup lease.key = some state) (hcode : statusCode ∉ [401, 402, 403])
  (hsibling : hasSibling = true ↔ HasSibling pool lease now)

include h hstate hcode hsibling

theorem replaceable_of_keepsServing (hcools : Cools pool lease statusCode now)
    (hused : pool.isRetired lease.key ≠ true)
    (hkeeps : KeepsServing lower pool
      (pool.settle lease.key (state.affect statusCode now hasSibling)) now) :
    Replaceable lower pool lease now := by
  intro name modelId route he hid
  have hinflight := inflight_affect state statusCode now hasSibling
  have hbalanced := balanced_dropLease h hstate hinflight
  have hactive : pool.activeGenerations.lookup lease.route.routeId = some lease.generation :=
    not_not.mp fun hne ↦ hused (isRetired_iff.mpr hne)
  have havailable := hkeeps name modelId ((isAvailable_iff h.wired h.counted).mpr ⟨route, he⟩)
  obtain ⟨other, hother⟩ := (isAvailable_iff hbalanced.wired hbalanced.counted).mp havailable
  -- The route of the lease is cooling, so it is another one that is available.
  have hne : other.routeId ≠ lease.route.routeId := by
    intro hsame
    have hcooled : state.cooldownUntil ≤ now :=
      he.cooled h.wired h.counted (by rwa [hid]) (by rw [hid]; exact hstate)
    have hcooling := (cooling_iff hstate hcode hsibling hcooled).mpr hcools
    have hnew : (pool.settle lease.key (state.affect statusCode now hasSibling)).runtime.lookup
        lease.key = some (state.affect statusCode now hasSibling) := by
      rw [lookup_settle_active hactive, if_pos rfl]
    have hle := hother.cooled hbalanced.wired hbalanced.counted
      (by rw [hsame, (sameCatalog_settle _ _ _).actives]; exact hactive) (by rw [hsame]; exact hnew)
    exact hcooling.not_ge hle
  refine ⟨other, ?_, hne⟩
  rw [release_eq_settle hstate]
  exact eligible_settle_other h hstate hinflight rfl hne hother

theorem keepsServing_of_condition (hcond : ¬ Cools pool lease statusCode now ∨
      pool.isRetired lease.key = true ∨ Replaceable lower pool lease now) :
    KeepsServing lower pool
      (pool.settle lease.key (state.affect statusCode now hasSibling)) now := by
  intro name modelId havailable
  have hinflight := inflight_affect state statusCode now hasSibling
  have hbalanced := balanced_dropLease h hstate hinflight
  obtain ⟨route, he⟩ := (isAvailable_iff h.wired h.counted).mp havailable
  apply (isAvailable_iff hbalanced.wired hbalanced.counted).mpr
  by_cases hid : route.routeId = lease.route.routeId
  · rcases hcond with hcool | hretired | hreplaceable
    · refine ⟨route, eligible_settle h hstate hinflight (fun _ _ hcooled ↦ ?_) he⟩
      exact not_lt.mp (mt (cooling_iff hstate hcode hsibling hcooled).mp hcool)
    · refine ⟨route, eligible_settle h hstate hinflight (fun _ hused _ ↦ ?_) he⟩
      rw [hretired] at hused
      cases hused
    · obtain ⟨other, hother, hne⟩ := hreplaceable name modelId route he hid
      rw [release_eq_settle hstate] at hother
      exact ⟨other, eligible_settle_other h hstate rfl hinflight hne hother⟩
  · exact ⟨route, eligible_settle h hstate hinflight (fun hsame ↦ absurd hsame hid) he⟩

end Failure

/-- A failure that is not about the credential takes away the last route of a model
exactly when the failed route cools down and no other route serves that model. -/
theorem keepsServing_iff (hs : Visited lower s) (lease : RouteLease) {statusCode : ℤ}
    (hcode : statusCode ∉ [401, 402, 403]) (now : ℚ) :
    ∃ pool', s.pool.recordFailure lease statusCode now = .ok pool' ∧
      (KeepsServing lower s.pool pool' now ↔ ¬ Cools s.pool lease statusCode now ∨
        s.pool.isRetired lease.key = true ∨ Replaceable lower s.pool lease now) := by
  obtain ⟨leases, h⟩ := hs.balanced
  cases hstate : s.pool.runtime.lookup lease.key with
  | none =>
      have hretired : s.pool.isRetired lease.key = true := by
        refine isRetired_iff.mpr fun hactive ↦ ?_
        obtain ⟨state, hsome⟩ := Dict.mem_iff_lookup.mp (h.wired.mem_runtime hactive)
        cases hstate.symm.trans hsome
      refine ⟨s.pool, recordFailure_none hstate statusCode now, ?_⟩
      constructor
      · exact fun _ ↦ .inr (.inl hretired)
      · exact fun _ _ _ havailable ↦ havailable
  | some state =>
      obtain ⟨hasSibling, hsibling, hrecord⟩ := recordFailure_sibling h hstate statusCode now
      refine ⟨_, hrecord, ?_⟩
      constructor
      · intro hkeeps
        by_cases hcools : Cools s.pool lease statusCode now
        · by_cases hretired : s.pool.isRetired lease.key = true
          · exact .inr (.inl hretired)
          · exact .inr (.inr (replaceable_of_keepsServing h hstate hcode hsibling hcools hretired hkeeps))
        · exact .inl hcools
      · exact keepsServing_of_condition h hstate hcode hsibling

/-! ## A route for some of the models -/

/-- One route serves every model, the other serves `x` only. -/
def partialRoutes : List ProviderRoute :=
  [{ routeId := "openai:a", provider := "openai" },
    { routeId := "openai:b", provider := "openai", allowedModels := {"x"} }]

/-- The lease of the first route, for the model that the second serves as well. -/
def firstLease : RouteLease := ⟨{ routeId := "openai:a", provider := "openai" }, "x", 0, 1⟩

/-- The first route has been leased. -/
def partialRun : Except PoolError System :=
  [Action.replace partialRoutes, .acquire "openai" "x" 0 0].foldlM (System.perform fun s ↦ s) {}

theorem visited_foldlM {actions : List Action} (hs : Visited lower s)
    (h : actions.foldlM (System.perform lower) s = .ok s') : Visited lower s' := by
  induction actions generalizing s with
  | nil =>
      cases h
      exact hs
  | cons a actions ih =>
      rw [List.foldlM_cons] at h
      obtain ⟨s₁, h₁, h⟩ := bind_ok_iff.mp h
      exact ih (.perform s s₁ a hs h₁) h

/-- What a run has led to. -/
theorem ok_of_map {α β : Type} {x : Except PoolError α} {f : α → β} {b : β}
    (h : x.map f = .ok b) : ∃ a, x = .ok a ∧ f a = b := by
  cases x with
  | error e => cases h
  | ok a => exact ⟨a, rfl, Except.ok.inj h⟩

/-- After a `404` for `x` the model `y` has no route any more. -/
theorem lost_partialRun : ∃ s, Visited (fun s ↦ s) s ∧ ∃ lease ∈ s.leases, ∃ pool',
    s.pool.recordFailure lease 404 0 = .ok pool' ∧
    s.pool.isAvailable (fun s ↦ s) "openai" "y" 0 = .ok true ∧
    pool'.isAvailable (fun s ↦ s) "openai" "y" 0 = .ok false := by
  have hrun : partialRun.map (fun s ↦ (s.leases,
      s.pool.isAvailable (fun s ↦ s) "openai" "y" 0,
      s.leases.map fun lease ↦ s.pool.recordFailure lease 404 0 >>= fun pool' ↦
        pool'.isAvailable (fun s ↦ s) "openai" "y" 0)) =
      .ok ([firstLease], .ok true, [.ok false]) := by decide +kernel
  obtain ⟨s, hs, h⟩ := ok_of_map hrun
  simp only [Prod.mk.injEq] at h
  obtain ⟨hleases, hbefore, hafter⟩ := h
  rw [hleases, List.map_singleton, List.cons.injEq] at hafter
  obtain ⟨pool', hpool', hlost⟩ := bind_ok_iff.mp hafter.1
  refine ⟨s, visited_foldlM .start hs, _, ?_, pool', hpool', hbefore, hlost⟩
  rw [hleases]
  exact List.mem_singleton_self _

/-- A first server error leaves the route in use. -/
theorem kept_partialRun : ∃ s, partialRun = .ok s ∧ ∃ lease ∈ s.leases, ∃ pool',
    s.pool.recordFailure lease 500 0 = .ok pool' ∧ KeepsServing (fun s ↦ s) s.pool pool' 0 := by
  have hrun : partialRun.map (fun s ↦ (s.leases,
      (s.pool.runtime.lookup ("openai:a", 1)).map RouteRuntime.consecutiveFailures)) =
      .ok ([firstLease], some 0) := by decide +kernel
  obtain ⟨s, hs, h⟩ := ok_of_map hrun
  simp only [Prod.mk.injEq] at h
  obtain ⟨hleases, hfailures⟩ := h
  obtain ⟨pool', hpool', hiff⟩ :=
    keepsServing_iff (visited_foldlM .start hs) firstLease (by decide : (500 : ℤ) ∉ [401, 402, 403]) 0
  refine ⟨s, hs, firstLease, ?_, pool', hpool', hiff.mpr (.inl ?_)⟩
  · rw [hleases]
    exact List.mem_singleton_self _
  · rintro ⟨-, hnegative | ⟨-, hcode | hcode | ⟨state, hstate, hpos⟩⟩⟩
    · exact absurd hnegative (by decide)
    · exact absurd hcode (by decide)
    · exact absurd hcode (by decide)
    · have hzero : (s.pool.runtime.lookup firstLease.key).map RouteRuntime.consecutiveFailures =
          some 0 := hfailures
      rw [hstate, Option.map_some, Option.some.injEq] at hzero
      omega

end AxonGateway.Providers
