import AxonGateway.Providers.Routes

/-!
# Leases and the load of the pool

The requests in flight that a pool records for a generation are the leases of
that generation that have not been settled, through every replacement of the
catalog.
-/

namespace AxonGateway.Providers

variable {pool pool' : RoutePool} {leases : List RouteLease} {lease : RouteLease}
  {key : GenerationKey} {route : ProviderRoute} {state : RouteRuntime}

/-! ## Lookups that succeed -/

section Lookups

variable {K V α β : Type} [DecidableEq K]

theorem getItem_ok_iff {d : Dict K V} {k : K} {v : V} :
    getItem d k = .ok v ↔ d.lookup k = some v := by
  unfold getItem
  cases d.lookup k <;> simp

theorem bind_ok_iff {x : Except PoolError α} {f : α → Except PoolError β} {b : β} :
    (x >>= f) = .ok b ↔ ∃ a, x = .ok a ∧ f a = .ok b := by
  cases x with
  | error e =>
      constructor
      · rintro ⟨⟩
      · rintro ⟨_, ⟨⟩, _⟩
  | ok a =>
      constructor
      · exact fun h ↦ ⟨a, rfl, h⟩
      · rintro ⟨_, ⟨⟩, h⟩
        exact h

theorem collectM_ok {f : α → Except PoolError β} {l : List α} (h : ∀ a ∈ l, ∃ b, f a = .ok b) :
    ∃ bs, collectM f l = .ok bs ∧ List.Forall₂ (fun a b ↦ f a = .ok b) l bs := by
  induction l with
  | nil => exact ⟨[], rfl, .nil⟩
  | cons a l ih =>
      obtain ⟨b, hb⟩ := h a List.mem_cons_self
      obtain ⟨bs, hbs, hall⟩ := ih fun a' ha' ↦ h a' (List.mem_cons_of_mem a ha')
      refine ⟨b :: bs, ?_, .cons hb hall⟩
      rw [collectM, hb, hbs]
      rfl

theorem mem_iff_of_forall₂ {f : α → Except PoolError β} {l : List α} {bs : List β}
    (h : List.Forall₂ (fun a b ↦ f a = .ok b) l bs) (b : β) : b ∈ bs ↔ ∃ a ∈ l, f a = .ok b := by
  induction h with
  | nil => simp
  | cons hab _ ih =>
      rw [List.mem_cons, ih, List.exists_mem_cons_iff, hab, Except.ok.injEq, eq_comm]

theorem keepM_ok {f : α → Except PoolError Bool} {l : List α} (h : ∀ a ∈ l, ∃ b, f a = .ok b) :
    ∃ kept, keepM f l = .ok kept ∧ ∀ a, a ∈ kept ↔ a ∈ l ∧ f a = .ok true := by
  induction l with
  | nil => exact ⟨[], rfl, by simp⟩
  | cons a l ih =>
      obtain ⟨b, hb⟩ := h a List.mem_cons_self
      obtain ⟨kept, hkept, hmem⟩ := ih fun a' ha' ↦ h a' (List.mem_cons_of_mem a ha')
      refine ⟨if b then a :: kept else kept, ?_, fun a' ↦ ?_⟩
      · rw [keepM, hb, hkept]
        rfl
      · cases b with
        | true =>
            simp only [if_true, List.mem_cons, hmem]
            constructor
            · rintro (rfl | ⟨hl, hf⟩)
              · exact ⟨.inl rfl, hb⟩
              · exact ⟨.inr hl, hf⟩
            · rintro ⟨rfl | hl, hf⟩
              · exact .inl rfl
              · exact .inr ⟨hl, hf⟩
        | false =>
            simp only [Bool.false_eq_true, if_false, List.mem_cons, hmem]
            constructor
            · exact fun ⟨hl, hf⟩ ↦ ⟨.inr hl, hf⟩
            · rintro ⟨rfl | hl, hf⟩
              · rw [hb] at hf
                cases hf
              · exact ⟨hl, hf⟩

/-- Weighted choice among candidates always chooses one of them. -/
theorem choices_mem {population : List α} {weights : List ℚ} {random : ℚ} (hne : population ≠ [])
    (hlength : weights.length = population.length) :
    ∃ a ∈ population, choices population weights random = some a := by
  have hpos : 0 < population.length := List.length_pos_iff.mpr hne
  have hlt : ((weights.scanl (· + ·) 0).tail.dropLast).countP
      (fun c ↦ decide (c ≤ random * weights.sum)) < population.length := by
    refine lt_of_le_of_lt List.countP_le_length ?_
    rw [List.length_dropLast, List.length_tail, List.length_scanl]
    omega
  exact ⟨_, List.getElem_mem hlt, List.getElem?_eq_getElem hlt⟩

end Lookups

/-! ## The invariant -/

/-- The leases of a generation that have not been settled. -/
def unsettled (leases : List RouteLease) (key : GenerationKey) : ℕ :=
  leases.countP fun lease ↦ lease.key = key

/-- Every name that the pool uses can be looked up. -/
structure Wired (pool : RoutePool) : Prop where
  generations : ∀ key, key ∈ pool.generationRoutes ↔ key ∈ pool.runtime
  active : ∀ routeId generation, pool.activeGenerations.lookup routeId = some generation →
    ∃ route, pool.routes.lookup routeId = some route ∧
      pool.generationRoutes.lookup (routeId, generation) = some route
  routes : ∀ routeId route, pool.routes.lookup routeId = some route → route.routeId = routeId ∧
    pool.fingerprints.lookup routeId = some route.fingerprint ∧
    ∃ generation, pool.activeGenerations.lookup routeId = some generation
  providers : ∀ provider, ∀ routeId ∈ (pool.byProvider.lookup provider).getD [],
    ∃ route, pool.routes.lookup routeId = some route ∧ route.provider = provider

/-- What is in flight is what is leased. -/
structure Counted (pool : RoutePool) (leases : List RouteLease) : Prop where
  inflight : ∀ key state, pool.runtime.lookup key = some state →
    state.inflight = unsettled leases key
  leased : ∀ lease ∈ leases, ∃ route, pool.generationRoutes.lookup lease.key = some route ∧
    route.capacityGroup = lease.route.capacityGroup
  numbered : ∀ key ∈ pool.runtime, ∃ last, pool.lastGenerations.lookup key.1 = some last ∧
    key.2 ≤ last

/-- Retired generations are there for their leases only. -/
def Pruned (pool : RoutePool) (leases : List RouteLease) : Prop :=
  ∀ key ∈ pool.runtime, pool.isRetired key = true → 0 < unsettled leases key

theorem isRetired_iff :
    pool.isRetired key = true ↔ pool.activeGenerations.lookup key.1 ≠ some key.2 := by
  simp [RoutePool.isRetired]

theorem unsettled_pos (h : lease ∈ leases) : 0 < unsettled leases lease.key :=
  List.countP_pos_iff.mpr ⟨lease, h, by simp⟩

theorem unsettled_cons (lease : RouteLease) (leases : List RouteLease) (key : GenerationKey) :
    unsettled (lease :: leases) key =
      unsettled leases key + if lease.key = key then 1 else 0 := by
  simp only [unsettled, List.countP_cons, decide_eq_true_eq]

theorem unsettled_erase (h : lease ∈ leases) (key : GenerationKey) :
    unsettled (leases.erase lease) key =
      unsettled leases key - if lease.key = key then 1 else 0 := by
  simp only [unsettled, List.countP_erase, h, true_and, decide_eq_true_eq]

theorem Wired.mem_runtime (h : Wired pool) {routeId : String} {generation : ℕ}
    (hactive : pool.activeGenerations.lookup routeId = some generation) :
    (routeId, generation) ∈ pool.runtime := by
  obtain ⟨route, -, hroute⟩ := h.active routeId generation hactive
  exact (h.generations _).mp (Dict.mem_iff_lookup.mpr ⟨route, hroute⟩)

theorem Wired.activeState_ok (h : Wired pool) (hroute : pool.routes.lookup route.routeId = some route) :
    ∃ generation state, pool.activeGenerations.lookup route.routeId = some generation ∧
      pool.runtime.lookup (route.routeId, generation) = some state ∧
      pool.activeState route.routeId = .ok state := by
  obtain ⟨-, -, generation, hactive⟩ := h.routes _ route hroute
  obtain ⟨state, hstate⟩ := Dict.mem_iff_lookup.mp (h.mem_runtime hactive)
  refine ⟨generation, state, hactive, hstate, ?_⟩
  exact bind_ok_iff.mpr ⟨generation, getItem_ok_iff.mpr hactive, getItem_ok_iff.mpr hstate⟩

/-- A capacity group has in flight what is leased from its routes. -/
theorem groupInflight_ok (hw : Wired pool) (hc : Counted pool leases) (group : String) :
    pool.groupInflight group =
      .ok (leases.countP fun lease ↦ lease.route.capacityGroup == group) := by
  obtain ⟨states, hstates, hall⟩ := collectM_ok
    (f := fun e : Sigma fun _ : GenerationKey ↦ ProviderRoute ↦ getItem pool.runtime e.1)
    (l := pool.generationRoutes.entries.filter fun e ↦ e.2.capacityGroup == group) (by
      rintro ⟨key, route⟩ hmem
      have hkey : key ∈ pool.generationRoutes := Dict.mem_iff_lookup.mpr
        ⟨route, Dict.mem_entries_iff.mp (List.mem_filter.mp hmem).1⟩
      obtain ⟨state, hstate⟩ := Dict.mem_iff_lookup.mp ((hw.generations key).mp hkey)
      exact ⟨state, getItem_ok_iff.mpr hstate⟩)
  have hload : states.map RouteRuntime.inflight =
      (pool.generationRoutes.entries.filter fun e ↦ e.2.capacityGroup == group).map
        fun e ↦ unsettled leases e.1 := by
    clear hstates
    generalize pool.generationRoutes.entries.filter (fun e ↦ e.2.capacityGroup == group) = es at hall
    induction hall with
    | nil => rfl
    | cons hstate _ ih =>
        rw [List.map_cons, List.map_cons, ih, hc.inflight _ _ (getItem_ok_iff.mp hstate)]
  refine bind_ok_iff.mpr ⟨states, hstates, ?_⟩
  rw [hload]
  have hsum := Dict.sum_countP_entries pool.generationRoutes RouteLease.key
    (fun route ↦ route.capacityGroup == group) leases
  refine congrArg Except.ok (hsum.trans (List.countP_congr fun lease hlease ↦ ?_))
  obtain ⟨route, hroute, hgroup⟩ := hc.leased lease hlease
  rw [hroute, Option.any_some, hgroup]

theorem isEligible_ok (hw : Wired pool) (hc : Counted pool leases) (now : ℚ)
    (hroute : pool.routes.lookup route.routeId = some route) :
    ∃ b, pool.isEligible now route = .ok b := by
  obtain ⟨-, state, -, -, hstate⟩ := hw.activeState_ok hroute
  unfold RoutePool.isEligible
  rw [hstate, groupInflight_ok hw hc]
  change ∃ b, (if now < state.cooldownUntil then (.ok false : Except PoolError Bool) else _) = .ok b
  split_ifs <;> exact ⟨_, rfl⟩

/-- An eligible route is not cooling and has capacity left. -/
theorem eligible_spec (hw : Wired pool) (hc : Counted pool leases) {now : ℚ}
    (hroute : pool.routes.lookup route.routeId = some route)
    (h : pool.isEligible now route = .ok true) {generation : ℕ}
    (hactive : pool.activeGenerations.lookup route.routeId = some generation) :
    (∃ state, pool.activeState route.routeId = .ok state ∧ state.cooldownUntil ≤ now) ∧
      unsettled leases (route.routeId, generation) < route.maxConcurrency ∧
      (route.capacityGroup ≠ "" → route.capacityLimit ≠ 0 →
        leases.countP (fun lease ↦ lease.route.capacityGroup == route.capacityGroup) <
          route.capacityLimit) := by
  obtain ⟨generation', state, hactive', hruntime, hstate⟩ := hw.activeState_ok hroute
  obtain rfl : generation' = generation := Option.some.inj (hactive'.symm.trans hactive)
  have hinflight := hc.inflight _ _ hruntime
  unfold RoutePool.isEligible at h
  rw [hstate, groupInflight_ok hw hc] at h
  change (if now < state.cooldownUntil then (.ok false : Except PoolError Bool) else
    if route.maxConcurrency ≤ state.inflight then .ok false else
    if route.capacityGroup ≠ "" ∧ route.capacityLimit ≠ 0 then
      .ok (decide (leases.countP (fun lease ↦ lease.route.capacityGroup == route.capacityGroup) <
        route.capacityLimit)) else .ok true) = .ok true at h
  split_ifs at h with hcooling hfull hgroup
  · cases h
  · cases h
  · refine ⟨⟨state, hstate, not_lt.mp hcooling⟩, by omega, fun _ _ ↦ ?_⟩
    exact of_decide_eq_true (Except.ok.inj h)
  · refine ⟨⟨state, hstate, not_lt.mp hcooling⟩, by omega, fun hg hl ↦ absurd ⟨hg, hl⟩ hgroup⟩

/-! ## Settlement -/

theorem mem_setRuntime (hkey : key ∈ pool.runtime) (key' : GenerationKey) :
    key' ∈ (pool.setRuntime key state).runtime ↔ key' ∈ pool.runtime := by
  change key' ∈ pool.runtime.insert key state ↔ _
  rw [AList.mem_insert]
  constructor
  · rintro (rfl | h)
    · exact hkey
    · exact h
  · exact .inr

theorem Wired.setRuntime (h : Wired pool) (hkey : key ∈ pool.runtime) (state : RouteRuntime) :
    Wired (pool.setRuntime key state) := by
  refine ⟨fun key' ↦ ?_, h.active, h.routes, h.providers⟩
  rw [mem_setRuntime hkey]
  exact h.generations key'

/-- Retired generations may go. -/
theorem Wired.eraseAll (h : Wired pool) {keys : List GenerationKey}
    (hkeys : ∀ key ∈ keys, pool.isRetired key = true) :
    Wired { pool with
      runtime := Dict.eraseAll keys pool.runtime
      generationRoutes := Dict.eraseAll keys pool.generationRoutes } := by
  refine ⟨fun key ↦ ?_, fun routeId generation hactive ↦ ?_, h.routes, h.providers⟩
  · have hgenerations := h.generations key
    rw [Dict.mem_iff_lookup, Dict.mem_iff_lookup] at hgenerations ⊢
    rw [Dict.lookup_eraseAll, Dict.lookup_eraseAll]
    split_ifs with hmem
    · simp
    · exact hgenerations
  · obtain ⟨route, hroute, hgeneration⟩ := h.active routeId generation hactive
    refine ⟨route, hroute, ?_⟩
    have hstays : (routeId, generation) ∉ keys := fun hmem ↦
      isRetired_iff.mp (hkeys _ hmem) hactive
    exact (Dict.lookup_eraseAll _ _ _).trans ((if_neg hstays).trans hgeneration)

/-- Generations without leases may go. -/
theorem Counted.eraseAll (h : Counted pool leases) {keys : List GenerationKey}
    (hkeys : ∀ key ∈ keys, unsettled leases key = 0) :
    Counted { pool with
      runtime := Dict.eraseAll keys pool.runtime
      generationRoutes := Dict.eraseAll keys pool.generationRoutes } leases := by
  have hlookup : ∀ {key state}, (Dict.eraseAll keys pool.runtime).lookup key = some state →
      pool.runtime.lookup key = some state := by
    intro key state hstate
    rw [Dict.lookup_eraseAll] at hstate
    split_ifs at hstate
    exact hstate
  refine ⟨fun key state hstate ↦ h.inflight key state (hlookup hstate), fun lease hlease ↦ ?_,
    fun key hkey ↦ ?_⟩
  · obtain ⟨route, hroute, hgroup⟩ := h.leased lease hlease
    have hstays : lease.key ∉ keys := fun hmem ↦ by
      have hpos := unsettled_pos hlease
      have hzero := hkeys _ hmem
      omega
    exact ⟨route, (Dict.lookup_eraseAll _ _ _).trans ((if_neg hstays).trans hroute), hgroup⟩
  · obtain ⟨state, hstate⟩ := Dict.mem_iff_lookup.mp hkey
    exact h.numbered key (Dict.mem_iff_lookup.mpr ⟨state, hlookup hstate⟩)

/-- The invariant of the pool and the leases that are open. -/
structure Balanced (pool : RoutePool) (leases : List RouteLease) : Prop where
  wired : Wired pool
  counted : Counted pool leases
  pruned : Pruned pool leases

/-- A pool in which at most one retired generation is without leases. -/
theorem balanced_pruneRuntimeKey (hw : Wired pool) (hc : Counted pool leases)
    (hp : ∀ key' ∈ pool.runtime, key' ≠ key → pool.isRetired key' = true →
      0 < unsettled leases key') : Balanced (pool.pruneRuntimeKey key) leases := by
  unfold RoutePool.pruneRuntimeKey
  split_ifs with hactive
  · refine ⟨hw, hc, fun key' hkey' hretired ↦ hp key' hkey' ?_ hretired⟩
    rintro rfl
    exact isRetired_iff.mp hretired hactive
  · cases hstate : pool.runtime.lookup key with
    | none =>
        refine ⟨hw, hc, fun key' hkey' hretired ↦ hp key' hkey' ?_ hretired⟩
        rintro rfl
        obtain ⟨state, hsome⟩ := Dict.mem_iff_lookup.mp hkey'
        rw [hstate] at hsome
        cases hsome
    | some state =>
        have hcount := hc.inflight key state hstate
        dsimp only
        split_ifs with hzero
        · have hkeys : ∀ key' ∈ [key], unsettled leases key' = 0 := by
            intro key' hkey'
            rw [List.mem_singleton.mp hkey']
            omega
          have hretired : ∀ key' ∈ [key], pool.isRetired key' = true := by
            intro key' hkey'
            rw [List.mem_singleton.mp hkey']
            exact isRetired_iff.mpr hactive
          refine ⟨hw.eraseAll hretired, hc.eraseAll hkeys, fun key' hkey' hretired' ↦ ?_⟩
          obtain ⟨hne, hmem⟩ := AList.mem_erase.mp hkey'
          exact hp key' hmem hne hretired'
        · refine ⟨hw, hc, fun key' hkey' hretired ↦ ?_⟩
          rcases eq_or_ne key' key with rfl | hne
          · omega
          · exact hp key' hkey' hne hretired

theorem counted_settle (h : Counted pool leases) (hlease : lease ∈ leases)
    (hstate : pool.runtime.lookup lease.key = some state) {state' : RouteRuntime}
    (hstate' : state'.inflight = state.inflight - 1) :
    Counted (pool.setRuntime lease.key state') (leases.erase lease) := by
  have hkey : lease.key ∈ pool.runtime := Dict.mem_iff_lookup.mpr ⟨state, hstate⟩
  refine ⟨fun key s hs ↦ ?_, fun l hl ↦ h.leased l (List.mem_of_mem_erase hl),
    fun key hmem ↦ h.numbered key ((mem_setRuntime hkey key).mp hmem)⟩
  rw [unsettled_erase hlease]
  have hs' : (if key = lease.key then some state' else pool.runtime.lookup key) = some s :=
    (Dict.lookup_insert_eq _ _ _ _).symm.trans hs
  rcases eq_or_ne key lease.key with rfl | hne
  · rw [if_pos rfl] at hs' ⊢
    obtain rfl := Option.some.inj hs'
    rw [hstate', h.inflight _ _ hstate]
  · rw [if_neg hne] at hs'
    rw [if_neg hne.symm, h.inflight _ _ hs', Nat.sub_zero]

/-- The step lemma for a settlement, whatever it does to the health of the route. -/
theorem balanced_settle (h : Balanced pool leases) (hlease : lease ∈ leases)
    (hstate : pool.runtime.lookup lease.key = some state) {state' : RouteRuntime}
    (hstate' : state'.inflight = state.inflight - 1) :
    Balanced ((pool.setRuntime lease.key state').pruneRuntimeKey lease.key)
      (leases.erase lease) := by
  have hkey : lease.key ∈ pool.runtime := Dict.mem_iff_lookup.mpr ⟨state, hstate⟩
  apply balanced_pruneRuntimeKey (h.wired.setRuntime hkey state')
    (counted_settle h.counted hlease hstate hstate')
  intro key hmem hne hretired
  have hpos := h.pruned key ((mem_setRuntime hkey key).mp hmem) hretired
  rwa [unsettled_erase hlease, if_neg hne.symm, Nat.sub_zero]

theorem Balanced.lookup_lease (h : Balanced pool leases) (hlease : lease ∈ leases) :
    ∃ state, pool.runtime.lookup lease.key = some state := by
  obtain ⟨route, hroute, -⟩ := h.counted.leased lease hlease
  exact Dict.mem_iff_lookup.mp ((h.wired.generations _).mp (Dict.mem_iff_lookup.mpr ⟨route, hroute⟩))

theorem balanced_release (h : Balanced pool leases) (hlease : lease ∈ leases) :
    Balanced (pool.release lease) (leases.erase lease) := by
  obtain ⟨state, hstate⟩ := h.lookup_lease hlease
  unfold RoutePool.release
  rw [hstate]
  exact balanced_settle h hlease hstate rfl

theorem balanced_recordSuccess (h : Balanced pool leases) (hlease : lease ∈ leases) (latencyMs : ℚ)
    (outputTokens : ℤ) :
    Balanced (pool.recordSuccess lease latencyMs outputTokens) (leases.erase lease) := by
  obtain ⟨state, hstate⟩ := h.lookup_lease hlease
  unfold RoutePool.recordSuccess
  rw [hstate]
  exact balanced_settle h hlease hstate rfl

theorem inflight_penalize (state : RouteRuntime) (statusCode : ℤ) (now : ℚ) (hasSibling : Bool) :
    (state.penalize statusCode now hasSibling).inflight = state.inflight := by
  unfold RouteRuntime.penalize
  split_ifs <;> rfl

theorem configured_ok (hw : Wired pool) (ids : List String)
    (hids : ∀ routeId ∈ ids, ∃ route, pool.routes.lookup routeId = some route) :
    ∃ routes, collectM (getItem pool.routes) ids = .ok routes ∧ ∀ route, route ∈ routes ↔
      pool.routes.lookup route.routeId = some route ∧ route.routeId ∈ ids := by
  obtain ⟨routes, hroutes, hall⟩ := collectM_ok (f := getItem pool.routes) fun routeId hid ↦
    (hids routeId hid).imp fun _ ↦ getItem_ok_iff.mpr
  refine ⟨routes, hroutes, fun route ↦ ?_⟩
  rw [mem_iff_of_forall₂ hall]
  simp only [getItem_ok_iff]
  constructor
  · rintro ⟨routeId, hid, hlookup⟩
    obtain rfl := (hw.routes _ _ hlookup).1
    exact ⟨hlookup, hid⟩
  · rintro ⟨hlookup, hid⟩
    exact ⟨_, hid, hlookup⟩

/-- What is looked up while a failure is recorded is there. -/
theorem hasAvailable_ok (hw : Wired pool) (hc : Counted pool leases) (provider modelId : String) (now : ℚ)
    (excludeRouteId : String) : ∃ b, pool.hasAvailable provider modelId now excludeRouteId = .ok b := by
  obtain ⟨routes, hroutes, hmem⟩ := configured_ok hw
    (((pool.byProvider.lookup provider).getD []).filter (· != excludeRouteId))
    fun routeId hid ↦ (hw.providers provider routeId (List.mem_filter.mp hid).1).imp fun _ h ↦ h.1
  obtain ⟨kept, hkept, -⟩ := keepM_ok (f := pool.isEligible now)
    (l := routes.filter fun route ↦ route.enabled && route.supportsModel modelId)
    fun route hroute ↦ isEligible_ok hw hc now ((hmem route).mp (List.mem_filter.mp hroute).1).1
  exact ⟨!kept.isEmpty, bind_ok_iff.mpr ⟨routes, hroutes, bind_ok_iff.mpr ⟨kept, hkept, rfl⟩⟩⟩

theorem balanced_recordFailure (h : Balanced pool leases) (hlease : lease ∈ leases)
    (statusCode : ℤ) (now : ℚ) : ∃ pool', pool.recordFailure lease statusCode now = .ok pool' ∧
      Balanced pool' (leases.erase lease) := by
  obtain ⟨state, hstate⟩ := h.lookup_lease hlease
  have hkey : lease.key ∈ pool.runtime := Dict.mem_iff_lookup.mpr ⟨state, hstate⟩
  unfold RoutePool.recordFailure
  rw [hstate]
  dsimp only
  split_ifs
  · exact ⟨_, rfl, balanced_settle h hlease hstate rfl⟩
  · have hcounted : Counted (pool.setRuntime lease.key (state.fail statusCode).worsen)
        (leases.erase lease) := counted_settle h.counted hlease hstate rfl
    obtain ⟨hasSibling, hok⟩ := hasAvailable_ok (h.wired.setRuntime hkey _) hcounted
      lease.route.provider lease.modelId now lease.route.routeId
    refine ⟨_, bind_ok_iff.mpr ⟨hasSibling, hok, rfl⟩, ?_⟩
    exact balanced_settle h hlease hstate (inflight_penalize _ _ _ _)

/-! ## Selection -/

/-- The health of some routes has changed but not their load. -/
structure SameLoad (pool pool' : RoutePool) : Prop where
  rest : { pool' with runtime := pool.runtime } = pool
  load : ∀ key, (pool'.runtime.lookup key).map RouteRuntime.inflight =
    (pool.runtime.lookup key).map RouteRuntime.inflight

theorem SameLoad.refl (pool : RoutePool) : SameLoad pool pool := ⟨rfl, fun _ ↦ rfl⟩

theorem SameLoad.trans {pool'' : RoutePool} (h : SameLoad pool pool') (h' : SameLoad pool' pool'') :
    SameLoad pool pool'' := by
  refine ⟨?_, fun key ↦ (h'.load key).trans (h.load key)⟩
  have hrest := h'.rest
  rw [← h.rest, ← hrest]

theorem SameLoad.mem_iff (h : SameLoad pool pool') (key : GenerationKey) :
    key ∈ pool'.runtime ↔ key ∈ pool.runtime := by
  have hload := congrArg Option.isSome (h.load key)
  rw [Option.isSome_map, Option.isSome_map] at hload
  rw [← AList.lookup_isSome, ← AList.lookup_isSome, hload]

theorem sameLoad_setRuntime (hstate : pool.runtime.lookup key = some state) {state' : RouteRuntime}
    (hstate' : state'.inflight = state.inflight) : SameLoad pool (pool.setRuntime key state') := by
  refine ⟨rfl, fun key' ↦ ?_⟩
  have hlookup : (pool.setRuntime key state').runtime.lookup key' =
      if key' = key then some state' else pool.runtime.lookup key' := Dict.lookup_insert_eq _ _ _ _
  rw [hlookup]
  split_ifs with heq
  · rw [heq, hstate, Option.map_some, Option.map_some, hstate']
  · rfl

theorem Balanced.sameLoad (h : Balanced pool leases) (hload : SameLoad pool pool') :
    Balanced pool' leases := by
  obtain ⟨routes, byProvider, runtime, generationRoutes, active, last, fingerprints⟩ := pool
  obtain ⟨routes', byProvider', runtime', generationRoutes', active', last', fingerprints'⟩ := pool'
  have hrest := hload.rest
  simp only [RoutePool.mk.injEq] at hrest
  obtain ⟨rfl, rfl, -, rfl, rfl, rfl, rfl⟩ := hrest
  refine ⟨⟨fun key ↦ ?_, h.wired.active, h.wired.routes, h.wired.providers⟩,
    ⟨fun key state hstate ↦ ?_, h.counted.leased, fun key hkey ↦ ?_⟩, fun key hkey ↦ ?_⟩
  · exact (h.wired.generations key).trans (hload.mem_iff key).symm
  · have hmap := hload.load key
    rw [show runtime'.lookup key = some state from hstate, Option.map_some] at hmap
    obtain ⟨state₀, hstate₀, heq⟩ := Option.map_eq_some_iff.mp hmap.symm
    rw [← heq]
    exact h.counted.inflight key state₀ hstate₀
  · exact h.counted.numbered key ((hload.mem_iff key).mp hkey)
  · exact h.pruned key ((hload.mem_iff key).mp hkey)

theorem recover_ok (hw : Wired pool) (now : ℚ)
    (hroute : pool.routes.lookup route.routeId = some route) :
    ∃ pool', RoutePool.recover now pool route = .ok pool' ∧ SameLoad pool pool' := by
  obtain ⟨generation, state, hactive, hstate, -⟩ := hw.activeState_ok hroute
  refine ⟨_, bind_ok_iff.mpr ⟨generation, getItem_ok_iff.mpr hactive,
    bind_ok_iff.mpr ⟨state, getItem_ok_iff.mpr hstate, rfl⟩⟩, ?_⟩
  split_ifs
  · exact sameLoad_setRuntime hstate rfl
  · exact SameLoad.refl pool

theorem recover_all_ok (h : Balanced pool leases) (now : ℚ) (routes : List ProviderRoute)
    (hroutes : ∀ route ∈ routes, pool.routes.lookup route.routeId = some route) :
    ∃ pool', routes.foldlM (RoutePool.recover now) pool = .ok pool' ∧ SameLoad pool pool' := by
  induction routes generalizing pool with
  | nil => exact ⟨pool, rfl, SameLoad.refl pool⟩
  | cons route routes ih =>
      obtain ⟨pool₁, hpool₁, hload₁⟩ := recover_ok h.wired now (hroutes route List.mem_cons_self)
      have hsame : pool₁.routes = pool.routes := by rw [← hload₁.rest]
      obtain ⟨pool₂, hpool₂, hload₂⟩ := ih (h.sameLoad hload₁) fun r hr ↦ by
        rw [hsame]
        exact hroutes r (List.mem_cons_of_mem _ hr)
      refine ⟨pool₂, ?_, hload₁.trans hload₂⟩
      rw [List.foldlM_cons, hpool₁]
      exact hpool₂

theorem adaptiveWeights_ok (hw : Wired pool) {routes : List ProviderRoute}
    (hroutes : ∀ route ∈ routes, pool.routes.lookup route.routeId = some route) :
    ∃ weights, pool.adaptiveWeights routes = .ok weights ∧ weights.length = routes.length := by
  obtain ⟨states, hstates, hall⟩ := collectM_ok
    (f := fun route : ProviderRoute ↦ pool.activeState route.routeId) fun route hroute ↦ by
      obtain ⟨-, state, -, -, hstate⟩ := hw.activeState_ok (hroutes route hroute)
      exact ⟨state, hstate⟩
  refine ⟨_, bind_ok_iff.mpr ⟨states, hstates, rfl⟩, ?_⟩
  rw [List.length_map, List.length_zip, ← hall.length_eq, Nat.min_self]

/-- The routes from which a request may be served. -/
def Eligible (pool : RoutePool) (provider modelId : String) (now : ℚ) (route : ProviderRoute) :
    Prop :=
  route.routeId ∈ (pool.byProvider.lookup provider).getD [] ∧
    pool.routes.lookup route.routeId = some route ∧ route.enabled = true ∧
    route.supportsModel modelId = true ∧ pool.isEligible now route = .ok true

/-- What a pool promises of the lease that it gives out. -/
structure Granted (pool : RoutePool) (leases : List RouteLease) (provider modelId : String)
    (now : ℚ) (lease : RouteLease) : Prop where
  eligible : Eligible pool provider modelId now lease.route
  provided : lease.route.provider = provider
  active : pool.activeGenerations.lookup lease.route.routeId = some lease.generation
  cooled : ∃ state, pool.activeState lease.route.routeId = .ok state ∧ state.cooldownUntil ≤ now
  least : ∀ route, Eligible pool provider modelId now route → lease.route.priority ≤ route.priority
  concurrency : unsettled (lease :: leases) lease.key ≤ lease.route.maxConcurrency
  group : lease.route.capacityGroup ≠ "" → lease.route.capacityLimit ≠ 0 →
    (lease :: leases).countP (fun l ↦ l.route.capacityGroup == lease.route.capacityGroup) ≤
      lease.route.capacityLimit

theorem mem_candidates {eligible : List ProviderRoute} :
    route ∈ RoutePool.candidates eligible ↔
      route ∈ eligible ∧ ∀ r ∈ eligible, route.priority ≤ r.priority := by
  have hmin : some route.priority = (eligible.map ProviderRoute.priority).min? ↔
      route.priority ∈ eligible.map ProviderRoute.priority ∧
        ∀ r ∈ eligible, route.priority ≤ r.priority := by
    rw [eq_comm, List.min?_eq_some_iff, List.forall_mem_map]
  unfold RoutePool.candidates
  rw [List.mem_filter, decide_eq_true_eq, hmin]
  constructor
  · rintro ⟨hmem, -, hle⟩
    exact ⟨hmem, hle⟩
  · rintro ⟨hmem, hle⟩
    exact ⟨hmem, List.mem_map_of_mem hmem, hle⟩

theorem candidates_ne_nil {eligible : List ProviderRoute} (h : eligible ≠ []) :
    RoutePool.candidates eligible ≠ [] := by
  cases hmin : (eligible.map ProviderRoute.priority).min? with
  | none => exact absurd (List.map_eq_nil_iff.mp (List.min?_eq_none_iff.mp hmin)) h
  | some m =>
      obtain ⟨hm, hle⟩ := List.min?_eq_some_iff.mp hmin
      obtain ⟨route, hroute, rfl⟩ := List.mem_map.mp hm
      refine List.ne_nil_of_mem (mem_candidates.mpr ⟨hroute, fun r hr ↦ ?_⟩)
      exact hle _ (List.mem_map_of_mem hr)

theorem balanced_setRuntime_cons (h : Balanced pool leases)
    (hstate : pool.runtime.lookup lease.key = some state)
    (hroute : pool.generationRoutes.lookup lease.key = some lease.route) {state' : RouteRuntime}
    (hstate' : state'.inflight = state.inflight + 1) :
    Balanced (pool.setRuntime lease.key state') (lease :: leases) := by
  have hkey : lease.key ∈ pool.runtime := Dict.mem_iff_lookup.mpr ⟨state, hstate⟩
  refine ⟨h.wired.setRuntime hkey state', ⟨fun key s hs ↦ ?_, fun l hl ↦ ?_, fun key hmem ↦
    h.counted.numbered key ((mem_setRuntime hkey key).mp hmem)⟩, fun key hmem hretired ↦ ?_⟩
  · have hs' : (if key = lease.key then some state' else pool.runtime.lookup key) = some s :=
      (Dict.lookup_insert_eq _ _ _ _).symm.trans hs
    rw [unsettled_cons]
    rcases eq_or_ne key lease.key with rfl | hne
    · rw [if_pos rfl] at hs' ⊢
      obtain rfl := Option.some.inj hs'
      rw [hstate', h.counted.inflight _ _ hstate]
    · rw [if_neg hne] at hs'
      rw [if_neg hne.symm, h.counted.inflight _ _ hs', Nat.add_zero]
  · rcases List.mem_cons.mp hl with rfl | hl
    · exact ⟨_, hroute, rfl⟩
    · exact h.counted.leased l hl
  · have hpos := h.pruned key ((mem_setRuntime hkey key).mp hmem) hretired
    rw [unsettled_cons]
    omega

theorem reserve_ok (h : Balanced pool leases) {eligible : List ProviderRoute} (hne : eligible ≠ [])
    (heligible : ∀ route ∈ eligible, pool.routes.lookup route.routeId = some route)
    (modelId : String) (now random : ℚ) :
    ∃ lease pool', pool.reserve eligible modelId now random = .ok (lease, pool') ∧
      lease.route ∈ RoutePool.candidates eligible ∧
      pool.activeGenerations.lookup lease.route.routeId = some lease.generation ∧
      Balanced pool' (lease :: leases) := by
  have hcandidates : ∀ route ∈ RoutePool.candidates eligible,
      pool.routes.lookup route.routeId = some route :=
    fun route hroute ↦ heligible route (mem_candidates.mp hroute).1
  obtain ⟨pool₁, hpool₁, hload⟩ := recover_all_ok h now _ hcandidates
  have h₁ := h.sameLoad hload
  have hroutes : pool₁.routes = pool.routes := by rw [← hload.rest]
  have hactives : pool₁.activeGenerations = pool.activeGenerations := by rw [← hload.rest]
  rw [← hroutes] at hcandidates
  obtain ⟨weights, hweights, hlength⟩ := adaptiveWeights_ok h₁.wired hcandidates
  have hchoices : ∃ route ∈ RoutePool.candidates eligible,
      choices (RoutePool.candidates eligible) weights random = some route :=
    choices_mem (candidates_ne_nil hne) hlength
  obtain ⟨route, hroute, hchoice⟩ := hchoices
  obtain ⟨generation, state, hactive, hstate, -⟩ := h₁.wired.activeState_ok (hcandidates _ hroute)
  obtain ⟨route', hroute', hgeneration⟩ := h₁.wired.active _ _ hactive
  obtain rfl : route' = route := Option.some.inj (hroute'.symm.trans (hcandidates _ hroute))
  let lease : RouteLease := ⟨route', modelId, now, generation⟩
  have hlease : pool₁.runtime.lookup lease.key = some state := hstate
  have hbalanced : Balanced (pool₁.setRuntime lease.key (state.select now)) (lease :: leases) :=
    balanced_setRuntime_cons h₁ hlease hgeneration rfl
  refine ⟨lease, _, ?_, hroute, by rwa [← hactives], hbalanced⟩
  refine bind_ok_iff.mpr ⟨pool₁, hpool₁, bind_ok_iff.mpr ⟨weights, hweights, ?_⟩⟩
  rw [hchoice]
  exact bind_ok_iff.mpr ⟨generation, getItem_ok_iff.mpr hactive,
    bind_ok_iff.mpr ⟨state, getItem_ok_iff.mpr hstate, rfl⟩⟩

/-- What can come of an attempt to get a lease: there is none to be had, or one that
keeps what the pool promises. -/
theorem acquire_cases (h : Balanced pool leases) (lower : String → String) (name modelId : String)
    (now random : ℚ) :
    (∃ b, pool.acquire lower name modelId now random =
      .error (.noAvailableRoute (canonicalProvider lower name) b)) ∨
    ∃ lease pool', pool.acquire lower name modelId now random = .ok (lease, pool') ∧
      Granted pool leases (canonicalProvider lower name) modelId now lease ∧
      Balanced pool' (lease :: leases) := by
  have hids := h.wired.providers (canonicalProvider lower name)
  obtain ⟨routes, hroutes, hmem⟩ := configured_ok h.wired _ fun routeId hid ↦
    (hids routeId hid).imp fun _ h ↦ h.1
  obtain ⟨eligible, heligible, hiff⟩ := keepM_ok (f := pool.isEligible now)
    (l := routes.filter fun route ↦ route.enabled && route.supportsModel modelId)
    fun route hroute ↦ isEligible_ok h.wired h.counted now
      ((hmem route).mp (List.mem_filter.mp hroute).1).1
  have hEligible : ∀ route, route ∈ eligible ↔
      Eligible pool (canonicalProvider lower name) modelId now route := by
    intro route
    rw [hiff, List.mem_filter, hmem, Bool.and_eq_true]
    constructor
    · exact fun ⟨⟨⟨hlookup, hid⟩, henabled, hsupports⟩, hok⟩ ↦
        ⟨hid, hlookup, henabled, hsupports, hok⟩
    · exact fun ⟨hid, hlookup, henabled, hsupports, hok⟩ ↦
        ⟨⟨⟨hlookup, hid⟩, henabled, hsupports⟩, hok⟩
  have hacquire : pool.acquire lower name modelId now random =
      if eligible = [] then .error (.noAvailableRoute (canonicalProvider lower name)
        ((routes.filter fun route ↦ route.enabled && route.supportsModel modelId) ≠ []))
      else pool.reserve eligible modelId now random := by
    unfold RoutePool.acquire RoutePool.configured
    dsimp only
    rw [hroutes]
    change (keepM _ _ >>= _) = _
    rw [heligible]
    rfl
  rw [hacquire]
  split_ifs with hnil
  · exact .inl ⟨_, rfl⟩
  · right
    obtain ⟨lease, pool', hok, hcandidate, hactive, hbalanced⟩ := reserve_ok h hnil
      (fun route hroute ↦ ((hEligible route).mp hroute).2.1) modelId now random
    obtain ⟨hin, hleast⟩ := mem_candidates.mp hcandidate
    have hgranted := (hEligible _).mp hin
    obtain ⟨hid, hlookup, -, -, heligible'⟩ := id hgranted
    obtain ⟨hcooled, hconcurrency, hgroup⟩ :=
      eligible_spec h.wired h.counted hlookup heligible' hactive
    refine ⟨lease, pool', hok, ⟨hgranted, ?_, hactive, hcooled, fun route hroute ↦
      hleast route ((hEligible route).mpr hroute), ?_, fun hg hl ↦ ?_⟩, hbalanced⟩
    · obtain ⟨route, hroute, hprovider⟩ := hids _ hid
      obtain rfl : route = lease.route := Option.some.inj (hroute.symm.trans hlookup)
      exact hprovider
    · rw [unsettled_cons, if_pos rfl]
      exact hconcurrency
    · have hlt := hgroup hg hl
      rw [List.countP_cons, if_pos (beq_self_eq_true _)]
      omega

/-! ## Replacement -/

/-- An index of the routes that were read so far. -/
structure Indexed (done : List ProviderRoute)
    (index : Dict String ProviderRoute × Dict String (List String)) : Prop where
  nodup : (done.map ProviderRoute.routeId).Nodup
  routes : ∀ routeId route, index.1.lookup routeId = some route ↔
    route ∈ done ∧ route.routeId = routeId
  providers : ∀ provider, ∀ routeId ∈ (index.2.lookup provider).getD [],
    ∃ route ∈ done, route.routeId = routeId ∧ route.provider = provider

theorem Indexed.insert {done : List ProviderRoute}
    {index : Dict String ProviderRoute × Dict String (List String)} (h : Indexed done index)
    (hnew : route.routeId ∉ index.1) : Indexed (done ++ [route])
      (index.1.insert route.routeId route, index.2.insert route.provider
        ((index.2.lookup route.provider).getD [] ++ [route.routeId])) := by
  have hnotin : ∀ r ∈ done, r.routeId ≠ route.routeId := fun r hr heq ↦
    hnew (Dict.mem_iff_lookup.mpr ⟨r, (h.routes _ _).mpr ⟨hr, heq⟩⟩)
  refine ⟨?_, fun routeId r ↦ ?_, fun provider routeId hid ↦ ?_⟩
  · rw [List.map_append, List.nodup_append]
    refine ⟨h.nodup, by simp, fun id hid id' hid' ↦ ?_⟩
    obtain ⟨r, hr, rfl⟩ := List.mem_map.mp hid
    rw [List.map_singleton, List.mem_singleton] at hid'
    rw [hid']
    exact hnotin r hr
  · rw [Dict.lookup_insert_eq]
    split_ifs with heq
    · rw [heq, List.mem_append, List.mem_singleton, Option.some.injEq]
      constructor
      · rintro rfl
        exact ⟨.inr rfl, rfl⟩
      · rintro ⟨hr | rfl, hid⟩
        · exact absurd hid (hnotin r hr)
        · rfl
    · rw [h.routes, List.mem_append, List.mem_singleton]
      constructor
      · exact fun ⟨hr, hid⟩ ↦ ⟨.inl hr, hid⟩
      · rintro ⟨hr | rfl, hid⟩
        · exact ⟨hr, hid⟩
        · exact absurd hid.symm heq
  · rw [Dict.lookup_insert_eq] at hid
    have hold : ∀ {provider routeId}, routeId ∈ (index.2.lookup provider).getD [] →
        ∃ r ∈ done ++ [route], r.routeId = routeId ∧ r.provider = provider := by
      intro provider routeId hid
      obtain ⟨r, hr, hspec⟩ := h.providers provider routeId hid
      exact ⟨r, List.mem_append_left _ hr, hspec⟩
    split_ifs at hid with heq
    · rw [Option.getD_some, List.mem_append, List.mem_singleton] at hid
      rcases hid with hid | rfl
      · rw [heq]
        exact hold hid
      · exact ⟨route, by simp, rfl, heq.symm⟩
    · exact hold hid

theorem indexed_of_ok {routes : List ProviderRoute}
    {index : Dict String ProviderRoute × Dict String (List String)}
    (h : RoutePool.indexRoutes routes = .ok index) : Indexed routes index := by
  have hfold : ∀ (rest done : List ProviderRoute) start, Indexed done start →
      rest.foldlM (fun index route ↦
        if route.routeId ∈ index.1 then .error (.duplicateRouteId route.routeId)
        else .ok (index.1.insert route.routeId route, index.2.insert route.provider
          ((index.2.lookup route.provider).getD [] ++ [route.routeId]))) start =
        (.ok index : Except PoolError _) → Indexed (done ++ rest) index := by
    intro rest
    induction rest with
    | nil =>
        intro done start hstart hok
        cases hok
        rwa [List.append_nil]
    | cons route rest ih =>
        intro done start hstart hok
        rw [List.foldlM_cons] at hok
        split_ifs at hok with hdup
        · cases hok
        · have happend := ih _ _ (hstart.insert hdup) hok
          rwa [List.append_assoc] at happend
  refine hfold routes [] (∅, ∅) ⟨List.nodup_nil, fun _ _ ↦ ?_, fun _ _ hid ↦ ?_⟩ h
  · simp
  · simp at hid

/-- Some routes have been adopted into the pool. -/
structure Adopting (pool : RoutePool) (leases : List RouteLease) (done : List ProviderRoute)
    (adoption : RoutePool.Adoption) : Prop where
  fingerprints : adoption.pool.fingerprints = pool.fingerprints
  actives : adoption.pool.activeGenerations = pool.activeGenerations
  generations : ∀ key, key ∈ adoption.pool.generationRoutes ↔ key ∈ adoption.pool.runtime
  counted : Counted adoption.pool leases
  others : ∀ routeId generation, routeId ∉ done.map ProviderRoute.routeId →
    adoption.pool.generationRoutes.lookup (routeId, generation) =
      pool.generationRoutes.lookup (routeId, generation)
  adopted : ∀ route ∈ done, adoption.fingerprints.lookup route.routeId = some route.fingerprint ∧
    ∃ generation, adoption.activeGenerations.lookup route.routeId = some generation ∧
      adoption.pool.generationRoutes.lookup (route.routeId, generation) = some route
  only : ∀ routeId generation, adoption.activeGenerations.lookup routeId = some generation →
    ∃ route ∈ done, route.routeId = routeId

section Adoption

variable {done : List ProviderRoute} {adoption : RoutePool.Adoption} {base : RoutePool}
  {generation : ℕ}

/-- A route gets its generation in a pool that has room for it. -/
theorem Adopting.adoptAs (h : Adopting pool leases done adoption)
    (hnew : route.routeId ∉ done.map ProviderRoute.routeId)
    (hbase : base.fingerprints = adoption.pool.fingerprints ∧
      base.activeGenerations = adoption.pool.activeGenerations ∧
      base.generationRoutes = adoption.pool.generationRoutes)
    (hruntime : ∀ key, key ∈ base.runtime ↔
      key = (route.routeId, generation) ∨ key ∈ adoption.pool.runtime)
    (hcounted : Counted base leases)
    (hgroup : ∀ old, adoption.pool.generationRoutes.lookup (route.routeId, generation) = some old →
      old.capacityGroup = route.capacityGroup) :
    Adopting pool leases (done ++ [route])
      (RoutePool.adoptAs adoption base route generation) := by
  obtain ⟨hfingerprints, hactives, hgenerations⟩ := hbase
  have hne : ∀ r ∈ done, r.routeId ≠ route.routeId := fun r hr heq ↦
    hnew (heq ▸ List.mem_map_of_mem hr)
  have hlookup : ∀ key, (RoutePool.adoptAs adoption base route generation).pool.generationRoutes.lookup
      key = if key = (route.routeId, generation) then some route
        else adoption.pool.generationRoutes.lookup key := by
    intro key
    rw [← hgenerations]
    exact Dict.lookup_insert_eq _ _ _ _
  refine ⟨hfingerprints.trans h.fingerprints, hactives.trans h.actives, fun key ↦ ?_,
    ⟨hcounted.inflight, fun lease hlease ↦ ?_, hcounted.numbered⟩, fun routeId g hid ↦ ?_,
    fun r hr ↦ ?_, fun routeId g hg ↦ ?_⟩
  · change key ∈ base.generationRoutes.insert _ _ ↔ key ∈ base.runtime
    rw [AList.mem_insert, hgenerations, h.generations, hruntime]
  · rw [hlookup]
    obtain ⟨old, hold, hsame⟩ := hcounted.leased lease hlease
    rw [hgenerations] at hold
    split_ifs with hkey
    · rw [hkey] at hold
      exact ⟨route, rfl, (hgroup old hold).symm.trans hsame⟩
    · exact ⟨old, hold, hsame⟩
  · rw [hlookup, if_neg, h.others routeId g]
    · exact fun hmem ↦ hid (by rw [List.map_append]; exact List.mem_append_left _ hmem)
    · rintro ⟨⟩
      exact hid (by simp)
  · change (adoption.fingerprints.insert _ _).lookup _ = _ ∧
      ∃ g, (adoption.activeGenerations.insert _ _).lookup _ = some g ∧ _
    rw [Dict.lookup_insert_eq, Dict.lookup_insert_eq]
    rcases List.mem_append.mp hr with hr | hr
    · rw [if_neg (hne r hr), if_neg (hne r hr)]
      obtain ⟨hfp, g, hactive, hgeneration⟩ := h.adopted r hr
      refine ⟨hfp, g, hactive, ?_⟩
      rw [hlookup, if_neg]
      · exact hgeneration
      · intro heq
        exact hne r hr (Prod.mk.inj heq).1
    · obtain rfl := List.mem_singleton.mp hr
      rw [if_pos rfl, if_pos rfl]
      exact ⟨rfl, generation, rfl, by rw [hlookup, if_pos rfl]⟩
  · have hg' : (if routeId = route.routeId then some generation
        else adoption.activeGenerations.lookup routeId) = some g :=
      (Dict.lookup_insert_eq _ _ _ _).symm.trans hg
    split_ifs at hg' with heq
    · exact ⟨route, by simp, heq.symm⟩
    · obtain ⟨r, hr, hid⟩ := h.only routeId g hg'
      exact ⟨r, List.mem_append_left _ hr, hid⟩

theorem Adopting.adopt (hw : Wired pool) (h : Adopting pool leases done adoption)
    (hnew : route.routeId ∉ done.map ProviderRoute.routeId) :
    Adopting pool leases (done ++ [route]) (RoutePool.adopt adoption route) := by
  unfold RoutePool.adopt
  cases hkept : adoption.pool.keptGeneration route with
  | some generation =>
      -- the generation belongs to an old route with the same fingerprint
      have hactive : pool.fingerprints.lookup route.routeId = some route.fingerprint ∧
          pool.activeGenerations.lookup route.routeId = some generation := by
        rw [RoutePool.keptGeneration, h.fingerprints, h.actives] at hkept
        split_ifs at hkept with hfp
        exact ⟨hfp, hkept⟩
      obtain ⟨old, hold, hgeneration⟩ := hw.active _ _ hactive.2
      have hfp := (hw.routes _ _ hold).2.1
      rw [hactive.1, Option.some.injEq] at hfp
      rw [← h.others _ _ hnew] at hgeneration
      have hmem : (route.routeId, generation) ∈ adoption.pool.runtime :=
        (h.generations _).mp (Dict.mem_iff_lookup.mpr ⟨old, hgeneration⟩)
      refine h.adoptAs hnew ⟨rfl, rfl, rfl⟩ (fun key ↦ ?_) h.counted fun old' hold' ↦ ?_
      · constructor
        · exact .inr
        · rintro (rfl | hkey)
          · exact hmem
          · exact hkey
      · obtain rfl : old' = old := Option.some.inj (hold'.symm.trans hgeneration)
        exact (congrArg Fingerprint.capacityGroup hfp).symm
  | none =>
      generalize hnumber : (adoption.pool.lastGenerations.lookup route.routeId).getD 0 + 1 = generation
      -- no generation has that number yet
      have hfresh : (route.routeId, generation) ∉ adoption.pool.runtime := by
        intro hmem
        obtain ⟨last, hlast, hle⟩ := h.counted.numbered _ hmem
        dsimp only at hlast hle
        rw [hlast, Option.getD_some] at hnumber
        omega
      have hnone : unsettled leases (route.routeId, generation) = 0 := by
        refine List.countP_eq_zero.mpr fun lease hlease heq ↦ hfresh ?_
        obtain ⟨old, hold, -⟩ := h.counted.leased lease hlease
        rw [of_decide_eq_true heq] at hold
        exact (h.generations _).mp (Dict.mem_iff_lookup.mpr ⟨old, hold⟩)
      refine h.adoptAs hnew ⟨rfl, rfl, rfl⟩ (fun key ↦ AList.mem_insert _)
        ⟨fun key state hstate ↦ ?_, h.counted.leased, fun key hkey ↦ ?_⟩ fun old hold ↦ ?_
      · have hstate' : (if key = (route.routeId, generation) then some {}
            else adoption.pool.runtime.lookup key) = some state :=
          (Dict.lookup_insert_eq _ _ _ _).symm.trans hstate
        split_ifs at hstate' with heq
        · rw [heq, hnone, ← Option.some.inj hstate']
        · exact h.counted.inflight key state hstate'
      · change ∃ last, (adoption.pool.lastGenerations.insert _ _).lookup _ = some last ∧ _
        rw [Dict.lookup_insert_eq]
        rcases (AList.mem_insert _).mp hkey with rfl | hkey
        · exact ⟨generation, if_pos rfl, le_rfl⟩
        · obtain ⟨last, hlast, hle⟩ := h.counted.numbered key hkey
          split_ifs with heq
          · rw [heq] at hlast
            rw [hlast, Option.getD_some] at hnumber
            exact ⟨generation, rfl, by omega⟩
          · exact ⟨last, hlast, hle⟩
      · exact absurd ((h.generations _).mp (Dict.mem_iff_lookup.mpr ⟨old, hold⟩)) hfresh

theorem adopting_foldl (hw : Wired pool) (h : Adopting pool leases done adoption)
    (routes : List ProviderRoute) (hnodup : ((done ++ routes).map ProviderRoute.routeId).Nodup) :
    Adopting pool leases (done ++ routes) (routes.foldl RoutePool.adopt adoption) := by
  induction routes generalizing done adoption with
  | nil => rwa [List.append_nil]
  | cons route routes ih =>
      have hsplit : done ++ route :: routes = done ++ [route] ++ routes := by simp
      have hnew : route.routeId ∉ done.map ProviderRoute.routeId := by
        intro hmem
        rw [List.map_append, List.map_cons] at hnodup
        exact (List.disjoint_of_nodup_append hnodup) hmem List.mem_cons_self
      rw [hsplit] at hnodup ⊢
      exact ih (h.adopt hw hnew) hnodup

end Adoption

/-- What is pruned is retired and without leases. -/
theorem balanced_pruneRetired (hw : Wired pool) (hc : Counted pool leases) :
    Balanced pool.pruneRetired leases := by
  have hkeys : ∀ key, key ∈ ((pool.runtime.entries.filter fun e ↦
      pool.isRetired e.1 ∧ e.2.inflight = 0).map Sigma.fst) ↔
      pool.isRetired key = true ∧ key ∈ pool.runtime ∧ unsettled leases key = 0 := by
    intro key
    simp only [List.mem_map, List.mem_filter, decide_eq_true_eq]
    constructor
    · rintro ⟨⟨key, state⟩, ⟨hmem, hretired, hzero⟩, rfl⟩
      have hstate := Dict.mem_entries_iff.mp hmem
      exact ⟨hretired, Dict.mem_iff_lookup.mpr ⟨state, hstate⟩,
        (hc.inflight key state hstate).symm.trans hzero⟩
    · rintro ⟨hretired, hmem, hzero⟩
      obtain ⟨state, hstate⟩ := Dict.mem_iff_lookup.mp hmem
      exact ⟨⟨key, state⟩, ⟨Dict.mem_entries_iff.mpr hstate, hretired,
        (hc.inflight key state hstate).trans hzero⟩, rfl⟩
  refine ⟨hw.eraseAll fun key hkey ↦ ((hkeys key).mp hkey).1,
    hc.eraseAll fun key hkey ↦ ((hkeys key).mp hkey).2.2, fun key hkey hretired ↦ ?_⟩
  obtain ⟨state, hstate⟩ := Dict.mem_iff_lookup.mp hkey
  have hstate' := (Dict.lookup_eraseAll _ _ _).symm.trans hstate
  split_ifs at hstate' with hmem
  have hpresent : key ∈ pool.runtime := Dict.mem_iff_lookup.mpr ⟨state, hstate'⟩
  exact Nat.pos_of_ne_zero fun hzero ↦ hmem ((hkeys key).mpr ⟨hretired, hpresent, hzero⟩)

/-- The step lemma for a new catalog. -/
theorem balanced_replace (h : Balanced pool leases) {routes : List ProviderRoute}
    (hok : pool.replace routes = .ok pool') : Balanced pool' leases := by
  obtain ⟨index, hindex, hok⟩ := bind_ok_iff.mp hok
  have hindexed := indexed_of_ok hindex
  have hstart : Adopting pool leases [] { pool := pool } :=
    ⟨rfl, rfl, h.wired.generations, h.counted, fun _ _ _ ↦ rfl, fun _ hr ↦ (nomatch hr),
      fun _ _ hg ↦ (nomatch hg)⟩
  have hadopting : Adopting pool leases routes (routes.foldl RoutePool.adopt { pool := pool }) :=
    adopting_foldl h.wired hstart routes hindexed.nodup
  generalize routes.foldl RoutePool.adopt { pool := pool } = adoption at hok hadopting
  cases hok
  refine balanced_pruneRetired ⟨hadopting.generations, fun routeId generation hactive ↦ ?_,
    fun routeId route hroute ↦ ?_, fun provider routeId hid ↦ ?_⟩
    ⟨hadopting.counted.inflight, hadopting.counted.leased, hadopting.counted.numbered⟩
  · obtain ⟨route, hroute, rfl⟩ := hadopting.only routeId generation hactive
    obtain ⟨-, generation', hactive', hgeneration⟩ := hadopting.adopted route hroute
    obtain rfl : generation' = generation := Option.some.inj (hactive'.symm.trans hactive)
    exact ⟨route, (hindexed.routes _ _).mpr ⟨hroute, rfl⟩, hgeneration⟩
  · obtain ⟨hmem, rfl⟩ := (hindexed.routes _ _).mp hroute
    obtain ⟨hfp, generation, hactive, -⟩ := hadopting.adopted route hmem
    exact ⟨rfl, hfp, generation, hactive⟩
  · obtain ⟨route, hmem, hid, hprovider⟩ := hindexed.providers provider routeId hid
    exact ⟨route, (hindexed.routes _ _).mpr ⟨hmem, hid⟩, hprovider⟩

/-- A catalog is refused for a duplicate only. -/
theorem replace_error {routes : List ProviderRoute} {e : PoolError}
    (h : pool.replace routes = .error e) : ∃ routeId, e = .duplicateRouteId routeId := by
  have hfold : ∀ (rest : List ProviderRoute) start, rest.foldlM (fun index route ↦
      if route.routeId ∈ index.1 then .error (.duplicateRouteId route.routeId)
      else .ok (index.1.insert route.routeId route, index.2.insert route.provider
        ((index.2.lookup route.provider).getD [] ++ [route.routeId]))) start =
      (.error e : Except PoolError (Dict String ProviderRoute × Dict String (List String))) →
      ∃ routeId, e = .duplicateRouteId routeId := by
    intro rest
    induction rest with
    | nil =>
        intro start hrest
        cases hrest
    | cons route rest ih =>
        intro start hrest
        rw [List.foldlM_cons] at hrest
        split_ifs at hrest
        · cases hrest
          exact ⟨_, rfl⟩
        · exact ih _ hrest
  unfold RoutePool.replace at h
  cases hindex : RoutePool.indexRoutes routes with
  | error e' =>
      rw [hindex] at h
      cases h
      exact hfold routes _ hindex
  | ok index =>
      rw [hindex] at h
      cases h

/-! ## Runs -/

/-- A pool and its leases that have not been settled. -/
structure System where
  pool : RoutePool := {}
  leases : List RouteLease := []

inductive Action where
  | replace (routes : List ProviderRoute)
  | acquire (name modelId : String) (now random : ℚ)
  | release (lease : RouteLease)
  | recordSuccess (lease : RouteLease) (latencyMs : ℚ) (outputTokens : ℤ)
  | recordFailure (lease : RouteLease) (statusCode : ℤ) (now : ℚ)

/-- The lease that an action settles. -/
def Action.settled? : Action → Option RouteLease
  | .release lease => some lease
  | .recordSuccess lease _ _ => some lease
  | .recordFailure lease _ _ => some lease
  | _ => none

def System.perform (lower : String → String) (s : System) : Action → Except PoolError System
  | .replace routes => do
      let pool ← s.pool.replace routes
      pure { s with pool := pool }
  | .acquire name modelId now random => do
      let granted ← s.pool.acquire lower name modelId now random
      pure ⟨granted.2, granted.1 :: s.leases⟩
  | .release lease => pure ⟨s.pool.release lease, s.leases.erase lease⟩
  | .recordSuccess lease latencyMs outputTokens =>
      pure ⟨s.pool.recordSuccess lease latencyMs outputTokens, s.leases.erase lease⟩
  | .recordFailure lease statusCode now => do
      let pool ← s.pool.recordFailure lease statusCode now
      pure ⟨pool, s.leases.erase lease⟩

/-- No lease is settled twice, nor one that was never given out. -/
def Action.Admissible (s : System) (a : Action) : Prop :=
  ∀ lease, a.settled? = some lease → lease ∈ s.leases

theorem admissible_of_none {s : System} {a : Action} (h : a.settled? = none) : a.Admissible s := by
  intro lease hlease
  rw [h] at hlease
  cases hlease

/-- The systems that a run can reach; an action that raises changes nothing. -/
inductive Reached (lower : String → String) : System → Prop
  | start : Reached lower {}
  | perform (s s' : System) (a : Action) (hs : Reached lower s) (ha : a.Admissible s)
      (h : s.perform lower a = .ok s') : Reached lower s'

/-- The books of a pool. -/
structure Accounted (lower : String → String) (s : System) : Prop where
  inflight : ∀ key state, s.pool.runtime.lookup key = some state →
    state.inflight = unsettled s.leases key
  routes : ∀ routeId route, s.pool.routes.lookup routeId = some route →
    ∃ generation, s.pool.activeGenerations.lookup routeId = some generation ∧
      (routeId, generation) ∈ s.pool.runtime
  leased : ∀ lease ∈ s.leases, lease.key ∈ s.pool.runtime
  retired : ∀ key, s.pool.isRetired key = true →
    (key ∈ s.pool.runtime ↔ ∃ lease ∈ s.leases, lease.key = key)
  generations : ∀ key, key ∈ s.pool.generationRoutes ↔ key ∈ s.pool.runtime
  lookups : ∀ a : Action, a.Admissible s → ∀ e, s.perform lower a = .error e →
    (∃ routeId, e = .duplicateRouteId routeId) ∨ ∃ provider b, e = .noAvailableRoute provider b
  granted : ∀ name modelId now random lease pool',
    s.pool.acquire lower name modelId now random = .ok (lease, pool') →
      Granted s.pool s.leases (canonicalProvider lower name) modelId now lease

theorem balanced_empty : Balanced {} [] where
  wired := ⟨fun _ ↦ Iff.rfl, fun _ _ h ↦ (nomatch h), fun _ _ h ↦ (nomatch h),
    fun _ _ h ↦ (nomatch h)⟩
  counted := ⟨fun _ _ h ↦ (nomatch h), fun _ h ↦ (nomatch h), fun _ h ↦ (nomatch h)⟩
  pruned _ h := nomatch h

section Run

variable {lower : String → String} {s s' : System}

/-- The step lemma. -/
theorem balanced_perform (h : Balanced s.pool s.leases) {a : Action} (ha : a.Admissible s)
    (hok : s.perform lower a = .ok s') : Balanced s'.pool s'.leases := by
  cases a with
  | replace routes =>
      obtain ⟨pool, hpool, hok⟩ := bind_ok_iff.mp hok
      cases hok
      exact balanced_replace h hpool
  | acquire name modelId now random =>
      obtain ⟨granted, hgranted, hok⟩ := bind_ok_iff.mp hok
      cases hok
      rcases acquire_cases h lower name modelId now random with ⟨b, hb⟩ | ⟨lease, pool', hl, -, hbal⟩
      · rw [hb] at hgranted
        cases hgranted
      · rw [hl] at hgranted
        cases hgranted
        exact hbal
  | release lease =>
      cases hok
      exact balanced_release h (ha lease rfl)
  | recordSuccess lease latencyMs outputTokens =>
      cases hok
      exact balanced_recordSuccess h (ha lease rfl) latencyMs outputTokens
  | recordFailure lease statusCode now =>
      obtain ⟨pool, hpool, hok⟩ := bind_ok_iff.mp hok
      cases hok
      obtain ⟨pool', hpool', hbal⟩ := balanced_recordFailure h (ha lease rfl) statusCode now
      rw [hpool'] at hpool
      cases hpool
      exact hbal

theorem Reached.balanced (hs : Reached lower s) : Balanced s.pool s.leases := by
  induction hs with
  | start => exact balanced_empty
  | perform s s' a hs ha h ih => exact balanced_perform ih ha h

theorem perform_error (h : Balanced s.pool s.leases) {a : Action} (ha : a.Admissible s)
    {e : PoolError} (he : s.perform lower a = .error e) :
    (∃ routeId, e = .duplicateRouteId routeId) ∨ ∃ provider b, e = .noAvailableRoute provider b := by
  cases a with
  | replace routes =>
      simp only [System.perform] at he
      cases hpool : s.pool.replace routes with
      | ok pool =>
          rw [hpool] at he
          cases he
      | error e' =>
          rw [hpool] at he
          cases he
          exact .inl (replace_error hpool)
  | acquire name modelId now random =>
      simp only [System.perform] at he
      rcases acquire_cases h lower name modelId now random with ⟨b, hb⟩ | ⟨lease, pool', hl, -, -⟩
      · rw [hb] at he
        cases he
        exact .inr ⟨_, b, rfl⟩
      · rw [hl] at he
        cases he
  | release lease => cases he
  | recordSuccess lease latencyMs outputTokens => cases he
  | recordFailure lease statusCode now =>
      simp only [System.perform] at he
      obtain ⟨pool', hpool', -⟩ := balanced_recordFailure h (ha lease rfl) statusCode now
      rw [hpool'] at he
      cases he

/-- In every run each generation has its leases in flight, nothing that is looked up is
missing, and every lease is within the limits of its route. -/
theorem accounted_of_reached (hs : Reached lower s) : Accounted lower s := by
  have h := hs.balanced
  refine ⟨h.counted.inflight, fun routeId route hroute ↦ ?_, fun lease hlease ↦ ?_,
    fun key hretired ↦ ?_, h.wired.generations, fun a ha e he ↦ perform_error h ha he,
    fun name modelId now random lease pool' hok ↦ ?_⟩
  · obtain ⟨-, -, generation, hactive⟩ := h.wired.routes routeId route hroute
    exact ⟨generation, hactive, h.wired.mem_runtime hactive⟩
  · exact Dict.mem_iff_lookup.mpr (h.lookup_lease hlease)
  · constructor
    · intro hkey
      obtain ⟨lease, hlease, heq⟩ := List.countP_pos_iff.mp (h.pruned key hkey hretired)
      exact ⟨lease, hlease, of_decide_eq_true heq⟩
    · rintro ⟨lease, hlease, rfl⟩
      exact Dict.mem_iff_lookup.mpr (h.lookup_lease hlease)
  · rcases acquire_cases h lower name modelId now random with ⟨b, hb⟩ | ⟨l, p, hl, hgranted, -⟩
    · rw [hb] at hok
      cases hok
    · rw [hl] at hok
      cases hok
      exact hgranted

end Run

/-! ## A group without a limit -/

theorem weight_pos_default : (0 : ℚ) < 1 := by decide

theorem maxConcurrency_pos_default : 0 < 100 := by decide

/-- A route of a capacity group. -/
def groupRoute (capacityLimit : ℕ) : ProviderRoute where
  routeId := "openai:default"
  provider := "openai"
  capacityGroup := "shared"
  capacityLimit := capacityLimit
  weight_pos := weight_pos_default
  maxConcurrency_pos := maxConcurrency_pos_default

/-- A pool of one route, with one lease. -/
def oneLease (capacityLimit : ℕ) : Except PoolError System :=
  [Action.replace [groupRoute capacityLimit], .acquire "OpenAI" "gpt" 0 0].foldlM
    (System.perform fun _ ↦ "openai") {}

theorem reached_oneLease {capacityLimit : ℕ} {s : System} (h : oneLease capacityLimit = .ok s) :
    Reached (fun _ ↦ "openai") s := by
  rw [oneLease, List.foldlM_cons] at h
  obtain ⟨s₁, h₁, h⟩ := bind_ok_iff.mp h
  rw [List.foldlM_cons] at h
  obtain ⟨s₂, h₂, h⟩ := bind_ok_iff.mp h
  cases h
  have hs₁ : Reached (fun _ ↦ "openai") s₁ := .perform _ s₁ _ .start (admissible_of_none rfl) h₁
  exact .perform s₁ _ _ hs₁ (admissible_of_none rfl) h₂

theorem accounted_oneLease : ∃ s, oneLease 1 = .ok s ∧ s.leases.length = 1 ∧
    Accounted (fun _ ↦ "openai") s := by
  have hlength : (oneLease 1).map (fun s ↦ s.leases.length) = .ok 1 := by decide +kernel
  cases h : oneLease 1 with
  | error e =>
      rw [h] at hlength
      cases hlength
  | ok s =>
      rw [h] at hlength
      exact ⟨s, rfl, Except.ok.inj hlength, accounted_of_reached (reached_oneLease h)⟩

/-- The limit zero of a group is none: the lease exceeds it. -/
theorem exceeded_oneLease : ∃ s, Reached (fun _ ↦ "openai") s ∧ ∃ lease ∈ s.leases,
    lease.route.capacityGroup ≠ "" ∧
    lease.route.capacityLimit <
      s.leases.countP fun l ↦ l.route.capacityGroup == lease.route.capacityGroup := by
  have hleases : (oneLease 0).map System.leases = .ok [⟨groupRoute 0, "gpt", 0, 1⟩] := by
    decide +kernel
  cases h : oneLease 0 with
  | error e =>
      rw [h] at hleases
      cases hleases
  | ok s =>
      rw [h] at hleases
      have heq : s.leases = [⟨groupRoute 0, "gpt", 0, 1⟩] := Except.ok.inj hleases
      refine ⟨s, reached_oneLease h, ?_⟩
      rw [heq]
      exact ⟨_, List.mem_singleton_self _, by decide, by decide⟩

end AxonGateway.Providers
