import AxonGateway.Lib.Effects

/-!
# Routing one model over its provider mappings

The registry, the per-model routing strategies and the health tracker.  A
strategy chooses without awaiting anything, so its choice is one operation on
the router's state; provider calls, health checks and cooldowns are the others.
-/

namespace AxonGateway.Routing

open Interleaving

inductive RoutingStrategy where
  | roundRobin | weighted | leastLatency | costOptimized | smart | ensemble
  deriving DecidableEq

structure TokenPricing where
  promptTokenCost : ℚ
  completionTokenCost : ℚ
  cachedTokenCost : Option ℚ
  cacheCreationTokenCost : Option ℚ
  imageTokenCost : Option ℚ
  reasoningTokenCost : Option ℚ
  perRequestCost : ℚ
  deriving DecidableEq

/-- The rates of a pricing entry that are configured. -/
def TokenPricing.configured (p : TokenPricing) : List ℚ :=
  [some p.promptTokenCost, some p.completionTokenCost, p.cachedTokenCost,
    p.cacheCreationTokenCost, p.imageTokenCost, p.reasoningTokenCost,
    some p.perRequestCost].reduceOption

def TokenPricing.isBillable (p : TokenPricing) : Bool :=
  p.configured.all (0 ≤ ·) && p.configured.any (0 < ·)

/-- Rates by provider and provider-side model id. -/
abbrev PricingConfig := String → String → Option TokenPricing

/-- A mapping object; `ref` is its identity, which `is` compares. -/
structure ProviderModelMapping where
  ref : ℕ
  provider : String
  modelId : String
  weight : ℚ := 1
  fallbackOrder : ℤ := 0
  pricing : Option TokenPricing := none
  deriving DecidableEq

structure ModelConfig where
  name : String
  providers : List ProviderModelMapping
  routingStrategy : RoutingStrategy := .roundRobin
  maxContextTokens : Option ℕ := none
  distinct : (providers.map ProviderModelMapping.ref).Nodup

/-- `registry.models`, in insertion order. -/
structure ModelRegistry where
  models : List ModelConfig
  distinct : (models.map ModelConfig.name).Nodup

namespace ModelRegistry

def config? (R : ModelRegistry) (model : String) : Option ModelConfig :=
  R.models.find? (·.name == model)

/-- `resolve`; `none` is the `KeyError`. -/
def resolve (R : ModelRegistry) (model : String) : Option (List ProviderModelMapping) :=
  (R.config? model).map ModelConfig.providers

end ModelRegistry

/-! ## Errors and operations -/

structure ProviderError where
  statusCode : ℕ
  message : String
  routeId : Option String := none
  retryable : Option Bool := none
  providerUnavailable : Option Bool := none
  deriving DecidableEq

/-- One entry of the `attempts` of an exhausted request. -/
structure Attempt where
  provider : String
  statusCode : ℕ
  message : String
  routeId : Option String := none
  deriving DecidableEq

inductive RouteError where
  | allProvidersExhausted (attempts : List Attempt)
  | noHealthyProvider
  | noCandidateModels
  | ensembleAccess (model : String)
  | ensembleCostCeiling
  | ensembleNoSurvivors
  | ensembleQuorum
  | ensembleSynthesis
  | keyError (key : String)
  | valueError
  | raised (message : String)
  deriving DecidableEq

structure ChatCompletionResponse where
  provider : String
  providerModel : String
  model : String
  content : String
  deriving DecidableEq

/-- How a provider call ends: `raised` is any other exception than a
`ProviderError`. -/
inductive CallResult where
  | response (content : String)
  | providerError (e : ProviderError)
  | raised (message : String)
  deriving DecidableEq

/-- How opening a native stream ends; a stream may end before its first chunk. -/
inductive StreamResult where
  | opened (firstChunk : Option String)
  | providerError (e : ProviderError)
  | raised (message : String)
  deriving DecidableEq

/-- What a request does besides computing.  `call model m n` is the `n`-th call
of one attempt at the mapping `m`; `openStream` opens a native stream on it. -/
inductive Op where
  | select (strategy : RoutingStrategy) (providers : List ProviderModelMapping)
  | isHealthy (provider : String)
  | markUnhealthy (provider : String) (cooldownSeconds : ℕ)
  | call (model : String) (mapping : ProviderModelMapping) (attempt : ℕ)
  | openStream (model : String) (mapping : ProviderModelMapping)
  | isOverBudget (scope : String)
  | gate (name : String)
  deriving DecidableEq

abbrev Ret : Op → Type
  | .select _ _ => Except RouteError ProviderModelMapping
  | .isHealthy _ => Bool
  | .markUnhealthy _ _ => Unit
  | .call _ _ _ => CallResult
  | .openStream _ _ => StreamResult
  | .isOverBudget _ => Bool
  | .gate _ => Bool

/-- The model and the mapping a provider is invoked for. -/
def Op.invokes : Op → Option (String × ProviderModelMapping)
  | .call model m _ => some (model, m)
  | .openStream model m => some (model, m)
  | _ => none

abbrev Route (α : Type) := Raising RouteError Op Ret α

/-! ## The state behind the operations -/

/-- The health tracker and the strategies' own state at one moment.  `draws` are
the coming values of `random.random()`; `attempted` records, for the statements
only, the mappings that were tried. -/
structure RouterState where
  unhealthy : String → Option ℚ
  latencies : String → List (ℚ × ℚ)
  indices : String → ℕ
  draws : ℕ → ℚ
  attempted : List ProviderModelMapping

namespace RouterState

def isHealthy (now : ℚ) (s : RouterState) (provider : String) : Bool :=
  match s.unhealthy provider with
  | none => true
  | some expiry => decide (expiry ≤ now)

/-- An expired cooldown is removed when it is looked at. -/
def cleanUp (now : ℚ) (s : RouterState) (provider : String) : RouterState :=
  if s.isHealthy now provider then
    { s with unhealthy := Function.update s.unhealthy provider none }
  else s

def markUnhealthy (now : ℚ) (s : RouterState) (provider : String) (cooldownSeconds : ℕ) :
    RouterState :=
  { s with unhealthy := Function.update s.unhealthy provider (some (now + cooldownSeconds)) }

/-- `get_average_latency`; `⊤` is `float("inf")`. -/
def averageLatency (now : ℚ) (s : RouterState) (provider : String) (windowSeconds : ℕ) :
    WithTop ℚ :=
  let inWindow := (s.latencies provider).filter fun r ↦ decide (now - windowSeconds ≤ r.1)
  if inWindow = [] then ⊤
  else ((inWindow.map Prod.snd).sum / inWindow.length : ℚ)

end RouterState

/-- `_healthy_providers`, which also cleans up what it looks at. -/
def healthyProviders (now : ℚ) (s : RouterState) (providers : List ProviderModelMapping) :
    List ProviderModelMapping :=
  providers.filter fun m ↦ s.isHealthy now m.provider

def cleanUpAll (now : ℚ) (s : RouterState) (providers : List ProviderModelMapping) :
    RouterState :=
  providers.foldl (fun s m ↦ s.cleanUp now m.provider) s

/-- `_provider_key`. -/
def providerKey (providers : List ProviderModelMapping) : String :=
  ",".intercalate ((providers.map fun m ↦ m.provider ++ ":" ++ m.modelId).insertionSort (· ≤ ·))

/-- `bisect_right(a, x, lo, hi)`. -/
def bisect (a : List ℚ) (x : ℚ) (lo hi : ℕ) : ℕ :=
  if lo < hi then
    let mid := (lo + hi) / 2
    if x < a.getD mid 0 then bisect a x lo mid else bisect a x (mid + 1) hi
  else lo
termination_by hi - lo

/-- `random.choices(population, weights, k=1)[0]` for the draw `u`. -/
def choice (population : List ProviderModelMapping) (u : ℚ) :
    Except RouteError ProviderModelMapping :=
  let cumulative := (population.map ProviderModelMapping.weight).partialSums.tail
  let total := cumulative.getLastD 0
  if total ≤ 0 then .error .valueError
  else
    match population[bisect cumulative (u * total) 0 (population.length - 1)]? with
    | some m => .ok m
    | none => .error (.raised "list index out of range")

/-- `CostOptimizedStrategy._cost_key`. -/
def costKey (pricing : PricingConfig) (m : ProviderModelMapping) : WithTop ℚ :=
  match m.pricing.filter TokenPricing.isBillable <|>
      (pricing m.provider m.modelId).filter TokenPricing.isBillable with
  | some p => (p.promptTokenCost + p.completionTokenCost : ℚ)
  | none => ⊤

/-- What the strategy makes of the healthy mappings, and its own new state. -/
def selectAmong (pricing : PricingConfig) (now : ℚ) (strategy : RoutingStrategy)
    (providers healthy : List ProviderModelMapping) (s : RouterState) :
    Except RouteError ProviderModelMapping × RouterState :=
  match strategy with
  | .roundRobin =>
      let key := providerKey providers
      match healthy[s.indices key % healthy.length]? with
      | some m => (.ok m, { s with indices := Function.update s.indices key (s.indices key + 1) })
      | none => (.error .noHealthyProvider, s)
  | .weighted =>
      match choice healthy (s.draws 0) with
      | .ok m => (.ok m, { s with draws := fun i ↦ s.draws (i + 1) })
      | .error e => (.error e, s)
  | .leastLatency =>
      match healthy.argmin (fun m ↦ s.averageLatency now m.provider 60) with
      | some m => (.ok m, s)
      | none => (.error .noHealthyProvider, s)
  | .costOptimized =>
      match healthy.argmin (costKey pricing) with
      | some m => (.ok m, s)
      | none => (.error .noHealthyProvider, s)
  | .smart =>
      match healthy.head? with
      | some m => (.ok m, s)
      | none => (.error .noHealthyProvider, s)
  | .ensemble => (.error (.keyError "ensemble"), s)

/-- `select` of a strategy object. -/
def select (pricing : PricingConfig) (now : ℚ) (strategy : RoutingStrategy)
    (providers : List ProviderModelMapping) (s : RouterState) :
    Except RouteError ProviderModelMapping × RouterState :=
  if healthyProviders now s providers = [] then
    (.error .noHealthyProvider, cleanUpAll now s providers)
  else
    selectAmong pricing now strategy providers (healthyProviders now s providers)
      (cleanUpAll now s providers)

/-! ## What the strategies leave alone -/

section Health

variable {now : ℚ} {s : RouterState}

@[simp] theorem isHealthy_cleanUp (p q : String) :
    (s.cleanUp now p).isHealthy now q = s.isHealthy now q := by
  unfold RouterState.cleanUp
  split_ifs with hp
  · by_cases hq : q = p
    · subst hq
      rw [hp]
      simp [RouterState.isHealthy]
    · simp [RouterState.isHealthy, hq]
  · rfl

@[simp] theorem attempted_cleanUp (p : String) : (s.cleanUp now p).attempted = s.attempted := by
  unfold RouterState.cleanUp
  split_ifs <;> rfl

@[simp] theorem isHealthy_cleanUpAll (ms : List ProviderModelMapping) (q : String) :
    (cleanUpAll now s ms).isHealthy now q = s.isHealthy now q := by
  induction ms generalizing s with
  | nil => rfl
  | cons m ms ih => exact (ih (s := s.cleanUp now m.provider)).trans (isHealthy_cleanUp _ _)

@[simp] theorem attempted_cleanUpAll (ms : List ProviderModelMapping) :
    (cleanUpAll now s ms).attempted = s.attempted := by
  induction ms generalizing s with
  | nil => rfl
  | cons m ms ih => exact (ih (s := s.cleanUp now m.provider)).trans (attempted_cleanUp _)

theorem mem_of_choice {population : List ProviderModelMapping} {u : ℚ}
    {m : ProviderModelMapping} (h : choice population u = .ok m) : m ∈ population := by
  simp only [choice] at h
  split_ifs at h
  split at h
  · obtain rfl := Except.ok.inj h
    exact List.mem_of_getElem? ‹_›
  · cases h

/-- A strategy picks one of the healthy mappings and touches nothing but its own
cursors and draws. -/
theorem selectAmong_spec (pricing : PricingConfig) (strategy : RoutingStrategy)
    (ms healthy : List ProviderModelMapping) :
    (∀ m, (selectAmong pricing now strategy ms healthy s).1 = .ok m → m ∈ healthy) ∧
      (selectAmong pricing now strategy ms healthy s).2.unhealthy = s.unhealthy ∧
      (selectAmong pricing now strategy ms healthy s).2.attempted = s.attempted := by
  cases strategy with
  | roundRobin =>
      simp only [selectAmong]
      split
      · refine ⟨fun m hm ↦ ?_, rfl, rfl⟩
        obtain rfl := Except.ok.inj hm
        exact List.mem_of_getElem? ‹_›
      · exact ⟨fun m hm ↦ (by cases hm), rfl, rfl⟩
  | weighted =>
      simp only [selectAmong]
      split
      · refine ⟨fun m hm ↦ ?_, rfl, rfl⟩
        obtain rfl := Except.ok.inj hm
        exact mem_of_choice ‹_›
      · exact ⟨fun m hm ↦ (by cases hm), rfl, rfl⟩
  | leastLatency | costOptimized =>
      simp only [selectAmong]
      split
      · refine ⟨fun m hm ↦ ?_, rfl, rfl⟩
        obtain rfl := Except.ok.inj hm
        exact List.argmin_mem ‹_›
      · exact ⟨fun m hm ↦ (by cases hm), rfl, rfl⟩
  | smart =>
      simp only [selectAmong]
      split
      · refine ⟨fun m hm ↦ ?_, rfl, rfl⟩
        obtain rfl := Except.ok.inj hm
        exact List.mem_of_head? ‹_›
      · exact ⟨fun m hm ↦ (by cases hm), rfl, rfl⟩
  | ensemble => exact ⟨fun m hm ↦ (by cases hm), rfl, rfl⟩

theorem mem_of_select {pricing : PricingConfig} {strategy : RoutingStrategy}
    {ms : List ProviderModelMapping} {m : ProviderModelMapping}
    (h : (select pricing now strategy ms s).1 = .ok m) :
    m ∈ ms ∧ s.isHealthy now m.provider = true := by
  unfold select at h
  split_ifs at h
  have hmem := (selectAmong_spec pricing strategy ms _).1 m h
  simpa [healthyProviders] using hmem

@[simp] theorem isHealthy_select (pricing : PricingConfig) (strategy : RoutingStrategy)
    (ms : List ProviderModelMapping) (q : String) :
    (select pricing now strategy ms s).2.isHealthy now q = s.isHealthy now q := by
  unfold select
  split_ifs
  · exact isHealthy_cleanUpAll ms q
  · have hunhealthy : (selectAmong pricing now strategy ms (healthyProviders now s ms)
        (cleanUpAll now s ms)).2.unhealthy = (cleanUpAll now s ms).unhealthy :=
      (selectAmong_spec pricing strategy ms (healthyProviders now s ms)).2.1
    simp only [RouterState.isHealthy, hunhealthy]
    exact isHealthy_cleanUpAll ms q

@[simp] theorem attempted_select (pricing : PricingConfig) (strategy : RoutingStrategy)
    (ms : List ProviderModelMapping) :
    (select pricing now strategy ms s).2.attempted = s.attempted := by
  unfold select
  split_ifs
  · exact attempted_cleanUpAll ms
  · exact (selectAmong_spec pricing strategy ms _).2.2.trans (attempted_cleanUpAll ms)

theorem healthyProviders_of_select {pricing : PricingConfig} {strategy : RoutingStrategy}
    {ms : List ProviderModelMapping}
    (h : (select pricing now strategy ms s).1 = .error .noHealthyProvider) :
    healthyProviders now s ms = [] := by
  by_contra hne
  unfold select at h
  rw [if_neg hne] at h
  obtain ⟨a, l, hal⟩ := List.exists_cons_of_ne_nil hne
  rw [hal] at h
  cases strategy with
  | roundRobin =>
      simp only [selectAmong] at h
      split at h
      · cases h
      · rename_i hnone
        rw [List.getElem?_eq_none_iff] at hnone
        have hlt : (cleanUpAll now s ms).indices (providerKey ms) % (a :: l).length <
            (a :: l).length := Nat.mod_lt _ (by simp)
        omega
  | weighted =>
      simp only [selectAmong] at h
      split at h
      · cases h
      · rename_i e he
        obtain rfl := Except.error.inj h
        simp only [choice] at he
        split_ifs at he
        · cases he
        · split at he <;> cases he
  | leastLatency | costOptimized =>
      simp only [selectAmong] at h
      split at h
      · cases h
      · rename_i hnone
        simp at hnone
  | smart => cases h
  | ensemble => cases h

end Health

end AxonGateway.Routing
