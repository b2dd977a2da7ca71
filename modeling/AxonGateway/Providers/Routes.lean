import AxonGateway.Lib.Dict
import AxonGateway.Lib.PyText

/-!
# Provider routes

A pool selects a concrete route for every provider call and holds it by a lease.
Replacing the catalog of routes keeps the generations of unchanged routes and
retires the others.
-/

namespace AxonGateway.Providers

/-- The white space around a string is removed. -/
def strip (s : String) : String :=
  String.ofList ((s.toList.dropWhile PyText.isSpace).reverse.dropWhile PyText.isSpace).reverse

def providerAliases : List (String × String) :=
  [("azure", "azure_openai"), ("vertex", "vertex_ai")]

/-- `lower` is `str.lower`. -/
def canonicalProvider (lower : String → String) (name : String) : String :=
  let normalized := lower (strip name)
  (providerAliases.lookup normalized).getD normalized

/-- One independently selectable credential and endpoint. -/
structure ProviderRoute where
  routeId : String
  provider : String
  endpoint : String := ""
  authType : String := "api_key"
  credentials : List (String × String) := []
  region : String := ""
  allowedModels : Finset String := ∅
  weight : ℚ := 1
  priority : ℕ := 0
  enabled : Bool := true
  maxConcurrency : ℕ := 100
  capacityGroup : String := ""
  capacityLimit : ℕ := 0
  connectTimeout : ℚ := 30
  readTimeout : ℚ := 120
  extraHeaders : List (String × String) := []
  extraParams : List (String × String) := []
  credentialProvider : String := ""
  weight_pos : 0 < weight := by decide
  maxConcurrency_pos : 0 < maxConcurrency := by decide
  deriving DecidableEq

/-- What the fingerprint of a route is the digest of. -/
structure Fingerprint where
  provider : String
  endpoint : String
  authType : String
  credentials : List (String × String)
  region : String
  models : Finset String
  capacityGroup : String
  capacityLimit : ℕ
  connectTimeout : ℚ
  readTimeout : ℚ
  extraHeaders : List (String × String)
  extraParams : List (String × String)
  credentialProvider : String
  deriving DecidableEq

namespace ProviderRoute

def supportsModel (route : ProviderRoute) (modelId : String) : Bool :=
  route.allowedModels = ∅ ∨ modelId ∈ route.allowedModels

def fingerprint (route : ProviderRoute) : Fingerprint where
  provider := route.provider
  endpoint := route.endpoint
  authType := route.authType
  credentials := route.credentials
  region := route.region
  models := route.allowedModels
  capacityGroup := route.capacityGroup
  capacityLimit := route.capacityLimit
  connectTimeout := route.connectTimeout
  readTimeout := route.readTimeout
  extraHeaders := route.extraHeaders
  extraParams := route.extraParams
  credentialProvider := route.credentialProvider

end ProviderRoute

inductive RouteStatus where
  | healthy
  | degraded
  | failed
  | recovering
  deriving DecidableEq

/-- Health and load of one generation of a route. -/
structure RouteRuntime where
  status : RouteStatus := .healthy
  inflight : ℕ := 0
  selected : ℕ := 0
  successes : ℕ := 0
  failures : ℕ := 0
  consecutiveFailures : ℕ := 0
  recoverySuccesses : ℕ := 0
  latencyEwmaMs : Option ℚ := none
  latencyPerTokenEwmaMs : Option ℚ := none
  errorEwma : ℚ := 0
  cooldownUntil : ℚ := 0
  lastStatusCode : Option ℤ := none
  lastSelectedAt : Option ℚ := none

/-- A reservation of a route for one provider attempt. -/
structure RouteLease where
  route : ProviderRoute
  modelId : String
  startedAt : ℚ
  generation : ℕ := 1
  deriving DecidableEq

abbrev GenerationKey := String × ℕ

def RouteLease.key (lease : RouteLease) : GenerationKey := (lease.route.routeId, lease.generation)

inductive PoolError where
  | duplicateRouteId (routeId : String)
  | noAvailableRoute (provider : String) (temporarilyUnavailable : Bool)
  | keyError
  | indexError
  deriving DecidableEq

structure RoutePool where
  routes : Dict String ProviderRoute := ∅
  byProvider : Dict String (List String) := ∅
  runtime : Dict GenerationKey RouteRuntime := ∅
  generationRoutes : Dict GenerationKey ProviderRoute := ∅
  activeGenerations : Dict String ℕ := ∅
  lastGenerations : Dict String ℕ := ∅
  fingerprints : Dict String Fingerprint := ∅

/-- `d[k]` -/
def getItem {K V : Type} [DecidableEq K] (d : Dict K V) (k : K) : Except PoolError V :=
  match d.lookup k with
  | some v => .ok v
  | none => .error .keyError

def ewmaAlpha : ℚ := 1 / 5

def ewma (previous observation : ℚ) : ℚ := ewmaAlpha * observation + (1 - ewmaAlpha) * previous

def ewmaOptional (previous : Option ℚ) (observation : ℚ) : ℚ :=
  match previous with
  | none => observation
  | some previous => ewma previous observation

/-- `random.choices(population, weights, k=1)[0]` with the random number in hand. -/
def choices {α : Type} (population : List α) (weights : List ℚ) (random : ℚ) : Option α :=
  let cumulative := (weights.scanl (· + ·) 0).tail
  population[(cumulative.dropLast).countP fun c ↦ decide (c ≤ random * weights.sum)]?

/-- A filter whose condition may raise. -/
def keepM {α : Type} (f : α → Except PoolError Bool) : List α → Except PoolError (List α)
  | [] => pure []
  | a :: l => do
      let b ← f a
      let rest ← keepM f l
      pure (if b then a :: rest else rest)

/-- A comprehension whose elements may raise. -/
def collectM {α β : Type} (f : α → Except PoolError β) : List α → Except PoolError (List β)
  | [] => pure []
  | a :: l => do
      let b ← f a
      let rest ← collectM f l
      pure (b :: rest)

/-! ## Health -/

def authCooldownSeconds : ℚ := 300

def throttleCooldownSeconds : ℚ := 30

def failureCooldownSeconds : ℚ := 20

/-- Errors of the request itself do not count against the route. -/
def isRequestError (statusCode : ℤ) : Bool := statusCode ∈ [400, 405, 409, 422]

namespace RouteRuntime

def select (state : RouteRuntime) (now : ℚ) : RouteRuntime :=
  { state with
    inflight := state.inflight + 1
    selected := state.selected + 1
    lastSelectedAt := some now }

/-- What a success does to the health of a route. -/
def succeed (state : RouteRuntime) (latencyMs : ℚ) (outputTokens : ℤ) : RouteRuntime :=
  let recovers := state.status = .failed ∨ state.status = .degraded ∨ state.status = .recovering
  let recoverySuccesses := if recovers then state.recoverySuccesses + 1 else state.recoverySuccesses
  { state with
    inflight := state.inflight - 1
    successes := state.successes + 1
    consecutiveFailures := 0
    errorEwma := ewma state.errorEwma 0
    latencyEwmaMs := some (ewmaOptional state.latencyEwmaMs (max 0 latencyMs))
    latencyPerTokenEwmaMs := if 0 < outputTokens then
        some (ewmaOptional state.latencyPerTokenEwmaMs (max 0 latencyMs / outputTokens))
      else state.latencyPerTokenEwmaMs
    recoverySuccesses := recoverySuccesses
    status := if recovers ∧ recoverySuccesses < 2 then .recovering else .healthy
    cooldownUntil := 0
    lastStatusCode := none }

/-- A failed request is no longer in flight. -/
def fail (state : RouteRuntime) (statusCode : ℤ) : RouteRuntime :=
  { state with
    inflight := state.inflight - 1
    failures := state.failures + 1
    lastStatusCode := some statusCode }

def worsen (state : RouteRuntime) : RouteRuntime :=
  { state with
    consecutiveFailures := state.consecutiveFailures + 1
    recoverySuccesses := 0
    errorEwma := ewma state.errorEwma 1 }

/-- What a failure does to the health of a route; `hasSibling` tells whether another
route could be used instead. -/
def penalize (state : RouteRuntime) (statusCode : ℤ) (now : ℚ) (hasSibling : Bool) :
    RouteRuntime :=
  if statusCode ∈ [401, 402, 403] then
    { state with status := .failed, cooldownUntil := now + authCooldownSeconds }
  else if statusCode = 404 then
    { state with
      status := .degraded
      cooldownUntil := if hasSibling then now + failureCooldownSeconds else 0 }
  else if statusCode = 429 then
    { state with
      status := .degraded
      cooldownUntil := if hasSibling then now + throttleCooldownSeconds else 0 }
  else if statusCode = 0 ∨ 500 ≤ statusCode then
    let shouldCooldown := hasSibling && decide (2 ≤ state.consecutiveFailures)
    { state with
      status := if shouldCooldown then .failed else .degraded
      cooldownUntil := if shouldCooldown then now + failureCooldownSeconds else 0 }
  else state

end RouteRuntime

namespace RoutePool

/-! ## The catalog -/

/-- The routes by id and the ids by provider. -/
def indexRoutes (routes : List ProviderRoute) :
    Except PoolError (Dict String ProviderRoute × Dict String (List String)) :=
  routes.foldlM (fun index route ↦
    if route.routeId ∈ index.1 then .error (.duplicateRouteId route.routeId)
    else .ok (index.1.insert route.routeId route,
      index.2.insert route.provider ((index.2.lookup route.provider).getD [] ++ [route.routeId])))
    (∅, ∅)

/-- A catalog on its way into a pool. -/
structure Adoption where
  pool : RoutePool
  activeGenerations : Dict String ℕ := ∅
  fingerprints : Dict String Fingerprint := ∅

/-- The generation that an unchanged route keeps. -/
def keptGeneration (pool : RoutePool) (route : ProviderRoute) : Option ℕ :=
  if pool.fingerprints.lookup route.routeId = some route.fingerprint then
    pool.activeGenerations.lookup route.routeId
  else none

def openGeneration (pool : RoutePool) (route : ProviderRoute) (generation : ℕ) : RoutePool :=
  { pool with
    lastGenerations := pool.lastGenerations.insert route.routeId generation
    runtime := pool.runtime.insert (route.routeId, generation) {} }

def adoptAs (adoption : Adoption) (pool : RoutePool) (route : ProviderRoute) (generation : ℕ) :
    Adoption where
  pool := { pool with
    generationRoutes := pool.generationRoutes.insert (route.routeId, generation) route }
  activeGenerations := adoption.activeGenerations.insert route.routeId generation
  fingerprints := adoption.fingerprints.insert route.routeId route.fingerprint

def adopt (adoption : Adoption) (route : ProviderRoute) : Adoption :=
  match adoption.pool.keptGeneration route with
  | some generation => adoptAs adoption adoption.pool route generation
  | none =>
      let generation := (adoption.pool.lastGenerations.lookup route.routeId).getD 0 + 1
      adoptAs adoption (adoption.pool.openGeneration route generation) route generation

def isRetired (pool : RoutePool) (key : GenerationKey) : Bool :=
  pool.activeGenerations.lookup key.1 ≠ some key.2

def pruneRetired (pool : RoutePool) : RoutePool :=
  let keys := (pool.runtime.entries.filter fun e ↦
    pool.isRetired e.1 ∧ e.2.inflight = 0).map Sigma.fst
  { pool with
    runtime := Dict.eraseAll keys pool.runtime
    generationRoutes := Dict.eraseAll keys pool.generationRoutes }

def replace (pool : RoutePool) (routes : List ProviderRoute) : Except PoolError RoutePool := do
  let index ← indexRoutes routes
  let adoption := routes.foldl adopt { pool := pool }
  pure (pruneRetired { adoption.pool with
    routes := index.1
    byProvider := index.2
    activeGenerations := adoption.activeGenerations
    fingerprints := adoption.fingerprints })

/-! ## Selection -/

def setRuntime (pool : RoutePool) (key : GenerationKey) (state : RouteRuntime) : RoutePool :=
  { pool with runtime := pool.runtime.insert key state }

def activeState (pool : RoutePool) (routeId : String) : Except PoolError RouteRuntime := do
  let generation ← getItem pool.activeGenerations routeId
  getItem pool.runtime (routeId, generation)

/-- The requests in flight in a capacity group, over all generations. -/
def groupInflight (pool : RoutePool) (group : String) : Except PoolError ℕ := do
  let states ← collectM (fun e ↦ getItem pool.runtime e.1)
    (pool.generationRoutes.entries.filter fun e ↦ e.2.capacityGroup == group)
  pure (states.map RouteRuntime.inflight).sum

def isEligible (pool : RoutePool) (now : ℚ) (route : ProviderRoute) : Except PoolError Bool := do
  let state ← pool.activeState route.routeId
  if now < state.cooldownUntil then pure false
  else if route.maxConcurrency ≤ state.inflight then pure false
  else if route.capacityGroup ≠ "" ∧ route.capacityLimit ≠ 0 then do
    let inflight ← pool.groupInflight route.capacityGroup
    pure (decide (inflight < route.capacityLimit))
  else pure true

/-- The provider's routes that are enabled and support the model. -/
def configured (pool : RoutePool) (provider modelId : String) :
    Except PoolError (List ProviderRoute) := do
  let routes ← collectM (getItem pool.routes) ((pool.byProvider.lookup provider).getD [])
  pure (routes.filter fun route ↦ route.enabled && route.supportsModel modelId)

def hasAvailable (pool : RoutePool) (provider modelId : String) (now : ℚ)
    (excludeRouteId : String) : Except PoolError Bool := do
  let routes ← collectM (getItem pool.routes)
    (((pool.byProvider.lookup provider).getD []).filter (· != excludeRouteId))
  let available ← keepM (pool.isEligible now)
    (routes.filter fun route ↦ route.enabled && route.supportsModel modelId)
  pure (!available.isEmpty)

def latencyFactor (baseline observed : Option ℚ) : ℚ :=
  match baseline, observed with
  | some baseline, some observed => if observed ≤ 0 then 1 else max (1 / 10) (baseline / observed)
  | _, _ => 1

def recoveryFactor : ℚ := 1 / 10

/-- The weights of the candidates by their health and load. -/
def adaptiveWeights (pool : RoutePool) (routes : List ProviderRoute) :
    Except PoolError (List ℚ) := do
  let states ← collectM (fun route ↦ pool.activeState route.routeId) routes
  let tokenLatencies := states.filterMap RouteRuntime.latencyPerTokenEwmaMs
  let requestLatencies := states.filterMap RouteRuntime.latencyEwmaMs
  let baseline := if tokenLatencies ≠ [] then tokenLatencies.min? else requestLatencies.min?
  pure ((routes.zip states).map fun e ↦
    let observed := if tokenLatencies ≠ [] then e.2.latencyPerTokenEwmaMs else e.2.latencyEwmaMs
    let utilization : ℚ := e.2.inflight / e.1.maxConcurrency
    max (1 / 10000) (e.1.weight * max (1 / 20) (1 - e.2.errorEwma) *
      latencyFactor baseline observed * max (1 / 10) (1 - utilization) *
      if e.2.status = .recovering then recoveryFactor else 1))

/-- A route whose cooldown is over starts to recover. -/
def recover (now : ℚ) (pool : RoutePool) (route : ProviderRoute) : Except PoolError RoutePool := do
  let generation ← getItem pool.activeGenerations route.routeId
  let state ← getItem pool.runtime (route.routeId, generation)
  pure (if state.cooldownUntil ≠ 0 ∧ state.cooldownUntil ≤ now then
    pool.setRuntime (route.routeId, generation)
      { state with status := .recovering, cooldownUntil := 0, recoverySuccesses := 0 }
    else pool)

/-- The eligible routes of the least priority. -/
def candidates (eligible : List ProviderRoute) : List ProviderRoute :=
  eligible.filter fun route ↦ some route.priority = (eligible.map ProviderRoute.priority).min?

/-- Reserve one of the eligible routes at random. -/
def reserve (pool : RoutePool) (eligible : List ProviderRoute) (modelId : String)
    (now random : ℚ) : Except PoolError (RouteLease × RoutePool) := do
  let pool ← (candidates eligible).foldlM (recover now) pool
  let weights ← pool.adaptiveWeights (candidates eligible)
  match choices (candidates eligible) weights random with
  | none => .error .indexError
  | some route => do
      let generation ← getItem pool.activeGenerations route.routeId
      let state ← getItem pool.runtime (route.routeId, generation)
      pure (⟨route, modelId, now, generation⟩,
        pool.setRuntime (route.routeId, generation) (state.select now))

def acquire (pool : RoutePool) (lower : String → String) (name modelId : String)
    (now random : ℚ) : Except PoolError (RouteLease × RoutePool) := do
  let provider := canonicalProvider lower name
  let configured ← pool.configured provider modelId
  let eligible ← keepM (pool.isEligible now) configured
  if eligible = [] then .error (.noAvailableRoute provider (configured ≠ []))
  else pool.reserve eligible modelId now random

/-! ## Settlement -/

/-- A retired generation goes with its last lease. -/
def pruneRuntimeKey (pool : RoutePool) (key : GenerationKey) : RoutePool :=
  if pool.activeGenerations.lookup key.1 = some key.2 then pool
  else
    match pool.runtime.lookup key with
    | some state =>
        if state.inflight = 0 then
          { pool with
            runtime := pool.runtime.erase key
            generationRoutes := pool.generationRoutes.erase key }
        else pool
    | none => pool

def release (pool : RoutePool) (lease : RouteLease) : RoutePool :=
  match pool.runtime.lookup lease.key with
  | none => pool
  | some state =>
      (pool.setRuntime lease.key { state with inflight := state.inflight - 1 }).pruneRuntimeKey
        lease.key

def recordSuccess (pool : RoutePool) (lease : RouteLease) (latencyMs : ℚ) (outputTokens : ℤ) :
    RoutePool :=
  match pool.runtime.lookup lease.key with
  | none => pool
  | some state =>
      (pool.setRuntime lease.key (state.succeed latencyMs outputTokens)).pruneRuntimeKey
        lease.key

def recordFailure (pool : RoutePool) (lease : RouteLease) (statusCode : ℤ) (now : ℚ) :
    Except PoolError RoutePool :=
  match pool.runtime.lookup lease.key with
  | none => pure pool
  | some state =>
      if isRequestError statusCode then
        pure ((pool.setRuntime lease.key (state.fail statusCode)).pruneRuntimeKey lease.key)
      else do
        let state := (state.fail statusCode).worsen
        let hasSibling ← (pool.setRuntime lease.key state).hasAvailable lease.route.provider
          lease.modelId now lease.route.routeId
        pure ((pool.setRuntime lease.key
          (state.penalize statusCode now hasSibling)).pruneRuntimeKey lease.key)

end RoutePool

end AxonGateway.Providers
