import AxonGateway.Routing.Model

/-!
# The router: buffered and streamed execution of one model

`executeWithFallback` is the buffered path and `openStream` the native streaming
path of the routing runtime; both try the mappings of one logical model.
-/

namespace AxonGateway.Routing

open Interleaving

structure EnsemblePreset where
  name : String
  panel : List String
  judge : String
  quorum : ℤ := 1
  fallbackPolicy : String := "error"
  costCeiling : Option ℚ := none
  rankingCriteria : String := "length"

structure EnsembleConfig where
  presets : List EnsemblePreset
  defaultPresetName : Option String

structure ModelScore where
  modelName : String
  score : ℚ

structure ClassificationResult where
  taskType : String
  confidence : ℚ

structure SmartRoutingStrategy where
  classify : String → ClassificationResult
  getRankings : String → List ModelScore
  pricingConfig : PricingConfig
  confidenceThreshold : ℚ := 3 / 10
  costQualityTradeoff : ℚ := 3 / 10
  defaultModel : String := "claude-sonnet"

structure Router where
  modelRegistry : ModelRegistry
  availableProviders : Option (List String) := none
  requirePricedMappings : Bool := false
  costTracker : Option PricingConfig := none
  smartStrategy : Option SmartRoutingStrategy := none
  ensembleConfig : Option EnsembleConfig := none
  maxRetries : ℕ := 3
  cooldownSeconds : ℕ := 60
  retryable : List ℕ := [429, 500, 502, 503, 504]

namespace Router

variable (R : Router)

def pricing : PricingConfig := R.costTracker.getD fun _ _ ↦ none

/-- `cost_tracker.has_pricing`. -/
def hasPricing (provider modelId : String) : Bool :=
  match R.costTracker with
  | none => false
  | some pricing => ((pricing provider modelId).filter TokenPricing.isBillable).isSome

/-- Whether this deployment may invoke the mapping. -/
def enabled (m : ProviderModelMapping) : Bool :=
  (match R.availableProviders with
    | none => true
    | some providers => decide (m.provider ∈ providers)) &&
  (!R.requirePricedMappings || (m.pricing.filter TokenPricing.isBillable).isSome ||
    R.hasPricing m.provider m.modelId)

/-- `available_mappings`; `none` is the `KeyError` of an unknown model. -/
def availableMappings (model : String) : Option (List ProviderModelMapping) :=
  (R.modelRegistry.resolve model).map (List.filter R.enabled)

def mappingsOrRaise (model : String) : Route (List ProviderModelMapping) :=
  match R.availableMappings model with
  | some mappings => pure mappings
  | none => throw (.keyError model)

def isModelAvailable (model : String) : Bool :=
  match R.availableMappings model with
  | some mappings => decide (mappings ≠ [])
  | none => false

/-- `_get_strategy`: the strategy objects are keyed by the strategy's name. -/
def getStrategy (model : String) : Except RouteError RoutingStrategy :=
  match R.modelRegistry.config? model with
  | none => .error (.keyError model)
  | some config =>
      match config.routingStrategy with
      | .ensemble => .error (.keyError "ensemble")
      | .smart => if R.smartStrategy.isSome then .ok .smart else .error (.keyError "smart")
      | strategy => .ok strategy

end Router

/-- The order of `sorted(..., key=lambda m: m.fallback_order)`. -/
def ByOrder (a b : ProviderModelMapping) : Prop := a.fallbackOrder ≤ b.fallbackOrder

instance : DecidableRel ByOrder := fun _ _ ↦ inferInstanceAs (Decidable (_ ≤ _))

/-- The order of the key `(m.provider != preferred_provider, m.fallback_order)`. -/
def ByPreference (preferred : String) (a b : ProviderModelMapping) : Prop :=
  if a.provider = preferred then b.provider = preferred → ByOrder a b
  else b.provider ≠ preferred ∧ ByOrder a b

instance (preferred : String) : DecidableRel (ByPreference preferred) := fun _ _ ↦
  inferInstanceAs (Decidable (ite _ _ _))

/-- `sorted` on mappings, which keeps ties in place. -/
def sortedByOrder (mappings : List ProviderModelMapping) : List ProviderModelMapping :=
  mappings.insertionSort ByOrder

def sortedByPreference (preferred : String) (mappings : List ProviderModelMapping) :
    List ProviderModelMapping :=
  mappings.insertionSort (ByPreference preferred)

/-- A `preferred_provider` that is given and not empty. -/
def truthy : Option String → Option String
  | some "" => none
  | p => p

def isHealthy (provider : String) : Route Bool := Raising.ask (Op.isHealthy provider)

def skipped (m : ProviderModelMapping) : Attempt := ⟨m.provider, 0, "skipped (unhealthy)", none⟩

def failed (m : ProviderModelMapping) (e : ProviderError) : Attempt :=
  ⟨m.provider, e.statusCode, e.message, e.routeId⟩

/-- The loop over a chain of mappings: the unhealthy ones are skipped, and the
first attempt that yields a result ends it. -/
def tryEach {β : Type}
    (tryOne : ProviderModelMapping → List Attempt → Route (Option β × List Attempt))
    (exhausted : List Attempt → Route β) : List ProviderModelMapping → List Attempt → Route β
  | [], attempts => exhausted attempts
  | m :: ms, attempts => do
      if ← isHealthy m.provider then
        match ← tryOne m attempts with
        | (some result, _) => pure result
        | (none, attempts) => tryEach tryOne exhausted ms attempts
      else tryEach tryOne exhausted ms (attempts ++ [skipped m])

namespace Router

variable (R : Router)

/-- The strategy's choice for the model. -/
def initialMapping (model : String) (mappings : List ProviderModelMapping) :
    Route (Except RouteError ProviderModelMapping) :=
  match R.getStrategy model with
  | .ok strategy => Raising.ask (Op.select strategy mappings)
  | .error e => pure (.error e)

def shouldRetry (e : ProviderError) : Bool :=
  e.retryable.getD (decide (e.statusCode ∈ R.retryable))

/-- The cooldown after a failure, unless the error says the provider is up. -/
def markFailed (m : ProviderModelMapping) (e : ProviderError) : Route Unit :=
  if e.providerUnavailable ≠ some false then
    Raising.ask (Op.markUnhealthy m.provider R.cooldownSeconds)
  else pure ()

/-- What follows a call of `_try_provider`: `again` is the next call. -/
def afterCall (model : String) (m : ProviderModelMapping) (attempts : List Attempt)
    (again : ProviderError → Route (Option ChatCompletionResponse × List Attempt)) :
    CallResult → Route (Option ChatCompletionResponse × List Attempt)
  | .response content => pure (some ⟨m.provider, m.modelId, model, content⟩, attempts)
  | .raised message => throw (.raised message)
  | .providerError e =>
      if R.shouldRetry e then again e else pure (none, attempts ++ [failed m e])

/-- The loop of `_try_provider` at call number `n`, with `left` calls after it. -/
def tryFrom (model : String) (m : ProviderModelMapping) (attempts : List Attempt) :
    ℕ → ℕ → Route (Option ChatCompletionResponse × List Attempt)
  | n, 0 => Raising.ask (Op.call model m n) >>= R.afterCall model m attempts fun e ↦ do
      R.markFailed m e
      pure (none, attempts ++ [failed m e])
  | n, left + 1 => Raising.ask (Op.call model m n) >>= R.afterCall model m attempts fun _ ↦
      tryFrom model m attempts (n + 1) left

/-- `_try_provider`. -/
def tryProvider (model : String) (m : ProviderModelMapping) (attempts : List Attempt) :
    Route (Option ChatCompletionResponse × List Attempt) :=
  R.tryFrom model m attempts 0 R.maxRetries

/-- The loop of `execute_with_fallback` over the remaining mappings. -/
def fallBack (model : String) :
    List ProviderModelMapping → List Attempt → Route ChatCompletionResponse :=
  tryEach (R.tryProvider model) fun attempts ↦ throw (.allProvidersExhausted attempts)

def notAllowed (model : String) : List Attempt :=
  [⟨"none", 403, "Model '" ++ model ++ "' is not in the allowed models list", none⟩]

def noProvider (model : String) : List Attempt :=
  [⟨"none", 503, "Model '" ++ model ++ "' has no provider enabled in this deployment", none⟩]

/-- `execute_with_fallback` once a provider is preferred. -/
def executePreferred (model preferred : String) (mappings : List ProviderModelMapping) :
    Route ChatCompletionResponse :=
  match mappings.find? (·.provider == preferred) with
  | some m => do
      match ← R.tryProvider model m [] with
      | (some response, _) => pure response
      | (none, attempts) =>
          R.fallBack model (sortedByOrder (mappings.filter (·.provider != preferred))) attempts
  | none => R.fallBack model (sortedByOrder mappings) []

/-- `execute_with_fallback` where the strategy chooses first. -/
def executeSelected (model : String) (mappings : List ProviderModelMapping) :
    Route ChatCompletionResponse := do
  match ← R.initialMapping model mappings with
  | .error .noHealthyProvider =>
      throw (.allProvidersExhausted ((sortedByOrder mappings).map skipped))
  | .error e => throw e
  | .ok initial =>
      match ← R.tryProvider model initial [] with
      | (some response, _) => pure response
      | (none, attempts) =>
          R.fallBack model (sortedByOrder (mappings.filter (·.provider != initial.provider)))
            attempts

def executeWithFallback (model : String) (preferredProvider : Option String := none)
    (allowedModels : Option (List String) := none) : Route ChatCompletionResponse := do
  let mappings ← R.mappingsOrRaise model
  if allowedModels.any (model ∉ ·) then throw (.allProvidersExhausted (notAllowed model))
  else if mappings = [] then throw (.allProvidersExhausted (noProvider model))
  else
    match truthy preferredProvider with
    | some preferred => R.executePreferred model preferred mappings
    | none => R.executeSelected model mappings

/-! ## Native streaming -/

/-- `OpenedProviderStream` or `ProviderStreamUnavailable`. -/
inductive Opening where
  | opened (mapping : ProviderModelMapping) (firstChunk : Option String) (attempts : List Attempt)
  | unavailable (attempts : List Attempt)
  deriving DecidableEq

/-- `RoutingRuntime.stream_chain`. -/
def streamChain (model : String) (preferredProvider : Option String) :
    Route (List ProviderModelMapping) := do
  let mappings ← R.mappingsOrRaise model
  match truthy preferredProvider with
  | some preferred => pure (sortedByPreference preferred mappings)
  | none =>
      match ← R.initialMapping model mappings with
      | .error .noHealthyProvider => pure (sortedByOrder mappings)
      | .error e => throw e
      | .ok initial => pure (initial :: sortedByOrder (mappings.filter (·.ref != initial.ref)))

/-- One attempt to open a stream on `m`. -/
def tryStream (model : String) (m : ProviderModelMapping) (attempts : List Attempt) :
    Route (Option Opening × List Attempt) := do
  match ← Raising.ask (Op.openStream model m) with
  | .opened firstChunk => pure (some (.opened m firstChunk attempts), attempts)
  | .raised message => throw (.raised message)
  | .providerError e => do
      R.markFailed m e
      pure (none, attempts ++ [failed m e])

/-- The loop of `open_stream` over the chain. -/
def openAlong (model : String) : List ProviderModelMapping → List Attempt → Route Opening :=
  tryEach (R.tryStream model) fun attempts ↦ pure (.unavailable attempts)

/-- `RoutingRuntime.open_stream` of a runtime that is not closed. -/
def openStream (model : String) (preferredProvider : Option String := none)
    (allowedModels : Option (List String) := none) : Route Opening := do
  if allowedModels.any (model ∉ ·) then pure (.unavailable (notAllowed model))
  else do
    let chain ← R.streamChain model preferredProvider
    R.openAlong model chain []

variable {R} in
theorem nodup_availableMappings {model : String} {ms : List ProviderModelMapping}
    (h : R.availableMappings model = some ms) : ms.Nodup := by
  unfold availableMappings ModelRegistry.resolve at h
  cases hconfig : R.modelRegistry.config? model with
  | none =>
      rw [hconfig] at h
      cases h
  | some config =>
      rw [hconfig, Option.map_some, Option.map_some, Option.some_inj] at h
      rw [← h]
      exact (List.Nodup.of_map _ config.distinct).filter _

variable {R} in
theorem getStrategy_ne {model : String} : R.getStrategy model ≠ .error .noHealthyProvider := by
  unfold getStrategy
  split
  · simp
  · split
    · simp
    · split_ifs <;> simp
    · simp

end Router

/-! ## The two sort keys -/

theorem orderedInsert_preferred {preferred : String} {a : ProviderModelMapping}
    (ha : a.provider = preferred) (l r : List ProviderModelMapping)
    (hl : ∀ b ∈ l, b.provider = preferred) (hr : ∀ b ∈ r, b.provider ≠ preferred) :
    (l ++ r).orderedInsert (ByPreference preferred) a = l.orderedInsert ByOrder a ++ r := by
  induction l with
  | nil =>
      cases r with
      | nil => rfl
      | cons b r =>
          have hb : ByPreference preferred a b := by
            simp [ByPreference, ha, hr b List.mem_cons_self]
          simp [List.orderedInsert, hb]
  | cons b l ih =>
      have hb : b.provider = preferred := hl b List.mem_cons_self
      have hiff : ByPreference preferred a b ↔ ByOrder a b := by simp [ByPreference, ha, hb]
      have htail := ih fun c hc ↦ hl c (List.mem_cons_of_mem b hc)
      by_cases hab : ByOrder a b
      · simp [List.orderedInsert, hiff, hab]
      · simp [List.orderedInsert, hiff, hab, htail]

theorem orderedInsert_other {preferred : String} {a : ProviderModelMapping}
    (ha : a.provider ≠ preferred) (l r : List ProviderModelMapping)
    (hl : ∀ b ∈ l, b.provider = preferred) (hr : ∀ b ∈ r, b.provider ≠ preferred) :
    (l ++ r).orderedInsert (ByPreference preferred) a = l ++ r.orderedInsert ByOrder a := by
  induction l with
  | nil =>
      induction r with
      | nil => rfl
      | cons b r ih =>
          have hb : b.provider ≠ preferred := hr b List.mem_cons_self
          have hiff : ByPreference preferred a b ↔ ByOrder a b := by simp [ByPreference, ha, hb]
          have htail := ih fun c hc ↦ hr c (List.mem_cons_of_mem b hc)
          by_cases hab : ByOrder a b
          · simp [List.orderedInsert, hiff, hab]
          · simpa [List.orderedInsert, hiff, hab] using htail
  | cons b l ih =>
      have hb : b.provider = preferred := hl b List.mem_cons_self
      have hnot : ¬ByPreference preferred a b := by simp [ByPreference, ha, hb]
      have htail := ih fun c hc ↦ hl c (List.mem_cons_of_mem b hc)
      simp [hnot, htail]

@[simp] theorem mem_sortedByOrder {ms : List ProviderModelMapping} {m : ProviderModelMapping} :
    m ∈ sortedByOrder ms ↔ m ∈ ms :=
  List.mem_insertionSort ByOrder

/-- The preferred mappings come first; within both groups the order is the
fallback order. -/
theorem sortedByPreference_eq (preferred : String) (ms : List ProviderModelMapping) :
    sortedByPreference preferred ms =
      sortedByOrder (ms.filter (·.provider == preferred)) ++
        sortedByOrder (ms.filter (·.provider != preferred)) := by
  induction ms with
  | nil => rfl
  | cons a ms ih =>
      have hl : ∀ b ∈ sortedByOrder (ms.filter (·.provider == preferred)),
          b.provider = preferred := by simp
      have hr : ∀ b ∈ sortedByOrder (ms.filter (·.provider != preferred)),
          b.provider ≠ preferred := by simp
      have hcons : sortedByPreference preferred (a :: ms) =
          (sortedByPreference preferred ms).orderedInsert (ByPreference preferred) a := rfl
      rw [hcons, ih]
      by_cases ha : a.provider = preferred
      · rw [orderedInsert_preferred ha _ _ hl hr]
        simp [ha, sortedByOrder]
      · rw [orderedInsert_other ha _ _ hl hr]
        simp [ha, sortedByOrder]

end AxonGateway.Routing
