import AxonGateway.Routing.Router

/-!
# Smart and ensemble routing

Both choose the logical model themselves and hand it to `executeWithFallback`.
-/

namespace AxonGateway.Routing

open Interleaving

/-! ## Selecting a model -/

/-- An entry of `candidates_considered`; `filteredReason` is `none` for a
candidate that passed. -/
structure Considered where
  model : String
  benchmarkScore : ℚ
  filteredReason : Option String := none

structure SmartRoutingDecision where
  taskType : String
  confidence : ℚ
  selectedModel : String
  benchmarkScore : ℚ
  candidatesConsidered : List Considered
  usedFallback : Bool
  costQualityTradeoff : ℚ

/-- `any(is_healthy(p.provider) for p in providers)`. -/
def anyHealthy : List ProviderModelMapping → Route Bool
  | [] => pure false
  | m :: ms => do
      if ← isHealthy m.provider then pure true else anyHealthy ms

def overBudget (scope : String) : Option String → Route Bool
  | none => pure false
  | some _ => Raising.ask (Op.isOverBudget scope)

/-- `_estimate_token_count`. -/
def estimateTokenCount (prompt : String) : ℕ := max 1 (prompt.length / 4)

namespace SmartRoutingStrategy

variable (T : SmartRoutingStrategy) (registry : ModelRegistry)

/-- `_resolve_pricing`. -/
def resolvePricing (m : ProviderModelMapping) : Option TokenPricing :=
  m.pricing.filter TokenPricing.isBillable <|>
    (T.pricingConfig m.provider m.modelId).filter TokenPricing.isBillable

/-- `_get_model_cost`. -/
def modelCost (config : ModelConfig) : Option ℚ :=
  let costs := (config.providers.map T.resolvePricing).reduceOption.map fun p ↦
    (p.promptTokenCost + p.completionTokenCost) / 2
  if costs = [] then none else some (costs.sum / costs.length)

/-- `_compute_composite_score`. -/
def compositeScore (benchmarkScore costPerToken maxBenchmark maxCost : ℚ) : ℚ :=
  let normBenchmark := if 0 < maxBenchmark then benchmarkScore / maxBenchmark else 0
  let normCost := if 0 < maxCost then costPerToken / maxCost else 0
  (1 - T.costQualityTradeoff) * normBenchmark + T.costQualityTradeoff * (1 - normCost)

/-- The best candidate by composite score, the first one on a tie. -/
def best (candidates : List ModelScore) : Option ModelScore :=
  let cost (c : ModelScore) : Option ℚ := (registry.config? c.modelName).bind T.modelCost
  let known := (candidates.map cost).reduceOption
  let maxBenchmark := (candidates.map ModelScore.score).foldl max
    ((candidates.map ModelScore.score).headD 0)
  let maxCost := known.foldl max (known.headD 0)
  let maxCost := if maxCost = 0 then 1 else maxCost
  let fallbackCost := if known = [] then 0 else known.sum / known.length
  candidates.argmax fun c ↦
    T.compositeScore c.score ((cost c).getD fallbackCost) maxBenchmark maxCost

/-- The reason for which a ranked model is filtered out, if there is one. -/
def filteredReason (prompt : String) (allowedModels : Option (List String))
    (projectId userId : Option String) (model : String) : Route (Option String) :=
  if allowedModels.any (model ∉ ·) then pure (some "not_in_allowed_models")
  else
    match registry.config? model with
    | none => pure (some "not_in_registry")
    | some config => do
        if ← anyHealthy config.providers then
          if config.maxContextTokens.any (· < estimateTokenCount prompt) then
            pure (some "context_window_too_small")
          else if ← overBudget "project" projectId then pure (some "over_budget")
          else if ← overBudget "user" userId then pure (some "over_budget")
          else pure none
        else pure (some "all_providers_unhealthy")

/-- The loop over the rankings: the candidates and all that was considered. -/
def candidates (prompt : String) (allowedModels : Option (List String))
    (projectId userId : Option String) :
    List ModelScore → Route (List ModelScore × List Considered)
  | [] => pure ([], [])
  | score :: scores => do
      let reason ← filteredReason registry prompt allowedModels projectId userId score.modelName
      let (passed, considered) ← candidates prompt allowedModels projectId userId scores
      pure (if reason = none then score :: passed else passed,
        ⟨score.modelName, score.score, reason⟩ :: considered)

/-- Low confidence, or no rankings for the task type: `select_model` falls back. -/
def fallsBack (prompt : String) : Bool :=
  decide ((T.classify prompt).confidence < T.confidenceThreshold) ||
    (T.getRankings (T.classify prompt).taskType).isEmpty

def decision (prompt model : String) (score : ℚ) (considered : List Considered)
    (usedFallback : Bool) : SmartRoutingDecision :=
  ⟨(T.classify prompt).taskType, (T.classify prompt).confidence, model, score, considered,
    usedFallback, T.costQualityTradeoff⟩

/-- `select_model`. -/
def selectModel (prompt : String) (allowedModels : Option (List String))
    (projectId userId : Option String) : Route SmartRoutingDecision :=
  if T.fallsBack prompt then pure (T.decision prompt T.defaultModel 0 [] true)
  else do
    let (passed, considered) ← candidates registry prompt allowedModels projectId userId
      (T.getRankings (T.classify prompt).taskType)
    match T.best registry passed with
    | none => throw .noCandidateModels
    | some c => pure (T.decision prompt c.modelName c.score considered false)

end SmartRoutingStrategy

namespace Router

variable (R : Router)

/-- The names of the models this deployment can serve. -/
def runtimeModels : List String :=
  (R.modelRegistry.models.map ModelConfig.name).filter R.isModelAvailable

/-- `runtime_models`, intersected with an allow-list if there is one. -/
def routingAllowed (allowedModels : Option (List String)) : List String :=
  match allowedModels with
  | none => R.runtimeModels
  | some allowed => R.runtimeModels.filter (· ∈ allowed)

/-- `provider_fn_factory.create`, which needs a factory. -/
def createProviderFn (hasFactory : Bool) : Route Unit :=
  if hasFactory then pure () else throw (.raised "'NoneType' object has no attribute 'create'")

/-- `smart_route`. -/
def smartRoute (hasFactory : Bool) (prompt : String) (allowedModels : Option (List String))
    (projectId userId : Option String) :
    Route (ChatCompletionResponse × SmartRoutingDecision) :=
  match R.smartStrategy with
  | none => throw (.raised "Smart routing strategy not configured")
  | some T => do
      let effectiveAllowed := R.routingAllowed allowedModels
      let decision ← T.selectModel R.modelRegistry prompt (some effectiveAllowed) projectId userId
      createProviderFn hasFactory
      match ← Raising.attempt
          (R.executeWithFallback decision.selectedModel none (some effectiveAllowed)) with
      | .ok response => pure (response, decision)
      | .error (.allProvidersExhausted attempts) =>
          if decision.selectedModel = T.defaultModel then throw (.allProvidersExhausted attempts)
          else do
            createProviderFn hasFactory
            let response ← R.executeWithFallback T.defaultModel none (some effectiveAllowed)
            pure (response, { decision with
              selectedModel := T.defaultModel, benchmarkScore := 0, usedFallback := true })
      | .error e => throw e

/-! ## Ensembles -/

/-- The outcome of one panel member. -/
structure PanelMemberResult where
  model : String
  response : Option ChatCompletionResponse

/-- One member of the panel; whatever goes wrong is the member's failure.  The
gate is the time limit of the member. -/
def dispatch (allowedModels : Option (List String)) (model : String) : Route PanelMemberResult := do
  match ← Raising.attempt (R.executeWithFallback model none allowedModels) with
  | .ok response => do
      if ← Raising.ask (Op.gate "panel member in time") then pure ⟨model, some response⟩
      else pure ⟨model, none⟩
  | .error _ => pure ⟨model, none⟩

/-- The members of the panel.  The gateway gathers them concurrently; which
calls they may make does not depend on the order. -/
def dispatchAll (allowedModels : Option (List String)) :
    List String → Route (List PanelMemberResult)
  | [] => pure []
  | model :: models => do
      let result ← R.dispatch allowedModels model
      let results ← dispatchAll allowedModels models
      pure (result :: results)

/-- `rank_survivors`: the longest completion first, ties in panel order. -/
def rankSurvivors (criteria : String) (survivors : List ChatCompletionResponse) :
    List ChatCompletionResponse :=
  if criteria = "length" then
    survivors.insertionSort fun a b ↦ b.content.length ≤ a.content.length
  else survivors

/-- Steps 5 and 6 of `ensemble_route`: the quorum and the judge. -/
def conclude (preset : EnsemblePreset) (allowedModels : Option (List String))
    (survivors : List ChatCompletionResponse) : Route ChatCompletionResponse :=
  match (rankSurvivors preset.rankingCriteria survivors).head? with
  | none => throw .ensembleNoSurvivors
  | some best =>
      if (survivors.length : ℤ) < preset.quorum then
        if preset.fallbackPolicy = "best-single" then pure best else throw .ensembleQuorum
      else do
        match ← Raising.attempt (R.executeWithFallback preset.judge none allowedModels) with
        | .ok response => pure response
        | .error _ => throw .ensembleSynthesis

/-- `ensemble_route`; `estimate` is the estimated cost of one call. -/
def ensembleRoute (hasFactory : Bool) (preset : EnsemblePreset)
    (allowedModels : Option (List String)) (estimate : ℚ) : Route ChatCompletionResponse :=
  match allowedModels.bind fun allowed ↦ (preset.panel ++ [preset.judge]).find? (· ∉ allowed) with
  | some denied => throw (.ensembleAccess denied)
  | none =>
      if preset.costCeiling.any (· < (preset.panel.length + 1) * estimate) then
        throw .ensembleCostCeiling
      else do
        createProviderFn hasFactory
        let results ← R.dispatchAll allowedModels preset.panel
        R.conclude preset allowedModels (results.map PanelMemberResult.response).reduceOption

end Router

end AxonGateway.Routing
