import AxonGateway.Lib.Scalarization
import AxonGateway.Routing.Smart

/-!
# The model that is selected

While nothing changes, smart routing selects a model that may be used and that no other candidate
dominates, and it selects the same model when all prices are multiplied by the same factor.
-/

namespace AxonGateway.Routing

open Interleaving Scalarization

/-! ## Candidates -/

/-- Every operation is answered as before. -/
def steady (answer : (o : Op) → Ret o) (o : Op) (u : Unit) : Ret o × Unit := (answer o, u)

section

variable {answer : (o : Op) → Ret o}

theorem play_anyHealthy (ms : List ProviderModelMapping) :
    (anyHealthy ms).play (steady answer) () =
      (.ok (ms.any fun m ↦ answer (.isHealthy m.provider)), ()) := by
  induction ms with
  | nil => rfl
  | cons m ms ih =>
      rw [anyHealthy, List.any_cons]
      refine (Raising.play_bind_ok (Raising.play_ask (Op.isHealthy m.provider) ())).trans ?_
      cases hhealthy : answer (.isHealthy m.provider) with
      | true =>
          simp only [steady, hhealthy, if_true, Bool.true_or]
          rfl
      | false =>
          simp only [steady, hhealthy, Bool.false_eq_true, if_false, Bool.false_or]
          exact ih

theorem play_overBudget (scope : String) (who : Option String) :
    (overBudget scope who).play (steady answer) () =
      (.ok (who.isSome && answer (.isOverBudget scope)), ()) := by
  cases who <;> rfl

namespace SmartRoutingStrategy

variable (T : SmartRoutingStrategy) (registry : ModelRegistry)

/-- The reason for which a model is filtered out while nothing changes. -/
def steadyReason (answer : (o : Op) → Ret o) (prompt : String)
    (allowedModels : Option (List String)) (projectId userId : Option String) (model : String) :
    Option String :=
  if allowedModels.any (model ∉ ·) then some "not_in_allowed_models"
  else
    match registry.config? model with
    | none => some "not_in_registry"
    | some config =>
        if config.providers.any fun m ↦ answer (.isHealthy m.provider) then
          if config.maxContextTokens.any (· < estimateTokenCount prompt) then
            some "context_window_too_small"
          else if projectId.isSome && answer (.isOverBudget "project") then some "over_budget"
          else if userId.isSome && answer (.isOverBudget "user") then some "over_budget"
          else none
        else some "all_providers_unhealthy"

variable {T registry} {prompt : String} {allowedModels : Option (List String)}
  {projectId userId : Option String}

theorem play_filteredReason (model : String) :
    (filteredReason registry prompt allowedModels projectId userId model).play (steady answer) () =
      (.ok (steadyReason registry answer prompt allowedModels projectId userId model), ()) := by
  unfold filteredReason steadyReason
  by_cases hallowed : allowedModels.any (model ∉ ·) = true
  · rw [if_pos hallowed, if_pos hallowed]
    rfl
  rw [if_neg hallowed, if_neg hallowed]
  cases registry.config? model with
  | none => rfl
  | some config =>
      refine (Raising.play_bind_ok (play_anyHealthy config.providers)).trans ?_
      dsimp only
      cases config.providers.any fun m ↦ answer (.isHealthy m.provider) with
      | false => rfl
      | true =>
          rw [if_pos rfl, if_pos rfl]
          by_cases hcontext : config.maxContextTokens.any (· < estimateTokenCount prompt) = true
          · rw [if_pos hcontext, if_pos hcontext]
            rfl
          rw [if_neg hcontext, if_neg hcontext]
          refine (Raising.play_bind_ok (play_overBudget "project" projectId)).trans ?_
          cases projectId.isSome && answer (.isOverBudget "project") with
          | true => rfl
          | false =>
              refine (Raising.play_bind_ok (play_overBudget "user" userId)).trans ?_
              cases userId.isSome && answer (.isOverBudget "user") <;> rfl

/-- The models that pass, and all that are considered, while nothing changes. -/
theorem play_candidates (scores : List ModelScore) :
    (candidates registry prompt allowedModels projectId userId scores).play (steady answer) () =
      (.ok (scores.filter fun c ↦
          (steadyReason registry answer prompt allowedModels projectId userId c.modelName) = none,
        scores.map fun c ↦ ⟨c.modelName, c.score,
          steadyReason registry answer prompt allowedModels projectId userId c.modelName⟩), ()) := by
  induction scores with
  | nil => rfl
  | cons score scores ih =>
      rw [candidates]
      refine (Raising.play_bind_ok (play_filteredReason score.modelName)).trans ?_
      refine (Raising.play_bind_ok ih).trans ?_
      rw [List.map_cons]
      by_cases hnone : steadyReason registry answer prompt allowedModels projectId userId
          score.modelName = none
      · rw [List.filter_cons_of_pos (by simpa using hnone)]
        simp only [hnone, if_true]
        rfl
      · rw [List.filter_cons_of_neg (by simpa using hnone)]
        simp only [hnone, if_false]
        rfl

/-- The candidates while nothing changes. -/
def steadyCandidates (T : SmartRoutingStrategy) (registry : ModelRegistry)
    (answer : (o : Op) → Ret o) (prompt : String) (allowedModels : Option (List String))
    (projectId userId : Option String) : List ModelScore :=
  (T.getRankings (T.classify prompt).taskType).filter fun c ↦
    (steadyReason registry answer prompt allowedModels projectId userId c.modelName) = none

/-- What is selected while nothing changes. -/
theorem play_selectModel :
    (T.selectModel registry prompt allowedModels projectId userId).play (steady answer) () =
      (if T.fallsBack prompt then .ok (T.decision prompt T.defaultModel 0 [] true)
        else match T.best registry (steadyCandidates T registry answer prompt allowedModels projectId
            userId) with
          | none => .error .noCandidateModels
          | some c => .ok (T.decision prompt c.modelName c.score
              ((T.getRankings (T.classify prompt).taskType).map fun c ↦ ⟨c.modelName, c.score,
                steadyReason registry answer prompt allowedModels projectId userId c.modelName⟩)
              false), ()) := by
  unfold selectModel
  cases T.fallsBack prompt with
  | true => rfl
  | false =>
      simp only [Bool.false_eq_true, if_false]
      refine (Raising.play_bind_ok (play_candidates _)).trans ?_
      dsimp only [steadyCandidates]
      cases T.best registry _ <;> rfl

/-! ## Costs -/

variable (T registry)

def costOf (model : String) : Option ℚ := (registry.config? model).bind T.modelCost

/-- The costs of the models that are priced. -/
def knownCosts (models : List String) : List ℚ := (models.map (T.costOf registry)).reduceOption

/-- The cost of a model, or the mean of the known costs for want of its own. -/
def effectiveCost (models : List String) (model : String) : ℚ :=
  (T.costOf registry model).getD (if T.knownCosts registry models = [] then 0
    else (T.knownCosts registry models).sum / (T.knownCosts registry models).length)

def maxKnownCost (models : List String) : ℚ :=
  (T.knownCosts registry models).foldl max ((T.knownCosts registry models).headD 0)

variable {T registry}

theorem best_eq (candidates : List ModelScore) :
    T.best registry candidates = candidates.argmax fun c ↦ score T.costQualityTradeoff
      ((candidates.map ModelScore.score).foldl max ((candidates.map ModelScore.score).headD 0))
      (if T.maxKnownCost registry (candidates.map ModelScore.modelName) = 0 then 1
        else T.maxKnownCost registry (candidates.map ModelScore.modelName))
      c.score (T.effectiveCost registry (candidates.map ModelScore.modelName) c.modelName) := by
  unfold best effectiveCost maxKnownCost knownCosts
  rw [List.map_map]
  rfl

theorem resolvePricing_billable {m : ProviderModelMapping} {p : TokenPricing}
    (h : T.resolvePricing m = some p) : p.isBillable = true := by
  unfold resolvePricing at h
  cases hinline : m.pricing.filter TokenPricing.isBillable with
  | some q =>
      rw [hinline] at h
      rw [← Option.some.inj h]
      exact (Option.filter_eq_some_iff.mp hinline).2
  | none =>
      rw [hinline] at h
      exact (Option.filter_eq_some_iff.mp h).2

theorem modelCost_nonneg {config : ModelConfig} {cost : ℚ} (h : T.modelCost config = some cost) :
    0 ≤ cost := by
  have hrates : ∀ p ∈ (config.providers.map T.resolvePricing).reduceOption,
      0 ≤ (p.promptTokenCost + p.completionTokenCost) / 2 := by
    intro p hp
    obtain ⟨m, -, hm⟩ := List.mem_map.mp (List.reduceOption_mem_iff.mp hp)
    have hbillable := resolvePricing_billable hm
    unfold TokenPricing.isBillable at hbillable
    rw [Bool.and_eq_true, List.all_eq_true] at hbillable
    have hprompt := hbillable.1 p.promptTokenCost (by simp [TokenPricing.configured, List.reduceOption])
    have hcompletion := hbillable.1 p.completionTokenCost
      (by simp [TokenPricing.configured, List.reduceOption])
    rw [decide_eq_true_eq] at hprompt hcompletion
    positivity
  unfold modelCost at h
  dsimp only at h
  split_ifs at h
  rw [← Option.some.inj h]
  refine div_nonneg (List.sum_nonneg fun x hx ↦ ?_) (Nat.cast_nonneg _)
  obtain ⟨p, hp, rfl⟩ := List.mem_map.mp hx
  exact hrates p hp

theorem knownCosts_nonneg {models : List String} :
    ∀ cost ∈ T.knownCosts registry models, 0 ≤ cost := by
  intro cost hcost
  obtain ⟨model, -, hmodel⟩ := List.mem_map.mp (List.reduceOption_mem_iff.mp hcost)
  obtain ⟨config, -, hconfig⟩ := Option.bind_eq_some_iff.mp hmodel
  exact modelCost_nonneg hconfig

theorem maxKnownCost_nonneg (models : List String) : 0 ≤ T.maxKnownCost registry models := by
  have hnonneg : ∀ cost ∈ T.knownCosts registry models, 0 ≤ cost := knownCosts_nonneg
  unfold maxKnownCost
  cases hknown : T.knownCosts registry models with
  | nil => exact le_rfl
  | cons cost costs =>
      rw [hknown] at hnonneg
      exact (hnonneg cost List.mem_cons_self).trans (le_foldl_max (cost :: costs) cost).1

/-- The best candidate is not dominated. -/
theorem best_undominated {candidates : List ModelScore} {c c' : ModelScore}
    (ht : 0 < T.costQualityTradeoff ∧ T.costQualityTradeoff < 1)
    (hscores : ∀ c ∈ candidates, 0 ≤ c.score) (h : T.best registry candidates = some c)
    (hc' : c' ∈ candidates) :
    ¬Dominates c'.score
      (T.effectiveCost registry (candidates.map ModelScore.modelName) c'.modelName) c.score
      (T.effectiveCost registry (candidates.map ModelScore.modelName) c.modelName) := by
  intro hdominates
  rw [best_eq] at h
  have hmaxCost : 0 < if T.maxKnownCost registry (candidates.map ModelScore.modelName) = 0 then 1
      else T.maxKnownCost registry (candidates.map ModelScore.modelName) := by
    split_ifs with hzero
    · exact zero_lt_one
    · exact lt_of_le_of_ne (maxKnownCost_nonneg _) (Ne.symm hzero)
  have hmaxGain : c'.score ≤ (candidates.map ModelScore.score).foldl max
      ((candidates.map ModelScore.score).headD 0) :=
    (le_foldl_max _ _).2 _ (List.mem_map_of_mem hc')
  exact List.not_lt_of_mem_argmax hc' h (hdominates.score_lt ht.2 ht.1 hmaxGain
    (hscores c (List.argmax_mem h)) hmaxCost)

end SmartRoutingStrategy

end

/-! ## Prices in another unit -/

/-- Every rate is multiplied. -/
def TokenPricing.scale (k : ℚ) (p : TokenPricing) : TokenPricing where
  promptTokenCost := k * p.promptTokenCost
  completionTokenCost := k * p.completionTokenCost
  cachedTokenCost := p.cachedTokenCost.map (k * ·)
  cacheCreationTokenCost := p.cacheCreationTokenCost.map (k * ·)
  imageTokenCost := p.imageTokenCost.map (k * ·)
  reasoningTokenCost := p.reasoningTokenCost.map (k * ·)
  perRequestCost := k * p.perRequestCost

def ProviderModelMapping.scale (k : ℚ) (m : ProviderModelMapping) : ProviderModelMapping :=
  { m with pricing := m.pricing.map (TokenPricing.scale k) }

def ModelConfig.scale (k : ℚ) (config : ModelConfig) : ModelConfig where
  name := config.name
  providers := config.providers.map (ProviderModelMapping.scale k)
  routingStrategy := config.routingStrategy
  maxContextTokens := config.maxContextTokens
  distinct := by
    rw [List.map_map]
    exact config.distinct

def ModelRegistry.scale (k : ℚ) (registry : ModelRegistry) : ModelRegistry where
  models := registry.models.map (ModelConfig.scale k)
  distinct := by
    rw [List.map_map]
    exact registry.distinct

def SmartRoutingStrategy.scale (k : ℚ) (T : SmartRoutingStrategy) : SmartRoutingStrategy :=
  { T with pricingConfig := fun provider modelId ↦
      (T.pricingConfig provider modelId).map (TokenPricing.scale k) }

section

variable {k : ℚ}

theorem TokenPricing.configured_scale (p : TokenPricing) :
    (p.scale k).configured = p.configured.map (k * ·) := by
  unfold configured
  rw [← List.reduceOption_map]
  rfl

theorem TokenPricing.isBillable_scale (hk : 0 < k) (p : TokenPricing) :
    (p.scale k).isBillable = p.isBillable := by
  unfold isBillable
  rw [configured_scale, List.all_map, List.any_map]
  congr 1
  · apply List.all_congr rfl
    intro rate
    simp [mul_nonneg_iff_of_pos_left hk]
  · apply List.any_congr rfl
    intro rate
    simp [mul_pos_iff_of_pos_left hk]

theorem ModelRegistry.config?_scale (registry : ModelRegistry) (model : String) :
    (registry.scale k).config? model = (registry.config? model).map (ModelConfig.scale k) := by
  unfold config? scale
  rw [List.find?_map]
  rfl

namespace SmartRoutingStrategy

variable {T : SmartRoutingStrategy} {registry : ModelRegistry}

theorem filter_scale (hk : 0 < k) (pricing : Option TokenPricing) :
    (pricing.map (TokenPricing.scale k)).filter TokenPricing.isBillable =
      (pricing.filter TokenPricing.isBillable).map (TokenPricing.scale k) := by
  cases pricing with
  | none => rfl
  | some p =>
      rw [Option.map_some, Option.filter_some, Option.filter_some, TokenPricing.isBillable_scale hk]
      split_ifs <;> rfl

theorem resolvePricing_scale (hk : 0 < k) (m : ProviderModelMapping) :
    (T.scale k).resolvePricing (m.scale k) = (T.resolvePricing m).map (TokenPricing.scale k) := by
  have hinline : (m.scale k).pricing = m.pricing.map (TokenPricing.scale k) := rfl
  have htable : (T.scale k).pricingConfig (m.scale k).provider (m.scale k).modelId =
      (T.pricingConfig m.provider m.modelId).map (TokenPricing.scale k) := rfl
  unfold resolvePricing
  rw [hinline, htable, filter_scale hk, filter_scale hk]
  cases m.pricing.filter TokenPricing.isBillable <;> rfl

theorem mean_map_mul (k : ℚ) (l : List ℚ) :
    (l.map (k * ·)).sum / (l.map (k * ·)).length = k * (l.sum / l.length) := by
  rw [List.length_map, List.sum_map_mul_left, List.map_id', mul_div_assoc]

theorem modelCost_scale (hk : 0 < k) (config : ModelConfig) :
    (T.scale k).modelCost (config.scale k) = (T.modelCost config).map (k * ·) := by
  have hpricings : ((config.scale k).providers.map (T.scale k).resolvePricing).reduceOption =
      (config.providers.map T.resolvePricing).reduceOption.map (TokenPricing.scale k) := by
    rw [← List.reduceOption_map, List.map_map]
    congr 1
    rw [show (config.scale k).providers = config.providers.map (ProviderModelMapping.scale k)
      from rfl, List.map_map]
    exact List.map_congr_left fun m _ ↦ resolvePricing_scale hk m
  have hcosts : ((config.scale k).providers.map (T.scale k).resolvePricing).reduceOption.map
      (fun p ↦ (p.promptTokenCost + p.completionTokenCost) / 2) =
      ((config.providers.map T.resolvePricing).reduceOption.map
        fun p ↦ (p.promptTokenCost + p.completionTokenCost) / 2).map (k * ·) := by
    rw [hpricings, List.map_map, List.map_map]
    refine List.map_congr_left fun p _ ↦ ?_
    simp only [Function.comp_apply, TokenPricing.scale]
    ring
  unfold modelCost
  dsimp only
  rw [hcosts]
  cases (config.providers.map T.resolvePricing).reduceOption.map
      fun p ↦ (p.promptTokenCost + p.completionTokenCost) / 2 with
  | nil => rfl
  | cons cost costs =>
      rw [if_neg (by simp), if_neg (List.cons_ne_nil cost costs), mean_map_mul]
      rfl

theorem costOf_scale (hk : 0 < k) (model : String) :
    (T.scale k).costOf (registry.scale k) model = (T.costOf registry model).map (k * ·) := by
  unfold costOf
  rw [ModelRegistry.config?_scale]
  cases registry.config? model with
  | none => rfl
  | some config => exact modelCost_scale hk config

theorem knownCosts_scale (hk : 0 < k) (models : List String) :
    (T.scale k).knownCosts (registry.scale k) models = (T.knownCosts registry models).map (k * ·) := by
  unfold knownCosts
  rw [← List.reduceOption_map, List.map_map]
  congr 1
  exact List.map_congr_left fun model _ ↦ costOf_scale hk model

theorem effectiveCost_scale (hk : 0 < k) (models : List String) (model : String) :
    (T.scale k).effectiveCost (registry.scale k) models model =
      k * T.effectiveCost registry models model := by
  unfold effectiveCost
  rw [knownCosts_scale hk, costOf_scale hk]
  cases T.costOf registry model with
  | some cost => rfl
  | none =>
      rw [Option.map_none, Option.getD_none, Option.getD_none]
      cases T.knownCosts registry models with
      | nil => exact (mul_zero k).symm
      | cons cost costs =>
          rw [if_neg (by simp), if_neg (List.cons_ne_nil cost costs), mean_map_mul]

theorem maxKnownCost_scale (hk : 0 < k) (models : List String) :
    (T.scale k).maxKnownCost (registry.scale k) models = k * T.maxKnownCost registry models := by
  have hhead : ((T.knownCosts registry models).map (k * ·)).headD 0 =
      k * (T.knownCosts registry models).headD 0 := by
    cases T.knownCosts registry models with
    | nil => exact (mul_zero k).symm
    | cons cost costs => rfl
  unfold maxKnownCost
  rw [knownCosts_scale hk, hhead, foldl_max_mul hk.le]

/-- Where no known cost is positive, no candidate costs anything. -/
theorem effectiveCost_eq_zero {models : List String} {model : String} (hmodel : model ∈ models)
    (hzero : T.maxKnownCost registry models = 0) : T.effectiveCost registry models model = 0 := by
  have hknown : ∀ cost ∈ T.knownCosts registry models, cost = 0 := by
    intro cost hcost
    have hle : cost ≤ T.maxKnownCost registry models := (le_foldl_max _ _).2 cost hcost
    exact le_antisymm (hzero ▸ hle) (knownCosts_nonneg cost hcost)
  unfold effectiveCost
  cases hcost : T.costOf registry model with
  | some cost =>
      exact hknown cost (List.reduceOption_mem_iff.mpr (hcost ▸ List.mem_map_of_mem hmodel))
  | none =>
      rw [Option.getD_none]
      split_ifs
      · rfl
      · rw [List.sum_eq_zero hknown, zero_div]

theorem best_scale (hk : 0 < k) (candidates : List ModelScore) :
    (T.scale k).best (registry.scale k) candidates = T.best registry candidates := by
  rw [best_eq, best_eq]
  refine argmax_congr fun c hc ↦ ?_
  have hmodel : c.modelName ∈ candidates.map ModelScore.modelName := List.mem_map_of_mem hc
  rw [effectiveCost_scale hk, maxKnownCost_scale hk]
  change score T.costQualityTradeoff _ _ _ _ = _
  by_cases hzero : T.maxKnownCost registry (candidates.map ModelScore.modelName) = 0
  · rw [hzero, mul_zero, effectiveCost_eq_zero hmodel hzero, mul_zero]
  · rw [if_neg hzero, if_neg (mul_ne_zero hk.ne' hzero), score_mul hk]

variable {answer : (o : Op) → Ret o} {prompt : String} {allowedModels : Option (List String)}
  {projectId userId : Option String}

theorem steadyReason_scale (model : String) :
    steadyReason (registry.scale k) answer prompt allowedModels projectId userId model =
      steadyReason registry answer prompt allowedModels projectId userId model := by
  unfold steadyReason
  rw [ModelRegistry.config?_scale]
  cases registry.config? model with
  | none => rfl
  | some config =>
      rw [Option.map_some]
      dsimp only [ModelConfig.scale]
      rw [List.any_map]
      rfl

theorem play_selectModel_scale (hk : 0 < k) :
    ((T.scale k).selectModel (registry.scale k) prompt allowedModels projectId userId).play
        (steady answer) () =
      (T.selectModel registry prompt allowedModels projectId userId).play (steady answer) () := by
  have hcandidates : steadyCandidates (T.scale k) (registry.scale k) answer prompt allowedModels
      projectId userId = steadyCandidates T registry answer prompt allowedModels projectId userId := by
    unfold steadyCandidates
    refine List.filter_congr fun c _ ↦ ?_
    rw [steadyReason_scale]
  rw [play_selectModel, play_selectModel, hcandidates, best_scale hk]
  simp only [steadyReason_scale]
  rfl

/-! ## The selection -/

/-- The candidates that passed all filters. -/
def SmartRoutingDecision.passed (d : SmartRoutingDecision) : List Considered :=
  d.candidatesConsidered.filter fun c ↦ c.filteredReason = none

/-- A selected model may be used, and no other candidate dominates it. -/
structure Sound (T : SmartRoutingStrategy) (registry : ModelRegistry) (answer : (o : Op) → Ret o)
    (prompt : String) (allowedModels : Option (List String)) (d : SmartRoutingDecision) : Prop where
  usable : ∃ config, registry.config? d.selectedModel = some config ∧
    (∃ m ∈ config.providers, answer (.isHealthy m.provider) = true) ∧
    ∀ tokens, config.maxContextTokens = some tokens → estimateTokenCount prompt ≤ tokens
  allowed : ∀ models, allowedModels = some models → d.selectedModel ∈ models
  undominated : ∀ c ∈ SmartRoutingDecision.passed d, ¬Dominates c.benchmarkScore
    (T.effectiveCost registry ((SmartRoutingDecision.passed d).map Considered.model) c.model)
    d.benchmarkScore
    (T.effectiveCost registry ((SmartRoutingDecision.passed d).map Considered.model)
      d.selectedModel)

theorem steadyReason_eq_none {model : String}
    (h : steadyReason registry answer prompt allowedModels projectId userId model = none) :
    (∃ config, registry.config? model = some config ∧
      (∃ m ∈ config.providers, answer (.isHealthy m.provider) = true) ∧
      ∀ tokens, config.maxContextTokens = some tokens → estimateTokenCount prompt ≤ tokens) ∧
    ∀ models, allowedModels = some models → model ∈ models := by
  unfold steadyReason at h
  by_cases hallowed : allowedModels.any (model ∉ ·) = true
  · rw [if_pos hallowed] at h
    cases h
  rw [if_neg hallowed] at h
  cases hconfig : registry.config? model with
  | none =>
      rw [hconfig] at h
      cases h
  | some config =>
      rw [hconfig] at h
      dsimp only at h
      split_ifs at h with hhealthy hcontext
      refine ⟨⟨config, rfl, List.any_eq_true.mp hhealthy, fun tokens htokens ↦ ?_⟩, ?_⟩
      · rw [htokens] at hcontext
        simpa using hcontext
      · rintro models rfl
        simpa using hallowed

theorem filter_considered (reason : String → Option String) (scores : List ModelScore) :
    (scores.map fun c ↦ (⟨c.modelName, c.score, reason c.modelName⟩ : Considered)).filter
        (fun c ↦ c.filteredReason = none) =
      (scores.filter fun c ↦ reason c.modelName = none).map
        fun c ↦ ⟨c.modelName, c.score, none⟩ := by
  rw [List.filter_map]
  refine List.map_congr_left fun c hc ↦ ?_
  have hnone : reason c.modelName = none := of_decide_eq_true (List.mem_filter.mp hc).2
  rw [hnone]

/-- Every provider is healthy, and no budget is used up. -/
def calm : (o : Op) → Ret o
  | .select _ _ => .error .valueError
  | .isHealthy _ => true
  | .markUnhealthy _ _ => ()
  | .call _ _ _ => .raised ""
  | .openStream _ _ => .raised ""
  | .isOverBudget _ => false
  | .gate _ => true

def oneModel : ModelRegistry where
  models := [{ name := "a", providers := [⟨0, "p", "a-1", 1, 0, none⟩], distinct := by simp }]
  distinct := by simp

def oneRanking : SmartRoutingStrategy where
  classify _ := ⟨"general", 1⟩
  getRankings _ := [⟨"a", 90⟩]
  pricingConfig _ _ := none

theorem play_oneModel : (oneRanking.selectModel oneModel "hi" none none none).play (steady calm) () =
    (.ok (oneRanking.decision "hi" "a" 90 [⟨"a", 90, none⟩] false), ()) := by
  have hfalls : oneRanking.fallsBack "hi" = false := by
    have hconfidence : ¬(1 : ℚ) < 3 / 10 := by norm_num
    simp [fallsBack, oneRanking, hconfidence]
  rw [play_selectModel, if_neg (by rw [hfalls]; exact Bool.false_ne_true)]
  rfl

end SmartRoutingStrategy

end

end AxonGateway.Routing
