import AxonGateway.Lib.Scalarization
import AxonGateway.Routing.Router

/-!
# Costs and their estimates

The cost tracker prices a call from its usage. Before a request is routed, the gateway prices every
mapping that may answer with an estimate of the tokens, and reserves the largest cost.
-/

namespace AxonGateway.Routing

structure TokenUsage where
  promptTokens : ℕ
  completionTokens : ℕ
  cachedTokens : ℕ := 0
  imageTokens : ℕ := 0
  reasoningTokens : ℕ := 0
  cacheCreationTokens : ℕ := 0
  deriving DecidableEq

namespace TokenPricing

variable (p : TokenPricing)

def cachedRate : ℚ := p.cachedTokenCost.getD p.promptTokenCost

def creationRate : ℚ := p.cacheCreationTokenCost.getD p.promptTokenCost

/-- The cost of tokens at a rate for a thousand. -/
def costOf (tokens : ℕ) (rate : ℚ) : ℚ := tokens / 1000 * rate

/-- The cost of a usage at billable prices. -/
def cost (usage : TokenUsage) : ℚ :=
  let billablePrompt := usage.promptTokens - usage.cachedTokens - usage.cacheCreationTokens
  costOf billablePrompt p.promptTokenCost + costOf usage.completionTokens p.completionTokenCost +
    (if 0 < usage.cachedTokens then costOf usage.cachedTokens p.cachedRate else 0) +
    (if 0 < usage.cacheCreationTokens then costOf usage.cacheCreationTokens p.creationRate else 0) +
    (match p.imageTokenCost with
      | some rate => if 0 < usage.imageTokens then costOf usage.imageTokens rate else 0
      | none => 0) +
    (match p.reasoningTokenCost with
      | some rate => if 0 < usage.reasoningTokens then costOf usage.reasoningTokens rate else 0
      | none => 0) + p.perRequestCost

end TokenPricing

/-- `CostTracker.calculate_cost` -/
def calculateCost (pricing : PricingConfig) (provider model : String) (usage : TokenUsage) : ℚ :=
  match pricing provider model with
  | none => 0
  | some p => if p.isBillable then p.cost usage else 0

/-- `max(estimates, default=0.0)` -/
def largest : List ℚ → ℚ
  | [] => 0
  | estimate :: rest => rest.foldl max estimate

namespace Router

variable (R : Router) (pricing : PricingConfig)

/-- `get_fallback_chain`; `none` is the `KeyError` of an unknown model. -/
def getFallbackChain (model : String) : Option (List ProviderModelMapping) :=
  (R.availableMappings model).map sortedByOrder

/-- `_estimate_models_cost`; a model that is not in the registry adds nothing. -/
def estimateModelsCost (models : List String) (promptTokens completionTokens : ℕ) : ℚ :=
  largest (models.flatMap fun model ↦ ((R.getFallbackChain model).getD []).map fun mapping ↦
    calculateCost pricing mapping.provider mapping.modelId ⟨promptTokens, completionTokens, 0, 0, 0, 0⟩)

end Router

/-! ## Estimates of tokens -/

/-- The prompt tokens that are assumed of messages with these contents. -/
def estimatePromptTokens (contents : List String) : ℕ :=
  max 1 ((contents.map String.length).sum / 4)

/-- `request.max_tokens or 256` -/
def estimateCompletionTokens (maxTokens : Option ℕ) : ℕ :=
  match maxTokens with
  | none | some 0 => 256
  | some n => n

/-! ## The estimate covers the cost -/

/-- A usage with no more than the given tokens, and neither image nor reasoning tokens. -/
structure TokenUsage.Within (promptTokens completionTokens : ℕ) (usage : TokenUsage) : Prop where
  parts : usage.cachedTokens + usage.cacheCreationTokens ≤ usage.promptTokens
  prompt : usage.promptTokens ≤ promptTokens
  completion : usage.completionTokens ≤ completionTokens
  image : usage.imageTokens = 0
  reasoning : usage.reasoningTokens = 0

/-- The tokens that were cached, or that a cache was created from, cost no more than a prompt. -/
def PlainlyPriced (pricing : PricingConfig) (provider model : String) (usage : TokenUsage) : Prop :=
  ∀ p, pricing provider model = some p →
    (0 < usage.cachedTokens → p.cachedRate ≤ p.promptTokenCost) ∧
      (0 < usage.cacheCreationTokens → p.creationRate ≤ p.promptTokenCost)

namespace TokenPricing

variable {p : TokenPricing} {usage : TokenUsage} {promptTokens completionTokens : ℕ}

theorem costOf_le {tokens tokens' : ℕ} {rate rate' : ℚ} (hrate : 0 ≤ rate)
    (htokens : tokens ≤ tokens') (hle : 0 < tokens → rate ≤ rate') (hrate' : 0 ≤ rate') :
    costOf tokens rate ≤ costOf tokens' rate' := by
  unfold costOf
  have hcast : (tokens : ℚ) ≤ tokens' := Nat.cast_le.mpr htokens
  rcases Nat.eq_zero_or_pos tokens with rfl | hpos
  · rw [Nat.cast_zero, zero_div, zero_mul]
    positivity
  · exact mul_le_mul (div_le_div_of_nonneg_right hcast (by norm_num)) (hle hpos) hrate (by positivity)

theorem costOf_add (a b : ℕ) (rate : ℚ) : costOf (a + b) rate = costOf a rate + costOf b rate := by
  unfold costOf
  push_cast
  ring

theorem nonneg_of_isBillable (h : p.isBillable = true) {rate : ℚ} (hrate : rate ∈ p.configured) :
    0 ≤ rate := by
  unfold isBillable at h
  rw [Bool.and_eq_true, List.all_eq_true] at h
  exact of_decide_eq_true (h.1 rate hrate)

theorem prompt_nonneg (h : p.isBillable = true) : 0 ≤ p.promptTokenCost :=
  nonneg_of_isBillable h (by simp [configured, List.reduceOption])

theorem completion_nonneg (h : p.isBillable = true) : 0 ≤ p.completionTokenCost :=
  nonneg_of_isBillable h (by simp [configured, List.reduceOption])

theorem perRequest_nonneg (h : p.isBillable = true) : 0 ≤ p.perRequestCost :=
  nonneg_of_isBillable h (by simp [configured, List.reduceOption])

theorem cachedRate_nonneg (h : p.isBillable = true) : 0 ≤ p.cachedRate := by
  unfold cachedRate
  cases hrate : p.cachedTokenCost with
  | none => exact prompt_nonneg h
  | some rate => exact nonneg_of_isBillable h (by simp [configured, List.reduceOption, hrate])

theorem creationRate_nonneg (h : p.isBillable = true) : 0 ≤ p.creationRate := by
  unfold creationRate
  cases hrate : p.cacheCreationTokenCost with
  | none => exact prompt_nonneg h
  | some rate => exact nonneg_of_isBillable h (by simp [configured, List.reduceOption, hrate])

/-- Without image and reasoning tokens a cost has four parts and the fee. -/
theorem cost_eq (himage : usage.imageTokens = 0) (hreasoning : usage.reasoningTokens = 0) :
    p.cost usage =
      costOf (usage.promptTokens - usage.cachedTokens - usage.cacheCreationTokens) p.promptTokenCost +
        costOf usage.completionTokens p.completionTokenCost + costOf usage.cachedTokens p.cachedRate +
        costOf usage.cacheCreationTokens p.creationRate + p.perRequestCost := by
  have hpart : ∀ (tokens : ℕ) (rate : ℚ),
      (if 0 < tokens then costOf tokens rate else 0) = costOf tokens rate := by
    intro tokens rate
    split_ifs with hpos
    · rfl
    · rw [Nat.eq_zero_of_not_pos hpos]
      simp [costOf]
  unfold cost
  rw [himage, hreasoning, hpart, hpart]
  cases p.imageTokenCost <;> cases p.reasoningTokenCost <;> simp

theorem cost_le (h : p.isBillable = true) (hwithin : usage.Within promptTokens completionTokens)
    (hcached : 0 < usage.cachedTokens → p.cachedRate ≤ p.promptTokenCost)
    (hcreation : 0 < usage.cacheCreationTokens → p.creationRate ≤ p.promptTokenCost) :
    p.cost usage ≤ p.cost ⟨promptTokens, completionTokens, 0, 0, 0, 0⟩ := by
  have hprompt := prompt_nonneg h
  have hparts := hwithin.parts
  calc p.cost usage
      = _ := cost_eq hwithin.image hwithin.reasoning
    _ ≤ costOf (usage.promptTokens - usage.cachedTokens - usage.cacheCreationTokens) p.promptTokenCost +
          costOf completionTokens p.completionTokenCost +
          costOf usage.cachedTokens p.promptTokenCost +
          costOf usage.cacheCreationTokens p.promptTokenCost + p.perRequestCost := by
        have hcompletion := costOf_le (completion_nonneg h) hwithin.completion (fun _ ↦ le_rfl)
          (completion_nonneg h)
        have hread := costOf_le (cachedRate_nonneg h) (le_refl usage.cachedTokens) hcached hprompt
        have hwrite := costOf_le (creationRate_nonneg h) (le_refl usage.cacheCreationTokens) hcreation
          hprompt
        gcongr
    _ = costOf usage.promptTokens p.promptTokenCost +
          costOf completionTokens p.completionTokenCost + p.perRequestCost := by
        have hsum : usage.promptTokens =
            usage.promptTokens - usage.cachedTokens - usage.cacheCreationTokens +
              usage.cachedTokens + usage.cacheCreationTokens := by omega
        conv_rhs => rw [hsum, costOf_add, costOf_add]
        ring
    _ ≤ costOf promptTokens p.promptTokenCost +
          costOf completionTokens p.completionTokenCost + p.perRequestCost := by
        have hle := costOf_le hprompt hwithin.prompt (fun _ ↦ le_rfl) hprompt
        gcongr
    _ = p.cost ⟨promptTokens, completionTokens, 0, 0, 0, 0⟩ := by
        rw [cost_eq rfl rfl]
        simp [costOf]

theorem cost_nonneg (h : p.isBillable = true) (promptTokens completionTokens : ℕ) :
    0 ≤ p.cost ⟨promptTokens, completionTokens, 0, 0, 0, 0⟩ := by
  have hprompt := prompt_nonneg h
  have hcompletion := completion_nonneg h
  have hfee := perRequest_nonneg h
  rw [cost_eq rfl rfl]
  simp only [costOf, Nat.cast_zero, zero_div, zero_mul, add_zero]
  positivity

end TokenPricing

section Estimate

variable {pricing : PricingConfig} {provider model : String} {usage : TokenUsage}
  {promptTokens completionTokens : ℕ}

/-- The cost of a usage is at most that of its estimate. -/
theorem calculateCost_le (hwithin : usage.Within promptTokens completionTokens)
    (hplain : PlainlyPriced pricing provider model usage) :
    calculateCost pricing provider model usage ≤
      calculateCost pricing provider model ⟨promptTokens, completionTokens, 0, 0, 0, 0⟩ := by
  unfold calculateCost
  cases hpricing : pricing provider model with
  | none => exact le_rfl
  | some p =>
      obtain ⟨hcached, hcreation⟩ := hplain p hpricing
      dsimp only
      split_ifs with hbillable
      · exact TokenPricing.cost_le hbillable hwithin hcached hcreation
      · exact le_rfl

theorem calculateCost_nonneg (promptTokens completionTokens : ℕ) :
    0 ≤ calculateCost pricing provider model ⟨promptTokens, completionTokens, 0, 0, 0, 0⟩ := by
  unfold calculateCost
  split
  · exact le_rfl
  · split_ifs with hbillable
    · exact TokenPricing.cost_nonneg hbillable _ _
    · exact le_rfl

theorem le_largest {estimates : List ℚ} {estimate : ℚ} (h : estimate ∈ estimates) :
    estimate ≤ largest estimates := by
  cases estimates with
  | nil => cases h
  | cons first rest =>
      obtain ⟨hfirst, hrest⟩ := Scalarization.le_foldl_max rest first
      rcases List.mem_cons.mp h with rfl | h
      · exact hfirst
      · exact hrest estimate h

theorem largest_nonneg {estimates : List ℚ} (h : ∀ e ∈ estimates, 0 ≤ e) :
    0 ≤ largest estimates := by
  cases estimates with
  | nil => exact le_rfl
  | cons first rest => exact (h first List.mem_cons_self).trans (le_largest List.mem_cons_self)

namespace Router

variable {R : Router} {models : List String} {m : ProviderModelMapping}

theorem estimateModelsCost_nonneg : 0 ≤ R.estimateModelsCost pricing models promptTokens
    completionTokens := by
  refine largest_nonneg fun e he ↦ ?_
  obtain ⟨model, -, he⟩ := List.mem_flatMap.mp he
  obtain ⟨m, -, rfl⟩ := List.mem_map.mp he
  exact calculateCost_nonneg _ _

/-- The estimate for some models covers what any mapping of them is charged for. -/
theorem calculateCost_le_estimate (hmodel : model ∈ models)
    (hm : m ∈ (R.availableMappings model).getD [])
    (hwithin : usage.Within promptTokens completionTokens)
    (hplain : PlainlyPriced pricing m.provider m.modelId usage) :
    calculateCost pricing m.provider m.modelId usage ≤
      R.estimateModelsCost pricing models promptTokens completionTokens := by
  refine (calculateCost_le hwithin hplain).trans (le_largest ?_)
  refine List.mem_flatMap.mpr ⟨model, hmodel, List.mem_map.mpr ⟨m, ?_, rfl⟩⟩
  unfold getFallbackChain
  cases hmappings : R.availableMappings model with
  | none =>
      rw [hmappings] at hm
      cases hm
  | some mappings =>
      rw [hmappings] at hm
      exact mem_sortedByOrder.mpr hm

end Router

end Estimate

end AxonGateway.Routing
