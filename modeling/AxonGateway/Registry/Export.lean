import AxonGateway.Registry.Entries

/-!
# Exported registries

The exported entry of a well-formed model is valid and parsed as the same model, so an exported
registry has its own models in the same order.
-/

namespace AxonGateway.Registry

open PyValue Screening Adapters JsonText Outcome

variable {N : Numbers} {isPrintable : Char → Bool}

/-! ### Export and parsing -/

theorem float_value {d : Double} (h : d.WellFormed N) : N.float d.value = .ok d := by
  cases d with
  | finite t => exact Numbers.float_of_isRepr (h t rfl)
  | nonFinite t => rfl

theorem isJson_value {d : Double} (h : d.WellFormed N) : IsJson N.read d.value := by
  cases d with
  | finite t => exact Numbers.isJson_of_isRepr (h t rfl)
  | nonFinite t => trivial

theorem int_toString (n : ℤ) : N.int (.number (toString n).toList) = .ok n := by
  rw [Numbers.int, pyInt_toString]
  rfl

theorem ofValue_value (strategy : RoutingStrategy) :
    RoutingStrategy.ofValue (.str strategy.value) = .ok strategy := by
  cases strategy <;> rfl

theorem value_mem (strategy : RoutingStrategy) : strategy.value ∈ validRoutingStrategies := by
  apply List.mem_map_of_mem
  cases strategy <;> decide

theorem lookup_pricing (m : ProviderModelMapping) :
    m.config.lookup "pricing".toList = m.pricing.map fun pricing ↦ .obj pricing.config := by
  obtain ⟨provider, modelId, weight, order, _ | pricing⟩ := m <;> rfl

theorem parsePricing_config {pricing : Option TokenPricing} (h : ∀ p ∈ pricing, p.WellFormed N) :
    parsePricing N (pricing.map fun p ↦ .obj p.config) = .ok pricing := by
  cases pricing with
  | none => rfl
  | some p =>
      obtain ⟨hprompt, hcompletion⟩ := h p rfl
      have hcosts : parsePricing N (some (.obj p.config)) = (do
          let prompt ← N.float p.promptTokenCost.value
          let completion ← N.float p.completionTokenCost.value
          .ok (some ⟨prompt, completion⟩)) := rfl
      rw [Option.map_some, hcosts, float_value hprompt, float_value hcompletion]
      rfl

theorem parseProvider_config {m : ProviderModelMapping} (h : m.WellFormed N) :
    parseProvider N (.obj m.config) = .ok m := by
  have hparts : parseProvider N (.obj m.config) = (do
      let pricing ← parsePricing N (m.config.lookup "pricing".toList)
      let weight ← N.float m.weight.value
      let fallbackOrder ← N.int (.number (toString m.fallbackOrder).toList)
      .ok ⟨m.provider, m.modelId, weight, fallbackOrder, pricing⟩) := rfl
  rw [hparts, lookup_pricing, parsePricing_config h.pricing, float_value h.weight, int_toString]
  rfl

theorem parseProviders_config {providers : List ProviderModelMapping}
    (h : ∀ m ∈ providers, m.WellFormed N) :
    parseProviders N (providers.map fun m ↦ .obj m.config) = .ok providers := by
  induction providers with
  | nil => rfl
  | cons m rest ih =>
      obtain ⟨hm, hrest⟩ := List.forall_mem_cons.mp h
      rw [List.map_cons, parseProviders, parseProvider_config hm, ih hrest]
      rfl

theorem lookup_capabilities (m : ModelConfig) :
    m.config.lookup "capabilities".toList = m.capabilities.map .arr := by
  obtain ⟨name, description, providers, strategy, _ | items, _ | v⟩ := m <;> rfl

theorem lookup_maxContextTokens (m : ModelConfig) :
    m.config.lookup "max_context_tokens".toList = m.maxContextTokens := by
  obtain ⟨name, description, providers, strategy, _ | items, _ | v⟩ := m <;> rfl

theorem lookup_providers (m : ModelConfig) : m.config.lookup "providers".toList =
    some (.arr (m.providers.map fun mapping ↦ .obj mapping.config)) := by
  obtain ⟨name, description, providers, strategy, _ | items, _ | v⟩ := m <;> rfl

theorem isNull_of_isPositiveInt {v : Value} (h : isPositiveInt v = true) : isNull v = false := by
  cases v with
  | null => cases h
  | _ => rfl

/-- The exported entry of a model is parsed as the model. -/
theorem parseEntry_config {m : ModelConfig} (h : m.WellFormed N) :
    parseEntry N (.obj m.config) = .ok m := by
  have hparts : parseEntry N (.obj m.config) = (do
      let routingStrategy ← RoutingStrategy.ofValue (.str m.routingStrategy.value)
      let providers ← getItem (.obj m.config) "providers"
      let providers ← listOf providers
      let providers ← parseProviders N providers
      let capabilities ← parseCapabilities (m.config.lookup "capabilities".toList)
      .ok ⟨m.name, m.description, providers, routingStrategy, capabilities,
        (m.config.lookup "max_context_tokens".toList).filter fun v ↦ !isNull v⟩) := rfl
  have hcapabilities : parseCapabilities (m.capabilities.map .arr) = .ok m.capabilities := by
    cases m.capabilities <;> rfl
  have htokens : m.maxContextTokens.filter (fun v ↦ !isNull v) = m.maxContextTokens := by
    cases hv : m.maxContextTokens with
    | none => rfl
    | some v =>
        have hnull := isNull_of_isPositiveInt (h.maxContextTokens v hv).2
        simp [hnull]
  rw [hparts, getItem_obj (lookup_providers m), lookup_capabilities, lookup_maxContextTokens, htokens,
    ofValue_value, hcapabilities]
  change (do
    let providers ← parseProviders N
      (m.providers.map fun mapping : ProviderModelMapping ↦ .obj mapping.config)
    Except.ok (⟨m.name, m.description, providers, m.routingStrategy, m.capabilities,
      m.maxContextTokens⟩ : ModelConfig)) = .ok m
  rw [parseProviders_config h.providers]
  rfl

theorem validProvider_config {m : ProviderModelMapping} (h : m.WellFormed N) :
    ValidProvider m.config :=
  ⟨⟨m.provider, h.provider, rfl⟩, h.truthy⟩

/-- The exported entry of a model is valid. -/
theorem validEntry_config {m : ModelConfig} (h : m.WellFormed N) : ValidEntry m.config m.name where
  named := h.named
  description := h.truthy
  strategy := .inr ⟨m.routingStrategy.value, value_mem m.routingStrategy, rfl⟩
  maxContextTokens := by
    rw [lookup_maxContextTokens]
    cases htokens : m.maxContextTokens with
    | none => exact .inl rfl
    | some v => exact .inr (h.maxContextTokens v htokens).2
  providers := by
    refine ⟨m.providers.map ProviderModelMapping.config, ?_, ?_, ?_⟩
    · simpa using h.provided
    · rw [List.forall_mem_map]
      exact fun mapping hmapping ↦ validProvider_config (h.providers mapping hmapping)
    · rw [lookup_providers, List.map_map]
      rfl
  name := rfl

theorem isJson_pricing {pricing : TokenPricing} (h : pricing.WellFormed N) :
    IsJson N.read (.obj pricing.config) := by
  rw [isJson_obj_iff]
  refine ⟨by simp [TokenPricing.config], ?_⟩
  simpa [TokenPricing.config] using ⟨isJson_value h.prompt, isJson_value h.completion⟩

theorem isJson_mapping {m : ProviderModelMapping} (h : m.WellFormed N) :
    IsJson N.read (.obj m.config) := by
  have hpricing : ∀ pricing ∈ m.pricing, IsJson N.read (.obj pricing.config) :=
    fun pricing hmem ↦ isJson_pricing (h.pricing pricing hmem)
  rw [isJson_obj_iff]
  obtain ⟨provider, modelId, weight, order, pricing⟩ := m
  constructor
  · cases pricing <;> simp [ProviderModelMapping.config]
  · have hweight : IsJson N.read weight.value := isJson_value h.weight
    have hmodelId : IsJson N.read modelId := h.modelId
    have horder : IsJson N.read (.number order.repr.toList) := isJson_toString N order
    cases pricing with
    | none => simp [ProviderModelMapping.config, hweight, hmodelId, horder]
    | some pricing =>
        have hobj := hpricing pricing rfl
        simp [ProviderModelMapping.config, hweight, hmodelId, horder, hobj]

/-- The exported entry of a model is one that a text can be read as. -/
theorem isJson_config {m : ModelConfig} (h : m.WellFormed N) : IsJson N.read (.obj m.config) := by
  have hproviders : IsJson N.read (.arr (m.providers.map fun mapping ↦ .obj mapping.config)) := by
    rw [isJson_arr_iff, List.forall_mem_map]
    exact fun mapping hmapping ↦ isJson_mapping (h.providers mapping hmapping)
  have hcapabilities : ∀ items ∈ m.capabilities, IsJson N.read (.arr items) :=
    fun items hitems ↦ (isJson_arr_iff N.read items).mpr (h.capabilities items hitems)
  have htokens : ∀ v ∈ m.maxContextTokens, IsJson N.read v :=
    fun v hv ↦ (h.maxContextTokens v hv).1
  have hdescription := h.description
  rw [isJson_obj_iff]
  clear h
  obtain ⟨name, description, providers, strategy, capabilities, tokens⟩ := m
  constructor
  · cases capabilities <;> cases tokens <;> simp [ModelConfig.config]
  · cases capabilities <;> cases tokens <;> simp_all [ModelConfig.config]

theorem isJson_models {entries : List Value} (h : ∀ v ∈ entries, IsJson N.read v) :
    IsJson N.read (.obj [("models".toList, .arr entries)]) := by
  rw [isJson_obj_iff]
  refine ⟨List.nodup_singleton _, ?_⟩
  rw [List.forall_mem_singleton]
  exact (isJson_arr_iff N.read entries).mpr h

theorem isJson_toConfig {models : List (Text × ModelConfig)} (h : WellFormed N models) :
    IsJson N.read (.obj (toConfig models)) := by
  apply isJson_models
  rw [List.forall_mem_map]
  exact fun e he ↦ isJson_config (h.valid e he)

theorem mapM_parseEntry_config {models : List (Text × ModelConfig)}
    (h : ∀ e ∈ models, e.2.WellFormed N) :
    (models.map fun e ↦ Value.obj e.2.config).mapM (parseEntry N) = .ok (models.map Prod.snd) := by
  induction models with
  | nil => rfl
  | cons e rest ih =>
      obtain ⟨he, hrest⟩ := List.forall_mem_cons.mp h
      rw [List.map_cons, List.mapM_cons, parseEntry_config he, ih hrest]
      rfl

theorem named_map_snd {models : List (Text × ModelConfig)} (h : ∀ e ∈ models, e.1 = e.2.name) :
    named (models.map Prod.snd) = models := by
  rw [named, List.map_map]
  refine (List.map_congr_left fun e he ↦ ?_).trans (List.map_id _)
  exact Prod.ext (h e he).symm rfl

/-- The models of an exported registry are its own, in the same order. -/
theorem modelsOf_toConfig {models : List (Text × ModelConfig)} (h : WellFormed N models) :
    modelsOf isPrintable N (toConfig models) = .ok models := by
  rw [modelsOf_eq_ok_iff (isJson_toConfig h)]
  refine ⟨models.map fun e ↦ (e.2.config, e.2.name), models.map Prod.snd, ⟨?_, ?_, ?_⟩, ?_, ?_,
    (named_map_snd h.names).symm⟩
  · rw [List.forall_mem_map]
    exact fun e he ↦ validEntry_config (h.valid e he)
  · have hnames : (models.map fun e ↦ (e.2.config, e.2.name)).map Prod.snd = models.map Prod.fst := by
      rw [List.map_map]
      exact List.map_congr_left fun e he ↦ (h.names e he).symm
    rw [hnames]
    exact h.nodup
  · simp
  · rw [List.map_map]
    rfl
  · rw [List.map_map]
    exact mapM_parseEntry_config h.valid

end AxonGateway.Registry
