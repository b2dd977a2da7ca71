import AxonGateway.Routing.CostEstimate
import AxonGateway.Routing.Confinement

/-!
# What a request reserves and what it is charged

A request with a budget reserves an amount before it is routed, which every path of the agent
estimates in its own way, and is charged for the calls that are answered.
-/

namespace AxonGateway.Routing

open Interleaving

/-! ## Budgeted paths -/

/-- A chat completion with the contents of its messages. -/
structure BudgetedRequest extends ChatCompletionRequest where
  contents : List String

namespace BudgetedRequest

variable (request : BudgetedRequest)

def promptTokens : ℕ := estimatePromptTokens request.contents

def completionTokens : ℕ := estimateCompletionTokens request.maxTokens

end BudgetedRequest

/-- A call that is answered: the keys of its price, and the prompt tokens that are assumed of it. -/
structure BilledCall where
  provider : String
  model : String
  promptTokens : ℕ
  deriving DecidableEq

/-- A reply, the amount that was asked for before it, and the calls that are charged. -/
structure Settlement where
  reply : Reply
  amount : ℚ
  calls : List BilledCall

/-- The call that a reply comes from; the router names responses after their mapping. -/
def Reply.billed (promptTokens : ℕ) : Reply → List BilledCall
  | .error _ => []
  | .response r => [⟨r.provider, r.providerModel, promptTokens⟩]
  | .stream m => [⟨m.provider, m.modelId, promptTokens⟩]

/-- A reply before which nothing is reserved. -/
def unreserved (code : String) : Settlement := ⟨.error code, 0, []⟩

namespace Router

variable (R : Router) (pricing : PricingConfig)

/-- `_estimate_request_cost` -/
def estimateRequestCost (request : BudgetedRequest) (candidateModels : List String) : ℚ :=
  R.estimateModelsCost pricing
    (if candidateModels = [] then [request.model] else candidateModels)
    request.promptTokens request.completionTokens

/-- `_estimate_ensemble_cost` -/
def estimateEnsembleCost (request : BudgetedRequest) (preset : EnsemblePreset) : ℚ :=
  let panelTotal := (preset.panel.map fun model ↦
    R.estimateModelsCost pricing [model] request.promptTokens request.completionTokens).sum
  let judgePromptTokens := request.promptTokens + preset.panel.length * request.completionTokens
  panelTotal + R.estimateModelsCost pricing [preset.judge] judgePromptTokens request.completionTokens

/-- `ensemble_route` with the responses of the panel beside its outcome. -/
def ensembleBilled (hasFactory : Bool) (preset : EnsemblePreset)
    (allowedModels : Option (List String)) (estimate : ℚ) :
    Route (List ChatCompletionResponse × Except RouteError ChatCompletionResponse) :=
  match allowedModels.bind fun allowed ↦ (preset.panel ++ [preset.judge]).find? (· ∉ allowed) with
  | some denied => throw (.ensembleAccess denied)
  | none =>
      if preset.costCeiling.any (· < (preset.panel.length + 1) * estimate) then
        throw .ensembleCostCeiling
      else do
        createProviderFn hasFactory
        let results ← R.dispatchAll allowedModels preset.panel
        let survivors := (results.map PanelMemberResult.response).reduceOption
        let outcome ← Raising.attempt (R.conclude preset allowedModels survivors)
        pure (survivors, outcome)

end Router

namespace Agent

variable (G : Agent) (pricing : PricingConfig)

/-- Run `x` once `amount` is reserved. -/
def reservedFor (amount : ℚ) (promptTokens : ℕ) (x : Route Reply) : Route Settlement := do
  match ← (Check.gate "budget reservation" "budget_exceeded").run with
  | some code => pure ⟨.error code, amount, []⟩
  | none => do
      let reply ← x
      pure ⟨reply, amount, reply.billed promptTokens⟩

/-- The calls of an ensemble that are charged: those of the panel, and that of the judge once the
quorum is met. -/
def ensembleCalls (request : BudgetedRequest) (preset : EnsemblePreset)
    (survivors : List ChatCompletionResponse) (outcome : Except RouteError ChatCompletionResponse) :
    List BilledCall :=
  survivors.map (fun r ↦ ⟨r.provider, r.providerModel, request.promptTokens⟩) ++
    match outcome with
    | .ok r => if (survivors.length : ℤ) < preset.quorum then [] else
        [⟨r.provider, r.providerModel,
          request.promptTokens + preset.panel.length * request.completionTokens⟩]
    | .error _ => []

/-- The ensemble path with the amount it reserves. -/
def settleEnsemble (config : EnsembleConfig) (presetName : Except String (Option String))
    (request : BudgetedRequest) (effectiveAllowed : Option (List String)) (estimate : ℚ) :
    Route Settlement :=
  match presetName with
  | .error _ => pure (unreserved "ensemble_preset_missing")
  | .ok name =>
      match (name <|> config.defaultPresetName).bind fun n ↦
          config.presets.find? (·.name == n) with
      | none => pure (unreserved
          (if name.isSome then "ensemble_preset_not_found" else "ensemble_no_default"))
      | some preset =>
          let models := preset.panel ++ [preset.judge]
          if effectiveAllowed.any fun allowed ↦ models.any (· ∉ allowed) then
            pure (unreserved "model_not_allowed")
          else if models.any fun model ↦ !G.router.isModelAvailable model then
            pure (unreserved "model_unavailable")
          else if preset.costCeiling.any (· < (preset.panel.length + 1) * estimate) then
            pure (unreserved "ensemble_cost_ceiling")
          else do
            let amount := G.router.estimateEnsembleCost pricing request preset
            match ← (Check.gate "budget reservation" "budget_exceeded").run with
            | some code => pure ⟨.error code, amount, []⟩
            | none => do
                let (survivors, outcome) ←
                  G.router.ensembleBilled G.hasFactory preset effectiveAllowed estimate
                let reply := match outcome with
                  | .ok response => Reply.response response
                  | .error _ => Reply.error "ensemble_failed"
                pure ⟨reply, amount, ensembleCalls request preset survivors outcome⟩

/-- The models whose prices a buffered smart request is estimated from. -/
def smartCandidates (effectiveAllowed : Option (List String)) : List String :=
  match effectiveAllowed with
  | some allowed => allowed
  | none => G.router.modelRegistry.models.map ModelConfig.name

/-- The smart path with the amount it reserves. -/
def settleSmart (T : SmartRoutingStrategy) (request : BudgetedRequest) (context : Context)
    (effectiveAllowed : Option (List String)) : Route Settlement :=
  if request.stream && G.canStreamTrue then do
    let routingAllowed := G.router.routingAllowed effectiveAllowed
    let decision ← T.selectModel G.router.modelRegistry request.prompt (some routingAllowed)
      context.projectId context.userId
    let candidates := decision.selectedModel ::
      (if T.defaultModel = "" then [] else [T.defaultModel])
    reservedFor (G.router.estimateRequestCost pricing request candidates) request.promptTokens
      (G.streamTrue decision.selectedModel none (some routingAllowed) true)
  else
    reservedFor (G.router.estimateRequestCost pricing request (G.smartCandidates effectiveAllowed))
      request.promptTokens do
        let (response, _) ← G.router.smartRoute G.hasFactory request.prompt effectiveAllowed
          context.projectId context.userId
        pure (.response response)

/-- The direct path with the amount it reserves. -/
def settleDirect (request : BudgetedRequest) (context : Context)
    (effectiveAllowed : Option (List String)) : Route Settlement :=
  reservedFor (G.router.estimateRequestCost pricing request []) request.promptTokens <|
    if request.stream && G.canStreamTrue then
      G.streamTrue request.model context.provider effectiveAllowed false
    else do
      pure (.response
        (← G.router.executeWithFallback request.model context.provider effectiveAllowed))

/-- `handle_chat_completion` of a request with a budget. -/
def settleChatCompletion (policy : Option Policy.ResolvedPolicy) (project : Option Project)
    (user : UserConfig) (request : BudgetedRequest) (context : Context) (estimate : ℚ) :
    Route Settlement := do
  match ← firstFailure (G.checks policy project user request.toChatCompletionRequest context) with
  | some code => pure (unreserved code)
  | none =>
      let effectiveAllowed := effectiveAllowedModels project user
      match G.path request.toChatCompletionRequest context with
      | .ensemble config presetName =>
          G.settleEnsemble pricing config presetName request effectiveAllowed estimate
      | .smart T => G.settleSmart pricing T request context effectiveAllowed
      | .direct => G.settleDirect pricing request context effectiveAllowed

end Agent

/-! ### The replies

Without its amount and its calls a budgeted path is the path of the agent; an ensemble that fails
is caught for the calls of its panel. -/

namespace Router

theorem ensembleBilled_reply (R : Router) (hasFactory : Bool) (preset : EnsemblePreset)
    (allowedModels : Option (List String)) (estimate : ℚ) :
    (do
      match (← R.ensembleBilled hasFactory preset allowedModels estimate).2 with
      | .ok response => pure response
      | .error e => throw e) = R.ensembleRoute hasFactory preset allowedModels estimate := by
  unfold ensembleBilled ensembleRoute
  cases allowedModels.bind fun allowed ↦ (preset.panel ++ [preset.judge]).find? (· ∉ allowed) with
  | some denied => rfl
  | none =>
      dsimp only
      split_ifs
      · rfl
      · simp only [bind_assoc, pure_bind]
        refine bind_congr fun _ ↦ bind_congr fun results ↦ ?_
        exact Raising.attempt_bind _ (fun _ ↦ rfl) fun _ ↦ rfl

end Router

namespace Agent

section Reply

variable {G : Agent} {pricing : PricingConfig} {request : BudgetedRequest} {context : Context}
  {effectiveAllowed : Option (List String)}

theorem reservedFor_reply (amount : ℚ) (promptTokens : ℕ) (x : Route Reply) :
    (do pure (← reservedFor amount promptTokens x).reply) = reserved x := by
  unfold reservedFor reserved
  rw [bind_assoc]
  refine bind_congr fun refused ↦ ?_
  cases refused with
  | some code => rfl
  | none => exact (bind_assoc _ _ _).trans (bind_pure x)

theorem settleDirect_reply :
    (do pure (← G.settleDirect pricing request context effectiveAllowed).reply) =
      G.handleDirect request.toChatCompletionRequest context effectiveAllowed :=
  reservedFor_reply _ _ _

theorem settleSmart_reply (T : SmartRoutingStrategy) :
    (do pure (← G.settleSmart pricing T request context effectiveAllowed).reply) =
      G.handleSmart T request.toChatCompletionRequest context effectiveAllowed := by
  unfold settleSmart handleSmart
  by_cases hstream : (request.stream && G.canStreamTrue) = true
  · rw [if_pos hstream, if_pos hstream]
    refine (bind_assoc _ _ _).trans (bind_congr fun decision ↦ ?_)
    exact reservedFor_reply _ _ _
  · rw [if_neg hstream, if_neg hstream]
    exact reservedFor_reply _ _ _

end Reply

end Agent

/-! ## Whom a request is answered by -/

/-- Some mapping of the models has these keys. -/
def Billable (R : Router) (models : List String) (provider model : String) : Prop :=
  ∃ n ∈ models, ∃ m ∈ (R.availableMappings n).getD [], m.provider = provider ∧ m.modelId = model

theorem Billable.mono {R : Router} {models models' : List String} {provider model : String}
    (h : Billable R models provider model) (hsub : models ⊆ models') :
    Billable R models' provider model := by
  obtain ⟨n, hn, hm⟩ := h
  exact ⟨n, hsub hn, hm⟩

namespace Router

variable {R : Router} {model : String} {m : ProviderModelMapping} {mappings : List ProviderModelMapping}

/-- Whatever a program is answered, its value satisfies `Q`. -/
abbrev Returns (R : Router) {α : Type} (Q : α → Prop) (x : Route α) : Prop :=
  Serves R (fun _ _ ↦ True) Q x

/-- A response is named after one of the mappings. -/
def NamedAfter (mappings : List ProviderModelMapping) (response : ChatCompletionResponse) : Prop :=
  ∃ m ∈ mappings, m.provider = response.provider ∧ m.modelId = response.providerModel

theorem returns_tryFrom (hm : m ∈ mappings) (attempts : List Attempt) (left : ℕ) :
    ∀ n, Returns R (fun r ↦ ∀ response, r.1 = some response → NamedAfter mappings response)
      (R.tryFrom model m attempts n left) := by
  have hafter : ∀ again, (∀ e, Returns R (fun r ↦ ∀ response, r.1 = some response →
      NamedAfter mappings response) (again e)) → ∀ r, Returns R (fun r ↦ ∀ response,
        r.1 = some response → NamedAfter mappings response)
          (R.afterCall model m attempts again r) := by
    intro again hagain r
    cases r with
    | response content =>
        refine Serves.pure fun response hresponse ↦ ?_
        obtain rfl := Option.some.inj hresponse
        exact ⟨m, hm, rfl, rfl⟩
    | raised message => exact Serves.throw _
    | providerError e =>
        simp only [afterCall]
        split_ifs
        · exact hagain e
        · exact Serves.pure fun _ h ↦ by cases h
  induction left with
  | zero =>
      refine fun n ↦ Serves.bind (Serves.invoke rfl trivial) fun r _ ↦ hafter _ (fun e ↦ ?_) r
      exact Serves.bind (serves_markFailed m e) fun _ _ ↦ Serves.pure fun _ h ↦ by cases h
  | succ left ih =>
      exact fun n ↦ Serves.bind (Serves.invoke rfl trivial) fun r _ ↦
        hafter _ (fun _ ↦ ih (n + 1)) r

theorem returns_tryEach {β : Type} {Q : β → Prop}
    {tryOne : ProviderModelMapping → List Attempt → Route (Option β × List Attempt)}
    {exhausted : List Attempt → Route β}
    (htry : ∀ m ∈ mappings, ∀ attempts, Returns R (fun r ↦ ∀ b, r.1 = some b → Q b)
      (tryOne m attempts))
    (hend : ∀ attempts, Returns R Q (exhausted attempts)) (attempts : List Attempt) :
    Returns R Q (tryEach tryOne exhausted mappings attempts) := by
  induction mappings generalizing attempts with
  | nil => exact hend attempts
  | cons m ms ih =>
      have htail := ih fun m' hm' ↦ htry m' (List.mem_cons_of_mem m hm')
      refine Serves.bind (Serves.ask rfl) fun healthy _ ↦ ?_
      cases healthy with
      | false => exact htail _
      | true =>
          refine Serves.bind (htry m List.mem_cons_self attempts) fun r hr ↦ ?_
          rcases r with ⟨result | result, attempts'⟩
          · exact htail attempts'
          · exact Serves.pure (hr result rfl)

theorem returns_fallBack {ms : List ProviderModelMapping} (hms : ms ⊆ mappings)
    (attempts : List Attempt) : Returns R (NamedAfter mappings) (R.fallBack model ms attempts) :=
  returns_tryEach (fun _ hm attempts ↦ returns_tryFrom (hms hm) attempts _ 0)
    (fun _ ↦ Serves.throw _) attempts

theorem returns_first_fallBack {ms : List ProviderModelMapping} (hm : m ∈ mappings)
    (hms : ms ⊆ mappings) :
    Returns R (NamedAfter mappings) (do
      match ← R.tryProvider model m [] with
      | (some response, _) => pure response
      | (none, attempts) => R.fallBack model ms attempts) := by
  refine Serves.bind (returns_tryFrom hm [] _ 0) fun r hr ↦ ?_
  rcases r with ⟨result | result, attempts⟩
  · exact returns_fallBack hms attempts
  · exact Serves.pure (hr result rfl)

theorem filter_sorted_subset (p : ProviderModelMapping → Bool) :
    sortedByOrder (mappings.filter p) ⊆ mappings :=
  fun _ hm ↦ (List.mem_filter.mp (mem_sortedByOrder.mp hm)).1

/-- A buffered request is answered by a mapping of its model, which must be allowed. -/
theorem returns_executeWithFallback {preferredProvider : Option String}
    {allowedModels : Option (List String)} :
    Returns R (fun response ↦ allowedModels.all (model ∈ ·) = true ∧
        Billable R [model] response.provider response.providerModel)
      (R.executeWithFallback model preferredProvider allowedModels) := by
  refine Serves.bind (serves_mappingsOrRaise model) fun mappings hmappings ↦ ?_
  split_ifs with hallowed hempty
  · exact Serves.throw _
  · exact Serves.throw _
  have hall : allowedModels.all (model ∈ ·) = true :=
    any_notMem_eq_false.mp (by simpa using hallowed)
  have hnamed : ∀ response, NamedAfter mappings response →
      allowedModels.all (model ∈ ·) = true ∧
        Billable R [model] response.provider response.providerModel := by
    rintro response ⟨m, hm, hkeys⟩
    exact ⟨hall, model, List.mem_singleton_self model, m, by rwa [hmappings], hkeys⟩
  cases truthy preferredProvider with
  | some preferred =>
      refine Serves.imp hnamed ?_
      change Returns R _ (R.executePreferred model preferred mappings)
      unfold executePreferred
      cases hfind : mappings.find? (·.provider == preferred) with
      | some m =>
          exact returns_first_fallBack (List.mem_of_find?_eq_some hfind) (filter_sorted_subset _)
      | none => exact returns_fallBack (fun _ hm ↦ mem_sortedByOrder.mp hm) []
  | none =>
      refine Serves.imp hnamed ?_
      refine Serves.bind (serves_initialMapping model mappings) fun r hr ↦ ?_
      cases r with
      | error e => cases e <;> exact Serves.throw _
      | ok m =>
          obtain ⟨strategy, -, hpick⟩ | ⟨e, he, -⟩ := hr
          · exact returns_first_fallBack (hpick m rfl).1 (filter_sorted_subset _)
          · cases he

/-- The smart strategy's requests are answered by mappings of allowed models. -/
theorem returns_smartRoute {hasFactory : Bool} {prompt : String}
    {allowedModels : Option (List String)} {projectId userId : Option String} :
    Returns R (fun r ↦ Billable R (R.routingAllowed allowedModels) r.1.provider r.1.providerModel)
      (R.smartRoute hasFactory prompt allowedModels projectId userId) := by
  have hone : ∀ model, Returns R
      (fun r ↦ Billable R (R.routingAllowed allowedModels) r.provider r.providerModel)
      (R.executeWithFallback model none (some (R.routingAllowed allowedModels))) := by
    intro model
    refine Serves.imp (fun r hr ↦ hr.2.mono fun n hn ↦ ?_) returns_executeWithFallback
    rw [List.mem_singleton.mp hn]
    simpa using hr.1
  unfold smartRoute
  cases R.smartStrategy with
  | none => exact Serves.throw _
  | some T =>
      refine Serves.bind SmartRoutingStrategy.serves_selectModel fun decision _ ↦ ?_
      refine Serves.bind serves_createProviderFn fun _ _ ↦ ?_
      refine Serves.bind (hone decision.selectedModel).attempt fun r hr ↦ ?_
      cases r with
      | ok response => exact Serves.pure (hr response rfl)
      | error e =>
          cases e
          case allProvidersExhausted =>
            dsimp only
            split_ifs
            · exact Serves.throw _
            · refine Serves.bind serves_createProviderFn fun _ _ ↦ ?_
              exact Serves.bind (hone T.defaultModel) fun response hresponse ↦ Serves.pure hresponse
          all_goals exact Serves.throw _

/-! ### Streams -/

theorem returns_openStream {preferredProvider : Option String}
    {allowedModels : Option (List String)} :
    Returns R (fun opening ↦ ∀ m chunk attempts, opening = .opened m chunk attempts →
        m ∈ (R.availableMappings model).getD [])
      (R.openStream model preferredProvider allowedModels) := by
  unfold openStream
  split_ifs
  · exact Serves.pure fun _ _ _ h ↦ (nomatch h)
  · refine Serves.bind (serves_streamChain model preferredProvider) fun chain hchain ↦ ?_
    refine returns_tryEach (fun m hm attempts ↦ ?_) (fun _ ↦ Serves.pure fun _ _ _ h ↦ (nomatch h)) []
    refine Serves.bind (Serves.invoke rfl trivial) fun r _ ↦ ?_
    cases r with
    | opened chunk =>
        refine Serves.pure fun opening hopening m' chunk' attempts' hm' ↦ ?_
        rw [← Option.some.inj hopening] at hm'
        cases hm'
        exact (hchain m hm).1
    | raised => exact Serves.throw _
    | providerError e =>
        exact Serves.bind (serves_markFailed m e) fun _ _ ↦ Serves.pure fun _ h ↦ (nomatch h)

/-! ### Panels -/

/-- What the members of a panel answer comes from mappings of their models. -/
def PanelAnswers (R : Router) (panel : List String) (results : List PanelMemberResult) : Prop :=
  List.Forall₂ (fun model result ↦ ∀ response, result.response = some response →
    Billable R [model] response.provider response.providerModel) panel results

theorem returns_dispatchAll {allowedModels : Option (List String)} (panel : List String) :
    Returns R (PanelAnswers R panel) (R.dispatchAll allowedModels panel) := by
  induction panel with
  | nil => exact Serves.pure .nil
  | cons model panel ih =>
      have hmember : Returns R (fun result : PanelMemberResult ↦ ∀ response,
          result.response = some response →
            Billable R [model] response.provider response.providerModel)
          (R.dispatch allowedModels model) := by
        refine Serves.bind returns_executeWithFallback.attempt fun r hr ↦ ?_
        cases r with
        | error e => exact Serves.pure fun _ h ↦ (nomatch h)
        | ok response =>
            refine Serves.bind (Serves.ask rfl) fun inTime _ ↦ ?_
            cases inTime with
            | false => exact Serves.pure fun _ h ↦ (nomatch h)
            | true =>
                refine Serves.pure fun other hother ↦ ?_
                obtain rfl := Option.some.inj hother
                exact (hr response rfl).2
      refine Serves.bind hmember fun result hresult ↦ ?_
      exact Serves.bind ih fun results hresults ↦ Serves.pure (.cons hresult hresults)

/-- What comes of the judge, once the quorum is met, is named after a mapping of its model. -/
theorem returns_conclude {preset : EnsemblePreset} {allowedModels : Option (List String)}
    {survivors : List ChatCompletionResponse} :
    Returns R (fun response ↦ preset.quorum ≤ survivors.length →
        Billable R [preset.judge] response.provider response.providerModel)
      (R.conclude preset allowedModels survivors) := by
  unfold conclude
  cases (rankSurvivors preset.rankingCriteria survivors).head? with
  | none => exact Serves.throw _
  | some best =>
      dsimp only
      split_ifs with hquorum
      · exact Serves.pure fun hmet ↦ absurd hquorum (not_lt.mpr hmet)
      · exact Serves.throw _
      · refine Serves.bind returns_executeWithFallback.attempt fun r hr ↦ ?_
        cases r with
        | ok response => exact Serves.pure fun _ ↦ (hr response rfl).2
        | error e => exact Serves.throw _

end Router

/-! ## The amount covers the charge -/

/-- What some calls are charged for their usage. -/
def charged (pricing : PricingConfig) (calls : List BilledCall) (usages : List TokenUsage) : ℚ :=
  (List.zipWith (fun call usage ↦ calculateCost pricing call.provider call.model usage)
    calls usages).sum

/-- The usages of two groups of calls. -/
theorem exists_append_of_forall₂ {α β : Type} {P : α → β → Prop} {l l' : List α} {m : List β}
    (h : List.Forall₂ P (l ++ l') m) :
    ∃ n n', m = n ++ n' ∧ List.Forall₂ P l n ∧ List.Forall₂ P l' n' := by
  induction l generalizing m with
  | nil => exact ⟨[], m, rfl, .nil, h⟩
  | cons a l ih =>
      obtain ⟨b, m', hab, hrest, rfl⟩ := List.forall₂_cons_left_iff.mp h
      obtain ⟨n, n', rfl, hn, hn'⟩ := ih hrest
      exact ⟨b :: n, n', rfl, .cons hab hn, hn'⟩

/-- Whatever usage is reported for the calls, within the estimate of its tokens and admitted, the
amount is at least what it is charged. -/
def Settlement.Covers (pricing : PricingConfig) (completionTokens : ℕ)
    (admits : BilledCall → TokenUsage → Prop) (s : Settlement) : Prop :=
  ∀ usages, List.Forall₂ (fun call usage ↦
      usage.Within call.promptTokens completionTokens ∧ admits call usage) s.calls usages →
    charged pricing s.calls usages ≤ s.amount

/-- The call and its usage are priced at no more than the rates of the estimate. -/
def Plain (pricing : PricingConfig) (call : BilledCall) (usage : TokenUsage) : Prop :=
  PlainlyPriced pricing call.provider call.model usage

section Cover

variable {R : Router} {pricing : PricingConfig} {models : List String} {completionTokens : ℕ}
  {call : BilledCall} {usage : TokenUsage}

theorem cost_le_of_billable (h : Billable R models call.provider call.model)
    (husage : usage.Within call.promptTokens completionTokens ∧ Plain pricing call usage) :
    calculateCost pricing call.provider call.model usage ≤
      R.estimateModelsCost pricing models call.promptTokens completionTokens := by
  obtain ⟨n, hn, m, hm, hprovider, hmodel⟩ := h
  have hplain := husage.2
  unfold Plain at hplain
  rw [← hprovider, ← hmodel] at hplain ⊢
  exact Router.calculateCost_le_estimate hn hm husage.1 hplain

theorem covers_nil {reply : Reply} {amount : ℚ} (h : 0 ≤ amount) :
    (Settlement.mk reply amount []).Covers pricing completionTokens (Plain pricing) := by
  intro usages husages
  cases husages
  exact h

/-- One call is covered by the estimate for its model. -/
theorem single_charged_le {promptTokens : ℕ} {calls : List BilledCall} {usages : List TokenUsage}
    (hcalls : calls = [] ∨ ∃ call, calls = [call] ∧ call.promptTokens = promptTokens ∧
      Billable R models call.provider call.model)
    (husages : List.Forall₂ (fun call usage ↦
      TokenUsage.Within call.promptTokens completionTokens usage ∧ Plain pricing call usage)
        calls usages) :
    charged pricing calls usages ≤
      R.estimateModelsCost pricing models promptTokens completionTokens := by
  rcases hcalls with rfl | ⟨call, rfl, rfl, hbillable⟩
  · cases husages
    exact Router.estimateModelsCost_nonneg
  · obtain ⟨usage, rest, husage, hrest, rfl⟩ := List.forall₂_cons_left_iff.mp husages
    cases hrest
    simpa [charged] using cost_le_of_billable hbillable husage

/-- The calls of a panel are covered by the estimates for its members. -/
theorem panel_charged_le {promptTokens : ℕ} {panel : List String}
    {results : List Router.PanelMemberResult} (h : Router.PanelAnswers R panel results)
    {usages : List TokenUsage}
    (husages : List.Forall₂ (fun call usage ↦
        TokenUsage.Within call.promptTokens completionTokens usage ∧ Plain pricing call usage)
      ((results.map Router.PanelMemberResult.response).reduceOption.map fun r ↦
        BilledCall.mk r.provider r.providerModel promptTokens) usages) :
    charged pricing ((results.map Router.PanelMemberResult.response).reduceOption.map fun r ↦
        BilledCall.mk r.provider r.providerModel promptTokens) usages ≤
      (panel.map fun model ↦
        R.estimateModelsCost pricing [model] promptTokens completionTokens).sum := by
  induction h generalizing usages with
  | nil => simp [charged]
  | @cons model result panel results hresult _ ih =>
      have hnonneg : 0 ≤ R.estimateModelsCost pricing [model] promptTokens completionTokens :=
        Router.estimateModelsCost_nonneg
      cases hresponse : result.response with
      | none =>
          simp only [List.map_cons, List.sum_cons, hresponse, List.reduceOption_cons_of_none]
            at husages ⊢
          exact (ih husages).trans (le_add_of_nonneg_left hnonneg)
      | some response =>
          simp only [List.map_cons, List.sum_cons, hresponse, List.reduceOption_cons_of_some]
            at husages ⊢
          obtain ⟨usage, rest, husage, hrest, rfl⟩ := List.forall₂_cons_left_iff.mp husages
          rw [charged, List.zipWith_cons_cons, List.sum_cons, ← charged]
          exact add_le_add (cost_le_of_billable (hresult response hresponse) husage) (ih hrest)

end Cover

namespace Agent

open Router (Returns)

variable {G : Agent} {pricing : PricingConfig} {request : BudgetedRequest} {model : String}
  {effectiveAllowed : Option (List String)} {preferredProvider : Option String}

theorem returns_openNative : Returns G.router
    (fun opened ↦ ∀ m, opened = some m → m ∈ (G.router.availableMappings model).getD [])
    (G.openNative model preferredProvider effectiveAllowed) := by
  unfold openNative
  split_ifs
  · refine Serves.bind Router.returns_openStream fun opening hopening ↦ ?_
    cases opening with
    | opened m chunk attempts =>
        refine Serves.pure fun m' hm' ↦ ?_
        obtain rfl := Option.some.inj hm'
        exact hopening m chunk attempts rfl
    | unavailable attempts => exact Serves.pure fun _ h ↦ (nomatch h)
  · refine Serves.bind (serves_resolveStreamChain model preferredProvider) fun chain hchain ↦ ?_
    refine Router.returns_tryEach (fun m hm attempts ↦ ?_)
      (fun _ ↦ Serves.pure fun _ h ↦ (nomatch h)) []
    refine Serves.bind (Serves.invoke rfl trivial) fun r _ ↦ ?_
    cases r with
    | opened chunk =>
        refine Serves.pure fun b hb m' hm' ↦ ?_
        rw [← Option.some.inj hb] at hm'
        obtain rfl := Option.some.inj hm'
        exact hchain m hm
    | providerError e =>
        exact Serves.bind (Router.serves_markFailed m e) fun _ _ ↦ Serves.pure fun _ h ↦ (nomatch h)
    | raised message => exact Serves.bind (Serves.ask rfl) fun _ _ ↦ Serves.pure fun _ h ↦ (nomatch h)

/-- The call of a reply is answered by a mapping of one of the models. -/
def AnsweredBy (R : Router) (models : List String) (promptTokens : ℕ) (reply : Reply) : Prop :=
  ∀ call ∈ reply.billed promptTokens, Billable R models call.provider call.model

theorem returns_streamTrue (promptTokens : ℕ) {smartDecision : Bool} :
    Returns G.router (AnsweredBy G.router [model] promptTokens)
      (G.streamTrue model preferredProvider effectiveAllowed smartDecision) := by
  unfold streamTrue
  split_ifs
  · exact Serves.pure fun _ h ↦ (nomatch h)
  · refine Serves.bind returns_openNative fun opened hopened ↦ ?_
    cases opened with
    | some m =>
        refine Serves.pure fun call hcall ↦ ?_
        obtain rfl := List.mem_singleton.mp hcall
        exact ⟨model, List.mem_singleton_self model, m, hopened m rfl, rfl, rfl⟩
    | none =>
        refine Serves.bind Router.returns_executeWithFallback.attempt fun r hr ↦ ?_
        cases r with
        | ok response =>
            refine Serves.pure fun call hcall ↦ ?_
            obtain rfl := List.mem_singleton.mp hcall
            exact (hr response rfl).2
        | error e => exact Serves.pure fun _ h ↦ (nomatch h)

theorem returns_reservedFor {models : List String} {promptTokens completionTokens : ℕ}
    {x : Route Reply} (h : Returns G.router (AnsweredBy G.router models promptTokens) x) :
    Returns G.router (Settlement.Covers pricing completionTokens (Plain pricing))
      (reservedFor (G.router.estimateModelsCost pricing models promptTokens completionTokens)
        promptTokens x) := by
  refine Serves.bind (serves_check _) fun refused _ ↦ ?_
  cases refused with
  | some code => exact Serves.pure (covers_nil Router.estimateModelsCost_nonneg)
  | none =>
      refine Serves.bind h fun reply hreply ↦ Serves.pure fun usages husages ↦
        single_charged_le ?_ husages
      cases reply with
      | error code => exact .inl rfl
      | response r => exact .inr ⟨_, rfl, rfl, hreply _ (List.mem_singleton_self _)⟩
      | stream m => exact .inr ⟨_, rfl, rfl, hreply _ (List.mem_singleton_self _)⟩

/-! ### The paths -/

theorem returns_settleDirect {context : Context} :
    Returns G.router (Settlement.Covers pricing request.completionTokens (Plain pricing))
      (G.settleDirect pricing request context effectiveAllowed) := by
  have hamount : G.router.estimateRequestCost pricing request [] =
      G.router.estimateModelsCost pricing [request.model] request.promptTokens
        request.completionTokens := rfl
  rw [settleDirect, hamount]
  refine returns_reservedFor ?_
  split_ifs
  · exact returns_streamTrue _
  · refine Serves.bind Router.returns_executeWithFallback fun response hresponse ↦ ?_
    refine Serves.pure fun call hcall ↦ ?_
    obtain rfl := List.mem_singleton.mp hcall
    exact hresponse.2

/-- The models that a smart request may be answered by are among those of the estimate. -/
theorem routingAllowed_subset :
    G.router.routingAllowed effectiveAllowed ⊆ G.smartCandidates effectiveAllowed := by
  intro n hn
  unfold Router.routingAllowed at hn
  unfold smartCandidates
  cases effectiveAllowed with
  | none => exact List.mem_of_mem_filter hn
  | some allowed => exact of_decide_eq_true (List.mem_filter.mp hn).2

/-- With no candidate nothing is answered, whatever model the estimate is made for instead. -/
theorem answeredBy_estimated {models : List String} {model : String} {promptTokens : ℕ}
    {reply : Reply} (h : AnsweredBy G.router models promptTokens reply) :
    AnsweredBy G.router (if models = [] then [model] else models) promptTokens reply := by
  intro call hcall
  refine (h call hcall).mono fun n hn ↦ ?_
  rwa [if_neg (List.ne_nil_of_mem hn)]

theorem returns_settleSmart {T : SmartRoutingStrategy} {context : Context} :
    Returns G.router (Settlement.Covers pricing request.completionTokens (Plain pricing))
      (G.settleSmart pricing T request context effectiveAllowed) := by
  unfold settleSmart
  by_cases hstream : (request.stream && G.canStreamTrue) = true
  · rw [if_pos hstream]
    refine Serves.bind SmartRoutingStrategy.serves_selectModel fun decision _ ↦ ?_
    refine returns_reservedFor (Serves.imp (fun reply hreply ↦ answeredBy_estimated ?_)
      (returns_streamTrue request.promptTokens))
    refine fun call hcall ↦ (hreply call hcall).mono fun n hn ↦ ?_
    rw [List.mem_singleton.mp hn]
    exact List.mem_cons_self
  · rw [if_neg hstream]
    refine returns_reservedFor ?_
    refine Serves.bind Router.returns_smartRoute fun r hr ↦ Serves.pure ?_
    refine answeredBy_estimated fun call hcall ↦ ?_
    obtain rfl := List.mem_singleton.mp hcall
    exact hr.mono routingAllowed_subset

/-- The estimate for an ensemble covers its panel and its judge. -/
theorem covers_ensemble {preset : EnsemblePreset} {reply : Reply}
    {results : List Router.PanelMemberResult}
    {outcome : Except RouteError ChatCompletionResponse}
    (hpanel : Router.PanelAnswers G.router preset.panel results)
    (hjudge : ∀ r, outcome = .ok r →
      preset.quorum ≤ (results.map Router.PanelMemberResult.response).reduceOption.length →
        Billable G.router [preset.judge] r.provider r.providerModel) :
    (Settlement.mk reply (G.router.estimateEnsembleCost pricing request preset)
      (ensembleCalls request preset (results.map Router.PanelMemberResult.response).reduceOption
        outcome)).Covers pricing request.completionTokens (Plain pricing) := by
  intro usages husages
  obtain ⟨members, judges, rfl, hmembers, hjudges⟩ := exists_append_of_forall₂ husages
  have hlength := hmembers.length_eq
  have hcharged : ∀ calls, charged pricing
      ((results.map Router.PanelMemberResult.response).reduceOption.map (fun r ↦
        BilledCall.mk r.provider r.providerModel request.promptTokens) ++ calls) (members ++ judges) =
      charged pricing ((results.map Router.PanelMemberResult.response).reduceOption.map fun r ↦
        BilledCall.mk r.provider r.providerModel request.promptTokens) members +
        charged pricing calls judges := by
    intro calls
    rw [charged, List.zipWith_append hlength, List.sum_append, charged, charged]
  dsimp only [ensembleCalls]
  rw [hcharged]
  refine add_le_add (panel_charged_le hpanel hmembers) ?_
  refine single_charged_le ?_ hjudges
  cases houtcome : outcome with
  | error e => exact .inl rfl
  | ok r =>
      dsimp only
      split_ifs with hquorum
      · exact .inl rfl
      · exact .inr ⟨_, rfl, rfl, hjudge r houtcome (not_lt.mp hquorum)⟩

theorem returns_ensembleBilled {hasFactory : Bool} {preset : EnsemblePreset} {estimate : ℚ} :
    Returns G.router (fun r ↦ ∃ results, Router.PanelAnswers G.router preset.panel results ∧
        r.1 = (results.map Router.PanelMemberResult.response).reduceOption ∧
        ∀ response, r.2 = .ok response → preset.quorum ≤ r.1.length →
          Billable G.router [preset.judge] response.provider response.providerModel)
      (G.router.ensembleBilled hasFactory preset effectiveAllowed estimate) := by
  unfold Router.ensembleBilled
  split
  · exact Serves.throw _
  · split_ifs
    · exact Serves.throw _
    · refine Serves.bind Router.serves_createProviderFn fun _ _ ↦ ?_
      refine Serves.bind (Router.returns_dispatchAll preset.panel) fun results hresults ↦ ?_
      refine Serves.bind Router.returns_conclude.attempt fun outcome houtcome ↦ ?_
      exact Serves.pure ⟨results, hresults, rfl, houtcome⟩

theorem returns_settleEnsemble {config : EnsembleConfig}
    {presetName : Except String (Option String)} {estimate : ℚ} :
    Returns G.router (Settlement.Covers pricing request.completionTokens (Plain pricing))
      (G.settleEnsemble pricing config presetName request effectiveAllowed estimate) := by
  have hunreserved : ∀ code, Returns G.router
      (Settlement.Covers pricing request.completionTokens (Plain pricing)) (pure (unreserved code)) :=
    fun code ↦ Serves.pure (covers_nil le_rfl)
  unfold settleEnsemble
  cases presetName with
  | error _ => exact hunreserved _
  | ok name =>
      dsimp only
      split
      · exact hunreserved _
      · rename_i preset hpreset
        split_ifs
        · exact hunreserved _
        · exact hunreserved _
        · exact hunreserved _
        · refine Serves.bind (serves_check _) fun refused _ ↦ ?_
          have hamount : 0 ≤ G.router.estimateEnsembleCost pricing request preset :=
            add_nonneg (List.sum_nonneg fun e he ↦ by
              obtain ⟨n, -, rfl⟩ := List.mem_map.mp he
              exact Router.estimateModelsCost_nonneg) Router.estimateModelsCost_nonneg
          cases refused with
          | some code => exact Serves.pure (covers_nil hamount)
          | none =>
              refine Serves.bind returns_ensembleBilled fun r hr ↦ ?_
              obtain ⟨results, hpanel, hsurvivors, hjudge⟩ := hr
              refine Serves.pure ?_
              rw [hsurvivors] at hjudge ⊢
              exact covers_ensemble hpanel hjudge

/-- On every path of a chat completion with a budget, the amount that is reserved covers the charge
for every usage within its estimates whose cached tokens cost no more than a prompt. -/
theorem settleChatCompletion_covers (G : Agent) (pricing : PricingConfig)
    (policy : Option Policy.ResolvedPolicy) (project : Option Project) (user : UserConfig)
    (request : BudgetedRequest) (context : Context) (estimate : ℚ) :
    Returns G.router (Settlement.Covers pricing request.completionTokens (Plain pricing))
      (G.settleChatCompletion pricing policy project user request context estimate) := by
  refine Serves.bind (serves_firstFailure _) fun failure _ ↦ ?_
  cases failure with
  | some code => exact Serves.pure (covers_nil le_rfl)
  | none =>
      dsimp only
      split
      · exact returns_settleEnsemble
      · exact returns_settleSmart
      · exact returns_settleDirect

/-! ### Cache creation -/

theorem yields_reservedFor {R : Router} {x : Route Reply} {reply : Reply}
    (h : x.Yields (Possible R) reply) (amount : ℚ) (promptTokens : ℕ) :
    (reservedFor amount promptTokens x).Yields (Possible R)
      ⟨reply, amount, reply.billed promptTokens⟩ := by
  refine (yields_check rfl).bind ?_
  exact h.bind Raising.Yields.pure

/-- One mapping, whose price for tokens that a cache is created from is above that of a prompt. -/
def oneMapping : Router where
  modelRegistry := ⟨[⟨"chat", [claude], .roundRobin, none, by decide⟩], by decide⟩

def cachePrices : PricingConfig := fun _ _ ↦
  some ⟨3 / 1000, 15 / 1000, none, some (15 / 4000), none, none, 0⟩

def greeting : BudgetedRequest := { chat with contents := ["hi"] }

theorem settleChatCompletion_does_not_cover :
    ¬∀ (G : Agent) (pricing : PricingConfig) (policy : Option Policy.ResolvedPolicy)
      (project : Option Project) (user : UserConfig) (request : BudgetedRequest)
      (context : Context) (estimate : ℚ),
      Returns G.router (Settlement.Covers pricing request.completionTokens fun _ _ ↦ True)
        (G.settleChatCompletion pricing policy project user request context estimate) := by
  intro h
  have hcovers := h ⟨oneMapping, true, true⟩ cachePrices none none {} greeting nobody 0
  have hexecutes : oneMapping.Executes "chat" none none claude :=
    ⟨rfl, by decide, fun _ ↦ ⟨.roundRobin, "bedrock", rfl, claude, by decide, rfl⟩⟩
  obtain ⟨response, hresponse⟩ := Router.yields_executeWithFallback hexecutes
  -- the only mapping names the response
  obtain ⟨-, n, hn, m, hm, hprovider, hmodel⟩ :=
    Router.returns_executeWithFallback.of_yields hresponse
  obtain rfl := List.mem_singleton.mp hn
  obtain rfl : m = claude := List.mem_singleton.mp hm
  have hreply : (do
      pure (Reply.response (← oneMapping.executeWithFallback "chat" none none)) : Route Reply).Yields
        (Possible oneMapping) (.response response) := hresponse.bind Raising.Yields.pure
  have hrun : ((⟨oneMapping, true, true⟩ : Agent).settleChatCompletion cachePrices none none {}
      greeting nobody 0).Yields (Possible oneMapping)
        ⟨.response response, oneMapping.estimateRequestCost cachePrices greeting [],
          [⟨response.provider, response.providerModel, greeting.promptTokens⟩]⟩ :=
    (yields_firstFailure (by decide)).bind (yields_reservedFor hreply _ _)
  have hwithin : TokenUsage.Within greeting.promptTokens greeting.completionTokens
      ⟨1, 256, 0, 0, 0, 1⟩ := ⟨by decide, by decide, by decide, rfl, rfl⟩
  have hcharge := Raising.Every.of_yields hcovers hrun [⟨1, 256, 0, 0, 0, 1⟩]
    (.cons ⟨hwithin, trivial⟩ .nil)
  rw [← hprovider, ← hmodel] at hcharge
  have hexceeds : ¬charged cachePrices [⟨claude.provider, claude.modelId, greeting.promptTokens⟩]
      [⟨1, 256, 0, 0, 0, 1⟩] ≤ oneMapping.estimateRequestCost cachePrices greeting [] := by
    decide +kernel
  exact hexceeds hcharge

end Agent

end AxonGateway.Routing
