import AxonGateway.Routing.Access

/-!
# Which models smart and ensemble routing serve

For both the exact set of mappings is given: what is outside is never called,
and what is inside can be reached.
-/

namespace AxonGateway.Routing

open Interleaving

variable {R : Router} {S : String → ProviderModelMapping → Prop} {model : String}
  {m : ProviderModelMapping}

theorem exists_possible (R : Router) (o : Op) : ∃ r, Possible R o r := by
  cases o with
  | select strategy ms => exact ⟨_, 0, onlyUp fun _ ↦ false, rfl⟩
  | isHealthy | isOverBudget | gate => exact ⟨true, trivial⟩
  | markUnhealthy => exact ⟨(), trivial⟩
  | call => exact ⟨.response "", trivial⟩
  | openStream => exact ⟨.opened none, trivial⟩

/-! ## Selecting a model -/

theorem serves_anyHealthy (ms : List ProviderModelMapping) :
    Serves R S (fun b ↦ b = true → ms ≠ []) (anyHealthy ms) := by
  induction ms with
  | nil => exact Serves.pure (by simp)
  | cons m ms ih =>
      refine Serves.bind (Serves.ask rfl) fun healthy _ ↦ ?_
      cases healthy with
      | true => exact Serves.pure (by simp)
      | false => exact Serves.imp (by simp) ih

theorem yields_anyHealthy_false (ms : List ProviderModelMapping) :
    (anyHealthy ms).Yields (Possible R) false := by
  induction ms with
  | nil => exact Raising.Yields.pure
  | cons m ms ih => exact (yields_isHealthy _ false).bind ih

theorem yields_anyHealthy_true {ms : List ProviderModelMapping} (hne : ms ≠ []) :
    (anyHealthy ms).Yields (Possible R) true := by
  obtain ⟨m, ms, rfl⟩ := List.exists_cons_of_ne_nil hne
  exact (yields_isHealthy _ true).bind Raising.Yields.pure

theorem serves_overBudget (scope : String) (id : Option String) :
    Serves R S (fun _ ↦ True) (overBudget scope id) := by
  cases id with
  | none => exact Serves.pure trivial
  | some _ => exact Serves.ask rfl

theorem yields_overBudget_false (scope : String) (id : Option String) :
    (overBudget scope id).Yields (Possible R) false := by
  cases id with
  | none => exact Raising.Yields.pure
  | some _ => exact Raising.Yields.ask (o := Op.isOverBudget scope) trivial

namespace SmartRoutingStrategy

variable (T : SmartRoutingStrategy) (registry : ModelRegistry) (prompt : String)
  (allowedModels : Option (List String)) (projectId userId : Option String)

/-- A model that can pass the filters of `select_model`. -/
def Eligible (model : String) : Prop :=
  allowedModels.all (model ∈ ·) = true ∧ ∃ config, registry.config? model = some config ∧
    config.providers ≠ [] ∧ config.maxContextTokens.any (· < estimateTokenCount prompt) = false

/-- The models that `select_model` may return. -/
def Selects (model : String) : Prop :=
  if T.fallsBack prompt then model = T.defaultModel
  else (∃ score ∈ T.getRankings (T.classify prompt).taskType, score.modelName = model) ∧
    Eligible registry prompt allowedModels model

variable {T registry prompt allowedModels projectId userId}

theorem serves_filteredReason (model : String) :
    Serves R S (fun r ↦ r = none → Eligible registry prompt allowedModels model)
      (filteredReason registry prompt allowedModels projectId userId model) := by
  unfold filteredReason
  split_ifs with hallowed
  · exact Serves.pure (by simp)
  · have hall : allowedModels.all (model ∈ ·) = true :=
      Router.any_notMem_eq_false.mp (by simpa using hallowed)
    cases hconfig : registry.config? model with
    | none => exact Serves.pure (by simp)
    | some config =>
        refine Serves.bind (serves_anyHealthy config.providers) fun healthy hhealthy ↦ ?_
        cases healthy with
        | false => exact Serves.pure (by simp)
        | true =>
            have hpass : config.maxContextTokens.any (· < estimateTokenCount prompt) = false →
                Eligible registry prompt allowedModels model := fun hcontext ↦
              ⟨hall, config, hconfig, hhealthy rfl, hcontext⟩
            cases hcontext : config.maxContextTokens.any (· < estimateTokenCount prompt) with
            | true => exact Serves.pure (by simp)
            | false =>
                refine Serves.bind (serves_overBudget _ _) fun spent _ ↦ ?_
                cases spent with
                | true => exact Serves.pure (by simp)
                | false =>
                    refine Serves.bind (serves_overBudget _ _) fun spent _ ↦ ?_
                    cases spent with
                    | true => exact Serves.pure (by simp)
                    | false => exact Serves.pure fun _ ↦ hpass hcontext

theorem yields_filteredReason_none
    (h : Eligible registry prompt allowedModels model) :
    (filteredReason registry prompt allowedModels projectId userId model).Yields
      (Possible R) none := by
  obtain ⟨hall, config, hconfig, hne, hcontext⟩ := h
  unfold filteredReason
  rw [Router.any_notMem_eq_false.mpr hall, hconfig]
  refine (yields_anyHealthy_true hne).bind ?_
  simp only [hcontext, if_true, Bool.false_eq_true, if_false]
  exact (yields_overBudget_false _ _).bind ((yields_overBudget_false _ _).bind Raising.Yields.pure)

variable (R registry prompt allowedModels projectId userId) in
theorem yields_filteredReason_some (model : String) :
    ∃ reason, (filteredReason registry prompt allowedModels projectId userId model).Yields
      (Possible R) (some reason) := by
  unfold filteredReason
  split_ifs with hallowed
  · exact ⟨_, Raising.Yields.pure⟩
  · cases registry.config? model with
    | none => exact ⟨_, Raising.Yields.pure⟩
    | some config => exact ⟨_, (yields_anyHealthy_false _).bind Raising.Yields.pure⟩

theorem serves_candidates (scores : List ModelScore) :
    Serves R S (fun r ↦ ∀ c ∈ r.1, c ∈ scores ∧
        Eligible registry prompt allowedModels c.modelName)
      (candidates registry prompt allowedModels projectId userId scores) := by
  induction scores with
  | nil => exact Serves.pure (by simp)
  | cons score scores ih =>
      refine Serves.bind (serves_filteredReason score.modelName) fun reason hreason ↦ ?_
      refine Serves.bind ih fun r hr ↦ Serves.pure ?_
      have htail : ∀ c ∈ r.1, c ∈ score :: scores ∧
          Eligible registry prompt allowedModels c.modelName := fun c hc ↦
        ⟨List.mem_cons_of_mem _ (hr c hc).1, (hr c hc).2⟩
      intro c hc
      dsimp only at hc
      split_ifs at hc with hnone
      · rcases List.mem_cons.mp hc with rfl | hc
        · exact ⟨List.mem_cons_self, hreason hnone⟩
        · exact htail c hc
      · exact htail c hc

variable (R projectId userId) in
/-- The candidates can be exactly the ranked entries of one eligible model. -/
theorem yields_candidates (h : Eligible registry prompt allowedModels model)
    (scores : List ModelScore) :
    ∃ considered, (candidates registry prompt allowedModels projectId userId scores).Yields
      (Possible R) (scores.filter (·.modelName == model), considered) := by
  induction scores with
  | nil => exact ⟨[], Raising.Yields.pure⟩
  | cons score scores ih =>
      obtain ⟨considered, htail⟩ := ih
      by_cases hmodel : score.modelName = model
      · rw [List.filter_cons_of_pos (by simpa using hmodel)]
        exact ⟨⟨score.modelName, score.score, none⟩ :: considered,
          (yields_filteredReason_none (hmodel ▸ h)).bind (htail.bind Raising.Yields.pure)⟩
      · obtain ⟨reason, hreason⟩ := yields_filteredReason_some R registry prompt allowedModels
          projectId userId score.modelName
        rw [List.filter_cons_of_neg (by simpa using hmodel)]
        exact ⟨⟨score.modelName, score.score, some reason⟩ :: considered,
          hreason.bind (htail.bind Raising.Yields.pure)⟩

theorem best_mem {candidates : List ModelScore} {c : ModelScore}
    (h : T.best registry candidates = some c) : c ∈ candidates := List.argmax_mem h

variable (T registry) in
theorem best_isSome {candidates : List ModelScore} (hne : candidates ≠ []) :
    ∃ c, T.best registry candidates = some c := by
  cases hbest : T.best registry candidates with
  | some c => exact ⟨c, rfl⟩
  | none => exact absurd (List.argmax_eq_none.mp hbest) hne

theorem serves_selectModel :
    Serves R S (fun d ↦ T.Selects registry prompt allowedModels d.selectedModel)
      (T.selectModel registry prompt allowedModels projectId userId) := by
  unfold selectModel Selects
  split_ifs with hfalls
  · exact Serves.pure rfl
  · refine Serves.bind (serves_candidates _) fun r hr ↦ ?_
    obtain ⟨passed, considered⟩ := r
    cases hbest : T.best registry passed with
    | none => simp only [hbest]; exact Serves.throw _
    | some c =>
        obtain ⟨hc, heligible⟩ := hr c (best_mem hbest)
        simp only [hbest]
        exact Serves.pure ⟨⟨c, hc, rfl⟩, heligible⟩

variable (R projectId userId) in
theorem yields_selectModel (h : T.Selects registry prompt allowedModels model) :
    ∃ d, d.selectedModel = model ∧
      (T.selectModel registry prompt allowedModels projectId userId).Yields (Possible R) d := by
  unfold Selects at h
  unfold selectModel
  split_ifs at h with hfalls
  · rw [if_pos hfalls]
    exact ⟨_, h.symm, Raising.Yields.pure⟩
  · rw [if_neg hfalls]
    obtain ⟨⟨score, hscore, hmodel⟩, heligible⟩ := h
    obtain ⟨considered, hcandidates⟩ := yields_candidates R projectId userId
      heligible (T.getRankings (T.classify prompt).taskType)
    have hne : (T.getRankings (T.classify prompt).taskType).filter (·.modelName == model) ≠ [] :=
      List.ne_nil_of_mem (List.mem_filter.mpr ⟨hscore, by simpa using hmodel⟩)
    obtain ⟨c, hbest⟩ := best_isSome T registry hne
    have hc : c.modelName = model := by
      simpa using (List.mem_filter.mp (best_mem hbest)).2
    refine ⟨T.decision prompt c.modelName c.score considered false, hc, hcandidates.bind ?_⟩
    simp only [hbest]
    exact Raising.Yields.pure

end SmartRoutingStrategy

/-! ## Smart routing -/

namespace Router

variable {T : SmartRoutingStrategy} {hasFactory : Bool} {prompt : String}
  {allowedModels : Option (List String)} {projectId userId : Option String}

variable (R) in
/-- The mappings that `smartRoute` may serve: those of a selected model, and
those of the default model once another selected model is exhausted. -/
def SmartServes (T : SmartRoutingStrategy) (hasFactory : Bool) (prompt : String)
    (allowedModels : Option (List String)) (model : String) (m : ProviderModelMapping) : Prop :=
  hasFactory = true ∧ R.Executes model none (some (R.routingAllowed allowedModels)) m ∧
    (T.Selects R.modelRegistry prompt (some (R.routingAllowed allowedModels)) model ∨
      model = T.defaultModel ∧ ∃ selected strategy,
        T.Selects R.modelRegistry prompt (some (R.routingAllowed allowedModels)) selected ∧
          selected ≠ T.defaultModel ∧ R.getStrategy selected = .ok strategy)

theorem serves_createProviderFn :
    Serves R S (fun _ ↦ hasFactory = true) (createProviderFn hasFactory) := by
  cases hasFactory with
  | true => exact Serves.pure rfl
  | false => exact Serves.throw _

theorem executeSelected_error {e : RouteError} {mappings : List ProviderModelMapping}
    (hstrategy : R.getStrategy model = .error e) : R.executeSelected model mappings = throw e := by
  have hne : e ≠ .noHealthyProvider := by
    rintro rfl
    exact getStrategy_ne hstrategy
  unfold executeSelected initialMapping
  rw [hstrategy]
  cases e
  case noHealthyProvider => exact absurd rfl hne
  all_goals rfl

/-- A model that is selected although it is not the default has mappings. -/
theorem Selects.exists_mappings {selected : String}
    (h : T.Selects R.modelRegistry prompt (some (R.routingAllowed allowedModels)) selected)
    (hne : selected ≠ T.defaultModel) :
    selected ∈ R.routingAllowed allowedModels ∧
      ∃ mappings, R.availableMappings selected = some mappings ∧ mappings ≠ [] := by
  unfold SmartRoutingStrategy.Selects at h
  split_ifs at h
  · exact absurd h hne
  · have hmem : selected ∈ R.routingAllowed allowedModels := by simpa using h.2.1
    have hruntime : selected ∈ R.runtimeModels := by
      unfold routingAllowed at hmem
      cases allowedModels with
      | none => exact hmem
      | some allowed => exact List.mem_of_mem_filter hmem
    have havailable : R.isModelAvailable selected = true := (List.mem_filter.mp hruntime).2
    refine ⟨hmem, ?_⟩
    unfold isModelAvailable at havailable
    split at havailable
    · exact ⟨_, ‹_›, of_decide_eq_true havailable⟩
    · cases havailable

theorem getStrategy_error {e : RouteError} (h : R.getStrategy model = .error e) :
    ∃ key, e = .keyError key := by
  unfold getStrategy at h
  split at h
  · exact ⟨_, (Except.error.inj h).symm⟩
  · split at h
    · exact ⟨_, (Except.error.inj h).symm⟩
    · split_ifs at h
      exact ⟨_, (Except.error.inj h).symm⟩
    · cases h

theorem serves_smartRoute (hsmart : R.smartStrategy = some T)
    (hS : ∀ model m, R.SmartServes T hasFactory prompt allowedModels model m → S model m) :
    Serves R S (fun _ ↦ True) (R.smartRoute hasFactory prompt allowedModels projectId userId) := by
  unfold smartRoute
  rw [hsmart]
  refine Serves.bind SmartRoutingStrategy.serves_selectModel fun decision hdecision ↦ ?_
  refine Serves.bind serves_createProviderFn fun _ hfactory ↦ ?_
  have hfirst : Serves R S (fun _ ↦ True)
      (R.executeWithFallback decision.selectedModel none
        (some (R.routingAllowed allowedModels))) :=
    serves_executeWithFallback fun m hm ↦
      hS decision.selectedModel m ⟨hfactory, hm, .inl hdecision⟩
  by_cases hdefault : decision.selectedModel = T.defaultModel
  · refine Serves.bind hfirst.attempt fun r _ ↦ ?_
    cases r with
    | ok response => exact Serves.pure trivial
    | error e =>
        cases e
        case allProvidersExhausted =>
          simp only [if_pos hdefault]
          exact Serves.throw _
        all_goals exact Serves.throw _
  · cases hstrategy : R.getStrategy decision.selectedModel with
    | error e =>
        obtain ⟨hmem, mappings, hmappings, hne⟩ := Selects.exists_mappings hdecision hdefault
        obtain ⟨key, rfl⟩ := getStrategy_error hstrategy
        have hthrow : R.executeWithFallback decision.selectedModel none
            (some (R.routingAllowed allowedModels)) = throw (.keyError key) := by
          rw [executeWithFallback_eq hmappings (by simpa using hmem) hne]
          exact executeSelected_error hstrategy
        rw [hthrow]
        exact Serves.throw _
    | ok strategy =>
        refine Serves.bind hfirst.attempt fun r _ ↦ ?_
        cases r with
        | ok response => exact Serves.pure trivial
        | error e =>
            cases e
            case allProvidersExhausted =>
              simp only [if_neg hdefault]
              refine Serves.bind serves_createProviderFn fun _ _ ↦ ?_
              refine Serves.bind (serves_executeWithFallback fun m hm ↦ hS T.defaultModel m
                ⟨hfactory, hm, .inr ⟨rfl, _, strategy, hdecision, hdefault, hstrategy⟩⟩)
                fun response _ ↦ Serves.pure trivial
            all_goals exact Serves.throw _

theorem yields_createProviderFn (h : hasFactory = true) :
    (createProviderFn hasFactory).Yields (Possible R) () := by
  subst h
  exact Raising.Yields.pure

theorem reaches_smartRoute (hsmart : R.smartStrategy = some T)
    (h : R.SmartServes T hasFactory prompt allowedModels model m) :
    Reaches R model m.provider
      (R.smartRoute hasFactory prompt allowedModels projectId userId) := by
  obtain ⟨hfactory, hexecutes, hselected | ⟨rfl, selected, strategy, hselects, hne, hstrategy⟩⟩ := h
  · obtain ⟨decision, hmodel, hyields⟩ := SmartRoutingStrategy.yields_selectModel R
      projectId userId hselected
    subst hmodel
    unfold smartRoute
    rw [hsmart]
    exact .of_yields hyields (.of_yields (yields_createProviderFn hfactory)
      ((reaches_executeWithFallback hexecutes).attempt.bind _))
  · obtain ⟨decision, hmodel, hyields⟩ := SmartRoutingStrategy.yields_selectModel R
      projectId userId hselects
    subst hmodel
    obtain ⟨hmem, mappings, hmappings, hnonempty⟩ := Selects.exists_mappings hselects hne
    obtain ⟨attempts, hraises⟩ := raises_executeWithFallback hmappings hnonempty
      (by simpa using hmem : (some (R.routingAllowed allowedModels)).all
        (decision.selectedModel ∈ ·) = true) hstrategy
    unfold smartRoute
    rw [hsmart]
    refine .of_yields hyields (.of_yields (yields_createProviderFn hfactory)
      (.of_yields hraises.attempt ?_))
    simp only [if_neg hne]
    exact .of_yields (yields_createProviderFn hfactory)
      ((reaches_executeWithFallback hexecutes).bind _)

/-! ## Ensembles -/

variable {preset : EnsemblePreset} {estimate : ℚ}

variable (R) in
/-- The mappings that `ensembleRoute` may serve: those of the panel, and those of
the judge if enough members of the panel can answer. -/
def EnsembleServes (hasFactory : Bool) (preset : EnsemblePreset)
    (allowedModels : Option (List String)) (estimate : ℚ) (model : String)
    (m : ProviderModelMapping) : Prop :=
  (∀ n ∈ preset.panel ++ [preset.judge], allowedModels.all (n ∈ ·) = true) ∧
    preset.costCeiling.any (· < (preset.panel.length + 1) * estimate) = false ∧
    hasFactory = true ∧ R.Executes model none allowedModels m ∧
    (model ∈ preset.panel ∨ model = preset.judge ∧ ∃ able : List String,
      able.Sublist preset.panel ∧ able ≠ [] ∧ preset.quorum ≤ able.length ∧
        ∀ n ∈ able, ∃ m, R.Executes n none allowedModels m)

/-- A buffered request returns only if it can be served. -/
theorem serves_executeWithFallback_result :
    Serves R (fun _ _ ↦ True) (fun _ ↦ ∃ m, R.Executes model none allowedModels m)
      (R.executeWithFallback model none allowedModels) := by
  by_cases hexecutes : ∃ m, R.Executes model none allowedModels m
  · exact Serves.imp (fun _ _ ↦ hexecutes) (serves_executeWithFallback fun _ _ ↦ trivial)
  · refine Serves.bind (serves_mappingsOrRaise model) fun mappings hmappings ↦ ?_
    split_ifs with hallowed hempty
    · exact Serves.throw _
    · exact Serves.throw _
    · have hall : allowedModels.all (model ∈ ·) = true :=
        any_notMem_eq_false.mp (by simpa using hallowed)
      refine Serves.bind (serves_initialMapping model mappings) fun r hr ↦ ?_
      cases r with
      | error e => cases e <;> exact Serves.throw _
      | ok m =>
          refine absurd ?_ hexecutes
          obtain ⟨strategy, hstrategy, hpick⟩ | ⟨e, he, -⟩ := hr
          · obtain ⟨hm, provider, hfirst⟩ := hpick m rfl
            exact ⟨m, hall, hmappings ▸ hm, fun _ ↦
              ⟨strategy, provider, hstrategy, hmappings ▸ hfirst⟩⟩
          · cases he

theorem serves_dispatch (n : String)
    (hS : ∀ m, R.Executes n none allowedModels m → S n m) :
    Serves R S (fun r ↦ r.model = n ∧
        (r.response.isSome = true → ∃ m, R.Executes n none allowedModels m))
      (R.dispatch allowedModels n) := by
  have hexecute := (serves_executeWithFallback hS).and serves_executeWithFallback_result
  refine Serves.bind hexecute.attempt fun r hr ↦ ?_
  cases r with
  | error e => exact Serves.pure ⟨rfl, by simp⟩
  | ok response =>
      refine Serves.bind (Serves.ask rfl) fun inTime _ ↦ ?_
      cases inTime with
      | false => exact Serves.pure ⟨rfl, by simp⟩
      | true => exact Serves.pure ⟨rfl, fun _ ↦ (hr response rfl).2⟩

theorem serves_dispatchAll (panel : List String)
    (hS : ∀ n ∈ panel, ∀ m, R.Executes n none allowedModels m → S n m) :
    Serves R S (fun results ↦ results.map PanelMemberResult.model = panel ∧
        ∀ r ∈ results, r.response.isSome = true → ∃ m, R.Executes r.model none allowedModels m)
      (R.dispatchAll allowedModels panel) := by
  induction panel with
  | nil => exact Serves.pure (by simp)
  | cons n panel ih =>
      refine Serves.bind (serves_dispatch n (hS n List.mem_cons_self)) fun r hr ↦ ?_
      refine Serves.bind (ih fun n' hn' ↦ hS n' (List.mem_cons_of_mem n hn')) fun rs hrs ↦ ?_
      refine Serves.pure ⟨by simp [hr.1, hrs.1], fun r' hr' ↦ ?_⟩
      rcases List.mem_cons.mp hr' with rfl | hr'
      · rw [hr.1]
        exact hr.2
      · exact hrs.2 r' hr'

theorem yields_dispatch_none (n : String) :
    (R.dispatch allowedModels n).Yields (Possible R) ⟨n, none⟩ := by
  obtain ⟨r, hr⟩ := Raising.exists_yields_attempt (exists_possible R)
    (R.executeWithFallback n none allowedModels)
  refine hr.bind ?_
  cases r with
  | error e => exact Raising.Yields.pure
  | ok response =>
      exact (Raising.Yields.ask (o := Op.gate "panel member in time") (r := false) trivial).bind
        Raising.Yields.pure

theorem yields_dispatch_some {n : String} (h : ∃ m, R.Executes n none allowedModels m) :
    ∃ response, (R.dispatch allowedModels n).Yields (Possible R) ⟨n, some response⟩ := by
  obtain ⟨m, hm⟩ := h
  obtain ⟨response, hresponse⟩ := yields_executeWithFallback hm
  exact ⟨response, hresponse.attempt.bind
    ((Raising.Yields.ask (o := Op.gate "panel member in time") (r := true) trivial).bind
      Raising.Yields.pure)⟩

theorem reaches_dispatchAll {panel : List String} (hmodel : model ∈ panel)
    (h : R.Executes model none allowedModels m) :
    Reaches R model m.provider (R.dispatchAll allowedModels panel) := by
  induction panel with
  | nil => cases hmodel
  | cons n panel ih =>
      rcases List.mem_cons.mp hmodel with rfl | hmodel
      · exact ((reaches_executeWithFallback h).attempt.bind _).bind _
      · exact .of_yields (yields_dispatch_none n) ((ih hmodel).bind _)

/-- Just the members of `able` may answer. -/
theorem yields_dispatchAll {able panel : List String} (hsub : able.Sublist panel)
    (hable : ∀ n ∈ able, ∃ m, R.Executes n none allowedModels m) :
    ∃ results, (results.map PanelMemberResult.response).reduceOption.length = able.length ∧
      (R.dispatchAll allowedModels panel).Yields (Possible R) results := by
  induction hsub with
  | slnil => exact ⟨[], rfl, Raising.Yields.pure⟩
  | cons n _ ih =>
      obtain ⟨results, hlen, hresults⟩ := ih hable
      exact ⟨⟨n, none⟩ :: results, by simpa using hlen,
        (yields_dispatch_none n).bind (hresults.bind Raising.Yields.pure)⟩
  | cons_cons n _ ih =>
      obtain ⟨results, hlen, hresults⟩ := ih fun n' hn' ↦ hable n' (List.mem_cons_of_mem n hn')
      obtain ⟨response, hresponse⟩ := yields_dispatch_some (hable n List.mem_cons_self)
      exact ⟨⟨n, some response⟩ :: results, by simpa using hlen,
        hresponse.bind (hresults.bind Raising.Yields.pure)⟩

theorem find?_notMem_eq_none {l : List String} :
    (allowedModels.bind fun allowed ↦ l.find? (· ∉ allowed)) = none ↔
      ∀ n ∈ l, allowedModels.all (n ∈ ·) = true := by
  cases allowedModels <;> simp

theorem rankSurvivors_head? (criteria : String) (survivors : List ChatCompletionResponse) :
    (rankSurvivors criteria survivors).head? = none ↔ survivors = [] := by
  unfold rankSurvivors
  split_ifs
  · rw [List.head?_eq_none_iff, ← List.length_eq_zero_iff, List.length_insertionSort,
      List.length_eq_zero_iff]
  · exact List.head?_eq_none_iff

theorem serves_conclude {survivors : List ChatCompletionResponse}
    (hS : survivors ≠ [] → preset.quorum ≤ survivors.length →
      ∀ m, R.Executes preset.judge none allowedModels m → S preset.judge m) :
    Serves R S (fun _ ↦ True) (R.conclude preset allowedModels survivors) := by
  unfold conclude
  cases hhead : (rankSurvivors preset.rankingCriteria survivors).head? with
  | none => exact Serves.throw _
  | some best =>
      have hne : survivors ≠ [] := fun h ↦ by
        rw [(rankSurvivors_head? _ _).mpr h] at hhead
        cases hhead
      by_cases hquorum : (survivors.length : ℤ) < preset.quorum
      · simp only [if_pos hquorum]
        split_ifs
        · exact Serves.pure trivial
        · exact Serves.throw _
      · simp only [if_neg hquorum]
        have hjudge := serves_executeWithFallback (hS hne (not_lt.mp hquorum))
        refine Serves.bind hjudge.attempt fun r _ ↦ ?_
        cases r with
        | ok response => exact Serves.pure trivial
        | error e => exact Serves.throw _

theorem reaches_conclude {survivors : List ChatCompletionResponse} (hne : survivors ≠ [])
    (hquorum : preset.quorum ≤ survivors.length)
    (h : R.Executes preset.judge none allowedModels m) :
    Reaches R preset.judge m.provider (R.conclude preset allowedModels survivors) := by
  unfold conclude
  cases hhead : (rankSurvivors preset.rankingCriteria survivors).head? with
  | none => exact absurd ((rankSurvivors_head? _ _).mp hhead) hne
  | some best =>
      simp only [if_neg (not_lt.mpr hquorum)]
      exact (reaches_executeWithFallback h).attempt.bind _

theorem length_survivors (results : List PanelMemberResult) :
    (results.map PanelMemberResult.response).reduceOption.length =
      ((results.filter (·.response.isSome)).map PanelMemberResult.model).length := by
  rw [List.reduceOption_length_eq, List.filter_map, List.length_map, List.length_map]
  rfl

theorem serves_ensembleRoute
    (hS : ∀ model m, R.EnsembleServes hasFactory preset allowedModels estimate model m →
      S model m) :
    Serves R S (fun _ ↦ True) (R.ensembleRoute hasFactory preset allowedModels estimate) := by
  unfold ensembleRoute
  split
  · exact Serves.throw _
  · have hall := find?_notMem_eq_none.mp ‹_›
    cases hbelow : preset.costCeiling.any (· < (preset.panel.length + 1) * estimate) with
    | true => exact Serves.throw _
    | false =>
        refine Serves.bind serves_createProviderFn fun _ hfactory ↦ ?_
        refine Serves.bind (serves_dispatchAll preset.panel fun n hn m hm ↦
          hS n m ⟨hall, hbelow, hfactory, hm, .inl hn⟩) fun results hresults ↦ ?_
        refine serves_conclude fun hne hquorum m hm ↦ hS _ m ⟨hall, hbelow, hfactory, hm,
          .inr ⟨rfl, (results.filter (·.response.isSome)).map PanelMemberResult.model,
            ?_, ?_, ?_, ?_⟩⟩
        · rw [← hresults.1]
          exact List.filter_sublist.map _
        · rwa [← List.length_pos_iff, ← length_survivors, List.length_pos_iff]
        · rwa [← length_survivors]
        · intro n hn
          obtain ⟨r, hr, rfl⟩ := List.mem_map.mp hn
          obtain ⟨hr, hsome⟩ := List.mem_filter.mp hr
          exact hresults.2 r hr hsome

theorem reaches_ensembleRoute
    (h : R.EnsembleServes hasFactory preset allowedModels estimate model m) :
    Reaches R model m.provider (R.ensembleRoute hasFactory preset allowedModels estimate) := by
  obtain ⟨hall, hbelow, hfactory, hexecutes, hmodel⟩ := h
  unfold ensembleRoute
  rw [find?_notMem_eq_none.mpr hall]
  simp only [hbelow, Bool.false_eq_true, if_false]
  refine .of_yields (yields_createProviderFn hfactory) ?_
  rcases hmodel with hpanel | ⟨rfl, able, hsub, hne, hquorum, hable⟩
  · exact (reaches_dispatchAll hpanel hexecutes).bind _
  · obtain ⟨results, hlength, hresults⟩ := yields_dispatchAll hsub hable
    refine .of_yields hresults (reaches_conclude ?_ ?_ hexecutes)
    · rw [← List.length_pos_iff, hlength]
      exact List.length_pos_of_ne_nil hne
    · rwa [hlength]

end Router

end AxonGateway.Routing
