import AxonGateway.Routing.Replacement

/-!
# A selection from one registry

A selection that is told nothing a single live configuration would not have told it goes as it
would have gone with that configuration throughout, and then it does not look up a model that is
missing.
-/

namespace AxonGateway.Routing.Replacement

open Interleaving

variable {T : SmartRoutingStrategy} {may : List ModelRegistry → Prop} {w w' : World}
  {registry : ModelRegistry} {α : Type}

/-- What the call has been told of the registry holds of the configuration `C`. -/
def Agrees (T : SmartRoutingStrategy) (C : ModelRegistry) : Event → Prop
  | .routes model found => routes C model = found
  | .cost model found => cost T C model = found
  | _ => True

def event : (o : Op) → Ret o → Event
  | .lookUpRoutes model, found => .routes model found
  | .lookUpCost model, found => .cost model found
  | .isHealthy provider, answer => .healthy provider answer
  | .checkBudget scope, answer => .overBudget scope answer

theorem Exec.events {o : Op} {r : Ret o} (h : Exec T may w o r w') :
    w'.events = event o r :: w.events := by
  cases h <;> rfl

theorem events_suffix {p : Program α} {a : α} (h : Evals (machine T may) 0 p w a w') :
    w.events <:+ w'.events := by
  induction h with
  | done a w => exact List.suffix_rfl
  | call o k w w₁ w₂ r a hexec hk ih =>
      have hevents := Exec.events hexec
      rw [hevents] at ih
      exact (List.suffix_cons _ _).trans ih

/-! ### The same run with one configuration -/

theorem Exec.replay {C : ModelRegistry} {o : Op} {r : Ret o} {v : World}
    (h : Exec T may w o r w') (hagrees : Agrees T C (event o r)) (hregistry : v.registry = C)
    (hevents : v.events = w.events) : ∃ v', Exec T (fun configs ↦ configs = []) v o r v' ∧
      v'.registry = C ∧ v'.events = w'.events := by
  subst hregistry
  cases h with
  | lookUpRoutes model =>
      have hfound : routes v.registry model = routes w.registry model := hagrees
      refine ⟨v.note (.routes model (routes w.registry model)), ?_, rfl, ?_⟩
      · rw [← hfound]
        exact .lookUpRoutes model
      · exact congrArg (List.cons _) hevents
  | lookUpCost model =>
      have hfound : cost T v.registry model = cost T w.registry model := hagrees
      refine ⟨v.note (.cost model (cost T w.registry model)), ?_, rfl, ?_⟩
      · rw [← hfound]
        exact .lookUpCost model
      · exact congrArg (List.cons _) hevents
  | isHealthy provider answer =>
      exact ⟨_, .isHealthy provider answer, rfl, congrArg (List.cons _) hevents⟩
  | checkBudget scope answer configs hmay =>
      exact ⟨_, .checkBudget scope answer [] rfl, rfl, congrArg (List.cons _) hevents⟩

theorem replay {C : ModelRegistry} {p : Program α} {a : α}
    (h : Evals (machine T may) 0 p w a w') (hagrees : ∀ e ∈ w'.events, Agrees T C e) {v : World}
    (hregistry : v.registry = C) (hevents : v.events = w.events) :
    ∃ v', Evals (still T) 0 p v a v' ∧ v'.events = w'.events := by
  induction h generalizing v with
  | done a w => exact ⟨v, .done a v, hevents⟩
  | call o k w w₁ w₂ r a hexec hk ih =>
      have hfirst : event o r ∈ w₂.events := by
        apply (events_suffix hk).subset
        rw [Exec.events hexec]
        exact List.mem_cons_self
      obtain ⟨v₁, hexec₁, hregistry₁, hevents₁⟩ :=
        Exec.replay hexec (hagrees _ hfirst) hregistry hevents
      obtain ⟨v₂, hk₂, hevents₂⟩ := ih hagrees hregistry₁ hevents₁
      exact ⟨v₂, .call o k v v₁ v₂ r a hexec₁ hk₂, hevents₂⟩

theorem Exec.agrees {o : Op} {r : Ret o} (h : Exec T (fun configs ↦ configs = []) w o r w') :
    w'.registry = w.registry ∧ Agrees T w.registry (event o r) := by
  cases h with
  | lookUpRoutes model => exact ⟨rfl, rfl⟩
  | lookUpCost model => exact ⟨rfl, rfl⟩
  | isHealthy provider answer => exact ⟨rfl, trivial⟩
  | checkBudget scope answer configs hmay =>
      subst hmay
      exact ⟨rfl, trivial⟩

/-- A registry that is not replaced is all that the call is told. -/
theorem agrees_of_still {p : Program α} {a : α} (h : Evals (still T) 0 p w a w')
    (hagrees : ∀ e ∈ w.events, Agrees T w.registry e) :
    ∀ e ∈ w'.events, Agrees T w.registry e := by
  induction h with
  | done a w => exact hagrees
  | call o k w w₁ w₂ r a hexec hk ih =>
      obtain ⟨hregistry, hevent⟩ := Exec.agrees hexec
      rw [hregistry] at ih
      refine ih fun e he ↦ ?_
      rw [Exec.events hexec] at he
      rcases List.mem_cons.mp he with rfl | he
      · exact hevent
      · exact hagrees e he

/-! ### No missing model -/

section Still

variable {prompt : String} {allowedModels : Option (List String)} {projectId userId : Option String}
  {C : ModelRegistry}

theorem anyHealthy_alone (hregistry : w.registry = C) (providers : List String) :
    Alone (still T) 0 (fun _ w' ↦ w'.registry = C) (anyHealthy providers) w := by
  induction providers generalizing w with
  | nil => exact hregistry
  | cons provider providers ih =>
      intro answer w' hexec
      have h' : w'.registry = C := (Exec.agrees hexec).1.trans hregistry
      cases answer with
      | true => exact h'
      | false => exact ih h'

theorem overBudget_alone (hregistry : w.registry = C) (scope : String) (id : Option String) :
    Alone (still T) 0 (fun _ w' ↦ w'.registry = C) (overBudget scope id) w := by
  cases id with
  | none => exact hregistry
  | some id => exact fun answer w' hexec ↦ (Exec.agrees hexec).1.trans hregistry

theorem routes_isSome {model : String} : (routes C model).isSome = (C.config? model).isSome := by
  rw [routes, Option.isSome_map]

theorem cost_isSome {model : String} : (cost T C model).isSome = (C.config? model).isSome := by
  rw [cost, Option.isSome_map]

/-- A model that passes the filter is registered. -/
theorem filteredReason_alone (hregistry : w.registry = C) (model : String) :
    Alone (still T) 0 (fun reason w' ↦ w'.registry = C ∧
      (reason = none → (C.config? model).isSome = true))
      (filteredReason prompt allowedModels projectId userId model) w := by
  unfold filteredReason
  split
  next => exact ⟨hregistry, by simp⟩
  next =>
    intro found w₁ hexec
    have h₁ : w₁.registry = C := (Exec.agrees hexec).1.trans hregistry
    have hfound : found = routes C model := by
      cases hexec
      rw [hregistry]
    cases found with
    | none => exact ⟨h₁, by simp⟩
    | some found =>
        have hsome : (C.config? model).isSome = true := by rw [← routes_isSome, ← hfound]; rfl
        refine Alone.seq (p := anyHealthy found.providers) (anyHealthy_alone h₁ _)
          fun healthy w₂ h₂ ↦ ?_
        cases healthy with
        | false => exact ⟨h₂, by simp⟩
        | true =>
            rw [if_pos rfl]
            split
            next => exact ⟨h₂, by simp⟩
            refine Alone.seq (overBudget_alone h₂ "project" projectId) fun answer w₃ h₃ ↦ ?_
            cases answer with
            | true => exact ⟨h₃, by simp⟩
            | false =>
                refine Alone.seq (overBudget_alone h₃ "user" userId) fun answer w₄ h₄ ↦ ?_
                cases answer with
                | true => exact ⟨h₄, by simp⟩
                | false => exact ⟨h₄, fun _ ↦ hsome⟩

theorem candidates_alone (hregistry : w.registry = C) (scores : List ModelScore) :
    Alone (still T) 0 (fun r w' ↦ w'.registry = C ∧
      ∀ score ∈ r.1, (C.config? score.modelName).isSome = true)
      (candidates prompt allowedModels projectId userId scores) w := by
  induction scores generalizing w with
  | nil => exact ⟨hregistry, by simp⟩
  | cons score scores ih =>
      refine Alone.seq (filteredReason_alone hregistry score.modelName) fun reason w₁ h₁ ↦ ?_
      refine Alone.seq (ih h₁.1) fun r w₂ h₂ ↦ ?_
      refine ⟨h₂.1, fun s hs ↦ ?_⟩
      dsimp only at hs
      split at hs
      next hreason =>
        rcases List.mem_cons.mp hs with rfl | hs
        · exact h₁.2 hreason
        · exact h₂.2 s hs
      next => exact h₂.2 s hs

theorem costs_alone (hregistry : w.registry = C) {scores : List ModelScore}
    (h : ∀ score ∈ scores, (C.config? score.modelName).isSome = true) :
    Alone (still T) 0 (fun r w' ↦ w'.registry = C ∧ ∃ priced, r = .ok priced)
      (costs scores) w := by
  induction scores generalizing w with
  | nil => exact ⟨hregistry, [], rfl⟩
  | cons score scores ih =>
      obtain ⟨hscore, hscores⟩ := List.forall_mem_cons.mp h
      intro found w₁ hexec
      have h₁ : w₁.registry = C := (Exec.agrees hexec).1.trans hregistry
      have hfound : found = cost T C score.modelName := by
        cases hexec
        rw [hregistry]
      rw [← cost_isSome (T := T), ← hfound] at hscore
      cases found with
      | none => cases hscore
      | some found =>
          refine Alone.seq (p := costs scores) (ih h₁ hscores) fun r w₂ h₂ ↦ ?_
          obtain ⟨hregistry₂, priced, rfl⟩ := h₂
          exact ⟨hregistry₂, (score, found) :: priced, rfl⟩

theorem selectModel_alone (hregistry : w.registry = C) :
    Alone (still T) 0 (fun a _ ↦ ∀ model, a ≠ .keyError model)
      (selectModel T prompt allowedModels projectId userId) w := by
  unfold selectModel
  split
  next => exact fun model ↦ by simp
  next =>
    refine Alone.seq (candidates_alone hregistry _) fun r w₁ h₁ ↦ ?_
    dsimp only
    split
    next => exact fun model ↦ by simp
    next =>
      refine Alone.seq (costs_alone h₁.1 h₁.2) fun r w₂ h₂ ↦ ?_
      obtain ⟨-, priced, rfl⟩ := h₂
      dsimp only
      split
      next => exact fun model ↦ by simp
      next => exact fun model ↦ by simp

end Still

/-! ### Runs -/

/-- The call goes as it would with one configuration that was live during it, with the same
answers throughout, and does not fail on a missing model. -/
structure Whole (T : SmartRoutingStrategy) (p : Program Outcome) (a : Outcome) (w : World) :
    Prop where
  same : ∃ C ∈ w.lived, ∃ v, Evals (still T) 0 p (start C) a v ∧ v.events = w.events
  found : ∀ model, a ≠ .keyError model

def model (name : String) : ModelConfig where
  name := name
  providers := [{ ref := 0, provider := "openai", modelId := name }]
  distinct := by simp

def before : ModelRegistry := ⟨[model "large", model "small"], by decide⟩

def after : ModelRegistry := ⟨[model "small"], by decide⟩

/-- A classifier that is always sure, and two ranked models. -/
def sure : SmartRoutingStrategy where
  classify _ := ⟨"general", 1⟩
  getRankings _ := [⟨"large", 9⟩, ⟨"small", 5⟩]
  pricingConfig _ _ := none

/-- Every provider is healthy, no budget is exhausted, and `configs` go live while a budget is
awaited. -/
def answer (configs : List ModelRegistry) : (o : Op) → World → Ret o × World
  | .lookUpRoutes model, w =>
      (routes w.registry model, w.note (.routes model (routes w.registry model)))
  | .lookUpCost model, w =>
      (cost sure w.registry model, w.note (.cost model (cost sure w.registry model)))
  | .isHealthy provider, w => (true, w.note (.healthy provider true))
  | .checkBudget scope, w => (false, (w.replaceAll configs).note (.overBudget scope false))

theorem exec_answer (configs : List ModelRegistry) (hmay : may configs) (o : Op) (w : World) :
    Exec sure may w o (answer configs o w).1 (answer configs o w).2 := by
  cases o with
  | lookUpRoutes model => exact .lookUpRoutes model
  | lookUpCost model => exact .lookUpCost model
  | isHealthy provider => exact .isHealthy provider true
  | checkBudget scope => exact .checkBudget scope false configs hmay

def selection : Program Outcome := selectModel sure "hello" none (some "search") none

def Outcome.selected : Outcome → Option String
  | .decision d => some d.selectedModel
  | .noCandidateModels => none
  | .keyError _ => none

def Outcome.missing : Outcome → Option String
  | .keyError model => some model
  | _ => none

end AxonGateway.Routing.Replacement
