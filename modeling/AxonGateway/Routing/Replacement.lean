import AxonGateway.Routing.Smart

/-!
# A registry that is replaced during a selection

The selection looks models up in the shared registry, once when it filters and once more when it
prices what is left, and awaits the budgets in between.  A replacement of the registry can only
happen at an await.
-/

namespace AxonGateway.Routing.Replacement

open Interleaving

/-- What the filter uses of a registered model. -/
structure Routes where
  providers : List String
  maxContextTokens : Option ℕ
  deriving DecidableEq

def routes (registry : ModelRegistry) (model : String) : Option Routes :=
  (registry.config? model).map fun config ↦
    ⟨config.providers.map ProviderModelMapping.provider, config.maxContextTokens⟩

/-- The cost of a registered model, if it has a price. -/
def cost (T : SmartRoutingStrategy) (registry : ModelRegistry) (model : String) :
    Option (Option ℚ) :=
  (registry.config? model).map T.modelCost

inductive Event where
  | routes (model : String) (found : Option Routes)
  | cost (model : String) (found : Option (Option ℚ))
  | healthy (provider : String) (answer : Bool)
  | overBudget (scope : String) (answer : Bool)
  deriving DecidableEq

/-- The registry.  No operation reads `lived`, the configurations that were live during the call,
and `events`, what the call has been told, the latest first. -/
structure World where
  registry : ModelRegistry
  lived : List ModelRegistry
  events : List Event

inductive Op where
  | lookUpRoutes (model : String)
  | lookUpCost (model : String)
  | isHealthy (provider : String)
  | checkBudget (scope : String)
  deriving DecidableEq

abbrev Ret : Op → Type
  | .lookUpRoutes _ => Option Routes
  | .lookUpCost _ => Option (Option ℚ)
  | .isHealthy _ => Bool
  | .checkBudget _ => Bool

namespace World

def note (w : World) (e : Event) : World := { w with events := e :: w.events }

/-- `replace_config` succeeds for these configurations, one after the other. -/
def replaceAll (w : World) (configs : List ModelRegistry) : World :=
  { w with
    registry := configs.getLastD w.registry
    lived := configs.reverse ++ w.lived }

end World

/-- One operation, where `may` says which replacements can happen while a budget is awaited. -/
inductive Exec (T : SmartRoutingStrategy) (may : List ModelRegistry → Prop) (w : World) :
    (o : Op) → Ret o → World → Prop
  | lookUpRoutes (model : String) : Exec T may w (.lookUpRoutes model) (routes w.registry model)
      (w.note (.routes model (routes w.registry model)))
  | lookUpCost (model : String) : Exec T may w (.lookUpCost model) (cost T w.registry model)
      (w.note (.cost model (cost T w.registry model)))
  | isHealthy (provider : String) (answer : Bool) :
      Exec T may w (.isHealthy provider) answer (w.note (.healthy provider answer))
  | checkBudget (scope : String) (answer : Bool) (configs : List ModelRegistry)
      (hmay : may configs) : Exec T may w (.checkBudget scope) answer
        ((w.replaceAll configs).note (.overBudget scope answer))

def machine (T : SmartRoutingStrategy) (may : List ModelRegistry → Prop) :
    Machine Op Ret World where
  exec _ o w r w' := Exec T may w o r w'
  env _ _ := False

/-- Other calls may replace the registry. -/
abbrev shared (T : SmartRoutingStrategy) : Machine Op Ret World := machine T fun _ ↦ True

/-- Nothing replaces the registry. -/
abbrev still (T : SmartRoutingStrategy) : Machine Op Ret World := machine T fun configs ↦ configs = []

/-- The call starts while `registry` is live. -/
def start (registry : ModelRegistry) : World := ⟨registry, [registry], []⟩

/-! ### The selection -/

abbrev Program := Prog Op Ret

/-- `any(is_healthy(p.provider) for p in providers)` -/
def anyHealthy : List String → Program Bool
  | [] => pure false
  | provider :: providers => do
      if ← Prog.op (Op.isHealthy provider) then pure true else anyHealthy providers

def overBudget (scope : String) : Option String → Program Bool
  | none => pure false
  | some _ => Prog.op (Op.checkBudget scope)

section Selection

variable (T : SmartRoutingStrategy) (prompt : String) (allowedModels : Option (List String))
  (projectId userId : Option String)

/-- Steps 4 to 7 for one ranked model: the reason for which it is filtered out. -/
def filteredReason (model : String) : Program (Option String) := do
  if allowedModels.any (model ∉ ·) then pure (some "not_in_allowed_models")
  else
    match ← Prog.op (Op.lookUpRoutes model) with
    | none => pure (some "not_in_registry")
    | some found => do
        if ← anyHealthy found.providers then
          if found.maxContextTokens.any (· < estimateTokenCount prompt) then
            pure (some "context_window_too_small")
          else if ← overBudget "project" projectId then pure (some "over_budget")
          else if ← overBudget "user" userId then pure (some "over_budget")
          else pure none
        else pure (some "all_providers_unhealthy")

/-- The loop over the rankings. -/
def candidates : List ModelScore → Program (List ModelScore × List Considered)
  | [] => pure ([], [])
  | score :: scores => do
      let reason ← filteredReason prompt allowedModels projectId userId score.modelName
      let (passed, considered) ← candidates scores
      pure (if reason = none then score :: passed else passed,
        ⟨score.modelName, score.score, reason⟩ :: considered)

/-- The costs of the candidates; a model that is not registered raises `KeyError`. -/
def costs : List ModelScore → Program (Except String (List (ModelScore × Option ℚ)))
  | [] => pure (.ok [])
  | score :: scores => do
      match ← Prog.op (Op.lookUpCost score.modelName) with
      | none => pure (.error score.modelName)
      | some found => do
          let rest ← costs scores
          pure (rest.map ((score, found) :: ·))

/-- Steps 8 and 9: the best candidate by composite score, the first one on a tie. -/
def best (priced : List (ModelScore × Option ℚ)) : Option ModelScore :=
  let known := (priced.map Prod.snd).reduceOption
  let scores := priced.map fun c ↦ c.1.score
  let maxBenchmark := scores.foldl max (scores.headD 0)
  let maxCost := known.foldl max (known.headD 0)
  let maxCost := if maxCost = 0 then 1 else maxCost
  let fallbackCost := if known = [] then 0 else known.sum / known.length
  (priced.argmax fun c ↦
    T.compositeScore c.1.score (c.2.getD fallbackCost) maxBenchmark maxCost).map Prod.fst

inductive Outcome where
  | decision (d : SmartRoutingDecision)
  | noCandidateModels
  | keyError (model : String)

/-- `select_model` -/
def selectModel : Program Outcome := do
  if T.fallsBack prompt then pure (.decision (T.decision prompt T.defaultModel 0 [] true))
  else
    let (passed, considered) ← candidates prompt allowedModels projectId userId
      (T.getRankings (T.classify prompt).taskType)
    if passed = [] then pure .noCandidateModels
    else
      match ← costs passed with
      | .error model => pure (.keyError model)
      | .ok priced =>
          match best T priced with
          | none => pure .noCandidateModels
          | some c => pure (.decision (T.decision prompt c.modelName c.score considered false))

end Selection

end AxonGateway.Routing.Replacement
