import AxonGateway.Lib.PyText
import AxonGateway.Routing.Smart
import AxonGateway.Policy.Model

/-!
# The request path of the gateway agent

`handleChatCompletion` first runs its checks in order and then takes one of four
paths: ensemble, smart, direct streaming or direct buffered.  A check that
depends on more than the request and its policy is a gate, which the rest of the
gateway may open or close.
-/

namespace AxonGateway.Routing

open Interleaving Policy

structure Project where
  allowedModels : List String := []

structure UserConfig where
  allowedModels : Option (List String) := none

/-- `prompt` is the last user prompt of the (redacted) messages. -/
structure ChatCompletionRequest where
  model : String
  prompt : String
  stream : Bool := false
  maxTokens : Option ℕ := none

structure Context where
  projectId : Option String
  userId : Option String
  smartRouting : Bool := false
  ensemble : Bool := false
  provider : Option String := none

structure Agent where
  router : Router
  hasRuntime : Bool
  hasFactory : Bool

inductive Reply where
  | error (code : String)
  | response (r : ChatCompletionResponse)
  | stream (mapping : ProviderModelMapping)

/-! ## Checks -/

/-- A check with the code of its error: one the rest of the gateway decides, or
one that the request decides. -/
inductive Check where
  | gate (name code : String)
  | demand (ok : Bool) (code : String)

namespace Check

/-- The code of the error, if the check fails. -/
def run : Check → Route (Option String)
  | gate name code => do
      if ← Raising.ask (Op.gate name) then pure none else pure (some code)
  | demand ok code => pure (if ok then none else some code)

def canPass : Check → Bool
  | gate _ _ => true
  | demand ok _ => ok

end Check

/-- The checks in order, up to the first that fails. -/
def firstFailure : List Check → Route (Option String)
  | [] => pure none
  | c :: cs => do
      match ← c.run with
      | some code => pure (some code)
      | none => firstFailure cs

/-- `enforce_all`: the policy's own limits, between gates for its rate and
budget counters. -/
def enforceAll (P : ResolvedPolicy) (request : ChatCompletionRequest) (context : Context) :
    List Check :=
  [.gate "policy rate limit" "rate_limit_rpm",
    .gate "policy budget" "budget_limit",
    .demand (match request.maxTokens, P.maxTokensPerRequest with
      | some n, some limit => decide ((n : ℚ) ≤ limit)
      | _, _ => true) "max_tokens_per_request",
    .demand (P.allowedModels.all (request.model ∈ ·)) "allowed_models",
    .demand ((truthy context.provider).all fun provider ↦
      P.allowedProviders.all (provider ∈ ·)) "allowed_providers"]

/-- `_compute_effective_allowed_models`. -/
def effectiveAllowedModels (project : Option Project) (user : UserConfig) :
    Option (List String) :=
  let projectAllowed := (project.map Project.allowedModels).filter (· ≠ [])
  let userAllowed := user.allowedModels.filter (· ≠ [])
  match projectAllowed, userAllowed with
  | some p, some u => some (p.filter (· ∈ u))
  | some p, none => some p
  | none, u => u

namespace Agent

variable (G : Agent)

/-- `_is_smart_routing_request`. -/
def isSmartRouting (request : ChatCompletionRequest) (context : Context) : Bool :=
  G.router.smartStrategy.isSome &&
    (context.smartRouting || PyText.isBlank request.model)

/-- `_is_ensemble_request`: the preset that is asked for, where `none` is the
default one, or the complaint about a missing name. -/
def ensembleRequest (request : ChatCompletionRequest) (context : Context) :
    Option (Except String (Option String)) :=
  match G.router.ensembleConfig with
  | none => none
  | some _ =>
      if request.model = "ensemble" then some (.ok none)
      else if "ensemble:".toList <+: request.model.toList then
        if request.model = "ensemble:" then some (.error "missing preset name")
        else some (.ok (some (String.ofList (request.model.toList.drop 9))))
      else if context.ensemble then some (.ok none)
      else none

def skipsModelChecks (request : ChatCompletionRequest) (context : Context) : Bool :=
  G.isSmartRouting request context || (G.ensembleRequest request context).isSome

/-- Everything `handle_chat_completion` checks before it routes. -/
def checks (policy : Option ResolvedPolicy) (project : Option Project) (user : UserConfig)
    (request : ChatCompletionRequest) (context : Context) : List Check :=
  let skip := G.skipsModelChecks request context
  let accessible (models : List String) : Bool :=
    skip || models.isEmpty || decide (request.model ∈ models)
  [.gate "tenant project" "resource_not_found"] ++
  (if skip then [] else [.gate "request validator" "invalid_request"]) ++
  (policy.map (enforceAll · request context)).getD [] ++
  [.demand (skip || G.router.isModelAvailable request.model) "model_unavailable",
    .gate "injection detector" "injection_blocked",
    .gate "rate limiter" "rate_limit_exceeded",
    .demand (accessible ((project.map Project.allowedModels).getD [])) "model_not_allowed",
    .gate "user configuration" "user_config_unavailable",
    .demand (accessible (user.allowedModels.getD [])) "model_not_allowed",
    .gate "project budget" "budget_exceeded",
    .gate "user budget" "budget_exceeded",
    .gate "guardrails" "guardrail_violation",
    .gate "cache miss" "cached",
    .gate "region" "no_available_region"]

/-- Whether the request itself passes the checks. -/
def admits (policy : Option ResolvedPolicy) (project : Option Project) (user : UserConfig)
    (request : ChatCompletionRequest) (context : Context) : Bool :=
  (G.checks policy project user request context).all Check.canPass

/-! ## Execution -/

/-- One mapping of the pre-first-byte loop of `_stream_true` without a routing
runtime, where any exception ends the attempt. -/
def tryNative (model : String) (m : ProviderModelMapping) (attempts : List Attempt) :
    Route (Option (Option ProviderModelMapping) × List Attempt) := do
  match ← Raising.ask (Op.openStream model m) with
  | .opened _ => pure (some (some m), attempts)
  | .providerError e => do
      G.router.markFailed m e
      pure (none, attempts ++ [failed m e])
  | .raised message => do
      Raising.ask (Op.markUnhealthy m.provider G.router.cooldownSeconds)
      pure (none, attempts ++ [⟨m.provider, 0, message, none⟩])

/-- `_resolve_stream_chain`. -/
def resolveStreamChain (model : String) (preferredProvider : Option String) :
    Route (List ProviderModelMapping) := do
  let mappings ← G.router.mappingsOrRaise model
  match truthy preferredProvider with
  | some preferred => pure (sortedByPreference preferred (sortedByOrder mappings))
  | none => pure (sortedByOrder mappings)

/-- The mapping whose native stream `_stream_true` relays, if one opened. -/
def openNative (model : String) (preferredProvider : Option String)
    (effectiveAllowed : Option (List String)) : Route (Option ProviderModelMapping) :=
  if G.hasRuntime then do
    match ← G.router.openStream model preferredProvider effectiveAllowed with
    | .opened m _ _ => pure (some m)
    | .unavailable _ => pure none
  else do
    let chain ← G.resolveStreamChain model preferredProvider
    tryEach (G.tryNative model) (fun _ ↦ pure none) chain []

/-- `_stream_true`; the access list is checked unless a smart decision was made. -/
def streamTrue (model : String) (preferredProvider : Option String)
    (effectiveAllowed : Option (List String)) (smartDecision : Bool) : Route Reply :=
  if !smartDecision && effectiveAllowed.any (model ∉ ·) then pure (.error "model_not_allowed")
  else do
    match ← G.openNative model preferredProvider effectiveAllowed with
    | some m => pure (.stream m)
    | none =>
        match ← Raising.attempt
            (G.router.executeWithFallback model preferredProvider effectiveAllowed) with
        | .ok response => pure (.response response)
        | .error _ => pure (.error "all_providers_exhausted")

/-- `_can_stream_true`. -/
def canStreamTrue : Bool := G.hasRuntime || G.hasFactory

/-- Run `x` once the budget is reserved. -/
def reserved (x : Route Reply) : Route Reply := do
  match ← (Check.gate "budget reservation" "budget_exceeded").run with
  | some code => pure (.error code)
  | none => x

/-- The ensemble path: the preset is looked up and checked before it runs. -/
def handleEnsemble (config : EnsembleConfig) (presetName : Except String (Option String))
    (effectiveAllowed : Option (List String)) (estimate : ℚ) : Route Reply :=
  match presetName with
  | .error _ => pure (.error "ensemble_preset_missing")
  | .ok name =>
      match (name <|> config.defaultPresetName).bind fun n ↦
          config.presets.find? (·.name == n) with
      | none =>
          pure (.error (if name.isSome then "ensemble_preset_not_found" else "ensemble_no_default"))
      | some preset =>
          let models := preset.panel ++ [preset.judge]
          if effectiveAllowed.any fun allowed ↦ models.any (· ∉ allowed) then
            pure (.error "model_not_allowed")
          else if models.any fun model ↦ !G.router.isModelAvailable model then
            pure (.error "model_unavailable")
          else if preset.costCeiling.any (· < (preset.panel.length + 1) * estimate) then
            pure (.error "ensemble_cost_ceiling")
          else reserved do
            pure (.response (← G.router.ensembleRoute G.hasFactory preset effectiveAllowed estimate))

/-- The smart path. -/
def handleSmart (T : SmartRoutingStrategy) (request : ChatCompletionRequest) (context : Context)
    (effectiveAllowed : Option (List String)) : Route Reply :=
  if request.stream && G.canStreamTrue then do
    let routingAllowed := G.router.routingAllowed effectiveAllowed
    let decision ← T.selectModel G.router.modelRegistry request.prompt (some routingAllowed)
      context.projectId context.userId
    reserved (G.streamTrue decision.selectedModel none (some routingAllowed) true)
  else reserved do
    let (response, _) ← G.router.smartRoute G.hasFactory request.prompt effectiveAllowed
      context.projectId context.userId
    pure (.response response)

/-- The direct path. -/
def handleDirect (request : ChatCompletionRequest) (context : Context)
    (effectiveAllowed : Option (List String)) : Route Reply :=
  reserved do
    if request.stream && G.canStreamTrue then
      G.streamTrue request.model context.provider effectiveAllowed false
    else
      pure (.response
        (← G.router.executeWithFallback request.model context.provider effectiveAllowed))

/-- The ways of executing a request. -/
inductive Path where
  | ensemble (config : EnsembleConfig) (presetName : Except String (Option String))
  | smart (T : SmartRoutingStrategy)
  | direct

/-- An ensemble request without configured presets is treated like any other. -/
def path (request : ChatCompletionRequest) (context : Context) : Path :=
  match G.ensembleRequest request context, G.router.ensembleConfig.filter (·.presets ≠ []) with
  | some presetName, some config => .ensemble config presetName
  | _, _ =>
      match G.router.smartStrategy.filter fun _ ↦ G.isSmartRouting request context with
      | some T => .smart T
      | none => .direct

/-- Steps 10 and following of `handle_chat_completion`. -/
def route (project : Option Project) (user : UserConfig) (request : ChatCompletionRequest)
    (context : Context) (estimate : ℚ) : Route Reply :=
  match G.path request context with
  | .ensemble config presetName =>
      G.handleEnsemble config presetName (effectiveAllowedModels project user) estimate
  | .smart T => G.handleSmart T request context (effectiveAllowedModels project user)
  | .direct => G.handleDirect request context (effectiveAllowedModels project user)

/-- `handle_chat_completion`. -/
def handleChatCompletion (policy : Option ResolvedPolicy) (project : Option Project)
    (user : UserConfig) (request : ChatCompletionRequest) (context : Context) (estimate : ℚ) :
    Route Reply := do
  match ← firstFailure (G.checks policy project user request context) with
  | some code => pure (.error code)
  | none => G.route project user request context estimate

end Agent

end AxonGateway.Routing
