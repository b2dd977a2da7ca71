import AxonGateway.Routing.Agent
import AxonGateway.Routing.Models
import AxonGateway.Routing.StreamOrder

/-!
# Confinement of a request to its lists

The exact set of mappings a chat completion may be served from decides two
questions: whether the resolved policy confines the route, and whether the
access lists of project and user confine the model.
-/

namespace AxonGateway.Routing

open Interleaving Policy

variable {R : Router} {S : String → ProviderModelMapping → Prop}

/-! ## The checks -/

theorem serves_check (c : Check) : Serves R S (fun r ↦ r = none → c.canPass = true) c.run := by
  cases c with
  | gate name code =>
      refine Serves.bind (Serves.ask rfl) fun opened _ ↦ ?_
      cases opened <;> exact Serves.pure fun _ ↦ rfl
  | demand ok code =>
      cases ok with
      | true => exact Serves.pure fun _ ↦ rfl
      | false => exact Serves.pure (by simp)

theorem yields_check {c : Check} (h : c.canPass = true) : c.run.Yields (Possible R) none := by
  cases c with
  | gate name code =>
      exact (Raising.Yields.ask (o := Op.gate name) (r := true) trivial).bind Raising.Yields.pure
  | demand ok code =>
      obtain rfl : ok = true := h
      exact Raising.Yields.pure

theorem serves_firstFailure (cs : List Check) :
    Serves R S (fun r ↦ r = none → cs.all Check.canPass = true) (firstFailure cs) := by
  induction cs with
  | nil => exact Serves.pure (by simp)
  | cons c cs ih =>
      refine Serves.bind (serves_check c) fun r hr ↦ ?_
      cases r with
      | some code => exact Serves.pure (by simp)
      | none =>
          refine Serves.imp (fun r hall hnone ↦ ?_) ih
          rw [List.all_cons, hr rfl, hall hnone]
          rfl

theorem yields_firstFailure {cs : List Check} (h : cs.all Check.canPass = true) :
    (firstFailure cs).Yields (Possible R) none := by
  induction cs with
  | nil => exact Raising.Yields.pure
  | cons c cs ih =>
      rw [List.all_cons, Bool.and_eq_true] at h
      exact (yields_check h.1).bind (ih h.2)

namespace Agent

variable {G : Agent} {policy : Option ResolvedPolicy} {project : Option Project}
  {user : UserConfig} {request : ChatCompletionRequest} {context : Context} {estimate : ℚ}
  {model : String} {m : ProviderModelMapping} {effectiveAllowed : Option (List String)}

/-! ## Streaming -/

variable (G) in
/-- The mappings that `streamTrue` may serve. -/
def Relays (model : String) (preferredProvider : Option String)
    (effectiveAllowed : Option (List String)) (smartDecision : Bool)
    (m : ProviderModelMapping) : Prop :=
  (smartDecision = true ∨ effectiveAllowed.all (model ∈ ·) = true) ∧
    if G.hasRuntime then G.router.Streams model preferredProvider effectiveAllowed m
    else m ∈ (G.router.availableMappings model).getD []

variable {preferredProvider : Option String} {smartDecision : Bool}

theorem serves_tryNative (hS : S model m) (attempts : List Attempt) :
    Serves G.router S (fun _ ↦ True) (G.tryNative model m attempts) := by
  refine Serves.bind (Serves.invoke rfl hS) fun r _ ↦ ?_
  cases r with
  | opened => exact Serves.pure trivial
  | providerError e =>
      exact Serves.bind (Router.serves_markFailed m e) fun _ _ ↦ Serves.pure trivial
  | raised => exact Serves.bind (Serves.ask rfl) fun _ _ ↦ Serves.pure trivial

theorem serves_resolveStreamChain (model : String) (preferredProvider : Option String) :
    Serves G.router S (fun chain ↦ ∀ m ∈ chain, m ∈ (G.router.availableMappings model).getD [])
      (G.resolveStreamChain model preferredProvider) := by
  refine Serves.bind (Router.serves_mappingsOrRaise model) fun mappings hmappings ↦ ?_
  rw [hmappings]
  cases truthy preferredProvider with
  | some preferred =>
      exact Serves.pure fun m hm ↦ mem_sortedByOrder.mp ((List.mem_insertionSort _).mp hm)
  | none => exact Serves.pure fun m hm ↦ mem_sortedByOrder.mp hm

theorem yields_resolveStreamChain (hm : m ∈ (G.router.availableMappings model).getD [])
    (preferredProvider : Option String) :
    ∃ chain, m ∈ chain ∧
      (G.resolveStreamChain model preferredProvider).Yields (Possible G.router) chain := by
  cases hmappings : G.router.availableMappings model with
  | none => simp [hmappings] at hm
  | some mappings =>
      replace hm : m ∈ mappings := by simpa [hmappings] using hm
      unfold resolveStreamChain
      have hstart := Router.yields_mappingsOrRaise hmappings
      cases truthy preferredProvider with
      | some preferred =>
          exact ⟨_, (List.mem_insertionSort _).mpr (mem_sortedByOrder.mpr hm),
            hstart.bind Raising.Yields.pure⟩
      | none => exact ⟨_, mem_sortedByOrder.mpr hm, hstart.bind Raising.Yields.pure⟩

theorem serves_streamTrue
    (hS : ∀ m, G.Relays model preferredProvider effectiveAllowed smartDecision m → S model m) :
    Serves G.router S (fun _ ↦ True)
      (G.streamTrue model preferredProvider effectiveAllowed smartDecision) := by
  unfold streamTrue
  split_ifs with hdenied
  · exact Serves.pure trivial
  · have hopen : smartDecision = true ∨ effectiveAllowed.all (model ∈ ·) = true := by
      rw [← Router.any_notMem_eq_false]
      cases smartDecision
      · exact .inr (by simpa using hdenied)
      · exact .inl rfl
    have hnative : Serves G.router S (fun _ ↦ True)
        (G.openNative model preferredProvider effectiveAllowed) := by
      unfold openNative
      split_ifs with hruntime
      · refine Serves.bind (Router.serves_openStream fun m hm ↦ hS m ⟨hopen, ?_⟩) fun r _ ↦ ?_
        · rwa [if_pos hruntime]
        · cases r <;> exact Serves.pure trivial
      · refine Serves.bind (serves_resolveStreamChain model preferredProvider) fun chain hchain ↦ ?_
        refine Router.serves_tryEach (fun m hm ↦ serves_tryNative (hS m ⟨hopen, ?_⟩))
          (fun _ ↦ Serves.pure trivial) []
        rw [if_neg hruntime]
        exact hchain m hm
    refine Serves.bind hnative fun opened _ ↦ ?_
    cases opened with
    | some m => exact Serves.pure trivial
    | none =>
        have hbuffered : Serves G.router S (fun _ ↦ True)
            (G.router.executeWithFallback model preferredProvider effectiveAllowed) := by
          refine Router.serves_executeWithFallback fun m hm ↦ hS m ⟨hopen, ?_⟩
          split_ifs
          · exact hm.streams
          · exact hm.2.1
        refine Serves.bind hbuffered.attempt fun r _ ↦ ?_
        cases r <;> exact Serves.pure trivial

theorem reaches_streamTrue
    (h : G.Relays model preferredProvider effectiveAllowed smartDecision m) :
    Reaches G.router model m.provider
      (G.streamTrue model preferredProvider effectiveAllowed smartDecision) := by
  obtain ⟨hopen, hm⟩ := h
  have hallowed : (!smartDecision && effectiveAllowed.any (model ∉ ·)) = false := by
    rcases hopen with rfl | hall
    · rfl
    · rw [Router.any_notMem_eq_false.mpr hall, Bool.and_false]
  unfold streamTrue openNative
  rw [hallowed]
  simp only [Bool.false_eq_true, if_false]
  refine Reaches.bind ?_ _
  split_ifs at hm ⊢
  · exact (Router.reaches_openStream hm).bind _
  · obtain ⟨chain, hmem, hchain⟩ := yields_resolveStreamChain hm preferredProvider
    exact .of_yields hchain
      (Router.reaches_tryEach hmem (fun _ ↦ (Reaches.invoke rfl).bind _) [])

/-! ## The paths -/

theorem serves_reserved {x : Route Reply} (h : Serves G.router S (fun _ ↦ True) x) :
    Serves G.router S (fun _ ↦ True) (reserved x) := by
  refine Serves.bind (serves_check _) fun r _ ↦ ?_
  cases r with
  | some code => exact Serves.pure trivial
  | none => exact h

theorem reaches_reserved {x : Route Reply} {provider : String}
    (h : Reaches G.router model provider x) : Reaches G.router model provider (reserved x) :=
  .of_yields (yields_check rfl) h

variable (G) in
/-- The mappings an ensemble request may be served from. -/
def EnsemblePath (config : EnsembleConfig) (presetName : Except String (Option String))
    (effectiveAllowed : Option (List String)) (estimate : ℚ) (model : String)
    (m : ProviderModelMapping) : Prop :=
  ∃ name preset, presetName = .ok name ∧
    ((name <|> config.defaultPresetName).bind fun n ↦ config.presets.find? (·.name == n)) =
      some preset ∧
    (∀ n ∈ preset.panel ++ [preset.judge], G.router.isModelAvailable n = true) ∧
    G.router.EnsembleServes G.hasFactory preset effectiveAllowed estimate model m

variable (G) in
/-- The mappings a smart request may be served from. -/
def SmartPath (T : SmartRoutingStrategy) (request : ChatCompletionRequest)
    (effectiveAllowed : Option (List String)) (model : String) (m : ProviderModelMapping) : Prop :=
  if request.stream && G.canStreamTrue then
    T.Selects G.router.modelRegistry request.prompt
      (some (G.router.routingAllowed effectiveAllowed)) model ∧
    G.Relays model none (some (G.router.routingAllowed effectiveAllowed)) true m
  else G.router.SmartServes T G.hasFactory request.prompt effectiveAllowed model m

variable (G) in
/-- The mappings a direct request may be served from. -/
def DirectPath (request : ChatCompletionRequest) (context : Context)
    (effectiveAllowed : Option (List String)) (model : String) (m : ProviderModelMapping) : Prop :=
  model = request.model ∧
    if request.stream && G.canStreamTrue then
      G.Relays request.model context.provider effectiveAllowed false m
    else G.router.Executes request.model context.provider effectiveAllowed m

variable (G) in
/-- The mappings a chat completion may be served from once it is admitted. -/
def MayServe (project : Option Project) (user : UserConfig) (request : ChatCompletionRequest)
    (context : Context) (estimate : ℚ) (model : String) (m : ProviderModelMapping) : Prop :=
  match G.path request context with
  | .ensemble config presetName =>
      G.EnsemblePath config presetName (effectiveAllowedModels project user) estimate model m
  | .smart T => G.SmartPath T request (effectiveAllowedModels project user) model m
  | .direct => G.DirectPath request context (effectiveAllowedModels project user) model m

variable {config : EnsembleConfig} {presetName : Except String (Option String)}
  {T : SmartRoutingStrategy}

theorem serves_handleEnsemble
    (hS : ∀ model m, G.EnsemblePath config presetName effectiveAllowed estimate model m →
      S model m) :
    Serves G.router S (fun _ ↦ True)
      (G.handleEnsemble config presetName effectiveAllowed estimate) := by
  unfold handleEnsemble
  cases presetName with
  | error _ => exact Serves.pure trivial
  | ok name =>
      dsimp only
      split
      · exact Serves.pure trivial
      · rename_i preset hpreset
        split_ifs with hdenied hunavailable hceiling
        · exact Serves.pure trivial
        · exact Serves.pure trivial
        · exact Serves.pure trivial
        · refine serves_reserved (Serves.bind (Router.serves_ensembleRoute fun model m hm ↦
            hS model m ⟨name, preset, rfl, hpreset, ?_, hm⟩) fun response _ ↦ Serves.pure trivial)
          intro n hn
          by_contra hnot
          exact hunavailable (List.any_eq_true.mpr ⟨n, hn, by simpa using hnot⟩)

theorem reaches_handleEnsemble
    (h : G.EnsemblePath config presetName effectiveAllowed estimate model m) :
    Reaches G.router model m.provider
      (G.handleEnsemble config presetName effectiveAllowed estimate) := by
  obtain ⟨name, preset, rfl, hpreset, havailable, hserves⟩ := h
  have hdenied : (effectiveAllowed.any fun allowed ↦
      (preset.panel ++ [preset.judge]).any (· ∉ allowed)) = false := by
    have hall := hserves.1
    cases effectiveAllowed with
    | none => rfl
    | some allowed =>
        refine List.any_eq_false.mpr fun n hn ↦ ?_
        simpa using hall n hn
  have hunavailable : ((preset.panel ++ [preset.judge]).any fun n ↦
      !G.router.isModelAvailable n) = false := by
    rw [List.any_eq_false]
    intro n hn
    simp [havailable n hn]
  unfold handleEnsemble
  simp only [hpreset, hdenied, hunavailable, hserves.2.1, Bool.false_eq_true, if_false]
  exact reaches_reserved ((Router.reaches_ensembleRoute hserves).bind _)

theorem serves_handleSmart (hsmart : G.router.smartStrategy = some T)
    (hS : ∀ model m, G.SmartPath T request effectiveAllowed model m → S model m) :
    Serves G.router S (fun _ ↦ True) (G.handleSmart T request context effectiveAllowed) := by
  unfold handleSmart
  unfold SmartPath at hS
  split_ifs at hS ⊢
  · refine Serves.bind SmartRoutingStrategy.serves_selectModel fun decision hdecision ↦ ?_
    exact serves_reserved (serves_streamTrue fun m hm ↦ hS _ m ⟨hdecision, hm⟩)
  · exact serves_reserved (Serves.bind (Router.serves_smartRoute hsmart hS)
      fun r _ ↦ Serves.pure trivial)

theorem reaches_handleSmart (hsmart : G.router.smartStrategy = some T)
    (h : G.SmartPath T request effectiveAllowed model m) :
    Reaches G.router model m.provider (G.handleSmart T request context effectiveAllowed) := by
  unfold handleSmart
  unfold SmartPath at h
  split_ifs at h ⊢
  · obtain ⟨decision, rfl, hyields⟩ := SmartRoutingStrategy.yields_selectModel G.router
      context.projectId context.userId h.1
    exact .of_yields hyields (reaches_reserved (reaches_streamTrue h.2))
  · exact reaches_reserved ((Router.reaches_smartRoute hsmart h).bind _)

theorem serves_handleDirect
    (hS : ∀ model m, G.DirectPath request context effectiveAllowed model m → S model m) :
    Serves G.router S (fun _ ↦ True) (G.handleDirect request context effectiveAllowed) := by
  unfold handleDirect
  unfold DirectPath at hS
  split_ifs at hS ⊢
  · exact serves_reserved (serves_streamTrue fun m hm ↦ hS _ m ⟨rfl, hm⟩)
  · exact serves_reserved (Serves.bind
      (Router.serves_executeWithFallback fun m hm ↦ hS _ m ⟨rfl, hm⟩)
      fun response _ ↦ Serves.pure trivial)

theorem reaches_handleDirect (h : G.DirectPath request context effectiveAllowed model m) :
    Reaches G.router model m.provider (G.handleDirect request context effectiveAllowed) := by
  unfold handleDirect
  obtain ⟨rfl, h⟩ := h
  split_ifs at h ⊢
  · exact reaches_reserved (reaches_streamTrue h)
  · exact reaches_reserved ((Router.reaches_executeWithFallback h).bind _)

theorem path_smart (h : G.path request context = .smart T) :
    G.router.smartStrategy = some T ∧ G.isSmartRouting request context = true := by
  unfold path at h
  split at h
  · cases h
  · split at h
    · rename_i T' hT
      obtain rfl : T' = T := by simpa using h
      exact (Option.filter_eq_some_iff.mp hT)
    · cases h

theorem serves_route
    (hS : ∀ model m, G.MayServe project user request context estimate model m → S model m) :
    Serves G.router S (fun _ ↦ True) (G.route project user request context estimate) := by
  unfold route
  unfold MayServe at hS
  cases hpath : G.path request context with
  | ensemble config presetName =>
      simp only [hpath] at hS
      exact serves_handleEnsemble hS
  | smart T =>
      simp only [hpath] at hS
      exact serves_handleSmart (path_smart hpath).1 hS
  | direct =>
      simp only [hpath] at hS
      exact serves_handleDirect hS

theorem reaches_route (h : G.MayServe project user request context estimate model m) :
    Reaches G.router model m.provider (G.route project user request context estimate) := by
  unfold route
  unfold MayServe at h
  cases hpath : G.path request context with
  | ensemble config presetName =>
      simp only [hpath] at h
      exact reaches_handleEnsemble h
  | smart T =>
      simp only [hpath] at h
      exact reaches_handleSmart (path_smart hpath).1 h
  | direct =>
      simp only [hpath] at h
      exact reaches_handleDirect h

/-- What a chat completion calls, and what it can be brought to call. -/
theorem serves_handleChatCompletion
    (hS : G.admits policy project user request context = true → ∀ model m,
      G.MayServe project user request context estimate model m → S model m) :
    Serves G.router S (fun _ ↦ True)
      (G.handleChatCompletion policy project user request context estimate) := by
  refine Serves.bind (serves_firstFailure _) fun r hr ↦ ?_
  cases r with
  | some code => exact Serves.pure trivial
  | none => exact serves_route (hS (hr rfl))

theorem reaches_handleChatCompletion
    (hadmits : G.admits policy project user request context = true)
    (h : G.MayServe project user request context estimate model m) :
    Reaches G.router model m.provider
      (G.handleChatCompletion policy project user request context estimate) :=
  .of_yields (yields_firstFailure hadmits) (reaches_route h)

/-- Every provider call a chat completion may make satisfies a property of its
model and its provider exactly when all that it may be served from does. -/
theorem forall_calls_iff (P : String → String → Prop) :
    (∀ o, (G.handleChatCompletion policy project user request context estimate).Calls
        (Possible G.router) o → ∀ model m, o.invokes = some (model, m) → P model m.provider) ↔
      (G.admits policy project user request context = true → ∀ model m,
        G.MayServe project user request context estimate model m → P model m.provider) := by
  constructor
  · intro h hadmits model m hserves
    obtain ⟨o, m', hcalls, hinvokes, hprovider⟩ := reaches_handleChatCompletion hadmits hserves
    exact hprovider ▸ h o hcalls model m' hinvokes
  · intro h
    have hserves : Serves G.router (fun model m ↦ P model m.provider) (fun _ ↦ True)
        (G.handleChatCompletion policy project user request context estimate) :=
      serves_handleChatCompletion h
    exact Raising.every_iff_forall_calls.mp hserves

/-! ## The policy -/

/-- The policy names the model and the provider, where it names any. -/
def PolicyAllows (P : ResolvedPolicy) (model provider : String) : Prop :=
  P.allowedModels.all (model ∈ ·) = true ∧ P.allowedProviders.all (provider ∈ ·) = true

/-- The policy allows only the second provider of the model; the round robin
starts with the first. -/
def onlyBedrock : ResolvedPolicy := { allowedProviders := some ["bedrock"] }

def plainAgent : Agent := ⟨twoProviders, true, true⟩

def chat : ChatCompletionRequest := { model := "chat", prompt := "hello" }

def nobody : Context := { projectId := none, userId := none }

variable (G) in
/-- A smart request whose stream is opened on the default model without any look
at the access lists. -/
def StreamsDefault (policy : Option ResolvedPolicy) (project : Option Project)
    (user : UserConfig) (request : ChatCompletionRequest) (context : Context)
    (T : SmartRoutingStrategy) : Prop :=
  G.admits policy project user request context = true ∧ G.path request context = .smart T ∧
    request.stream = true ∧ G.hasRuntime = false ∧ G.hasFactory = true ∧
    T.fallsBack request.prompt = true ∧
    (G.router.availableMappings T.defaultModel).getD [] ≠ []

theorem mem_of_routingAllowed {R : Router} {allowed : List String}
    (h : (some (R.routingAllowed (some allowed))).all (model ∈ ·) = true) : model ∈ allowed := by
  have hmem : model ∈ R.routingAllowed (some allowed) := by simpa using h
  simpa using (List.mem_filter.mp hmem).2

theorem ensemblePath_mem {allowed : List String}
    (h : G.EnsemblePath config presetName (some allowed) estimate model m) : model ∈ allowed := by
  obtain ⟨name, preset, -, -, -, hall, -, -, -, hmodel⟩ := h
  have hin : model ∈ preset.panel ++ [preset.judge] := by
    rcases hmodel with hpanel | ⟨rfl, -⟩
    · exact List.mem_append_left _ hpanel
    · exact List.mem_append_right _ List.mem_cons_self
  simpa using hall model hin

theorem smartPath_mem {allowed : List String}
    (h : G.SmartPath T request (some allowed) model m)
    (hdefault : request.stream = true → G.hasRuntime = false → G.hasFactory = true →
      T.fallsBack request.prompt = true →
      (G.router.availableMappings T.defaultModel).getD [] ≠ [] → T.defaultModel ∈ allowed) :
    model ∈ allowed := by
  unfold SmartPath at h
  split_ifs at h with hstream
  · obtain ⟨hselects, -, hm⟩ := h
    rw [Bool.and_eq_true] at hstream
    split_ifs at hm with hruntime
    · exact mem_of_routingAllowed hm.1
    · unfold SmartRoutingStrategy.Selects at hselects
      split_ifs at hselects with hfalls
      · subst hselects
        have hfactory : G.hasFactory = true := by
          have hcan := hstream.2
          unfold canStreamTrue at hcan
          rw [Bool.or_eq_true] at hcan
          exact hcan.resolve_left hruntime
        exact hdefault hstream.1 (by simpa using hruntime) hfactory hfalls (List.ne_nil_of_mem hm)
      · exact mem_of_routingAllowed hselects.2.1
  · exact mem_of_routingAllowed h.2.1.1

theorem directPath_mem {allowed : List String}
    (h : G.DirectPath request context (some allowed) model m) : model ∈ allowed := by
  obtain ⟨rfl, h⟩ := h
  split_ifs at h
  · simpa using h.1
  · simpa using h.1

/-- With an access list, every model that a chat completion calls is on it,
exactly if so is a default model whose stream is opened unchecked. -/
theorem access_confines_iff (G : Agent) (policy : Option ResolvedPolicy)
    (project : Option Project) (user : UserConfig) (request : ChatCompletionRequest)
    (context : Context) (estimate : ℚ) (allowed : List String)
    (hallowed : effectiveAllowedModels project user = some allowed) :
    (∀ o, (G.handleChatCompletion policy project user request context estimate).Calls
        (Possible G.router) o → ∀ model m, o.invokes = some (model, m) → model ∈ allowed) ↔
      ∀ T, G.StreamsDefault policy project user request context T → T.defaultModel ∈ allowed := by
  refine (forall_calls_iff fun model _ ↦ model ∈ allowed).trans ?_
  constructor
  · rintro h T ⟨hadmits, hpath, hstream, hruntime, hfactory, hfalls, hne⟩
    obtain ⟨m, hm⟩ := List.exists_mem_of_ne_nil _ hne
    refine h hadmits T.defaultModel m ?_
    unfold MayServe
    rw [hpath]
    have hcan : (request.stream && G.canStreamTrue) = true := by
      simp [hstream, canStreamTrue, hfactory]
    unfold SmartPath
    dsimp only
    rw [if_pos hcan]
    refine ⟨?_, .inl rfl, ?_⟩
    · unfold SmartRoutingStrategy.Selects
      rw [if_pos hfalls]
    · rw [if_neg (by simp [hruntime])]
      exact hm
  · intro h hadmits model m hserves
    unfold MayServe at hserves
    rw [hallowed] at hserves
    cases hpath : G.path request context with
    | ensemble config presetName =>
        rw [hpath] at hserves
        exact ensemblePath_mem hserves
    | smart T =>
        rw [hpath] at hserves
        exact smartPath_mem hserves fun hstream hruntime hfactory hfalls hne ↦
          h T ⟨hadmits, hpath, hstream, hruntime, hfactory, hfalls, hne⟩
    | direct =>
        rw [hpath] at hserves
        exact directPath_mem hserves

/-- A classifier that is never sure: every prompt falls back to `chat`. -/
def unsure : SmartRoutingStrategy where
  classify _ := ⟨"general", 0⟩
  getRankings _ := []
  pricingConfig _ _ := none
  defaultModel := "chat"

def smartAgent (hasRuntime : Bool) : Agent :=
  ⟨{ twoProviders with smartStrategy := some unsure }, hasRuntime, true⟩

def auto : ChatCompletionRequest := { model := "", prompt := "hello", stream := true }

def otherModelsOnly : Project := ⟨["other"]⟩

theorem access_does_not_confine :
    ¬∀ (G : Agent) (policy : Option ResolvedPolicy) (project : Option Project)
      (user : UserConfig) (request : ChatCompletionRequest) (context : Context) (estimate : ℚ)
      (allowed : List String), effectiveAllowedModels project user = some allowed →
      ∀ o, (G.handleChatCompletion policy project user request context estimate).Calls
        (Possible G.router) o → ∀ model m, o.invokes = some (model, m) → model ∈ allowed := by
  intro h
  have hcalls := (forall_calls_iff fun model _ ↦ model ∈ ["other"]).mp
    (h (smartAgent false) none (some otherModelsOnly) {} auto nobody 0 ["other"] rfl) (by decide)
  have hserves : (smartAgent false).MayServe (some otherModelsOnly) {} auto nobody 0 "chat"
      gpt4o := by
    have hpath : (smartAgent false).path auto nobody = .smart unsure := rfl
    unfold MayServe
    rw [hpath]
    refine ⟨?_, .inl rfl, (by decide : gpt4o ∈ [gpt4o, claude])⟩
    unfold SmartRoutingStrategy.Selects
    rw [if_pos (by simp [SmartRoutingStrategy.fallsBack, unsure])]
    rfl
  exact absurd (hcalls "chat" gpt4o hserves) (by decide)

theorem access_confines_with_runtime :
    effectiveAllowedModels (some otherModelsOnly) {} = some ["other"] ∧
      ∀ o, ((smartAgent true).handleChatCompletion none (some otherModelsOnly) {} auto nobody
          0).Calls (Possible (smartAgent true).router) o →
        ∀ model m, o.invokes = some (model, m) → model ∈ ["other"] := by
  refine ⟨rfl, (access_confines_iff (smartAgent true) none (some otherModelsOnly) {} auto nobody 0
    ["other"] rfl).mpr ?_⟩
  rintro T ⟨-, -, -, hruntime, -⟩
  cases hruntime

end Agent

end AxonGateway.Routing
