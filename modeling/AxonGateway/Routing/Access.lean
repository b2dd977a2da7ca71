import AxonGateway.Routing.Answers
import AxonGateway.Routing.Smart

/-!
# Which mappings a request may be served from

`Serves` bounds the provider calls of a program from above; `Reaches` says that
the rest of the gateway can bring it to call a provider for a model.  Both are
stated for the same pure predicates `Executes` and `Streams`.
-/

namespace AxonGateway.Routing

open Interleaving

/-- Every provider call of `x` satisfies `S`, and its value satisfies `Q`. -/
def Serves {α : Type} (R : Router) (S : String → ProviderModelMapping → Prop) (Q : α → Prop)
    (x : Route α) : Prop :=
  Raising.Every (Possible R) (fun o ↦ ∀ model m, o.invokes = some (model, m) → S model m) Q x

/-- `x` can be brought to call the provider for the model. -/
def Reaches {α : Type} (R : Router) (model provider : String) (x : Route α) : Prop :=
  ∃ o m, Raising.Calls (Possible R) o x ∧ o.invokes = some (model, m) ∧ m.provider = provider

section Rules

variable {R : Router} {S : String → ProviderModelMapping → Prop} {α β : Type} {Q : α → Prop}
  {Q' : β → Prop}

theorem Serves.pure {a : α} (h : Q a) : Serves R S Q (pure a) := Raising.Every.pure h

theorem Serves.throw (e : RouteError) : Serves R S Q (throw e : Route α) := Raising.Every.throw e

theorem Serves.bind {x : Route α} {f : α → Route β} (h : Serves R S Q x)
    (hf : ∀ a, Q a → Serves R S Q' (f a)) : Serves R S Q' (x >>= f) :=
  Raising.Every.bind h hf

theorem Serves.attempt {x : Route α} (h : Serves R S Q x) :
    Serves R S (fun r ↦ ∀ a, r = .ok a → Q a) (Raising.attempt x) := by
  refine Raising.Every.attempt h (fun a ha b hb ↦ ?_) fun e a he ↦ by cases he
  cases hb
  exact ha

theorem Serves.imp {Q₁ Q₂ : α → Prop} (hQ : ∀ a, Q₁ a → Q₂ a) {x : Route α}
    (h : Serves R S Q₁ x) : Serves R S Q₂ x :=
  Raising.Every.imp (fun _ h ↦ h) hQ h

theorem Serves.and {S' : String → ProviderModelMapping → Prop} {Q₁ Q₂ : α → Prop} {x : Route α}
    (h : Serves R S Q₁ x) (h' : Serves R S' Q₂ x) : Serves R S (fun a ↦ Q₁ a ∧ Q₂ a) x :=
  Raising.Every.and h h'

/-- An operation that calls no provider. -/
theorem Serves.answer {o : Op} {Q : Ret o → Prop} (ho : o.invokes = none)
    (hQ : ∀ r, Possible R o r → Q r) : Serves R S Q (Raising.ask o : Route (Ret o)) := by
  refine Raising.Every.ask (fun model m hm ↦ ?_) hQ
  rw [ho] at hm
  cases hm

theorem Serves.ask {o : Op} (ho : o.invokes = none) :
    Serves R S (fun _ ↦ True) (Raising.ask o : Route (Ret o)) :=
  Serves.answer ho fun _ _ ↦ trivial

theorem Serves.invoke {o : Op} {model : String} {m : ProviderModelMapping}
    (ho : o.invokes = some (model, m)) (hS : S model m) :
    Serves R S (fun _ ↦ True) (Raising.ask o : Route (Ret o)) := by
  refine Raising.Every.ask (fun model' m' hm' ↦ ?_) fun _ _ ↦ trivial
  rw [ho] at hm'
  cases hm'
  exact hS

theorem Serves.of_reaches {x : Route α} (h : Serves R S Q x) {model provider : String}
    (hreach : Reaches R model provider x) : ∃ m, S model m ∧ m.provider = provider := by
  obtain ⟨o, m, hcalls, ho, hm⟩ := hreach
  have hevery : Raising.Every (Possible R) (fun o ↦ ∀ model m, o.invokes = some (model, m) →
      S model m) (fun _ ↦ True) x := Raising.Every.imp (fun _ h ↦ h) (fun _ _ ↦ trivial) h
  exact ⟨m, Raising.every_iff_forall_calls.mp hevery o hcalls model m ho, hm⟩

variable {model provider : String}

theorem Reaches.bind {x : Route α} (h : Reaches R model provider x) (f : α → Route β) :
    Reaches R model provider (x >>= f) := by
  obtain ⟨o, m, hcalls, ho⟩ := h
  exact ⟨o, m, hcalls.bind f, ho⟩

theorem Reaches.of_yields {x : Route α} {f : α → Route β} {a : α}
    (hx : Raising.Yields (Possible R) a x) (hf : Reaches R model provider (f a)) :
    Reaches R model provider (x >>= f) := by
  obtain ⟨o, m, hcalls, ho⟩ := hf
  exact ⟨o, m, hx.calls_bind hcalls, ho⟩

theorem Reaches.attempt {x : Route α} (h : Reaches R model provider x) :
    Reaches R model provider (Raising.attempt x) := by
  obtain ⟨o, m, hcalls, ho⟩ := h
  exact ⟨o, m, hcalls.attempt, ho⟩

theorem Reaches.invoke {o : Op} {m : ProviderModelMapping} (ho : o.invokes = some (model, m)) :
    Reaches R model m.provider (Raising.ask o : Route (Ret o)) :=
  ⟨o, m, Raising.Calls.ask, ho, rfl⟩

theorem yields_isHealthy (p : String) (b : Bool) :
    Raising.Yields (Possible R) b (isHealthy p) :=
  Raising.Yields.ask (o := Op.isHealthy p) trivial

end Rules

namespace Router

variable {R : Router} {S : String → ProviderModelMapping → Prop} {model : String}
  {m : ProviderModelMapping} {mappings : List ProviderModelMapping}

/-! ## Attempts -/

/-- A refusal that is not retried. -/
def down : ProviderError := ⟨0, "", none, some false, none⟩

theorem serves_markFailed (m : ProviderModelMapping) (e : ProviderError) :
    Serves R S (fun _ ↦ True) (R.markFailed m e) := by
  unfold markFailed
  split_ifs
  · exact Serves.ask rfl
  · exact Serves.pure trivial

theorem serves_tryFrom (hS : S model m) (attempts : List Attempt) (left : ℕ) :
    ∀ n, Serves R S (fun _ ↦ True) (R.tryFrom model m attempts n left) := by
  have hafter : ∀ again, (∀ e, Serves R S (fun _ ↦ True) (again e)) → ∀ r,
      Serves R S (fun _ ↦ True) (R.afterCall model m attempts again r) := by
    intro again hagain r
    cases r with
    | response content => exact Serves.pure trivial
    | raised message => exact Serves.throw _
    | providerError e =>
        simp only [afterCall]
        split_ifs
        · exact hagain e
        · exact Serves.pure trivial
  induction left with
  | zero =>
      refine fun n ↦ Serves.bind (Serves.invoke rfl hS) fun r _ ↦ hafter _ (fun e ↦ ?_) r
      exact Serves.bind (serves_markFailed m e) fun _ _ ↦ Serves.pure trivial
  | succ left ih =>
      exact fun n ↦ Serves.bind (Serves.invoke rfl hS) fun r _ ↦ hafter _ (fun _ ↦ ih (n + 1)) r

theorem reaches_tryProvider (m : ProviderModelMapping) (attempts : List Attempt) :
    Reaches R model m.provider (R.tryProvider model m attempts) := by
  unfold tryProvider
  cases R.maxRetries with
  | zero | succ => exact (Reaches.invoke rfl).bind _

theorem yields_tryProvider_none (m : ProviderModelMapping) (attempts : List Attempt) :
    (R.tryProvider model m attempts).Yields (Possible R) (none, attempts ++ [failed m down]) := by
  unfold tryProvider
  cases R.maxRetries with
  | zero | succ =>
      exact (Raising.Yields.ask (r := CallResult.providerError down) trivial).bind
        Raising.Yields.pure

variable (R model) in
theorem yields_tryProvider_some (m : ProviderModelMapping) (attempts : List Attempt) :
    ∃ response, (R.tryProvider model m attempts).Yields (Possible R) (some response, attempts) := by
  unfold tryProvider
  cases R.maxRetries with
  | zero | succ =>
      exact ⟨_, (Raising.Yields.ask (r := CallResult.response "") trivial).bind
        Raising.Yields.pure⟩

theorem serves_tryStream (hS : S model m) (attempts : List Attempt) :
    Serves R S (fun _ ↦ True) (R.tryStream model m attempts) := by
  refine Serves.bind (Serves.invoke rfl hS) fun r _ ↦ ?_
  cases r with
  | opened => exact Serves.pure trivial
  | raised => exact Serves.throw _
  | providerError e => exact Serves.bind (serves_markFailed m e) fun _ _ ↦ Serves.pure trivial

theorem reaches_tryStream (m : ProviderModelMapping) (attempts : List Attempt) :
    Reaches R model m.provider (R.tryStream model m attempts) :=
  (Reaches.invoke rfl).bind _

/-! ## Loops -/

section Loops

variable {β : Type}
  {tryOne : ProviderModelMapping → List Attempt → Route (Option β × List Attempt)}
  {exhausted : List Attempt → Route β} {ms : List ProviderModelMapping}

theorem serves_tryEach
    (htry : ∀ m ∈ ms, ∀ attempts, Serves R S (fun _ ↦ True) (tryOne m attempts))
    (hend : ∀ attempts, Serves R S (fun _ ↦ True) (exhausted attempts))
    (attempts : List Attempt) :
    Serves R S (fun _ ↦ True) (tryEach tryOne exhausted ms attempts) := by
  induction ms generalizing attempts with
  | nil => exact hend attempts
  | cons m ms ih =>
      have htail := ih fun m' hm' ↦ htry m' (List.mem_cons_of_mem m hm')
      refine Serves.bind (Serves.ask rfl) fun healthy _ ↦ ?_
      cases healthy with
      | false => exact htail _
      | true =>
          refine Serves.bind (htry m List.mem_cons_self attempts) fun r _ ↦ ?_
          rcases r with ⟨result | result, attempts'⟩
          · exact htail attempts'
          · exact Serves.pure trivial

/-- Every mapping of the chain can be reached, the ones before it being
unhealthy. -/
theorem reaches_tryEach {provider : String} (hm : m ∈ ms)
    (htry : ∀ attempts, Reaches R model provider (tryOne m attempts)) (attempts : List Attempt) :
    Reaches R model provider (tryEach tryOne exhausted ms attempts) := by
  induction ms generalizing attempts with
  | nil => cases hm
  | cons m' ms ih =>
      rcases List.mem_cons.mp hm with rfl | hm
      · exact .of_yields (yields_isHealthy _ true) ((htry attempts).bind _)
      · exact .of_yields (yields_isHealthy _ false) (ih hm _)

/-- The loop can come to its end with every mapping unhealthy. -/
theorem raises_tryEach {e : List Attempt → RouteError}
    (hend : ∀ attempts, (exhausted attempts).Raises (Possible R) (e attempts))
    (attempts : List Attempt) :
    ∃ attempts', (tryEach tryOne exhausted ms attempts).Raises (Possible R) (e attempts') := by
  induction ms generalizing attempts with
  | nil => exact ⟨attempts, hend attempts⟩
  | cons m ms ih =>
      obtain ⟨attempts', h⟩ := ih (attempts ++ [skipped m])
      exact ⟨attempts', (yields_isHealthy _ false).raises_bind h⟩

theorem yields_tryEach {P : β → Prop} (hm : m ∈ ms)
    (htry : ∀ attempts, ∃ b, P b ∧ (tryOne m attempts).Yields (Possible R) (some b, attempts))
    (attempts : List Attempt) :
    ∃ b, P b ∧ (tryEach tryOne exhausted ms attempts).Yields (Possible R) b := by
  induction ms generalizing attempts with
  | nil => cases hm
  | cons m' ms ih =>
      rcases List.mem_cons.mp hm with rfl | hm
      · obtain ⟨b, hb, hyields⟩ := htry attempts
        exact ⟨b, hb, (yields_isHealthy _ true).bind (hyields.bind Raising.Yields.pure)⟩
      · obtain ⟨b, hb, hyields⟩ := ih hm (attempts ++ [skipped m'])
        exact ⟨b, hb, (yields_isHealthy _ false).bind hyields⟩

end Loops

/-! ## Buffered and streamed execution -/

variable (R) in
/-- The mappings from which `executeWithFallback` may serve the request. -/
def Executes (model : String) (preferredProvider : Option String)
    (allowedModels : Option (List String)) (m : ProviderModelMapping) : Prop :=
  allowedModels.all (model ∈ ·) = true ∧ m ∈ (R.availableMappings model).getD [] ∧
    (truthy preferredProvider = none → ∃ strategy provider, R.getStrategy model = .ok strategy ∧
      PicksFirst strategy ((R.availableMappings model).getD []) provider)

variable (R) in
/-- The mappings on which `openStream` may open a stream. -/
def Streams (model : String) (preferredProvider : Option String)
    (allowedModels : Option (List String)) (m : ProviderModelMapping) : Prop :=
  allowedModels.all (model ∈ ·) = true ∧ m ∈ (R.availableMappings model).getD [] ∧
    (truthy preferredProvider = none → ∃ strategy, R.getStrategy model = .ok strategy)

theorem Executes.streams {preferredProvider : Option String}
    {allowedModels : Option (List String)}
    (h : R.Executes model preferredProvider allowedModels m) :
    R.Streams model preferredProvider allowedModels m := by
  refine ⟨h.1, h.2.1, fun hnone ↦ ?_⟩
  obtain ⟨strategy, -, hstrategy, -⟩ := h.2.2 hnone
  exact ⟨strategy, hstrategy⟩

theorem any_notMem_eq_false {allowedModels : Option (List String)} :
    allowedModels.any (model ∉ ·) = false ↔ allowedModels.all (model ∈ ·) = true := by
  cases allowedModels <;> simp

theorem serves_mappingsOrRaise (model : String) :
    Serves R S (fun mappings ↦ R.availableMappings model = some mappings)
      (R.mappingsOrRaise model) := by
  unfold mappingsOrRaise
  cases R.availableMappings model with
  | some mappings => exact Serves.pure rfl
  | none => exact Serves.throw _

theorem yields_mappingsOrRaise (h : R.availableMappings model = some mappings) :
    (R.mappingsOrRaise model).Yields (Possible R) mappings := by
  unfold mappingsOrRaise
  rw [h]
  exact Raising.Yields.pure

theorem serves_initialMapping (model : String) (mappings : List ProviderModelMapping) :
    Serves R S (fun r ↦ (∃ strategy, R.getStrategy model = .ok strategy ∧
        ∀ m, r = .ok m → m ∈ mappings ∧ ∃ provider, PicksFirst strategy mappings provider) ∨
        ∃ e, r = .error e ∧ e ≠ .noHealthyProvider)
      (R.initialMapping model mappings) := by
  unfold initialMapping
  cases hstrategy : R.getStrategy model with
  | error e =>
      refine Serves.pure (.inr ⟨e, rfl, fun he ↦ ?_⟩)
      exact getStrategy_ne (he ▸ hstrategy)
  | ok strategy =>
      have hpick : ∀ r, Possible R (.select strategy mappings) r → ∀ m, r = .ok m →
          m ∈ mappings ∧ ∃ provider, PicksFirst strategy mappings provider := by
        rintro _ ⟨now, s, hselect⟩ m rfl
        exact ⟨(mem_of_select hselect).1, exists_picksFirst ⟨now, s, hselect⟩⟩
      exact Serves.answer (o := .select strategy mappings) rfl fun r hr ↦
        .inl ⟨strategy, rfl, hpick r hr⟩

theorem yields_initialMapping {strategy : RoutingStrategy}
    (hstrategy : R.getStrategy model = .ok strategy)
    {r : Except RouteError ProviderModelMapping}
    (hr : Possible R (.select strategy mappings) r) :
    (R.initialMapping model mappings).Yields (Possible R) r := by
  unfold initialMapping
  rw [hstrategy]
  exact Raising.Yields.ask hr

theorem serves_fallBack (hS : ∀ m ∈ mappings, S model m) (attempts : List Attempt) :
    Serves R S (fun _ ↦ True) (R.fallBack model mappings attempts) :=
  serves_tryEach (fun m hm attempts ↦ serves_tryFrom (hS m hm) attempts _ 0)
    (fun _ ↦ Serves.throw _) attempts

theorem serves_first_fallBack {ms : List ProviderModelMapping} (hS : ∀ m ∈ mappings, S model m)
    (hm : m ∈ mappings) (hms : ms ⊆ mappings) :
    Serves R S (fun _ ↦ True) (do
      match ← R.tryProvider model m [] with
      | (some response, _) => pure response
      | (none, attempts) => R.fallBack model ms attempts) := by
  refine Serves.bind (serves_tryFrom (hS m hm) [] _ 0) fun r _ ↦ ?_
  rcases r with ⟨result | result, attempts⟩
  · exact serves_fallBack (fun m' hm' ↦ hS m' (hms hm')) attempts
  · exact Serves.pure trivial

theorem reaches_first_fallBack {ms : List ProviderModelMapping} {m' : ProviderModelMapping}
    (hm : m.provider = m'.provider ∨ m' ∈ ms) :
    Reaches R model m'.provider (do
      match ← R.tryProvider model m [] with
      | (some response, _) => pure response
      | (none, attempts) => R.fallBack model ms attempts) := by
  rcases hm with hm | hm
  · exact hm ▸ (reaches_tryProvider m []).bind _
  · exact .of_yields (yields_tryProvider_none m [])
      (reaches_tryEach hm (fun attempts ↦ reaches_tryProvider m' attempts) _)

theorem serves_executePreferred (hS : ∀ m ∈ mappings, S model m) (preferred : String) :
    Serves R S (fun _ ↦ True) (R.executePreferred model preferred mappings) := by
  unfold executePreferred
  cases hfind : mappings.find? (·.provider == preferred) with
  | some m =>
      refine serves_first_fallBack hS (List.mem_of_find?_eq_some hfind) fun m' hm' ↦ ?_
      exact (List.mem_filter.mp (mem_sortedByOrder.mp hm')).1
  | none => exact serves_fallBack (fun m hm ↦ hS m (mem_sortedByOrder.mp hm)) []

theorem reaches_executePreferred (hm : m ∈ mappings) (preferred : String) :
    Reaches R model m.provider (R.executePreferred model preferred mappings) := by
  unfold executePreferred
  cases hfind : mappings.find? (·.provider == preferred) with
  | some m₀ =>
      have hprovider : m₀.provider = preferred := by simpa using List.find?_some hfind
      refine reaches_first_fallBack ?_
      by_cases h : m.provider = preferred
      · exact .inl (hprovider.trans h.symm)
      · exact .inr (mem_sortedByOrder.mpr (List.mem_filter.mpr ⟨hm, by simpa using h⟩))
  | none =>
      exact reaches_tryEach (mem_sortedByOrder.mpr hm)
        (fun attempts ↦ reaches_tryProvider m attempts) []

theorem serves_executeSelected
    (hS : ∀ strategy provider, R.getStrategy model = .ok strategy →
      PicksFirst strategy mappings provider → ∀ m ∈ mappings, S model m) :
    Serves R S (fun _ ↦ True) (R.executeSelected model mappings) := by
  refine Serves.bind (serves_initialMapping model mappings) fun r hr ↦ ?_
  cases r with
  | error e => cases e <;> exact Serves.throw _
  | ok m =>
      obtain ⟨strategy, hstrategy, hpick⟩ | ⟨e, he, -⟩ := hr
      · obtain ⟨hm, provider, hfirst⟩ := hpick m rfl
        refine serves_first_fallBack (hS strategy provider hstrategy hfirst) hm fun m' hm' ↦ ?_
        exact (List.mem_filter.mp (mem_sortedByOrder.mp hm')).1
      · cases he

theorem reaches_executeSelected {strategy : RoutingStrategy} {provider : String}
    (hstrategy : R.getStrategy model = .ok strategy)
    (hpick : PicksFirst strategy mappings provider) (hm : m ∈ mappings) :
    Reaches R model m.provider (R.executeSelected model mappings) := by
  obtain ⟨m₀, -, hprovider, hpossible⟩ := possible_pick (R := R) hpick
  refine .of_yields (yields_initialMapping hstrategy hpossible) (reaches_first_fallBack ?_)
  by_cases h : m.provider = m₀.provider
  · exact .inl h.symm
  · exact .inr (mem_sortedByOrder.mpr (List.mem_filter.mpr ⟨hm, by simpa using h⟩))

section Execute

variable {preferredProvider : Option String} {allowedModels : Option (List String)}

theorem executeWithFallback_eq (hmappings : R.availableMappings model = some mappings)
    (hallowed : allowedModels.all (model ∈ ·) = true) (hne : mappings ≠ []) :
    R.executeWithFallback model preferredProvider allowedModels =
      match truthy preferredProvider with
      | some preferred => R.executePreferred model preferred mappings
      | none => R.executeSelected model mappings := by
  unfold executeWithFallback mappingsOrRaise
  rw [hmappings, any_notMem_eq_false.mpr hallowed]
  exact if_neg hne

theorem serves_executeWithFallback
    (hS : ∀ m, R.Executes model preferredProvider allowedModels m → S model m) :
    Serves R S (fun _ ↦ True)
      (R.executeWithFallback model preferredProvider allowedModels) := by
  refine Serves.bind (serves_mappingsOrRaise model) fun mappings hmappings ↦ ?_
  split_ifs with hallowed hempty
  · exact Serves.throw _
  · exact Serves.throw _
  · have hall : allowedModels.all (model ∈ ·) = true :=
      any_notMem_eq_false.mp (by simpa using hallowed)
    cases htruthy : truthy preferredProvider with
    | some preferred =>
        refine serves_executePreferred (fun m hm ↦ hS m ⟨hall, ?_, fun hnone ↦ ?_⟩) preferred
        · exact hmappings ▸ hm
        · cases htruthy.symm.trans hnone
    | none =>
        refine serves_executeSelected fun strategy provider hstrategy hpick m hm ↦
          hS m ⟨hall, ?_, fun _ ↦ ⟨strategy, provider, hstrategy, ?_⟩⟩
        · exact hmappings ▸ hm
        · exact hmappings ▸ hpick

theorem Executes.exists_mappings (h : R.Executes model preferredProvider allowedModels m) :
    ∃ mappings, R.availableMappings model = some mappings ∧ m ∈ mappings := by
  have hm := h.2.1
  cases hmappings : R.availableMappings model with
  | none => simp [hmappings] at hm
  | some mappings => exact ⟨mappings, rfl, by simpa [hmappings] using hm⟩

theorem reaches_executeWithFallback (h : R.Executes model preferredProvider allowedModels m) :
    Reaches R model m.provider
      (R.executeWithFallback model preferredProvider allowedModels) := by
  obtain ⟨mappings, hmappings, hm⟩ := h.exists_mappings
  rw [executeWithFallback_eq hmappings h.1 (List.ne_nil_of_mem hm)]
  cases htruthy : truthy preferredProvider with
  | some preferred => exact reaches_executePreferred hm preferred
  | none =>
      obtain ⟨strategy, provider, hstrategy, hpick⟩ := h.2.2 htruthy
      rw [hmappings] at hpick
      exact reaches_executeSelected hstrategy hpick hm

theorem yields_executeWithFallback (h : R.Executes model none allowedModels m) :
    ∃ response, (R.executeWithFallback model none allowedModels).Yields (Possible R) response := by
  obtain ⟨mappings, hmappings, hm⟩ := h.exists_mappings
  obtain ⟨strategy, provider, hstrategy, hpick⟩ := h.2.2 rfl
  rw [hmappings] at hpick
  obtain ⟨m₀, -, -, hpossible⟩ := possible_pick (R := R) hpick
  obtain ⟨response, hresponse⟩ := yields_tryProvider_some R model m₀ []
  rw [executeWithFallback_eq hmappings h.1 (List.ne_nil_of_mem hm)]
  exact ⟨response, (yields_initialMapping hstrategy hpossible).bind
    (hresponse.bind Raising.Yields.pure)⟩

/-- With every provider unhealthy the request is exhausted. -/
theorem raises_executeWithFallback {strategy : RoutingStrategy}
    (hmappings : R.availableMappings model = some mappings) (hne : mappings ≠ [])
    (hallowed : allowedModels.all (model ∈ ·) = true)
    (hstrategy : R.getStrategy model = .ok strategy) :
    ∃ attempts, (R.executeWithFallback model none allowedModels).Raises (Possible R)
      (.allProvidersExhausted attempts) := by
  rw [executeWithFallback_eq hmappings hallowed hne]
  exact ⟨_, (yields_initialMapping hstrategy (possible_noHealthyProvider strategy mappings)).raises_bind
    Raising.Raises.throw⟩

theorem serves_streamChain (model : String) (preferredProvider : Option String) :
    Serves R S (fun chain ↦ ∀ m ∈ chain, m ∈ (R.availableMappings model).getD [] ∧
        (truthy preferredProvider = none → ∃ strategy, R.getStrategy model = .ok strategy))
      (R.streamChain model preferredProvider) := by
  refine Serves.bind (serves_mappingsOrRaise model) fun mappings hmappings ↦ ?_
  rw [hmappings]
  cases truthy preferredProvider with
  | some preferred =>
      exact Serves.pure fun m hm ↦ ⟨(List.mem_insertionSort _).mp hm, fun h ↦ by cases h⟩
  | none =>
      refine Serves.bind (serves_initialMapping model mappings) fun r hr ↦ ?_
      obtain ⟨strategy, hstrategy, hpick⟩ | ⟨e, rfl, he⟩ := hr
      · cases r with
        | ok initial =>
            refine Serves.pure fun m hm ↦ ⟨?_, fun _ ↦ ⟨strategy, hstrategy⟩⟩
            rcases List.mem_cons.mp hm with rfl | hm
            · exact (hpick m rfl).1
            · exact (List.mem_filter.mp (mem_sortedByOrder.mp hm)).1
        | error e =>
            cases e
            case noHealthyProvider =>
              exact Serves.pure fun m hm ↦
                ⟨mem_sortedByOrder.mp hm, fun _ ↦ ⟨strategy, hstrategy⟩⟩
            all_goals exact Serves.throw _
      · cases e
        case noHealthyProvider => exact absurd rfl he
        all_goals exact Serves.throw _

theorem serves_openStream
    (hS : ∀ m, R.Streams model preferredProvider allowedModels m → S model m) :
    Serves R S (fun _ ↦ True) (R.openStream model preferredProvider allowedModels) := by
  unfold openStream
  split_ifs with hallowed
  · exact Serves.pure trivial
  · have hall : allowedModels.all (model ∈ ·) = true :=
      any_notMem_eq_false.mp (by simpa using hallowed)
    refine Serves.bind (serves_streamChain model preferredProvider) fun chain hchain ↦ ?_
    exact serves_tryEach (fun m hm ↦ serves_tryStream (hS m ⟨hall, hchain m hm⟩))
      (fun _ ↦ Serves.pure trivial) []

theorem yields_streamChain (h : R.Streams model preferredProvider allowedModels m) :
    ∃ chain, m ∈ chain ∧
      (R.streamChain model preferredProvider).Yields (Possible R) chain := by
  have hm := h.2.1
  cases hmappings : R.availableMappings model with
  | none => simp [hmappings] at hm
  | some mappings =>
      replace hm : m ∈ mappings := by simpa [hmappings] using hm
      unfold streamChain
      cases htruthy : truthy preferredProvider with
      | some preferred =>
          exact ⟨_, (List.mem_insertionSort _).mpr hm,
            (yields_mappingsOrRaise hmappings).bind Raising.Yields.pure⟩
      | none =>
          obtain ⟨strategy, hstrategy⟩ := h.2.2 htruthy
          exact ⟨_, mem_sortedByOrder.mpr hm, (yields_mappingsOrRaise hmappings).bind
            ((yields_initialMapping hstrategy (possible_noHealthyProvider strategy mappings)).bind
              Raising.Yields.pure)⟩

theorem reaches_openStream (h : R.Streams model preferredProvider allowedModels m) :
    Reaches R model m.provider (R.openStream model preferredProvider allowedModels) := by
  obtain ⟨chain, hm, hchain⟩ := yields_streamChain h
  unfold openStream
  rw [any_notMem_eq_false.mpr h.1]
  exact .of_yields hchain (reaches_tryEach hm (fun attempts ↦ reaches_tryStream m attempts) [])

end Execute

end Router

end AxonGateway.Routing
