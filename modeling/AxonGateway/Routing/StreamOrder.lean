import AxonGateway.Routing.Router

/-!
# The order of streamed and buffered attempts

Both paths are played on one router state at one moment.  While every attempt
fails and leaves the health of the providers alone, each loop tries exactly the
healthy mappings of its list, so the two orders can be compared as lists.
-/

namespace AxonGateway.Routing

open Interleaving

/-! ## Playing a request on one state -/

/-- What the providers answer. -/
structure Providers where
  call : String → ProviderModelMapping → ℕ → CallResult
  stream : String → ProviderModelMapping → StreamResult

/-- Record the first call of an attempt at `m`. -/
def RouterState.record (s : RouterState) (m : ProviderModelMapping) (n : ℕ) : RouterState :=
  if n = 0 then { s with attempted := s.attempted ++ [m] } else s

/-- Every operation at the moment `now`. -/
def answer (pricing : PricingConfig) (now : ℚ) (X : Providers) :
    (o : Op) → RouterState → Ret o × RouterState
  | .select strategy ms, s => select pricing now strategy ms s
  | .isHealthy p, s => (s.isHealthy now p, s.cleanUp now p)
  | .markUnhealthy p cooldown, s => ((), s.markUnhealthy now p cooldown)
  | .call model m n, s => (X.call model m n, s.record m n)
  | .openStream model m, s => (X.stream model m, s.record m 0)
  | .isOverBudget _, s => (false, s)
  | .gate _, s => (true, s)

namespace Router

variable (R : Router) (now : ℚ) (X : Providers)

/-- The request `x` run on the state `s`. -/
def play {α : Type} (x : Route α) (s : RouterState) : Except RouteError α × RouterState :=
  Raising.play (answer R.pricing now X) x s

/-- Whatever the state, the attempt fails and the providers are as healthy as
before. -/
def FailsQuietly {β : Type} (x : Route (Option β × List Attempt)) : Prop :=
  ∀ s, (∃ attempts, (R.play now X x s).1 = .ok (none, attempts)) ∧
    ∀ p, (R.play now X x s).2.isHealthy now p = s.isHealthy now p

variable {R now X} {α β : Type}

theorem play_ask_bind (o : Op) (f : Ret o → Route α) (s : RouterState) :
    R.play now X (Raising.ask o >>= f) s =
      R.play now X (f (answer R.pricing now X o s).1) (answer R.pricing now X o s).2 :=
  Raising.play_bind_ok (Raising.play_ask o s)

@[simp] theorem play_pure (a : α) (s : RouterState) :
    R.play now X (pure a : Route α) s = (.ok a, s) := rfl

@[simp] theorem play_throw (e : RouteError) (s : RouterState) :
    R.play now X (throw e : Route α) s = (.error e, s) := rfl

theorem play_markFailed (m : ProviderModelMapping) (e : ProviderError) (s : RouterState) :
    (R.play now X (R.markFailed m e) s).1 = .ok () ∧
      (R.play now X (R.markFailed m e) s).2.attempted = s.attempted := by
  unfold markFailed
  by_cases hup : e.providerUnavailable = some false
  · rw [if_neg (not_not.mpr hup)]
    exact ⟨rfl, rfl⟩
  · rw [if_pos hup]
    exact ⟨rfl, rfl⟩

theorem play_markFailed_bind (m : ProviderModelMapping) (e : ProviderError) (a : α)
    (s : RouterState) :
    R.play now X (R.markFailed m e >>= fun _ ↦ pure a) s =
      (.ok a, (R.play now X (R.markFailed m e) s).2) :=
  Raising.play_bind_ok (Prod.ext (play_markFailed m e s).1 rfl)

/-! ## One attempt -/

variable {model : String}

theorem attempted_afterCall {m : ProviderModelMapping} {attempts : List Attempt}
    {again : ProviderError → Route (Option ChatCompletionResponse × List Attempt)}
    (hagain : ∀ e s, (R.play now X (again e) s).2.attempted = s.attempted) (r : CallResult)
    (s : RouterState) :
    (R.play now X (R.afterCall model m attempts again r) s).2.attempted = s.attempted := by
  cases r with
  | response | raised => rfl
  | providerError e =>
      by_cases hretry : R.shouldRetry e = true
      · simp only [afterCall, hretry, if_true]
        exact hagain e s
      · simp only [afterCall, hretry, if_false, Bool.false_eq_true]
        rfl

/-- However often it is repeated, one attempt is recorded once. -/
theorem attempted_tryFrom (m : ProviderModelMapping) (attempts : List Attempt) (left : ℕ) :
    ∀ n s, (R.play now X (R.tryFrom model m attempts n left) s).2.attempted =
      (s.record m n).attempted := by
  induction left with
  | zero =>
      intro n s
      rw [tryFrom, play_ask_bind]
      refine attempted_afterCall (fun e s ↦ ?_) _ _
      rw [play_markFailed_bind]
      exact (play_markFailed m e s).2
  | succ left ih =>
      intro n s
      rw [tryFrom, play_ask_bind]
      refine attempted_afterCall (fun e s ↦ ?_) _ _
      exact ih (n + 1) s

theorem attempted_tryProvider (m : ProviderModelMapping) (attempts : List Attempt)
    (s : RouterState) :
    (R.play now X (R.tryProvider model m attempts) s).2.attempted = s.attempted ++ [m] :=
  attempted_tryFrom m attempts R.maxRetries 0 s

theorem attempted_tryStream (m : ProviderModelMapping) (attempts : List Attempt)
    (s : RouterState) :
    (R.play now X (R.tryStream model m attempts) s).2.attempted = s.attempted ++ [m] := by
  rw [tryStream, play_ask_bind]
  cases hresult : (answer R.pricing now X (Op.openStream model m) s).1 with
  | opened | raised => rfl
  | providerError e =>
      simp only [play_markFailed_bind]
      exact (play_markFailed m e _).2

/-! ## The loops -/

/-- A loop goes on behind an attempt that fails quietly. -/
theorem play_bind_of_failsQuietly {x : Route (Option β × List Attempt)}
    (h : R.FailsQuietly now X x) (f : Option β × List Attempt → Route α) (s : RouterState) :
    ∃ attempts, R.play now X (x >>= f) s =
      R.play now X (f (none, attempts)) (R.play now X x s).2 := by
  obtain ⟨attempts, hfails⟩ := (h s).1
  exact ⟨attempts, Raising.play_bind_ok (Prod.ext hfails rfl)⟩

theorem healthyProviders_congr {s s' : RouterState} (h : ∀ p, s'.isHealthy now p = s.isHealthy now p)
    (ms : List ProviderModelMapping) : healthyProviders now s' ms = healthyProviders now s ms := by
  simp only [healthyProviders, h]

theorem healthyProviders_cons {s : RouterState} {m : ProviderModelMapping}
    (hm : s.isHealthy now m.provider = true) (ms : List ProviderModelMapping) :
    healthyProviders now s (m :: ms) = m :: healthyProviders now s ms :=
  List.filter_cons_of_pos (p := fun m : ProviderModelMapping ↦ s.isHealthy now m.provider) hm

theorem mem_healthyProviders {s : RouterState} {m : ProviderModelMapping}
    {ms : List ProviderModelMapping} :
    m ∈ healthyProviders now s ms ↔ m ∈ ms ∧ s.isHealthy now m.provider = true :=
  List.mem_filter

/-- A loop whose attempts fail quietly and are recorded tries the healthy
mappings in their order. -/
theorem attempted_tryEach
    {tryOne : ProviderModelMapping → List Attempt → Route (Option β × List Attempt)}
    {exhausted : List Attempt → Route β}
    (hrecord : ∀ m attempts s,
      (R.play now X (tryOne m attempts) s).2.attempted = s.attempted ++ [m])
    (hend : ∀ attempts s, (R.play now X (exhausted attempts) s).2.attempted = s.attempted)
    {ms : List ProviderModelMapping}
    (hquiet : ∀ m ∈ ms, ∀ attempts, R.FailsQuietly now X (tryOne m attempts))
    (attempts : List Attempt) (s : RouterState) :
    (R.play now X (tryEach tryOne exhausted ms attempts) s).2.attempted =
      s.attempted ++ healthyProviders now s ms := by
  induction ms generalizing attempts s with
  | nil => simpa [tryEach, healthyProviders] using hend attempts s
  | cons m ms ih =>
      have htail := ih fun m' hm' ↦ hquiet m' (List.mem_cons_of_mem m hm')
      have hclean : healthyProviders now (s.cleanUp now m.provider) ms = healthyProviders now s ms :=
        healthyProviders_congr (isHealthy_cleanUp m.provider) ms
      rw [tryEach, isHealthy, play_ask_bind]
      by_cases hm : s.isHealthy now m.provider = true
      · have hq := hquiet m List.mem_cons_self attempts
        simp only [answer, hm, if_true]
        obtain ⟨attempts', hplay⟩ := play_bind_of_failsQuietly hq _ (s.cleanUp now m.provider)
        rw [hplay, htail, hrecord, healthyProviders_congr (hq _).2, hclean, attempted_cleanUp]
        simp [healthyProviders, hm]
      · simp only [answer, hm, if_false, Bool.false_eq_true]
        rw [htail, attempted_cleanUp, hclean]
        simp [healthyProviders, hm]

variable {mappings : List ProviderModelMapping}

theorem attempted_fallBack {ms : List ProviderModelMapping}
    (hquiet : ∀ m ∈ ms, ∀ attempts, R.FailsQuietly now X (R.tryProvider model m attempts)) :
    ∀ attempts s, (R.play now X (R.fallBack model ms attempts) s).2.attempted =
      s.attempted ++ healthyProviders now s ms :=
  attempted_tryEach attempted_tryProvider (fun _ _ ↦ rfl) hquiet

theorem attempted_openAlong {ms : List ProviderModelMapping}
    (hquiet : ∀ m ∈ ms, ∀ attempts, R.FailsQuietly now X (R.tryStream model m attempts)) :
    ∀ attempts s, (R.play now X (R.openAlong model ms attempts) s).2.attempted =
      s.attempted ++ healthyProviders now s ms :=
  attempted_tryEach attempted_tryStream (fun _ _ ↦ rfl) hquiet

/-! ## The two paths -/

variable (R now) in
/-- What the model's strategy picks from its mappings in the state `s`. -/
def picks (model : String) (mappings : List ProviderModelMapping) (s : RouterState) :
    Option ProviderModelMapping :=
  match R.getStrategy model with
  | .ok strategy => (Routing.select R.pricing now strategy mappings s).1.toOption
  | .error _ => none

theorem picks_healthy {m : ProviderModelMapping} (h : R.picks now model mappings s = some m) :
    m ∈ mappings ∧ s.isHealthy now m.provider = true := by
  unfold picks at h
  cases hstrategy : R.getStrategy model with
  | error e => simp [hstrategy] at h
  | ok strategy =>
      simp only [hstrategy] at h
      cases hselect : (Routing.select R.pricing now strategy mappings s).1 with
      | error e => simp [hselect, Except.toOption] at h
      | ok m' =>
          obtain rfl : m' = m := by simpa [hselect, Except.toOption] using h
          exact mem_of_select hselect

variable (R now X model) in
theorem play_initialMapping (mappings : List ProviderModelMapping) (s : RouterState) :
    ∃ r s', R.play now X (R.initialMapping model mappings) s = (.ok r, s') ∧
      r.toOption = R.picks now model mappings s ∧
      (r = .error .noHealthyProvider → healthyProviders now s mappings = []) ∧
      s'.attempted = s.attempted ∧ ∀ p, s'.isHealthy now p = s.isHealthy now p := by
  unfold initialMapping picks
  cases hstrategy : R.getStrategy model with
  | ok strategy =>
      exact ⟨_, _, rfl, rfl, healthyProviders_of_select, attempted_select _ _ _,
        isHealthy_select _ _ _⟩
  | error e =>
      refine ⟨_, _, rfl, rfl, fun he ↦ ?_, rfl, fun p ↦ rfl⟩
      cases he
      exact absurd hstrategy getStrategy_ne

section Paths

variable (hcall : ∀ m ∈ mappings, ∀ attempts, R.FailsQuietly now X (R.tryProvider model m attempts))
  (hopen : ∀ m ∈ mappings, ∀ attempts, R.FailsQuietly now X (R.tryStream model m attempts))

include hcall in
/-- The first attempt and then the loop. -/
theorem attempted_first_fallBack {m : ProviderModelMapping} {ms : List ProviderModelMapping}
    (hm : m ∈ mappings) (hms : ms ⊆ mappings) (s : RouterState) :
    (R.play now X (do
        match ← R.tryProvider model m [] with
        | (some response, _) => pure response
        | (none, attempts) => R.fallBack model ms attempts) s).2.attempted =
      s.attempted ++ m :: healthyProviders now s ms := by
  obtain ⟨attempts, hplay⟩ := play_bind_of_failsQuietly (hcall m hm []) _ s
  rw [hplay, attempted_fallBack fun m' hm' ↦ hcall m' (hms hm'), attempted_tryProvider,
    healthyProviders_congr (hcall m hm [] s).2]
  simp

include hcall in
theorem attempted_executePreferred (preferred : String) (s : RouterState) :
    (R.play now X (R.executePreferred model preferred mappings) s).2.attempted =
      s.attempted ++ ((mappings.find? (·.provider == preferred)).toList ++
        healthyProviders now s (sortedByOrder (mappings.filter (·.provider != preferred)))) := by
  unfold executePreferred
  cases hfind : mappings.find? (·.provider == preferred) with
  | some m =>
      refine attempted_first_fallBack hcall (List.mem_of_find?_eq_some hfind) ?_ s
      intro m' hm'
      exact (List.mem_filter.mp (mem_sortedByOrder.mp hm')).1
  | none =>
      have hall : mappings.filter (·.provider != preferred) = mappings := by
        refine List.filter_eq_self.mpr fun m hm ↦ ?_
        simpa using List.find?_eq_none.mp hfind m hm
      rw [hall]
      exact attempted_fallBack (fun m hm ↦ hcall m (mem_sortedByOrder.mp hm)) [] s

include hcall in
theorem attempted_executeSelected (s : RouterState) :
    (R.play now X (R.executeSelected model mappings) s).2.attempted =
      s.attempted ++ match R.picks now model mappings s with
        | some m => m :: healthyProviders now s
            (sortedByOrder (mappings.filter (·.provider != m.provider)))
        | none => [] := by
  obtain ⟨r, s', hplay, hpick, -, hattempted, hhealthy⟩ :=
    play_initialMapping R now X model mappings s
  have hrun : R.play now X (R.executeSelected model mappings) s = R.play now X _ s' :=
    Raising.play_bind_ok hplay
  rw [hrun, ← hpick]
  cases r with
  | error e =>
      cases e <;> simpa [Except.toOption] using hattempted
  | ok m =>
      have hm : m ∈ mappings := (picks_healthy hpick.symm).1
      refine (attempted_first_fallBack hcall hm (fun m' hm' ↦ ?_) s').trans ?_
      · exact (List.mem_filter.mp (mem_sortedByOrder.mp hm')).1
      · rw [hattempted, healthyProviders_congr hhealthy]
        rfl

variable (R now) in
/-- The healthy part of `stream_chain`. -/
def streamed (model : String) (preferredProvider : Option String)
    (mappings : List ProviderModelMapping) (s : RouterState) : List ProviderModelMapping :=
  match truthy preferredProvider with
  | some preferred => healthyProviders now s (sortedByPreference preferred mappings)
  | none =>
      match R.picks now model mappings s with
      | some m => m :: healthyProviders now s (sortedByOrder (mappings.filter (·.ref != m.ref)))
      | none => []

variable (R now) in
/-- What `execute_with_fallback` attempts when no attempt succeeds. -/
def buffered (model : String) (preferredProvider : Option String)
    (mappings : List ProviderModelMapping) (s : RouterState) : List ProviderModelMapping :=
  match truthy preferredProvider with
  | some preferred => (mappings.find? (·.provider == preferred)).toList ++
      healthyProviders now s (sortedByOrder (mappings.filter (·.provider != preferred)))
  | none =>
      match R.picks now model mappings s with
      | some m =>
          m :: healthyProviders now s (sortedByOrder (mappings.filter (·.provider != m.provider)))
      | none => []

variable (now X) in
theorem play_streamChain (hmappings : R.availableMappings model = some mappings)
    (preferredProvider : Option String) (s : RouterState) :
    ∃ r s', R.play now X (R.streamChain model preferredProvider) s = (r, s') ∧
      s'.attempted = s.attempted ∧ (∀ p, s'.isHealthy now p = s.isHealthy now p) ∧
      (∀ chain, r = .ok chain → chain ⊆ mappings) ∧
      r.toOption.elim [] (healthyProviders now s) =
        R.streamed now model preferredProvider mappings s := by
  unfold streamChain mappingsOrRaise streamed
  rw [hmappings]
  have hstart : ∀ f : List ProviderModelMapping → Route (List ProviderModelMapping),
      R.play now X (pure mappings >>= f) s = R.play now X (f mappings) s := fun f ↦
    Raising.play_bind_ok (Raising.play_pure mappings s)
  rw [hstart]
  cases truthy preferredProvider with
  | some preferred =>
      refine ⟨_, _, rfl, rfl, fun p ↦ rfl, fun chain hchain ↦ ?_, rfl⟩
      obtain rfl := Except.ok.inj hchain
      exact fun m hm ↦ (List.mem_insertionSort _).mp hm
  | none =>
      obtain ⟨r, s', hplay, hpick, hnone, hattempted, hhealthy⟩ :=
        play_initialMapping R now X model mappings s
      rw [← hpick]
      cases r with
      | error e =>
          refine ⟨_, _, Raising.play_bind_ok hplay, ?_⟩
          cases e
          case noHealthyProvider =>
            refine ⟨hattempted, hhealthy, fun chain hchain ↦ ?_, ?_⟩
            · obtain rfl := Except.ok.inj hchain
              exact fun m hm ↦ mem_sortedByOrder.mp hm
            · have hall := List.filter_eq_nil_iff.mp (hnone rfl)
              exact List.filter_eq_nil_iff.mpr fun m hm ↦ hall m (mem_sortedByOrder.mp hm)
          all_goals exact ⟨hattempted, hhealthy, fun chain hchain ↦ (by cases hchain), rfl⟩
      | ok m =>
          refine ⟨_, _, Raising.play_bind_ok hplay, hattempted, hhealthy, fun chain hchain ↦ ?_, ?_⟩
          · obtain rfl := Except.ok.inj hchain
            intro m' hm'
            rcases List.mem_cons.mp hm' with rfl | hm'
            · exact (picks_healthy hpick.symm).1
            · exact (List.mem_filter.mp (mem_sortedByOrder.mp hm')).1
          · exact healthyProviders_cons (picks_healthy hpick.symm).2 _

include hopen in
theorem attempted_openStream (hmappings : R.availableMappings model = some mappings)
    {allowedModels : Option (List String)} (hallowed : allowedModels.any (model ∉ ·) = false)
    (preferredProvider : Option String) (s : RouterState) :
    (R.play now X (R.openStream model preferredProvider allowedModels) s).2.attempted =
      s.attempted ++ R.streamed now model preferredProvider mappings s := by
  obtain ⟨r, s', hplay, hattempted, hhealthy, hsub, hstreamed⟩ :=
    play_streamChain now X hmappings preferredProvider s
  have hrun : R.openStream model preferredProvider allowedModels =
      R.streamChain model preferredProvider >>= fun chain ↦ R.openAlong model chain [] := by
    unfold openStream
    rw [hallowed]
    rfl
  rw [hrun, ← hstreamed]
  cases r with
  | error e =>
      have hraise := Raising.play_bind_error (f := fun chain ↦ R.openAlong model chain []) hplay
      refine (congrArg (fun r ↦ r.2.attempted) hraise).trans ?_
      exact hattempted.trans (List.append_nil s.attempted).symm
  | ok chain =>
      have hloop := Raising.play_bind_ok (f := fun chain ↦ R.openAlong model chain []) hplay
      refine (congrArg (fun r ↦ r.2.attempted) hloop).trans ?_
      refine (attempted_openAlong (fun m hm ↦ hopen m (hsub chain rfl hm)) [] s').trans ?_
      rw [hattempted, healthyProviders_congr hhealthy]
      rfl

include hcall in
theorem attempted_executeWithFallback (hmappings : R.availableMappings model = some mappings)
    {allowedModels : Option (List String)} (hallowed : allowedModels.any (model ∉ ·) = false)
    (preferredProvider : Option String) (s : RouterState) :
    (R.play now X (R.executeWithFallback model preferredProvider allowedModels) s).2.attempted =
      s.attempted ++ R.buffered now model preferredProvider mappings s := by
  have hrun : R.executeWithFallback model preferredProvider allowedModels =
      if mappings = [] then throw (.allProvidersExhausted (noProvider model))
      else match truthy preferredProvider with
        | some preferred => R.executePreferred model preferred mappings
        | none => R.executeSelected model mappings := by
    unfold executeWithFallback mappingsOrRaise
    rw [hmappings, hallowed]
    rfl
  rw [hrun]
  unfold buffered
  split_ifs with hempty
  · subst hempty
    cases truthy preferredProvider with
    | some preferred => simp [sortedByOrder, healthyProviders]
    | none =>
        cases hpick : R.picks now model [] s with
        | none => simp
        | some m => exact absurd (picks_healthy hpick).1 (by simp)
  · cases truthy preferredProvider with
    | some preferred => exact attempted_executePreferred hcall preferred s
    | none => exact attempted_executeSelected hcall s

end Paths

/-! ## When the two orders agree -/

variable (R now) in
/-- The condition on a state: an available mapping that the request tries first
shares its provider with no other, and a preferred provider is healthy. -/
def OrdersAgree (model : String) (preferredProvider : Option String)
    (allowedModels : Option (List String)) (s : RouterState) : Prop :=
  ∀ mappings, R.availableMappings model = some mappings →
    allowedModels.any (model ∉ ·) = false →
    match truthy preferredProvider with
    | some preferred => ∀ m ∈ mappings, m.provider = preferred →
        s.isHealthy now preferred = true ∧ ∀ m' ∈ mappings, m'.provider = preferred → m' = m
    | none => ∀ initial, R.picks now model mappings s = some initial →
        ∀ m ∈ mappings, m.provider = initial.provider → m = initial

theorem nodup_ref_availableMappings (h : R.availableMappings model = some mappings) :
    (mappings.map ProviderModelMapping.ref).Nodup := by
  obtain ⟨all, hall, rfl⟩ := Option.map_eq_some_iff.mp h
  obtain ⟨config, -, rfl⟩ := Option.map_eq_some_iff.mp hall
  exact config.distinct.sublist (List.filter_sublist.map _)

theorem ref_inj (hnodup : (mappings.map ProviderModelMapping.ref).Nodup)
    {m m' : ProviderModelMapping} (hm : m ∈ mappings) (hm' : m' ∈ mappings)
    (href : m.ref = m'.ref) : m = m' :=
  List.inj_on_of_nodup_map hnodup hm hm' href

theorem preferred_orders_agree_iff {preferred : String}
    (hnodup : (mappings.map ProviderModelMapping.ref).Nodup) :
    healthyProviders now s (sortedByPreference preferred mappings) =
        (mappings.find? (·.provider == preferred)).toList ++
          healthyProviders now s (sortedByOrder (mappings.filter (·.provider != preferred))) ↔
      ∀ m ∈ mappings, m.provider = preferred →
        s.isHealthy now preferred = true ∧ ∀ m' ∈ mappings, m'.provider = preferred → m' = m := by
  have hsplit : healthyProviders now s (sortedByPreference preferred mappings) =
      healthyProviders now s (sortedByOrder (mappings.filter (·.provider == preferred))) ++
        healthyProviders now s (sortedByOrder (mappings.filter (·.provider != preferred))) := by
    rw [sortedByPreference_eq]
    exact List.filter_append ..
  have hmem : ∀ m, m ∈ healthyProviders now s
      (sortedByOrder (mappings.filter (·.provider == preferred))) ↔
        (m ∈ mappings ∧ m.provider = preferred) ∧ s.isHealthy now m.provider = true := fun m ↦ by
    rw [mem_healthyProviders, mem_sortedByOrder, List.mem_filter, beq_iff_eq]
  rw [hsplit, List.append_cancel_right_eq]
  cases hfind : mappings.find? (·.provider == preferred) with
  | none =>
      have hnone : ∀ m ∈ mappings, m.provider ≠ preferred := fun m hm ↦ by
        simpa using List.find?_eq_none.mp hfind m hm
      refine iff_of_true ?_ fun m hm hprovider ↦ absurd hprovider (hnone m hm)
      refine List.eq_nil_iff_forall_not_mem.mpr fun m hm ↦ ?_
      obtain ⟨⟨hm, hprovider⟩, -⟩ := (hmem m).mp hm
      exact hnone m hm hprovider
  | some m₀ =>
      have hm₀ : m₀ ∈ mappings := List.mem_of_find?_eq_some hfind
      have hprovider₀ : m₀.provider = preferred := by
        simpa using List.find?_some hfind
      constructor
      · intro heq m hm hprovider
        have hhealthy : s.isHealthy now preferred = true := by
          have hin : m₀ ∈ healthyProviders now s
              (sortedByOrder (mappings.filter (·.provider == preferred))) := by
            rw [heq]
            exact List.mem_singleton_self m₀
          exact hprovider₀ ▸ ((hmem m₀).mp hin).2
        have honly : ∀ m' ∈ mappings, m'.provider = preferred → m' = m₀ := by
          intro m' hm' hprovider'
          have hin := (hmem m').mpr ⟨⟨hm', hprovider'⟩, hprovider' ▸ hhealthy⟩
          rw [heq] at hin
          exact List.mem_singleton.mp hin
        exact ⟨hhealthy, fun m' hm' hprovider' ↦
          (honly m' hm' hprovider').trans (honly m hm hprovider).symm⟩
      · intro h
        obtain ⟨hhealthy, honly⟩ := h m₀ hm₀ hprovider₀
        have hsingle : mappings.filter (·.provider == preferred) = [m₀] := by
          refine List.perm_singleton.mp ((List.perm_ext_iff_of_nodup ?_ ?_).mpr fun m ↦ ?_)
          · exact (List.Nodup.of_map _ hnodup).filter _
          · exact List.nodup_singleton m₀
          · rw [List.mem_filter, List.mem_singleton, beq_iff_eq]
            exact ⟨fun hm ↦ honly m hm.1 hm.2, fun hm ↦ hm ▸ ⟨hm₀, hprovider₀⟩⟩
        rw [hsingle]
        exact healthyProviders_cons (hprovider₀ ▸ hhealthy) []

theorem selected_orders_agree_iff (hnodup : (mappings.map ProviderModelMapping.ref).Nodup)
    {initial : ProviderModelMapping} (hinitial : initial ∈ mappings)
    (hhealthy : s.isHealthy now initial.provider = true) :
    healthyProviders now s (sortedByOrder (mappings.filter (·.ref != initial.ref))) =
        healthyProviders now s
          (sortedByOrder (mappings.filter (·.provider != initial.provider))) ↔
      ∀ m ∈ mappings, m.provider = initial.provider → m = initial := by
  constructor
  · intro heq m hm hprovider
    by_contra hne
    have href : m.ref ≠ initial.ref := fun h ↦ hne (ref_inj hnodup hm hinitial h)
    have hin : m ∈ healthyProviders now s
        (sortedByOrder (mappings.filter (·.ref != initial.ref))) := by
      rw [mem_healthyProviders, mem_sortedByOrder, List.mem_filter, bne_iff_ne]
      exact ⟨⟨hm, href⟩, hprovider ▸ hhealthy⟩
    rw [heq, mem_healthyProviders, mem_sortedByOrder, List.mem_filter, bne_iff_ne] at hin
    exact hin.1.2 hprovider
  · intro h
    have hfilter : mappings.filter (·.ref != initial.ref) =
        mappings.filter (·.provider != initial.provider) := by
      refine List.filter_congr fun m hm ↦ ?_
      rw [Bool.eq_iff_iff, bne_iff_ne, bne_iff_ne]
      refine not_congr ⟨fun href ↦ ?_, fun hprovider ↦ ?_⟩
      · rw [ref_inj hnodup hm hinitial href]
      · rw [h m hm hprovider]
    rw [hfilter]

theorem streamed_eq_buffered_iff (hmappings : R.availableMappings model = some mappings)
    {allowedModels : Option (List String)} (hallowed : allowedModels.any (model ∉ ·) = false)
    (preferredProvider : Option String) :
    R.streamed now model preferredProvider mappings s =
        R.buffered now model preferredProvider mappings s ↔
      R.OrdersAgree now model preferredProvider allowedModels s := by
  have hnodup := nodup_ref_availableMappings hmappings
  have hcondition : R.OrdersAgree now model preferredProvider allowedModels s ↔
      match truthy preferredProvider with
      | some preferred => ∀ m ∈ mappings, m.provider = preferred →
          s.isHealthy now preferred = true ∧ ∀ m' ∈ mappings, m'.provider = preferred → m' = m
      | none => ∀ initial, R.picks now model mappings s = some initial →
          ∀ m ∈ mappings, m.provider = initial.provider → m = initial := by
    refine ⟨fun h ↦ h mappings hmappings hallowed, fun h mappings' hmappings' _ ↦ ?_⟩
    obtain rfl := Option.some.inj (hmappings.symm.trans hmappings')
    exact h
  rw [hcondition]
  unfold streamed buffered
  cases truthy preferredProvider with
  | some preferred => exact preferred_orders_agree_iff hnodup
  | none =>
      cases hpick : R.picks now model mappings s with
      | none => simp
      | some initial =>
          obtain ⟨hinitial, hhealthy⟩ := picks_healthy hpick
          simp only [List.cons.injEq, true_and, Option.some.injEq, forall_eq']
          exact selected_orders_agree_iff hnodup hinitial hhealthy

/-- While every attempt fails without changing health, the streamed and the
buffered path try the same mappings in the same order exactly when the state
satisfies `OrdersAgree`. -/
theorem attempted_openStream_eq_iff (R : Router) (now : ℚ) (X : Providers) (model : String)
    (preferredProvider : Option String) (allowedModels : Option (List String)) (s : RouterState)
    (hcall : ∀ mappings, R.availableMappings model = some mappings → ∀ m ∈ mappings,
      ∀ attempts, R.FailsQuietly now X (R.tryProvider model m attempts))
    (hopen : ∀ mappings, R.availableMappings model = some mappings → ∀ m ∈ mappings,
      ∀ attempts, R.FailsQuietly now X (R.tryStream model m attempts)) :
    (R.play now X (R.openStream model preferredProvider allowedModels) s).2.attempted =
        (R.play now X (R.executeWithFallback model preferredProvider allowedModels) s).2.attempted ↔
      R.OrdersAgree now model preferredProvider allowedModels s := by
  cases hmappings : R.availableMappings model with
  | none =>
      refine iff_of_true ?_ fun mappings h ↦ by cases hmappings.symm.trans h
      unfold openStream streamChain executeWithFallback mappingsOrRaise
      rw [hmappings]
      split_ifs <;> rfl
  | some mappings =>
      cases hallowed : allowedModels.any (model ∉ ·) with
      | true =>
          refine iff_of_true ?_ fun mappings _ h ↦ by cases hallowed.symm.trans h
          unfold openStream executeWithFallback mappingsOrRaise
          rw [hmappings, hallowed]
          rfl
      | false =>
          rw [attempted_openStream (hopen mappings hmappings) hmappings hallowed,
            attempted_executeWithFallback (hcall mappings hmappings) hmappings hallowed,
            List.append_cancel_left_eq]
          exact streamed_eq_buffered_iff hmappings hallowed preferredProvider

end Router

/-! ### Two deployments of one provider -/

section Example

def refused : ProviderError := ⟨400, "bad request", none, none, some false⟩

/-- Providers that refuse every request but are up. -/
def refusing : Providers := ⟨fun _ _ _ ↦ .providerError refused, fun _ _ ↦ .providerError refused⟩

def gpt4o : ProviderModelMapping := { ref := 0, provider := "openai", modelId := "gpt-4o" }

def gpt4oMini : ProviderModelMapping :=
  { ref := 1, provider := "openai", modelId := "gpt-4o-mini", fallbackOrder := 1 }

def claude : ProviderModelMapping :=
  { ref := 1, provider := "bedrock", modelId := "claude", fallbackOrder := 1 }

def twoDeployments : Router where
  modelRegistry := ⟨[⟨"chat", [gpt4o, gpt4oMini], .roundRobin, none, by decide⟩], by decide⟩

def twoProviders : Router where
  modelRegistry := ⟨[⟨"chat", [gpt4o, claude], .roundRobin, none, by decide⟩], by decide⟩

def freshRouter : RouterState := ⟨fun _ ↦ none, fun _ ↦ [], fun _ ↦ 0, fun _ ↦ 0, []⟩

theorem failsQuietly_tryProvider_refusing {R : Router} {now : ℚ}
    (hretry : R.shouldRetry refused = false) (model : String) (m : ProviderModelMapping)
    (attempts : List Attempt) :
    R.FailsQuietly now refusing (R.tryProvider model m attempts) := by
  intro s
  have hplay : R.play now refusing (R.tryProvider model m attempts) s =
      (.ok (none, attempts ++ [failed m refused]), s.record m 0) := by
    have hafter : ∀ again, R.afterCall model m attempts again (.providerError refused) =
        pure (none, attempts ++ [failed m refused]) := fun again ↦
      if_neg (by simp [hretry])
    unfold Router.tryProvider
    cases R.maxRetries with
    | zero | succ =>
        rw [Router.tryFrom, Router.play_ask_bind]
        exact congrArg (fun x ↦ R.play now refusing x (s.record m 0)) (hafter _)
  rw [hplay]
  exact ⟨⟨_, rfl⟩, fun p ↦ rfl⟩

theorem failsQuietly_tryStream_refusing {R : Router} {now : ℚ} (model : String)
    (m : ProviderModelMapping) (attempts : List Attempt) :
    R.FailsQuietly now refusing (R.tryStream model m attempts) := by
  intro s
  exact ⟨⟨_, rfl⟩, fun p ↦ rfl⟩

/-- The stream tries the provider's second deployment, the buffered request does
not. -/
theorem attempted_openStream_ne :
    ¬∀ (R : Router) (now : ℚ) (X : Providers) (model : String)
      (preferredProvider : Option String) (allowedModels : Option (List String))
      (s : RouterState),
      (∀ mappings, R.availableMappings model = some mappings → ∀ m ∈ mappings,
        ∀ attempts, R.FailsQuietly now X (R.tryProvider model m attempts)) →
      (∀ mappings, R.availableMappings model = some mappings → ∀ m ∈ mappings,
        ∀ attempts, R.FailsQuietly now X (R.tryStream model m attempts)) →
      (R.play now X (R.openStream model preferredProvider allowedModels) s).2.attempted =
        (R.play now X (R.executeWithFallback model preferredProvider
          allowedModels) s).2.attempted := by
  intro h
  have heq := h twoDeployments 0 refusing "chat" none none freshRouter
    (fun _ _ m _ attempts ↦ failsQuietly_tryProvider_refusing (by decide) "chat" m attempts)
    (fun _ _ m _ attempts ↦ failsQuietly_tryStream_refusing "chat" m attempts)
  have hne : (twoDeployments.play 0 refusing (twoDeployments.openStream "chat")
      freshRouter).2.attempted ≠ (twoDeployments.play 0 refusing
        (twoDeployments.executeWithFallback "chat") freshRouter).2.attempted := by
    decide +kernel
  exact hne heq

theorem attempted_openStream_eq_of_twoProviders :
    (twoProviders.play 0 refusing (twoProviders.openStream "chat") freshRouter).2.attempted =
      (twoProviders.play 0 refusing (twoProviders.executeWithFallback "chat")
        freshRouter).2.attempted := by
  refine (Router.attempted_openStream_eq_iff twoProviders 0 refusing "chat" none none freshRouter
    (fun _ _ m _ attempts ↦ failsQuietly_tryProvider_refusing (by decide) "chat" m attempts)
    (fun _ _ m _ attempts ↦ failsQuietly_tryStream_refusing "chat" m attempts)).mpr ?_
  intro mappings hmappings _
  obtain rfl : [gpt4o, claude] = mappings := Option.some.inj hmappings
  intro initial hinitial m hm hprovider
  have hmem : initial ∈ [gpt4o, claude] := (Router.picks_healthy hinitial).1
  simp only [List.mem_cons, List.not_mem_nil, or_false] at hmem hm
  rcases hmem with rfl | rfl <;> rcases hm with rfl | rfl <;> first | rfl | exact absurd hprovider (by decide)

end Example

end AxonGateway.Routing
