import AxonGateway.Routing.Router

/-!
# What a strategy may answer

The rest of the gateway may change the router's state between any two
operations, so a strategy may answer with whatever it picks in some state and
every other operation may answer anything.
-/

namespace AxonGateway.Routing

open Interleaving

/-- The answers an operation may get. -/
def Possible (R : Router) : (o : Op) → Ret o → Prop
  | .select strategy ms, r => ∃ now s, (select R.pricing now strategy ms s).1 = r
  | _, _ => True

theorem bisect_le (a : List ℚ) (x : ℚ) {lo hi : ℕ} (h : lo ≤ hi) : bisect a x lo hi ≤ hi := by
  fun_induction bisect a x lo hi with
  | case1 lo hi hlt mid hx ih =>
      have hmid : mid ≤ hi := by omega
      exact (ih (by omega)).trans hmid
  | case2 lo hi hlt mid hx ih => exact ih (by omega)
  | case3 lo hi hge => exact h

theorem getLastD_partialSums (l : List ℚ) : l.partialSums.tail.getLastD 0 = l.sum := by
  cases l with
  | nil => rfl
  | cons a l =>
      have hlen : (a :: l).partialSums.tail.length = l.length + 1 := by simp
      rw [List.getLastD_eq_getLast?, List.getLast?_eq_getElem?, hlen, List.getElem?_tail]
      have hlast := List.getElem?_partialSums (l := a :: l) (i := l.length + 1)
      simp only [List.length_cons, le_refl, if_true] at hlast
      rw [Nat.add_sub_cancel, hlast, List.take_of_length_le (by simp)]
      rfl

theorem choice_ok {population : List ProviderModelMapping}
    (htotal : 0 < (population.map ProviderModelMapping.weight).sum) (u : ℚ) :
    ∃ m, choice population u = .ok m := by
  have hne : population ≠ [] := by
    rintro rfl
    exact absurd htotal (by simp)
  have hlen : 0 < population.length := List.length_pos_of_ne_nil hne
  simp only [choice, getLastD_partialSums, not_le.mpr htotal, if_false]
  generalize hindex : bisect _ _ 0 (population.length - 1) = i
  have hi : i < population.length := by
    have hle := bisect_le (population.map ProviderModelMapping.weight).partialSums.tail
      (u * (population.map ProviderModelMapping.weight).sum) (Nat.zero_le (population.length - 1))
    omega
  rw [List.getElem?_eq_getElem hi]
  exact ⟨_, rfl⟩

/-- Only the providers for which `up` holds are healthy at time `0`. -/
def onlyUp (up : String → Bool) : RouterState :=
  ⟨fun p ↦ if up p then none else some 1, fun _ ↦ [], fun _ ↦ 0, fun _ ↦ 0, []⟩

theorem isHealthy_onlyUp (up : String → Bool) (p : String) :
    (onlyUp up).isHealthy 0 p = up p := by
  cases h : up p <;> simp [RouterState.isHealthy, onlyUp, h]

namespace Router

variable {R : Router} {model : String} {m : ProviderModelMapping}
  {mappings : List ProviderModelMapping}

/-- The weights of the mappings on one provider. -/
def weightOn (mappings : List ProviderModelMapping) (provider : String) : ℚ :=
  ((mappings.filter (·.provider == provider)).map ProviderModelMapping.weight).sum

/-- The providers from which the strategy can pick first. -/
def PicksFirst (strategy : RoutingStrategy) (mappings : List ProviderModelMapping)
    (provider : String) : Prop :=
  match strategy with
  | .weighted => 0 < weightOn mappings provider
  | .ensemble => False
  | _ => ∃ m ∈ mappings, m.provider = provider

theorem selectAmong_ok {pricing : PricingConfig} {now : ℚ} {s : RouterState}
    {strategy : RoutingStrategy} {healthy : List ProviderModelMapping} (hne : healthy ≠ [])
    (hensemble : strategy ≠ .ensemble)
    (hweight : strategy = .weighted → 0 < (healthy.map ProviderModelMapping.weight).sum) :
    ∃ m, (selectAmong pricing now strategy mappings healthy s).1 = .ok m := by
  obtain ⟨a, l, rfl⟩ := List.exists_cons_of_ne_nil hne
  cases strategy with
  | roundRobin =>
      have hlt : s.indices (providerKey mappings) % (a :: l).length < (a :: l).length :=
        Nat.mod_lt _ (by simp)
      simp only [selectAmong, List.getElem?_eq_getElem hlt]
      exact ⟨_, rfl⟩
  | weighted =>
      obtain ⟨m, hm⟩ := choice_ok (hweight rfl) (s.draws 0)
      simp only [selectAmong, hm]
      exact ⟨m, rfl⟩
  | leastLatency | costOptimized =>
      simp only [selectAmong]
      split
      · exact ⟨_, rfl⟩
      · rename_i hnone
        simp at hnone
  | smart => exact ⟨a, rfl⟩
  | ensemble => exact absurd rfl hensemble

theorem possible_pick {strategy : RoutingStrategy} {provider : String}
    (h : PicksFirst strategy mappings provider) :
    ∃ m ∈ mappings, m.provider = provider ∧
      Possible R (.select strategy mappings) (.ok m) := by
  have hhealthy : healthyProviders 0 (onlyUp (· == provider)) mappings =
      mappings.filter (·.provider == provider) := by
    simp only [healthyProviders, isHealthy_onlyUp]
  have hne : mappings.filter (·.provider == provider) ≠ [] := by
    intro hempty
    cases strategy with
    | weighted => simp [PicksFirst, weightOn, hempty] at h
    | ensemble => exact h
    | roundRobin | leastLatency | costOptimized | smart =>
        obtain ⟨m, hm, hprovider⟩ := h
        exact (List.filter_eq_nil_iff.mp hempty m hm) (by simpa using hprovider)
  obtain ⟨m, hm⟩ : ∃ m, (selectAmong R.pricing 0 strategy mappings
      (mappings.filter (·.provider == provider))
      (cleanUpAll 0 (onlyUp (· == provider)) mappings)).1 = .ok m :=
    selectAmong_ok hne (by rintro rfl; exact h) (by rintro rfl; exact h)
  have hselect : (Routing.select R.pricing 0 strategy mappings (onlyUp (· == provider))).1 =
      .ok m := by
    unfold Routing.select
    rw [hhealthy, if_neg hne]
    exact hm
  obtain ⟨hmem, hup⟩ := mem_of_select hselect
  rw [isHealthy_onlyUp] at hup
  exact ⟨m, hmem, by simpa using hup, 0, _, hselect⟩

theorem sum_filter_or (l : List ProviderModelMapping) {p q : ProviderModelMapping → Bool}
    (h : ∀ m, ¬(p m = true ∧ q m = true)) :
    ((l.filter fun m ↦ p m || q m).map ProviderModelMapping.weight).sum =
      ((l.filter p).map ProviderModelMapping.weight).sum +
        ((l.filter q).map ProviderModelMapping.weight).sum := by
  induction l with
  | nil => simp
  | cons m l ih =>
      have hm := h m
      cases hp : p m <;> cases hq : q m <;> simp_all <;> ring

/-- A set of providers with positive weight has a provider with positive weight. -/
theorem exists_weightOn_pos (mappings : List ProviderModelMapping) {providers : List String}
    (hnodup : providers.Nodup)
    (hpos : 0 < ((mappings.filter (·.provider ∈ providers)).map ProviderModelMapping.weight).sum) :
    ∃ p ∈ providers, 0 < weightOn mappings p := by
  induction providers with
  | nil => simp at hpos
  | cons p providers ih =>
      have hsplit : ((mappings.filter (·.provider ∈ p :: providers)).map
          ProviderModelMapping.weight).sum = weightOn mappings p +
            ((mappings.filter (·.provider ∈ providers)).map ProviderModelMapping.weight).sum := by
        have hor := sum_filter_or mappings (p := (·.provider == p))
          (q := (decide <| ·.provider ∈ providers)) fun m hm ↦ by
            simp only [beq_iff_eq, decide_eq_true_eq] at hm
            exact (List.nodup_cons.mp hnodup).1 (hm.1 ▸ hm.2)
        rw [weightOn, ← hor]
        congr 3
        funext m
        rw [Bool.eq_iff_iff]
        simp
      by_cases hp : 0 < weightOn mappings p
      · exact ⟨p, List.mem_cons_self, hp⟩
      · obtain ⟨q, hq, hpos⟩ := ih (List.nodup_cons.mp hnodup).2 (by linarith)
        exact ⟨q, List.mem_cons_of_mem p hq, hpos⟩

/-- What a strategy picks lies on a provider from which it can pick first. -/
theorem exists_picksFirst {strategy : RoutingStrategy}
    (h : Possible R (.select strategy mappings) (.ok m)) :
    ∃ provider, PicksFirst strategy mappings provider := by
  obtain ⟨now, s, hselect⟩ := h
  have hmem := mem_of_select hselect
  cases strategy with
  | roundRobin | leastLatency | costOptimized | smart => exact ⟨m.provider, m, hmem.1, rfl⟩
  | ensemble =>
      unfold Routing.select at hselect
      split_ifs at hselect
      cases hselect
  | weighted =>
      have hpos : 0 < ((healthyProviders now s mappings).map ProviderModelMapping.weight).sum := by
        by_contra hnot
        unfold Routing.select at hselect
        split_ifs at hselect
        simp only [selectAmong, choice, getLastD_partialSums, not_lt.mp hnot, if_true] at hselect
        cases hselect
      let up := ((mappings.map ProviderModelMapping.provider).dedup).filter (s.isHealthy now)
      have hup : healthyProviders now s mappings = mappings.filter (·.provider ∈ up) := by
        refine List.filter_congr fun m' hm' ↦ ?_
        have hdedup : m'.provider ∈ (mappings.map ProviderModelMapping.provider).dedup :=
          List.mem_dedup.mpr (List.mem_map_of_mem hm')
        simp [up, List.mem_filter, hdedup]
      rw [hup] at hpos
      obtain ⟨p, -, hp⟩ := exists_weightOn_pos mappings ((List.nodup_dedup _).filter _) hpos
      exact ⟨p, hp⟩

theorem possible_noHealthyProvider (strategy : RoutingStrategy)
    (mappings : List ProviderModelMapping) :
    Possible R (.select strategy mappings) (.error .noHealthyProvider) := by
  refine ⟨0, onlyUp fun _ ↦ false, ?_⟩
  have hnone : healthyProviders 0 (onlyUp fun _ ↦ false) mappings = [] :=
    List.filter_eq_nil_iff.mpr fun m _ ↦ by simp [isHealthy_onlyUp]
  unfold Routing.select
  rw [if_pos hnone]

end Router

end AxonGateway.Routing
