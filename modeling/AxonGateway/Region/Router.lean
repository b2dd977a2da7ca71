import AxonGateway.Lib.WeightedChoice

/-!
# The region router

A request goes to one spoke of the topology.  Spokes that are not healthy, that do not admit the
request's residency zone or do not have its model are filtered out first.
-/

namespace Region

inductive SpokeRole where
  | primary
  | failover
  | active
  deriving DecidableEq

inductive SpokeStatus where
  | healthy
  | unhealthy
  | degraded
  | draining
  deriving DecidableEq

structure SpokeConfig where
  region : String
  role : SpokeRole
  weight : ℕ
  status : SpokeStatus
  models : List String
  dataResidencyZones : List String
  deriving DecidableEq

structure HubConfig where
  spokes : List SpokeConfig
  dataResidencyStrict : Bool

structure RoutingDecision where
  targetSpoke : SpokeConfig
  reason : String
  candidatesConsidered : ℕ
  deriving DecidableEq

/-- `secrets.randbelow` -/
structure Secrets where
  randbelow : ℕ → ℕ
  randbelow_lt : ∀ n, 0 < n → randbelow n < n

/-- An argument that is neither missing nor empty. -/
def given (s : Option String) : Option String := s.filter (· ≠ "")

namespace SpokeConfig

def routable (s : SpokeConfig) : Bool := s.status = .healthy || s.status = .degraded

def admitsZone (s : SpokeConfig) (zone : String) : Bool :=
  s.dataResidencyZones.isEmpty || s.dataResidencyZones.contains zone

def supports (s : SpokeConfig) (model : String) : Bool :=
  s.models.isEmpty || s.models.contains model

end SpokeConfig

/-- The draw of `_weighted_select`: the position of the spoke that the loop returns. -/
def weightedPosition (spokes : List SpokeConfig) (draw : ℕ) : Option ℕ :=
  WeightedChoice.position (draw + 1) 0 (spokes.map SpokeConfig.weight)

section Router

variable (config : HubConfig) (secrets : Secrets)

/-- `_weighted_select`; nothing where it raises for want of a spoke. -/
def weightedSelect (spokes : List SpokeConfig) : Option RoutingDecision :=
  let totalWeight := (spokes.map SpokeConfig.weight).sum
  if totalWeight = 0 then
    spokes[secrets.randbelow spokes.length]?.map fun selected ↦
      ⟨selected, "random_equal_weight", spokes.length⟩
  else
    match weightedPosition spokes (secrets.randbelow totalWeight) with
    | some i => spokes[i]?.map fun spoke ↦ ⟨spoke, "weighted_selection", spokes.length⟩
    | none => spokes.getLast?.map fun spoke ↦ ⟨spoke, "weighted_fallback", spokes.length⟩

/-- `_is_failover_mode` -/
def isFailoverMode : Bool :=
  (config.spokes.filter fun s ↦ s.role ≠ .primary).all fun s ↦ s.weight = 0 || s.role = .failover

/-- What is left of the healthy spokes under the residency rule; nothing when it empties them. -/
def residencyFilter (zone : Option String) (healthy : List SpokeConfig) :
    Option (List SpokeConfig) :=
  match given zone, config.dataResidencyStrict with
  | some zone, true =>
      let filtered := healthy.filter fun s ↦ s.admitsZone zone
      if filtered.isEmpty then none else some filtered
  | _, _ => some healthy

/-- What is left of them under the model rule; all of them when it empties them. -/
def modelFilter (model : Option String) (healthy : List SpokeConfig) : List SpokeConfig :=
  match given model with
  | some model =>
      let filtered := healthy.filter fun s ↦ s.supports model
      if filtered.isEmpty then healthy else filtered
  | none => healthy

/-- The selection among the spokes that are left. -/
def selectSpoke (preferredRegion : Option String) (healthy : List SpokeConfig) :
    Option RoutingDecision :=
  match (given preferredRegion).bind fun region ↦ healthy.find? fun s ↦ s.region = region with
  | some s => some ⟨s, "preferred_region", healthy.length⟩
  | none =>
      match healthy with
      | [s] => some ⟨s, "single_available", 1⟩
      | _ =>
          match healthy.find? fun s ↦ s.role = .primary, isFailoverMode config with
          | some s, true => some ⟨s, "primary_healthy", healthy.length⟩
          | _, _ => weightedSelect secrets healthy

/-- `route` -/
def route (model dataResidencyZone preferredRegion : Option String) : Option RoutingDecision :=
  let healthy := config.spokes.filter SpokeConfig.routable
  if healthy.isEmpty then none
  else
    (residencyFilter config dataResidencyZone healthy).bind fun healthy ↦
      selectSpoke config secrets preferredRegion (modelFilter model healthy)

end Router

/-! ### Which spokes may be selected -/

variable {config : HubConfig} {secrets : Secrets} {zone model preferred : Option String}

/-- The spoke may get traffic, and data of the zone where that is asked for. -/
def HubConfig.Open (config : HubConfig) (zone : Option String) (s : SpokeConfig) : Prop :=
  s.routable = true ∧
    (config.dataResidencyStrict = true → ∀ z ∈ given zone, s.admitsZone z = true)

def Supports (model : Option String) (s : SpokeConfig) : Prop :=
  ∀ m ∈ given model, s.supports m = true

instance (s : SpokeConfig) : Decidable (config.Open zone s) := by
  unfold HubConfig.Open; infer_instance

instance (s : SpokeConfig) : Decidable (Supports model s) := by
  unfold Supports; infer_instance

theorem mem_residencyFilter {healthy filtered : List SpokeConfig}
    (h : residencyFilter config zone healthy = some filtered) (s : SpokeConfig) :
    s ∈ filtered ↔ s ∈ healthy ∧
      (config.dataResidencyStrict = true → ∀ z ∈ given zone, s.admitsZone z = true) := by
  unfold residencyFilter at h
  cases hzone : given zone with
  | none =>
      rw [hzone] at h
      cases h
      simp
  | some z =>
      rw [hzone] at h
      cases hstrict : config.dataResidencyStrict with
      | false =>
          rw [hstrict] at h
          cases h
          simp
      | true =>
          rw [hstrict] at h
          dsimp only at h
          split_ifs at h
          cases h
          simp

theorem residencyFilter_eq_none {healthy : List SpokeConfig}
    (h : residencyFilter config zone healthy = none) (s : SpokeConfig) (hs : s ∈ healthy) :
    ¬ (config.dataResidencyStrict = true → ∀ z ∈ given zone, s.admitsZone z = true) := by
  unfold residencyFilter at h
  cases hzone : given zone with
  | none =>
      rw [hzone] at h
      cases h
  | some z =>
      rw [hzone] at h
      cases hstrict : config.dataResidencyStrict with
      | false =>
          rw [hstrict] at h
          cases h
      | true =>
          rw [hstrict] at h
          dsimp only at h
          split_ifs at h with hempty
          have hnone := List.filter_eq_nil_iff.mp (List.isEmpty_iff.mp hempty) s hs
          simpa using hnone

/-- The model rule keeps the spokes that have the model, if there are any. -/
theorem mem_modelFilter (healthy : List SpokeConfig) (s : SpokeConfig) :
    s ∈ modelFilter model healthy ↔
      s ∈ healthy ∧ ((∃ t ∈ healthy, Supports model t) → Supports model s) := by
  unfold modelFilter Supports
  cases given model with
  | none => simp
  | some m =>
      simp only [Option.mem_some_iff, forall_eq']
      by_cases hany : ∃ t ∈ healthy, t.supports m = true
      · rw [if_neg (by simpa [List.filter_eq_nil_iff] using hany), List.mem_filter]
        exact and_congr_right fun _ ↦ ⟨fun h _ ↦ h, fun h ↦ h hany⟩
      · rw [if_pos (by simpa [List.filter_eq_nil_iff] using hany)]
        exact ⟨fun h ↦ ⟨h, fun h' ↦ absurd h' hany⟩, And.left⟩

theorem modelFilter_ne_nil {healthy : List SpokeConfig} (h : healthy ≠ []) :
    modelFilter model healthy ≠ [] := by
  by_cases hany : ∃ t ∈ healthy, Supports model t
  · obtain ⟨t, ht, hsupports⟩ := hany
    exact List.ne_nil_of_mem ((mem_modelFilter healthy t).mpr ⟨ht, fun _ ↦ hsupports⟩)
  · obtain ⟨s, hs⟩ := List.exists_mem_of_ne_nil healthy h
    exact List.ne_nil_of_mem ((mem_modelFilter healthy s).mpr ⟨hs, fun h ↦ absurd h hany⟩)

theorem residencyFilter_ne_nil {healthy filtered : List SpokeConfig} (hne : healthy ≠ [])
    (h : residencyFilter config zone healthy = some filtered) : filtered ≠ [] := by
  unfold residencyFilter at h
  split at h
  · dsimp only at h
    split_ifs at h with hempty
    cases h
    simpa using hempty
  · cases h
    exact hne

theorem weightedSelect_spec {spokes : List SpokeConfig} (h : spokes ≠ []) :
    ∃ d ∈ weightedSelect secrets spokes, d.targetSpoke ∈ spokes := by
  have hlength : 0 < spokes.length := List.length_pos_iff.mpr h
  unfold weightedSelect
  dsimp only
  split_ifs with htotal
  · have hlt := secrets.randbelow_lt spokes.length hlength
    rw [List.getElem?_eq_getElem hlt]
    exact ⟨_, rfl, List.getElem_mem _⟩
  · have hlt := secrets.randbelow_lt _ (Nat.pos_of_ne_zero htotal)
    obtain ⟨i, hi, hposition⟩ := WeightedChoice.exists_position (Nat.succ_pos _)
      (by omega : secrets.randbelow (spokes.map SpokeConfig.weight).sum + 1 ≤
        0 + (spokes.map SpokeConfig.weight).sum)
    rw [List.length_map] at hi
    rw [weightedPosition, hposition]
    dsimp only
    rw [List.getElem?_eq_getElem hi]
    exact ⟨_, rfl, List.getElem_mem _⟩

variable (config secrets preferred) in
/-- A spoke is selected from every list but the empty one. -/
theorem selectSpoke_spec {healthy : List SpokeConfig} (h : healthy ≠ []) :
    ∃ d ∈ selectSpoke config secrets preferred healthy, d.targetSpoke ∈ healthy := by
  unfold selectSpoke
  split
  · next s hs =>
      obtain ⟨region, -, hfind⟩ := Option.bind_eq_some_iff.mp hs
      exact ⟨_, rfl, List.mem_of_find?_eq_some hfind⟩
  · split
    · exact ⟨_, rfl, List.mem_singleton_self _⟩
    · split
      · next s hs _ => exact ⟨_, rfl, List.mem_of_find?_eq_some hs⟩
      · exact weightedSelect_spec h

variable (config secrets model zone preferred) in
/-- Where a request is routed to. -/
theorem route_spec :
    ((∀ s ∈ config.spokes, ¬ config.Open zone s) ∧
      route config secrets model zone preferred = none) ∨
    ∃ d ∈ route config secrets model zone preferred, d.targetSpoke ∈ config.spokes ∧
      config.Open zone d.targetSpoke ∧
        ((∃ s ∈ config.spokes, config.Open zone s ∧ Supports model s) →
          Supports model d.targetSpoke) := by
  have hmem : ∀ s, s ∈ config.spokes.filter SpokeConfig.routable ↔
      s ∈ config.spokes ∧ s.routable = true := fun s ↦ List.mem_filter
  rw [route]
  split_ifs with hempty
  · refine .inl ⟨fun s hs hopen ↦ ?_, rfl⟩
    have hin := (hmem s).mpr ⟨hs, hopen.1⟩
    rw [List.isEmpty_iff.mp hempty] at hin
    cases hin
  · cases hfilter : residencyFilter config zone (config.spokes.filter SpokeConfig.routable) with
    | none =>
        refine .inl ⟨fun s hs hopen ↦ ?_, rfl⟩
        exact residencyFilter_eq_none hfilter s ((hmem s).mpr ⟨hs, hopen.1⟩) hopen.2
    | some healthy =>
        have hopen : ∀ s, s ∈ healthy ↔ s ∈ config.spokes ∧ config.Open zone s := by
          intro s
          rw [mem_residencyFilter hfilter, hmem, and_assoc]
          rfl
        have hne : modelFilter model healthy ≠ [] :=
          modelFilter_ne_nil (residencyFilter_ne_nil (by simpa using hempty) hfilter)
        obtain ⟨d, hd, htarget⟩ := selectSpoke_spec config secrets preferred hne
        obtain ⟨hhealthy, hsupports⟩ := (mem_modelFilter healthy _).mp htarget
        obtain ⟨hspoke, hopened⟩ := (hopen _).mp hhealthy
        refine .inr ⟨d, hd, hspoke, hopened, ?_⟩
        rintro ⟨s, hs, hopen', hsupported⟩
        exact hsupports ⟨s, (hopen s).mpr ⟨hs, hopen'⟩, hsupported⟩

/-! ### Soundness and completeness -/

/-- A routed request gets a spoke that is open for it and has the model, one is found when there
is one, and weighted selection gives every spoke as many of its draws as it weighs. -/
structure RoutesWell (config : HubConfig) (secrets : Secrets) (model zone preferred : Option String) :
    Prop where
  sound : ∀ d ∈ route config secrets model zone preferred, d.targetSpoke ∈ config.spokes ∧
    config.Open zone d.targetSpoke ∧ Supports model d.targetSpoke
  complete : route config secrets model zone preferred = none ↔
    ∀ s ∈ config.spokes, ¬ (config.Open zone s ∧ Supports model s)
  weighted : ∀ (spokes : List SpokeConfig) (i : ℕ) (hi : i < spokes.length),
    ((Finset.range (spokes.map SpokeConfig.weight).sum).filter fun draw ↦
      weightedPosition spokes draw = some i).card = spokes[i].weight

theorem card_weightedPosition (spokes : List SpokeConfig) (i : ℕ) (hi : i < spokes.length) :
    ((Finset.range (spokes.map SpokeConfig.weight).sum).filter fun draw ↦
      weightedPosition spokes draw = some i).card = spokes[i].weight := by
  have h := WeightedChoice.card_position (spokes.map SpokeConfig.weight) (i := i) (by simpa using hi)
  rwa [List.getElem_map] at h

/-- A spoke of its own model only. -/
def oneModel : HubConfig where
  spokes := [⟨"us-east-1", .primary, 100, .healthy, ["sonnet"], []⟩]
  dataResidencyStrict := false

def firstDraw : Secrets := ⟨fun _ ↦ 0, fun _ h ↦ h⟩

end Region
