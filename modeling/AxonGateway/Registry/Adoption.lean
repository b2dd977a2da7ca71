import AxonGateway.Registry.Order

/-!
# Adopting a snapshot

Whatever is published from a registry is read back as it was written, and every registry that adopts
it has the published models in the same order.
-/

namespace AxonGateway.Registry

open PyValue Screening Adapters JsonText Outcome

variable {N : Numbers} {isPrintable : Char → Bool} {sha256 : Text → Text}

/-! ### Documents in order -/

/-- The entries of a document that can be parsed can be parsed in order. -/
theorem returns_parseEntries_inOrder {l : List (Fields × Text)}
    (hjson : ∀ e ∈ l, IsJson N.read (.obj e.1)) (hvalid : ∀ e ∈ l, ValidEntry e.1 e.2)
    {models models' : List (Text × ModelConfig)}
    (h : Returns (parseEntries N models (l.map fun e ↦ .obj e.1))) :
    Returns (parseEntries N models' (l.map fun e ↦ .obj (inOrder e.1))) := by
  induction l generalizing models models' with
  | nil => exact returns_ok models'
  | cons e rest ih =>
      rw [List.forall_mem_cons] at hjson hvalid
      rw [List.map_cons, parseEntries, returns_bind_iff] at h ⊢
      obtain ⟨m, hm, h⟩ := h
      obtain ⟨items, -, -, hproviders⟩ := hvalid.1.providers
      rw [parseEntry_inOrder hjson.1 hproviders, hm]
      exact ⟨_, rfl, ih hjson.2 hvalid.2 h⟩

theorem map_sorted_obj (l : List (Fields × Text)) :
    (l.map fun e ↦ Value.obj e.1).map sorted = l.map fun e ↦ .obj (inOrder e.1) := by
  rw [List.map_map]
  rfl

/-- A document whose models can be taken has models in order as well. -/
theorem returns_modelsOf_inOrder {config : Fields} (hjson : IsJson N.read (.obj config))
    (h : Returns (modelsOf isPrintable N config)) :
    Returns (modelsOf isPrintable N (inOrder config)) := by
  obtain ⟨models, h⟩ := h
  obtain ⟨errors, hvalidate, h⟩ := bind_ok_iff.mp h
  cases errors with
  | cons e errors => cases h
  | nil =>
      obtain ⟨l, hl, hlookup⟩ := validate_eq_nil_iff.mp hvalidate
      have hall := (isJson_arr_iff N.read _).mp (isJson_of_lookup hjson hlookup)
      rw [List.forall_mem_map] at hall
      rw [hlookup] at h
      rw [modelsOf, returns_bind_iff]
      refine ⟨[], (validate_inOrder hjson).trans hvalidate, ?_⟩
      rw [lookup_inOrder ((isJson_obj_iff N.read config).mp hjson).1, hlookup, Option.map_some,
        sorted_arr, map_sorted_obj]
      exact returns_parseEntries_inOrder hall hl.valid ⟨models, h⟩

/-! ### Exports in order -/

/-- The models with the dictionaries in them in the order of their keys. -/
def inOrderModels (models : List (Text × ModelConfig)) : List (Text × ModelConfig) :=
  models.map fun e ↦ (e.1, e.2.inOrder)

def ModelRegistry.inOrder (registry : ModelRegistry) : ModelRegistry :=
  ⟨inOrderModels registry.models, registry.revision⟩

theorem parseEntry_inOrder_config {m : ModelConfig} (h : m.WellFormed N) :
    parseEntry N (.obj (inOrder m.config)) = .ok m.inOrder := by
  have hreorder : reorder (m.capabilities.map .arr) m.capabilities =
      m.capabilities.map (·.map sorted) := by
    cases m.capabilities <;> rfl
  rw [parseEntry_inOrder (isJson_config h) (lookup_providers m), parseEntry_config h,
    lookup_capabilities]
  change Except.ok { m.inOrder with capabilities := reorder (m.capabilities.map .arr) m.capabilities }
    = .ok m.inOrder
  rw [hreorder]
  rfl

theorem mapM_parseEntry_inOrder {models : List (Text × ModelConfig)}
    (h : ∀ e ∈ models, e.2.WellFormed N) :
    (models.map fun e ↦ Value.obj (inOrder e.2.config)).mapM (parseEntry N) =
      .ok (models.map fun e ↦ e.2.inOrder) := by
  induction models with
  | nil => rfl
  | cons e rest ih =>
      obtain ⟨he, hrest⟩ := List.forall_mem_cons.mp h
      rw [List.map_cons, List.mapM_cons, parseEntry_inOrder_config he, ih hrest]
      rfl

theorem named_inOrder {models : List (Text × ModelConfig)} (h : ∀ e ∈ models, e.1 = e.2.name) :
    named (models.map fun e ↦ e.2.inOrder) = inOrderModels models := by
  rw [named, List.map_map]
  exact List.map_congr_left fun e he ↦ Prod.ext (h e he).symm rfl

/-- An exported registry in the order of its keys has its models in order. -/
theorem modelsOf_inOrder_toConfig {models : List (Text × ModelConfig)} (h : WellFormed N models) :
    modelsOf isPrintable N (inOrder (toConfig models)) = .ok (inOrderModels models) := by
  have hjson := isJson_toConfig h
  have hmodels : modelsOf isPrintable N (toConfig models) = .ok models := modelsOf_toConfig h
  obtain ⟨errors, hvalidate, hparse⟩ := bind_ok_iff.mp hmodels
  cases errors with
  | cons e errors => cases hparse
  | nil =>
      rw [modelsOf, validate_inOrder hjson, hvalidate]
      have hentries : (inOrder (toConfig models)).lookup "models".toList =
          some (.arr (models.map fun e ↦ .obj (inOrder e.2.config))) := by
        have hlookup : (toConfig models).lookup "models".toList =
            some (.arr (models.map fun e ↦ .obj e.2.config)) := rfl
        rw [lookup_inOrder ((isJson_obj_iff N.read _).mp hjson).1, hlookup, Option.map_some,
          sorted_arr, List.map_map]
        rfl
      rw [hentries]
      change parseEntries N [] (models.map fun e : Text × ModelConfig ↦ .obj (inOrder e.2.config)) = _
      have hnodup : (([] ++ named (models.map fun e ↦ e.2.inOrder) : List (Text × ModelConfig)).map
          Prod.fst).Nodup := by
        rw [List.nil_append, named_inOrder h.names, inOrderModels, List.map_map]
        exact h.nodup
      rw [parseEntries_eq_ok (mapM_parseEntry_inOrder h.valid) hnodup, List.nil_append,
        named_inOrder h.names]

theorem inOrder_congr {fields fields' : Fields}
    (h : (fields.map fun field ↦ (field.1, sorted field.2)) =
      fields'.map fun field ↦ (field.1, sorted field.2)) : inOrder fields = inOrder fields' := by
  rw [inOrder, inOrder, sortedFields_eq_map, sortedFields_eq_map, h]

theorem sorted_config_mapping (m : ProviderModelMapping) :
    sorted (.obj m.inOrder.config) = sorted (.obj m.config) := by
  rw [sorted_obj, sorted_obj]
  apply congrArg Value.obj
  apply inOrder_congr
  obtain ⟨provider, modelId, weight, order, _ | pricing⟩ := m <;>
    simp [ProviderModelMapping.config, ProviderModelMapping.inOrder, sorted_sorted]

/-- The entry of a model in order is the entry of the model up to the order of its keys. -/
theorem sorted_config (m : ModelConfig) :
    sorted (.obj m.inOrder.config) = sorted (.obj m.config) := by
  have hproviders : ∀ providers : List ProviderModelMapping,
      ((providers.map ProviderModelMapping.inOrder).map fun m ↦ Value.obj m.config).map sorted =
        (providers.map fun m ↦ Value.obj m.config).map sorted := by
    intro providers
    rw [List.map_map, List.map_map, List.map_map]
    exact List.map_congr_left fun m _ ↦ sorted_config_mapping m
  have hitems : ∀ items : List Value, (items.map sorted).map sorted = items.map sorted := by
    intro items
    rw [List.map_map]
    exact List.map_congr_left fun v _ ↦ sorted_sorted v
  rw [sorted_obj, sorted_obj]
  apply congrArg Value.obj
  apply inOrder_congr
  obtain ⟨name, description, providers, strategy, _ | items, _ | v⟩ := m <;>
    simp only [ModelConfig.config, ModelConfig.inOrder, List.map_append, List.map_cons,
      List.map_nil, sorted_arr, sorted_str, sorted_sorted, hproviders, hitems, Option.toList_some,
      Option.toList_none, Option.map_some, Option.map_none]

theorem sorted_toConfig (models : List (Text × ModelConfig)) :
    sorted (.obj (toConfig (inOrderModels models))) = sorted (.obj (toConfig models)) := by
  have hentries : ((inOrderModels models).map fun e ↦ Value.obj e.2.config).map sorted =
      (models.map fun e ↦ Value.obj e.2.config).map sorted := by
    rw [inOrderModels, List.map_map, List.map_map, List.map_map]
    exact List.map_congr_left fun e _ ↦ sorted_config e.2
  rw [sorted_obj, sorted_obj]
  apply congrArg Value.obj
  apply inOrder_congr
  simp only [toConfig, List.map_cons, List.map_nil, sorted_arr, hentries]

/-! ### Snapshots -/

theorem replaceConfig_of_ok {config : Fields} {revision : ℤ} {models : List (Text × ModelConfig)}
    (hrevision : 0 ≤ revision) (h : modelsOf isPrintable N config = .ok models)
    (registry : ModelRegistry) : replaceConfig isPrintable N config revision registry =
      (.ok (), ⟨models, revision⟩) := by
  rw [replaceConfig, if_neg (not_lt.mpr hrevision), h]

/-- A snapshot is made of a finite document whose models can be taken. -/
theorem fromConfig_eq_ok_iff {config : Fields} {revision : ℤ} {s : RoutingConfigSnapshot} :
    fromConfig isPrintable N sha256 config revision = .ok s ↔
      0 ≤ revision ∧ Returns (modelsOf isPrintable N config) ∧ finite (.obj config) = true ∧
        s = ⟨revision, canonical (.obj config), sha256 (canonical (.obj config))⟩ := by
  unfold fromConfig
  split_ifs with hrevision
  · constructor
    · rintro ⟨⟩
    · exact fun h ↦ absurd h.1 (not_le.mpr hrevision)
  · rw [bind_ok_iff, replaceConfig, if_neg hrevision]
    cases hmodels : modelsOf isPrintable N config with
    | error e =>
        constructor
        · rintro ⟨_, ⟨⟩, _⟩
        · rintro ⟨-, ⟨_, ⟨⟩⟩, -⟩
    | ok models =>
        cases hdump : dumpsFinite (.obj config) with
        | none =>
            constructor
            · rintro ⟨_, _, ⟨⟩⟩
            · rintro ⟨-, -, hfinite, -⟩
              rw [dumpsFinite, if_pos hfinite] at hdump
              cases hdump
        | some document =>
            obtain ⟨hfinite, rfl⟩ := dumpsFinite_eq_some_iff.mp hdump
            constructor
            · rintro ⟨_, _, h⟩
              exact ⟨not_lt.mp hrevision, ⟨models, rfl⟩, hfinite, (Except.ok.inj h).symm⟩
            · rintro ⟨-, -, -, rfl⟩
              exact ⟨(), rfl, rfl⟩

/-- A snapshot of a document is read back, and it is adopted as the models of the document in the
order of its keys. -/
theorem snapshot_of_config (hsha : ∀ t, isSha256 (sha256 t) = true) {config : Fields} {revision : ℤ}
    {s : RoutingConfigSnapshot} (hjson : IsJson N.read (.obj config))
    (h : fromConfig isPrintable N sha256 config revision = .ok s) :
    fromDocument isPrintable N sha256 s.document s.revision s.sha256 = .ok s ∧
      ∃ models, modelsOf isPrintable N (inOrder config) = .ok models ∧
        ∀ registry, s.apply isPrintable N registry = (.ok (), ⟨models, s.revision⟩) := by
  obtain ⟨hrevision, hmodels, hfinite, rfl⟩ := fromConfig_eq_ok_iff.mp h
  obtain ⟨models, hmodels⟩ := returns_modelsOf_inOrder hjson hmodels
  have hloads := hjson.loads_canonical hfinite
  rw [sorted_obj] at hloads
  refine ⟨?_, models, hmodels, fun registry ↦ ?_⟩
  · have hagain : fromConfig isPrintable N sha256 (inOrder config) revision =
        .ok ⟨revision, canonical (.obj config), sha256 (canonical (.obj config))⟩ := by
      refine fromConfig_eq_ok_iff.mpr ⟨hrevision, ⟨models, hmodels⟩, ?_, ?_⟩
      · rw [← sorted_obj, finite_sorted, hfinite]
      · rw [← sorted_obj, canonical_sorted]
    unfold fromDocument
    rw [if_pos (hsha _), hloads]
    dsimp only
    rw [hagain]
    change (if _ then _ else _) = _
    rw [if_pos ⟨rfl, rfl⟩]
  · unfold RoutingConfigSnapshot.apply
    rw [hloads]
    exact replaceConfig_of_ok hrevision hmodels registry

/-- The registries that come of replacing documents and of adopting published snapshots. -/
inductive Reached (isPrintable : Char → Bool) (N : Numbers) (sha256 : Text → Text) :
    ModelRegistry → Prop
  | start : Reached isPrintable N sha256 ⟨[], 0⟩
  | replaced {registry : ModelRegistry} (h : Reached isPrintable N sha256 registry) (config : Fields)
      (hjson : IsJson N.read (.obj config)) (revision : ℤ) :
      Reached isPrintable N sha256 (replaceConfig isPrintable N config revision registry).2
  | applied {registry : ModelRegistry} (h : Reached isPrintable N sha256 registry) {config : Fields}
      (hjson : IsJson N.read (.obj config)) {revision : ℤ} {s : RoutingConfigSnapshot}
      (hs : fromConfig isPrintable N sha256 config revision = .ok s) :
      Reached isPrintable N sha256 (s.apply isPrintable N registry).2

/-- A reached registry is well formed. -/
theorem Reached.wellFormed {registry : ModelRegistry}
    (h : Reached isPrintable N sha256 registry) :
    WellFormed N registry.models ∧ 0 ≤ registry.revision := by
  have hreplaced : ∀ {registry : ModelRegistry} {config : Fields} (revision : ℤ),
      IsJson N.read (.obj config) → WellFormed N registry.models ∧ 0 ≤ registry.revision →
      WellFormed N (replaceConfig isPrintable N config revision registry).2.models ∧
        0 ≤ (replaceConfig isPrintable N config revision registry).2.revision := by
    intro registry config revision hjson ih
    unfold replaceConfig
    split_ifs with hrevision
    · exact ih
    · cases hmodels : modelsOf isPrintable N config with
      | error e => exact ih
      | ok models => exact ⟨wellFormed_of_modelsOf hjson hmodels, not_lt.mp hrevision⟩
  induction h with
  | start => exact ⟨⟨by simp, List.nodup_nil, by simp⟩, le_rfl⟩
  | replaced _ config hjson revision ih => exact hreplaced revision hjson ih
  | applied _ hjson hs ih =>
      obtain ⟨-, -, hfinite, rfl⟩ := fromConfig_eq_ok_iff.mp hs
      have hloads := hjson.loads_canonical hfinite
      have hsorted := hjson.sorted
      rw [sorted_obj] at hloads hsorted
      unfold RoutingConfigSnapshot.apply
      rw [hloads]
      exact hreplaced _ hsorted ih

/-- Every reached registry whose values are finite can be published, and no other; what it publishes
is read back as it is, adopted by every registry with the same models in the same order, and published
again by those that adopt it. -/
theorem Reached.snapshot (hsha : ∀ t, isSha256 (sha256 t) = true) {registry : ModelRegistry}
    (h : Reached isPrintable N sha256 registry) :
    (Returns (fromRegistry isPrintable N sha256 registry) ↔
      finite (.obj (toConfig registry.models)) = true) ∧
    ∀ s, fromRegistry isPrintable N sha256 registry = .ok s →
      fromDocument isPrintable N sha256 s.document s.revision s.sha256 = .ok s ∧
      (∀ other, s.apply isPrintable N other = (.ok (), registry.inOrder)) ∧
      fromRegistry isPrintable N sha256 registry.inOrder = .ok s := by
  obtain ⟨hwell, hrevision⟩ := h.wellFormed
  have hmodels : modelsOf isPrintable N (toConfig registry.models) = .ok registry.models :=
    modelsOf_toConfig hwell
  have hjson := isJson_toConfig hwell
  refine ⟨⟨?_, fun hfinite ↦ ?_⟩, fun s hs ↦ ?_⟩
  · rintro ⟨s, hs⟩
    exact (fromConfig_eq_ok_iff.mp hs).2.2.1
  · exact ⟨_, fromConfig_eq_ok_iff.mpr ⟨hrevision, ⟨_, hmodels⟩, hfinite, rfl⟩⟩
  · obtain ⟨hread, models, hordered, happly⟩ := snapshot_of_config hsha hjson hs
    obtain ⟨-, -, hfinite, rfl⟩ := fromConfig_eq_ok_iff.mp hs
    rw [modelsOf_inOrder_toConfig hwell] at hordered
    obtain rfl := Except.ok.inj hordered
    refine ⟨hread, happly, fromConfig_eq_ok_iff.mpr ⟨hrevision, ?_, ?_, ?_⟩⟩
    · have hsorted := hjson.sorted
      have hordered : modelsOf isPrintable N (JsonText.inOrder (toConfig registry.models)) =
          .ok (inOrderModels registry.models) := modelsOf_inOrder_toConfig hwell
      rw [sorted_obj] at hsorted
      exact ⟨_, modelsOf_toConfig (wellFormed_of_modelsOf hsorted hordered)⟩
    · rw [← finite_sorted, ModelRegistry.inOrder, sorted_toConfig, finite_sorted, hfinite]
    · have hcanonical : canonical (.obj (toConfig (inOrderModels registry.models))) =
          canonical (.obj (toConfig registry.models)) := by
        rw [canonical, canonical, sorted_toConfig]
      rw [ModelRegistry.inOrder, hcanonical]

/-! ### Two plain models -/

def plainModel (name : Text) : Fields :=
  [("name".toList, .str name), ("description".toList, .str "chat".toList),
    ("capabilities".toList, .arr [.str "chat".toList]),
    ("providers".toList, .arr [.obj [("provider".toList, .str "openai".toList),
      ("model_id".toList, .str name), ("weight".toList, .number "0.5".toList)]])]

def plainConfig : Fields :=
  [("models".toList, .arr [.obj (plainModel "small".toList), .obj (plainModel "large".toList)])]

def zeros (_ : Text) : Text := List.replicate 64 '0'

theorem isSha256_zeros (t : Text) : isSha256 (zeros t) = true := rfl

theorem isJson_plainModel (name : Text) : IsJson plainNumbers.read (.obj (plainModel name)) := by
  have hweight : IsJson plainNumbers.read (.number "0.5".toList) := ⟨rfl, rfl⟩
  simp only [plainModel, isJson_obj_iff, isJson_arr_iff, List.forall_mem_cons, isJson_str, hweight]
  simp

theorem isJson_plainConfig : IsJson plainNumbers.read (.obj plainConfig) :=
  isJson_models (by simp [isJson_plainModel])

def plainRegistry : ModelRegistry :=
  (replaceConfig (fun _ ↦ true) plainNumbers plainConfig 1 ⟨[], 0⟩).2

theorem reached_plainRegistry : Reached (fun _ ↦ true) plainNumbers zeros plainRegistry :=
  .replaced .start plainConfig isJson_plainConfig 1

theorem plainRegistry_snapshot :
    Returns (fromRegistry (fun _ ↦ true) plainNumbers zeros plainRegistry) ∧
    ∀ s, fromRegistry (fun _ ↦ true) plainNumbers zeros plainRegistry = .ok s →
      fromDocument (fun _ ↦ true) plainNumbers zeros s.document s.revision s.sha256 = .ok s ∧
      (∀ other, s.apply (fun _ ↦ true) plainNumbers other = (.ok (), plainRegistry.inOrder)) ∧
      fromRegistry (fun _ ↦ true) plainNumbers zeros plainRegistry.inOrder = .ok s :=
  ⟨(Reached.snapshot isSha256_zeros reached_plainRegistry).1.mpr rfl,
    (Reached.snapshot isSha256_zeros reached_plainRegistry).2⟩

end AxonGateway.Registry
