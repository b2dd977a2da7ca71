import AxonGateway.Registry.Validity

/-!
# Models and their entries

What is parsed from a valid document is well formed, and the exported entry of a well-formed model is
valid and parsed as the same model.
-/

namespace AxonGateway.Registry

open PyValue Screening Adapters JsonText Outcome

variable {N : Numbers} {isPrintable : Char → Bool}

/-! ### Well-formed models -/

/-- A finite number is spelled as Python spells it. -/
def Double.WellFormed (N : Numbers) (d : Double) : Prop := ∀ t, d = .finite t → IsRepr N.decimal t

structure TokenPricing.WellFormed (N : Numbers) (pricing : TokenPricing) : Prop where
  prompt : pricing.promptTokenCost.WellFormed N
  completion : pricing.completionTokenCost.WellFormed N

structure ProviderModelMapping.WellFormed (N : Numbers) (m : ProviderModelMapping) : Prop where
  provider : m.provider ∈ validProviders
  modelId : IsJson N.read m.modelId
  truthy : m.modelId.truthy = true
  weight : m.weight.WellFormed N
  pricing : ∀ pricing ∈ m.pricing, pricing.WellFormed N

structure ModelConfig.WellFormed (N : Numbers) (m : ModelConfig) : Prop where
  named : m.name ≠ []
  description : IsJson N.read m.description
  truthy : m.description.truthy = true
  provided : m.providers ≠ []
  providers : ∀ mapping ∈ m.providers, mapping.WellFormed N
  capabilities : ∀ items ∈ m.capabilities, ∀ v ∈ items, IsJson N.read v
  maxContextTokens : ∀ v ∈ m.maxContextTokens, IsJson N.read v ∧ isPositiveInt v = true

/-- Every model stands under its own name, and no name stands twice. -/
structure WellFormed (N : Numbers) (models : List (Text × ModelConfig)) : Prop where
  names : ∀ e ∈ models, e.1 = e.2.name
  nodup : (models.map Prod.fst).Nodup
  valid : ∀ e ∈ models, e.2.WellFormed N

/-! ### Parsing gives well-formed models -/

theorem wellFormed_of_float {v : Value} {d : Double} (hv : IsJson N.read v) (h : N.float v = .ok d) :
    d.WellFormed N := by
  rintro t rfl
  exact Numbers.isRepr_of_float hv h

theorem isJson_of_getItem {v w : Value} {key : String} (hv : IsJson N.read v)
    (h : getItem v key = .ok w) : IsJson N.read w := by
  cases v with
  | obj fields =>
      rw [getItem] at h
      cases hlookup : fields.lookup key.toList with
      | none =>
          rw [hlookup] at h
          cases h
      | some w' =>
          rw [hlookup] at h
          obtain rfl := Except.ok.inj h
          exact isJson_of_lookup hv hlookup
  | _ => cases h

theorem wellFormed_of_parsePricing {pricing : Option Value} {p : Option TokenPricing}
    (hjson : ∀ v ∈ pricing, IsJson N.read v) (h : parsePricing N pricing = .ok p) :
    ∀ q ∈ p, q.WellFormed N := by
  cases pricing with
  | none =>
      obtain rfl := Except.ok.inj h
      simp
  | some v =>
      obtain ⟨prompt, hprompt, h⟩ := bind_ok_iff.mp h
      obtain ⟨completion, hcompletion, h⟩ := bind_ok_iff.mp h
      obtain rfl := Except.ok.inj h
      obtain ⟨w, hw, hprompt⟩ := bind_ok_iff.mp hprompt
      obtain ⟨w', hw', hcompletion⟩ := bind_ok_iff.mp hcompletion
      have hv : IsJson N.read v := hjson v rfl
      rintro q hq
      obtain rfl := Option.some.inj hq
      exact ⟨wellFormed_of_float (isJson_of_getItem hv hw) hprompt,
        wellFormed_of_float (isJson_of_getItem hv hw') hcompletion⟩

theorem isJson_getOr {fields : Fields} (h : IsJson N.read (.obj fields)) (key : Text) {v : Value}
    (hv : IsJson N.read v) : IsJson N.read (getOr fields key v) := by
  unfold getOr
  cases hlookup : fields.lookup key with
  | none => exact hv
  | some w => exact isJson_of_lookup h hlookup

theorem getItem_obj {fields : Fields} {key : String} {v : Value}
    (h : fields.lookup key.toList = some v) : getItem (.obj fields) key = .ok v := by
  rw [getItem, h]
  rfl

theorem lookup_of_getItem {fields : Fields} {key : String} {v : Value}
    (h : getItem (.obj fields) key = .ok v) : fields.lookup key.toList = some v := by
  rw [getItem] at h
  cases hlookup : fields.lookup key.toList with
  | none =>
      rw [hlookup] at h
      cases h
  | some w =>
      rw [hlookup] at h
      rw [Except.ok.inj h]

theorem wellFormed_of_parseProvider {prov : Fields} {m : ProviderModelMapping}
    (hjson : IsJson N.read (.obj prov)) (hvalid : ValidProvider prov)
    (h : parseProvider N (.obj prov) = .ok m) : m.WellFormed N := by
  obtain ⟨_, hfields, h⟩ := bind_ok_iff.mp h
  obtain rfl := Except.ok.inj hfields
  obtain ⟨pricing, hpricing, h⟩ := bind_ok_iff.mp h
  obtain ⟨name, hname, h⟩ := bind_ok_iff.mp h
  obtain ⟨provider, hprovider, h⟩ := bind_ok_iff.mp h
  obtain ⟨modelId, hmodelId, h⟩ := bind_ok_iff.mp h
  obtain ⟨weight, hweight, h⟩ := bind_ok_iff.mp h
  obtain ⟨order, -, h⟩ := bind_ok_iff.mp h
  obtain rfl := Except.ok.inj h
  obtain ⟨t, ht, hlookup⟩ := hvalid.provider
  rw [getItem_obj hlookup] at hname
  obtain rfl := Except.ok.inj hname
  obtain rfl := Except.ok.inj hprovider
  have htruthy := hvalid.modelId
  rw [lookup_of_getItem hmodelId] at htruthy
  exact {
    provider := ht
    modelId := isJson_of_getItem hjson hmodelId
    truthy := htruthy
    weight := wellFormed_of_float
      (isJson_getOr hjson _ (Numbers.isJson_of_isRepr N.isRepr_one)) hweight
    pricing := wellFormed_of_parsePricing
      (fun v hv ↦ isJson_of_lookup hjson hv) hpricing }

theorem wellFormed_of_parseProviders {items : List Fields} {providers : List ProviderModelMapping}
    (hjson : ∀ prov ∈ items, IsJson N.read (.obj prov)) (hvalid : ∀ prov ∈ items, ValidProvider prov)
    (h : parseProviders N (items.map .obj) = .ok providers) :
    (∀ m ∈ providers, m.WellFormed N) ∧ providers.length = items.length := by
  induction items generalizing providers with
  | nil =>
      obtain rfl := Except.ok.inj h
      simp
  | cons prov rest ih =>
      rw [List.forall_mem_cons] at hjson hvalid
      obtain ⟨m, hm, h⟩ := bind_ok_iff.mp h
      obtain ⟨later, hlater, h⟩ := bind_ok_iff.mp h
      obtain rfl := Except.ok.inj h
      obtain ⟨hrest, hlength⟩ := ih hjson.2 hvalid.2 hlater
      exact ⟨List.forall_mem_cons.mpr
        ⟨wellFormed_of_parseProvider hjson.1 hvalid.1 hm, hrest⟩, congrArg (· + 1) hlength⟩

theorem isJson_of_parseCapabilities {capabilities : Option Value} {c : Option (List Value)}
    (hjson : ∀ v ∈ capabilities, IsJson N.read v) (h : parseCapabilities capabilities = .ok c) :
    ∀ items ∈ c, ∀ v ∈ items, IsJson N.read v := by
  cases capabilities with
  | none =>
      obtain rfl := Except.ok.inj h
      simp
  | some v =>
      have hv : IsJson N.read v := hjson v rfl
      cases v with
      | null =>
          obtain rfl := Except.ok.inj h
          simp
      | arr list =>
          obtain rfl := Except.ok.inj h
          simpa using (isJson_arr_iff N.read list).mp hv
      | str t =>
          obtain rfl := Except.ok.inj h
          simp [IsJson]
      | obj fields =>
          obtain rfl := Except.ok.inj h
          intro items hitems w hw
          obtain rfl := Option.some.inj hitems
          obtain ⟨field, -, rfl⟩ := List.mem_map.mp hw
          trivial
      | _ => cases h

/-- A valid entry is parsed as a well-formed model. -/
theorem wellFormed_of_parseEntry {entry : Fields} {name : Text} {m : ModelConfig}
    (hjson : IsJson N.read (.obj entry)) (hvalid : ValidEntry entry name)
    (h : parseEntry N (.obj entry) = .ok m) : m.WellFormed N ∧ m.name = name := by
  obtain ⟨_, hfields, h⟩ := bind_ok_iff.mp h
  obtain rfl := Except.ok.inj hfields
  obtain ⟨strategy, -, h⟩ := bind_ok_iff.mp h
  obtain ⟨list, hlist, h⟩ := bind_ok_iff.mp h
  obtain ⟨items, hitems, h⟩ := bind_ok_iff.mp h
  obtain ⟨providers, hproviders, h⟩ := bind_ok_iff.mp h
  obtain ⟨capabilities, hcapabilities, h⟩ := bind_ok_iff.mp h
  obtain ⟨nameValue, hname, h⟩ := bind_ok_iff.mp h
  obtain ⟨t, ht, h⟩ := bind_ok_iff.mp h
  obtain ⟨description, hdescription, h⟩ := bind_ok_iff.mp h
  obtain rfl := Except.ok.inj h
  obtain ⟨provs, hne, hprovs, hlookup⟩ := hvalid.providers
  rw [getItem_obj hlookup] at hlist
  obtain rfl := Except.ok.inj hlist
  obtain rfl := Except.ok.inj hitems
  rw [getItem_obj hvalid.name] at hname
  obtain rfl := Except.ok.inj hname
  obtain rfl := Except.ok.inj ht
  have hprovsJson : ∀ prov ∈ provs, IsJson N.read (.obj prov) := by
    have hall := (isJson_arr_iff N.read _).mp (isJson_of_lookup hjson hlookup)
    rwa [List.forall_mem_map] at hall
  obtain ⟨hwell, hlength⟩ := wellFormed_of_parseProviders hprovsJson hprovs hproviders
  have htruthy := hvalid.description
  rw [lookup_of_getItem hdescription] at htruthy
  refine ⟨{
    named := hvalid.named
    description := isJson_of_getItem hjson hdescription
    truthy := htruthy
    provided := ?_
    providers := hwell
    capabilities := isJson_of_parseCapabilities
      (fun v hv ↦ isJson_of_lookup hjson hv) hcapabilities
    maxContextTokens := ?_ }, rfl⟩
  · rintro rfl
    exact hne (List.length_eq_zero_iff.mp hlength.symm)
  · intro v hv
    obtain ⟨hv, hnull⟩ := Option.mem_filter_iff.mp hv
    refine ⟨isJson_of_lookup hjson hv, ?_⟩
    have htokens := hvalid.maxContextTokens
    rw [hv, Option.getD_some] at htokens
    apply htokens.resolve_left
    simpa using hnull

/-! ### Parsing a document -/

/-- Models under their names. -/
def named (configs : List ModelConfig) : List (Text × ModelConfig) := configs.map fun m ↦ (m.name, m)

theorem keys_named (configs : List ModelConfig) :
    (named configs).map Prod.fst = configs.map ModelConfig.name := by
  rw [named, List.map_map]
  rfl

/-- Entries with distinct names that are not taken come one after the other. -/
theorem parseEntries_eq_ok {models : List (Text × ModelConfig)} {entries : List Value}
    {configs : List ModelConfig} (h : entries.mapM (parseEntry N) = .ok configs)
    (hnodup : ((models ++ named configs).map Prod.fst).Nodup) :
    parseEntries N models entries = .ok (models ++ named configs) := by
  induction entries generalizing models configs with
  | nil =>
      rw [List.mapM_nil] at h
      obtain rfl := Except.ok.inj h
      rw [named, List.map_nil, List.append_nil]
      rfl
  | cons entry rest ih =>
      rw [List.mapM_cons] at h
      obtain ⟨m, hm, h⟩ := bind_ok_iff.mp h
      obtain ⟨later, hlater, h⟩ := bind_ok_iff.mp h
      obtain rfl := Except.ok.inj h
      have hsplit : models ++ named (m :: later) = (models ++ [(m.name, m)]) ++ named later := by
        rw [List.append_assoc]
        rfl
      rw [hsplit] at hnodup ⊢
      have hfresh : models.lookup m.name = none := by
        rw [List.lookup_eq_none_iff]
        intro e he
        simp only [List.map_append, List.map_cons, List.map_nil, List.nodup_append] at hnodup
        have hne := hnodup.1.2.2 e.1 (List.mem_map_of_mem he) m.name (List.mem_singleton_self _)
        exact bne_iff_ne.mpr (Ne.symm hne)
      rw [parseEntries, hm]
      change parseEntries N (set models m.name m) rest = _
      rw [set_of_lookup_eq_none hfresh]
      exact ih hlater hnodup

theorem mapM_eq_ok_of_parseEntries {models models' : List (Text × ModelConfig)} {entries : List Value}
    (h : parseEntries N models entries = .ok models') :
    ∃ configs, entries.mapM (parseEntry N) = .ok configs := by
  induction entries generalizing models with
  | nil => exact ⟨[], rfl⟩
  | cons entry rest ih =>
      obtain ⟨m, hm, h⟩ := bind_ok_iff.mp h
      obtain ⟨later, hlater⟩ := ih h
      refine ⟨m :: later, ?_⟩
      rw [List.mapM_cons, hm, hlater]
      rfl

theorem wellFormed_of_mapM {l : List (Fields × Text)} {configs : List ModelConfig}
    (hjson : ∀ e ∈ l, IsJson N.read (.obj e.1)) (hvalid : ∀ e ∈ l, ValidEntry e.1 e.2)
    (h : (l.map fun e ↦ Value.obj e.1).mapM (parseEntry N) = .ok configs) :
    (∀ m ∈ configs, m.WellFormed N) ∧ configs.map ModelConfig.name = l.map Prod.snd := by
  induction l generalizing configs with
  | nil =>
      obtain rfl := Except.ok.inj h
      simp
  | cons e rest ih =>
      rw [List.forall_mem_cons] at hjson hvalid
      rw [List.map_cons, List.mapM_cons] at h
      obtain ⟨m, hm, h⟩ := bind_ok_iff.mp h
      obtain ⟨later, hlater, h⟩ := bind_ok_iff.mp h
      obtain rfl := Except.ok.inj h
      obtain ⟨hwell, hname⟩ := wellFormed_of_parseEntry hjson.1 hvalid.1 hm
      obtain ⟨hrest, hnames⟩ := ih hjson.2 hvalid.2 hlater
      refine ⟨List.forall_mem_cons.mpr ⟨hwell, hrest⟩, ?_⟩
      rw [List.map_cons, List.map_cons, hname, hnames]

/-- The models of a document are the parsed entries of a document without errors. -/
theorem modelsOf_eq_ok_iff {config : Fields} {models : List (Text × ModelConfig)}
    (hjson : IsJson N.read (.obj config)) : modelsOf isPrintable N config = .ok models ↔
      ∃ (l : List (Fields × Text)) (configs : List ModelConfig), ValidEntries [] l ∧
        config.lookup "models".toList = some (.arr (l.map fun e ↦ .obj e.1)) ∧
        (l.map fun e ↦ Value.obj e.1).mapM (parseEntry N) = .ok configs ∧ models = named configs := by
  have hentries : ∀ l : List (Fields × Text),
      config.lookup "models".toList = some (.arr (l.map fun e ↦ .obj e.1)) →
      ∀ e ∈ l, IsJson N.read (.obj e.1) := by
    intro l hlookup
    have hall := (isJson_arr_iff N.read _).mp (isJson_of_lookup hjson hlookup)
    rwa [List.forall_mem_map] at hall
  have hparsed : ∀ {l : List (Fields × Text)} {configs : List ModelConfig}, ValidEntries [] l →
      config.lookup "models".toList = some (.arr (l.map fun e ↦ .obj e.1)) →
      (l.map fun e ↦ Value.obj e.1).mapM (parseEntry N) = .ok configs →
      parseEntries N [] (l.map fun e ↦ .obj e.1) = .ok (named configs) := by
    intro l configs hl hlookup hconfigs
    have hnames := (wellFormed_of_mapM (hentries l hlookup) hl.valid hconfigs).2
    have hnodup := hl.nodup
    rw [← hnames, ← keys_named] at hnodup
    exact parseEntries_eq_ok hconfigs hnodup
  rw [modelsOf, bind_ok_iff]
  constructor
  · rintro ⟨errors, hvalidate, h⟩
    cases errors with
    | cons e errors => cases h
    | nil =>
        obtain ⟨l, hl, hlookup⟩ := validate_eq_nil_iff.mp hvalidate
        rw [hlookup] at h
        change parseEntries N [] (l.map fun e ↦ .obj e.1) = .ok models at h
        obtain ⟨configs, hconfigs⟩ := mapM_eq_ok_of_parseEntries h
        rw [hparsed hl hlookup hconfigs] at h
        exact ⟨l, configs, hl, hlookup, hconfigs, (Except.ok.inj h).symm⟩
  · rintro ⟨l, configs, hl, hlookup, hconfigs, rfl⟩
    refine ⟨[], validate_eq_nil_iff.mpr ⟨l, hl, hlookup⟩, ?_⟩
    rw [hlookup]
    exact hparsed hl hlookup hconfigs

/-- What is parsed from a document is well formed. -/
theorem wellFormed_of_modelsOf {config : Fields} {models : List (Text × ModelConfig)}
    (hjson : IsJson N.read (.obj config)) (h : modelsOf isPrintable N config = .ok models) :
    WellFormed N models := by
  obtain ⟨l, configs, hl, hlookup, hconfigs, rfl⟩ := (modelsOf_eq_ok_iff hjson).mp h
  have hall := (isJson_arr_iff N.read _).mp (isJson_of_lookup hjson hlookup)
  rw [List.forall_mem_map] at hall
  obtain ⟨hwell, hnames⟩ := wellFormed_of_mapM hall hl.valid hconfigs
  refine ⟨?_, ?_, ?_⟩
  · simp [named]
  · rw [keys_named, hnames]
    exact hl.nodup
  · simpa [named] using hwell

end AxonGateway.Registry
