import AxonGateway.Registry.Export

/-!
# Documents in the order of their keys

A document in the order of its keys has the errors of the document, and its entries are parsed as the
same models with the dictionaries in them in order.
-/

namespace AxonGateway.Registry

open PyValue Screening Adapters JsonText Outcome

variable {N : Numbers} {isPrintable : Char → Bool} {pre : Text} {seen : List Text}

/-! ### Validation -/

theorem hashable_sorted (v : Value) : hashable (sorted v) = hashable v := by
  cases v with
  | arr items =>
      rw [sorted_arr]
      rfl
  | _ => rfl

theorem sorted_of_hashable {v : Value} (h : hashable v = true) : sorted v = v := by
  cases v with
  | arr items => cases h
  | obj fields => cases h
  | _ => rfl

theorem getD_map_sorted (v : Option Value) : (v.map sorted).getD .null = sorted (v.getD .null) := by
  cases v <;> rfl

theorem truthy_getD_sorted (v : Option Value) :
    ((v.map sorted).getD .null).truthy = (v.getD .null).truthy := by
  rw [getD_map_sorted, truthy_sorted]

theorem contains_of_not_hashable {names : List Text} {v : Value} (h : hashable v = false) :
    contains names v = .error .typeError := by
  rw [contains, h]
  rfl

theorem validateRequired_sorted (key : String) (v : Option Value) :
    validateRequired pre key (v.map sorted) = validateRequired pre key v := by
  unfold validateRequired
  rw [truthy_getD_sorted]

theorem validateName_sorted (name : Option Value) :
    validateName pre seen (name.map sorted) = validateName pre seen name := by
  cases name with
  | none => rfl
  | some v =>
      cases v with
      | arr items =>
          rw [Option.map_some, validateName_of_ne (by simp), validateName_of_ne (by simp),
            truthy_sorted]
      | obj fields =>
          rw [Option.map_some, validateName_of_ne (by simp), validateName_of_ne (by simp),
            truthy_sorted]
      | _ => rfl

theorem validateStrategy_sorted (strategy : Option Value) :
    validateStrategy isPrintable pre (strategy.map sorted) =
      validateStrategy isPrintable pre strategy := by
  unfold validateStrategy
  rw [getD_map_sorted]
  cases hhash : hashable (strategy.getD .null) with
  | true => rw [sorted_of_hashable hhash]
  | false =>
      have hsorted := (hashable_sorted (strategy.getD .null)).trans hhash
      revert hhash hsorted
      generalize strategy.getD .null = v
      intro hhash hsorted
      cases v with
      | arr items =>
          rw [sorted_arr]
          rfl
      | obj fields => rfl
      | _ => cases hhash

theorem isPositiveInt_sorted (v : Value) : isPositiveInt (sorted v) = isPositiveInt v := by
  cases v with
  | arr items =>
      rw [sorted_arr]
      rfl
  | _ => rfl

theorem isNull_sorted (v : Value) : isNull (sorted v) = isNull v := by
  cases v with
  | arr items =>
      rw [sorted_arr]
      rfl
  | _ => rfl

theorem validateMaxContextTokens_sorted (v : Option Value) :
    validateMaxContextTokens pre (v.map sorted) = validateMaxContextTokens pre v := by
  unfold validateMaxContextTokens
  rw [getD_map_sorted, isNull_sorted, isPositiveInt_sorted]

theorem validateProviderName_sorted (provider : Option Value) :
    validateProviderName isPrintable pre (provider.map sorted) =
      validateProviderName isPrintable pre provider := by
  unfold validateProviderName
  rw [truthy_getD_sorted, validateRequired_sorted, getD_map_sorted]
  cases hhash : hashable (provider.getD .null) with
  | true => rw [sorted_of_hashable hhash]
  | false =>
      rw [contains_of_not_hashable hhash,
        contains_of_not_hashable ((hashable_sorted _).trans hhash)]
      rfl

theorem validateProvider_sorted {prov : Value} (h : IsJson N.read prov) :
    validateProvider isPrintable pre (sorted prov) = validateProvider isPrintable pre prov := by
  cases prov with
  | obj fields =>
      have hnodup := ((isJson_obj_iff N.read fields).mp h).1
      rw [sorted_obj, validateProvider, validateProvider, lookup_inOrder hnodup,
        lookup_inOrder hnodup, validateProviderName_sorted, validateRequired_sorted]
  | arr items =>
      rw [sorted_arr]
      rfl
  | _ => rfl

theorem validateProviderList_sorted {providers : List Value}
    (h : ∀ prov ∈ providers, IsJson N.read prov) (pidx : ℕ) :
    validateProviderList isPrintable pre pidx (providers.map sorted) =
      validateProviderList isPrintable pre pidx providers := by
  induction providers generalizing pidx with
  | nil => rfl
  | cons prov rest ih =>
      obtain ⟨hprov, hrest⟩ := List.forall_mem_cons.mp h
      rw [List.map_cons, validateProviderList, validateProviderList, validateProvider_sorted hprov,
        ih hrest]

theorem validateProviders_sorted {providers : Option Value}
    (h : ∀ v ∈ providers, IsJson N.read v) :
    validateProviders isPrintable pre (providers.map sorted) =
      validateProviders isPrintable pre providers := by
  cases providers with
  | none => rfl
  | some v =>
      cases v with
      | arr items =>
          have hitems := (isJson_arr_iff N.read items).mp (h _ rfl)
          rw [Option.map_some, sorted_arr]
          cases items with
          | nil => rfl
          | cons prov rest => exact validateProviderList_sorted hitems 0
      | _ => rfl

theorem validateEntry_sorted {entry : Value} (h : IsJson N.read entry) :
    validateEntry isPrintable pre seen (sorted entry) =
      validateEntry isPrintable pre seen entry := by
  cases entry with
  | obj fields =>
      have hnodup := ((isJson_obj_iff N.read fields).mp h).1
      rw [sorted_obj, validateEntry, validateEntry]
      simp only [lookup_inOrder hnodup, validateName_sorted, validateRequired_sorted,
        validateStrategy_sorted, validateMaxContextTokens_sorted,
        validateProviders_sorted fun v hv ↦ isJson_of_lookup h hv]
  | arr items =>
      rw [sorted_arr]
      rfl
  | _ => rfl

theorem validateEntries_sorted {entries : List Value} (h : ∀ entry ∈ entries, IsJson N.read entry)
    (idx : ℕ) : validateEntries isPrintable idx seen (entries.map sorted) =
      validateEntries isPrintable idx seen entries := by
  induction entries generalizing idx seen with
  | nil => rfl
  | cons entry rest ih =>
      obtain ⟨hentry, hrest⟩ := List.forall_mem_cons.mp h
      rw [List.map_cons, validateEntries, validateEntries, validateEntry_sorted hentry]
      simp only [ih hrest]

/-- A document in the order of its keys has the errors of the document. -/
theorem validate_inOrder {config : Fields} (h : IsJson N.read (.obj config)) :
    validate isPrintable (inOrder config) = validate isPrintable config := by
  have hnodup := ((isJson_obj_iff N.read config).mp h).1
  unfold validate
  rw [lookup_inOrder hnodup, getD_map_sorted]
  cases hlookup : config.lookup "models".toList with
  | none => rfl
  | some v =>
      have hv := isJson_of_lookup h hlookup
      cases v with
      | arr entries =>
          rw [Option.getD_some, sorted_arr]
          exact validateEntries_sorted ((isJson_arr_iff N.read entries).mp hv) 0
      | _ => rfl

/-! ### Parsing -/

def ProviderModelMapping.inOrder (m : ProviderModelMapping) : ProviderModelMapping :=
  { m with modelId := sorted m.modelId }

/-- The model with the dictionaries in it in the order of their keys. -/
def ModelConfig.inOrder (m : ModelConfig) : ModelConfig where
  name := m.name
  description := sorted m.description
  providers := m.providers.map ProviderModelMapping.inOrder
  routingStrategy := m.routingStrategy
  capabilities := m.capabilities.map (·.map sorted)
  maxContextTokens := m.maxContextTokens.map sorted

/-- A list from a dictionary has the keys in their order. -/
def reorder (capabilities : Option Value) (items : Option (List Value)) : Option (List Value) :=
  match capabilities with
  | some (.obj fields) => some ((JsonText.inOrder fields).map fun field ↦ .str field.1)
  | _ => items.map (·.map sorted)

theorem getItem_sorted {v : Value} (h : IsJson N.read v) (key : String) :
    getItem (sorted v) key = (getItem v key).map sorted := by
  cases v with
  | obj fields =>
      rw [sorted_obj, getItem, getItem, lookup_inOrder ((isJson_obj_iff N.read fields).mp h).1]
      cases fields.lookup key.toList <;> rfl
  | arr items =>
      rw [sorted_arr]
      rfl
  | _ => rfl

theorem float_sorted (v : Value) : N.float (sorted v) = N.float v := by
  cases v with
  | arr items =>
      rw [sorted_arr]
      rfl
  | _ => rfl

theorem int_sorted (v : Value) : N.int (sorted v) = N.int v := by
  cases v with
  | arr items =>
      rw [sorted_arr]
      rfl
  | _ => rfl

theorem textOf_sorted (v : Value) : textOf (sorted v) = textOf v := by
  cases v with
  | arr items =>
      rw [sorted_arr]
      rfl
  | _ => rfl

theorem getOr_inOrder {fields : Fields} (h : IsJson N.read (.obj fields)) (key : Text) {v : Value}
    (hv : sorted v = v) :
    getOr (JsonText.inOrder fields) key v = sorted (getOr fields key v) := by
  unfold getOr
  rw [lookup_inOrder ((isJson_obj_iff N.read fields).mp h).1]
  cases fields.lookup key with
  | none => exact hv.symm
  | some w => rfl

theorem parseCost_sorted {pricing : Value} (h : IsJson N.read pricing) (key : String) :
    parseCost N (sorted pricing) key = parseCost N pricing key := by
  unfold parseCost
  rw [getItem_sorted h]
  cases getItem pricing key with
  | error e => rfl
  | ok v => exact float_sorted v

theorem parsePricing_sorted {pricing : Option Value} (h : ∀ v ∈ pricing, IsJson N.read v) :
    parsePricing N (pricing.map sorted) = parsePricing N pricing := by
  cases pricing with
  | none => rfl
  | some v => rw [Option.map_some, parsePricing, parsePricing, parseCost_sorted (h v rfl),
      parseCost_sorted (h v rfl)]

theorem parseProvider_sorted {prov : Value} (h : IsJson N.read prov) :
    parseProvider N (sorted prov) = (parseProvider N prov).map ProviderModelMapping.inOrder := by
  cases prov with
  | obj fields =>
      have hnodup := ((isJson_obj_iff N.read fields).mp h).1
      have hparts : ∀ fields : Fields, parseProvider N (.obj fields) = (do
          let pricing ← parsePricing N (fields.lookup "pricing".toList)
          let provider ← getItem (.obj fields) "provider"
          let provider ← textOf provider
          let modelId ← getItem (.obj fields) "model_id"
          let weight ← N.float (getOr fields "weight".toList (.number "1.0".toList))
          let fallbackOrder ← N.int (getOr fields "fallback_order".toList (.number "0".toList))
          .ok ⟨provider, modelId, weight, fallbackOrder, pricing⟩) := fun _ ↦ rfl
      have hitem := fun key ↦ getItem_sorted h key
      rw [sorted_obj] at hitem ⊢
      rw [hparts, hparts, lookup_inOrder hnodup,
        parsePricing_sorted fun v hv ↦ isJson_of_lookup h hv, hitem, hitem,
        getOr_inOrder h _ rfl, getOr_inOrder h _ rfl, float_sorted, int_sorted]
      cases parsePricing N (fields.lookup "pricing".toList) with
      | error e => rfl
      | ok pricing =>
          cases getItem (.obj fields) "provider" with
          | error e => rfl
          | ok provider =>
              change (textOf (sorted provider) >>= _) = (textOf provider >>= _).map _
              rw [textOf_sorted]
              cases textOf provider with
              | error e => rfl
              | ok name =>
                  cases getItem (.obj fields) "model_id" with
                  | error e => rfl
                  | ok modelId =>
                      cases N.float (getOr fields "weight".toList (.number "1.0".toList)) with
                      | error e => rfl
                      | ok weight =>
                          cases N.int (getOr fields "fallback_order".toList (.number "0".toList)) <;>
                            rfl
  | arr items =>
      rw [sorted_arr]
      rfl
  | _ => rfl

theorem parseProviders_sorted {providers : List Value} (h : ∀ v ∈ providers, IsJson N.read v) :
    parseProviders N (providers.map sorted) =
      (parseProviders N providers).map (·.map ProviderModelMapping.inOrder) := by
  induction providers with
  | nil => rfl
  | cons prov rest ih =>
      obtain ⟨hprov, hrest⟩ := List.forall_mem_cons.mp h
      rw [List.map_cons, parseProviders, parseProviders, parseProvider_sorted hprov, ih hrest]
      cases parseProvider N prov with
      | error e => rfl
      | ok m => cases parseProviders N rest <;> rfl

theorem parseCapabilities_sorted (capabilities : Option Value) :
    parseCapabilities (capabilities.map sorted) =
      (parseCapabilities capabilities).map (reorder capabilities) := by
  cases capabilities with
  | none => rfl
  | some v =>
      cases v with
      | arr items =>
          rw [Option.map_some, sorted_arr]
          rfl
      | str t =>
          have hchars : (t.map fun c ↦ Value.str [c]).map sorted = t.map fun c ↦ .str [c] := by
            rw [List.map_map]
            rfl
          change Except.ok (some (t.map fun c ↦ Value.str [c])) =
            .ok (some ((t.map fun c ↦ Value.str [c]).map sorted))
          rw [hchars]
      | _ => rfl

theorem filter_isNull_sorted (v : Option Value) :
    (v.map sorted).filter (fun v ↦ !isNull v) = (v.filter fun v ↦ !isNull v).map sorted := by
  cases v with
  | none => rfl
  | some v =>
      rw [Option.map_some, Option.filter_some, Option.filter_some, isNull_sorted]
      cases isNull v <;> rfl

/-- An entry in the order of its keys is parsed as the same model in order. -/
theorem parseEntry_inOrder {entry : Fields} {items : List Value} (h : IsJson N.read (.obj entry))
    (hproviders : entry.lookup "providers".toList = some (.arr items)) :
    parseEntry N (.obj (JsonText.inOrder entry)) = (parseEntry N (.obj entry)).map fun m ↦
      { m.inOrder with
        capabilities := reorder (entry.lookup "capabilities".toList) m.capabilities } := by
  have hnodup := ((isJson_obj_iff N.read entry).mp h).1
  have hitems := (isJson_arr_iff N.read items).mp (isJson_of_lookup h hproviders)
  have hparts : ∀ (fields : Fields) (items : List Value),
      fields.lookup "providers".toList = some (.arr items) →
      parseEntry N (.obj fields) = (do
        let routingStrategy ← RoutingStrategy.ofValue
          (getOr fields "routing_strategy".toList (.str "round-robin".toList))
        let providers ← parseProviders N items
        let capabilities ← parseCapabilities (fields.lookup "capabilities".toList)
        let name ← getItem (.obj fields) "name"
        let name ← textOf name
        let description ← getItem (.obj fields) "description"
        .ok ⟨name, description, providers, routingStrategy, capabilities,
          (fields.lookup "max_context_tokens".toList).filter fun v ↦ !isNull v⟩) := by
    intro fields items hlookup
    have hget : getItem (.obj fields) "providers" = .ok (.arr items) := getItem_obj hlookup
    change (RoutingStrategy.ofValue _ >>= fun _ ↦ getItem (.obj fields) "providers" >>= _) = _
    rw [hget]
    rfl
  have hstrategy : ∀ v : Value, RoutingStrategy.ofValue (sorted v) = RoutingStrategy.ofValue v := by
    intro v
    cases v with
    | arr list =>
        rw [sorted_arr]
        rfl
    | _ => rfl
  have hitem := fun key ↦ getItem_sorted h key
  have hsorted : (JsonText.inOrder entry).lookup "providers".toList =
      some (.arr (items.map sorted)) := by
    rw [lookup_inOrder hnodup, hproviders, Option.map_some, sorted_arr]
  rw [sorted_obj] at hitem
  rw [hparts _ _ hsorted, hparts _ _ hproviders, getOr_inOrder h _ rfl, hstrategy,
    parseProviders_sorted hitems, lookup_inOrder hnodup, parseCapabilities_sorted, hitem, hitem,
    lookup_inOrder hnodup, filter_isNull_sorted]
  cases RoutingStrategy.ofValue
      (getOr entry "routing_strategy".toList (.str "round-robin".toList)) with
  | error e => rfl
  | ok strategy =>
      cases parseProviders N items with
      | error e => rfl
      | ok providers =>
          cases parseCapabilities (entry.lookup "capabilities".toList) with
          | error e => rfl
          | ok capabilities =>
              cases getItem (.obj entry) "name" with
              | error e => rfl
              | ok name =>
                  change (textOf (sorted name) >>= _) = (textOf name >>= _).map _
                  rw [textOf_sorted]
                  cases textOf name with
                  | error e => rfl
                  | ok t => cases getItem (.obj entry) "description" <;> rfl

end AxonGateway.Registry
