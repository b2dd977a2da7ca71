import AxonGateway.Registry.Model
import AxonGateway.Lib.Outcome

/-!
# Documents without errors

Validation reports no error exactly where every entry is as it should be and no name occurs twice.
-/

namespace AxonGateway.Registry

open PyValue Screening Adapters Outcome

variable {isPrintable : Char → Bool} {pre : Text} {seen : List Text}

structure ValidProvider (prov : Fields) : Prop where
  provider : ∃ t ∈ validProviders, prov.lookup "provider".toList = some (.str t)
  modelId : ((prov.lookup "model_id".toList).getD .null).truthy = true

structure ValidEntry (entry : Fields) (name : Text) : Prop where
  named : name ≠ []
  description : ((entry.lookup "description".toList).getD .null).truthy = true
  strategy : (entry.lookup "routing_strategy".toList).getD .null = .null ∨
    ∃ t ∈ validRoutingStrategies, entry.lookup "routing_strategy".toList = some (.str t)
  maxContextTokens : isNull ((entry.lookup "max_context_tokens".toList).getD .null) = true ∨
    isPositiveInt ((entry.lookup "max_context_tokens".toList).getD .null) = true
  providers : ∃ items : List Fields, items ≠ [] ∧ (∀ prov ∈ items, ValidProvider prov) ∧
    entry.lookup "providers".toList = some (.arr (items.map .obj))
  name : entry.lookup "name".toList = some (.str name)

theorem getD_eq_str_iff {v : Option Value} {t : Text} :
    v.getD .null = .str t ↔ v = some (.str t) := by
  cases v <;> simp

theorem contains_eq_ok_true_iff {names : List Text} {v : Value} :
    contains names v = .ok true ↔ ∃ t ∈ names, v = .str t := by
  unfold contains
  cases v with
  | str t => simp [hashable, isIn]
  | arr items => simp [hashable]
  | obj fields => simp [hashable]
  | _ => simp [hashable, isIn]

/-- A required field is there and says something. -/
theorem validateRequired_eq_nil_iff {key : String} {v : Option Value} :
    validateRequired pre key v = [] ↔ (v.getD .null).truthy = true := by
  unfold validateRequired
  split_ifs with h <;> simp [h]

theorem validateProviderName_eq_nil_iff {v : Option Value} :
    validateProviderName isPrintable pre v = .ok [] ↔
      ∃ t ∈ validProviders, v = some (.str t) := by
  unfold validateProviderName
  split_ifs with htruthy
  · rw [bind_ok_iff]
    constructor
    · rintro ⟨known, hknown, h⟩
      cases known with
      | true =>
          obtain ⟨t, ht, hv⟩ := contains_eq_ok_true_iff.mp hknown
          exact ⟨t, ht, getD_eq_str_iff.mp hv⟩
      | false => cases h
    · rintro ⟨t, ht, rfl⟩
      exact ⟨true, contains_eq_ok_true_iff.mpr ⟨t, ht, rfl⟩, rfl⟩
  · constructor
    · intro h
      exact absurd (validateRequired_eq_nil_iff.mp (Except.ok.inj h)) htruthy
    · rintro ⟨t, ht, rfl⟩
      have hnames : ∀ t ∈ validProviders, (Value.str t).truthy = true := by decide
      exact absurd (hnames t ht) htruthy

theorem validateProvider_eq_nil_iff {prov : Value} :
    validateProvider isPrintable pre prov = .ok [] ↔
      ∃ fields, prov = .obj fields ∧ ValidProvider fields := by
  cases prov with
  | obj fields =>
      rw [validateProvider, bind_ok_iff]
      constructor
      · rintro ⟨errors, hname, h⟩
        obtain ⟨rfl, hmodel⟩ := List.append_eq_nil_iff.mp (Except.ok.inj h)
        exact ⟨fields, rfl, validateProviderName_eq_nil_iff.mp hname,
          validateRequired_eq_nil_iff.mp hmodel⟩
      · rintro ⟨_, heq, h⟩
        obtain rfl := Value.obj.inj heq
        refine ⟨[], validateProviderName_eq_nil_iff.mpr h.provider, ?_⟩
        rw [validateRequired_eq_nil_iff.mpr h.modelId]
        rfl
  | _ =>
      constructor
      · rintro ⟨⟩
      · rintro ⟨_, ⟨⟩, _⟩

theorem validateProviderList_eq_nil_iff {pidx : ℕ} {providers : List Value} :
    validateProviderList isPrintable pre pidx providers = .ok [] ↔
      ∃ items : List Fields, (∀ prov ∈ items, ValidProvider prov) ∧ providers = items.map .obj := by
  induction providers generalizing pidx with
  | nil =>
      constructor
      · exact fun _ ↦ ⟨[], by simp, rfl⟩
      · exact fun _ ↦ rfl
  | cons prov rest ih =>
      rw [validateProviderList, bind_ok_iff]
      constructor
      · rintro ⟨errors, hprov, h⟩
        obtain ⟨later, hrest, h⟩ := bind_ok_iff.mp h
        obtain ⟨rfl, rfl⟩ := List.append_eq_nil_iff.mp (Except.ok.inj h)
        obtain ⟨fields, rfl, hvalid⟩ := validateProvider_eq_nil_iff.mp hprov
        obtain ⟨items, hitems, rfl⟩ := ih.mp hrest
        exact ⟨fields :: items, List.forall_mem_cons.mpr ⟨hvalid, hitems⟩, rfl⟩
      · rintro ⟨items, hitems, heq⟩
        obtain ⟨fields, later, rfl, rfl, rfl⟩ := List.map_eq_cons_iff.mp heq.symm
        obtain ⟨hvalid, hlater⟩ := List.forall_mem_cons.mp hitems
        refine ⟨[], validateProvider_eq_nil_iff.mpr ⟨fields, rfl, hvalid⟩, ?_⟩
        rw [bind_ok_iff]
        exact ⟨[], ih.mpr ⟨later, hlater, rfl⟩, rfl⟩

theorem validateProviders_eq_nil_iff {providers : Option Value} :
    validateProviders isPrintable pre providers = .ok [] ↔
      ∃ items : List Fields, items ≠ [] ∧ (∀ prov ∈ items, ValidProvider prov) ∧
        providers = some (.arr (items.map .obj)) := by
  constructor
  · intro h
    cases providers with
    | none => cases h
    | some v =>
        cases v with
        | arr list =>
            cases list with
            | nil => cases h
            | cons prov rest =>
                obtain ⟨items, hitems, heq⟩ := validateProviderList_eq_nil_iff.mp h
                refine ⟨items, ?_, hitems, by rw [heq]⟩
                rintro rfl
                cases heq
        | _ => cases h
  · rintro ⟨items, hne, hitems, rfl⟩
    obtain ⟨prov, rest, rfl⟩ := List.exists_cons_of_ne_nil hne
    exact validateProviderList_eq_nil_iff.mpr ⟨prov :: rest, hitems, rfl⟩

theorem validateStrategy_eq_nil_iff {strategy : Option Value} :
    validateStrategy isPrintable pre strategy = .ok [] ↔ strategy.getD .null = .null ∨
      ∃ t ∈ validRoutingStrategies, strategy = some (.str t) := by
  unfold validateStrategy
  split
  · rename_i hnull
    simp [hnull]
  · rename_i hne
    rw [bind_ok_iff]
    constructor
    · rintro ⟨known, hknown, h⟩
      cases known with
      | true =>
          obtain ⟨t, ht, hstr⟩ := contains_eq_ok_true_iff.mp hknown
          exact .inr ⟨t, ht, getD_eq_str_iff.mp hstr⟩
      | false => cases h
    · rintro (hnull | ⟨t, ht, rfl⟩)
      · exact absurd hnull hne
      · exact ⟨true, contains_eq_ok_true_iff.mpr ⟨t, ht, rfl⟩, rfl⟩

theorem validateMaxContextTokens_eq_nil_iff {v : Option Value} :
    validateMaxContextTokens pre v = [] ↔
      isNull (v.getD .null) = true ∨ isPositiveInt (v.getD .null) = true := by
  unfold validateMaxContextTokens
  split_ifs with h
  · simpa using h
  · simpa using h

theorem validateName_of_ne {v : Value} (h : ∀ t, v ≠ .str t) :
    validateName pre seen (some v) =
      if v.truthy then ([⟨pre ++ ".name".toList, "'name' must be a string".toList⟩], seen)
      else ([⟨pre ++ ".name".toList, "Missing required field 'name'".toList⟩], seen) := by
  cases v with
  | str t => exact absurd rfl (h t)
  | _ => rfl

theorem validateName_cons (c : Char) (t : Text) :
    validateName pre seen (some (.str (c :: t))) =
      (if seen.contains (c :: t) then
        [⟨pre ++ ".name".toList, "Duplicate model name: '".toList ++ (c :: t) ++ "'".toList⟩]
      else [], (c :: t) :: seen) := rfl

/-- A name without an error is a new one. -/
theorem validateName_fst_eq_nil_iff {name : Option Value} :
    (validateName pre seen name).1 = [] ↔
      ∃ t, t ≠ [] ∧ name = some (.str t) ∧ t ∉ seen := by
  cases name with
  | none =>
      constructor
      · rintro ⟨⟩
      · rintro ⟨_, _, ⟨⟩, _⟩
  | some v =>
      cases v with
      | str t =>
          cases t with
          | nil =>
              constructor
              · rintro ⟨⟩
              · rintro ⟨_, hne, heq, _⟩
                exact absurd (Value.str.inj (Option.some.inj heq)).symm hne
          | cons c t =>
              rw [validateName_cons]
              dsimp only
              split_ifs with h <;> simpa using h
      | _ =>
          rw [validateName_of_ne (by simp)]
          split_ifs <;> simp

theorem validateName_snd {t : Text} (h : t ≠ []) :
    (validateName pre seen (some (.str t))).2 = t :: seen := by
  obtain ⟨c, t, rfl⟩ := List.exists_cons_of_ne_nil h
  rfl

theorem validateEntry_eq_nil_iff {entry : Value} {seen' : List Text} :
    validateEntry isPrintable pre seen entry = .ok ([], seen') ↔
      ∃ fields name, entry = .obj fields ∧ ValidEntry fields name ∧ name ∉ seen ∧
        seen' = name :: seen := by
  cases entry with
  | obj fields =>
      rw [validateEntry]
      dsimp only
      rw [bind_ok_iff]
      constructor
      · rintro ⟨strategy, hstrategy, h⟩
        obtain ⟨providers, hproviders, h⟩ := bind_ok_iff.mp h
        obtain ⟨herrors, rfl⟩ := Prod.mk.inj (Except.ok.inj h)
        simp only [List.append_eq_nil_iff] at herrors
        obtain ⟨⟨⟨⟨hname, hdescription⟩, rfl⟩, htokens⟩, rfl⟩ := herrors
        obtain ⟨name, hne, hlookup, hnew⟩ := validateName_fst_eq_nil_iff.mp hname
        refine ⟨fields, name, rfl, ⟨hne, validateRequired_eq_nil_iff.mp hdescription,
          validateStrategy_eq_nil_iff.mp hstrategy, validateMaxContextTokens_eq_nil_iff.mp htokens,
          validateProviders_eq_nil_iff.mp hproviders, hlookup⟩, hnew, ?_⟩
        rw [hlookup, validateName_snd hne]
      · rintro ⟨_, name, heq, h, hnew, rfl⟩
        obtain rfl := Value.obj.inj heq
        refine ⟨[], validateStrategy_eq_nil_iff.mpr h.strategy, ?_⟩
        rw [bind_ok_iff]
        refine ⟨[], validateProviders_eq_nil_iff.mpr h.providers, ?_⟩
        rw [validateName_fst_eq_nil_iff.mpr ⟨name, h.named, h.name, hnew⟩,
          validateRequired_eq_nil_iff.mpr h.description,
          validateMaxContextTokens_eq_nil_iff.mpr h.maxContextTokens, h.name,
          validateName_snd h.named]
        rfl
  | _ =>
      constructor
      · rintro ⟨⟩
      · rintro ⟨_, _, ⟨⟩, _⟩

/-- The entries of a document with their names. -/
structure ValidEntries (seen : List Text) (entries : List (Fields × Text)) : Prop where
  valid : ∀ e ∈ entries, ValidEntry e.1 e.2
  nodup : (entries.map Prod.snd).Nodup
  fresh : ∀ e ∈ entries, e.2 ∉ seen

theorem validEntries_nil : ValidEntries seen [] := ⟨by simp, List.nodup_nil, by simp⟩

theorem validEntries_cons_iff {e : Fields × Text} {entries : List (Fields × Text)} :
    ValidEntries seen (e :: entries) ↔
      ValidEntry e.1 e.2 ∧ e.2 ∉ seen ∧ ValidEntries (e.2 :: seen) entries := by
  constructor
  · rintro ⟨hvalid, hnodup, hfresh⟩
    obtain ⟨hnotMem, hnodup⟩ := List.nodup_cons.mp hnodup
    refine ⟨hvalid e List.mem_cons_self, hfresh e List.mem_cons_self,
      fun e' he' ↦ hvalid e' (List.mem_cons_of_mem _ he'), hnodup, fun e' he' hmem ↦ ?_⟩
    rcases List.mem_cons.mp hmem with heq | hmem
    · exact hnotMem (heq ▸ List.mem_map_of_mem he')
    · exact hfresh e' (List.mem_cons_of_mem _ he') hmem
  · rintro ⟨hvalid, hfresh, h⟩
    refine ⟨List.forall_mem_cons.mpr ⟨hvalid, h.valid⟩, List.nodup_cons.mpr ⟨?_, h.nodup⟩,
      List.forall_mem_cons.mpr ⟨hfresh, fun e' he' hmem ↦
        h.fresh e' he' (List.mem_cons_of_mem _ hmem)⟩⟩
    intro hmem
    obtain ⟨e', he', heq⟩ := List.mem_map.mp hmem
    exact h.fresh e' he' (heq ▸ List.mem_cons_self)

theorem validateEntries_eq_nil_iff {idx : ℕ} {entries : List Value} :
    validateEntries isPrintable idx seen entries = .ok [] ↔
      ∃ l : List (Fields × Text), ValidEntries seen l ∧ entries = l.map fun e ↦ .obj e.1 := by
  induction entries generalizing idx seen with
  | nil =>
      constructor
      · exact fun _ ↦ ⟨[], validEntries_nil, rfl⟩
      · exact fun _ ↦ rfl
  | cons entry rest ih =>
      rw [validateEntries, bind_ok_iff]
      constructor
      · rintro ⟨⟨errors, seen'⟩, hentry, h⟩
        obtain ⟨later, hrest, h⟩ := bind_ok_iff.mp h
        obtain ⟨rfl, rfl⟩ := List.append_eq_nil_iff.mp (Except.ok.inj h)
        obtain ⟨fields, name, rfl, hvalid, hfresh, rfl⟩ := validateEntry_eq_nil_iff.mp hentry
        obtain ⟨l, hl, rfl⟩ := ih.mp hrest
        exact ⟨(fields, name) :: l, validEntries_cons_iff.mpr ⟨hvalid, hfresh, hl⟩, rfl⟩
      · rintro ⟨l, hl, heq⟩
        obtain ⟨⟨fields, name⟩, later, rfl, rfl, rfl⟩ := List.map_eq_cons_iff.mp heq.symm
        obtain ⟨hvalid, hfresh, hlater⟩ := validEntries_cons_iff.mp hl
        refine ⟨([], name :: seen),
          validateEntry_eq_nil_iff.mpr ⟨fields, name, rfl, hvalid, hfresh, rfl⟩, ?_⟩
        rw [bind_ok_iff]
        exact ⟨[], ih.mpr ⟨later, hlater, rfl⟩, rfl⟩

/-- The entries of a document without errors. -/
theorem validate_eq_nil_iff {config : Fields} : validate isPrintable config = .ok [] ↔
    ∃ l : List (Fields × Text), ValidEntries [] l ∧
      config.lookup "models".toList = some (.arr (l.map fun e ↦ .obj e.1)) := by
  unfold validate
  constructor
  · intro h
    cases hlookup : config.lookup "models".toList with
    | none =>
        rw [hlookup] at h
        cases h
    | some v =>
        rw [hlookup] at h
        cases v with
        | arr entries =>
            obtain ⟨l, hl, rfl⟩ := validateEntries_eq_nil_iff.mp h
            exact ⟨l, hl, rfl⟩
        | _ => cases h
  · rintro ⟨l, hl, hlookup⟩
    rw [hlookup]
    exact validateEntries_eq_nil_iff.mpr ⟨l, hl, rfl⟩

end AxonGateway.Registry
