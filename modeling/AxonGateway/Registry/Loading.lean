import AxonGateway.Registry.Adoption

/-!
# Loading a file

A file is loaded without the entries that have errors. Which entries these are is read off the fields
that the errors name, and what is loaded is the file without them.
-/

namespace AxonGateway.Registry

open PyValue Screening Adapters JsonText Outcome

/-! ### The loader -/

section Loader

variable (isPrintable : Char → Bool) (N : Numbers)

/-- The indices of the entries that an error is about. -/
def badIndices (config : Fields) (error : ValidationError) : Except Raised (List ℤ) :=
  if "models[".toList.isPrefixOf error.field then
    let rest := error.field.drop "models[".toList.length
    if rest.contains ']' then .ok (N.integerOf (rest.takeWhile (· != ']'))).toList
    else .error .valueError
  else if error.field = "models".toList then
    match (config.lookup "models".toList).getD .null with
    | .arr entries => .ok ((List.range entries.length).map Int.ofNat)
    | _ => .ok []
  else .ok []

/-- `_error_indices` -/
def errorIndices (config : Fields) : List ValidationError → Except Raised (List ℤ)
  | [] => .ok []
  | error :: rest => do
      let bad ← badIndices N config error
      let later ← errorIndices config rest
      .ok (bad ++ later)

/-- An entry under a new name is added. -/
def addEntry (models : List (Text × ModelConfig)) (entry : Value) :
    Except Raised (List (Text × ModelConfig)) := do
  let name ← getItem entry "name"
  let name ← textOf name
  if (models.lookup name).isSome then .ok models
  else do
    let config ← parseEntry N entry
    .ok (set models name config)

/-- The entries whose index is not bad; what was added before an error stays. -/
def loadEntries (bad : List ℤ) (idx : ℕ) (models : List (Text × ModelConfig)) :
    List Value → Except Raised Unit × List (Text × ModelConfig)
  | [] => (.ok (), models)
  | entry :: rest =>
      if bad.contains (idx : ℤ) then loadEntries bad (idx + 1) models rest
      else match addEntry N models entry with
        | .error e => (.error e, models)
        | .ok models => loadEntries bad (idx + 1) models rest

/-- `_load_config` -/
def loadConfig (config : Fields) (registry : ModelRegistry) : Except Raised Unit × ModelRegistry :=
  match validate isPrintable config with
  | .error e => (.error e, registry)
  | .ok errors => match errorIndices N config errors with
    | .error e => (.error e, registry)
    | .ok bad => match (config.lookup "models".toList).getD .null with
      | .arr entries =>
          let (result, models) := loadEntries N bad 0 registry.models entries
          (result, ⟨models, registry.revision⟩)
      | _ => (.ok (), registry)

end Loader

variable {N : Numbers} {isPrintable : Char → Bool} {pre : Text} {seen : List Text}

/-! ### The fields of errors -/

/-- Every error names a field of the entry. -/
def Names (pre : Text) (errors : List ValidationError) : Prop := ∀ e ∈ errors, pre <+: e.field

theorem Names.append {errors errors' : List ValidationError} (h : Names pre errors)
    (h' : Names pre errors') : Names pre (errors ++ errors') :=
  List.forall_mem_append.mpr ⟨h, h'⟩

theorem names_singleton (rest message : Text) : Names pre [⟨pre ++ rest, message⟩] :=
  List.forall_mem_singleton.mpr (List.prefix_append pre rest)

theorem names_nil : Names pre [] := by simp [Names]

theorem names_validateRequired (key : String) (v : Option Value) :
    Names pre (validateRequired pre key v) := by
  unfold validateRequired
  split_ifs
  · exact names_nil
  · exact names_singleton _ _

theorem names_validateName (name : Option Value) : Names pre (validateName pre seen name).1 := by
  cases name with
  | none => exact names_singleton _ _
  | some v =>
      cases v with
      | str t =>
          cases t with
          | nil => exact names_singleton _ _
          | cons c t =>
              rw [validateName_cons]
              dsimp only
              split_ifs
              · exact names_singleton _ _
              · exact names_nil
      | _ =>
          rw [validateName_of_ne (by simp)]
          split_ifs <;> exact names_singleton _ _

theorem names_validateStrategy {strategy : Option Value} {errors : List ValidationError}
    (h : validateStrategy isPrintable pre strategy = .ok errors) : Names pre errors := by
  unfold validateStrategy at h
  split at h
  · obtain rfl := Except.ok.inj h
    exact names_nil
  · obtain ⟨known, -, h⟩ := bind_ok_iff.mp h
    obtain rfl := Except.ok.inj h
    split_ifs
    · exact names_nil
    · exact names_singleton _ _

theorem names_validateMaxContextTokens (v : Option Value) :
    Names pre (validateMaxContextTokens pre v) := by
  unfold validateMaxContextTokens
  split_ifs
  · exact names_nil
  · exact names_singleton _ _

theorem names_validateProviderName {provider : Option Value} {errors : List ValidationError}
    (h : validateProviderName isPrintable pre provider = .ok errors) : Names pre errors := by
  unfold validateProviderName at h
  split_ifs at h
  · obtain ⟨known, -, h⟩ := bind_ok_iff.mp h
    obtain rfl := Except.ok.inj h
    split_ifs
    · exact names_nil
    · exact names_singleton _ _
  · obtain rfl := Except.ok.inj h
    exact names_validateRequired _ _

theorem names_validateProvider {prov : Value} {errors : List ValidationError}
    (h : validateProvider isPrintable pre prov = .ok errors) : Names pre errors := by
  cases prov with
  | obj fields =>
      obtain ⟨named, hnamed, h⟩ := bind_ok_iff.mp h
      obtain rfl := Except.ok.inj h
      exact (names_validateProviderName hnamed).append (names_validateRequired _ _)
  | _ =>
      obtain rfl := Except.ok.inj h
      exact List.forall_mem_singleton.mpr List.prefix_rfl

theorem Names.of_append {rest : Text} {errors : List ValidationError} (h : Names (pre ++ rest) errors) :
    Names pre errors :=
  fun e he ↦ (List.prefix_append pre rest).trans (h e he)

theorem names_validateProviderList {pidx : ℕ} {providers : List Value}
    {errors : List ValidationError}
    (h : validateProviderList isPrintable pre pidx providers = .ok errors) : Names pre errors := by
  induction providers generalizing pidx errors with
  | nil =>
      obtain rfl := Except.ok.inj h
      exact names_nil
  | cons prov rest ih =>
      obtain ⟨first, hfirst, h⟩ := bind_ok_iff.mp h
      obtain ⟨later, hlater, h⟩ := bind_ok_iff.mp h
      obtain rfl := Except.ok.inj h
      have hprov := names_validateProvider hfirst
      rw [List.append_assoc, List.append_assoc] at hprov
      exact hprov.of_append.append (ih hlater)

theorem names_validateProviders {providers : Option Value} {errors : List ValidationError}
    (h : validateProviders isPrintable pre providers = .ok errors) : Names pre errors := by
  cases providers with
  | none =>
      obtain rfl := Except.ok.inj h
      exact names_validateRequired _ _
  | some v =>
      cases v with
      | null =>
          obtain rfl := Except.ok.inj h
          exact names_validateRequired _ _
      | arr items =>
          cases items with
          | nil =>
              obtain rfl := Except.ok.inj h
              exact names_singleton _ _
          | cons prov rest => exact names_validateProviderList h
      | _ =>
          obtain rfl := Except.ok.inj h
          exact names_singleton _ _

theorem names_validateEntry {entry : Value} {errors : List ValidationError} {seen' : List Text}
    (h : validateEntry isPrintable pre seen entry = .ok (errors, seen')) : Names pre errors := by
  cases entry with
  | obj fields =>
      obtain ⟨strategy, hstrategy, h⟩ := bind_ok_iff.mp h
      obtain ⟨providers, hproviders, h⟩ := bind_ok_iff.mp h
      obtain ⟨rfl, -⟩ := Prod.mk.inj (Except.ok.inj h)
      exact ((((names_validateName _).append (names_validateRequired _ _)).append
        (names_validateStrategy hstrategy)).append (names_validateMaxContextTokens _)).append
        (names_validateProviders hproviders)
  | _ =>
      obtain ⟨rfl, -⟩ := Prod.mk.inj (Except.ok.inj h)
      exact List.forall_mem_singleton.mpr List.prefix_rfl

/-! ### Indices of errors -/

/-- What an entry is called in the fields of its errors. -/
def entryName (idx : ℕ) : Text := "models[".toList ++ (toString idx).toList ++ "]".toList

theorem badIndices_eq {config : Fields} {error : ValidationError} {idx : ℕ}
    (h : entryName idx <+: error.field) : badIndices N config error = .ok [(idx : ℤ)] := by
  obtain ⟨rest, hfield⟩ := h
  have hsplit : error.field = "models[".toList ++ ((toString idx).toList ++ ']' :: rest) := by
    rw [← hfield]
    unfold entryName
    simp
  have hprefix : "models[".toList.isPrefixOf error.field = true := by
    rw [hsplit, List.isPrefixOf_iff_prefix]
    exact List.prefix_append _ _
  have hdigits : ∀ c ∈ (toString idx).toList, (c != ']') = true := by
    intro c hc
    have hdigit := isDigit_of_mem hc
    rw [bne_iff_ne]
    rintro rfl
    cases hdigit
  have hrest : error.field.drop "models[".toList.length = (toString idx).toList ++ ']' :: rest := by
    rw [hsplit]
    exact List.drop_left
  have hclosed : ((toString idx).toList ++ ']' :: rest).contains ']' = true :=
    List.contains_iff_mem.mpr (List.mem_append_right _ List.mem_cons_self)
  have hindex : ((toString idx).toList ++ ']' :: rest).takeWhile (· != ']') =
      (toString idx).toList := by
    rw [List.takeWhile_append_of_pos hdigits, List.takeWhile_cons_of_neg (by decide), List.append_nil]
  unfold badIndices
  rw [if_pos hprefix]
  dsimp only
  rw [hrest, if_pos hclosed, hindex, N.integerOf_toString]
  rfl

/-- All errors of an entry have its index. -/
theorem errorIndices_append {config : Fields} {idx : ℕ} {errors later : List ValidationError}
    (h : Names (entryName idx) errors) {indices : List ℤ}
    (hlater : errorIndices N config later = .ok indices) :
    errorIndices N config (errors ++ later) = .ok ((errors.map fun _ ↦ (idx : ℤ)) ++ indices) := by
  induction errors with
  | nil => exact hlater
  | cons error errors ih =>
      obtain ⟨herror, herrors⟩ := List.forall_mem_cons.mp h
      rw [List.cons_append, errorIndices, badIndices_eq herror, ih herrors]
      rfl

theorem errorIndices_validateEntries {config : Fields} {idx : ℕ} {entries : List Value}
    {errors : List ValidationError}
    (h : validateEntries isPrintable idx seen entries = .ok errors) :
    ∃ indices, errorIndices N config errors = .ok indices ∧ ∀ i ∈ indices, (idx : ℤ) ≤ i := by
  induction entries generalizing idx seen errors with
  | nil =>
      obtain rfl := Except.ok.inj h
      exact ⟨[], rfl, by simp⟩
  | cons entry rest ih =>
      obtain ⟨⟨first, seen'⟩, hfirst, h⟩ := bind_ok_iff.mp h
      obtain ⟨later, hlater, h⟩ := bind_ok_iff.mp h
      obtain rfl := Except.ok.inj h
      obtain ⟨indices, hindices, hle⟩ := ih hlater
      refine ⟨_, errorIndices_append (names_validateEntry hfirst) hindices, fun i hi ↦ ?_⟩
      rcases List.mem_append.mp hi with hi | hi
      · obtain ⟨e, -, rfl⟩ := List.mem_map.mp hi
        exact le_rfl
      · have hi := hle i hi
        push_cast at hi
        omega

/-! ### What is loaded -/

/-- The entries that have no error of their own. A name that an earlier entry has is an error, also
where the earlier entry has one. -/
def soundEntries (isPrintable : Char → Bool) (idx : ℕ) (seen : List Text) : List Value → List Value
  | [] => []
  | entry :: rest =>
      match validateEntry isPrintable (entryName idx) seen entry with
      | .ok ([], seen) => entry :: soundEntries isPrintable (idx + 1) seen rest
      | .ok (_ :: _, seen) => soundEntries isPrintable (idx + 1) seen rest
      | .error _ => []

/-- The entries that are loaded are the sound ones. -/
theorem loadEntries_eq {config : Fields} {bad indices : List ℤ} {idx : ℕ}
    {models : List (Text × ModelConfig)} {entries : List Value} {errors : List ValidationError}
    (h : validateEntries isPrintable idx seen entries = .ok errors)
    (hindices : errorIndices N config errors = .ok indices)
    (hbad : ∀ j : ℕ, idx ≤ j → ((j : ℤ) ∈ bad ↔ (j : ℤ) ∈ indices)) (n : ℕ) :
    loadEntries N bad idx models entries =
      loadEntries N [] n models (soundEntries isPrintable idx seen entries) := by
  induction entries generalizing idx seen errors indices models n with
  | nil => rfl
  | cons entry rest ih =>
      obtain ⟨⟨first, seen'⟩, hfirst, h⟩ := bind_ok_iff.mp h
      obtain ⟨later, hlater, h⟩ := bind_ok_iff.mp h
      obtain rfl := Except.ok.inj h
      obtain ⟨laterIndices, hlaterIndices, hle⟩ :=
        @errorIndices_validateEntries N isPrintable seen' config (idx + 1) rest later hlater
      have hnames := names_validateEntry hfirst
      rw [errorIndices_append hnames hlaterIndices] at hindices
      obtain rfl := Except.ok.inj hindices
      have hlaterBad : ∀ j : ℕ, idx + 1 ≤ j → ((j : ℤ) ∈ bad ↔ (j : ℤ) ∈ laterIndices) := by
        intro j hj
        rw [hbad j (by omega), List.mem_append]
        have hne : (j : ℤ) ∉ first.map fun _ ↦ (idx : ℤ) := by
          intro hmem
          obtain ⟨e, -, heq⟩ := List.mem_map.mp hmem
          have := Int.ofNat.inj heq
          omega
        exact or_iff_right hne
      have hlaterOnly : (idx : ℤ) ∉ laterIndices := fun hmem ↦ by
        have := hle _ hmem
        push_cast at this
        omega
      have hown : (idx : ℤ) ∈ bad ↔ first ≠ [] := by
        rw [hbad idx le_rfl, List.mem_append, or_iff_left hlaterOnly, List.mem_map]
        constructor
        · rintro ⟨e, he, -⟩ rfl
          cases he
        · intro hne
          obtain ⟨e, rest, rfl⟩ := List.exists_cons_of_ne_nil hne
          exact ⟨e, List.mem_cons_self, rfl⟩
      change validateEntry isPrintable (entryName idx) seen entry = .ok (first, seen') at hfirst
      rw [soundEntries, hfirst, loadEntries]
      cases first with
      | nil =>
          rw [if_neg (by simpa using hown), loadEntries, if_neg (by simp)]
          cases addEntry N models entry with
          | error e => rfl
          | ok models => exact ih hlater hlaterIndices hlaterBad (n + 1)
      | cons e first =>
          rw [if_pos (by simpa using hown)]
          exact ih hlater hlaterIndices hlaterBad n

theorem subset_validateName (name : Option Value) : seen ⊆ (validateName pre seen name).2 := by
  cases name with
  | none => exact List.Subset.refl seen
  | some v =>
      cases v with
      | str t =>
          cases t with
          | nil => exact List.Subset.refl seen
          | cons c t => exact List.subset_cons_self _ seen
      | _ =>
          rw [validateName_of_ne (by simp)]
          split_ifs <;> exact List.Subset.refl seen

/-- A name that was seen stays seen. -/
theorem subset_of_validateEntry {entry : Value} {errors : List ValidationError} {seen' : List Text}
    (h : validateEntry isPrintable pre seen entry = .ok (errors, seen')) : seen ⊆ seen' := by
  cases entry with
  | obj fields =>
      obtain ⟨strategy, -, h⟩ := bind_ok_iff.mp h
      obtain ⟨providers, -, h⟩ := bind_ok_iff.mp h
      obtain ⟨-, rfl⟩ := Prod.mk.inj (Except.ok.inj h)
      exact @subset_validateName pre seen (fields.lookup "name".toList)
  | _ =>
      obtain ⟨-, rfl⟩ := Prod.mk.inj (Except.ok.inj h)
      exact List.Subset.refl seen

/-- The sound entries are a document without errors. -/
theorem exists_validEntries_soundEntries (idx : ℕ) (entries : List Value) :
    ∃ l : List (Fields × Text), ValidEntries seen l ∧
      soundEntries isPrintable idx seen entries = l.map fun e ↦ .obj e.1 := by
  induction entries generalizing idx seen with
  | nil => exact ⟨[], validEntries_nil, rfl⟩
  | cons entry rest ih =>
      rw [soundEntries]
      split
      · rename_i seen' hentry
        obtain ⟨fields, name, rfl, hvalid, hfresh, rfl⟩ := validateEntry_eq_nil_iff.mp hentry
        obtain ⟨l, hl, heq⟩ := ih (idx + 1)
        refine ⟨(fields, name) :: l, validEntries_cons_iff.mpr ⟨hvalid, hfresh, hl⟩, ?_⟩
        rw [heq]
        rfl
      · rename_i seen' hentry
        obtain ⟨l, hl, heq⟩ := ih (idx + 1)
        exact ⟨l, ⟨hl.valid, hl.nodup, fun e he hmem ↦
          hl.fresh e he (subset_of_validateEntry hentry hmem)⟩, heq⟩
      · exact ⟨[], validEntries_nil, rfl⟩

/-- Valid entries whose names are not taken are added as they are parsed. -/
theorem loadEntries_of_validEntries {l : List (Fields × Text)} {models : List (Text × ModelConfig)}
    (hjson : ∀ e ∈ l, IsJson N.read (.obj e.1)) (hl : ValidEntries seen l)
    (hmodels : ∀ e ∈ models, e.1 ∈ seen) (n : ℕ) :
    (loadEntries N [] n models (l.map fun e ↦ .obj e.1)).1 =
        (parseEntries N models (l.map fun e ↦ .obj e.1)).map (fun _ ↦ ()) ∧
      ∀ models', parseEntries N models (l.map fun e ↦ .obj e.1) = .ok models' →
        (loadEntries N [] n models (l.map fun e ↦ .obj e.1)).2 = models' := by
  induction l generalizing seen models n with
  | nil => exact ⟨rfl, fun models' h ↦ Except.ok.inj h⟩
  | cons e rest ih =>
      obtain ⟨fields, name⟩ := e
      obtain ⟨hvalid, hfresh, hrest⟩ := validEntries_cons_iff.mp hl
      obtain ⟨hfields, hjson⟩ := List.forall_mem_cons.mp hjson
      have hnew : models.lookup name = none := by
        rw [List.lookup_eq_none_iff]
        intro e he
        rw [bne_iff_ne]
        rintro rfl
        exact hfresh (hmodels e he)
      have hadd : addEntry N models (.obj fields) =
          (parseEntry N (.obj fields)).map (fun config ↦ set models name config) := by
        have hbind : addEntry N models (.obj fields) = (do
            let name ← getItem (.obj fields) "name"
            let name ← textOf name
            if (models.lookup name).isSome then .ok models
            else do
              let config ← parseEntry N (.obj fields)
              .ok (set models name config)) := rfl
        rw [hbind, getItem_obj hvalid.name]
        change (if (models.lookup name).isSome then _ else _) = _
        rw [hnew]
        rfl
      rw [List.map_cons, loadEntries, if_neg (by simp), parseEntries, hadd]
      cases hparse : parseEntry N (.obj fields) with
      | error e => exact ⟨rfl, fun models' h ↦ by cases h⟩
      | ok config =>
          have hname : config.name = name := (wellFormed_of_parseEntry hfields hvalid hparse).2
          change (loadEntries N [] (n + 1) (set models name config) _).1 =
              (parseEntries N (set models config.name config) _).map _ ∧
            ∀ models', parseEntries N (set models config.name config) _ = .ok models' →
              (loadEntries N [] (n + 1) (set models name config) _).2 = models'
          rw [hname]
          refine ih hjson hrest (fun e he ↦ ?_) (n + 1)
          rcases mem_set he with rfl | he
          · exact List.mem_cons_self
          · exact List.mem_cons_of_mem name (hmodels e he)

/-! ### Entries without errors -/

/-- The entries that no error is about. -/
def withoutErrors (idx : ℕ) (entries : List Value) (errors : List ValidationError) : List Value :=
  ((entries.zipIdx idx).filter fun e ↦
    errors.all fun error ↦ !(entryName e.2).isPrefixOf error.field).map Prod.fst

theorem entryName_unique (N : Numbers) {i j : ℕ} {field : Text} (hi : entryName i <+: field)
    (hj : entryName j <+: field) : i = j := by
  have hindices : badIndices N [] ⟨field, []⟩ = .ok [(i : ℤ)] := badIndices_eq hi
  rw [badIndices_eq hj] at hindices
  simpa using (Except.ok.inj hindices).symm

theorem exists_entryName_prefix {idx : ℕ} {entries : List Value} {errors : List ValidationError}
    (h : validateEntries isPrintable idx seen entries = .ok errors) :
    ∀ e ∈ errors, ∃ j, idx ≤ j ∧ entryName j <+: e.field := by
  induction entries generalizing idx seen errors with
  | nil =>
      obtain rfl := Except.ok.inj h
      simp
  | cons entry rest ih =>
      obtain ⟨⟨first, seen'⟩, hfirst, h⟩ := bind_ok_iff.mp h
      obtain ⟨later, hlater, h⟩ := bind_ok_iff.mp h
      obtain rfl := Except.ok.inj h
      refine List.forall_mem_append.mpr ⟨fun e he ↦ ⟨idx, le_rfl, names_validateEntry hfirst e he⟩,
        fun e he ↦ ?_⟩
      obtain ⟨j, hj, hprefix⟩ := ih hlater e he
      exact ⟨j, by omega, hprefix⟩

theorem soundEntries_eq (N : Numbers) {idx : ℕ} {entries : List Value} {errors : List ValidationError}
    (h : validateEntries isPrintable idx seen entries = .ok errors) :
    soundEntries isPrintable idx seen entries = withoutErrors idx entries errors := by
  induction entries generalizing idx seen errors with
  | nil => rfl
  | cons entry rest ih =>
      obtain ⟨⟨first, seen'⟩, hfirst, h⟩ := bind_ok_iff.mp h
      obtain ⟨later, hlater, h⟩ := bind_ok_iff.mp h
      obtain rfl := Except.ok.inj h
      change validateEntry isPrintable (entryName idx) seen entry = .ok (first, seen') at hfirst
      have hnames := names_validateEntry hfirst
      have hlaterFields := exists_entryName_prefix hlater
      -- An error of this entry is about no later one, and an error of a later one is not about this.
      have hrest : withoutErrors (idx + 1) rest (first ++ later) =
          withoutErrors (idx + 1) rest later := by
        unfold withoutErrors
        apply congrArg (List.map Prod.fst)
        apply List.filter_congr
        intro e he
        have hle : idx + 1 ≤ e.2 := (List.mem_zipIdx he).1
        rw [List.all_append, Bool.and_eq_right_iff_imp]
        intro _
        rw [List.all_eq_true]
        intro error herror
        rw [Bool.not_eq_true', ← Bool.not_eq_true, List.isPrefixOf_iff_prefix]
        intro hprefix
        have := entryName_unique N hprefix (hnames error herror)
        omega
      have hown : (later.all fun error ↦ !(entryName idx).isPrefixOf error.field) = true := by
        rw [List.all_eq_true]
        intro error herror
        obtain ⟨j, hj, hprefix⟩ := hlaterFields error herror
        rw [Bool.not_eq_true', ← Bool.not_eq_true, List.isPrefixOf_iff_prefix]
        intro hown
        have := entryName_unique N hown hprefix
        omega
      have hcons : withoutErrors idx (entry :: rest) (first ++ later) =
          if (first.all fun error ↦ !(entryName idx).isPrefixOf error.field) = true then
            entry :: withoutErrors (idx + 1) rest later
          else withoutErrors (idx + 1) rest later := by
        rw [← hrest]
        unfold withoutErrors
        rw [List.zipIdx_cons, List.filter_cons, List.all_append, hown, Bool.and_true]
        split_ifs <;> rfl
      rw [soundEntries, hfirst, hcons]
      cases first with
      | nil => exact congrArg (entry :: ·) (ih hlater)
      | cons e first =>
          have hprefix : (entryName idx).isPrefixOf e.field = true :=
            List.isPrefixOf_iff_prefix.mpr (hnames e List.mem_cons_self)
          rw [List.all_cons, hprefix]
          exact ih hlater

theorem mem_of_mem_withoutErrors {idx : ℕ} {entries : List Value} {errors : List ValidationError}
    {v : Value} (h : v ∈ withoutErrors idx entries errors) : v ∈ entries := by
  obtain ⟨e, he, rfl⟩ := List.mem_map.mp h
  have hmem := List.mem_map_of_mem (f := Prod.fst) (List.mem_of_mem_filter he)
  rwa [List.zipIdx_map_fst] at hmem

/-- A file is loaded as the document of the entries that no error is about: that document has no
error, and the loader gives its models, or fails as it does. -/
theorem loadConfig_eq {config : Fields} {entries : List Value} {errors : List ValidationError}
    (hjson : IsJson N.read (.obj config))
    (hentries : config.lookup "models".toList = some (.arr entries))
    (hvalidate : validate isPrintable config = .ok errors) (revision : ℤ) :
    let sound : Fields := [("models".toList, .arr (withoutErrors 0 entries errors))]
    validate isPrintable sound = .ok [] ∧
      (loadConfig isPrintable N config ⟨[], revision⟩).1 =
        (modelsOf isPrintable N sound).map (fun _ ↦ ()) ∧
      ∀ models, modelsOf isPrintable N sound = .ok models →
        (loadConfig isPrintable N config ⟨[], revision⟩).2 = ⟨models, revision⟩ := by
  have hvalidated : validateEntries isPrintable 0 [] entries = .ok errors := by
    rw [validate, hentries] at hvalidate
    exact hvalidate
  have hsoundEq := soundEntries_eq N hvalidated
  obtain ⟨l, hl, hsound⟩ := @exists_validEntries_soundEntries isPrintable [] 0 entries
  rw [hsoundEq] at hsound
  have hall := (isJson_arr_iff N.read _).mp (isJson_of_lookup hjson hentries)
  have hentriesJson : ∀ e ∈ l, IsJson N.read (.obj e.1) := by
    intro e he
    apply hall
    apply mem_of_mem_withoutErrors
    rw [hsound]
    exact List.mem_map_of_mem he
  have hclean : validate isPrintable
      [("models".toList, .arr (withoutErrors 0 entries errors))] = .ok [] := by
    rw [hsound]
    exact validate_eq_nil_iff.mpr ⟨l, hl, List.lookup_cons_self⟩
  have hmodelsOf : modelsOf isPrintable N
      [("models".toList, .arr (withoutErrors 0 entries errors))] =
      parseEntries N [] (l.map fun e ↦ .obj e.1) := by
    rw [modelsOf, hclean, List.lookup_cons_self, hsound]
    rfl
  obtain ⟨indices, hindices, -⟩ :=
    @errorIndices_validateEntries N isPrintable [] config 0 entries errors hvalidated
  have hload : loadConfig isPrintable N config ⟨[], revision⟩ =
      ((loadEntries N [] 0 [] (l.map fun e ↦ .obj e.1)).1,
        ⟨(loadEntries N [] 0 [] (l.map fun e ↦ .obj e.1)).2, revision⟩) := by
    have heq : loadEntries N indices 0 [] entries =
        loadEntries N [] 0 [] (l.map fun e ↦ .obj e.1) := by
      rw [loadEntries_eq hvalidated hindices (fun _ _ ↦ Iff.rfl) 0, hsoundEq, hsound]
    rw [loadConfig, hvalidate]
    dsimp only
    rw [hindices, hentries]
    dsimp only [Option.getD_some]
    rw [heq]
  obtain ⟨hresult, hmodels⟩ := @loadEntries_of_validEntries N [] l [] hentriesJson hl (by simp) 0
  dsimp only
  rw [hmodelsOf, hload]
  exact ⟨hclean, hresult, fun models h ↦ congrArg (ModelRegistry.mk · revision) (hmodels models h)⟩

/-- A file with a model that has no name, and one that has. -/
def flawedEntries : List Value := [.obj [], .obj (plainModel "small".toList)]

theorem isJson_flawed : IsJson plainNumbers.read (.obj [("models".toList, .arr flawedEntries)]) := by
  have hempty : IsJson plainNumbers.read (.obj []) := by simp [isJson_obj_iff]
  exact isJson_models (by simp [flawedEntries, isJson_plainModel, hempty])

theorem loadConfig_flawed : ∃ errors,
    validate (fun _ ↦ true) [("models".toList, .arr flawedEntries)] = .ok errors ∧
    (let sound : Fields := [("models".toList, .arr (withoutErrors 0 flawedEntries errors))]
    validate (fun _ ↦ true) sound = .ok [] ∧
      (loadConfig (fun _ ↦ true) plainNumbers [("models".toList, .arr flawedEntries)] ⟨[], 0⟩).1 =
        (modelsOf (fun _ ↦ true) plainNumbers sound).map (fun _ ↦ ()) ∧
      ∀ models, modelsOf (fun _ ↦ true) plainNumbers sound = .ok models →
        (loadConfig (fun _ ↦ true) plainNumbers [("models".toList, .arr flawedEntries)] ⟨[], 0⟩).2 =
          ⟨models, 0⟩) :=
  ⟨_, rfl, loadConfig_eq isJson_flawed List.lookup_cons_self rfl 0⟩

end AxonGateway.Registry
