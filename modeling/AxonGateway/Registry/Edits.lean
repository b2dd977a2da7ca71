import AxonGateway.Registry.Adoption

/-!
# Edits of an administrator

An edit takes the exported registry of the instance that serves it to the document that is published.
-/

namespace AxonGateway.Registry

open PyValue Screening Adapters JsonText Outcome

inductive Edit where
  | create (body : Fields)
  | update (modelName : Text) (body : Fields)
  | delete (modelName : Text)

/-- The entry that `create_model` appends. -/
def newEntry (body : Fields) : Fields :=
  [("name".toList, getOr body "name".toList .null),
    ("description".toList, getOr body "description".toList (.str [])),
    ("routing_strategy".toList, getOr body "routing_strategy".toList (.str "round-robin".toList)),
    ("providers".toList, getOr body "providers".toList (.arr []))] ++
    (((body.lookup "capabilities".toList).filter fun v ↦ !isNull v).toList.map
      fun v ↦ ("capabilities".toList, v)) ++
    ((body.lookup "max_context_tokens".toList).toList.map fun v ↦ ("max_context_tokens".toList, v))

/-- `entry.pop(key, None)` -/
def pop (entry : Fields) (key : Text) : Fields := entry.filter fun field ↦ field.1 != key

def updateField (body : Fields) (entry : Fields) (key : Text) : Fields :=
  match body.lookup key with
  | some v => set entry key v
  | none => entry

def updateOptionalField (body : Fields) (entry : Fields) (key : Text) : Fields :=
  match body.lookup key with
  | some .null => pop entry key
  | some v => set entry key v
  | none => entry

/-- The entry that `update_model` makes of one that it found. -/
def updatedEntry (body : Fields) (entry : Fields) : Fields :=
  let entry := ["description", "routing_strategy", "providers"].foldl
    (fun entry key ↦ updateField body entry key.toList) entry
  ["capabilities", "max_context_tokens"].foldl
    (fun entry key ↦ updateOptionalField body entry key.toList) entry

/-- The entries with the first one of that name changed. -/
def updateFirst (modelName : Text) (body : Fields) : List ModelConfig → List Value
  | [] => []
  | m :: rest =>
      if m.name = modelName then
        .obj (updatedEntry body m.config) :: rest.map fun m ↦ .obj m.config
      else .obj m.config :: updateFirst modelName body rest

/-- The document that an edit asks for; nothing where the model to create has no name or the model to
change is not there. -/
def Edit.candidate (models : List (Text × ModelConfig)) : Edit → Option Fields
  | .create body =>
      if (getOr body "name".toList .null).truthy then
        some [("models".toList,
          .arr ((models.map fun e ↦ .obj e.2.config) ++ [.obj (newEntry body)]))]
      else none
  | .update modelName body =>
      if (models.lookup modelName).isSome then
        some [("models".toList, .arr (updateFirst modelName body (models.map Prod.snd)))]
      else none
  | .delete modelName =>
      if (models.lookup modelName).isSome then
        some (toConfig (models.filter fun e ↦ e.2.name != modelName))
      else none

variable {N : Numbers}

/-- The body of the request is one that a text can be read as. -/
def Edit.IsJson (N : Numbers) : Edit → Prop
  | .create body => JsonText.IsJson N.read (.obj body)
  | .update _ body => JsonText.IsJson N.read (.obj body)
  | .delete _ => True

theorem isJson_set {fields : Fields} (h : IsJson N.read (.obj fields)) (key : Text) {v : Value}
    (hv : IsJson N.read v) : IsJson N.read (.obj (set fields key v)) := by
  obtain ⟨hnodup, h⟩ := (isJson_obj_iff N.read fields).mp h
  refine (isJson_obj_iff N.read _).mpr ⟨nodup_set hnodup key v, fun field hfield ↦ ?_⟩
  rcases mem_set hfield with rfl | hfield
  · exact hv
  · exact h field hfield

theorem isJson_pop {fields : Fields} (h : IsJson N.read (.obj fields)) (key : Text) :
    IsJson N.read (.obj (pop fields key)) := by
  obtain ⟨hnodup, h⟩ := (isJson_obj_iff N.read fields).mp h
  refine (isJson_obj_iff N.read _).mpr ⟨?_, fun field hfield ↦ h field (List.mem_of_mem_filter hfield)⟩
  exact hnodup.sublist (List.filter_sublist.map Prod.fst)

theorem isJson_foldl {step : Fields → String → Fields} {keys : List String} {fields : Fields}
    (hstep : ∀ fields key, IsJson N.read (.obj fields) → IsJson N.read (.obj (step fields key)))
    (h : IsJson N.read (.obj fields)) : IsJson N.read (.obj (keys.foldl step fields)) := by
  induction keys generalizing fields with
  | nil => exact h
  | cons key keys ih => exact ih (hstep fields key h)

theorem isJson_updatedEntry {body entry : Fields} (hbody : IsJson N.read (.obj body))
    (h : IsJson N.read (.obj entry)) : IsJson N.read (.obj (updatedEntry body entry)) := by
  unfold updatedEntry
  apply isJson_foldl
  · intro fields key hfields
    unfold updateOptionalField
    split
    · exact isJson_pop hfields _
    · rename_i v hlookup
      exact isJson_set hfields _ (isJson_of_lookup hbody hlookup)
    · exact hfields
  · apply isJson_foldl _ h
    intro fields key hfields
    unfold updateField
    cases hlookup : body.lookup key.toList with
    | none => exact hfields
    | some v => exact isJson_set hfields _ (isJson_of_lookup hbody hlookup)

theorem isJson_newEntry {body : Fields} (h : IsJson N.read (.obj body)) :
    IsJson N.read (.obj (newEntry body)) := by
  have hname : IsJson N.read (getOr body "name".toList .null) := isJson_getOr h _ trivial
  have hdescription : IsJson N.read (getOr body "description".toList (.str [])) :=
    isJson_getOr h _ trivial
  have hstrategy : IsJson N.read
      (getOr body "routing_strategy".toList (.str "round-robin".toList)) :=
    isJson_getOr h _ trivial
  have hproviders : IsJson N.read (getOr body "providers".toList (.arr [])) :=
    isJson_getOr h _ ((isJson_arr_iff N.read []).mpr (by simp))
  have hcapabilities : ∀ v ∈ (body.lookup "capabilities".toList).filter (fun v ↦ !isNull v),
      IsJson N.read v := fun v hv ↦ isJson_of_lookup h (Option.mem_filter_iff.mp hv).1
  have htokens : ∀ v ∈ body.lookup "max_context_tokens".toList, IsJson N.read v :=
    fun v hv ↦ isJson_of_lookup h hv
  rw [isJson_obj_iff]
  unfold newEntry
  generalize (body.lookup "capabilities".toList).filter (fun v ↦ !isNull v) = capabilities at *
  generalize body.lookup "max_context_tokens".toList = tokens at *
  constructor
  · cases capabilities <;> cases tokens <;> simp
  · cases capabilities <;> cases tokens <;> simp_all

theorem isJson_updateFirst {modelName : Text} {body : Fields} {configs : List ModelConfig}
    (hbody : IsJson N.read (.obj body)) (h : ∀ m ∈ configs, m.WellFormed N) :
    ∀ v ∈ updateFirst modelName body configs, IsJson N.read v := by
  induction configs with
  | nil => simp [updateFirst]
  | cons m rest ih =>
      obtain ⟨hm, hrest⟩ := List.forall_mem_cons.mp h
      rw [updateFirst]
      split_ifs
      · refine List.forall_mem_cons.mpr ⟨isJson_updatedEntry hbody (isJson_config hm), ?_⟩
        rw [List.forall_mem_map]
        exact fun m' hm' ↦ isJson_config (hrest m' hm')
      · exact List.forall_mem_cons.mpr ⟨isJson_config hm, ih hrest⟩

/-- What is asked for is a document that a text can be read as. -/
theorem Edit.isJson_candidate {edit : Edit} {models : List (Text × ModelConfig)} {config : Fields}
    (hedit : edit.IsJson N) (h : WellFormed N models) (hconfig : edit.candidate models = some config) :
    JsonText.IsJson N.read (.obj config) := by
  have hentries : ∀ v ∈ models.map fun e ↦ Value.obj e.2.config, JsonText.IsJson N.read v := by
    rw [List.forall_mem_map]
    exact fun e he ↦ isJson_config (h.valid e he)
  cases edit with
  | create body =>
      rw [Edit.candidate, Option.ite_none_right_eq_some] at hconfig
      obtain ⟨-, hconfig⟩ := hconfig
      rw [← Option.some.inj hconfig]
      apply isJson_models
      exact List.forall_mem_append.mpr
        ⟨hentries, List.forall_mem_singleton.mpr (isJson_newEntry hedit)⟩
  | update modelName body =>
      rw [Edit.candidate, Option.ite_none_right_eq_some] at hconfig
      obtain ⟨-, hconfig⟩ := hconfig
      rw [← Option.some.inj hconfig]
      apply isJson_models
      apply isJson_updateFirst hedit
      rw [List.forall_mem_map]
      exact h.valid
  | delete modelName =>
      rw [Edit.candidate, Option.ite_none_right_eq_some] at hconfig
      obtain ⟨-, hconfig⟩ := hconfig
      rw [← Option.some.inj hconfig]
      apply isJson_models
      rw [List.forall_mem_map]
      exact fun e he ↦ isJson_config (h.valid e (List.mem_of_mem_filter he))

end AxonGateway.Registry
