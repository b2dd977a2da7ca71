import AxonGateway.Events.Envelope

/-!
# The parts of an envelope

What it takes for an event, a destination and their identity to be written and to be decoded. A
dictionary with given fields is, up to its order, the list of its items.
-/

namespace AxonGateway.Events

open PyValue JsonText Outcome

/-! ### Dictionaries with given fields -/

theorem keys_nodup {names : List String} (h : names.Nodup) : (names.map String.toList).Nodup :=
  h.map fun _ _ heq ↦ String.toList_inj.mp heq

theorem hasFields_iff {fields : Fields} {names : List String} (h : (fields.map Prod.fst).Nodup)
    (hnames : names.Nodup) :
    hasFields fields names = true ↔ (fields.map Prod.fst).Perm (names.map String.toList) := by
  rw [List.perm_ext_iff_of_nodup h (keys_nodup hnames), hasFields, Bool.and_eq_true,
    List.all_eq_true, List.all_eq_true]
  simp only [List.contains_iff_mem]
  exact ⟨fun hsame k ↦ ⟨hsame.1 k, hsame.2 k⟩,
    fun hsame ↦ ⟨fun k ↦ (hsame k).mp, fun k ↦ (hsame k).mpr⟩⟩

/-- A dictionary is given by the items of its names. -/
theorem perm_of_hasFields {fields : Fields} {names : List String}
    (h : (fields.map Prod.fst).Nodup) (hnames : names.Nodup)
    (hfields : hasFields fields names = true) :
    fields.Perm (names.map fun name ↦ (name.toList, item fields name)) := by
  have hself : (fields.map Prod.fst).map (fun k ↦ (k, (fields.lookup k).getD .null)) = fields := by
    rw [List.map_map]
    refine (List.map_congr_left fun field hfield ↦ ?_).trans (List.map_id _)
    have hlookup : fields.lookup field.1 = some field.2 := lookup_of_mem h hfield
    rw [Function.comp_apply, hlookup]
    rfl
  have hperm := ((hasFields_iff h hnames).mp hfields).map fun k ↦ (k, (fields.lookup k).getD .null)
  rw [hself, List.map_map] at hperm
  exact hperm

theorem lookup_eq_of_perm {fields fields' : Fields} (h : fields.Perm fields')
    (hnodup : (fields.map Prod.fst).Nodup) (k : Text) : fields.lookup k = fields'.lookup k := by
  have hnodup' : (fields'.map Prod.fst).Nodup := (h.map Prod.fst).nodup_iff.mp hnodup
  cases hlookup : fields'.lookup k with
  | none =>
      rw [List.lookup_eq_none_iff] at hlookup ⊢
      exact fun field hfield ↦ hlookup field (h.mem_iff.mp hfield)
  | some v => exact lookup_of_mem hnodup (h.mem_iff.mpr (mem_of_lookup hlookup))

/-- Two dictionaries are the same up to their orders when their items are. -/
theorem perm_iff_items {fields fields' : Fields} {names : List String}
    (h : (fields.map Prod.fst).Nodup) (hnames : names.Nodup)
    (hkeys : fields'.map Prod.fst = names.map String.toList)
    (hitems : names.map (item fields') = fields'.map Prod.snd) :
    fields.Perm fields' ↔
      hasFields fields names = true ∧ names.map (item fields) = fields'.map Prod.snd := by
  constructor
  · intro hperm
    refine ⟨(hasFields_iff h hnames).mpr (hkeys ▸ hperm.map Prod.fst), ?_⟩
    rw [← hitems]
    refine List.map_congr_left fun name _ ↦ ?_
    rw [item, item, lookup_eq_of_perm hperm h]
  · rintro ⟨hfields, hsame⟩
    have hperm := perm_of_hasFields h hnames hfields
    have hzip : fields' = (fields'.map Prod.fst).zip (fields'.map Prod.snd) := by
      rw [List.zip_map']
      exact (List.map_id fields').symm
    rwa [← List.zip_map', hsame, ← hkeys, ← hzip] at hperm

/-- The order of a dictionary and of the dictionaries in it does not matter. -/
theorem inOrder_congr {fields fields' : Fields}
    (h : fields.map (fun field ↦ (field.1, sorted field.2)) =
      fields'.map fun field ↦ (field.1, sorted field.2)) : inOrder fields = inOrder fields' := by
  rw [inOrder, inOrder, sortedFields_eq_map, sortedFields_eq_map, h]

theorem inOrder_eq_of_perm {fields fields' : Fields} (h : fields.Perm fields')
    (hnodup : (fields.map Prod.fst).Nodup) : inOrder fields = inOrder fields' := by
  have hperm : (inOrder fields).Perm (inOrder fields') :=
    ((inOrder_perm fields).trans (h.map _)).trans (inOrder_perm fields').symm
  have hkeys : ((inOrder fields).map Prod.fst).Nodup := (keys_inOrder_perm fields).nodup_iff.mpr hnodup
  refine hperm.eq_of_pairwise (fun f g hf hg hfg hgf ↦ ?_) (List.pairwise_insertionSort ByKey _)
    (List.pairwise_insertionSort ByKey _)
  exact List.inj_on_of_nodup_map hkeys hf (hperm.mem_iff.mpr hg) (le_antisymm hfg hgf)

@[simp] theorem inOrder_inOrder (fields : Fields) : inOrder (inOrder fields) = inOrder fields := by
  have h := sorted_sorted (.obj fields)
  rw [sorted_obj, sorted_obj] at h
  exact Value.obj.inj h

/-! ### Parts -/

theorem requiredString_eq_ok_iff {fieldName : String} {allowEmpty : Bool} {v : Value} {t : Text} :
    requiredString fieldName allowEmpty v = .ok t ↔
      v = .str t ∧ (allowEmpty = true ∨ hasText t = true) := by
  cases v with
  | str s =>
      rw [requiredString]
      split_ifs with h
      · simp only [Except.ok.injEq, Value.str.injEq]
        constructor
        · rintro rfl
          exact ⟨rfl, h⟩
        · exact And.left
      · simp only [refuse, reduceCtorEq, false_iff, Value.str.injEq, not_and]
        rintro rfl
        exact h
  | _ => simp [requiredString, refuse]

/-- The texts of the event that must not be blank are not. -/
structure SecurityEvent.Valid (event : SecurityEvent) : Prop where
  eventId : hasText event.eventId = true
  eventType : hasText event.eventType = true
  timestamp : hasText event.timestamp = true
  source : hasText event.source = true
  severity : hasText event.severity = true
  tenantId : hasText event.tenantId = true

structure EventDestination.Valid (destination : EventDestination) : Prop where
  name : hasText destination.name = true
  tenantId : hasText destination.tenantId = true
  eventFilter : (destination.eventFilter.getD []).all hasText = true

theorem eventOf_eq_ok_iff {value : Fields} {event : SecurityEvent} :
    eventOf value = .ok event ↔
      event.Valid ∧ eventFields.map (item value) = event.toDict.map Prod.snd := by
  simp only [eventOf, bind_ok_iff, requiredString_eq_ok_iff, eventFields, SecurityEvent.toDict,
    List.map_cons, List.map_nil, List.cons.injEq, and_true, Bool.false_eq_true, false_or, true_or]
  constructor
  · rintro ⟨eventId, ⟨hid, hidText⟩, eventType, ⟨htype, htypeText⟩, timestamp, ⟨htime, htimeText⟩,
      source, ⟨hsource, hsourceText⟩, severity, ⟨hseverity, hseverityText⟩, tenantId,
      ⟨htenant, htenantText⟩, userId, huser, projectId, hproject, h⟩
    cases hdata : item value "data" with
    | obj data =>
        rw [hdata] at h
        obtain rfl := Except.ok.inj h
        exact ⟨⟨hidText, htypeText, htimeText, hsourceText, hseverityText, htenantText⟩, hid, htype,
          htime, hsource, hseverity, htenant, huser, hproject, rfl⟩
    | _ =>
        rw [hdata] at h
        cases h
  · rintro ⟨hvalid, hid, htype, htime, hsource, hseverity, htenant, huser, hproject, hdata⟩
    refine ⟨_, ⟨hid, hvalid.eventId⟩, _, ⟨htype, hvalid.eventType⟩, _, ⟨htime, hvalid.timestamp⟩, _,
      ⟨hsource, hvalid.source⟩, _, ⟨hseverity, hvalid.severity⟩, _, ⟨htenant, hvalid.tenantId⟩, _,
      huser, _, hproject, ?_⟩
    rw [hdata]

theorem keys_toDict (event : SecurityEvent) :
    event.toDict.map Prod.fst = eventFields.map String.toList := rfl

theorem items_toDict (event : SecurityEvent) :
    eventFields.map (item event.toDict) = event.toDict.map Prod.snd := rfl

theorem nodup_eventFields : eventFields.Nodup := by decide

theorem hasFields_toDict (event : SecurityEvent) : hasFields event.toDict eventFields = true := by
  rw [hasFields_iff (keys_toDict event ▸ keys_nodup nodup_eventFields) nodup_eventFields,
    keys_toDict]

theorem SecurityEvent.eq_of_items {event event' : SecurityEvent}
    (h : event.toDict.map Prod.snd = event'.toDict.map Prod.snd) : event = event' := by
  cases event
  cases event'
  simp only [toDict, List.map_cons, List.cons.injEq, Value.str.injEq, Value.obj.injEq] at h
  simp [h]

theorem SecurityEvent.perm_toDict_iff {value : Fields} (h : (value.map Prod.fst).Nodup)
    (event : SecurityEvent) :
    value.Perm event.toDict ↔ hasFields value eventFields = true ∧
      eventFields.map (item value) = event.toDict.map Prod.snd :=
  perm_iff_items h nodup_eventFields (keys_toDict event) (items_toDict event)

theorem EventDestination.perm_toDict_iff {value : Fields} (h : (value.map Prod.fst).Nodup)
    (destination : EventDestination) :
    value.Perm destination.toDict ↔ hasFields value destinationFields = true ∧
      destinationFields.map (item value) = destination.toDict.map Prod.snd :=
  perm_iff_items h (by decide) rfl rfl

theorem eventSnapshot_eq_ok_iff {event : SecurityEvent} {snapshot : Fields} :
    eventSnapshot event = .ok snapshot ↔ event.Valid ∧ snapshot = event.toDict := by
  rw [eventSnapshot, if_pos (hasFields_toDict event), bind_ok_iff]
  constructor
  · rintro ⟨event', hevent, h⟩
    obtain ⟨hvalid, hitems⟩ := eventOf_eq_ok_iff.mp hevent
    obtain rfl := SecurityEvent.eq_of_items (hitems.symm.trans (items_toDict event))
    exact ⟨hvalid, (Except.ok.inj h).symm⟩
  · rintro ⟨hvalid, rfl⟩
    exact ⟨event, eventOf_eq_ok_iff.mpr ⟨hvalid, items_toDict event⟩, rfl⟩

theorem destinationSnapshot_eq_ok_iff {destination : EventDestination} {snapshot : Fields} :
    destinationSnapshot destination = .ok snapshot ↔
      destination.Valid ∧ snapshot = destination.toDict := by
  simp only [destinationSnapshot, bind_ok_iff, requiredString_eq_ok_iff, Bool.false_eq_true,
    false_or, Value.str.injEq]
  constructor
  · rintro ⟨_, ⟨rfl, hname⟩, _, ⟨rfl, htenant⟩, h⟩
    split_ifs at h with hfilter
    · exact ⟨⟨hname, htenant, hfilter⟩, (Except.ok.inj h).symm⟩
    · cases h
  · rintro ⟨hvalid, rfl⟩
    exact ⟨_, ⟨rfl, hvalid.name⟩, _, ⟨rfl, hvalid.tenantId⟩, if_pos hvalid.eventFilter⟩

/-! ### Identities -/

theorem canonicalJson_eq_ok_iff {v : Value} {t : Text} :
    canonicalJson v = .ok t ↔ finite v = true ∧ t = canonical v := by
  unfold canonicalJson dumpsFinite
  split_ifs with h
  · simp [h, eq_comm]
  · simp [h]

/-- What the identity of a delivery is the hash of. -/
def material (event : SecurityEvent) (destination : EventDestination) : Value :=
  .obj [("tenant_id".toList, .str event.tenantId), ("event".toList, .obj event.toDict),
    ("destination".toList, .obj destination.toDict)]

theorem finite_filterValue (types : Option (List Text)) : finite (filterValue types) = true := by
  cases types with
  | none => rfl
  | some types =>
      rw [filterValue, finite_arr_iff, List.forall_mem_map]
      exact fun _ _ ↦ rfl

theorem finite_event (event : SecurityEvent) :
    finite (.obj event.toDict) = finite (.obj event.data) := by
  rw [Bool.eq_iff_iff, finite_obj_iff, SecurityEvent.toDict]
  simp only [List.forall_mem_cons, List.not_mem_nil, false_imp_iff, implies_true, and_true]
  exact ⟨fun h ↦ h.2.2.2.2.2.2.2.2, fun h ↦ ⟨rfl, rfl, rfl, rfl, rfl, rfl, rfl, rfl, h⟩⟩

theorem finite_destination (destination : EventDestination) :
    finite (.obj destination.toDict) = finite (.obj destination.config) := by
  rw [Bool.eq_iff_iff, finite_obj_iff, EventDestination.toDict]
  simp only [List.forall_mem_cons, List.not_mem_nil, false_imp_iff, implies_true, and_true]
  exact ⟨fun h ↦ h.2.2.1, fun h ↦ ⟨rfl, rfl, h, finite_filterValue _, rfl, rfl⟩⟩

theorem finite_material (event : SecurityEvent) (destination : EventDestination) :
    finite (material event destination) = true ↔
      finite (.obj event.data) = true ∧ finite (.obj destination.config) = true := by
  rw [material, finite_obj_iff, ← finite_event, ← finite_destination]
  simp only [List.forall_mem_cons, List.not_mem_nil, false_imp_iff, implies_true, and_true]
  exact ⟨And.right, fun h ↦ ⟨rfl, h⟩⟩

/-- The event can be written for the destination. -/
structure Deliverable (event : SecurityEvent) (destination : EventDestination) : Prop where
  tenant : event.tenantId = destination.tenantId
  validEvent : event.Valid
  validDestination : destination.Valid
  data : finite (.obj event.data) = true
  config : finite (.obj destination.config) = true

section Hash

variable {sha256 : Text → Text}

theorem deliveryIdentity_eq_ok_iff {event : SecurityEvent} {destination : EventDestination}
    {identity : Text} :
    deliveryIdentity sha256 event destination = .ok identity ↔
      event.Valid ∧ destination.Valid ∧
        (finite (.obj event.data) = true ∧ finite (.obj destination.config) = true) ∧
        identity = sha256 (canonical (material event destination)) := by
  simp only [deliveryIdentity, bind_ok_iff, eventSnapshot_eq_ok_iff, destinationSnapshot_eq_ok_iff,
    canonicalJson_eq_ok_iff, ← finite_material]
  constructor
  · rintro ⟨_, ⟨hevent, rfl⟩, _, ⟨hdestination, rfl⟩, _, ⟨hfinite, rfl⟩, h⟩
    exact ⟨hevent, hdestination, hfinite, (Except.ok.inj h).symm⟩
  · rintro ⟨hevent, hdestination, hfinite, rfl⟩
    exact ⟨_, ⟨hevent, rfl⟩, _, ⟨hdestination, rfl⟩, _, ⟨hfinite, rfl⟩, rfl⟩

theorem Deliverable.identity {event : SecurityEvent} {destination : EventDestination}
    (h : Deliverable event destination) :
    deliveryIdentity sha256 event destination =
      .ok (sha256 (canonical (material event destination))) :=
  deliveryIdentity_eq_ok_iff.mpr ⟨h.validEvent, h.validDestination, ⟨h.data, h.config⟩, rfl⟩

/-- The envelope of a pair. -/
def envelope (sha256 : Text → Text) (event : SecurityEvent) (destination : EventDestination) :
    Fields :=
  envelopeOf outboxSchemaVersion (sha256 (canonical (material event destination))) event.tenantId
    event.toDict destination.toDict

theorem finite_envelope (event : SecurityEvent) (destination : EventDestination) :
    finite (.obj (envelope sha256 event destination)) = true ↔
      finite (.obj event.data) = true ∧ finite (.obj destination.config) = true := by
  rw [envelope, envelopeOf, finite_obj_iff, ← finite_event, ← finite_destination]
  simp only [List.forall_mem_cons, List.not_mem_nil, false_imp_iff, implies_true, and_true]
  exact ⟨fun h ↦ h.2.2.2, fun h ↦ ⟨rfl, rfl, rfl, h⟩⟩

/-- A message is refused only for its size. -/
theorem Deliverable.body_eq {event : SecurityEvent} {destination : EventDestination}
    (h : Deliverable event destination) :
    outboxMessageBody sha256 event destination =
      let text := canonical (.obj (envelope sha256 event destination))
      if outboxMaxMessageBytes < byteLength text then
        refuse "security event outbox message is too large"
      else .ok text := by
  have hevent : eventSnapshot event = .ok event.toDict :=
    eventSnapshot_eq_ok_iff.mpr ⟨h.validEvent, rfl⟩
  have hdestination : destinationSnapshot destination = .ok destination.toDict :=
    destinationSnapshot_eq_ok_iff.mpr ⟨h.validDestination, rfl⟩
  have htext : canonicalJson (.obj (envelope sha256 event destination)) =
      .ok (canonical (.obj (envelope sha256 event destination))) :=
    canonicalJson_eq_ok_iff.mpr ⟨(finite_envelope event destination).mpr ⟨h.data, h.config⟩, rfl⟩
  have hok : ∀ {α β : Type} (a : α) (f : α → Except Raised β), (Except.ok a >>= f) = f a :=
    fun _ _ ↦ rfl
  rw [outboxMessageBody, if_neg (not_not.mpr h.tenant), hevent, hok, hdestination, hok, h.identity,
    hok, ← envelope, htext, hok]

theorem outboxMessageBody_eq_ok_iff {event : SecurityEvent} {destination : EventDestination}
    {body : Text} :
    outboxMessageBody sha256 event destination = .ok body ↔
      Deliverable event destination ∧ body = canonical (.obj (envelope sha256 event destination)) ∧
        byteLength body ≤ outboxMaxMessageBytes := by
  have hpair : outboxMessageBody sha256 event destination = .ok body →
      Deliverable event destination := by
    intro h
    unfold outboxMessageBody at h
    split_ifs at h with htenant
    · cases h
    · simp only [bind_ok_iff, eventSnapshot_eq_ok_iff, destinationSnapshot_eq_ok_iff,
        deliveryIdentity_eq_ok_iff] at h
      obtain ⟨_, ⟨hevent, -⟩, _, ⟨hdestination, -⟩, _, ⟨-, -, hfinite, -⟩, -⟩ := h
      exact ⟨not_not.mp htenant, hevent, hdestination, hfinite.1, hfinite.2⟩
  constructor
  · intro h
    have hdeliverable := hpair h
    rw [hdeliverable.body_eq] at h
    dsimp only at h
    split_ifs at h with hsize
    · cases h
    · obtain rfl := Except.ok.inj h
      exact ⟨hdeliverable, rfl, not_lt.mp hsize⟩
  · rintro ⟨hdeliverable, rfl, hsize⟩
    rw [hdeliverable.body_eq]
    exact if_neg (not_lt.mpr hsize)

end Hash

/-! ### The parts of an envelope -/

theorem decodeEvent_eq_ok_iff {tenantId : Text} {v : Value} {event : SecurityEvent} :
    decodeEvent tenantId v = .ok event ↔
      event.Valid ∧ event.tenantId = tenantId ∧ ∃ value, v = .obj value ∧
        hasFields value eventFields = true ∧
        eventFields.map (item value) = event.toDict.map Prod.snd := by
  cases v with
  | obj value =>
      simp only [decodeEvent, Value.obj.injEq, exists_eq_left']
      split_ifs with hfields
      · rw [bind_ok_iff]
        constructor
        · rintro ⟨_, hevent, h⟩
          split_ifs at h with htenant
          · obtain rfl := Except.ok.inj h
            obtain ⟨hvalid, hitems⟩ := eventOf_eq_ok_iff.mp hevent
            exact ⟨hvalid, htenant, hfields, hitems⟩
          · cases h
        · rintro ⟨hvalid, htenant, -, hitems⟩
          exact ⟨event, eventOf_eq_ok_iff.mpr ⟨hvalid, hitems⟩, if_pos htenant⟩
      · simp [refuse, hfields]
  | _ => simp [decodeEvent, refuse]

theorem decodeType_eq_ok_iff {v : Value} {destinationType : DestinationType} :
    decodeType v = .ok destinationType ↔ v = .str destinationType.value := by
  cases v with
  | str t =>
      have hfind : ∀ d, DestinationType.ofValue t = some d ↔ t = d.value := by
        intro d
        unfold DestinationType.ofValue
        constructor
        · intro h
          have hd := List.find?_some h
          exact (of_decide_eq_true hd).symm
        · rintro rfl
          cases d <;> rfl
      rw [decodeType, Value.str.injEq, ← hfind]
      cases DestinationType.ofValue t <;> simp [refuse]
  | _ => simp [decodeType, refuse]

theorem filterText_eq_some_iff {v : Value} {t : Text} :
    filterText v = some t ↔ v = .str t ∧ hasText t = true := by
  cases v with
  | str s =>
      rw [filterText]
      split_ifs with h
      · simp only [Option.some.injEq, Value.str.injEq]
        constructor
        · rintro rfl
          exact ⟨rfl, h⟩
        · exact And.left
      · simp only [Value.str.injEq, not_and, false_iff]
        rintro rfl
        exact h
  | _ => simp [filterText]

theorem mapM_filterText_eq_some_iff {items : List Value} {types : List Text} :
    items.mapM filterText = some types ↔ items = types.map .str ∧ types.all hasText = true := by
  induction items generalizing types with
  | nil =>
      rw [List.mapM_nil]
      cases types <;> simp
  | cons v items ih =>
      rw [List.mapM_cons]
      cases types with
      | nil =>
          cases filterText v <;> cases items.mapM filterText <;> simp
      | cons t types =>
          have hhead := filterText_eq_some_iff (v := v) (t := t)
          rw [List.map_cons, List.all_cons, Bool.and_eq_true, List.cons.injEq]
          constructor
          · intro h
            obtain ⟨t', ht, h⟩ := Option.bind_eq_some_iff.mp h
            obtain ⟨types', htypes, h⟩ := Option.bind_eq_some_iff.mp h
            obtain ⟨rfl, rfl⟩ := List.cons.inj (Option.some.inj h)
            obtain ⟨rfl, hall⟩ := ih.mp htypes
            obtain ⟨hv, htext⟩ := hhead.mp ht
            exact ⟨⟨hv, rfl⟩, htext, hall⟩
          · rintro ⟨⟨hv, hitems⟩, ht, hall⟩
            rw [hhead.mpr ⟨hv, ht⟩, ih.mpr ⟨hitems, hall⟩]
            rfl

theorem decodeFilter_eq_ok_iff {v : Value} {types : Option (List Text)} :
    decodeFilter v = .ok types ↔ v = filterValue types ∧ (types.getD []).all hasText = true := by
  cases v with
  | null => cases types <;> simp [decodeFilter, filterValue]
  | arr items =>
      rw [decodeFilter]
      cases types with
      | none => cases items.mapM filterText <;> simp [filterValue, refuse]
      | some types =>
          rw [filterValue, Value.arr.injEq, Option.getD_some, ← mapM_filterText_eq_some_iff]
          cases items.mapM filterText <;> simp [refuse]
  | _ => cases types <;> simp [decodeFilter, filterValue, refuse]

theorem decodeConfig_eq_ok_iff {v : Value} {config : Fields} :
    decodeConfig v = .ok config ↔ v = .obj config := by
  cases v <;> simp [decodeConfig, refuse]

theorem decodeEnabled_eq_ok_iff {v : Value} {u : Unit} :
    decodeEnabled v = .ok u ↔ v = .bool true := by
  cases v with
  | bool b => cases b <;> simp [decodeEnabled, refuse]
  | _ => simp [decodeEnabled, refuse]

theorem decodeDestination_eq_ok_iff {tenantId : Text} {event : SecurityEvent} {v : Value}
    {destination : EventDestination} :
    decodeDestination tenantId event v = .ok destination ↔
      destination.Valid ∧ destination.tenantId = tenantId ∧ destination.enabled = true ∧
        destination.Admits event ∧ ∃ value, v = .obj value ∧
          hasFields value destinationFields = true ∧
          destinationFields.map (item value) = destination.toDict.map Prod.snd := by
  cases v with
  | obj value =>
      simp only [decodeDestination, Value.obj.injEq, exists_eq_left', destinationFields,
        EventDestination.toDict, List.map_cons, List.map_nil, List.cons.injEq, and_true]
      split_ifs with hfields
      · simp only [bind_ok_iff, requiredString_eq_ok_iff, Bool.false_eq_true, false_or]
        constructor
        · rintro ⟨tenant, ⟨htenant, htenantText⟩, h⟩
          split_ifs at h with hsame
          · cases h
          simp only [bind_ok_iff, requiredString_eq_ok_iff, decodeType_eq_ok_iff,
            decodeConfig_eq_ok_iff, decodeFilter_eq_ok_iff, decodeEnabled_eq_ok_iff,
            Bool.false_eq_true, false_or] at h
          obtain ⟨name, ⟨hname, hnameText⟩, destinationType, htype, config, hconfig, types,
            ⟨htypes, htypesText⟩, _, henabled, h⟩ := h
          split_ifs at h with hadmits
          · obtain rfl := Except.ok.inj h
            exact ⟨⟨hnameText, htenantText, htypesText⟩, not_not.mp hsame, rfl, hadmits, hfields,
              hname, htype, hconfig, htypes, henabled, htenant⟩
          · cases h
        · rintro ⟨hvalid, hsame, henabled, hadmits, -, hname, htype, hconfig, htypes, hflag, htenant⟩
          refine ⟨_, ⟨htenant, hvalid.tenantId⟩, ?_⟩
          rw [if_neg (not_not.mpr hsame)]
          simp only [bind_ok_iff, requiredString_eq_ok_iff, decodeType_eq_ok_iff,
            decodeConfig_eq_ok_iff, decodeFilter_eq_ok_iff, decodeEnabled_eq_ok_iff,
            Bool.false_eq_true, false_or]
          refine ⟨_, ⟨hname, hvalid.name⟩, _, htype, _, hconfig, _, ⟨htypes, hvalid.eventFilter⟩, (),
            hflag.trans (congrArg Value.bool henabled), ?_⟩
          have hself : (⟨destination.name, destination.destinationType, destination.config,
              destination.eventFilter, true, destination.tenantId⟩ : EventDestination) =
              destination := by
            rw [← henabled]
          rw [hself, if_pos hadmits]
      · simp [refuse, hfields]
  | _ => simp [decodeDestination, refuse]

end AxonGateway.Events
