import AxonGateway.Events.Parts

/-!
# Round trips of envelopes

What is decoded from an envelope is the pair it was written for, and what any text is decoded to
has an envelope again.
-/

namespace AxonGateway.Events

open PyValue JsonText Outcome

/-! ### Whole messages -/

theorem uniqueJsonObject_eq (pairs : Fields) :
    uniqueJsonObject pairs = if (pairs.map Prod.fst).Nodup then some pairs else none := by
  have hfold : ∀ pairs value : Fields, (value.map Prod.fst).Nodup →
      pairs.foldlM (fun value pair ↦
        if (value.lookup pair.1).isSome then none else some (set value pair.1 pair.2)) value =
      if ((value ++ pairs).map Prod.fst).Nodup then some (value ++ pairs) else none := by
    intro pairs
    induction pairs with
    | nil =>
        intro value hvalue
        rw [List.append_nil, if_pos hvalue]
        rfl
    | cons pair pairs ih =>
        intro value hvalue
        rw [List.foldlM_cons]
        cases hlookup : value.lookup pair.1 with
        | some v =>
            have hmem : (pair.1, v).1 ∈ value.map Prod.fst :=
              List.mem_map_of_mem (mem_of_lookup hlookup)
            have hdup : ¬ ((value ++ pair :: pairs).map Prod.fst).Nodup := by
              rw [List.map_append, List.nodup_append]
              exact fun h ↦ h.2.2 _ hmem _ (by simp) rfl
            rw [if_neg hdup]
            rfl
        | none =>
            have hnew : pair.1 ∉ value.map Prod.fst := by
              intro hmem
              obtain ⟨field, hfield, heq⟩ := List.mem_map.mp hmem
              have hne := List.lookup_eq_none_iff.mp hlookup field hfield
              simp [heq] at hne
            have hnodup : ((value ++ [pair]).map Prod.fst).Nodup := by
              rw [List.map_append, List.map_singleton]
              exact List.nodup_append.mpr ⟨hvalue, List.nodup_singleton _, fun k hk k' hk' heq ↦
                hnew (List.mem_singleton.mp hk' ▸ heq ▸ hk)⟩
            have hset : set value pair.1 pair.2 = value ++ [pair] := set_of_lookup_eq_none hlookup _
            rw [if_neg (by simp), hset]
            refine (ih (value ++ [pair]) hnodup).trans ?_
            rw [List.append_assoc, List.singleton_append]
  exact hfold pairs [] List.nodup_nil

/-- How numbers are read: each number is spelled as it is written again. -/
structure Numerals (number : Text → Value) : Prop where
  isJson : ∀ t, IsJson number (number t)
  one : number "1".toList = .number "1".toList

section Messages

variable {sha256 : Text → Text} {number : Text → Value}

theorem outboxHooks_object (fields : Fields) : (outboxHooks number).object fields =
    if (fields.map Prod.fst).Nodup then some (.obj fields) else none := by
  unfold outboxHooks
  dsimp only
  rw [uniqueJsonObject_eq]
  split_ifs <;> rfl

theorem Numerals.isJson_of_loads (hnumber : Numerals number) {body : Text} {v : Value}
    (h : loadsHooked (outboxHooks number) body = some v) : IsJson number v := by
  refine isJson_of_hooked (H := outboxHooks number) hnumber.isJson (fun t v h ↦ by cases h)
    (fun members v hmembers hv ↦ ?_) h
  rw [outboxHooks_object] at hv
  split_ifs at hv with hnodup
  obtain rfl := Option.some.inj hv
  exact (isJson_obj_iff number members).mpr ⟨hnodup, hmembers⟩

theorem decodeEnvelope_eq_ok_iff {fields : Fields} {event : SecurityEvent}
    {destination : EventDestination} :
    decodeEnvelope sha256 fields = .ok (event, destination) ↔
      isSchemaVersion (item fields "schema_version") = true ∧
      item fields "tenant_id" = .str event.tenantId ∧
      decodeEvent event.tenantId (item fields "event") = .ok event ∧
      decodeDestination event.tenantId event (item fields "destination") = .ok destination ∧
      ∃ deliveryId, item fields "delivery_id" = .str deliveryId ∧ isDigest deliveryId = true ∧
        deliveryIdentity sha256 event destination = .ok deliveryId := by
  unfold decodeEnvelope
  split_ifs with hversion
  · simp only [bind_ok_iff, requiredString_eq_ok_iff, Bool.false_eq_true, false_or]
    constructor
    · rintro ⟨tenantId, ⟨htenant, -⟩, event', hevent, destination', hdestination, h⟩
      cases hid : item fields "delivery_id" with
      | str deliveryId =>
          rw [hid] at h
          dsimp only at h
          split_ifs at h with hdigest
          · obtain ⟨identity, hidentity, h⟩ := bind_ok_iff.mp h
            split_ifs at h with hsame
            · obtain ⟨rfl, rfl⟩ := Prod.mk.inj (Except.ok.inj h)
              obtain ⟨-, rfl, -⟩ := decodeEvent_eq_ok_iff.mp hevent
              exact ⟨hversion, htenant, hevent, hdestination, _, rfl, hdigest, hsame ▸ hidentity⟩
            · cases h
          · cases h
      | _ =>
          rw [hid] at h
          cases h
    · rintro ⟨-, htenant, hevent, hdestination, deliveryId, hid, hdigest, hidentity⟩
      refine ⟨_, ⟨htenant, (decodeEvent_eq_ok_iff.mp hevent).1.tenantId⟩, _, hevent, _,
        hdestination, ?_⟩
      rw [hid]
      dsimp only
      rw [if_pos hdigest, hidentity]
      exact if_pos rfl
  · simp [refuse, hversion]

theorem decodeOutboxMessage_eq_ok_iff {body : Text} {pair : SecurityEvent × EventDestination} :
    decodeOutboxMessage sha256 number (.str body) = .ok pair ↔
      byteLength body ≤ outboxMaxMessageBytes ∧ ∃ fields,
        loadsHooked (outboxHooks number) body = some (.obj fields) ∧
        hasFields fields outboxFields = true ∧ decodeEnvelope sha256 fields = .ok pair := by
  cases body with
  | nil =>
      constructor
      · intro h
        cases h
      · rintro ⟨-, _, h, -⟩
        cases h
  | cons c body =>
      rw [decodeOutboxMessage]
      · split_ifs with hsize
        · simp [refuse, not_le.mpr hsize]
        · simp only [not_lt.mp hsize, true_and]
          cases loadsHooked (outboxHooks number) (c :: body) with
          | none => simp [refuse]
          | some v =>
              cases v with
              | obj fields =>
                  simp only [Option.some.injEq, Value.obj.injEq, exists_eq_left']
                  split_ifs with hfields
                  · simp [hfields]
                  · simp [refuse, hfields]
              | _ => simp [refuse]
      · simp

theorem nodup_of_item {fields value : Fields} (h : IsJson number (.obj fields)) {name : String}
    (hvalue : item fields name = .obj value) : (value.map Prod.fst).Nodup := by
  unfold item at hvalue
  cases hlookup : fields.lookup name.toList with
  | none =>
      rw [hlookup] at hvalue
      cases hvalue
  | some v =>
      rw [hlookup, Option.getD_some] at hvalue
      have hv := isJson_of_lookup h hlookup
      rw [hvalue] at hv
      exact ((isJson_obj_iff number value).mp hv).1

/-- The fields are those of an envelope of the pair, up to the orders of the dictionaries and the
spelling of the version. -/
def Carries (sha256 : Text → Text) (fields : Fields) (version : Value) (event : SecurityEvent)
    (destination : EventDestination) : Prop :=
  ∃ eventValue destinationValue, eventValue.Perm event.toDict ∧
    destinationValue.Perm destination.toDict ∧
    fields.Perm (envelopeOf version (sha256 (canonical (material event destination))) event.tenantId
      eventValue destinationValue)

theorem perm_envelopeOf_iff {fields : Fields} (h : (fields.map Prod.fst).Nodup) (version : Value)
    (deliveryId tenantId : Text) (eventValue destinationValue : Fields) :
    fields.Perm (envelopeOf version deliveryId tenantId eventValue destinationValue) ↔
      hasFields fields outboxFields = true ∧ item fields "schema_version" = version ∧
        item fields "delivery_id" = .str deliveryId ∧ item fields "tenant_id" = .str tenantId ∧
        item fields "event" = .obj eventValue ∧ item fields "destination" = .obj destinationValue := by
  rw [perm_iff_items h (show outboxFields.Nodup by decide) rfl rfl]
  simp [outboxFields, envelopeOf]

/-- What is decoded is exactly what an envelope carries to a destination that may have it. -/
theorem decode_eq_ok_iff (hnumber : Numerals number) {body : Text} {event : SecurityEvent}
    {destination : EventDestination} :
    decodeOutboxMessage sha256 number (.str body) = .ok (event, destination) ↔
      byteLength body ≤ outboxMaxMessageBytes ∧ Deliverable event destination ∧
      destination.enabled = true ∧ destination.Admits event ∧
      isDigest (sha256 (canonical (material event destination))) = true ∧
      ∃ fields version, loadsHooked (outboxHooks number) body = some (.obj fields) ∧
        isSchemaVersion version = true ∧ Carries sha256 fields version event destination := by
  rw [decodeOutboxMessage_eq_ok_iff]
  refine and_congr_right fun _ ↦ ?_
  constructor
  · rintro ⟨fields, hread, hfields, hdecode⟩
    have hjson := hnumber.isJson_of_loads hread
    have hnodup := ((isJson_obj_iff number fields).mp hjson).1
    obtain ⟨hversion, htenant, hevent, hdestination, deliveryId, hid, hdigest, hidentity⟩ :=
      decodeEnvelope_eq_ok_iff.mp hdecode
    obtain ⟨hvalidEvent, -, eventValue, heventValue, heventFields, heventItems⟩ :=
      decodeEvent_eq_ok_iff.mp hevent
    obtain ⟨hvalidDestination, hsame, henabled, hadmits, destinationValue, hdestinationValue,
      hdestinationFields, hdestinationItems⟩ := decodeDestination_eq_ok_iff.mp hdestination
    obtain ⟨-, -, hfinite, rfl⟩ := deliveryIdentity_eq_ok_iff.mp hidentity
    refine ⟨⟨hsame.symm, hvalidEvent, hvalidDestination, hfinite.1, hfinite.2⟩, henabled, hadmits,
      hdigest, fields, _, hread, hversion, eventValue, destinationValue, ?_, ?_, ?_⟩
    · exact (event.perm_toDict_iff (nodup_of_item hjson heventValue)).mpr ⟨heventFields, heventItems⟩
    · exact (destination.perm_toDict_iff (nodup_of_item hjson hdestinationValue)).mpr
        ⟨hdestinationFields, hdestinationItems⟩
    · exact (perm_envelopeOf_iff hnodup _ _ _ _ _).mpr
        ⟨hfields, rfl, hid, htenant, heventValue, hdestinationValue⟩
  · rintro ⟨hpair, henabled, hadmits, hdigest, fields, version, hread, hversion, eventValue,
      destinationValue, heventPerm, hdestinationPerm, hperm⟩
    have hjson := hnumber.isJson_of_loads hread
    have hnodup := ((isJson_obj_iff number fields).mp hjson).1
    obtain ⟨hfields, rfl, hid, htenant, heventValue, hdestinationValue⟩ :=
      (perm_envelopeOf_iff hnodup _ _ _ _ _).mp hperm
    obtain ⟨heventFields, heventItems⟩ :=
      (event.perm_toDict_iff (nodup_of_item hjson heventValue)).mp heventPerm
    obtain ⟨hdestinationFields, hdestinationItems⟩ :=
      (destination.perm_toDict_iff (nodup_of_item hjson hdestinationValue)).mp hdestinationPerm
    refine ⟨fields, hread, hfields, decodeEnvelope_eq_ok_iff.mpr ⟨hversion, htenant,
      decodeEvent_eq_ok_iff.mpr ⟨hpair.validEvent, rfl, _, heventValue, heventFields, heventItems⟩,
      decodeDestination_eq_ok_iff.mpr ⟨hpair.validDestination, hpair.tenant.symm, henabled, hadmits,
        _, hdestinationValue, hdestinationFields, hdestinationItems⟩,
      _, hid, hdigest, hpair.identity⟩⟩

/-! ### There and back -/

/-- The event with its data in the order of the keys. -/
def SecurityEvent.inOrder (event : SecurityEvent) : SecurityEvent :=
  { event with data := JsonText.inOrder event.data }

/-- The destination with its configuration in the order of the keys. -/
def EventDestination.inOrder (destination : EventDestination) : EventDestination :=
  { destination with config := JsonText.inOrder destination.config }

theorem map_sorted_event (event : SecurityEvent) :
    event.toDict.map (fun field ↦ (field.1, sorted field.2)) = event.inOrder.toDict := by
  simp [SecurityEvent.toDict, SecurityEvent.inOrder]

theorem sorted_filterValue (types : Option (List Text)) :
    sorted (filterValue types) = filterValue types := by
  cases types with
  | none => rfl
  | some types => simp [filterValue]

theorem map_sorted_destination (destination : EventDestination) :
    destination.toDict.map (fun field ↦ (field.1, sorted field.2)) =
      destination.inOrder.toDict := by
  simp [EventDestination.toDict, EventDestination.inOrder, sorted_filterValue]
  rfl

theorem sorted_material (event : SecurityEvent) (destination : EventDestination) :
    canonical (material event.inOrder destination.inOrder) =
      canonical (material event destination) := by
  have hevent : JsonText.inOrder event.inOrder.toDict = JsonText.inOrder event.toDict := by
    refine inOrder_congr ?_
    rw [map_sorted_event, map_sorted_event]
    simp [SecurityEvent.inOrder]
  have hdestination :
      JsonText.inOrder destination.inOrder.toDict = JsonText.inOrder destination.toDict := by
    refine inOrder_congr ?_
    rw [map_sorted_destination, map_sorted_destination]
    simp [EventDestination.inOrder]
  have hsorted : sorted (material event.inOrder destination.inOrder) =
      sorted (material event destination) := by
    rw [material, material, sorted_obj, sorted_obj]
    refine congrArg Value.obj (inOrder_congr ?_)
    simp only [List.map_cons, List.map_nil, sorted_obj, hevent, hdestination]
    rfl
  rw [canonical, canonical, hsorted]

theorem EventDestination.eq_of_items {destination destination' : EventDestination}
    (h : destination.toDict.map Prod.snd = destination'.toDict.map Prod.snd) :
    destination = destination' := by
  have htype : Function.Injective DestinationType.value := by
    intro d d' heq
    cases d <;> cases d' <;> first | rfl | exact absurd heq (by decide)
  have hfilter : Function.Injective filterValue := by
    intro types types' heq
    cases types <;> cases types' <;> simp only [filterValue, Value.arr.injEq, reduceCtorEq] at heq
    · rfl
    · exact congrArg some ((List.map_injective_iff.mpr fun _ _ ↦ Value.str.inj) heq)
  cases destination
  cases destination'
  simp only [toDict, List.map_cons, List.cons.injEq, Value.str.injEq, Value.obj.injEq,
    Value.bool.injEq] at h
  obtain ⟨rfl, htypes, rfl, hfilters, rfl, rfl, -⟩ := h
  obtain rfl := htype htypes
  obtain rfl := hfilter hfilters
  rfl

/-- Fields carry one pair. -/
theorem Carries.unique {fields : Fields} (hjson : IsJson number (.obj fields))
    {version version' : Value} {event event' : SecurityEvent}
    {destination destination' : EventDestination}
    (h : Carries sha256 fields version event destination)
    (h' : Carries sha256 fields version' event' destination') :
    event = event' ∧ destination = destination' := by
  have hnodup := ((isJson_obj_iff number fields).mp hjson).1
  obtain ⟨eventValue, destinationValue, hevent, hdestination, hperm⟩ := h
  obtain ⟨eventValue', destinationValue', hevent', hdestination', hperm'⟩ := h'
  obtain ⟨-, -, -, -, heventItem, hdestinationItem⟩ := (perm_envelopeOf_iff hnodup _ _ _ _ _).mp hperm
  obtain ⟨-, -, -, -, heventItem', hdestinationItem'⟩ :=
    (perm_envelopeOf_iff hnodup _ _ _ _ _).mp hperm'
  obtain rfl := Value.obj.inj (heventItem.symm.trans heventItem')
  obtain rfl := Value.obj.inj (hdestinationItem.symm.trans hdestinationItem')
  have heventNodup := nodup_of_item hjson heventItem
  have hdestinationNodup := nodup_of_item hjson hdestinationItem
  exact ⟨SecurityEvent.eq_of_items
      (((event.perm_toDict_iff heventNodup).mp hevent).2.symm.trans
        ((event'.perm_toDict_iff heventNodup).mp hevent').2),
    EventDestination.eq_of_items
      (((destination.perm_toDict_iff hdestinationNodup).mp hdestination).2.symm.trans
        ((destination'.perm_toDict_iff hdestinationNodup).mp hdestination').2)⟩

theorem isJson_envelope (hnumber : Numerals number) {event : SecurityEvent}
    {destination : EventDestination} (hdata : IsJson number (.obj event.data))
    (hconfig : IsJson number (.obj destination.config)) :
    IsJson number (.obj (envelope sha256 event destination)) := by
  have hversion : IsJson number outboxSchemaVersion := by
    have hone := hnumber.isJson "1".toList
    rwa [hnumber.one] at hone
  have hfilter : IsJson number (filterValue destination.eventFilter) := by
    cases destination.eventFilter with
    | none => trivial
    | some types =>
        rw [filterValue, isJson_arr_iff, List.forall_mem_map]
        exact fun t _ ↦ isJson_str number t
  have hevent : IsJson number (.obj event.toDict) := by
    rw [isJson_obj_iff]
    refine ⟨keys_nodup nodup_eventFields, ?_⟩
    simp [SecurityEvent.toDict, hdata]
  have hdestination : IsJson number (.obj destination.toDict) := by
    rw [isJson_obj_iff]
    refine ⟨keys_nodup (show destinationFields.Nodup by decide), ?_⟩
    have hbool : IsJson number (.bool destination.enabled) := trivial
    simp [EventDestination.toDict, hconfig, hfilter, hbool]
  rw [isJson_obj_iff]
  refine ⟨keys_nodup (show outboxFields.Nodup by decide), ?_⟩
  simp [envelope, envelopeOf, hversion, hevent, hdestination]

theorem Deliverable.inOrder {event : SecurityEvent} {destination : EventDestination}
    (h : Deliverable event destination) : Deliverable event.inOrder destination.inOrder where
  tenant := h.tenant
  validEvent := ⟨h.validEvent.eventId, h.validEvent.eventType, h.validEvent.timestamp,
    h.validEvent.source, h.validEvent.severity, h.validEvent.tenantId⟩
  validDestination := ⟨h.validDestination.name, h.validDestination.tenantId,
    h.validDestination.eventFilter⟩
  data := (finite_sorted (.obj event.data)).trans h.data
  config := (finite_sorted (.obj destination.config)).trans h.config

/-- The message of a pair is read as an envelope that carries it. -/
theorem loads_outboxMessageBody (hnumber : Numerals number) {event : SecurityEvent}
    {destination : EventDestination} (hdata : IsJson number (.obj event.data))
    (hconfig : IsJson number (.obj destination.config)) {body : Text}
    (h : outboxMessageBody sha256 event destination = .ok body) :
    ∃ fields, loadsHooked (outboxHooks number) body = some (.obj fields) ∧
      Carries sha256 fields outboxSchemaVersion event.inOrder destination.inOrder := by
  obtain ⟨hpair, rfl, -⟩ := outboxMessageBody_eq_ok_iff.mp h
  have hjson : IsJson number (.obj (envelope sha256 event destination)) :=
    isJson_envelope hnumber hdata hconfig
  have hfinite : finite (.obj (envelope sha256 event destination)) = true :=
    (finite_envelope event destination).mpr ⟨hpair.data, hpair.config⟩
  refine ⟨JsonText.inOrder (envelope sha256 event destination), ?_, ?_⟩
  · exact IsJson.loadsHooked_canonical (H := outboxHooks number)
      (fun fields hnodup ↦ (outboxHooks_object fields).trans (if_pos hnodup)) hjson hfinite
  · refine ⟨JsonText.inOrder event.toDict, JsonText.inOrder destination.toDict, ?_, ?_, ?_⟩
    · exact map_sorted_event event ▸ inOrder_perm event.toDict
    · exact map_sorted_destination destination ▸ inOrder_perm destination.toDict
    · rw [sorted_material]
      exact inOrder_perm (envelope sha256 event destination)

theorem decode_of_admits (hnumber : Numerals number) (hsha : ∀ t, isDigest (sha256 t) = true)
    {event : SecurityEvent} {destination : EventDestination}
    (hdata : IsJson number (.obj event.data)) (hconfig : IsJson number (.obj destination.config))
    {body : Text} (h : outboxMessageBody sha256 event destination = .ok body)
    (henabled : destination.enabled = true) (hadmits : destination.Admits event) :
    decodeOutboxMessage sha256 number (.str body) = .ok (event.inOrder, destination.inOrder) := by
  obtain ⟨fields, hread, hcarries⟩ := loads_outboxMessageBody hnumber hdata hconfig h
  obtain ⟨hpair, -, hsize⟩ := outboxMessageBody_eq_ok_iff.mp h
  exact (decode_eq_ok_iff hnumber).mpr
    ⟨hsize, hpair.inOrder, henabled, hadmits, hsha _, fields, _, hread, rfl, hcarries⟩

/-- The message of a pair is decoded to the pair, up to the order of keys, where the destination may
have the event, and is refused otherwise. -/
theorem decode_outboxMessageBody_eq_ok_iff (hnumber : Numerals number)
    (hsha : ∀ t, isDigest (sha256 t) = true) {event : SecurityEvent}
    {destination : EventDestination} (hdata : IsJson number (.obj event.data))
    (hconfig : IsJson number (.obj destination.config)) {body : Text}
    (h : outboxMessageBody sha256 event destination = .ok body)
    (pair : SecurityEvent × EventDestination) :
    decodeOutboxMessage sha256 number (.str body) = .ok pair ↔
      destination.enabled = true ∧ destination.Admits event ∧
        pair = (event.inOrder, destination.inOrder) := by
  constructor
  · intro hdecode
    obtain ⟨event', destination'⟩ := pair
    obtain ⟨-, -, henabled, hadmits, -, fields', version, hread', -, hcarries'⟩ :=
      (decode_eq_ok_iff hnumber).mp hdecode
    obtain ⟨fields, hread, hcarries⟩ := loads_outboxMessageBody hnumber hdata hconfig h
    obtain rfl := Value.obj.inj (Option.some.inj (hread.symm.trans hread'))
    obtain ⟨rfl, rfl⟩ := hcarries.unique (hnumber.isJson_of_loads hread) hcarries'
    exact ⟨henabled, hadmits, rfl⟩
  · rintro ⟨henabled, hadmits, rfl⟩
    exact decode_of_admits hnumber hsha hdata hconfig h henabled hadmits

theorem perm_set_version {fields : Fields} (hnodup : (fields.map Prod.fst).Nodup) {version : Value}
    {deliveryId tenantId : Text} {eventValue destinationValue : Fields}
    (h : fields.Perm (envelopeOf version deliveryId tenantId eventValue destinationValue))
    (version' : Value) : (set fields "schema_version".toList version').Perm
      (envelopeOf version' deliveryId tenantId eventValue destinationValue) := by
  obtain ⟨hfields, -, hid, htenant, hevent, hdestination⟩ :=
    (perm_envelopeOf_iff hnodup _ _ _ _ _).mp h
  have hmem : "schema_version".toList ∈ fields.map Prod.fst :=
    (h.map Prod.fst).mem_iff.mpr List.mem_cons_self
  have hkeys : (set fields "schema_version".toList version').map Prod.fst = fields.map Prod.fst := by
    rw [keys_set, if_pos hmem]
  have hkept : ∀ name : String, name.toList ≠ "schema_version".toList →
      item (set fields "schema_version".toList version') name = item fields name :=
    fun name hne ↦ congrArg (fun v ↦ v.getD Value.null) (lookup_set_of_ne hne fields version')
  refine (perm_envelopeOf_iff (nodup_set hnodup _ _) _ _ _ _ _).mpr ⟨?_, ?_, ?_, ?_, ?_, ?_⟩
  · rwa [hasFields, hkeys]
  · rw [item, lookup_set]
    rfl
  · rw [hkept _ (by decide), hid]
  · rw [hkept _ (by decide), htenant]
  · rw [hkept _ (by decide), hevent]
  · rw [hkept _ (by decide), hdestination]

/-- What any text is decoded to stays in one tenant and is written again as the canonical text of
what was read, under the same delivery. -/
theorem outboxMessageBody_of_decode (hnumber : Numerals number) {body : Text}
    {event : SecurityEvent} {destination : EventDestination}
    (h : decodeOutboxMessage sha256 number (.str body) = .ok (event, destination)) :
    destination.tenantId = event.tenantId ∧ destination.enabled = true ∧
    destination.Admits event ∧
    ∃ fields deliveryId, loadsHooked (outboxHooks number) body = some (.obj fields) ∧
      item fields "delivery_id" = .str deliveryId ∧
      deliveryIdentity sha256 event destination = .ok deliveryId ∧
      outboxMessageBody sha256 event destination =
        let text := canonical (.obj (set fields "schema_version".toList outboxSchemaVersion))
        if outboxMaxMessageBytes < byteLength text then
          refuse "security event outbox message is too large"
        else .ok text := by
  obtain ⟨-, hpair, henabled, hadmits, -, fields, version, hread, -, eventValue, destinationValue,
    hevent, hdestination, hperm⟩ := (decode_eq_ok_iff hnumber).mp h
  have hjson := hnumber.isJson_of_loads hread
  have hnodup := ((isJson_obj_iff number fields).mp hjson).1
  obtain ⟨-, -, hid, -, heventItem, hdestinationItem⟩ :=
    (perm_envelopeOf_iff hnodup _ _ _ _ _).mp hperm
  have heventOrder : inOrder eventValue = inOrder event.toDict :=
    inOrder_eq_of_perm hevent (nodup_of_item hjson heventItem)
  have hdestinationOrder : inOrder destinationValue = inOrder destination.toDict :=
    inOrder_eq_of_perm hdestination (nodup_of_item hjson hdestinationItem)
  have hset : inOrder (set fields "schema_version".toList outboxSchemaVersion) =
      inOrder (envelope sha256 event destination) := by
    have hsetPerm := perm_set_version hnodup hperm outboxSchemaVersion
    refine (inOrder_eq_of_perm hsetPerm (nodup_set hnodup _ _)).trans (inOrder_congr ?_)
    simp only [envelopeOf, envelope, List.map_cons, List.map_nil, sorted_obj, heventOrder,
      hdestinationOrder]
  refine ⟨hpair.tenant.symm, henabled, hadmits, fields, _, hread, hid, hpair.identity, ?_⟩
  have htext : canonical (.obj (set fields "schema_version".toList outboxSchemaVersion)) =
      canonical (.obj (envelope sha256 event destination)) := by
    rw [canonical, canonical, sorted_obj, sorted_obj, hset]
  rw [htext]
  exact hpair.body_eq

end Messages

def blockedEvent : SecurityEvent where
  eventId := "evt-7".toList
  eventType := "injection_blocked".toList
  timestamp := "2026-01-05T09:00:00+00:00".toList
  source := "axonllm".toList
  severity := "critical".toList
  userId := "ana".toList
  projectId := []
  data := [("threat_level".toList, .str "high".toList), ("blocked".toList, .bool true),
    ("score".toList, .number "0.5".toList)]
  tenantId := "acme".toList

def siemDestination : EventDestination where
  name := "siem".toList
  destinationType := .webhook
  config := [("url".toList, .str "https://hooks.acme.io/events".toList)]
  eventFilter := some ["injection_blocked".toList]
  enabled := true
  tenantId := "acme".toList

/-- The hashes of the one delivery and of its group. -/
def blockedSha256 (t : Text) : Text :=
  if t = canonical (material blockedEvent siemDestination) then
    "44c4fff2b7962cef94c099e23b93f50c563afaab2083163078a95f34b970eb07".toList
  else if t = canonical (.obj [("tenant_id".toList, .str "acme".toList),
      ("destination_name".toList, .str "siem".toList),
      ("destination_type".toList, .str "webhook".toList)]) then
    "980755b6cb2efcd971cb2367ec97ee509729c81c1b5cc393adb91a6285658824".toList
  else List.replicate 64 '0'

/-- The numbers of the one delivery. -/
def blockedNumber (t : Text) : Value :=
  if t = "1".toList ∨ t = "0.5".toList then .number t else .nonFinite "nan".toList

theorem isDigest_blockedSha256 (t : Text) : isDigest (blockedSha256 t) = true := by
  unfold blockedSha256
  split_ifs <;> decide

theorem numerals_blockedNumber : Numerals blockedNumber where
  isJson t := by
    unfold blockedNumber
    split_ifs with h
    · rcases h with rfl | rfl <;> exact ⟨rfl, rfl⟩
    · trivial
  one := rfl

theorem isJson_blockedEvent : IsJson blockedNumber (.obj blockedEvent.data) := by
  have hscore : IsJson blockedNumber (.number "0.5".toList) := ⟨rfl, rfl⟩
  have hblocked : IsJson blockedNumber (.bool true) := trivial
  simp only [blockedEvent, isJson_obj_iff, List.forall_mem_cons, isJson_str, hscore, hblocked]
  simp

theorem isJson_siemDestination : IsJson blockedNumber (.obj siemDestination.config) := by
  rw [isJson_obj_iff]
  simp [siemDestination]

def blockedBody : Text := canonical (.obj (envelope blockedSha256 blockedEvent siemDestination))

theorem deliverable_blockedEvent : Deliverable blockedEvent siemDestination := by
  refine ⟨rfl, ?_, ?_, rfl, rfl⟩ <;> constructor <;> decide

theorem outboxMessageBody_blockedBody :
    outboxMessageBody blockedSha256 blockedEvent siemDestination = .ok blockedBody :=
  outboxMessageBody_eq_ok_iff.mpr ⟨deliverable_blockedEvent, rfl, by decide +kernel⟩

theorem decode_blockedBody : decodeOutboxMessage blockedSha256 blockedNumber (.str blockedBody) =
    .ok (blockedEvent.inOrder, siemDestination.inOrder) :=
  decode_of_admits numerals_blockedNumber isDigest_blockedSha256 isJson_blockedEvent
    isJson_siemDestination outboxMessageBody_blockedBody rfl (by decide)

theorem blockedBody_decoded : decodeOutboxMessage blockedSha256 blockedNumber (.str blockedBody) =
    .ok (blockedEvent.inOrder, siemDestination.inOrder) :=
  (decode_outboxMessageBody_eq_ok_iff numerals_blockedNumber isDigest_blockedSha256
    isJson_blockedEvent isJson_siemDestination outboxMessageBody_blockedBody _).mpr
    ⟨rfl, by decide, rfl⟩

theorem blockedBody_written :
    siemDestination.inOrder.tenantId = blockedEvent.inOrder.tenantId ∧
    siemDestination.inOrder.enabled = true ∧ siemDestination.inOrder.Admits blockedEvent.inOrder ∧
    ∃ fields deliveryId,
      loadsHooked (outboxHooks blockedNumber) blockedBody = some (.obj fields) ∧
      item fields "delivery_id" = .str deliveryId ∧
      deliveryIdentity blockedSha256 blockedEvent.inOrder siemDestination.inOrder =
        .ok deliveryId ∧
      outboxMessageBody blockedSha256 blockedEvent.inOrder siemDestination.inOrder =
        let text := canonical (.obj (set fields "schema_version".toList outboxSchemaVersion))
        if outboxMaxMessageBytes < byteLength text then
          refuse "security event outbox message is too large"
        else .ok text :=
  outboxMessageBody_of_decode numerals_blockedNumber decode_blockedBody

end AxonGateway.Events
