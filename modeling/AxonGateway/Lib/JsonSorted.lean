import AxonGateway.Lib.JsonDumps

/-!
# Dictionaries in the order of their keys

With `sort_keys` a dictionary is written in the order of its keys. What is read from such a text is
the value in order, and the value in order has the same text.
-/

namespace JsonText

open PyValue

/-! ### Induction -/

/-- What passes from the parts of a value to the value holds of all values. -/
theorem value_induction {motive : Value → Prop}
    (leaf : ∀ v, (∀ items, v ≠ .arr items) → (∀ fields, v ≠ .obj fields) → motive v)
    (arr : ∀ items, (∀ v ∈ items, motive v) → motive (.arr items))
    (obj : ∀ fields : Fields, (∀ field ∈ fields, motive field.2) → motive (.obj fields))
    (v : Value) : motive v := by
  refine @Value.rec motive (fun items ↦ ∀ v ∈ items, motive v)
    (fun fields ↦ ∀ field ∈ fields, motive field.2) (fun field ↦ motive field.2)
    ?_ ?_ ?_ ?_ ?_ arr obj ?_ ?_ ?_ ?_ ?_ v
  · exact leaf _ (by simp) (by simp)
  · exact fun _ ↦ leaf _ (by simp) (by simp)
  · exact fun _ ↦ leaf _ (by simp) (by simp)
  · exact fun _ ↦ leaf _ (by simp) (by simp)
  · exact fun _ ↦ leaf _ (by simp) (by simp)
  · simp
  · exact fun _ _ hv hrest ↦ List.forall_mem_cons.mpr ⟨hv, hrest⟩
  · simp
  · exact fun _ _ hfield hrest ↦ List.forall_mem_cons.mpr ⟨hfield, hrest⟩
  · exact fun _ _ h ↦ h

/-! ### The order of keys -/

def ByKey (f g : Text × Value) : Prop := f.1 ≤ g.1

instance : DecidableRel ByKey := fun f g ↦ inferInstanceAs (Decidable (f.1 ≤ g.1))

instance : IsTrans (Text × Value) ByKey := ⟨fun _ _ _ ↦ le_trans⟩

instance : Std.Total ByKey := ⟨fun f g ↦ le_total f.1 g.1⟩

mutual

/-- The value with all its dictionaries in the order of their keys. -/
def sorted : Value → Value
  | .arr items => .arr (sortedItems items)
  | .obj fields => .obj ((sortedFields fields).insertionSort ByKey)
  | v => v

def sortedItems : List Value → List Value
  | [] => []
  | v :: rest => sorted v :: sortedItems rest

def sortedFields : List (Text × Value) → List (Text × Value)
  | [] => []
  | field :: rest => sortedField field :: sortedFields rest

def sortedField : Text × Value → Text × Value
  | (k, v) => (k, sorted v)

end

theorem sortedItems_eq_map (items : List Value) : sortedItems items = items.map sorted := by
  induction items with
  | nil => rfl
  | cons v items ih => exact congrArg (sorted v :: ·) ih

theorem sortedFields_eq_map (fields : Fields) :
    sortedFields fields = fields.map fun field ↦ (field.1, sorted field.2) := by
  induction fields with
  | nil => rfl
  | cons field fields ih =>
      obtain ⟨k, v⟩ := field
      exact congrArg ((k, sorted v) :: ·) ih

/-- The fields of a dictionary in the order of their keys. -/
def inOrder (fields : Fields) : Fields := (sortedFields fields).insertionSort ByKey

@[simp] theorem sorted_obj (fields : Fields) : sorted (.obj fields) = .obj (inOrder fields) := rfl

@[simp] theorem sorted_arr (items : List Value) : sorted (.arr items) = .arr (items.map sorted) := by
  rw [sorted, sortedItems_eq_map]

@[simp] theorem sorted_str (t : Text) : sorted (.str t) = .str t := rfl

@[simp] theorem sorted_number (t : Text) : sorted (.number t) = .number t := rfl

theorem sorted_leaf {v : Value} (harr : ∀ items, v ≠ .arr items) (hobj : ∀ fields, v ≠ .obj fields) :
    sorted v = v := by
  cases v with
  | arr items => exact absurd rfl (harr items)
  | obj fields => exact absurd rfl (hobj fields)
  | _ => rfl

theorem inOrder_perm (fields : Fields) :
    (inOrder fields).Perm (fields.map fun field ↦ (field.1, sorted field.2)) := by
  rw [inOrder, sortedFields_eq_map]
  exact List.perm_insertionSort ByKey _

theorem mem_inOrder {fields : Fields} {field : Text × Value} :
    field ∈ inOrder fields ↔ ∃ original ∈ fields, (original.1, sorted original.2) = field := by
  rw [(inOrder_perm fields).mem_iff, List.mem_map]

theorem keys_inOrder_perm (fields : Fields) :
    ((inOrder fields).map Prod.fst).Perm (fields.map Prod.fst) := by
  have hperm := (inOrder_perm fields).map Prod.fst
  rwa [List.map_map] at hperm

/-- What is in order stays as it is. -/
theorem sorted_sorted (v : Value) : sorted (sorted v) = sorted v := by
  induction v using value_induction with
  | leaf v harr hobj => rw [sorted_leaf harr hobj, sorted_leaf harr hobj]
  | arr items ih =>
      rw [sorted_arr, sorted_arr, List.map_map]
      exact congrArg Value.arr (List.map_congr_left ih)
  | obj fields ih =>
      have hsame : (inOrder fields).map (fun field ↦ (field.1, sorted field.2)) = inOrder fields := by
        refine (List.map_congr_left fun field hfield ↦ ?_).trans (List.map_id _)
        obtain ⟨original, horiginal, rfl⟩ := mem_inOrder.mp hfield
        exact Prod.ext rfl (ih original horiginal)
      have hordered : (inOrder fields).Pairwise ByKey := List.pairwise_insertionSort ByKey _
      rw [sorted_obj, sorted_obj]
      apply congrArg Value.obj
      conv_lhs => rw [inOrder, sortedFields_eq_map, hsame]
      exact hordered.insertionSort_eq

theorem truthy_sorted (v : Value) : (sorted v).truthy = v.truthy := by
  cases v with
  | arr items =>
      rw [sorted_arr]
      cases items <;> rfl
  | obj fields =>
      have hlength : (inOrder fields).length = fields.length := by
        rw [(inOrder_perm fields).length_eq, List.length_map]
      rw [sorted_obj, Value.truthy, Value.truthy, Bool.eq_iff_iff, Bool.not_eq_true',
        Bool.not_eq_true', ← Bool.not_eq_true, ← Bool.not_eq_true, List.isEmpty_iff_length_eq_zero,
        List.isEmpty_iff_length_eq_zero, hlength]
  | _ => rfl

/-- A key stands for the same value. -/
theorem lookup_inOrder {fields : Fields} (h : (fields.map Prod.fst).Nodup) (k : Text) :
    (inOrder fields).lookup k = (fields.lookup k).map sorted := by
  have hnodup : ((inOrder fields).map Prod.fst).Nodup := (keys_inOrder_perm fields).nodup_iff.mpr h
  cases hlookup : fields.lookup k with
  | none =>
      rw [Option.map_none, List.lookup_eq_none_iff]
      intro field hfield
      have hkey : field.1 ∈ fields.map Prod.fst :=
        (keys_inOrder_perm fields).mem_iff.mp (List.mem_map_of_mem hfield)
      obtain ⟨original, horiginal, heq⟩ := List.mem_map.mp hkey
      rw [← heq]
      exact List.lookup_eq_none_iff.mp hlookup original horiginal
  | some v =>
      have hmem : (k, sorted v) ∈ inOrder fields :=
        mem_inOrder.mpr ⟨(k, v), mem_of_lookup hlookup, rfl⟩
      exact lookup_of_mem hnodup hmem

/-! ### Values that JSON has -/

mutual

/-- No number in the value is infinite or a NaN. -/
def finite : Value → Bool
  | .nonFinite _ => false
  | .arr items => finiteItems items
  | .obj fields => finiteFields fields
  | _ => true

def finiteItems : List Value → Bool
  | [] => true
  | v :: rest => finite v && finiteItems rest

def finiteFields : List (Text × Value) → Bool
  | [] => true
  | field :: rest => finiteField field && finiteFields rest

def finiteField : Text × Value → Bool
  | (_, v) => finite v

end

theorem finite_arr_iff (items : List Value) :
    finite (.arr items) = true ↔ ∀ v ∈ items, finite v = true := by
  rw [finite]
  induction items with
  | nil => simp [finiteItems]
  | cons v items ih => rw [finiteItems, Bool.and_eq_true, ih, List.forall_mem_cons]

theorem finite_obj_iff (fields : Fields) :
    finite (.obj fields) = true ↔ ∀ field ∈ fields, finite field.2 = true := by
  rw [finite]
  induction fields with
  | nil => simp [finiteFields]
  | cons field fields ih =>
      rw [finiteFields, finiteField, Bool.and_eq_true, ih, List.forall_mem_cons]

section Numbers

variable (number : Text → Value)

mutual

/-- The value with its numbers read. -/
def mapNumbers : Value → Value
  | .number t => number t
  | .arr items => .arr (mapNumbersItems items)
  | .obj fields => .obj (mapNumbersFields fields)
  | v => v

def mapNumbersItems : List Value → List Value
  | [] => []
  | v :: rest => mapNumbers v :: mapNumbersItems rest

def mapNumbersFields : List (Text × Value) → List (Text × Value)
  | [] => []
  | field :: rest => mapNumbersField field :: mapNumbersFields rest

def mapNumbersField : Text × Value → Text × Value
  | (k, v) => (k, mapNumbers v)

end

theorem mapNumbers_arr (items : List Value) :
    mapNumbers number (.arr items) = .arr (items.map (mapNumbers number)) := by
  rw [mapNumbers]
  apply congrArg Value.arr
  induction items with
  | nil => rfl
  | cons v items ih => exact congrArg (mapNumbers number v :: ·) ih

theorem mapNumbers_obj (fields : Fields) :
    mapNumbers number (.obj fields) =
      .obj (fields.map fun field ↦ (field.1, mapNumbers number field.2)) := by
  rw [mapNumbers]
  apply congrArg Value.obj
  induction fields with
  | nil => rfl
  | cons field fields ih =>
      obtain ⟨k, v⟩ := field
      exact congrArg ((k, mapNumbers number v) :: ·) ih

mutual

/-- The value is one that a text can be read as: no dictionary has a key twice, and the finite
numbers are spelled as they are written. -/
def IsJson : Value → Prop
  | .number t => IsNumber t ∧ number t = .number t
  | .arr items => IsJsonItems items
  | .obj fields => (fields.map Prod.fst).Nodup ∧ IsJsonFields fields
  | _ => True

def IsJsonItems : List Value → Prop
  | [] => True
  | v :: rest => IsJson v ∧ IsJsonItems rest

def IsJsonFields : List (Text × Value) → Prop
  | [] => True
  | field :: rest => IsJsonField field ∧ IsJsonFields rest

def IsJsonField : Text × Value → Prop
  | (_, v) => IsJson v

end

@[simp] theorem isJson_str (t : Text) : IsJson number (.str t) := trivial

theorem isJson_arr_iff (items : List Value) :
    IsJson number (.arr items) ↔ ∀ v ∈ items, IsJson number v := by
  rw [IsJson]
  induction items with
  | nil => simp [IsJsonItems]
  | cons v items ih => rw [IsJsonItems, ih, List.forall_mem_cons]

theorem isJson_obj_iff (fields : Fields) : IsJson number (.obj fields) ↔
    (fields.map Prod.fst).Nodup ∧ ∀ field ∈ fields, IsJson number field.2 := by
  have hfields : ∀ fields : Fields, IsJsonFields number fields ↔
      ∀ field ∈ fields, IsJson number field.2 := by
    intro fields
    induction fields with
    | nil => simp [IsJsonFields]
    | cons field fields ih => rw [IsJsonFields, IsJsonField, ih, List.forall_mem_cons]
  rw [IsJson, hfields]

end Numbers

variable {number : Text → Value}

theorem isJson_of_lookup {fields : Fields} (h : IsJson number (.obj fields)) {k : Text} {v : Value}
    (hlookup : fields.lookup k = some v) : IsJson number v :=
  ((isJson_obj_iff number fields).mp h).2 (k, v) (mem_of_lookup hlookup)

theorem IsJson.sorted {v : Value} (h : IsJson number v) : IsJson number (sorted v) := by
  induction v using value_induction with
  | leaf v harr hobj => rwa [sorted_leaf harr hobj]
  | arr items ih =>
      rw [isJson_arr_iff] at h
      rw [sorted_arr, isJson_arr_iff, List.forall_mem_map]
      exact fun v hv ↦ ih v hv (h v hv)
  | obj fields ih =>
      rw [isJson_obj_iff] at h
      rw [sorted_obj, isJson_obj_iff, (keys_inOrder_perm fields).nodup_iff]
      refine ⟨h.1, fun field hfield ↦ ?_⟩
      obtain ⟨original, horiginal, rfl⟩ := mem_inOrder.mp hfield
      exact ih original horiginal (h.2 original horiginal)

theorem finite_sorted (v : Value) : finite (JsonText.sorted v) = finite v := by
  induction v using value_induction with
  | leaf v harr hobj => rw [sorted_leaf harr hobj]
  | arr items ih =>
      rw [sorted_arr, Bool.eq_iff_iff, finite_arr_iff, finite_arr_iff, List.forall_mem_map]
      exact forall₂_congr fun v hv ↦ by rw [ih v hv]
  | obj fields ih =>
      rw [sorted_obj, Bool.eq_iff_iff, finite_obj_iff, finite_obj_iff]
      constructor
      · intro h field hfield
        rw [← ih field hfield]
        exact h _ (mem_inOrder.mpr ⟨field, hfield, rfl⟩)
      · intro h field hfield
        obtain ⟨original, horiginal, rfl⟩ := mem_inOrder.mp hfield
        exact (ih original horiginal).trans (h original horiginal)

theorem writtenItems_iff (items : List Value) : WrittenItems items ↔ ∀ v ∈ items, Written v := by
  induction items with
  | nil => simp [WrittenItems]
  | cons v items ih => rw [WrittenItems, ih, List.forall_mem_cons]

theorem writtenFields_iff (fields : Fields) :
    WrittenFields fields ↔ ∀ field ∈ fields, Written field.2 := by
  induction fields with
  | nil => simp [WrittenFields]
  | cons field fields ih => rw [WrittenFields, WrittenField, ih, List.forall_mem_cons]

/-- What is read and finite can be written. -/
theorem IsJson.written {v : Value} (h : IsJson number v) (hfinite : finite v = true) : Written v := by
  induction v using value_induction with
  | leaf v harr hobj =>
      cases v with
      | number t => exact h.1
      | nonFinite t => cases hfinite
      | arr items => exact absurd rfl (harr items)
      | obj fields => exact absurd rfl (hobj fields)
      | _ => trivial
  | arr items ih =>
      rw [isJson_arr_iff] at h
      rw [finite_arr_iff] at hfinite
      rw [Written, writtenItems_iff]
      exact fun v hv ↦ ih v hv (h v hv) (hfinite v hv)
  | obj fields ih =>
      rw [isJson_obj_iff] at h
      rw [finite_obj_iff] at hfinite
      rw [Written, writtenFields_iff]
      exact ⟨h.1, fun field hfield ↦ ih field hfield (h.2 field hfield) (hfinite field hfield)⟩

theorem IsJson.mapNumbers {v : Value} (h : IsJson number v) : mapNumbers number v = v := by
  induction v using value_induction with
  | leaf v harr hobj =>
      cases v with
      | number t => exact h.2
      | arr items => exact absurd rfl (harr items)
      | obj fields => exact absurd rfl (hobj fields)
      | _ => rfl
  | arr items ih =>
      rw [isJson_arr_iff] at h
      rw [mapNumbers_arr]
      exact congrArg Value.arr
        ((List.map_congr_left fun v hv ↦ ih v hv (h v hv)).trans (List.map_id _))
  | obj fields ih =>
      rw [isJson_obj_iff] at h
      rw [mapNumbers_obj]
      refine congrArg Value.obj ((List.map_congr_left fun field hfield ↦ ?_).trans (List.map_id _))
      exact Prod.ext rfl (ih field hfield (h.2 field hfield))

/-! ### Canonical texts -/

/-- `json.dumps(value, separators=(",", ":"), sort_keys=True)` -/
def canonical (v : Value) : Text := write [] (sorted v)

/-- A canonical text with `allow_nan=False`; nothing for a value that is not finite. -/
def dumpsFinite (v : Value) : Option Text := if finite v then some (canonical v) else none

theorem dumpsFinite_eq_some_iff {v : Value} {t : Text} :
    dumpsFinite v = some t ↔ finite v = true ∧ canonical v = t := by
  unfold dumpsFinite
  split_ifs with h <;> simp [h]

theorem canonical_sorted (v : Value) : canonical (sorted v) = canonical v := by
  rw [canonical, canonical, sorted_sorted]

/-- A canonical text is read back as the value in order. -/
theorem IsJson.loads_canonical {v : Value} (h : IsJson number v) (hfinite : finite v = true) :
    (loads (canonical v)).map (JsonText.mapNumbers number) = some (JsonText.sorted v) := by
  have hread : loads (canonical v) = some (JsonText.sorted v) :=
    loads_write (by simp) (h.sorted.written ((finite_sorted v).trans hfinite))
  rw [hread, Option.map_some, h.sorted.mapNumbers]

end JsonText
