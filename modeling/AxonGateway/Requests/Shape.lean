import AxonGateway.Requests.WellFormed

/-!
# The checks of a shape find nothing exactly in what is well-formed

Each check returns unless it measures a text that cannot be encoded, and an empty list of errors
means that the field is as it should be.
-/

namespace Requests

open PyJson Outcome

@[simp] theorem ite_error_eq_nil {p : Prop} [Decidable p] {e : ValidationError} :
    (if p then [e] else []) = [] ↔ ¬ p := by
  split_ifs with h <;> simp [h]

@[simp] theorem ite_nil_eq_nil {p : Prop} [Decidable p] {e : ValidationError} :
    (if p then [] else [e]) = [] ↔ p := by
  split_ifs with h <;> simp [h]

theorem get_eq_of_lookup {d : Fields} {key : String} {v : Json} (h : d.lookup (lit key) = some v) :
    get d key = v := by
  rw [PyJson.get, h]
  rfl

theorem get_eq_null {d : Fields} {key : String} (h : d.lookup (lit key) = none) :
    get d key = .null := by
  rw [PyJson.get, h]
  rfl

theorem isObject_iff {v : Json} : v.isObject = true ↔ ∃ fields, v = .obj fields := by
  cases v <;> simp [Json.isObject]

theorem all_isObject_iff {items : List Json} :
    items.all Json.isObject = true ↔ ∃ l : List Fields, items = l.map .obj := by
  constructor
  · intro h
    induction items with
    | nil => exact ⟨[], rfl⟩
    | cons v items ih =>
        rw [List.all_cons, Bool.and_eq_true] at h
        obtain ⟨fields, rfl⟩ := isObject_iff.mp h.1
        obtain ⟨l, rfl⟩ := ih h.2
        exact ⟨fields :: l, rfl⟩
  · rintro ⟨l, rfl⟩
    exact List.all_eq_true.mpr fun v hv ↦ by
      obtain ⟨fields, -, rfl⟩ := List.mem_map.mp hv
      rfl

/-! ## Loops -/

/-- A size and errors say what a predicate says, and how many bytes there are if it holds. -/
structure Tells (result : ℕ × Errors) (ok : Prop) (bytes : ℕ) : Prop where
  iff : result.2 = [] ↔ ok
  size : ok → result.1 = bytes

theorem Tells.refused {e : ValidationError} {ok : Prop} {n bytes : ℕ} (h : ¬ ok) :
    Tells (n, [e]) ok bytes :=
  ⟨⟨fun he ↦ (nomatch he), fun hok ↦ absurd hok h⟩, fun hok ↦ absurd hok h⟩

theorem Tells.accepted {ok : Prop} {bytes : ℕ} (h : ok) : Tells (bytes, []) ok bytes :=
  ⟨⟨fun _ ↦ h, fun _ ↦ rfl⟩, fun _ ↦ rfl⟩

/-- What the check of an item does: it returns for an object if some text can be measured, and it
tells whether the object is as it should be. -/
structure ItemCheck (check : ℕ → Json → Except Raised (ℕ × Errors)) (measured ok : Fields → Prop)
    (bytes : Fields → ℕ) : Prop where
  returns : ∀ idx object, Returns (check idx (.obj object)) ↔ measured object
  tells : ∀ idx object r, check idx (.obj object) = .ok r → Tells r (ok object) (bytes object)
  other : ∀ idx v, v.isObject = false → ∃ e, check idx v = .ok (0, [e])

section Items

variable {check : ℕ → Json → Except Raised (ℕ × Errors)} {measured ok : Fields → Prop}
  {bytes : Fields → ℕ} {idx : ℕ} {items : List Json} {r : ℕ × Errors}

theorem ItemCheck.returns_iff (h : ItemCheck check measured ok bytes) (idx : ℕ)
    (items : List Json) :
    Returns (validateItems check idx items) ↔ ∀ object, .obj object ∈ items → measured object := by
  induction items generalizing idx with
  | nil => simp [validateItems]
  | cons item rest ih =>
      rw [validateItems, returns_bind_and fun _ ↦
        (returns_bind_of_forall fun _ ↦ returns_ok _).trans (ih (idx + 1))]
      cases hitem : item.isObject with
      | true =>
          obtain ⟨object, rfl⟩ := isObject_iff.mp hitem
          rw [h.returns]
          simp only [List.mem_cons, Json.obj.injEq]
          constructor
          · rintro ⟨hobject, hrest⟩ other (rfl | hother)
            · exact hobject
            · exact hrest other hother
          · exact fun hall ↦ ⟨hall object (.inl rfl), fun other hother ↦ hall other (.inr hother)⟩
      | false =>
          obtain ⟨e, he⟩ := h.other idx item hitem
          rw [he]
          have hne : ∀ object, Json.obj object ≠ item := by
            rintro object rfl
            cases hitem
          simp [hne]

theorem ItemCheck.objects_of_nil (h : ItemCheck check measured ok bytes)
    (hr : validateItems check idx items = .ok r) (hnil : r.2 = []) :
    ∃ objects : List Fields, items = objects.map .obj := by
  refine all_isObject_iff.mp ?_
  induction items generalizing idx r with
  | nil => rfl
  | cons item rest ih =>
      obtain ⟨first, hfirst, hrest⟩ := bind_ok_iff.mp hr
      obtain ⟨others, hothers, hsum⟩ := bind_ok_iff.mp hrest
      obtain rfl := Except.ok.inj hsum
      obtain ⟨hnil, hnil'⟩ := List.append_eq_nil_iff.mp hnil
      rw [List.all_cons, ih hothers hnil', Bool.and_true]
      by_contra hitem
      obtain ⟨e, he⟩ := h.other idx item (Bool.not_eq_true _ ▸ hitem)
      rw [← Except.ok.inj (he.symm.trans hfirst)] at hnil
      cases hnil

theorem ItemCheck.tells_items (h : ItemCheck check measured ok bytes) {objects : List Fields}
    (hr : validateItems check idx (objects.map .obj) = .ok r) :
    Tells r (∀ object ∈ objects, ok object) (objects.map bytes).sum := by
  induction objects generalizing idx r with
  | nil =>
      obtain rfl := Except.ok.inj hr
      exact .accepted fun _ hmem ↦ (nomatch hmem)
  | cons object objects ih =>
      obtain ⟨first, hfirst, hrest⟩ := bind_ok_iff.mp hr
      obtain ⟨others, hothers, hsum⟩ := bind_ok_iff.mp hrest
      obtain rfl := Except.ok.inj hsum
      have hf := h.tells idx object first hfirst
      have ho := ih hothers
      constructor
      · rw [List.append_eq_nil_iff, hf.iff, ho.iff, List.forall_mem_cons]
      · intro hall
        obtain ⟨hok, hrest⟩ := List.forall_mem_cons.mp hall
        rw [List.map_cons, List.sum_cons, hf.size hok, ho.size hrest]

end Items

/-! ## Messages -/

namespace RequestValidator

variable {V : RequestValidator}

/-- The contents of the messages and the calls are measured as lists of objects. -/
theorem tells_objects {limit : ℕ} {items : List Json} (e e' e'' : ValidationError) :
    Tells (if limit < items.length then (0, [e]) else if !items.all Json.isObject then (0, [e'])
      else match jsonSize? (.arr items) with
        | some size => (size, [])
        | none => (0, [e''])) (ObjectList limit items) (jsonBytes (.arr items)) := by
  split_ifs with hlength hobjects
  · exact .refused fun h ↦ absurd h.length (not_le.mpr hlength)
  · refine .refused fun h ↦ ?_
    rw [h.objects] at hobjects
    cases hobjects
  · split
    · next size hsize =>
        obtain ⟨hwritable, rfl⟩ := jsonSize?_eq_some_iff.mp hsize
        exact .accepted ⟨not_lt.mp hlength, by simpa using hobjects, hwritable⟩
    · next hsize => exact .refused fun h ↦ jsonSize?_eq_none_iff.mp hsize h.writable

theorem messageContentSize_null {field : String} {called : Bool} :
    V.messageContentSize .null field called = .ok (0, if called then [] else [error
      (field ++ ".content") "Message content may be null only when the message has a tool call."]) :=
  rfl

theorem messageContentSize_str {text : Str} {field : String} {called : Bool} :
    V.messageContentSize (.str text) field called = (do
      let size ← utf8Size text
      .ok (size, [])) :=
  rfl

theorem returned_objects {limit : ℕ} {items : List Json} (e e' e'' : ValidationError) :
    ∃ r, (if limit < items.length then .ok (0, [e])
      else if !items.all Json.isObject then .ok (0, [e'])
      else match jsonSize? (.arr items) with
        | some size => .ok (size, [])
        | none => .ok (0, [e'']) : Except Raised (ℕ × Errors)) = .ok r ∧
      Tells r (ObjectList limit items) (jsonBytes (.arr items)) := by
  refine ⟨_, ?_, tells_objects e e' e''⟩
  split_ifs
  · rfl
  · rfl
  · split <;> rfl

theorem messageContentSize_arr (V : RequestValidator) (parts : List Json) (field : String)
    (called : Bool) :
    ∃ r, V.messageContentSize (.arr parts) field called = .ok r ∧
      Tells r (ObjectList V.maxContentParts parts) (jsonBytes (.arr parts)) :=
  returned_objects _ _ _

/-- The text of a message, if its content is one, can be encoded. -/
def ContentPlain (message : Fields) : Prop :=
  ∀ text, message.lookup (lit "content") = some (.str text) → plain text = true

theorem returns_validateContent {idx : ℕ} {field : String} {message : Fields} :
    Returns (V.validateContent idx field message) ↔ ContentPlain message := by
  unfold validateContent ContentPlain
  cases message.lookup (lit "content") with
  | none => simp
  | some content =>
      cases content with
      | str text =>
          dsimp only
          rw [messageContentSize_str, returns_bind_of_forall fun _ ↦ returns_ok _, returns_utf8Size]
          simp
      | arr parts =>
          obtain ⟨r, hr, -⟩ := messageContentSize_arr V parts field (hasCall message)
          simp [hr]
      | _ => simp [messageContentSize]

theorem tells_validateContent {idx : ℕ} {field : String} {message : Fields} {r : ℕ × Errors}
    (h : V.validateContent idx field message = .ok r) :
    Tells r (V.ContentOk message) (contentBytes (get message "content")) := by
  unfold validateContent at h
  unfold ContentOk PyJson.get
  cases hlookup : message.lookup (lit "content") with
  | none =>
      rw [hlookup] at h
      obtain rfl := Except.ok.inj h
      exact ⟨ite_nil_eq_nil, fun _ ↦ rfl⟩
  | some content =>
      rw [hlookup] at h
      cases content with
      | null =>
          obtain rfl := Except.ok.inj h
          exact ⟨ite_nil_eq_nil, fun _ ↦ rfl⟩
      | str text =>
          obtain ⟨size, hsize, hr⟩ := bind_ok_iff.mp h
          obtain rfl := Except.ok.inj hr
          obtain ⟨hplain, rfl⟩ := utf8Size_eq_ok_iff.mp hsize
          exact .accepted hplain
      | arr parts =>
          obtain ⟨r', hr', htells⟩ := messageContentSize_arr V parts field (hasCall message)
          obtain rfl := Except.ok.inj (h.symm.trans hr')
          exact htells
      | _ =>
          obtain rfl := Except.ok.inj h
          exact .refused id

theorem tells_validateToolCalls {field : String} {message : Fields} :
    Tells (V.validateToolCalls field message) (V.ToolCallsOk message)
      (callBytes (get message "tool_calls")) := by
  unfold validateToolCalls ToolCallsOk
  cases get message "tool_calls" with
  | null => exact .accepted trivial
  | arr calls => exact tells_objects _ _ _
  | _ => exact .refused id

theorem tells_validateFunctionCall {field : String} {message : Fields} :
    Tells (validateFunctionCall field message) (FunctionCallOk message)
      (callBytes (get message "function_call")) := by
  unfold validateFunctionCall FunctionCallOk
  cases get message "function_call" with
  | null => exact .accepted trivial
  | obj call =>
      dsimp only
      split
      · next size hsize =>
          obtain ⟨hwritable, rfl⟩ := jsonSize?_eq_some_iff.mp hsize
          exact ⟨ite_nil_eq_nil.trans (and_iff_left hwritable).symm, fun _ ↦ rfl⟩
      · next hsize =>
          have hwritable := jsonSize?_eq_none_iff.mp hsize
          refine ⟨⟨fun h ↦ ?_, fun h ↦ absurd h.2 hwritable⟩, fun h ↦ absurd h.2 hwritable⟩
          exact absurd (List.append_eq_nil_iff.mp h).2 (List.cons_ne_nil _ _)
  | _ => exact .refused id

theorem validateRole_eq_nil_iff {idx : ℕ} {field : String} {message : Fields} :
    validateRole idx field message = [] ↔
      ∃ role ∈ validRoles, message.lookup (lit "role") = some (.str role) := by
  unfold validateRole
  cases message.lookup (lit "role") with
  | none => simp
  | some role =>
      cases role with
      | str role => simp
      | _ => simp

theorem validateLabel_eq_nil_iff {field key : String} {message : Fields} :
    validateLabel field message key = [] ↔
      (get message key).isNull = true ∨ isNonBlank (get message key) = true := by
  rw [validateLabel, ite_nil_eq_nil, Bool.or_eq_true]

theorem tells_validateMessage {idx : ℕ} {message : Fields} {r : ℕ × Errors}
    (h : V.validateMessage idx (.obj message) = .ok r) :
    Tells r (V.MessageOk message) (messageBytes message) := by
  obtain ⟨content, hcontent, hr⟩ := bind_ok_iff.mp h
  generalize "messages[" ++ toString idx ++ "]" = field at hcontent hr
  have hc := tells_validateContent hcontent
  have ht : Tells (V.validateToolCalls field message) _ _ := tells_validateToolCalls
  have hf : Tells (validateFunctionCall field message) _ _ := tells_validateFunctionCall
  have hbytes : V.ContentOk message → V.ToolCallsOk message → FunctionCallOk message →
      r.1 = messageBytes message := by
    intro h₁ h₂ h₃
    rw [← Except.ok.inj hr, messageBytes, ← hc.size h₁, ← ht.size h₂, ← hf.size h₃]
  refine ⟨?_, fun hok ↦ hbytes hok.content hok.toolCalls hok.functionCall⟩
  have hsize : (V.maxMessageContentBytes < r.1) ↔
      V.maxMessageContentBytes < content.1 + (V.validateToolCalls field message).1 +
        (validateFunctionCall field message).1 := by
    rw [← Except.ok.inj hr]
  rw [← Except.ok.inj hr]
  simp only [List.append_eq_nil_iff, validateRole_eq_nil_iff, hc.iff, ht.iff, hf.iff,
    ite_error_eq_nil, validateLabel_eq_nil_iff]
  constructor
  · rintro ⟨⟨⟨⟨⟨⟨hrole, h₁⟩, h₂⟩, h₃⟩, hle⟩, hname⟩, hid⟩
    refine ⟨hrole, h₁, h₂, h₃, ?_, ?_⟩
    · rw [← hbytes h₁ h₂ h₃]
      exact not_lt.mp fun hlt ↦ hle (hsize.mp hlt)
    · intro key hkey
      rcases List.mem_pair.mp hkey with rfl | rfl
      · exact hname
      · exact hid
  · rintro ⟨hrole, h₁, h₂, h₃, hle, hlabels⟩
    refine ⟨⟨⟨⟨⟨⟨hrole, h₁⟩, h₂⟩, h₃⟩, fun hlt ↦ ?_⟩, hlabels _ (by simp)⟩, hlabels _ (by simp)⟩
    rw [← hbytes h₁ h₂ h₃] at hle
    exact absurd (hsize.mpr hlt) (not_lt.mpr hle)

/-- What the loop over the messages checks. -/
theorem itemCheck_validateMessage :
    ItemCheck V.validateMessage ContentPlain V.MessageOk messageBytes where
  returns _ _ := (returns_bind_of_forall fun _ ↦ returns_ok _).trans returns_validateContent
  tells idx message r := tells_validateMessage
  other idx v hv := by
    cases v with
    | obj message => cases hv
    | _ => exact ⟨_, rfl⟩

/-- The texts of the messages that the checks reach can be encoded. -/
def MessagesPlain (V : RequestValidator) (messages : Json) : Prop :=
  ∀ items, messages = .arr items → items.length ≤ V.maxMessages →
    ∀ message, .obj message ∈ items → ContentPlain message

theorem returns_validateMessages {messages : Json} :
    Returns (V.validateMessages messages) ↔ V.MessagesPlain messages := by
  unfold MessagesPlain
  cases messages with
  | arr items =>
      cases items with
      | nil => simp [validateMessages]
      | cons first rest =>
          rw [validateMessages]
          split_ifs with hlength
          · refine iff_of_true (returns_ok _) fun items hitems hle ↦ ?_
            obtain rfl := Json.arr.inj hitems
            exact absurd hlength (not_lt.mpr hle)
          · rw [returns_bind_of_forall fun _ ↦ returns_ok _, itemCheck_validateMessage.returns_iff 0]
            constructor
            · intro h items hitems _
              obtain rfl := Json.arr.inj hitems
              exact h
            · exact fun h ↦ h _ rfl (not_lt.mp hlength)
  | _ => simp [validateMessages]

theorem validateMessages_eq_ok_nil_iff {messages : Json} :
    V.validateMessages messages = .ok [] ↔
      ∃ items, messages = .arr (items.map .obj) ∧ V.MessagesOk items := by
  constructor
  · intro h
    unfold validateMessages at h
    split at h
    · next first rest =>
        dsimp only at h
        split_ifs at h with hlength
        · cases h
        · obtain ⟨r, hr, hnil⟩ := bind_ok_iff.mp h
          obtain ⟨hnil, htotal⟩ := List.append_eq_nil_iff.mp (Except.ok.inj hnil)
          obtain ⟨items, hitems⟩ := itemCheck_validateMessage.objects_of_nil hr hnil
          rw [hitems] at hr hlength ⊢
          have htells := itemCheck_validateMessage.tells_items hr
          refine ⟨items, rfl, ?_, ?_, htells.iff.mp hnil, ?_⟩
          · rintro rfl
            cases hitems
          · simpa using hlength
          · rw [← htells.size (htells.iff.mp hnil)]
            exact not_lt.mp (ite_error_eq_nil.mp htotal)
    · cases h
  · rintro ⟨items, rfl, hok⟩
    have hmeasured : ∀ message, Json.obj message ∈ items.map Json.obj → ContentPlain message := by
      intro message hmessage
      obtain ⟨_, hmem, heq⟩ := List.mem_map.mp hmessage
      obtain rfl := Json.obj.inj heq
      intro text htext
      have hcontent := (hok.each _ hmem).content
      unfold ContentOk at hcontent
      rwa [htext] at hcontent
    obtain ⟨r, hr⟩ := (itemCheck_validateMessage (V := V) |>.returns_iff 0 _).mpr hmeasured
    have htells := itemCheck_validateMessage.tells_items hr
    obtain ⟨first, rest, hitems⟩ := List.exists_cons_of_ne_nil
      (mt List.map_eq_nil_iff.mp hok.nonempty : items.map Json.obj ≠ [])
    rw [hitems] at hr ⊢
    rw [validateMessages, if_neg, hr]
    · change Except.ok _ = _
      rw [htells.iff.mpr hok.each, htells.size hok.each, if_neg (not_lt.mpr hok.total)]
      rfl
    · rw [← hitems, List.length_map]
      exact not_lt.mpr hok.length

/-! ## Tools -/

theorem validateFunctionName_str {field : String} {text : Str} :
    validateFunctionName field (.str text) = (if !hasText text then
        .ok [error (field ++ ".function.name") "Tool function name must be a non-empty string."]
      else do
        let size ← utf8Size text
        .ok (if 128 < size then
            [error (field ++ ".function.name") "Tool function name may not exceed 128 bytes."]
          else [])) :=
  rfl

theorem returns_validateFunctionName {field : String} {name : Json} (h : name.encodable = true) :
    Returns (validateFunctionName field name) := by
  cases name with
  | str text =>
      rw [validateFunctionName_str]
      split_ifs
      · exact returns_ok _
      · exact (returns_bind_of_forall fun _ ↦ returns_ok _).mpr (returns_utf8Size.mpr h)
  | _ => exact returns_ok _

theorem validateFunctionName_eq_nil_iff {field : String} {name : Json} {errors : Errors}
    (h : validateFunctionName field name = .ok errors) :
    errors = [] ↔ ∃ text, name = .str text ∧ hasText text = true ∧ Bounded 128 text := by
  cases name with
  | str text =>
      rw [validateFunctionName_str] at h
      split_ifs at h with htext
      · obtain rfl := Except.ok.inj h
        refine iff_of_false (List.cons_ne_nil _ _) ?_
        rintro ⟨_, heq, hhas, -⟩
        obtain rfl := Json.str.inj heq
        simp [hhas] at htext
      · obtain ⟨size, hsize, herrors⟩ := bind_ok_iff.mp h
        obtain ⟨hplain, rfl⟩ := utf8Size_eq_ok_iff.mp hsize
        rw [← Except.ok.inj herrors, ite_error_eq_nil, not_lt]
        constructor
        · exact fun hle ↦ ⟨text, rfl, by simpa using htext, hplain, hle⟩
        · rintro ⟨_, heq, -, hbounded⟩
          obtain rfl := Json.str.inj heq
          exact hbounded.2
  | _ =>
      obtain rfl := Except.ok.inj h
      simp

theorem encodable_get {fields : Fields} (h : (Json.obj fields).encodable = true) (key : String) :
    (get fields key).encodable = true := by
  unfold PyJson.get
  cases hlookup : fields.lookup (lit key) with
  | none => rfl
  | some v => exact Json.all_of_lookup h hlookup

theorem returns_validateFunction {field : String} {function : Json}
    (h : function.encodable = true) : Returns (validateFunction field function) := by
  cases function with
  | obj function =>
      refine (returns_bind_of_forall fun _ ↦ returns_ok _).mpr ?_
      exact returns_validateFunctionName (encodable_get h "name")
  | _ => exact returns_ok _

theorem validateOptional_eq_nil_iff {field key kind : String} {ok : Json → Bool}
    {function : Fields} : validateOptional field key kind ok function = [] ↔
      (get function key).isNull = true ∨ ok (get function key) = true := by
  rw [validateOptional, ite_nil_eq_nil, Bool.or_eq_true]

theorem validateFunction_eq_nil_iff {field : String} {v : Json} {errors : Errors}
    (h : validateFunction field v = .ok errors) :
    errors = [] ↔ ∃ function, v = .obj function ∧ FunctionOk function := by
  cases v with
  | obj function =>
      obtain ⟨nameErrors, hname, herrors⟩ := bind_ok_iff.mp h
      rw [← Except.ok.inj herrors]
      simp only [List.append_eq_nil_iff, validateFunctionName_eq_nil_iff hname,
        validateOptional_eq_nil_iff]
      constructor
      · rintro ⟨⟨⟨hname, hdescription⟩, hparameters⟩, hstrict⟩
        exact ⟨function, rfl, hname, hdescription, hparameters, hstrict⟩
      · rintro ⟨_, heq, hok⟩
        obtain rfl := Json.obj.inj heq
        exact ⟨⟨⟨hok.name, hok.description⟩, hok.parameters⟩, hok.strict⟩
  | _ =>
      obtain rfl := Except.ok.inj h
      simp

theorem tells_validateTool {idx : ℕ} {tool : Fields} {r : ℕ × Errors}
    (h : V.validateTool idx (.obj tool) = .ok r) :
    Tells r (V.ToolOk tool) (jsonBytes (.obj tool)) := by
  unfold validateTool at h
  dsimp only at h
  split at h
  · next hsize =>
      obtain rfl := Except.ok.inj h
      exact .refused fun hok ↦ jsonSize?_eq_none_iff.mp hsize hok.writable
  · next size hsize =>
      obtain ⟨hwritable, rfl⟩ := jsonSize?_eq_some_iff.mp hsize
      obtain ⟨functionErrors, hfunction, hr⟩ := bind_ok_iff.mp h
      obtain rfl := Except.ok.inj hr
      refine ⟨?_, fun _ ↦ rfl⟩
      simp only [List.append_eq_nil_iff, ite_error_eq_nil, ite_nil_eq_nil, not_lt,
        validateFunction_eq_nil_iff hfunction]
      constructor
      · rintro ⟨⟨hle, htype⟩, hfunction⟩
        exact ⟨hwritable, hle, htype, hfunction⟩
      · exact fun hok ↦ ⟨⟨hok.size, hok.type⟩, hok.function⟩

/-- What the loop over the tools checks; a name that cannot be encoded is never measured by
itself. -/
theorem itemCheck_validateTool :
    ItemCheck V.validateTool (fun _ ↦ True) V.ToolOk (fun tool ↦ jsonBytes (.obj tool)) where
  returns idx tool := by
    refine iff_of_true ?_ trivial
    unfold validateTool
    dsimp only
    split
    · exact returns_ok _
    · next size hsize =>
        obtain ⟨hwritable, -⟩ := jsonSize?_eq_some_iff.mp hsize
        refine (returns_bind_of_forall fun _ ↦ returns_ok _).mpr ?_
        exact returns_validateFunction (encodable_get hwritable.2 "function")
  tells idx tool r := tells_validateTool
  other idx v hv := by
    cases v with
    | obj tool => cases hv
    | _ => exact ⟨_, rfl⟩

theorem returns_validateTools {tools toolChoice : Json} :
    Returns (V.validateTools tools toolChoice) := by
  cases tools with
  | arr tools =>
      unfold validateTools
      dsimp only
      split_ifs
      · exact returns_ok _
      · exact (returns_bind_of_forall fun _ ↦ returns_ok _).mpr
          ((itemCheck_validateTool.returns_iff 0 tools).mpr fun _ _ ↦ trivial)
  | _ => exact returns_ok _

theorem isNull_iff {v : Json} : v.isNull = true ↔ v = .null := by
  cases v <;> simp [Json.isNull]

theorem validateToolChoice_eq_nil_iff {toolChoice : Json} {hasTools : Bool} :
    validateToolChoice toolChoice hasTools = [] ↔ ChoiceOk hasTools toolChoice := by
  unfold validateToolChoice ChoiceOk
  cases hasTools with
  | false =>
      cases toolChoice with
      | null => simp [Json.isNull]
      | _ => simp [Json.isNull]
  | true =>
      cases toolChoice with
      | null => simp [Json.isNull]
      | str text => simp [Json.isNull]
      | obj choice => simp [Json.isNull]
      | _ => simp [Json.isNull]

theorem validateTools_eq_ok_nil_iff {tools toolChoice : Json} :
    V.validateTools tools toolChoice = .ok [] ↔ V.ToolFieldsOk tools toolChoice := by
  unfold ToolFieldsOk
  constructor
  · intro h
    cases tools with
    | null => exact .inl ⟨rfl, validateToolChoice_eq_nil_iff.mp (Except.ok.inj h)⟩
    | arr tools =>
        unfold validateTools at h
        dsimp only at h
        split_ifs at h with hlength
        · cases h
        · obtain ⟨r, hr, herrors⟩ := bind_ok_iff.mp h
          obtain ⟨hshape, hchoice⟩ := List.append_eq_nil_iff.mp (Except.ok.inj herrors)
          obtain ⟨hnil, htotal⟩ := List.append_eq_nil_iff.mp hshape
          obtain ⟨items, rfl⟩ := itemCheck_validateTool.objects_of_nil hr hnil
          have htells := itemCheck_validateTool.tells_items hr
          have hall := htells.iff.mp hnil
          refine .inr ⟨items, rfl, ⟨by simpa using hlength, hall, ?_⟩, ?_⟩
          · rw [← htells.size hall]
            exact not_lt.mp (ite_error_eq_nil.mp htotal)
          · rw [← List.isEmpty_map (f := Json.obj)]
            exact validateToolChoice_eq_nil_iff.mp hchoice
    | _ => cases h
  · rintro (⟨rfl, hchoice⟩ | ⟨items, rfl, hok, hchoice⟩)
    · exact congrArg Except.ok (validateToolChoice_eq_nil_iff.mpr hchoice)
    · obtain ⟨r, hr⟩ := (itemCheck_validateTool (V := V) |>.returns_iff 0
        (items.map Json.obj)).mpr fun _ _ ↦ trivial
      have htells := itemCheck_validateTool.tells_items hr
      unfold validateTools
      dsimp only
      rw [if_neg (by simpa using hok.length), hr]
      change Except.ok _ = _
      rw [htells.iff.mpr hok.each, htells.size hok.each, if_neg (not_lt.mpr hok.total),
        List.isEmpty_map, validateToolChoice_eq_nil_iff.mpr hchoice]
      rfl

/-! ## The other fields -/

/-- A text that is measured can be encoded. -/
def ModelPlain (requireModel : Bool) (model : Json) : Prop :=
  ∀ text, model = .str text → (requireModel = true → hasText text = true) → plain text = true

/-- A text is measured and must not be longer than a limit. -/
theorem measured_eq_ok_nil_iff {text : Str} {limit : ℕ} {e : ValidationError} :
    (do
      let size ← utf8Size text
      .ok (if limit < size then [e] else []) : Except Raised Errors) = .ok [] ↔
      Bounded limit text := by
  rw [bind_ok_iff]
  constructor
  · rintro ⟨size, hsize, h⟩
    obtain ⟨hplain, rfl⟩ := utf8Size_eq_ok_iff.mp hsize
    exact ⟨hplain, not_lt.mp (ite_error_eq_nil.mp (Except.ok.inj h))⟩
  · rintro ⟨hplain, hle⟩
    exact ⟨_, utf8Size_eq_ok_iff.mpr ⟨hplain, rfl⟩, by rw [if_neg (not_lt.mpr hle)]⟩

theorem returns_measured {text : Str} {f : ℕ → Errors} :
    Returns (do
      let size ← utf8Size text
      .ok (f size) : Except Raised Errors) ↔ plain text = true :=
  (returns_bind_of_forall fun _ ↦ returns_ok _).trans returns_utf8Size

theorem returns_validateModel {requireModel : Bool} {model : Json} :
    Returns (validateModel model requireModel) ↔ ModelPlain requireModel model := by
  unfold ModelPlain validateModel
  cases model with
  | str text =>
      dsimp only
      split_ifs with hrequired
      · refine iff_of_true (returns_ok _) fun other heq himp ↦ ?_
        obtain rfl := Json.str.inj heq
        simp only [Bool.and_eq_true, Bool.not_eq_true'] at hrequired
        rw [himp hrequired.1] at hrequired
        cases hrequired.2
      · rw [returns_measured]
        simp only [Json.str.injEq, forall_eq']
        exact ⟨fun h _ ↦ h, fun h ↦ h fun hrequire ↦ by simpa [hrequire] using hrequired⟩
  | _ => simp

theorem validateModel_eq_ok_nil_iff {requireModel : Bool} {model : Json} :
    validateModel model requireModel = .ok [] ↔ ModelOk requireModel model := by
  unfold ModelOk validateModel
  cases model with
  | str text =>
      dsimp only
      split_ifs with hrequired
      · simp only [Bool.and_eq_true, Bool.not_eq_true'] at hrequired
        simp [hrequired]
      · rw [measured_eq_ok_nil_iff]
        simp only [Json.str.injEq, exists_eq_left']
        exact ⟨fun h ↦ ⟨fun hrequire ↦ by simpa [hrequire] using hrequired, h⟩, fun h ↦ h.2⟩
  | _ => simp

theorem validateRange_eq_nil_iff {field high : String} {bound : ℚ} {value : Json} :
    validateRange field high bound value = [] ↔ RangeOk bound value := by
  unfold validateRange RangeOk
  cases value.isNull with
  | true => simp
  | false => cases isNumber value <;> simp

theorem validateMaxTokens_eq_nil_iff {value : Json} :
    V.validateMaxTokens value = [] ↔ V.MaxTokensOk value := by
  unfold validateMaxTokens MaxTokensOk
  cases value with
  | num n =>
      cases n with
      | int n =>
          dsimp only
          split_ifs with hpos hle
          · simp [hpos]
          · simp [hle]
          · simp [not_le.mp hpos, not_lt.mp hle]
      | float x => simp
  | _ => simp

theorem returns_validateSequence {idx : ℕ} {sequence : Json} :
    Returns (V.validateSequence idx sequence) ↔
      ∀ text, sequence = .str text → plain text = true := by
  cases sequence with
  | str text =>
      cases text with
      | nil => simp [validateSequence]
      | cons c text => exact returns_measured.trans (by simp)
  | _ => simp [validateSequence]

theorem validateSequence_eq_ok_nil_iff (idx : ℕ) {sequence : Json} :
    V.validateSequence idx sequence = .ok [] ↔ V.SequenceOk sequence := by
  unfold SequenceOk
  cases sequence with
  | str text =>
      cases text with
      | nil => simp [validateSequence]
      | cons c text => exact measured_eq_ok_nil_iff.trans (by simp)
  | _ => simp [validateSequence]

theorem returns_validateSequences {idx : ℕ} {sequences : List Json} :
    Returns (V.validateSequences idx sequences) ↔
      ∀ text, .str text ∈ sequences → plain text = true := by
  induction sequences generalizing idx with
  | nil => simp [validateSequences]
  | cons sequence rest ih =>
      rw [validateSequences, returns_bind_and fun _ ↦
        (returns_bind_of_forall fun _ ↦ returns_ok _).trans ih, returns_validateSequence]
      simp only [List.mem_cons]
      constructor
      · rintro ⟨hfirst, hrest⟩ text (htext | htext)
        · exact hfirst text htext.symm
        · exact hrest text htext
      · exact fun h ↦ ⟨fun text htext ↦ h text (.inl htext.symm), fun text htext ↦ h text (.inr htext)⟩

theorem validateSequences_eq_ok_nil_iff (idx : ℕ) {sequences : List Json} :
    V.validateSequences idx sequences = .ok [] ↔ ∀ s ∈ sequences, V.SequenceOk s := by
  induction sequences generalizing idx with
  | nil => simp [validateSequences]
  | cons sequence rest ih =>
      rw [List.forall_mem_cons, ← validateSequence_eq_ok_nil_iff idx, ← ih (idx + 1),
        validateSequences, bind_ok_iff]
      constructor
      · rintro ⟨first, hfirst, h⟩
        obtain ⟨others, hothers, h⟩ := bind_ok_iff.mp h
        obtain ⟨rfl, rfl⟩ := List.append_eq_nil_iff.mp (Except.ok.inj h)
        exact ⟨hfirst, hothers⟩
      · rintro ⟨hfirst, hothers⟩
        exact ⟨[], hfirst, bind_ok_iff.mpr ⟨[], hothers, rfl⟩⟩

/-- The stop sequences that the checks reach can be encoded. -/
def StopPlain (V : RequestValidator) (stop : Json) : Prop :=
  match stop with
  | .str text => plain text = true
  | .arr sequences => sequences.length ≤ V.maxStopSequences →
      ∀ text, .str text ∈ sequences → plain text = true
  | _ => True

theorem returns_validateStop {stop : Json} : Returns (V.validateStop stop) ↔ V.StopPlain stop := by
  unfold StopPlain validateStop
  cases stop with
  | str text =>
      dsimp only
      rw [returns_validateSequences]
      simp
  | arr sequences =>
      dsimp only
      split_ifs with hlength
      · exact iff_of_true (returns_ok _) fun hle ↦ absurd hlength (not_lt.mpr hle)
      · rw [returns_validateSequences]
        exact ⟨fun h _ ↦ h, fun h ↦ h (not_lt.mp hlength)⟩
  | _ => simp

theorem validateStop_eq_ok_nil_iff {stop : Json} : V.validateStop stop = .ok [] ↔ V.StopOk stop := by
  unfold StopOk validateStop
  cases stop with
  | str text =>
      dsimp only
      rw [validateSequences_eq_ok_nil_iff]
      simp
  | arr sequences =>
      dsimp only
      split_ifs with hlength
      · simp [hlength]
      · rw [validateSequences_eq_ok_nil_iff]
        exact (and_iff_right (not_lt.mp hlength)).symm
  | _ => simp

/-- A text for the system can be encoded. -/
def SystemPlain (system : Json) : Prop := ∀ text, system = .str text → plain text = true

theorem returns_validateSystem {system : Json} :
    Returns (V.validateSystem system) ↔ SystemPlain system := by
  unfold SystemPlain validateSystem
  cases system with
  | str text => exact returns_measured.trans (by simp)
  | _ => simp

theorem validateSystem_eq_ok_nil_iff {system : Json} :
    V.validateSystem system = .ok [] ↔ V.SystemOk system := by
  unfold SystemOk validateSystem
  cases system with
  | str text => exact measured_eq_ok_nil_iff.trans (by simp)
  | _ => simp

/-! ## The shape -/

/-- The texts that are measured by themselves can be encoded. -/
structure Measurable (V : RequestValidator) (requireModel : Bool)
    (request : ChatCompletionRequest) : Prop where
  messages : V.MessagesPlain request.messages
  model : ModelPlain requireModel request.model
  stop : V.StopPlain request.stop
  system : SystemPlain request.system

theorem returns_validateShape {request : ChatCompletionRequest} {requireModel : Bool} :
    Returns (V.validateShape request requireModel) ↔ V.Measurable requireModel request := by
  have htools : Returns (V.validateTools request.tools request.toolChoice) := returns_validateTools
  unfold validateShape
  rw [returns_bind_and fun _ ↦ returns_bind_and fun _ ↦ returns_bind_and fun _ ↦
    returns_bind_and fun _ ↦ (returns_bind_of_forall fun _ ↦ returns_ok _).trans (iff_true_intro htools),
    returns_validateMessages, returns_validateModel, returns_validateStop, returns_validateSystem]
  exact ⟨fun ⟨hmessages, hmodel, hstop, hsystem, _⟩ ↦ ⟨hmessages, hmodel, hstop, hsystem⟩,
    fun h ↦ ⟨h.messages, h.model, h.stop, h.system, trivial⟩⟩

theorem validateShape_eq_ok_nil_iff {request : ChatCompletionRequest} {requireModel : Bool} :
    V.validateShape request requireModel = .ok [] ↔ V.WellFormed requireModel request := by
  constructor
  · intro h
    obtain ⟨messages, hmessages, h⟩ := bind_ok_iff.mp h
    obtain ⟨model, hmodel, h⟩ := bind_ok_iff.mp h
    obtain ⟨stop, hstop, h⟩ := bind_ok_iff.mp h
    obtain ⟨system, hsystem, h⟩ := bind_ok_iff.mp h
    obtain ⟨tools, htools, h⟩ := bind_ok_iff.mp h
    have herrors := Except.ok.inj h
    simp only [List.append_eq_nil_iff, ite_nil_eq_nil, validateSampling, validateRange_eq_nil_iff,
      validateMaxTokens_eq_nil_iff] at herrors
    obtain ⟨⟨⟨⟨⟨⟨rfl, rfl⟩, ⟨htemperature, htop⟩, hmax⟩, rfl⟩, rfl⟩, rfl⟩, hstream⟩ := herrors
    exact ⟨validateMessages_eq_ok_nil_iff.mp hmessages, validateModel_eq_ok_nil_iff.mp hmodel,
      htemperature, htop, hmax, validateStop_eq_ok_nil_iff.mp hstop,
      validateSystem_eq_ok_nil_iff.mp hsystem, validateTools_eq_ok_nil_iff.mp htools, hstream⟩
  · intro h
    have hsampling : V.validateSampling request = [] := by
      rw [validateSampling, validateRange_eq_nil_iff.mpr h.temperature,
        validateRange_eq_nil_iff.mpr h.topP, validateMaxTokens_eq_nil_iff.mpr h.maxTokens]
      rfl
    unfold validateShape
    rw [validateMessages_eq_ok_nil_iff.mpr h.messages, validateModel_eq_ok_nil_iff.mpr h.model,
      validateStop_eq_ok_nil_iff.mpr h.stop, validateSystem_eq_ok_nil_iff.mpr h.system,
      validateTools_eq_ok_nil_iff.mpr h.tools, hsampling, if_pos h.stream]
    rfl

end RequestValidator

end Requests
