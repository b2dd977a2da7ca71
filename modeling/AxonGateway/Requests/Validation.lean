import AxonGateway.Requests.Shape

/-!
# When validation returns, and what it accepts

The validator is meant to return a list of errors for any body and to accept only what is within
its bounds. What it accepts is; it raises where a text it measures by itself holds a lone
surrogate, and where the messages cannot be written as JSON for the estimate of their tokens.
-/

namespace Requests

open PyJson Binary64 Outcome

namespace RequestValidator

variable {V : RequestValidator} {tokens : Str → Option ℕ} {request : ChatCompletionRequest}

/-! ## The context window -/

/-- The window of the request's model in the registry. -/
def Window (V : RequestValidator) (request : ChatCompletionRequest) (maxContext : ℤ) : Prop :=
  ∃ models model, V.models = some models ∧ request.model = .str model ∧
    models.lookup model = some (some maxContext)

/-- The estimate of the prompt and the tokens asked for fit into the window, if there is one. -/
def FitsContext (V : RequestValidator) (tokens : Str → Option ℕ) (request : ChatCompletionRequest) :
    Prop :=
  ∀ maxContext, V.Window request maxContext → ∃ prompt : ℕ,
    estimatePromptTokens tokens request = .ok prompt ∧
      prompt + requestedOutputTokens request ≤ maxContext

/-- The messages can be written as JSON, and the tokenizer reads what is written or it can be
encoded. -/
def PromptReadable (tokens : Str → Option ℕ) (request : ChatCompletionRequest) : Prop :=
  request.messages.finite = true ∧
    (request.messages.encodable = true ∨ tokens (promptParts request).write ≠ none)

theorem returns_estimatePromptTokens :
    Returns (estimatePromptTokens tokens request) ↔ (promptParts request).finite = true ∧
      ((promptParts request).encodable = true ∨ tokens (promptParts request).write ≠ none) := by
  rw [estimatePromptTokens, returns_bind_iff, ← Json.plain_write]
  constructor
  · rintro ⟨text, htext, h⟩
    unfold dumps at htext
    split_ifs at htext with hfinite
    obtain rfl := Except.ok.inj htext
    refine ⟨hfinite, ?_⟩
    split at h
    · next n hn => exact .inr (by rw [hn]; exact Option.some_ne_none n)
    · exact .inl (returns_utf8Size.mp ((returns_bind_of_forall fun _ ↦ returns_ok _).mp h))
  · rintro ⟨hfinite, h⟩
    refine ⟨_, if_pos hfinite, ?_⟩
    split
    · exact returns_ok _
    · next hnone =>
        have hplain := h.resolve_right (not_not.mpr hnone)
        exact (returns_bind_of_forall fun _ ↦ returns_ok _).mpr (returns_utf8Size.mpr hplain)

section Prompt

variable {text : Str → Bool} {number : PyNum → Bool}

/-- What a prompt holds is what its parts hold. -/
theorem all_promptParts (hlit : ∀ s : String, text (lit s) = true) :
    (promptParts request).all text number = (request.messages.all text number &&
      request.system.all text number && request.tools.all text number) := by
  have hnull : ∀ v : Json, v.isNull = true → v.all text number = true := by
    intro v hv
    rw [isNull_iff.mp hv]
    rfl
  unfold promptParts
  cases hsystem : request.system.isNull with
  | true =>
      cases htools : request.tools.isNull with
      | true => simp [Json.all, Json.allFields, Json.allField, hlit, hnull _ hsystem, hnull _ htools]
      | false => simp [Json.all, Json.allFields, Json.allField, hlit, hnull _ hsystem]
  | false =>
      cases htools : request.tools.isNull with
      | true => simp [Json.all, Json.allFields, Json.allField, hlit, hnull _ htools]
      | false => simp [Json.all, Json.allFields, Json.allField, hlit, Bool.and_assoc]

theorem all_arr_obj {items : List Fields} (h : ∀ item ∈ items, (Json.obj item).all text number = true) :
    (Json.arr (items.map .obj)).all text number = true := by
  rw [Json.all]
  induction items with
  | nil => rfl
  | cons item items ih =>
      obtain ⟨hitem, hitems⟩ := List.forall_mem_cons.mp h
      rw [List.map_cons, Json.allItems, hitem, ih hitems]
      rfl

end Prompt

/-- The system and the tools of a well-formed request can be written. -/
theorem WellFormed.writable {requireModel : Bool} (h : V.WellFormed requireModel request) :
    Writable request.system ∧ Writable request.tools := by
  constructor
  · rcases h.system with hnull | ⟨text, htext, hbounded⟩
    · rw [hnull]
      exact ⟨rfl, rfl⟩
    · rw [htext]
      exact ⟨rfl, hbounded.1⟩
  · rcases h.tools with ⟨hnull, -⟩ | ⟨items, hitems, hok, -⟩
    · rw [hnull]
      exact ⟨rfl, rfl⟩
    · rw [hitems]
      exact ⟨all_arr_obj fun item hitem ↦ (hok.each item hitem).writable.1,
        all_arr_obj fun item hitem ↦ (hok.each item hitem).writable.2⟩

theorem returns_estimate_iff_readable {requireModel : Bool} (h : V.WellFormed requireModel request) :
    Returns (estimatePromptTokens tokens request) ↔ PromptReadable tokens request := by
  obtain ⟨hsystem, htools⟩ := h.writable
  have hfinite : (promptParts request).finite = request.messages.finite := by
    have hall : (promptParts request).finite = (request.messages.finite && request.system.finite &&
        request.tools.finite) := all_promptParts fun _ ↦ rfl
    rw [hall, hsystem.1, htools.1, Bool.and_true, Bool.and_true]
  have hencodable : (promptParts request).encodable = request.messages.encodable := by
    have hall : (promptParts request).encodable = (request.messages.encodable &&
        request.system.encodable && request.tools.encodable) := all_promptParts plain_lit
    rw [hall, hsystem.2, htools.2, Bool.and_true, Bool.and_true]
  rw [returns_estimatePromptTokens, hfinite, hencodable, PromptReadable]

theorem validateRegistered_of_window {maxContext : ℤ} (h : V.Window request maxContext) :
    V.validateRegistered tokens request = validateContext tokens request (some maxContext) := by
  obtain ⟨models, model, hmodels, hmodel, hlookup⟩ := h
  rw [validateRegistered, hmodels, hmodel]
  dsimp only
  rw [hlookup]

theorem returns_validateRegistered {requireModel : Bool} (h : V.WellFormed requireModel request) :
    Returns (V.validateRegistered tokens request) ↔
      ((∃ maxContext, V.Window request maxContext) → PromptReadable tokens request) := by
  rw [← returns_estimate_iff_readable h]
  constructor
  · rintro hreturns ⟨maxContext, hwindow⟩
    rw [validateRegistered_of_window hwindow] at hreturns
    exact (returns_bind_of_forall fun _ ↦ returns_ok _).mp hreturns
  · intro himp
    by_cases hwindow : ∃ maxContext, V.Window request maxContext
    · obtain ⟨maxContext, hmax⟩ := hwindow
      rw [validateRegistered_of_window hmax]
      exact (returns_bind_of_forall fun _ ↦ returns_ok _).mpr (himp ⟨maxContext, hmax⟩)
    · unfold validateRegistered
      split
      · next models model hmodels hmodel =>
          split
          · exact returns_ok _
          · next entry hentry =>
              cases entry with
              | none => exact returns_ok _
              | some maxContext =>
                  exact absurd ⟨maxContext, models, model, hmodels, hmodel, hentry⟩ hwindow
      · exact returns_ok _

theorem fitsContext_of_nil (h : V.validateRegistered tokens request = .ok []) :
    V.FitsContext tokens request := by
  intro maxContext hwindow
  rw [validateRegistered_of_window hwindow] at h
  obtain ⟨prompt, hprompt, herrors⟩ := bind_ok_iff.mp h
  exact ⟨prompt, hprompt, not_lt.mp (ite_error_eq_nil.mp (Except.ok.inj herrors))⟩

/-! ## Requests and payloads -/

variable {checkModel requireModel : Bool}

theorem returns_validate : Returns (V.validate tokens request checkModel requireModel) ↔
    V.Measurable requireModel request ∧ (checkModel = true → V.WellFormed requireModel request →
      (∃ maxContext, V.Window request maxContext) → PromptReadable tokens request) := by
  rw [validate, returns_bind_iff]
  constructor
  · rintro ⟨errors, herrors, h⟩
    refine ⟨returns_validateShape.mp ⟨errors, herrors⟩, fun hcheck hwell ↦ ?_⟩
    obtain rfl := Except.ok.inj (herrors.symm.trans (validateShape_eq_ok_nil_iff.mpr hwell))
    rw [hcheck] at h
    exact (returns_validateRegistered hwell).mp h
  · rintro ⟨hmeasurable, himp⟩
    obtain ⟨errors, herrors⟩ := returns_validateShape.mpr hmeasurable
    refine ⟨errors, herrors, ?_⟩
    split_ifs with hcase
    · exact returns_ok _
    · obtain ⟨hnil, hcheck⟩ : errors = [] ∧ checkModel = true := by simpa using hcase
      have hwell := validateShape_eq_ok_nil_iff.mp (hnil ▸ herrors)
      exact (returns_validateRegistered hwell).mpr (himp hcheck hwell)

theorem wellFormed_of_nil (h : V.validate tokens request checkModel requireModel = .ok []) :
    V.WellFormed requireModel request ∧ (checkModel = true → V.FitsContext tokens request) := by
  obtain ⟨errors, herrors, h⟩ := bind_ok_iff.mp h
  split_ifs at h with hcase
  · obtain rfl := Except.ok.inj h
    refine ⟨validateShape_eq_ok_nil_iff.mp herrors, fun hcheck ↦ ?_⟩
    rw [hcheck] at hcase
    cases hcase
  · obtain ⟨rfl, hcheck⟩ : errors = [] ∧ checkModel = true := by simpa using hcase
    exact ⟨validateShape_eq_ok_nil_iff.mp herrors, fun _ ↦ fitsContext_of_nil h⟩

/-- The validator returns a list of errors, and when there are none, the body is an object within
every bound, that of the model's context among them when the model is checked. -/
def Bounds (V : RequestValidator) (tokens : Str → Option ℕ) (payload : Json)
    (allowEmptyModel checkModel : Bool) : Prop :=
  ∃ errors, V.validatePayload tokens payload allowEmptyModel checkModel = .ok errors ∧
    (errors = [] → ∃ fields, payload = .obj fields ∧
      V.WellFormed (!allowEmptyModel) (ofPayload fields) ∧
        (checkModel = true → V.FitsContext tokens (ofPayload fields)))

/-- The texts measured by themselves can be encoded, and the messages can be read for the estimate
where it is made: for a well-formed request whose model has a window that is checked. -/
def CanMeasure (V : RequestValidator) (tokens : Str → Option ℕ) (payload : Json)
    (allowEmptyModel checkModel : Bool) : Prop :=
  ∀ fields, payload = .obj fields → V.Measurable (!allowEmptyModel) (ofPayload fields) ∧
    (checkModel = true → V.WellFormed (!allowEmptyModel) (ofPayload fields) →
      (∃ maxContext, V.Window (ofPayload fields) maxContext) →
        PromptReadable tokens (ofPayload fields))

/-- Validation keeps its promise for a body exactly when it can measure it. -/
theorem validatePayload_bounds_iff (V : RequestValidator) (tokens : Str → Option ℕ) (payload : Json)
    (allowEmptyModel checkModel : Bool) :
    V.Bounds tokens payload allowEmptyModel checkModel ↔
      V.CanMeasure tokens payload allowEmptyModel checkModel := by
  unfold Bounds CanMeasure
  cases payload with
  | obj fields =>
      simp only [Json.obj.injEq, forall_eq', exists_eq_left']
      rw [← returns_validate, validatePayload]
      constructor
      · rintro ⟨errors, herrors, -⟩
        exact (returns_bind_of_forall fun _ ↦ returns_ok _).mp ⟨errors, herrors⟩
      · rintro ⟨errors, herrors⟩
        refine ⟨_, bind_ok_iff.mpr ⟨errors, herrors, rfl⟩, fun hnil ↦ ?_⟩
        obtain ⟨hnil, -⟩ := List.append_eq_nil_iff.mp hnil
        obtain ⟨rfl, -⟩ := List.append_eq_nil_iff.mp hnil
        exact wellFormed_of_nil herrors
  | _ => simp [validatePayload]

/-- A NaN behind a key that no check reads is found out by the estimate. -/
example : validatePayload { models := some [(lit "m", some 100)] } (fun _ ↦ some 1)
    (.obj [(lit "model", .str (lit "m")), (lit "messages", .arr [.obj [(lit "role", .str (lit "user")),
      (lit "content", .str (lit "hi")), (lit "score", .num (.float .nonFinite))]])]) false true =
    .error .valueError :=
  rfl

def loneSurrogate : CodePoint := 0xD800

/-- A body with one message, whose content is a lone surrogate. -/
def surrogateBody : Json :=
  .obj [(lit "model", .str (lit "m")), (lit "messages", .arr [.obj [(lit "role", .str (lit "user")),
    (lit "content", .str [loneSurrogate])]])]

/-- The validator raises for a message whose content is a lone surrogate. -/
theorem surrogateBody_raises : ¬ ∀ (V : RequestValidator) (tokens : Str → Option ℕ) (payload : Json)
    (allowEmptyModel checkModel : Bool), V.Bounds tokens payload allowEmptyModel checkModel := by
  intro h
  obtain ⟨errors, herrors, -⟩ := h {} (fun _ ↦ some 1) surrogateBody false false
  have hraise : ({} : RequestValidator).validatePayload (fun _ ↦ some 1) surrogateBody false false =
      .error .unicodeEncodeError := rfl
  rw [hraise] at herrors
  cases herrors

end RequestValidator

end Requests
