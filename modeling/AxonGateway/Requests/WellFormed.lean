import AxonGateway.Requests.Validator

/-!
# Well-formed requests

What a request has to be for the checks of its shape to find nothing, field by field, with the
texts that they are able to measure.
-/

namespace Requests

open PyJson Outcome

/-! ## Sizes -/

/-- The bytes of a value as JSON. -/
def jsonBytes (v : Json) : ℕ := utf8Length v.write

/-- Its JSON can be written and encoded. -/
def Writable (v : Json) : Prop := v.finite = true ∧ v.encodable = true

theorem utf8Size_eq_ok_iff {s : Str} {n : ℕ} :
    utf8Size s = .ok n ↔ plain s = true ∧ n = utf8Length s := by
  rw [utf8Size, encodedLength]
  split_ifs with h
  · rw [Except.ok.injEq]
    exact ⟨fun hn ↦ ⟨h, hn.symm⟩, fun hn ↦ hn.2.symm⟩
  · exact ⟨fun hn ↦ (nomatch hn), fun hn ↦ absurd hn.1 h⟩

theorem returns_utf8Size {s : Str} : Returns (utf8Size s) ↔ plain s = true :=
  ⟨fun ⟨_, h⟩ ↦ (utf8Size_eq_ok_iff.mp h).1, fun h ↦ ⟨_, utf8Size_eq_ok_iff.mpr ⟨h, rfl⟩⟩⟩

theorem jsonSize?_eq_some_iff {v : Json} {n : ℕ} :
    jsonSize? v = some n ↔ Writable v ∧ n = jsonBytes v := by
  have hsize : jsonSize v = .ok n ↔ Writable v ∧ n = jsonBytes v := by
    rw [jsonSize, bind_ok_iff]
    constructor
    · rintro ⟨text, htext, hn⟩
      unfold dumps at htext
      split_ifs at htext with hfinite
      obtain rfl := Except.ok.inj htext
      obtain ⟨hplain, rfl⟩ := utf8Size_eq_ok_iff.mp hn
      exact ⟨⟨hfinite, v.plain_write ▸ hplain⟩, rfl⟩
    · rintro ⟨⟨hfinite, hencodable⟩, rfl⟩
      exact ⟨v.write, if_pos hfinite,
        utf8Size_eq_ok_iff.mpr ⟨v.plain_write.trans hencodable, rfl⟩⟩
  rw [← hsize, jsonSize?]
  split
  · next heq => rw [heq, Option.some.injEq, Except.ok.injEq]
  · next heq => rw [heq]; exact ⟨fun h ↦ (nomatch h), fun h ↦ (nomatch h)⟩

theorem jsonSize?_eq_none_iff {v : Json} : jsonSize? v = none ↔ ¬ Writable v := by
  rw [← not_iff_not, not_not, ← ne_eq, Option.ne_none_iff_exists']
  exact ⟨fun ⟨_, h⟩ ↦ (jsonSize?_eq_some_iff.mp h).1,
    fun h ↦ ⟨_, jsonSize?_eq_some_iff.mpr ⟨h, rfl⟩⟩⟩

def contentBytes : Json → ℕ
  | .str text => utf8Length text
  | .arr parts => jsonBytes (.arr parts)
  | _ => 0

def callBytes (call : Json) : ℕ := if call.isNull then 0 else jsonBytes call

/-- The bytes of a message: of its content, its tool calls and its function call. -/
def messageBytes (message : Fields) : ℕ :=
  contentBytes (get message "content") + callBytes (get message "tool_calls") +
    callBytes (get message "function_call")

/-! ## Fields -/

namespace RequestValidator

variable (V : RequestValidator)

/-- A list of objects that can be measured. -/
structure ObjectList (limit : ℕ) (items : List Json) : Prop where
  length : items.length ≤ limit
  objects : items.all Json.isObject = true
  writable : Writable (.arr items)

def ContentOk (message : Fields) : Prop :=
  match message.lookup (lit "content") with
  | none | some .null => hasCall message = true
  | some (.str text) => plain text = true
  | some (.arr parts) => ObjectList V.maxContentParts parts
  | some _ => False

def ToolCallsOk (message : Fields) : Prop :=
  match get message "tool_calls" with
  | .null => True
  | .arr calls => ObjectList V.maxTools calls
  | _ => False

def FunctionCallOk (message : Fields) : Prop :=
  match get message "function_call" with
  | .null => True
  | .obj call => isNonBlank (get call "name") = true ∧ Writable (.obj call)
  | _ => False

structure MessageOk (message : Fields) : Prop where
  role : ∃ role ∈ validRoles, message.lookup (lit "role") = some (.str role)
  content : V.ContentOk message
  toolCalls : V.ToolCallsOk message
  functionCall : FunctionCallOk message
  size : messageBytes message ≤ V.maxMessageContentBytes
  labels : ∀ key ∈ ["name", "tool_call_id"],
    (get message key).isNull = true ∨ isNonBlank (get message key) = true

structure MessagesOk (messages : List Fields) : Prop where
  nonempty : messages ≠ []
  length : messages.length ≤ V.maxMessages
  each : ∀ message ∈ messages, V.MessageOk message
  total : (messages.map messageBytes).sum ≤ V.maxTotalMessageContentBytes

/-- A text of at most the given bytes. -/
def Bounded (limit : ℕ) (text : Str) : Prop := plain text = true ∧ utf8Length text ≤ limit

def ModelOk (requireModel : Bool) (model : Json) : Prop :=
  ∃ text, model = .str text ∧ (requireModel = true → hasText text = true) ∧
    Bounded defaultMaxModelBytes text

def RangeOk (high : ℚ) (value : Json) : Prop :=
  value.isNull = true ∨ isNumber value = true ∧ upTo high value = true

def MaxTokensOk (value : Json) : Prop :=
  value = .null ∨ ∃ n, value = .num (.int n) ∧ 0 < n ∧ n ≤ V.maxRequestedOutputTokens

def SequenceOk (sequence : Json) : Prop :=
  ∃ text, sequence = .str text ∧ text ≠ [] ∧ Bounded V.maxStopSequenceBytes text

def StopOk (stop : Json) : Prop :=
  match stop with
  | .null => True
  | .str text => V.SequenceOk (.str text)
  | .arr sequences => sequences.length ≤ V.maxStopSequences ∧ ∀ s ∈ sequences, V.SequenceOk s
  | _ => False

def SystemOk (system : Json) : Prop :=
  system = .null ∨ ∃ text, system = .str text ∧ Bounded V.maxSystemBytes text

structure FunctionOk (function : Fields) : Prop where
  name : ∃ text, get function "name" = .str text ∧ hasText text = true ∧ Bounded 128 text
  description : (get function "description").isNull = true ∨ isStr (get function "description") = true
  parameters : (get function "parameters").isNull = true ∨
    (get function "parameters").isObject = true
  strict : (get function "strict").isNull = true ∨ isBool (get function "strict") = true

structure ToolOk (tool : Fields) : Prop where
  writable : Writable (.obj tool)
  size : jsonBytes (.obj tool) ≤ V.maxToolSchemaBytes
  type : isFunctionType (get tool "type") = true
  function : ∃ function, get tool "function" = .obj function ∧ FunctionOk function

structure ToolsOk (tools : List Fields) : Prop where
  length : tools.length ≤ V.maxTools
  each : ∀ tool ∈ tools, V.ToolOk tool
  total : (tools.map fun tool ↦ jsonBytes (.obj tool)).sum ≤ V.maxTotalToolSchemaBytes

def ChoiceOk (hasTools : Bool) (toolChoice : Json) : Prop :=
  toolChoice = .null ∨ hasTools = true ∧
    ((∃ text ∈ validToolChoices, toolChoice = .str text) ∨
      ∃ choice, toolChoice = .obj choice ∧ namesFunction choice = true)

/-- The tools and the choice among them. -/
def ToolFieldsOk (tools toolChoice : Json) : Prop :=
  tools = .null ∧ ChoiceOk false toolChoice ∨
    ∃ items : List Fields, tools = .arr (items.map .obj) ∧ V.ToolsOk items ∧
      ChoiceOk (!items.isEmpty) toolChoice

structure WellFormed (requireModel : Bool) (request : ChatCompletionRequest) : Prop where
  messages : ∃ messages, request.messages = .arr (messages.map .obj) ∧ V.MessagesOk messages
  model : ModelOk requireModel request.model
  temperature : RangeOk 2 request.temperature
  topP : RangeOk 1 request.topP
  maxTokens : V.MaxTokensOk request.maxTokens
  stop : V.StopOk request.stop
  system : V.SystemOk request.system
  tools : V.ToolFieldsOk request.tools request.toolChoice
  stream : isBool request.stream = true

end RequestValidator

end Requests
