import AxonGateway.Lib.PyJson
import AxonGateway.Lib.Outcome

/-!
# Validating a request

The checks that a body of a chat request passes before it is routed. They run over values of any
type and gather errors; a size is taken of a text or of the JSON of a value, and both can raise.
-/

namespace Requests

open PyJson Binary64

structure ValidationError where
  field : String
  message : Str
  severity : String := "error"
  deriving DecidableEq

abbrev Errors := List ValidationError

/-- `_error` -/
def error (field message : String) : ValidationError := ⟨field, lit message, "error"⟩

def validRoles : List Str := [lit "system", lit "user", lit "assistant", lit "tool"]

def validToolChoices : List Str := [lit "none", lit "auto", lit "required"]

def defaultMaxModelBytes : ℕ := 256

def utf8Size (value : Str) : Except Raised ℕ := encodedLength value

def jsonSize (value : Json) : Except Raised ℕ := dumps value >>= encodedLength

/-- `_json_size` where what it raises is caught. -/
def jsonSize? (value : Json) : Option ℕ :=
  match jsonSize value with
  | .ok size => some size
  | .error _ => none

/-- `_is_number`; an integer too large for a double is none. -/
def isNumber : Json → Bool
  | .num (.int n) => decide (Binary64.round |(n : ℚ)| < 2 ^ 1024)
  | .num (.float (.finite _ _)) => true
  | _ => false

/-- `0 <= value <= high` for a number. -/
def upTo (high : ℚ) : Json → Bool
  | .num (.int n) => decide (0 ≤ (n : ℚ) ∧ (n : ℚ) ≤ high)
  | .num (.float (.finite neg m)) =>
      let value := if neg then -m.val else m.val
      decide (0 ≤ value ∧ value ≤ high)
  | _ => false

/-- A string with something in it besides white space. -/
def isNonBlank : Json → Bool
  | .str s => hasText s
  | _ => false

/-- The number of tokens a model may read, if its entry has an integer for it. -/
abbrev ModelEntry := Option ℤ

/-- The limits are positive, as the constructor demands. The registry is its mapping of models,
if it has one. -/
structure RequestValidator where
  models : Option (List (Str × ModelEntry)) := none
  maxMessages : ℕ+ := 128
  maxMessageContentBytes : ℕ+ := 131072
  maxTotalMessageContentBytes : ℕ+ := 524288
  maxContentParts : ℕ+ := 64
  maxTools : ℕ+ := 64
  maxToolSchemaBytes : ℕ+ := 65536
  maxTotalToolSchemaBytes : ℕ+ := 262144
  maxStopSequences : ℕ+ := 4
  maxStopSequenceBytes : ℕ+ := 1024
  maxSystemBytes : ℕ+ := 65536
  maxRequestedOutputTokens : ℕ+ := 131072

structure ChatCompletionRequest where
  messages : Json
  model : Json
  temperature : Json
  maxTokens : Json
  topP : Json
  stop : Json
  stream : Json
  system : Json
  tools : Json
  toolChoice : Json

/-- The request that a payload is read as. -/
def ofPayload (payload : Fields) : ChatCompletionRequest where
  messages := get payload "messages"
  model := (payload.lookup (lit "model")).getD (.str [])
  temperature := get payload "temperature"
  maxTokens := get payload "max_tokens"
  topP := get payload "top_p"
  stop := get payload "stop"
  stream := (payload.lookup (lit "stream")).getD (.bool false)
  system := get payload "system"
  tools := get payload "tools"
  toolChoice := get payload "tool_choice"

/-- A loop over items from an index on, which adds up their bytes and gathers their errors. -/
def validateItems (check : ℕ → Json → Except Raised (ℕ × Errors)) (idx : ℕ) :
    List Json → Except Raised (ℕ × Errors)
  | [] => .ok (0, [])
  | item :: rest => do
      let first ← check idx item
      let others ← validateItems check (idx + 1) rest
      .ok (first.1 + others.1, first.2 ++ others.2)

namespace RequestValidator

variable (V : RequestValidator)

/-! ## Messages -/

def messageContentSize (content : Json) (field : String) (hasCall : Bool) :
    Except Raised (ℕ × Errors) :=
  match content with
  | .null =>
      .ok (0, if hasCall then [] else [error (field ++ ".content")
        "Message content may be null only when the message has a tool call."])
  | .str text => do
      let size ← utf8Size text
      .ok (size, [])
  | .arr parts =>
      if V.maxContentParts < parts.length then
        .ok (0, [error (field ++ ".content")
          ("Message content may contain at most " ++ toString (V.maxContentParts : ℕ) ++ " parts.")])
      else if !parts.all Json.isObject then
        .ok (0, [error (field ++ ".content") "Every message content part must be an object."])
      else
        match jsonSize? (.arr parts) with
        | some size => .ok (size, [])
        | none => .ok (0, [error (field ++ ".content") "Message content must contain valid JSON values."])
  | _ => .ok (0, [error (field ++ ".content")
      "Message content must be a string or a list of content parts."])

def validateRole (idx : ℕ) (field : String) (message : Fields) : Errors :=
  match message.lookup (lit "role") with
  | none => [error (field ++ ".role")
      ("Message at index " ++ toString idx ++ " is missing required field 'role'.")]
  | some (.str role) =>
      if role ∈ validRoles then []
      else [⟨field ++ ".role", lit "Invalid role '" ++ role ++ lit ("' at index " ++ toString idx ++
        ". Must be one of: ['assistant', 'system', 'tool', 'user']."), "error"⟩]
  | some _ => [error (field ++ ".role") ("Message role at index " ++ toString idx ++ " must be a string.")]

def validateToolCalls (field : String) (message : Fields) : ℕ × Errors :=
  match get message "tool_calls" with
  | .null => (0, [])
  | .arr calls =>
      if V.maxTools < calls.length then
        (0, [error (field ++ ".tool_calls")
          ("Field 'tool_calls' may contain at most " ++ toString (V.maxTools : ℕ) ++ " items.")])
      else if !calls.all Json.isObject then
        (0, [error (field ++ ".tool_calls") "Every tool call must be an object."])
      else
        match jsonSize? (.arr calls) with
        | some size => (size, [])
        | none => (0, [error (field ++ ".tool_calls") "Tool calls must contain valid JSON values."])
  | _ => (0, [error (field ++ ".tool_calls") "Field 'tool_calls' must be a list."])

def validateFunctionCall (field : String) (message : Fields) : ℕ × Errors :=
  match get message "function_call" with
  | .null => (0, [])
  | .obj call =>
      let nameErrors := if isNonBlank (get call "name") then []
        else [error (field ++ ".function_call.name") "Function call name must be a non-empty string."]
      match jsonSize? (.obj call) with
      | some size => (size, nameErrors)
      | none => (0, nameErrors ++
          [error (field ++ ".function_call") "Function calls must contain valid JSON values."])
  | _ => (0, [error (field ++ ".function_call") "Field 'function_call' must be an object."])

def validateLabel (field : String) (message : Fields) (key : String) : Errors :=
  if (get message key).isNull || isNonBlank (get message key) then []
  else [error (field ++ "." ++ key) ("Field '" ++ key ++ "' must be a non-empty string.")]

def hasCall (message : Fields) : Bool :=
  (get message "tool_calls").truthy || (get message "function_call").truthy

/-- The content of a message, which may be missing. -/
def validateContent (idx : ℕ) (field : String) (message : Fields) : Except Raised (ℕ × Errors) :=
  match message.lookup (lit "content") with
  | none => .ok (0, if hasCall message then [] else [error (field ++ ".content")
      ("Message at index " ++ toString idx ++ " is missing required field 'content'.")])
  | some content => V.messageContentSize content field (hasCall message)

/-- One turn of the loop over the messages: the bytes of the message and its errors. -/
def validateMessage (idx : ℕ) (message : Json) : Except Raised (ℕ × Errors) :=
  let field := "messages[" ++ toString idx ++ "]"
  match message with
  | .obj message => do
      let content ← V.validateContent idx field message
      let toolCalls := V.validateToolCalls field message
      let functionCall := validateFunctionCall field message
      let contentBytes := content.1 + toolCalls.1 + functionCall.1
      let sizeErrors := if V.maxMessageContentBytes < contentBytes then
          [error (field ++ ".content") ("Message content may not exceed " ++
            toString (V.maxMessageContentBytes : ℕ) ++ " bytes.")]
        else []
      .ok (contentBytes, validateRole idx field message ++ content.2 ++ toolCalls.2 ++
        functionCall.2 ++ sizeErrors ++ validateLabel field message "name" ++
        validateLabel field message "tool_call_id")
  | _ => .ok (0, [error field ("Message at index " ++ toString idx ++ " must be an object.")])

def validateMessages (messages : Json) : Except Raised Errors :=
  match messages with
  | .arr (first :: rest) =>
      let items := first :: rest
      if V.maxMessages < items.length then
        .ok [error "messages"
          ("Field 'messages' may contain at most " ++ toString (V.maxMessages : ℕ) ++ " items.")]
      else do
        let result ← validateItems V.validateMessage 0 items
        .ok (result.2 ++ if V.maxTotalMessageContentBytes < result.1 then
            [error "messages" ("Total message content may not exceed " ++
              toString (V.maxTotalMessageContentBytes : ℕ) ++ " bytes.")]
          else [])
  | _ => .ok [error "messages" "Field 'messages' is required and must be a non-empty list."]

/-! ## The other fields -/

def validateModel (model : Json) (requireModel : Bool) : Except Raised Errors :=
  match model with
  | .str text =>
      if requireModel && !hasText text then .ok [error "model" "Field 'model' is required."]
      else do
        let size ← utf8Size text
        .ok (if defaultMaxModelBytes < size then
            [error "model" ("Field 'model' may not exceed " ++ toString defaultMaxModelBytes ++ " bytes.")]
          else [])
  | _ => .ok [error "model" "Field 'model' must be a string."]

/-- The check of a sampling parameter. -/
def validateRange (field high : String) (bound : ℚ) (value : Json) : Errors :=
  if value.isNull then []
  else if !isNumber value then
    [error field ("Field '" ++ field ++ "' must be a finite number.")]
  else if upTo bound value then []
  else [error field ("Field '" ++ field ++ "' must be between 0 and " ++ high ++ ".")]

def validateMaxTokens (value : Json) : Errors :=
  match value with
  | .null => []
  | .num (.int n) =>
      if n ≤ 0 then [error "max_tokens" "Field 'max_tokens' must be a positive integer."]
      else if (V.maxRequestedOutputTokens : ℤ) < n then
        [error "max_tokens" ("Field 'max_tokens' may not exceed " ++
          toString (V.maxRequestedOutputTokens : ℕ) ++ ".")]
      else []
  | _ => [error "max_tokens" "Field 'max_tokens' must be a positive integer."]

def validateSampling (request : ChatCompletionRequest) : Errors :=
  validateRange "temperature" "2" 2 request.temperature ++ validateRange "top_p" "1" 1 request.topP ++
    V.validateMaxTokens request.maxTokens

/-- One turn of the loop over the stop sequences. -/
def validateSequence (idx : ℕ) (sequence : Json) : Except Raised Errors :=
  let field := "stop[" ++ toString idx ++ "]"
  match sequence with
  | .str (c :: text) => do
      let size ← utf8Size (c :: text)
      .ok (if V.maxStopSequenceBytes < size then
          [error field ("Stop sequences may not exceed " ++
            toString (V.maxStopSequenceBytes : ℕ) ++ " bytes.")]
        else [])
  | _ => .ok [error field "Stop sequences must be non-empty strings."]

def validateSequences (idx : ℕ) : List Json → Except Raised Errors
  | [] => .ok []
  | sequence :: rest => do
      let first ← V.validateSequence idx sequence
      let others ← validateSequences (idx + 1) rest
      .ok (first ++ others)

def validateStop (stop : Json) : Except Raised Errors :=
  match stop with
  | .null => .ok []
  | .str text => V.validateSequences 0 [.str text]
  | .arr sequences =>
      if V.maxStopSequences < sequences.length then
        .ok [error "stop" ("Field 'stop' may contain at most " ++
          toString (V.maxStopSequences : ℕ) ++ " sequences.")]
      else V.validateSequences 0 sequences
  | _ => .ok [error "stop" "Field 'stop' must be a string or a list of strings."]

def validateSystem (system : Json) : Except Raised Errors :=
  match system with
  | .null => .ok []
  | .str text => do
      let size ← utf8Size text
      .ok (if V.maxSystemBytes < size then
          [error "system" ("Field 'system' may not exceed " ++ toString (V.maxSystemBytes : ℕ) ++
            " bytes.")]
        else [])
  | _ => .ok [error "system" "Field 'system' must be a string."]

/-! ## Tools -/

def isFunctionType (value : Json) : Bool :=
  match value with
  | .str text => text == lit "function"
  | _ => false

def isBool : Json → Bool
  | .bool _ => true
  | _ => false

def isStr : Json → Bool
  | .str _ => true
  | _ => false

def validateFunctionName (field : String) (name : Json) : Except Raised Errors :=
  match name with
  | .str text =>
      if !hasText text then
        .ok [error (field ++ ".function.name") "Tool function name must be a non-empty string."]
      else do
        let size ← utf8Size text
        .ok (if 128 < size then
            [error (field ++ ".function.name") "Tool function name may not exceed 128 bytes."]
          else [])
  | _ => .ok [error (field ++ ".function.name") "Tool function name must be a non-empty string."]

/-- The checks of an optional field of a tool's function. -/
def validateOptional (field key kind : String) (ok : Json → Bool) (function : Fields) : Errors :=
  if (get function key).isNull || ok (get function key) then []
  else [error (field ++ ".function." ++ key) ("Tool function " ++ key ++ " must be " ++ kind ++ ".")]

def validateFunction (field : String) (function : Json) : Except Raised Errors :=
  match function with
  | .obj function => do
      let nameErrors ← validateFunctionName field (get function "name")
      .ok (nameErrors ++ validateOptional field "description" "a string" isStr function ++
        validateOptional field "parameters" "an object" Json.isObject function ++
        validateOptional field "strict" "a boolean" isBool function)
  | _ => .ok [error (field ++ ".function") "Tool function must be an object."]

/-- One turn of the loop over the tools: the bytes of the tool and its errors. -/
def validateTool (idx : ℕ) (tool : Json) : Except Raised (ℕ × Errors) :=
  let field := "tools[" ++ toString idx ++ "]"
  match tool with
  | .obj tool =>
      match jsonSize? (.obj tool) with
      | none => .ok (0, [error field "Tool definitions must contain valid JSON values."])
      | some schemaBytes => do
          let sizeErrors := if V.maxToolSchemaBytes < schemaBytes then
              [error field ("A tool definition may not exceed " ++
                toString (V.maxToolSchemaBytes : ℕ) ++ " bytes.")]
            else []
          let typeErrors := if isFunctionType (get tool "type") then []
            else [error (field ++ ".type") "Tool type must be 'function'."]
          let functionErrors ← validateFunction field (get tool "function")
          .ok (schemaBytes, sizeErrors ++ typeErrors ++ functionErrors)
  | _ => .ok (0, [error field "Every tool must be an object."])

/-- An object that names a function tool. -/
def namesFunction (choice : Fields) : Bool :=
  isFunctionType (get choice "type") && match get choice "function" with
    | .obj function => isNonBlank (get function "name")
    | _ => false

def validateToolChoice (toolChoice : Json) (hasTools : Bool) : Errors :=
  if toolChoice.isNull then []
  else if !hasTools then [error "tool_choice" "Field 'tool_choice' requires at least one tool."]
  else match toolChoice with
    | .str text =>
        if text ∈ validToolChoices then []
        else [error "tool_choice" "String tool_choice must be one of: ['auto', 'none', 'required']."]
    | .obj choice =>
        if namesFunction choice then []
        else [error "tool_choice" "Object tool_choice must name a function tool."]
    | _ => [error "tool_choice" "Field 'tool_choice' must be a string or an object."]

def validateTools (tools toolChoice : Json) : Except Raised Errors :=
  match tools with
  | .null => .ok (validateToolChoice toolChoice false)
  | .arr tools =>
      if V.maxTools < tools.length then
        .ok [error "tools"
          ("Field 'tools' may contain at most " ++ toString (V.maxTools : ℕ) ++ " items.")]
      else do
        let result ← validateItems V.validateTool 0 tools
        let totalErrors := if V.maxTotalToolSchemaBytes < result.1 then
            [error "tools" ("Total tool definitions may not exceed " ++
              toString (V.maxTotalToolSchemaBytes : ℕ) ++ " bytes.")]
          else []
        .ok (result.2 ++ totalErrors ++ validateToolChoice toolChoice !tools.isEmpty)
  | _ => .ok [error "tools" "Field 'tools' must be a list."]

/-! ## The request -/

def validateShape (request : ChatCompletionRequest) (requireModel : Bool) : Except Raised Errors := do
  let messages ← V.validateMessages request.messages
  let model ← validateModel request.model requireModel
  let stop ← V.validateStop request.stop
  let system ← V.validateSystem request.system
  let tools ← V.validateTools request.tools request.toolChoice
  .ok (messages ++ model ++ V.validateSampling request ++ stop ++ system ++ tools ++
    if isBool request.stream then [] else [error "stream" "Field 'stream' must be a boolean."])

/-- What the estimate of a prompt writes as JSON. -/
def promptParts (request : ChatCompletionRequest) : Json :=
  .obj ([(lit "messages", request.messages)] ++
    (if request.system.isNull then [] else [(lit "system", request.system)]) ++
    (if request.tools.isNull then [] else [(lit "tools", request.tools)]))

section Tokens

variable (tokens : Str → Option ℕ)

/-- `_estimate_prompt_tokens`; `tokens` counts what the tokenizer makes of a text and is nothing
where it cannot be loaded or raises. -/
def estimatePromptTokens (request : ChatCompletionRequest) : Except Raised ℕ := do
  let promptText ← dumps (promptParts request)
  match tokens promptText with
  | some n => .ok n
  | none => do
      let size ← utf8Size promptText
      .ok (max 1 ((size + 3) / 4))

/-- `request.max_tokens or 0` of a request whose shape was accepted. -/
def requestedOutputTokens (request : ChatCompletionRequest) : ℤ :=
  match request.maxTokens with
  | .num (.int n) => n
  | _ => 0

def validateContext (request : ChatCompletionRequest) (entry : ModelEntry) : Except Raised Errors :=
  match entry with
  | none => .ok []
  | some maxContext => do
      let prompt ← estimatePromptTokens tokens request
      let requested := requestedOutputTokens request
      .ok (if maxContext < prompt + requested then
          [error "messages" ("Estimated prompt tokens (" ++ toString prompt ++
            ") plus requested output tokens (" ++ toString requested ++ ") exceed model limit (" ++
            toString maxContext ++ ").")]
        else [])

/-- The check against the registry of a request whose model is a text. -/
def validateRegistered (request : ChatCompletionRequest) : Except Raised Errors :=
  match V.models, request.model with
  | some models, .str model =>
      match models.lookup model with
      | none => .ok [⟨"model", lit "Model '" ++ model ++ lit "' not found.", "error"⟩]
      | some entry => validateContext tokens request entry
  | _, _ => .ok []

def validate (request : ChatCompletionRequest) (checkModel requireModel : Bool) :
    Except Raised Errors := do
  let errors ← V.validateShape request requireModel
  if !errors.isEmpty || !checkModel then .ok errors
  else V.validateRegistered tokens request

def validateContextField (context : Json) : Errors :=
  match context with
  | .null => []
  | .obj context =>
      match context.lookup (lit "smart_routing") with
      | some value => if isBool value then [] else [error "context.smart_routing"
          "Field 'context.smart_routing' must be a boolean."]
      | none => []
  | _ => [error "context" "Field 'context' must be an object."]

def validateProvider (provider : Json) : Errors :=
  if provider.isNull || isNonBlank provider then []
  else [error "provider" "Field 'provider' must be a non-empty string."]

def validatePayload (payload : Json) (allowEmptyModel checkModel : Bool) : Except Raised Errors :=
  match payload with
  | .obj payload => do
      let errors ← V.validate tokens (ofPayload payload) checkModel (!allowEmptyModel)
      .ok (errors ++ validateContextField (get payload "context") ++
        validateProvider (get payload "provider"))
  | _ => .ok [error "body" "Request body must be a JSON object."]

end Tokens

end RequestValidator

end Requests
