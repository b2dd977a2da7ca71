import AxonGateway.Lib.PyText
import AxonGateway.Lib.PyLower

/-!
# The messages of a request

A message is a dictionary whose content is a string or a list of parts.  The validator bounds
the sizes of contents and calls before any other code reads them.
-/

namespace Screening

open PyValue

abbrev Message := Fields

def contentKey : Text := "content".toList

namespace Message

def content (msg : Message) : Option Value := msg.lookup contentKey

/-- The message with another content. -/
def setContent (msg : Message) (value : Value) : Message := set msg contentKey value

@[simp] theorem content_setContent (msg : Message) (value : Value) :
    (msg.setContent value).content = some value :=
  lookup_set msg contentKey value

@[simp] theorem setContent_setContent (msg : Message) (value value' : Value) :
    (msg.setContent value).setContent value' = msg.setContent value' :=
  set_set msg contentKey value value'

end Message

structure ValidationError where
  field : String
  message : String
  deriving DecidableEq

def validRoles : List String := ["system", "user", "assistant", "tool"]

structure RequestValidator where
  maxMessages : ℕ := 128
  maxMessageContentBytes : ℕ := 128 * 1024
  maxTotalMessageContentBytes : ℕ := 512 * 1024
  maxContentParts : ℕ := 64
  maxTools : ℕ := 64

/-- `_json_size`; nothing where `json.dumps` raises. -/
def jsonSize (value : Value) : Option ℕ := value.dumps.map utf8Size

def isObject : Value → Bool
  | .obj _ => true
  | _ => false

namespace RequestValidator

variable (V : RequestValidator)

/-- `_message_content_size` -/
def messageContentSize (content : Value) (field : String) (hasCall : Bool) :
    ℕ × List ValidationError :=
  match content with
  | .null =>
      if hasCall then (0, [])
      else (0, [⟨field ++ ".content",
        "Message content may be null only when the message has a tool call."⟩])
  | .str text => (utf8Size text, [])
  | .arr parts =>
      if V.maxContentParts < parts.length then
        (0, [⟨field ++ ".content",
          "Message content may contain at most " ++ toString V.maxContentParts ++ " parts."⟩])
      else if !parts.all isObject then
        (0, [⟨field ++ ".content", "Every message content part must be an object."⟩])
      else
        match jsonSize (.arr parts) with
        | some size => (size, [])
        | none => (0, [⟨field ++ ".content", "Message content must contain valid JSON values."⟩])
  | _ => (0, [⟨field ++ ".content",
      "Message content must be a string or a list of content parts."⟩])

def validateRole (idx : ℕ) (field : String) (msg : Message) : List ValidationError :=
  match msg.lookup "role".toList with
  | none => [⟨field ++ ".role",
      "Message at index " ++ toString idx ++ " is missing required field 'role'."⟩]
  | some (.str role) =>
      if validRoles.contains (String.ofList role) then []
      else [⟨field ++ ".role", "Invalid role '" ++ String.ofList role ++ "' at index " ++
        toString idx ++ ". Must be one of: ['assistant', 'system', 'tool', 'user']."⟩]
  | some _ => [⟨field ++ ".role", "Message role at index " ++ toString idx ++ " must be a string."⟩]

def validateToolCalls (field : String) (msg : Message) : ℕ × List ValidationError :=
  match msg.lookup "tool_calls".toList with
  | none | some .null => (0, [])
  | some (.arr calls) =>
      if V.maxTools < calls.length then
        (0, [⟨field ++ ".tool_calls",
          "Field 'tool_calls' may contain at most " ++ toString V.maxTools ++ " items."⟩])
      else if !calls.all isObject then
        (0, [⟨field ++ ".tool_calls", "Every tool call must be an object."⟩])
      else
        match jsonSize (.arr calls) with
        | some size => (size, [])
        | none => (0, [⟨field ++ ".tool_calls", "Tool calls must contain valid JSON values."⟩])
  | some _ => (0, [⟨field ++ ".tool_calls", "Field 'tool_calls' must be a list."⟩])

/-- A string that `strip` leaves something of. -/
def nonBlank : Value → Bool
  | .str text => !text.all PyText.isSpace
  | _ => false

def validateFunctionCall (field : String) (msg : Message) : ℕ × List ValidationError :=
  match msg.lookup "function_call".toList with
  | none | some .null => (0, [])
  | some (.obj call) =>
      let named := match call.lookup "name".toList with
        | some name => nonBlank name
        | none => false
      let nameErrors : List ValidationError := if named then []
        else [⟨field ++ ".function_call.name", "Function call name must be a non-empty string."⟩]
      match jsonSize (.obj call) with
      | some size => (size, nameErrors)
      | none => (0, nameErrors ++
          [⟨field ++ ".function_call", "Function calls must contain valid JSON values."⟩])
  | some _ => (0, [⟨field ++ ".function_call", "Field 'function_call' must be an object."⟩])

def validateLabel (field : String) (msg : Message) (key : String) : List ValidationError :=
  match msg.lookup key.toList with
  | none | some .null => []
  | some value =>
      if nonBlank value then []
      else [⟨field ++ "." ++ key, "Field '" ++ key ++ "' must be a non-empty string."⟩]

/-- The bytes of one message and its errors. -/
def validateMessage (idx : ℕ) (message : Value) : ℕ × List ValidationError :=
  let field := "messages[" ++ toString idx ++ "]"
  match message with
  | .obj msg =>
      let hasCall := (msg.lookup "tool_calls".toList).any Value.truthy ||
        (msg.lookup "function_call".toList).any Value.truthy
      let content : ℕ × List ValidationError := match Message.content msg with
        | none => (0, if hasCall then [] else [⟨field ++ ".content",
            "Message at index " ++ toString idx ++ " is missing required field 'content'."⟩])
        | some content => V.messageContentSize content field hasCall
      let toolCalls := V.validateToolCalls field msg
      let functionCall := validateFunctionCall field msg
      let size := content.1 + toolCalls.1 + functionCall.1
      let sizeErrors : List ValidationError := if V.maxMessageContentBytes < size then
          [⟨field ++ ".content",
            "Message content may not exceed " ++ toString V.maxMessageContentBytes ++ " bytes."⟩]
        else []
      (size, validateRole idx field msg ++ content.2 ++ toolCalls.2 ++ functionCall.2 ++ sizeErrors ++
        validateLabel field msg "name" ++ validateLabel field msg "tool_call_id")
  | _ => (0, [⟨field, "Message at index " ++ toString idx ++ " must be an object."⟩])

/-- `_validate_messages` -/
def validateMessages (messages : Value) : List ValidationError :=
  match messages with
  | .arr (first :: rest) =>
      let items := first :: rest
      if V.maxMessages < items.length then
        [⟨"messages", "Field 'messages' may contain at most " ++ toString V.maxMessages ++ " items."⟩]
      else
        let results := items.mapIdx V.validateMessage
        let total := (results.map Prod.fst).sum
        results.flatMap Prod.snd ++
          if V.maxTotalMessageContentBytes < total then
            [⟨"messages", "Total message content may not exceed " ++
              toString V.maxTotalMessageContentBytes ++ " bytes."⟩]
          else []
  | _ => [⟨"messages", "Field 'messages' is required and must be a non-empty list."⟩]

/-- The messages are accepted. -/
def accepts (msgs : List Message) : Bool := (V.validateMessages (.arr (msgs.map .obj))).isEmpty

end RequestValidator

/-- The content that carries a text as its only part. -/
def onePart (text : Text) : Value :=
  .arr [.obj [("type".toList, .str "text".toList), ("text".toList, .str text)]]

namespace Message

/-- A message whose content, if it is a string, is carried as one part instead. -/
def carry (msg : Message) : Message :=
  match msg.content with
  | some (.str text) => msg.setContent (onePart text)
  | _ => msg

theorem carry_of_content {msg : Message} {text : Text} (h : msg.content = some (.str text)) :
    msg.carry = msg.setContent (onePart text) := by
  rw [carry, h]

theorem carry_of_ne {msg : Message} (h : ∀ text, msg.content ≠ some (.str text)) :
    msg.carry = msg := by
  rw [carry]
  split
  · next text hc => exact absurd hc (h text)
  · rfl

end Message

/-- Carry the content of one of the messages as one part. -/
def carryAt (msgs : List Message) (i : ℕ) : List Message := msgs.modify i Message.carry

end Screening
