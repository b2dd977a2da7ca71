import AxonGateway.Adapters.GeminiTools

/-!
# Tools in the dialect of Cohere

Cohere gives its calls no ids. One is made from the name of a call and its place in the reply, and
the calls of a whole conversation are looked up by it.
-/

namespace Adapters

open PyValue Screening

/-- `_cohere_args` -/
def cohereArgs (raw : Value) : Value := parseArgs raw

/-- The calls of a conversation by their ids. -/
abbrev CallTable := List (Text × Fields)

def callEntry (name : Text) (parameters : Value) : Fields :=
  [("name".toList, .str name), ("parameters".toList, parameters)]

def addCall (calls : CallTable) (rawCall : Value) : CallTable :=
  match rawCall with
  | .obj rawCall =>
      let function := dictOf (rawCall.lookup functionKey)
      let name := orElse (getOr function "name".toList .null) (getOr rawCall "name".toList .null)
      match getOr rawCall "id".toList .null, name with
      | .str (c :: callId), .str (d :: name) =>
          set calls (c :: callId) (callEntry (d :: name) (cohereArgs
            (getOr function "arguments".toList (getOr rawCall "arguments".toList (.obj [])))))
      | _, _ => calls
  | _ => calls

def addCalls (calls : CallTable) (message : Fields) : CallTable :=
  if isText (getOr message roleKey .null) "assistant" then
    match message.lookup toolCallsKey with
    | some (.arr rawCalls) => rawCalls.foldl addCall calls
    | _ => calls
  else calls

/-- `_openai_tool_calls` -/
def openaiToolCalls (messages : List Fields) : CallTable := messages.foldl addCalls []

section

variable (U : Unicode)

/-- A call for an OpenAI client. -/
def cohereToolCall (call : Fields) (index : ℕ) : Fields :=
  [("id".toList, .str (synthesizedId
      ((getOr call "name".toList (.str "fn".toList)).pyStr U.isPrintable) index)),
    (typeKey, .str functionKey),
    (functionKey, .obj [("name".toList, getOr call "name".toList (.str [])),
      ("arguments".toList, .str (dumps (getOr call "parameters".toList (.obj []))))])]

/-- `_cohere_tool_calls`, from the `i`-th call on. -/
def cohereToolCalls (i : ℕ) : List Value → List Fields
  | [] => []
  | .obj call :: rest => cohereToolCall U call i :: cohereToolCalls (i + 1) rest
  | _ :: rest => cohereToolCalls (i + 1) rest

/-- The message of `CohereAdapter.translate_response`; nothing where it raises. -/
def cohereMessage (reply : Fields) : Option Fields := do
  let text := getOr reply "text".toList (.str [])
  let rawCalls ← itemsOf (getOr reply toolCallsKey .null)
  let toolCalls := (cohereToolCalls U 0 rawCalls).map Value.obj
  pure (if toolCalls.isEmpty then [(roleKey, .str "assistant".toList), (contentKey, text)]
    else [(roleKey, .str "assistant".toList), (contentKey, if text.truthy then text else .null),
      (toolCallsKey, .arr toolCalls)])

end

/-! ### The request -/

def contentText (content : Value) : Text :=
  match content with
  | .str text => text
  | content => dumps content

/-- The result of a tool, with the call that it answers; nothing where it raises. -/
def toolResult (calls : CallTable) (msg : Fields) : Option Value := do
  let call ← match getOr msg "tool_call_id".toList (.str []) with
    | .str callId => some ((calls.lookup callId).getD [])
    | .arr _ => none
    | .obj _ => none
    | _ => some []
  let name := orElse (getOr msg "name".toList .null) (getOr call "name".toList (.str []))
  pure (.obj [("call".toList, .obj [("name".toList, name),
      ("parameters".toList, getOr call "parameters".toList (.obj []))]),
    ("outputs".toList, .arr [.obj [("output".toList,
      .str (contentText (getOr msg contentKey (.str []))))]])])

/-- The calls of an entry of the history; nothing where it raises. -/
def historyCalls : List Value → Option (List Value)
  | [] => some []
  | .obj toolCall :: rest => do
      let function ← dictAt toolCall "function"
      let later ← historyCalls rest
      pure (.obj [("name".toList, getOr function "name".toList (getOr toolCall "name".toList (.str []))),
        ("parameters".toList, cohereArgs (getOr function "arguments".toList
          (getOr toolCall "arguments".toList (.obj []))))] :: later)
  | _ :: _ => none

/-- An entry of the history; nothing where it raises. -/
def historyEntry (msg : Fields) : Option Fields := do
  let assistant := isText (getOr msg roleKey (.str "user".toList)) "assistant"
  let message := orElse (getOr msg contentKey (.str [])) (.str [])
  let entry : Fields := [(roleKey, .str (if assistant then "CHATBOT" else "USER").toList),
    (messageKey, message)]
  if assistant && (getOr msg toolCallsKey .null).truthy then do
    let toolCalls ← itemsOf (getOr msg toolCallsKey .null)
    let calls ← historyCalls toolCalls
    pure (entry ++ [(toolCallsKey, .arr calls)])
  else pure entry

/-- What a message adds to the history and to the results; nothing where it raises. -/
def cohereEntry (calls : CallTable) (msg : Fields) : Option (List Fields × List Value) :=
  let role := getOr msg roleKey (.str "user".toList)
  if isText role "system" then some ([], [])
  else if isText role "tool" then (toolResult calls msg).map fun result ↦ ([], [result])
  else (historyEntry msg).map fun entry ↦ ([entry], [])

def cohereEntries (calls : CallTable) : List Fields → Option (List Fields × List Value)
  | [] => some ([], [])
  | msg :: rest => do
      let added ← cohereEntry calls msg
      let later ← cohereEntries calls rest
      pure (added.1 ++ later.1, added.2 ++ later.2)

/-- What `CohereAdapter.translate_request` makes of the messages. -/
structure CoherePayload where
  message : Value
  toolResults : List Value
  chatHistory : List Fields

/-- The last entry of a user is not history but the message. -/
def splitHistory (history : List Fields) : Value × List Fields :=
  match history.getLast? with
  | some last =>
      if isText (getOr last roleKey .null) "USER" then
        (getOr last messageKey (.str []), history.dropLast)
      else (.str [], history)
  | none => (.str [], history)

/-- `CohereAdapter.translate_request`; nothing where it raises. -/
def cohereTranslateRequest (messages : List Fields) : Option CoherePayload := do
  let (history, results) ← cohereEntries (openaiToolCalls messages) messages
  let (message, chatHistory) := splitHistory history
  pure ⟨message, results, chatHistory⟩

end Adapters
