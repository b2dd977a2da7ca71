import AxonGateway.Adapters.Merging

/-!
# The Responses API

A reply of the Responses API is a list of output items. Its stream tells the texts of the
messages in deltas, every item when it is done, and the whole reply at the end. Calls come
whole and without an index, and two of them are merged to one.
-/

namespace Adapters

open PyValue Screening

/-! ### Usage -/

def outputKey : Text := "output".toList

/-- The counts of `TokenUsage`. -/
structure TokenUsage where
  promptTokens : ℤ
  completionTokens : ℤ
  totalTokens : ℤ
  cachedTokens : ℤ
  cacheCreationTokens : ℤ
  deriving DecidableEq

/-- A count; nothing for a value that is no integer. -/
def countAt (usage : Fields) (key : String) (default : ℤ) : Option ℤ :=
  match usage.lookup key.toList with
  | none => some default
  | some v => pyInt v

/-- The counts that a provider gives under these keys. -/
def usageAt (usage : Fields) (promptKey completionKey : String) : Option TokenUsage := do
  let promptTokens ← countAt usage promptKey 0
  let completionTokens ← countAt usage completionKey 0
  let totalTokens ← countAt usage "total_tokens" (promptTokens + completionTokens)
  pure ⟨promptTokens, completionTokens, totalTokens, 0, 0⟩

/-! ### The whole reply -/

/-- The texts of the blocks of a message; nothing where it raises. -/
def blockTexts : List Value → Option (List Text)
  | [] => some []
  | .obj block :: rest =>
      if hasType block "output_text" then
        match getOr block "text".toList (.str []) with
        | .str text => (blockTexts rest).map (text :: ·)
        | _ => none
      else blockTexts rest
  | _ :: _ => none

/-- The texts of the messages; nothing where it raises. -/
def outputTexts : List Value → Option (List Text)
  | [] => some []
  | .obj item :: rest =>
      if hasType item "message" then do
        let blocks ← itemsOf (getOr item contentKey (.arr []))
        let texts ← blockTexts blocks
        let later ← outputTexts rest
        pure (texts ++ later)
      else outputTexts rest
  | _ :: _ => none

/-- The call of an item, with an id for want of another. -/
def itemCall (item : Fields) (fallbackId : Text) : Fields :=
  [("id".toList, orElse (getOr item "call_id".toList .null) (getOr item "id".toList (.str fallbackId))),
    (typeKey, .str functionKey),
    (functionKey, .obj [("name".toList, getOr item "name".toList (.str [])),
      ("arguments".toList,
        orElse (getOr item "arguments".toList (.str [])) (.str "\x7b\x7d".toList))])]

/-- `_responses_output_to_tool_calls`, from the `i`-th item on; nothing where it raises. -/
def responsesOutputToToolCalls (i : ℕ) : List Value → Option (List Value)
  | [] => some []
  | .obj item :: rest =>
      if hasType item "function_call" then
        (responsesOutputToToolCalls (i + 1) rest).map
          (.obj (itemCall item ("call_".toList ++ (toString i).toList)) :: ·)
      else responsesOutputToToolCalls (i + 1) rest
  | _ :: _ => none

def incompleteReasons : List (Text × Text) :=
  [("max_output_tokens".toList, "length".toList), ("content_filter".toList, "content_filter".toList)]

/-- `_finish_reason_from_response`; nothing where it raises. -/
def finishReasonFromResponse (response : Fields) (hasToolCalls : Bool) : Option Text :=
  if hasToolCalls then some "tool_calls".toList
  else if (response.lookup "status".toList).any fun v ↦
      match v with | .str status => status == "incomplete".toList | _ => false then do
    let details ← dictAt response "incomplete_details"
    match getOr details "reason".toList (.str []) with
    | .str reason => pure ((incompleteReasons.lookup reason).getD "length".toList)
    | .arr _ => none
    | .obj _ => none
    | _ => pure "length".toList
  else some "stop".toList

/-- `_usage_from_response`; nothing where a count is no integer. -/
def usageFromResponse (usage : Fields) : Option TokenUsage :=
  usageAt usage "input_tokens" "output_tokens"

/-- The message of a reply. -/
def assistantMessage (text : Text) (toolCalls : List Value) : Fields :=
  if toolCalls.isEmpty then [(roleKey, .str "assistant".toList), (contentKey, .str text)]
  else [(roleKey, .str "assistant".toList),
    (contentKey, if text.isEmpty then .null else .str text), (toolCallsKey, .arr toolCalls)]

/-- The only choice of a reply. -/
def replyChoice (text : Text) (toolCalls : List Value) (finishReason : Value) : Choice :=
  [(indexKey, .number "0".toList), (messageKey, .obj (assistantMessage text toolCalls)),
    (finishReasonKey, finishReason)]

/-- `translate_responses_reply`; nothing where it raises. -/
def translateResponsesReply (response : Fields) : Option (ChatCompletionResponse × TokenUsage) := do
  let output ← itemsOf (getOr response outputKey (.arr []))
  let texts ← outputTexts output
  let toolCalls ← responsesOutputToToolCalls 0 output
  let finishReason ← finishReasonFromResponse response !toolCalls.isEmpty
  let usageData ← dictAt response "usage"
  let usage ← usageFromResponse usageData
  pure (⟨textAt response "id", [replyChoice texts.flatten toolCalls (.str finishReason)],
    textAt response "model"⟩, usage)

/-! ### The stream -/

/-- Whether a list has an item of this type; nothing where it raises. -/
def anyType (type : String) : List Value → Option Bool
  | [] => some false
  | .obj item :: rest => if hasType item type then some true else anyType type rest
  | _ :: _ => none

/-- A chunk for a client, and the usage that it comes with. -/
abbrev Translated := StreamChunk × Option TokenUsage

/-- `translate_responses_stream_event`: the chunk, if there is one, or nothing where it
raises. -/
def translateResponsesStreamEvent (event : Fields) : Option (Option Translated) :=
  if hasType event "response.output_text.delta" then
    let delta := getOr event deltaKey (.str [])
    if delta.truthy then some (some (⟨textAt event "item_id",
      [chunkChoice [(contentKey, delta)] (some .null)], [], false⟩, none))
    else some none
  else if hasType event "response.output_item.done" then do
    let item ← dictAt event "item"
    if hasType item "function_call" then
      pure (some (⟨textAt item "id", [chunkChoice [(contentKey, .null),
        (toolCallsKey, .arr [.obj (itemCall item [])])] (some .null)], [], false⟩, none))
    else pure none
  else if hasType event "response.completed" || hasType event "response.incomplete" then do
    let response ← dictAt event "response"
    let output ← itemsOf (getOr response outputKey (.arr []))
    let hasToolCalls ← anyType "function_call" output
    let finishReason ← finishReasonFromResponse response hasToolCalls
    let usageData ← dictAt response "usage"
    let usage ← usageFromResponse usageData
    pure (some (⟨textAt response "id", [chunkChoice [] (some (.str finishReason))],
      textAt response "model", true⟩, some usage))
  else if hasType event "response.failed" then none
  else some none

/-! ### Every chunk -/

def isNull : Value → Bool
  | .null => true
  | _ => false

/-- The choices of a chunk; nothing where a choice is no dictionary. -/
def choicesOf : List Value → Option (List Choice)
  | [] => some []
  | .obj choice :: rest => (choicesOf rest).map (choice :: ·)
  | _ :: _ => none

/-- The type of an event of the Responses API. -/
def isResponsesEvent (chunk : Fields) : Bool :=
  match chunk.lookup typeKey with
  | some (.str type) => "response.".toList.isPrefixOf type
  | _ => false

/-- `OpenAIStyleAdapter.translate_stream_chunk`; nothing where it raises. -/
def translateStreamChunk (chunk : Fields) : Option Translated :=
  if isResponsesEvent chunk then
    (translateResponsesStreamEvent chunk).map (·.getD (⟨[], [], [], false⟩, none))
  else do
    let items ← itemsOf (getOr chunk "choices".toList (.arr []))
    let choices ← choicesOf items
    let isFinal := choices.getLast?.any fun choice ↦ !isNull (getOr choice finishReasonKey .null)
    let usageData ← dictAt chunk "usage"
    if usageData.isEmpty then
      pure (⟨textAt chunk "id", choices, textAt chunk "model", isFinal⟩, none)
    else do
      let usage ← usageAt usageData "prompt_tokens" "completion_tokens"
      pure (⟨textAt chunk "id", choices, textAt chunk "model", true⟩, some usage)

/-- Every event of a stream. -/
def translateEvents : List Fields → Option (List Translated)
  | [] => some []
  | event :: rest => do
      let chunk ← translateStreamChunk event
      let later ← translateEvents rest
      pure (chunk :: later)

/-- `_merge_stream_usage` -/
def mergeStreamUsage (current : Option TokenUsage) (incoming : TokenUsage) : TokenUsage :=
  match current with
  | none => incoming
  | some current =>
      let prompt := max current.promptTokens incoming.promptTokens
      let completion := max current.completionTokens incoming.completionTokens
      ⟨prompt, completion, prompt + completion, max current.cachedTokens incoming.cachedTokens,
        max current.cacheCreationTokens incoming.cacheCreationTokens⟩

/-- The usage after a chunk that may come with one. -/
def addUsage (current incoming : Option TokenUsage) : Option TokenUsage :=
  match incoming with
  | none => current
  | some incoming => some (mergeStreamUsage current incoming)

/-- The usage that an agent has at the end of a stream. -/
def finalUsage (chunks : List Translated) : Option TokenUsage :=
  chunks.foldl (fun current chunk ↦ addUsage current chunk.2) none

end Adapters
