import AxonGateway.Adapters.GeminiTools
import AxonGateway.Adapters.IndexedCalls
import AxonGateway.Adapters.Responses

/-!
# Replies in the dialect of Gemini

A reply has its parts in its first candidate. Each chunk of a stream is translated on its own: its
calls are numbered from the first of the chunk, and its finish reason knows of these calls only.
-/

namespace Adapters

open PyValue Screening

/-! ### Usage -/

/-- `int(usage.get(key, 0) or 0)`; nothing for a value that is no integer. -/
def countOrZero (usage : Fields) (key : String) : Option ℤ :=
  let v := getOr usage key.toList (.number "0".toList)
  if v.truthy then pyInt v else some 0

/-- `gemini_token_usage` -/
def geminiTokenUsage (metadata : Option Value) : Option TokenUsage := do
  let usage := dictOf metadata
  let promptTokens ← countOrZero usage "promptTokenCount"
  let candidatesTokens ← countOrZero usage "candidatesTokenCount"
  let thoughtsTokens ← countOrZero usage "thoughtsTokenCount"
  let cachedTokens ← countOrZero usage "cachedContentTokenCount"
  pure ⟨promptTokens, candidatesTokens + thoughtsTokens,
    promptTokens + (candidatesTokens + thoughtsTokens), cachedTokens, 0⟩

/-- `_google_stream_usage` and `_vertex_stream_usage` -/
def geminiStreamUsage (chunk : Fields) : Option (Option TokenUsage) :=
  match chunk.lookup "usageMetadata".toList with
  | some (.obj (entry :: usage)) => (geminiTokenUsage (some (.obj (entry :: usage)))).map some
  | _ => some none

/-! ### Parts -/

/-- The texts among some parts; nothing where a part or a text is of another type. -/
def partTexts : List Value → Option (List Text)
  | [] => some []
  | .obj part :: rest => do
      let texts ← partTexts rest
      match part.lookup "text".toList with
      | none => pure texts
      | some (.str text) => pure (text :: texts)
      | some _ => none
  | _ :: _ => none

/-- A value to iterate over, of which only dictionaries are taken. -/
def iterated : Value → Option (List Value)
  | .arr items => some items
  | .str [] => some []
  | .obj [] => some []
  | _ => none

/-- `first.get("content", {}).get("parts", [])` -/
def candidateParts (first : Fields) : Option (List Value) :=
  match getOr first contentKey (.obj []) with
  | .obj content => iterated (getOr content partsKey (.arr []))
  | _ => none

/-- The first candidate, where there is one; nothing where it raises. -/
def firstCandidate (reply : Fields) : Option (Option Fields) :=
  match getOr reply "candidates".toList (.arr []) with
  | .arr (.obj first :: _) => some (some first)
  | .arr (_ :: _) => none
  | v => if v.truthy then none else some none

def finishReasons : List (Text × Text) :=
  [("STOP".toList, "stop".toList), ("MAX_TOKENS".toList, "length".toList)]

/-- `_FINISH_REASONS.get(raw, raw)`; nothing for a value that has no hash. -/
def mapReason (raw : Value) : Option Value :=
  match raw with
  | .str text => some (.str ((finishReasons.lookup text).getD text))
  | .arr _ => none
  | .obj _ => none
  | raw => some raw

/-- The finish reason of a chunk, which is final where there is one. -/
def streamReason (hasCalls : Bool) (raw : Value) : Option Value :=
  if hasCalls && !isNull raw then some (.str "tool_calls".toList) else mapReason raw

/-- `d.get(key) or d.get(other, "")` -/
def textOr (d : Fields) (key other : String) : Text :=
  if (textAt d key).isEmpty then textAt d other else textAt d key

/-! ### The translations -/

section

variable (U : Unicode)

/-- The choice of a whole reply. -/
def geminiReplyChoice (first : Option Fields) : Option Choice :=
  match first with
  | none => some (replyChoice [] [] (.str "stop".toList))
  | some first => do
      let parts ← candidateParts first
      let texts ← partTexts parts
      let finishReason ← mapReason (getOr first "finishReason".toList (.str "STOP".toList))
      let toolCalls ← geminiPartsToToolCalls U 0 parts
      pure (replyChoice texts.flatten (toolCalls.map .obj)
        (if toolCalls.isEmpty then finishReason else .str "tool_calls".toList))

/-- `translate_response` -/
def geminiTranslateResponse (providerResponse : Fields) :
    Option (ChatCompletionResponse × TokenUsage) := do
  let first ← firstCandidate providerResponse
  let choice ← geminiReplyChoice U first
  let usage ← geminiTokenUsage (providerResponse.lookup "usageMetadata".toList)
  pure (⟨textOr providerResponse "responseId" "id", [choice],
    textOr providerResponse "modelVersion" "model"⟩, usage)

/-- The delta of a chunk; its calls are numbered from the first. -/
def geminiDelta (text : Text) (toolCalls : List Fields) : Fields :=
  (if text.isEmpty then [] else [(contentKey, .str text)]) ++
    if toolCalls.isEmpty then [] else [(toolCallsKey, .arr (toolCalls.zipIdx.map withIndex))]

/-- `translate_stream_chunk` -/
def geminiTranslateStreamChunk (chunk : Fields) : Option Translated := do
  let first ← firstCandidate chunk
  let (choices, isFinal) ← match first with
    | none => pure ([], false)
    | some first => do
        let parts ← candidateParts first
        let texts ← partTexts parts
        let toolCalls ← geminiPartsToToolCalls U 0 parts
        let raw := getOr first "finishReason".toList .null
        let finishReason ← streamReason (!toolCalls.isEmpty) raw
        pure ([chunkChoice (geminiDelta texts.flatten toolCalls) (some finishReason)], !isNull raw)
  let usage ← geminiStreamUsage chunk
  pure (⟨textOr chunk "responseId" "id", choices, textOr chunk "modelVersion" "model", isFinal⟩,
    usage)

end

/-- The chunks of a stream one after the other; nothing where one raises. -/
def translateChunks (translate : Fields → Option Translated) : List Fields → Option (List Translated)
  | [] => some []
  | chunk :: rest => do
      let translated ← translate chunk
      let later ← translateChunks translate rest
      pure (translated :: later)

/-- What an adapter for this dialect does. -/
structure GeminiAdapter where
  translateResponse : Fields → Option (ChatCompletionResponse × TokenUsage)
  translateStreamChunk : Fields → Option Translated

def googleAIAdapter (U : Unicode) : GeminiAdapter :=
  ⟨geminiTranslateResponse U, geminiTranslateStreamChunk U⟩

def vertexAIAdapter (U : Unicode) : GeminiAdapter :=
  ⟨geminiTranslateResponse U, geminiTranslateStreamChunk U⟩

end Adapters
