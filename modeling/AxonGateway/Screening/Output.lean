import AxonGateway.Screening.Chunks

/-!
# The output policy

The rules of a project are searched for in one text, which is collected from the choices of a
response.  A response that is blocked is delivered with its messages replaced.
-/

namespace Screening

open PyValue

/-- `_requires_output_buffering` -/
def requiresOutputBuffering (rules : List GuardrailRule) : Bool :=
  rules.any fun rule ↦ rule.appliesToTarget "response"

/-- What a message says, for a search: its content and the JSON texts of its calls. -/
def inspectionParts (message : Fields) : List Text :=
  (match message.lookup contentKey with
    | some (.str (c :: cs)) => [c :: cs]
    | _ => []) ++
  [toolCallsKey, functionCallKey].filterMap fun key ↦ match message.lookup key with
    | none => none
    | some .null => none
    | some v => some v.compact

/-- `_guardrail_inspection_response` -/
def guardrailInspectionResponse (response : ChatCompletionResponse) : ChatCompletionResponse :=
  { response with
    choices := response.choices.map fun choice ↦ match choice.lookup messageKey with
      | some (.obj message) =>
          set choice messageKey
            (.obj (set message contentKey (.str (joined ['\n'] (inspectionParts message)))))
      | _ => choice }

/-- What `_extract_response_text` takes from a choice, or nothing where it raises. -/
def responsePart (U : Unicode) (choice : Choice) : Option (Option Text) :=
  match (choice.lookup messageKey).getD (.obj []) with
  | .obj message =>
      some (((message.lookup contentKey).filter Value.truthy).map (Value.pyStr U.isPrintable))
  | _ => none

/-- `_extract_response_text` -/
def extractResponseText (U : Unicode) (choices : List Choice) : Option Text :=
  (choices.mapM (responsePart U)).map fun parts ↦ joined [' '] (parts.filterMap id)

/-- `evaluate_response`; nothing where it raises. -/
def GuardrailEngine.evaluateResponse (E : GuardrailEngine) (choices : List Choice)
    (rules : List GuardrailRule) : Option GuardrailResult :=
  (extractResponseText E.toUnicode choices).map fun text ↦
    E.evaluate text rules "Response".toList "response"

/-- The message of a response that is blocked. -/
def policyMessage (message : Text) : Fields :=
  [(roleKey, .str "assistant".toList), (contentKey, .str message)]

/-- `_replace_response_content` -/
def replaceResponseContent (response : ChatCompletionResponse) (message : Text) :
    ChatCompletionResponse :=
  { response with
    choices := response.choices.map fun choice ↦
      set choice messageKey (.obj (policyMessage message)) }

section Delivery

variable (E : GuardrailEngine) (rules : List GuardrailRule)

/-- `_apply_output_policy` without a redactor: the response and whether it has been blocked, or
nothing where it raises. -/
def applyOutputPolicy (response : ChatCompletionResponse) : Option (ChatCompletionResponse × Bool) :=
  if rules.isEmpty then some (response, false)
  else
    (E.evaluateResponse (guardrailInspectionResponse response).choices rules).map fun result ↦
      if result.passed then (response, false)
      else (replaceResponseContent response
        (match result.message with
          | some (c :: cs) => c :: cs
          | _ => "Response blocked by guardrail.".toList), true)

/-- What a caller receives: the choices of the answer, or those of the chunks in their order.  An
error ends a delivery that has failed; `blocked` says whether the policy replaced the messages. -/
structure Delivery where
  choices : List Choice
  streamed : Bool
  blocked : Bool
  failed : Bool

/-- A response as an answer or as a simulated stream. -/
def present (U : Unicode) (streamed : Bool) (response : ChatCompletionResponse) (blocked : Bool) :
    Delivery :=
  if streamed then
    let (chunks, failed) := boundedSimulatedStreaming U response
    ⟨chunks.flatMap StreamChunk.choices, true, blocked, failed⟩
  else ⟨response.choices, false, blocked, false⟩

/-- Nothing but an error. -/
def withheld (streamed : Bool) : Delivery := ⟨[], streamed, false, true⟩

/-- A response that is delivered after the policy has been applied. -/
def afterPolicy (streamed : Bool) (response : ChatCompletionResponse) : Delivery :=
  match applyOutputPolicy E rules response with
  | none => withheld streamed
  | some (response, blocked) => present E.toUnicode streamed response blocked

/-- The end of `handle_request` without a stream. -/
def returnResponse (response : ChatCompletionResponse) : Delivery :=
  afterPolicy E rules false response

/-- A hit of the exact or of the semantic cache, with `_apply_cached_output_policy`. -/
def returnCached (response : ChatCompletionResponse) : Delivery :=
  afterPolicy E rules false response

/-- The end of `handle_request` with `_stream_response` or `_stream_response_real`. -/
def streamResponse (response : ChatCompletionResponse) : Delivery :=
  afterPolicy E rules true response

/-- `_stream_true` where no provider has opened a stream. -/
def streamTrueFallback (response : ChatCompletionResponse) : Delivery :=
  afterPolicy E rules true response

/-- `_stream_ensemble_response` -/
def streamEnsembleResponse (response : ChatCompletionResponse) : Delivery :=
  afterPolicy E rules true response

/-- `_stream_true` with the chunks of a provider's stream. -/
def streamTrueRelay (chunks : List StreamChunk) (requestModel : Text) : Delivery :=
  let (relayed, failed) := emitBounded 0 chunks
  if requiresOutputBuffering rules then
    if failed then withheld true
    else afterPolicy E rules true (responseFromStreamChunks E.toUnicode chunks requestModel)
  else ⟨relayed.flatMap StreamChunk.choices, true, false, failed⟩

/-- What a provider has replied, and the path on which it is delivered. -/
inductive Reply where
  | returned (response : ChatCompletionResponse)
  | cached (response : ChatCompletionResponse)
  | replayed (response : ChatCompletionResponse)
  | fallback (response : ChatCompletionResponse)
  | ensemble (response : ChatCompletionResponse)
  | relayed (chunks : List StreamChunk) (requestModel : Text)

def deliver : Reply → Delivery
  | .returned response => returnResponse E rules response
  | .cached response => returnCached E rules response
  | .replayed response => streamResponse E rules response
  | .fallback response => streamTrueFallback E rules response
  | .ensemble response => streamEnsembleResponse E rules response
  | .relayed chunks requestModel => streamTrueRelay E rules chunks requestModel

end Delivery

end Screening
