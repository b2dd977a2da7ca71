import AxonGateway.Screening.Guardrail
import AxonGateway.Screening.Messages

/-!
# Responses and chunks

A response is shown as a stream of chunks, and the chunks of a provider are put together to a
response before anything of them is released.
-/

namespace Screening

open PyValue

/-- The dictionary of a choice. -/
abbrev Choice := Fields

structure ChatCompletionResponse where
  id : Text
  choices : List Choice
  model : Text

structure StreamChunk where
  id : Text
  choices : List Choice
  model : Text
  isFinal : Bool

def messageKey : Text := "message".toList

def deltaKey : Text := "delta".toList

def indexKey : Text := "index".toList

def roleKey : Text := "role".toList

def finishReasonKey : Text := "finish_reason".toList

def toolCallsKey : Text := "tool_calls".toList

def functionCallKey : Text := "function_call".toList

def functionKey : Text := "function".toList

/-- `choice.get("message", {}) or {}`; nothing where it has no `get`. -/
def messageOf (choice : Choice) : Option Fields :=
  match choice.lookup messageKey with
  | none => some []
  | some (.obj fields) => some fields
  | some v => if v.truthy then none else some []

/-! ### From a response to chunks -/

/-- `_split_preserving_all`: a token ends where a space is followed by something else. -/
def splitPreservingAll {α : Type} (isSpace : α → Bool) (text : List α) : List (List α) :=
  text.splitBy fun a b ↦ !(isSpace a && !isSpace b)

/-- `str.isspace` -/
def isSpaceText (U : Unicode) (text : Text) : Bool := !text.isEmpty && text.all U.isSpace

/-- The strings of a list; nothing where another item is in it. -/
def stringItems : List Value → Option (List Text)
  | [] => some []
  | .str text :: rest => (stringItems rest).map (text :: ·)
  | _ :: _ => none

/-- `_split_into_tokens`; nothing where it raises.  A list of strings is split like a string. -/
def splitIntoTokens (U : Unicode) : Value → Option (List Value)
  | .str text => some ((splitPreservingAll U.isSpace text).map .str)
  | .arr items =>
      (stringItems items).map fun texts ↦
        (splitPreservingAll (isSpaceText U) texts).map fun token ↦ .arr (token.map .str)
  | _ => none

/-- The choice of a chunk of a simulated stream. -/
def chunkChoice (delta : Fields) (finishReason : Option Value) : Choice :=
  (indexKey, .number "0".toList) :: (deltaKey, .obj delta) ::
    (finishReason.toList.map fun v ↦ (finishReasonKey, v))

/-- The choices of the chunks that show these tokens. -/
def tokenChoices (toolCalls : Option Value) (finishReason : Value) : List Value → List Choice
  | [] => []
  | [token] =>
      [chunkChoice ((contentKey, token) :: (toolCalls.toList.map fun v ↦ (toolCallsKey, v)))
        (some finishReason)]
  | token :: rest =>
      chunkChoice [(contentKey, token)] none :: tokenChoices toolCalls finishReason rest

/-- A chunk for each of these choices; the last one is final. -/
def chunksOf (response : ChatCompletionResponse) : List Choice → List StreamChunk
  | [] => []
  | [choice] => [⟨response.id, [choice], response.model, true⟩]
  | choice :: rest => ⟨response.id, [choice], response.model, false⟩ :: chunksOf response rest

/-- `simulate_streaming`; nothing where it raises. -/
def simulateStreaming (U : Unicode) (response : ChatCompletionResponse) :
    Option (List StreamChunk) := do
  let choice := response.choices.headD []
  let message ← messageOf choice
  let content := ((message.lookup contentKey).filter Value.truthy).getD (.str [])
  let toolCalls := (message.lookup toolCallsKey).filter Value.truthy
  let finishReason := (choice.lookup finishReasonKey).getD .null
  let choices ←
    if content.truthy then
      (splitIntoTokens U content).map (tokenChoices toolCalls finishReason)
    else
      some [chunkChoice (match toolCalls with
        | some calls => [(toolCallsKey, calls)]
        | none => [(contentKey, .str [])]) (some finishReason)]
  some (chunksOf response choices)

def maxStreamOutputBytes : ℕ := 8 * 1024 * 1024

/-- `_stream_chunk_size` -/
def streamChunkSize (chunk : StreamChunk) : ℕ :=
  utf8Size (Value.obj [("id".toList, .str chunk.id), ("choices".toList, .arr (chunk.choices.map .obj)),
    ("model".toList, .str chunk.model)]).compact

/-- The chunks that are emitted before their sizes exceed the limit, and whether they do. -/
def emitBounded : ℕ → List StreamChunk → List StreamChunk × Bool
  | _, [] => ([], false)
  | emitted, chunk :: rest =>
      if maxStreamOutputBytes < emitted + streamChunkSize chunk then ([], true)
      else
        let (later, failed) := emitBounded (emitted + streamChunkSize chunk) rest
        (chunk :: later, failed)

/-- `_bounded_simulated_streaming`: the chunks that it yields, and whether it raises then. -/
def boundedSimulatedStreaming (U : Unicode) (response : ChatCompletionResponse) :
    List StreamChunk × Bool :=
  if maxStreamOutputBytes < utf8Size (Value.arr (response.choices.map .obj)).compact then ([], true)
  else
    match simulateStreaming U response with
    | none => ([], true)
    | some chunks => emitBounded 0 chunks

/-! ### From chunks to a response -/

/-- The value of a text of decimal digits. -/
def digitsValue : Text → Option ℕ
  | [] => none
  | cs => if cs.all (fun c ↦ '0' ≤ c && c ≤ '9') then
      some (cs.foldl (fun n c ↦ 10 * n + (c.toNat - 48)) 0) else none

/-- A value for which `isinstance(value, int)`. -/
def pyInt : Value → Option ℤ
  | .bool b => some (if b then 1 else 0)
  | .number ('-' :: text) => (digitsValue text).map fun n ↦ -n
  | .number text => (digitsValue text).map fun n ↦ n
  | _ => none

/-- `d.get("index", position)`, or the position where that is no integer. -/
def indexOr (d : Fields) (position : ℕ) : ℤ := ((d.lookup indexKey).bind pyInt).getD position

structure CallState where
  id : Value
  type : Value
  name : Text
  arguments : Text

def CallState.new : CallState := ⟨.str [], .str functionKey, [], []⟩

structure ChoiceState where
  content : Text
  role : Text
  finishReason : Value
  toolCalls : List (ℤ × CallState)

def ChoiceState.new : ChoiceState := ⟨[], "assistant".toList, .null, []⟩

section Reconstruction

variable (U : Unicode)

/-- `str` of what a dictionary has under a key, if it is not false. -/
def truthyStr (d : Fields) (key : Text) : Text :=
  match (d.lookup key).filter Value.truthy with
  | some v => v.pyStr U.isPrintable
  | none => []

/-- `_merge_tool_call_delta` -/
def mergeToolCallDelta (calls : List (ℤ × CallState)) (rawCall : Fields) (position : ℕ) :
    List (ℤ × CallState) :=
  let callIndex := indexOr rawCall position
  let call := (calls.lookup callIndex).getD .new
  let call := { call with
    id := ((rawCall.lookup "id".toList).filter Value.truthy).getD call.id
    type := ((rawCall.lookup "type".toList).filter Value.truthy).getD call.type }
  let call := match rawCall.lookup functionKey with
    | some (.obj function) => { call with
        name := call.name ++ truthyStr U function "name".toList
        arguments := call.arguments ++ truthyStr U function "arguments".toList }
    | _ => call
  set calls callIndex call

/-- What the delta of a chunk adds to the state of its choice. -/
def ChoiceState.addDelta (state : ChoiceState) (delta : Fields) : ChoiceState where
  content := match delta.lookup contentKey with
    | some (.str text) => state.content ++ text
    | _ => state.content
  role := match delta.lookup roleKey with
    | some (.str role) => role
    | _ => state.role
  finishReason := state.finishReason
  toolCalls := match delta.lookup toolCallsKey with
    | some (.arr rawCalls) => rawCalls.zipIdx.foldl (fun calls (raw, position) ↦ match raw with
        | .obj rawCall => mergeToolCallDelta U calls rawCall position
        | _ => calls) state.toolCalls
    | _ => state.toolCalls

/-- One turn of the inner loop of `_response_from_stream_chunks`. -/
def addChoice (states : List (ℤ × ChoiceState)) (choice : Choice) (position : ℕ) :
    List (ℤ × ChoiceState) :=
  let index := indexOr choice position
  let state := (states.lookup index).getD .new
  let state := match choice.lookup deltaKey with
    | some (.obj delta) => state.addDelta U delta
    | _ => state
  let state := match choice.lookup finishReasonKey with
    | none => state
    | some .null => state
    | some reason => { state with finishReason := reason }
  set states index state

def sortedByKey {α : Type} (entries : List (ℤ × α)) : List (ℤ × α) :=
  entries.insertionSort fun a b ↦ a.1 ≤ b.1

def CallState.toValue (call : CallState) : Value :=
  .obj [("id".toList, call.id), ("type".toList, call.type),
    (functionKey, .obj [("name".toList, .str call.name), ("arguments".toList, .str call.arguments)])]

def ChoiceState.toChoice (index : ℤ) (state : ChoiceState) : Choice :=
  [(indexKey, .number (toString index).toList),
    (messageKey, .obj ((roleKey, .str state.role) :: (contentKey, .str state.content) ::
      if state.toolCalls.isEmpty then []
      else [(toolCallsKey, .arr ((sortedByKey state.toolCalls).map fun c ↦ c.2.toValue))])),
    (finishReasonKey, state.finishReason)]

/-- `_response_from_stream_chunks`, with the model that the caller puts in. -/
def responseFromStreamChunks (chunks : List StreamChunk) (model : Text) :
    ChatCompletionResponse :=
  let states := chunks.foldl (fun states chunk ↦
    chunk.choices.zipIdx.foldl (fun states (choice, position) ↦ addChoice U states choice position)
      states) []
  let choices := (sortedByKey states).map fun s ↦ s.2.toChoice s.1
  { id := chunks.foldl (fun id chunk ↦ if chunk.id.isEmpty then id else chunk.id) []
    choices := if choices.isEmpty then [ChoiceState.new.toChoice 0] else choices
    model := model }

end Reconstruction

end Screening
