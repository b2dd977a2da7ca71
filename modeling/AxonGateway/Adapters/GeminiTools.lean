import AxonGateway.Adapters.Merging
import AxonGateway.Lib.Base64
import AxonGateway.Lib.JsonDumps
import AxonGateway.Lib.Netstring

/-!
# Tools in the dialect of Gemini

A part of a Gemini reply that calls a function becomes a call for an OpenAI client. Its id carries
the provider's id and the thought signature in a capsule, which is opened when the client sends the
call back.
-/

namespace Adapters

open PyValue Screening

/-! ### Ids of calls -/

def callIdPrefix : Text := "call_gemini_".toList

def maxCallIdPayload : ℕ := 16384

/-- `json.dumps` without arguments. -/
def dumps (v : Value) : Text := JsonText.write [' '] v

/-- What a capsule holds. -/
def capsulePayload (providerId signature : Text) : Text :=
  JsonText.write [] (.arr [.str providerId, .str signature])

def capsule (providerId signature : Text) : Text :=
  callIdPrefix ++
    Base64.strip (Base64.encode ((capsulePayload providerId signature).map Char.toNat))

/-- An id for a call without one. -/
def synthesizedId (name : Text) (index : ℕ) : Text :=
  "call_".toList ++ name ++ '_' :: (toString index).toList

theorem underscore_notMem (index : ℕ) : '_' ∉ (toString index).toList := by
  intro hmem
  have htext : (toString index).toList = Nat.toDigits 10 index := Nat.toList_repr
  rw [htext] at hmem
  have hdigit := Nat.isDigit_of_mem_toDigits (by norm_num) (by norm_num) hmem
  revert hdigit
  decide

/-- The name and the place can be told from the id. -/
theorem synthesizedId_inj {name name' : Text} {index index' : ℕ} :
    synthesizedId name index = synthesizedId name' index' ↔ name = name' ∧ index = index' := by
  refine ⟨fun heq ↦ ?_, ?_⟩
  · unfold synthesizedId at heq
    rw [List.append_assoc, List.append_assoc] at heq
    have hreverse := congrArg List.reverse (List.append_cancel_left heq)
    simp only [List.reverse_append, List.reverse_cons, List.append_assoc, List.singleton_append]
      at hreverse
    have hnot : ∀ i : ℕ, '_' ∉ (toString i).toList.reverse := fun i hmem ↦
      underscore_notMem i (List.mem_reverse.mp hmem)
    obtain ⟨hdigits, hname⟩ := Netstring.append_cons_inj (hnot index) (hnot index') hreverse
    exact ⟨List.reverse_inj.mp hname,
      Nat.repr_injective (String.toList_injective (List.reverse_inj.mp hdigits))⟩
  · rintro ⟨rfl, rfl⟩
    rfl

section

variable (U : Unicode)

/-- `_gemini_tool_call_id` -/
def geminiToolCallId (functionCall part : Fields) (index : ℕ) : Text :=
  let providerId := textAt functionCall "id"
  match part.lookup "thoughtSignature".toList with
  | some (.str (c :: signature)) => capsule providerId (c :: signature)
  | _ =>
      if providerId.isEmpty then
        synthesizedId ((getOr functionCall "name".toList (.str "fn".toList)).pyStr U.isPrintable) index
      else providerId

/-- The call of a part. -/
def geminiToolCall (functionCall part : Fields) (index : ℕ) : Fields :=
  [("id".toList, .str (geminiToolCallId U functionCall part index)), (typeKey, .str functionKey),
    (functionKey, .obj [("name".toList, getOr functionCall "name".toList (.str [])),
      ("arguments".toList, .str (dumps (getOr functionCall "args".toList (.obj []))))])]

/-- `gemini_parts_to_tool_calls`, from the `i`-th part on; nothing where it raises. -/
def geminiPartsToToolCalls (i : ℕ) : List Value → Option (List Fields)
  | [] => some []
  | .obj part :: rest => do
      let functionCall ← dictAt part "functionCall"
      let later ← geminiPartsToToolCalls (i + 1) rest
      pure (if functionCall.isEmpty then later else geminiToolCall U functionCall part i :: later)
  | _ :: _ => none

end

/-! ### What a client sends back -/

section

variable (wide : List ℕ → Option Text)

/-- `json.loads` of bytes; nothing where it raises. Bytes that are not plain ASCII are read by
`wide`, in the encoding that is detected. -/
def loadsBytes (bytes : List ℕ) : Option Value :=
  (if ∀ b ∈ bytes, 0 < b ∧ b < 128 then some (bytes.map Char.ofNat) else wide bytes).bind
    JsonText.loads

/-- `_gemini_call_metadata` -/
def geminiCallMetadata (callId : Value) : Option Text × Option Text :=
  match callId with
  | .str text =>
      let encoded := text.drop callIdPrefix.length
      if callIdPrefix.isPrefixOf text ∧ encoded ≠ [] ∧ encoded.length ≤ maxCallIdPayload then
        match (Base64.decode (encoded ++ Base64.pad encoded)).bind (loadsBytes wide) with
        | some (.arr [.str providerId, .str (c :: signature)]) =>
            (if providerId.isEmpty then none else some providerId, some (c :: signature))
        | _ => (none, none)
      else (none, none)
  | _ => (none, none)

/-- `_parse_args` -/
def parseArgs (raw : Value) : Value :=
  match raw with
  | .str text =>
      if text.all PyText.isSpace then .obj [] else (JsonText.loads text).getD (.obj [])
  | raw => orElse raw (.obj [])

/-- Arguments are read back as they were written. -/
theorem parseArgs_dumps {fields : Fields} (h : JsonText.Written (.obj fields)) :
    parseArgs (.str (dumps (.obj fields))) = .obj fields := by
  have hgap : ∀ c ∈ [' '], JsonText.isBlank c = true := by
    intro c hc
    rw [List.mem_singleton.mp hc]
    rfl
  have hloads : JsonText.loads (dumps (.obj fields)) = some (.obj fields) :=
    JsonText.loads_write hgap h
  have hbrace : PyText.isSpace JsonText.openBrace = false := by
    decide +kernel
  obtain ⟨l, hl⟩ : ∃ l, dumps (.obj fields) = JsonText.openBrace :: l := ⟨_, rfl⟩
  have hblank : (dumps (.obj fields)).all PyText.isSpace = false := by
    rw [hl, List.all_cons, hbrace, Bool.false_and]
  rw [parseArgs, hblank, hloads]
  rfl

/-- The part of a call that is sent back; nothing where it raises. -/
def callPart (toolCall : Fields) : Option Value := do
  let function ← dictAt toolCall "function"
  let name := getOr function "name".toList (getOr toolCall "name".toList (.str []))
  let args := parseArgs
    (getOr function "arguments".toList (getOr toolCall "arguments".toList (.obj [])))
  let (providerId, signature) := geminiCallMetadata wide (getOr toolCall "id".toList .null)
  let functionCall := [("name".toList, name), ("args".toList, args)] ++
    providerId.toList.map fun id ↦ ("id".toList, .str id)
  pure (.obj (("functionCall".toList, .obj functionCall) ::
    signature.toList.map fun text ↦ ("thoughtSignature".toList, .str text)))

def callParts : List Value → Option (List Value)
  | [] => some []
  | .obj toolCall :: rest => do
      let part ← callPart wide toolCall
      let parts ← callParts rest
      pure (part :: parts)
  | _ :: _ => none

/-- The names of calls by their ids. -/
abbrev CallNames := List (Text × Text)

def indexCall (names : CallNames) (rawCall : Value) : CallNames :=
  match rawCall with
  | .obj rawCall =>
      let function := dictOf (rawCall.lookup functionKey)
      let name := orElse (getOr function "name".toList .null) (getOr rawCall "name".toList .null)
      match getOr rawCall "id".toList .null, name with
      | .str (c :: callId), .str (d :: name) => set names (c :: callId) (d :: name)
      | _, _ => names
  | _ => names

def isText (v : Value) (text : String) : Bool :=
  match v with
  | .str t => t == text.toList
  | _ => false

def indexMessage (names : CallNames) (message : Value) : CallNames :=
  match message with
  | .obj message =>
      if isText (getOr message roleKey .null) "assistant" then
        match message.lookup toolCallsKey with
        | some (.arr rawCalls) => rawCalls.foldl indexCall names
        | _ => names
      else names
  | _ => names

/-- `openai_tool_call_names` -/
def openaiToolCallNames (messages : List Value) : CallNames := messages.foldl indexMessage []

/-- The name of the function that a message of a tool answers; nothing where it raises. -/
def toolResultName (names : Option CallNames) (msg : Fields) : Option Value :=
  let name := getOr msg "name".toList .null
  if name.truthy then some name
  else match names with
    | none => some (.str [])
    | some names =>
        match getOr msg "tool_call_id".toList (.str []) with
        | .str callId => some (.str ((names.lookup callId).getD []))
        | .arr _ => none
        | .obj _ => none
        | _ => some (.str [])

def partsKey : Text := "parts".toList

/-- The part of a text, where there is one. -/
def textParts (content : Option Value) : List Value :=
  match content with
  | some (.str (c :: text)) => [.obj [("text".toList, .str (c :: text))]]
  | _ => []

/-- A message of a tool; nothing where it raises. -/
def toolMessage (names : Option CallNames) (msg : Fields) : Option Fields := do
  let name ← toolResultName names msg
  let content := match msg.lookup contentKey with
    | some (.str text) => text
    | content => dumps (content.getD .null)
  pure [(roleKey, .str "user".toList), (partsKey, .arr [.obj [("functionResponse".toList,
    .obj [("name".toList, name), ("response".toList, .obj [(contentKey, .str content)])])]])]

/-- A message of the assistant with calls; nothing where it raises. -/
def callsMessage (msg : Fields) : Option Fields := do
  let toolCalls ← itemsOf (getOr msg toolCallsKey .null)
  let parts ← callParts wide toolCalls
  pure [(roleKey, .str "model".toList),
    (partsKey, .arr (textParts (msg.lookup contentKey) ++ parts))]

/-- `openai_msg_to_gemini`: the entry, if there is one, or nothing where it raises. -/
def openaiMsgToGemini (U : Unicode) (msg : Fields) (names : Option CallNames) :
    Option (Option Fields) :=
  let role := getOr msg roleKey (.str "user".toList)
  if isText role "system" then some none
  else if isText role "tool" then (toolMessage names msg).map some
  else if isText role "assistant" && (getOr msg toolCallsKey .null).truthy then
    (callsMessage wide msg).map some
  else
    let text := match getOr msg contentKey .null with
      | .str text => text
      | content => (orElse content (.str [])).pyStr U.isPrintable
    some (some [(roleKey, .str (if isText role "assistant" then "model" else "user").toList),
      (partsKey, .arr [.obj [("text".toList, .str text)]])])

end

end Adapters
