import AxonGateway.Adapters.GeminiTools

/-!
# The system instruction of a request

A request can carry an instruction in a field of its own and in messages of the system. The
adapters of four providers take the first of them, the translators for the Responses API and for
Mantle the last.
-/

namespace Adapters

open PyValue Screening

/-- What the translators read of a `ChatCompletionRequest`. -/
structure Request where
  messages : List Fields
  system : Option Text

/-- The part of a payload that comes from the messages: what stands under its key for the system,
if anything, and the messages that are translated one by one. -/
structure Payload where
  system : Option Value
  messages : List Fields

def isSystem (msg : Fields) : Bool := isText (getOr msg roleKey .null) "system"

def contentOf (msg : Fields) : Value := getOr msg contentKey (.str [])

/-! ### The translators -/

/-- The loop of the adapters: a message of the system counts while there is no instruction yet. -/
def takeFirst (payload : Payload) (msg : Fields) : Payload :=
  if isSystem msg then
    { payload with system := payload.system.orElse fun _ ↦ some (contentOf msg) }
  else { payload with messages := payload.messages ++ [msg] }

/-- The loop of the other translators: a message of the system replaces the instruction. -/
def takeLast (payload : Payload) (msg : Fields) : Payload :=
  if isSystem msg then { payload with system := some (contentOf msg) }
  else { payload with messages := payload.messages ++ [msg] }

def cacheControl : Text × Value :=
  ("cache_control".toList, .obj [(typeKey, .str "ephemeral".toList)])

/-- The blocks of a list with the mark on the last one only. -/
def markLast : List Value → List Value
  | [] => []
  | [.obj block] => [.obj (set (block.filter (·.1 ≠ cacheControl.1)) cacheControl.1 cacheControl.2)]
  | .obj block :: rest => .obj (block.filter (·.1 ≠ cacheControl.1)) :: markLast rest
  | v :: rest => v :: markLast rest

/-- The blocks that carry an instruction with prompt caching. -/
def cachedSystem : Value → Option Value
  | .str text => some (.arr [.obj [(typeKey, .str "text".toList), ("text".toList, .str text),
      cacheControl]])
  | .arr blocks => some (.arr (markLast blocks))
  | _ => none

/-- `AnthropicStyleAdapter.translate_request` -/
def anthropicStylePayload (promptCaching : Bool) (request : Request) : Payload :=
  let payload := request.messages.foldl takeFirst ⟨request.system.map .str, []⟩
  if promptCaching then { payload with system := payload.system.bind cachedSystem } else payload

/-- The `systemInstruction` of Gemini. -/
def systemInstruction (system : Value) : Value :=
  .obj [(partsKey, .arr [.obj [("text".toList, system)]])]

/-- `GoogleAIAdapter.translate_request` -/
def googlePayload (request : Request) : Payload :=
  let payload := request.messages.foldl takeFirst ⟨request.system.map .str, []⟩
  { payload with system := payload.system.map systemInstruction }

/-- `VertexAIAdapter.translate_request` -/
def vertexPayload (request : Request) : Payload :=
  let payload := request.messages.foldl takeFirst ⟨request.system.map .str, []⟩
  { payload with system := payload.system.map systemInstruction }

/-- `CohereAdapter.translate_request`: the preamble -/
def coherePayload (request : Request) : Payload :=
  request.messages.foldl takeFirst ⟨request.system.map .str, []⟩

/-- `build_responses_payload`: the instructions -/
def responsesPayload (request : Request) : Payload :=
  let payload := request.messages.foldl takeLast
    ⟨(request.system.map .str).filter Value.truthy, []⟩
  { payload with system := payload.system.filter Value.truthy }

/-- `_invoke_responses_api` of Mantle: the instructions -/
def mantleResponsesPayload (request : Request) : Payload :=
  let payload := request.messages.foldl takeLast
    ⟨(request.system.map .str).filter Value.truthy, []⟩
  { payload with system := payload.system.filter Value.truthy }

/-- `_invoke_messages_api` of Mantle -/
def mantleMessagesPayload (request : Request) : Payload :=
  let payload := request.messages.foldl takeLast
    ⟨some (orElse ((request.system.map .str).getD .null) (.str [])), []⟩
  { payload with system := payload.system.filter Value.truthy }

/-! ### The instruction that a payload carries -/

def blockText : Value → Text
  | .obj block => textAt block "text"
  | _ => []

/-- The text of an instruction; none is an empty one. -/
def instructionText : Option Value → Text
  | some (.str text) => text
  | some (.arr blocks) => blocks.flatMap blockText
  | some (.obj instruction) =>
      match instruction.lookup partsKey with
      | some (.arr blocks) => blocks.flatMap blockText
      | _ => []
  | _ => []

/-- The payloads of a request in every dialect. -/
def payloads (promptCaching : Bool) (request : Request) : List Payload :=
  [anthropicStylePayload promptCaching request, googlePayload request, vertexPayload request,
    coherePayload request, responsesPayload request, mantleResponsesPayload request,
    mantleMessagesPayload request]

/-- All dialects carry the same instruction. -/
def SameInstruction (promptCaching : Bool) (request : Request) : Prop :=
  ∀ p ∈ payloads promptCaching request, ∀ q ∈ payloads promptCaching request,
    instructionText p.system = instructionText q.system

/-- Every content is a string, or absent. -/
def Request.Plain (request : Request) : Prop :=
  ∀ msg ∈ request.messages, ∃ text, contentOf msg = .str text

/-- The instructions that a request gives, in order: its own field, then the messages of the
system. -/
def Request.instructions (request : Request) : List Value :=
  (request.system.map .str).toList ++ (request.messages.filter isSystem).map contentOf

theorem system_takeFirst (payload : Payload) (messages : List Fields) :
    (messages.foldl takeFirst payload).system =
      (payload.system.toList ++ (messages.filter isSystem).map contentOf).head? := by
  induction messages generalizing payload with
  | nil =>
      rw [List.foldl_nil]
      cases payload.system <;> rfl
  | cons msg messages ih =>
      rw [List.foldl_cons, ih, takeFirst]
      cases hsystem : isSystem msg with
      | true =>
          rw [if_pos rfl, List.filter_cons_of_pos hsystem]
          cases payload.system <;> rfl
      | false => rw [if_neg (by decide), List.filter_cons_of_neg (by simp [hsystem])]

theorem system_takeLast (payload : Payload) (messages : List Fields) :
    (messages.foldl takeLast payload).system =
      (payload.system.toList ++ (messages.filter isSystem).map contentOf).getLast? := by
  induction messages generalizing payload with
  | nil =>
      rw [List.foldl_nil]
      cases payload.system <;> rfl
  | cons msg messages ih =>
      rw [List.foldl_cons, ih, takeLast]
      cases hsystem : isSystem msg with
      | true =>
          rw [if_pos rfl, List.filter_cons_of_pos hsystem, List.map_cons]
          cases payload.system with
          | none => rfl
          | some v => exact (List.getLast?_cons_cons).symm
      | false => rw [if_neg (by decide), List.filter_cons_of_neg (by simp [hsystem])]

theorem Request.Plain.isText {request : Request} (h : request.Plain) :
    ∀ v ∈ request.instructions, ∃ text, v = .str text := by
  intro v hv
  rcases List.mem_append.mp hv with hv | hv
  · cases hsystem : request.system with
    | none =>
        rw [hsystem] at hv
        cases hv
    | some text =>
        rw [hsystem] at hv
        exact ⟨text, List.mem_singleton.mp hv⟩
  · obtain ⟨msg, hmsg, rfl⟩ := List.mem_map.mp hv
    exact h msg (List.mem_filter.mp hmsg).1

/-- An instruction of the first kind, whatever it is wrapped in. -/
theorem instructionText_wrapped {first : Option Value} (h : ∀ v ∈ first, ∃ text, v = .str text) :
    instructionText (first.bind cachedSystem) = instructionText first ∧
      instructionText (first.map systemInstruction) = instructionText first := by
  cases first with
  | none => exact ⟨rfl, rfl⟩
  | some v =>
      obtain ⟨text, rfl⟩ := h v rfl
      exact ⟨List.append_nil text, List.append_nil text⟩

/-- An empty instruction is left out, at the start and in the end. -/
theorem instructionText_last {system start : Option Value} (contents : List Value)
    (hcontents : ∀ v ∈ contents, ∃ text, v = .str text)
    (hstart : instructionText (start.filter Value.truthy) = instructionText system) :
    instructionText ((start.toList ++ contents).getLast?.filter Value.truthy) =
      instructionText (system.toList ++ contents).getLast? := by
  rcases List.eq_nil_or_concat contents with rfl | ⟨before, v, rfl⟩
  · rw [List.append_nil, List.append_nil]
    cases start <;> cases system <;> exact hstart
  · obtain ⟨text, rfl⟩ := hcontents v (by simp)
    rw [List.concat_eq_append, ← List.append_assoc, ← List.append_assoc, List.getLast?_concat,
      List.getLast?_concat]
    cases text <;> rfl

/-- Every dialect carries the first or the last of the instructions. -/
theorem instructionText_payloads {request : Request} (h : request.Plain) (promptCaching : Bool) :
    (payloads promptCaching request).map (fun payload ↦ instructionText payload.system) =
      [instructionText request.instructions.head?, instructionText request.instructions.head?,
        instructionText request.instructions.head?, instructionText request.instructions.head?,
        instructionText request.instructions.getLast?, instructionText request.instructions.getLast?,
        instructionText request.instructions.getLast?] := by
  have hfirst : ∀ v ∈ request.instructions.head?, ∃ text, v = .str text :=
    fun v hv ↦ h.isText v (List.mem_of_mem_head? hv)
  have hcontents : ∀ v ∈ (request.messages.filter isSystem).map contentOf, ∃ text, v = .str text :=
    fun v hv ↦ h.isText v (List.mem_append_right _ hv)
  have hadapter := system_takeFirst ⟨request.system.map .str, []⟩ request.messages
  obtain ⟨hcached, hwrapped⟩ := instructionText_wrapped hfirst
  have hanthropic : instructionText (anthropicStylePayload promptCaching request).system =
      instructionText request.instructions.head? := by
    unfold anthropicStylePayload
    cases promptCaching with
    | false => exact congrArg instructionText hadapter
    | true =>
        rw [if_pos rfl]
        dsimp only
        rw [hadapter]
        exact hcached
  have hgoogle : instructionText (googlePayload request).system =
      instructionText request.instructions.head? := by
    unfold googlePayload
    dsimp only
    rw [hadapter]
    exact hwrapped
  have hresponses : instructionText (responsesPayload request).system =
      instructionText request.instructions.getLast? := by
    unfold responsesPayload
    dsimp only
    rw [system_takeLast]
    refine instructionText_last _ hcontents ?_
    rcases request.system with _ | _ | ⟨c, text⟩ <;> rfl
  have hmessages : instructionText (mantleMessagesPayload request).system =
      instructionText request.instructions.getLast? := by
    unfold mantleMessagesPayload
    dsimp only
    rw [system_takeLast]
    refine instructionText_last _ hcontents ?_
    rcases request.system with _ | _ | ⟨c, text⟩ <;> rfl
  have hcohere : instructionText (coherePayload request).system =
      instructionText request.instructions.head? := congrArg instructionText hadapter
  simp only [payloads, List.map_cons, List.map_nil]
  rw [hanthropic, hgoogle, show vertexPayload request = googlePayload request from rfl, hgoogle,
    hcohere, hresponses, show mantleResponsesPayload request = responsesPayload request from rfl,
    hresponses, hmessages]

theorem Request.Plain.text_inj {request : Request} (h : request.Plain) :
    instructionText request.instructions.head? = instructionText request.instructions.getLast? ↔
      request.instructions.head? = request.instructions.getLast? := by
  refine ⟨fun heq ↦ ?_, congrArg instructionText⟩
  have htext := h.isText
  generalize request.instructions = instructions at heq htext
  cases instructions with
  | nil => rfl
  | cons v rest =>
      have hlast : (v :: rest).getLast? = some ((v :: rest).getLast (List.cons_ne_nil v rest)) :=
        List.getLast?_eq_some_getLast _
      obtain ⟨first, rfl⟩ := htext v List.mem_cons_self
      obtain ⟨last, hlast'⟩ := htext _ (List.getLast_mem (List.cons_ne_nil (.str first) rest))
      rw [hlast, hlast', List.head?_cons] at heq ⊢
      exact congrArg (fun text ↦ some (Value.str text)) heq

/-- All dialects carry the same instruction exactly when the first and the last that the request
gives are the same. -/
theorem sameInstruction_iff {request : Request} (h : request.Plain) (promptCaching : Bool) :
    SameInstruction promptCaching request ↔
      request.instructions.head? = request.instructions.getLast? := by
  have hpayloads := instructionText_payloads h promptCaching
  rw [← h.text_inj]
  constructor
  · intro hsame
    injection hpayloads with hfirst hpayloads
    injection hpayloads with _ hpayloads
    injection hpayloads with _ hpayloads
    injection hpayloads with _ hpayloads
    injection hpayloads with hlast _
    rw [← hfirst, ← hlast]
    exact hsame _ (by simp [payloads]) _ (by simp [payloads])
  · intro heq
    have hall : ∀ p ∈ payloads promptCaching request,
        instructionText p.system = instructionText request.instructions.getLast? := by
      intro p hp
      have hmem := List.mem_map_of_mem (f := fun payload ↦ instructionText payload.system) hp
      rw [hpayloads, heq] at hmem
      simpa using hmem
    intro p hp q hq
    rw [hall p hp, hall q hq]

/-- Two messages of the system. -/
def twoInstructions : Request :=
  ⟨[[(roleKey, .str "system".toList), (contentKey, .str "a".toList)],
    [(roleKey, .str "system".toList), (contentKey, .str "b".toList)]], none⟩

theorem differs_twoInstructions : ∃ request, request.Plain ∧ ¬SameInstruction false request := by
  refine ⟨twoInstructions, ?_, fun hsame ↦ ?_⟩
  · intro msg hmsg
    simp only [twoInstructions, List.mem_cons, List.not_mem_nil, or_false] at hmsg
    rcases hmsg with rfl | rfl
    · exact ⟨"a".toList, rfl⟩
    · exact ⟨"b".toList, rfl⟩
  · have hfirst := hsame (anthropicStylePayload false twoInstructions) (by simp [payloads])
      (responsesPayload twoInstructions) (by simp [payloads])
    have htexts : "a".toList = "b".toList := hfirst
    exact absurd htexts (by decide)

/-- A request with one instruction. -/
theorem same_oneInstruction : SameInstruction true
    ⟨[[(roleKey, .str "user".toList), (contentKey, .str "hi".toList)]], some "a".toList⟩ :=
  (sameInstruction_iff (fun msg hmsg ↦ ⟨"hi".toList, by rw [List.mem_singleton.mp hmsg]; rfl⟩)
    true).mpr rfl

end Adapters
