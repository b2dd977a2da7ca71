import AxonGateway.Adapters.Responses

/-!
# A streamed reply and the whole reply

The events of a reply tell its items in order and then the reply. Put together from the stream,
the text, the finish reason and the usage are those of the whole reply. The calls are the same
exactly when there is at most one and it has an id of its own.
-/

namespace Adapters

open PyValue Screening

/-! ### Replies and their events -/

/-- A call, with the texts that its item gives. -/
structure FunctionCall where
  callId : Option Text
  id : Option Text
  name : Option Text
  arguments : Option Text

inductive OutputItem where
  | reasoning
  | message (texts : List Text)
  | functionCall (call : FunctionCall)

/-- The dictionary of an item, whatever else it holds. -/
def OutputItem.Describes : OutputItem → Fields → Prop
  | .reasoning, d => d.lookup typeKey = some (.str "reasoning".toList)
  | .message texts, d => d.lookup typeKey = some (.str "message".toList) ∧
      ∃ blocks, d.lookup contentKey = some (.arr blocks) ∧ blockTexts blocks = some texts
  | .functionCall call, d => d.lookup typeKey = some (.str "function_call".toList) ∧
      d.lookup "call_id".toList = call.callId.map .str ∧ d.lookup "id".toList = call.id.map .str ∧
      d.lookup "name".toList = call.name.map .str ∧
      d.lookup "arguments".toList = call.arguments.map .str

def OutputItem.text : OutputItem → Text
  | .message texts => texts.flatten
  | _ => []

def OutputItem.call? : OutputItem → Option FunctionCall
  | .functionCall call => some call
  | _ => none

/-- A reply with these items, that is completed or incomplete. -/
structure IsReply (response : Fields) (items : List OutputItem) (dicts : List Fields) : Prop where
  output : response.lookup outputKey = some (.arr (dicts.map .obj))
  describes : List.Forall₂ OutputItem.Describes items dicts
  status : ∃ status ∈ ["completed", "incomplete"],
    response.lookup "status".toList = some (.str status.toList)
  details : ∃ details reason, dictAt response "incomplete_details" = some details ∧
    getOr details "reason".toList (.str []) = .str reason
  usage : ∃ usageData usage, dictAt response "usage" = some usageData ∧
    usageFromResponse usageData = some usage

/-- The types of events that are about a client. -/
def toldTypes : List Text :=
  ["response.output_text.delta", "response.output_item.done", "response.completed",
    "response.incomplete", "response.failed"].map String.toList

/-- A notification of the lifecycle, or what is told again as a whole. -/
def Ignored (event : Fields) : Prop :=
  ∃ type, event.lookup typeKey = some (.str type) ∧ "response.".toList.isPrefixOf type = true ∧
    type ∉ toldTypes

/-- The events of an item: its text, cut anywhere, and then the item. -/
inductive ItemEvents (d : Fields) : Text → List Fields → Prop
  | done {event} (htype : event.lookup typeKey = some (.str "response.output_item.done".toList))
      (hitem : event.lookup "item".toList = some (.obj d)) : ItemEvents d [] [event]
  | delta {event cut text events}
      (htype : event.lookup typeKey = some (.str "response.output_text.delta".toList))
      (hdelta : event.lookup deltaKey = some (.str cut)) :
      ItemEvents d text events → ItemEvents d (cut ++ text) (event :: events)
  | ignored {event text events} (hignored : Ignored event) :
      ItemEvents d text events → ItemEvents d text (event :: events)

/-- The events of a reply: those of its items in order, and then the reply. -/
inductive ReplyEvents (response : Fields) : List OutputItem → List Fields → List Fields → Prop
  | terminal {event type} (htype : type ∈ ["response.completed", "response.incomplete"])
      (hevent : event.lookup typeKey = some (.str type.toList))
      (hresponse : event.lookup "response".toList = some (.obj response)) :
      ReplyEvents response [] [] [event]
  | item {item d items dicts events later} :
      ItemEvents d item.text events → ReplyEvents response items dicts later →
      ReplyEvents response (item :: items) (d :: dicts) (events ++ later)
  | ignored {event items dicts events} (hignored : Ignored event) :
      ReplyEvents response items dicts events →
      ReplyEvents response items dicts (event :: events)

/-- The stream and the whole reply give a client the same. -/
def Agrees (U : Unicode) (model : Text) (response : Fields) (events : List Fields) : Prop :=
  ∃ chunks reply usage, translateEvents events = some chunks ∧
    translateResponsesReply response = some (reply, usage) ∧
    (responseFromStreamChunks U (chunks.map Prod.fst) model).choices.map choiceView =
      reply.choices.map choiceView ∧
    finalUsage chunks = some usage

/-- There is at most one call, and it has an id of its own. -/
def OneCall (items : List OutputItem) : Prop :=
  (items.filterMap OutputItem.call?).length ≤ 1 ∧
    ∀ call ∈ items.filterMap OutputItem.call?, call.callId.getD [] ≠ [] ∨ call.id.isSome

/-! ### What the events say -/

/-- The events are translated, and say these pieces with these usages. -/
def StreamSays (events : List Fields) (pieces : List Piece) (usages : List TokenUsage) : Prop :=
  ∃ chunks, translateEvents events = some chunks ∧ Single (chunks.map Prod.fst) ∧
    Says (chunks.map Prod.fst) pieces ∧ chunks.filterMap Prod.snd = usages

theorem streamSays_nil : StreamSays [] [] [] := ⟨[], rfl, nofun, rfl, rfl⟩

theorem StreamSays.cons {event : Fields} {chunk : Translated} {events : List Fields}
    {piece pieces : List Piece} {usages : List TokenUsage}
    (htranslate : translateStreamChunk event = some chunk)
    (hpiece : chunk.1.choices = piece.map Piece.choice) (hone : piece.length ≤ 1)
    (h : StreamSays events pieces usages) :
    StreamSays (event :: events) (piece ++ pieces) (chunk.2.toList ++ usages) := by
  obtain ⟨chunks, hchunks, hsingle, htold, husages⟩ := h
  refine ⟨chunk :: chunks, ?_, ?_, ?_, ?_⟩
  · rw [translateEvents, htranslate, hchunks]
    rfl
  · intro c hc
    rcases List.mem_cons.mp hc with rfl | hc
    · rw [hpiece, List.length_map]
      exact hone
    · exact hsingle c hc
  · change chunk.1.choices ++ (chunks.map Prod.fst).flatMap StreamChunk.choices = _
    rw [hpiece, htold, List.map_append]
  · cases husage : chunk.2 with
    | none => rw [List.filterMap_cons_none husage, husages]; rfl
    | some usage => rw [List.filterMap_cons_some husage, husages]; rfl

theorem foldl_addUsage (chunks : List Translated) (current : Option TokenUsage) :
    chunks.foldl (fun current chunk ↦ addUsage current chunk.2) current =
      (chunks.filterMap Prod.snd).foldl (fun current usage ↦ addUsage current (some usage))
        current := by
  induction chunks generalizing current with
  | nil => rfl
  | cons chunk chunks ih =>
      rw [List.foldl_cons, ih]
      cases husage : chunk.2 with
      | none => rw [List.filterMap_cons_none husage, addUsage]
      | some usage => rw [List.filterMap_cons_some husage, List.foldl_cons]

/-- A usage that comes once comes out as it is. -/
theorem finalUsage_singleton {chunks : List Translated} {usage : TokenUsage}
    (h : chunks.filterMap Prod.snd = [usage]) : finalUsage chunks = some usage := by
  unfold finalUsage
  rw [foldl_addUsage, h]
  rfl

/-! ### Single events -/

theorem hasType_eq {d : Fields} {type : Text} (h : d.lookup typeKey = some (.str type))
    (type' : String) : hasType d type' = (type == type'.toList) := by
  unfold hasType
  rw [h]

theorem isResponsesEvent_eq {event : Fields} {type : Text}
    (h : event.lookup typeKey = some (.str type)) :
    isResponsesEvent event = "response.".toList.isPrefixOf type := by
  unfold isResponsesEvent
  rw [h]

theorem dictAt_of_obj {d fields : Fields} {key : String}
    (h : d.lookup key.toList = some (.obj fields)) : dictAt d key = some fields := by
  unfold dictAt
  rw [h]

theorem getOr_of_lookup {d : Fields} {key : Text} {v : Value} (h : d.lookup key = some v)
    (default : Value) : getOr d key default = v := by
  unfold getOr
  rw [h]
  rfl

theorem translate_ignored {event : Fields} (h : Ignored event) :
    translateStreamChunk event = some (⟨[], [], [], false⟩, none) := by
  obtain ⟨type, htype, hresponse, hnot⟩ := h
  have hne : ∀ type', type' ∈ ["response.output_text.delta", "response.output_item.done",
      "response.completed", "response.incomplete", "response.failed"] →
      hasType event type' = false := by
    intro type' hmem
    rw [hasType_eq htype]
    refine beq_eq_false_iff_ne.mpr fun heq ↦ hnot ?_
    rw [heq]
    exact List.mem_map_of_mem hmem
  unfold translateStreamChunk translateResponsesStreamEvent
  rw [isResponsesEvent_eq htype, hresponse, hne _ (by simp), hne _ (by simp), hne _ (by simp),
    hne _ (by simp), hne _ (by simp)]
  rfl

theorem StreamSays.ignored {event : Fields} {events : List Fields} {pieces : List Piece}
    {usages : List TokenUsage} (h : StreamSays events pieces usages) (hignored : Ignored event) :
    StreamSays (event :: events) pieces usages := by
  have hcons : StreamSays (event :: events) ([] ++ pieces) _ :=
    h.cons (translate_ignored hignored) rfl (Nat.zero_le 1)
  exact hcons

theorem translate_delta {event : Fields} {cut : Text}
    (htype : event.lookup typeKey = some (.str "response.output_text.delta".toList))
    (hdelta : event.lookup deltaKey = some (.str cut)) :
    ∃ chunk piece, translateStreamChunk event = some chunk ∧ chunk.2 = none ∧
      chunk.1.choices = piece.map Piece.choice ∧ piece.length ≤ 1 ∧
      (piece = [] ∧ cut = [] ∨ piece = [⟨[(contentKey, .str cut)], .null⟩]) := by
  have htranslate : translateStreamChunk event = some (if cut.isEmpty then
      (⟨[], [], [], false⟩, none) else (⟨textAt event "item_id",
        [chunkChoice [(contentKey, .str cut)] (some .null)], [], false⟩, none)) := by
    unfold translateStreamChunk translateResponsesStreamEvent
    rw [isResponsesEvent_eq htype, hasType_eq htype, getOr_of_lookup hdelta]
    cases cut <;> rfl
  rw [htranslate]
  cases cut with
  | nil => exact ⟨_, [], rfl, rfl, rfl, Nat.zero_le 1, .inl ⟨rfl, rfl⟩⟩
  | cons c cut => exact ⟨_, [_], rfl, rfl, rfl, le_rfl, .inr rfl⟩

/-- The delta of a call. -/
def callDelta (item : Fields) : Fields :=
  [(contentKey, .null), (toolCallsKey, .arr [.obj (itemCall item [])])]

/-- What the end of an item says. -/
def OutputItem.donePiece (item : OutputItem) (d : Fields) : List Piece :=
  match item with
  | .functionCall _ => [⟨callDelta d, .null⟩]
  | _ => []

theorem OutputItem.Describes.hasType_call {item : OutputItem} {d : Fields} (h : item.Describes d) :
    hasType d "function_call" = item.call?.isSome := by
  cases item with
  | reasoning => exact hasType_eq h _
  | message texts => exact hasType_eq h.1 _
  | functionCall call => exact hasType_eq h.1 _

theorem translate_done {event d : Fields} {item : OutputItem} (hdescribes : item.Describes d)
    (htype : event.lookup typeKey = some (.str "response.output_item.done".toList))
    (hitem : event.lookup "item".toList = some (.obj d)) :
    ∃ chunk, translateStreamChunk event = some chunk ∧ chunk.2 = none ∧
      chunk.1.choices = (item.donePiece d).map Piece.choice := by
  have htranslate : translateStreamChunk event = some (if hasType d "function_call" then
      (⟨textAt d "id", [chunkChoice (callDelta d) (some .null)], [], false⟩, none)
      else (⟨[], [], [], false⟩, none)) := by
    unfold translateStreamChunk translateResponsesStreamEvent
    rw [isResponsesEvent_eq htype, hasType_eq htype, hasType_eq htype, dictAt_of_obj hitem]
    dsimp only [Option.bind_eq_bind, Option.bind_some]
    cases hasType d "function_call" <;> rfl
  rw [htranslate, hdescribes.hasType_call]
  cases item <;> exact ⟨_, rfl, rfl, rfl⟩

/-! ### The calls that a stream is put together to -/

variable {U : Unicode}

def FunctionCall.givenId (call : FunctionCall) (fallbackId : Text) : Text :=
  if call.callId.getD [] = [] then call.id.getD fallbackId else call.callId.getD []

def FunctionCall.givenArguments (call : FunctionCall) : Text :=
  if call.arguments.getD [] = [] then "\x7b\x7d".toList else call.arguments.getD []

/-- A call that is merged at the first place with what is there. -/
def mergedCall (merged : Option CallState) (call : FunctionCall) : Option CallState :=
  let state := merged.getD .new
  some ⟨if call.givenId [] = [] then state.id else .str (call.givenId []), .str functionKey,
    state.name ++ call.name.getD [], state.arguments ++ call.givenArguments⟩

def callStates (merged : Option CallState) : List (ℤ × CallState) := merged.toList.map ((0, ·))

theorem getOr_text {d : Fields} {key : String} {text : Option Text} (default : Text)
    (h : d.lookup key.toList = text.map .str) :
    getOr d key.toList (.str default) = .str (text.getD default) := by
  unfold getOr
  rw [h]
  cases text <;> rfl

theorem orElse_str (a : Text) (b : Value) : orElse (.str a) b = if a = [] then b else .str a := by
  cases a <;> rfl

/-- The dictionary of a call. -/
theorem itemCall_eq {d : Fields} {call : FunctionCall}
    (h : (OutputItem.functionCall call).Describes d) (fallbackId : Text) :
    itemCall d fallbackId = [("id".toList, .str (call.givenId fallbackId)),
      (typeKey, .str functionKey), (functionKey, .obj [("name".toList, .str (call.name.getD [])),
        ("arguments".toList, .str call.givenArguments)])] := by
  obtain ⟨-, hcallId, hid, hname, harguments⟩ := h
  have hfirst : orElse (getOr d "call_id".toList .null) (getOr d "id".toList (.str fallbackId)) =
      .str (call.givenId fallbackId) := by
    rw [getOr_text fallbackId hid]
    unfold getOr FunctionCall.givenId
    rw [hcallId]
    cases hcall : call.callId with
    | none => rfl
    | some text => exact (orElse_str text _).trans (by cases text <;> rfl)
  have hlast : orElse (getOr d "arguments".toList (.str [])) (.str "\x7b\x7d".toList) =
      .str call.givenArguments := by
    rw [getOr_text [] harguments, orElse_str, FunctionCall.givenArguments]
    split_ifs <;> rfl
  unfold itemCall
  rw [hfirst, hlast, getOr_text [] hname]

/-- A call without an index is merged with the call at the first place. -/
theorem mergeToolCallDelta_first (merged : Option CallState) (id name arguments : Text) :
    mergeToolCallDelta U (callStates merged) [("id".toList, .str id), (typeKey, .str functionKey),
      (functionKey, .obj [("name".toList, .str name), ("arguments".toList, .str arguments)])] 0 =
      callStates (some ⟨if id = [] then (merged.getD .new).id else .str id, .str functionKey,
        (merged.getD .new).name ++ name, (merged.getD .new).arguments ++ arguments⟩) := by
  have hname : truthyStr U [("name".toList, .str name), ("arguments".toList, .str arguments)]
      "name".toList = name := truthyStr_str rfl
  have harguments : truthyStr U [("name".toList, .str name), ("arguments".toList, .str arguments)]
      "arguments".toList = arguments := truthyStr_str rfl
  have hid : ∀ v, ((some (Value.str id)).filter Value.truthy).getD v =
      if id = [] then v else .str id := by
    intro v
    cases id <;> rfl
  have hstate : ((callStates merged).lookup 0).getD .new = merged.getD .new := by
    cases merged <;> rfl
  have hset : ∀ call, set (callStates merged) (0 : ℤ) call = callStates (some call) := by
    intro call
    cases merged <;> rfl
  rw [← hid, ← hset, ← hstate]
  calc _ = set (callStates merged) (0 : ℤ)
        ⟨((some (Value.str id)).filter Value.truthy).getD
          (((callStates merged).lookup 0).getD .new).id, .str functionKey,
          (((callStates merged).lookup 0).getD .new).name ++ truthyStr U _ "name".toList,
          (((callStates merged).lookup 0).getD .new).arguments ++
            truthyStr U _ "arguments".toList⟩ := rfl
    _ = _ := by rw [hname, harguments]

theorem mergeCalls_callDelta {d : Fields} {call : FunctionCall}
    (h : (OutputItem.functionCall call).Describes d) (merged : Option CallState) :
    mergeCalls U (callStates merged) (callDelta d) = callStates (mergedCall merged call) := by
  change mergeToolCallDelta U (callStates merged) (itemCall d []) 0 = _
  rw [itemCall_eq h, mergeToolCallDelta_first]
  rfl

/-- Pieces that say a text and calls, and no finish reason. -/
structure Adds (U : Unicode) (pieces : List Piece) (text : Text) (calls : List FunctionCall) :
    Prop where
  reason : ∀ piece ∈ pieces, piece.reason = .null
  text : (pieces.flatMap fun piece ↦ deltaText piece.delta) = text
  calls : ∀ merged, pieces.foldl (fun calls piece ↦ mergeCalls U calls piece.delta)
    (callStates merged) = callStates (calls.foldl mergedCall merged)

theorem adds_nil : Adds U [] [] [] := ⟨nofun, rfl, fun _ ↦ rfl⟩

theorem Adds.append {pieces pieces' : List Piece} {text text' : Text}
    {calls calls' : List FunctionCall} (h : Adds U pieces text calls)
    (h' : Adds U pieces' text' calls') :
    Adds U (pieces ++ pieces') (text ++ text') (calls ++ calls') where
  reason piece hpiece := (List.mem_append.mp hpiece).elim (h.reason piece) (h'.reason piece)
  text := by rw [List.flatMap_append, h.text, h'.text]
  calls merged := by rw [List.foldl_append, h.calls, h'.calls, List.foldl_append]

theorem adds_cut {piece : List Piece} {cut : Text}
    (h : piece = [] ∧ cut = [] ∨ piece = [⟨[(contentKey, .str cut)], .null⟩]) :
    Adds U piece cut [] := by
  rcases h with ⟨rfl, rfl⟩ | rfl
  · exact adds_nil
  · refine ⟨?_, ?_, fun _ ↦ rfl⟩
    · intro piece hpiece
      rw [List.mem_singleton.mp hpiece]
    · exact List.append_nil cut

theorem adds_donePiece {item : OutputItem} {d : Fields} (h : item.Describes d) :
    Adds U (item.donePiece d) [] item.call?.toList := by
  cases item with
  | reasoning => exact adds_nil
  | message texts => exact adds_nil
  | functionCall call =>
      refine ⟨?_, rfl, fun merged ↦ mergeCalls_callDelta h merged⟩
      intro piece hpiece
      rw [List.mem_singleton.mp hpiece]

/-- What the events of an item say. -/
theorem streamSays_item {item : OutputItem} {d : Fields} (hdescribes : item.Describes d)
    {text : Text} {events : List Fields} (h : ItemEvents d text events) {later : List Fields}
    {usages : List TokenUsage} {pieces : List Piece} (hlater : StreamSays later pieces usages) :
    ∃ piece, StreamSays (events ++ later) (piece ++ pieces) usages ∧
      Adds U piece text item.call?.toList := by
  induction h with
  | done htype hitem =>
      obtain ⟨chunk, htranslate, husage, hchoices⟩ := translate_done hdescribes htype hitem
      have hone : (item.donePiece d).length ≤ 1 := by cases item <;> exact Nat.le_of_ble_eq_true rfl
      have htold := hlater.cons htranslate hchoices hone
      rw [husage] at htold
      exact ⟨_, htold, adds_donePiece hdescribes⟩
  | @delta event cut text events htype hdelta _ ih =>
      obtain ⟨piece, htold, hadds⟩ := ih
      obtain ⟨chunk, cutPiece, htranslate, husage, hchoices, hone, hcut⟩ :=
        translate_delta htype hdelta
      have hcons := htold.cons htranslate hchoices hone
      rw [husage] at hcons
      refine ⟨cutPiece ++ piece, ?_, (adds_cut hcut).append hadds⟩
      rw [List.append_assoc]
      exact hcons
  | ignored hignored _ ih =>
      obtain ⟨piece, htold, hadds⟩ := ih
      exact ⟨piece, htold.ignored hignored, hadds⟩

/-! ### The whole reply -/

section Reply

variable {response : Fields} {items : List OutputItem} {dicts : List Fields}

theorem hasType_message {item : OutputItem} {d : Fields} (h : item.Describes d) :
    hasType d "message" = match item with | .message _ => true | _ => false := by
  cases item with
  | reasoning => exact hasType_eq h _
  | message texts => exact hasType_eq h.1 _
  | functionCall call => exact hasType_eq h.1 _

theorem anyType_call (h : List.Forall₂ OutputItem.Describes items dicts) :
    anyType "function_call" (dicts.map .obj) =
      some !(items.filterMap OutputItem.call?).isEmpty := by
  induction h with
  | nil => rfl
  | @cons item d items dicts hitem _ ih =>
      rw [List.map_cons, anyType, hitem.hasType_call]
      cases item with
      | functionCall call => rfl
      | reasoning => exact ih
      | message texts => exact ih

theorem outputTexts_eq (h : List.Forall₂ OutputItem.Describes items dicts) :
    ∃ texts, outputTexts (dicts.map .obj) = some texts ∧
      texts.flatten = items.flatMap OutputItem.text := by
  induction h with
  | nil => exact ⟨[], rfl, rfl⟩
  | @cons item d items dicts hitem _ ih =>
      obtain ⟨later, hlater, hflatten⟩ := ih
      rw [List.map_cons, outputTexts, hasType_message hitem, hlater, List.flatMap_cons, ← hflatten]
      cases item with
      | reasoning => exact ⟨later, rfl, rfl⟩
      | functionCall call => exact ⟨later, rfl, rfl⟩
      | message texts =>
          obtain ⟨-, blocks, hblocks, htexts⟩ := hitem
          refine ⟨texts ++ later, ?_, List.flatten_append⟩
          rw [getOr_of_lookup hblocks]
          change (do let texts ← blockTexts blocks
                     let later ← some later
                     pure (texts ++ later)) = _
          rw [htexts]
          rfl

theorem toolCalls_eq (h : List.Forall₂ OutputItem.Describes items dicts) (i : ℕ) :
    ∃ toolCalls, responsesOutputToToolCalls i (dicts.map .obj) = some toolCalls ∧
      List.Forall₂ (fun call v ↦ ∃ i : ℕ, callView v =
        ⟨.str (call.givenId ("call_".toList ++ (toString i).toList)), .str (call.name.getD []),
          .str call.givenArguments⟩) (items.filterMap OutputItem.call?) toolCalls := by
  induction h generalizing i with
  | nil => exact ⟨[], rfl, .nil⟩
  | @cons item d items dicts hitem _ ih =>
      obtain ⟨toolCalls, htoolCalls, hviews⟩ := ih (i + 1)
      rw [List.map_cons, responsesOutputToToolCalls, hitem.hasType_call, htoolCalls]
      cases item with
      | reasoning => exact ⟨toolCalls, rfl, hviews⟩
      | message texts => exact ⟨toolCalls, rfl, hviews⟩
      | functionCall call =>
          refine ⟨_, rfl, .cons ⟨i, ?_⟩ hviews⟩
          rw [itemCall_eq hitem]
          rfl

theorem IsReply.finishReason (h : IsReply response items dicts) (hasToolCalls : Bool) :
    ∃ reason, finishReasonFromResponse response hasToolCalls = some reason := by
  obtain ⟨details, reason, hdetails, hreason⟩ := h.details
  unfold finishReasonFromResponse
  split_ifs
  · exact ⟨_, rfl⟩
  · rw [hdetails, Option.bind_eq_bind, Option.bind_some, hreason]
    exact ⟨_, rfl⟩
  · exact ⟨_, rfl⟩

/-! ### The whole stream -/

theorem translate_terminal (h : IsReply response items dicts) {event : Fields} {type : String}
    (htype : type ∈ ["response.completed", "response.incomplete"])
    (hevent : event.lookup typeKey = some (.str type.toList))
    (hresponse : event.lookup "response".toList = some (.obj response)) {reason : Text}
    (hreason : finishReasonFromResponse response (!(items.filterMap OutputItem.call?).isEmpty) =
      some reason) {usageData : Fields} {usage : TokenUsage}
    (hdata : dictAt response "usage" = some usageData)
    (husage : usageFromResponse usageData = some usage) :
    translateStreamChunk event = some (⟨textAt response "id",
      [Piece.choice ⟨[], .str reason⟩], textAt response "model", true⟩, some usage) := by
  have hitems : itemsOf (getOr response outputKey (.arr [])) = some (dicts.map .obj) := by
    rw [getOr_of_lookup h.output]
    rfl
  have hrest : (do
      let response ← dictAt event "response"
      let output ← itemsOf (getOr response outputKey (.arr []))
      let hasToolCalls ← anyType "function_call" output
      let finishReason ← finishReasonFromResponse response hasToolCalls
      let usageData ← dictAt response "usage"
      let usage ← usageFromResponse usageData
      pure (some ((⟨textAt response "id", [chunkChoice [] (some (.str finishReason))],
        textAt response "model", true⟩ : StreamChunk), some usage))) =
      some (some (⟨textAt response "id", [chunkChoice [] (some (.str reason))],
        textAt response "model", true⟩, some usage)) := by
    rw [dictAt_of_obj hresponse]
    simp only [Option.bind_eq_bind, Option.bind_some, hitems, anyType_call h.describes, hreason,
      hdata, husage]
    rfl
  unfold translateStreamChunk translateResponsesStreamEvent
  rw [hrest]
  rcases List.mem_cons.mp htype with rfl | htype
  · rw [isResponsesEvent_eq hevent, hasType_eq hevent, hasType_eq hevent, hasType_eq hevent]
    rfl
  · obtain rfl := List.mem_singleton.mp htype
    rw [isResponsesEvent_eq hevent, hasType_eq hevent, hasType_eq hevent, hasType_eq hevent,
      hasType_eq hevent]
    rfl

/-- What the events of a reply say, once it is known what the last one says. -/
theorem streamSays_reply (last : Piece) {chunk : Translated} {usage : TokenUsage}
    (hlast : chunk.1.choices = [last].map Piece.choice) (husage : chunk.2 = some usage)
    (hterminal : ∀ event type, type ∈ ["response.completed", "response.incomplete"] →
      event.lookup typeKey = some (.str type.toList) →
      event.lookup "response".toList = some (.obj response) →
      translateStreamChunk event = some chunk)
    {events : List Fields} (h : ReplyEvents response items dicts events)
    (hdescribes : List.Forall₂ OutputItem.Describes items dicts) :
    ∃ pieces, StreamSays events (pieces ++ [last]) [usage] ∧
      Adds U pieces (items.flatMap OutputItem.text) (items.filterMap OutputItem.call?) := by
  induction h with
  | @terminal event type htype hevent hresponse =>
      have htold := streamSays_nil.cons (hterminal event type htype hevent hresponse) hlast le_rfl
      rw [husage] at htold
      exact ⟨[], htold, adds_nil⟩
  | @item item d items dicts events later hitem _ ih =>
      obtain ⟨hd, hdicts⟩ := List.forall₂_cons.mp hdescribes
      obtain ⟨pieces, htold, hadds⟩ := ih hdicts
      obtain ⟨piece, htold', hadds'⟩ := streamSays_item (U := U) hd hitem htold
      have hcalls : (item :: items).filterMap OutputItem.call? =
          item.call?.toList ++ items.filterMap OutputItem.call? := by
        cases item <;> rfl
      refine ⟨piece ++ pieces, ?_, ?_⟩
      · rw [List.append_assoc]
        exact htold'
      · rw [List.flatMap_cons, hcalls]
        exact hadds'.append hadds
  | ignored hignored _ ih =>
      obtain ⟨pieces, htold, hadds⟩ := ih hdescribes
      exact ⟨pieces, htold.ignored hignored, hadds⟩

/-- The calls of a stream are those of the reply when there is at most one, with an id of its
own. -/
theorem views_eq_iff {calls : List FunctionCall} {toolCalls : List Value}
    (h : List.Forall₂ (fun call v ↦ ∃ i : ℕ, callView v =
        ⟨.str (call.givenId ("call_".toList ++ (toString i).toList)), .str (call.name.getD []),
          .str call.givenArguments⟩) calls toolCalls) :
    (calls.foldl mergedCall none).toList.map CallState.view = toolCalls.map callView ↔
      calls.length ≤ 1 ∧ ∀ call ∈ calls, call.callId.getD [] ≠ [] ∨ call.id.isSome := by
  cases h with
  | nil => exact ⟨fun _ ↦ ⟨Nat.zero_le 1, nofun⟩, fun _ ↦ rfl⟩
  | @cons call v calls toolCalls hcall hrest =>
      cases hrest with
      | nil =>
          obtain ⟨i, hview⟩ := hcall
          have hstreamed : CallState.view ⟨if call.givenId [] = [] then .str []
              else .str (call.givenId []), .str functionKey, call.name.getD [],
                call.givenArguments⟩ =
              ⟨.str (call.givenId []), .str (call.name.getD []), .str call.givenArguments⟩ := by
            unfold CallState.view
            split_ifs with hempty
            · rw [hempty]
            · rfl
          have hids : call.givenId [] = call.givenId ("call_".toList ++ (toString i).toList) ↔
              call.callId.getD [] ≠ [] ∨ call.id.isSome := by
            unfold FunctionCall.givenId
            cases call.id <;> by_cases hcall : call.callId.getD [] = [] <;> simp [hcall]
          change [CallState.view ⟨if call.givenId [] = [] then .str []
              else .str (call.givenId []), .str functionKey, call.name.getD [],
                call.givenArguments⟩] = [callView v] ↔ _
          rw [hstreamed, hview]
          constructor
          · intro heq
            refine ⟨le_rfl, fun c hc ↦ ?_⟩
            rw [List.mem_singleton.mp hc]
            apply hids.mp
            injection heq with heq _
            injection heq with hid _ _
            injection hid
          · intro hone
            rw [hids.mpr (hone.2 call List.mem_cons_self)]
      | @cons call' v' calls toolCalls hcall' hrest =>
          have hlength : ∀ merged : Option CallState,
              (merged.toList.map CallState.view).length ≤ 1 := by
            intro merged
            cases merged <;> simp
          constructor
          · intro heq
            have hle := hlength ((call :: call' :: calls).foldl mergedCall none)
            rw [heq] at hle
            simp only [List.map_cons, List.length_cons] at hle
            omega
          · rintro ⟨hle, -⟩
            simp only [List.length_cons] at hle
            omega

theorem sortedByKey_callStates (merged : Option CallState) :
    (sortedByKey (callStates merged)).map (fun call ↦ CallState.view call.2) =
      merged.toList.map CallState.view := by
  cases merged <;> rfl

theorem choiceView_replyChoice (text : Text) (toolCalls : List Value) (reason : Value) :
    choiceView (replyChoice text toolCalls reason) =
      ⟨text, toolCalls.map callView, reason⟩ := by
  cases toolCalls with
  | nil => rfl
  | cons v toolCalls => cases text <;> rfl

/-- What is put together from chunks that say a text, calls and in the end a finish reason. -/
theorem choices_of_adds {chunks : List StreamChunk} {pieces : List Piece} {text : Text}
    {calls : List FunctionCall} (hadds : Adds U pieces text calls) (reason : Text)
    (hsingle : Single chunks) (htold : Says chunks (pieces ++ [⟨[], .str reason⟩]))
    (model : Text) :
    (responseFromStreamChunks U chunks model).choices.map choiceView =
      [⟨text, (calls.foldl mergedCall none).toList.map CallState.view, .str reason⟩] := by
  have hcontent : (mergePieces U .new pieces).content = text :=
    (content_mergePieces .new pieces).trans hadds.text
  have hcalls : (mergePieces U .new pieces).toolCalls =
      callStates (calls.foldl mergedCall none) :=
    (toolCalls_mergePieces .new pieces).trans (hadds.calls none)
  rw [choices_of_pieces hsingle htold, List.map_singleton, choiceView_toChoice, mergePieces_append,
    ← sortedByKey_callStates, ← hcalls, ← hcontent]
  rfl

/-- The stream of a reply agrees with the reply exactly when there is at most one call, and it
has an id of its own. -/
theorem agrees_iff {model : Text} (hreply : IsReply response items dicts) {events : List Fields}
    (hevents : ReplyEvents response items dicts events) :
    Agrees U model response events ↔ OneCall items := by
  obtain ⟨reason, hreason⟩ := hreply.finishReason (!(items.filterMap OutputItem.call?).isEmpty)
  obtain ⟨usageData, usage, hdata, husage⟩ := hreply.usage
  obtain ⟨texts, htexts, hflatten⟩ := outputTexts_eq hreply.describes
  obtain ⟨toolCalls, htoolCalls, hviews⟩ := toolCalls_eq hreply.describes 0
  obtain ⟨pieces, ⟨chunks, hchunks, hsingle, htold, husages⟩, hadds⟩ :=
    streamSays_reply (U := U) ⟨[], .str reason⟩ rfl rfl
      (fun event type htype hevent hresponse ↦
        translate_terminal hreply htype hevent hresponse hreason hdata husage)
      hevents hreply.describes
  have hempty : toolCalls.isEmpty = (items.filterMap OutputItem.call?).isEmpty := by
    rw [Bool.eq_iff_iff, List.isEmpty_iff_length_eq_zero, List.isEmpty_iff_length_eq_zero,
      hviews.length_eq]
  have hitems : itemsOf (getOr response outputKey (.arr [])) = some (dicts.map .obj) := by
    rw [getOr_of_lookup hreply.output]
    rfl
  have hwhole : translateResponsesReply response = some (⟨textAt response "id",
      [replyChoice texts.flatten toolCalls (.str reason)], textAt response "model"⟩, usage) := by
    unfold translateResponsesReply
    simp only [Option.bind_eq_bind, Option.bind_some, hitems, htexts, htoolCalls, hempty, hreason,
      hdata, husage]
    rfl
  have hstreamed := choices_of_adds hadds reason hsingle htold model
  have hviewed : [replyChoice texts.flatten toolCalls (.str reason)].map choiceView =
      [⟨items.flatMap OutputItem.text, toolCalls.map callView, .str reason⟩] := by
    rw [List.map_singleton, choiceView_replyChoice, hflatten]
  refine Iff.trans ?_ (views_eq_iff hviews)
  constructor
  · rintro ⟨chunks', reply, usage', hchunks', hreply', hagree, -⟩
    obtain rfl := Option.some.inj (hchunks.symm.trans hchunks')
    obtain ⟨rfl, -⟩ := Prod.mk.inj (Option.some.inj (hwhole.symm.trans hreply'))
    rw [hstreamed, hviewed] at hagree
    injection hagree with hagree _
    injection hagree
  · intro hsame
    refine ⟨chunks, _, usage, hchunks, hwhole, ?_, finalUsage_singleton husages⟩
    rw [hstreamed, hviewed, hsame]

end Reply

/-! ### A reply with two calls -/

def typed (type : String) (rest : Fields) : Fields := (typeKey, .str type.toList) :: rest

def callItem (callId : String) : Fields :=
  typed "function_call" [("call_id".toList, .str callId.toList),
    ("name".toList, .str "weather".toList), ("arguments".toList, .str "[]".toList)]

def messageItem (text : String) : Fields :=
  typed "message" [(contentKey, .arr [.obj (typed "output_text"
    [("text".toList, .str text.toList)])])]

def completedReply (dicts : List Fields) : Fields :=
  [("status".toList, .str "completed".toList), (outputKey, .arr (dicts.map .obj)),
    ("usage".toList, .obj [("input_tokens".toList, .number "3".toList),
      ("output_tokens".toList, .number "5".toList)])]

def deltaEvent (cut : String) : Fields :=
  typed "response.output_text.delta" [(deltaKey, .str cut.toList)]

def doneEvent (d : Fields) : Fields := typed "response.output_item.done" [("item".toList, .obj d)]

def completedEvent (dicts : List Fields) : Fields :=
  typed "response.completed" [("response".toList, .obj (completedReply dicts))]

theorem isReply_completedReply {items : List OutputItem} {dicts : List Fields}
    (h : List.Forall₂ OutputItem.Describes items dicts) :
    IsReply (completedReply dicts) items dicts :=
  ⟨rfl, h, ⟨"completed", List.mem_cons_self, rfl⟩, ⟨[], [], rfl, rfl⟩, ⟨_, _, rfl, rfl⟩⟩

theorem itemEvents_deltaEvent {d : Fields} {text : Text} {events : List Fields} (cut : String)
    (h : ItemEvents d text events) :
    ItemEvents d (cut.toList ++ text) (deltaEvent cut :: events) := .delta rfl rfl h

theorem replyEvents_doneEvent {response d : Fields} {item : OutputItem} {items : List OutputItem}
    {dicts later : List Fields} (htext : item.text = [])
    (h : ReplyEvents response items dicts later) :
    ReplyEvents response (item :: items) (d :: dicts) (doneEvent d :: later) := by
  have hitem : ItemEvents d item.text [doneEvent d] := htext ▸ .done rfl rfl
  exact .item hitem h

theorem replyEvents_completedEvent (dicts : List Fields) :
    ReplyEvents (completedReply dicts) [] [] [completedEvent dicts] :=
  .terminal List.mem_cons_self rfl rfl

/-- A text and one call are told as they are. -/
theorem agrees_message_call : Agrees asciiUnicode [] (completedReply [messageItem "hi", callItem "a"])
    [deltaEvent "h", deltaEvent "i", doneEvent (messageItem "hi"), doneEvent (callItem "a"),
      completedEvent [messageItem "hi", callItem "a"]] := by
  have hmessage : (OutputItem.message ["hi".toList]).Describes (messageItem "hi") :=
    ⟨rfl, _, rfl, rfl⟩
  have hcall : (OutputItem.functionCall ⟨some "a".toList, none, some "weather".toList,
      some "[]".toList⟩).Describes (callItem "a") := ⟨rfl, rfl, rfl, rfl, rfl⟩
  have htext : ItemEvents (messageItem "hi") (OutputItem.message ["hi".toList]).text
      [deltaEvent "h", deltaEvent "i", doneEvent (messageItem "hi")] :=
    itemEvents_deltaEvent "h" (itemEvents_deltaEvent "i" (.done rfl rfl))
  refine (agrees_iff (isReply_completedReply (.cons hmessage (.cons hcall .nil)))
    (.item htext (replyEvents_doneEvent rfl (replyEvents_completedEvent _)))).mpr ?_
  refine ⟨le_rfl, fun call hmem ↦ .inl ?_⟩
  rw [List.mem_singleton.mp hmem]
  exact List.cons_ne_nil _ _

/-- Two calls are put together to one. -/
theorem merged_twoCalls : ∃ items, IsReply (completedReply [callItem "a", callItem "b"]) items
    [callItem "a", callItem "b"] ∧
    ReplyEvents (completedReply [callItem "a", callItem "b"]) items [callItem "a", callItem "b"]
      [doneEvent (callItem "a"), doneEvent (callItem "b"),
        completedEvent [callItem "a", callItem "b"]] ∧
    ¬Agrees asciiUnicode [] (completedReply [callItem "a", callItem "b"])
      [doneEvent (callItem "a"), doneEvent (callItem "b"),
        completedEvent [callItem "a", callItem "b"]] := by
  have hcall : ∀ callId : String, (OutputItem.functionCall ⟨some callId.toList, none,
      some "weather".toList, some "[]".toList⟩).Describes (callItem callId) :=
    fun _ ↦ ⟨rfl, rfl, rfl, rfl, rfl⟩
  refine ⟨_, isReply_completedReply (.cons (hcall "a") (.cons (hcall "b") .nil)),
    replyEvents_doneEvent rfl (replyEvents_doneEvent rfl (replyEvents_completedEvent _)), ?_⟩
  rintro ⟨chunks, reply, usage, hchunks, hreply, hagree, -⟩
  obtain rfl := Option.some.inj hchunks
  obtain ⟨rfl, -⟩ := Prod.mk.inj (Option.some.inj hreply)
  have hlengths : [1] = [2] := 
    congrArg (List.map fun view : ChoiceView ↦ view.calls.length) hagree
  exact absurd hlengths (by decide)

end Adapters
