import AxonGateway.Screening.Coverage

/-!
# A response rebuilt from its own chunks

A buffered response is shown as chunks of its first choice, and chunks are put together to a
response before they are screened.  Together the two keep the content, the calls and the finish
reason of the first choice; the other choices are not shown at all.
-/

namespace Screening

open PyValue

/-- A call of a tool, with the fields that a provider gives it. -/
structure ToolCall where
  id : Text
  type : Text
  name : Text
  arguments : Text
  type_ne : type ≠ []

/-- The dictionary of a call, whatever the order of its items. -/
def ToolCall.IsValue (call : ToolCall) (v : Value) : Prop :=
  ∃ d f, v = .obj d ∧ d.lookup "id".toList = some (.str call.id) ∧
    d.lookup "type".toList = some (.str call.type) ∧ d.lookup functionKey = some (.obj f) ∧
    (∀ key, key ≠ "id".toList → key ≠ "type".toList → key ≠ functionKey → d.lookup key = none) ∧
    f.lookup "name".toList = some (.str call.name) ∧
    f.lookup "arguments".toList = some (.str call.arguments) ∧
    ∀ key, key ≠ "name".toList → key ≠ "arguments".toList → f.lookup key = none

/-- What a choice shows: a content, where null counts as empty, the calls of tools and a finish
reason. -/
structure Choice.Shows (choice : Choice) (content : Text) (calls : List ToolCall) (reason : Value) :
    Prop where
  message : ∃ message, choice.lookup messageKey = some (.obj message) ∧
    (message.lookup contentKey = some (.str content) ∨
      content = [] ∧ (message.lookup contentKey).getD .null = .null) ∧
    ((∃ items, message.lookup toolCallsKey = some (.arr items) ∧
        List.Forall₂ ToolCall.IsValue calls items) ∨
      calls = [] ∧ (message.lookup toolCallsKey).getD .null = .null)
  reason : (choice.lookup finishReasonKey).getD .null = reason

/-- The last chunk is marked final and no other is. -/
def EndsFinal (chunks : List StreamChunk) : Prop :=
  ∃ before last, chunks = before ++ [last] ∧ last.isFinal = true ∧
    ∀ chunk ∈ before, chunk.isFinal = false

/-- The choices of a response are those of the response rebuilt from its chunks. -/
def Rebuilds (U : Unicode) (response : ChatCompletionResponse) (model : Text) : Prop :=
  ∃ chunks, simulateStreaming U response = some chunks ∧ EndsFinal chunks ∧
    ∀ (i : ℕ) (choice : Choice) content calls reason, response.choices[i]? = some choice →
      choice.Shows content calls reason →
        ∃ choice' : Choice, (responseFromStreamChunks U chunks model).choices[i]? = some choice' ∧
          choice'.Shows content calls reason

/-- The first choice of a response is the only one of the response rebuilt from its chunks. -/
def RebuildsFirst (U : Unicode) (response : ChatCompletionResponse) (model : Text) : Prop :=
  ∃ chunks, simulateStreaming U response = some chunks ∧ EndsFinal chunks ∧
    ∀ (choice : Choice) content calls reason, response.choices.head? = some choice →
      choice.Shows content calls reason →
        ∃ choice' : Choice, (responseFromStreamChunks U chunks model).choices = [choice'] ∧
          choice'.Shows content calls reason

/-! ### The chunks -/

theorem endsFinal_chunksOf (response : ChatCompletionResponse) {choices : List Choice}
    (h : choices ≠ []) : EndsFinal (chunksOf response choices) := by
  induction choices with
  | nil => exact absurd rfl h
  | cons choice choices ih =>
      cases choices with
      | nil => exact ⟨[], _, rfl, rfl, by simp⟩
      | cons choice' choices =>
          obtain ⟨before, last, heq, hlast, hbefore⟩ := ih (by simp)
          refine ⟨⟨response.id, [choice], response.model, false⟩ :: before, last, ?_, hlast, ?_⟩
          · rw [List.cons_append, ← heq]
            rfl
          · intro chunk hchunk
            rcases List.mem_cons.mp hchunk with rfl | hchunk
            · rfl
            · exact hbefore chunk hchunk

section Rebuild

variable {U : Unicode}

/-- Each chunk of a shown response adds its one choice. -/
theorem foldl_chunksOf (response : ChatCompletionResponse) (choices : List Choice)
    (states : List (ℤ × ChoiceState)) :
    (chunksOf response choices).foldl (fun states chunk ↦
      chunk.choices.zipIdx.foldl (fun states (choice, position) ↦
        addChoice U states choice position) states) states =
      choices.foldl (fun states choice ↦ addChoice U states choice 0) states := by
  induction choices generalizing states with
  | nil => rfl
  | cons choice choices ih =>
      cases choices with
      | nil => rfl
      | cons choice' choices => exact ih (addChoice U states choice 0)

/-- The state of a choice after a chunk with this delta and finish reason. -/
def ChoiceState.afterChunk (U : Unicode) (state : ChoiceState) (delta : Fields)
    (reason : Option Value) : ChoiceState :=
  { state.addDelta U delta with
    finishReason := match reason with
      | none => state.finishReason
      | some .null => state.finishReason
      | some reason => reason }

/-- Every chunk of a shown response is about choice 0. -/
theorem addChoice_chunkChoice {states : List (ℤ × ChoiceState)} {state : ChoiceState}
    (h : states = [] ∧ state = .new ∨ states = [(0, state)]) (delta : Fields)
    (reason : Option Value) :
    addChoice U states (chunkChoice delta reason) 0 = [(0, state.afterChunk U delta reason)] := by
  have hindex : indexOr (chunkChoice delta reason) 0 = 0 := rfl
  have hdelta : (chunkChoice delta reason).lookup deltaKey = some (.obj delta) := rfl
  have hreason : (chunkChoice delta reason).lookup finishReasonKey = reason := by
    cases reason <;> rfl
  have hstate : ((states.lookup 0).getD ChoiceState.new) = state := by
    rcases h with ⟨rfl, rfl⟩ | rfl <;> rfl
  have hset : ∀ state', set states (0 : ℤ) state' = [(0, state')] := by
    intro state'
    rcases h with ⟨rfl, -⟩ | rfl <;> rfl
  unfold addChoice
  rw [hindex, hdelta, hreason]
  dsimp only
  rw [hstate, hset]
  rcases reason with _ | (_ | _ | _ | _ | _ | _ | _) <;> rfl

/-- The delta that shows these calls. -/
def callsField (toolCalls : Option Value) : Fields :=
  toolCalls.toList.map fun v ↦ (toolCallsKey, v)

theorem addDelta_content (state : ChoiceState) (token : Text) :
    state.addDelta U [(contentKey, .str token)] = { state with content := state.content ++ token } :=
  rfl

/-- The chunks of a text put together: its tokens in order, and what comes with the last one. -/
theorem foldl_tokenChoices {toolCalls : Option Value} {reason : Value} {tokens : List Text}
    (hne : tokens ≠ []) {states : List (ℤ × ChoiceState)} {state : ChoiceState}
    (h : states = [] ∧ state = .new ∨ states = [(0, state)]) :
    (tokenChoices toolCalls reason (tokens.map .str)).foldl
      (fun states choice ↦ addChoice U states choice 0) states =
      [(0, { state with content := state.content ++ tokens.flatten }.afterChunk U
        (callsField toolCalls) (some reason))] := by
  induction tokens generalizing states state with
  | nil => exact absurd rfl hne
  | cons token tokens ih =>
      cases tokens with
      | nil =>
          have hone : tokenChoices toolCalls reason ([token].map .str) =
              [chunkChoice ((contentKey, .str token) :: callsField toolCalls) (some reason)] := rfl
          rw [hone, List.foldl_cons, List.foldl_nil, addChoice_chunkChoice h, List.flatten_singleton]
          cases toolCalls <;> rfl
      | cons token' tokens =>
          have hcons : tokenChoices toolCalls reason ((token :: token' :: tokens).map .str) =
              chunkChoice [(contentKey, .str token)] none ::
                tokenChoices toolCalls reason ((token' :: tokens).map .str) := rfl
          rw [hcons, List.foldl_cons, addChoice_chunkChoice h, ih (by simp) (.inr rfl)]
          simp [ChoiceState.afterChunk, addDelta_content]

/-! ### The calls -/

/-- The state of a call once its delta has come. -/
def ToolCall.state (call : ToolCall) : CallState :=
  ⟨.str call.id, .str call.type, call.name, call.arguments⟩

theorem truthyStr_str {d : Fields} {key text : Text} (h : d.lookup key = some (.str text)) :
    truthyStr U d key = text := by
  unfold truthyStr
  rw [h]
  cases text <;> rfl

/-- A call that comes whole is a new one under its position. -/
theorem mergeToolCallDelta_isValue {calls : List (ℤ × CallState)} {call : ToolCall} {d : Fields}
    {position : ℕ} (h : call.IsValue (.obj d)) (hnew : ∀ c ∈ calls, c.1 < position) :
    mergeToolCallDelta U calls d position = calls ++ [((position : ℤ), call.state)] := by
  obtain ⟨d', f, hd, hid, htype, hfunction, hrest, hname, harguments, -⟩ := h
  obtain rfl : d = d' := by injection hd
  have hindex : indexOr d position = position := by
    rw [indexOr, hrest indexKey (by decide) (by decide) (by decide)]
    rfl
  have habsent : calls.lookup (position : ℤ) = none := by
    apply List.lookup_eq_none_iff.mpr
    intro c hc
    exact bne_iff_ne.mpr (hnew c hc).ne'
  have hempty : ((some (Value.str call.id)).filter Value.truthy).getD (.str []) =
      .str call.id := by
    cases call.id <;> rfl
  have htyped : ((some (Value.str call.type)).filter Value.truthy).getD (.str functionKey) =
      .str call.type := by
    obtain ⟨c, cs, hcons⟩ := List.exists_cons_of_ne_nil call.type_ne
    rw [hcons]
    rfl
  unfold mergeToolCallDelta
  rw [hindex, hid, htype, hfunction]
  dsimp only
  rw [habsent, set_of_lookup_eq_none habsent, truthyStr_str hname, truthyStr_str harguments]
  simp only [Option.getD_none, CallState.new, hempty, htyped, List.nil_append]
  rfl

/-- Calls that come whole are kept in order. -/
theorem foldl_mergeToolCallDelta {calls : List ToolCall} {items : List Value}
    (h : List.Forall₂ ToolCall.IsValue calls items) (n : ℕ) (acc : List (ℤ × CallState))
    (hnew : ∀ c ∈ acc, c.1 < n) :
    (items.zipIdx n).foldl (fun calls (raw, position) ↦ match raw with
        | .obj rawCall => mergeToolCallDelta U calls rawCall position
        | _ => calls) acc =
      acc ++ (calls.zipIdx n).map fun p ↦ ((p.2 : ℤ), p.1.state) := by
  induction h generalizing n acc with
  | nil => simp
  | @cons call v calls items hcall _ ih =>
      obtain ⟨d, f, rfl, -⟩ := id hcall
      rw [List.zipIdx_cons, List.foldl_cons, List.zipIdx_cons, List.map_cons]
      dsimp only
      rw [mergeToolCallDelta_isValue hcall hnew, ih, List.append_assoc, List.singleton_append]
      intro c hc
      rcases List.mem_append.mp hc with hc | hc
      · have hlt := hnew c hc
        omega
      · obtain rfl := List.mem_singleton.mp hc
        exact Int.ofNat_lt.mpr (Nat.lt_succ_self n)

theorem sortedByKey_zipIdx (calls : List ToolCall) :
    sortedByKey ((calls.zipIdx 0).map fun p ↦ ((p.2 : ℤ), p.1.state)) =
      (calls.zipIdx 0).map fun p ↦ ((p.2 : ℤ), p.1.state) := by
  apply List.Pairwise.insertionSort_eq
  rw [List.pairwise_map]
  have hpositions : ((calls.zipIdx 0).map Prod.snd).Pairwise (· < ·) := by
    rw [List.zipIdx_map_snd]
    exact List.pairwise_lt_range'
  exact (List.pairwise_map.mp hpositions).imp fun h ↦ Int.ofNat_le.mpr h.le

theorem lookup_cons_of_ne {key key' : Text} (h : key ≠ key') (v : Value) (d : Fields) :
    List.lookup key ((key', v) :: d) = d.lookup key := by
  rw [List.lookup_cons, beq_false_of_ne h]

theorem ToolCall.isValue_state (call : ToolCall) : call.IsValue call.state.toValue := by
  refine ⟨_, _, rfl, rfl, rfl, rfl, fun key hid htype hfunction ↦ ?_, rfl, rfl,
    fun key hname harguments ↦ ?_⟩
  · rw [lookup_cons_of_ne hid, lookup_cons_of_ne htype, lookup_cons_of_ne hfunction]
    rfl
  · rw [lookup_cons_of_ne hname, lookup_cons_of_ne harguments]
    rfl

/-- What the calls of a response are when it is shown. -/
def ShownCalls (calls : List ToolCall) (toolCalls : Option Value) : Prop :=
  toolCalls = none ∧ calls = [] ∨
    ∃ items, toolCalls = some (.arr items) ∧ List.Forall₂ ToolCall.IsValue calls items

/-- The choice put together from a content, calls and a finish reason shows them. -/
theorem shows_afterChunk {calls : List ToolCall} {toolCalls : Option Value}
    (h : ShownCalls calls toolCalls) (content : Text) (reason : Value) :
    (({ ChoiceState.new with content := content }.afterChunk U (callsField toolCalls)
      (some reason)).toChoice 0).Shows content calls reason := by
  have hreason : (match some reason with
      | none => Value.null
      | some .null => .null
      | some reason => reason) = reason := by
    cases reason <;> rfl
  rcases h with ⟨rfl, rfl⟩ | ⟨items, rfl, hitems⟩
  · exact ⟨⟨_, rfl, .inl rfl, .inr ⟨rfl, rfl⟩⟩, hreason⟩
  · have hcalls := foldl_mergeToolCallDelta (U := U) hitems 0 [] (by simp)
    have hstate : ({ ChoiceState.new with content := content }.afterChunk U
        (callsField (some (.arr items))) (some reason)).toolCalls =
        (calls.zipIdx 0).map fun p ↦ ((p.2 : ℤ), p.1.state) := hcalls
    refine ⟨⟨_, rfl, .inl rfl, ?_⟩, hreason⟩
    rw [hstate, sortedByKey_zipIdx]
    cases calls with
    | nil => exact .inr ⟨rfl, rfl⟩
    | cons call calls =>
        refine .inl ⟨_, rfl, ?_⟩
        have hvalues : ((call :: calls).zipIdx.map fun p ↦ ((p.2 : ℤ), p.1.state)).map
            (fun c ↦ c.2.toValue) = (call :: calls).map fun c ↦ c.state.toValue := by
          have hfst := congrArg (List.map fun c : ToolCall ↦ c.state.toValue)
            (List.zipIdx_map_fst 0 (call :: calls))
          rw [List.map_map] at hfst ⊢
          exact hfst
        rw [hvalues, List.forall₂_map_right_iff]
        exact List.forall₂_same.mpr fun c _ ↦ c.isValue_state

/-- What is read of a choice when it is shown. -/
theorem shown_of_shows {choice : Choice} {content : Text} {calls : List ToolCall} {reason : Value}
    (h : choice.Shows content calls reason) : ∃ message, messageOf choice = some message ∧
      ((message.lookup contentKey).filter Value.truthy).getD (.str []) = .str content ∧
      ShownCalls calls ((message.lookup toolCallsKey).filter Value.truthy) := by
  obtain ⟨message, hmessage, hcontent, hcalls⟩ := h.message
  refine ⟨message, by rw [messageOf, hmessage], ?_, ?_⟩
  · rcases hcontent with hcontent | ⟨rfl, hnull⟩
    · rw [hcontent]
      cases content <;> rfl
    · cases hlookup : message.lookup contentKey with
      | none => rfl
      | some v =>
          rw [hlookup, Option.getD_some] at hnull
          rw [hnull]
          rfl
  · rcases hcalls with ⟨items, hitems, hforall⟩ | ⟨rfl, hnull⟩
    · rw [hitems]
      cases hforall with
      | nil => exact .inl ⟨rfl, rfl⟩
      | cons hcall hrest => exact .inr ⟨_, rfl, .cons hcall hrest⟩
    · cases hlookup : message.lookup toolCallsKey with
      | none => exact .inl ⟨rfl, rfl⟩
      | some v =>
          rw [hlookup, Option.getD_some] at hnull
          rw [hnull]
          exact .inl ⟨rfl, rfl⟩

/-- The chunks of a shown choice, and what they are put together to. -/
theorem simulateStreaming_of_shown (response : ChatCompletionResponse) {message : Fields}
    {content : Text} (hmessage : messageOf (response.choices.headD []) = some message)
    (hcontent : ((message.lookup contentKey).filter Value.truthy).getD (.str []) = .str content) :
    ∃ choices, simulateStreaming U response = some (chunksOf response choices) ∧ choices ≠ [] ∧
      choices.foldl (fun states choice ↦ addChoice U states choice 0) [] =
        [(0, { ChoiceState.new with content := content }.afterChunk U
          (callsField ((message.lookup toolCallsKey).filter Value.truthy))
          (some (((response.choices.headD []).lookup finishReasonKey).getD .null)))] := by
  generalize hcalls : (message.lookup toolCallsKey).filter Value.truthy = toolCalls
  generalize hreason : ((response.choices.headD []).lookup finishReasonKey).getD .null = reason
  cases content with
  | nil =>
      cases toolCalls with
      | none =>
          refine ⟨[chunkChoice [(contentKey, .str [])] (some reason)], ?_, by simp, ?_⟩
          · simp only [simulateStreaming, hmessage, hcontent, hcalls, hreason, Option.bind_eq_bind,
              Option.bind_some]
            rfl
          · rw [List.foldl_cons, List.foldl_nil, addChoice_chunkChoice (.inl ⟨rfl, rfl⟩)]
            rfl
      | some v =>
          refine ⟨[chunkChoice [(toolCallsKey, v)] (some reason)], ?_, by simp, ?_⟩
          · simp only [simulateStreaming, hmessage, hcontent, hcalls, hreason, Option.bind_eq_bind,
              Option.bind_some]
            rfl
          · rw [List.foldl_cons, List.foldl_nil, addChoice_chunkChoice (.inl ⟨rfl, rfl⟩)]
            rfl
  | cons c cs =>
      set tokens := splitPreservingAll U.isSpace (c :: cs) with htokens
      have hflatten : tokens.flatten = c :: cs := List.flatten_splitBy _ _
      have hne : tokens ≠ [] := by
        intro hnil
        rw [hnil] at hflatten
        cases hflatten
      refine ⟨tokenChoices toolCalls reason (tokens.map .str), ?_, ?_, ?_⟩
      · simp only [simulateStreaming, hmessage, hcontent, hcalls, hreason, Option.bind_eq_bind,
          Option.bind_some]
        rfl
      · obtain ⟨token, rest, htokens⟩ := List.exists_cons_of_ne_nil hne
        rw [htokens]
        cases rest <;> simp [tokenChoices]
      · rw [foldl_tokenChoices hne (.inl ⟨rfl, rfl⟩), hflatten]
        rfl

/-- The first choice of a response is kept by its chunks, and the last of them is final. -/
theorem rebuildsFirst {response : ChatCompletionResponse}
    (h : ∀ choice, response.choices.head? = some choice →
      ∃ content calls reason, choice.Shows content calls reason) (model : Text) :
    RebuildsFirst U response model := by
  cases hchoices : response.choices with
  | nil =>
      have hmessage : messageOf (response.choices.headD []) = some [] := by
        rw [hchoices]
        rfl
      have hcontent : ((([] : Fields).lookup contentKey).filter Value.truthy).getD (.str []) =
          .str [] := rfl
      obtain ⟨choices, hsimulate, hne, -⟩ := simulateStreaming_of_shown (U := U) response hmessage
        hcontent
      refine ⟨_, hsimulate, endsFinal_chunksOf response hne, ?_⟩
      intro choice content calls reason hfirst
      rw [hchoices] at hfirst
      cases hfirst
  | cons first rest =>
      have hhead : response.choices.head? = some first := by rw [hchoices, List.head?_cons]
      have hheadD : response.choices.headD [] = first := by rw [hchoices, List.headD_cons]
      obtain ⟨content, calls, reason, hshows⟩ := h first hhead
      obtain ⟨message, hmessage, hcontent, -⟩ := shown_of_shows hshows
      obtain ⟨choices, hsimulate, hne, hfold⟩ := simulateStreaming_of_shown (U := U)
        response (by rw [hheadD]; exact hmessage) hcontent
      refine ⟨_, hsimulate, endsFinal_chunksOf response hne, ?_⟩
      intro choice content' calls' reason' hchoice hshows'
      obtain rfl : first = choice := by
        rw [hhead] at hchoice
        exact Option.some.inj hchoice
      obtain ⟨message', hmessage', hcontent', hcalls'⟩ := shown_of_shows hshows'
      obtain rfl : message = message' := by
        rw [hmessage] at hmessage'
        exact Option.some.inj hmessage'
      obtain rfl : content = content' := by
        rw [hcontent] at hcontent'
        injection hcontent'
      have hstates := (foldl_chunksOf (U := U) response choices []).trans hfold
      rw [hheadD, hshows'.reason] at hstates
      refine ⟨_, ?_, shows_afterChunk (U := U) hcalls' content reason'⟩
      simp only [responseFromStreamChunks, hstates]
      rfl

end Rebuild

/-- A choice with a content alone. -/
def saying (text : String) : Choice :=
  choiceOf [(roleKey, .str "assistant".toList), (contentKey, .str text.toList)]
    [(finishReasonKey, .str "stop".toList)]

theorem saying_shows (text : String) :
    (saying text).Shows text.toList [] (.str "stop".toList) :=
  ⟨⟨_, rfl, .inl rfl, .inr ⟨rfl, rfl⟩⟩, rfl⟩

/-- A call without a content. -/
theorem rebuildsFirst_calling : RebuildsFirst asciiUnicode callingResponse "model".toList := by
  refine rebuildsFirst (fun choice hchoice ↦ ?_) _
  obtain rfl := Option.some.inj hchoice
  refine ⟨[], [⟨"call".toList, functionKey, "run".toList, "\x7b\"mode\":\"root\"\x7d".toList,
    by decide⟩], .null, ⟨_, rfl, .inr ⟨rfl, rfl⟩, .inl ⟨_, rfl, .cons ?_ .nil⟩⟩, rfl⟩
  refine ⟨_, _, rfl, rfl, rfl, rfl, fun key hid htype hfunction ↦ ?_, rfl, rfl,
    fun key hname harguments ↦ ?_⟩
  · rw [lookup_cons_of_ne hid, lookup_cons_of_ne htype, lookup_cons_of_ne hfunction]
    rfl
  · rw [lookup_cons_of_ne hname, lookup_cons_of_ne harguments]
    rfl

/-- Two answers to one question. -/
def twoChoices : ChatCompletionResponse :=
  ⟨"reply".toList, [saying "Yes.", saying "No."], "model".toList⟩

/-- The second choice is not shown. -/
theorem not_rebuilds_twoChoices :
    (∀ choice ∈ twoChoices.choices, ∃ content calls reason, choice.Shows content calls reason) ∧
      ¬ Rebuilds asciiUnicode twoChoices "model".toList := by
  constructor
  · intro choice hchoice
    rcases List.mem_pair.mp hchoice with rfl | rfl
    · exact ⟨_, _, _, saying_shows "Yes."⟩
    · exact ⟨_, _, _, saying_shows "No."⟩
  · rintro ⟨chunks, hchunks, -, hall⟩
    obtain ⟨choice', hsecond, -⟩ := hall 1 _ _ _ _ rfl (saying_shows "No.")
    have hone : (simulateStreaming asciiUnicode twoChoices).map (fun chunks ↦
        (responseFromStreamChunks asciiUnicode chunks "model".toList).choices.length) = some 1 := by
      decide +kernel
    rw [hchunks, Option.map_some, Option.some_inj] at hone
    obtain ⟨hlt, -⟩ := List.getElem?_eq_some_iff.mp hsecond
    omega

end Screening
