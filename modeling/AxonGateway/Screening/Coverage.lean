import AxonGateway.Screening.Carrier
import AxonGateway.Screening.Output

/-!
# What the output policy covers

A rule covers what is delivered when the caller gets nothing but the policy's message wherever a
delivered string has the pattern, and gets the reply wherever none has it.
-/

namespace Screening

open PyValue

variable {E : GuardrailEngine} {rules : List GuardrailRule} {rule : GuardrailRule}

/-- The rest of a choice. -/
def Choice.without (choice : Choice) (key : Text) : Choice := choice.filter fun f ↦ f.1 != key

/-- The text that a chunk adds to what a caller has received. -/
def chunkText (choice : Choice) : Text :=
  match choice.lookup deltaKey with
  | some (.obj delta) =>
      match delta.lookup contentKey with
      | some (.str text) => text
      | _ => []
  | _ => []

/-- The other strings of a chunk. -/
def chunkTexts (choice : Choice) : List Text :=
  Value.fieldTexts (choice.without deltaKey) ++
    match choice.lookup deltaKey with
    | some (.obj delta) =>
        match delta.lookup contentKey with
        | some (.str _) => Value.fieldTexts (Choice.without delta contentKey)
        | _ => Value.fieldTexts delta
    | some v => v.texts
    | none => []

/-- The strings that a caller receives; those of the chunks' contents are put together. -/
def Delivery.texts (d : Delivery) : List Text :=
  match d.choices with
  | [] => []
  | c :: cs =>
      if d.streamed then (c :: cs).flatMap chunkText :: (c :: cs).flatMap chunkTexts
      else (c :: cs).flatMap Value.fieldTexts

/-- The choices have the policy's message and no other string. -/
def Delivery.IsPolicy (d : Delivery) (message : Text) : Prop :=
  if d.streamed then
    d.choices.flatMap chunkText <+: message ∧ ∀ c ∈ d.choices, chunkTexts c = []
  else
    ∀ c ∈ d.choices, c.lookup messageKey = some (.obj (policyMessage message)) ∧
      Value.fieldTexts (c.without messageKey) = []

/-- Nothing that the provider has written is delivered. -/
def Delivery.OnlyPolicy (d : Delivery) : Prop :=
  d.choices = [] ∨ d.blocked = true ∧
    ∃ names, d.IsPolicy ("Response blocked by guardrail rules: ".toList ++ names)

/-- The response that the policy is applied to; there is none when the chunks are too large. -/
def Reply.response (U : Unicode) : Reply → Option ChatCompletionResponse
  | returned response => some response
  | cached response => some response
  | replayed response => some response
  | fallback response => some response
  | ensemble response => some response
  | relayed chunks requestModel =>
      if (emitBounded 0 chunks).2 then none
      else some (responseFromStreamChunks U chunks requestModel)

def Reply.streamed : Reply → Bool
  | returned _ => false
  | cached _ => false
  | _ => true

/-- What the path delivers of the reply when no rule has blocked it. -/
def wouldDeliver (U : Unicode) (reply : Reply) : Delivery :=
  match reply.response U with
  | none => withheld reply.streamed
  | some response => present U reply.streamed response false

/-- The pattern is in a string that the path would deliver. -/
def Held (E : GuardrailEngine) (reply : Reply) (pattern : Text) : Prop :=
  ∃ text ∈ (wouldDeliver E.toUnicode reply).texts, E.contains text pattern = true

/-- The content and the calls of a choice, as they are searched; nothing where its message is no
dictionary. -/
def searchedPart (choice : Choice) : Option Text :=
  match choice.lookup messageKey with
  | none => some []
  | some (.obj message) => some (joined ['\n'] (inspectionParts message))
  | some _ => none

/-- The contents and calls of the choices, with a space between two choices that have any. -/
def searchedText (choices : List Choice) : Option Text :=
  (choices.mapM searchedPart).map fun parts ↦ joined [' '] (parts.filter fun part ↦ !part.isEmpty)

/-- One rule and one reply: the caller gets only the policy's message when a string that would be
delivered has the pattern, and else the reply, if no other rule blocks it. -/
def Covers (E : GuardrailEngine) (rules : List GuardrailRule) (i : ℕ) (pattern : Text)
    (reply : Reply) : Prop :=
  (Held E reply pattern → (deliver E rules reply).OnlyPolicy) ∧
    (¬ Held E reply pattern →
      (∀ response ∈ reply.response E.toUnicode, ∀ text ∈ searchedText response.choices,
        ∀ other ∈ rules.eraseIdx i, E.blocks text "response" other = false) →
      deliver E rules reply = wouldDeliver E.toUnicode reply)

/-- Something is left beside the policy's message: in an answer a string of a choice outside its
message, in a stream one in the finish reason of the first choice, if the stream gets there. -/
def LeavesText (U : Unicode) (streamed : Bool) (response : ChatCompletionResponse)
    (message : Text) : Prop :=
  if streamed then
    (boundedSimulatedStreaming U (replaceResponseContent response message)).2 = false ∧
      (((response.choices.headD []).lookup finishReasonKey).getD .null).texts ≠ []
  else ∃ c ∈ response.choices, Value.fieldTexts (c.without messageKey) ≠ []


/-! ### What is searched -/

theorem mapM_map {α β γ : Type} (f : α → Option β) (g : β → γ) (l : List α) :
    (l.mapM fun a ↦ (f a).map g) = (l.mapM f).map (List.map g) := by
  induction l with
  | nil => rfl
  | cons a l ih =>
      rw [List.mapM_cons, List.mapM_cons, ih]
      cases f a with
      | none => rfl
      | some b => cases l.mapM f <;> rfl

theorem responsePart_inspection {U : Unicode} (choice : Choice) :
    responsePart U (match choice.lookup messageKey with
      | some (.obj message) =>
          set choice messageKey
            (.obj (set message contentKey (.str (joined ['\n'] (inspectionParts message)))))
      | _ => choice) =
    (searchedPart choice).map fun part ↦ if part.isEmpty then none else some part := by
  unfold searchedPart
  cases hmessage : choice.lookup messageKey with
  | none => simp [responsePart, hmessage]
  | some v =>
      cases v with
      | obj message =>
          rw [responsePart, lookup_set, Option.getD_some]
          dsimp only
          rw [lookup_set, Option.filter_some, Option.map_some]
          cases joined ['\n'] (inspectionParts message) <;> rfl
      | _ => simp [responsePart, hmessage]

/-- The text that the rules are searched for in is made of contents and calls alone. -/
theorem extract_inspection (U : Unicode) (response : ChatCompletionResponse) :
    extractResponseText U (guardrailInspectionResponse response).choices =
      searchedText response.choices := by
  have hparts : (guardrailInspectionResponse response).choices.mapM (responsePart U) =
      (response.choices.mapM searchedPart).map
        (List.map fun part ↦ if part.isEmpty then none else some part) := by
    rw [guardrailInspectionResponse, List.mapM_map, ← mapM_map]
    congr 1
    funext choice
    exact responsePart_inspection choice
  have hnonempty : ∀ parts : List Text,
      (parts.map fun part ↦ if part.isEmpty then none else some part).filterMap id =
        parts.filter fun part ↦ !part.isEmpty := by
    intro parts
    induction parts with
    | nil => rfl
    | cons part parts ih => cases part <;> simp_all
  rw [extractResponseText, searchedText, hparts, Option.map_map]
  congr 1
  funext parts
  exact congrArg (joined [' ']) (hnonempty parts)

theorem evaluate_message {text : Text} {context : Text} {target : String}
    (h : (E.evaluate text rules context target).passed = false) :
    ∃ names, (E.evaluate text rules context target).message =
      some (context ++ " blocked by guardrail rules: ".toList ++ names) := by
  unfold GuardrailEngine.evaluate at h ⊢
  dsimp only at h ⊢
  split_ifs at h ⊢
  exact ⟨_, rfl⟩

/-- The message that replaces those of a blocked response. -/
def blockedMessage (E : GuardrailEngine) (rules : List GuardrailRule) (text : Text) : Text :=
  ((E.evaluate text rules "Response".toList "response").message).getD []

theorem applyOutputPolicy_eq (hrules : rules ≠ []) (response : ChatCompletionResponse) :
    applyOutputPolicy E rules response = (searchedText response.choices).map fun text ↦
      if rules.any (E.blocks text "response") then
        (replaceResponseContent response (blockedMessage E rules text), true)
      else (response, false) := by
  have hempty : rules.isEmpty = false := by simpa using hrules
  rw [applyOutputPolicy, hempty, if_neg Bool.false_ne_true, GuardrailEngine.evaluateResponse,
    extract_inspection, Option.map_map]
  congr 1
  funext text
  have hpassed := GuardrailEngine.evaluate_passed (E := E) text rules "Response".toList "response"
  rw [Function.comp_apply, hpassed]
  cases hany : rules.any (E.blocks text "response") with
  | false => rfl
  | true =>
      rw [hany] at hpassed
      obtain ⟨names, hmessage⟩ := evaluate_message hpassed
      rw [blockedMessage, hmessage]
      rfl

theorem blockedMessage_eq {text : Text} (h : rules.any (E.blocks text "response") = true) :
    ∃ names, blockedMessage E rules text = "Response blocked by guardrail rules: ".toList ++ names := by
  have hpassed := GuardrailEngine.evaluate_passed (E := E) text rules "Response".toList "response"
  rw [h] at hpassed
  obtain ⟨names, hmessage⟩ := evaluate_message hpassed
  refine ⟨names, ?_⟩
  have htext : "Response".toList ++ " blocked by guardrail rules: ".toList =
      "Response blocked by guardrail rules: ".toList := by decide +kernel
  rw [blockedMessage, hmessage, Option.getD_some, htext]


/-! ### What is left of a blocked response -/

theorem emitBounded_spec (emitted : ℕ) (chunks : List StreamChunk) :
    ∃ rest, chunks = (emitBounded emitted chunks).1 ++ rest ∧
      ((emitBounded emitted chunks).2 = false ↔ rest = []) := by
  induction chunks generalizing emitted with
  | nil => exact ⟨[], rfl, by simp [emitBounded]⟩
  | cons chunk chunks ih =>
      unfold emitBounded
      split_ifs with h
      · exact ⟨chunk :: chunks, rfl, by simp⟩
      · obtain ⟨rest, heq, hfailed⟩ := ih (emitted + streamChunkSize chunk)
        exact ⟨rest, by rw [List.cons_append, ← heq], hfailed⟩

theorem chunkText_chunkChoice (text : Text) (finishReason : Option Value) :
    chunkText (chunkChoice [(contentKey, .str text)] finishReason) = text := by
  cases finishReason <;> rfl

theorem chunkTexts_chunkChoice (text : Text) (finishReason : Option Value) :
    chunkTexts (chunkChoice [(contentKey, .str text)] finishReason) =
      (finishReason.map Value.texts).getD [] := by
  cases finishReason with
  | none => rfl
  | some v =>
      have hrest : (chunkChoice [(contentKey, .str text)] (some v)).without deltaKey =
          [(indexKey, .number "0".toList), (finishReasonKey, v)] := rfl
      have hdelta : (chunkChoice [(contentKey, .str text)] (some v)).lookup deltaKey =
          some (.obj [(contentKey, .str text)]) := rfl
      rw [chunkTexts, hrest, hdelta]
      simp [Value.fieldTexts, Value.fieldText, Value.texts, Choice.without]

/-- The chunks of a text: their contents give the text, and the last one has the reason. -/
theorem tokenChoices_texts (finishReason : Value) {tokens : List Text} (h : tokens ≠ []) :
    (tokenChoices none finishReason (tokens.map .str)).flatMap chunkText = tokens.flatten ∧
      ∃ before last, tokenChoices none finishReason (tokens.map .str) = before ++ [last] ∧
        (∀ c ∈ before, chunkTexts c = []) ∧ chunkTexts last = finishReason.texts := by
  induction tokens with
  | nil => exact absurd rfl h
  | cons token tokens ih =>
      cases tokens with
      | nil =>
          refine ⟨?_, [], _, rfl, by simp, ?_⟩
          · exact congrArg (· ++ []) (chunkText_chunkChoice token (some finishReason))
          · exact chunkTexts_chunkChoice token (some finishReason)
      | cons token' tokens =>
          obtain ⟨htext, before, last, heq, hbefore, hlast⟩ := ih (by simp)
          have hcons : tokenChoices none finishReason ((token :: token' :: tokens).map .str) =
              chunkChoice [(contentKey, .str token)] none ::
                tokenChoices none finishReason ((token' :: tokens).map .str) := rfl
          refine ⟨?_, chunkChoice [(contentKey, .str token)] none :: before, last, ?_, ?_, hlast⟩
          · rw [hcons, List.flatMap_cons, htext, chunkText_chunkChoice]
            rfl
          · rw [hcons, heq, List.cons_append]
          · intro c hc
            rcases List.mem_cons.mp hc with rfl | hc
            · exact chunkTexts_chunkChoice token none
            · exact hbefore c hc


theorem chunksOf_choices (response : ChatCompletionResponse) (choices : List Choice) :
    (chunksOf response choices).flatMap StreamChunk.choices = choices := by
  induction choices with
  | nil => rfl
  | cons choice choices ih =>
      cases choices with
      | nil => rfl
      | cons choice' choices => exact congrArg (choice :: ·) ih

theorem chunksOf_single (response : ChatCompletionResponse) (choices : List Choice) :
    ∀ chunk ∈ chunksOf response choices, ∃ choice, chunk.choices = [choice] := by
  induction choices with
  | nil => simp [chunksOf]
  | cons choice choices ih =>
      cases choices with
      | nil => simp [chunksOf]
      | cons choice' choices =>
          intro chunk hchunk
          rcases List.mem_cons.mp hchunk with rfl | hchunk
          · exact ⟨choice, rfl⟩
          · exact ih chunk hchunk

/-- The chunks of a response whose messages have been replaced. -/
theorem simulateStreaming_replaced (U : Unicode) (response : ChatCompletionResponse)
    {message : Text} (hmessage : message ≠ []) :
    ∃ chunks text before last,
      simulateStreaming U (replaceResponseContent response message) = some chunks ∧
        chunks.flatMap StreamChunk.choices = before ++ [last] ∧
          (∀ chunk ∈ chunks, ∃ choice, chunk.choices = [choice]) ∧
            (before ++ [last]).flatMap chunkText = text ∧ text <+: message ∧
              (∀ c ∈ before, chunkTexts c = []) ∧
                chunkTexts last =
                  (((response.choices.headD []).lookup finishReasonKey).getD .null).texts := by
  cases hchoices : response.choices with
  | nil =>
      have hsimulate : simulateStreaming U (replaceResponseContent response message) =
          some (chunksOf (replaceResponseContent response message)
            [chunkChoice [(contentKey, .str [])] (some .null)]) := by
        rw [simulateStreaming, replaceResponseContent, hchoices]
        rfl
      exact ⟨_, [], [], chunkChoice [(contentKey, .str [])] (some .null), hsimulate, chunksOf_choices _ _,
        chunksOf_single _ _, rfl, List.nil_prefix, by simp, chunkTexts_chunkChoice [] (some .null)⟩
  | cons choice choices =>
      have htokens : splitPreservingAll U.isSpace message ≠ [] := List.splitBy_ne_nil.mpr hmessage
      have hreason : (set choice messageKey (.obj (policyMessage message))).lookup finishReasonKey =
          choice.lookup finishReasonKey := lookup_set_of_ne (by decide) _ _
      have hcontent : (policyMessage message).lookup contentKey = some (.str message) := rfl
      have hcalls : (policyMessage message).lookup toolCallsKey = none := rfl
      have htruthy : (Value.str message).truthy = true := by
        cases message with
        | nil => exact absurd rfl hmessage
        | cons c cs => rfl
      have hfilter : (some (Value.str message)).filter Value.truthy = some (.str message) := by
        rw [Option.filter_some, if_pos htruthy]
      have hsimulate : simulateStreaming U (replaceResponseContent response message) =
          some (chunksOf (replaceResponseContent response message)
            (tokenChoices none ((choice.lookup finishReasonKey).getD .null)
              ((splitPreservingAll U.isSpace message).map .str))) := by
        rw [simulateStreaming, replaceResponseContent, hchoices, List.map_cons, List.headD_cons]
        simp [messageOf, lookup_set, hreason, hcontent, hcalls, hfilter, htruthy, splitIntoTokens]
      obtain ⟨htext, before, last, heq, hbefore, hlast⟩ := tokenChoices_texts
        ((choice.lookup finishReasonKey).getD .null) htokens
      refine ⟨_, message, before, last, hsimulate, ?_, chunksOf_single _ _, ?_, List.prefix_refl _, hbefore,
        hlast⟩
      · rw [chunksOf_choices, heq]
      · rw [← heq, htext, splitPreservingAll, List.flatten_splitBy]

/-- Every choice of a stream shows the policy's message, as far as the stream gets. -/
theorem onlyPolicy_of_start {shown : List Choice} (middle : List Choice) {message : Text}
    {failed : Bool}
    (hmessage : ∃ names, message = "Response blocked by guardrail rules: ".toList ++ names)
    (hshown : (shown ++ middle).flatMap chunkText <+: message) (h : ∀ c ∈ shown, chunkTexts c = []) :
    (⟨shown, true, true, failed⟩ : Delivery).OnlyPolicy := by
  obtain ⟨names, rfl⟩ := hmessage
  refine .inr ⟨rfl, names, ?_⟩
  rw [Delivery.IsPolicy, if_pos rfl]
  rw [List.flatMap_append] at hshown
  exact ⟨(List.prefix_append _ _).trans hshown, h⟩

theorem flatMap_choices_append {chunks : List StreamChunk} {rest : List StreamChunk}
    (h : ∀ chunk ∈ chunks ++ rest, ∃ choice, chunk.choices = [choice]) {before : List Choice}
    {last : Choice} (heq : (chunks ++ rest).flatMap StreamChunk.choices = before ++ [last]) :
    (rest = [] ∧ chunks.flatMap StreamChunk.choices = before ++ [last]) ∨
      (rest ≠ [] ∧ ∃ middle, before = chunks.flatMap StreamChunk.choices ++ middle) := by
  rcases List.eq_nil_or_concat rest with rfl | ⟨earlier, chunk, rfl⟩
  · exact .inl ⟨rfl, by rwa [List.append_nil] at heq⟩
  · right
    obtain ⟨choice, hchoice⟩ := h chunk (by simp)
    refine ⟨by simp, earlier.flatMap StreamChunk.choices, ?_⟩
    rw [List.concat_eq_append, ← List.append_assoc, List.flatMap_append, List.flatMap_append,
      List.flatMap_singleton, hchoice] at heq
    exact (List.append_inj_left' heq rfl).symm

/-- A blocked stream shows only the policy's message, but for the finish reason at its end. -/
theorem onlyPolicy_stream (U : Unicode) (response : ChatCompletionResponse) {message : Text}
    (hmessage : ∃ names, message = "Response blocked by guardrail rules: ".toList ++ names) :
    (present U true (replaceResponseContent response message) true).OnlyPolicy ↔
      ¬ LeavesText U true response message := by
  have hne : message ≠ [] := by
    obtain ⟨names, rfl⟩ := hmessage
    simp
  obtain ⟨chunks, text, before, last, hsimulate, hchoices, hsingle, htext, hshown, hbefore,
    hlast⟩ := simulateStreaming_replaced U response hne
  rw [LeavesText, if_pos rfl, ← hlast, not_and, not_not, present, if_pos rfl]
  unfold boundedSimulatedStreaming
  split_ifs with hsize
  · simp [Delivery.OnlyPolicy]
  · rw [hsimulate]
    dsimp only
    obtain ⟨rest, heq, hfailed⟩ := emitBounded_spec 0 chunks
    rw [hfailed]
    rw [heq] at hchoices hsingle
    obtain ⟨hrest, hall⟩ | ⟨hrest, middle, hmiddle⟩ := flatMap_choices_append hsingle hchoices
    · rw [hall]
      constructor
      · rintro (hnone | ⟨-, names, hpolicy⟩) -
        · exact absurd hnone (by simp)
        · rw [Delivery.IsPolicy, if_pos rfl] at hpolicy
          exact hpolicy.2 last (by simp)
      · intro hclean
        refine onlyPolicy_of_start [] hmessage ?_ fun c hc ↦ ?_
        · rwa [List.append_nil, htext]
        · rcases List.mem_append.mp hc with hc | hc
          · exact hbefore c hc
          · obtain rfl := List.mem_singleton.mp hc
            exact hclean hrest
    · refine iff_of_true (onlyPolicy_of_start (middle ++ [last]) hmessage ?_ fun c hc ↦ ?_)
        fun h ↦ absurd h hrest
      · rwa [← List.append_assoc, ← hmiddle, htext]
      · exact hbefore c (hmiddle ▸ List.mem_append_left _ hc)

/-- A blocked answer has only the policy's message, but for the rest of its choices. -/
theorem onlyPolicy_answer (U : Unicode) (response : ChatCompletionResponse) {message : Text}
    (hmessage : ∃ names, message = "Response blocked by guardrail rules: ".toList ++ names) :
    (present U false (replaceResponseContent response message) true).OnlyPolicy ↔
      ¬ LeavesText U false response message := by
  have hrest : ∀ choice : Choice,
      (Choice.without (set choice messageKey (.obj (policyMessage message))) messageKey) =
        choice.without messageKey := fun choice ↦ filter_set_ne _ _ _
  rw [LeavesText, if_neg Bool.false_ne_true, present, if_neg Bool.false_ne_true]
  push Not
  constructor
  · rintro (hnone | ⟨-, names, hpolicy⟩) choice hchoice
    · rw [List.map_eq_nil_iff.mp hnone] at hchoice
      cases hchoice
    · rw [Delivery.IsPolicy, if_neg Bool.false_ne_true] at hpolicy
      have h := (hpolicy _ (List.mem_map_of_mem hchoice)).2
      rwa [hrest] at h
  · intro hclean
    obtain ⟨names, rfl⟩ := hmessage
    refine .inr ⟨rfl, names, ?_⟩
    rw [Delivery.IsPolicy, if_neg Bool.false_ne_true]
    intro c hc
    obtain ⟨choice, hchoice, rfl⟩ := List.mem_map.mp hc
    exact ⟨lookup_set _ _ _, by rw [hrest]; exact hclean choice hchoice⟩

theorem onlyPolicy_replaced (U : Unicode) (streamed : Bool) (response : ChatCompletionResponse)
    {message : Text}
    (hmessage : ∃ names, message = "Response blocked by guardrail rules: ".toList ++ names) :
    (present U streamed (replaceResponseContent response message) true).OnlyPolicy ↔
      ¬ LeavesText U streamed response message := by
  cases streamed with
  | false => exact onlyPolicy_answer U response hmessage
  | true => exact onlyPolicy_stream U response hmessage

/-! ### Coverage -/

theorem deliver_eq (hrules : requiresOutputBuffering rules = true) (reply : Reply) :
    deliver E rules reply = match reply.response E.toUnicode with
      | none => withheld reply.streamed
      | some response => afterPolicy E rules reply.streamed response := by
  cases reply with
  | relayed chunks requestModel =>
      rw [deliver, streamTrueRelay, Reply.response]
      dsimp only
      rw [if_pos hrules]
      cases (emitBounded 0 chunks).2 <;> rfl
  | _ => rfl

theorem blocks_pattern {pattern : Text} (hvalid : rule.valid = true)
    (htype : rule.ruleType = "keyword_block") (hpattern : rule.pattern = some pattern)
    (haction : rule.action = "block") (htarget : rule.appliesToTarget "response" = true)
    (text : Text) : E.blocks text "response" rule = E.contains text pattern := by
  have hm : E.matches text rule = some (E.contains text pattern) := by
    rw [GuardrailEngine.matches, if_pos htype, hpattern, Option.getD_some]
  rw [GuardrailEngine.blocks, hvalid, htarget, hm]
  simp [haction]

theorem any_eraseIdx {α : Type} {l : List α} {i : ℕ} {a : α} (h : l[i]? = some a) (p : α → Bool) :
    l.any p = true ↔ p a = true ∨ ∃ b ∈ l.eraseIdx i, p b = true := by
  obtain ⟨hi, rfl⟩ := List.getElem?_eq_some_iff.mp h
  have hl : l = l.take i ++ l[i] :: l.drop (i + 1) := by
    rw [← List.drop_eq_getElem_cons hi, List.take_append_drop]
  rw [List.eraseIdx_eq_take_drop_succ]
  nth_rewrite 1 [hl]
  simp only [List.any_append, List.any_cons, Bool.or_eq_true, List.any_eq_true, List.mem_append,
    or_and_right, exists_or]
  exact or_left_comm

theorem not_onlyPolicy_of_held {reply : Reply} {pattern : Text} (h : Held E reply pattern) :
    ¬ (wouldDeliver E.toUnicode reply).OnlyPolicy := by
  obtain ⟨text, htext, -⟩ := h
  have hunblocked : (wouldDeliver E.toUnicode reply).blocked = false := by
    rw [wouldDeliver]
    cases reply.response E.toUnicode with
    | none => rfl
    | some response =>
        cases hstreamed : reply.streamed <;> rfl
  rintro (hnone | ⟨hblocked, -⟩)
  · rw [Delivery.texts, hnone] at htext
    cases htext
  · rw [hunblocked] at hblocked
    cases hblocked

theorem present_ne (U : Unicode) (streamed : Bool) (response response' : ChatCompletionResponse) :
    present U streamed response true ≠ present U streamed response' false := by
  intro h
  have hblocked := congrArg Delivery.blocked h
  cases streamed <;> cases hblocked

/-- When a rule covers a reply: the reply has no dictionary for a message and its path has
nothing to deliver or a held pattern; or else nothing is left of a response with a held pattern
outside its messages, and another rule blocks what is searched or the pattern is in it exactly
when it is in a string that would be delivered. -/
def Meets (E : GuardrailEngine) (rules : List GuardrailRule) (i : ℕ) (pattern : Text)
    (reply : Reply) : Prop :=
  ∀ response ∈ reply.response E.toUnicode,
    match searchedText response.choices with
    | none => Held E reply pattern ∨
        wouldDeliver E.toUnicode reply = withheld reply.streamed
    | some text =>
        ¬ (Held E reply pattern ∧
          LeavesText E.toUnicode reply.streamed response (blockedMessage E rules text)) ∧
        ((∃ other ∈ rules.eraseIdx i, E.blocks text "response" other = true) ∨
          (Held E reply pattern ↔ E.contains text pattern = true))

theorem iff_of_blocked {held left other found : Prop} (h : found ∨ other) :
    ((held → ¬ left) ∧ (¬ held → ¬ other → False)) ↔
      (¬ (held ∧ left) ∧ (other ∨ (held ↔ found))) := by
  tauto

theorem iff_of_passed {held only left other found : Prop} (hheld : held → ¬ only)
    (h : ¬ (found ∨ other)) :
    ((held → only) ∧ (¬ held → ¬ other → True)) ↔
      (¬ (held ∧ left) ∧ (other ∨ (held ↔ found))) := by
  tauto

theorem covers_iff {i : ℕ} {pattern : Text} (hrule : rules[i]? = some rule)
    (hvalid : rule.valid = true) (htype : rule.ruleType = "keyword_block")
    (hpattern : rule.pattern = some pattern) (haction : rule.action = "block")
    (htarget : rule.appliesToTarget "response" = true) (reply : Reply) :
    Covers E rules i pattern reply ↔ Meets E rules i pattern reply := by
  have hmem : rule ∈ rules := List.mem_of_getElem? hrule
  have hbuffer : requiresOutputBuffering rules = true := List.any_eq_true.mpr ⟨rule, hmem, htarget⟩
  have hne : rules ≠ [] := List.ne_nil_of_mem hmem
  have hnone : (withheld reply.streamed).OnlyPolicy := .inl rfl
  unfold Covers Meets
  rw [deliver_eq hbuffer]
  cases hresponse : reply.response E.toUnicode with
  | none =>
      have hwould : wouldDeliver E.toUnicode reply = withheld reply.streamed := by
        rw [wouldDeliver, hresponse]
      simp [hnone, hwould]
  | some response =>
      have hwould : wouldDeliver E.toUnicode reply =
          present E.toUnicode reply.streamed response false := by rw [wouldDeliver, hresponse]
      have heq : ∀ P : ChatCompletionResponse → Prop, (∀ r ∈ some response, P r) ↔ P response :=
        fun P ↦ by simp
      rw [heq, heq]
      dsimp only
      rw [afterPolicy, applyOutputPolicy_eq hne]
      cases hsearched : searchedText response.choices with
      | none =>
          simp only [Option.map_none, hnone, implies_true, true_and, reduceCtorEq, Option.mem_def,
            false_imp_iff, forall_const]
          rw [← or_iff_not_imp_left, eq_comm]
      | some text =>
          have hothers : (∀ text' ∈ some text, ∀ other ∈ rules.eraseIdx i,
              E.blocks text' "response" other = false) ↔
                ¬ ∃ other ∈ rules.eraseIdx i, E.blocks text "response" other = true := by
            simp
          rw [hothers, Option.map_some]
          dsimp only
          have hblocks := any_eraseIdx hrule (E.blocks text "response")
          rw [blocks_pattern hvalid htype hpattern haction htarget] at hblocks
          by_cases hany : rules.any (E.blocks text "response") = true
          · rw [if_pos hany]
            dsimp only
            rw [onlyPolicy_replaced _ _ _ (blockedMessage_eq hany), hwould]
            have hdiffer := present_ne E.toUnicode reply.streamed
              (replaceResponseContent response (blockedMessage E rules text)) response
            rw [iff_false_intro hdiffer]
            exact iff_of_blocked (hblocks.mp hany)
          · rw [if_neg hany]
            dsimp only
            rw [← hwould, iff_true_intro (rfl : wouldDeliver E.toUnicode reply = _)]
            exact iff_of_passed not_onlyPolicy_of_held (mt hblocks.mpr hany)

/-! ### Replies -/

theorem not_onlyPolicy_of_passed {d : Delivery} (hblocked : d.blocked = false)
    (hchoices : d.choices.isEmpty = false) : ¬ d.OnlyPolicy := by
  rintro (hnone | ⟨h, -⟩)
  · rw [hnone] at hchoices
    cases hchoices
  · rw [hblocked] at h
    cases h

theorem not_onlyPolicy_of_rest {d : Delivery} (hstreamed : d.streamed = false) {choice : Choice}
    (hchoice : d.choices.head? = some choice)
    (hrest : Value.fieldTexts (choice.without messageKey) ≠ []) : ¬ d.OnlyPolicy := by
  have hmem : choice ∈ d.choices := List.mem_of_head? hchoice
  rintro (hnone | ⟨-, names, hpolicy⟩)
  · rw [hnone] at hmem
    cases hmem
  · rw [Delivery.IsPolicy, hstreamed, if_neg Bool.false_ne_true] at hpolicy
    exact hrest (hpolicy choice hmem).2

instance (reply : Reply) (pattern : Text) : Decidable (Held E reply pattern) := by
  unfold Held; infer_instance

def outputRule (pattern : String) : GuardrailRule :=
  { keywordRule pattern with appliesTo := "response" }

def choiceOf (message : Fields) (rest : Fields) : Choice :=
  (indexKey, .number "0".toList) :: (messageKey, .obj message) :: rest

def responseOf (choice : Choice) : ChatCompletionResponse :=
  ⟨"reply".toList, [choice], "model".toList⟩

/-- A call of a tool; its arguments are a text of JSON. -/
def toolCall (arguments : String) : Value :=
  .arr [.obj [("id".toList, .str "call".toList), ("type".toList, .str functionKey),
    (functionKey, .obj [("name".toList, .str "run".toList),
      ("arguments".toList, .str arguments.toList)])]]

def callingResponse : ChatCompletionResponse :=
  responseOf (choiceOf [(roleKey, .str "assistant".toList), (contentKey, .null),
    (toolCallsKey, toolCall "\x7b\"mode\":\"root\"\x7d")] [])

def refusingResponse : ChatCompletionResponse :=
  responseOf (choiceOf [(roleKey, .str "assistant".toList), (contentKey, .null),
    ("refusal".toList, .str "the secret plan".toList)] [])

def loggedResponse : ChatCompletionResponse :=
  responseOf (choiceOf [(roleKey, .str "assistant".toList),
    (contentKey, .str "the secret plan".toList)]
      [("logprobs".toList, .obj [("content".toList, .arr [.obj [("token".toList,
        .str "secret".toList)]])])])

/-- A reply without the pattern. -/
def plainResponse : ChatCompletionResponse :=
  responseOf (choiceOf [(roleKey, .str "assistant".toList), (contentKey, .str "Hello.".toList)]
    [(finishReasonKey, .str "stop".toList)])

theorem covers_plain : Covers keywordEngine [outputRule "secret"] 0 "secret".toList
    (.returned plainResponse) := by
  have hrule : [outputRule "secret"][0]? = some (outputRule "secret") := rfl
  refine (covers_iff hrule (by decide +kernel) rfl rfl rfl (by decide +kernel) _).mpr ?_
  intro response hresponse
  obtain rfl : plainResponse = response := Option.some.inj hresponse
  have hsearched : searchedText plainResponse.choices = some "Hello.".toList := by decide +kernel
  have hheld : ¬ Held keywordEngine (.returned plainResponse) "secret".toList := by decide +kernel
  have hfound : keywordEngine.contains "Hello.".toList "secret".toList = false := by decide +kernel
  rw [hsearched]
  exact ⟨fun h ↦ hheld h.1, .inr (iff_of_false hheld (Bool.not_eq_true _ ▸ hfound))⟩

/-- The arguments of a call are searched with their quotes escaped, a refusal is not searched,
and the tokens beside a blocked message are delivered. -/
theorem not_covers :
    ¬ Covers keywordEngine [outputRule "\"mode\":\"root\""] 0 "\"mode\":\"root\"".toList
      (.returned callingResponse) ∧
    ¬ Covers keywordEngine [outputRule "\"mode\":\"root\""] 0 "\"mode\":\"root\"".toList
      (.fallback callingResponse) ∧
    ¬ Covers keywordEngine [outputRule "secret"] 0 "secret".toList (.returned refusingResponse) ∧
    ¬ Covers keywordEngine [outputRule "secret"] 0 "secret".toList (.cached loggedResponse) := by
  refine ⟨fun h ↦ ?_, fun h ↦ ?_, fun h ↦ ?_, fun h ↦ ?_⟩
  · exact not_onlyPolicy_of_passed (by decide +kernel) (by decide +kernel) (h.1 (by decide +kernel))
  · exact not_onlyPolicy_of_passed (by decide +kernel) (by decide +kernel) (h.1 (by decide +kernel))
  · exact not_onlyPolicy_of_passed (by decide +kernel) (by decide +kernel) (h.1 (by decide +kernel))
  · refine not_onlyPolicy_of_rest (by decide +kernel) rfl ?_ (h.1 (by decide +kernel))
    decide +kernel

end Screening
