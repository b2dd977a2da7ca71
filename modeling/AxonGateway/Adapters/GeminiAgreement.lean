import AxonGateway.Adapters.GeminiReplies
import AxonGateway.Adapters.GeminiRoundTrip
import AxonGateway.Adapters.ResponsesAgreement

/-!
# A streamed reply of Gemini and the whole reply

The parts of a reply are cut into chunks. The stream gives a client the same as the whole reply
exactly when at most one chunk has calls, that chunk comes last, and its calls have ids of their own.
-/

namespace Adapters

open PyValue Screening

/-! ### Replies and their chunks -/

inductive GeminiPart where
  | text (text : Text)
  | call (call : GeminiCall)

namespace GeminiPart

def text? : GeminiPart → Option Text
  | .text t => some t
  | .call _ => none

def call? : GeminiPart → Option GeminiCall
  | .text _ => none
  | .call c => some c

/-- The dictionary of a part, whatever else it holds. -/
def Describes (part : GeminiPart) (v : Value) : Prop :=
  ∃ fields, v = .obj fields ∧ fields.lookup "text".toList = part.text?.map .str ∧ match part with
    | .text _ => fields.lookup "functionCall".toList = none
    | .call c => c.Describes fields

end GeminiPart

/-- A candidate with these parts and this finish reason. -/
structure IsCandidate (candidate : Fields) (parts : List GeminiPart) (reason : Option Text) :
    Prop where
  parts : ∃ values, candidateParts candidate = some values ∧
    List.Forall₂ GeminiPart.Describes parts values
  reason : candidate.lookup "finishReason".toList = reason.map .str

/-- A reply with one candidate. -/
structure IsGeminiReply (reply : Fields) (parts : List GeminiPart) (reason : Text) : Prop where
  candidate : ∃ candidate, reply.lookup "candidates".toList = some (.arr [.obj candidate]) ∧
    IsCandidate candidate parts (some reason)
  usage : ∃ usage, geminiTokenUsage (reply.lookup "usageMetadata".toList) = some usage

/-- A chunk with one candidate. -/
structure IsGeminiChunk (chunk : Fields) (parts : List GeminiPart) (reason : Option Text) :
    Prop where
  candidate : ∃ candidate, chunk.lookup "candidates".toList = some (.arr [.obj candidate]) ∧
    IsCandidate candidate parts reason
  usage : ∃ usage, geminiStreamUsage chunk = some usage

/-- The chunks have these parts, and the last one has the finish reason. -/
inductive GeminiStream (reason : Text) : List (List GeminiPart) → List Fields → Prop
  | last {chunk parts} (h : IsGeminiChunk chunk parts (some reason)) :
      GeminiStream reason [parts] [chunk]
  | more {chunk parts later chunks} (h : IsGeminiChunk chunk parts none) :
      GeminiStream reason later chunks → GeminiStream reason (parts :: later) (chunk :: chunks)

/-- The texts among some parts are cut further. -/
inductive CutTexts : List GeminiPart → List GeminiPart → Prop
  | nil : CutTexts [] []
  | call {parts cut} (call : GeminiCall) :
      CutTexts parts cut → CutTexts (.call call :: parts) (.call call :: cut)
  | text {parts cut} (texts : List Text) :
      CutTexts parts cut → CutTexts (.text texts.flatten :: parts) (texts.map .text ++ cut)

/-- The same text, the same calls in the same order under ids of their own, and the same finish
reason. -/
structure SameView (streamed whole : ChoiceView) : Prop where
  text : streamed.text = whole.text
  calls : (streamed.calls.map fun call ↦ (call.name, call.arguments)) =
    whole.calls.map fun call ↦ (call.name, call.arguments)
  ids : (streamed.calls.map CallView.id).Nodup
  finishReason : streamed.finishReason = whole.finishReason

/-- The stream and the whole reply give a client the same. -/
def GeminiAgrees (adapter : GeminiAdapter) (U : Unicode) (model : Text) (reply : Fields)
    (chunks : List Fields) : Prop :=
  ∃ translated response usage streamed whole,
    translateChunks adapter.translateStreamChunk chunks = some translated ∧
    adapter.translateResponse reply = some (response, usage) ∧
    (responseFromStreamChunks U (translated.map Prod.fst) model).choices.map choiceView =
      [streamed] ∧
    response.choices.map choiceView = [whole] ∧ SameView streamed whole

/-! ### The condition -/

/-- The calls of some parts with their places. -/
def callsOf (parts : List GeminiPart) : List (GeminiCall × ℕ) :=
  placedParts 0 (parts.map GeminiPart.call?)

/-- What the id of a call is made from. -/
inductive IdSource where
  | signed (providerId signature : Text)
  | provider (providerId : Text)
  | made (name : Text) (index : ℕ)

def idSource (c : GeminiCall × ℕ) : IdSource :=
  match c.1.signature with
  | some (d :: signature) => .signed (c.1.id.getD []) (d :: signature)
  | _ => if (c.1.id.getD []).isEmpty then .made c.1.name c.2 else .provider (c.1.id.getD [])

/-- Two calls have the same id: from the same source, or because the provider gave an id that looks
like one that is made. -/
def Collide : IdSource → IdSource → Prop
  | .signed providerId signature, .provider given => capsule providerId signature = given
  | .provider given, .signed providerId signature => given = capsule providerId signature
  | .made name index, .provider given => synthesizedId name index = given
  | .provider given, .made name index => given = synthesizedId name index
  | source, source' => source = source'

/-- At most one chunk has calls; where one has, it is the last, or the provider itself gives the
finish reason of calls; and no two of its calls have the same id. -/
structure CallsTogether (chunkParts : List (List GeminiPart)) (reason : Text) : Prop where
  once : (chunkParts.filter fun parts ↦ !(callsOf parts).isEmpty).length ≤ 1
  last : reason = "tool_calls".toList ∨ (∀ parts ∈ chunkParts, callsOf parts = []) ∨
    ∃ parts ∈ chunkParts.getLast?, callsOf parts ≠ []
  ids : ∀ parts ∈ chunkParts, (callsOf parts).Pairwise fun c c' ↦ ¬Collide (idSource c) (idSource c')

/-! ### Ids -/

theorem capsule_ne_synthesizedId (providerId signature name : Text) (index : ℕ) :
    capsule providerId signature ≠ synthesizedId name index := by
  intro heq
  have hdrop : (synthesizedId name index).drop callIdPrefix.length =
      Base64.strip (Base64.encode ((capsulePayload providerId signature).map Char.toNat)) :=
    heq ▸ List.drop_left
  have hends : ∀ init p q, Base64.strip (Base64.encode
      ((capsulePayload providerId signature).map Char.toNat)) = init ++ [p, q] →
        ∀ c ∈ [p, q], ∃ n, 52 ≤ n ∧ n < 64 ∧ c = Base64.digit n := by
    intro init p q h c hc
    exact exists_digit_of_mem (mem_of_ends (hdrop ▸ List.drop_suffix _ _) h c hc)
  exact loadsBytes_ne readsAscii_onlyAscii (capsule_encoded_ne_nil providerId signature) hends
    (Base64.decode_strip_encode (payload_byte_lt providerId signature)) rfl (loadsBytes_payload _ _)

theorem capsule_inj {providerId signature providerId' signature' : Text} :
    capsule providerId signature = capsule providerId' signature' ↔
      providerId = providerId' ∧ signature = signature' := by
  refine ⟨fun heq ↦ ?_, ?_⟩
  · have hencoded := List.append_cancel_left heq
    have hbytes := Base64.decode_strip_encode (payload_byte_lt providerId signature)
    rw [hencoded, Base64.decode_strip_encode (payload_byte_lt providerId' signature')] at hbytes
    have hread : loadsBytes onlyAscii ((capsulePayload providerId signature).map Char.toNat) =
        some (.arr [.str providerId, .str signature]) := loadsBytes_payload _ _
    rw [← Option.some.inj hbytes, loadsBytes_payload] at hread
    have hitems := Value.arr.inj (Option.some.inj hread)
    simp only [List.cons.injEq, Value.str.injEq] at hitems
    exact ⟨hitems.1.symm, hitems.2.1.symm⟩
  · rintro ⟨rfl, rfl⟩
    rfl

def IdSource.id : IdSource → Text
  | .signed providerId signature => capsule providerId signature
  | .provider given => given
  | .made name index => synthesizedId name index

theorem clientId_eq (c : GeminiCall × ℕ) : c.1.clientId c.2 = (idSource c).id := by
  unfold GeminiCall.clientId idSource
  rcases c.1.signature with _ | _ | ⟨d, signature⟩
  · dsimp only
    split_ifs <;> rfl
  · dsimp only
    split_ifs <;> rfl
  · rfl

theorem collide_iff (source source' : IdSource) : Collide source source' ↔ source.id = source'.id := by
  have hne := capsule_ne_synthesizedId
  cases source <;> cases source' <;>
    simp [Collide, IdSource.id, capsule_inj, synthesizedId_inj, hne, Ne.symm (hne _ _ _ _)]

/-! ### Calls in several chunks -/

section Lists

/-- At most one of the lists has an element. -/
theorem flatMap_eq_of_single {α β : Type} (f : α → List β) {l : List α}
    (h : (l.filter fun a ↦ !(f a).isEmpty).length ≤ 1) :
    l.flatMap f = [] ∨ ∃ a ∈ l, l.flatMap f = f a := by
  induction l with
  | nil => exact .inl rfl
  | cons a l ih =>
      by_cases ha : f a = []
      · rw [List.flatMap_cons, ha, List.nil_append]
        rw [List.filter_cons_of_neg (by simp [ha])] at h
        exact (ih h).imp id fun ⟨b, hb, heq⟩ ↦ ⟨b, List.mem_cons_of_mem a hb, heq⟩
      · rw [List.filter_cons_of_pos (by simpa using ha), List.length_cons] at h
        have hrest : l.flatMap f = [] := by
          refine List.flatMap_eq_nil_iff.mpr fun b hb ↦ ?_
          have hnil : l.filter (fun a ↦ !(f a).isEmpty) = [] :=
            List.eq_nil_of_length_eq_zero (by omega)
          simpa using List.filter_eq_nil_iff.mp hnil b hb
        exact .inr ⟨a, List.mem_cons_self, by rw [List.flatMap_cons, hrest, List.append_nil]⟩

theorem foldl_max_le (counts : List ℕ) (n : ℕ) : counts.foldl max n ≤ n + counts.sum := by
  induction counts generalizing n with
  | nil => exact le_rfl
  | cons c counts ih =>
      have hle := ih (max n c)
      rw [List.foldl_cons, List.sum_cons]
      omega

theorem foldl_max_lt {counts : List ℕ} {n c : ℕ} (hn : 0 < n) (hc : c ∈ counts) (hpos : 0 < c) :
    counts.foldl max n < n + counts.sum := by
  induction counts generalizing n with
  | nil => cases hc
  | cons d counts ih =>
      rw [List.foldl_cons, List.sum_cons]
      rcases List.mem_cons.mp hc with rfl | hc
      · have hle := foldl_max_le counts (max n c)
        omega
      · have hlt := ih (n := max n d) (by omega) hc
        omega

/-- The largest of some counts is less than their sum where two are positive. -/
theorem foldl_max_lt_sum {α : Type} (f : α → ℕ) {l : List α}
    (h : 2 ≤ (l.filter fun a ↦ f a ≠ 0).length) : (l.map f).foldl max 0 < (l.map f).sum := by
  induction l with
  | nil => simp at h
  | cons a l ih =>
      rw [List.map_cons, List.foldl_cons, List.sum_cons, Nat.zero_max]
      by_cases ha : f a = 0
      · rw [List.filter_cons_of_neg (by simp [ha])] at h
        rw [ha, Nat.zero_add]
        exact ih h
      · rw [List.filter_cons_of_pos (by simpa using ha), List.length_cons] at h
        obtain ⟨b, hb⟩ := List.exists_mem_of_length_pos (l := l.filter fun a ↦ f a ≠ 0) (by omega)
        obtain ⟨hmem, hne⟩ := List.mem_filter.mp hb
        have hpos : f b ≠ 0 := by simpa using hne
        exact foldl_max_lt (by omega) (List.mem_map_of_mem hmem) (by omega)

end Lists

variable {U : Unicode}

/-- The calls of some parts for a client. -/
def toolCallsIn (parts : List GeminiPart) : List Fields := (callsOf parts).map fun c ↦ c.1.toolCall c.2

theorem mergeCalls_geminiDelta (calls : List CallState) (text : Text) (toolCalls : List Fields) :
    mergeCalls U (placed calls) (geminiDelta text toolCalls) = placed (overlay U calls 0 toolCalls) := by
  cases toolCalls with
  | nil => cases text <;> rfl
  | cons call toolCalls =>
      rw [← foldl_mergeToolCallDelta_withIndex (Nat.zero_le _) (call :: toolCalls) 0]
      cases text <;> rfl

theorem deltaText_geminiDelta (text : Text) (toolCalls : List Fields) :
    deltaText (geminiDelta text toolCalls) = text := by
  cases text <;> cases toolCalls <;> rfl

/-- The state of a call that is told whole. -/
def stateOf (c : GeminiCall × ℕ) : CallState :=
  ⟨.str (c.1.clientId c.2), .str functionKey, c.1.name, dumps (.obj c.1.args)⟩

theorem addCallDelta_toolCall (c : GeminiCall × ℕ) :
    addCallDelta U .new (c.1.toolCall c.2) = stateOf c := by
  have hname : truthyStr U [("name".toList, .str c.1.name),
      ("arguments".toList, .str (dumps (.obj c.1.args)))] "name".toList = c.1.name :=
    truthyStr_str rfl
  have harguments : truthyStr U [("name".toList, .str c.1.name),
      ("arguments".toList, .str (dumps (.obj c.1.args)))] "arguments".toList =
        dumps (.obj c.1.args) := truthyStr_str rfl
  have hid : ((some (Value.str (c.1.clientId c.2))).filter Value.truthy).getD (.str []) =
      .str (c.1.clientId c.2) := by
    obtain ⟨d, id, hid⟩ := List.exists_cons_of_ne_nil (clientId_ne_nil c.1 c.2)
    rw [hid]
    rfl
  unfold stateOf
  rw [← hid, ← hname, ← harguments]
  rfl

/-- What the calls of the chunks are put together to. -/
def mergedCalls (U : Unicode) (chunkParts : List (List GeminiPart)) : List CallState :=
  chunkParts.foldl (fun calls parts ↦ overlay U calls 0 (toolCallsIn parts)) []

theorem length_mergedCalls (chunkParts : List (List GeminiPart)) :
    (mergedCalls U chunkParts).length =
      (chunkParts.map fun parts ↦ (callsOf parts).length).foldl max 0 := by
  have hfrom : ∀ calls : List CallState,
      (chunkParts.foldl (fun calls parts ↦ overlay U calls 0 (toolCallsIn parts)) calls).length =
        (chunkParts.map fun parts ↦ (callsOf parts).length).foldl max calls.length := by
    induction chunkParts with
    | nil => exact fun _ ↦ rfl
    | cons parts chunkParts ih =>
        intro calls
        rw [List.foldl_cons, ih, length_overlay (Nat.zero_le _), toolCallsIn, List.length_map,
          Nat.zero_add]
        rfl
  exact hfrom []

theorem foldl_overlay_of_nil {chunkParts : List (List GeminiPart)}
    (h : ∀ parts ∈ chunkParts, callsOf parts = []) (calls : List CallState) :
    chunkParts.foldl (fun calls parts ↦ overlay U calls 0 (toolCallsIn parts)) calls = calls := by
  induction chunkParts with
  | nil => rfl
  | cons parts chunkParts ih =>
      rw [List.foldl_cons, toolCallsIn, h parts List.mem_cons_self]
      exact ih fun parts hparts ↦ h parts (List.mem_cons_of_mem _ hparts)

/-- Calls that are all in one chunk are put together as they are. -/
theorem mergedCalls_eq {chunkParts : List (List GeminiPart)}
    (h : (chunkParts.filter fun parts ↦ !(callsOf parts).isEmpty).length ≤ 1) :
    mergedCalls U chunkParts = chunkParts.flatMap fun parts ↦ (callsOf parts).map stateOf := by
  unfold mergedCalls
  induction chunkParts with
  | nil => rfl
  | cons parts chunkParts ih =>
      rw [List.foldl_cons, List.flatMap_cons]
      by_cases hparts : callsOf parts = []
      · rw [List.filter_cons_of_neg (by simp [hparts])] at h
        rw [toolCallsIn, hparts]
        exact ih h
      · rw [List.filter_cons_of_pos (by simpa using hparts), List.length_cons] at h
        have hnil : chunkParts.filter (fun parts ↦ !(callsOf parts).isEmpty) = [] :=
          List.eq_nil_of_length_eq_zero (by omega)
        have hrest : ∀ parts ∈ chunkParts, callsOf parts = [] := fun parts hmem ↦ by
          simpa using List.filter_eq_nil_iff.mp hnil parts hmem
        have hflat : chunkParts.flatMap (fun parts ↦ (callsOf parts).map stateOf) = [] := by
          refine List.flatMap_eq_nil_iff.mpr fun parts hmem ↦ ?_
          rw [hrest parts hmem]
          rfl
        have hfirst : overlay U [] 0 (toolCallsIn parts) = (callsOf parts).map stateOf := by
          have hnew := overlay_length (U := U) [] (toolCallsIn parts)
          rw [toolCallsIn, List.map_map] at hnew
          exact hnew.trans (congrArg (List.map · _) (funext addCallDelta_toolCall))
        rw [foldl_overlay_of_nil hrest, hflat, List.append_nil, hfirst]

/-! ### What is translated -/

def textOf (parts : List GeminiPart) : Text := (parts.filterMap GeminiPart.text?).flatten

theorem partTexts_eq {parts : List GeminiPart} {values : List Value}
    (h : List.Forall₂ GeminiPart.Describes parts values) :
    partTexts values = some (parts.filterMap GeminiPart.text?) := by
  induction h with
  | nil => rfl
  | @cons part v parts values hpart _ ih =>
      obtain ⟨fields, rfl, htext, -⟩ := hpart
      rw [partTexts, ih, htext]
      cases part <;> rfl

theorem toolCallsIn_eq {parts : List GeminiPart} {values : List Value}
    (h : List.Forall₂ GeminiPart.Describes parts values) :
    geminiPartsToToolCalls U 0 values = some (toolCallsIn parts) := by
  refine geminiPartsToToolCalls_eq (List.forall₂_map_left_iff.mpr (h.imp fun part v hpart ↦ ?_)) 0
  obtain ⟨fields, rfl, -, hcall⟩ := hpart
  refine ⟨fields, rfl, ?_⟩
  cases part <;> exact hcall

/-- The finish reason that a reply has with these parts. -/
def reasonFor (parts : List GeminiPart) (reason : Text) : Value :=
  if (callsOf parts).isEmpty then .str ((finishReasons.lookup reason).getD reason)
  else .str "tool_calls".toList

/-- What a chunk says. -/
def pieceOf (parts : List GeminiPart) (reason : Option Text) : Piece :=
  ⟨geminiDelta (textOf parts) (toolCallsIn parts), (reason.map (reasonFor parts)).getD .null⟩

theorem isEmpty_toolCallsIn (parts : List GeminiPart) :
    (toolCallsIn parts).isEmpty = (callsOf parts).isEmpty := List.isEmpty_map

theorem translate_chunk {chunk : Fields} {parts : List GeminiPart} {reason : Option Text}
    (h : IsGeminiChunk chunk parts reason) :
    ∃ translated, geminiTranslateStreamChunk U chunk = some translated ∧
      translated.1.choices = [(pieceOf parts reason).choice] := by
  obtain ⟨⟨candidate, hcandidates, ⟨values, hvalues, hparts⟩, hreason⟩, usage, husage⟩ := h
  have hfirst : firstCandidate chunk = some (some candidate) := by
    unfold firstCandidate
    rw [getOr_of_lookup hcandidates]
  have hraw : getOr candidate "finishReason".toList .null = (reason.map Value.str).getD .null := by
    unfold getOr
    rw [hreason]
  have hmapped : streamReason (!(callsOf parts).isEmpty) ((reason.map Value.str).getD .null) =
      some ((reason.map (reasonFor parts)).getD .null) := by
    unfold streamReason
    cases reason with
    | none => cases (callsOf parts).isEmpty <;> rfl
    | some text =>
        unfold reasonFor
        cases (callsOf parts).isEmpty <;> rfl
  refine ⟨(⟨textOr chunk "responseId" "id", [(pieceOf parts reason).choice],
    textOr chunk "modelVersion" "model", !isNull ((reason.map Value.str).getD .null)⟩, usage), ?_, rfl⟩
  unfold geminiTranslateStreamChunk
  rw [hfirst, husage]
  dsimp only [Option.bind_eq_bind, Option.bind_some]
  rw [hvalues, Option.bind_some, partTexts_eq hparts, Option.bind_some, toolCallsIn_eq hparts,
    Option.bind_some, isEmpty_toolCallsIn, hraw, hmapped]
  rfl

theorem translate_reply {reply : Fields} {parts : List GeminiPart} {reason : Text}
    (h : IsGeminiReply reply parts reason) :
    ∃ response usage, geminiTranslateResponse U reply = some (response, usage) ∧
      response.choices = [replyChoice (textOf parts) ((toolCallsIn parts).map .obj)
        (reasonFor parts reason)] := by
  obtain ⟨⟨candidate, hcandidates, ⟨values, hvalues, hparts⟩, hreason⟩, usage, husage⟩ := h
  have hfirst : firstCandidate reply = some (some candidate) := by
    unfold firstCandidate
    rw [getOr_of_lookup hcandidates]
  have hraw : getOr candidate "finishReason".toList (.str "STOP".toList) = .str reason :=
    getOr_of_lookup hreason _
  have hchoice : geminiReplyChoice U (some candidate) = some (replyChoice (textOf parts)
      ((toolCallsIn parts).map .obj) (reasonFor parts reason)) := by
    unfold geminiReplyChoice
    dsimp only [Option.bind_eq_bind]
    rw [hvalues, Option.bind_some, partTexts_eq hparts, Option.bind_some, hraw, mapReason,
      Option.bind_some, toolCallsIn_eq hparts, Option.bind_some, isEmpty_toolCallsIn]
    rfl
  refine ⟨⟨textOr reply "responseId" "id", [replyChoice (textOf parts)
    ((toolCallsIn parts).map .obj) (reasonFor parts reason)], textOr reply "modelVersion" "model"⟩,
    usage, ?_, rfl⟩
  unfold geminiTranslateResponse
  rw [hfirst, husage]
  dsimp only [Option.bind_eq_bind, Option.bind_some]
  rw [hchoice]
  rfl

/-! ### What a stream says -/

/-- The pieces of a stream: only the last one has the finish reason. -/
def streamPieces (reason : Text) : List (List GeminiPart) → List Piece
  | [] => []
  | [parts] => [pieceOf parts (some reason)]
  | parts :: later => pieceOf parts none :: streamPieces reason later

theorem GeminiStream.ne_nil {reason : Text} {chunkParts : List (List GeminiPart)}
    {chunks : List Fields} (h : GeminiStream reason chunkParts chunks) : chunkParts ≠ [] := by
  cases h <;> exact List.cons_ne_nil _ _

theorem streamPieces_cons {reason : Text} {parts : List GeminiPart}
    {later : List (List GeminiPart)} (h : later ≠ []) :
    streamPieces reason (parts :: later) = pieceOf parts none :: streamPieces reason later := by
  obtain ⟨next, rest, rfl⟩ := List.exists_cons_of_ne_nil h
  rfl

theorem translate_stream {reason : Text} {chunkParts : List (List GeminiPart)}
    {chunks : List Fields} (h : GeminiStream reason chunkParts chunks) :
    ∃ translated, translateChunks (geminiTranslateStreamChunk U) chunks = some translated ∧
      Single (translated.map Prod.fst) ∧
      Says (translated.map Prod.fst) (streamPieces reason chunkParts) := by
  induction h with
  | last hchunk =>
      obtain ⟨translated, htranslated, hchoices⟩ := translate_chunk (U := U) hchunk
      refine ⟨[translated], ?_, ?_, ?_⟩
      · rw [translateChunks, htranslated]
        rfl
      · intro chunk hmem
        rw [List.mem_singleton.mp hmem, hchoices]
        exact le_rfl
      · exact (List.append_nil _).trans hchoices
  | @more chunk parts later chunks hchunk hlater ih =>
      obtain ⟨translated, htranslated, hchoices⟩ := translate_chunk (U := U) hchunk
      obtain ⟨rest, hrest, hsingle, hsays⟩ := ih
      refine ⟨translated :: rest, ?_, ?_, ?_⟩
      · rw [translateChunks, htranslated, hrest]
        rfl
      · intro chunk hmem
        rcases List.mem_cons.mp hmem with rfl | hmem
        · rw [hchoices]
          exact le_rfl
        · exact hsingle chunk hmem
      · unfold Says at hsays ⊢
        rw [List.map_cons, List.flatMap_cons, hchoices, hsays, streamPieces_cons hlater.ne_nil]
        rfl

theorem deltaText_streamPieces (reason : Text) (chunkParts : List (List GeminiPart)) :
    (streamPieces reason chunkParts).flatMap (fun piece ↦ deltaText piece.delta) =
      textOf chunkParts.flatten := by
  have hone : ∀ parts reason, deltaText (pieceOf parts reason).delta = textOf parts :=
    fun parts _ ↦ deltaText_geminiDelta _ _
  induction chunkParts with
  | nil => rfl
  | cons parts later ih =>
      have hflat : textOf (parts :: later).flatten = textOf parts ++ textOf later.flatten := by
        simp [textOf]
      cases later with
      | nil =>
          change deltaText (pieceOf parts (some reason)).delta ++ [] = _
          rw [hflat, hone]
          rfl
      | cons next later =>
          rw [streamPieces_cons (List.cons_ne_nil _ _), List.flatMap_cons, hone, ih, hflat]

theorem mergeCalls_streamPieces (reason : Text) (chunkParts : List (List GeminiPart)) :
    (streamPieces reason chunkParts).foldl (fun calls piece ↦ mergeCalls U calls piece.delta) [] =
      placed (mergedCalls U chunkParts) := by
  have hfrom : ∀ calls : List CallState, (streamPieces reason chunkParts).foldl
      (fun calls piece ↦ mergeCalls U calls piece.delta) (placed calls) =
        placed (chunkParts.foldl (fun calls parts ↦ overlay U calls 0 (toolCallsIn parts)) calls) := by
    induction chunkParts with
    | nil => exact fun _ ↦ rfl
    | cons parts later ih =>
        intro calls
        cases later with
        | nil => exact mergeCalls_geminiDelta _ _ _
        | cons next later =>
            have hone : mergeCalls U (placed calls) (pieceOf parts none).delta =
                placed (overlay U calls 0 (toolCallsIn parts)) := mergeCalls_geminiDelta _ _ _
            rw [streamPieces_cons (List.cons_ne_nil _ _), List.foldl_cons, List.foldl_cons, hone]
            exact ih _
  exact hfrom []

theorem streamPieces_eq (reason : Text) {chunkParts : List (List GeminiPart)} (h : chunkParts ≠ []) :
    streamPieces reason chunkParts = chunkParts.dropLast.map (pieceOf · none) ++
      [pieceOf (chunkParts.getLast h) (some reason)] := by
  induction chunkParts with
  | nil => exact absurd rfl h
  | cons parts later ih =>
      cases later with
      | nil => rfl
      | cons next later =>
          rw [streamPieces_cons (List.cons_ne_nil _ _), ih (List.cons_ne_nil _ _)]
          rfl

theorem finishReason_streamPieces (reason : Text) {chunkParts : List (List GeminiPart)}
    (h : chunkParts ≠ []) :
    (mergePieces U .new (streamPieces reason chunkParts)).finishReason =
      reasonFor (chunkParts.getLast h) reason := by
  rw [streamPieces_eq reason h, mergePieces_append]
  refine finishReason_afterChunk _ _ ?_
  change reasonFor _ _ ≠ .null
  unfold reasonFor
  split_ifs <;> simp

/-! ### The two views -/

/-- A client's view of a call. -/
def viewOf (c : GeminiCall × ℕ) : CallView :=
  ⟨.str (c.1.clientId c.2), .str c.1.name, .str (dumps (.obj c.1.args))⟩

theorem streamed_view {reason : Text} {chunkParts : List (List GeminiPart)} {chunks : List Fields}
    (h : GeminiStream reason chunkParts chunks) (model : Text) :
    ∃ translated, translateChunks (geminiTranslateStreamChunk U) chunks = some translated ∧
      (responseFromStreamChunks U (translated.map Prod.fst) model).choices.map choiceView =
        [⟨textOf chunkParts.flatten, (mergedCalls U chunkParts).map CallState.view,
          reasonFor (chunkParts.getLast h.ne_nil) reason⟩] := by
  obtain ⟨translated, htranslated, hsingle, hsays⟩ := translate_stream (U := U) h
  refine ⟨translated, htranslated, ?_⟩
  have hcontent := content_mergePieces (U := U) .new (streamPieces reason chunkParts)
  rw [deltaText_streamPieces] at hcontent
  have hcalls := toolCalls_mergePieces (U := U) .new (streamPieces reason chunkParts)
  rw [show ChoiceState.new.toolCalls = [] from rfl, mergeCalls_streamPieces] at hcalls
  rw [choices_of_pieces hsingle hsays, List.map_singleton, choiceView_toChoice, hcalls,
    sortedByKey_placed, map_placed, hcontent, finishReason_streamPieces reason h.ne_nil]
  rfl

theorem whole_view {reply : Fields} {parts : List GeminiPart} {reason : Text}
    (h : IsGeminiReply reply parts reason) :
    ∃ response usage, geminiTranslateResponse U reply = some (response, usage) ∧
      response.choices.map choiceView =
        [⟨textOf parts, (callsOf parts).map viewOf, reasonFor parts reason⟩] := by
  obtain ⟨response, usage, hresponse, hchoices⟩ := translate_reply (U := U) h
  refine ⟨response, usage, hresponse, ?_⟩
  rw [hchoices, List.map_singleton, choiceView_replyChoice, toolCallsIn, List.map_map, List.map_map]
  rfl

/-! ### Agreement -/

theorem CutTexts.textOf_eq {parts cut : List GeminiPart} (h : CutTexts parts cut) :
    textOf cut = textOf parts := by
  induction h with
  | nil => rfl
  | call call _ ih => exact ih
  | @text parts cut texts _ ih =>
      have hcut : textOf (texts.map .text ++ cut) = texts.flatten ++ textOf cut := by
        unfold textOf
        rw [List.filterMap_append, List.flatten_append, List.filterMap_map]
        exact congrArg (· ++ _) (congrArg List.flatten List.filterMap_some)
      rw [hcut, ih]
      rfl

theorem CutTexts.calls_eq {parts cut : List GeminiPart} (h : CutTexts parts cut) :
    cut.filterMap GeminiPart.call? = parts.filterMap GeminiPart.call? := by
  induction h with
  | nil => rfl
  | call call _ ih => exact congrArg (call :: ·) ih
  | text texts _ ih =>
      rw [List.filterMap_append, List.filterMap_map, ih]
      exact congrArg (· ++ _) (List.filterMap_eq_nil_iff.mpr fun _ _ ↦ rfl)

theorem map_fst_callsOf (parts : List GeminiPart) :
    (callsOf parts).map Prod.fst = parts.filterMap GeminiPart.call? := by
  rw [callsOf, map_fst_placedParts, List.reduceOption, List.filterMap_map]
  rfl

/-- The calls of the chunks are the calls of the whole reply. -/
theorem CutTexts.calls_flatMap {parts : List GeminiPart} {chunkParts : List (List GeminiPart)}
    (h : CutTexts parts chunkParts.flatten) :
    (chunkParts.flatMap callsOf).map Prod.fst = (callsOf parts).map Prod.fst := by
  rw [List.map_flatMap, map_fst_callsOf, ← h.calls_eq, List.filterMap_flatten]
  exact List.flatMap_congr fun _ _ ↦ map_fst_callsOf _

/-- Nothing but the reason of calls stands for the reason of calls. -/
theorem mapped_eq_toolCalls_iff (reason : Text) :
    (finishReasons.lookup reason).getD reason = "tool_calls".toList ↔
      reason = "tool_calls".toList := by
  unfold finishReasons
  rw [List.lookup_cons, List.lookup_cons, List.lookup_nil]
  by_cases hstop : reason = "STOP".toList
  · subst hstop
    decide
  by_cases hlength : reason = "MAX_TOKENS".toList
  · subst hlength
    decide
  rw [beq_false_of_ne hstop, beq_false_of_ne hlength]
  rfl

theorem reasonFor_eq_iff {parts last : List GeminiPart} {reason : Text}
    (h : callsOf parts = [] → callsOf last = []) :
    reasonFor last reason = reasonFor parts reason ↔
      reason = "tool_calls".toList ∨ callsOf parts = [] ∨ callsOf last ≠ [] := by
  unfold reasonFor
  by_cases hparts : callsOf parts = []
  · rw [h hparts, hparts]
    simp
  have hnot : (callsOf parts).isEmpty = false := by simpa using hparts
  by_cases hlast : callsOf last = []
  · rw [hnot, hlast]
    simp only [List.isEmpty_nil, if_true, Bool.false_eq_true, if_false, Value.str.injEq,
      mapped_eq_toolCalls_iff, ne_eq, not_true_eq_false, or_false, hparts]
  · have hnotLast : (callsOf last).isEmpty = false := by simpa using hlast
    rw [hnot, hnotLast]
    simp [hlast]

theorem callsOf_eq_nil_iff {parts : List GeminiPart} {chunkParts : List (List GeminiPart)}
    (h : CutTexts parts chunkParts.flatten) :
    callsOf parts = [] ↔ ∀ chunk ∈ chunkParts, callsOf chunk = [] := by
  rw [← List.flatMap_eq_nil_iff, ← List.map_eq_nil_iff (f := Prod.fst), ← h.calls_flatMap,
    List.map_eq_nil_iff]

/-- The finish reasons agree where the last chunk has calls if any has. -/
theorem finishReason_iff {parts : List GeminiPart} {chunkParts : List (List GeminiPart)}
    (h : CutTexts parts chunkParts.flatten) (hne : chunkParts ≠ []) (reason : Text) :
    reasonFor (chunkParts.getLast hne) reason = reasonFor parts reason ↔
      reason = "tool_calls".toList ∨ (∀ chunk ∈ chunkParts, callsOf chunk = []) ∨
        ∃ chunk ∈ chunkParts.getLast?, callsOf chunk ≠ [] := by
  have hnil := callsOf_eq_nil_iff h
  rw [reasonFor_eq_iff fun hparts ↦ hnil.mp hparts _ (List.getLast_mem hne), hnil,
    List.getLast?_eq_some_getLast hne]
  simp

/-- As many calls as in the whole reply are put together only where one chunk has them all. -/
theorem once_of_length {chunkParts : List (List GeminiPart)}
    (h : (mergedCalls U chunkParts).length = (chunkParts.flatMap callsOf).length) :
    (chunkParts.filter fun parts ↦ !(callsOf parts).isEmpty).length ≤ 1 := by
  by_contra hmany
  have hlt := foldl_max_lt_sum (fun parts ↦ (callsOf parts).length) (l := chunkParts) (by
    have hsame : (fun parts ↦ decide ((callsOf parts).length ≠ 0)) =
        fun parts ↦ !(callsOf parts).isEmpty := by
      funext parts
      cases callsOf parts <;> rfl
    rw [hsame]
    omega)
  rw [length_mergedCalls, List.length_flatMap] at h
  exact hlt.ne h

/-- The ids of the calls of one chunk are their own. -/
theorem nodup_ids_iff {chunkParts : List (List GeminiPart)}
    (h : (chunkParts.filter fun parts ↦ !(callsOf parts).isEmpty).length ≤ 1) :
    (((chunkParts.flatMap callsOf).map viewOf).map CallView.id).Nodup ↔
      ∀ parts ∈ chunkParts,
        (callsOf parts).Pairwise fun c c' ↦ ¬Collide (idSource c) (idSource c') := by
  have hone : ∀ calls : List (GeminiCall × ℕ), ((calls.map viewOf).map CallView.id).Nodup ↔
      calls.Pairwise fun c c' ↦ ¬Collide (idSource c) (idSource c') := by
    intro calls
    rw [List.Nodup, List.map_map, List.pairwise_map]
    refine List.Pairwise.iff fun c c' ↦ ?_
    rw [collide_iff, ← clientId_eq, ← clientId_eq]
    simp [viewOf]
  rw [hone]
  refine ⟨fun hall parts hparts ↦ ?_, fun hall ↦ ?_⟩
  · exact hall.sublist (List.sublist_flatten_of_mem (List.mem_map_of_mem hparts))
  · rcases flatMap_eq_of_single callsOf h with hnil | ⟨parts, hparts, heq⟩
    · rw [hnil]
      exact List.Pairwise.nil
    · rw [heq]
      exact hall parts hparts

/-- The views agree exactly where the calls come together. -/
theorem sameView_iff {parts : List GeminiPart} {chunkParts : List (List GeminiPart)}
    (hcut : CutTexts parts chunkParts.flatten) (hne : chunkParts ≠ []) (reason : Text) :
    SameView ⟨textOf chunkParts.flatten, (mergedCalls U chunkParts).map CallState.view,
        reasonFor (chunkParts.getLast hne) reason⟩
      ⟨textOf parts, (callsOf parts).map viewOf, reasonFor parts reason⟩ ↔
      CallsTogether chunkParts reason := by
  have hcalls : (chunkParts.flatMap callsOf).map Prod.fst = (callsOf parts).map Prod.fst :=
    hcut.calls_flatMap
  have hmerged : (chunkParts.filter fun parts ↦ !(callsOf parts).isEmpty).length ≤ 1 →
      (mergedCalls U chunkParts).map CallState.view = (chunkParts.flatMap callsOf).map viewOf := by
    intro honce
    rw [mergedCalls_eq honce, List.map_flatMap, List.map_flatMap]
    refine List.flatMap_congr fun parts _ ↦ ?_
    rw [List.map_map]
    rfl
  constructor
  · rintro ⟨-, hsame, hids, hreason⟩
    have honce : (chunkParts.filter fun parts ↦ !(callsOf parts).isEmpty).length ≤ 1 := by
      apply once_of_length (U := U)
      have hlength := congrArg List.length hsame
      have hsum := congrArg List.length hcalls
      simp only [List.length_map] at hlength hsum
      exact hlength.trans hsum.symm
    dsimp only at hids
    rw [hmerged honce, nodup_ids_iff honce] at hids
    exact ⟨honce, (finishReason_iff hcut hne reason).mp hreason, hids⟩
  · rintro ⟨honce, hlast, hids⟩
    refine ⟨hcut.textOf_eq, ?_, ?_, (finishReason_iff hcut hne reason).mpr hlast⟩
    · -- A name and arguments do not depend on the place of a call.
      have hviews : ∀ calls : List (GeminiCall × ℕ),
          (calls.map viewOf).map (fun call ↦ (call.name, call.arguments)) =
            (calls.map Prod.fst).map fun call ↦
              (Value.str call.name, Value.str (dumps (.obj call.args))) := by
        intro calls
        rw [List.map_map, List.map_map]
        rfl
      dsimp only
      rw [hmerged honce, hviews, hviews, hcalls]
    · dsimp only
      rw [hmerged honce]
      exact (nodup_ids_iff honce).mpr hids

/-- The stream and the whole reply agree exactly if one chunk has all the calls, with ids of their
own, and it is the last one. -/
theorem geminiAgrees_iff_callsTogether {adapter : GeminiAdapter}
    (hadapter : adapter ∈ [googleAIAdapter U, vertexAIAdapter U]) {reply : Fields}
    {parts : List GeminiPart} {reason : Text} (hreply : IsGeminiReply reply parts reason)
    {chunkParts : List (List GeminiPart)} {chunks : List Fields}
    (hstream : GeminiStream reason chunkParts chunks) (hcut : CutTexts parts chunkParts.flatten)
    (model : Text) :
    GeminiAgrees adapter U model reply chunks ↔ CallsTogether chunkParts reason := by
  obtain rfl : adapter = ⟨geminiTranslateResponse U, geminiTranslateStreamChunk U⟩ := by
    rcases List.mem_cons.mp hadapter with rfl | hadapter
    · rfl
    · exact List.mem_singleton.mp hadapter
  obtain ⟨translated, htranslated, hstreamed⟩ := streamed_view (U := U) hstream model
  obtain ⟨response, usage, hresponse, hwhole⟩ := whole_view (U := U) hreply
  rw [← sameView_iff (U := U) hcut hstream.ne_nil reason]
  constructor
  · rintro ⟨translated', response', usage', streamed, whole, htranslated', hresponse', hstreamed',
      hwhole', hsame⟩
    obtain rfl := Option.some.inj (htranslated.symm.trans htranslated')
    obtain ⟨rfl, -⟩ := Prod.mk.inj (Option.some.inj (hresponse.symm.trans hresponse'))
    obtain rfl := List.singleton_inj.mp (hstreamed.symm.trans hstreamed')
    obtain rfl := List.singleton_inj.mp (hwhole.symm.trans hwhole')
    exact hsame
  · intro hsame
    exact ⟨translated, response, usage, _, _, htranslated, hresponse, hstreamed, hwhole, hsame⟩

/-! ### One call, and two in two chunks -/

/-- A reply or a chunk with one candidate. -/
def candidateOf (values : List Value) (reason : Option Text) : Fields :=
  [("candidates".toList, .arr [.obj ((contentKey, .obj [(partsKey, .arr values)]) ::
    reason.toList.map fun text ↦ ("finishReason".toList, .str text))])]

theorem isCandidate_candidateOf {parts : List GeminiPart} {values : List Value}
    (h : List.Forall₂ GeminiPart.Describes parts values) (reason : Option Text) :
    ∃ candidate, (candidateOf values reason).lookup "candidates".toList =
      some (.arr [.obj candidate]) ∧ IsCandidate candidate parts reason := by
  refine ⟨_, rfl, ⟨values, rfl, h⟩, ?_⟩
  cases reason <;> rfl

theorem isGeminiReply_candidateOf {parts : List GeminiPart} {values : List Value}
    (h : List.Forall₂ GeminiPart.Describes parts values) (reason : Text) :
    IsGeminiReply (candidateOf values (some reason)) parts reason :=
  ⟨isCandidate_candidateOf h (some reason), _, rfl⟩

theorem isGeminiChunk_candidateOf {parts : List GeminiPart} {values : List Value}
    (h : List.Forall₂ GeminiPart.Describes parts values) (reason : Option Text) :
    IsGeminiChunk (candidateOf values reason) parts reason :=
  ⟨isCandidate_candidateOf h reason, none, rfl⟩

theorem describes_callPart (id : String) :
    GeminiPart.Describes (.call (lookUp id none)) (lookUp id none).replyPart := by
  obtain ⟨fields, hfields, hcall⟩ := describes_lookUp id none
  obtain rfl := Value.obj.inj hfields
  exact ⟨_, rfl, rfl, hcall⟩

theorem describes_textPart (text : Text) :
    GeminiPart.Describes (.text text) (.obj [("text".toList, .str text)]) := ⟨_, rfl, rfl, rfl⟩

def hi : Value := .obj [("text".toList, .str "hi".toList)]

theorem geminiAgrees_textThenCall :
    GeminiAgrees (googleAIAdapter asciiUnicode) asciiUnicode "m".toList
      (candidateOf [hi, (lookUp "a" none).replyPart] (some "STOP".toList))
      [candidateOf [hi] none, candidateOf [(lookUp "a" none).replyPart] (some "STOP".toList)] := by
  have hhi : List.Forall₂ GeminiPart.Describes [.text "hi".toList] [hi] :=
    .cons (describes_textPart _) .nil
  have hcall : List.Forall₂ GeminiPart.Describes [.call (lookUp "a" none)]
      [(lookUp "a" none).replyPart] := .cons (describes_callPart "a") .nil
  refine (geminiAgrees_iff_callsTogether List.mem_cons_self
    (isGeminiReply_candidateOf (.cons (describes_textPart _) hcall) _)
    (.more (isGeminiChunk_candidateOf hhi none) (.last (isGeminiChunk_candidateOf hcall _)))
    (.text ["hi".toList] (.call (lookUp "a" none) .nil)) _).mpr ⟨le_rfl, ?_, ?_⟩
  · exact .inr (.inr ⟨_, rfl, List.cons_ne_nil _ _⟩)
  · intro parts hparts
    rcases List.mem_cons.mp hparts with rfl | hparts
    · exact List.Pairwise.nil
    · rw [List.mem_singleton.mp hparts]
      exact List.pairwise_singleton _ _

/-- Two calls in two chunks become one. -/
theorem callsInTwoChunks_merged :
    ¬∀ (U : Unicode) (adapter : GeminiAdapter) (model : Text) (reply : Fields)
      (parts : List GeminiPart) (reason : Text) (chunkParts : List (List GeminiPart))
      (chunks : List Fields), adapter ∈ [googleAIAdapter U, vertexAIAdapter U] →
      IsGeminiReply reply parts reason → GeminiStream reason chunkParts chunks →
      CutTexts parts chunkParts.flatten → GeminiAgrees adapter U model reply chunks := by
  intro h
  have hfirst : List.Forall₂ GeminiPart.Describes [.call (lookUp "a" none)]
      [(lookUp "a" none).replyPart] := .cons (describes_callPart "a") .nil
  have hsecond : List.Forall₂ GeminiPart.Describes [.call (lookUp "b" none)]
      [(lookUp "b" none).replyPart] := .cons (describes_callPart "b") .nil
  have hreply := isGeminiReply_candidateOf (.cons (describes_callPart "a") hsecond) "STOP".toList
  have hstream := GeminiStream.more (isGeminiChunk_candidateOf hfirst none)
    (.last (isGeminiChunk_candidateOf hsecond (some "STOP".toList)))
  have hcut : CutTexts _ [GeminiPart.call (lookUp "a" none), .call (lookUp "b" none)] :=
    .call (lookUp "a" none) (.call (lookUp "b" none) .nil)
  obtain ⟨translated, response, usage, streamed, whole, htranslated, hresponse, hstreamed, hwhole,
    hsame⟩ := h asciiUnicode _ "m".toList _ _ _ _ _ List.mem_cons_self hreply hstream hcut
  obtain ⟨translated', htranslated', hview⟩ := streamed_view (U := asciiUnicode) hstream "m".toList
  obtain ⟨response', usage', hresponse', hview'⟩ := whole_view (U := asciiUnicode) hreply
  obtain rfl := Option.some.inj (htranslated'.symm.trans htranslated)
  obtain ⟨rfl, -⟩ := Prod.mk.inj (Option.some.inj (hresponse'.symm.trans hresponse))
  obtain rfl := List.singleton_inj.mp (hview.symm.trans hstreamed)
  obtain rfl := List.singleton_inj.mp (hview'.symm.trans hwhole)
  have hlength := congrArg List.length hsame.calls
  simp only [List.length_map, length_mergedCalls] at hlength
  exact absurd hlength (by decide)

end Adapters
