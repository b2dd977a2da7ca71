import AxonGateway.Adapters.GeminiTools
import AxonGateway.Adapters.Responses
import AxonGateway.Lib.Utf8
import AxonGateway.Providers.StreamFraming

/-!
# Reading the stream of a provider

The events on the lines of a stream are translated to chunks. Chunks with metadata only are held
back until a chunk shows that the provider produced something, and a stream that ends without such
a chunk or without a terminal event is an error.
-/

namespace Providers

open PyValue Screening Adapters

/-! ### Chunks -/

/-- A choice with a finish reason, a text or a call. -/
def choiceSignals (choice : Choice) : Bool :=
  !isNull (getOr choice finishReasonKey .null) ||
    match choice.lookup deltaKey with
    | some (.obj delta) =>
        (match delta.lookup contentKey with
          | some (.str content) => !content.isEmpty
          | _ => false) ||
          (getOr delta toolCallsKey .null).truthy || (getOr delta functionCallKey .null).truthy
    | _ => false

/-- `_stream_chunk_has_signal` -/
def streamChunkHasSignal (chunk : Translated) : Bool :=
  chunk.1.isFinal || chunk.1.choices.any choiceSignals

/-- `_stream_chunk_has_metadata` -/
def streamChunkHasMetadata (chunk : Translated) : Bool :=
  !chunk.1.id.isEmpty || !chunk.1.model.isEmpty || chunk.2.isSome || !chunk.1.choices.isEmpty

/-- `_stream_chunk_is_terminal` -/
def streamChunkIsTerminal (chunk : Translated) : Bool :=
  chunk.1.isFinal ||
    chunk.1.choices.any fun choice ↦ !isNull (getOr choice finishReasonKey .null)

/-- `_is_stream_error_event`; only a text reads as one of the two types. -/
def isStreamErrorEvent (event : Value) : Bool :=
  match event with
  | .obj event =>
      let eventType := orElse (getOr event typeKey .null) (getOr event "event_type".toList .null)
      isText eventType "error" || isText eventType "response.failed" ||
        match event.lookup "error".toList with
        | some (.str error) => !error.isEmpty
        | some (.obj error) => !error.isEmpty
        | _ => false
  | _ => false

/-! ### Lines -/

def dataPrefix : Text := "data:".toList

/-- The data of a line, if it has any. -/
def lineData (rawLine : Bytes) : Option Text :=
  let line := (Utf8.decodeReplace rawLine).rdropWhile fun c ↦ c == '\n' || c == '\r'
  if dataPrefix.isPrefixOf line then some ((line.drop dataPrefix.length).dropWhile (· == ' '))
  else
    let data := line.dropWhile PyText.isSpace
    if data.head? = some JsonText.openBrace ∨ data.head? = some '[' then some data else none

/-- What a line says. -/
inductive LineEvent where
  | skipped
  | done
  | malformed
  | failed
  | event (parsed : Value)

def lineEvent (rawLine : Bytes) : LineEvent :=
  match lineData rawLine with
  | none => .skipped
  | some data =>
      if data = "[DONE]".toList then .done
      else match JsonText.loads data with
        | none => .malformed
        | some parsed => if isStreamErrorEvent parsed then .failed else .event parsed

/-! ### The stream -/

section

variable {σ : Type}

/-- The translator of an adapter; nothing where it raises. -/
abbrev Translator (σ : Type) := σ → Value → Option (Translated × σ)

/-- The variables of the loop. -/
structure Reading (σ : Type) where
  pending : List Translated
  sawSignal : Bool
  sawTerminal : Bool
  translator : σ

def maxPendingStreamMetadata : ℕ := 32

inductive Ending where
  | finished
  | failed (e : ClientError)
  | raised
  deriving DecidableEq

/-- What a stream yields, and how it ends. -/
structure Streamed where
  yielded : List Translated
  ending : Ending

def Streamed.after (yielded : List Translated) (later : Streamed) : Streamed :=
  ⟨yielded ++ later.yielded, later.ending⟩

/-- The part of the loop after the translation: what is yielded, and the variables then. -/
def Reading.take (s : Reading σ) (chunk : Translated) : List Translated × Reading σ :=
  let s := if streamChunkIsTerminal chunk then { s with sawTerminal := true } else s
  if streamChunkHasSignal chunk then
    (s.pending ++ [chunk], { s with sawSignal := true, pending := [] })
  else if streamChunkHasMetadata chunk then
    if s.sawSignal then ([chunk], s)
    else if s.pending.length < maxPendingStreamMetadata then
      ([], { s with pending := s.pending ++ [chunk] })
    else ([], s)
  else ([], s)

variable (provider : String)

def clientError (message : String) : ClientError := ⟨502, provider, message⟩

/-- The checks after the loop. -/
def Reading.finish (s : Reading σ) : Streamed :=
  if !s.sawSignal then
    ⟨[], .failed (clientError provider "Provider returned an empty streaming response")⟩
  else if !s.sawTerminal then
    ⟨[], .failed (clientError provider
      "Provider streaming response ended without a terminal event")⟩
  else ⟨[], .finished⟩

variable (translate : Translator σ)

/-- The loop over the lines, whose generator may end with an error. -/
def readLines (error : Option ClientError) (s : Reading σ) : List Bytes → Streamed
  | [] =>
      match error with
      | some e => ⟨[], .failed e⟩
      | none => s.finish provider
  | rawLine :: rest =>
      match lineEvent rawLine with
      | .skipped => readLines error s rest
      | .done => { s with sawTerminal := true }.finish provider
      | .malformed =>
          ⟨[], .failed (clientError provider "Provider returned malformed streaming JSON")⟩
      | .failed => ⟨[], .failed (clientError provider "Provider reported a streaming error")⟩
      | .event parsed =>
          match translate s.translator parsed with
          | none => ⟨[], .raised⟩
          | some (chunk, translator) =>
              let (yielded, s) := { s with translator := translator }.take chunk
              .after yielded (readLines error s rest)

/-- `_read_bounded_body`, after some bytes: whether the body is too long. -/
def bodyTooLong (size : ℕ) : List Bytes → Bool
  | [] => false
  | chunk :: chunks =>
      decide (maxProviderBodyBytes < size + chunk.length) || bodyTooLong (size + chunk.length) chunks

/-- `HttpClient.execute_streaming`, from the response on. -/
def executeStreaming (start : σ) (status : ℕ) (chunks : List Bytes) : Streamed :=
  if 200 ≤ status ∧ status < 300 then
    let lines := boundedStreamLines provider chunks
    readLines provider translate lines.error ⟨[], false, false, start⟩ lines.yielded
  else if bodyTooLong 0 chunks then
    ⟨[], .failed (clientError provider "Provider response exceeded the maximum size")⟩
  else ⟨[], .failed ⟨status, provider,
    s!"Provider streaming request failed with status {status}"⟩⟩

/-! ### What is yielded -/

/-- A chunk with a text, a call or a finish reason. -/
def streamChunkCarries (chunk : Translated) : Bool := chunk.1.choices.any choiceSignals

/-- Why no more lines are read. -/
inductive Stop where
  | exhausted
  | done
  | malformed
  | failed
  | raised
  deriving DecidableEq

/-- The chunks that the events on lines are translated to, one after the other, and where it
stops. -/
def transcript (translator : σ) : List Bytes → List Translated × Stop
  | [] => ([], .exhausted)
  | rawLine :: rest =>
      match lineEvent rawLine with
      | .skipped => transcript translator rest
      | .done => ([], .done)
      | .malformed => ([], .malformed)
      | .failed => ([], .failed)
      | .event parsed =>
          match translate translator parsed with
          | none => ([], .raised)
          | some (chunk, translator) =>
              let later := transcript translator rest
              (chunk :: later.1, later.2)

variable {provider translate}

theorem hasSignal_eq (chunk : Translated) :
    streamChunkHasSignal chunk = (chunk.1.isFinal || streamChunkCarries chunk) := rfl

theorem Reading.finish_yielded (s : Reading σ) : (s.finish provider).yielded = [] := by
  unfold Reading.finish
  split_ifs <;> rfl

theorem Reading.finish_finished {s : Reading σ} (h : (s.finish provider).ending = .finished) :
    s.sawSignal = true ∧ s.sawTerminal = true := by
  unfold Reading.finish at h
  split_ifs at h with hsignal hterminal
  · simpa using And.intro hsignal hterminal

/-- What is held back says nothing, and nothing is held back after a signal. -/
structure Reading.Held (s : Reading σ) : Prop where
  silent : ∀ c ∈ s.pending, streamChunkHasSignal c = false
  released : s.sawSignal = true → s.pending = []

/-- What one chunk does: a signal is yielded with all that was held back, anything else is yielded,
held back or dropped. -/
structure Taken (s : Reading σ) (chunk : Translated) (yielded : List Translated)
    (s' : Reading σ) : Prop where
  held : s'.Held
  signals : yielded.filter streamChunkHasSignal = [chunk].filter streamChunkHasSignal
  sublist : ∀ later : List Translated,
    (yielded ++ (s'.pending ++ later)).Sublist (s.pending ++ chunk :: later)
  sawSignal : s'.sawSignal = (s.sawSignal || streamChunkHasSignal chunk)
  sawTerminal : s'.sawTerminal = (s.sawTerminal || streamChunkIsTerminal chunk)
  translator : s'.translator = s.translator

/-- Before the first chunk nothing is held back. -/
theorem Reading.held_start {t : σ} : (⟨[], false, false, t⟩ : Reading σ).Held := by
  constructor <;> simp

theorem Reading.take_spec {s : Reading σ} (h : s.Held) (chunk : Translated) :
    Taken s chunk (s.take chunk).1 (s.take chunk).2 := by
  have hdropped : ∀ later : List Translated,
      (s.pending ++ later).Sublist (s.pending ++ chunk :: later) := fun later ↦
    (List.sublist_cons_self chunk later).append_left s.pending
  have hpending : s.pending.filter streamChunkHasSignal = [] :=
    List.filter_eq_nil_iff.mpr fun c hc ↦ by rw [h.silent c hc]; exact Bool.false_ne_true
  unfold Reading.take
  cases hterminal : streamChunkIsTerminal chunk <;> cases hsignal : streamChunkHasSignal chunk
  case false.true | true.true =>
    exact {
      held := ⟨nofun, fun _ ↦ rfl⟩
      signals := by simp [hpending, hsignal]
      sublist := fun later ↦ by simp
      sawSignal := by simp [hsignal]
      sawTerminal := by simp [hterminal]
      translator := rfl }
  all_goals
    simp only [Bool.false_eq_true, if_false, if_true]
    split_ifs with hmetadata hsaw hroom
    · have hnone : s.pending = [] := h.released hsaw
      refine ⟨⟨h.silent, h.released⟩, by simp [hsignal], by simp [hnone], by simp [hsignal],
        by simp [hterminal], rfl⟩
    · refine ⟨⟨fun c hc ↦ ?_, fun hsignals ↦ absurd hsignals hsaw⟩, by simp [hsignal], by simp,
        by simp [hsignal], by simp [hterminal], rfl⟩
      rcases List.mem_append.mp hc with hc | hc
      · exact h.silent c hc
      · rw [List.mem_singleton.mp hc]
        exact hsignal
    · exact ⟨⟨h.silent, h.released⟩, by simp [hsignal], hdropped, by simp [hsignal],
        by simp [hterminal], rfl⟩
    · exact ⟨⟨h.silent, h.released⟩, by simp [hsignal], hdropped, by simp [hsignal],
        by simp [hterminal], rfl⟩

/-- Reading lines to their end. -/
theorem readLines_spec (provider : String) (error : Option ClientError) (rawLines : List Bytes) {s : Reading σ}
    (h : s.Held) {chunks : List Translated} {stop : Stop}
    (htranscript : transcript translate s.translator rawLines = (chunks, stop)) :
    (readLines provider translate error s rawLines).yielded.filter streamChunkHasSignal =
        chunks.filter streamChunkHasSignal ∧
      (readLines provider translate error s rawLines).yielded.Sublist (s.pending ++ chunks) ∧
      ((readLines provider translate error s rawLines).ending = .finished →
        (s.sawSignal = true ∨ ∃ c ∈ chunks, streamChunkHasSignal c = true) ∧
          (s.sawTerminal = true ∨ stop = .done ∨ ∃ c ∈ chunks, streamChunkIsTerminal c = true)) := by
  induction rawLines generalizing s chunks stop with
  | nil =>
      obtain ⟨rfl, rfl⟩ := Prod.mk.inj htranscript
      cases error with
      | some e => exact ⟨rfl, List.nil_sublist _, nofun⟩
      | none =>
          rw [readLines, Reading.finish_yielded]
          exact ⟨rfl, List.nil_sublist _, fun hfinished ↦
            (Reading.finish_finished hfinished).imp .inl .inl⟩
  | cons rawLine rest ih =>
      rw [transcript] at htranscript
      rw [readLines]
      cases hevent : lineEvent rawLine with
      | skipped =>
          rw [hevent] at htranscript
          exact ih h htranscript
      | done =>
          rw [hevent] at htranscript
          obtain ⟨rfl, rfl⟩ := Prod.mk.inj htranscript
          dsimp only
          rw [Reading.finish_yielded]
          exact ⟨rfl, List.nil_sublist _, fun hfinished ↦
            ⟨.inl (Reading.finish_finished hfinished).1, .inr (.inl rfl)⟩⟩
      | malformed =>
          rw [hevent] at htranscript
          obtain ⟨rfl, rfl⟩ := Prod.mk.inj htranscript
          exact ⟨rfl, List.nil_sublist _, nofun⟩
      | failed =>
          rw [hevent] at htranscript
          obtain ⟨rfl, rfl⟩ := Prod.mk.inj htranscript
          exact ⟨rfl, List.nil_sublist _, nofun⟩
      | event parsed =>
          rw [hevent] at htranscript
          dsimp only at htranscript ⊢
          cases htranslate : translate s.translator parsed with
          | none =>
              rw [htranslate] at htranscript
              obtain ⟨rfl, rfl⟩ := Prod.mk.inj htranscript
              exact ⟨rfl, List.nil_sublist _, nofun⟩
          | some translated =>
              obtain ⟨chunk, translator⟩ := translated
              rw [htranslate] at htranscript
              obtain ⟨rfl, rfl⟩ := Prod.mk.inj htranscript
              have htaken := Reading.take_spec (s := { s with translator := translator })
                ⟨h.silent, h.released⟩ chunk
              obtain ⟨hsignals, hsublist, hfinished⟩ :=
                ih htaken.held (congrArg (transcript translate · rest) htaken.translator)
              refine ⟨?_, ?_, fun hending ↦ ?_⟩
              · dsimp only [Streamed.after]
                rw [List.filter_append, htaken.signals, hsignals, ← List.filter_append]
                rfl
              · exact (hsublist.append_left _).trans (htaken.sublist _)
              · obtain ⟨hsignal, hterminal⟩ := hfinished hending
                rw [htaken.sawSignal, Bool.or_eq_true] at hsignal
                rw [htaken.sawTerminal, Bool.or_eq_true] at hterminal
                simp only [List.mem_cons, exists_eq_or_imp]
                constructor
                · tauto
                · tauto

/-- The stream is read alike however its bytes are cut, every chunk that says something is passed
on, and a stream that ends well had a last word. -/
theorem executeStreaming_framed (provider : String) (translate : Translator σ) (start : σ)
    (status : ℕ) (hstatus : 200 ≤ status ∧ status < 300) (chunks : List Bytes)
    (h : chunks.flatten.length ≤ maxProviderStreamBytes) :
    (boundedStreamLines provider chunks).yielded =
        ((LineFraming.pieces lineFeed chunks.flatten).takeWhile
          fun piece ↦ piece.length ≤ maxProviderStreamLineBytes).map removeReturn ∧
      ((boundedStreamLines provider chunks).error = some (tooLargeEvent provider) ↔
        ∃ piece ∈ LineFraming.pieces lineFeed chunks.flatten,
          maxProviderStreamLineBytes < piece.length) ∧
      ((boundedStreamLines provider chunks).error = none ↔
        ∀ piece ∈ LineFraming.pieces lineFeed chunks.flatten,
          piece.length ≤ maxProviderStreamLineBytes) ∧
      (∀ chunks' : List Bytes, chunks'.flatten = chunks.flatten →
        executeStreaming provider translate start status chunks' =
          executeStreaming provider translate start status chunks) ∧
      ∀ translated stop, transcript translate start (boundedStreamLines provider chunks).yielded =
          (translated, stop) →
        let run := executeStreaming provider translate start status chunks
        run.yielded.filter streamChunkCarries = translated.filter streamChunkCarries ∧
          run.yielded.Sublist translated ∧
          (run.ending = .finished →
            (∃ c ∈ translated, streamChunkCarries c = true ∨ c.1.isFinal = true) ∧
              (stop = .done ∨ ∃ c ∈ translated, streamChunkIsTerminal c = true)) := by
  have hlines : boundedStreamLines provider chunks = linesOf provider chunks.flatten :=
    boundedStreamLines_eq h
  refine ⟨?_, ?_, ?_, fun chunks' heq ↦ ?_, fun translated stop htranscript ↦ ?_⟩
  · rw [hlines]
    rfl
  · rw [hlines, linesOf, LineFraming.framed]
    simp
  · rw [hlines, linesOf, LineFraming.framed]
    simp
  · unfold executeStreaming
    rw [if_pos hstatus, if_pos hstatus, hlines, boundedStreamLines_eq (by rw [heq]; exact h), heq]
  · have hrun : executeStreaming provider translate start status chunks =
        readLines provider translate (boundedStreamLines provider chunks).error
          ⟨[], false, false, start⟩ (boundedStreamLines provider chunks).yielded := if_pos hstatus
    obtain ⟨hsignals, hsublist, hfinished⟩ :=
      readLines_spec provider (boundedStreamLines provider chunks).error
        (boundedStreamLines provider chunks).yielded (s := ⟨[], false, false, start⟩)
        Reading.held_start htranscript
    dsimp only
    rw [hrun]
    have hcarries : ∀ l : List Translated, l.filter streamChunkCarries =
        (l.filter streamChunkHasSignal).filter streamChunkCarries := by
      intro l
      rw [List.filter_filter]
      apply List.filter_congr
      intro c _
      rw [hasSignal_eq]
      cases streamChunkCarries c <;> simp
    refine ⟨?_, hsublist, fun hending ↦ ?_⟩
    · rw [hcarries, hsignals, ← hcarries]
    · obtain ⟨hsignal, hterminal⟩ := hfinished hending
      constructor
      · obtain ⟨c, hc, hsignal⟩ := hsignal.resolve_left Bool.false_ne_true
        rw [hasSignal_eq, Bool.or_eq_true] at hsignal
        exact ⟨c, hc, hsignal.symm⟩
      · exact hterminal.resolve_left Bool.false_ne_true

end

/-! ### Streams -/

/-- `{}` on a line. -/
def emptyEvent : Bytes := [123, 125]

/-- Two events, however they are cut. -/
theorem lines_emptyEvents : (boundedStreamLines "openai"
    [[123], [125, 13], [10, 123], [125, 10]]).yielded = [emptyEvent, emptyEvent] := by
  have hlines := (executeStreaming_framed "openai" (fun _ _ ↦ none) () 200 ⟨le_rfl, by norm_num⟩
    [[123], [125, 13], [10, 123], [125, 10]] (by decide)).1
  rw [hlines]
  decide

/-- Every event is translated to a last chunk that says nothing. -/
def translateFinal : Translator Unit := fun _ _ ↦ some ((⟨[], [], [], true⟩, none), ())

/-- A line as long as it may be, with its carriage return. -/
def fullLine : Bytes := List.replicate maxProviderStreamLineBytes 97 ++ [carriageReturn]

theorem length_fullLine : fullLine.length = maxProviderStreamLineBytes + 1 := by
  rw [fullLine, List.length_append, List.length_replicate, List.length_singleton]

theorem notMem_fullLine : lineFeed ∉ fullLine := by
  rw [fullLine, List.mem_append, List.mem_singleton]
  rintro (hmem | heq)
  · exact absurd (List.eq_of_mem_replicate hmem) (by decide)
  · exact absurd heq (by decide)

theorem boundedStreamLines_emptyEvent :
    boundedStreamLines "openai" [emptyEvent] = ⟨[emptyEvent], none⟩ := by
  rw [boundedStreamLines_eq (by decide)]
  decide

/-- A line with its carriage return may be too long where the line is not, an empty piece after
the last line feed is no line, and a stream may end well that says nothing. -/
theorem framed_unlike_claimed :
    (∃ chunks : List Bytes, chunks.flatten.length ≤ maxProviderStreamBytes ∧
      (∀ piece ∈ LineFraming.pieces lineFeed chunks.flatten,
        (removeReturn piece).length ≤ maxProviderStreamLineBytes) ∧
      (boundedStreamLines "openai" chunks).error = some (tooLargeEvent "openai")) ∧
    (boundedStreamLines "openai" [[10]]).yielded ≠ ([10].splitOn lineFeed).map removeReturn ∧
    ∃ chunks : List Bytes, (executeStreaming "openai" translateFinal () 200 chunks).ending =
        .finished ∧
      ∀ c ∈ (transcript translateFinal () (boundedStreamLines "openai" chunks).yielded).1,
        streamChunkCarries c = false := by
  have hfull : [fullLine].flatten = fullLine := List.append_nil fullLine
  have hfits : fullLine.length ≤ maxProviderStreamBytes := by
    rw [length_fullLine]
    decide
  refine ⟨⟨[fullLine], ?_, fun piece hpiece ↦ ?_, ?_⟩, ?_, [emptyEvent], ?_, ?_⟩
  · rwa [hfull]
  · have hne : fullLine ≠ [] := List.ne_nil_of_length_pos (by rw [length_fullLine]; omega)
    rw [hfull, LineFraming.pieces_of_notMem notMem_fullLine hne] at hpiece
    have hremoved : removeReturn fullLine = List.replicate maxProviderStreamLineBytes 97 := by
      rw [removeReturn, fullLine, List.getLast?_concat, if_pos rfl, List.dropLast_concat]
    rw [List.mem_singleton.mp hpiece, hremoved, List.length_replicate]
  · rw [boundedStreamLines_eq (by rwa [hfull]), hfull, ← List.append_nil fullLine,
      linesOf_append_of_lt notMem_fullLine (by rw [length_fullLine]; omega)]
  · rw [boundedStreamLines_eq (by decide)]
    decide
  · have hrun : executeStreaming "openai" translateFinal () 200 [emptyEvent] =
        readLines "openai" translateFinal none ⟨[], false, false, ()⟩ [emptyEvent] := by
      rw [executeStreaming, boundedStreamLines_emptyEvent]
      rfl
    rw [hrun]
    rfl
  · rw [boundedStreamLines_emptyEvent]
    intro c hc
    rw [List.mem_singleton.mp hc]
    rfl

end Providers
