import AxonGateway.Screening.Rebuilt

/-!
# Streams that are about one choice

The chunks that the adapters translate say something about choice 0 or nothing at all. What is
put together from them is the text of all of them, their calls by index, and the last finish
reason.
-/

namespace Adapters

open PyValue Screening

variable {U : Unicode}

/-! ### Values -/

/-- The dictionary that a value is; none counts as empty. -/
def dictOf : Option Value → Fields
  | some (.obj fields) => fields
  | _ => []

/-- `d.get(key, default)` -/
def getOr (d : Fields) (key : Text) (default : Value) : Value := (d.lookup key).getD default

/-- `a or b` -/
def orElse (a b : Value) : Value := if a.truthy then a else b

def typeKey : Text := "type".toList

/-- `d.get("type") == type` -/
def hasType (d : Fields) (type : String) : Bool :=
  match d.lookup typeKey with
  | some (.str text) => text == type.toList
  | _ => false

/-- A text that a provider gives under a key. -/
def textAt (d : Fields) (key : String) : Text :=
  match d.lookup key.toList with
  | some (.str text) => text
  | _ => []

/-- A value to iterate over, of which only lists have the items that are expected; nothing
where it raises. -/
def itemsOf (v : Value) : Option (List Value) :=
  match v with
  | .arr items => some items
  | v => if v.truthy then none else some []

/-- `d.get(key, {}) or {}` where it has a `get`. -/
def dictAt (d : Fields) (key : String) : Option Fields :=
  match d.lookup key.toList with
  | none => some []
  | some (.obj fields) => some fields
  | some v => if v.truthy then none else some []

/-! ### What a client sees -/

structure CallView where
  id : Value
  name : Value
  arguments : Value

/-- The text of a choice, where null counts as empty, its calls and its finish reason. -/
structure ChoiceView where
  text : Text
  calls : List CallView
  finishReason : Value

def callView (call : Value) : CallView :=
  let call := dictOf (some call)
  let function := dictOf (call.lookup functionKey)
  ⟨getOr call "id".toList .null, getOr function "name".toList .null,
    getOr function "arguments".toList .null⟩

def messageText (message : Fields) : Text :=
  match message.lookup contentKey with
  | some (.str text) => text
  | _ => []

def messageCalls (message : Fields) : List CallView :=
  match message.lookup toolCallsKey with
  | some (.arr calls) => calls.map callView
  | _ => []

def choiceView (choice : Choice) : ChoiceView :=
  let message := dictOf (choice.lookup messageKey)
  ⟨messageText message, messageCalls message, getOr choice finishReasonKey .null⟩

def CallState.view (call : CallState) : CallView := ⟨call.id, .str call.name, .str call.arguments⟩

/-- What a client sees of a state. -/
theorem choiceView_toChoice (index : ℤ) (state : ChoiceState) :
    choiceView (state.toChoice index) =
      ⟨state.content, (sortedByKey state.toolCalls).map fun call ↦ CallState.view call.2,
        state.finishReason⟩ := by
  cases hcalls : state.toolCalls with
  | nil =>
      unfold ChoiceState.toChoice
      rw [hcalls]
      rfl
  | cons call calls =>
      have hview : (((sortedByKey (call :: calls)).map fun c ↦ c.2.toValue).map callView) =
          (sortedByKey (call :: calls)).map fun c ↦ CallState.view c.2 := by
        rw [List.map_map]
        rfl
      unfold ChoiceState.toChoice
      rw [hcalls, ← hview]
      rfl

/-! ### What a stream says -/

/-- What a chunk says about choice 0. -/
structure Piece where
  delta : Fields
  reason : Value

def Piece.choice (piece : Piece) : Choice := chunkChoice piece.delta (some piece.reason)

/-- Pieces are put together one after the other. -/
def mergePieces (U : Unicode) (state : ChoiceState) (pieces : List Piece) : ChoiceState :=
  pieces.foldl (fun state piece ↦ state.afterChunk U piece.delta (some piece.reason)) state

/-- The chunks say these pieces. -/
def Says (chunks : List StreamChunk) (pieces : List Piece) : Prop :=
  chunks.flatMap StreamChunk.choices = pieces.map Piece.choice

/-- No chunk says more than one. -/
def Single (chunks : List StreamChunk) : Prop := ∀ chunk ∈ chunks, chunk.choices.length ≤ 1

theorem foldl_of_single {chunks : List StreamChunk} (h : Single chunks)
    (states : List (ℤ × ChoiceState)) :
    chunks.foldl (fun states chunk ↦ chunk.choices.zipIdx.foldl (fun states (choice, position) ↦
        addChoice U states choice position) states) states =
      (chunks.flatMap StreamChunk.choices).foldl
        (fun states choice ↦ addChoice U states choice 0) states := by
  induction chunks generalizing states with
  | nil => rfl
  | cons chunk chunks ih =>
      have hone := h chunk List.mem_cons_self
      rw [List.foldl_cons, ih fun c hc ↦ h c (List.mem_cons_of_mem _ hc), List.flatMap_cons,
        List.foldl_append]
      congr 1
      match hchoices : chunk.choices, hone with
      | [], _ => rfl
      | [choice], _ => rfl

theorem foldl_choice {states : List (ℤ × ChoiceState)} {state : ChoiceState}
    (h : states = [] ∧ state = .new ∨ states = [(0, state)]) (pieces : List Piece) :
    (pieces.map Piece.choice).foldl (fun states choice ↦ addChoice U states choice 0) states =
      if pieces = [] then states else [(0, mergePieces U state pieces)] := by
  induction pieces generalizing states state with
  | nil => rfl
  | cons piece pieces ih =>
      have hone : addChoice U states piece.choice 0 =
          [(0, state.afterChunk U piece.delta (some piece.reason))] :=
        addChoice_chunkChoice h piece.delta (some piece.reason)
      rw [List.map_cons, List.foldl_cons, hone, ih (.inr rfl), if_neg (List.cons_ne_nil _ _)]
      split_ifs with hnil
      · rw [hnil]
        rfl
      · rfl

/-- What is put together from the chunks has one choice. -/
theorem choices_of_pieces {chunks : List StreamChunk} {pieces : List Piece} (hsingle : Single chunks)
    (htold : Says chunks pieces) (model : Text) :
    (responseFromStreamChunks U chunks model).choices =
      [(mergePieces U .new pieces).toChoice 0] := by
  have hstates := foldl_of_single (U := U) hsingle []
  rw [htold, foldl_choice (.inl ⟨rfl, rfl⟩)] at hstates
  unfold responseFromStreamChunks
  dsimp only
  rw [hstates]
  split_ifs with hnil hempty hempty
  · rw [hnil]
    rfl
  · exact absurd rfl hempty
  · exact absurd hempty (by simp [sortedByKey])
  · rfl

/-! ### Text, finish reason and calls of a stream -/

def deltaText (delta : Fields) : Text :=
  match delta.lookup contentKey with
  | some (.str text) => text
  | _ => []

/-- The calls of a delta are merged with the calls before. -/
def mergeCalls (U : Unicode) (calls : List (ℤ × CallState)) (delta : Fields) :
    List (ℤ × CallState) :=
  match delta.lookup toolCallsKey with
  | some (.arr rawCalls) => rawCalls.zipIdx.foldl (fun calls (raw, position) ↦ match raw with
      | .obj rawCall => mergeToolCallDelta U calls rawCall position
      | _ => calls) calls
  | _ => calls

theorem mergePieces_append (state : ChoiceState) (pieces pieces' : List Piece) :
    mergePieces U state (pieces ++ pieces') = mergePieces U (mergePieces U state pieces) pieces' :=
  List.foldl_append

theorem content_mergePieces (state : ChoiceState) (pieces : List Piece) :
    (mergePieces U state pieces).content =
      state.content ++ pieces.flatMap fun piece ↦ deltaText piece.delta := by
  induction pieces generalizing state with
  | nil => exact (List.append_nil _).symm
  | cons piece pieces ih =>
      have hone : (state.afterChunk U piece.delta (some piece.reason)).content =
          state.content ++ deltaText piece.delta := by
        change (match piece.delta.lookup contentKey with
          | some (.str text) => state.content ++ text
          | _ => state.content) = _
        unfold deltaText
        split <;> simp_all
      rw [List.flatMap_cons, ← List.append_assoc, ← hone]
      exact ih _

theorem toolCalls_mergePieces (state : ChoiceState) (pieces : List Piece) :
    (mergePieces U state pieces).toolCalls =
      pieces.foldl (fun calls piece ↦ mergeCalls U calls piece.delta) state.toolCalls := by
  induction pieces generalizing state with
  | nil => rfl
  | cons piece pieces ih => exact ih (state.afterChunk U piece.delta (some piece.reason))

/-- The last finish reason that is given. -/
theorem finishReason_mergePieces (state : ChoiceState) (pieces : List Piece)
    (h : ∀ piece ∈ pieces, piece.reason = .null) :
    (mergePieces U state pieces).finishReason = state.finishReason := by
  induction pieces generalizing state with
  | nil => rfl
  | cons piece pieces ih =>
      have hone : (state.afterChunk U piece.delta (some piece.reason)).finishReason =
          state.finishReason := by
        rw [h piece List.mem_cons_self]
        rfl
      exact (ih _ fun p hp ↦ h p (List.mem_cons_of_mem _ hp)).trans hone

theorem finishReason_afterChunk (state : ChoiceState) (delta : Fields) {reason : Value}
    (h : reason ≠ .null) : (state.afterChunk U delta (some reason)).finishReason = reason := by
  cases reason <;> first | rfl | exact absurd rfl h

end Adapters
