import AxonGateway.Adapters.CohereTools

/-!
# Results of tools and their calls

A result of a tool is paired with the last call of the conversation that has its id. That is the
call it answers exactly when calls at the same place with the same name have the same parameters.
-/

namespace Adapters

open PyValue Screening

/-! ### Conversations -/

/-- A call of a reply of Cohere. -/
structure CohereCall where
  name : Option Text
  parameters : Option Fields

def CohereCall.shownName (call : CohereCall) : Text := call.name.getD []

def CohereCall.idName (call : CohereCall) : Text := call.name.getD "fn".toList

def CohereCall.shownParameters (call : CohereCall) : Fields := call.parameters.getD []

def CohereCall.Describes (call : CohereCall) (d : Fields) : Prop :=
  d.lookup "name".toList = call.name.map .str ∧
    d.lookup "parameters".toList = call.parameters.map .obj ∧
    JsonText.Written (.obj call.shownParameters)

/-- The calls of a reply, and what the tools give for them. -/
structure CohereTurn where
  calls : List CohereCall
  outputs : List Value
  paired : outputs.length = calls.length

def CohereTurn.Describes (turn : CohereTurn) (reply : Fields) : Prop :=
  ∃ dicts : List Fields, itemsOf (getOr reply toolCallsKey .null) = some (dicts.map .obj) ∧
    List.Forall₂ CohereCall.Describes turn.calls dicts

/-- The message of a tool that echoes the id of a call. -/
def toolEcho (toolCall : Value) (output : Value) : Fields :=
  [(roleKey, .str "tool".toList),
    ("tool_call_id".toList, getOr (dictOf (some toolCall)) "id".toList .null), (contentKey, output)]

def toolCallsOf (message : Fields) : List Value :=
  match message.lookup toolCallsKey with
  | some (.arr toolCalls) => toolCalls
  | _ => []

/-- The message of a reply, then the results of the tools; nothing where the reply raises. -/
def turnMessages (U : Unicode) (reply : Fields) (outputs : List Value) : Option (List Fields) :=
  (cohereMessage U reply).map fun message ↦
    message :: List.zipWith toolEcho (toolCallsOf message) outputs

def isUser (msg : Fields) : Bool := isText (getOr msg roleKey (.str "user".toList)) "user"

/-- The messages of these turns, with messages of the user anywhere in between. -/
def Conversation (U : Unicode) (turns : List CohereTurn) (messages : List Fields) : Prop :=
  ∃ blocks : List (List Fields), List.Forall₂ (fun turn block ↦ ∃ reply, turn.Describes reply ∧
    turnMessages U reply turn.outputs = some block) turns blocks ∧
    messages.filter (fun msg ↦ !isUser msg) = blocks.flatten

/-- The result of a tool with the very call that it answers. -/
def answered (name : Text) (parameters : Fields) (output : Value) : Value :=
  .obj [("call".toList, .obj [("name".toList, .str name), ("parameters".toList, .obj parameters)]),
    ("outputs".toList, .arr [.obj [("output".toList, .str (contentText output))]])]

/-- One result for every message of a tool, in order, with the call that it answers. -/
def Paired (turns : List CohereTurn) (messages : List Fields) : Prop :=
  ∃ payload, cohereTranslateRequest messages = some payload ∧
    payload.toolResults = turns.flatMap fun turn ↦ List.zipWith
      (fun call output ↦ answered call.shownName call.shownParameters output) turn.calls turn.outputs

/-- The calls of a conversation with their places in their replies. -/
def placedCalls (turns : List CohereTurn) : List (CohereCall × ℕ) :=
  turns.flatMap fun turn ↦ turn.calls.zipIdx

/-- Calls at the same place under the same name are the same, and calls without a name have no
parameters. -/
def Unambiguous (turns : List CohereTurn) : Prop :=
  (∀ c ∈ placedCalls turns, ∀ c' ∈ placedCalls turns, c.2 = c'.2 → c.1.idName = c'.1.idName →
    c.1.shownName = c'.1.shownName ∧ c.1.shownParameters = c'.1.shownParameters) ∧
  ∀ c ∈ placedCalls turns, c.1.shownName = [] → c.1.shownParameters = []

/-! ### The calls that a client is given -/

/-- A call for a client. -/
def CohereCall.toolCall (call : CohereCall) (index : ℕ) : Fields :=
  [("id".toList, .str (synthesizedId call.idName index)), (typeKey, .str functionKey),
    (functionKey, .obj [("name".toList, .str call.shownName),
      ("arguments".toList, .str (dumps (.obj call.shownParameters)))])]

variable {U : Unicode}

theorem cohereToolCall_eq {call : CohereCall} {d : Fields} (h : call.Describes d) (index : ℕ) :
    cohereToolCall U d index = call.toolCall index := by
  obtain ⟨hname, hparameters, -⟩ := h
  unfold cohereToolCall CohereCall.toolCall CohereCall.idName CohereCall.shownName
    CohereCall.shownParameters getOr
  rw [hname, hparameters]
  cases call.name <;> cases call.parameters <;> rfl

theorem cohereToolCalls_eq {calls : List CohereCall} {dicts : List Fields}
    (h : List.Forall₂ CohereCall.Describes calls dicts) (i : ℕ) :
    cohereToolCalls U i (dicts.map .obj) = (calls.zipIdx i).map fun c ↦ c.1.toolCall c.2 := by
  induction h generalizing i with
  | nil => rfl
  | cons hcall _ ih =>
      rw [List.map_cons, cohereToolCalls, ih, cohereToolCall_eq hcall, List.zipIdx_cons,
        List.map_cons]

/-- The message of a reply with these calls. -/
def CohereTurn.message (turn : CohereTurn) (text : Value) : Fields :=
  if turn.calls = [] then [(roleKey, .str "assistant".toList), (contentKey, text)]
  else [(roleKey, .str "assistant".toList), (contentKey, if text.truthy then text else .null),
    (toolCallsKey, .arr (turn.calls.zipIdx.map fun c ↦ .obj (c.1.toolCall c.2)))]

theorem cohereMessage_eq {turn : CohereTurn} {reply : Fields} (h : turn.Describes reply) :
    ∃ text, cohereMessage U reply = some (turn.message text) := by
  obtain ⟨dicts, hitems, hcalls⟩ := h
  have htoolCalls : (cohereToolCalls U 0 (dicts.map .obj)).map Value.obj =
      turn.calls.zipIdx.map fun c ↦ .obj (c.1.toolCall c.2) := by
    rw [cohereToolCalls_eq hcalls, List.map_map]
    rfl
  refine ⟨getOr reply "text".toList (.str []), ?_⟩
  unfold cohereMessage
  rw [hitems]
  dsimp only [Option.bind_eq_bind, Option.bind_some]
  rw [htoolCalls, CohereTurn.message]
  cases turn.calls <;> rfl

theorem toolCallsOf_message (turn : CohereTurn) (text : Value) :
    toolCallsOf (turn.message text) = turn.calls.zipIdx.map fun c ↦ .obj (c.1.toolCall c.2) := by
  unfold CohereTurn.message
  split_ifs with hnil
  · rw [hnil]
    rfl
  · rfl
  · rfl

/-- A call with the result that is given for it. -/
abbrev Cell := (CohereCall × ℕ) × Value

def CohereTurn.cells (turn : CohereTurn) : List Cell := turn.calls.zipIdx.zip turn.outputs

/-- The message of a tool for a call. -/
def Cell.echo (cell : Cell) : Fields :=
  [(roleKey, .str "tool".toList),
    ("tool_call_id".toList, .str (synthesizedId cell.1.1.idName cell.1.2)), (contentKey, cell.2)]

theorem turnMessages_eq {turn : CohereTurn} {reply : Fields} {block : List Fields}
    (h : turn.Describes reply) (hblock : turnMessages U reply turn.outputs = some block) :
    ∃ text, block = turn.message text :: turn.cells.map Cell.echo := by
  obtain ⟨text, htext⟩ := cohereMessage_eq (U := U) h
  rw [turnMessages, htext, Option.map_some, toolCallsOf_message] at hblock
  refine ⟨text, ?_⟩
  rw [← Option.some.inj hblock, List.zipWith_map_left, CohereTurn.cells, List.zip_eq_zipWith,
    List.map_zipWith]
  rfl

/-! ### The calls of a conversation -/

def addPlaced (table : CallTable) (c : CohereCall × ℕ) : CallTable :=
  if c.1.shownName = [] then table
  else set table (synthesizedId c.1.idName c.2)
    (callEntry c.1.shownName (.obj c.1.shownParameters))

theorem addCall_toolCall {call : CohereCall} (h : JsonText.Written (.obj call.shownParameters))
    (index : ℕ) (table : CallTable) :
    addCall table (.obj (call.toolCall index)) = addPlaced table (call, index) := by
  have hargs : cohereArgs (.str (dumps (.obj call.shownParameters))) =
      .obj call.shownParameters := parseArgs_dumps h
  unfold addPlaced
  rw [← hargs]
  cases hname : call.shownName with
  | nil =>
      unfold addCall CohereCall.toolCall
      rw [hname]
      rfl
  | cons d name =>
      unfold addCall CohereCall.toolCall
      rw [hname]
      rfl

/-- Every call that is shown can be written. -/
def CohereTurn.Writes (turn : CohereTurn) : Prop :=
  ∀ call ∈ turn.calls, JsonText.Written (.obj call.shownParameters)

theorem CohereTurn.Describes.writes {turn : CohereTurn} {reply : Fields}
    (h : turn.Describes reply) : turn.Writes := by
  obtain ⟨dicts, -, hcalls⟩ := h
  intro call hcall
  generalize turn.calls = calls at hcalls hcall
  induction hcalls with
  | nil => cases hcall
  | cons hfirst _ ih =>
      rcases List.mem_cons.mp hcall with rfl | hcall
      · exact hfirst.2.2
      · exact ih hcall

theorem addCalls_message {turn : CohereTurn} (h : turn.Writes) (text : Value) (table : CallTable) :
    addCalls table (turn.message text) = turn.calls.zipIdx.foldl addPlaced table := by
  have hfold : ∀ (calls : List CohereCall) (i : ℕ) (table : CallTable),
      (∀ call ∈ calls, JsonText.Written (.obj call.shownParameters)) →
      ((calls.zipIdx i).map fun c ↦ Value.obj (c.1.toolCall c.2)).foldl addCall table =
        (calls.zipIdx i).foldl addPlaced table := by
    intro calls
    induction calls with
    | nil => exact fun _ _ _ ↦ rfl
    | cons call calls ih =>
        intro i table hwrites
        rw [List.zipIdx_cons, List.map_cons, List.foldl_cons, List.foldl_cons,
          addCall_toolCall (hwrites call List.mem_cons_self)]
        exact ih _ _ fun c hc ↦ hwrites c (List.mem_cons_of_mem _ hc)
  rw [← hfold turn.calls 0 table h, CohereTurn.message]
  split_ifs with hnil
  · rw [hnil]
    rfl
  · rfl
  · rfl

theorem addCalls_echo (table : CallTable) (cells : List Cell) :
    (cells.map Cell.echo).foldl addCalls table = table := by
  induction cells with
  | nil => rfl
  | cons cell cells ih => exact ih

/-- A message of the user adds no calls. -/
theorem addCalls_user {msg : Fields} (h : isUser msg = true) (table : CallTable) :
    addCalls table msg = table := by
  have hrole : isText (getOr msg roleKey .null) "assistant" = false := by
    unfold isUser getOr at h
    unfold getOr
    cases hlookup : msg.lookup roleKey with
    | none => rfl
    | some v =>
        rw [hlookup] at h
        cases v with
        | str text =>
            have htext : text = "user".toList := eq_of_beq h
            rw [htext]
            rfl
        | null => rfl
        | bool b => rfl
        | number t => rfl
        | nonFinite t => rfl
        | arr items => rfl
        | obj fields => rfl
  rw [addCalls, if_neg (by rw [hrole]; decide)]

theorem foldl_addCalls (messages : List Fields) (table : CallTable) :
    messages.foldl addCalls table =
      (messages.filter fun msg ↦ !isUser msg).foldl addCalls table := by
  induction messages generalizing table with
  | nil => rfl
  | cons msg messages ih =>
      rw [List.foldl_cons, ih]
      cases huser : isUser msg with
      | true => rw [List.filter_cons_of_neg (by simp [huser]), addCalls_user huser]
      | false => rw [List.filter_cons_of_pos (by simp [huser]), List.foldl_cons]

/-- The blocks of a conversation. -/
def Block (turn : CohereTurn) (block : List Fields) : Prop :=
  turn.Writes ∧ ∃ text, block = turn.message text :: turn.cells.map Cell.echo

theorem Conversation.blocks {turns : List CohereTurn} {messages : List Fields}
    (h : Conversation U turns messages) :
    ∃ blocks, List.Forall₂ Block turns blocks ∧
      messages.filter (fun msg ↦ !isUser msg) = blocks.flatten := by
  obtain ⟨blocks, hblocks, hmessages⟩ := h
  refine ⟨blocks, hblocks.imp ?_, hmessages⟩
  rintro turn block ⟨reply, hreply, hblock⟩
  exact ⟨hreply.writes, turnMessages_eq hreply hblock⟩

theorem openaiToolCalls_eq {turns : List CohereTurn} {messages : List Fields}
    {blocks : List (List Fields)} (hblocks : List.Forall₂ Block turns blocks)
    (hmessages : messages.filter (fun msg ↦ !isUser msg) = blocks.flatten) :
    openaiToolCalls messages = (placedCalls turns).foldl addPlaced [] := by
  rw [openaiToolCalls, foldl_addCalls, hmessages]
  generalize ([] : CallTable) = table
  clear hmessages
  induction hblocks generalizing table with
  | nil => rfl
  | @cons turn block turns blocks hblock _ ih =>
      obtain ⟨hwrites, text, rfl⟩ := hblock
      rw [List.flatten_cons, List.foldl_append, List.foldl_cons, addCalls_message hwrites,
        addCalls_echo, ih, show placedCalls (turn :: turns) = turn.calls.zipIdx ++
          placedCalls turns from List.flatMap_cons, List.foldl_append]

/-- What is found under the id of a call: the last call with a name that has the same id. -/
theorem lookup_foldl_addPlaced (calls : List (CohereCall × ℕ)) (c : CohereCall × ℕ) :
    (∃ c' ∈ calls, c'.2 = c.2 ∧ c'.1.idName = c.1.idName ∧ c'.1.shownName ≠ [] ∧
        (calls.foldl addPlaced []).lookup (synthesizedId c.1.idName c.2) =
          some (callEntry c'.1.shownName (.obj c'.1.shownParameters))) ∨
      (calls.foldl addPlaced []).lookup (synthesizedId c.1.idName c.2) = none ∧
        ∀ c' ∈ calls, c'.2 = c.2 → c'.1.idName = c.1.idName → c'.1.shownName = [] := by
  induction calls using List.reverseRecOn with
  | nil => exact .inr ⟨rfl, nofun⟩
  | append_singleton calls last ih =>
      rw [List.foldl_append, List.foldl_cons, List.foldl_nil, addPlaced]
      split_ifs with hname
      · rcases ih with ⟨c', hc', hrest⟩ | ⟨hnone, hall⟩
        · exact .inl ⟨c', List.mem_append_left _ hc', hrest⟩
        · refine .inr ⟨hnone, fun c' hc' hplace hid ↦ ?_⟩
          rcases List.mem_append.mp hc' with hc' | hc'
          · exact hall c' hc' hplace hid
          · rw [List.mem_singleton.mp hc']
            exact hname
      · by_cases hsame : last.1.idName = c.1.idName ∧ last.2 = c.2
        · rw [hsame.1, hsame.2, lookup_set]
          exact .inl ⟨last, List.mem_append_right _ (List.mem_singleton_self last), hsame.2,
            hsame.1, hname, rfl⟩
        · have hne : synthesizedId c.1.idName c.2 ≠ synthesizedId last.1.idName last.2 :=
            fun heq ↦ hsame ((synthesizedId_inj.mp heq).imp Eq.symm Eq.symm)
          rw [lookup_set_of_ne hne]
          rcases ih with ⟨c', hc', hrest⟩ | ⟨hnone, hall⟩
          · exact .inl ⟨c', List.mem_append_left _ hc', hrest⟩
          · refine .inr ⟨hnone, fun c' hc' hplace hid ↦ ?_⟩
            rcases List.mem_append.mp hc' with hc' | hc'
            · exact hall c' hc' hplace hid
            · rw [List.mem_singleton.mp hc'] at hplace hid
              exact absurd ⟨hid, hplace⟩ hsame

/-! ### The results of a conversation -/

/-- The result that a call is given. -/
def Cell.result (table : CallTable) (cell : Cell) : Value :=
  let call := (table.lookup (synthesizedId cell.1.1.idName cell.1.2)).getD []
  .obj [("call".toList, .obj [("name".toList, getOr call "name".toList (.str [])),
      ("parameters".toList, getOr call "parameters".toList (.obj []))]),
    ("outputs".toList, .arr [.obj [("output".toList, .str (contentText cell.2))]])]

theorem cohereEntry_echo (table : CallTable) (cell : Cell) :
    cohereEntry table cell.echo = some ([], [cell.result table]) := rfl

theorem historyCalls_toolCalls (calls : List (CohereCall × ℕ)) :
    ∃ values, historyCalls (calls.map fun c ↦ .obj (c.1.toolCall c.2)) = some values := by
  induction calls with
  | nil => exact ⟨[], rfl⟩
  | cons c calls ih =>
      obtain ⟨values, hvalues⟩ := ih
      rw [List.map_cons, historyCalls, hvalues]
      exact ⟨_, rfl⟩

theorem historyEntry_calls {msg : Fields} {toolCalls values : List Value}
    (hcalls : getOr msg toolCallsKey .null = .arr toolCalls)
    (hvalues : historyCalls toolCalls = some values) : ∃ entry, historyEntry msg = some entry := by
  have hitems : itemsOf (.arr toolCalls) = some toolCalls := by
    cases toolCalls <;> rfl
  unfold historyEntry
  simp only [hcalls, hitems, hvalues, Option.bind_eq_bind, Option.bind_some]
  split_ifs <;> exact ⟨_, rfl⟩

theorem cohereEntry_message (table : CallTable) (turn : CohereTurn) (text : Value) :
    ∃ entry, cohereEntry table (turn.message text) = some ([entry], []) := by
  obtain ⟨values, hvalues⟩ := historyCalls_toolCalls turn.calls.zipIdx
  have hentry : ∃ entry, historyEntry (turn.message text) = some entry := by
    unfold CohereTurn.message
    split_ifs with hnil htruthy
    · exact ⟨_, rfl⟩
    · exact historyEntry_calls rfl hvalues
    · exact historyEntry_calls rfl hvalues
  obtain ⟨entry, hentry⟩ := hentry
  refine ⟨entry, ?_⟩
  have hrole : getOr (turn.message text) roleKey (.str "user".toList) =
      .str "assistant".toList := by
    unfold CohereTurn.message
    split_ifs <;> rfl
  unfold cohereEntry
  rw [hrole, hentry]
  rfl

theorem cohereEntry_user {msg : Fields} (h : isUser msg = true) (table : CallTable) :
    ∃ history, cohereEntry table msg = some (history, []) := by
  have hrole : getOr msg roleKey (.str "user".toList) = .str "user".toList := by
    unfold isUser at h
    cases hrole : getOr msg roleKey (.str "user".toList) with
    | str text =>
        rw [hrole] at h
        have htext : text = "user".toList := eq_of_beq h
        rw [htext]
    | null => rw [hrole] at h; cases h
    | bool b => rw [hrole] at h; cases h
    | number t => rw [hrole] at h; cases h
    | nonFinite t => rw [hrole] at h; cases h
    | arr items => rw [hrole] at h; cases h
    | obj fields => rw [hrole] at h; cases h
  unfold cohereEntry historyEntry
  rw [hrole]
  exact ⟨_, rfl⟩

/-- Messages of the user give no results. -/
theorem cohereEntries_filter {table : CallTable} {messages history : List Fields}
    {results : List Value} (h : cohereEntries table (messages.filter fun msg ↦ !isUser msg) =
      some (history, results)) :
    ∃ history', cohereEntries table messages = some (history', results) := by
  induction messages generalizing history results with
  | nil => exact ⟨history, h⟩
  | cons msg messages ih =>
      cases huser : isUser msg with
      | true =>
          rw [List.filter_cons_of_neg (by simp [huser])] at h
          obtain ⟨later, hlater⟩ := ih h
          obtain ⟨added, hadded⟩ := cohereEntry_user huser table
          rw [cohereEntries, hadded, hlater]
          exact ⟨_, rfl⟩
      | false =>
          rw [List.filter_cons_of_pos (by simp [huser]), cohereEntries] at h
          obtain ⟨added, hadded, h⟩ := Option.bind_eq_some_iff.mp h
          obtain ⟨later, hlater, h⟩ := Option.bind_eq_some_iff.mp h
          obtain ⟨later', hlater'⟩ := ih hlater
          obtain ⟨-, rfl⟩ := Prod.ext_iff.mp (Option.some.inj h)
          rw [cohereEntries, hadded, hlater']
          exact ⟨_, rfl⟩

theorem cohereEntries_echoes {table : CallTable} {rest history : List Fields}
    {results : List Value} (cells : List Cell)
    (h : cohereEntries table rest = some (history, results)) :
    cohereEntries table (cells.map Cell.echo ++ rest) =
      some (history, cells.map (Cell.result table) ++ results) := by
  induction cells with
  | nil => exact h
  | cons cell cells ih =>
      rw [List.map_cons, List.cons_append, cohereEntries, cohereEntry_echo, ih]
      rfl

theorem cohereEntries_blocks {turns : List CohereTurn} {blocks : List (List Fields)}
    (h : List.Forall₂ Block turns blocks) (table : CallTable) :
    ∃ history, cohereEntries table blocks.flatten =
      some (history, (turns.flatMap CohereTurn.cells).map (Cell.result table)) := by
  induction h with
  | nil => exact ⟨[], rfl⟩
  | @cons turn block turns blocks hblock _ ih =>
      obtain ⟨-, text, rfl⟩ := hblock
      obtain ⟨history, hhistory⟩ := ih
      obtain ⟨entry, hentry⟩ := cohereEntry_message table turn text
      refine ⟨entry :: history, ?_⟩
      rw [List.flatten_cons, List.cons_append, cohereEntries, hentry,
        cohereEntries_echoes turn.cells hhistory, List.flatMap_cons, List.map_append]
      rfl

/-! ### When every result has its call -/

/-- The result of a cell with the very call that it answers. -/
def Cell.answered (cell : Cell) : Value :=
  Adapters.answered cell.1.1.shownName cell.1.1.shownParameters cell.2

theorem paired_iff_cells {turns : List CohereTurn} {messages : List Fields}
    (h : Conversation U turns messages) :
    Paired turns messages ↔ ∀ cell ∈ turns.flatMap CohereTurn.cells,
      cell.result ((placedCalls turns).foldl addPlaced []) = cell.answered := by
  obtain ⟨blocks, hblocks, hmessages⟩ := h.blocks
  obtain ⟨history, hentries⟩ := cohereEntries_blocks hblocks (openaiToolCalls messages)
  rw [← hmessages] at hentries
  obtain ⟨history', hentries⟩ := cohereEntries_filter hentries
  have hexpected : (turns.flatMap fun turn ↦ List.zipWith (fun call output ↦
      answered call.shownName call.shownParameters output) turn.calls turn.outputs) =
      (turns.flatMap CohereTurn.cells).map Cell.answered := by
    rw [List.map_flatMap]
    congr 1
    funext turn
    conv_lhs => rw [← List.zipIdx_map_fst 0 turn.calls, List.zipWith_map_left]
    rw [CohereTurn.cells, List.zip_eq_zipWith, List.map_zipWith]
    rfl
  rw [Paired, hexpected, cohereTranslateRequest, hentries, ← List.map_inj_left,
    ← openaiToolCalls_eq hblocks hmessages]
  constructor
  · rintro ⟨payload, hpayload, hresults⟩
    rw [← hresults, ← Option.some.inj hpayload]
  · exact fun hresults ↦ ⟨_, rfl, hresults⟩

/-- The call that is found for a call is the call itself. -/
def Finds (table : CallTable) (c : CohereCall × ℕ) : Prop :=
  let call := (table.lookup (synthesizedId c.1.idName c.2)).getD []
  getOr call "name".toList (.str []) = .str c.1.shownName ∧
    getOr call "parameters".toList (.obj []) = .obj c.1.shownParameters

theorem Cell.result_eq_iff {table : CallTable} {cell : Cell} :
    cell.result table = cell.answered ↔ Finds table cell.1 := by
  unfold Cell.result Cell.answered Adapters.answered Finds
  simp

theorem mem_placedCalls {turns : List CohereTurn} {c : CohereCall × ℕ} :
    c ∈ placedCalls turns ↔ ∃ output, (c, output) ∈ turns.flatMap CohereTurn.cells := by
  have hcells : (turns.flatMap CohereTurn.cells).map Prod.fst = placedCalls turns := by
    rw [List.map_flatMap]
    unfold placedCalls
    congr 1
    funext turn
    exact List.map_fst_zip (by rw [List.length_zipIdx, turn.paired])
  rw [← hcells, List.mem_map]
  constructor
  · rintro ⟨⟨c, output⟩, hmem, rfl⟩
    exact ⟨output, hmem⟩
  · rintro ⟨output, hmem⟩
    exact ⟨(c, output), hmem, rfl⟩

theorem finds_iff {turns : List CohereTurn} :
    (∀ c ∈ placedCalls turns, Finds ((placedCalls turns).foldl addPlaced []) c) ↔
      Unambiguous turns := by
  constructor
  · intro hfinds
    refine ⟨fun c hc c' hc' hplace hid ↦ ?_, fun c hc hname ↦ ?_⟩
    · obtain ⟨hname, hparameters⟩ := hfinds c hc
      obtain ⟨hname', hparameters'⟩ := hfinds c' hc'
      rw [← hplace, ← hid, hname] at hname'
      rw [← hplace, ← hid, hparameters] at hparameters'
      exact ⟨Value.str.inj hname', Value.obj.inj hparameters'⟩
    · obtain ⟨hfound, hparameters⟩ := hfinds c hc
      rcases lookup_foldl_addPlaced (placedCalls turns) c with
        ⟨c', -, -, -, hname', hlookup⟩ | ⟨hnone, -⟩
      · rw [hlookup] at hfound
        exact absurd ((Value.str.inj hfound).trans hname) hname'
      · rw [hnone] at hparameters
        exact (Value.obj.inj hparameters).symm
  · rintro ⟨hsame, hunnamed⟩ c hc
    rcases lookup_foldl_addPlaced (placedCalls turns) c with
      ⟨c', hc', hplace, hid, -, hlookup⟩ | ⟨hnone, hall⟩
    · obtain ⟨hname, hparameters⟩ := hsame c' hc' c hc hplace hid
      unfold Finds
      rw [hlookup, ← hname, ← hparameters]
      exact ⟨rfl, rfl⟩
    · have hname : c.1.shownName = [] := hall c hc rfl rfl
      unfold Finds
      rw [hnone, hname, hunnamed c hc hname]
      exact ⟨rfl, rfl⟩

/-- Every result is paired with the call it answers exactly in an unambiguous conversation. -/
theorem paired_iff {turns : List CohereTurn} {messages : List Fields}
    (h : Conversation U turns messages) : Paired turns messages ↔ Unambiguous turns := by
  rw [paired_iff_cells h, ← finds_iff]
  constructor
  · intro hcells c hc
    obtain ⟨output, hmem⟩ := mem_placedCalls.mp hc
    exact Cell.result_eq_iff.mp (hcells _ hmem)
  · rintro hfinds ⟨c, output⟩ hmem
    exact Cell.result_eq_iff.mpr (hfinds c (mem_placedCalls.mpr ⟨output, hmem⟩))

/-! ### One query and two -/

def queryParameters (query : String) : Fields := [("query".toList, .str query.toList)]

/-- A turn that queries a database. -/
def queryTurn (query : String) : CohereTurn where
  calls := [⟨some "db".toList, some (queryParameters query)⟩]
  outputs := [.str "ok".toList]
  paired := rfl

def queryReply (query : String) : Fields :=
  [(toolCallsKey, .arr [.obj [("name".toList, .str "db".toList),
    ("parameters".toList, .obj (queryParameters query))]])]

theorem queryTurn_describes (query : String) : (queryTurn query).Describes (queryReply query) := by
  refine ⟨_, rfl, .cons ⟨rfl, rfl, ?_⟩ .nil⟩
  exact ⟨List.nodup_singleton _, trivial, trivial⟩

def queryMessages (query : String) : List Fields :=
  (turnMessages asciiUnicode (queryReply query) (queryTurn query).outputs).getD []

theorem queryMessages_conversation (queries : List String) :
    Conversation asciiUnicode (queries.map queryTurn) (queries.flatMap queryMessages) := by
  refine ⟨queries.map queryMessages, ?_, ?_⟩
  · induction queries with
    | nil => exact .nil
    | cons query queries ih => exact .cons ⟨queryReply query, queryTurn_describes query, rfl⟩ ih
  · induction queries with
    | nil => rfl
    | cons query queries ih =>
        rw [List.flatMap_cons, List.filter_append, ih]
        rfl

/-- A single query is paired with its result. -/
theorem paired_oneQuery : Paired [queryTurn "a"] (["a"].flatMap queryMessages) := by
  refine (paired_iff (queryMessages_conversation ["a"])).mpr ⟨?_, ?_⟩
  · intro c hc c' hc' _ _
    rw [List.mem_singleton.mp hc, List.mem_singleton.mp hc']
    exact ⟨rfl, rfl⟩
  · intro c hc hname
    rw [List.mem_singleton.mp hc] at hname
    cases hname

/-- The parameters that results are paired with. -/
def pairedParameters (results : List Value) : List Value :=
  results.map fun result ↦ getOr (dictOf ((dictOf (some result)).lookup "call".toList))
    "parameters".toList .null

/-- The first of two queries is paired with the parameters of the second. -/
theorem mixed_twoQueries :
    Conversation asciiUnicode (["a", "b"].map queryTurn) (["a", "b"].flatMap queryMessages) ∧
      ¬Paired (["a", "b"].map queryTurn) (["a", "b"].flatMap queryMessages) := by
  refine ⟨queryMessages_conversation ["a", "b"], ?_⟩
  rintro ⟨payload, hpayload, hresults⟩
  rw [← Option.some.inj hpayload] at hresults
  have hparameters : [Value.obj (queryParameters "b"), .obj (queryParameters "b")] =
      [.obj (queryParameters "a"), .obj (queryParameters "b")] :=
    congrArg pairedParameters hresults
  exact absurd hparameters (by simp [queryParameters])

end Adapters
