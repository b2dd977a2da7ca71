import AxonGateway.Lib.PyValue

/-!
# Results of Athena

The rows of a result are read page by page. A header row is dropped, short rows are filled up, and
reading stops at the limits of rows and bytes.
-/

namespace Athena

open PyValue

local instance resultTexts : LawfulBEq (List Char) := inferInstance

abbrev Dict := List (Text × Value)

/-- An `AthenaExecutionError` with its code and message, or another exception. -/
inductive Fault where
  | execution (code message : String)
  | other
  deriving DecidableEq

def resultsFailed (message : String) : Fault := .execution "athena_results_failed" message

def maxAthenaColumns : ℕ := 1000

def maxColumnMetadataBytes : ℕ := 4096

def maxResultPageRows : ℕ := 100

/-- `_compact_json_bytes` -/
def compactJsonBytes (v : Value) : ℕ := utf8Size v.compact

structure Column where
  name : Text
  type : Text
  deriving DecidableEq

abbrev Row := List (Option Text)

def Column.value (column : Column) : Value :=
  .obj [("name".toList, .str column.name), ("type".toList, .str column.type)]

def fieldValue (field : Option Text) : Value := field.elim .null .str

def rowValue (row : Row) : Value := .arr (row.map fieldValue)

/-- The document of columns and rows. -/
def resultDocument (columns : List Column) (rows : List Row) : Value :=
  .obj [("columns".toList, .arr (columns.map Column.value)),
    ("rows".toList, .arr (rows.map rowValue))]

/-! ### Columns -/

/-- A text that is not empty and not too long. -/
def metadataText (v : Option Value) : Option Text :=
  match v with
  | some (.str (c :: text)) =>
      if utf8Size (c :: text) ≤ maxColumnMetadataBytes then some (c :: text) else none
  | _ => none

def pageColumn (column : Value) : Option Column :=
  match column with
  | .obj column => do
      let name ← metadataText (column.lookup "Name".toList)
      let type ← metadataText (column.lookup "Type".toList)
      pure ⟨name, type⟩
  | _ => none

def invalidColumns : Fault := resultsFailed "Athena returned invalid column metadata."

def normalizedColumns (rawColumns : Value) : Except Fault (List Column) :=
  match rawColumns with
  | .arr items =>
      if items = [] ∨ maxAthenaColumns < items.length then .error invalidColumns
      else match items.mapM pageColumn with
        | some columns => .ok columns
        | none => .error invalidColumns
  | _ => .error invalidColumns

/-- The columns of a result set; another exception where the metadata is no dictionary. -/
def pageColumns (resultSet : Dict) : Except Fault (List Column) :=
  match (resultSet.lookup "ResultSetMetadata".toList).getD (.obj []) with
  | .obj metadata => normalizedColumns ((metadata.lookup "ColumnInfo".toList).getD (.arr []))
  | _ => .error .other

/-! ### Rows -/

/-- The value of a field: nothing where it is invalid. -/
def rowField (field : Value) : Option (Option Text) :=
  match field with
  | .obj field =>
      match (field.lookup "VarCharValue".toList).getD .null with
      | .null => some none
      | .str text => some (some text)
      | _ => none
  | _ => none

/-- The row of a page, as long as there are columns. -/
def pageRow (columns : List Column) (rawRow : Value) : Except Fault Row :=
  match rawRow with
  | .obj rawRow =>
      match (rawRow.lookup "Data".toList).getD (.arr []) with
      | .arr data =>
          match data.mapM rowField with
          | none => .error (resultsFailed "Athena returned invalid row data.")
          | some values =>
              let row := values ++ List.replicate (columns.length - values.length) none
              if columns.length < row.length then
                .error (resultsFailed "Athena returned too many fields in a row.")
              else .ok row
      | _ => .error (resultsFailed "Athena returned invalid row data.")
  | _ => .error (resultsFailed "Athena returned an invalid row.")

/-- The row that repeats the names of the columns. -/
def header (columns : List Column) : Row := columns.map fun column ↦ some column.name

/-! ### Pages -/

/-- What is sent for a page. -/
structure Request where
  queryExecutionId : Text
  maxResults : ℕ
  nextToken : Option Text

/-- The calls of a client: the answer to the `n`-th, or nothing where it raises. -/
abbrev ResultClient := ℕ → Request → Option Value

structure Results where
  columns : List Column
  rows : List Row
  truncated : Bool
  resultBytes : ℕ
  deriving DecidableEq

/-- The variables of the loop. -/
structure State where
  token : Option Text
  columns : List Column
  rows : List Row
  resultBytes : ℕ
  firstRow : Bool
  seenTokens : List Text

def initial : State := ⟨none, [], [], 0, true, []⟩

section

variable (maxRows maxResultBytes : ℕ)

/-- The columns of a page, which are those of the pages before. -/
def State.takeColumns (s : State) (columns : List Column) : Except Fault State :=
  if s.columns = [] then
    let resultBytes := compactJsonBytes (resultDocument columns [])
    if maxResultBytes < resultBytes then
      .error (resultsFailed "Athena column metadata exceeds the result limit.")
    else .ok { s with columns := columns, resultBytes := resultBytes }
  else if columns ≠ s.columns then
    .error (resultsFailed "Athena changed column metadata between result pages.")
  else .ok s

/-- A row of a page: the results, where it does not fit any more. -/
def State.takeRow (s : State) (row : Row) : Results ⊕ State :=
  if s.firstRow = true ∧ row = header s.columns then .inr { s with firstRow := false }
  else
    let rowBytes := compactJsonBytes (rowValue row) + if s.rows = [] then 0 else 1
    if maxRows ≤ s.rows.length ∨ maxResultBytes < s.resultBytes + rowBytes then
      .inl ⟨s.columns, s.rows, true, s.resultBytes⟩
    else
      .inr { s with
        firstRow := false, rows := s.rows ++ [row], resultBytes := s.resultBytes + rowBytes }

def State.takeRows (s : State) : List Value → Except Fault (Results ⊕ State)
  | [] => .ok (.inr s)
  | rawRow :: rest =>
      match pageRow s.columns rawRow with
      | .error e => .error e
      | .ok row =>
          match s.takeRow maxRows maxResultBytes row with
          | .inl results => .ok (.inl results)
          | .inr s => s.takeRows rest

/-- The token of the next page: the results, where there is none. -/
def State.takeToken (s : State) (token : Value) : Except Fault (Results ⊕ State) :=
  match token with
  | .null => .ok (.inl ⟨s.columns, s.rows, false, s.resultBytes⟩)
  | .str (c :: token) =>
      if c :: token ∈ s.seenTokens then
        .error (resultsFailed "Athena repeated a pagination token.")
      else .ok (.inr { s with token := some (c :: token), seenTokens := (c :: token) :: s.seenTokens })
  | _ => .error (resultsFailed "Athena returned an invalid pagination token.")

/-- The result set of an answer. -/
def resultSetOf (response : Dict) : Except Fault Dict :=
  match response.lookup "ResultSet".toList with
  | some (.obj resultSet) => .ok resultSet
  | _ => .error (resultsFailed "Athena returned an invalid result set.")

def rawRowsOf (resultSet : Dict) : Except Fault (List Value) :=
  match (resultSet.lookup "Rows".toList).getD (.arr []) with
  | .arr rawRows => .ok rawRows
  | _ => .error (resultsFailed "Athena returned invalid rows.")

def State.takePage (s : State) (response : Dict) : Except Fault (Results ⊕ State) := do
  let resultSet ← resultSetOf response
  let columns ← pageColumns resultSet
  let s ← s.takeColumns maxResultBytes columns
  let rawRows ← rawRowsOf resultSet
  match ← s.takeRows maxRows maxResultBytes rawRows with
  | .inl results => pure (.inl results)
  | .inr s => s.takeToken ((response.lookup "NextToken".toList).getD .null)

/-- One iteration of the loop. -/
def State.readPage (s : State) (response : Option Value) : Except Fault (Results ⊕ State) :=
  match response with
  | none => .error (resultsFailed "Athena query results are unavailable.")
  | some (.obj response) => s.takePage maxRows maxResultBytes response
  | some _ => .error (resultsFailed "Athena returned an invalid result set.")

variable (client : ResultClient) (executionId : Text)

def State.request (s : State) : Request :=
  ⟨executionId, min maxResultPageRows (maxRows + 2), s.token⟩

/-- `_read_results` from the `n`-th call on; nothing where there are more pages than `fuel`. -/
def readFrom : ℕ → ℕ → State → Option (Except Fault Results)
  | 0, _, _ => none
  | fuel + 1, n, s =>
      match s.readPage maxRows maxResultBytes (client n (s.request maxRows executionId)) with
      | .error e => some (.error e)
      | .ok (.inl results) => some (.ok results)
      | .ok (.inr s) => readFrom fuel (n + 1) s

/-- `_read_results` -/
def readResults (fuel : ℕ) : Option (Except Fault Results) :=
  readFrom maxRows maxResultBytes client executionId fuel 0 initial

end

end Athena
