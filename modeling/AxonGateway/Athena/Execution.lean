import AxonGateway.Athena.Results
import AxonGateway.Lib.Generator
import AxonGateway.Screening.Chunks

/-!
# Executions of Athena

A query is started, reported to a callback, polled until it ends, and its results are read. The
execution is stopped when the caller leaves before it has seen its end.
-/

namespace Athena

open PyValue Interleaving
open Raising (perform ask attempt)

local instance executionTexts : LawfulBEq (List Char) := inferInstance

/-! ### Errors -/

structure ExecutionError where
  code : String
  message : String
  queryExecutionId : Option Text := none
  athenaState : Option Text := none
  dataScannedBytes : Option ℤ := none
  engineExecutionMs : Option ℤ := none
  cancellationRequested : Bool := false
  executionMayHaveStarted : Bool := false

/-- An exception that a handler of `Exception` catches. -/
inductive Failure where
  | execution (e : ExecutionError)
  | other

inductive Exn where
  | cancelled
  | failure (f : Failure)

structure AthenaQueryTermination where
  queryExecutionId : Text
  state : Text
  terminal : Bool
  dataScannedBytes : Option ℤ
  engineExecutionMs : Option ℤ
  cancellationRequested : Bool

def ExecutionError.attachTermination (e : ExecutionError) (t : AthenaQueryTermination) :
    ExecutionError :=
  { e with
    queryExecutionId := e.queryExecutionId <|> some t.queryExecutionId
    athenaState := e.athenaState <|> some t.state
    dataScannedBytes := e.dataScannedBytes <|> t.dataScannedBytes
    engineExecutionMs := e.engineExecutionMs <|> t.engineExecutionMs
    cancellationRequested := e.cancellationRequested || t.cancellationRequested
    executionMayHaveStarted := true }

/-! ### The state of an execution -/

def terminalStates : List Text := ["SUCCEEDED".toList, "FAILED".toList, "CANCELLED".toList]

def activeStates : List Text := ["QUEUED".toList, "RUNNING".toList]

/-- A value for which `isinstance(value, int)` that is no truth value and not negative. -/
def nonNegativeStatistic (v : Value) : Option ℤ :=
  match v with
  | .bool _ => none
  | v => (Screening.pyInt v).filter fun n ↦ decide (0 ≤ n)

def invalidStatus (executionId : Text) (cancellationRequested : Bool) : ExecutionError :=
  { code := "athena_status_failed"
    message := "Athena returned an invalid query status."
    queryExecutionId := some executionId
    cancellationRequested := cancellationRequested }

/-- The statistics of an execution: the bytes and the time. -/
def statisticsOf (execution : Dict) (executionId state : Text) (cancellationRequested : Bool) :
    Except ExecutionError (Option ℤ × Option ℤ) :=
  let error (message : String) (scanned : Option ℤ) : ExecutionError :=
    { code := "athena_status_failed"
      message := message
      queryExecutionId := some executionId
      athenaState := some state
      dataScannedBytes := scanned
      cancellationRequested := cancellationRequested }
  match (execution.lookup "Statistics".toList).getD .null with
  | .null => .ok (none, none)
  | .obj statistics =>
      match nonNegativeStatistic
          ((statistics.lookup "DataScannedInBytes".toList).getD (.number "0".toList)) with
      | none => .error (error "Athena returned an invalid scan statistic." none)
      | some scanned =>
          match nonNegativeStatistic
              ((statistics.lookup "EngineExecutionTimeInMillis".toList).getD (.number "0".toList)) with
          | none => .error (error "Athena returned an invalid execution time statistic."
              (some scanned))
          | some engineExecutionMs => .ok (some scanned, some engineExecutionMs)
  | _ => .error (error "Athena returned invalid query statistics." none)

/-- `_termination_from_execution` -/
def terminationFromExecution (execution : Value) (executionId : Text)
    (cancellationRequested : Bool) : Except ExecutionError AthenaQueryTermination :=
  match execution with
  | .obj execution =>
      match execution.lookup "Status".toList with
      | some (.obj status) =>
          match status.lookup "State".toList with
          | some (.str state) =>
              if state ∈ terminalStates ++ activeStates then do
                let (scanned, engineExecutionMs) ←
                  statisticsOf execution executionId state cancellationRequested
                pure {
                  queryExecutionId := executionId
                  state := state
                  terminal := decide (state ∈ terminalStates)
                  dataScannedBytes := scanned
                  engineExecutionMs := engineExecutionMs
                  cancellationRequested := cancellationRequested }
              else .error (invalidStatus executionId cancellationRequested)
          | _ => .error (invalidStatus executionId cancellationRequested)
      | _ => .error (invalidStatus executionId cancellationRequested)
  | _ => .error (invalidStatus executionId cancellationRequested)

/-! ### What the method awaits -/

structure ExecutionTracker where
  queryExecutionId : Option Text
  cancellationRequested : Bool
  startAttempted : Bool

/-- How an await ends. -/
inductive Answer (α : Type) where
  | returned (a : α)
  | raised (f : Failure)
  | cancelled

def Answer.result {α : Type} : Answer α → Except Exn α
  | .returned a => .ok a
  | .raised f => .error (.failure f)
  | .cancelled => .error .cancelled

/-- The thread of a start call comes to its own end, whether or not the caller is cancelled while it
waits for it. -/
structure StartAnswer where
  started : Option Value
  cancelled : Bool

/-- The awaits of the method; a loop that is given up never ends. -/
inductive Op where
  | clientFactory
  | validateWorkgroup
  | startQueryExecution
  | onStarted (executionId : Text)
  | getQueryExecution (executionId : Text)
  | sleep
  | getQueryResults (request : Request)
  | stopQueryExecution (executionId : Value)
  | track (update : ExecutionTracker → ExecutionTracker)
  | hang

def Ret : Op → Type
  | .clientFactory => Answer Unit
  | .validateWorkgroup => Answer Unit
  | .startQueryExecution => StartAnswer
  | .onStarted _ => Answer Unit
  | .getQueryExecution _ => Answer Value
  | .sleep => Answer Unit
  | .getQueryResults _ => Answer Value
  | .stopQueryExecution _ => Answer Unit
  | .track _ => Unit
  | .hang => Empty

abbrev Call (α : Type) := Raising Exn Op Ret α

/-- Raise an error of the executor. -/
def raise {α : Type} (e : ExecutionError) : Call α := throw (.failure (.execution e))

/-- The value of a computation of the executor. -/
def unwrap {α : Type} (x : Except ExecutionError α) : Call α :=
  match x with
  | .ok a => pure a
  | .error e => raise e

/-- Handle an `Exception`, but not a cancellation. -/
def exceptFailure {α : Type} (x : Call α) (handler : Failure → Call α) : Call α := do
  match ← attempt x with
  | .ok a => pure a
  | .error .cancelled => throw .cancelled
  | .error (.failure f) => handler f

def track (update : ExecutionTracker → ExecutionTracker) : Call Unit := ask (Op.track update)

def startQueryExecution : Call StartAnswer := ask Op.startQueryExecution

/-- A loop whose fuel is used up. -/
def hang {α : Type} : Call α := perform (o := .hang) fun r ↦ nomatch (r : Empty)

/-! ### Status -/

/-- The execution that a response is about, if it is a dictionary. -/
def executionOf (response : Value) : Option Value :=
  match response with
  | .obj response =>
      match response.lookup "QueryExecution".toList with
      | some (.obj execution) => some (.obj execution)
      | _ => none
  | _ => none

def getQueryExecution (executionId : Text) : Call Value := do
  let response ← exceptFailure (perform (o := .getQueryExecution executionId) Answer.result)
    fun _ ↦ raise {
      code := "athena_status_failed"
      message := "Athena query status is unavailable."
      queryExecutionId := some executionId }
  match executionOf response with
  | some execution => pure execution
  | none => raise (invalidStatus executionId false)

/-- `_wait_for_query`, where the deadline has passed after so many polls. -/
def waitForQuery (executionId : Text) : ℕ → Call Value
  | 0 => do
      let execution ← getQueryExecution executionId
      let termination ← unwrap (terminationFromExecution execution executionId false)
      if termination.terminal then pure execution
      else raise {
        code := "athena_query_timeout"
        message := "Athena query exceeded its execution deadline." }
  | polls + 1 => do
      let execution ← getQueryExecution executionId
      let termination ← unwrap (terminationFromExecution execution executionId false)
      if termination.terminal then pure execution
      else do
        perform (o := .sleep) Answer.result
        waitForQuery executionId polls

/-! ### Results -/

structure AthenaQueryLimits where
  maxRows : ℤ
  maxResultBytes : ℕ
  maxBytesScanned : ℤ

structure AthenaQueryResult where
  queryExecutionId : Text
  results : Results
  dataScannedBytes : ℤ
  engineExecutionMs : ℤ

/-- `_read_results` where there are at most so many pages. -/
def readPages (limits : AthenaQueryLimits) (maxRows : ℕ) (executionId : Text) :
    ℕ → State → Call Results
  | 0, _ => hang
  | pages + 1, s => do
      let answer ← exceptFailure (do
        let response ← perform (o := .getQueryResults (s.request maxRows executionId)) Answer.result
        pure (some response)) fun _ ↦ pure none
      match s.readPage maxRows limits.maxResultBytes answer with
      | .error (.execution code message) => raise { code := code, message := message }
      | .error .other => throw (.failure .other)
      | .ok (.inl results) => pure results
      | .ok (.inr s) => readPages limits maxRows executionId pages s

/-- What follows once the end of an execution is seen. -/
def conclude (limits : AthenaQueryLimits) (maxRows pages : ℕ) (executionId : Text)
    (execution : Value) : Call AthenaQueryResult := do
  let termination ← unwrap (terminationFromExecution execution executionId false)
  let error (code message : String) : ExecutionError :=
    ({ code := code, message := message } : ExecutionError).attachTermination termination
  match termination.dataScannedBytes, termination.engineExecutionMs with
  | none, _ => raise (error "athena_status_failed" "Athena returned invalid query statistics.")
  | _, none => raise (error "athena_status_failed" "Athena returned invalid query statistics.")
  | some scanned, some engineExecutionMs =>
      if termination.state ≠ "SUCCEEDED".toList then
        raise (error
          (if termination.state = "CANCELLED".toList then "athena_query_cancelled"
            else "athena_query_failed") "Athena did not complete the query successfully.")
      else if limits.maxBytesScanned < scanned then
        raise (error "athena_scan_limit_exceeded"
          "Athena query exceeded the configured scan limit.")
      else do
        let results ← exceptFailure (readPages limits maxRows executionId pages initial) fun f ↦
          match f with
          | .execution e => raise (e.attachTermination termination)
          | .other => throw (.failure .other)
        pure ⟨executionId, results, scanned, engineExecutionMs⟩

/-! ### The method -/

/-- `started.get("QueryExecutionId")`, or none. -/
def identifierOf (started : Value) : Value :=
  match started with
  | .obj started => (started.lookup "QueryExecutionId".toList).getD .null
  | _ => .null

def usableId (executionId : Value) : Option Text :=
  match executionId with
  | .str (c :: id) => some (c :: id)
  | _ => none

/-- The method is cancelled while it waits for the start call: the identifier that it is left
with. -/
def captureStarted (started : Option Value) : Call Value :=
  match started with
  | none => pure .null
  | some started =>
      match usableId (identifierOf started) with
      | none => pure (identifierOf started)
      | some executionId => do
          track fun t ↦ { t with queryExecutionId := some executionId }
          -- whatever the callback raises, the cancellation is raised in the end
          let _ ← attempt (perform (o := .onStarted executionId) Answer.result)
          pure (identifierOf started)

/-- From the identifier to the end of the execution. -/
def observe (polls : ℕ) (executionId : Value) : Call (Text × Value) :=
  match usableId executionId with
  | none => raise {
      code := "athena_start_failed"
      message := "Athena returned no query execution identifier."
      executionMayHaveStarted := true }
  | some executionId => do
      track fun t ↦ { t with queryExecutionId := some executionId }
      perform (o := .onStarted executionId) Answer.result
      let execution ← waitForQuery executionId polls
      pure (executionId, execution)

/-- The `finally` block. -/
def stopUnless (terminal : Bool) (executionId : Value) : Call Unit :=
  match executionId with
  | .null => pure ()
  | executionId =>
      if terminal then pure ()
      else exceptFailure (do
        perform (o := .stopQueryExecution executionId) Answer.result
        track fun t ↦ { t with cancellationRequested := true }) fun _ ↦ pure ()

/-- What the method is called with. -/
structure Setup where
  limits : AthenaQueryLimits
  ownsDatasource : Bool
  maxRows : Option ℤ

def Setup.rowLimit (setup : Setup) : ℤ := setup.maxRows.getD setup.limits.maxRows

/-- The block that is left through `finally`. -/
def runBlock (setup : Setup) (polls pages : ℕ) : Call AthenaQueryResult := do
  track fun t ↦ { t with startAttempted := true }
  let answer ← startQueryExecution
  if answer.cancelled then do
    let executionId ← captureStarted answer.started
    stopUnless false executionId
    throw .cancelled
  else
    match answer.started with
    | none => raise {
        code := "athena_start_failed"
        message := "Athena rejected the query execution request."
        executionMayHaveStarted := true }
    | some started => do
        let executionId := identifierOf started
        match ← attempt (observe polls executionId) with
        | .error e => do
            stopUnless false executionId
            throw e
        | .ok (id, execution) => do
            let outcome ← attempt
              (conclude setup.limits setup.rowLimit.toNat pages id execution)
            stopUnless true executionId
            match outcome with
            | .ok result => pure result
            | .error e => throw e

/-- `_execute_bounded` -/
def executeBounded (setup : Setup) (polls pages : ℕ) : Call AthenaQueryResult := do
  if ¬setup.ownsDatasource then
    raise {
      code := "datasource_identity_mismatch"
      message := "Datasource ownership could not be verified." }
  else if ¬(1 ≤ setup.rowLimit ∧ setup.rowLimit ≤ setup.limits.maxRows) then
    raise {
      code := "invalid_query_limit"
      message := s!"max_rows must be between 1 and {setup.limits.maxRows}." }
  else do
    exceptFailure (perform (o := .clientFactory) Answer.result) fun _ ↦ raise {
      code := "athena_role_unavailable"
      message := "The project query role could not be assumed." }
    perform (o := .validateWorkgroup) Answer.result
    runBlock setup polls pages

end Athena
