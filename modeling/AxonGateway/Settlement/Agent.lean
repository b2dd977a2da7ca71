import AxonGateway.Lib.Generator

/-!
# The settlement of a reserved budget

A request whose budget was reserved goes to a provider or a router on one of four paths, and
its reservation is handed to `finalize_budget` or `release_budget` on the way out. What a
step comes to is its answer: it may fail or be cancelled, and the consumer of a stream may
close it at any event. A record of what was handed over, and of what happened to the request,
is kept along the way.
-/

namespace Settlement

open Interleaving

/-- The exceptions that the handlers tell apart. -/
inductive Failure where
  | ensembleAccess
  | ensembleCostCeiling
  | ensembleNoSurvivors
  | ensembleQuorum
  | ensembleSynthesis
  | allProvidersExhausted
  | noCandidateModels
  | other
  deriving DecidableEq

/-- What can be raised: an `Exception`, or one of the two that are none. -/
inductive Exn where
  | failure (f : Failure)
  | cancelled
  | generatorExit
  deriving DecidableEq

/-- The cost that is charged: what was computed, what an ensemble decided, or the estimate. -/
inductive Charge where
  | actual
  | decision
  | reserved
  deriving DecidableEq

inductive Handoff where
  | finalize (charge : Charge)
  | release
  deriving DecidableEq

inductive Event where
  | headers
  | chunk
  | error
  | done
  deriving DecidableEq

/-- Where a provider or a router is waited for. -/
inductive Stage where
  | handler
  | ensembleStream
  | bufferedStream
  deriving DecidableEq

/-- The other steps that may fail. -/
inductive Step where
  | recordUsage
  | adoptSpend
  | forwardTrace
  | exportUsage
  | recordSpend
  | outputPolicy
  | recordRedaction
  | audit
  | storeSession
  | cachePut
  | semanticPut
  | simulate
  | estimateTokens
  | closeProvider
  deriving DecidableEq

/-- A step without an await cannot be cancelled. -/
def Step.awaits : Step → Bool
  | .adoptSpend | .exportUsage | .simulate => false
  | _ => true

inductive Answer where
  | done
  | failed
  | cancelled
  deriving DecidableEq

/-- A response, or none to return, though one may have been obtained by then. -/
inductive RouteAnswer where
  | response
  | failed (f : Failure) (obtained : Bool)
  | cancelled (obtained : Bool)
  deriving DecidableEq

inductive OpenAnswer where
  | opened
  | unavailable
  | failed
  | cancelled
  deriving DecidableEq

inductive FinalizeAnswer where
  | totals
  | missing
  | failed
  | cancelled
  deriving DecidableEq

inductive PullAnswer where
  | chunk (emits : Bool)
  | failed
  | cancelled
  deriving DecidableEq

inductive Op where
  | route (stage : Stage)
  | openStream
  | price (streamed : Bool)
  | finalize (charge : Charge)
  | release
  | register
  | unregister
  | claimed
  | await (step : Step)
  | pull (first : Bool)
  | length
  | usageReported
  | start (guarded : Bool)
  | emit (e : Event)
  deriving DecidableEq

abbrev Ret : Op → Type
  | .route _ => RouteAnswer
  | .openStream => OpenAnswer
  | .price _ => Bool
  | .finalize _ => FinalizeAnswer
  | .release => Answer
  | .register => Unit
  | .unregister => Unit
  | .claimed => Bool
  | .await _ => Answer
  | .pull _ => PullAnswer
  | .length => ℕ
  | .usageReported => Bool
  | .start _ => Bool
  | .emit _ => Bool

/-- What happened to a request that its settlement may not survive. -/
inductive Fault where
  | cutOff
  | unpriced
  | neverStarted
  | streamUnpriced
  | closeCut
  | releasedLate
  deriving DecidableEq

/-- The hand-offs so far, the settlement that a guarded stream has registered and whether it
is claimed, and what happened: whether a provider response was obtained, whether the consumer
has closed the stream, and the faults. -/
structure World where
  handed : List Handoff
  settlement : Option Bool
  obtained : Bool
  closing : Bool
  faults : List Fault
  deriving DecidableEq

namespace World

/-- The handler was cancelled while it waited, a cost could not be computed, a guarded stream
was not started, the closing of a stream was cancelled before its accounting, or a response
was lost on the way to a stream. -/
def fault (w : World) : (o : Op) → Ret o → List Fault
  | .route .handler, .cancelled _ => [.cutOff]
  | .route .bufferedStream, .failed _ true => [.releasedLate]
  | .price false, false => [.unpriced]
  | .price true, false => [.streamUnpriced]
  | .start true, false => [.neverStarted]
  | .await .closeProvider, .cancelled => if w.closing then [.closeCut] else []
  | .await .estimateTokens, .cancelled => if w.closing then [.closeCut] else []
  | _, _ => []

def hand (w : World) (h : Handoff) : World :=
  { w with handed := w.handed ++ [h], settlement := w.settlement.map fun _ ↦ true }

def change (w : World) : (o : Op) → Ret o → World
  | .route _, .response => { w with obtained := true }
  | .route _, .failed _ obtained => { w with obtained := w.obtained || obtained }
  | .route _, .cancelled obtained => { w with obtained := w.obtained || obtained }
  | .openStream, .opened => { w with obtained := true }
  | .finalize charge, _ => w.hand (.finalize charge)
  | .release, _ => w.hand .release
  | .register, _ => { w with settlement := some false }
  | .unregister, _ => { w with settlement := none }
  | .emit _, false => { w with closing := true }
  | _, _ => w

def after (w : World) (o : Op) (r : Ret o) : World :=
  { w.change o r with faults := w.faults ++ w.fault o r }

end World

/-- These are raised before a provider has answered. -/
def Failure.early : Failure → Bool
  | .ensembleAccess | .ensembleCostCeiling | .allProvidersExhausted | .noCandidateModels => true
  | _ => false

def Possible (w : World) : (o : Op) → Ret o → Prop
  | .route _, .failed f obtained => f.early = true → obtained = false
  | .claimed, claimed => w.settlement = some claimed
  | .await step, .cancelled => step.awaits = true
  | .pull true, .cancelled => False
  | _, _ => True

def machine : Machine Op Ret World where
  exec _ o w r w' := Possible w o r ∧ w' = w.after o r
  env := Eq

/-- An event that the consumer does not resume from closes the stream. -/
def emission : Emission Op Ret where
  emits
    | .emit _ => true
    | _ => false
  closes
    | .emit _, goesOn => !goesOn
    | _, _ => false
  emits_of_closes := by
    intro o r h
    cases o with
    | emit e => rfl
    | _ => cases h

/-! ### Steps -/

abbrev Gen (α : Type) := Raising Exn Op Ret α

open Raising (perform ask attempt)

def answered : Answer → Except Exn Unit
  | .done => .ok ()
  | .failed => .error (.failure .other)
  | .cancelled => .error .cancelled

def step (s : Step) : Gen Unit := perform (o := .await s) answered

def steps : List Step → Gen Unit
  | [] => pure ()
  | s :: ss => do
      step s
      steps ss

def emit (e : Event) : Gen Unit :=
  perform (o := .emit e) fun goesOn ↦ if goesOn then .ok () else .error .generatorExit

def route (stage : Stage) : Gen Unit :=
  perform (o := .route stage) fun
    | .response => .ok ()
    | .failed f _ => .error (.failure f)
    | .cancelled _ => .error .cancelled

/-- `calculate_cost` -/
def price (streamed : Bool) : Gen Unit :=
  perform (o := .price streamed) fun priced ↦ if priced then .ok () else .error (.failure .other)

/-- Whether the totals came back. -/
def finalizeRequestBudget (charge : Charge) : Gen Bool :=
  perform (o := .finalize charge) fun
    | .totals => .ok true
    | .missing => .ok false
    | .failed => .error (.failure .other)
    | .cancelled => .error .cancelled

def releaseRequestBudget : Gen Unit := perform (o := .release) answered

def rethrow : Except Exn Unit → Gen Unit
  | .ok _ => pure ()
  | .error e => throw e

/-! ### Streams -/

/-- The chunks of a complete response. -/
def chunks : ℕ → Gen Unit
  | 0 => pure ()
  | n + 1 => do
      step .simulate
      emit .chunk
      chunks n

def emitHeaders (headers : Bool) : Gen Unit := if headers then emit .headers else pure ()

/-- `_stream_response` -/
def streamResponse (headers : Bool) : Gen Unit := do
  emitHeaders headers
  let n ← ask .length
  match ← attempt (chunks n) with
  | .error (.failure _) => emit .error
  | ended => rethrow ended
  emit .done

/-- Without reported usage the tokens are estimated, and a failure to do so is ignored. -/
def estimateUsage : Gen Unit := do
  if ← ask .usageReported then
    pure ()
  else
    match ← attempt (steps [.estimateTokens, .estimateTokens]) with
    | .error (.failure _) => pure ()
    | ended => rethrow ended

def finalizeStream (usageKnown : Bool) : Gen Unit := do
  if usageKnown then
    pure ()
  else
    estimateUsage
  price true
  let totals ← finalizeRequestBudget .actual
  step .recordUsage
  if totals then
    steps [.adoptSpend, .forwardTrace, .exportUsage, .recordSpend, .audit]
  else
    throw (.failure .other)

/-- Whether the accounting came through. -/
def finalizeStreamSafely (usageKnown : Bool) : Gen Bool := do
  match ← attempt (finalizeStream usageKnown) with
  | .ok _ => pure true
  | .error (.failure _) => pure false
  | .error e => throw e

/-- The body of a stream, an error event if it fails, the accounting in any case, and the last
events. -/
def concludeStream (content : Gen Unit) (account : Gen Bool) : Gen Unit := do
  let ended ← attempt content
  let reported ← match ended with
    | .error (.failure _) => attempt (emit .error)
    | _ => pure ended
  let accounted ← account
  rethrow reported
  if !accounted && ended.isOk then
    emit .error
  emit .done

/-- Two events, and the end. -/
def failStream : Gen Unit := do
  emit .error
  emit .done

/-- The buffered call when no provider stream could be opened. -/
def bufferedStream (headers : Bool) : Gen Unit := do
  match ← attempt (route .bufferedStream) with
  | .error (.failure _) =>
      releaseRequestBudget
      failStream
  | .error e => throw e
  | .ok _ =>
      match ← attempt (steps [.outputPolicy, .recordRedaction]) with
      | .error (.failure _) =>
          let _ ← finalizeStreamSafely true
          failStream
      | .error e => throw e
      | .ok _ =>
          concludeStream (do
            emitHeaders headers
            let n ← ask .length
            chunks n) (finalizeStreamSafely true)

def pull (first : Bool) (buffers : Bool) : Gen Unit := do
  let emits ← perform (o := .pull first) fun
    | .chunk emits => .ok emits
    | .failed => .error (.failure .other)
    | .cancelled => .error .cancelled
  if emits && !buffers then emit .chunk else pure ()

def pulls (buffers : Bool) : ℕ → Gen Unit
  | 0 => pure ()
  | n + 1 => do
      pull false buffers
      pulls buffers n

/-- The events of an opened provider stream. -/
def relayStream (headers buffers : Bool) : Gen Unit := do
  emitHeaders headers
  pull true buffers
  let n ← ask .length
  pulls buffers n
  if buffers then
    steps [.outputPolicy, .recordRedaction]
    let m ← ask .length
    chunks m
  else
    pure ()

/-- A provider stream that fails to close is left alone. -/
def closeProvider : Gen Unit := do
  match ← attempt (step .closeProvider) with
  | .error (.failure _) => pure ()
  | ended => rethrow ended

def openStream : Gen Bool :=
  perform (o := .openStream) fun
    | .opened => .ok true
    | .unavailable => .ok false
    | .failed => .error (.failure .other)
    | .cancelled => .error .cancelled

/-- `_stream_true` -/
def streamTrue (allowed headers buffers : Bool) : Gen Unit := do
  if allowed then
    if ← openStream then
      concludeStream (relayStream headers buffers) (do
        closeProvider
        finalizeStreamSafely false)
    else
      bufferedStream headers
  else
    releaseRequestBudget
    failStream

/-- `_stream_ensemble_response` -/
def streamEnsembleResponse (headers : Bool) : Gen Unit := do
  match ← attempt (route .ensembleStream) with
  | .error (.failure f) =>
      match f with
      | .ensembleAccess | .ensembleCostCeiling => releaseRequestBudget
      | .ensembleNoSurvivors | .ensembleQuorum | .ensembleSynthesis =>
          let _ ← finalizeRequestBudget .decision
          step .adoptSpend
      | f => throw (.failure f)
      emitHeaders headers
      failStream
  | .error e => throw e
  | .ok _ =>
      if ← finalizeRequestBudget .decision then
        step .adoptSpend
        emitHeaders headers
        match ← attempt (steps [.outputPolicy, .recordRedaction, .audit]) with
        | .error (.failure _) => failStream
        | .error e => throw e
        | .ok _ => streamResponse false
      else
        failStream

/-- The reservation of a stream that was abandoned is charged in full, unless it was settled. -/
def settleAbandoned : Gen Unit := do
  if ← ask .claimed then
    pure ()
  else
    match ← attempt (do
      let _ ← finalizeRequestBudget .reserved
      step .adoptSpend) with
    | .error (.failure _) => pure ()
    | ended => rethrow ended

/-- How a request ends. -/
inductive Ended where
  | responded
  | exhausted
  | unstarted
  deriving DecidableEq

/-- The generator runs to its end, and its events go to the consumer. -/
def relayed (g : Gen Unit) : Gen (Relayed (Except Exn Unit)) :=
  ExceptT.mk (g.run.relay emission >>= fun r ↦ pure (.ok r))

/-- `_guard_budgeted_stream` -/
def guardBudgetedStream (g : Gen Unit) : Gen Ended := do
  let _ ← ask .register
  let ended ← relayed g
  let settled ← match ended with
    | .ended (.ok _) => pure (.ok ())
    | .closed (some (.error .cancelled)) => pure (.error .cancelled)
    | _ => attempt settleAbandoned
  let _ ← ask .unregister
  rethrow settled
  match ended with
  | .ended (.ok _) => pure .exhausted
  | .ended (.error e) => throw e
  | .closed _ => throw .generatorExit

/-! ### Handlers -/

inductive Path where
  | ensemble
  | smart
  | direct
  | embeddings
  deriving DecidableEq

/-- What a request is like: its path, whether it asks for a stream, and whether provider
streams can be opened, its model is allowed, its output has to be buffered for a policy, it
has rate limit headers, and there is a runtime for embeddings. -/
structure Setup where
  path : Path
  stream : Bool
  streamsTrue : Bool
  allowed : Bool
  buffers : Bool
  headers : Bool
  runtime : Bool

/-- A handler returns a response, or a stream that guards the reservation or not. -/
inductive Returned where
  | response
  | guarded (g : Gen Unit)
  | plain (g : Gen Unit)

def settleFailure : Failure → Gen Unit
  | .ensembleAccess | .ensembleCostCeiling | .allProvidersExhausted | .noCandidateModels =>
      releaseRequestBudget
  | .ensembleNoSurvivors | .ensembleQuorum | .ensembleSynthesis => do
      let _ ← finalizeRequestBudget .decision
      step .adoptSpend
  | .other => do
      let _ ← finalizeRequestBudget .reserved
      throw (.failure .other)

/-- Whether the totals came back. -/
def accountUsage : Path → Gen Bool
  | .ensemble => do
      let totals ← finalizeRequestBudget .decision
      steps [.adoptSpend]
      pure totals
  | _ => do
      price false
      let totals ← finalizeRequestBudget .actual
      steps [.recordUsage, .adoptSpend, .forwardTrace, .exportUsage, .recordSpend]
      pure totals

def account (setup : Setup) : Gen Returned := do
  if ← accountUsage setup.path then
    steps [.outputPolicy, .recordRedaction, .audit, .storeSession]
    if setup.stream then
      pure (.plain (streamResponse setup.headers))
    else
      steps [.cachePut, .semanticPut]
      pure .response
  else
    pure .response

def handleEmbeddings (setup : Setup) : Gen Returned := do
  if setup.runtime then
    match ← attempt (route .handler) with
    | .error (.failure .allProvidersExhausted) => releaseRequestBudget
    | .error (.failure _) =>
        let _ ← finalizeRequestBudget .reserved
    | .error e => throw e
    | .ok _ =>
        price false
        if ← finalizeRequestBudget .actual then
          steps [.recordUsage, .adoptSpend, .recordSpend, .forwardTrace, .exportUsage]
        else
          pure ()
  else
    releaseRequestBudget
  pure .response

/-- `handle_chat_completion` from the granted reservation on. -/
def handleChatCompletion (setup : Setup) : Gen Returned := do
  if setup.stream && setup.path = .ensemble then
    pure (.guarded (streamEnsembleResponse setup.headers))
  else if setup.stream && setup.streamsTrue then
    pure (.guarded (streamTrue (setup.allowed || setup.path = .smart) setup.headers setup.buffers))
  else
    match ← attempt (route .handler) with
    | .error (.failure f) =>
        settleFailure f
        pure .response
    | .error e => throw e
    | .ok _ => account setup

def handle (setup : Setup) : Gen Returned :=
  match setup.path with
  | .embeddings => handleEmbeddings setup
  | _ => handleChatCompletion setup

/-- The consumer iterates over a stream that guards nothing. -/
def iterate (g : Gen Unit) : Gen Ended := do
  match ← relayed g with
  | .ended (.error e) => throw e
  | _ => pure .exhausted

/-- A request whose reservation was granted, with what its caller does with a stream. -/
def request (setup : Setup) : Gen Ended := do
  match ← handle setup with
  | .response => pure .responded
  | .guarded g =>
      if ← ask (.start true) then
        guardBudgetedStream g
      else
        pure .unstarted
  | .plain g =>
      if ← ask (.start false) then
        iterate g
      else
        pure .unstarted

/-- The reservation has been granted. -/
def granted : World := ⟨[], none, false, false, []⟩

end Settlement
