import AxonGateway.Lib.Generator
import AxonGateway.Providers.Availability
import AxonGateway.Routing.Model

/-!
# Provider calls over leased routes

A call leases a route from the pool, goes to the provider over it and settles the
lease with what came of it. A stream may change the route until its first chunk. What
a step comes to is its answer: the transport may fail or be cancelled, and the consumer of
a stream may stop at any chunk. Other callers use the pool in between.
-/

namespace AxonGateway.Providers

open Interleaving
open Raising (perform ask attempt)
open Routing (ProviderError ProviderModelMapping)

/-! ## The usage of a response -/

/-- What a provider reports as a number of tokens. -/
inductive TokenCount where
  | int (n : ℤ)
  | float (x : ℚ)
  /-- an infinity, or no number at all -/
  | nonFinite (positive : Bool)
  /-- a string, a list, a dictionary or `None` -/
  | other
  deriving DecidableEq

/-- From here on an integer is rounded beyond the greatest float. -/
def floatLimit : ℤ := 2 ^ 1024 - 2 ^ 970

/-- The latency per token, where there are tokens; `none` if it cannot be computed. -/
def TokenCount.perToken? (latencyMs : ℚ) : TokenCount → Option (Option ℚ)
  | .int n => if 0 < n then if n < floatLimit then some (some (latencyMs / n)) else none else some none
  | .float x => some (if 0 < x then some (latencyMs / x) else none)
  | .nonFinite positive => some (if positive then some 0 else none)
  | .other => none

/-- A count that can be compared with zero, and be divided by. -/
def TokenCount.Countable (tokens : TokenCount) : Prop :=
  match tokens with
  | .int n => n < floatLimit
  | .other => False
  | _ => True

namespace RouteRuntime

/-- What a success does to the state before the tokens are looked at. -/
def countSuccess (state : RouteRuntime) (latencyMs : ℚ) : RouteRuntime :=
  { state with
    inflight := state.inflight - 1
    successes := state.successes + 1
    consecutiveFailures := 0
    errorEwma := ewma state.errorEwma 0
    latencyEwmaMs := some (ewmaOptional state.latencyEwmaMs (max 0 latencyMs)) }

/-- What it does after that. -/
def finishSuccess (state : RouteRuntime) (perToken : Option ℚ) : RouteRuntime :=
  let recovers := state.status = .failed ∨ state.status = .degraded ∨ state.status = .recovering
  let recoverySuccesses := if recovers then state.recoverySuccesses + 1 else state.recoverySuccesses
  { state with
    latencyPerTokenEwmaMs := match perToken with
      | some observation => some (ewmaOptional state.latencyPerTokenEwmaMs observation)
      | none => state.latencyPerTokenEwmaMs
    recoverySuccesses := recoverySuccesses
    status := if recovers ∧ recoverySuccesses < 2 then .recovering else .healthy
    cooldownUntil := 0
    lastStatusCode := none }

end RouteRuntime

/-- `record_success` for any number of tokens, and whether it raises on the way. -/
def RoutePool.recordAnySuccess (pool : RoutePool) (lease : RouteLease) (latencyMs : ℚ)
    (tokens : TokenCount) : Bool × RoutePool :=
  match pool.runtime.lookup lease.key with
  | none => (false, pool)
  | some state =>
      match tokens.perToken? (max 0 latencyMs) with
      | none => (true, pool.setRuntime lease.key (state.countSuccess latencyMs))
      | some perToken =>
          (false, pool.settle lease.key ((state.countSuccess latencyMs).finishSuccess perToken))

/-- For an integer this is what `recordSuccess` does. -/
theorem recordAnySuccess_int (pool : RoutePool) (lease : RouteLease) (latencyMs : ℚ) {n : ℤ}
    (hn : n < floatLimit) : pool.recordAnySuccess lease latencyMs (.int n) =
      (false, pool.recordSuccess lease latencyMs n) := by
  unfold RoutePool.recordAnySuccess RoutePool.recordSuccess
  cases pool.runtime.lookup lease.key with
  | none => rfl
  | some state =>
      unfold TokenCount.perToken? RouteRuntime.succeed RouteRuntime.finishSuccess
      by_cases hpos : 0 < n
      · simp only [if_pos hpos, if_pos hn]
        rfl
      · simp only [if_neg hpos]
        rfl

/-! ## Operations -/

/-- What can be raised: an `Exception`, or one of the two that are none. -/
inductive Exn where
  | providerError (e : ProviderError)
  | stopAsyncIteration
  | failure
  | cancelled
  | generatorExit
  deriving DecidableEq

/-- Whether `except Exception` catches it. -/
def Exn.isException : Exn → Bool
  | .cancelled | .generatorExit => false
  | _ => true

/-- The steps before the transport is waited for. -/
inductive Preparation where
  | bedrockFn
  | mantleFn
  | adapter
  | config
  deriving DecidableEq

inductive Op where
  | start
  | routeCount
  | acquire
  | prepare (step : Preparation)
  | execute
  | executeEmbeddings
  | openStream
  | next
  | length
  | emit
  | close
  | recordSuccess (lease : RouteLease) (tokens : TokenCount)
  | recordFailure (lease : RouteLease) (statusCode : ℤ)
  | release (lease : RouteLease)
  | hasAvailable (excluded : Option RouteLease)

/-- No route is left for now, or none is configured; a response and a chunk are known by
their number of tokens, which a chunk may not have. -/
abbrev Ret : Op → Type
  | .start => Bool
  | .routeCount => ℕ
  | .acquire => Except Bool RouteLease
  | .prepare _ => Except Exn Unit
  | .execute => Except Exn TokenCount
  | .executeEmbeddings => Except Exn Unit
  | .openStream => Except Exn Unit
  | .next => Except Exn (Option TokenCount)
  | .length => ℕ
  | .emit => Bool
  | .close => Except Exn Unit
  | .recordSuccess _ _ => Bool
  | .recordFailure _ _ => Unit
  | .release _ => Unit
  | .hasAvailable _ => Bool

abbrev Call (α : Type) := Raising Exn Op Ret α

/-! ## Errors -/

/-- The text of an error for which there is no route. -/
def noRouteMessage (mapping : ProviderModelMapping) : String :=
  "No eligible route for provider '" ++ mapping.provider ++ "' and model '" ++ mapping.modelId ++ "'"

def noRouteError (mapping : ProviderModelMapping) (temporarilyUnavailable : Bool) : ProviderError where
  statusCode := 503
  message := noRouteMessage mapping
  retryable := some temporarilyUnavailable
  providerUnavailable := some !temporarilyUnavailable

/-- Another credential or endpoint may do better. -/
def routeScoped (statusCode : ℕ) : Bool :=
  statusCode ∈ [401, 402, 403, 404, 429] || decide (500 ≤ statusCode)

def routedError (lease : RouteLease) (e : ProviderError) : Call ProviderError := do
  let alternate ← ask (.hasAvailable (some lease))
  let available ← ask (.hasAvailable none)
  pure {
    statusCode := e.statusCode
    message := e.message
    routeId := some lease.route.routeId
    retryable := if alternate && routeScoped e.statusCode then some true else e.retryable
    providerUnavailable := some !available }

/-- What an exception of the transport is reported as: its status for the route, and the
error. -/
def reported (message : String) : Exn → ℤ × ProviderError
  | .providerError e => (e.statusCode, e)
  | _ => (0, ⟨502, message, none, none, none⟩)

/-! ## Steps -/

def acquire (mapping : ProviderModelMapping) : Call RouteLease :=
  perform (o := .acquire) fun
    | .ok lease => .ok lease
    | .error temporarilyUnavailable =>
        .error (.providerError (noRouteError mapping temporarilyUnavailable))

def prepare (step : Preparation) : Call Unit := perform (o := .prepare step) id

def recordSuccess (lease : RouteLease) (tokens : TokenCount) : Call Unit :=
  perform (o := .recordSuccess lease tokens) fun raises ↦ if raises then .error .failure else .ok ()

def recordFailure (lease : RouteLease) (statusCode : ℤ) : Call Unit :=
  ask (Op.recordFailure lease statusCode)

def release (lease : RouteLease) : Call Unit := ask (Op.release lease)

def emit : Call Unit :=
  perform (o := .emit) fun goesOn ↦ if goesOn then .ok () else .error .generatorExit

def rethrow {α : Type} : Except Exn α → Call α
  | .ok a => pure a
  | .error e => throw e

/-- A failed transport: the error to raise. -/
def fail (lease : RouteLease) (message : String) (e : Exn) : Call ProviderError := do
  let report := reported message e
  recordFailure lease report.1
  routedError lease report.2

/-! ## Calls -/

/-- The handlers around the transport, and the release of a lease that they leave. -/
def settleCall {α : Type} (lease : RouteLease) (message : String) (tokens : α → TokenCount)
    (outcome : Except Exn α) : Call α := do
  match outcome with
  | .ok a =>
      match ← attempt (recordSuccess lease (tokens a)) with
      | .ok _ => pure a
      | .error e =>
          release lease
          throw e
  | .error e =>
      if e.isException then
        let routed ← fail lease message e
        throw (.providerError routed)
      else
        release lease
        throw e

/-- What the transport of a provider answers. -/
def transport (provider : String) : Call TokenCount := do
  if provider = "bedrock-mantle" then
    prepare .mantleFn
  else if provider = "bedrock" then
    prepare .bedrockFn
  else
    prepare .adapter
    prepare .config
  perform (o := .execute) id

/-- `_execute_route` -/
def executeRoute (mapping : ProviderModelMapping) : Call TokenCount := do
  let lease ← acquire mapping
  let outcome ← attempt (transport mapping.provider)
  settleCall lease "Provider route transport failed" id outcome

def embeddingTransport : Call Unit := do
  prepare .adapter
  prepare .config
  perform (o := .executeEmbeddings) id

/-- `_execute_embedding_route` -/
def executeEmbeddingRoute (mapping : ProviderModelMapping) : Call Unit := do
  let lease ← acquire mapping
  let outcome ← attempt embeddingTransport
  settleCall lease "Provider embeddings transport failed" (fun _ ↦ .int 0) outcome

/-! ## Streams -/

def nextChunk : Call (Option TokenCount) := perform (o := .next) id

/-- At most `n` further chunks, and the last number of tokens that was reported. -/
def relayChunks : ℕ → Option TokenCount → Call (Option TokenCount)
  | 0, final => pure final
  | n + 1, final => do
      match ← attempt nextChunk with
      | .error .stopAsyncIteration => pure final
      | .error e => throw e
      | .ok usage =>
          emit
          relayChunks n (usage <|> final)

/-- The chunks from the first one on, and the success. -/
def relayStream (lease : RouteLease) (first : Option TokenCount) : Call Unit := do
  emit
  let n ← ask .length
  let final ← relayChunks n first
  recordSuccess lease (final.getD (.int 0))

/-- Whether the lease is settled, and how the attempt ends: with an error for which
another route may be tried, or else. -/
abbrev Handled := Bool × Except Exn (Option ProviderError)

/-- The handlers around a stream. -/
def handleStream (lease : RouteLease) (yielded : Bool) : Exn → Call Handled
  | .stopAsyncIteration => do
      match ← attempt (recordSuccess lease (.int 0)) with
      | .ok _ => pure (true, .ok none)
      | .error e => pure (false, .error e)
  | e =>
      if e.isException then do
        let routed ← fail lease "Provider streaming transport failed" e
        if yielded || !(routed.retryable.getD false) then
          pure (true, .error (.providerError routed))
        else
          pure (true, .ok (some routed))
      else
        pure (false, .error e)

def closeStream (opened : Bool) : Call (Except Exn Unit) :=
  if opened then attempt (perform (o := .close) id) else pure (.ok ())

def releaseUnless (settled : Bool) (lease : RouteLease) : Call Unit :=
  if settled then pure () else release lease

/-- An attempt is over: the stream is closed, and the lease given back if it is not settled. -/
def finishStream (lease : RouteLease) (opened : Bool) (handled : Handled) :
    Call (Option ProviderError) := do
  let closed ← closeStream opened
  releaseUnless handled.1 lease
  match closed with
  | .error e => if e.isException then rethrow handled.2 else throw e
  | .ok _ => rethrow handled.2

def openStream : Call Unit := do
  prepare .adapter
  prepare .config
  perform (o := .openStream) id

/-- One attempt at a stream. -/
def streamOnce (lease : RouteLease) : Call (Option ProviderError) := do
  match ← attempt openStream with
  | .error e =>
      let handled ← handleStream lease false e
      finishStream lease false handled
  | .ok _ =>
      match ← attempt nextChunk with
      | .error e =>
          let handled ← handleStream lease false e
          finishStream lease true handled
      | .ok first =>
          match ← attempt (relayStream lease first) with
          | .error e =>
              let handled ← handleStream lease true e
              finishStream lease true handled
          | .ok _ => finishStream lease true (true, .ok none)

def notOpened : ProviderError where
  statusCode := 503
  message := "No provider route could open a stream"
  providerUnavailable := some true

/-- Up to `n` attempts, each over a route of its own. -/
def rotateRoutes (mapping : ProviderModelMapping) : ℕ → Option ProviderError → Call Unit
  | 0, last => throw (.providerError (last.getD notOpened))
  | n + 1, _ => do
      let lease ← acquire mapping
      match ← streamOnce lease with
      | none => pure ()
      | some e => rotateRoutes mapping n (some e)

def notStreaming : ProviderError where
  statusCode := 501
  message := "true streaming is not available for this provider transport"
  retryable := some false
  providerUnavailable := some false

/-- `execute_streaming` -/
def executeStreaming (mapping : ProviderModelMapping) : Call Unit := do
  if mapping.provider ∈ ["bedrock", "bedrock-mantle"] then
    throw (.providerError notStreaming)
  else
    let count ← ask .routeCount
    rotateRoutes mapping (max 1 count) none

/-- A consumer may stop before it asks for the first chunk. -/
def consume (mapping : ProviderModelMapping) : Call Unit := do
  if ← ask .start then
    executeStreaming mapping
  else
    pure ()

/-! ## Runs -/

/-- How a lease was settled. -/
inductive Settlement where
  | success (tokens : TokenCount)
  | failure (statusCode : ℤ)
  | release
  deriving DecidableEq

/-- A settlement in the pool, and whether the consumer had stopped by then. -/
structure Booking where
  lease : RouteLease
  settlement : Settlement
  late : Bool
  before : RoutePool
  after : RoutePool

/-- The leases that a call has obtained, what it has booked for them, and whether its
consumer has stopped or it was cancelled. -/
structure World where
  obtained : List RouteLease := []
  bookings : List Booking := []
  stopped : Bool := false

/-- A pool that other callers may have left: everything that is used can be looked up. -/
def Consistent (pool : RoutePool) : Prop := ∃ leases, Wired pool ∧ Counted pool leases

namespace World

def obtain (w : World) (lease : RouteLease) : World := { w with obtained := w.obtained ++ [lease] }

def book (w : World) (lease : RouteLease) (settlement : Settlement) (before after : RoutePool) :
    World :=
  { w with bookings := w.bookings ++ [⟨lease, settlement, w.stopped, before, after⟩] }

/-- Whether an answer ends the interest in the call. -/
def stop (w : World) (stops : Bool) : World := { w with stopped := w.stopped || stops }

end World

/-- A cancellation arrives where the call waits. -/
def isCancelled {α : Type} : Except Exn α → Bool
  | .error .cancelled => true
  | _ => false

/-- An operation that waits may be cancelled; the others raise exceptions only. -/
def raisesOnly {α : Type} (waits : Bool) : Except Exn α → Prop
  | .ok _ => True
  | .error e => e.isException = true ∨ waits = true ∧ e = .cancelled

/-- One operation of a call, in a pool that the others have left. -/
inductive Exec (lower : String → String) : (o : Op) → World → Ret o → World → Prop
  | start (w : World) (starts : Bool) : Exec lower .start w starts w
  | routeCount (w : World) (n : ℕ) : Exec lower .routeCount w n w
  | unavailable (w : World) (temporarily : Bool) : Exec lower .acquire w (.error temporarily) w
  | acquire (w : World) (before after : RoutePool) (name modelId : String) (now random : ℚ)
      (lease : RouteLease) (hbefore : Consistent before)
      (h : before.acquire lower name modelId now random = .ok (lease, after)) :
      Exec lower .acquire w (.ok lease) (w.obtain lease)
  | prepare (w : World) (step : Preparation) (r : Except Exn Unit) (hr : raisesOnly false r) :
      Exec lower (.prepare step) w r w
  | execute (w : World) (r : Except Exn TokenCount) (hr : raisesOnly true r) :
      Exec lower .execute w r (w.stop (isCancelled r))
  | executeEmbeddings (w : World) (r : Except Exn Unit) (hr : raisesOnly true r) :
      Exec lower .executeEmbeddings w r (w.stop (isCancelled r))
  | openStream (w : World) (r : Except Exn Unit) (hr : raisesOnly false r) :
      Exec lower .openStream w r w
  | next (w : World) (r : Except Exn (Option TokenCount)) (hr : raisesOnly true r) :
      Exec lower .next w r (w.stop (isCancelled r))
  | length (w : World) (n : ℕ) : Exec lower .length w n w
  | emit (w : World) (goesOn : Bool) : Exec lower .emit w goesOn (w.stop !goesOn)
  | close (w : World) (r : Except Exn Unit) (hr : raisesOnly true r) :
      Exec lower .close w r (w.stop (isCancelled r))
  | recordSuccess (w : World) (lease : RouteLease) (tokens : TokenCount) (before after : RoutePool)
      (latencyMs : ℚ) (raises : Bool) (hbefore : Consistent before)
      (h : before.recordAnySuccess lease latencyMs tokens = (raises, after)) :
      Exec lower (.recordSuccess lease tokens) w raises
        (w.book lease (.success tokens) before after)
  | recordFailure (w : World) (lease : RouteLease) (statusCode : ℤ) (before after : RoutePool)
      (now : ℚ) (hbefore : Consistent before)
      (h : before.recordFailure lease statusCode now = .ok after) :
      Exec lower (.recordFailure lease statusCode) w ()
        (w.book lease (.failure statusCode) before after)
  | release (w : World) (lease : RouteLease) (before : RoutePool) (hbefore : Consistent before) :
      Exec lower (.release lease) w () (w.book lease .release before (before.release lease))
  | hasAvailable (w : World) (excluded : Option RouteLease) (available : Bool) :
      Exec lower (.hasAvailable excluded) w available w

def machine (lower : String → String) : Machine Op Ret World where
  exec _ o w r w' := Exec lower o w r w'
  env := Eq

end AxonGateway.Providers
