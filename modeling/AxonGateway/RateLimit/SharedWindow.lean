import AxonGateway.Lib.Binary64
import AxonGateway.Lib.JsonText
import AxonGateway.Lib.PyText
import AxonGateway.Lib.Schedule

/-!
# The fleet-wide fixed window

A call names a user, a project and perhaps a tenant, and consumes one slot of each counter in
one conditional transaction; then it reads the counters for its answer.  Times are in
microseconds since the epoch.
-/

namespace SharedLimit

open Interleaving

/-- An aware point in time that `datetime` can represent. -/
structure Datetime where
  micros : ℤ
  lower : -62135596800 * 1000000 ≤ micros
  upper : micros < 253402300800 * 1000000

/-- `datetime.fromtimestamp(seconds, tz=timezone.utc)` -/
def Datetime.ofTimestamp (seconds : ℤ) : Option Datetime :=
  if h : -62135596800 ≤ seconds ∧ seconds < 253402300800 then
    some ⟨seconds * 1000000, by omega, by omega⟩
  else none

/-- `int(datetime.timestamp())` -/
def Datetime.timestamp (t : Datetime) : ℤ :=
  if 0 ≤ t.micros then ⌊Binary64.round (t.micros / 1000000)⌋
  else -⌊Binary64.round (-t.micros / 1000000)⌋

inductive ResourceType where
  | user
  | project
  deriving DecidableEq

def ResourceType.name : ResourceType → String
  | user => "user"
  | project => "project"

/-- What a counter counts. -/
structure Scope where
  keySpace : String
  tenantId : Option String
  resourceType : ResourceType
  resourceId : String
  deriving DecidableEq

/-- The partition and the sort key of a row. -/
abbrev CounterKey := String × String

/-- `_rate_limit_counter_key` -/
def rateLimitCounterKey (sha256 : List Char → String) (scope : Scope) (windowStart : ℤ) :
    CounterKey :=
  let text := JsonText.array
    [scope.keySpace, scope.tenantId, scope.resourceType.name, scope.resourceId]
  ("RATE_LIMIT#" ++ sha256 text, "WINDOW#" ++ Int.repr windowStart)

structure Counter where
  requestCount : ℕ
  expiresAt : ℤ
  tenantId : String
  resourceType : String
  resourceId : String
  deriving DecidableEq

/-- One operation of a transaction. -/
structure Update where
  scope : Scope
  windowStart : ℤ
  expiresAt : ℤ
  limit : ℤ
  deriving DecidableEq

def Update.key (sha256 : List Char → String) (u : Update) : CounterKey :=
  rateLimitCounterKey sha256 u.scope u.windowStart

abbrev Table := CounterKey → Option Counter

def Table.count (t : Table) (key : CounterKey) : ℕ := ((t key).map Counter.requestCount).getD 0

/-- The condition of an operation. -/
def Update.Admits (sha256 : List Char → String) (t : Table) (u : Update) : Prop :=
  ∀ row, t (u.key sha256) = some row → (row.requestCount : ℤ) < u.limit

instance (sha256 : List Char → String) (t : Table) (u : Update) : Decidable (u.Admits sha256 t) :=
  inferInstanceAs (Decidable (∀ row, t (u.key sha256) = some row → _))

/-- The update expression of an operation. -/
def Update.apply (sha256 : List Char → String) (t : Table) (u : Update) : Table :=
  Function.update t (u.key sha256) (some
    { requestCount := t.count (u.key sha256) + 1
      expiresAt := u.expiresAt
      tenantId := u.scope.tenantId.getD "__legacy__"
      resourceType := u.scope.resourceType.name
      resourceId := u.scope.resourceId })

/-- The counters, and two records that no operation reads: the transactions that committed and
the table that each refused one was refused on. -/
structure World where
  table : Table
  log : List (ℕ × List Update)
  refusedOn : ℕ → Option Table

namespace World

def commit (sha256 : List Char → String) (w : World) (i : ℕ) (updates : List Update) : World :=
  { w with
    table := updates.foldl (Update.apply sha256) w.table
    log := (i, updates) :: w.log }

def refuse (w : World) (i : ℕ) : World :=
  { w with refusedOn := Function.update w.refusedOn i (some w.table) }

end World

inductive Op where
  | transact (updates : List Update)
  | getItem (key : CounterKey)

/-- A transaction is committed, one of its conditions fails, or it raises, and then it may be
committed or not. -/
inductive Outcome where
  | committed
  | conditionFailed
  | raised
  deriving DecidableEq

abbrev Ret : Op → Type
  | .transact _ => Outcome
  | .getItem _ => Option (Option Counter)

inductive Exec (sha256 : List Char → String) (i : ℕ) (w : World) : (o : Op) → Ret o → World → Prop
  | committed (updates : List Update) (outcome : Outcome)
      (hadmits : ∀ u ∈ updates, u.Admits sha256 w.table) (hraised : outcome ≠ .conditionFailed) :
      Exec sha256 i w (.transact updates) outcome (w.commit sha256 i updates)
  | refused (updates : List Update) (hfull : ¬ ∀ u ∈ updates, u.Admits sha256 w.table) :
      Exec sha256 i w (.transact updates) .conditionFailed (w.refuse i)
  | raised (updates : List Update) : Exec sha256 i w (.transact updates) .raised w
  | item (key : CounterKey) : Exec sha256 i w (.getItem key) (some (w.table key)) w
  | item_raised (key : CounterKey) : Exec sha256 i w (.getItem key) none w

/-! ### The call -/

/-- The arguments of a call; `now` may be naive. -/
structure Request where
  keySpace : String
  tenantId : Option String
  userId : Option String
  projectId : String
  userLimit : Option ℤ
  projectLimit : ℤ
  windowSeconds : ℤ
  now : Datetime
  aware : Bool

inductive RequestError where
  | invalidRequest
  | blankTenant
  | outOfRange
  deriving DecidableEq

structure RateLimitResult where
  allowed : Bool
  limit : ℤ
  remaining : ℤ
  resetAt : Datetime
  retryAfterSeconds : Option ℤ

namespace Request

def check (r : Request) : Except RequestError Unit :=
  if PyText.isBlank r.keySpace ∨ PyText.isBlank r.projectId ∨ r.projectLimit < 1 ∨
      r.windowSeconds < 1 ∨ (∃ l ∈ r.userLimit, l < 1) ∨
      (r.userLimit.isSome ∧ (r.userId = none ∨ r.userId = some "")) ∨ r.aware = false then
    .error .invalidRequest
  else if ∃ t ∈ r.tenantId, PyText.isBlank t then .error .blankTenant
  else .ok ()

def windowStart (r : Request) : ℤ := r.now.timestamp / r.windowSeconds * r.windowSeconds

/-- The counters with their limits. -/
def counters (r : Request) : List (Scope × ℤ) :=
  (match r.userLimit, r.userId with
    | some limit, some userId => [(⟨r.keySpace, r.tenantId, .user, userId⟩, limit)]
    | _, _ => []) ++
  [(⟨r.keySpace, r.tenantId, .project, r.projectId⟩, r.projectLimit)]

def updates (r : Request) : List Update :=
  r.counters.map fun counter ↦
    { scope := counter.1
      windowStart := r.windowStart
      expiresAt := r.windowStart + r.windowSeconds + r.windowSeconds
      limit := counter.2 }

end Request

/-- `int(timedelta.total_seconds() + 0.999999)` of a positive time. -/
def ceilSeconds (micros : ℤ) : ℤ :=
  ⌊Binary64.round (Binary64.round (micros / 1000000) + Binary64.round (999999 / 1000000))⌋

/-- A denied call waits at least one second, which covers a window that has ended. -/
def retryAfter (resetAt now : Datetime) : ℤ :=
  max 1 (if 0 < resetAt.micros - now.micros then ceilSeconds (resetAt.micros - now.micros) else 0)

abbrev Program := Prog Op Ret

/-- The counts for the answer; nothing if a read raises. -/
def readCounts (sha256 : List Char → String) : List Update → Program (Option (List ℤ))
  | [] => pure (some [])
  | u :: us => do
      match ← Prog.op (Op.getItem (u.key sha256)) with
      | none => pure none
      | some item =>
          let counts ← readCounts sha256 us
          pure (counts.map ((((item.map Counter.requestCount).getD 0 : ℕ) : ℤ) :: ·))

inductive Answer where
  | raised (e : RequestError)
  | unavailable
  | result (r : RateLimitResult)

/-- The first counter with the least remaining slots. -/
def mostRestrictive : List (ℤ × ℤ) → Option (ℤ × ℤ)
  | [] => none
  | c :: cs =>
      match mostRestrictive cs with
      | none => some c
      | some d => if d.2 < c.2 then some d else some c

/-- The answer of a call whose counters have been read. -/
def Request.answer (r : Request) (resetAt : Datetime) (allowed : Bool) (counts : List ℤ) : Answer :=
  let remaining := List.zipWith (fun counter count ↦ (counter.2, max 0 (counter.2 - count)))
    r.counters counts
  match mostRestrictive remaining with
  | none => .unavailable
  | some (limit, left) => .result
      { allowed := allowed
        limit := limit
        remaining := left
        resetAt := resetAt
        retryAfterSeconds := if allowed then none else some (retryAfter resetAt r.now) }

/-- `consume_rate_limit_window` of an instance with or without persistence and transactions. -/
def consumeRateLimitWindow (sha256 : List Char → String) (enabled transactions : Bool)
    (r : Request) : Program Answer :=
  match r.check with
  | .error e => pure (.raised e)
  | .ok _ =>
      if ¬ enabled then pure .unavailable
      else
        match Datetime.ofTimestamp (r.windowStart + r.windowSeconds),
          Datetime.ofTimestamp (r.windowStart + r.windowSeconds + r.windowSeconds) with
        | some resetAt, some _ =>
            if ¬ transactions then pure .unavailable
            else do
              match ← Prog.op (Op.transact r.updates) with
              | .raised => pure .unavailable
              | outcome =>
                  match ← readCounts sha256 r.updates with
                  | none => pure .unavailable
                  | some counts =>
                      pure (r.answer resetAt (decide (outcome = .committed)) counts)
        | _, _ => pure (.raised .outOfRange)

structure Call where
  enabled : Bool
  transactions : Bool
  request : Request

/-- The limit of every scope and the length of a window are fixed. -/
structure Limits where
  limit : Scope → ℤ
  limit_pos : ∀ scope, 1 ≤ limit scope
  windowSeconds : ℤ

def Limits.Agree (limits : Limits) (r : Request) : Prop :=
  r.windowSeconds = limits.windowSeconds ∧
    ∀ counter ∈ r.counters, counter.2 = limits.limit counter.1

def service (sha256 : List Char → String) (limits : Limits) :
    Service Op Ret World Call Answer where
  machine := { exec := fun i o w r w' ↦ Exec sha256 i w o r w', env := Eq }
  body c := consumeRateLimitWindow sha256 c.enabled c.transactions c.request
  admits _ c := limits.Agree c.request

def start : World where
  table _ := none
  log := []
  refusedOn _ := none

end SharedLimit
