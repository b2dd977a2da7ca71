import AxonGateway.Lib.Schedule
import AxonGateway.Cedar.Parser

/-!
# The policy service of one tenant

One process compiles the policies of a tenant and refreshes them from the store through a
task that its callers share. A write stores a policy and moves the tenant's version in one
transaction, so the version is the number of writes. What happens between two awaits is one
operation.
-/

namespace Cedar.Service

open Interleaving

/-! ### Policies and their store -/

structure PolicyRow where
  name : String
  policyText : List Char
  mode : String
  deriving DecidableEq

/-- The policy that is stored under a name after the first `v` writes. -/
def storedAt (writes : List PolicyRow) (v : ℕ) (name : String) : Option PolicyRow :=
  (writes.take v).reverse.find? (·.name = name)

/-- Put a policy in the place of the one with its name, or at the end. -/
def upsert : List PolicyRow → PolicyRow → List PolicyRow
  | [], p => [p]
  | q :: qs, p => if q.name = p.name then p :: qs else q :: upsert qs p

/-- The stored policies over the ones of the process's start, by name. -/
def merge (seeded stored : List PolicyRow) : List PolicyRow :=
  stored.foldl upsert (seeded.foldl upsert [])

/-- Rows that a paginated read can return: each name as it was stored at some moment since
the read began. -/
structure Reads (writes : List PolicyRow) (since : ℕ) (rows : List PolicyRow) : Prop where
  names : (rows.map PolicyRow.name).Nodup
  row : ∀ name, ∃ k, since ≤ k ∧ k ≤ writes.length ∧
    rows.find? (·.name = name) = storedAt writes k name

/-! ### Decisions -/

variable (W : WordClass)

/-- The statements of the policies that parse. -/
def compile (policies : List PolicyRow) : List (Statement × PolicyRow) :=
  policies.filterMap fun row ↦ (parsePolicy W row.policyText).map (·, row)

def governed (statements : List (Statement × PolicyRow)) : List (Option (List Char)) :=
  (statements.filter fun s ↦ s.2.mode ≠ "LOG_ONLY").map fun s ↦ s.1.action

/-- The loop of `evaluate` over the statements: `none` when a `forbid` decides, and otherwise
whether a `permit` matched. -/
def permitted (ctx : Context) (action : List Char) :
    List (Statement × PolicyRow) → Bool → Option Bool
  | [], found => some found
  | (s, row) :: rest, found =>
    if ¬ s.matches ctx action ∨ row.mode = "LOG_ONLY" then permitted ctx action rest found
    else if s.effect = .forbid then none
    else permitted ctx action rest true

/-- Whether a request is allowed. -/
def decision (statements : List (Statement × PolicyRow)) (ctx : Context) (action : List Char) :
    Bool :=
  match permitted ctx action statements false with
  | none => false
  | some true => true
  | some false => ¬(none ∈ governed statements ∨ some action ∈ governed statements)

/-! ### The state -/

def policySyncTtlSeconds : ℚ := 5

/-- A refresh task: created, running as some program, or done; `none` is an exception. -/
inductive RefreshTask where
  | created
  | running (i : ℕ)
  | done (refreshed : Option Bool)

/-- The writes to the tenant's policies, and the fields of the service for the tenant.
`basis` is the number of writes from which on the live task has read, once it has made the
read that it will rest on. -/
structure World where
  writes : List PolicyRow
  seeded : List PolicyRow
  policies : List PolicyRow
  generation : ℕ
  known : Option ℕ
  initialized : Bool
  lastCheck : Option ℚ
  successes : ℕ
  tasks : List RefreshTask
  registered : Option ℕ
  basis : Option ℕ

namespace World

def version (w : World) : ℕ := w.writes.length

def setTask (w : World) (id : ℕ) (task : RefreshTask) : World :=
  { w with tasks := w.tasks.set id task }

def createTask (w : World) : World :=
  { w with tasks := w.tasks ++ [.created], registered := some w.tasks.length, basis := none }

/-- The task is over. -/
def endTask (w : World) (id : ℕ) (refreshed : Bool) : World :=
  { w.setTask id (.done (some refreshed)) with basis := none }

/-- The version that the task saw is the known one: nothing is to be loaded. -/
def settle (w : World) (id : ℕ) (now : ℚ) : World :=
  { w with lastCheck := some now, successes := w.successes + 1 }.endTask id false

/-- The task installs the policies that it has loaded. -/
def install (w : World) (id version : ℕ) (rows : List PolicyRow) (now : ℚ) : World :=
  { w with
    policies := merge w.seeded rows
    generation := w.generation + 1
    known := some version
    initialized := true
    lastCheck := some now
    successes := w.successes + 1 }.endTask id true

def reload (w : World) (policies : List PolicyRow) : World :=
  { w with policies, generation := w.generation + 1 }

def noteVersion (w : World) (version : ℕ) (now : ℚ) : World :=
  { w with known := some version, lastCheck := some now }

end World

/-! ### Operations -/

inductive Op where
  | ensureTask (requireFresh : Bool)
  | awaitTask (id previousSuccesses : ℕ)
  | beginRefresh (id : ℕ)
  | readVersion (known : Option ℕ)
  | settleVersion (id : ℕ) (known : Option ℕ) (version : ℕ)
  | beginLoad
  | endLoad
  | abandon (id : ℕ)
  | install (id : ℕ) (known : Option ℕ) (generation version : ℕ) (rows : List PolicyRow)
  | readPolicies
  | reload (policies : List PolicyRow)
  | noteVersion (version : ℕ)
  | invalidateScope
  | write (row : PolicyRow)

/-- `PolicyStoreUnavailable` -/
inductive Unavailable where
  | unavailable

/-- The end of a call; `none` is a cancellation. -/
abbrev Result (α : Type) := Option (Except Unavailable α)

abbrev Ret : Op → Type
  | .ensureTask _ => Option (ℕ × ℕ)
  | .awaitTask _ _ => Result Bool
  | .beginRefresh _ => Option ℕ × ℕ
  | .readVersion _ => Option ℕ
  | .settleVersion _ _ _ => Bool
  | .beginLoad => Unit
  | .endLoad => Option (List PolicyRow)
  | .abandon _ => Unit
  | .install _ _ _ _ _ => Unit
  | .readPolicies => List PolicyRow
  | .reload _ => Unit
  | .noteVersion _ => Unit
  | .invalidateScope => Unit
  | .write _ => Unit

/-- The registered task is not done. -/
def Live (w : World) (id : ℕ) : Prop :=
  w.registered = some id ∧ ∀ refreshed, w.tasks[id]? ≠ some (.done refreshed)

/-- What the waiter of a finished task makes of it. -/
def conclude (w : World) (previousSuccesses : ℕ) : Option Bool → Except Unavailable Bool
  | none => .error .unavailable
  | some refreshed =>
    if w.initialized = true ∧ previousSuccesses < w.successes then .ok refreshed
    else .error .unavailable

/-- What an operation of program `i` answers and does. Clocks show what they like, and reads
may fail. -/
inductive Exec (i : ℕ) (w : World) : (o : Op) → Ret o → World → Prop
  | fresh (last now : ℚ) (hinit : w.initialized = true) (hlast : w.lastCheck = some last)
      (hrecent : now - last < policySyncTtlSeconds) : Exec i w (.ensureTask false) none w
  | joinTask (requireFresh : Bool) (id : ℕ) (hlive : Live w id) :
      Exec i w (.ensureTask requireFresh) (some (id, w.successes)) w
  | createTask (requireFresh : Bool) (hnone : ∀ id, ¬ Live w id) :
      Exec i w (.ensureTask requireFresh) (some (w.tasks.length, w.successes)) w.createTask
  | waited (id previousSuccesses : ℕ) (refreshed : Option Bool)
      (hdone : w.tasks[id]? = some (.done refreshed)) :
      Exec i w (.awaitTask id previousSuccesses) (some (conclude w previousSuccesses refreshed)) w
  | cancelled (id previousSuccesses : ℕ) : Exec i w (.awaitTask id previousSuccesses) none w
  | beginRefresh (id : ℕ) (hcreated : w.tasks[id]? = some .created) :
      Exec i w (.beginRefresh id) (w.known, w.generation) (w.setTask id (.running i))
  | readVersion (known : Option ℕ) :
      Exec i w (.readVersion known) (some w.version)
        { w with basis := if known = some w.version ∧ w.initialized = true then some w.version
          else none }
  | readVersion_failed (known : Option ℕ) : Exec i w (.readVersion known) none w
  | settle (id version : ℕ) (now : ℚ) (hinit : w.initialized = true) :
      Exec i w (.settleVersion id (some version) version) true (w.settle id now)
  | moved (id : ℕ) (known : Option ℕ) (version : ℕ)
      (hmoved : ¬(known = some version ∧ w.initialized = true)) :
      Exec i w (.settleVersion id known version) false w
  | beginLoad : Exec i w .beginLoad () { w with basis := some w.version }
  | endLoad (since : ℕ) (rows : List PolicyRow) (hsince : w.basis = some since)
      (hrows : Reads w.writes since rows) : Exec i w .endLoad (some rows) w
  | endLoad_failed : Exec i w .endLoad none w
  | abandon (id : ℕ) : Exec i w (.abandon id) () (w.endTask id false)
  | install (id generation version : ℕ) (known : Option ℕ) (rows : List PolicyRow) (now : ℚ)
      (hsame : w.known = known ∧ w.generation = generation) :
      Exec i w (.install id known generation version rows) () (w.install id version rows now)
  | discard (id generation version : ℕ) (known : Option ℕ) (rows : List PolicyRow)
      (hsame : ¬(w.known = known ∧ w.generation = generation)) :
      Exec i w (.install id known generation version rows) () (w.endTask id false)
  | readPolicies : Exec i w .readPolicies w.policies w
  | reload (policies : List PolicyRow) : Exec i w (.reload policies) () (w.reload policies)
  | noteVersion (version : ℕ) (now : ℚ) :
      Exec i w (.noteVersion version) () (w.noteVersion version now)
  | invalidateScope : Exec i w .invalidateScope () { w with lastCheck := none }
  | write (row : PolicyRow) : Exec i w (.write row) () { w with writes := w.writes ++ [row] }

/-! ### Programs -/

abbrev Program := Prog Op Ret

/-- Load the policies and install them, if the version has moved. -/
def loadMoved (id : ℕ) (known : Option ℕ) (generation version : ℕ) : Program Unit := do
  Prog.op Op.beginLoad
  match ← Prog.op Op.endLoad with
  | none => Prog.op (Op.abandon id)
  | some rows => Prog.op (Op.install id known generation version rows)

/-- `_refresh`, as the task with the number `id`. -/
def refresh (id : ℕ) : Program Unit := do
  let began ← Prog.op (Op.beginRefresh id)
  match ← Prog.op (Op.readVersion began.1) with
  | none => Prog.op (Op.abandon id)
  | some version =>
      match ← Prog.op (Op.settleVersion id began.1 version) with
      | true => pure ()
      | false => loadMoved id began.1 began.2 version

def refreshIfStale (requireFresh : Bool) : Program (Result Bool) := do
  match ← Prog.op (Op.ensureTask requireFresh) with
  | none => pure (some (.ok false))
  | some task => Prog.op (Op.awaitTask task.1 task.2)

inductive Answer where
  | refreshed (loaded : Bool)
  | allowed (allow : Bool)
  | finished

/-- `evaluate` of a Cedar action, after the refresh that it begins with. -/
def evaluate (ctx : Context) (action : List Char) : Program (Result Answer) := do
  match ← refreshIfStale false with
  | none => pure none
  | some (.error e) => pure (some (.error e))
  | some (.ok _) =>
      let policies ← Prog.op Op.readPolicies
      pure (some (.ok (.allowed (decision (compile W policies) ctx action))))

inductive Call where
  | refresh (id : ℕ)
  | refreshIfStale (requireFresh : Bool)
  | evaluate (ctx : Context) (action : List Char)
  | reload (policies : List PolicyRow)
  | noteLocalVersion (version : ℕ)
  | invalidateScope
  | savePolicy (row : PolicyRow)

def finish (o : Op) : Program (Result Answer) := do
  let _ ← Prog.op o
  pure (some (.ok .finished))

def body : Call → Program (Result Answer)
  | .refresh id => do
      refresh id
      pure (some (.ok .finished))
  | .refreshIfStale requireFresh => do
      let r ← refreshIfStale requireFresh
      pure (r.map (·.map .refreshed))
  | .evaluate ctx action => evaluate W ctx action
  | .reload policies => finish (.reload policies)
  | .noteLocalVersion version => finish (.noteVersion version)
  | .invalidateScope => finish .invalidateScope
  | .savePolicy row => finish (.write row)

/-- The calls on one service, its refresh tasks and the writes of all instances. -/
def service : Service Op Ret World Call (Result Answer) where
  machine := { exec := fun i o w r w' ↦ Exec i w o r w', env := Eq }
  body := body W
  admits _ _ := True

/-- A store with some writes and a service that has not read it yet. -/
def start (writes seeded : List PolicyRow) : World :=
  ⟨writes, seeded, seeded, 0, none, false, none, 0, [], none, none⟩

end Cedar.Service
