import AxonGateway.Lib.Schedule
import AxonGateway.Policy.Model

/-!
# The resolver of one tenant

One process keeps a snapshot of a tenant's hierarchy: calls refresh it through a
task that they share, and writes go to the store under the revision of the
snapshot.  What happens between two awaits is one operation.
-/

namespace AxonGateway.Policy.Resolver

open Interleaving

def revisionPollInterval : ℚ := 5

/-- A refresh task: created, running as some program, or done. -/
inductive RefreshTask where
  | created
  | running (i : ℕ)
  | done (result : Except SetNodeError Unit)

/-- The store's hierarchy at every revision, the newest last, and the resolver:
its snapshot, the generation of its own writes, the time of the last check and
the refresh tasks with the registered one.  `awaiting` tells which program has a
committed write whose answer it has not seen, and the revision of that write. -/
structure World where
  versions : List Nodes
  adopted : Option Namespace
  generation : ℕ
  lastCheck : Option ℚ
  tasks : List RefreshTask
  registered : Option ℕ
  awaiting : List (ℕ × ℕ)

namespace World

def current (w : World) : Nodes := w.versions.getLastD ∅

def revision (w : World) : ℕ := w.versions.length - 1

def setTask (w : World) (id : ℕ) (task : RefreshTask) : World :=
  { w with tasks := w.tasks.set id task }

/-- A waiter takes a finished task out of the register. -/
def unregister (w : World) (id : ℕ) : World :=
  if w.registered = some id then { w with registered := none } else w

def commit (w : World) (nodes : Nodes) : World := { w with versions := w.versions ++ [nodes] }

/-- A write of program `i`, which awaits the answer. -/
def write (w : World) (i : ℕ) (node : PolicyNode) (revision : ℕ) : World :=
  { w.commit (w.current.insert node.nodeId node) with awaiting := (i, revision) :: w.awaiting }

end World

/-- What a refresh has found when it is over. -/
inductive Refreshed where
  | snapshot (nodes : Nodes) (revision : ℕ)
  | unchanged
  | retained
  | unavailable

inductive Op where
  | ensureTask (force : Bool)
  | awaitTask (id : ℕ)
  | beginRefresh (id : ℕ)
  | getRevision
  | queryNodes
  | endRefresh (id generation : ℕ) (found : Refreshed)
  | readSnapshot
  | prepareWrite (node : PolicyNode) (createOnly : Option Bool)
  | save (node : PolicyNode) (expected : ℕ) (createOnly : Bool)
  | forgetCheck
  | adoptWrite (node : PolicyNode) (revision : ℕ)
  | foreignWrite (nodes : Nodes)

/-- The end of a wait for a task, if the waiter is not cancelled. -/
abbrev Waited := Option (Except SetNodeError Unit)

abbrev Ret : Op → Type
  | .ensureTask _ => Option ℕ
  | .awaitTask _ => Waited
  | .beginRefresh _ => Option ℕ × ℕ
  | .getRevision => Option ℕ
  | .queryNodes => Option Nodes
  | .endRefresh _ _ _ => Unit
  | .readSnapshot => Option Namespace
  | .prepareWrite _ _ => Except SetNodeError (Bool × ℕ)
  | .save _ _ _ => SaveOutcome
  | .forgetCheck => Unit
  | .adoptWrite _ _ => Unit
  | .foreignWrite _ => Unit

/-- The store takes a write at the expected revision, of a node that is as new as
the writer says. -/
def Fits (w : World) (node : PolicyNode) (expected : ℕ) (createOnly : Bool) : Prop :=
  expected = w.revision ∧ (createOnly = true ↔ node.nodeId ∉ w.current)

def storeUnavailable : SetNodeError :=
  .storeUnavailable "Tenant policy persistence is unavailable"

/-- What the write of a node is checked against before it is sent. -/
def checkWrite (node : PolicyNode) (createOnly : Option Bool) (ns : Namespace) :
    Except SetNodeError (Bool × ℕ) :=
  match validateNodeLimitsAgainstNodes node ns.nodes with
  | v :: vs => .error (.exceedsParentLimits node.nodeId (v :: vs))
  | [] =>
      let nodeExists := decide (node.nodeId ∈ ns.nodes)
      if createOnly = some nodeExists then .error .writeConflict
      else .ok (createOnly.getD (!nodeExists), ns.revision)

/-- What an operation of program `i` answers and does.  Clocks show what they
like; reads may fail, and a write may fail before or after it is committed. -/
inductive Exec (i : ℕ) (w : World) : (o : Op) → Ret o → World → Prop
  | fresh (last now : ℚ) (hadopted : w.adopted.isSome) (hlast : w.lastCheck = some last)
      (hrecent : now - last < revisionPollInterval) : Exec i w (.ensureTask false) none w
  | joinTask (force : Bool) (id : ℕ) (hid : w.registered = some id) :
      Exec i w (.ensureTask force) (some id) w
  | createTask (force : Bool) (hnone : w.registered = none) :
      Exec i w (.ensureTask force) (some w.tasks.length)
        { w with tasks := w.tasks ++ [.created], registered := some w.tasks.length }
  | waited (id : ℕ) (result : Except SetNodeError Unit)
      (hdone : w.tasks[id]? = some (.done result)) :
      Exec i w (.awaitTask id) (some result) (w.unregister id)
  | cancelled (id : ℕ) (hopen : ∀ result, w.tasks[id]? ≠ some (.done result)) :
      Exec i w (.awaitTask id) none w
  | cancelled_done (id : ℕ) (result : Except SetNodeError Unit)
      (hdone : w.tasks[id]? = some (.done result)) :
      Exec i w (.awaitTask id) none (w.unregister id)
  | beginRefresh (id : ℕ) (hcreated : w.tasks[id]? = some .created) :
      Exec i w (.beginRefresh id) (w.adopted.map Namespace.revision, w.generation)
        (w.setTask id (.running i))
  | getRevision : Exec i w .getRevision (some w.revision) w
  | getRevision_failed : Exec i w .getRevision none w
  | queryNodes : Exec i w .queryNodes (some w.current) w
  | queryNodes_failed : Exec i w .queryNodes none w
  | install (id generation : ℕ) (nodes : Nodes) (revision : ℕ) (now : ℚ)
      (hgeneration : generation = w.generation) :
      Exec i w (.endRefresh id generation (.snapshot nodes revision)) ()
        ({ w with adopted := some ⟨nodes, revision⟩, lastCheck := some now }.setTask id
          (.done (.ok ())))
  | outdated (id generation : ℕ) (nodes : Nodes) (revision : ℕ)
      (hgeneration : generation ≠ w.generation) :
      Exec i w (.endRefresh id generation (.snapshot nodes revision)) ()
        (w.setTask id (.done (.ok ())))
  | unchanged (id generation : ℕ) (now : ℚ) :
      Exec i w (.endRefresh id generation .unchanged) ()
        ({ w with lastCheck := some now }.setTask id (.done (.ok ())))
  | retained (id generation : ℕ) :
      Exec i w (.endRefresh id generation .retained) () (w.setTask id (.done (.ok ())))
  | unavailable (id generation : ℕ) :
      Exec i w (.endRefresh id generation .unavailable) ()
        (w.setTask id (.done (.error storeUnavailable)))
  | readSnapshot : Exec i w .readSnapshot w.adopted w
  | prepareWrite (node : PolicyNode) (createOnly : Option Bool) (ns : Namespace)
      (hadopted : w.adopted = some ns) (result : Except SetNodeError (Bool × ℕ))
      (hresult : checkWrite node createOnly ns = result) :
      Exec i w (.prepareWrite node createOnly) result
        (if result = .error .writeConflict then { w with lastCheck := none } else w)
  | save (node : PolicyNode) (expected : ℕ) (createOnly : Bool)
      (hfits : Fits w node expected createOnly) :
      Exec i w (.save node expected createOnly) (.saved (expected + 1 : ℕ))
        (w.write i node (expected + 1))
  | save_lost (node : PolicyNode) (expected : ℕ) (createOnly : Bool)
      (hfits : Fits w node expected createOnly) :
      Exec i w (.save node expected createOnly) .failed
        (w.commit (w.current.insert node.nodeId node))
  | save_conflict (node : PolicyNode) (expected : ℕ) (createOnly : Bool)
      (hfits : ¬ Fits w node expected createOnly) :
      Exec i w (.save node expected createOnly) .conflict w
  | save_failed (node : PolicyNode) (expected : ℕ) (createOnly : Bool) :
      Exec i w (.save node expected createOnly) .failed w
  | forgetCheck : Exec i w .forgetCheck () { w with lastCheck := none }
  | adoptWrite (node : PolicyNode) (revision : ℕ) (now : ℚ) (ns : Namespace)
      (hadopted : w.adopted = some ns) :
      Exec i w (.adoptWrite node revision) ()
        { w with
          adopted := some ⟨ns.nodes.insert node.nodeId node, revision⟩
          generation := w.generation + 1
          lastCheck := some now
          awaiting := w.awaiting.erase (i, revision) }
  | foreignWrite (nodes : Nodes) : Exec i w (.foreignWrite nodes) () (w.commit nodes)

abbrev Program := Prog Op Ret

/-- A result or a known error; `none` is a cancellation or another exception. -/
abbrev Result (α : Type) := Option (Except SetNodeError α)

/-! ## The refresh -/

/-- Read the hierarchy, with some attempts left, until its revision is the same
before and after. -/
def loadSnapshot : ℕ → Program (Option (Nodes × ℕ))
  | 0 => pure none
  | attempts + 1 => do
      match ← Prog.op Op.getRevision with
      | none => pure none
      | some before =>
          match ← Prog.op Op.queryNodes with
          | none => pure none
          | some nodes =>
              match ← Prog.op Op.getRevision with
              | none => pure none
              | some after =>
                  if before ≠ after then loadSnapshot attempts else pure (some (nodes, after))

/-- What a refresh finds when the resolver has the revision `known`, if any. -/
def findSnapshot : Option ℕ → Program Refreshed
  | none => do
      match ← loadSnapshot 3 with
      | none => pure .unavailable
      | some (nodes, revision) => pure (.snapshot nodes revision)
  | some known => do
      match ← Prog.op Op.getRevision with
      | none => pure .retained
      | some observed =>
          if observed < known then pure .retained
          else if observed = known then pure .unchanged
          else
            match ← loadSnapshot 3 with
            | none => pure .retained
            | some (nodes, revision) =>
                if revision < observed then pure .retained else pure (.snapshot nodes revision)

/-- `_refresh_tenant`, as the task with the number `id`. -/
def refreshTenant (id : ℕ) : Program Unit := do
  let began ← Prog.op (Op.beginRefresh id)
  let found ← findSnapshot began.1
  Prog.op (Op.endRefresh id began.2 found)

/-- `_ensure_tenant_fresh` -/
def ensureTenantFresh (force : Bool) : Program (Result Unit) := do
  match ← Prog.op (Op.ensureTask force) with
  | none => pure (some (.ok ()))
  | some id => Prog.op (Op.awaitTask id)

/-! ## Calls -/

inductive Answer where
  | loaded
  | nodes (ns : Namespace)
  | policy (policy : ResolvedPolicy)
  | written (revision : ℕ)

def loadNodes : Program (Result Answer) := do
  match ← ensureTenantFresh true with
  | none => pure none
  | some (.error e) => pure (some (.error e))
  | some (.ok ()) => pure (some (.ok .loaded))

/-- Refresh if it is time, and go on with the snapshot. -/
def withSnapshot (answer : Namespace → Answer) : Program (Result Answer) := do
  match ← ensureTenantFresh false with
  | none => pure none
  | some (.error e) => pure (some (.error e))
  | some (.ok ()) =>
      match ← Prog.op Op.readSnapshot with
      | none => pure none
      | some ns => pure (some (.ok (answer ns)))

def getNodes : Program (Result Answer) := withSnapshot .nodes

def resolve (projectId : String) (environment : Option String) (projectRateLimit : Option ℚ) :
    Program (Result Answer) :=
  withSnapshot fun ns ↦ .policy (Policy.resolve ns.nodes projectId environment projectRateLimit)

/-- Take over a write, once the store has said under which revision. -/
def takeOver (node : PolicyNode) (expected : ℕ) (revision : ℤ) : Program (Result Answer) :=
  if revision < 0 then
    pure (some (.error (.storeUnavailable "Tenant policy update was not persisted")))
  else if revision ≠ expected + 1 then
    pure (some (.error (.storeUnavailable "Tenant policy update returned an invalid revision")))
  else do
    Prog.op (Op.adoptWrite node (expected + 1))
    pure (some (.ok (.written (expected + 1))))

/-- Send a checked write and take over what the store says. -/
def saveNode (node : PolicyNode) (expected : ℕ) (createOnly : Bool) :
    Program (Result Answer) := do
  match ← Prog.op (Op.save node expected createOnly) with
  | .conflict =>
      Prog.op Op.forgetCheck
      pure (some (.error .writeConflict))
  | .failed => pure (some (.error storeUnavailable))
  | .saved revision => takeOver node expected revision

def setNode (node : PolicyNode) (createOnly : Option Bool) : Program (Result Answer) := do
  match ← ensureTenantFresh false with
  | none => pure none
  | some (.error e) => pure (some (.error e))
  | some (.ok ()) =>
      match ← Prog.op (Op.prepareWrite node createOnly) with
      | .error e => pure (some (.error e))
      | .ok (createOnly, expected) => saveNode node expected createOnly

inductive Call where
  | refresh (id : ℕ)
  | loadNodes
  | getNodes
  | resolve (projectId : String) (environment : Option String) (projectRateLimit : Option ℚ)
  | setNode (node : PolicyNode) (createOnly : Option Bool)
  | foreignWrite (nodes : Nodes)

def body : Call → Program (Result Answer)
  | .refresh id => do
      refreshTenant id
      pure none
  | .loadNodes => Resolver.loadNodes
  | .getNodes => Resolver.getNodes
  | .resolve projectId environment projectRateLimit =>
      Resolver.resolve projectId environment projectRateLimit
  | .setNode node createOnly => Resolver.setNode node createOnly
  | .foreignWrite nodes => do
      Prog.op (Op.foreignWrite nodes)
      pure none

/-- The calls on one resolver, its refresh tasks and the writes of other instances.
A refresh cannot begin before its task is created. -/
def resolver : Service Op Ret World Call (Result Answer) where
  machine := { exec := fun i o w r w' ↦ Exec i w o r w', env := Eq }
  body := body
  admits _ _ := True

/-- A store with some hierarchy and a resolver that has not read it yet. -/
def start (nodes : Nodes) : World := ⟨[nodes], none, 0, none, [], none, []⟩

end AxonGateway.Policy.Resolver
