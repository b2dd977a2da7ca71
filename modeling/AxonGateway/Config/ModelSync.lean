import AxonGateway.Lib.Schedule

/-!
# The model registry of an instance

The administration interface and the background refresh share one live registry.  A durable
document is committed by compare-and-swap and published afterwards; a refresh adopts what it
reads.  Between two awaits a program runs without interruption.
-/

namespace ModelSync

open Interleaving

variable {Document Models : Type} {parse : Document → Option Models}

/-- A validated configuration. -/
structure Snapshot (parse : Document → Option Models) where
  revision : ℕ
  document : Document
  signature : Option String
  models : Models
  parsed : parse document = some models

/-- The durable document; a signed one has the second schema version. -/
structure Row (Document : Type) where
  revision : ℕ
  document : Document
  signature : Option String
  deriving DecidableEq

/-- `RoutingConfigSnapshot.from_config` -/
def Snapshot.fromConfig (parse : Document → Option Models) (config : Document) (revision : ℕ) :
    Option (Snapshot parse) :=
  match h : parse config with
  | some models => some ⟨revision, config, none, models, h⟩
  | none => none

def Snapshot.row (s : Snapshot parse) : Row Document := ⟨s.revision, s.document, s.signature⟩

/-- `_deserialize_model_registry_item` -/
def Row.snapshot (parse : Document → Option Models) (row : Row Document) :
    Option (Snapshot parse) :=
  if row.revision < 1 then none
  else
    match h : parse row.document with
    | some models => some ⟨row.revision, row.document, row.signature, models, h⟩
    | none => none

inductive SigningMode where
  | disabled
  | signVerify
  | verify
  deriving DecidableEq

inductive LoadError where
  | rollbackRejected
  | signatureVerificationFailed
  | snapshotUnavailable
  deriving DecidableEq

inductive SyncError where
  | category (e : LoadError)
  | snapshotMissing
  deriving DecidableEq

structure Registry (Models : Type) where
  models : Models
  revision : ℕ
  deriving DecidableEq

/-- The condition of a write. -/
inductive Condition (Document : Type) where
  | absent
  | current (revision : ℕ) (signed : Bool)
  | legacy (revision : ℕ) (document : Document)

def Condition.Holds : Condition Document → Option (Row Document) → Prop
  | .absent, stored => stored = none
  | .current revision signed, stored =>
      ∃ row, stored = some row ∧ row.revision = revision ∧ row.signature.isSome = signed
  | .legacy revision document, stored =>
      ∃ row, stored = some row ∧ row.revision = revision ∧ row.document = document ∧
        row.signature = none

/-- The store and the state of the instance.  No operation reads `log`, the document of each
revision that has been stored. -/
structure World (parse : Document → Option Models) where
  row : Option (Row Document)
  log : ℕ → Option Document
  live : Registry Models
  modelGeneration : ℕ
  knownModelRevision : ℕ
  lastModelCheck : Option ℚ
  lastGood : Snapshot parse
  routingSyncError : Option SyncError
  refreshing : Bool
  authenticated : Option (Snapshot parse)

inductive Outcome where
  | committed
  | conflict
  | raised
  deriving DecidableEq

/-- What a caller that wants a refresh does. -/
inductive Staleness where
  | fresh
  | join
  | create

inductive Op (parse : Document → Option Models) where
  | getItem
  | putItem (row : Row Document) (condition : Condition Document)
  | sign (s : Snapshot parse)
  | verify (s : Snapshot parse)
  | authenticated
  | setAuthenticated (s : Snapshot parse)
  | checkStale (now : ℚ)
  | beginRefresh
  | finishRefresh (generation : ℕ) (answer : Except LoadError (Option (Snapshot parse))) (now : ℚ)
  | joinRefresh
  | noteError (e : LoadError)
  | publish (s : Snapshot parse) (now : ℚ)

abbrev Ret (parse : Document → Option Models) : Op parse → Type
  | .getItem => Option (Option (Row Document))
  | .putItem _ _ => Outcome
  | .sign _ => Option String
  | .verify _ => Bool
  | .authenticated => Option (Snapshot parse)
  | .setAuthenticated _ => Unit
  | .checkStale _ => Staleness
  | .beginRefresh => ℕ × ℕ
  | .finishRefresh _ _ _ => Except LoadError Bool
  | .joinRefresh => Except LoadError Bool
  | .noteError _ => Unit
  | .publish _ _ => Bool

abbrev Program (parse : Document → Option Models) := Prog (Op parse) (Ret parse)

namespace World

variable (w : World parse)

/-- A row is written. -/
def put (row : Row Document) : World parse :=
  { w with
    row := some row
    log := Function.update w.log row.revision (some row.document) }

def configSyncTtlSeconds : ℚ := 5

def stale (now : ℚ) : Bool :=
  match w.lastModelCheck with
  | none => true
  | some last => ¬ now - last < configSyncTtlSeconds

/-- `_refresh_model_registry_if_stale` up to its await. -/
def checkStale (now : ℚ) : Staleness × World parse :=
  if ¬ w.stale now then (.fresh, w)
  else if w.refreshing then (.join, w)
  else (.create, { w with refreshing := true })

/-- `_refresh_model_registry` after its await. -/
def adopt (generation : ℕ) (answer : Option (Snapshot parse)) (now : ℚ) :
    Except LoadError Bool × World parse :=
  if generation ≠ w.modelGeneration then (.ok false, w)
  else
    match answer with
    | none =>
        (.ok false,
          { w with
            routingSyncError := if w.live.revision ≠ 0 then some .snapshotMissing else none
            lastModelCheck := some now })
    | some s =>
        if s.revision < 1 then (.error .snapshotUnavailable, w)
        else if s.revision ≤ w.live.revision then
          (.ok false,
            { w with
              knownModelRevision := w.live.revision
              routingSyncError := none
              lastModelCheck := some now })
        else
          (.ok true,
            { w with
              live := ⟨s.models, s.revision⟩
              lastGood := s
              knownModelRevision := s.revision
              routingSyncError := none
              lastModelCheck := some now })

/-- The refresh task ends, with an exception or with what it adopts. -/
def finishRefresh (generation : ℕ) (answer : Except LoadError (Option (Snapshot parse)))
    (now : ℚ) : Except LoadError Bool × World parse :=
  match answer with
  | .error e => (.error e, { w with refreshing := false })
  | .ok answer =>
      let (result, w) := w.adopt generation answer now
      (result, { w with refreshing := false })

/-- `_publish_model_registry`: the snapshot is applied, then `note_local_model_snapshot` records
it unless it raises. -/
def publish (s : Snapshot parse) (now : ℚ) : Bool × World parse :=
  let w := { w with live := ⟨s.models, s.revision⟩ }
  if s.revision < 1 then (false, w)
  else
    (true,
      { w with
        modelGeneration := w.modelGeneration + 1
        knownModelRevision := s.revision
        lastGood := s
        routingSyncError := none
        lastModelCheck := some now })

end World

/-- One operation of a program; a write that raises may be committed or not. -/
inductive Exec (w : World parse) : (o : Op parse) → Ret parse o → World parse → Prop
  | getItem : Exec w .getItem (some w.row) w
  | getItem_raised : Exec w .getItem none w
  | committed (row : Row Document) (condition : Condition Document) (outcome : Outcome)
      (hholds : condition.Holds w.row) (houtcome : outcome ≠ .conflict) :
      Exec w (.putItem row condition) outcome (w.put row)
  | conflict (row : Row Document) (condition : Condition Document)
      (hfails : ¬ condition.Holds w.row) : Exec w (.putItem row condition) .conflict w
  | raised (row : Row Document) (condition : Condition Document) :
      Exec w (.putItem row condition) .raised w
  | sign (s : Snapshot parse) (answer : Option String) : Exec w (.sign s) answer w
  | verify (s : Snapshot parse) (answer : Bool) : Exec w (.verify s) answer w
  | authenticated : Exec w .authenticated w.authenticated w
  | setAuthenticated (s : Snapshot parse) :
      Exec w (.setAuthenticated s) () { w with authenticated := some s }
  | checkStale (now : ℚ) : Exec w (.checkStale now) (w.checkStale now).1 (w.checkStale now).2
  | beginRefresh : Exec w .beginRefresh (w.modelGeneration, w.live.revision) w
  | finishRefresh (generation : ℕ) (answer : Except LoadError (Option (Snapshot parse)))
      (now : ℚ) : Exec w (.finishRefresh generation answer now)
        (w.finishRefresh generation answer now).1 (w.finishRefresh generation answer now).2
  | joinRefresh (answer : Except LoadError Bool) : Exec w .joinRefresh answer w
  | noteError (e : LoadError) :
      Exec w (.noteError e) () { w with routingSyncError := some (.category e) }
  | publish (s : Snapshot parse) (now : ℚ) :
      Exec w (.publish s now) (w.publish s now).1 (w.publish s now).2

/-- Another instance commits the next revision, or signs the stored document. -/
inductive Others (w : World parse) : World parse → Prop
  | first (document : Document) (signature : Option String) (hrow : w.row = none) :
      Others w (w.put ⟨1, document, signature⟩)
  | next (row : Row Document) (document : Document) (signature : Option String)
      (hrow : w.row = some row) : Others w (w.put ⟨row.revision + 1, document, signature⟩)
  | signed (row : Row Document) (signature : String) (hrow : w.row = some row)
      (hlegacy : row.signature = none) :
      Others w (w.put { row with signature := some signature })

/-! ### Persistence -/

/-- Perform one operation. -/
def ask (o : Op parse) : Program parse (Ret parse o) := Prog.op o

section Persistence

variable [DecidableEq Document]

/-- `_enforce_routing_revision` -/
def enforceRoutingRevision (s : Snapshot parse) (afterRevision : Option ℕ)
    (authenticated : Option (Snapshot parse)) : Bool :=
  afterRevision.all (fun after ↦ ¬ s.revision < after) &&
    authenticated.all fun a ↦
      ¬ s.revision < a.revision ∧ ¬ (s.revision = a.revision ∧ s.row ≠ a.row)

inductive SaveError where
  | conflict
  | other

/-- `_migrate_unsigned_model_registry` -/
def migrateUnsignedModelRegistry (s : Snapshot parse) :
    Program parse (Except SaveError (Snapshot parse)) := do
  match ← ask (.sign s) with
  | none => pure (.error .other)
  | some signature =>
      let signed : Snapshot parse := { s with signature := some signature }
      match ← ask (.putItem signed.row (.legacy s.revision s.document)) with
      | .conflict => pure (.error .conflict)
      | .raised => pure (.error .other)
      | .committed => do
          ask (.setAuthenticated signed)
          pure (.ok signed)

/-- `load_model_registry_snapshot`, where `retry` is what it does when a migration loses its
write. -/
def loadSnapshot (mode : SigningMode) (afterRevision : Option ℕ)
    (retry : Program parse (Except LoadError (Option (Snapshot parse)))) :
    Program parse (Except LoadError (Option (Snapshot parse))) := do
  match ← ask .getItem with
  | none => pure (.error .snapshotUnavailable)
  | some none => pure (.ok none)
  | some (some row) =>
      match row.snapshot parse with
      | none => pure (.error .snapshotUnavailable)
      | some s => do
          let authenticated ← ask .authenticated
          if ¬ enforceRoutingRevision s afterRevision authenticated then
            pure (.error .rollbackRejected)
          else if mode = .disabled then pure (.ok (some s))
          else if s.signature = none then
            if mode ≠ .signVerify then pure (.error .signatureVerificationFailed)
            else
              match ← migrateUnsignedModelRegistry s with
              | .ok signed => pure (.ok (some signed))
              | .error .conflict => retry
              | .error .other => pure (.error .snapshotUnavailable)
          else if authenticated.map Snapshot.row = some s.row then pure (.ok (some s))
          else
            match ← ask (.verify s) with
            | false => pure (.error .signatureVerificationFailed)
            | true => do
                ask (.setAuthenticated s)
                pure (.ok (some s))

def loadModelRegistrySnapshot (mode : SigningMode) (afterRevision : Option ℕ) :
    Program parse (Except LoadError (Option (Snapshot parse))) :=
  loadSnapshot mode afterRevision
    (loadSnapshot mode afterRevision (pure (.error .snapshotUnavailable)))

/-- The signature of a new snapshot, where the instance signs. -/
def newSignature (mode : SigningMode) (s : Snapshot parse) :
    Program parse (Option (Option String)) :=
  if mode = .signVerify then do
    let answer ← ask (.sign s)
    pure (answer.map some)
  else pure (some none)

/-- The write of `save_model_registry`. -/
def putSnapshot (mode : SigningMode) (expected : ℕ) (s : Snapshot parse) :
    Program parse (Except SaveError (Snapshot parse)) := do
  let condition := if expected = 0 then .absent
    else .current expected (decide (mode = .signVerify))
  match ← ask (.putItem s.row condition) with
  | .conflict => pure (.error .conflict)
  | .raised => pure (.error .other)
  | .committed => do
      if s.signature.isSome then ask (.setAuthenticated s)
      pure (.ok s)

/-- `save_model_registry` -/
def saveModelRegistry (mode : SigningMode) (oversized : Document → Bool) (config : Document)
    (expected : ℕ) : Program parse (Except SaveError (Snapshot parse)) :=
  if mode = .verify then pure (.error .other)
  else
    match Snapshot.fromConfig parse config (expected + 1) with
    | none => pure (.error .other)
    | some unsigned =>
        if oversized unsigned.document then pure (.error .other)
        else do
          match ← newSignature mode unsigned with
          | none => pure (.error .other)
          | some signature => putSnapshot mode expected { unsigned with signature := signature }

/-! ### Calls -/

inductive Answer where
  | committed (revision : ℕ)
  | conflict (latest : Option ℕ)
  | storeUnavailable
  | raised
  | refreshed (adopted : Bool)

/-- `_reload_model_registry` -/
def reloadModelRegistry (mode : SigningMode) (now : ℚ) : Program parse (Option ℕ) := do
  match ← loadModelRegistrySnapshot mode none with
  | .error _ => pure none
  | .ok none => pure none
  | .ok (some s) => do
      let noted ← ask (.publish s now)
      pure (if noted then some s.revision else none)

/-- `_commit_model_registry` -/
def commitModelRegistry (mode : SigningMode) (oversized : Document → Bool) (config : Document)
    (expected : ℕ) (now : ℚ) : Program parse Answer := do
  match ← saveModelRegistry mode oversized config expected with
  | .error .conflict => do
      let latest ← reloadModelRegistry mode now
      pure (.conflict latest)
  | .error .other => pure .storeUnavailable
  | .ok s =>
      if s.revision ≠ expected + 1 then pure .storeUnavailable
      else do
        let noted ← ask (.publish s now)
        pure (if noted then .committed s.revision else .raised)

/-- The task of a refresh. -/
def refreshModelRegistry (mode : SigningMode) (now : ℚ) :
    Program parse (Except LoadError Bool) := do
  let (generation, live) ← ask .beginRefresh
  let answer ← loadModelRegistrySnapshot mode (some live)
  ask (.finishRefresh generation answer now)

/-- What a caller makes of the end of the task. -/
def settleRefresh : Except LoadError Bool → Program parse Bool
  | .ok adopted => pure adopted
  | .error e => do
      ask (.noteError e)
      pure false

/-- `refresh_routing_if_stale` -/
def refreshRoutingIfStale (mode : SigningMode) (now : ℚ) : Program parse Bool := do
  match ← ask (.checkStale now) with
  | .fresh => pure false
  | .join => do
      let result ← ask .joinRefresh
      settleRefresh result
  | .create => do
      let result ← refreshModelRegistry mode now
      settleRefresh result

inductive Call (Document : Type) where
  | commit (config : Document) (expected : ℕ) (now : ℚ)
  | refresh (now : ℚ)

def body (parse : Document → Option Models) (mode : SigningMode) (oversized : Document → Bool) :
    Call Document → Program parse Answer
  | .commit config expected now => commitModelRegistry mode oversized config expected now
  | .refresh now => do
      let adopted ← refreshRoutingIfStale mode now
      pure (.refreshed adopted)

/-- The calls on one instance. -/
def service (parse : Document → Option Models) (mode : SigningMode) (oversized : Document → Bool) :
    Service (Op parse) (Ret parse) (World parse) (Call Document) Answer where
  machine := { exec := fun _ o w r w' ↦ Exec w o r w', env := Others }
  body := body parse mode oversized
  admits _ _ := True

end Persistence

/-- The instance has loaded the stored document, or its own file while there is none. -/
def start (first : Snapshot parse) : World parse where
  row := if first.revision = 0 then none else some first.row
  log := fun revision ↦ if revision = first.revision then some first.document else none
  live := ⟨first.models, first.revision⟩
  modelGeneration := 0
  knownModelRevision := first.revision
  lastModelCheck := none
  lastGood := first
  routingSyncError := none
  refreshing := false
  authenticated := if first.signature.isSome then some first else none

end ModelSync
