import AxonGateway.Lib.Schedule

/-!
# The API key service of one instance

An instance validates keys from a cache and polls a revocation epoch for each tenant. A
revocation marks the row of the key and moves the epoch of its tenant in one transaction.
What happens between two awaits is one operation; the store and the epoch are read
consistently, and a read may fail.
-/

namespace Keys

open Interleaving

structure APIKey where
  keyId : String
  keyHash : String
  tenantId : Option String
  expiresAt : Option ℚ
  revoked : Bool
  deriving DecidableEq

/-- Where a key is stored: its tenant's namespace, or the one without tenants. -/
abbrev KeyRef := Option String × String

def APIKey.ref (k : APIKey) : KeyRef := (k.tenantId, k.keyId)

def cacheTtlSeconds : ℚ := 300

def revocationPollSeconds : ℚ := 5

/-- The store, the fields of the service, and four records that no operation reads: the epoch
that each revocation wrote, the highest epoch that was recorded, the keys that an own
revocation evicted, and the keys that programs hold while they wait for an epoch. -/
structure World where
  now : ℚ
  rows : KeyRef → Option APIKey
  lookup : String → Option KeyRef
  epochs : Option String → ℕ
  cache : String → Option (APIKey × ℚ)
  recorded : Option String → Option ℕ
  checkedAt : Option String → ℚ
  requires : String → Bool
  revokedAt : KeyRef → Option ℕ
  highest : Option String → Option ℕ
  evicted : KeyRef → Bool
  held : List (ℕ × APIKey)

/-- What a section of a validation comes to. -/
inductive Served where
  | key (k : APIKey) (returnedAt : ℚ)
  | poll (tenant : Option String) (cachedAt : ℚ)
  | reread (cachedAt : ℚ)
  | load
  | refused

namespace World

def usable (w : World) (k : APIKey) : Bool :=
  !k.revoked && k.expiresAt.all fun e ↦ decide (w.now ≤ e)

def recent (w : World) (tenant : Option String) : Bool :=
  w.now - w.checkedAt tenant < revocationPollSeconds

def markChecked (w : World) (tenant : Option String) : World :=
  { w with checkedAt := Function.update w.checkedAt tenant w.now }

def record (w : World) (tenant : Option String) (epoch : ℕ) : World :=
  { w with
    recorded := Function.update w.recorded tenant (some epoch)
    highest := Function.update w.highest tenant (some (max ((w.highest tenant).getD 0) epoch)) }

/-- Drop the cached keys of a tenant, and the marks of keys that are not cached. -/
def clear (w : World) (tenant : Option String) : World :=
  let cache := fun hash ↦ (w.cache hash).filter fun entry ↦ entry.1.tenantId ≠ tenant
  { w with cache, requires := fun hash ↦ w.requires hash && (cache hash).isSome }

/-- The end of `_check_revocations`: what was read is recorded, and a key that was loaded
before has to be read again if the epoch is the first one or has changed. -/
def settle (w : World) (tenant : Option String) : Option ℕ → World × Bool
  | none => (w, false)
  | some epoch =>
    match w.recorded tenant with
    | none => (w.record tenant epoch, true)
    | some previous =>
      if epoch ≠ previous then ((w.record tenant epoch).clear tenant, true) else (w, false)

def uncache (w : World) (hash : String) : World :=
  { w with
    cache := Function.update w.cache hash none
    requires := Function.update w.requires hash false }

def store (w : World) (k : APIKey) (cachedAt : ℚ) : World :=
  { w with cache := Function.update w.cache k.keyHash (some (k, cachedAt)) }

/-- A cached entry is returned while it is young and its key usable, and dropped otherwise. -/
def serveEntry (w : World) (hash : String) : Served × World :=
  match w.cache hash with
  | none => (.load, w)
  | some (k, cachedAt) =>
    if w.now - cachedAt < cacheTtlSeconds ∧ w.usable k = true then (.key k w.now, w)
    else (.load, w.uncache hash)

/-- A key that was issued here before the tenant's first epoch is read again. -/
def serve (w : World) (hash : String) (tenant : Option String) (cachedAt : ℚ) : Served × World :=
  if w.requires hash = true ∧ (w.recorded tenant).isSome = true then (.reread cachedAt, w)
  else w.serveEntry hash

def lookupCache (w : World) (hash : String) : Served × World :=
  match w.cache hash with
  | none => (.load, w)
  | some (k, cachedAt) =>
    if w.recent k.tenantId then w.serve hash k.tenantId cachedAt
    else (.poll k.tenantId cachedAt, w.markChecked k.tenantId)

def settleReread (w : World) (hash : String) (cachedAt : ℚ) (read : Option APIKey) :
    Served × World :=
  match read.filter (w.usable ·) with
  | none => (.load, w.uncache hash)
  | some k =>
    { w with requires := Function.update w.requires hash false }.store k cachedAt |>.serveEntry hash

/-- The key has been read: unless it is time to poll its tenant's epoch, it is returned. -/
def checkLoaded (w : World) (i : ℕ) (k : APIKey) : Served × World :=
  if ¬ w.usable k then (.refused, w)
  else if w.recent k.tenantId then (.key k w.now, w.store k w.now)
  else (.poll k.tenantId w.now, { w.markChecked k.tenantId with held := (i, k) :: w.held })

def settleLoaded (w : World) (i : ℕ) (k : APIKey) (epoch : Option ℕ) : Served × World :=
  let settled := w.settle k.tenantId epoch
  let w' := { settled.1 with held := settled.1.held.erase (i, k) }
  if settled.2 then (.reread w.now, w') else (.key k w.now, w'.store k w.now)

def storeReread (w : World) (k : APIKey) : Served × World :=
  if w.usable k then (.key k w.now, w.store k w.now) else (.refused, w)

/-- `_cache_issued_key` -/
def cacheIssued (w : World) (k : APIKey) : World :=
  { w.store k w.now with
    requires := if (w.recorded k.tenantId).isSome then w.requires
      else Function.update w.requires k.keyHash true }

def evict (w : World) (k : APIKey) : World :=
  { w.uncache k.keyHash with evicted := Function.update w.evicted k.ref true }

def Free (w : World) (k : APIKey) : Prop :=
  w.rows k.ref = none ∧ w.lookup k.keyHash = none

def save (w : World) (k : APIKey) : World :=
  { w with
    rows := Function.update w.rows k.ref (some k)
    lookup := Function.update w.lookup k.keyHash (some k.ref) }

/-- The condition of a revocation: the row is there and not revoked. -/
def Revocable (w : World) (k : APIKey) : Prop :=
  ∃ row, w.rows k.ref = some row ∧ row.keyHash = k.keyHash ∧ row.revoked = false

/-- The key's row is marked and its tenant's epoch moves. -/
def revoke (w : World) (k : APIKey) : World :=
  { w with
    rows := Function.update w.rows k.ref ((w.rows k.ref).map ({ · with revoked := true }))
    epochs := Function.update w.epochs k.tenantId (w.epochs k.tenantId + 1)
    revokedAt := Function.update w.revokedAt k.ref (some (w.epochs k.tenantId + 1)) }

end World

/-! ### Operations -/

inductive Op where
  | lookupCache (hash : String)
  | readEpoch (tenant : Option String)
  | settleCached (hash : String) (tenant : Option String) (cachedAt : ℚ) (epoch : Option ℕ)
  | readKey (hash : String)
  | settleReread (hash : String) (cachedAt : ℚ) (read : Option APIKey)
  | checkLoaded (k : APIKey)
  | settleLoaded (k : APIKey) (epoch : Option ℕ)
  | storeReread (k : APIKey)
  | getKey (keyId : String) (tenant : Option String)
  | saveKey (k : APIKey)
  | cacheIssued (k : APIKey)
  | revoke (k : APIKey)
  | evict (k : APIKey)
  | rotate (k replacement : APIKey)
  | finishRotate (k replacement : APIKey)
  | tick (t : ℚ)

/-- How a transaction ends: it is committed, its condition fails, or it raises, and then it
may be committed or not. -/
inductive Outcome where
  | committed
  | refused
  | raised

abbrev Ret : Op → Type
  | .lookupCache _ => Served
  | .readEpoch _ => Option ℕ
  | .settleCached _ _ _ _ => Served
  | .readKey _ => Option APIKey
  | .settleReread _ _ _ => Served
  | .checkLoaded _ => Served
  | .settleLoaded _ _ => Served
  | .storeReread _ => Served
  | .getKey _ _ => Option APIKey
  | .saveKey _ => Outcome
  | .cacheIssued _ => Unit
  | .revoke _ => Outcome
  | .evict _ => Unit
  | .rotate _ _ => Outcome
  | .finishRotate _ _ => Unit
  | .tick _ => Unit

/-- What an operation of program `i` answers and does. -/
inductive Exec (i : ℕ) (w : World) : (o : Op) → Ret o → World → Prop
  | lookupCache (hash : String) :
      Exec i w (.lookupCache hash) (w.lookupCache hash).1 (w.lookupCache hash).2
  | readEpoch (tenant : Option String) : Exec i w (.readEpoch tenant) (some (w.epochs tenant)) w
  | readEpoch_failed (tenant : Option String) : Exec i w (.readEpoch tenant) none w
  | settleCached (hash : String) (tenant : Option String) (cachedAt : ℚ) (epoch : Option ℕ) :
      Exec i w (.settleCached hash tenant cachedAt epoch)
        ((w.settle tenant epoch).1.serve hash tenant cachedAt).1
        ((w.settle tenant epoch).1.serve hash tenant cachedAt).2
  | readKey (hash : String) : Exec i w (.readKey hash) ((w.lookup hash).bind w.rows) w
  | readKey_failed (hash : String) : Exec i w (.readKey hash) none w
  | settleReread (hash : String) (cachedAt : ℚ) (read : Option APIKey) :
      Exec i w (.settleReread hash cachedAt read) (w.settleReread hash cachedAt read).1
        (w.settleReread hash cachedAt read).2
  | checkLoaded (k : APIKey) :
      Exec i w (.checkLoaded k) (w.checkLoaded i k).1 (w.checkLoaded i k).2
  | settleLoaded (k : APIKey) (epoch : Option ℕ) :
      Exec i w (.settleLoaded k epoch) (w.settleLoaded i k epoch).1 (w.settleLoaded i k epoch).2
  | storeReread (k : APIKey) : Exec i w (.storeReread k) (w.storeReread k).1 (w.storeReread k).2
  | getKey (keyId : String) (tenant : Option String) :
      Exec i w (.getKey keyId tenant) (w.rows (tenant, keyId)) w
  | getKey_failed (keyId : String) (tenant : Option String) :
      Exec i w (.getKey keyId tenant) none w
  | saveKey (k : APIKey) (outcome : Outcome) (hfree : w.Free k) (hrow : k.revoked = false)
      (hraised : outcome ≠ .refused) : Exec i w (.saveKey k) outcome (w.save k)
  | saveKey_refused (k : APIKey) (hfree : ¬ w.Free k) : Exec i w (.saveKey k) .refused w
  | saveKey_raised (k : APIKey) : Exec i w (.saveKey k) .raised w
  | cacheIssued (k : APIKey) : Exec i w (.cacheIssued k) () (w.cacheIssued k)
  | revoke (k : APIKey) (outcome : Outcome) (hrevocable : w.Revocable k)
      (hraised : outcome ≠ .refused) : Exec i w (.revoke k) outcome (w.revoke k)
  | revoke_refused (k : APIKey) (hrevocable : ¬ w.Revocable k) : Exec i w (.revoke k) .refused w
  | revoke_raised (k : APIKey) : Exec i w (.revoke k) .raised w
  | evict (k : APIKey) : Exec i w (.evict k) () (w.evict k)
  | rotate (k replacement : APIKey) (outcome : Outcome) (hrevocable : w.Revocable k)
      (hfree : (w.revoke k).Free replacement) (hrow : replacement.revoked = false)
      (hraised : outcome ≠ .refused) :
      Exec i w (.rotate k replacement) outcome ((w.revoke k).save replacement)
  | rotate_refused (k replacement : APIKey) (hrevocable : ¬ w.Revocable k) :
      Exec i w (.rotate k replacement) .refused w
  | rotate_raised (k replacement : APIKey) : Exec i w (.rotate k replacement) .raised w
  | finishRotate (k replacement : APIKey) :
      Exec i w (.finishRotate k replacement) () ((w.evict k).cacheIssued replacement)
  | tick (t : ℚ) (hlater : w.now ≤ t) : Exec i w (.tick t) () { w with now := t }

/-! ### Programs -/

abbrev Program := Prog Op Ret

/-- The key that a validation returns, and when. -/
abbrev Validated := Option (APIKey × ℚ)

def answer : Served → Validated
  | .key k returnedAt => some (k, returnedAt)
  | _ => none

/-- `_load_cacheable_key` and the store of its result. -/
def loadKey (hash : String) : Program Validated := do
  match ← Prog.op (Op.readKey hash) with
  | none => pure none
  | some k =>
      match ← Prog.op (Op.checkLoaded k) with
      | .poll tenant _ =>
          let epoch ← Prog.op (Op.readEpoch tenant)
          match ← Prog.op (Op.settleLoaded k epoch) with
          | .reread _ =>
              match ← Prog.op (Op.readKey hash) with
              | none => pure none
              | some k' =>
                  let served ← Prog.op (Op.storeReread k')
                  pure (answer served)
          | served => pure (answer served)
      | served => pure (answer served)

/-- Go on with what the cache came to. -/
def afterCache (hash : String) : Served → Program Validated
  | .load => loadKey hash
  | .reread cachedAt => do
      let read ← Prog.op (Op.readKey hash)
      match ← Prog.op (Op.settleReread hash cachedAt read) with
      | .load => loadKey hash
      | served => pure (answer served)
  | served => pure (answer served)

/-- `validate_key` of the raw key with this hash. -/
def validateKey (hash : String) : Program Validated := do
  match ← Prog.op (Op.lookupCache hash) with
  | .poll tenant cachedAt =>
      let epoch ← Prog.op (Op.readEpoch tenant)
      let served ← Prog.op (Op.settleCached hash tenant cachedAt epoch)
      afterCache hash served
  | served => afterCache hash served

inductive Answer where
  | validated (result : Validated)
  | returned (changed : Bool)
  | raised

def issueKey (k : APIKey) : Program Answer := do
  match ← Prog.op (Op.saveKey k) with
  | .committed =>
      Prog.op (Op.cacheIssued k)
      pure (.returned true)
  | _ => pure .raised

def revokeKey (keyId : String) (tenant : Option String) : Program Answer := do
  match ← Prog.op (Op.getKey keyId tenant) with
  | none => pure (.returned false)
  | some k =>
      if k.revoked then
        Prog.op (Op.evict k)
        pure (.returned false)
      else
        match ← Prog.op (Op.revoke k) with
        | .raised => pure .raised
        | .refused =>
            Prog.op (Op.evict k)
            pure (.returned false)
        | .committed =>
            Prog.op (Op.evict k)
            pure (.returned true)

/-- A key of a tenant is rotated in one transaction, a key without one revoked and issued
again. -/
def rotateKey (keyId : String) (tenant : Option String) (replacement : APIKey) :
    Program Answer := do
  match ← Prog.op (Op.getKey keyId tenant) with
  | none => pure (.returned false)
  | some k =>
      if k.tenantId.isSome then
        match ← Prog.op (Op.rotate k replacement) with
        | .raised => pure .raised
        | .refused =>
            Prog.op (Op.evict k)
            pure (.returned false)
        | .committed =>
            Prog.op (Op.finishRotate k replacement)
            pure (.returned true)
      else
        match ← revokeKey keyId k.tenantId with
        | .returned true => issueKey replacement
        | result => pure result

/-- A transaction of another instance. -/
def elsewhere (o : Op) : Program Answer := do
  let _ ← Prog.op o
  pure (.returned true)

inductive Call where
  | validateKey (hash : String)
  | issueKey (k : APIKey)
  | revokeKey (keyId : String) (tenant : Option String)
  | rotateKey (keyId : String) (tenant : Option String) (replacement : APIKey)
  | issueElsewhere (k : APIKey)
  | revokeElsewhere (k : APIKey)
  | tick (t : ℚ)

def body : Call → Program Answer
  | .validateKey hash => do
      let result ← validateKey hash
      pure (.validated result)
  | .issueKey k => issueKey k
  | .revokeKey keyId tenant => revokeKey keyId tenant
  | .rotateKey keyId tenant replacement => rotateKey keyId tenant replacement
  | .issueElsewhere k => elsewhere (.saveKey k)
  | .revokeElsewhere k => elsewhere (.revoke k)
  | .tick t => elsewhere (.tick t)

/-- The calls on one instance, the transactions of the others, and the clock. -/
def service : Service Op Ret World Call Answer where
  machine := { exec := fun i o w r w' ↦ Exec i w o r w', env := Eq }
  body := body
  admits _ _ := True

/-- An empty store and a service that has seen nothing of it. -/
def start (now : ℚ) : World where
  now := now
  rows _ := none
  lookup _ := none
  epochs _ := 0
  cache _ := none
  recorded _ := none
  checkedAt _ := 0
  requires _ := false
  revokedAt _ := none
  highest _ := none
  evicted _ := false
  held := []

end Keys
