import AxonGateway.Lib.Schedule

/-!
# Browser sessions

A login state is stored until it is redeemed, a session until it is deleted.  Any number of
replicas work on one table; a refresh leases the session by a conditional write, exchanges the
token and writes the session again under the revision of its lease.  Times are whole seconds.
-/

namespace BrowserSession

open Interleaving

def sessionTokenLength : ℕ := 43
def maxAuthorizationCodeBytes : ℕ := 4096
def maxRefreshTokenBytes : ℕ := 16 * 1024
def maxIdTokenBytes : ℕ := 64 * 1024
def maxTokenLifetimeSeconds : ℤ := 3600
def refreshLeaseSeconds : ℤ := 15
def maxBrowserSessionSeconds : ℤ := 8 * 60 * 60
def schemaVersion : ℕ := 1

structure RequestContext where
  userId : String
  projectId : String
  roles : List String
  scopes : List String
  tenantId : Option String
  businessUnit : Option String
  environment : Option String
  email : Option String
  issuer : Option String
  subject : Option String
  deriving DecidableEq

structure Flow where
  entityType : String
  schemaVersion : ℕ
  nonce : String
  codeVerifier : String
  returnTo : String
  createdAt : ℤ
  expiresAt : ℤ
  deriving DecidableEq

/-- The item of a session. -/
structure Row where
  pk : String
  entityType : String
  schemaVersion : ℕ
  revision : ℕ
  context : RequestContext
  refreshToken : String
  refreshAfter : ℤ
  refreshLeaseUntil : Option ℤ
  absoluteExpiresAt : ℤ
  createdAt : ℤ
  updatedAt : ℤ
  expiresAt : ℤ
  deriving DecidableEq

/-- Why a session is written or deleted. -/
inductive Purpose where
  | lease
  | renew
  | reject
  | expired
  | malformed
  | logout
  deriving DecidableEq

/-- The last steps of a refresh. -/
def Purpose.Settles (p : Purpose) : Prop := p = .renew ∨ p = .reject

instance (p : Purpose) : Decidable p.Settles := inferInstanceAs (Decidable (_ ∨ _))

/-- Thread `thread` has overwritten or deleted the row of a revision. -/
structure Effect where
  thread : ℕ
  purpose : Purpose
  key : String
  revision : ℕ
  deriving DecidableEq

/-- The table.  No operation reads the other fields: the keys of all flows, each row that has
been written with its writer, the sessions that have been deleted, the flows that have been
handed out, the effects of conditional writes and deletions, and the clock that each thread has
read last. -/
structure World where
  flows : String → Option Flow
  sessions : String → Option Row
  flowKeys : List String
  written : String → ℕ → Option (ℕ × Row)
  removed : List String
  redeemed : List (ℕ × String)
  effects : List Effect
  reading : ℕ → Option ℤ

/-- A token response. -/
structure Tokens where
  idToken : Option String
  expiresIn : Option ℤ
  /-- Missing, not a string, or a string. -/
  refreshToken : Option (Option String)

inductive TokenForm where
  | authorizationCode (code verifier : String)
  | refreshToken (token : String)

/-- A fresh token, and what is reported of the write for it. -/
structure Created where
  token : String
  answer : Option Bool

inductive Op where
  | clock
  | randomToken
  | createFlow (flow : Flow)
  | consumeFlow (key : String) (now : ℤ)
  | createSession (row : String → Row)
  | getSession (key : String)
  | replaceSession (purpose : Purpose) (key : String) (row : Row) (expected : ℕ) (now : ℤ)
  | deleteSession (purpose : Purpose) (key : String) (expected : Option ℕ)
  | requestTokens (form : TokenForm)
  | validateIdToken (token : String) (expectedNonce : Option String)

abbrev Ret : Op → Type
  | .clock => ℤ
  | .randomToken => String
  | .createFlow _ => Created
  | .consumeFlow _ _ => Option (Option Flow)
  | .createSession _ => Created
  | .getSession _ => Option (Option Row)
  | .replaceSession _ _ _ _ _ => Option Bool
  | .deleteSession _ _ _ => Option Bool
  | .requestTokens _ => Option (Option Tokens)
  | .validateIdToken _ _ => Option RequestContext

section Keys

variable (sha256 : String → String)

def flowKey (state : String) : String := "BROWSER_AUTH_FLOW#" ++ sha256 state

def sessionKey (token : String) : String := "BROWSER_SESSION#" ++ sha256 token

end Keys

namespace World

variable (w : World)

def putFlow (key : String) (flow : Flow) : World :=
  { w with
    flows := Function.update w.flows key (some flow)
    flowKeys := key :: w.flowKeys }

def takeFlow (i : ℕ) (key : String) (handed : Bool) : World :=
  { w with
    flows := Function.update w.flows key none
    redeemed := if handed then (i, key) :: w.redeemed else w.redeemed }

/-- A row is written by thread `i`. -/
def putSession (i : ℕ) (key : String) (row : Row) : World :=
  { w with
    sessions := Function.update w.sessions key (some row)
    written := Function.update w.written key
      (Function.update (w.written key) row.revision (some (i, row))) }

def removeSession (key : String) : World :=
  { w with
    sessions := Function.update w.sessions key none
    removed := key :: w.removed }

def affect (i : ℕ) (purpose : Purpose) (key : String) (revision : ℕ) : World :=
  { w with effects := ⟨i, purpose, key, revision⟩ :: w.effects }

end World

/-- What is reported of a write that takes place; a retried request may report a failed
condition. -/
abbrev Reported := Option Bool

/-- One operation of thread `i`.  Where it raises, it may have taken place or not. -/
inductive Exec (sha256 : String → String) (i : ℕ) (w : World) : (o : Op) → Ret o → World → Prop
  | clock (now : ℤ) :
      Exec sha256 i w .clock now { w with reading := Function.update w.reading i (some now) }
  | randomToken (token : String) : Exec sha256 i w .randomToken token w
  | flowCreated (flow : Flow) (state : String) (answer : Reported)
      (hfresh : flowKey sha256 state ∉ w.flowKeys) :
      Exec sha256 i w (.createFlow flow) ⟨state, answer⟩ (w.putFlow (flowKey sha256 state) flow)
  | flowFailed (flow : Flow) (state : String) : Exec sha256 i w (.createFlow flow) ⟨state, none⟩ w
  | flowConsumed (key : String) (now : ℤ) (flow : Flow) (hflow : w.flows key = some flow)
      (hlive : now < flow.expiresAt) :
      Exec sha256 i w (.consumeFlow key now) (some (some flow)) (w.takeFlow i key true)
  | flowLost (key : String) (now : ℤ) (answer : Option (Option Flow)) (flow : Flow)
      (hflow : w.flows key = some flow) (hlive : now < flow.expiresAt)
      (hanswer : ∀ flow, answer ≠ some (some flow)) :
      Exec sha256 i w (.consumeFlow key now) answer (w.takeFlow i key false)
  | flowMissing (key : String) (now : ℤ)
      (hmissing : ∀ flow, w.flows key = some flow → ¬ now < flow.expiresAt) :
      Exec sha256 i w (.consumeFlow key now) (some none) w
  | flowRaised (key : String) (now : ℤ) : Exec sha256 i w (.consumeFlow key now) none w
  | sessionCreated (row : String → Row) (token : String) (answer : Reported)
      (hfresh : ∀ r, w.written (sessionKey sha256 token) r = none) :
      Exec sha256 i w (.createSession row) ⟨token, answer⟩
        (w.putSession i (sessionKey sha256 token) (row (sessionKey sha256 token)))
  | sessionFailed (row : String → Row) (token : String) :
      Exec sha256 i w (.createSession row) ⟨token, none⟩ w
  | getSession (key : String) : Exec sha256 i w (.getSession key) (some (w.sessions key)) w
  | getRaised (key : String) : Exec sha256 i w (.getSession key) none w
  | replaced (purpose : Purpose) (key : String) (row : Row) (expected : ℕ) (now : ℤ)
      (answer : Reported) (old : Row) (hold : w.sessions key = some old)
      (hrevision : old.revision = expected) (hlive : now < old.absoluteExpiresAt) :
      Exec sha256 i w (.replaceSession purpose key row expected now) answer
        ((w.affect i purpose key expected).putSession i key row)
  | notReplaced (purpose : Purpose) (key : String) (row : Row) (expected : ℕ) (now : ℤ)
      (hfails : ∀ old, w.sessions key = some old → old.revision = expected →
        ¬ now < old.absoluteExpiresAt) :
      Exec sha256 i w (.replaceSession purpose key row expected now) (some false) w
  | replaceRaised (purpose : Purpose) (key : String) (row : Row) (expected : ℕ) (now : ℤ) :
      Exec sha256 i w (.replaceSession purpose key row expected now) none w
  | deleted (purpose : Purpose) (key : String) (expected : Option ℕ) (answer : Reported)
      (old : Row) (hold : w.sessions key = some old)
      (hrevision : ∀ revision ∈ expected, old.revision = revision) :
      Exec sha256 i w (.deleteSession purpose key expected) answer
        ((w.affect i purpose key old.revision).removeSession key)
  | nothingDeleted (purpose : Purpose) (key : String) (hnone : w.sessions key = none) :
      Exec sha256 i w (.deleteSession purpose key none) (some true) w
  | notDeleted (purpose : Purpose) (key : String) (expected : ℕ)
      (hfails : ∀ old, w.sessions key = some old → old.revision ≠ expected) :
      Exec sha256 i w (.deleteSession purpose key (some expected)) (some false) w
  | deleteRaised (purpose : Purpose) (key : String) (expected : Option ℕ) :
      Exec sha256 i w (.deleteSession purpose key expected) none w
  | requestTokens (form : TokenForm) (answer : Option (Option Tokens)) :
      Exec sha256 i w (.requestTokens form) answer w
  | validateIdToken (token : String) (nonce : Option String) (answer : Option RequestContext) :
      Exec sha256 i w (.validateIdToken token nonce) answer w

/-- The table drops rows whose time to live is over. -/
inductive Expiry (w : World) : World → Prop
  | flow (key : String) : Expiry w { w with flows := Function.update w.flows key none }
  | session (key : String) (old : Row) (hold : w.sessions key = some old) :
      Expiry w (w.removeSession key)

/-! ### The service -/

structure Config where
  sha256 : String → String
  /-- `_safe_return_to` -/
  safeReturnTo : String → Option String
  sessionMaxSeconds : ℤ
  flowTtlSeconds : ℤ
  defaultReturnTo : String

abbrev Program := Prog Op Ret

def ask (o : Op) : Program (Ret o) := Prog.op o

inductive Answer where
  | authError
  | unavailable
  | loginUrl (state : String)
  | session (token returnTo : String)
  | context (c : Option RequestContext)
  | loggedOut

def isOpaqueCharacter (c : Char) : Bool :=
  c.isAlphanum || c = Char.ofNat 45 || c = Char.ofNat 95

/-- `valid_session_token`, which is also the form of a login state. -/
def validSessionToken (token : String) : Bool :=
  token.length = sessionTokenLength && token.toList.all isOpaqueCharacter

/-- `_required_string` of a string. -/
def requiredString (maxBytes : ℕ) (value : String) : Bool :=
  value ≠ "" && value.utf8ByteSize ≤ maxBytes

/-- `_context_from_item`: whether it raises nothing. -/
def RequestContext.wellFormed (c : RequestContext) : Bool :=
  requiredString 2048 c.userId && c.projectId.utf8ByteSize ≤ 2048 &&
    [c.roles, c.scopes].all (fun values ↦
      values.length ≤ 256 && values.all (requiredString 1024)) &&
    [c.tenantId, c.businessUnit, c.environment, c.email, c.issuer, c.subject].all fun value ↦
      value.all (requiredString 2048)

/-- `_stored_session`: whether it raises nothing. -/
def Row.wellFormed (row : Row) (key : String) : Bool :=
  row.pk = key ∧ row.entityType = "browser_session" ∧ row.schemaVersion = BrowserSession.schemaVersion ∧
    1 ≤ row.revision ∧ 1 ≤ row.refreshAfter ∧ 0 ≤ row.refreshLeaseUntil.getD 0 ∧
    1 ≤ row.absoluteExpiresAt ∧ 1 ≤ row.createdAt ∧ 1 ≤ row.expiresAt ∧
    row.expiresAt = row.absoluteExpiresAt ∧ row.createdAt ≤ row.absoluteExpiresAt ∧
    row.absoluteExpiresAt - row.createdAt ≤ maxBrowserSessionSeconds ∧
    row.refreshAfter ≤ row.absoluteExpiresAt ∧
    row.refreshLeaseUntil.getD 0 ≤ row.absoluteExpiresAt ∧
    requiredString maxRefreshTokenBytes row.refreshToken ∧ row.context.wellFormed

/-- `_refresh_after` -/
def refreshAfter (now expiresIn absoluteExpiresAt : ℤ) : ℤ :=
  let skew := min 60 (max 5 (expiresIn / 10))
  min (now + max 1 (expiresIn - skew)) absoluteExpiresAt

/-- `_validated_tokens`; without a result it raises `BrowserAuthError`. -/
def validatedTokens (tokens : Tokens) (expectedNonce : Option String) (fallback : String) :
    Program (Option (RequestContext × String × ℤ)) :=
  match tokens.idToken, tokens.expiresIn, tokens.refreshToken.getD (some fallback) with
  | some idToken, some expiresIn, some refreshToken =>
      if idToken = "" ∨ maxIdTokenBytes < idToken.utf8ByteSize ∨
          ¬ (1 ≤ expiresIn ∧ expiresIn ≤ maxTokenLifetimeSeconds) ∨
          maxRefreshTokenBytes < refreshToken.utf8ByteSize ∨ refreshToken = "" then pure none
      else do
        let context ← ask (.validateIdToken idToken expectedNonce)
        pure (context.map fun c ↦ (c, refreshToken, expiresIn))
  | _, _, _ => pure none

section Service

variable (cfg : Config)

/-- `begin_login` -/
def beginLogin (returnTo : Option String) : Program Answer :=
  match cfg.safeReturnTo ((returnTo.filter (· ≠ "")).getD cfg.defaultReturnTo) with
  | none => pure .authError
  | some target => do
      let nonce ← ask .randomToken
      let verifier ← ask .randomToken
      let now ← ask .clock
      let created ← ask (.createFlow
        ⟨"browser_auth_flow", schemaVersion, nonce, verifier, target, now,
          now + cfg.flowTtlSeconds⟩)
      pure (if created.answer = some true then .loginUrl created.token else .unavailable)

/-- Whether a redeemed flow is in order. -/
def Flow.valid (flow : Flow) (now : ℤ) : Bool :=
  flow.entityType = "browser_auth_flow" ∧ flow.schemaVersion = BrowserSession.schemaVersion ∧
    1 ≤ flow.createdAt ∧ 1 ≤ flow.expiresAt ∧ flow.createdAt ≤ now ∧ now < flow.expiresAt ∧
    flow.expiresAt - flow.createdAt ≤ cfg.flowTtlSeconds ∧
    requiredString 512 flow.nonce ∧ requiredString 512 flow.codeVerifier ∧
    requiredString 2048 flow.returnTo

/-- The item of a new session. -/
def newRow (now : ℤ) (context : RequestContext) (refreshToken : String) (expiresIn : ℤ)
    (key : String) : Row :=
  let absoluteExpiresAt := now + min cfg.sessionMaxSeconds maxBrowserSessionSeconds
  { pk := key
    entityType := "browser_session"
    schemaVersion := schemaVersion
    revision := 1
    context := context
    refreshToken := refreshToken
    refreshAfter := refreshAfter now expiresIn absoluteExpiresAt
    refreshLeaseUntil := none
    absoluteExpiresAt := absoluteExpiresAt
    createdAt := now
    updatedAt := now
    expiresAt := absoluteExpiresAt }

/-- At most `attempts` attempts to store a new session. -/
def storeSession (row : String → Row) (returnTo : String) : ℕ → Program Answer
  | 0 => pure .unavailable
  | attempts + 1 => do
      let created ← ask (.createSession row)
      match created.answer with
      | none => pure .unavailable
      | some true => pure (.session created.token returnTo)
      | some false => storeSession row returnTo attempts

/-- `complete_login` -/
def completeLogin (code state : String) : Program Answer :=
  if code = "" ∨ maxAuthorizationCodeBytes < code.utf8ByteSize ∨ ¬ validSessionToken state then
    pure .authError
  else do
    let now ← ask .clock
    match ← ask (.consumeFlow (flowKey cfg.sha256 state) now) with
    | none => pure .unavailable
    | some none => pure .authError
    | some (some flow) =>
        match flow.valid cfg now, cfg.safeReturnTo flow.returnTo with
        | true, some returnTo => do
            match ← ask (.requestTokens (.authorizationCode code flow.codeVerifier)) with
            | none => pure .unavailable
            | some none => pure .authError
            | some (some tokens) => do
                match ← validatedTokens tokens (some flow.nonce) "" with
                | none => pure .authError
                | some (context, refreshToken, expiresIn) =>
                    storeSession (newRow cfg now context refreshToken expiresIn) returnTo 3
        | _, _ => pure .authError

/-- What a refresh that has lost its write returns: the session that is stored now. -/
def currentContext (key : String) (now : ℤ) : Program Answer := do
  match ← ask (.getSession key) with
  | none => pure .unavailable
  | some none => pure (.context none)
  | some (some row) =>
      pure (.context (if row.wellFormed key ∧ now < row.absoluteExpiresAt then some row.context
        else none))

/-- The session is deleted under the revision of the lease. -/
def rejectSession (key : String) (leasedRevision : ℕ) : Program Answer := do
  match ← ask (.deleteSession .reject key (some leasedRevision)) with
  | none => pure .unavailable
  | some _ => pure (.context none)

def leasedRow (row : Row) (now : ℤ) : Row :=
  { row with
    revision := row.revision + 1
    refreshLeaseUntil := some (min (now + refreshLeaseSeconds) row.absoluteExpiresAt)
    updatedAt := now }

def renewedRow (row : Row) (now : ℤ) (context : RequestContext) (refreshToken : String)
    (expiresIn : ℤ) : Row :=
  { row with
    revision := row.revision + 2
    context := context
    refreshToken := refreshToken
    refreshAfter := refreshAfter now expiresIn row.absoluteExpiresAt
    refreshLeaseUntil := none
    updatedAt := now }

/-- `_refresh_session` of the stored session `row`. -/
def refreshSession (key : String) (row : Row) (now : ℤ) : Program Answer := do
  match ← ask (.replaceSession .lease key (leasedRow row now) row.revision now) with
  | none => pure .unavailable
  | some false => currentContext key now
  | some true => do
      match ← ask (.requestTokens (.refreshToken row.refreshToken)) with
      | none => pure .unavailable
      | some none => rejectSession key (row.revision + 1)
      | some (some tokens) => do
          match ← validatedTokens tokens none row.refreshToken with
          | none => rejectSession key (row.revision + 1)
          | some (context, refreshToken, expiresIn) =>
              if context.issuer ≠ row.context.issuer ∨ context.subject ≠ row.context.subject then
                rejectSession key (row.revision + 1)
              else do
                match ← ask (.replaceSession .renew key
                    (renewedRow row now context refreshToken expiresIn) (row.revision + 1)
                    now) with
                | none => pure .unavailable
                | some true => pure (.context (some context))
                | some false => currentContext key now

/-- `authenticate` -/
def authenticate (token : String) : Program Answer :=
  if ¬ validSessionToken token then pure (.context none)
  else do
    let key := sessionKey cfg.sha256 token
    match ← ask (.getSession key) with
    | none => pure .unavailable
    | some none => pure (.context none)
    | some (some row) =>
        if ¬ row.wellFormed key then do
          match ← ask (.deleteSession .malformed key none) with
          | none => pure .unavailable
          | some _ => pure (.context none)
        else do
          let now ← ask .clock
          if row.absoluteExpiresAt ≤ now then do
            match ← ask (.deleteSession .expired key (some row.revision)) with
            | none => pure .unavailable
            | some _ => pure (.context none)
          else if now < row.refreshLeaseUntil.getD 0 then pure (.context (some row.context))
          else if now < row.refreshAfter then pure (.context (some row.context))
          else refreshSession key row now

/-- `logout` -/
def logout (token : Option String) : Program Answer :=
  match token.filter validSessionToken with
  | none => pure .loggedOut
  | some token => do
      match ← ask (.deleteSession .logout (sessionKey cfg.sha256 token) none) with
      | none => pure .unavailable
      | some _ => pure .loggedOut

inductive Call where
  | beginLogin (returnTo : Option String)
  | completeLogin (code state : String)
  | authenticate (token : String)
  | logout (token : Option String)

def body : Call → Program Answer
  | .beginLogin returnTo => beginLogin cfg returnTo
  | .completeLogin code state => completeLogin cfg code state
  | .authenticate token => authenticate cfg token
  | .logout token => logout cfg token

/-- Any number of replicas. -/
def service : Service Op Ret World Call Answer where
  machine :=
    { exec := fun i o w r w' ↦ Exec cfg.sha256 i w o r w'
      env := Expiry }
  body := body cfg
  admits _ _ := True

end Service

def start : World where
  flows _ := none
  sessions _ := none
  flowKeys := []
  written _ _ := none
  removed := []
  redeemed := []
  effects := []
  reading _ := none

end BrowserSession
