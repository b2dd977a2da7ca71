import Mathlib.Data.List.DropRight
import AxonGateway.Lib.PyText
import AxonGateway.Lib.Schedule

/-!
# The signing keys of an issuer

A bearer token is verified with a key of the issuer's key set.  The set is cached for a bounded
time; an expired set and an unknown key id both lead to a fetch under one lock.  A program runs
without interruption between two awaits, and time passes only there.
-/

namespace Oidc

open Interleaving

/-- A JSON Web Key: its id, where that is a string, and its other members. -/
structure Jwk where
  kid : Option String
  members : List (String × String)
  deriving DecidableEq

/-- A JSON value that may be a key set; an entry is missing where it is not an object. -/
inductive Document where
  | other
  | keys (entries : List (Option Jwk))
  deriving DecidableEq

def Document.entries : Document → List (Option Jwk)
  | other => []
  | keys entries => entries

/-- `str.strip` -/
def strip (text : List Char) : List Char :=
  (text.dropWhile PyText.isSpace).rdropWhile PyText.isSpace

def maxDirectOidcKidBytes : ℕ := 256

def maxOidcJwksKeys : ℕ := 64

/-- `_valid_direct_oidc_kid`, where `isPrintable` is `str.isprintable` of a character. -/
def validDirectOidcKid (isPrintable : Char → Bool) : Option String → Bool
  | none => false
  | some kid =>
      kid ≠ "" ∧ strip kid.toList = kid.toList ∧
        (kid.toList.all fun c ↦ isPrintable c && !PyText.isSpace c) ∧
          kid.utf8ByteSize ≤ maxDirectOidcKidBytes

/-- `_valid_jwks` -/
def validJwks (isPrintable : Char → Bool) (jwks : Document) : Bool :=
  jwks.entries ≠ [] ∧ jwks.entries.length ≤ maxOidcJwksKeys ∧
    (∀ entry ∈ jwks.entries, entry.isSome) ∧
      (∀ key ∈ jwks.entries.reduceOption, validDirectOidcKid isPrintable key.kid) ∧
        (jwks.entries.reduceOption.map Jwk.kid).Nodup

/-- `_find_key` -/
def findKey (jwks : Document) (kid : Option String) : Option Jwk :=
  if kid = none ∨ kid = some "" then none
  else
    match jwks.entries.reduceOption.filter fun key ↦ key.kid = kid with
    | [key] => some key
    | _ => none

structure Config where
  isPrintable : Char → Bool
  issuer : String
  /-- The configured lifetime, where it is a number. -/
  jwksCacheTtl : Option ℚ

def maxJwksCacheTtlSeconds : ℚ := 3600

def unknownKidRefreshIntervalSeconds : ℚ := 30

/-- `_jwks_cache_ttl` -/
def Config.ttl (cfg : Config) : ℚ :=
  match cfg.jwksCacheTtl with
  | none => 0
  | some ttl => max 0 (min ttl maxJwksCacheTtlSeconds)

/-- The state of the service and the clock.  No operation reads the last four fields: what the
issuer answered, what was installed and when, when a fetch for an unknown key id started, and
which thread selected which key and when. -/
structure World where
  now : ℚ
  jwksCache : Document
  jwksCacheIssuer : Option String
  jwksFetchedAt : ℚ
  jwksGeneration : ℕ
  jwksLastUnknownRefreshAt : Option ℚ
  refreshLock : Option ℕ
  fetched : List Document
  installs : List (Document × ℚ)
  unknownFetches : List ℚ
  selections : List (ℕ × Jwk × ℚ)

/-- What is known of a token before its key is looked up. -/
structure Token where
  /-- The configured audience, the encoding, the header and its algorithm are in order. -/
  admissible : Bool
  kid : Option String
  deriving DecidableEq

/-- How a section of the program goes on. -/
inductive Next where
  | rejected
  | selected (key : Jwk)
  | unknown (observedGeneration : ℕ)
  | expired
  | fetch
  deriving DecidableEq

namespace World

variable (cfg : Config) (i : ℕ) (w : World)

/-- `_fresh_jwks` -/
def freshJwks : Option Document :=
  if w.jwksCacheIssuer = some cfg.issuer ∧ 0 < cfg.ttl ∧ validJwks cfg.isPrintable w.jwksCache ∧
      0 ≤ w.now - w.jwksFetchedAt ∧ w.now - w.jwksFetchedAt < cfg.ttl then some w.jwksCache
  else none

/-- `_install_jwks` -/
def installJwks (jwks : Document) : World :=
  { w with
    jwksCache := jwks
    jwksCacheIssuer := some cfg.issuer
    jwksFetchedAt := w.now
    jwksGeneration := w.jwksGeneration + 1
    installs := (jwks, w.now) :: w.installs }

/-- `_clear_jwks_cache` -/
def clearJwksCache : World :=
  { w with
    jwksGeneration :=
      if w.jwksCache ≠ .other ∨ w.jwksCacheIssuer ≠ none then w.jwksGeneration + 1
      else w.jwksGeneration
    jwksCache := .other
    jwksCacheIssuer := none
    jwksFetchedAt := 0 }

def unlock : World := { w with refreshLock := none }

/-- The key is looked up in the set that `_get_jwks` has returned. -/
def lookUp (jwks : Document) (kid : Option String) : Next × World :=
  match findKey jwks kid with
  | some key => (.selected key, { w with selections := (i, key, w.now) :: w.selections })
  | none => (.unknown w.jwksGeneration, w)

/-- The key is looked up in the set that `_refresh_jwks_for_unknown_kid` has returned. -/
def lookUpAgain (jwks : Document) (kid : Option String) : Next × World :=
  match findKey jwks kid with
  | some key => (.selected key, { w with selections := (i, key, w.now) :: w.selections })
  | none => (.rejected, w)

/-- A call up to its first await. -/
def beginCall (token : Token) : Next × World :=
  if ¬ token.admissible ∨ ¬ validDirectOidcKid cfg.isPrintable token.kid then (.rejected, w)
  else
    match w.freshJwks cfg with
    | some cached => w.lookUp i cached token.kid
    | none => (.expired, w)

/-- `_get_jwks` with the lock, up to its fetch. -/
def recheck (kid : Option String) : Next × World :=
  match w.freshJwks cfg with
  | some cached => w.unlock.lookUp i cached kid
  | none => (.fetch, w.clearJwksCache)

/-- `_get_jwks` after its fetch. -/
def settle (kid : Option String) (answer : Option Document) : Next × World :=
  match answer with
  | none => (.rejected, w.unlock)
  | some jwks => (w.installJwks cfg jwks).unlock.lookUp i jwks kid

/-- `_refresh_jwks_for_unknown_kid` with the lock, up to its fetch. -/
def inspect (kid : Option String) (observedGeneration : ℕ) : Next × World :=
  match w.freshJwks cfg with
  | none => (.rejected, w.unlock)
  | some cached =>
      if (findKey cached kid).isSome then w.unlock.lookUpAgain i cached kid
      else if w.jwksGeneration ≠ observedGeneration then w.unlock.lookUpAgain i cached kid
      else if ∃ last ∈ w.jwksLastUnknownRefreshAt, w.now - last < 0 ∨
          w.now - last < unknownKidRefreshIntervalSeconds then w.unlock.lookUpAgain i cached kid
      else
        (.fetch,
          { w with
            jwksLastUnknownRefreshAt := some w.now
            unknownFetches := w.now :: w.unknownFetches })

/-- `_refresh_jwks_for_unknown_kid` after its fetch. -/
def settleUnknown (kid : Option String) (answer : Option Document) : Next × World :=
  match answer with
  | none => (.rejected, w.unlock)
  | some jwks => (w.installJwks cfg jwks).unlock.lookUpAgain i jwks kid

end World

inductive Op where
  | beginCall (token : Token)
  | acquire
  | recheck (kid : Option String)
  | fetchJwks
  | settle (kid : Option String) (answer : Option Document)
  | inspect (kid : Option String) (observedGeneration : ℕ)
  | settleUnknown (kid : Option String) (answer : Option Document)

abbrev Ret : Op → Type
  | .acquire => Unit
  | .fetchJwks => Option Document
  | _ => Next

/-- One operation of program `i`; a fetch may fail or answer with anything. -/
inductive Exec (cfg : Config) (i : ℕ) (w : World) : (o : Op) → Ret o → World → Prop
  | beginCall (token : Token) :
      Exec cfg i w (.beginCall token) (w.beginCall cfg i token).1 (w.beginCall cfg i token).2
  | acquire (hfree : w.refreshLock = none) :
      Exec cfg i w .acquire () { w with refreshLock := some i }
  | recheck (kid : Option String) :
      Exec cfg i w (.recheck kid) (w.recheck cfg i kid).1 (w.recheck cfg i kid).2
  | fetched (jwks : Document) :
      Exec cfg i w .fetchJwks (some jwks) { w with fetched := jwks :: w.fetched }
  | failed : Exec cfg i w .fetchJwks none w
  | settle (kid : Option String) (answer : Option Document) :
      Exec cfg i w (.settle kid answer) (w.settle cfg i kid answer).1 (w.settle cfg i kid answer).2
  | inspect (kid : Option String) (observedGeneration : ℕ) :
      Exec cfg i w (.inspect kid observedGeneration) (w.inspect cfg i kid observedGeneration).1
        (w.inspect cfg i kid observedGeneration).2
  | settleUnknown (kid : Option String) (answer : Option Document) :
      Exec cfg i w (.settleUnknown kid answer) (w.settleUnknown cfg i kid answer).1
        (w.settleUnknown cfg i kid answer).2

abbrev Program := Prog Op Ret

/-- `_fetch_valid_jwks` -/
def fetchValidJwks (cfg : Config) : Program (Option Document) := do
  let answer ← Prog.op Op.fetchJwks
  pure (answer.filter (validJwks cfg.isPrintable))

/-- The key of a call, if it selects one. -/
def refreshJwksForUnknownKid (cfg : Config) (kid : Option String) (observedGeneration : ℕ) :
    Program (Option Jwk) := do
  Prog.op Op.acquire
  match ← Prog.op (Op.inspect kid observedGeneration) with
  | .selected key => pure (some key)
  | .fetch => do
      let answer ← fetchValidJwks cfg
      match ← Prog.op (Op.settleUnknown kid answer) with
      | .selected key => pure (some key)
      | _ => pure none
  | _ => pure none

/-- A set that has been looked at. -/
def lookedUp (cfg : Config) (kid : Option String) : Next → Program (Option Jwk)
  | .selected key => pure (some key)
  | .unknown observedGeneration => refreshJwksForUnknownKid cfg kid observedGeneration
  | _ => pure none

/-- `_get_jwks` from its lock on. -/
def getJwks (cfg : Config) (kid : Option String) : Program (Option Jwk) := do
  Prog.op Op.acquire
  match ← Prog.op (Op.recheck kid) with
  | .fetch => do
      let answer ← fetchValidJwks cfg
      let next ← Prog.op (Op.settle kid answer)
      lookedUp cfg kid next
  | next => lookedUp cfg kid next

/-- `_validate_direct_oidc_claims` as far as the key that it verifies with. -/
def validateDirectOidcClaims (cfg : Config) (token : Token) : Program (Option Jwk) := do
  match ← Prog.op (Op.beginCall token) with
  | .expired => getJwks cfg token.kid
  | next => lookedUp cfg token.kid next

def service (cfg : Config) : Service Op Ret World Token (Option Jwk) where
  machine :=
    { exec := fun i o w r w' ↦ Exec cfg i w o r w'
      env := fun w w' ↦ ∃ now, w.now ≤ now ∧ w' = { w with now := now } }
  body := validateDirectOidcClaims cfg
  admits _ _ := True

def start (now : ℚ) : World where
  now := now
  jwksCache := .other
  jwksCacheIssuer := none
  jwksFetchedAt := 0
  jwksGeneration := 0
  jwksLastUnknownRefreshAt := none
  refreshLock := none
  fetched := []
  installs := []
  unknownFetches := []
  selections := []

end Oidc
