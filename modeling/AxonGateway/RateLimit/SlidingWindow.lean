import AxonGateway.Lib.Binary64
import AxonGateway.Lib.Netstring
import AxonGateway.Lib.PyText
import AxonGateway.Lib.TimeWindow

/-!
# The local sliding window rate limiter

A check names a user, a project and perhaps a tenant.  It prunes one bucket of
time stamps for the user and one for the project, and adds its own time to both
when both have room.  Times are in microseconds.
-/

namespace AxonGateway.RateLimit

structure RateLimitConfig where
  userRpm : ℤ := 60
  projectRpm : ℤ := 600
  windowSeconds : ℤ := 60

structure Project where
  projectId : String
  tenantId : Option String
  rateLimitRpm : Option ℤ

structure RateLimitResult where
  allowed : Bool
  limit : ℤ
  remaining : ℤ
  resetAt : ℤ
  retryAfterSeconds : Option ℤ := none
  deriving DecidableEq

def normalizeTenantId : Option String → Except String (Option String)
  | none => pure none
  | some tenantId =>
      if PyText.isBlank tenantId then throw "tenant_id must be None or a non-empty string"
      else pure (some tenantId)

/-- A key that tells tenants apart.  Without tenant it is the raw id. -/
def tenantScopedId (tenantId : Option String) (resourceType resourceId : String) : String :=
  match tenantId with
  | none => resourceId
  | some tenantId =>
      "tenant:" ++ Netstring.frame tenantId ++ ":" ++ resourceType ++ ":" ++
        Netstring.frame resourceId

def projectScope (tenantId : Option String) (projectId : String) (project : Option Project) :
    Except String (Option String × Option ℤ) := do
  let tenantId ← normalizeTenantId tenantId
  match project with
  | none => pure (tenantId, none)
  | some project =>
      if project.projectId ≠ projectId then throw "project does not match project_id"
      let projectTenantId ← normalizeTenantId project.tenantId
      match tenantId with
      | none => pure (projectTenantId, project.rateLimitRpm)
      | some tenant =>
          if projectTenantId ≠ some tenant then
            throw "project tenant_id does not match tenant_id"
          pure (some tenant, project.rateLimitRpm)

/-- The arguments of a check and the clock it reads. -/
structure Check where
  userId : String
  projectId : String
  tenantId : Option String := none
  project : Option Project := none
  now : ℤ

/-- An id within a tenant, or within the namespace without tenant. -/
structure Identity where
  tenantId : Option String
  id : String
  deriving DecidableEq

/-- A check whose tenant and limit are settled. -/
structure Request where
  user : Identity
  project : Identity
  projectLimit : ℤ
  now : ℤ
  deriving DecidableEq

namespace Request

def userKey (r : Request) : String := tenantScopedId r.user.tenantId "user" r.user.id

def projectKey (r : Request) : String := tenantScopedId r.project.tenantId "project" r.project.id

end Request

/-- What a check does before it looks at a bucket. -/
def Check.resolve (c : Check) (config : RateLimitConfig) : Except String Request := do
  let (tenantId, canonicalProjectLimit) ← projectScope c.tenantId c.projectId c.project
  pure {
    user := ⟨tenantId, c.userId⟩
    project := ⟨tenantId, c.projectId⟩
    projectLimit := canonicalProjectLimit.getD config.projectRpm
    now := c.now }

structure SlidingWindowRateLimiter where
  config : RateLimitConfig
  userRequests : String → List ℤ := fun _ ↦ []
  projectRequests : String → List ℤ := fun _ ↦ []

namespace SlidingWindowRateLimiter

def window (config : RateLimitConfig) : ℤ := config.windowSeconds * 1000000

def cleanup (timestamps : List ℤ) (cutoff : ℤ) : List ℤ := TimeWindow.after cutoff timestamps

/-- `int(timedelta.total_seconds() + 0.999)` of a positive time. -/
def ceilSeconds (micros : ℤ) : ℤ :=
  ⌊Binary64.round (Binary64.round (micros / 1000000) + Binary64.round (999 / 1000))⌋

/-- The part of a check under the locks of its two buckets. -/
def admitRequest (s : SlidingWindowRateLimiter) (r : Request) :
    RateLimitResult × SlidingWindowRateLimiter :=
  let window := window s.config
  let cutoff := r.now - window
  let userTs := cleanup (s.userRequests r.userKey) cutoff
  let userCount : ℤ := userTs.length
  let projectTs := cleanup (s.projectRequests r.projectKey) cutoff
  let projectCount : ℤ := projectTs.length
  let userExceeded := s.config.userRpm ≤ userCount
  let projectExceeded := r.projectLimit ≤ projectCount
  let allowed := decide (¬ userExceeded ∧ ¬ projectExceeded)
  let recorded : List ℤ := if allowed then [r.now] else []
  let userRemaining := max 0 (s.config.userRpm - (userCount + recorded.length))
  let projectRemaining := max 0 (r.projectLimit - (projectCount + recorded.length))
  let oldestUser := userTs.headD r.now
  let oldestProject := projectTs.headD r.now
  let candidates := (if userExceeded then userTs.take 1 else []) ++
    (if projectExceeded then projectTs.take 1 else [])
  ({ allowed := allowed
     limit := if userRemaining ≤ projectRemaining then s.config.userRpm else r.projectLimit
     remaining := min userRemaining projectRemaining
     resetAt := min oldestUser oldestProject + window
     retryAfterSeconds := if allowed then none else
       candidates.min?.map fun earliest ↦ max 1 (ceilSeconds (earliest + window - r.now)) },
   { s with
     userRequests := Function.update s.userRequests r.userKey (userTs ++ recorded)
     projectRequests := Function.update s.projectRequests r.projectKey (projectTs ++ recorded) })

def checkRateLimit (s : SlidingWindowRateLimiter) (c : Check) :
    Except String RateLimitResult × SlidingWindowRateLimiter :=
  match c.resolve s.config with
  | .error e => (.error e, s)
  | .ok r => (.ok (s.admitRequest r).1, (s.admitRequest r).2)

/-- The request a check stands for and whether it is admitted, for a check that
gets an answer at all. -/
def decision (s : SlidingWindowRateLimiter) (c : Check) : List (Request × Bool) :=
  match c.resolve s.config, (s.checkRateLimit c).1 with
  | .ok r, .ok result => [(r, result.allowed)]
  | _, _ => []

/-- The limiter after some checks, one after the other, and the decisions so far. -/
def run (config : RateLimitConfig) (cs : List Check) :
    SlidingWindowRateLimiter × List (Request × Bool) :=
  cs.foldl (fun p c ↦ ((p.1.checkRateLimit c).2, p.2 ++ p.1.decision c)) ({ config }, [])

end SlidingWindowRateLimiter

end AxonGateway.RateLimit
