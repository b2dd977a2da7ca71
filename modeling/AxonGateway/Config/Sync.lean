import AxonGateway.Lib.Dict
import AxonGateway.Policy.Model

/-!
# Refreshing the configuration of an instance

An instance holds projects and user configurations in dictionaries, their limits
in the cost tracker, and one policy node for a project with a budget.  A refresh
adopts what is stored.
-/

namespace AxonGateway.Config

structure Project where
  projectId : String
  tenantId : Option String := none
  budgetLimit : Option ℚ := none
  alertThreshold : Option ℚ := none
  allowedModels : Option (List String) := none
  rateLimitRpm : Option ℚ := none
  revision : ℕ := 0
  deriving DecidableEq

structure UserConfig where
  allowedModels : Option (List String) := none
  budgetLimit : Option ℚ := none
  alertThreshold : Option ℚ := none
  revision : ℕ := 0
  deriving DecidableEq

/-- The limits that spend is compared with. -/
structure Budget where
  budgetLimit : Option ℚ := none
  alertThreshold : Option ℚ := none
  deriving DecidableEq

inductive ConfigError where
  | emptyId (resourceType : String)
  | emptyTenant
  deriving DecidableEq

/-- A collision-safe key, which is the raw identifier without a tenant. -/
def tenantScopedId (tenantId : Option String) (resourceType resourceId : String) :
    Except ConfigError String :=
  if PyText.isBlank resourceId then .error (.emptyId resourceType)
  else
    match tenantId with
    | none => .ok resourceId
    | some tenantId =>
        if PyText.isBlank tenantId then .error .emptyTenant
        else .ok s!"tenant:{tenantId.length}:{tenantId}:{resourceType}:{resourceId.length}:{resourceId}"

structure CostTracker where
  budgets : Dict String Budget := ∅
  userBudgets : Dict String Budget := ∅

namespace CostTracker

def registerProject (t : CostTracker) (projectId : String) (budget : Budget)
    (tenantId : Option String) : Except ConfigError CostTracker := do
  let scopeId ← tenantScopedId tenantId "project" projectId
  pure { t with budgets := t.budgets.insert scopeId budget }

def registerUser (t : CostTracker) (userId : String) (budget : Budget)
    (tenantId : Option String) : Except ConfigError CostTracker := do
  let scopeId ← tenantScopedId tenantId "user" userId
  pure { t with userBudgets := t.userBudgets.insert scopeId budget }

/-- The limits that a budget check compares with, under a scope id. -/
def projectBudget (t : CostTracker) (scopeId : String) : Budget :=
  (t.budgets.lookup scopeId).getD {}

def userBudget (t : CostTracker) (scopeId : String) : Budget :=
  (t.userBudgets.lookup scopeId).getD {}

end CostTracker

/-- The flat node of a project. -/
def projectNode (projectId : String) (budgetLimit : ℚ) : Policy.PolicyNode where
  nodeId := projectId
  limits := { budgetLimit := some budgetLimit }

def cacheTtlSeconds : ℚ := 300

/-- The policy nodes without a tenant, the resolved policies by project and
environment, and which nodes were created by a refresh and are still the same. -/
structure Resolver where
  nodes : Policy.Nodes := ∅
  cache : Dict (String × String) (Policy.ResolvedPolicy × ℚ) := ∅
  created : List String := []
  lookup_created : ∀ id ∈ created, ∃ limit, nodes.lookup id = some (projectNode id limit) := by simp

namespace Resolver

/-- The effective policy of a project; `environment` is empty where none is asked for. -/
def resolve (r : Resolver) (projectId environment : String) (projectRateLimit : Option ℚ)
    (time : ℚ) : Policy.ResolvedPolicy :=
  let fresh := Policy.resolveAncestry
    (Policy.ancestryFromNodes r.nodes projectId (some environment))
  let policy := match r.cache.lookup (projectId, environment) with
    | some (policy, ts) => if time - ts < cacheTtlSeconds then policy else fresh
    | none => fresh
  Policy.withProjectRateLimit policy projectRateLimit

/-- A node is created only where there is none. -/
def addNode (r : Resolver) (projectId : String) (budgetLimit : ℚ) : Resolver :=
  if hnode : projectId ∈ r.nodes then r
  else { r with
    nodes := r.nodes.insert projectId (projectNode projectId budgetLimit)
    created := projectId :: r.created
    lookup_created := by
      intro id hid
      rcases List.mem_cons.mp hid with rfl | hid
      · exact ⟨budgetLimit, AList.lookup_insert _⟩
      · obtain ⟨limit, hlimit⟩ := r.lookup_created id hid
        refine ⟨limit, ?_⟩
        rw [AList.lookup_insert_ne, hlimit]
        rintro rfl
        exact hnode (Dict.mem_iff_lookup.mpr ⟨_, hlimit⟩) }

theorem addNode_of_mem {r : Resolver} {projectId : String} (h : projectId ∈ r.nodes)
    (budgetLimit : ℚ) : r.addNode projectId budgetLimit = r := dif_pos h

section Add

variable {r : Resolver} {projectId : String} (h : projectId ∉ r.nodes) (budgetLimit : ℚ)
include h

theorem nodes_addNode : (r.addNode projectId budgetLimit).nodes =
    r.nodes.insert projectId (projectNode projectId budgetLimit) := by
  unfold addNode
  rw [dif_neg h]

theorem created_addNode : (r.addNode projectId budgetLimit).created = projectId :: r.created := by
  unfold addNode
  rw [dif_neg h]

theorem cache_addNode : (r.addNode projectId budgetLimit).cache = r.cache := by
  unfold addNode
  rw [dif_neg h]

end Add

end Resolver

structure Instance where
  projects : Dict String Project := ∅
  userConfigs : Dict String UserConfig := ∅
  tracker : CostTracker := {}
  resolver : Option Resolver := none
  knownVersion : Option ℕ := none
  lastVersionCheck : Option ℚ := none
  localGeneration : ℕ := 0

/-- What is stored: tenantless projects and the user configurations. -/
structure Stored where
  projects : Dict String Project
  configs : Dict String UserConfig
  projectId_eq : ∀ id project, projects.lookup id = some project → project.projectId = id
  tenantId_eq : ∀ id project, projects.lookup id = some project → project.tenantId = none

/-- The answers of the version, of both scans (nothing if one of them failed) and of the
version again, and the local generation when they are all there. -/
structure Reads where
  version : Option ℕ
  stored : Option Stored
  confirmedVersion : Option ℕ
  generation : ℕ

namespace Instance

/-- Arm the limits of one project. -/
def registerProject (s : Instance) (project : Project) : Except ConfigError Instance :=
  if project.budgetLimit = none ∧ project.alertThreshold = none then pure s
  else do
    let tracker ← s.tracker.registerProject project.projectId
      ⟨project.budgetLimit, project.alertThreshold⟩ project.tenantId
    let resolver := match project.budgetLimit with
      | some limit => s.resolver.map (·.addNode project.projectId limit)
      | none => s.resolver
    pure { s with tracker := tracker, resolver := resolver }

def registerUser (s : Instance) (userId : String) (config : UserConfig) :
    Except ConfigError Instance := do
  let tracker ← s.tracker.registerUser userId ⟨config.budgetLimit, config.alertThreshold⟩ none
  pure { s with tracker := tracker }

/-- Arm enforcement for what was adopted. -/
def registerBudgets (s : Instance) (stored : Stored) : Except ConfigError Instance := do
  let s ← stored.projects.entries.foldlM (fun s e ↦ s.registerProject e.2) s
  stored.configs.entries.foldlM (fun s e ↦ s.registerUser e.1 e.2) s

/-- Stored entries win, and entries that are not stored survive. -/
def adopt (s : Instance) (stored : Stored) : Instance :=
  { s with
    projects := stored.projects ∪ s.projects
    userConfigs := stored.configs ∪ s.userConfigs }

def refresh (s : Instance) (now : ℚ) (reads : Reads) : Except ConfigError (Bool × Instance) :=
  match reads.version with
  | none => pure (false, s)
  | some version =>
      if s.knownVersion = some version then
        pure (false, { s with lastVersionCheck := some now })
      else
        match reads.stored with
        | none => pure (false, s)
        | some stored =>
            if reads.confirmedVersion ≠ some version then pure (false, s)
            else if reads.generation ≠ s.localGeneration then pure (false, s)
            else do
              let s ← (s.adopt stored).registerBudgets stored
              pure (true, { s with
                knownVersion := some version
                lastVersionCheck := some now })

end Instance

end AxonGateway.Config
