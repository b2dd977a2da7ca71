import AxonGateway.Lib.PyText

/-!
# Hierarchical policies

The policy nodes of one namespace, the walk from a node to its root, the merge
of the limits found on the way, and the checked write of a node.  A node names
its parent by id; nothing forces the parent to exist or the links to end.
-/

namespace AxonGateway.Policy

/-- The limits of a node, `none` where the node does not set one. -/
structure Limits where
  rateLimitRpm : Option ℚ := none
  budgetLimit : Option ℚ := none
  maxTokensPerRequest : Option ℚ := none
  allowedModels : Option (List String) := none
  allowedProviders : Option (List String) := none
  piiRedactionEnabled : Bool := false
  piiRedactTypes : Option (List String) := none
  piiReinject : Option Bool := none
  piiNerEnabled : Bool := false
  piiNerTypes : Option (List String) := none
  deriving DecidableEq, Repr

/-- A node of the policy tree. -/
structure PolicyNode where
  nodeId : String
  parentId : Option String := none
  limits : Limits := {}
  deriving DecidableEq, Repr

/-- The effective policy after the walk. -/
structure ResolvedPolicy where
  rateLimitRpm : Option ℚ := none
  budgetLimit : Option ℚ := none
  allowedModels : Option (List String) := none
  maxTokensPerRequest : Option ℚ := none
  allowedProviders : Option (List String) := none
  piiRedactionEnabled : Bool := false
  piiRedactTypes : Option (List String) := none
  piiReinject : Bool := true
  piiNerEnabled : Bool := false
  piiNerTypes : Option (List String) := none
  deriving DecidableEq, Repr

/-- The nodes of one namespace by their ids. -/
abbrev Nodes := AList fun _ : String ↦ PolicyNode

/-! ## Resolution -/

/-- The pattern of every limit: an unset limit changes nothing, the first set
one is taken over and a later one is combined with what is there. -/
def mergeWith {α : Type} (combine : α → α → α) : Option α → Option α → Option α
  | current, none => current
  | none, some x => some x
  | some c, some x => some (combine c x)

/-- The members of the first list that occur in the second. -/
def intersection (current node : List String) : List String :=
  current.filter fun m ↦ decide (m ∈ node)

/-- `sorted(set(current) | set(node))`. -/
def sortedUnion (current node : List String) : List String :=
  (current ++ node).dedup.mergeSort fun a b ↦ decide (a ≤ b)

/-- Merge the limits of a node into the current policy. -/
def merge (current : ResolvedPolicy) (node : PolicyNode) : ResolvedPolicy where
  rateLimitRpm := mergeWith min current.rateLimitRpm node.limits.rateLimitRpm
  budgetLimit := mergeWith min current.budgetLimit node.limits.budgetLimit
  maxTokensPerRequest :=
    mergeWith min current.maxTokensPerRequest node.limits.maxTokensPerRequest
  allowedModels := mergeWith intersection current.allowedModels node.limits.allowedModels
  allowedProviders :=
    mergeWith intersection current.allowedProviders node.limits.allowedProviders
  piiRedactionEnabled := current.piiRedactionEnabled || node.limits.piiRedactionEnabled
  piiRedactTypes := mergeWith sortedUnion current.piiRedactTypes node.limits.piiRedactTypes
  piiReinject := current.piiReinject && node.limits.piiReinject != some false
  piiNerEnabled := current.piiNerEnabled || node.limits.piiNerEnabled
  piiNerTypes := mergeWith sortedUnion current.piiNerTypes node.limits.piiNerTypes

/-- Merge the limits top-down, root first. -/
def resolveAncestry (ancestry : List PolicyNode) : ResolvedPolicy := ancestry.foldl merge {}

/-- Where the walk starts: at the node of the environment when there is one. -/
def entryId (nodes : Nodes) (nodeId : String) (environment : Option String) : String :=
  match environment with
  | none => nodeId
  | some e => if e ≠ "" ∧ nodeId ++ ":" ++ e ∈ nodes then nodeId ++ ":" ++ e else nodeId

/-- The loop of the walk: leaf first, stopping at a missing id, an unknown id or
one that was visited before. -/
def walkFrom (nodes : Nodes) (visited : List String) : Option String → List PolicyNode
  | none => []
  | some current =>
      if current = "" ∨ current ∈ visited then [] else
        match _hnode : nodes.lookup current with
        | none => []
        | some node => node :: walkFrom nodes (current :: visited) node.parentId
termination_by (nodes.keys.filter fun id ↦ decide (id ∉ visited)).length
decreasing_by
  have hkey : current ∈ nodes.keys := by
    rw [← AList.mem_keys, ← AList.lookup_isSome, _hnode]
    rfl
  have hsplit : nodes.keys.filter (fun id ↦ decide (id ∉ current :: visited)) =
      (nodes.keys.filter fun id ↦ decide (id ∉ visited)).filter fun id ↦ decide (id ≠ current) := by
    rw [List.filter_filter]
    exact List.filter_congr fun id _ ↦ by simp
  rw [hsplit]
  refine List.length_filter_lt_length_iff_exists.mpr ⟨current, ?_, by simp⟩
  exact List.mem_filter.mpr ⟨hkey, by simp_all⟩

/-- The path from the root to the node or to its environment, root first. -/
def ancestryFromNodes (nodes : Nodes) (nodeId : String) (environment : Option String) :
    List PolicyNode :=
  (walkFrom nodes [] (some (entryId nodes nodeId environment))).reverse

/-- The project's own rate limit on top of the hierarchy. -/
def withProjectRateLimit (policy : ResolvedPolicy) (projectRateLimit : Option ℚ) :
    ResolvedPolicy :=
  { policy with rateLimitRpm := mergeWith min policy.rateLimitRpm projectRateLimit }

/-- The effective policy of a node, in an environment if one is given. -/
def resolve (nodes : Nodes) (projectId : String) (environment : Option String)
    (projectRateLimit : Option ℚ) : ResolvedPolicy :=
  withProjectRateLimit (resolveAncestry (ancestryFromNodes nodes projectId environment))
    projectRateLimit

/-! ## Writes -/

/-- The numeric limits that a write compares with those of the parent. -/
inductive NumericField where
  | rateLimitRpm
  | budgetLimit
  | maxTokensPerRequest
  deriving DecidableEq, Repr

def NumericField.get : NumericField → Limits → Option ℚ
  | rateLimitRpm, limits => limits.rateLimitRpm
  | budgetLimit, limits => limits.budgetLimit
  | maxTokensPerRequest, limits => limits.maxTokensPerRequest

/-- The fields in the order in which they are checked. -/
def NumericField.all : List NumericField := [rateLimitRpm, budgetLimit, maxTokensPerRequest]

theorem NumericField.mem_all (field : NumericField) : field ∈ all := by
  cases field <;> decide

/-- A limit of a node that exceeds the one of its parent. -/
inductive Violation where
  | exceedsParentLimit (field : NumericField) (nodeVal parentVal : ℚ)
  | notInParentModels (extra : List String)
  deriving DecidableEq, Repr

/-- The check of one numeric limit. -/
def numericViolation (node parent : Limits) (field : NumericField) : Option Violation :=
  match field.get parent, field.get node with
  | some parentVal, some nodeVal =>
      if nodeVal > parentVal then some (.exceedsParentLimit field nodeVal parentVal) else none
  | _, _ => none

/-- The check of the model list. -/
def modelsViolation (node parent : Limits) : Option Violation :=
  match parent.allowedModels, node.allowedModels with
  | some parentModels, some nodeModels =>
      let extra := nodeModels.filter fun m ↦ decide (m ∉ parentModels)
      if extra ≠ [] then some (.notInParentModels extra) else none
  | _, _ => none

/-- Check a node against the parent that is stored for it. -/
def validateNodeLimitsAgainstNodes (node : PolicyNode) (nodes : Nodes) : List Violation :=
  match node.parentId with
  | none => []
  | some parentId =>
      match nodes.lookup parentId with
      | none => []
      | some parent =>
          NumericField.all.filterMap (numericViolation node.limits parent.limits) ++
            (modelsViolation node.limits parent.limits).toList

/-- The answer of the durable store to a write. -/
inductive SaveOutcome where
  | saved (revision : ℤ)
  | conflict
  | failed
  deriving DecidableEq, Repr

inductive SetNodeError where
  | invalidTenant
  | exceedsParentLimits (nodeId : String) (violations : List Violation)
  | writeConflict
  | saveFailed
  | storeUnavailable (message : String)
  deriving DecidableEq, Repr

/-- The nodes of one namespace and the revision of the whole hierarchy. -/
structure Namespace where
  nodes : Nodes
  revision : ℕ

def Namespace.empty : Namespace := ⟨∅, 0⟩

/-- Create or update a node.  The namespace without tenant has no revisions; in
a tenant's namespace the store must have moved to the next revision. -/
def setNode (ns : Namespace) (tenantId : Option String) (node : PolicyNode)
    (createOnly : Option Bool) (outcome : SaveOutcome) : Except SetNodeError Namespace :=
  if tenantId.any PyText.isBlank then .error .invalidTenant else
  match validateNodeLimitsAgainstNodes node ns.nodes with
  | v :: vs => .error (.exceedsParentLimits node.nodeId (v :: vs))
  | [] =>
      match tenantId with
      | none =>
          match outcome with
          | .saved _ => .ok ⟨ns.nodes.insert node.nodeId node, 0⟩
          | _ => .error .saveFailed
      | some _ =>
          if createOnly = some (decide (node.nodeId ∈ ns.nodes)) then .error .writeConflict else
          match outcome with
          | .conflict => .error .writeConflict
          | .failed => .error (.storeUnavailable "Tenant policy persistence is unavailable")
          | .saved revision =>
              if revision < 0 then
                .error (.storeUnavailable "Tenant policy update was not persisted")
              else if revision ≠ ns.revision + 1 then
                .error (.storeUnavailable "Tenant policy update returned an invalid revision")
              else .ok ⟨ns.nodes.insert node.nodeId node, ns.revision + 1⟩

end AxonGateway.Policy
