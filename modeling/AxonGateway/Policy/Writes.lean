import AxonGateway.Policy.Model

/-!
# What checked writes keep

A write compares the new limits with those of the parent that is stored at that
moment.  It keeps the tree conforming exactly when the limits also conform with
the children that are already stored, which nothing checks.
-/

namespace AxonGateway.Policy

variable {nodes : Nodes} {node parent : PolicyNode}

/-- The limits of a node do not exceed those of its parent where both are set. -/
structure Conforms (node parent : Limits) : Prop where
  numeric : ∀ (field : NumericField) (u v : ℚ),
    field.get node = some u → field.get parent = some v → u ≤ v
  models : ∀ us vs, node.allowedModels = some us → parent.allowedModels = some vs → us ⊆ vs

theorem numericViolation_eq_none_iff {l p : Limits} {field : NumericField} :
    numericViolation l p field = none ↔
      ∀ u v, field.get l = some u → field.get p = some v → u ≤ v := by
  cases hp : field.get p with
  | none => simp [numericViolation, hp]
  | some v =>
      cases hl : field.get l with
      | none => simp [numericViolation, hp, hl]
      | some u => simp [numericViolation, hp, hl]

theorem modelsViolation_eq_none_iff {l p : Limits} :
    modelsViolation l p = none ↔
      ∀ us vs, l.allowedModels = some us → p.allowedModels = some vs → us ⊆ vs := by
  cases hp : p.allowedModels with
  | none => simp [modelsViolation, hp]
  | some vs =>
      cases hl : l.allowedModels with
      | none => simp [modelsViolation, hp, hl]
      | some us => simp [modelsViolation, hp, hl, List.filter_eq_nil_iff, List.subset_def]

/-- The check passes exactly when the node conforms with its stored parent. -/
theorem validate_eq_nil_iff :
    validateNodeLimitsAgainstNodes node nodes = [] ↔
      ∀ parentId parent, node.parentId = some parentId → nodes.lookup parentId = some parent →
        Conforms node.limits parent.limits := by
  cases hid : node.parentId with
  | none => simp [validateNodeLimitsAgainstNodes, hid]
  | some parentId =>
      cases hparent : nodes.lookup parentId with
      | none =>
          simp only [validateNodeLimitsAgainstNodes, hid, hparent, true_iff]
          rintro _ parent ⟨⟩ hstored
          rw [hparent] at hstored
          cases hstored
      | some parent =>
          simp only [validateNodeLimitsAgainstNodes, hid, hparent, List.append_eq_nil_iff,
            List.filterMap_eq_nil_iff, Option.toList_eq_nil_iff, numericViolation_eq_none_iff,
            modelsViolation_eq_none_iff, Option.some.injEq]
          constructor
          · rintro ⟨hnumeric, hmodels⟩ _ _ rfl rfl'
            obtain rfl := Option.some.inj (hparent.symm.trans rfl')
            exact ⟨fun field u v ↦ hnumeric field field.mem_all u v, hmodels⟩
          · intro h
            have hc := h parentId parent rfl hparent
            exact ⟨fun field _ u v ↦ hc.numeric field u v, hc.models⟩

/-! ## One write -/

/-- A successful write stores the node, which conforms with its stored parent. -/
theorem setNode_ok {ns ns' : Namespace} {tenantId : Option String} {createOnly : Option Bool}
    {outcome : SaveOutcome} (h : setNode ns tenantId node createOnly outcome = .ok ns') :
    validateNodeLimitsAgainstNodes node ns.nodes = [] ∧
      ns'.nodes = ns.nodes.insert node.nodeId node := by
  unfold setNode at h
  split at h
  · cases h
  split at h
  · cases h
  next hvalid =>
    refine ⟨hvalid, ?_⟩
    split at h
    · split at h
      · cases h
        rfl
      · cases h
    · split at h
      · cases h
      · split at h
        · cases h
        · cases h
        · split_ifs at h
          cases h
          rfl

/-- Every stored node conforms with its parent when that is stored. -/
def Conforming (nodes : Nodes) : Prop :=
  ∀ id node parentId parent, nodes.lookup id = some node → node.parentId = some parentId →
    nodes.lookup parentId = some parent → Conforms node.limits parent.limits

/-- The other stored children of a node conform with the limits that it has now. -/
def ChildrenConform (nodes : Nodes) (node : PolicyNode) : Prop :=
  ∀ id child, nodes.lookup id = some child → id ≠ node.nodeId →
    child.parentId = some node.nodeId → Conforms child.limits node.limits

theorem Conforms.refl (l : Limits) : Conforms l l := by
  refine ⟨fun field u v hu hv ↦ ?_, fun us vs hus hvs ↦ ?_⟩
  · exact (Option.some.inj (hu.symm.trans hv)).le
  · rw [Option.some.inj (hus.symm.trans hvs)]
    exact List.Subset.refl vs

/-- The step lemma: a validated write keeps a conforming tree conforming exactly
when the children of the node conform with its new limits. -/
theorem conforming_insert_iff (hold : Conforming nodes)
    (hvalid : validateNodeLimitsAgainstNodes node nodes = []) :
    Conforming (nodes.insert node.nodeId node) ↔ ChildrenConform nodes node := by
  constructor
  · intro h id child hchild hne hparent
    refine h id child node.nodeId node ?_ hparent (AList.lookup_insert nodes)
    rwa [AList.lookup_insert_ne hne]
  · intro hchildren id child parentId parent hchild hid hparent
    rcases eq_or_ne id node.nodeId with rfl | hne
    · obtain rfl : node = child := by simpa using hchild
      rcases eq_or_ne parentId node.nodeId with rfl | hpne
      · obtain rfl : node = parent := by simpa using hparent
        exact Conforms.refl _
      · rw [AList.lookup_insert_ne hpne] at hparent
        exact validate_eq_nil_iff.mp hvalid parentId parent hid hparent
    · rw [AList.lookup_insert_ne hne] at hchild
      rcases eq_or_ne parentId node.nodeId with rfl | hpne
      · obtain rfl : node = parent := by simpa using hparent
        exact hchildren id child hchild hne hid
      · rw [AList.lookup_insert_ne hpne] at hparent
        exact hold id child parentId parent hchild hid hparent

/-! ## Runs of writes -/

/-- Successful writes from the empty namespace.  The list holds, the newest
first, each written node with the namespace that the write met. -/
inductive Run (tenantId : Option String) : List (Namespace × PolicyNode) → Namespace → Prop
  | empty : Run tenantId [] Namespace.empty
  | set (writes : List (Namespace × PolicyNode)) (ns ns' : Namespace) (node : PolicyNode)
      (createOnly : Option Bool) (outcome : SaveOutcome) (hrun : Run tenantId writes ns)
      (hset : setNode ns tenantId node createOnly outcome = .ok ns') :
      Run tenantId ((ns, node) :: writes) ns'

/-- The run lemma: the tree conforms in every state of a run exactly when every
write of the run found the children of its node conforming. -/
theorem conforming_run_iff {tenantId : Option String} {writes : List (Namespace × PolicyNode)}
    {ns : Namespace} (hrun : Run tenantId writes ns) :
    (Conforming ns.nodes ∧ ∀ w ∈ writes, Conforming w.1.nodes) ↔
      ∀ w ∈ writes, ChildrenConform w.1.nodes w.2 := by
  induction hrun with
  | empty => simp [Conforming, Namespace.empty]
  | set writes ns ns' node createOnly outcome hrun hset ih =>
      obtain ⟨hvalid, hnodes⟩ := setNode_ok hset
      rw [List.forall_mem_cons, List.forall_mem_cons, hnodes, ← ih]
      constructor
      · rintro ⟨hnew, hold, hprev⟩
        exact ⟨(conforming_insert_iff hold hvalid).mp hnew, hold, hprev⟩
      · rintro ⟨hchildren, hold, hprev⟩
        exact ⟨(conforming_insert_iff hold hvalid).mpr hchildren, hold, hprev⟩

/-- An organisation with one project below it. -/
def orgWithProject : Namespace where
  nodes := ((∅ : Nodes).insert "org" { nodeId := "org", limits := { budgetLimit := some 100 } }).insert
    "p" { nodeId := "p", parentId := some "org", limits := { budgetLimit := some 50 } }
  revision := 0

/-- The writes of `orgWithProject`. -/
def orgWithProjectWrites : List (Namespace × PolicyNode) :=
  [(⟨(∅ : Nodes).insert "org" { nodeId := "org", limits := { budgetLimit := some 100 } }, 0⟩,
      { nodeId := "p", parentId := some "org", limits := { budgetLimit := some 50 } }),
    (Namespace.empty, { nodeId := "org", limits := { budgetLimit := some 100 } })]

theorem run_orgWithProject : Run none orgWithProjectWrites orgWithProject :=
  .set _ _ _ _ none (.saved 0) (.set _ _ _ _ none (.saved 0) .empty rfl) rfl

theorem conforming_orgWithProject_iff :
    (Conforming orgWithProject.nodes ∧ ∀ w ∈ orgWithProjectWrites, Conforming w.1.nodes) ↔
      ∀ w ∈ orgWithProjectWrites, ChildrenConform w.1.nodes w.2 :=
  conforming_run_iff run_orgWithProject

/-- The organisation after its budget was cut to 10. -/
def cutOrg : PolicyNode := { nodeId := "org", limits := { budgetLimit := some 10 } }

/-- The cut is accepted although the project below keeps a budget of 50. -/
theorem not_conforming_cutOrg :
    Run none ((orgWithProject, cutOrg) :: orgWithProjectWrites)
        ⟨orgWithProject.nodes.insert "org" cutOrg, 0⟩ ∧
      ¬ Conforming (orgWithProject.nodes.insert "org" cutOrg) := by
  refine ⟨.set _ _ _ _ none (.saved 0) run_orgWithProject rfl, fun h ↦ ?_⟩
  have hc := h "p" { nodeId := "p", parentId := some "org", limits := { budgetLimit := some 50 } }
    "org" cutOrg (by decide +kernel) rfl (by decide +kernel)
  have hle := hc.numeric .budgetLimit 50 10 rfl rfl
  norm_num at hle

end AxonGateway.Policy
