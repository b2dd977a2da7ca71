import AxonGateway.Lib.PyValue
import AxonGateway.Cedar.Service

/-!
# The decision rule of the policy service

The service compiles the policies of each tenant to statements and, apart from them, to the set of
actions that they govern.  Whatever was reloaded for whichever tenants, a decision is the one that
the enforcing statements of the tenant's own policies make, in any order.
-/

namespace Cedar.Decision

open PyValue Service

local instance lawfulAnswers : LawfulBEq (Option (List Char)) := inferInstance

/-! ### The policy sets -/

/-- A policy and the value under its `tenant_id`. -/
structure Policy where
  row : PolicyRow
  tenantId : Value

/-- A tenant, or the policies without one. -/
abbrev Scope := Option Text

/-- `_normalize_tenant_id`; nothing where it raises. -/
def normalizeTenantId : Value → Option Scope
  | .null => some none
  | .str tenant => if tenant.all PyText.isSpace then none else some (some tenant)
  | _ => none

/-- `_policy_tenant_id` -/
def policyTenantId (policy : Policy) : Option Scope := normalizeTenantId policy.tenantId

structure PolicySets where
  statements : List (Statement × PolicyRow)
  governed : List (Option (List Char))
  tenantStatements : List (Text × List (Statement × PolicyRow))
  tenantGoverned : List (Text × List (Option (List Char)))

section Compile

variable (W : WordClass)

/-- One turn of the loop of `_install_compiled_policy_set`. -/
def compilePolicy (compiled : List (Statement × PolicyRow) × List (Option (List Char)))
    (policy : PolicyRow) : List (Statement × PolicyRow) × List (Option (List Char)) :=
  match parsePolicy W policy.policyText with
  | none => compiled
  | some stmt =>
      (compiled.1 ++ [(stmt, policy)],
        if policy.mode ≠ "LOG_ONLY" then compiled.2.insert stmt.action else compiled.2)

/-- `_install_compiled_policy_set` -/
def PolicySets.install (s : PolicySets) (policies : List Policy) (scope : Scope) : PolicySets :=
  let compiled := (policies.map Policy.row).foldl (compilePolicy W) ([], [])
  match scope with
  | none => { s with statements := compiled.1, governed := compiled.2 }
  | some tenant =>
      { s with
        tenantStatements := set s.tenantStatements tenant compiled.1
        tenantGoverned := set s.tenantGoverned tenant compiled.2 }

/-- `_policies_for_scope`; nothing where it raises. -/
def policiesForScope (scope : Scope) (allowUnqualified : Bool) : List Policy → Option (List Policy)
  | [] => some []
  | policy :: rest =>
      (policyTenantId policy).bind fun declared ↦
        match scope with
        | none =>
            (policiesForScope scope allowUnqualified rest).map fun kept ↦
              if declared = none then policy :: kept else kept
        | some tenant =>
            if declared ≠ none ∧ declared ≠ some tenant then none
            else (policiesForScope scope allowUnqualified rest).map fun kept ↦
              if declared = none ∧ !allowUnqualified then kept
              else { policy with tenantId := .str tenant } :: kept

/-- The policies of each tenant, in the order in which the tenants first occur. -/
def tenantPolicies (policies : List Policy) : List (Text × List Policy) :=
  policies.foldl (fun groups policy ↦ match policyTenantId policy with
    | some (some tenant) => set groups tenant ((groups.lookup tenant).getD [] ++ [policy])
    | _ => groups) []

/-- `reload`; nothing where it raises. -/
def PolicySets.reload (s : PolicySets) (policies : List Policy) (tenantId : Value) :
    Option PolicySets :=
  (normalizeTenantId tenantId).bind fun scope ↦
    match scope with
    | some tenant =>
        (policiesForScope (some tenant) true policies).map fun kept ↦
          s.install W kept (some tenant)
    | none =>
        let legacy := policies.filter fun policy ↦ policyTenantId policy = some none
        some ((tenantPolicies policies).foldl (fun s group ↦ s.install W group.2 (some group.1))
          (s.install W legacy none))

end Compile

/-! ### Decisions -/

/-- `_METHOD_TO_ACTION` -/
def methodToAction : List (Text × List Char) :=
  [("get".toList, "read".toList), ("head".toList, "read".toList),
    ("options".toList, "read".toList), ("post".toList, "write".toList),
    ("put".toList, "write".toList), ("patch".toList, "write".toList),
    ("delete".toList, "write".toList)]

/-- `http_method_to_action`; `lower` is `str.lower`. -/
def httpMethodToAction (lower : Text → Text) (method : Text) : List Char :=
  (methodToAction.lookup (lower method)).getD (lower method)

inductive Verdict where
  | allow
  | deny
  deriving DecidableEq

/-- The fields of a request that a decision reads. -/
structure RequestContext where
  fields : Context
  tenantId : Value

def PolicySets.statementsOf (s : PolicySets) : Scope → List (Statement × PolicyRow)
  | none => s.statements
  | some tenant => (s.tenantStatements.lookup tenant).getD []

def PolicySets.governedOf (s : PolicySets) : Scope → List (Option (List Char))
  | none => s.governed
  | some tenant => (s.tenantGoverned.lookup tenant).getD []

/-- `evaluate`, when the scope is fresh. -/
def PolicySets.evaluate (lower : Text → Text) (s : PolicySets) (context : RequestContext)
    (action : Text) : Verdict :=
  match normalizeTenantId context.tenantId with
  | none => .deny
  | some scope =>
      let cedarAction := httpMethodToAction lower action
      match permitted context.fields cedarAction (s.statementsOf scope) false with
      | none => .deny
      | some true => .allow
      | some false =>
          if none ∈ s.governedOf scope ∨ some cedarAction ∈ s.governedOf scope then .deny
          else .allow

/-! ### The rule -/

/-- A statement that some enforcing policy of a list parses to. -/
def Enforces (W : WordClass) (policies : List PolicyRow) (stmt : Statement) : Prop :=
  ∃ row ∈ policies, row.mode ≠ "LOG_ONLY" ∧ parsePolicy W row.policyText = some stmt

/-- A `forbid` matches, or no `permit` matches an action that some statement is about. -/
def Denied (enforced : Statement → Prop) (ctx : Context) (action : List Char) : Prop :=
  (∃ stmt, enforced stmt ∧ stmt.effect = .forbid ∧ stmt.matches ctx action = true) ∨
    (¬ ∃ stmt, enforced stmt ∧ stmt.effect = .permit ∧ stmt.matches ctx action = true) ∧
      ∃ stmt, enforced stmt ∧ (stmt.action = none ∨ stmt.action = some action)

/-- The policies that decide the requests of each scope. -/
abbrev Effective := Scope → List PolicyRow

/-- What a reload makes of them; a tenant that a reload without a tenant does not mention keeps
its policies. -/
def Effective.reload (effective : Effective) (policies : List Policy) : Scope → Effective
  | some tenant => Function.update effective (some tenant) (policies.map Policy.row)
  | none => fun scope ↦
      let own := policies.filter fun policy ↦ policyTenantId policy = some scope
      if scope ≠ none ∧ own = [] then effective scope else own.map Policy.row

/-- The policy sets after some reloads and refreshes, and the policies that were put in. -/
inductive Reached (W : WordClass) : PolicySets → Effective → Prop
  | start : Reached W ⟨[], [], [], []⟩ fun _ ↦ []
  | reload {s s' : PolicySets} {effective : Effective} (h : Reached W s effective)
      (policies : List Policy) (tenantId : Value) (scope : Scope)
      (hscope : normalizeTenantId tenantId = some scope)
      (hreload : s.reload W policies tenantId = some s') :
      Reached W s' (effective.reload policies scope)
  | refresh {s : PolicySets} {effective : Effective} (h : Reached W s effective)
      (merged : List Policy) (scope : Scope) :
      Reached W (s.install W merged scope)
        (Function.update effective scope (merged.map Policy.row))

section Proofs

variable {W : WordClass} {lower : Text → Text}

/-! ### What the loop over the statements finds -/

/-- A statement of an enforcing policy with this effect matches. -/
def Matched (effect : Effect) (statements : List (Statement × PolicyRow)) (ctx : Context)
    (action : List Char) : Prop :=
  ∃ s ∈ statements, s.2.mode ≠ "LOG_ONLY" ∧ s.1.effect = effect ∧ s.1.matches ctx action = true

theorem matched_cons {effect : Effect} {s : Statement × PolicyRow}
    {statements : List (Statement × PolicyRow)} {ctx : Context} {action : List Char} :
    Matched effect (s :: statements) ctx action ↔
      (s.2.mode ≠ "LOG_ONLY" ∧ s.1.effect = effect ∧ s.1.matches ctx action = true) ∨
        Matched effect statements ctx action := by
  simp only [Matched, List.exists_mem_cons_iff]

/-- A `forbid` decides wherever it stands; without one it is told whether a `permit` matched. -/
theorem permitted_spec (ctx : Context) (action : List Char)
    (statements : List (Statement × PolicyRow)) (found : Bool) :
    (permitted ctx action statements found = none ↔ Matched .forbid statements ctx action) ∧
      (permitted ctx action statements found = some true ↔
        ¬ Matched .forbid statements ctx action ∧
          (found = true ∨ Matched .permit statements ctx action)) := by
  induction statements generalizing found with
  | nil => simp [permitted, Matched]
  | cons s statements ih =>
      obtain ⟨stmt, row⟩ := s
      rw [permitted, matched_cons, matched_cons]
      by_cases hskip : ¬ stmt.matches ctx action = true ∨ row.mode = "LOG_ONLY"
      · have hnot : ∀ effect, ¬ (row.mode ≠ "LOG_ONLY" ∧ stmt.effect = effect ∧
            stmt.matches ctx action = true) := by tauto
        rw [if_pos hskip]
        simpa only [hnot, false_or] using ih found
      · obtain ⟨hmatches, hmode⟩ := not_or.mp hskip
        rw [if_neg hskip]
        cases heffect : stmt.effect with
        | forbid => simp [hmode, not_not.mp hmatches]
        | permit => simpa [hmode, not_not.mp hmatches] using ih true

/-! ### What is compiled -/

theorem mem_compile {rows : List PolicyRow} {stmt : Statement} {row : PolicyRow} :
    (stmt, row) ∈ compile W rows ↔ row ∈ rows ∧ parsePolicy W row.policyText = some stmt := by
  simp only [compile, List.mem_filterMap, Option.map_eq_some_iff, Prod.mk.injEq]
  constructor
  · rintro ⟨row, hrow, stmt, hparse, rfl, rfl⟩
    exact ⟨hrow, hparse⟩
  · rintro ⟨hrow, hparse⟩
    exact ⟨row, hrow, stmt, hparse, rfl, rfl⟩

theorem matched_compile {effect : Effect} {rows : List PolicyRow} {ctx : Context}
    {action : List Char} :
    Matched effect (compile W rows) ctx action ↔
      ∃ stmt, Enforces W rows stmt ∧ stmt.effect = effect ∧ stmt.matches ctx action = true := by
  constructor
  · rintro ⟨⟨stmt, row⟩, hmem, hmode, heffect, hmatches⟩
    obtain ⟨hrow, hparse⟩ := mem_compile.mp hmem
    exact ⟨stmt, ⟨row, hrow, hmode, hparse⟩, heffect, hmatches⟩
  · rintro ⟨stmt, ⟨row, hrow, hmode, hparse⟩, heffect, hmatches⟩
    exact ⟨(stmt, row), mem_compile.mpr ⟨hrow, hparse⟩, hmode, heffect, hmatches⟩

/-- The statements and the governed actions are compiled in one loop, and from the same rows. -/
theorem foldl_compilePolicy (rows : List PolicyRow)
    (compiled : List (Statement × PolicyRow) × List (Option (List Char))) :
    (rows.foldl (compilePolicy W) compiled).1 = compiled.1 ++ compile W rows ∧
      ∀ action, action ∈ (rows.foldl (compilePolicy W) compiled).2 ↔
        action ∈ compiled.2 ∨ ∃ stmt, Enforces W rows stmt ∧ stmt.action = action := by
  induction rows generalizing compiled with
  | nil => simp [compile, Enforces]
  | cons row rows ih =>
      obtain ⟨hstatements, hgoverned⟩ := ih (compilePolicy W compiled row)
      have hcons : ∀ stmt, Enforces W (row :: rows) stmt ↔
          (row.mode ≠ "LOG_ONLY" ∧ parsePolicy W row.policyText = some stmt) ∨
            Enforces W rows stmt := by
        intro stmt
        simp only [Enforces, List.exists_mem_cons_iff]
      rw [List.foldl_cons]
      constructor
      · rw [hstatements, compilePolicy]
        cases hparse : parsePolicy W row.policyText <;> simp [compile, hparse]
      · intro action
        rw [hgoverned, compilePolicy]
        cases hparse : parsePolicy W row.policyText with
        | none => simp [hcons, hparse]
        | some stmt =>
            by_cases hmode : row.mode = "LOG_ONLY"
            · simp [hcons, hmode]
            · simp only [hcons, hparse, hmode, ne_eq, not_false_eq_true, if_true, true_and,
                Option.some.injEq, List.mem_insert_iff, or_and_right, exists_or, exists_eq_left']
              rw [eq_comm, or_assoc, or_left_comm]

/-! ### What the policy sets stand for -/

/-- Each scope has the statements of its own policies, and the actions they govern. -/
structure Represents (W : WordClass) (s : PolicySets) (effective : Effective) : Prop where
  statements : ∀ scope, s.statementsOf scope = compile W (effective scope)
  governed : ∀ scope action, action ∈ s.governedOf scope ↔
    ∃ stmt, Enforces W (effective scope) stmt ∧ stmt.action = action

theorem represents_start : Represents W ⟨[], [], [], []⟩ fun _ ↦ [] where
  statements scope := by cases scope <;> rfl
  governed scope action := by cases scope <;> simp [PolicySets.governedOf, Enforces]

theorem statementsOf_install (s : PolicySets) (policies : List Policy) (scope scope' : Scope) :
    (s.install W policies scope).statementsOf scope' =
      if scope' = scope then ((policies.map Policy.row).foldl (compilePolicy W) ([], [])).1
      else s.statementsOf scope' := by
  cases scope with
  | none => cases scope' <;> rfl
  | some tenant =>
      cases scope' with
      | none => rfl
      | some tenant' =>
          by_cases h : tenant' = tenant
          · subst h
            simp [PolicySets.install, PolicySets.statementsOf, lookup_set]
          · simp [PolicySets.install, PolicySets.statementsOf, lookup_set_of_ne h, h]

theorem governedOf_install (s : PolicySets) (policies : List Policy) (scope scope' : Scope) :
    (s.install W policies scope).governedOf scope' =
      if scope' = scope then ((policies.map Policy.row).foldl (compilePolicy W) ([], [])).2
      else s.governedOf scope' := by
  cases scope with
  | none => cases scope' <;> rfl
  | some tenant =>
      cases scope' with
      | none => rfl
      | some tenant' =>
          by_cases h : tenant' = tenant
          · subst h
            simp [PolicySets.install, PolicySets.governedOf, lookup_set]
          · simp [PolicySets.install, PolicySets.governedOf, lookup_set_of_ne h, h]

theorem Represents.install {s : PolicySets} {effective : Effective} (h : Represents W s effective)
    (policies : List Policy) (scope : Scope) :
    Represents W (s.install W policies scope)
      (Function.update effective scope (policies.map Policy.row)) := by
  obtain ⟨hstatements, hgoverned⟩ :=
    foldl_compilePolicy (W := W) (policies.map Policy.row) ([], [])
  constructor
  · intro scope'
    rw [statementsOf_install, Function.update_apply]
    split_ifs
    · rw [hstatements, List.nil_append]
    · exact h.statements scope'
  · intro scope' action
    rw [governedOf_install, Function.update_apply]
    split_ifs
    · simpa using hgoverned action
    · exact h.governed scope' action

/-! ### A reload without a tenant -/

/-- The policies of a list that name this tenant. -/
def ownOf (policies : List Policy) (tenant : Text) : List Policy :=
  policies.filter fun policy ↦ policyTenantId policy = some (some tenant)

theorem tenantPolicies_append (policies : List Policy) (policy : Policy) :
    tenantPolicies (policies ++ [policy]) =
      match policyTenantId policy with
      | some (some tenant) => set (tenantPolicies policies) tenant
          (((tenantPolicies policies).lookup tenant).getD [] ++ [policy])
      | _ => tenantPolicies policies := by
  rw [tenantPolicies, List.foldl_append]
  rfl

/-- Each tenant is in one group, with its policies in their order. -/
theorem tenantPolicies_spec (policies : List Policy) :
    ((tenantPolicies policies).map Prod.fst).Nodup ∧
      ∀ tenant, (tenantPolicies policies).lookup tenant =
        if ownOf policies tenant = [] then none else some (ownOf policies tenant) := by
  induction policies using List.reverseRecOn with
  | nil => exact ⟨List.nodup_nil, fun _ ↦ rfl⟩
  | append_singleton policies policy ih =>
      obtain ⟨hnodup, hlookup⟩ := ih
      have hown : ∀ tenant, ownOf (policies ++ [policy]) tenant = ownOf policies tenant ++
          if policyTenantId policy = some (some tenant) then [policy] else [] := by
        intro tenant
        simp [ownOf, List.filter_append, List.filter_singleton]
      rw [tenantPolicies_append]
      rcases hdeclared : policyTenantId policy with _ | _ | tenant
      · exact ⟨hnodup, fun t ↦ by simp [hlookup, hown, hdeclared]⟩
      · exact ⟨hnodup, fun t ↦ by simp [hlookup, hown, hdeclared]⟩
      · refine ⟨nodup_set hnodup _ _, fun t ↦ ?_⟩
        dsimp only
        by_cases ht : t = tenant
        · subst ht
          rw [lookup_set, hown, hdeclared, if_pos rfl, if_neg (by simp), hlookup]
          split_ifs with hnil <;> simp [hnil]
        · have hne : ¬ some (some tenant) = some (some t) := by simp [Ne.symm ht]
          rw [lookup_set_of_ne ht, hown, hdeclared, if_neg hne, List.append_nil, hlookup]

/-- The groups are put in one by one. -/
theorem Represents.foldl_install {groups : List (Text × List Policy)}
    (hnodup : (groups.map Prod.fst).Nodup) {s : PolicySets} {effective : Effective}
    (h : Represents W s effective) :
    Represents W (groups.foldl (fun s group ↦ s.install W group.2 (some group.1)) s)
      fun scope ↦ ((scope.bind fun tenant ↦ groups.lookup tenant).map (List.map Policy.row)).getD
        (effective scope) := by
  induction groups generalizing s effective with
  | nil =>
      have heffective : (fun scope : Scope ↦ ((scope.bind fun tenant ↦
          ([] : List (Text × List Policy)).lookup tenant).map (List.map Policy.row)).getD
            (effective scope)) = effective := by
        funext scope
        cases scope <;> rfl
      rw [heffective]
      exact h
  | cons group groups ih =>
      obtain ⟨tenant, own⟩ := group
      obtain ⟨hnot, hnodup⟩ := List.nodup_cons.mp hnodup
      have hrest := ih hnodup (h.install own (some tenant))
      rw [List.foldl_cons]
      refine (congrArg (Represents W _) (funext fun scope ↦ ?_)).mp hrest
      rcases scope with _ | t
      · rfl
      · by_cases ht : t = tenant
        · subst ht
          have hnone : groups.lookup t = none := by
            rw [List.lookup_eq_none_iff]
            intro item hitem
            refine bne_iff_ne.mpr fun heq ↦ hnot ?_
            change t ∈ _
            rw [heq]
            exact List.mem_map_of_mem hitem
          simp [hnone]
        · simp [List.lookup_cons, beq_false_of_ne ht, ht]

theorem map_row_policiesForScope {policies kept : List Policy} {tenant : Text}
    (h : policiesForScope (some tenant) true policies = some kept) :
    kept.map Policy.row = policies.map Policy.row := by
  induction policies generalizing kept with
  | nil =>
      cases h
      rfl
  | cons policy policies ih =>
      obtain ⟨declared, -, h⟩ := Option.bind_eq_some_iff.mp h
      simp only [Bool.not_true, Bool.false_eq_true, and_false, if_false] at h
      split_ifs at h with hother
      obtain ⟨rest, hrest, rfl⟩ := Option.map_eq_some_iff.mp h
      simp [ih hrest]

theorem Represents.reload {s s' : PolicySets} {effective : Effective} (h : Represents W s effective)
    {policies : List Policy} {tenantId : Value} {scope : Scope}
    (hscope : normalizeTenantId tenantId = some scope)
    (hreload : s.reload W policies tenantId = some s') :
    Represents W s' (effective.reload policies scope) := by
  rw [PolicySets.reload, hscope, Option.bind_some] at hreload
  cases scope with
  | some tenant =>
      obtain ⟨kept, hkept, rfl⟩ := Option.map_eq_some_iff.mp hreload
      have hinstall := h.install kept (some tenant)
      rw [map_row_policiesForScope hkept] at hinstall
      exact hinstall
  | none =>
      obtain ⟨hnodup, hlookup⟩ := tenantPolicies_spec policies
      have hinstall := Represents.foldl_install hnodup
        (h.install (policies.filter fun policy ↦ policyTenantId policy = some none) none)
      obtain rfl := Option.some.inj hreload
      refine (congrArg (Represents W _) (funext fun scope ↦ ?_)).mp hinstall
      rcases scope with _ | tenant
      · simp [Effective.reload]
      · have hlookup := hlookup tenant
        rw [ownOf] at hlookup
        simp only [Effective.reload, Option.bind_some, hlookup, ne_eq, reduceCtorEq,
          not_false_eq_true, true_and]
        split_ifs
        · simp
        · rfl

theorem Reached.represents {s : PolicySets} {effective : Effective} (h : Reached W s effective) :
    Represents W s effective := by
  induction h with
  | start => exact represents_start
  | reload _ policies tenantId scope hscope hreload ih => exact ih.reload hscope hreload
  | refresh _ merged scope ih => exact ih.install merged scope

/-! ### The decision -/

theorem Represents.evaluate {s : PolicySets} {effective : Effective} (h : Represents W s effective)
    {context : RequestContext} {scope : Scope}
    (hscope : normalizeTenantId context.tenantId = some scope) (method : Text) :
    s.evaluate lower context method = .deny ↔
      Denied (Enforces W (effective scope)) context.fields (httpMethodToAction lower method) := by
  have hgoverned : (none ∈ s.governedOf scope ∨
      some (httpMethodToAction lower method) ∈ s.governedOf scope) ↔
        ∃ stmt, Enforces W (effective scope) stmt ∧
          (stmt.action = none ∨ stmt.action = some (httpMethodToAction lower method)) := by
    simp only [h.governed, and_or_left, exists_or]
  obtain ⟨hnone, htrue⟩ := permitted_spec context.fields (httpMethodToAction lower method)
    (s.statementsOf scope) false
  rw [h.statements, matched_compile] at hnone htrue
  rw [matched_compile] at htrue
  rw [PolicySets.evaluate, hscope, Denied]
  dsimp only
  rw [h.statements]
  rcases hpermitted : permitted context.fields (httpMethodToAction lower method)
    (compile W (effective scope)) false with _ | _ | _
  · simp [hnone.mp hpermitted]
  · have hforbid := mt hnone.mpr (by simp [hpermitted])
    have hpermit : ¬ ∃ stmt, Enforces W (effective scope) stmt ∧ stmt.effect = .permit ∧
        stmt.matches context.fields (httpMethodToAction lower method) = true := by
      intro hpermit
      have htrue := htrue.mpr ⟨hforbid, .inr hpermit⟩
      simp [hpermitted] at htrue
    simp only [hforbid, hpermit, false_or, not_false_eq_true, true_and, ← hgoverned]
    split_ifs with hany <;> simp [hany]
  · obtain ⟨hforbid, hpermit⟩ := htrue.mp hpermitted
    have hpermit := hpermit.resolve_left Bool.false_ne_true
    simp [hforbid, hpermit]

theorem Represents.verdict_congr {s s' : PolicySets} {effective effective' : Effective}
    (h : Represents W s effective) (h' : Represents W s' effective') {context : RequestContext}
    {scope : Scope} (hscope : normalizeTenantId context.tenantId = some scope)
    (hsame : ∀ stmt, Enforces W (effective' scope) stmt ↔ Enforces W (effective scope) stmt)
    (method : Text) : s'.evaluate lower context method = s.evaluate lower context method := by
  have hdeny : s'.evaluate lower context method = .deny ↔ s.evaluate lower context method = .deny := by
    rw [h'.evaluate hscope, h.evaluate hscope, Denied, Denied]
    simp only [hsame]
  cases hs : s.evaluate lower context method with
  | deny => exact hdeny.mpr hs
  | allow =>
      cases hs' : s'.evaluate lower context method with
      | deny => simp [hdeny.mp hs'] at hs
      | allow => rfl

/-- A policy that takes part in decisions. -/
def counts (W : WordClass) (row : PolicyRow) : Bool :=
  row.mode ≠ "LOG_ONLY" && (parsePolicy W row.policyText).isSome

theorem enforces_filter_counts {rows : List PolicyRow} {stmt : Statement} :
    Enforces W (rows.filter (counts W)) stmt ↔ Enforces W rows stmt := by
  constructor
  · rintro ⟨row, hrow, hmode, hparse⟩
    exact ⟨row, List.mem_of_mem_filter hrow, hmode, hparse⟩
  · rintro ⟨row, hrow, hmode, hparse⟩
    exact ⟨row, List.mem_filter.mpr ⟨hrow, by simp [counts, hmode, hparse]⟩, hmode, hparse⟩

theorem Effective.reload_of_ne {effective : Effective} {policies : List Policy}
    {scope scope' : Scope} (hne : scope' ≠ scope)
    (hother : scope' = none → ∀ policy ∈ policies, policyTenantId policy ≠ some scope) :
    effective.reload policies scope' scope = effective scope := by
  cases scope' with
  | some tenant => exact Function.update_of_ne (Ne.symm hne) _ _
  | none =>
      have hown : (policies.filter fun policy ↦ policyTenantId policy = some scope) = [] := by
        rw [List.filter_eq_nil_iff]
        exact fun policy hpolicy ↦ by simpa using hother rfl policy hpolicy
      rw [Effective.reload]
      exact if_pos ⟨Ne.symm hne, hown⟩

/-- A request is denied by the rule over the policies of its own scope, after any reloads.  So the
order of the policies, those that only log or do not parse and those of other scopes do not matter,
and one more `forbid` allows nothing. -/
theorem evaluate_of_reached {s : PolicySets} {effective : Effective} (h : Reached W s effective)
    {context : RequestContext} {scope : Scope}
    (hscope : normalizeTenantId context.tenantId = some scope) (method : Text) :
    (s.evaluate lower context method = .deny ↔
      Denied (Enforces W (effective scope)) context.fields (httpMethodToAction lower method)) ∧
    (∀ (s' : PolicySets) (policies : List Policy) (tenantId : Value) (scope' : Scope),
      normalizeTenantId tenantId = some scope' → scope' ≠ scope →
      (scope' = none → ∀ policy ∈ policies, policyTenantId policy ≠ some scope) →
      s.reload W policies tenantId = some s' →
        s'.evaluate lower context method = s.evaluate lower context method) ∧
    ∀ (s' : PolicySets) (effective' : Effective), Reached W s' effective' →
      ((effective' scope).Perm (effective scope) →
        s'.evaluate lower context method = s.evaluate lower context method) ∧
      ((effective' scope).filter (counts W) = (effective scope).filter (counts W) →
        s'.evaluate lower context method = s.evaluate lower context method) ∧
      ∀ row stmt, row.mode ≠ "LOG_ONLY" → parsePolicy W row.policyText = some stmt →
        stmt.effect = .forbid → (effective' scope).Perm (row :: effective scope) →
        s.evaluate lower context method = .deny → s'.evaluate lower context method = .deny := by
  refine ⟨h.represents.evaluate hscope method, ?_, fun s' effective' h' ↦ ⟨?_, ?_, ?_⟩⟩
  · intro s' policies tenantId scope' hscope' hne hother hreload
    refine h.represents.verdict_congr (h.represents.reload hscope' hreload) hscope ?_ method
    rw [Effective.reload_of_ne hne hother]
    exact fun _ ↦ Iff.rfl
  · intro hperm
    refine h.represents.verdict_congr h'.represents hscope (fun stmt ↦ ?_) method
    simp only [Enforces, hperm.mem_iff]
  · intro hcounts
    refine h.represents.verdict_congr h'.represents hscope (fun stmt ↦ ?_) method
    rw [← enforces_filter_counts, hcounts, enforces_filter_counts]
  · intro row stmt hmode hparse hforbid hperm hdeny
    have hmore : ∀ {stmt' : Statement}, Enforces W (effective' scope) stmt' ↔
        stmt = stmt' ∨ Enforces W (effective scope) stmt' := by
      intro stmt'
      simp only [Enforces, hperm.mem_iff, List.mem_cons, or_and_right, exists_or,
        exists_eq_left, hmode, ne_eq, not_false_eq_true, true_and, hparse, Option.some.injEq]
    rw [h.represents.evaluate hscope] at hdeny
    rw [h'.represents.evaluate hscope]
    rcases hdeny with ⟨stmt', henforced, hmatched⟩ | ⟨hpermit, stmt', henforced, haction⟩
    · exact .inl ⟨stmt', hmore.mpr (.inr henforced), hmatched⟩
    · refine .inr ⟨?_, stmt', hmore.mpr (.inr henforced), haction⟩
      rintro ⟨other, hother, heffect, hmatches⟩
      rcases hmore.mp hother with rfl | hother
      · rw [hforbid] at heffect
        cases heffect
      · exact hpermit ⟨other, hother, heffect, hmatches⟩

end Proofs

/-- A policy of one tenant that forbids every action. -/
def forbidAll : Policy where
  row := ⟨"closed", "forbid(principal, action, resource);".toList, "ENFORCE"⟩
  tenantId := .null

/-- A caller without roles. -/
def anyone : RequestContext := ⟨⟨[], fun _ ↦ none⟩, .str "acme".toList⟩

theorem evaluate_forbidAll :
    ∃ s, Reached asciiWord s (Effective.reload (fun _ ↦ []) [forbidAll] (some "acme".toList)) ∧
      s.evaluate (List.map Char.toLower) anyone "GET".toList = .deny := by
  have hscope : normalizeTenantId anyone.tenantId = some (some "acme".toList) := by decide +kernel
  obtain ⟨s, hs⟩ : ∃ s, (PolicySets.mk [] [] [] []).reload asciiWord [forbidAll]
      anyone.tenantId = some s := ⟨_, rfl⟩
  have hreached := Reached.start.reload [forbidAll] _ _ hscope hs
  refine ⟨s, hreached, ((evaluate_of_reached hreached hscope _).1).mpr (.inl ?_)⟩
  have hparse : parsePolicy asciiWord forbidAll.row.policyText = some ⟨.forbid, none, [], []⟩ := by
    decide +kernel
  exact ⟨_, ⟨forbidAll.row, by simp [Effective.reload], by decide, hparse⟩, rfl, rfl⟩

end Cedar.Decision
