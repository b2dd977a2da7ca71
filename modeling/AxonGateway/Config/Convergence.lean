import AxonGateway.Config.Sync

/-!
# What a refresh leaves behind

The dictionaries and the user limits follow the store.  A project without limits
is skipped, and a policy node is never written again, so a limit that was
cleared or changed stays in force where it was armed before.
-/

namespace AxonGateway.Config

open Policy

/-- No node of its own for the environment. -/
def Sole (nodes : Nodes) (projectId environment : String) : Prop :=
  environment = "" ∨ projectId ++ ":" ++ environment ∉ nodes

/-- An instance enforces what is stored and keeps what is not. -/
structure Converged (s s' : Instance) (stored : Stored) (time : ℚ) : Prop where
  projects : ∀ id project, stored.projects.lookup id = some project →
    s'.projects.lookup id = some project ∧
      s'.tracker.projectBudget id = ⟨project.budgetLimit, project.alertThreshold⟩
  users : ∀ id config, stored.configs.lookup id = some config →
    s'.userConfigs.lookup id = some config ∧
      s'.tracker.userBudget id = ⟨config.budgetLimit, config.alertThreshold⟩
  resolved : ∀ r', s'.resolver = some r' → ∀ id ∈ r'.created, ∀ project,
    stored.projects.lookup id = some project → ∀ environment rateLimit,
      Sole r'.nodes id environment →
        (r'.resolve id environment rateLimit time).budgetLimit = project.budgetLimit
  otherProjects : ∀ id, id ∉ stored.projects → s'.projects.lookup id = s.projects.lookup id ∧
    s'.tracker.budgets.lookup id = s.tracker.budgets.lookup id ∧
      ∀ r r', s.resolver = some r → s'.resolver = some r' → r'.nodes.lookup id = r.nodes.lookup id
  otherUsers : ∀ id, id ∉ stored.configs → s'.userConfigs.lookup id = s.userConfigs.lookup id ∧
    s'.tracker.userBudgets.lookup id = s.tracker.userBudgets.lookup id

/-- No stored project with a budget is called like the environment. -/
def Bare (r : Resolver) (stored : Stored) (projectId environment : String) : Prop :=
  environment = "" ∨ projectId ++ ":" ++ environment ∉ r.nodes ∧
    ∀ project, stored.projects.lookup (projectId ++ ":" ++ environment) = some project →
      project.budgetLimit = none

/-- What a refresh does not change is already as it is stored: the limits of a project
that is stored without any, the budget of a node that an earlier refresh created, and
a budget that was resolved before there was a node. -/
structure Adoptable (s : Instance) (stored : Stored) (time : ℚ) : Prop where
  cleared : ∀ id project, stored.projects.lookup id = some project →
    project.budgetLimit = none → project.alertThreshold = none → s.tracker.projectBudget id = {}
  kept : ∀ r, s.resolver = some r → ∀ id ∈ r.created, ∀ project,
    stored.projects.lookup id = some project → ∀ environment rateLimit,
      Bare r stored id environment →
        (r.resolve id environment rateLimit time).budgetLimit = project.budgetLimit
  uncached : ∀ r, s.resolver = some r → ∀ id ∉ r.nodes, ∀ project limit,
    stored.projects.lookup id = some project → project.budgetLimit = some limit →
      ∀ environment, Bare r stored id environment → ∀ policy ts,
        r.cache.lookup (id, environment) = some (policy, ts) → time - ts < cacheTtlSeconds →
          policy.budgetLimit = some limit

/-! ## Resolution -/

section Resolution

variable {r r' : Resolver} {id environment : String} {limit time : ℚ} {rateLimit : Option ℚ}

theorem ancestry_of_sole (hnode : r.nodes.lookup id = some (projectNode id limit))
    (hsole : Sole r.nodes id environment) :
    ancestryFromNodes r.nodes id (some environment) =
      if id = "" then [] else [projectNode id limit] := by
  have hentry : entryId r.nodes id (some environment) = id := by
    refine if_neg fun h ↦ ?_
    rcases hsole with hempty | hnone
    · exact h.1 hempty
    · exact hnone h.2
  unfold ancestryFromNodes
  rw [hentry, walkFrom]
  split_ifs with h₁ h₂ h₂
  · rfl
  · exact absurd h₁ (by simp [h₂])
  · exact absurd (.inl h₂) h₁
  · split
    next hnone =>
      rw [hnode] at hnone
      cases hnone
    next node hsome =>
      obtain rfl : projectNode id limit = node := Option.some.inj (hnode.symm.trans hsome)
      rw [show (projectNode id limit).parentId = none from rfl, walkFrom]
      rfl

/-- Only the node and the cache matter. -/
theorem resolve_congr (hcache : r'.cache = r.cache)
    (hnode : r.nodes.lookup id = some (projectNode id limit))
    (hnode' : r'.nodes.lookup id = some (projectNode id limit))
    (hsole : Sole r.nodes id environment) (hsole' : Sole r'.nodes id environment) :
    r'.resolve id environment rateLimit time = r.resolve id environment rateLimit time := by
  unfold Resolver.resolve
  rw [ancestry_of_sole hnode hsole, ancestry_of_sole hnode' hsole', hcache]

theorem budgetLimit_resolve (hid : id ≠ "")
    (hnode : r.nodes.lookup id = some (projectNode id limit))
    (hsole : Sole r.nodes id environment) :
    (r.resolve id environment rateLimit time).budgetLimit = some limit ↔
      ∀ policy ts, r.cache.lookup (id, environment) = some (policy, ts) →
        time - ts < cacheTtlSeconds → policy.budgetLimit = some limit := by
  unfold Resolver.resolve
  rw [ancestry_of_sole hnode hsole, if_neg hid]
  cases hcache : r.cache.lookup (id, environment) with
  | none =>
      constructor
      · exact fun _ _ _ h ↦ by cases h
      · exact fun _ ↦ rfl
  | some entry =>
      obtain ⟨policy, ts⟩ := entry
      dsimp only
      split_ifs with hlive
      · constructor
        · rintro h _ _ ⟨⟩ -
          exact h
        · exact fun h ↦ h policy ts rfl hlive
      · constructor
        · rintro - _ _ ⟨⟩ h
          exact absurd h hlive
        · exact fun _ ↦ rfl

end Resolution

/-! ## Arming -/

abbrev ProjectEntry := Sigma fun _ : String ↦ Project

/-- Some of the projects has the id and a budget. -/
def Budgeted (es : List ProjectEntry) (id : String) : Prop :=
  ∃ e ∈ es, e.1 = id ∧ e.2.budgetLimit ≠ none

/-- The nodes of some projects have been added. -/
structure Extended (r r' : Resolver) (es : List ProjectEntry) : Prop where
  cache : r'.cache = r.cache
  old : ∀ id ∈ r.nodes, r'.nodes.lookup id = r.nodes.lookup id
  new : ∀ e ∈ es, ∀ limit, e.2.budgetLimit = some limit → e.1 ∉ r.nodes →
    r'.nodes.lookup e.1 = some (projectNode e.1 limit)
  mem_nodes : ∀ id, id ∈ r'.nodes ↔ id ∈ r.nodes ∨ Budgeted es id
  mem_created : ∀ id, id ∈ r'.created ↔ id ∈ r.created ∨ id ∉ r.nodes ∧ Budgeted es id

def Limited (project : Project) : Prop :=
  ¬ (project.budgetLimit = none ∧ project.alertThreshold = none)

/-- Some projects have been registered. -/
structure Armed (s s' : Instance) (es : List ProjectEntry) : Prop where
  rest : { s' with tracker := s.tracker, resolver := s.resolver } = s
  userBudgets : s'.tracker.userBudgets = s.tracker.userBudgets
  limited : ∀ e ∈ es, Limited e.2 → PyText.isBlank e.1 = false ∧
    s'.tracker.budgets.lookup e.1 = some ⟨e.2.budgetLimit, e.2.alertThreshold⟩
  others : ∀ id, (∀ e ∈ es, e.1 = id → ¬ Limited e.2) →
    s'.tracker.budgets.lookup id = s.tracker.budgets.lookup id
  resolver : ∀ r', s'.resolver = some r' → ∃ r, s.resolver = some r ∧ Extended r r' es
  resolver_none : s'.resolver = none ↔ s.resolver = none

section Arming

variable {r r₁ r' : Resolver} {s s₁ s' : Instance} {e : ProjectEntry} {es : List ProjectEntry}

theorem budgeted_cons {id : String} :
    Budgeted (e :: es) id ↔ e.1 = id ∧ e.2.budgetLimit ≠ none ∨ Budgeted es id := by
  simp only [Budgeted, List.exists_mem_cons_iff]

theorem not_budgeted_nil {id : String} : ¬ Budgeted [] id := by
  simp [Budgeted]

theorem Extended.refl (r : Resolver) : Extended r r [] :=
  ⟨rfl, fun _ _ ↦ rfl, fun _ he ↦ (nomatch he), fun _ ↦ by simp [not_budgeted_nil],
    fun _ ↦ by simp [not_budgeted_nil]⟩

/-- One more project at the front. -/
theorem Extended.cons (h : Extended r₁ r' es) (hnew : e.1 ∉ es.map Sigma.fst)
    (h₁ : r₁ = match e.2.budgetLimit with
      | some limit => r.addNode e.1 limit
      | none => r) : Extended r r' (e :: es) := by
  have hnone : ∀ e' ∈ es, e'.1 ≠ e.1 := fun e' he' heq ↦
    hnew (heq ▸ List.mem_map_of_mem he')
  have hnot : ¬ Budgeted es e.1 := fun ⟨e', he', heq, _⟩ ↦ hnone e' he' heq
  cases hlimit : e.2.budgetLimit with
  | none =>
      rw [hlimit] at h₁
      subst h₁
      have hsame : ∀ id, Budgeted (e :: es) id ↔ Budgeted es id := by
        intro id
        rw [budgeted_cons, hlimit]
        simp
      refine ⟨h.cache, h.old, fun e' he' limit hlimit' hne ↦ ?_, fun id ↦ ?_, fun id ↦ ?_⟩
      · rcases List.mem_cons.mp he' with rfl | he'
        · rw [hlimit] at hlimit'
          cases hlimit'
        · exact h.new e' he' limit hlimit' hne
      · rw [hsame, h.mem_nodes]
      · rw [hsame, h.mem_created]
  | some limit =>
      rw [hlimit] at h₁
      by_cases hnode : e.1 ∈ r.nodes
      · have heq : r₁ = r := h₁.trans (Resolver.addNode_of_mem hnode limit)
        subst heq
        refine ⟨h.cache, h.old, fun e' he' limit hlimit' hne ↦ ?_, fun id ↦ ?_, fun id ↦ ?_⟩
        · rcases List.mem_cons.mp he' with rfl | he'
          · exact absurd hnode hne
          · exact h.new e' he' limit hlimit' hne
        · rw [h.mem_nodes, budgeted_cons]
          constructor
          · exact fun h ↦ h.imp_right .inr
          · rintro (h | ⟨rfl, -⟩ | h)
            · exact .inl h
            · exact .inl hnode
            · exact .inr h
        · rw [h.mem_created, budgeted_cons]
          constructor
          · exact fun h ↦ h.imp_right fun ⟨hne, hb⟩ ↦ ⟨hne, .inr hb⟩
          · rintro (h | ⟨hne, ⟨rfl, -⟩ | hb⟩)
            · exact .inl h
            · exact absurd hnode hne
            · exact .inr ⟨hne, hb⟩
      · have hnodes : r₁.nodes = r.nodes.insert e.1 (projectNode e.1 limit) := by
          rw [h₁]
          exact Resolver.nodes_addNode hnode limit
        have hcreated : r₁.created = e.1 :: r.created := by
          rw [h₁]
          exact Resolver.created_addNode hnode limit
        have hcache : r₁.cache = r.cache := by
          rw [h₁]
          exact Resolver.cache_addNode hnode limit
        have hmem : ∀ id, id ∈ r₁.nodes ↔ id = e.1 ∨ id ∈ r.nodes := fun id ↦ by
          rw [hnodes, AList.mem_insert]
        refine ⟨h.cache.trans hcache, fun id hid ↦ ?_, fun e' he' limit' hlimit' hne ↦ ?_,
          fun id ↦ ?_, fun id ↦ ?_⟩
        · rw [h.old id ((hmem id).mpr (.inr hid)), hnodes, AList.lookup_insert_ne]
          rintro rfl
          exact hnode hid
        · rcases List.mem_cons.mp he' with rfl | he'
          · rw [h.old _ ((hmem _).mpr (.inl rfl)), hnodes, AList.lookup_insert]
            rw [hlimit] at hlimit'
            cases hlimit'
            rfl
          · refine h.new e' he' limit' hlimit' fun hin ↦ ?_
            rcases (hmem _).mp hin with heq | hin
            · exact hnone e' he' heq
            · exact hne hin
        · rw [h.mem_nodes, hmem, budgeted_cons, hlimit, eq_comm]
          simp only [ne_eq, reduceCtorEq, not_false_eq_true, and_true]
          tauto
        · rw [h.mem_created, hmem, hcreated, budgeted_cons, hlimit, List.mem_cons]
          simp only [ne_eq, reduceCtorEq, not_false_eq_true, and_true]
          constructor
          · rintro ((rfl | hid) | ⟨hne, hb⟩)
            · exact .inr ⟨hnode, .inl rfl⟩
            · exact .inl hid
            · rw [not_or] at hne
              exact .inr ⟨hne.2, .inr hb⟩
          · rintro (hid | ⟨hne, rfl | hb⟩)
            · exact .inl (.inr hid)
            · exact .inl (.inl rfl)
            · refine .inr ⟨?_, hb⟩
              rintro (rfl | hid)
              · exact hnot hb
              · exact hne hid

theorem bind_ok_iff {α β : Type} {x : Except ConfigError α} {f : α → Except ConfigError β} {b : β} :
    (x >>= f) = .ok b ↔ ∃ a, x = .ok a ∧ f a = .ok b := by
  cases x with
  | error e =>
      constructor
      · rintro ⟨⟩
      · rintro ⟨_, ⟨⟩, _⟩
  | ok a =>
      constructor
      · exact fun h ↦ ⟨a, rfl, h⟩
      · rintro ⟨_, ⟨⟩, h⟩
        exact h

theorem tenantScopedId_none {resourceType id scopeId : String}
    (h : tenantScopedId none resourceType id = .ok scopeId) :
    PyText.isBlank id = false ∧ scopeId = id := by
  unfold tenantScopedId at h
  split_ifs at h with hblank
  cases h
  exact ⟨by simpa using hblank, rfl⟩

/-- The first project is registered, then the others. -/
theorem Armed.cons (h : Armed s₁ s' es) (hnew : e.1 ∉ es.map Sigma.fst)
    (hid : e.2.projectId = e.1) (htenant : e.2.tenantId = none)
    (h₁ : s.registerProject e.2 = .ok s₁) : Armed s s' (e :: es) := by
  have hnone : ∀ e' ∈ es, e'.1 ≠ e.1 := fun e' he' heq ↦
    hnew (heq ▸ List.mem_map_of_mem he')
  unfold Instance.registerProject at h₁
  split_ifs at h₁ with hlimits
  · cases h₁
    refine ⟨h.rest, h.userBudgets, fun e' he' hl ↦ ?_, fun id hall ↦ ?_, fun r' hr' ↦ ?_,
      h.resolver_none⟩
    · rcases List.mem_cons.mp he' with rfl | he'
      · exact absurd hlimits hl
      · exact h.limited e' he' hl
    · exact h.others id fun e' he' ↦ hall e' (List.mem_cons_of_mem _ he')
    · obtain ⟨r, hr, hext⟩ := h.resolver r' hr'
      exact ⟨r, hr, hext.cons hnew (by rw [hlimits.1])⟩
  · obtain ⟨tracker, htracker, h₁⟩ := bind_ok_iff.mp h₁
    obtain ⟨scopeId, hscope, htracker⟩ := bind_ok_iff.mp htracker
    rw [htenant, hid] at hscope
    obtain ⟨hblank, rfl⟩ := tenantScopedId_none hscope
    cases htracker
    cases h₁
    have hlookup : ∀ id, ((s.tracker.budgets.insert e.1
        ⟨e.2.budgetLimit, e.2.alertThreshold⟩ : Dict String Budget)).lookup id =
        if id = e.1 then some ⟨e.2.budgetLimit, e.2.alertThreshold⟩
        else s.tracker.budgets.lookup id := fun id ↦ Dict.lookup_insert_eq _ _ _ _
    refine ⟨?_, h.userBudgets, fun e' he' hl ↦ ?_, fun id hall ↦ ?_, fun r' hr' ↦ ?_, ?_⟩
    · have hrest := congrArg (fun t : Instance ↦
        { t with tracker := s.tracker, resolver := s.resolver }) h.rest
      exact hrest
    · rcases List.mem_cons.mp he' with rfl | he'
      · refine ⟨hblank, ?_⟩
        rw [h.others e'.1 fun e'' he'' heq ↦ absurd heq (hnone e'' he'')]
        exact (hlookup e'.1).trans (if_pos rfl)
      · exact h.limited e' he' hl
    · rw [h.others id fun e' he' ↦ hall e' (List.mem_cons_of_mem _ he')]
      refine (hlookup id).trans (if_neg fun heq ↦ ?_)
      exact hall e List.mem_cons_self heq.symm hlimits
    · obtain ⟨r₁, hr₁, hext⟩ := h.resolver r' hr'
      dsimp only at hr₁
      cases hlimit : e.2.budgetLimit with
      | none =>
          rw [hlimit] at hr₁
          exact ⟨r₁, hr₁, hext.cons hnew (by rw [hlimit])⟩
      | some limit =>
          rw [hlimit] at hr₁
          obtain ⟨r, hr, rfl⟩ := Option.map_eq_some_iff.mp hr₁
          exact ⟨r, hr, hext.cons hnew (by rw [hlimit, hid])⟩
    · rw [h.resolver_none]
      dsimp only
      cases e.2.budgetLimit <;> simp

theorem armed_foldlM (hnodup : (es.map Sigma.fst).Nodup)
    (hes : ∀ e ∈ es, e.2.projectId = e.1 ∧ e.2.tenantId = none)
    (h : es.foldlM (fun s e ↦ s.registerProject e.2) s = .ok s') : Armed s s' es := by
  induction es generalizing s with
  | nil =>
      cases h
      exact ⟨rfl, rfl, fun _ he ↦ (nomatch he), fun _ _ ↦ rfl,
        fun r' hr' ↦ ⟨r', hr', Extended.refl r'⟩, Iff.rfl⟩
  | cons e es ih =>
      rw [List.foldlM_cons] at h
      obtain ⟨s₁, h₁, h⟩ := bind_ok_iff.mp h
      rw [List.map_cons, List.nodup_cons] at hnodup
      obtain ⟨hid, htenant⟩ := hes e List.mem_cons_self
      exact (ih hnodup.2 (fun e' he' ↦ hes e' (List.mem_cons_of_mem _ he')) h).cons
        hnodup.1 hid htenant h₁

/-- Every user is registered, with or without limits. -/
theorem users_foldlM {cs : List (Sigma fun _ : String ↦ UserConfig)}
    (hnodup : (cs.map Sigma.fst).Nodup)
    (h : cs.foldlM (fun s c ↦ s.registerUser c.1 c.2) s = .ok s') :
    { s' with tracker := s.tracker } = s ∧ s'.tracker.budgets = s.tracker.budgets ∧
      (∀ c ∈ cs, s'.tracker.userBudgets.lookup c.1 =
        some ⟨c.2.budgetLimit, c.2.alertThreshold⟩) ∧
      ∀ id ∉ cs.map Sigma.fst, s'.tracker.userBudgets.lookup id =
        s.tracker.userBudgets.lookup id := by
  induction cs generalizing s with
  | nil =>
      cases h
      exact ⟨rfl, rfl, fun _ hc ↦ (nomatch hc), fun _ _ ↦ rfl⟩
  | cons c cs ih =>
      rw [List.foldlM_cons] at h
      obtain ⟨s₁, h₁, h⟩ := bind_ok_iff.mp h
      rw [List.map_cons, List.nodup_cons] at hnodup
      obtain ⟨tracker, htracker, h₁⟩ := bind_ok_iff.mp h₁
      obtain ⟨scopeId, hscope, htracker⟩ := bind_ok_iff.mp htracker
      obtain ⟨-, rfl⟩ := tenantScopedId_none hscope
      cases htracker
      cases h₁
      obtain ⟨hrest, hbudgets, hin, hout⟩ := ih hnodup.2 h
      have hlookup : ∀ id, ((s.tracker.userBudgets.insert c.1
          ⟨c.2.budgetLimit, c.2.alertThreshold⟩ : Dict String Budget)).lookup id =
          if id = c.1 then some ⟨c.2.budgetLimit, c.2.alertThreshold⟩
          else s.tracker.userBudgets.lookup id := fun id ↦ Dict.lookup_insert_eq _ _ _ _
      refine ⟨?_, hbudgets, fun c' hc' ↦ ?_, fun id hid ↦ ?_⟩
      · have hrest' := congrArg (fun t : Instance ↦ { t with tracker := s.tracker }) hrest
        exact hrest'
      · rcases List.mem_cons.mp hc' with rfl | hc'
        · rw [hout _ hnodup.1]
          exact (hlookup _).trans (if_pos rfl)
        · exact hin c' hc'
      · rw [List.map_cons, List.mem_cons, not_or] at hid
        rw [hout id hid.2]
        exact (hlookup id).trans (if_neg hid.1)

end Arming

/-! ## The refresh -/

section Refresh

variable {s s' : Instance} {stored : Stored} {now time : ℚ} {reads : Reads}

/-- What a refresh that adopts something has done. -/
structure Refreshed (s s' : Instance) (stored : Stored) : Prop where
  projects : s'.projects = stored.projects ∪ s.projects
  userConfigs : s'.userConfigs = stored.configs ∪ s.userConfigs
  limited : ∀ id project, stored.projects.lookup id = some project → Limited project →
    id ≠ "" ∧ s'.tracker.budgets.lookup id = some ⟨project.budgetLimit, project.alertThreshold⟩
  others : ∀ id, (∀ project, stored.projects.lookup id = some project → ¬ Limited project) →
    s'.tracker.budgets.lookup id = s.tracker.budgets.lookup id
  users : ∀ id config, stored.configs.lookup id = some config →
    s'.tracker.userBudgets.lookup id = some ⟨config.budgetLimit, config.alertThreshold⟩
  otherUsers : ∀ id ∉ stored.configs,
    s'.tracker.userBudgets.lookup id = s.tracker.userBudgets.lookup id
  resolver : ∀ r', s'.resolver = some r' → ∃ r, s.resolver = some r ∧
    Extended r r' stored.projects.entries
  resolver_none : s'.resolver = none ↔ s.resolver = none

theorem refreshed_of_ok (hstored : reads.stored = some stored)
    (h : s.refresh now reads = .ok (true, s')) : Refreshed s s' stored := by
  unfold Instance.refresh at h
  rw [hstored] at h
  split at h
  · cases h
  dsimp only at h
  split_ifs at h
  · cases h
  · cases h
  · cases h
  obtain ⟨s₂, hregister, hs'⟩ := bind_ok_iff.mp h
  cases hs'
  obtain ⟨s₁, h₁, h₂⟩ := bind_ok_iff.mp hregister
  have hentry : ∀ e ∈ stored.projects.entries, stored.projects.lookup e.1 = some e.2 :=
    fun e he ↦ Dict.mem_entries_iff.mp he
  have harmed : Armed (s.adopt stored) s₁ stored.projects.entries :=
    armed_foldlM stored.projects.keys_nodup (fun e he ↦
      ⟨stored.projectId_eq _ _ (hentry e he), stored.tenantId_eq _ _ (hentry e he)⟩) h₁
  obtain ⟨hrest, hbudgets, hin, hout⟩ := users_foldlM stored.configs.keys_nodup h₂
  have hresolver : s₂.resolver = s₁.resolver := (congrArg Instance.resolver hrest :)
  refine ⟨?_, ?_, fun id project hproject hlimited ↦ ?_, fun id hall ↦ ?_, fun id config hconfig ↦ ?_,
    fun id hid ↦ ?_, fun r' hr' ↦ ?_, ?_⟩
  · exact (congrArg Instance.projects hrest :).trans (congrArg Instance.projects harmed.rest :)
  · exact (congrArg Instance.userConfigs hrest :).trans (congrArg Instance.userConfigs harmed.rest :)
  · obtain ⟨hblank, hbudget⟩ := harmed.limited _ (Dict.mem_entries_iff.mpr hproject) hlimited
    refine ⟨?_, by rw [← hbudget]; exact congrArg _ hbudgets⟩
    rintro rfl
    cases hblank
  · rw [show (s₂.tracker.budgets : Dict String Budget) = s₁.tracker.budgets from hbudgets]
    refine harmed.others id fun e he heq ↦ hall e.2 ?_
    rw [← heq]
    exact hentry e he
  · exact hin _ (Dict.mem_entries_iff.mpr hconfig)
  · refine (hout id fun hmem ↦ hid (AList.mem_keys.mpr hmem)).trans ?_
    rw [harmed.userBudgets]
    rfl
  · exact harmed.resolver r' (hresolver.symm.trans hr')
  · exact (iff_of_eq (congrArg (· = none) hresolver)).trans harmed.resolver_none

theorem Extended.sole_iff {r r' : Resolver} (h : Extended r r' stored.projects.entries)
    {id environment : String} : Sole r'.nodes id environment ↔ Bare r stored id environment := by
  unfold Sole Bare
  refine or_congr_right ?_
  rw [h.mem_nodes, not_or]
  refine and_congr_right fun _ ↦ ?_
  constructor
  · intro hnot project hproject
    by_contra hne
    exact hnot ⟨_, Dict.mem_entries_iff.mpr hproject, rfl, hne⟩
  · rintro hall ⟨e, he, heq, hne⟩
    refine hne (hall e.2 ?_)
    rw [← heq]
    exact Dict.mem_entries_iff.mp he

theorem Bare.sole {r : Resolver} {id environment : String} (h : Bare r stored id environment) :
    Sole r.nodes id environment := h.imp_right And.left

/-- The budgets that are resolved afterwards, in terms of the state before. -/
theorem resolved_iff (h : Refreshed s s' stored) :
    (∀ r', s'.resolver = some r' → ∀ id ∈ r'.created, ∀ project,
      stored.projects.lookup id = some project → ∀ environment rateLimit,
        Sole r'.nodes id environment →
          (r'.resolve id environment rateLimit time).budgetLimit = project.budgetLimit) ↔
    (∀ r, s.resolver = some r → ∀ id ∈ r.created, ∀ project,
      stored.projects.lookup id = some project → ∀ environment rateLimit,
        Bare r stored id environment →
          (r.resolve id environment rateLimit time).budgetLimit = project.budgetLimit) ∧
    (∀ r, s.resolver = some r → ∀ id ∉ r.nodes, ∀ project limit,
      stored.projects.lookup id = some project → project.budgetLimit = some limit →
        ∀ environment, Bare r stored id environment → ∀ policy ts,
          r.cache.lookup (id, environment) = some (policy, ts) → time - ts < cacheTtlSeconds →
            policy.budgetLimit = some limit) := by
  have hback : ∀ r, s.resolver = some r → ∃ r', s'.resolver = some r' ∧
      Extended r r' stored.projects.entries := by
    intro r hr
    cases hr' : s'.resolver with
    | none =>
        rw [h.resolver_none.mp hr'] at hr
        cases hr
    | some r' =>
        obtain ⟨r₀, hr₀, hext⟩ := h.resolver r' hr'
        rw [hr] at hr₀
        cases hr₀
        exact ⟨r', rfl, hext⟩
  -- a node of an earlier refresh is still the same
  have hkept : ∀ {r r' : Resolver}, Extended r r' stored.projects.entries → ∀ id ∈ r.created,
      ∀ environment, Bare r stored id environment → ∀ rateLimit,
        r'.resolve id environment rateLimit time = r.resolve id environment rateLimit time := by
    intro r r' hext id hid environment hbare rateLimit
    obtain ⟨limit, hnode⟩ := r.lookup_created id hid
    have hmem : id ∈ r.nodes := Dict.mem_iff_lookup.mpr ⟨_, hnode⟩
    exact resolve_congr hext.cache hnode ((hext.old id hmem).trans hnode) hbare.sole
      (hext.sole_iff.mpr hbare)
  have hfresh : ∀ {r r' : Resolver}, Extended r r' stored.projects.entries → ∀ id ∉ r.nodes,
      ∀ project limit, stored.projects.lookup id = some project →
        project.budgetLimit = some limit → id ≠ "" ∧ id ∈ r'.created ∧
          r'.nodes.lookup id = some (projectNode id limit) := by
    intro r r' hext id hid project limit hproject hlimit
    have hmem := Dict.mem_entries_iff.mpr hproject
    refine ⟨?_, (hext.mem_created id).mpr (.inr ⟨hid, _, hmem, rfl, by simp [hlimit]⟩),
      hext.new _ hmem limit hlimit hid⟩
    exact (h.limited id project hproject fun hnone ↦ by simp [hlimit] at hnone).1
  constructor
  · intro hall
    refine ⟨fun r hr id hid project hproject environment rateLimit hbare ↦ ?_,
      fun r hr id hid project limit hproject hlimit environment hbare policy ts ↦ ?_⟩
    · obtain ⟨r', hr', hext⟩ := hback r hr
      rw [← hkept hext id hid environment hbare rateLimit]
      exact hall r' hr' id ((hext.mem_created id).mpr (.inl hid)) project hproject environment
        rateLimit (hext.sole_iff.mpr hbare)
    · obtain ⟨r', hr', hext⟩ := hback r hr
      obtain ⟨hne, hcreated, hnode⟩ := hfresh hext id hid project limit hproject hlimit
      have hresolve := hall r' hr' id hcreated project hproject environment none
        (hext.sole_iff.mpr hbare)
      rw [hlimit, budgetLimit_resolve hne hnode (hext.sole_iff.mpr hbare), hext.cache] at hresolve
      exact hresolve policy ts
  · rintro ⟨hold, hnew⟩ r' hr' id hid project hproject environment rateLimit hsole
    obtain ⟨r, hr, hext⟩ := h.resolver r' hr'
    have hbare := hext.sole_iff.mp hsole
    rcases (hext.mem_created id).mp hid with hid | ⟨hnode, e, he, rfl, hbudget⟩
    · rw [hkept hext id hid environment hbare rateLimit]
      exact hold r hr id hid project hproject environment rateLimit hbare
    · obtain rfl : e.2 = project :=
        Option.some.inj ((Dict.mem_entries_iff.mp he).symm.trans hproject)
      obtain ⟨limit, hlimit⟩ := Option.ne_none_iff_exists'.mp hbudget
      obtain ⟨hne, -, hlookup⟩ := hfresh hext e.1 hnode e.2 limit hproject hlimit
      rw [hlimit, budgetLimit_resolve hne hlookup hsole, hext.cache]
      exact fun policy ts ↦ hnew r hr e.1 hnode e.2 limit hproject hlimit environment hbare policy ts

/-- A refresh that returns `true` makes an instance enforce what is stored exactly where
the state that it does not write agrees with the store already. -/
theorem converged_iff (hstored : reads.stored = some stored)
    (h : s.refresh now reads = .ok (true, s')) (time : ℚ) :
    Converged s s' stored time ↔ Adoptable s stored time := by
  have hspec := refreshed_of_ok hstored h
  constructor
  · intro hc
    obtain ⟨hkept, huncached⟩ := (resolved_iff hspec).mp hc.resolved
    refine ⟨fun id project hproject hbudget halert ↦ ?_, hkept, huncached⟩
    have htracker := (hc.projects id project hproject).2
    rw [hbudget, halert, CostTracker.projectBudget, hspec.others id fun p hp ↦ ?_] at htracker
    · exact htracker
    · rw [hproject] at hp
      cases hp
      exact fun hlimited ↦ hlimited ⟨hbudget, halert⟩
  · intro ha
    refine ⟨fun id project hproject ↦ ⟨?_, ?_⟩, fun id config hconfig ↦ ⟨?_, ?_⟩,
      (resolved_iff hspec).mpr ⟨ha.kept, ha.uncached⟩, fun id hid ↦ ⟨?_, ?_, ?_⟩,
      fun id hid ↦ ⟨?_, hspec.otherUsers id hid⟩⟩
    · rw [hspec.projects, AList.lookup_union_left (Dict.mem_iff_lookup.mpr ⟨_, hproject⟩)]
      exact hproject
    · unfold CostTracker.projectBudget
      by_cases hlimited : Limited project
      · rw [(hspec.limited id project hproject hlimited).2]
        rfl
      · rw [hspec.others id fun p hp ↦ by rw [hproject] at hp; cases hp; exact hlimited]
        obtain ⟨hbudget, halert⟩ := not_not.mp hlimited
        rw [hbudget, halert]
        exact ha.cleared id project hproject hbudget halert
    · rw [hspec.userConfigs, AList.lookup_union_left (Dict.mem_iff_lookup.mpr ⟨_, hconfig⟩)]
      exact hconfig
    · unfold CostTracker.userBudget
      rw [hspec.users id config hconfig]
      rfl
    · rw [hspec.projects, AList.lookup_union_right hid]
    · refine hspec.others id fun project hproject ↦ ?_
      exact absurd (Dict.mem_iff_lookup.mpr ⟨_, hproject⟩) hid
    · intro r r' hr hr'
      obtain ⟨r₀, hr₀, hext⟩ := hspec.resolver r' hr'
      rw [hr] at hr₀
      cases hr₀
      by_cases hmem : id ∈ r.nodes
      · exact hext.old id hmem
      · have hmem' : id ∉ r'.nodes := by
          rw [hext.mem_nodes]
          rintro (hin | ⟨e, he, rfl, -⟩)
          · exact hmem hin
          · exact hid (Dict.mem_iff_lookup.mpr ⟨_, Dict.mem_entries_iff.mp he⟩)
        rw [AList.lookup_eq_none.mpr hmem, AList.lookup_eq_none.mpr hmem']
    · rw [hspec.userConfigs, AList.lookup_union_right hid]

end Refresh

/-! ## Two refreshes -/

/-- One project with a budget. -/
def acme (limit : Option ℚ) : Stored where
  projects := (∅ : Dict String Project).insert "acme" { projectId := "acme", budgetLimit := limit }
  configs := ∅
  projectId_eq id project h := by
    rw [Dict.lookup_insert_eq] at h
    split_ifs at h with heq
    · cases h
      exact heq.symm
    · cases h
  tenantId_eq id project h := by
    rw [Dict.lookup_insert_eq] at h
    split_ifs at h
    · cases h
      rfl
    · cases h

def readsOf (version : ℕ) (stored : Stored) : Reads := ⟨some version, some stored, some version, 0⟩

/-- An instance after its first refresh, which finds a budget of 100. -/
def first : Except ConfigError (Bool × Instance) :=
  Instance.refresh { resolver := some {} } 0 (readsOf 1 (acme (some 100)))

theorem converged_first : ∃ s', first = .ok (true, s') ∧
    Converged { resolver := some {} } s' (acme (some 100)) 0 := by
  have htrue : first.map Prod.fst = .ok true := by decide +kernel
  cases h : first with
  | error e =>
      rw [h] at htrue
      cases htrue
  | ok result =>
      obtain ⟨b, s'⟩ := result
      rw [h] at htrue
      obtain rfl : b = true := Except.ok.inj htrue
      have hreads : (readsOf 1 (acme (some 100))).stored = some (acme (some 100)) := rfl
      refine ⟨s', rfl, (converged_iff hreads h 0).mpr ?_⟩
      refine ⟨fun _ _ _ _ _ ↦ rfl, ?_, ?_⟩
      · rintro r ⟨⟩ id hid
        cases hid
      · rintro r ⟨⟩ id - project limit - - environment - policy ts hcache
        cases hcache

/-- What the next refresh of the same instance leaves, which finds another budget. -/
def second (limit : Option ℚ) : Except ConfigError (Bool × Instance) := do
  let result ← first
  result.2.refresh 10 (readsOf 2 (acme limit))

theorem second_cases (limit : Option ℚ) (htrue : (second limit).map Prod.fst = .ok true) :
    ∃ s s', first = .ok (true, s) ∧
      s.refresh 10 (readsOf 2 (acme limit)) = .ok (true, s') ∧ second limit = .ok (true, s') := by
  obtain ⟨s, hs, -⟩ := converged_first
  have hsecond : second limit = s.refresh 10 (readsOf 2 (acme limit)) := by
    unfold second
    rw [hs]
    rfl
  cases h : s.refresh 10 (readsOf 2 (acme limit)) with
  | error e =>
      rw [hsecond, h] at htrue
      cases htrue
  | ok result =>
      obtain ⟨b, s'⟩ := result
      rw [hsecond, h] at htrue
      obtain rfl : b = true := Except.ok.inj htrue
      exact ⟨s, s', hs, h, hsecond.trans h⟩

/-- A budget that was cleared is still enforced, and one that was lowered is still
resolved as it was. -/
theorem not_converged_second :
    (∃ s s', first = .ok (true, s) ∧ s.refresh 10 (readsOf 2 (acme none)) = .ok (true, s') ∧
      ¬ Converged s s' (acme none) 10) ∧
    ∃ s s', first = .ok (true, s) ∧ s.refresh 10 (readsOf 2 (acme (some 10))) = .ok (true, s') ∧
      ¬ Converged s s' (acme (some 10)) 10 := by
  constructor
  · obtain ⟨s, s', hs, hs', hsecond⟩ := second_cases none (by decide +kernel)
    refine ⟨s, s', hs, hs', fun h ↦ ?_⟩
    have hbudget := (h.projects "acme" { projectId := "acme" } (by decide +kernel)).2
    have henforced : (second none).map (fun r ↦ r.2.tracker.projectBudget "acme") =
        .ok ⟨some 100, none⟩ := by decide +kernel
    rw [hsecond] at henforced
    have hstill := Except.ok.inj henforced
    rw [show s'.tracker.projectBudget "acme" = ⟨some 100, none⟩ from hstill] at hbudget
    cases hbudget
  · obtain ⟨s, s', hs, hs', hsecond⟩ := second_cases (some 10) (by decide +kernel)
    refine ⟨s, s', hs, hs', fun h ↦ ?_⟩
    have hnode : (second (some 10)).map (fun result ↦ result.2.resolver.map fun r ↦
        (r.nodes.lookup "acme", r.created, r.cache.lookup ("acme", "") |>.isNone)) =
        .ok (some (some (projectNode "acme" 100), ["acme"], true)) := by decide +kernel
    rw [hsecond] at hnode
    obtain ⟨r', hr', hr⟩ := Option.map_eq_some_iff.mp (Except.ok.inj hnode)
    simp only [Prod.mk.injEq, Option.isNone_iff_eq_none] at hr
    obtain ⟨hlookup, hcreated, hcache⟩ := hr
    have hresolved := h.resolved r' hr' "acme" (by rw [hcreated]; simp)
      { projectId := "acme", budgetLimit := some 10 } (by decide +kernel) "" none (.inl rfl)
    have hold : (r'.resolve "acme" "" none 10).budgetLimit = some 100 := by
      refine (budgetLimit_resolve (by simp) hlookup (.inl rfl)).mpr fun policy ts hsome ↦ ?_
      rw [hcache] at hsome
      cases hsome
    rw [hold] at hresolved
    revert hresolved
    decide +kernel

end AxonGateway.Config
