import AxonGateway.Routing.Router

/-!
# Round robin

All models share one strategy object, whose cursors are kept under a text made of the providers
and model ids of a list of mappings.  A model goes round its healthy mappings as long as no
other model has the same text.
-/

namespace AxonGateway.Routing

namespace Router

variable (R : Router)

/-- The model uses round robin over these mappings. -/
def UsesRoundRobin (model : String) (ms : List ProviderModelMapping) : Prop :=
  R.getStrategy model = .ok .roundRobin ∧ R.availableMappings model = some ms

/-- The choice of a mapping for a model. -/
def selectFor (now : ℚ) (model : String) (s : RouterState) :
    Except RouteError ProviderModelMapping × RouterState :=
  match R.getStrategy model, R.availableMappings model with
  | .ok strategy, some ms => select R.pricing now strategy ms s
  | .ok _, none => (.error (.keyError model), s)
  | .error e, _ => (.error e, s)

/-- The states of a router: nothing but a selection moves a cursor. -/
inductive Reachable : RouterState → Prop
  | start {s : RouterState} : (∀ key, s.indices key = 0) → Reachable s
  | select {s : RouterState} (now : ℚ) (model : String) :
      Reachable s → Reachable (R.selectFor now model s).2
  | other {s s' : RouterState} : s'.indices = s.indices → Reachable s → Reachable s'

abbrev Selections := List (String × Except RouteError ProviderModelMapping)

/-- The selections of a period in which every one of them sees the same health. -/
inductive Served (healthy : String → Bool) : RouterState → Selections → Prop
  | done {s : RouterState} : Served healthy s []
  | select {s : RouterState} {log : Selections} (now : ℚ) (model : String) :
      (∀ provider, s.isHealthy now provider = healthy provider) →
      Served healthy (R.selectFor now model s).2 log →
      Served healthy s ((model, (R.selectFor now model s).1) :: log)
  | other {s s' : RouterState} {log : Selections} :
      s'.indices = s.indices → Served healthy s' log → Served healthy s log

end Router

/-- The mappings that were selected for a model. -/
def picks (model : String) (log : Router.Selections) : List ProviderModelMapping :=
  log.filterMap fun e ↦ if e.1 = model then e.2.toOption else none

namespace Router

variable (R : Router)

/-- Each block of as many selections for a model as it has healthy mappings returns each of
these once. -/
def Fair : Prop :=
  ∀ s healthy log, R.Reachable s → R.Served healthy s log →
    ∀ model ms, R.UsesRoundRobin model ms → ∀ block, block <:+: picks model log →
      block.length = (ms.filter fun m ↦ healthy m.provider).length →
        block.Perm (ms.filter fun m ↦ healthy m.provider)

/-- No model with a choice shares its cursor with another. -/
def OwnCursors : Prop :=
  ∀ model model' ms ms', R.UsesRoundRobin model ms → R.UsesRoundRobin model' ms' →
    model ≠ model' → 2 ≤ ms.length → providerKey ms ≠ providerKey ms'

end Router

/-! ## Cursors -/

section Cursors

variable {R : Router} {now : ℚ} {s : RouterState} {model : String}
  {ms : List ProviderModelMapping}

@[simp] theorem indices_cleanUp (p : String) : (s.cleanUp now p).indices = s.indices := by
  unfold RouterState.cleanUp
  split_ifs <;> rfl

@[simp] theorem indices_cleanUpAll (ms : List ProviderModelMapping) :
    (cleanUpAll now s ms).indices = s.indices := by
  induction ms generalizing s with
  | nil => rfl
  | cons m ms ih => exact (ih (s := s.cleanUp now m.provider)).trans (indices_cleanUp _)

/-- A turn of a model with a healthy mapping: the mapping at the cursor, which moves on. -/
theorem selectFor_roundRobin (h : R.UsesRoundRobin model ms)
    (hne : healthyProviders now s ms ≠ []) :
    (R.selectFor now model s).1 = .ok ((healthyProviders now s ms).get ⟨s.indices (providerKey ms) %
        (healthyProviders now s ms).length, Nat.mod_lt _ (List.length_pos_of_ne_nil hne)⟩) ∧
      (R.selectFor now model s).2.indices = Function.update s.indices (providerKey ms)
        (s.indices (providerKey ms) + 1) := by
  have hlt := Nat.mod_lt (s.indices (providerKey ms)) (List.length_pos_of_ne_nil hne)
  simp only [Router.selectFor, h.1, h.2, select, if_neg hne, selectAmong, indices_cleanUpAll,
    List.getElem?_eq_getElem hlt]
  exact ⟨rfl, trivial⟩

theorem selectFor_none_healthy (h : R.UsesRoundRobin model ms)
    (hnone : healthyProviders now s ms = []) :
    (R.selectFor now model s).1 = .error .noHealthyProvider ∧
      (R.selectFor now model s).2.indices = s.indices := by
  simp only [Router.selectFor, h.1, h.2, select, if_pos hnone, indices_cleanUpAll]
  exact ⟨trivial, trivial⟩

/-- A turn moves no cursor but the one under the key of a round robin model. -/
theorem indices_selectFor_of_ne {key : String}
    (h : ∀ ms, R.UsesRoundRobin model ms → providerKey ms ≠ key) :
    (R.selectFor now model s).2.indices key = s.indices key := by
  unfold Router.selectFor
  cases hstrategy : R.getStrategy model with
  | error e => rfl
  | ok strategy =>
      cases hms : R.availableMappings model with
      | none => rfl
      | some ms =>
          dsimp only
          unfold select
          split_ifs with hne
          · rw [indices_cleanUpAll]
          · cases strategy with
            | roundRobin =>
                have hkey := h ms ⟨hstrategy, hms⟩
                simp only [selectAmong, indices_cleanUpAll]
                split
                · exact Function.update_of_ne hkey.symm _ _
                · rw [indices_cleanUpAll]
            | weighted =>
                simp only [selectAmong]
                split <;> exact congrFun (indices_cleanUpAll ms) key
            | leastLatency | costOptimized | smart =>
                simp only [selectAmong]
                split <;> exact congrFun (indices_cleanUpAll ms) key
            | ensemble => exact congrFun (indices_cleanUpAll ms) key

theorem isHealthy_selectFor (provider : String) :
    (R.selectFor now model s).2.isHealthy now provider = s.isHealthy now provider := by
  unfold Router.selectFor
  cases R.getStrategy model with
  | error e => rfl
  | ok strategy =>
      cases R.availableMappings model with
      | none => rfl
      | some ms => exact isHealthy_select _ _ _ _

end Cursors

/-! ## Own cursors are fair -/

section Fair

variable {R : Router} {healthy : String → Bool} {s : RouterState} {log : Router.Selections}
  {model : String} {ms : List ProviderModelMapping}

theorem picks_cons_self (result : Except RouteError ProviderModelMapping) :
    picks model ((model, result) :: log) = result.toOption.toList ++ picks model log := by
  cases result <;> simp [picks, Except.toOption]

theorem picks_cons_of_ne {model' : String} (h : model' ≠ model)
    (result : Except RouteError ProviderModelMapping) :
    picks model ((model', result) :: log) = picks model log := by
  simp [picks, h]

/-- Mappings in turn from a cursor. -/
def inTurn (l : List ProviderModelMapping) (cursor n : ℕ) : List ProviderModelMapping :=
  (List.range' cursor n).filterMap fun i ↦ l[i % l.length]?

theorem healthyProviders_of_forall {now : ℚ}
    (h : ∀ provider, s.isHealthy now provider = healthy provider) :
    healthyProviders now s ms = ms.filter fun m ↦ healthy m.provider :=
  List.filter_congr fun m _ ↦ h m.provider

/-- A model that has its cursor to itself goes round its healthy mappings. -/
theorem picks_eq_inTurn (hserved : R.Served healthy s log) (huses : R.UsesRoundRobin model ms)
    (hown : ∀ model' ms', R.UsesRoundRobin model' ms' → model' ≠ model →
      providerKey ms' ≠ providerKey ms) :
    ∃ n, picks model log =
      inTurn (ms.filter fun m ↦ healthy m.provider) (s.indices (providerKey ms)) n := by
  induction hserved with
  | done => exact ⟨0, rfl⟩
  | other hindices _ ih =>
      rw [hindices] at ih
      exact ih
  | @select s log now model' hhealth _ ih =>
      obtain ⟨n, hn⟩ := ih
      have hhealthy : healthyProviders now s ms = ms.filter fun m ↦ healthy m.provider :=
        healthyProviders_of_forall hhealth
      rcases eq_or_ne model' model with rfl | hne
      · by_cases hnone : healthyProviders now s ms = []
        · obtain ⟨herror, hindices⟩ := selectFor_none_healthy huses hnone
          refine ⟨n, ?_⟩
          rw [hindices] at hn
          rw [picks_cons_self, herror]
          exact hn
        · obtain ⟨hpick, hindices⟩ := selectFor_roundRobin huses hnone
          refine ⟨n + 1, ?_⟩
          rw [hindices, Function.update_self] at hn
          have hlt := Nat.mod_lt (s.indices (providerKey ms)) (List.length_pos_of_ne_nil hnone)
          rw [inTurn, List.range'_succ, List.filterMap_cons, ← hhealthy,
            List.getElem?_eq_getElem hlt, picks_cons_self, hpick]
          rw [inTurn, ← hhealthy] at hn
          exact congrArg _ hn
      · have hindices : (R.selectFor now model' s).2.indices (providerKey ms) =
            s.indices (providerKey ms) :=
          indices_selectFor_of_ne fun ms' hms' ↦ hown model' ms' hms' hne
        refine ⟨n, ?_⟩
        rw [hindices] at hn
        rw [picks_cons_of_ne hne]
        exact hn

theorem inTurn_eq_map {l : List ProviderModelMapping} (hl : l ≠ []) (cursor n : ℕ) :
    inTurn l cursor n = (List.range' cursor n).map fun i ↦
      l.get ⟨i % l.length, Nat.mod_lt _ (List.length_pos_of_ne_nil hl)⟩ := by
  rw [inTurn, ← List.filterMap_eq_map]
  exact List.filterMap_congr fun i _ ↦ List.getElem?_eq_getElem _

/-- A whole round is a rearrangement. -/
theorem inTurn_perm {l : List ProviderModelMapping} (hl : l ≠ []) (cursor : ℕ) :
    (inTurn l cursor l.length).Perm l := by
  have hrotate : inTurn l cursor l.length = l.rotate cursor := by
    rw [inTurn_eq_map hl]
    apply List.ext_getElem
    · simp
    · intro i hi hi'
      simp [List.getElem_rotate, Nat.add_comm]
  rw [hrotate]
  exact List.rotate_perm l cursor

/-- A part of mappings in turn is in turn. -/
theorem eq_inTurn_of_infix {l block : List ProviderModelMapping} {cursor n : ℕ} (hl : l ≠ [])
    (h : block <:+: inTurn l cursor n) : ∃ cursor', block = inTurn l cursor' block.length := by
  obtain ⟨before, rest, heq⟩ := h
  refine ⟨cursor + before.length, ?_⟩
  rw [inTurn_eq_map hl] at heq ⊢
  apply List.ext_getElem
  · simp
  · intro i hi hi'
    have hlt : before.length + i < (before ++ block ++ rest).length := by
      rw [List.length_append, List.length_append]
      omega
    have hpart : (before ++ block ++ rest)[before.length + i] = block[i] := by
      simp [List.getElem_append_right, hi]
    rw [← hpart]
    simp only [heq, List.getElem_map, List.getElem_range', one_mul, Nat.add_assoc]

theorem mem_of_mem_picks (hserved : R.Served healthy s log) (huses : R.UsesRoundRobin model ms)
    {m : ProviderModelMapping} (hm : m ∈ picks model log) :
    m ∈ ms.filter fun m ↦ healthy m.provider := by
  induction hserved with
  | done => cases hm
  | other _ _ ih => exact ih hm
  | @select s log now model' hhealth _ ih =>
      rcases eq_or_ne model' model with rfl | hne
      · by_cases hnone : healthyProviders now s ms = []
        · rw [picks_cons_self, (selectFor_none_healthy huses hnone).1] at hm
          exact ih hm
        · rw [picks_cons_self, (selectFor_roundRobin huses hnone).1] at hm
          rcases List.mem_append.mp hm with hm | hm
          · obtain rfl := List.mem_singleton.mp hm
            rw [← healthyProviders_of_forall hhealth]
            exact List.getElem_mem _
          · exact ih hm
      · rw [picks_cons_of_ne hne] at hm
        exact ih hm

theorem fair_of_ownCursors (h : R.OwnCursors) : R.Fair := by
  intro s healthy log _ hserved model ms huses block hblock hlength
  set hs := ms.filter fun m ↦ healthy m.provider with hhs
  by_cases hnone : hs = []
  · rw [hnone, List.length_nil] at hlength
    rw [List.eq_nil_of_length_eq_zero hlength, hnone]
  by_cases hmany : 2 ≤ ms.length
  · obtain ⟨n, hn⟩ := picks_eq_inTurn hserved huses fun model' ms' hms' hne hkey ↦
      h model model' ms ms' huses hms' hne.symm hmany hkey.symm
    rw [hn, ← hhs] at hblock
    obtain ⟨cursor, heq⟩ := eq_inTurn_of_infix hnone hblock
    rw [heq, hlength]
    exact inTurn_perm hnone cursor
  · -- one mapping, which is every selection
    have hle : hs.length ≤ ms.length := List.length_filter_le _ _
    have hpos : 0 < hs.length := List.length_pos_of_ne_nil hnone
    obtain ⟨m, hm⟩ := List.length_eq_one_iff.mp (by omega : hs.length = 1)
    obtain ⟨x, hx⟩ := List.length_eq_one_iff.mp (by omega : block.length = 1)
    have hmem : x ∈ hs := by
      apply mem_of_mem_picks hserved huses
      exact hblock.subset (by rw [hx]; exact List.mem_singleton_self x)
    rw [hm, List.mem_singleton] at hmem
    rw [hx, hm, hmem]

end Fair

/-! ## Shared cursors are not -/

section Shared

variable {R : Router} {now : ℚ} {s : RouterState} {model model' : String}
  {ms ms' : List ProviderModelMapping}

/-- Only a model without mappings has the empty key. -/
theorem providerKey_eq_empty (h : providerKey ms = "") : ms = [] := by
  unfold providerKey at h
  set parts := (ms.map fun m ↦ m.provider ++ ":" ++ m.modelId).insertionSort (· ≤ ·) with hparts
  have hlength : parts.length = ms.length := by simp [hparts]
  cases hcases : parts with
  | nil =>
      rw [hcases] at hlength
      exact List.eq_nil_of_length_eq_zero hlength.symm
  | cons a l =>
      have ha : a ∈ ms.map fun m ↦ m.provider ++ ":" ++ m.modelId := by
        apply (List.mem_insertionSort (· ≤ ·)).mp
        rw [← hparts, hcases]
        exact List.mem_cons_self
      obtain ⟨m, -, rfl⟩ := List.mem_map.mp ha
      have hcolon : ':' ∈ (",".intercalate parts).toList := by
        rw [String.toList_intercalate, hcases]
        cases l <;> simp
      rw [h] at hcolon
      cases hcolon

/-- The state after some turns at one moment. -/
def afterTurns (R : Router) (now : ℚ) (models : List String) (s : RouterState) : RouterState :=
  models.foldl (fun s model ↦ (R.selectFor now model s).2) s

/-- Some turns at one moment. -/
def turns (R : Router) (now : ℚ) : List String → RouterState → Router.Selections
  | [], _ => []
  | model :: models, s =>
      (model, (R.selectFor now model s).1) :: turns R now models (R.selectFor now model s).2

variable (now) in
theorem served_turns (models : List String) :
    R.Served (fun provider ↦ s.isHealthy now provider) s (turns R now models s) := by
  induction models generalizing s with
  | nil => exact .done
  | cons model models ih =>
      refine .select now model (fun _ ↦ rfl) ?_
      have hhealth : (fun provider ↦ (R.selectFor now model s).2.isHealthy now provider) =
          fun provider ↦ s.isHealthy now provider := by
        funext provider
        exact isHealthy_selectFor provider
      rw [← hhealth]
      exact ih

theorem turns_append (models models' : List String) :
    turns R now (models ++ models') s =
      turns R now models s ++ turns R now models' (afterTurns R now models s) := by
  induction models generalizing s with
  | nil => rfl
  | cons model models ih => exact congrArg _ ih

theorem afterTurns_append (models models' : List String) :
    afterTurns R now (models ++ models') s =
      afterTurns R now models' (afterTurns R now models s) := List.foldl_append ..

theorem picks_append (log log' : Router.Selections) :
    picks model (log ++ log') = picks model log ++ picks model log' := List.filterMap_append

/-- Every provider is up. -/
def AllHealthy (now : ℚ) (s : RouterState) : Prop := ∀ provider, s.isHealthy now provider = true

theorem AllHealthy.afterTurns (h : AllHealthy now s) (models : List String) :
    AllHealthy now (afterTurns R now models s) := by
  induction models generalizing s with
  | nil => exact h
  | cons model models ih => exact ih fun provider ↦ (isHealthy_selectFor provider).trans (h provider)

theorem AllHealthy.healthyProviders (h : AllHealthy now s) : healthyProviders now s ms = ms :=
  List.filter_eq_self.mpr fun m _ ↦ h m.provider

/-- One turn of a model while every provider is up. -/
theorem turn_of_allHealthy (h : AllHealthy now s) (huses : R.UsesRoundRobin model ms)
    (hne : ms ≠ []) : picks model (turns R now [model] s) =
        [ms.get ⟨s.indices (providerKey ms) % ms.length,
          Nat.mod_lt _ (List.length_pos_of_ne_nil hne)⟩] ∧
      (afterTurns R now [model] s).indices (providerKey ms) =
        s.indices (providerKey ms) + 1 := by
  have hhealthy : healthyProviders now s ms = ms := h.healthyProviders
  obtain ⟨hpick, hindices⟩ := selectFor_roundRobin huses (by rw [hhealthy]; exact hne)
  simp only [List.get_eq_getElem, hhealthy] at hpick
  constructor
  · rw [turns, turns, picks_cons_self, hpick]
    rfl
  · rw [afterTurns, List.foldl_cons, List.foldl_nil, hindices, Function.update_self]

theorem turns_replicate (h : AllHealthy now s) (huses : R.UsesRoundRobin model ms)
    (hne : ms ≠ []) (n : ℕ) : (picks model (turns R now (List.replicate n model) s)).length = n ∧
      (afterTurns R now (List.replicate n model) s).indices (providerKey ms) =
        s.indices (providerKey ms) + n := by
  induction n generalizing s with
  | zero => exact ⟨rfl, rfl⟩
  | succ n ih =>
      obtain ⟨hpick, hindices⟩ := turn_of_allHealthy h huses hne
      obtain ⟨hlength, hcursor⟩ := ih (h.afterTurns [model])
      rw [List.replicate_succ, ← List.singleton_append, turns_append, picks_append,
        afterTurns_append]
      constructor
      · rw [List.length_append, hpick, hlength, List.length_singleton, Nat.add_comm]
      · rw [hcursor, hindices]
        omega

theorem picks_turns_replicate_of_ne (h : model' ≠ model) (n : ℕ) :
    picks model (turns R now (List.replicate n model') s) = [] := by
  induction n generalizing s with
  | zero => rfl
  | succ n ih =>
      rw [List.replicate_succ, turns, picks_cons_of_ne h]
      exact ih

/-- The turns of another model between the first two of a model bring the cursor round to the
same mapping. -/
theorem ownCursors_of_fair (h : R.Fair) : R.OwnCursors := by
  intro model model' ms ms' huses huses' hne hmany hkey
  have hms : ms ≠ [] := List.ne_nil_of_length_pos (by omega)
  have hms' : ms' ≠ [] := by
    rintro rfl
    exact hms (providerKey_eq_empty hkey)
  let start : RouterState := ⟨fun _ ↦ none, fun _ ↦ [], fun _ ↦ 0, fun _ ↦ 0, []⟩
  have hstart : AllHealthy 0 start := fun _ ↦ rfl
  -- one turn of the model, a whole round less one of the other, and again the model
  obtain ⟨hfirst, hcursor₁⟩ := turn_of_allHealthy hstart huses hms
  have hhealthy₁ := hstart.afterTurns (R := R) [model]
  obtain ⟨-, hcursor₂⟩ := turns_replicate hhealthy₁ huses' hms' (ms.length - 1)
  have hhealthy₂ := hhealthy₁.afterTurns (R := R) (List.replicate (ms.length - 1) model')
  obtain ⟨hsecond, -⟩ := turn_of_allHealthy hhealthy₂ huses hms
  have hhealthy₃ := hhealthy₂.afterTurns (R := R) [model]
  obtain ⟨hrest, -⟩ := turns_replicate hhealthy₃ huses hms (ms.length - 2)
  have hround : (afterTurns R 0 (List.replicate (ms.length - 1) model')
      (afterTurns R 0 [model] start)).indices (providerKey ms) = ms.length := by
    rw [hkey, hcursor₂, ← hkey, hcursor₁]
    have hzero : start.indices (providerKey ms) = 0 := rfl
    omega
  simp only [hround, Nat.mod_self] at hsecond
  simp only [show start.indices (providerKey ms) = 0 from rfl, Nat.zero_mod] at hfirst
  set log := turns R 0 ([model] ++ (List.replicate (ms.length - 1) model' ++ ([model] ++
    List.replicate (ms.length - 2) model))) start with hlog
  obtain ⟨rest, hlength, hpicks⟩ : ∃ rest : List ProviderModelMapping,
      rest.length = ms.length - 2 ∧ picks model log = ms[0] :: ms[0] :: rest := by
    refine ⟨_, hrest, ?_⟩
    rw [hlog, turns_append, turns_append, turns_append, picks_append, picks_append, picks_append,
      hfirst, picks_turns_replicate_of_ne hne.symm, hsecond]
    rfl
  have hall : (ms.filter fun m ↦ start.isHealthy 0 m.provider) = ms := hstart.healthyProviders
  have hperm := h start _ log (.start fun _ ↦ rfl) (served_turns 0 _) model ms huses
    (picks model log) (List.infix_refl _) (by rw [hall, hpicks]; simp [hlength]; omega)
  rw [hall, hpicks] at hperm
  have hnodup := hperm.nodup_iff.mpr (Router.nodup_availableMappings huses.2)
  exact (List.nodup_cons.mp hnodup).1 List.mem_cons_self

/-- Round robin is fair exactly when no model with two mappings or more shares its key with
another model. -/
theorem fair_iff : R.Fair ↔ R.OwnCursors := ⟨ownCursors_of_fair, fair_of_ownCursors⟩

end Shared

/-- One model under two names. -/
def aliased : Router where
  modelRegistry :=
    { models := [{ name := "fast", providers := [⟨0, "a", "x", 1, 0, none⟩, ⟨1, "b", "y", 1, 1, none⟩],
                   distinct := by decide },
                 { name := "default", providers := [⟨2, "a", "x", 1, 0, none⟩, ⟨3, "b", "y", 1, 1, none⟩],
                   distinct := by decide }]
      distinct := by decide }

/-- Its selections in turn give one name the same mapping twice. -/
theorem not_fair_aliased : ¬ aliased.Fair := by
  intro h
  have hperm := h ⟨fun _ ↦ none, fun _ ↦ [], fun _ ↦ 0, fun _ ↦ 0, []⟩ _ _ (.start fun _ ↦ rfl)
    (served_turns 0 ["fast", "default", "fast"]) "fast" _ ⟨rfl, rfl⟩ _ (List.infix_refl _)
    (by decide +kernel)
  revert hperm
  decide +kernel

end AxonGateway.Routing