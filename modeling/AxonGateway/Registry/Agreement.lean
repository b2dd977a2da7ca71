import AxonGateway.Registry.Fleet

/-!
# Agreement of the instances

Every instance has the registry of its file or of one published document, the revisions count the
published documents, and an edit of the newest document loses nothing of it.
-/

namespace AxonGateway.Registry

open PyValue Screening Adapters JsonText Outcome

variable {isPrintable : Char → Bool} {N : Numbers} {sha256 : Text → Text}

/-- The registry of an instance that has adopted a document. -/
def adopted (isPrintable : Char → Bool) (N : Numbers) (snapshot : RoutingConfigSnapshot) :
    ModelRegistry := (snapshot.apply isPrintable N ⟨[], 0⟩).2

/-- The document is made of the edit, and of the registry that the instance had. -/
structure Commit.Made (isPrintable : Char → Bool) (N : Numbers) (sha256 : Text → Text) (c : Commit) :
    Prop where
  wellFormed : WellFormed N c.held.models
  made : ∃ config, c.edit.candidate c.held.models = some config ∧ JsonText.IsJson N.read (.obj config) ∧
    fromConfig isPrintable N sha256 config (c.expected + 1) = .ok c.snapshot

namespace Commit.Made

variable {c : Commit} (h : c.Made isPrintable N sha256)

include h

theorem revision : c.snapshot.revision = c.expected + 1 ∧ 0 ≤ c.expected + 1 := by
  obtain ⟨config, -, -, hsnapshot⟩ := h.made
  obtain ⟨hrevision, -, -, heq⟩ := fromConfig_eq_ok_iff.mp hsnapshot
  rw [heq]
  exact ⟨rfl, hrevision⟩

/-- It is adopted by every registry alike. -/
theorem apply (hsha : ∀ t, isSha256 (sha256 t) = true) (registry : ModelRegistry) :
    c.snapshot.apply isPrintable N registry = (.ok (), adopted isPrintable N c.snapshot) := by
  obtain ⟨config, -, hjson, hsnapshot⟩ := h.made
  obtain ⟨-, models, -, happly⟩ := snapshot_of_config hsha hjson hsnapshot
  rw [adopted, happly, happly]

theorem adopted_spec (hsha : ∀ t, isSha256 (sha256 t) = true) :
    WellFormed N (adopted isPrintable N c.snapshot).models ∧
      (adopted isPrintable N c.snapshot).revision = c.snapshot.revision := by
  obtain ⟨config, -, hjson, hsnapshot⟩ := h.made
  obtain ⟨-, models, hmodels, happly⟩ := snapshot_of_config hsha hjson hsnapshot
  have hsorted := hjson.sorted
  rw [sorted_obj] at hsorted
  rw [adopted, happly]
  exact ⟨wellFormed_of_modelsOf hsorted hmodels, rfl⟩

/-- It is read back from the store. -/
theorem deserialize (hsha : ∀ t, isSha256 (sha256 t) = true) (hexpected : 0 ≤ c.expected) :
    deserialize isPrintable N sha256 c.snapshot = .ok c.snapshot := by
  obtain ⟨config, -, hjson, hsnapshot⟩ := h.made
  obtain ⟨hread, -⟩ := snapshot_of_config hsha hjson hsnapshot
  have hrevision := h.revision.1
  rw [Registry.deserialize, if_neg (by omega), hread]

end Commit.Made

/-! ### The invariant -/

section Invariant

variable (isPrintable N sha256)

/-- A published document has the revision of its place. -/
structure Published (log : List Commit) : Prop where
  made : ∀ c ∈ log, c.Made isPrintable N sha256
  place : ∀ (n : ℕ) (c : Commit), log[n]? = some c → c.expected = n

/-- The registry is that of the file or of a published document. -/
def Follows (log : List Commit) (file : ModelRegistry) (registry : ModelRegistry) : Prop :=
  registry = file ∨ ∃ c ∈ log, registry = adopted isPrintable N c.snapshot

/-- Whatever is on its way comes of the log. -/
def Task.Follows (log : List Commit) (file : ModelRegistry) : Task → Prop
  | .saving c => c.Made isPrintable N sha256 ∧ 0 ≤ c.expected ∧
      Registry.Follows isPrintable N log file c.held
  | .saved snapshot => ∃ c ∈ log, snapshot = c.snapshot
  | .reloaded row => ∀ snapshot ∈ row, ∃ c ∈ log, snapshot = c.snapshot
  | .refreshed _ _ row => ∀ snapshot ∈ row, ∃ c ∈ log, snapshot = c.snapshot
  | _ => True

structure Instance.Follows (log : List Commit) (file : ModelRegistry) (inst : Instance) : Prop where
  registry : Registry.Follows isPrintable N log file inst.registry
  tasks : ∀ t ∈ inst.tasks, t.Follows isPrintable N sha256 log file

structure Coherent {ι : Type} (base : ι → Bootstrap N) (F : Fleet ι) : Prop where
  row : F.row = F.log.getLast?.map Commit.snapshot
  published : Published isPrintable N sha256 F.log
  held : ∀ c ∈ F.log, ∃ i, Registry.Follows isPrintable N F.log (base i).registry c.held
  instances : ∀ i, (F.instances i).Follows isPrintable N sha256 F.log (base i).registry

end Invariant

section Growth

variable {log : List Commit} {file registry : ModelRegistry} {c : Commit}

theorem Follows.append (h : Follows isPrintable N log file registry) (c : Commit) :
    Follows isPrintable N (log ++ [c]) file registry := by
  rcases h with h | ⟨c', hc', h⟩
  · exact .inl h
  · exact .inr ⟨c', List.mem_append_left _ hc', h⟩

theorem Task.Follows.append {t : Task} (h : t.Follows isPrintable N sha256 log file) (c : Commit) :
    t.Follows isPrintable N sha256 (log ++ [c]) file := by
  have hsome : ∀ {snapshot : RoutingConfigSnapshot}, (∃ c ∈ log, snapshot = c.snapshot) →
      ∃ c' ∈ log ++ [c], snapshot = c'.snapshot :=
    fun ⟨c', hc', h⟩ ↦ ⟨c', List.mem_append_left _ hc', h⟩
  cases t with
  | saving c' => exact ⟨h.1, h.2.1, h.2.2.append c⟩
  | saved snapshot => exact hsome h
  | reloaded row => exact fun snapshot hrow ↦ hsome (h snapshot hrow)
  | refreshed generation afterRevision row => exact fun snapshot hrow ↦ hsome (h snapshot hrow)
  | _ => trivial

theorem Instance.Follows.append {inst : Instance} (h : inst.Follows isPrintable N sha256 log file)
    (c : Commit) : inst.Follows isPrintable N sha256 (log ++ [c]) file :=
  ⟨h.registry.append c, fun t ht ↦ (h.tasks t ht).append c⟩

/-- An accepted document comes next. -/
theorem Published.append (h : Published isPrintable N sha256 log) (hc : c.Made isPrintable N sha256)
    (hplace : c.expected = log.length) : Published isPrintable N sha256 (log ++ [c]) := by
  refine ⟨List.forall_mem_append.mpr ⟨h.made, List.forall_mem_singleton.mpr hc⟩, fun n c' hn ↦ ?_⟩
  rcases lt_trichotomy n log.length with hlt | rfl | hgt
  · rw [List.getElem?_append_left hlt] at hn
    exact h.place n c' hn
  · rw [List.getElem?_concat_length] at hn
    rw [← Option.some.inj hn, hplace]
  · rw [List.getElem?_eq_none (by simp; omega)] at hn
    cases hn

theorem Published.expected_nonneg (h : Published isPrintable N sha256 log) (hc : c ∈ log) :
    0 ≤ c.expected := by
  obtain ⟨n, hn⟩ := List.mem_iff_getElem?.mp hc
  rw [h.place n c hn]
  exact Int.natCast_nonneg n

/-- The store accepts a document where its revision is that of the newest one. -/
theorem Published.expected_of_accepts (h : Published isPrintable N sha256 log) {expected : ℤ}
    (haccepts : accepts (log.getLast?.map Commit.snapshot) expected) : expected = log.length := by
  cases hlast : log.getLast? with
  | none =>
      rw [hlast] at haccepts
      rw [List.getLast?_eq_none_iff.mp hlast]
      exact haccepts
  | some c =>
      rw [hlast] at haccepts
      obtain ⟨-, hrevision⟩ := haccepts
      have hc : c ∈ log := List.mem_of_getLast? hlast
      have hplace : log[log.length - 1]? = some c := by rw [← List.getLast?_eq_getElem?, hlast]
      have hpos : 0 < log.length := List.length_pos_of_mem hc
      have hexpected := h.place _ c hplace
      have hmade := (h.made c hc).revision.1
      omega

end Growth

/-! ### One step of an instance -/

section Steps

variable {log : List Commit} {file : Bootstrap N} {inst : Instance}

theorem Follows.wellFormed (hsha : ∀ t, isSha256 (sha256 t) = true)
    (hlog : Published isPrintable N sha256 log) {registry : ModelRegistry}
    (h : Follows isPrintable N log file.registry registry) :
    WellFormed N registry.models ∧ 0 ≤ registry.revision := by
  rcases h with rfl | ⟨c, hc, rfl⟩
  · exact ⟨file.wellFormed, file.revision.ge⟩
  · obtain ⟨hwell, hrevision⟩ := (hlog.made c hc).adopted_spec hsha
    rw [hrevision, (hlog.made c hc).revision.1]
    exact ⟨hwell, (hlog.made c hc).revision.2⟩

/-- An edit is made of the registry that the instance has. -/
theorem Instance.Follows.save (hsha : ∀ t, isSha256 (sha256 t) = true)
    (hlog : Published isPrintable N sha256 log)
    (h : inst.Follows isPrintable N sha256 log file.registry) {edit : Edit} (hedit : edit.IsJson N)
    {ifMatch : Option ℕ} {maxDocumentBytes : ℕ} {c : Commit}
    (hsave : inst.save isPrintable N sha256 maxDocumentBytes edit ifMatch = some c) :
    (Task.saving c).Follows isPrintable N sha256 log file.registry := by
  obtain ⟨hwell, hnonneg⟩ := h.registry.wellFormed hsha hlog
  unfold Instance.save at hsave
  cases hcandidate : edit.candidate inst.registry.models with
  | none =>
      rw [hcandidate] at hsave
      cases hsave
  | some config =>
      rw [hcandidate] at hsave
      dsimp only at hsave
      cases hsnapshot : fromConfig isPrintable N sha256 config
          ((ifMatch.map Int.ofNat).getD inst.registry.revision + 1) with
      | error e =>
          rw [hsnapshot] at hsave
          cases hsave
      | ok snapshot =>
          rw [hsnapshot] at hsave
          dsimp only at hsave
          split_ifs at hsave
          obtain rfl := Option.some.inj hsave
          refine ⟨⟨hwell, config, hcandidate, Edit.isJson_candidate hedit hwell hcandidate, hsnapshot⟩,
            ?_, h.registry⟩
          cases ifMatch with
          | none => exact hnonneg
          | some revision => exact Int.natCast_nonneg revision

theorem Instance.Follows.publish (hsha : ∀ t, isSha256 (sha256 t) = true)
    (hlog : Published isPrintable N sha256 log)
    (h : inst.Follows isPrintable N sha256 log file.registry) {c : Commit} (hc : c ∈ log) :
    (inst.publish isPrintable N c.snapshot).Follows isPrintable N sha256 log file.registry ∧
      (inst.publish isPrintable N c.snapshot).registry = adopted isPrintable N c.snapshot := by
  unfold Instance.publish
  rw [(hlog.made c hc).apply hsha]
  exact ⟨⟨.inr ⟨c, hc, rfl⟩, h.tasks⟩, rfl⟩

/-- What an instance does with an answer leaves it with a published registry, or with its own. -/
theorem Instance.Follows.resume (hsha : ∀ t, isSha256 (sha256 t) = true)
    (hlog : Published isPrintable N sha256 log)
    (h : inst.Follows isPrintable N sha256 log file.registry) {t : Task}
    (ht : t.Follows isPrintable N sha256 log file.registry) :
    (inst.resume isPrintable N sha256 t).Follows isPrintable N sha256 log file.registry := by
  cases t with
  | saved snapshot =>
      obtain ⟨c, hc, rfl⟩ := ht
      exact (h.publish hsha hlog hc).1
  | reloaded row =>
      cases row with
      | none => exact h
      | some snapshot =>
          obtain ⟨c, hc, rfl⟩ := ht snapshot rfl
          rw [Instance.resume, Instance.reload,
            (hlog.made c hc).deserialize hsha (hlog.expected_nonneg hc)]
          exact (h.publish hsha hlog hc).1
  | refreshed generation afterRevision row =>
      cases row with
      | none => exact h
      | some snapshot =>
          obtain ⟨c, hc, rfl⟩ := ht snapshot rfl
          rw [Instance.resume, Instance.refresh,
            (hlog.made c hc).deserialize hsha (hlog.expected_nonneg hc)]
          dsimp only
          split_ifs
          · exact h
          · exact h
          · exact h
          · exact h
          · rw [(hlog.made c hc).apply hsha]
            exact ⟨.inr ⟨c, hc, rfl⟩, h.tasks⟩
  | _ => exact h

theorem Instance.Follows.boot (hsha : ∀ t, isSha256 (sha256 t) = true)
    (hlog : Published isPrintable N sha256 log) :
    (boot isPrintable N sha256 file.registry (log.getLast?.map Commit.snapshot)).Follows
      isPrintable N sha256 log file.registry := by
  cases hlast : log.getLast? with
  | none => exact ⟨.inl rfl, by simp [Registry.boot]⟩
  | some c =>
      have hc : c ∈ log := List.mem_of_getLast? hlast
      rw [Option.map_some, Registry.boot,
        (hlog.made c hc).deserialize hsha (hlog.expected_nonneg hc)]
      dsimp only
      rw [(hlog.made c hc).apply hsha]
      exact ⟨.inr ⟨c, hc, rfl⟩, by simp⟩

theorem Instance.Follows.withTasks (h : inst.Follows isPrintable N sha256 log file.registry)
    {tasks : List Task} (htasks : ∀ t ∈ tasks, t.Follows isPrintable N sha256 log file.registry) :
    (inst.withTasks tasks).Follows isPrintable N sha256 log file.registry :=
  ⟨h.registry, htasks⟩

end Steps

/-! ### Runs -/

section Runs

variable {ι : Type} [DecidableEq ι] {base : ι → Bootstrap N} {maxDocumentBytes : ℕ} {F F' : Fleet ι}

theorem Coherent.set (h : Coherent isPrintable N sha256 base F) {i : ι} {inst : Instance}
    (hinst : inst.Follows isPrintable N sha256 F.log (base i).registry) :
    Coherent isPrintable N sha256 base (F.set i inst) := by
  refine ⟨h.row, h.published, h.held, fun j ↦ ?_⟩
  by_cases hj : j = i
  · subst hj
    rw [Fleet.instances_set_self]
    exact hinst
  · rw [Fleet.instances_set_of_ne F hj]
    exact h.instances j

omit [DecidableEq ι] in
/-- The tasks that are left are as they were. -/
theorem Coherent.tasks (h : Coherent isPrintable N sha256 base F) {i : ι} {before after : List Task}
    {t : Task} (htasks : (F.instances i).tasks = before ++ t :: after) :
    t.Follows isPrintable N sha256 F.log (base i).registry ∧
      ∀ t' ∈ before ++ after, t'.Follows isPrintable N sha256 F.log (base i).registry := by
  have hall := (h.instances i).tasks
  rw [htasks, List.forall_mem_append, List.forall_mem_cons] at hall
  exact ⟨hall.2.1, List.forall_mem_append.mpr ⟨hall.1, hall.2.2⟩⟩

theorem Coherent.replace (h : Coherent isPrintable N sha256 base F) {i : ι}
    {before after : List Task} {t t' : Task} (htasks : (F.instances i).tasks = before ++ t :: after)
    (ht' : t'.Follows isPrintable N sha256 F.log (base i).registry) :
    Coherent isPrintable N sha256 base
      (F.set i ((F.instances i).withTasks (before ++ t' :: after))) := by
  have hrest := List.forall_mem_append.mp (h.tasks htasks).2
  exact h.set ((h.instances i).withTasks
    (List.forall_mem_append.mpr ⟨hrest.1, List.forall_mem_cons.mpr ⟨ht', hrest.2⟩⟩))

/-- A write that the store accepts publishes the next document. -/
theorem Coherent.put (h : Coherent isPrintable N sha256 base F) {i : ι} {before after : List Task}
    {c : Commit} (htasks : (F.instances i).tasks = before ++ .saving c :: after)
    (haccepts : accepts F.row c.expected) (answer : Option Unit) :
    Coherent isPrintable N sha256 base ⟨some c.snapshot, F.log ++ [c],
      (F.set i ((F.instances i).withTasks
        (before ++ (answer.map fun _ ↦ Task.saved c.snapshot).toList ++ after))).instances⟩ := by
  obtain ⟨⟨hmade, -, hheld⟩, hrest⟩ := h.tasks htasks
  rw [List.forall_mem_append] at hrest
  have hplace : c.expected = F.log.length := by
    rw [h.row] at haccepts
    exact h.published.expected_of_accepts haccepts
  refine ⟨by simp, h.published.append hmade hplace, ?_, fun j ↦ ?_⟩
  · refine List.forall_mem_append.mpr ⟨fun c' hc' ↦ ?_, List.forall_mem_singleton.mpr ⟨i, hheld.append c⟩⟩
    obtain ⟨j, hj⟩ := h.held c' hc'
    exact ⟨j, hj.append c⟩
  · have hsaved : ∀ t ∈ (answer.map fun _ ↦ Task.saved c.snapshot).toList,
        t.Follows isPrintable N sha256 (F.log ++ [c]) (base i).registry := by
      intro t ht
      obtain ⟨_, -, rfl⟩ := Option.map_eq_some_iff.mp (Option.mem_toList.mp ht)
      exact ⟨c, List.mem_append_right _ List.mem_cons_self, rfl⟩
    dsimp only
    by_cases hj : j = i
    · subst hj
      rw [Fleet.instances_set_self]
      exact ((h.instances j).append c).withTasks (List.forall_mem_append.mpr
        ⟨List.forall_mem_append.mpr ⟨fun t ht ↦ (hrest.1 t ht).append c, hsaved⟩,
          fun t ht ↦ (hrest.2 t ht).append c⟩)
    · rw [Fleet.instances_set_of_ne F hj]
      exact (h.instances j).append c

/-- Every step keeps the fleet coherent. -/
theorem Coherent.step (hsha : ∀ t, isSha256 (sha256 t) = true)
    (h : Coherent isPrintable N sha256 base F)
    (hstep : Step isPrintable N sha256 maxDocumentBytes base F F') :
    Coherent isPrintable N sha256 base F' := by
  have hstored : ∀ snapshot ∈ F.row, ∃ c ∈ F.log, snapshot = c.snapshot := by
    intro snapshot hrow
    rw [h.row] at hrow
    obtain ⟨c, hlast, rfl⟩ := Option.map_eq_some_iff.mp hrow
    exact ⟨c, List.mem_of_getLast? hlast, rfl⟩
  cases hstep with
  | edit i edit hedit ifMatch c hsave =>
      exact h.set ((h.instances i).withTasks (List.forall_mem_cons.mpr
        ⟨(h.instances i).save hsha h.published hedit hsave, (h.instances i).tasks⟩))
  | poll i =>
      exact h.set ((h.instances i).withTasks
        (List.forall_mem_cons.mpr ⟨trivial, (h.instances i).tasks⟩))
  | put i before after c htasks haccepts answer => exact h.put htasks haccepts answer
  | refuse i before after c htasks hrefuses =>
      have ht' : Task.conflicted.Follows isPrintable N sha256 F.log (base i).registry := trivial
      exact h.replace htasks ht'
  | read i before after t t' htasks hread =>
      refine h.replace htasks ?_
      cases t with
      | conflicted =>
          obtain rfl := Option.some.inj hread
          exact hstored
      | refreshing generation afterRevision =>
          obtain rfl := Option.some.inj hread
          exact hstored
      | _ => cases hread
  | resume i before after t htasks =>
      obtain ⟨ht, hrest⟩ := h.tasks htasks
      exact h.set (((h.instances i).resume hsha h.published ht).withTasks hrest)
  | restart i =>
      rw [h.row]
      exact h.set (Instance.Follows.boot hsha h.published)

theorem Reachable.coherent (hsha : ∀ t, isSha256 (sha256 t) = true)
    (h : Reachable isPrintable N sha256 maxDocumentBytes base F) :
    Coherent isPrintable N sha256 base F := by
  induction h with
  | refl =>
      exact ⟨rfl, ⟨by simp, by simp⟩, by simp, fun i ↦ ⟨.inl rfl, by simp⟩⟩
  | tail _ hstep ih => exact ih.step hsha hstep

omit [DecidableEq ι] in
/-- A registry that is not that of the file is that of the document with its revision. -/
theorem Coherent.place (hsha : ∀ t, isSha256 (sha256 t) = true)
    (h : Coherent isPrintable N sha256 base F) {i : ι} {registry : ModelRegistry}
    (hregistry : Follows isPrintable N F.log (base i).registry registry) :
    registry = (base i).registry ∨ ∃ (n : ℕ) (c : Commit), F.log[n]? = some c ∧
      registry = adopted isPrintable N c.snapshot ∧ registry.revision = n + 1 := by
  rcases hregistry with heq | ⟨c, hc, rfl⟩
  · exact .inl heq
  · obtain ⟨n, hn⟩ := List.mem_iff_getElem?.mp hc
    have hmade := h.published.made c hc
    refine .inr ⟨n, c, hn, rfl, ?_⟩
    rw [(hmade.adopted_spec hsha).2, hmade.revision.1, h.published.place n c hn]

end Runs

/-! ### One model is created -/

def emptyFile : Bootstrap plainNumbers where
  registry := ⟨[], 0⟩
  wellFormed := ⟨by simp, List.nodup_nil, by simp⟩
  revision := rfl

def plainInstance : Instance := ⟨⟨[], 0⟩, 0, []⟩

/-- The instance has a document to publish. -/
theorem exists_plainCommit : ∃ c : Commit, plainInstance.save (fun _ ↦ true) plainNumbers zeros 358400
    (.create (plainModel "small".toList)) none = some c ∧ c.expected = 0 := by
  have hexpected : (plainInstance.save (fun _ ↦ true) plainNumbers zeros 358400
      (.create (plainModel "small".toList)) none).map Commit.expected = some 0 := by
    decide +kernel
  obtain ⟨c, hc, h⟩ := Option.map_eq_some_iff.mp hexpected
  exact ⟨c, hc, h⟩

def startedFleet : Fleet Bool := ⟨none, [], fun _ ↦ plainInstance⟩

def editedFleet (c : Commit) : Fleet Bool :=
  startedFleet.set true ((startedFleet.instances true).withTasks [.saving c])

def storedFleet (c : Commit) : Fleet Bool :=
  ⟨some c.snapshot, [c], ((editedFleet c).set true
    (((editedFleet c).instances true).withTasks [.saved c.snapshot])).instances⟩

def publishedFleet (c : Commit) : Fleet Bool :=
  (storedFleet c).set true ((((storedFleet c).instances true).resume (fun _ ↦ true) plainNumbers zeros
    (.saved c.snapshot)).withTasks [])

/-- One instance creates a model and has published it. -/
theorem reachable_publishedFleet {c : Commit} (hsave : plainInstance.save (fun _ ↦ true) plainNumbers
    zeros 358400 (.create (plainModel "small".toList)) none = some c) (hexpected : c.expected = 0) :
    Reachable (fun _ ↦ true) plainNumbers zeros 358400 (fun _ : Bool ↦ emptyFile)
      (publishedFleet c) := by
  have hedit : Step (fun _ ↦ true) plainNumbers zeros 358400 (fun _ : Bool ↦ emptyFile)
      startedFleet (editedFleet c) :=
    .edit startedFleet true (.create (plainModel "small".toList)) (isJson_plainModel _) none c hsave
  have hput : Step (fun _ ↦ true) plainNumbers zeros 358400 (fun _ : Bool ↦ emptyFile)
      (editedFleet c) (storedFleet c) := .put (editedFleet c) true [] [] c rfl hexpected (some ())
  have hresume : Step (fun _ ↦ true) plainNumbers zeros 358400 (fun _ : Bool ↦ emptyFile)
      (storedFleet c) (publishedFleet c) :=
    .resume (storedFleet c) true [] [] (.saved c.snapshot) rfl
  exact ((Relation.ReflTransGen.single hedit).tail hput).tail hresume

end AxonGateway.Registry
