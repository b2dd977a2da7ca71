import AxonGateway.Policy.Resolver

/-!
# The snapshot of a resolver

A refresh that was overtaken by a write of the resolver is dropped; a write that
was overtaken by a refresh is not.  The snapshot stays one of the store's
hierarchies, and only moves forward, as long as no snapshot newer than a
committed write is taken over while the answer to the write is still awaited.
-/

namespace AxonGateway.Policy.Resolver

open Interleaving

variable {i j : ℕ} {w w' w₁ w₂ w₃ : World}

/-- The snapshot is the store's hierarchy at its revision. -/
def Consistent (w : World) : Prop :=
  ∀ ns, w.adopted = some ns → ∃ nodes, w.versions[ns.revision]? = some nodes ∧
    ∀ id, ns.nodes.lookup id = nodes.lookup id

/-- The revision of the snapshot does not decrease. -/
def Advances (w w' : World) : Prop :=
  ∀ ns, w.adopted = some ns → ∃ ns', w'.adopted = some ns' ∧ ns.revision ≤ ns'.revision

/-- No snapshot is taken over that is newer than a write whose answer is awaited. -/
def Undisturbed (i : ℕ) : Op → World → Prop
  | .endRefresh _ generation (.snapshot _ revision), w =>
      generation = w.generation → ∀ e ∈ w.awaiting, revision ≤ e.2
  | .adoptWrite _ revision, w => ∀ e ∈ w.awaiting, e ≠ (i, revision) → revision ≤ e.2
  | _, _ => True

/-- The task is not done yet. -/
def RefreshTask.Live : RefreshTask → Prop
  | .done _ => False
  | _ => True

structure Inv (w : World) : Prop where
  nonempty : w.versions ≠ []
  consistent : Consistent w
  awaiting : ∀ e ∈ w.awaiting, e.2 < w.versions.length ∧
    ∀ ns, w.adopted = some ns → ns.revision ≤ e.2
  live : ∀ (id : ℕ) (task : RefreshTask), w.tasks[id]? = some task → task.Live → w.registered = some id

/-- What the others leave to program `i`: the store's history, the task that it
runs and the answers that it awaits. -/
structure Leaves (i : ℕ) (w w' : World) : Prop where
  versions : w.versions <+: w'.versions
  advances : Advances w w'
  runs : ∀ id : ℕ, w.tasks[id]? = some (RefreshTask.running i) →
    w'.tasks[id]? = some (RefreshTask.running i) ∧ w.generation ≤ w'.generation ∧
      (w'.generation = w.generation → w'.adopted = w.adopted)
  awaiting : ∀ revision, (i, revision) ∈ w.awaiting → (i, revision) ∈ w'.awaiting

theorem Advances.refl (w : World) : Advances w w := fun ns h ↦ ⟨ns, h, le_rfl⟩

theorem Advances.trans (h : Advances w₁ w₂) (h' : Advances w₂ w₃) : Advances w₁ w₃ := by
  intro ns hns
  obtain ⟨ns₂, hns₂, hle⟩ := h ns hns
  obtain ⟨ns₃, hns₃, hle'⟩ := h' ns₂ hns₂
  exact ⟨ns₃, hns₃, hle.trans hle'⟩

theorem Leaves.refl (i : ℕ) (w : World) : Leaves i w w :=
  ⟨List.prefix_rfl, Advances.refl w, fun _ h ↦ ⟨h, le_rfl, fun _ ↦ rfl⟩, fun _ h ↦ h⟩

theorem Leaves.trans (h : Leaves i w₁ w₂) (h' : Leaves i w₂ w₃) : Leaves i w₁ w₃ := by
  refine ⟨h.versions.trans h'.versions, h.advances.trans h'.advances, fun id hid ↦ ?_,
    fun r hr ↦ h'.awaiting r (h.awaiting r hr)⟩
  obtain ⟨hid₂, hle, hsame⟩ := h.runs id hid
  obtain ⟨hid₃, hle', hsame'⟩ := h'.runs id hid₂
  refine ⟨hid₃, hle.trans hle', fun heq ↦ ?_⟩
  have h₂ : w₂.generation = w₁.generation := by omega
  rw [hsame' (heq.trans h₂.symm), hsame h₂]

/-- What does not touch tasks, snapshot and awaited answers. -/
theorem Leaves.of_versions (hversions : w.versions <+: w'.versions)
    (hadopted : w'.adopted = w.adopted) (hgeneration : w'.generation = w.generation)
    (htasks : w'.tasks = w.tasks)
    (hawaiting : ∀ r, (i, r) ∈ w.awaiting → (i, r) ∈ w'.awaiting) : Leaves i w w' := by
  refine ⟨hversions, fun ns hns ↦ ⟨ns, hadopted.trans hns, le_rfl⟩, fun id hid ↦ ?_, hawaiting⟩
  rw [htasks]
  exact ⟨hid, hgeneration.ge, fun _ ↦ hadopted⟩

theorem getElem?_of_grown {α : Type} {l l' : List α} (h : l <+: l') {n : ℕ} {a : α}
    (ha : l[n]? = some a) : l'[n]? = some a := by
  obtain ⟨t, rfl⟩ := h
  obtain ⟨hlt, -⟩ := List.getElem?_eq_some_iff.mp ha
  rw [List.getElem?_append_left hlt, ha]

theorem Consistent.grow (h : Consistent w) (hversions : w.versions <+: w'.versions)
    (hadopted : w'.adopted = w.adopted) : Consistent w' := by
  intro ns hns
  obtain ⟨nodes, hnodes, hlookup⟩ := h ns (hadopted ▸ hns)
  exact ⟨nodes, getElem?_of_grown hversions hnodes, hlookup⟩

/-! ## Tasks -/

section Tasks

variable {id : ℕ} {task task' : RefreshTask}

theorem Inv.eq_of_live (hinv : Inv w) (hid : w.tasks[id]? = some task) (hlive : task.Live)
    {id' : ℕ} (hid' : w.tasks[id']? = some task') (hlive' : task'.Live) : id' = id := by
  have heq := (hinv.live id' task' hid' hlive').symm.trans (hinv.live id task hid hlive)
  simpa using heq

/-- The one task that is not done may change its state. -/
theorem Inv.live_set (hinv : Inv w) (hid : w.tasks[id]? = some task) (hlive : task.Live) {k : ℕ}
    {t : RefreshTask} (hk : (w.tasks.set id task')[k]? = some t) (ht : t.Live) :
    w.registered = some k := by
  rcases eq_or_ne id k with rfl | hne
  · exact hinv.live id task hid hlive
  · rw [List.getElem?_set_ne hne] at hk
    exact hinv.live k t hk ht

/-- While one program runs a task, no other program does. -/
theorem Inv.not_running (hinv : Inv w) (hid : w.tasks[id]? = some task) (hlive : task.Live)
    (htask : task ≠ .running j) {k : ℕ} : w.tasks[k]? ≠ some (RefreshTask.running j) := by
  intro hk
  obtain rfl := hinv.eq_of_live hid hlive hk trivial
  rw [hid] at hk
  exact htask (Option.some.inj hk)

theorem Inv.unregister (hinv : Inv w) {result : Except SetNodeError Unit}
    (hdone : w.tasks[id]? = some (.done result)) :
    Inv (w.unregister id) ∧ Leaves j w (w.unregister id) := by
  unfold World.unregister
  split_ifs with hregistered
  · refine ⟨⟨hinv.nonempty, hinv.consistent, hinv.awaiting, fun k t hk hlive ↦ ?_⟩,
      Leaves.of_versions List.prefix_rfl rfl rfl rfl fun _ h ↦ h⟩
    -- the registered task is done, so none is live
    have heq := (hinv.live k t hk hlive).symm.trans hregistered
    obtain rfl : k = id := by simpa using heq
    rw [hdone] at hk
    cases hk
    exact absurd hlive id
  · exact ⟨hinv, Leaves.refl j w⟩

theorem Inv.createTask (hinv : Inv w) (hnone : w.registered = none) :
    Inv { w with tasks := w.tasks ++ [.created], registered := some w.tasks.length } ∧
      Leaves j w { w with tasks := w.tasks ++ [.created], registered := some w.tasks.length } := by
  constructor
  · refine ⟨hinv.nonempty, hinv.consistent, hinv.awaiting, fun k t hk hlive ↦ ?_⟩
    rcases lt_trichotomy k w.tasks.length with hlt | rfl | hgt
    · dsimp only at hk
      rw [List.getElem?_append_left hlt] at hk
      have hregistered := hinv.live k t hk hlive
      rw [hnone] at hregistered
      cases hregistered
    · rfl
    · have hlen := (List.getElem?_eq_some_iff.mp hk).1
      simp only [List.length_append, List.length_singleton] at hlen
      omega
  · refine ⟨List.prefix_rfl, Advances.refl w, fun k hk ↦ ⟨?_, le_rfl, fun _ ↦ rfl⟩, fun _ h ↦ h⟩
    exact getElem?_of_grown (List.prefix_append _ _) hk

end Tasks

/-! ## Operations -/

/-- The write put the node into the hierarchy of the revision before. -/
def Wrote (w : World) (node : PolicyNode) (revision : ℕ) : Prop :=
  ∃ before, w.versions[revision - 1]? = some before ∧
    w.versions[revision]? = some (before.insert node.nodeId node)

/-- What a program may say when it ends a refresh or takes over a write. -/
def Proper (i : ℕ) : Op → World → Prop
  | .endRefresh id generation found, w => w.tasks[id]? = some (.running i) ∧
      ∀ nodes revision, found = .snapshot nodes revision →
        w.versions[revision]? = some nodes ∧
          (generation = w.generation → ∀ ns, w.adopted = some ns → ns.revision ≤ revision)
  | .adoptWrite node revision, w => (i, revision) ∈ w.awaiting ∧ Wrote w node revision ∧
      ∀ ns, w.adopted = some ns → revision ≤ ns.revision + 1
  | _, _ => True

/-- A task goes on without any change of the snapshot. -/
theorem Inv.setTask (hinv : Inv w) {id : ℕ} {task task' : RefreshTask}
    (hid : w.tasks[id]? = some task) (hlive : task.Live) (htask : ∀ j, j ≠ i → task ≠ .running j)
    (hversions : w'.versions = w.versions) (hadopted : w'.adopted = w.adopted)
    (hawaiting : w'.awaiting = w.awaiting) (htasks : w'.tasks = w.tasks.set id task')
    (hregistered : w'.registered = w.registered) :
    Inv w' ∧ ∀ j, j ≠ i → Leaves j w w' := by
  constructor
  · refine ⟨?_, hinv.consistent.grow (hversions ▸ List.prefix_rfl) hadopted, ?_, ?_⟩
    · rw [hversions]
      exact hinv.nonempty
    · rw [hawaiting, hversions, hadopted]
      exact hinv.awaiting
    · intro k t hk ht
      rw [htasks] at hk
      rw [hregistered]
      exact hinv.live_set hid hlive hk ht
  · intro j hj
    refine ⟨hversions ▸ List.prefix_rfl, fun ns hns ↦ ⟨ns, hadopted.trans hns, le_rfl⟩, fun k hk ↦ ?_,
      fun r hr ↦ hawaiting ▸ hr⟩
    exact absurd hk (hinv.not_running hid hlive (htask j hj))

theorem Inv.install (hinv : Inv w) {id generation revision : ℕ} {nodes : Nodes} {now : ℚ}
    (hgeneration : generation = w.generation)
    (hproper : Proper i (.endRefresh id generation (.snapshot nodes revision)) w)
    (hundisturbed : Undisturbed i (.endRefresh id generation (.snapshot nodes revision)) w) :
    Inv ({ w with adopted := some ⟨nodes, revision⟩, lastCheck := some now }.setTask id
        (.done (.ok ()))) ∧
      ∀ j, j ≠ i → Leaves j w ({ w with
        adopted := some ⟨nodes, revision⟩, lastCheck := some now }.setTask id (.done (.ok ()))) := by
  obtain ⟨hid, hfound⟩ := hproper
  obtain ⟨hnodes, hle⟩ := hfound nodes revision rfl
  constructor
  · refine ⟨hinv.nonempty, ?_, fun e he ↦ ⟨(hinv.awaiting e he).1, ?_⟩, ?_⟩
    · rintro ns hns
      cases hns
      exact ⟨nodes, hnodes, fun _ ↦ rfl⟩
    · rintro ns hns
      cases hns
      exact hundisturbed hgeneration e he
    · exact fun k t hk ht ↦ hinv.live_set hid trivial hk ht
  · intro j hj
    refine ⟨List.prefix_rfl, fun ns hns ↦ ⟨_, rfl, hle hgeneration ns hns⟩, fun k hk ↦ ?_,
      fun _ h ↦ h⟩
    exact absurd hk (hinv.not_running hid trivial (by simpa using hj.symm))

theorem Inv.adoptWrite (hinv : Inv w) {node : PolicyNode} {revision : ℕ} {now : ℚ}
    {ns : Namespace} (hadopted : w.adopted = some ns)
    (hproper : Proper i (.adoptWrite node revision) w)
    (hundisturbed : Undisturbed i (.adoptWrite node revision) w) :
    Inv { w with
        adopted := some ⟨ns.nodes.insert node.nodeId node, revision⟩
        generation := w.generation + 1
        lastCheck := some now
        awaiting := w.awaiting.erase (i, revision) } ∧
      ∀ j, j ≠ i → Leaves j w { w with
        adopted := some ⟨ns.nodes.insert node.nodeId node, revision⟩
        generation := w.generation + 1
        lastCheck := some now
        awaiting := w.awaiting.erase (i, revision) } := by
  obtain ⟨hawaited, ⟨before, hbefore, hafter⟩, hnear⟩ := hproper
  have hle : ns.revision ≤ revision := (hinv.awaiting _ hawaited).2 ns hadopted
  have hge : revision ≤ ns.revision + 1 := hnear ns hadopted
  obtain ⟨nodes, hnodes, hlookup⟩ := hinv.consistent ns hadopted
  constructor
  · refine ⟨hinv.nonempty, ?_, fun e he ↦ ⟨(hinv.awaiting e (List.mem_of_mem_erase he)).1, ?_⟩,
      hinv.live⟩
    · rintro ns' hns'
      cases hns'
      refine ⟨_, hafter, fun id ↦ ?_⟩
      rcases eq_or_ne id node.nodeId with rfl | hne
      · rw [AList.lookup_insert, AList.lookup_insert]
      · rw [AList.lookup_insert_ne hne, AList.lookup_insert_ne hne, hlookup]
        -- the snapshot was of the revision before the write, or has the write already
        rcases Nat.lt_or_ge ns.revision revision with hlt | hge'
        · have heq : revision - 1 = ns.revision := by omega
          rw [heq, hnodes] at hbefore
          rw [Option.some.inj hbefore]
        · have heq : revision = ns.revision := by omega
          rw [heq, hnodes] at hafter
          rw [Option.some.inj hafter, AList.lookup_insert_ne hne]
    · rintro ns' hns'
      cases hns'
      rcases eq_or_ne e (i, revision) with rfl | hne
      · exact le_rfl
      · exact hundisturbed e (List.mem_of_mem_erase he) hne
  · intro j hj
    refine ⟨List.prefix_rfl, fun ns' hns' ↦ ⟨_, rfl, ?_⟩, fun k hk ↦ ⟨hk, Nat.le_succ _, ?_⟩, ?_⟩
    · obtain rfl : ns = ns' := Option.some.inj (hadopted.symm.trans hns')
      exact hle
    · exact fun heq ↦ absurd heq (Nat.succ_ne_self _)
    · intro r hr
      exact (List.mem_erase_of_ne (by simp [hj])).mpr hr

/-- The store moves to its next revision. -/
theorem Inv.commit (hinv : Inv w) {nodes : Nodes}
    (hversions : w'.versions = w.versions ++ [nodes]) (hadopted : w'.adopted = w.adopted)
    (hgeneration : w'.generation = w.generation) (htasks : w'.tasks = w.tasks)
    (hregistered : w'.registered = w.registered)
    (hawaiting : w'.awaiting = w.awaiting ∨ w'.awaiting = (i, w.versions.length) :: w.awaiting) :
    Inv w' ∧ ∀ j, j ≠ i → Leaves j w w' := by
  have hgrown : w.versions <+: w'.versions := hversions ▸ List.prefix_append _ _
  have hlength : w'.versions.length = w.versions.length + 1 := by simp [hversions]
  have hold : ∀ e ∈ w.awaiting, e.2 < w'.versions.length ∧
      ∀ ns, w'.adopted = some ns → ns.revision ≤ e.2 := by
    intro e he
    refine ⟨by have := (hinv.awaiting e he).1; omega, fun ns hns ↦ ?_⟩
    exact (hinv.awaiting e he).2 ns (hadopted ▸ hns)
  constructor
  · refine ⟨by simp [hversions], hinv.consistent.grow hgrown hadopted, ?_, ?_⟩
    · rcases hawaiting with h | h
      · rw [h]
        exact hold
      · rw [h, List.forall_mem_cons]
        refine ⟨⟨by simp only; omega, fun ns hns ↦ ?_⟩, hold⟩
        obtain ⟨_, hnodes, -⟩ := hinv.consistent ns (hadopted ▸ hns)
        exact (List.getElem?_eq_some_iff.mp hnodes).1.le
    · rw [htasks, hregistered]
      exact hinv.live
  · intro j hj
    refine Leaves.of_versions hgrown hadopted hgeneration htasks fun r hr ↦ ?_
    rcases hawaiting with h | h <;> rw [h]
    · exact hr
    · exact List.mem_cons_of_mem _ hr

theorem Inv.revision_add_one (hinv : Inv w) : w.revision + 1 = w.versions.length := by
  have hpos : 0 < w.versions.length := List.length_pos_iff.mpr hinv.nonempty
  unfold World.revision
  omega

theorem Inv.getElem?_revision (hinv : Inv w) : w.versions[w.revision]? = some w.current := by
  unfold World.current World.revision
  rw [List.getLastD_eq_getLast?, ← List.getLast?_eq_getElem?]
  cases h : w.versions.getLast? with
  | some nodes => rfl
  | none => exact absurd (List.getLast?_eq_none_iff.mp h) hinv.nonempty

/-- The step lemma. -/
theorem inv_exec (hinv : Inv w) {o : Op} {r : Ret o} (h : Exec i w o r w')
    (hundisturbed : Undisturbed i o w) (hproper : Proper i o w) :
    Inv w' ∧ ∀ j, j ≠ i → Leaves j w w' := by
  cases h with
  | createTask force hnone =>
      exact ⟨(hinv.createTask hnone (j := i)).1, fun j _ ↦ (hinv.createTask hnone).2⟩
  | waited id result hdone =>
      exact ⟨(hinv.unregister hdone (j := i)).1, fun j _ ↦ (hinv.unregister hdone).2⟩
  | cancelled_done id result hdone =>
      exact ⟨(hinv.unregister hdone (j := i)).1, fun j _ ↦ (hinv.unregister hdone).2⟩
  | beginRefresh id hcreated =>
      exact hinv.setTask hcreated trivial (by simp) rfl rfl rfl rfl rfl
  | install id generation nodes revision now hgeneration =>
      exact hinv.install hgeneration hproper hundisturbed
  | outdated id generation nodes revision hgeneration =>
      exact hinv.setTask hproper.1 trivial (by simp [eq_comm]) rfl rfl rfl rfl rfl
  | unchanged id generation now =>
      exact hinv.setTask hproper.1 trivial (by simp [eq_comm]) rfl rfl rfl rfl rfl
  | retained id generation =>
      exact hinv.setTask hproper.1 trivial (by simp [eq_comm]) rfl rfl rfl rfl rfl
  | unavailable id generation =>
      exact hinv.setTask hproper.1 trivial (by simp [eq_comm]) rfl rfl rfl rfl rfl
  | save node expected createOnly hfits =>
      refine hinv.commit rfl rfl rfl rfl rfl (.inr ?_)
      rw [← hinv.revision_add_one, ← hfits.1]
      rfl
  | save_lost node expected createOnly hfits =>
      exact hinv.commit rfl rfl rfl rfl rfl (.inl rfl)
  | foreignWrite nodes => exact hinv.commit rfl rfl rfl rfl rfl (.inl rfl)
  | adoptWrite node revision now ns hadopted =>
      exact hinv.adoptWrite hadopted hproper hundisturbed
  | prepareWrite node createOnly ns hadopted result hresult =>
      split_ifs
      · exact ⟨⟨hinv.nonempty, hinv.consistent, hinv.awaiting, hinv.live⟩, fun j _ ↦
          Leaves.of_versions List.prefix_rfl rfl rfl rfl fun _ h ↦ h⟩
      · exact ⟨hinv, fun j _ ↦ Leaves.refl j w⟩
  | forgetCheck =>
      exact ⟨⟨hinv.nonempty, hinv.consistent, hinv.awaiting, hinv.live⟩, fun j _ ↦
        Leaves.of_versions List.prefix_rfl rfl rfl rfl fun _ h ↦ h⟩
  | _ => exact ⟨hinv, fun j _ ↦ Leaves.refl j w⟩

/-! ## Programs -/

def protocol : Protocol World where
  inv := Inv
  rely := Leaves
  refl := Leaves.refl
  trans _ _ _ _ := Leaves.trans

abbrev machine : Machine Op Ret World := (resolver.restrict Undisturbed).machine

/-- Program `i` runs the task, which began with this revision and generation. -/
def Began (i id : ℕ) (known : Option ℕ) (generation : ℕ) (w : World) : Prop :=
  w.tasks[id]? = some (.running i) ∧ generation ≤ w.generation ∧
    (w.generation = generation → w.adopted.map Namespace.revision = known)

/-- The snapshot has at least the revision under which a write is sent. -/
def Reached (expected : ℕ) (w : World) : Prop :=
  ∃ ns, w.adopted = some ns ∧ expected ≤ ns.revision

theorem Began.leaves {id generation : ℕ} {known : Option ℕ} (h : Began i id known generation w)
    (hw : Leaves i w w') : Began i id known generation w' := by
  obtain ⟨hid, hle, hknown⟩ := h
  obtain ⟨hid', hle', hsame⟩ := hw.runs id hid
  refine ⟨hid', hle.trans hle', fun heq ↦ ?_⟩
  have hgeneration : w'.generation = w.generation := by omega
  rw [hsame hgeneration]
  exact hknown (by omega)

theorem Reached.leaves {expected : ℕ} (h : Reached expected w) (hw : Leaves i w w') :
    Reached expected w' := by
  obtain ⟨ns, hns, hle⟩ := h
  obtain ⟨ns', hns', hle'⟩ := hw.advances ns hns
  exact ⟨ns', hns', hle.trans hle'⟩

theorem Wrote.leaves {node : PolicyNode} {revision : ℕ} (h : Wrote w node revision)
    (hw : Leaves i w w') : Wrote w' node revision := by
  obtain ⟨before, hbefore, hafter⟩ := h
  exact ⟨before, getElem?_of_grown hw.versions hbefore, getElem?_of_grown hw.versions hafter⟩

section Programs

variable {α β : Type}

abbrev Keeps (i : ℕ) (p : Program α) (w : World) : Prop :=
  Safe machine protocol i (fun _ _ ↦ True) p w

theorem op_safe {Q : α → World → Prop} {o : Op} {k : Ret o → Program α}
    (h : ∀ w₁, Leaves i w w₁ → Inv w₁ → Proper i o w₁ ∧
      ∀ r w₂, Exec i w₁ o r w₂ → Inv w₂ → Safe machine protocol i Q (k r) w₂) :
    Safe machine protocol i Q (.call o k) w := by
  have hstep : ∀ o w r w', Inv w → machine.exec i o w r w' → Proper i o w →
      Inv w' ∧ ∀ j, j ≠ i → Leaves j w w' :=
    fun o w r w' hinv hexec ↦ inv_exec hinv hexec.1 hexec.2
  refine Safe.proper hstep fun w₁ hw hinv ↦ ?_
  obtain ⟨hproper, hk⟩ := h w₁ hw hinv
  exact ⟨hproper, fun r w₂ hexec ↦ hk r w₂ hexec.1⟩

theorem keeps_done (a : α) : Keeps i (.done a) w := Safe.done fun _ _ _ ↦ trivial

theorem keeps_op {o : Op} {k : Ret o → Program α} (hproper : ∀ w, Proper i o w)
    (hk : ∀ r w', Keeps i (k r) w') : Keeps i (.call o k) w :=
  op_safe fun w₁ _ _ ↦ ⟨hproper w₁, fun r w₂ _ _ ↦ hk r w₂⟩

/-- A snapshot that was read is the store's hierarchy at its revision. -/
theorem loadSnapshot_safe {id generation : ℕ} {known : Option ℕ} (attempts : ℕ)
    (hbegan : Began i id known generation w) :
    Safe machine protocol i (fun r w' ↦ Began i id known generation w' ∧
      ∀ nodes revision, r = some (nodes, revision) → w'.versions[revision]? = some nodes)
      (loadSnapshot attempts) w := by
  have hnone : ∀ {w}, Began i id known generation w → Safe machine protocol i
      (fun r w' ↦ Began i id known generation w' ∧ ∀ nodes revision,
        r = some (nodes, revision) → w'.versions[revision]? = some nodes)
      (pure none : Program (Option (Nodes × ℕ))) w := fun h ↦
    Safe.done fun w' hw' _ ↦ ⟨h.leaves hw', fun _ _ hr ↦ by cases hr⟩
  induction attempts generalizing w with
  | zero => exact hnone hbegan
  | succ attempts ih =>
      refine op_safe fun w₁ hw₁ hinv₁ ↦ ⟨trivial, fun before w₂ hexec _ ↦ ?_⟩
      cases hexec with
      | getRevision_failed => exact hnone (hbegan.leaves hw₁)
      | getRevision =>
      refine op_safe fun w₂ hw₂ hinv₂ ↦ ⟨trivial, fun nodes w₃ hexec _ ↦ ?_⟩
      have hbegan₂ := (hbegan.leaves hw₁).leaves hw₂
      cases hexec with
      | queryNodes_failed => exact hnone hbegan₂
      | queryNodes =>
      refine op_safe fun w₃ hw₃ hinv₃ ↦ ⟨trivial, fun after w₄ hexec _ ↦ ?_⟩
      have hbegan₃ := hbegan₂.leaves hw₃
      cases hexec with
      | getRevision_failed => exact hnone hbegan₃
      | getRevision =>
      change Safe machine protocol i _ (if w₁.revision ≠ w₃.revision then _ else _) w₃
      split_ifs with hchanged
      · exact ih hbegan₃
      · refine Safe.done fun w' hw' _ ↦ ⟨hbegan₃.leaves hw', fun nodes revision hr ↦ ?_⟩
        cases hr
        -- the revision did not move, so the nodes read in between are those of it
        have hle₁ := hw₂.versions.length_le
        have hle₂ := hw₃.versions.length_le
        have hsame : w₂.revision = w₃.revision := by
          have heq : w₁.revision = w₃.revision := not_not.mp hchanged
          unfold World.revision at heq ⊢
          omega
        rw [← hsame]
        exact getElem?_of_grown (hw₃.versions.trans hw'.versions) hinv₂.getElem?_revision

/-- What a refresh takes over is not older than what the resolver had. -/
theorem findSnapshot_safe {id generation : ℕ} {known : Option ℕ}
    (hbegan : Began i id known generation w) :
    Safe machine protocol i (fun found w' ↦ Began i id known generation w' ∧
      ∀ nodes revision, found = .snapshot nodes revision →
        w'.versions[revision]? = some nodes ∧ ∀ k, known = some k → k ≤ revision)
      (findSnapshot known) w := by
  have hdone : ∀ {w found}, Began i id known generation w →
      (∀ nodes revision, found ≠ .snapshot nodes revision) →
      Safe machine protocol i (fun found w' ↦ Began i id known generation w' ∧
        ∀ nodes revision, found = .snapshot nodes revision →
          w'.versions[revision]? = some nodes ∧ ∀ k, known = some k → k ≤ revision)
        (pure found : Program Refreshed) w := fun h hne ↦
    Safe.done fun w' hw' _ ↦ ⟨h.leaves hw', fun _ _ hr ↦ absurd hr (hne _ _)⟩
  cases known with
  | none =>
      refine Safe.seq (loadSnapshot_safe 3 hbegan) fun r w₁ _ hr ↦ ?_
      obtain ⟨hbegan₁, hread⟩ := hr
      cases r with
      | none => exact hdone hbegan₁ (by simp)
      | some read =>
          refine Safe.done fun w' hw' _ ↦ ⟨hbegan₁.leaves hw', fun nodes revision hr ↦ ?_⟩
          cases hr
          exact ⟨getElem?_of_grown hw'.versions (hread _ _ rfl), by simp⟩
  | some k =>
      refine op_safe fun w₁ hw₁ _ ↦ ⟨trivial, fun observed w₂ hexec _ ↦ ?_⟩
      have hbegan₁ := hbegan.leaves hw₁
      cases hexec with
      | getRevision_failed => exact hdone hbegan₁ (by simp)
      | getRevision =>
      change Safe machine protocol i _ (if w₁.revision < k then _ else if w₁.revision = k then _
        else _) w₁
      split_ifs with hback hsame
      · exact hdone hbegan₁ (by simp)
      · exact hdone hbegan₁ (by simp)
      · refine Safe.seq (loadSnapshot_safe 3 hbegan₁) fun r w₂ _ hr ↦ ?_
        obtain ⟨hbegan₂, hread⟩ := hr
        cases r with
        | none => exact hdone hbegan₂ (by simp)
        | some read =>
            obtain ⟨nodes, revision⟩ := read
            change Safe machine protocol i _ (if revision < w₁.revision then _ else _) w₂
            split_ifs with hback'
            · exact hdone hbegan₂ (by simp)
            · refine Safe.done fun w' hw' _ ↦ ⟨hbegan₂.leaves hw', fun nodes' revision' hr ↦ ?_⟩
              cases hr
              refine ⟨getElem?_of_grown hw'.versions (hread _ _ rfl), fun k' hk' ↦ ?_⟩
              cases hk'
              omega

theorem refreshTenant_keeps (id : ℕ) : Keeps i (refreshTenant id) w := by
  refine op_safe fun w₁ _ _ ↦ ⟨trivial, fun began w₂ hexec _ ↦ ?_⟩
  cases hexec with
  | beginRefresh _ hcreated =>
      have hlt : id < w₁.tasks.length := (List.getElem?_eq_some_iff.mp hcreated).1
      have hbegan : Began i id (w₁.adopted.map Namespace.revision) w₁.generation
          (w₁.setTask id (.running i)) :=
        ⟨by simp [World.setTask, hlt], le_rfl, fun _ ↦ rfl⟩
      change Keeps i (findSnapshot (w₁.adopted.map Namespace.revision) >>= _) _
      refine Safe.seq (findSnapshot_safe hbegan) fun found w₃ _ hfound ↦ ?_
      obtain ⟨hbegan₃, hread⟩ := hfound
      refine op_safe fun w₄ hw₄ _ ↦ ⟨?_, fun r w₅ _ _ ↦ keeps_done _⟩
      obtain ⟨hid, -, hknown⟩ := hbegan₃.leaves hw₄
      refine ⟨hid, fun nodes revision hsnapshot ↦ ?_⟩
      obtain ⟨hnodes, hle⟩ := hread nodes revision hsnapshot
      refine ⟨getElem?_of_grown hw₄.versions hnodes, fun hgeneration ns hns ↦ ?_⟩
      apply hle
      rw [← hknown hgeneration.symm, hns]
      rfl

theorem ensureTenantFresh_keeps (force : Bool) : Keeps i (ensureTenantFresh force) w := by
  refine keeps_op (fun _ ↦ trivial) fun task w₁ ↦ ?_
  cases task with
  | none => exact keeps_done _
  | some id => exact keeps_op (fun _ ↦ trivial) fun _ _ ↦ keeps_done _

theorem loadNodes_keeps : Keeps i loadNodes w := by
  refine Safe.seq (ensureTenantFresh_keeps true) fun r w₁ _ _ ↦ ?_
  rcases r with _ | _ | _ <;> exact keeps_done _

theorem withSnapshot_keeps (answer : Namespace → Answer) : Keeps i (withSnapshot answer) w := by
  refine Safe.seq (ensureTenantFresh_keeps false) fun r w₁ _ _ ↦ ?_
  rcases r with _ | _ | _
  · exact keeps_done _
  · exact keeps_done _
  · refine keeps_op (fun _ ↦ trivial) fun ns w₂ ↦ ?_
    cases ns <;> exact keeps_done _

theorem checkWrite_ok {node : PolicyNode} {createOnly : Option Bool} {ns : Namespace}
    {sent : Bool × ℕ} (h : checkWrite node createOnly ns = .ok sent) : sent.2 = ns.revision := by
  unfold checkWrite at h
  split at h
  · cases h
  · dsimp only at h
    split_ifs at h
    cases h
    rfl

/-- A write is taken over onto the revision before it, or onto itself. -/
theorem saveNode_keeps {node : PolicyNode} {expected : ℕ} {createOnly : Bool}
    (hreached : Reached expected w) : Keeps i (saveNode node expected createOnly) w := by
  refine op_safe fun w₁ hw₁ hinv₁ ↦ ⟨trivial, fun outcome w₂ hexec _ ↦ ?_⟩
  cases hexec with
  | save_conflict => exact keeps_op (fun _ ↦ trivial) fun _ _ ↦ keeps_done _
  | save_lost => exact keeps_done _
  | save_failed => exact keeps_done _
  | save _ _ _ hfits =>
      have hreached₁ := hreached.leaves hw₁
      have hrevision : expected + 1 = w₁.versions.length := by
        rw [hfits.1, hinv₁.revision_add_one]
      have hwrote : Wrote (w₁.write i node (expected + 1)) node (expected + 1) := by
        refine ⟨w₁.current, ?_, ?_⟩
        · rw [Nat.add_sub_cancel]
          refine getElem?_of_grown (List.prefix_append _ _) ?_
          rw [hfits.1]
          exact hinv₁.getElem?_revision
        · rw [hrevision]
          simp [World.write, World.commit]
      change Keeps i (takeOver node expected (expected + 1 : ℕ)) _
      rw [takeOver, if_neg (by omega), if_neg (by simp)]
      refine op_safe fun w₃ hw₃ _ ↦ ⟨⟨hw₃.awaiting _ List.mem_cons_self, ?_, fun ns hns ↦ ?_⟩,
        fun _ _ _ _ ↦ keeps_done _⟩
      · exact Wrote.leaves hwrote hw₃
      · have hreached₂ : Reached expected (w₁.write i node (expected + 1)) := hreached₁
        obtain ⟨ns', hns', hle⟩ := hreached₂.leaves hw₃
        obtain rfl : ns' = ns := Option.some.inj (hns'.symm.trans hns)
        omega

theorem setNode_keeps (node : PolicyNode) (createOnly : Option Bool) :
    Keeps i (setNode node createOnly) w := by
  refine Safe.seq (ensureTenantFresh_keeps false) fun r w₁ _ _ ↦ ?_
  rcases r with _ | _ | _
  · exact keeps_done _
  · exact keeps_done _
  · refine op_safe fun w₂ _ _ ↦ ⟨trivial, fun checked w₃ hexec _ ↦ ?_⟩
    cases checked with
    | error e => exact keeps_done _
    | ok sent =>
        cases hexec with
        | prepareWrite _ _ ns hadopted _ hresult =>
            refine saveNode_keeps ⟨ns, ?_, (checkWrite_ok hresult).le⟩
            simpa using hadopted

theorem body_keeps (c : Call) : Keeps i (body c) w := by
  cases c with
  | refresh id => exact Safe.seq (refreshTenant_keeps id) fun _ _ _ _ ↦ keeps_done _
  | loadNodes => exact loadNodes_keeps
  | getNodes => exact withSnapshot_keeps _
  | resolve projectId environment projectRateLimit => exact withSnapshot_keeps _
  | setNode node createOnly => exact setNode_keeps node createOnly
  | foreignWrite nodes => exact keeps_op (fun _ ↦ trivial) fun _ _ ↦ keeps_done _

end Programs

theorem obligations : Obligations (resolver.restrict Undisturbed) protocol (fun _ _ ↦ True)
    (fun _ _ _ _ _ ↦ True) where
  pre_rely _ _ _ _ _ := trivial
  env w w' hinv henv := by
    obtain rfl : w = w' := henv
    exact ⟨hinv, fun i ↦ Leaves.refl i w⟩
  start _ c _ _ _ _ := body_keeps c

theorem inv_start (nodes : Nodes) : Inv (start nodes) := by
  refine ⟨by simp [start], fun ns hns ↦ (by cases hns), fun e he ↦ (by cases he), ?_⟩
  intro id task hid
  simp [start] at hid

abbrev ResolverPool := Pool Op Ret World Call (Result Answer)

/-- Any calls on one resolver and any writes of others, in any order: as long as
no snapshot overtakes an awaited write, the snapshot is the store's hierarchy at
its revision and only moves forward. -/
theorem snapshot_of_undisturbed {nodes : Nodes} {p q : ResolverPool}
    (hp : Reachable (resolver.restrict Undisturbed) (start nodes) p)
    (hq : Steps (resolver.restrict Undisturbed) p q) :
    Consistent p.state ∧ Advances p.state q.state := by
  have hsafe := Reachable.poolSafe obligations (inv_start nodes) (fun _ ↦ trivial) hp
  refine ⟨hsafe.inv.consistent, ?_⟩
  exact PoolSafe.steps_of_rely obligations (fun i w w' h ↦ h.advances)
    (fun _ _ _ h h' ↦ h.trans h') hsafe hq

/-! ## A write and a refresh -/

instance (w : World) (node : PolicyNode) (expected : ℕ) (createOnly : Bool) :
    Decidable (Fits w node expected createOnly) := inferInstanceAs (Decidable (_ ∧ _))

instance (i : ℕ) (o : Op) (w : World) : Decidable (Undisturbed i o w) := by
  cases o with
  | endRefresh id generation found => cases found <;> unfold Undisturbed <;> infer_instance
  | _ => unfold Undisturbed; infer_instance

/-- How an operation turns out when nothing fails and no time passes. -/
def act (i : ℕ) : (o : Op) → World → Option (Ret o × World)
  | .ensureTask force, w =>
      if force = false ∧ w.adopted.isSome ∧ w.lastCheck = some 0 then some (none, w)
      else match w.registered with
        | some id => some (some id, w)
        | none => some (some w.tasks.length,
            { w with tasks := w.tasks ++ [.created], registered := some w.tasks.length })
  | .awaitTask id, w =>
      match w.tasks[id]? with
      | some (.done result) => some (some result, w.unregister id)
      | _ => none
  | .beginRefresh id, w =>
      match w.tasks[id]? with
      | some .created => some ((w.adopted.map Namespace.revision, w.generation),
          w.setTask id (.running i))
      | _ => none
  | .getRevision, w => some (some w.revision, w)
  | .queryNodes, w => some (some w.current, w)
  | .endRefresh id generation (.snapshot nodes revision), w =>
      if generation = w.generation then
        some ((), { w with adopted := some ⟨nodes, revision⟩, lastCheck := some 0 }.setTask id
          (.done (.ok ())))
      else some ((), w.setTask id (.done (.ok ())))
  | .endRefresh id _ .unchanged, w =>
      some ((), { w with lastCheck := some 0 }.setTask id (.done (.ok ())))
  | .endRefresh id _ .retained, w => some ((), w.setTask id (.done (.ok ())))
  | .endRefresh id _ .unavailable, w =>
      some ((), w.setTask id (.done (.error storeUnavailable)))
  | .readSnapshot, w => some (w.adopted, w)
  | .prepareWrite node createOnly, w =>
      match w.adopted with
      | none => none
      | some ns =>
          let result := checkWrite node createOnly ns
          some (result, if result = .error .writeConflict then { w with lastCheck := none } else w)
  | .save node expected createOnly, w =>
      if Fits w node expected createOnly then
        some (.saved (expected + 1 : ℕ), w.write i node (expected + 1))
      else some (.conflict, w)
  | .forgetCheck, w => some ((), { w with lastCheck := none })
  | .adoptWrite node revision, w =>
      match w.adopted with
      | none => none
      | some ns => some ((), { w with
          adopted := some ⟨ns.nodes.insert node.nodeId node, revision⟩
          generation := w.generation + 1
          lastCheck := some 0
          awaiting := w.awaiting.erase (i, revision) })
  | .foreignWrite nodes, w => some ((), w.commit nodes)

theorem exec_act {o : Op} {r : Ret o} (h : act i o w = some (r, w')) : Exec i w o r w' := by
  cases o with
  | ensureTask force =>
      dsimp only [act] at h
      split_ifs at h with hfresh
      · obtain ⟨rfl, hadopted, hlast⟩ := hfresh
        cases h
        exact .fresh 0 0 hadopted hlast (by norm_num [revisionPollInterval])
      · split at h
        next id hid =>
          cases h
          exact .joinTask force id hid
        next hnone =>
          cases h
          exact .createTask force hnone
  | awaitTask id =>
      dsimp only [act] at h
      split at h
      next result hdone =>
        cases h
        exact .waited id result hdone
      next => cases h
  | beginRefresh id =>
      dsimp only [act] at h
      split at h
      next hcreated =>
        cases h
        exact .beginRefresh id hcreated
      next => cases h
  | getRevision => cases h; exact .getRevision
  | queryNodes => cases h; exact .queryNodes
  | endRefresh id generation found =>
      cases found with
      | snapshot nodes revision =>
          dsimp only [act] at h
          split_ifs at h with hgeneration
          · cases h
            exact .install id generation nodes revision 0 hgeneration
          · cases h
            exact .outdated id generation nodes revision hgeneration
      | unchanged => cases h; exact .unchanged id generation 0
      | retained => cases h; exact .retained id generation
      | unavailable => cases h; exact .unavailable id generation
  | readSnapshot => cases h; exact .readSnapshot
  | prepareWrite node createOnly =>
      dsimp only [act] at h
      split at h
      next => cases h
      next ns hadopted =>
        cases h
        exact .prepareWrite node createOnly ns hadopted _ rfl
  | save node expected createOnly =>
      dsimp only [act] at h
      split_ifs at h with hfits
      · cases h
        exact .save node expected createOnly hfits
      · cases h
        exact .save_conflict node expected createOnly hfits
  | forgetCheck => cases h; exact .forgetCheck
  | adoptWrite node revision =>
      dsimp only [act] at h
      split at h
      next => cases h
      next ns hadopted =>
        cases h
        exact .adoptWrite node revision 0 ns hadopted
  | foreignWrite nodes => cases h; exact .foreignWrite nodes

def orgNode : PolicyNode := { nodeId := "org" }

def teamNode : PolicyNode := { nodeId := "team" }

def loadEmpty : List (Turn Call) :=
  .start .loadNodes :: .next 0 :: .start (.refresh 0) :: List.replicate 5 (.next 1) ++ [.next 0]

/-- The resolver writes a node and sees the answer, and then another instance
writes and the resolver loads the hierarchy again. -/
def inTurn : List (Turn Call) :=
  .start (.setNode orgNode none) :: List.replicate 4 (.next 2) ++
    .start (.foreignWrite ((∅ : Nodes).insert "team" teamNode)) :: .next 3 ::
    .start .loadNodes :: .next 4 :: .start (.refresh 1) :: List.replicate 6 (.next 5)

/-- The same, but the answer to the write has not been seen yet. -/
def overtaken : List (Turn Call) :=
  .start (.setNode orgNode none) :: List.replicate 3 (.next 2) ++
    .start (.foreignWrite ((∅ : Nodes).insert "team" teamNode)) :: .next 3 ::
    .start .loadNodes :: .next 4 :: .start (.refresh 1) :: List.replicate 6 (.next 5)

def playResolver (ok : ℕ → (o : Op) → World → Bool) (turns : List (Turn Call))
    (p : ResolverPool) : ResolverPool :=
  p.playTurns resolver.body (fun i o w ↦ if ok i o w then act i o w else none) turns

def loaded (ok : ℕ → (o : Op) → World → Bool) : ResolverPool :=
  playResolver ok loadEmpty ⟨start ∅, []⟩

theorem snapshot_inTurn :
    Consistent (loaded fun i o w ↦ decide (Undisturbed i o w)).state ∧
      Advances (loaded fun i o w ↦ decide (Undisturbed i o w)).state
        (playResolver (fun i o w ↦ decide (Undisturbed i o w)) inTurn
          (loaded fun i o w ↦ decide (Undisturbed i o w))).state ∧
      (playResolver (fun i o w ↦ decide (Undisturbed i o w)) inTurn
        (loaded fun i o w ↦ decide (Undisturbed i o w))).state.adopted.map Namespace.revision =
          some 2 := by
  have hplay : ∀ turns p, Steps (resolver.restrict Undisturbed) p
      (playResolver (fun i o w ↦ decide (Undisturbed i o w)) turns p) := by
    intro turns p
    refine Steps.playTurns (S := resolver.restrict Undisturbed) (fun i o w r w' h ↦ ?_) turns
      (fun _ _ _ ↦ trivial) p
    split_ifs at h with hok
    exact ⟨exec_act h, of_decide_eq_true hok⟩
  have hsnapshot := snapshot_of_undisturbed (hplay loadEmpty ⟨start ∅, []⟩) (hplay inTurn _)
  exact ⟨hsnapshot.1, hsnapshot.2, by decide +kernel⟩

/-- The resolver has revision 2 while it awaits the answer to its write of
revision 1. -/
def ahead : ResolverPool :=
  playResolver (fun _ _ _ ↦ true) overtaken (loaded fun _ _ _ ↦ true)

/-- The answer takes it back. -/
def back : ResolverPool := playResolver (fun _ _ _ ↦ true) [.next 2] ahead

theorem snapshot_overtaken : Reachable resolver (start ∅) ahead ∧ Steps resolver ahead back ∧
    ¬ Advances ahead.state back.state ∧ ¬ Consistent back.state := by
  have hplay : ∀ turns p, Steps resolver p (playResolver (fun _ _ _ ↦ true) turns p) := by
    intro turns p
    exact Steps.playTurns (S := resolver) (fun i o w r w' h ↦ exec_act (by simpa using h)) turns
      (fun _ _ _ ↦ trivial) p
  have hback : back.state.adopted.map (fun ns ↦ (ns.revision, ns.nodes.lookup "team")) =
      some (1, some teamNode) := by decide +kernel
  obtain ⟨ns', hns', hread⟩ := Option.map_eq_some_iff.mp hback
  obtain ⟨hrevision, hteam⟩ := Prod.mk.inj hread
  refine ⟨Relation.ReflTransGen.trans (hplay _ _) (hplay _ _), hplay _ _, fun h ↦ ?_, fun h ↦ ?_⟩
  · have hahead : ahead.state.adopted.map Namespace.revision = some 2 := by decide +kernel
    obtain ⟨ns, hns, hrevision₂⟩ := Option.map_eq_some_iff.mp hahead
    obtain ⟨ns'', hns'', hle⟩ := h ns hns
    obtain rfl : ns' = ns'' := Option.some.inj (hns'.symm.trans hns'')
    omega
  · obtain ⟨nodes, hnodes, hlookup⟩ := h ns' hns'
    rw [hrevision] at hnodes
    have hstored : back.state.versions[1]?.map (·.lookup "team") = some none := by
      decide +kernel
    rw [hnodes] at hstored
    have hnone : nodes.lookup "team" = none := by simpa using hstored
    rw [hlookup, hnone] at hteam
    cases hteam

end AxonGateway.Policy.Resolver
