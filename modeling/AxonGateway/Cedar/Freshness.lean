import AxonGateway.Cedar.Service

/-!
# When a policy write is in force

The compiled set keeps up with the version that the service knows, and with the writes that
a caller has asked a fresh set for, as long as nobody reports a version or hands over a set
that is behind, and no caller joins a refresh that rests on a read from before a write.
-/

namespace Cedar.Service

open Interleaving

/-! ### Stored policies -/

section Stored

variable {writes more : List PolicyRow} {v k : ℕ} {name : String}

theorem storedAt_append (hv : v ≤ writes.length) :
    storedAt (writes ++ more) v name = storedAt writes v name := by
  rw [storedAt, List.take_append_of_le_length hv, storedAt]

/-- A name that is stored stays stored. -/
theorem storedAt_isSome (h : (storedAt writes v name).isSome) (hv : v ≤ k) :
    (storedAt writes k name).isSome := by
  rw [storedAt, List.find?_isSome] at h ⊢
  obtain ⟨row, hrow, hname⟩ := h
  refine ⟨row, ?_, hname⟩
  rw [List.mem_reverse] at hrow ⊢
  exact (List.take_prefix_take_left hv).subset hrow

theorem storedAt_of_le {row : PolicyRow} (h : storedAt writes v name = some row) (hv : v ≤ k) :
    ∃ row', storedAt writes k name = some row' :=
  Option.isSome_iff_exists.mp (storedAt_isSome (by simp [h]) hv)

/-- Each policy that is stored at version `v` is among `policies`, as it was stored at `v` or
later. -/
def Contains (writes : List PolicyRow) (v : ℕ) (policies : List PolicyRow) : Prop :=
  v ≤ writes.length ∧ ∀ name row, storedAt writes v name = some row →
    ∃ k row', v ≤ k ∧ k ≤ writes.length ∧ storedAt writes k name = some row' ∧ row' ∈ policies

theorem Contains.grow {writes' policies : List PolicyRow} (h : Contains writes v policies)
    (hw : writes <+: writes') : Contains writes' v policies := by
  obtain ⟨more, rfl⟩ := hw
  obtain ⟨hv, hrow⟩ := h
  refine ⟨by simp; omega, fun name row hname ↦ ?_⟩
  rw [storedAt_append hv] at hname
  obtain ⟨k, row', hk, hle, hstored, hmem⟩ := hrow name row hname
  exact ⟨k, row', hk, by simp; omega, by rw [storedAt_append hle, hstored], hmem⟩

theorem Contains.of_le {policies : List PolicyRow} (h : Contains writes v policies)
    (hk : k ≤ v) : Contains writes k policies := by
  refine ⟨hk.trans h.1, fun name row hname ↦ ?_⟩
  obtain ⟨row', hrow'⟩ := storedAt_of_le hname hk
  obtain ⟨m, row'', hm, hle, hstored, hmem⟩ := h.2 name row' hrow'
  exact ⟨m, row'', hk.trans hm, hle, hstored, hmem⟩

theorem mem_upsert_self (l : List PolicyRow) (p : PolicyRow) : p ∈ upsert l p := by
  induction l with
  | nil => simp [upsert]
  | cons q l ih =>
      rw [upsert]
      split_ifs
      · exact List.mem_cons_self
      · exact List.mem_cons_of_mem _ ih

theorem mem_upsert_of_ne {l : List PolicyRow} {p q : PolicyRow} (hq : q ∈ l)
    (hne : q.name ≠ p.name) : q ∈ upsert l p := by
  induction l with
  | nil => cases hq
  | cons x l ih =>
      rw [upsert]
      split_ifs with hx
      · obtain rfl | hq := List.mem_cons.mp hq
        · exact absurd hx hne
        · exact List.mem_cons_of_mem _ hq
      · obtain rfl | hq := List.mem_cons.mp hq
        · exact List.mem_cons_self
        · exact List.mem_cons_of_mem _ (ih hq)

theorem mem_foldl_upsert {rows : List PolicyRow} (hnames : (rows.map PolicyRow.name).Nodup)
    (base : List PolicyRow) {row : PolicyRow}
    (hrow : row ∈ rows ∨ row ∈ base ∧ row.name ∉ rows.map PolicyRow.name) :
    row ∈ rows.foldl upsert base := by
  induction rows generalizing base with
  | nil => simpa using hrow
  | cons p rows ih =>
      rw [List.map_cons, List.nodup_cons] at hnames
      refine ih hnames.2 (upsert base p) ?_
      rcases hrow with hmem | ⟨hbase, hname⟩
      · obtain rfl | hmem := List.mem_cons.mp hmem
        · exact .inr ⟨mem_upsert_self base row, hnames.1⟩
        · exact .inl hmem
      · rw [List.map_cons, List.mem_cons, not_or] at hname
        exact .inr ⟨mem_upsert_of_ne hbase hname.1, hname.2⟩

theorem contains_merge {since : ℕ} {rows : List PolicyRow} (h : Reads writes since rows)
    (hsince : since ≤ writes.length) (seeded : List PolicyRow) :
    Contains writes since (merge seeded rows) := by
  refine ⟨hsince, fun name row hname ↦ ?_⟩
  obtain ⟨k, hk, hle, hfind⟩ := h.row name
  obtain ⟨row', hrow'⟩ := storedAt_of_le hname hk
  refine ⟨k, row', hk, hle, hrow', mem_foldl_upsert h.names _ (.inl ?_)⟩
  rw [hrow'] at hfind
  exact List.mem_of_find?_eq_some hfind

theorem Reads.grow {writes' rows : List PolicyRow} {since : ℕ} (h : Reads writes since rows)
    (hw : writes <+: writes') : Reads writes' since rows := by
  obtain ⟨more, rfl⟩ := hw
  refine ⟨h.names, fun name ↦ ?_⟩
  obtain ⟨k, hk, hle, hfind⟩ := h.row name
  exact ⟨k, hk, by simp; omega, by rw [storedAt_append hle, hfind]⟩

end Stored

/-! ### The invariant and what the others leave -/

variable {i j : ℕ} {w w' w₁ w₂ w₃ : World} {r previous : ℕ}

/-- The task is not done. -/
def RefreshTask.Open : RefreshTask → Prop
  | .done _ => False
  | _ => True

/-- The compiled set has every stored policy as of version `v` or later. -/
def World.Holds (w : World) (v : ℕ) : Prop := Contains w.writes v w.policies

structure Inv (w : World) : Prop where
  known : ∀ v, w.known = some v → w.Holds v
  basis : ∀ b, w.basis = some b → b ≤ w.version
  live : ∀ (id : ℕ) (task : RefreshTask), w.tasks[id]? = some task → task.Open →
    w.registered = some id

/-- What a caller counts on that asked for a fresh set when there were `r` writes and
`previous` successful refreshes: the task it waits for does not rest on an earlier read. -/
structure Fresh (r previous : ℕ) (w : World) : Prop where
  stored : r ≤ w.version
  counted : previous ≤ w.successes
  basis : ∀ b, w.basis = some b → r ≤ b
  holds : previous < w.successes → w.Holds r

/-- What the others leave to program `i`. -/
structure Leaves (i : ℕ) (w w' : World) : Prop where
  writes : w.writes <+: w'.writes
  successes : w.successes ≤ w'.successes
  fresh : ∀ r previous, Fresh r previous w → Fresh r previous w'
  runs : ∀ id : ℕ, w.tasks[id]? = some (.running i) → w'.tasks[id]? = some (.running i) ∧
    w'.basis = w.basis ∧ w'.initialized = w.initialized ∧ ∀ v, w.Holds v → w'.Holds v

theorem Leaves.refl (i : ℕ) (w : World) : Leaves i w w :=
  ⟨List.prefix_rfl, le_rfl, fun _ _ h ↦ h, fun _ h ↦ ⟨h, rfl, rfl, fun _ h ↦ h⟩⟩

theorem Leaves.trans (h : Leaves i w₁ w₂) (h' : Leaves i w₂ w₃) : Leaves i w₁ w₃ := by
  refine ⟨h.writes.trans h'.writes, h.successes.trans h'.successes,
    fun r previous hf ↦ h'.fresh r previous (h.fresh r previous hf), fun id hid ↦ ?_⟩
  obtain ⟨hid₂, hbasis, hinit, hholds⟩ := h.runs id hid
  obtain ⟨hid₃, hbasis', hinit', hholds'⟩ := h'.runs id hid₂
  exact ⟨hid₃, hbasis'.trans hbasis, hinit'.trans hinit, fun v hv ↦ hholds' v (hholds v hv)⟩

theorem Leaves.version (h : Leaves i w w') : w.version ≤ w'.version := h.writes.length_le

/-- A step without a successful refresh. -/
theorem Fresh.kept (h : Fresh r previous w) (hwrites : w.writes <+: w'.writes)
    (hsuccesses : w'.successes = w.successes) (hholds : ∀ v, w.Holds v → w'.Holds v)
    (hbasis : ∀ b, w'.basis = some b → w.basis = some b ∨ w.version ≤ b) :
    Fresh r previous w' := by
  refine ⟨h.stored.trans hwrites.length_le, hsuccesses ▸ h.counted, fun b hb ↦ ?_, fun hlt ↦ ?_⟩
  · obtain hold | hnew := hbasis b hb
    · exact h.basis b hold
    · exact h.stored.trans hnew
  · exact hholds r (h.holds (hsuccesses ▸ hlt))

/-- A step that leaves the tasks and what they have read. -/
theorem Leaves.of_tasks (hwrites : w.writes <+: w'.writes)
    (hsuccesses : w'.successes = w.successes) (hholds : ∀ v, w.Holds v → w'.Holds v)
    (hbasis : w'.basis = w.basis) (hinit : w'.initialized = w.initialized)
    (htasks : w'.tasks = w.tasks) : Leaves i w w' := by
  refine ⟨hwrites, hsuccesses.ge, fun r previous hf ↦ ?_, fun id hid ↦ ?_⟩
  · exact hf.kept hwrites hsuccesses hholds fun b hb ↦ .inl (hbasis ▸ hb)
  · exact ⟨htasks ▸ hid, hbasis, hinit, hholds⟩

/-! ### Tasks -/

section Tasks

variable {id : ℕ} {task task' : RefreshTask}

theorem Inv.eq_of_open (hinv : Inv w) (hid : w.tasks[id]? = some task) (hopen : task.Open)
    {id' : ℕ} (hid' : w.tasks[id']? = some task') (hopen' : task'.Open) : id' = id := by
  have heq := (hinv.live id' task' hid' hopen').symm.trans (hinv.live id task hid hopen)
  simpa using heq

/-- While a task of program `i` is open, no other program runs one. -/
theorem Inv.not_running (hinv : Inv w) (hid : w.tasks[id]? = some task) (hopen : task.Open)
    (htask : task ≠ .running j) (k : ℕ) : w.tasks[k]? ≠ some (RefreshTask.running j) := by
  intro hk
  obtain rfl := hinv.eq_of_open hid hopen hk trivial
  rw [hid] at hk
  exact htask (Option.some.inj hk)

theorem Inv.live_set (hinv : Inv w) (hid : w.tasks[id]? = some task) (hopen : task.Open) {k : ℕ}
    {t : RefreshTask} (hk : (w.tasks.set id task')[k]? = some t) (ht : t.Open) :
    w.registered = some k := by
  rcases eq_or_ne id k with rfl | hne
  · exact hinv.live id task hid hopen
  · rw [List.getElem?_set_ne hne] at hk
    exact hinv.live k t hk ht

theorem Inv.not_open (hinv : Inv w) (hnone : ∀ id, ¬ Live w id)
    (hid : w.tasks[id]? = some task) : ¬ task.Open := by
  intro hopen
  refine hnone id ⟨hinv.live id task hid hopen, fun refreshed hdone ↦ ?_⟩
  rw [hid] at hdone
  rw [Option.some.inj hdone] at hopen
  exact hopen

theorem Inv.createTask (hinv : Inv w) (hnone : ∀ id, ¬ Live w id) :
    Inv w.createTask ∧ Leaves j w w.createTask := by
  constructor
  · refine ⟨hinv.known, fun b hb ↦ (by cases hb), fun k t hk hopen ↦ ?_⟩
    have hk' : (w.tasks ++ [.created])[k]? = some t := hk
    rcases Nat.lt_or_ge k w.tasks.length with hlt | hge
    · rw [List.getElem?_append_left hlt] at hk'
      exact absurd hopen (hinv.not_open hnone hk')
    · have hlen := (List.getElem?_eq_some_iff.mp hk').1
      rw [List.length_append, List.length_singleton] at hlen
      have heq : k = w.tasks.length := by omega
      rw [heq]
      rfl
  · refine ⟨List.prefix_rfl, le_rfl, fun r previous hf ↦ ?_, fun k hk ↦ ?_⟩
    · exact hf.kept List.prefix_rfl rfl (fun _ h ↦ h) fun b hb ↦ by cases hb
    · exact absurd trivial (hinv.not_open hnone hk)

end Tasks

/-! ### Operations -/

/-- What a caller has to see to: a list that is handed over is not behind the one it
replaces, a version that is reported is one the compiled set is up to, and a refresh that is
joined for a fresh set does not rest on a read that a write has overtaken. -/
def Careful (_ : ℕ) : Op → World → Prop
  | .reload policies, w => ∀ v, w.Holds v → Contains w.writes v policies
  | .noteVersion version, w => w.Holds version
  | .ensureTask true, w => ∀ b, w.basis = some b → b = w.version
  | _, _ => True

/-- What the task of program `i` has found out when it goes on. -/
def Proper (i : ℕ) : Op → World → Prop
  | .readVersion _, w => ∃ id : ℕ, w.tasks[id]? = some (.running i)
  | .beginLoad, w => ∃ id : ℕ, w.tasks[id]? = some (.running i)
  | .abandon id, w => w.tasks[id]? = some (.running i)
  | .settleVersion id known version, w => w.tasks[id]? = some (.running i) ∧
      (known = some version → w.initialized = true → w.basis = some version ∧ w.Holds version)
  | .install id _ _ version rows, w => w.tasks[id]? = some (.running i) ∧
      ∃ since, w.basis = some since ∧ version ≤ since ∧ Reads w.writes since rows
  | _, _ => True

/-- The task of program `i` has read, or is over. -/
theorem Inv.step_running (hinv : Inv w) {id : ℕ} (hid : w.tasks[id]? = some (.running i))
    (htasks : w'.tasks = w.tasks ∨ ∃ task, w'.tasks = w.tasks.set id task)
    (hregistered : w'.registered = w.registered) (hwrites : w'.writes = w.writes)
    (hknown : ∀ v, w'.known = some v → w'.Holds v) (hbasis : ∀ b, w'.basis = some b → b = w.version)
    (hsuccesses : w.successes ≤ w'.successes)
    (hfresh : ∀ r previous, Fresh r previous w → w.successes < w'.successes → w'.Holds r)
    (hholds : w'.successes = w.successes → ∀ v, w.Holds v → w'.Holds v) :
    Inv w' ∧ ∀ j, j ≠ i → Leaves j w w' := by
  have hgrown : w.writes <+: w'.writes := hwrites ▸ List.prefix_rfl
  have hversion : w'.version = w.version := congrArg List.length hwrites
  constructor
  · refine ⟨hknown, fun b hb ↦ by rw [hbasis b hb, hversion], fun k t hk ht ↦ ?_⟩
    rw [hregistered]
    rcases htasks with h | ⟨task, h⟩
    · exact hinv.live k t (h ▸ hk) ht
    · exact hinv.live_set hid trivial (h ▸ hk) ht
  · intro j hj
    refine ⟨hgrown, hsuccesses, fun r previous hf ↦ ?_, fun k hk ↦ ?_⟩
    · refine ⟨hversion ▸ hf.stored, hf.counted.trans hsuccesses, fun b hb ↦ ?_, fun hlt ↦ ?_⟩
      · rw [hbasis b hb]
        exact hf.stored
      · rcases hsuccesses.eq_or_lt with heq | hlt'
        · exact hholds heq.symm r (hf.holds (heq ▸ hlt))
        · exact hfresh r previous hf hlt'
    · exact absurd hk (hinv.not_running hid trivial (by simpa using hj.symm) k)

theorem Inv.endTask (hinv : Inv w) {id : ℕ} {refreshed : Bool}
    (hid : w.tasks[id]? = some (.running i)) :
    Inv (w.endTask id refreshed) ∧ ∀ j, j ≠ i → Leaves j w (w.endTask id refreshed) := by
  refine hinv.step_running hid (.inr ⟨_, rfl⟩) rfl rfl hinv.known ?_ le_rfl ?_ fun _ _ h ↦ h
  · exact fun b hb ↦ by cases hb
  · exact fun _ _ _ hlt ↦ absurd hlt (lt_irrefl _)

theorem Inv.settle (hinv : Inv w) {id version : ℕ} {now : ℚ} (hinit : w.initialized = true)
    (hproper : Proper i (.settleVersion id (some version) version) w) :
    Inv (w.settle id now) ∧ ∀ j, j ≠ i → Leaves j w (w.settle id now) := by
  obtain ⟨hid, hread⟩ := hproper
  obtain ⟨hbasis, hholds⟩ := hread rfl hinit
  refine hinv.step_running hid (.inr ⟨_, rfl⟩) rfl rfl hinv.known ?_ (Nat.le_succ _) ?_ ?_
  · exact fun b hb ↦ by cases hb
  · -- The version that the task saw is not older than what the caller asked for.
    exact fun r previous hf _ ↦ hholds.of_le (hf.basis version hbasis)
  · exact fun heq ↦ absurd heq (Nat.succ_ne_self _)

theorem Inv.install (hinv : Inv w) {id generation version : ℕ} {known : Option ℕ}
    {rows : List PolicyRow} {now : ℚ} (hproper : Proper i (.install id known generation version rows) w) :
    Inv (w.install id version rows now) ∧ ∀ j, j ≠ i → Leaves j w (w.install id version rows now) := by
  obtain ⟨hid, since, hbasis, hle, hrows⟩ := hproper
  have hmerge : Contains w.writes since (merge w.seeded rows) :=
    contains_merge hrows (hinv.basis since hbasis) w.seeded
  refine hinv.step_running hid (.inr ⟨_, rfl⟩) rfl rfl ?_ ?_ (Nat.le_succ _) ?_ ?_
  · intro v hv
    obtain rfl : version = v := Option.some.inj hv
    exact hmerge.of_le hle
  · exact fun b hb ↦ by cases hb
  · exact fun r previous hf _ ↦ hmerge.of_le (hf.basis since hbasis)
  · exact fun heq ↦ absurd heq (Nat.succ_ne_self _)

/-- The step lemma. -/
theorem inv_exec (hinv : Inv w) {o : Op} {a : Ret o} (h : Exec i w o a w')
    (hcareful : Careful i o w) (hproper : Proper i o w) :
    Inv w' ∧ ∀ j, j ≠ i → Leaves j w w' := by
  cases h with
  | createTask requireFresh hnone =>
      exact ⟨(hinv.createTask hnone (j := i)).1, fun j _ ↦ (hinv.createTask hnone).2⟩
  | beginRefresh id hcreated =>
      constructor
      · exact ⟨hinv.known, hinv.basis, fun k t hk ht ↦ hinv.live_set hcreated trivial hk ht⟩
      · intro j hj
        refine ⟨List.prefix_rfl, le_rfl, fun r previous hf ↦ ?_, fun k hk ↦ ?_⟩
        · exact hf.kept List.prefix_rfl rfl (fun _ h ↦ h) fun b hb ↦ .inl hb
        · exact absurd hk (hinv.not_running hcreated trivial (by simp) k)
  | readVersion known =>
      obtain ⟨id, hid⟩ := hproper
      refine hinv.step_running hid (.inl rfl) rfl rfl hinv.known (fun b hb ↦ ?_) le_rfl ?_
        fun _ _ h ↦ h
      · dsimp only at hb
        split_ifs at hb
        exact (Option.some.inj hb).symm
      · exact fun _ _ _ hlt ↦ absurd hlt (lt_irrefl _)
  | beginLoad =>
      obtain ⟨id, hid⟩ := hproper
      refine hinv.step_running hid (.inl rfl) rfl rfl hinv.known ?_ le_rfl ?_ fun _ _ h ↦ h
      · exact fun b hb ↦ (Option.some.inj hb).symm
      · exact fun _ _ _ hlt ↦ absurd hlt (lt_irrefl _)
  | settle id version now hinit => exact hinv.settle hinit hproper
  | abandon id => exact hinv.endTask hproper
  | install id generation version known rows now hsame => exact hinv.install hproper
  | discard id generation version known rows hsame => exact hinv.endTask hproper.1
  | reload policies =>
      have hholds : ∀ v, w.Holds v → (w.reload policies).Holds v := hcareful
      refine ⟨⟨fun v hv ↦ hholds v (hinv.known v hv), hinv.basis, hinv.live⟩, fun j _ ↦ ?_⟩
      exact .of_tasks List.prefix_rfl rfl hholds rfl rfl rfl
  | noteVersion version now =>
      refine ⟨⟨fun v hv ↦ ?_, hinv.basis, hinv.live⟩, fun j _ ↦ ?_⟩
      · obtain rfl : version = v := Option.some.inj hv
        exact hcareful
      · exact .of_tasks List.prefix_rfl rfl (fun _ h ↦ h) rfl rfl rfl
  | invalidateScope =>
      refine ⟨⟨hinv.known, hinv.basis, hinv.live⟩, fun j _ ↦ ?_⟩
      exact .of_tasks List.prefix_rfl rfl (fun _ h ↦ h) rfl rfl rfl
  | write row =>
      have hgrown : w.writes <+: w.writes ++ [row] := List.prefix_append _ _
      refine ⟨⟨fun v hv ↦ (hinv.known v hv).grow hgrown, fun b hb ↦ ?_, hinv.live⟩, fun j _ ↦ ?_⟩
      · exact (hinv.basis b hb).trans hgrown.length_le
      · exact .of_tasks hgrown rfl (fun _ h ↦ h.grow hgrown) rfl rfl rfl
  | _ => exact ⟨hinv, fun j _ ↦ Leaves.refl j w⟩

/-! ### Programs -/

def protocol : Protocol World where
  inv := Inv
  rely := Leaves
  refl := Leaves.refl
  trans _ _ _ _ := Leaves.trans

abbrev machine (W : WordClass) : Machine Op Ret World := ((service W).restrict Careful).machine

section Programs

variable {W : WordClass} {α β : Type}

abbrev Keeps (W : WordClass) (i : ℕ) (p : Program α) (w : World) : Prop :=
  Safe (machine W) protocol i (fun _ _ ↦ True) p w

theorem op_safe {Q : α → World → Prop} {o : Op} {k : Ret o → Program α}
    (h : ∀ w₁, Leaves i w w₁ → Inv w₁ → Proper i o w₁ ∧
      ∀ a w₂, Exec i w₁ o a w₂ → Careful i o w₁ → Inv w₂ → Safe (machine W) protocol i Q (k a) w₂) :
    Safe (machine W) protocol i Q (.call o k) w := by
  have hstep : ∀ o w a w', Inv w → (machine W).exec i o w a w' → Proper i o w →
      Inv w' ∧ ∀ j, j ≠ i → Leaves j w w' :=
    fun o w a w' hinv hexec ↦ inv_exec hinv hexec.1 hexec.2
  refine Safe.proper hstep fun w₁ hw hinv ↦ ?_
  obtain ⟨hproper, hk⟩ := h w₁ hw hinv
  exact ⟨hproper, fun a w₂ hexec ↦ hk a w₂ hexec.1 hexec.2⟩

theorem keeps_done (a : α) : Keeps W i (.done a) w := Safe.done fun _ _ _ ↦ trivial

theorem keeps_op {o : Op} {k : Ret o → Program α} (hproper : ∀ w, Proper i o w)
    (hk : ∀ a w', Keeps W i (k a) w') : Keeps W i (.call o k) w :=
  op_safe fun w₁ _ _ ↦ ⟨hproper w₁, fun a w₂ _ _ _ ↦ hk a w₂⟩

theorem loadMoved_keeps {id generation version : ℕ} {known : Option ℕ}
    (hid : w.tasks[id]? = some (.running i)) (hversion : version ≤ w.version) :
    Keeps W i (loadMoved id known generation version) w := by
  refine op_safe fun w₁ hw₁ _ ↦ ⟨⟨id, (hw₁.runs id hid).1⟩, fun _ w₂ hexec _ _ ↦ ?_⟩
  have hid₁ := (hw₁.runs id hid).1
  have hversion₁ : version ≤ w₁.version := hversion.trans hw₁.version
  cases hexec
  refine op_safe fun w₃ hw₃ _ ↦ ⟨trivial, fun rows w₄ hexec _ _ ↦ ?_⟩
  obtain ⟨hid₃, hbasis₃, -⟩ := hw₃.runs id hid₁
  cases hexec with
  | endLoad_failed =>
      exact op_safe fun w₅ hw₅ _ ↦ ⟨(hw₅.runs id hid₃).1, fun _ _ _ _ _ ↦ keeps_done _⟩
  | endLoad since rows hsince hrows =>
      rw [hbasis₃] at hsince
      obtain rfl := Option.some.inj hsince
      refine op_safe fun w₅ hw₅ _ ↦ ⟨?_, fun _ _ _ _ _ ↦ keeps_done _⟩
      obtain ⟨hid₅, hbasis₅, -⟩ := hw₅.runs id hid₃
      exact ⟨hid₅, w₁.version, by rw [hbasis₅, hbasis₃], hversion₁, hrows.grow hw₅.writes⟩

theorem moved_eq {id version : ℕ} {known : Option ℕ}
    (h : Exec i w (.settleVersion id known version) false w') : w' = w := by
  cases h
  rfl

theorem refresh_keeps (id : ℕ) : Keeps W i (refresh id) w := by
  refine op_safe fun w₁ _ hinv₁ ↦ ⟨trivial, fun began w₂ hexec _ _ ↦ ?_⟩
  cases hexec with
  | beginRefresh _ hcreated =>
  have hlt : id < w₁.tasks.length := (List.getElem?_eq_some_iff.mp hcreated).1
  have hid : (w₁.setTask id (.running i)).tasks[id]? = some (.running i) := by
    simp [World.setTask, hlt]
  have hknown : ∀ v, w₁.known = some v → (w₁.setTask id (.running i)).Holds v := hinv₁.known
  refine op_safe fun w₃ hw₃ _ ↦ ⟨⟨id, (hw₃.runs id hid).1⟩, fun read w₄ hexec _ _ ↦ ?_⟩
  obtain ⟨hid₃, -, -, hholds₃⟩ := hw₃.runs id hid
  cases hexec with
  | readVersion_failed =>
      exact op_safe fun w₅ hw₅ _ ↦ ⟨(hw₅.runs id hid₃).1, fun _ _ _ _ _ ↦ keeps_done _⟩
  | readVersion =>
  refine op_safe fun w₅ hw₅ _ ↦ ⟨?_, fun moved w₆ hexec _ _ ↦ ?_⟩
  · obtain ⟨hid₅, hbasis₅, hinit₅, hholds₅⟩ := hw₅.runs id hid₃
    refine ⟨hid₅, fun hsame hinit ↦ ⟨?_, ?_⟩⟩
    · rw [hbasis₅]
      rw [hinit₅] at hinit
      exact if_pos ⟨hsame, hinit⟩
    · exact hholds₅ _ (hholds₃ _ (hknown _ hsame))
  · cases moved with
    | true => exact keeps_done _
    | false =>
        obtain rfl := moved_eq hexec
        exact loadMoved_keeps (hw₅.runs id hid₃).1 hw₅.version

/-- The call rests on the `r` writes that were there before it. -/
def Rests (r : ℕ) (w : World) : Prop := ∃ previous, previous < w.successes ∧ Fresh r previous w

theorem Rests.leaves (h : Rests r w) (hw : Leaves i w w') : Rests r w' := by
  obtain ⟨previous, hlt, hf⟩ := h
  exact ⟨previous, hlt.trans_le hw.successes, hw.fresh r previous hf⟩

theorem conclude_ok {refreshed : Option Bool} {loaded : Bool}
    (h : conclude w previous refreshed = .ok loaded) : previous < w.successes := by
  cases refreshed with
  | none => cases h
  | some refreshed =>
      rw [conclude] at h
      split_ifs at h with hdone
      exact hdone.2

theorem awaitTask_safe {id : ℕ} {requireFresh : Bool}
    (hf : requireFresh = true → Fresh r previous w) :
    Safe (machine W) protocol i (fun a w' ↦ requireFresh = true → ∀ loaded,
      a = some (.ok loaded) → Rests r w') (Prog.op (Op.awaitTask id previous)) w := by
  refine op_safe fun w₁ hw₁ _ ↦ ⟨trivial, fun a w₂ hexec _ _ ↦ ?_⟩
  refine Safe.done fun w₃ hw₃ _ hfresh loaded ha ↦ ?_
  have hf₁ := hw₁.fresh r previous (hf hfresh)
  cases hexec with
  | cancelled => cases ha
  | waited _ _ refreshed hdone =>
      have hlt := conclude_ok (Option.some.inj ha)
      exact Rests.leaves ⟨previous, hlt, hf₁⟩ hw₃

/-- A caller that asks for a fresh set and gets an answer has what was written before. -/
theorem refreshIfStale_safe (requireFresh : Bool) :
    Safe (machine W) protocol i (fun a w' ↦ requireFresh = true → ∀ loaded,
      a = some (.ok loaded) → Rests w.version w') (refreshIfStale requireFresh) w := by
  refine op_safe fun w₁ hw₁ hinv₁ ↦ ⟨by cases requireFresh <;> trivial,
    fun task w₂ hexec hcareful _ ↦ ?_⟩
  cases hexec with
  | fresh => exact Safe.done fun _ _ _ hfresh ↦ by cases hfresh
  | joinTask _ id hlive =>
      refine awaitTask_safe fun hfresh ↦ ?_
      subst hfresh
      refine ⟨hw₁.version, le_rfl, fun b hb ↦ ?_, fun hlt ↦ absurd hlt (lt_irrefl _)⟩
      rw [hcareful b hb]
      exact hw₁.version
  | createTask _ hnone =>
      refine awaitTask_safe fun _ ↦ ?_
      exact ⟨hw₁.version, le_rfl, fun b hb ↦ (by cases hb), fun hlt ↦ absurd hlt (lt_irrefl _)⟩

theorem refreshIfStale_keeps (requireFresh : Bool) : Keeps W i (refreshIfStale requireFresh) w :=
  (refreshIfStale_safe requireFresh).imp fun _ _ _ ↦ trivial

theorem evaluate_keeps (ctx : Context) (action : List Char) :
    Keeps W i (evaluate W ctx action) w := by
  refine Safe.seq (refreshIfStale_keeps false) fun a w₁ _ _ ↦ ?_
  rcases a with _ | _ | _
  · exact keeps_done _
  · exact keeps_done _
  · exact keeps_op (fun _ ↦ trivial) fun _ _ ↦ keeps_done _

/-- What a call has seen to when it returns. -/
def Fulfilled (c : Call) (w₀ : World) (a : Result Answer) (w : World) : Prop :=
  c = .refreshIfStale true → ∀ loaded, a = some (.ok (.refreshed loaded)) → Rests w₀.version w

theorem body_safe (c : Call) :
    Safe (machine W) protocol i (Fulfilled c w) (body W c) w := by
  have hkeeps : ∀ {p : Program (Result Answer)}, c ≠ .refreshIfStale true → Keeps W i p w →
      Safe (machine W) protocol i (Fulfilled c w) p w :=
    fun hne h ↦ h.imp fun _ _ _ heq ↦ absurd heq hne
  cases c with
  | refresh id =>
      exact hkeeps (by simp) (Safe.seq (refresh_keeps id) fun _ _ _ _ ↦ keeps_done _)
  | refreshIfStale requireFresh =>
      refine Safe.seq (refreshIfStale_safe requireFresh) fun a w₁ _ hrests ↦ ?_
      refine Safe.done fun w₂ hw₂ _ hcall loaded ha ↦ ?_
      obtain rfl : requireFresh = true := by simpa using hcall
      rcases a with _ | _ | loaded'
      · cases ha
      · cases ha
      · exact (hrests rfl loaded' rfl).leaves hw₂
  | evaluate ctx action => exact hkeeps (by simp) (evaluate_keeps ctx action)
  | reload policies =>
      exact hkeeps (by simp) (keeps_op (fun _ ↦ trivial) fun _ _ ↦ keeps_done _)
  | noteLocalVersion version =>
      exact hkeeps (by simp) (keeps_op (fun _ ↦ trivial) fun _ _ ↦ keeps_done _)
  | invalidateScope =>
      exact hkeeps (by simp) (keeps_op (fun _ ↦ trivial) fun _ _ ↦ keeps_done _)
  | savePolicy row =>
      exact hkeeps (by simp) (keeps_op (fun _ ↦ trivial) fun _ _ ↦ keeps_done _)

end Programs

section Runs

variable {W : WordClass}

theorem obligations (W : WordClass) :
    Obligations ((service W).restrict Careful) protocol (fun _ _ ↦ True)
      (fun _ c w₀ a w ↦ Fulfilled c w₀ a w) where
  pre_rely _ _ _ _ _ := trivial
  env w w' hinv henv := by
    obtain rfl : w = w' := henv
    exact ⟨hinv, fun i ↦ Leaves.refl i w⟩
  start _ c _ _ _ _ := body_safe c

theorem inv_start (writes seeded : List PolicyRow) : Inv (start writes seeded) :=
  ⟨fun v hv ↦ (by cases hv), fun b hb ↦ (by cases hb), fun id task hid ↦ (by simp [start] at hid)⟩

abbrev ServicePool := Pool Op Ret World Call (Result Answer)

/-- Every policy stored at version `v` is in force, as it was stored at `v` or later: its
statement, where it parses, is among the compiled ones. -/
def InForce (W : WordClass) (w : World) (v : ℕ) : Prop :=
  ∀ name row, storedAt w.writes v name = some row →
    ∃ k row', v ≤ k ∧ storedAt w.writes k name = some row' ∧
      ∀ s, parsePolicy W row'.policyText = some s → (s, row') ∈ compile W w.policies

theorem World.Holds.inForce {w : World} {v : ℕ} (h : w.Holds v) : InForce W w v := by
  intro name row hname
  obtain ⟨k, row', hk, -, hstored, hmem⟩ := h.2 name row hname
  refine ⟨k, row', hk, hstored, fun s hs ↦ List.mem_filterMap.mpr ⟨row', hmem, ?_⟩⟩
  rw [hs]
  rfl

/-- Any calls on one service and any writes, in any order: as long as the callers are
careful, the compiled set has every policy as of the known version, and a call for a fresh
set that returned has every policy that was written before it started. -/
theorem inForce_of_careful {W : WordClass} {writes seeded : List PolicyRow} {p : ServicePool}
    (hp : Reachable ((service W).restrict Careful) (start writes seeded) p) :
    (∀ v, p.state.known = some v → InForce W p.state v) ∧
      ∀ (i : ℕ) (w₀ : World) (loaded : Bool),
        p.threads[i]? = some ⟨.refreshIfStale true, w₀, .done (some (.ok (.refreshed loaded)))⟩ →
          InForce W p.state w₀.version := by
  have hsafe := Reachable.poolSafe (obligations W) (inv_start writes seeded) (fun _ ↦ trivial) hp
  refine ⟨fun v hv ↦ (hsafe.inv.known v hv).inForce, fun i w₀ loaded hi ↦ ?_⟩
  obtain ⟨previous, hlt, hf⟩ := hsafe.result hi rfl loaded rfl
  exact (hf.holds hlt).inForce

end Runs

/-! ### A write and a refresh that is under way -/

/-- While every name was written once, a read of the moment gives the writes. -/
theorem reads_writes {writes : List PolicyRow} (h : (writes.map PolicyRow.name).Nodup) {b : ℕ}
    (hb : b ≤ writes.length) : Reads writes b writes := by
  refine ⟨h, fun name ↦ ⟨writes.length, hb, le_rfl, ?_⟩⟩
  rw [storedAt, List.take_length]
  cases hfind : writes.find? (·.name = name) with
  | none =>
      rw [List.find?_eq_none] at hfind
      exact (List.find?_eq_none.mpr fun row hrow ↦ hfind row (List.mem_reverse.mp hrow)).symm
  | some row =>
      have hname : row.name = name := by simpa using List.find?_some hfind
      have hmem := List.mem_of_find?_eq_some hfind
      obtain ⟨row', hrow'⟩ : ∃ row', writes.reverse.find? (·.name = name) = some row' := by
        rw [← Option.isSome_iff_exists, List.find?_isSome]
        exact ⟨row, List.mem_reverse.mpr hmem, by simpa using hname⟩
      have hname' : row'.name = name := by simpa using List.find?_some hrow'
      have hmem' := List.mem_reverse.mp (List.mem_of_find?_eq_some hrow')
      rw [hrow', List.inj_on_of_nodup_map h hmem hmem' (hname.trans hname'.symm)]

/-- How an operation turns out when nothing fails, no time passes and a read gives the
policies of one moment. -/
def act (i : ℕ) : (o : Op) → World → Option (Ret o × World)
  | .ensureTask requireFresh, w =>
      match w.registered with
      | none => some (some (w.tasks.length, w.successes), w.createTask)
      | some id =>
          match w.tasks[id]? with
          | some (.done _) => some (some (w.tasks.length, w.successes), w.createTask)
          | _ => some (some (id, w.successes), w)
  | .awaitTask id previousSuccesses, w =>
      match w.tasks[id]? with
      | some (.done refreshed) => some (some (conclude w previousSuccesses refreshed), w)
      | _ => none
  | .beginRefresh id, w =>
      match w.tasks[id]? with
      | some .created => some ((w.known, w.generation), w.setTask id (.running i))
      | _ => none
  | .readVersion known, w =>
      some (some w.version, { w with
        basis := if known = some w.version ∧ w.initialized = true then some w.version else none })
  | .settleVersion id known version, w =>
      if known = some version ∧ w.initialized = true then some (true, w.settle id 0)
      else some (false, w)
  | .beginLoad, w => some ((), { w with basis := some w.version })
  | .endLoad, w =>
      if (w.writes.map PolicyRow.name).Nodup ∧ w.basis = some w.version then some (some w.writes, w)
      else none
  | .install id known generation version rows, w =>
      if w.known = known ∧ w.generation = generation then some ((), w.install id version rows 0)
      else some ((), w.endTask id false)
  | .write row, w => some ((), { w with writes := w.writes ++ [row] })
  | _, _ => none

theorem exec_act {i : ℕ} {w w' : World} {o : Op} {a : Ret o} (h : act i o w = some (a, w')) :
    Exec i w o a w' := by
  cases o with
  | ensureTask requireFresh =>
      dsimp only [act] at h
      split at h
      next hnone =>
        cases h
        exact .createTask requireFresh fun id hlive ↦ nomatch hnone.symm.trans hlive.1
      next id hid =>
        split at h
        next refreshed hdone =>
          cases h
          refine .createTask requireFresh fun id' hlive ↦ ?_
          obtain rfl : id = id' := Option.some.inj (hid.symm.trans hlive.1)
          exact hlive.2 refreshed hdone
        next hopen =>
          cases h
          exact .joinTask requireFresh id ⟨hid, hopen⟩
  | awaitTask id previousSuccesses =>
      dsimp only [act] at h
      split at h
      next refreshed hdone =>
        cases h
        exact .waited id previousSuccesses refreshed hdone
      next => cases h
  | beginRefresh id =>
      dsimp only [act] at h
      split at h
      next hcreated =>
        cases h
        exact .beginRefresh id hcreated
      next => cases h
  | readVersion known =>
      cases h
      exact .readVersion known
  | settleVersion id known version =>
      dsimp only [act] at h
      split_ifs at h with hsame
      · obtain ⟨rfl, hinit⟩ := hsame
        cases h
        exact .settle id version 0 hinit
      · cases h
        exact .moved id known version hsame
  | beginLoad =>
      cases h
      exact .beginLoad
  | endLoad =>
      dsimp only [act] at h
      split_ifs at h with hread
      cases h
      exact .endLoad _ _ hread.2 (reads_writes hread.1 le_rfl)
  | install id known generation version rows =>
      dsimp only [act] at h
      split_ifs at h with hsame
      · cases h
        exact .install id generation version known rows 0 hsame
      · cases h
        exact .discard id generation version known rows hsame
  | write row =>
      cases h
      exact .write row
  | _ => cases h

/-- A test of what a caller has to see to, in a run without reloads and reported versions. -/
def careful : Op → World → Bool
  | .reload _, _ => false
  | .noteVersion _, _ => false
  | .ensureTask true, w => w.basis.all (· == w.version)
  | _, _ => true

theorem careful_sound {i : ℕ} {o : Op} {w : World} (h : careful o w = true) : Careful i o w := by
  cases o with
  | ensureTask requireFresh =>
      cases requireFresh with
      | false => trivial
      | true =>
          intro b hb
          rw [careful, hb] at h
          simpa using h
  | reload policies => cases h
  | noteVersion version => cases h
  | _ => trivial

def permitAll : PolicyRow :=
  ⟨"all", "permit(principal, action, resource);".toList, "ENFORCE"⟩

/-- The first refresh of the tenant. -/
def firstRefresh : List (Turn Call) :=
  .start (.refreshIfStale true) :: .next 0 :: .start (.refresh 0) :: List.replicate 6 (.next 1) ++
    [.next 0]

/-- A refresh reads the version, a policy is written, and a caller that asks for a fresh set
waits for the refresh. -/
def joined : List (Turn Call) :=
  [.start (.refreshIfStale true), .next 2, .start (.refresh 1), .next 3, .next 3,
    .start (.savePolicy permitAll), .next 4, .start (.refreshIfStale true), .next 5, .next 3,
    .next 5]

/-- The caller asks after the refresh is over. -/
def apart : List (Turn Call) :=
  [.start (.refreshIfStale true), .next 2, .start (.refresh 1), .next 3, .next 3,
    .start (.savePolicy permitAll), .next 4, .next 3, .start (.refreshIfStale true), .next 5,
    .start (.refresh 2)] ++ List.replicate 6 (.next 6) ++ [.next 5]

def play (ok : Op → World → Bool) (turns : List (Turn Call)) : ServicePool :=
  Pool.playTurns (body asciiWord) (fun i o w ↦ if ok o w then act i o w else none)
    (firstRefresh ++ turns) ⟨start [] [], []⟩

/-- Whether call 5 returned what it asked for. -/
def returned (p : ServicePool) : Bool :=
  match (p.threads[5]? : Option (Thread Op Ret World Call (Result Answer))) with
  | some ⟨.refreshIfStale true, w₀, .done (some (.ok (.refreshed _)))⟩ => w₀.version == 1
  | _ => false

theorem returned_spec {p : ServicePool} (h : returned p = true) : ∃ w₀ loaded,
    p.threads[5]? = some ⟨.refreshIfStale true, w₀, .done (some (.ok (.refreshed loaded)))⟩ ∧
      w₀.version = 1 := by
  unfold returned at h
  split at h
  next w₀ loaded hi => exact ⟨w₀, loaded, hi, by simpa using h⟩
  next => cases h

theorem inForce_apart : InForce asciiWord (play careful apart).state 1 ∧
    (play careful apart).state.known = some 1 := by
  have hplay : Steps ((service asciiWord).restrict Careful) ⟨start [] [], []⟩
      (play careful apart) := by
    refine Steps.playTurns (S := (service asciiWord).restrict Careful) (fun i o w a w' h ↦ ?_) _
      (fun _ _ _ ↦ trivial) _
    split_ifs at h with hok
    exact ⟨exec_act h, careful_sound hok⟩
  obtain ⟨w₀, loaded, hi, hversion⟩ :=
    returned_spec (p := play careful apart) (by decide +kernel)
  have hforce := inForce_of_careful hplay
  refine ⟨?_, by decide +kernel⟩
  rw [← hversion]
  exact hforce.2 5 w₀ loaded hi

/-- The caller returns, and the policy that was written before it asked is not compiled. -/
theorem joined_not_inForce : ∃ p : ServicePool, Reachable (service asciiWord) (start [] []) p ∧
    ∃ (w₀ : World) (loaded : Bool),
      p.threads[5]? = some ⟨.refreshIfStale true, w₀, .done (some (.ok (.refreshed loaded)))⟩ ∧
        ¬ InForce asciiWord p.state w₀.version := by
  refine ⟨play (fun _ _ ↦ true) joined, ?_, ?_⟩
  · exact Steps.playTurns (S := service asciiWord) (fun i o w a w' h ↦ exec_act (by simpa using h))
      _ (fun _ _ _ ↦ trivial) _
  · obtain ⟨w₀, loaded, hi, hversion⟩ :=
      returned_spec (p := play (fun _ _ ↦ true) joined) (by decide +kernel)
    refine ⟨w₀, loaded, hi, fun hforce ↦ ?_⟩
    rw [hversion] at hforce
    have hstored : storedAt (play (fun _ _ ↦ true) joined).state.writes 1 "all" = some permitAll := by
      decide +kernel
    have hwrites : (play (fun _ _ ↦ true) joined).state.writes = [permitAll] := by decide +kernel
    have hcompiled : compile asciiWord (play (fun _ _ ↦ true) joined).state.policies = [] := by
      decide +kernel
    obtain ⟨k, row, -, hrow, hmem⟩ := hforce "all" permitAll hstored
    rw [hwrites] at hrow
    have hrow' : row = permitAll := by
      have := List.mem_of_mem_take (List.mem_reverse.mp (List.mem_of_find?_eq_some hrow))
      simpa using this
    have hparse : parsePolicy asciiWord permitAll.policyText = some ⟨.permit, none, [], []⟩ := by
      decide +kernel
    have := hmem _ (hrow' ▸ hparse)
    rw [hcompiled] at this
    cases this

end Cedar.Service
