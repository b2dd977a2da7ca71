import AxonGateway.Lib.FifoLock

/-!
# Striped locks

Every key has a lock of its own, which is created on demand. A section over several keys takes
their locks in the order of the keys.
-/

namespace Locks

variable {T : Type}

/-- A section of `acquire` or `multi`, with the keys that are given. -/
inductive Call where
  | acquire (key : String)
  | multi (keys : List String)

def Call.keys : Call → List String
  | .acquire key => [key]
  | .multi keys => keys

/-- The keys in the order in which their locks are taken. -/
def Call.ordered : Call → List String
  | .acquire key => [key]
  | .multi keys => (keys.filter (· ≠ "")).toFinset.sort (· ≤ ·)

abbrev LockId := ℕ

/-- The locks that a task has taken, with their keys. -/
abbrev Acquired := List (String × LockId)

/-- Where a task is. -/
inductive Place where
  | outside
  -- at the head of the loop over the keys
  | next (call : Call) (acquired : Acquired) (todo : List String)
  -- waiting for the registry lock in `_get`
  | registry (call : Call) (acquired : Acquired) (key : String) (todo : List String)
  -- `_get` has returned
  | got (call : Call) (acquired : Acquired) (key : String) (lock : LockId) (todo : List String)
  -- waiting for the lock of a key
  | queued (call : Call) (acquired : Acquired) (key : String) (lock : LockId) (todo : List String)
  | inside (call : Call) (acquired : Acquired)

def Place.acquired : Place → Acquired
  | .outside => []
  | .next _ acquired _ => acquired
  | .registry _ acquired _ _ => acquired
  | .got _ acquired _ _ _ => acquired
  | .queued _ acquired _ _ _ => acquired
  | .inside _ acquired => acquired

/-- The locks of the keys and the tasks that use them. -/
structure World (T : Type) where
  names : String → Option LockId
  registryLock : FifoLock T
  locks : LockId → FifoLock T
  created : ℕ
  tasks : T → Place

def World.start : World T := ⟨fun _ ↦ none, .unlocked, fun _ ↦ .unlocked, 0, fun _ ↦ .outside⟩

namespace World

variable (w : World T)

def setLock (i : LockId) (l : FifoLock T) : World T :=
  { w with locks := Function.update w.locks i l }

def setRegistry (l : FifoLock T) : World T := { w with registryLock := l }

/-- The section of the registry lock in `_get`. -/
def register (key : String) : World T × LockId :=
  match w.names key with
  | some i => (w, i)
  | none =>
      ({ w with
          names := Function.update w.names key (some w.created)
          locks := Function.update w.locks w.created .unlocked
          created := w.created + 1 }, w.created)

/-- `lock.release()` for every lock that is recorded. -/
def giveBack (acquired : Acquired) : World T :=
  { w with locks := fun i ↦ if i ∈ acquired.map Prod.snd then (w.locks i).release else w.locks i }

variable [DecidableEq T]

def place (t : T) (p : Place) : World T := { w with tasks := Function.update w.tasks t p }

/-- A lock that is waited for is waited for no more. -/
def withdraw (t : T) : World T :=
  match w.tasks t with
  | .registry _ _ _ _ => w.setRegistry (w.registryLock.withdraw t)
  | .queued _ _ _ i _ => w.setLock i ((w.locks i).withdraw t)
  | _ => w

end World

variable [DecidableEq T]

/-- What a task does from one point at which it may be interrupted to the next. -/
inductive Step (w : World T) : World T → Prop
  | start (t : T) (call : Call) (hplace : w.tasks t = .outside) :
      Step w (w.place t (.next call [] call.ordered))
  | found (t : T) (call : Call) (acquired : Acquired) (key : String) (todo : List String)
      (i : LockId) (hplace : w.tasks t = .next call acquired (key :: todo))
      (hname : w.names key = some i) : Step w (w.place t (.got call acquired key i todo))
  | create (t : T) (call : Call) (acquired : Acquired) (key : String) (todo : List String)
      (hplace : w.tasks t = .next call acquired (key :: todo)) (hname : w.names key = none)
      (hfree : w.registryLock.Free) :
      Step w ((w.register key).1.place t (.got call acquired key (w.register key).2 todo))
  | queueRegistry (t : T) (call : Call) (acquired : Acquired) (key : String) (todo : List String)
      (hplace : w.tasks t = .next call acquired (key :: todo)) (hname : w.names key = none)
      (hbusy : ¬w.registryLock.Free) :
      Step w ((w.setRegistry (w.registryLock.enqueue t)).place t
        (.registry call acquired key todo))
  | grantRegistry (t : T) (call : Call) (acquired : Acquired) (key : String) (todo : List String)
      (hplace : w.tasks t = .registry call acquired key todo) (hready : w.registryLock.Ready t) :
      Step w (((w.setRegistry (w.registryLock.grant t).release).register key).1.place t
        (.got call acquired key
          ((w.setRegistry (w.registryLock.grant t).release).register key).2 todo))
  | take (t : T) (call : Call) (acquired : Acquired) (key : String) (i : LockId)
      (todo : List String) (hplace : w.tasks t = .got call acquired key i todo)
      (hfree : (w.locks i).Free) :
      Step w ((w.setLock i ((w.locks i).take t)).place t
        (.next call (acquired ++ [(key, i)]) todo))
  | queue (t : T) (call : Call) (acquired : Acquired) (key : String) (i : LockId)
      (todo : List String) (hplace : w.tasks t = .got call acquired key i todo)
      (hbusy : ¬(w.locks i).Free) :
      Step w ((w.setLock i ((w.locks i).enqueue t)).place t (.queued call acquired key i todo))
  -- the lock is recorded before the task can be interrupted again
  | grant (t : T) (call : Call) (acquired : Acquired) (key : String) (i : LockId)
      (todo : List String) (hplace : w.tasks t = .queued call acquired key i todo)
      (hready : (w.locks i).Ready t) :
      Step w ((w.setLock i ((w.locks i).grant t)).place t
        (.next call (acquired ++ [(key, i)]) todo))
  | enter (t : T) (call : Call) (acquired : Acquired) (hplace : w.tasks t = .next call acquired []) :
      Step w (w.place t (.inside call acquired))
  | leave (t : T) (call : Call) (acquired : Acquired)
      (hplace : w.tasks t = .inside call acquired) :
      Step w ((w.giveBack acquired).place t .outside)
  | cancel (t : T) (hplace : w.tasks t ≠ .outside) :
      Step w (((w.withdraw t).giveBack (w.tasks t).acquired).place t .outside)

/-- Any interleaving of the tasks. -/
def Reachable (w : World T) : Prop := Relation.ReflTransGen Step World.start w

/-! ### What holds in every state -/

/-- The keys that are locked, then the one that is being locked, then those to come. -/
def Place.Follows : Place → Prop
  | .outside => True
  | .next call acquired todo => acquired.map Prod.fst ++ todo = call.ordered
  | .registry call acquired key todo => acquired.map Prod.fst ++ key :: todo = call.ordered
  | .got call acquired key _ todo => acquired.map Prod.fst ++ key :: todo = call.ordered
  | .queued call acquired key _ todo => acquired.map Prod.fst ++ key :: todo = call.ordered
  | .inside call acquired => acquired.map Prod.fst = call.ordered

/-- The lock that a task has in hand, with its key. -/
def Place.current : Place → Option (String × LockId)
  | .got _ _ key i _ => some (key, i)
  | .queued _ _ key i _ => some (key, i)
  | _ => none

/-- The lock that a task is queued for. -/
def Place.queuedFor : Place → Option LockId
  | .queued _ _ _ i _ => some i
  | _ => none

def Place.atRegistry : Place → Bool
  | .registry _ _ _ _ => true
  | _ => false

/-- A place that goes with the names of the locks. -/
structure Place.Fits (names : String → Option LockId) (p : Place) : Prop where
  follows : p.Follows
  acquired : ∀ entry ∈ p.acquired, names entry.1 = some entry.2
  current : ∀ entry, p.current = some entry → names entry.1 = some entry.2
  atRegistry : p.atRegistry = false

structure Inv (w : World T) : Prop where
  registered : ∀ key i, w.names key = some i → i < w.created
  names_inj : ∀ key key' i, w.names key = some i → w.names key' = some i → key = key'
  registryLock : w.registryLock.Free
  fits : ∀ t, (w.tasks t).Fits w.names
  holder : ∀ t i, (w.locks i).holder = some t ↔ i ∈ (w.tasks t).acquired.map Prod.snd
  waiters : ∀ t i, t ∈ (w.locks i).waiters ↔ (w.tasks t).queuedFor = some i
  nodup : ∀ i, (w.locks i).waiters.Nodup

omit [DecidableEq T] in
theorem inv_start : Inv (World.start : World T) where
  registered := nofun
  names_inj := nofun
  registryLock := ⟨rfl, rfl⟩
  fits _ := ⟨trivial, nofun, nofun, rfl⟩
  holder _ _ := ⟨nofun, nofun⟩
  waiters _ _ := ⟨nofun, nofun⟩
  nodup _ := List.nodup_nil

variable {w : World T}

@[simp] theorem World.place_self (t : T) (p : Place) : (w.place t p).tasks t = p :=
  Function.update_self ..

theorem World.place_of_ne {t u : T} (h : u ≠ t) (p : Place) :
    (w.place t p).tasks u = w.tasks u := Function.update_of_ne h ..

/-- One task moves, and the locks change for it alone. -/
theorem Inv.move (h : Inv w) (t : T) {p : Place} (locks : LockId → FifoLock T)
    (hfits : p.Fits w.names)
    (hholder : ∀ i u, u ≠ t → ((locks i).holder = some u ↔ (w.locks i).holder = some u))
    (hheld : ∀ i, (locks i).holder = some t ↔ i ∈ p.acquired.map Prod.snd)
    (hwaiters : ∀ i u, u ≠ t → (u ∈ (locks i).waiters ↔ u ∈ (w.locks i).waiters))
    (hqueued : ∀ i, t ∈ (locks i).waiters ↔ p.queuedFor = some i)
    (hnodup : ∀ i, (locks i).waiters.Nodup) :
    Inv ({ w with locks := locks }.place t p) where
  registered := h.registered
  names_inj := h.names_inj
  registryLock := h.registryLock
  fits u := by
    by_cases hu : u = t
    · subst hu
      rw [World.place_self]
      exact hfits
    · rw [World.place_of_ne hu]
      exact h.fits u
  holder u i := by
    by_cases hu : u = t
    · subst hu
      rw [World.place_self]
      exact hheld i
    · rw [World.place_of_ne hu]
      exact (hholder i u hu).trans (h.holder u i)
  waiters u i := by
    by_cases hu : u = t
    · subst hu
      rw [World.place_self]
      exact hqueued i
    · rw [World.place_of_ne hu]
      exact (hwaiters i u hu).trans (h.waiters u i)
  nodup := hnodup

/-- A task moves and no lock changes. -/
theorem Inv.place (h : Inv w) {t : T} {p : Place} (hfits : p.Fits w.names)
    (hacquired : p.acquired = (w.tasks t).acquired)
    (hqueued : p.queuedFor = (w.tasks t).queuedFor) : Inv (w.place t p) := by
  refine h.move t w.locks hfits (fun _ _ _ ↦ Iff.rfl) ?_ (fun _ _ _ ↦ Iff.rfl) ?_ h.nodup
  · intro i
    rw [hacquired]
    exact h.holder t i
  · intro i
    rw [hqueued]
    exact h.waiters t i

theorem Place.exists_current {p : Place} {i : LockId} (h : p.queuedFor = some i) :
    ∃ key, p.current = some (key, i) := by
  cases p with
  | queued call acquired key j todo =>
      obtain rfl := Option.some.inj h
      exact ⟨key, rfl⟩
  | outside => cases h
  | next call acquired todo => cases h
  | registry call acquired key todo => cases h
  | got call acquired key j todo => cases h
  | inside call acquired => cases h

omit [DecidableEq T] in
/-- A new lock does not disturb anyone. -/
theorem Inv.register (h : Inv w) {key : String} (hname : w.names key = none) :
    Inv (w.register key).1 ∧ (w.register key).1.names key = some (w.register key).2 ∧
      (w.register key).1.tasks = w.tasks := by
  have hregister : w.register key = ({ w with
      names := Function.update w.names key (some w.created)
      locks := Function.update w.locks w.created .unlocked
      created := w.created + 1 }, w.created) := by
    unfold World.register
    rw [hname]
  rw [hregister]
  have hold : ∀ {k i}, w.names k = some i →
      Function.update w.names key (some w.created) k = some i := by
    intro k i hk
    rw [Function.update_of_ne, hk]
    rintro rfl
    rw [hname] at hk
    cases hk
  have hcases : ∀ {k i}, Function.update w.names key (some w.created) k = some i →
      k = key ∧ i = w.created ∨ w.names k = some i := by
    intro k i hk
    by_cases heq : k = key
    · subst heq
      rw [Function.update_self] at hk
      exact .inl ⟨rfl, (Option.some.inj hk).symm⟩
    · rw [Function.update_of_ne heq] at hk
      exact .inr hk
  have hfresh : ∀ {k}, w.names k ≠ some w.created :=
    fun hk ↦ lt_irrefl _ (h.registered _ _ hk)
  refine ⟨?_, Function.update_self .., rfl⟩
  constructor
  · intro k i hk
    rcases hcases hk with ⟨-, rfl⟩ | hk
    · exact Nat.lt_succ_self _
    · exact Nat.lt_succ_of_lt (h.registered k i hk)
  · intro k k' i hk hk'
    rcases hcases hk with ⟨rfl, rfl⟩ | hk
    · rcases hcases hk' with ⟨rfl, -⟩ | hk'
      · rfl
      · exact absurd hk' hfresh
    · rcases hcases hk' with ⟨-, rfl⟩ | hk'
      · exact absurd hk hfresh
      · exact h.names_inj k k' i hk hk'
  · exact h.registryLock
  · intro t
    have hfits := h.fits t
    exact ⟨hfits.follows, fun entry hentry ↦ hold (hfits.acquired entry hentry),
      fun entry hentry ↦ hold (hfits.current entry hentry), hfits.atRegistry⟩
  · intro t i
    by_cases hi : i = w.created
    · subst hi
      dsimp only
      rw [Function.update_self]
      refine ⟨nofun, fun hmem ↦ ?_⟩
      obtain ⟨entry, hentry, heq⟩ := List.mem_map.mp hmem
      exact absurd (heq ▸ (h.fits t).acquired entry hentry) hfresh
    · dsimp only
      rw [Function.update_of_ne hi]
      exact h.holder t i
  · intro t i
    by_cases hi : i = w.created
    · subst hi
      dsimp only
      rw [Function.update_self]
      refine ⟨nofun, fun hqueued ↦ ?_⟩
      obtain ⟨k, hk⟩ := Place.exists_current hqueued
      exact absurd ((h.fits t).current _ hk) hfresh
    · dsimp only
      rw [Function.update_of_ne hi]
      exact h.waiters t i
  · intro i
    by_cases hi : i = w.created
    · subst hi
      dsimp only
      rw [Function.update_self]
      exact List.nodup_nil
    · dsimp only
      rw [Function.update_of_ne hi]
      exact h.nodup i

/-- A task that is not queued takes a lock that nobody holds. -/
theorem Inv.acquire (h : Inv w) {t : T} {call : Call} {acquired : Acquired} {key : String}
    {i : LockId} {todo : List String} (l : FifoLock T)
    (hacquired : (w.tasks t).acquired = acquired) (hcurrent : (w.tasks t).current = some (key, i))
    (hfollows : acquired.map Prod.fst ++ key :: todo = call.ordered)
    (hfree : (w.locks i).holder = none) (hholder : l.holder = some t)
    (hwaiters : ∀ u, u ∈ l.waiters ↔ u ≠ t ∧ u ∈ (w.locks i).waiters) (hnodup : l.waiters.Nodup)
    (hqueued : ∀ j, (w.tasks t).queuedFor = some j → j = i) :
    Inv ((w.setLock i l).place t (.next call (acquired ++ [(key, i)]) todo)) := by
  have hfits := h.fits t
  have hself : Function.update w.locks i l i = l := Function.update_self ..
  have hne : ∀ {j}, j ≠ i → Function.update w.locks i l j = w.locks j :=
    fun hj ↦ Function.update_of_ne hj ..
  refine h.move t (Function.update w.locks i l) ⟨?_, ?_, nofun, rfl⟩ ?_ ?_ ?_ ?_ ?_
  · change (acquired ++ [(key, i)]).map Prod.fst ++ todo = call.ordered
    rw [← hfollows]
    simp
  · intro entry hentry
    rcases List.mem_append.mp hentry with hentry | hentry
    · exact hfits.acquired entry (hacquired ▸ hentry)
    · obtain rfl := List.mem_singleton.mp hentry
      exact hfits.current _ hcurrent
  · intro j u hu
    by_cases hj : j = i
    · subst hj
      rw [hself, hholder, hfree]
      exact ⟨fun heq ↦ absurd (Option.some.inj heq).symm hu, nofun⟩
    · rw [hne hj]
  · intro j
    change _ ↔ j ∈ (acquired ++ [(key, i)]).map Prod.snd
    rw [List.map_append, List.mem_append, ← hacquired, ← h.holder]
    by_cases hj : j = i
    · subst hj
      rw [hself, hholder]
      simp
    · rw [hne hj]
      simp [hj]
  · intro j u hu
    by_cases hj : j = i
    · subst hj
      rw [hself, hwaiters]
      exact and_iff_right hu
    · rw [hne hj]
  · intro j
    refine ⟨fun hmem ↦ ?_, nofun⟩
    by_cases hj : j = i
    · subst hj
      rw [hself, hwaiters] at hmem
      exact absurd rfl hmem.1
    · rw [hne hj, h.waiters] at hmem
      exact absurd (hqueued j hmem) hj
  · intro j
    by_cases hj : j = i
    · subst hj
      rw [hself]
      exact hnodup
    · rw [hne hj]
      exact h.nodup j

/-- A task that waits for nothing queues for a lock. -/
theorem Inv.enqueue (h : Inv w) {t : T} {call : Call} {acquired : Acquired} {key : String}
    {i : LockId} {todo : List String} (hfits : (Place.queued call acquired key i todo).Fits w.names)
    (hacquired : (w.tasks t).acquired = acquired) (hnone : (w.tasks t).queuedFor = none) :
    Inv ((w.setLock i ((w.locks i).enqueue t)).place t (.queued call acquired key i todo)) := by
  have hself : Function.update w.locks i ((w.locks i).enqueue t) i = (w.locks i).enqueue t :=
    Function.update_self ..
  have hne : ∀ {j}, j ≠ i → Function.update w.locks i ((w.locks i).enqueue t) j = w.locks j :=
    fun hj ↦ Function.update_of_ne hj ..
  have hnew : ∀ j, t ∉ (w.locks j).waiters := by
    intro j hmem
    have hqueued := (h.waiters t j).mp hmem
    rw [hnone] at hqueued
    cases hqueued
  have hholder : ∀ j, (Function.update w.locks i ((w.locks i).enqueue t) j).holder =
      (w.locks j).holder := by
    intro j
    by_cases hj : j = i
    · subst hj
      rw [hself]
      rfl
    · rw [hne hj]
  refine h.move t (Function.update w.locks i ((w.locks i).enqueue t)) hfits ?_ ?_ ?_ ?_ ?_
  · intro j u _
    rw [hholder]
  · intro j
    rw [hholder, h.holder, hacquired]
    rfl
  · intro j u hu
    by_cases hj : j = i
    · subst hj
      rw [hself, FifoLock.enqueue, List.mem_append, List.mem_singleton, or_iff_left hu]
    · rw [hne hj]
  · intro j
    by_cases hj : j = i
    · subst hj
      rw [hself, FifoLock.enqueue, List.mem_append]
      exact ⟨fun _ ↦ rfl, fun _ ↦ .inr (List.mem_singleton_self t)⟩
    · rw [hne hj]
      exact ⟨fun hmem ↦ absurd hmem (hnew j), fun heq ↦ absurd (Option.some.inj heq).symm hj⟩
  · intro j
    by_cases hj : j = i
    · subst hj
      rw [hself]
      refine List.nodup_append.mpr ⟨h.nodup j, List.nodup_singleton t, ?_⟩
      rintro u hu v hv rfl
      exact hnew j (List.mem_singleton.mp hv ▸ hu)
    · rw [hne hj]
      exact h.nodup j

theorem World.withdraw_eq {t : T} (h : (w.tasks t).atRegistry = false) :
    w.withdraw t = { w with locks := fun i ↦
      if (w.tasks t).queuedFor = some i then (w.locks i).withdraw t else w.locks i } := by
  unfold World.withdraw
  cases hplace : w.tasks t with
  | registry call acquired key todo =>
      rw [hplace] at h
      cases h
  | queued call acquired key i todo =>
      have hlocks : Function.update w.locks i ((w.locks i).withdraw t) = fun j ↦
          if some i = some j then (w.locks j).withdraw t else w.locks j := by
        funext j
        by_cases hj : j = i
        · subst hj
          rw [Function.update_self, if_pos rfl]
        · rw [Function.update_of_ne hj, if_neg fun heq ↦ hj (Option.some.inj heq).symm]
      exact congrArg (fun locks ↦ { w with locks := locks }) hlocks
  | outside => rfl
  | next call acquired todo => rfl
  | got call acquired key i todo => rfl
  | inside call acquired => rfl

/-- A task that gives back what it has recorded holds nothing and waits for nothing. -/
theorem Inv.giveUp (h : Inv w) (t : T) :
    Inv (((w.withdraw t).giveBack (w.tasks t).acquired).place t .outside) := by
  rw [World.withdraw_eq (h.fits t).atRegistry]
  have hholder : ∀ i, (if i ∈ (w.tasks t).acquired.map Prod.snd then
      (if (w.tasks t).queuedFor = some i then (w.locks i).withdraw t else w.locks i).release
      else if (w.tasks t).queuedFor = some i then (w.locks i).withdraw t
        else w.locks i).holder =
      if i ∈ (w.tasks t).acquired.map Prod.snd then none else (w.locks i).holder := by
    intro i
    split_ifs <;> rfl
  have hwaiters : ∀ i, (if i ∈ (w.tasks t).acquired.map Prod.snd then
      (if (w.tasks t).queuedFor = some i then (w.locks i).withdraw t else w.locks i).release
      else if (w.tasks t).queuedFor = some i then (w.locks i).withdraw t
        else w.locks i).waiters =
      if (w.tasks t).queuedFor = some i then (w.locks i).waiters.erase t
        else (w.locks i).waiters := by
    intro i
    split_ifs <;> rfl
  refine h.move t (fun i ↦ if i ∈ (w.tasks t).acquired.map Prod.snd then
    (if (w.tasks t).queuedFor = some i then (w.locks i).withdraw t else w.locks i).release
    else if (w.tasks t).queuedFor = some i then (w.locks i).withdraw t else w.locks i)
    ⟨trivial, nofun, nofun, rfl⟩ ?_ ?_ ?_ ?_ ?_
  · intro i u hu
    rw [hholder]
    split_ifs with hmem
    · rw [(h.holder t i).mpr hmem]
      exact ⟨nofun, fun heq ↦ absurd (Option.some.inj heq).symm hu⟩
    · exact Iff.rfl
  · intro i
    rw [hholder]
    refine ⟨fun hheld ↦ ?_, nofun⟩
    split_ifs at hheld with hmem
    exact absurd ((h.holder t i).mp hheld) hmem
  · intro i u hu
    rw [hwaiters]
    split_ifs
    · exact List.mem_erase_of_ne hu
    · exact Iff.rfl
  · intro i
    rw [hwaiters]
    refine ⟨fun hmem ↦ ?_, nofun⟩
    split_ifs at hmem with hqueued
    · exact absurd hmem (h.nodup i).not_mem_erase
    · exact absurd ((h.waiters t i).mp hmem) hqueued
  · intro i
    rw [hwaiters]
    split_ifs
    · exact (h.nodup i).erase t
    · exact h.nodup i

theorem Inv.step {w' : World T} (h : Inv w) (hstep : Step w w') : Inv w' := by
  cases hstep with
  | start t call hplace =>
      have hfits : (Place.next call [] call.ordered).Fits w.names :=
        ⟨rfl, nofun, nofun, rfl⟩
      exact h.place hfits (by rw [hplace]; rfl) (by rw [hplace]; rfl)
  | found t call acquired key todo i hplace hname =>
      have hfits := h.fits t
      rw [hplace] at hfits
      have hgot : (Place.got call acquired key i todo).Fits w.names := by
        refine ⟨hfits.follows, hfits.acquired, ?_, rfl⟩
        intro entry hentry
        obtain rfl := Option.some.inj hentry
        exact hname
      exact h.place hgot (by rw [hplace]; rfl) (by rw [hplace]; rfl)
  | create t call acquired key todo hplace hname hfree =>
      obtain ⟨hinv, hnamed, htasks⟩ := h.register hname
      have hfits := hinv.fits t
      rw [htasks, hplace] at hfits
      have hgot : (Place.got call acquired key (w.register key).2 todo).Fits
          (w.register key).1.names := by
        refine ⟨hfits.follows, hfits.acquired, ?_, rfl⟩
        intro entry hentry
        obtain rfl := Option.some.inj hentry
        exact hnamed
      exact hinv.place hgot (by rw [htasks, hplace]; rfl) (by rw [htasks, hplace]; rfl)
  | queueRegistry t call acquired key todo hplace hname hbusy =>
      exact absurd h.registryLock hbusy
  | grantRegistry t call acquired key todo hplace hready =>
      have hfits := (h.fits t).atRegistry
      rw [hplace] at hfits
      cases hfits
  | take t call acquired key i todo hplace hfree =>
      have hfollows := (h.fits t).follows
      rw [hplace] at hfollows
      refine h.acquire _ (by rw [hplace]; rfl) (by rw [hplace]; rfl) hfollows hfree.1 rfl ?_
        (h.nodup i) (by rw [hplace]; nofun)
      intro u
      change u ∈ (w.locks i).waiters ↔ _
      rw [hfree.2]
      exact ⟨nofun, fun hu ↦ nomatch hu.2⟩
  | queue t call acquired key i todo hplace hbusy =>
      have hfits := h.fits t
      rw [hplace] at hfits
      have hqueued : (Place.queued call acquired key i todo).Fits w.names :=
        ⟨hfits.follows, hfits.acquired, hfits.current, rfl⟩
      refine h.enqueue hqueued (by rw [hplace]; rfl) (by rw [hplace]; rfl)
  | grant t call acquired key i todo hplace hready =>
      have hfollows := (h.fits t).follows
      rw [hplace] at hfollows
      have hnodup := h.nodup i
      rw [hready.waiters_eq, List.nodup_cons] at hnodup
      refine h.acquire _ (by rw [hplace]; rfl) (by rw [hplace]; rfl) hfollows hready.1 rfl ?_
        hnodup.2 ?_
      · intro u
        change u ∈ (w.locks i).waiters.tail ↔ _
        conv_rhs => rw [hready.waiters_eq, List.mem_cons]
        constructor
        · intro hu
          refine ⟨?_, .inr hu⟩
          rintro rfl
          exact hnodup.1 hu
        · rintro ⟨hne, hu⟩
          exact hu.resolve_left hne
      · intro j hj
        rw [hplace] at hj
        exact (Option.some.inj hj).symm
  | enter t call acquired hplace =>
      have hfits := h.fits t
      rw [hplace] at hfits
      have hinside : (Place.inside call acquired).Fits w.names :=
        ⟨(List.append_nil _).symm.trans hfits.follows, hfits.acquired, nofun, rfl⟩
      exact h.place hinside (by rw [hplace]; rfl) (by rw [hplace]; rfl)
  | leave t call acquired hplace =>
      have hgive := h.giveUp t
      have hwithdraw : w.withdraw t = w := by
        rw [World.withdraw, hplace]
      rw [hwithdraw, hplace] at hgive
      exact hgive
  | cancel t hplace => exact h.giveUp t

theorem Reachable.inv (h : Reachable w) : Inv w := by
  induction h with
  | refl => exact inv_start
  | tail _ hstep ih => exact ih.step hstep

/-! ### Safety -/

omit [DecidableEq T] in
theorem Call.ordered_lt (call : Call) : call.ordered.Pairwise (· < ·) := by
  cases call with
  | acquire key => exact List.pairwise_singleton _ key
  | multi keys => exact (Finset.sortedLT_sort _).pairwise

theorem Call.mem_ordered {call : Call} {key : String} (h : key ∈ call.keys) (hne : key ≠ "") :
    key ∈ call.ordered := by
  cases call with
  | acquire key' => exact h
  | multi keys =>
      refine (Finset.mem_sort _).mpr (List.mem_toFinset.mpr (List.mem_filter.mpr ⟨h, ?_⟩))
      exact decide_eq_true hne

/-- The key of the lock that a task is queued for. -/
def Place.queuedKey : Place → Option String
  | .queued _ _ key _ _ => some key
  | _ => none

/-- `t` waits for `u` at the registry lock or at the lock of a key. -/
def World.WaitsFor (w : World T) (t u : T) : Prop :=
  w.registryLock.WaitsFor t u ∨ ∃ i, (w.locks i).WaitsFor t u

/-- How far a task that waits has come: the key it waits for, then its place in the queue. -/
def World.rank (w : World T) (t : T) : WithBot String ×ₗ ℕᵒᵈ :=
  toLex ((w.tasks t).queuedKey,
    OrderDual.toDual ((w.tasks t).queuedFor.elim 0 fun i ↦ (w.locks i).waiters.idxOf t))

omit [DecidableEq T] in
theorem Inv.exists_queued (h : Inv w) {t : T} {i : LockId} (hmem : t ∈ (w.locks i).waiters) :
    ∃ call acquired key todo, w.tasks t = .queued call acquired key i todo ∧
      w.names key = some i ∧ ∀ k ∈ acquired.map Prod.fst, k < key := by
  have hqueued := (h.waiters t i).mp hmem
  have hfits := h.fits t
  cases hplace : w.tasks t with
  | queued call acquired key j todo =>
      rw [hplace] at hqueued hfits
      obtain rfl := Option.some.inj hqueued
      refine ⟨call, acquired, key, todo, rfl, hfits.current _ rfl, ?_⟩
      have hordered := call.ordered_lt
      rw [← show acquired.map Prod.fst ++ key :: todo = call.ordered from hfits.follows,
        List.pairwise_append] at hordered
      exact fun k hk ↦ hordered.2.2 k hk key List.mem_cons_self
  | outside => rw [hplace] at hqueued; cases hqueued
  | next call acquired todo => rw [hplace] at hqueued; cases hqueued
  | registry call acquired key todo => rw [hplace] at hqueued; cases hqueued
  | got call acquired key j todo => rw [hplace] at hqueued; cases hqueued
  | inside call acquired => rw [hplace] at hqueued; cases hqueued

theorem Inv.waitsFor (h : Inv w) {t u : T} (hwait : w.WaitsFor t u) :
    ∃ i, (w.locks i).WaitsFor t u := by
  refine hwait.resolve_left fun hregistry ↦ ?_
  have hmem := hregistry.1
  rw [h.registryLock.2] at hmem
  cases hmem

/-- Who waits for one that waits too waits for a smaller key, or came later for the same. -/
theorem Inv.rank_lt (h : Inv w) {t u v : T} (htu : w.WaitsFor t u) (huv : w.WaitsFor u v) :
    w.rank t < w.rank u := by
  obtain ⟨i, ht, hu⟩ := h.waitsFor htu
  obtain ⟨j, huj, -⟩ := h.waitsFor huv
  obtain ⟨_, _, key, _, hplace, hname, -⟩ := h.exists_queued ht
  obtain ⟨_, acquired', key', _, hplace', hname', hlt⟩ := h.exists_queued huj
  unfold World.rank
  rw [hplace, hplace', Prod.Lex.toLex_lt_toLex]
  rcases hu with hholder | ⟨hmem, hidx⟩
  · have hheld := (h.holder u i).mp hholder
    rw [hplace'] at hheld
    obtain ⟨entry, hentry, rfl⟩ := List.mem_map.mp hheld
    have hnamed := (h.fits u).acquired entry (by rw [hplace']; exact hentry)
    obtain rfl := h.names_inj _ _ _ hname hnamed
    exact .inl (WithBot.coe_lt_coe.mpr (hlt _ (List.mem_map_of_mem hentry)))
  · have hqueued := (h.waiters u i).mp hmem
    rw [hplace'] at hqueued
    obtain rfl := Option.some.inj hqueued
    obtain rfl := h.names_inj _ _ _ hname hname'
    exact .inr ⟨rfl, OrderDual.toDual_lt_toDual.mpr hidx⟩

/-- Sections that share a key exclude each other, nobody waits in a cycle, and a task outside
holds no lock and waits for none. -/
theorem stripedLock_safe (h : Reachable w) :
    (∀ t u call call' acquired acquired' key, t ≠ u → w.tasks t = .inside call acquired →
      w.tasks u = .inside call' acquired' → key ∈ call.keys → key ∈ call'.keys → key = "") ∧
    (∀ t, ¬Relation.TransGen w.WaitsFor t t) ∧
    ∀ t, w.tasks t = .outside → w.registryLock.holder ≠ some t ∧ t ∉ w.registryLock.waiters ∧
      ∀ i, (w.locks i).holder ≠ some t ∧ t ∉ (w.locks i).waiters := by
  have hinv := h.inv
  refine ⟨?_, fun t ↦ not_transGen_self w.rank (fun _ _ _ ↦ hinv.rank_lt) t, ?_⟩
  · intro t u call call' acquired acquired' key htu ht hu hkey hkey'
    by_contra hne
    have hholds : ∀ {t call acquired}, w.tasks t = .inside call acquired → key ∈ call.keys →
        ∃ i, w.names key = some i ∧ (w.locks i).holder = some t := by
      intro t call acquired ht hkey
      have hfits := hinv.fits t
      rw [ht] at hfits
      have hmem := Call.mem_ordered hkey hne
      rw [← show acquired.map Prod.fst = call.ordered from hfits.follows] at hmem
      obtain ⟨entry, hentry, rfl⟩ := List.mem_map.mp hmem
      refine ⟨entry.2, hfits.acquired entry hentry, (hinv.holder t _).mpr ?_⟩
      rw [ht]
      exact List.mem_map_of_mem hentry
    obtain ⟨i, hi, hholder⟩ := hholds ht hkey
    obtain ⟨j, hj, hholder'⟩ := hholds hu hkey'
    obtain rfl := Option.some.inj (hi.symm.trans hj)
    exact htu (Option.some.inj (hholder.symm.trans hholder'))
  · intro t ht
    rw [hinv.registryLock.1, hinv.registryLock.2]
    refine ⟨nofun, nofun, fun i ↦ ⟨fun hholder ↦ ?_, fun hmem ↦ ?_⟩⟩
    · have hheld := (hinv.holder t i).mp hholder
      rw [ht] at hheld
      cases hheld
    · have hqueued := (hinv.waiters t i).mp hmem
      rw [ht] at hqueued
      cases hqueued

/-- One task is in a section over a key, and another one waits for the same key. -/
theorem exists_waiting : ∃ w : World Bool, Reachable w ∧
    w.tasks true = .inside (.acquire "a") [("a", 0)] ∧
    w.tasks false = .queued (.acquire "a") [] "a" 0 [] := by
  have hstart := Relation.ReflTransGen.single (Step.start (w := World.start) true (.acquire "a") rfl)
  have hcreate := hstart.tail (.create true (.acquire "a") [] "a" [] rfl rfl ⟨rfl, rfl⟩)
  have htake := hcreate.tail (.take true (.acquire "a") [] "a" 0 [] rfl ⟨rfl, rfl⟩)
  have henter := htake.tail (.enter true (.acquire "a") [("a", 0)] rfl)
  have hother := henter.tail (.start false (.acquire "a") rfl)
  have hfound := hother.tail (.found false (.acquire "a") [] "a" [] 0 rfl rfl)
  have hqueue := hfound.tail (.queue false (.acquire "a") [] "a" 0 [] rfl fun hfree ↦ nomatch hfree.1)
  exact ⟨_, hqueue, rfl, rfl⟩

theorem stripedLock_safe_waiting : ∃ w : World Bool,
    w.tasks true = .inside (.acquire "a") [("a", 0)] ∧
    w.tasks false = .queued (.acquire "a") [] "a" 0 [] ∧
    ¬Relation.TransGen w.WaitsFor false false := by
  obtain ⟨w, hreachable, htrue, hfalse⟩ := exists_waiting
  exact ⟨w, htrue, hfalse, (stripedLock_safe hreachable).2.1 false⟩

end Locks
