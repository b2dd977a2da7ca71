import Mathlib

/-!
# Interleaved programs over atomic operations

A program is a finite tree of atomic operations: each node performs one
operation and continues with its answer.  A pool runs any number of such
programs on one shared state, one operation at a time and in any order; a
program that is never scheduled again has stopped.  The rule `PoolSafe.steps`
is the rely-guarantee principle for pools: it suffices to examine one program
at a time against the changes the others may make.
-/

namespace Interleaving

/-- A program over the operations `Op`, where `Ret o` is what `o` answers. -/
inductive Prog (Op : Type) (Ret : Op → Type) (α : Type) where
  | done (a : α)
  | call (o : Op) (k : Ret o → Prog Op Ret α)

variable {Op : Type} {Ret : Op → Type} {α β γ σ Call : Type}

namespace Prog

/-- Run one program and continue with its result. -/
def bind : Prog Op Ret α → (α → Prog Op Ret β) → Prog Op Ret β
  | done a, f => f a
  | call o k, f => call o fun r ↦ (k r).bind f

instance : Monad (Prog Op Ret) where
  pure := done
  bind := bind

/-- The program that performs one operation and returns its answer. -/
def op (o : Op) : Prog Op Ret (Ret o) := call o done

@[simp] theorem pure_eq (a : α) : (pure a : Prog Op Ret α) = done a := rfl

@[simp] theorem done_bind (a : α) (f : α → Prog Op Ret β) : (done a >>= f) = f a := rfl

@[simp] theorem call_bind (o : Op) (k : Ret o → Prog Op Ret α) (f : α → Prog Op Ret β) :
    (call o k >>= f) = call o fun r ↦ k r >>= f := rfl

@[simp] theorem op_bind (o : Op) (f : Ret o → Prog Op Ret β) : (op o >>= f) = call o f := rfl

theorem bind_assoc (p : Prog Op Ret α) (f : α → Prog Op Ret β) (g : β → Prog Op Ret γ) :
    (p >>= f) >>= g = p >>= fun a ↦ f a >>= g := by
  induction p with
  | done a => rfl
  | call o k ih => exact congrArg (call o) (funext ih)

end Prog

/-- The same program over a larger set of operations. -/
def Prog.embed {Op' : Type} {Ret' : Op' → Type} (f : Op → Op')
    (g : (o : Op) → Ret' (f o) → Ret o) : Prog Op Ret α → Prog Op' Ret' α
  | .done a => .done a
  | .call o k => .call (f o) fun r ↦ (k (g o r)).embed f g

/-- A shared state on which every operation takes effect in one step.  The
relation also says which program performs the operation; `env` is what may
happen to the state without any program. -/
structure Machine (Op : Type) (Ret : Op → Type) (σ : Type) where
  exec : ℕ → (o : Op) → σ → Ret o → σ → Prop
  env : σ → σ → Prop

/-- The machine whose operations are further required to satisfy `ok`. -/
def Machine.restrict (M : Machine Op Ret σ) (ok : ℕ → Op → σ → Prop) : Machine Op Ret σ where
  exec i o s r s' := M.exec i o s r s' ∧ ok i o s
  env := M.env

/-- What a larger machine does at the operations that are embedded into its own. -/
def Machine.comap {Op' : Type} {Ret' : Op' → Type} (M : Machine Op' Ret' σ) (f : Op → Op')
    (g : (o : Op) → Ret' (f o) → Ret o) : Machine Op Ret σ where
  exec i o s r s' := ∃ r', g o r' = r ∧ M.exec i (f o) s r' s'
  env := M.env

/-! ## Pools -/

/-- A started call, the shared state it was started in, and what is left of it. -/
structure Thread (Op : Type) (Ret : Op → Type) (σ Call α : Type) where
  call : Call
  since : σ
  prog : Prog Op Ret α

/-- The shared state together with every call started so far. -/
structure Pool (Op : Type) (Ret : Op → Type) (σ Call α : Type) where
  state : σ
  threads : List (Thread Op Ret σ Call α)

/-- What calls there are, how they run, and when they may be started. -/
structure Service (Op : Type) (Ret : Op → Type) (σ Call α : Type) where
  machine : Machine Op Ret σ
  body : Call → Prog Op Ret α
  admits : Pool Op Ret σ Call α → Call → Prop

/-- The service over the restricted machine. -/
def Service.restrict (S : Service Op Ret σ Call α) (ok : ℕ → Op → σ → Prop) :
    Service Op Ret σ Call α :=
  { S with machine := S.machine.restrict ok }

/-- One step of a pool: a call starts, one thread performs its next operation,
or the environment moves. -/
inductive Step (S : Service Op Ret σ Call α) :
    Pool Op Ret σ Call α → Pool Op Ret σ Call α → Prop
  | start (p : Pool Op Ret σ Call α) (c : Call) (hc : S.admits p c) :
      Step S p ⟨p.state, p.threads ++ [⟨c, p.state, S.body c⟩]⟩
  | run (p : Pool Op Ret σ Call α) (i : ℕ) (c : Call) (s₀ : σ) (o : Op)
      (k : Ret o → Prog Op Ret α) (r : Ret o) (s' : σ)
      (hi : p.threads[i]? = some ⟨c, s₀, .call o k⟩)
      (hexec : S.machine.exec i o p.state r s') :
      Step S p ⟨s', p.threads.set i ⟨c, s₀, k r⟩⟩
  | env (p : Pool Op Ret σ Call α) (s' : σ) (henv : S.machine.env p.state s') :
      Step S p ⟨s', p.threads⟩

/-- Finitely many steps. -/
def Steps (S : Service Op Ret σ Call α) :
    Pool Op Ret σ Call α → Pool Op Ret σ Call α → Prop :=
  Relation.ReflTransGen (Step S)

/-- The pools that can be reached from the state `init` with no call started. -/
def Reachable (S : Service Op Ret σ Call α) (init : σ) (p : Pool Op Ret σ Call α) : Prop :=
  Steps S ⟨init, []⟩ p

theorem Reachable.steps {S : Service Op Ret σ Call α} {init : σ} {p q : Pool Op Ret σ Call α}
    (hp : Reachable S init p) (hpq : Steps S p q) : Reachable S init q :=
  Relation.ReflTransGen.trans hp hpq

/-- A run of a service is one of every service that does more and admits more. -/
theorem Steps.mono {S S' : Service Op Ret σ Call α} (hbody : S.body = S'.body)
    (hexec : ∀ i o s r s', S.machine.exec i o s r s' → S'.machine.exec i o s r s')
    (henv : ∀ s s', S.machine.env s s' → S'.machine.env s s')
    (hadmits : ∀ p c, S.admits p c → S'.admits p c) {p q : Pool Op Ret σ Call α}
    (h : Steps S p q) : Steps S' p q := by
  refine Relation.ReflTransGen.mono (fun p q hstep ↦ ?_) p q h
  cases hstep with
  | start c hc =>
      rw [hbody]
      exact .start p c (hadmits p c hc)
  | run i c s₀ o k r s' hi hexec' => exact .run p i c s₀ o k r s' hi (hexec i o _ r s' hexec')
  | env s' henv' => exact .env p s' (henv _ s' henv')

/-- The calls of a pool in the order in which they were started. -/
def Pool.calls (p : Pool Op Ret σ Call α) : List Call := p.threads.map Thread.call

theorem Step.calls {S : Service Op Ret σ Call α} {p q : Pool Op Ret σ Call α} (h : Step S p q) :
    q.calls = p.calls ∨ ∃ c, S.admits p c ∧ q.calls = p.calls ++ [c] := by
  cases h with
  | start c hc => exact .inr ⟨c, hc, List.map_append⟩
  | run i c s₀ o k r s' hi hexec =>
      refine .inl ?_
      obtain ⟨hlt, hget⟩ := List.getElem?_eq_some_iff.mp hi
      have hmap : i < (p.threads.map Thread.call).length := by rwa [List.length_map]
      have hcall : (p.threads.map Thread.call)[i] = c := by rw [List.getElem_map, hget]
      rw [Pool.calls, List.map_set, Pool.calls, ← hcall, List.set_getElem_self hmap]
  | env s' henv => exact .inl rfl

/-- The service that admits some calls only. -/
def Service.among (S : Service Op Ret σ Call α) (cs : List Call) : Service Op Ret σ Call α :=
  { S with admits := fun p c ↦ S.admits p c ∧ c ∈ cs }

theorem Steps.among_mono {S : Service Op Ret σ Call α} {cs cs' : List Call} (hcs : cs ⊆ cs')
    {p q : Pool Op Ret σ Call α} (h : Steps (S.among cs) p q) : Steps (S.among cs') p q := by
  refine Steps.mono ?_ ?_ ?_ ?_ h
  · rfl
  · exact fun _ _ _ _ _ h ↦ h
  · exact fun _ _ h ↦ h
  · exact fun q c hc ↦ ⟨hc.1, hcs hc.2⟩

/-- Every call that was admitted on the way is among the calls at the end. -/
theorem Reachable.among_calls {S : Service Op Ret σ Call α} {init : σ} {p : Pool Op Ret σ Call α}
    (hp : Reachable S init p) : Reachable (S.among p.calls) init p := by
  induction hp with
  | refl => exact Relation.ReflTransGen.refl
  | @tail p q _ hstep ih =>
      have hsub : p.calls ⊆ q.calls := by
        intro c hc
        rcases hstep.calls with hq | ⟨c', -, hq⟩
        · rwa [hq]
        · rw [hq]
          exact List.mem_append_left _ hc
      refine Relation.ReflTransGen.tail (Steps.among_mono hsub ih) ?_
      cases hstep with
      | start c hc => exact .start p c ⟨hc, by simp [Pool.calls]⟩
      | run i c s₀ o k r s' hi hexec => exact .run p i c s₀ o k r s' hi hexec
      | env s' henv => exact .env p s' henv

/-- The service that starts the given calls in their order. -/
def Service.placed (S : Service Op Ret σ Call α) (cs : List Call) : Service Op Ret σ Call α :=
  { S with admits := fun p c ↦ S.admits p c ∧ cs[p.threads.length]? = some c }

theorem Steps.placed_mono {S : Service Op Ret σ Call α} {cs cs' : List Call} (hcs : cs <+: cs')
    {p q : Pool Op Ret σ Call α} (h : Steps (S.placed cs) p q) : Steps (S.placed cs') p q := by
  refine Steps.mono ?_ ?_ ?_ ?_ h
  · rfl
  · exact fun _ _ _ _ _ h ↦ h
  · exact fun _ _ h ↦ h
  · intro q c hc
    obtain ⟨rest, rfl⟩ := hcs
    have hlt := (List.getElem?_eq_some_iff.mp hc.2).1
    exact ⟨hc.1, (List.getElem?_append_left hlt).trans hc.2⟩

/-- A run starts the calls that the pool has at the end. -/
theorem Reachable.placed_calls {S : Service Op Ret σ Call α} {init : σ} {p : Pool Op Ret σ Call α}
    (hp : Reachable S init p) : Reachable (S.placed p.calls) init p := by
  induction hp with
  | refl => exact Relation.ReflTransGen.refl
  | @tail p q _ hstep ih =>
      have hprefix : p.calls <+: q.calls := by
        rcases hstep.calls with hq | ⟨c, -, hq⟩
        · rw [hq]
        · rw [hq]
          exact List.prefix_append _ _
      refine Relation.ReflTransGen.tail (Steps.placed_mono hprefix ih) ?_
      cases hstep with
      | start c hc => exact .start p c ⟨hc, by simp [Pool.calls]⟩
      | run i c s₀ o k r s' hi hexec => exact .run p i c s₀ o k r s' hi hexec
      | env s' henv => exact .env p s' henv

theorem Reachable.forall_calls {S : Service Op Ret σ Call α} {ok : Call → Prop}
    (hadmits : ∀ p c, S.admits p c → ok c) {init : σ} {p : Pool Op Ret σ Call α}
    (hp : Reachable S init p) : ∀ c ∈ p.calls, ok c := by
  induction hp with
  | refl => exact fun c hc ↦ by cases hc
  | tail _ hstep ih =>
      rcases hstep.calls with hq | ⟨c, hc, hq⟩
      · rwa [hq]
      · rw [hq, List.forall_mem_append]
        exact ⟨ih, List.forall_mem_singleton.mpr (hadmits _ c hc)⟩

/-- What admission demands of a call after the earlier ones holds between any
two calls of a reachable pool. -/
theorem Reachable.pairwise_calls {S : Service Op Ret σ Call α} {R : Call → Call → Prop}
    (hadmits : ∀ p c, S.admits p c → ∀ c' ∈ p.calls, R c' c) {init : σ}
    {p : Pool Op Ret σ Call α} (hp : Reachable S init p) : p.calls.Pairwise R := by
  induction hp with
  | refl => exact List.Pairwise.nil
  | tail _ hstep ih =>
      rcases hstep.calls with hq | ⟨c, hc, hq⟩
      · rwa [hq]
      · rw [hq, List.pairwise_append]
        refine ⟨ih, List.pairwise_singleton R c, fun c' hc' d hd ↦ ?_⟩
        obtain rfl := List.mem_singleton.mp hd
        exact hadmits _ _ hc c' hc'

/-! ## Rely-guarantee -/

/-- An invariant of the shared state and, for each program, what the others
are allowed to do to it. -/
structure Protocol (σ : Type) where
  inv : σ → Prop
  rely : ℕ → σ → σ → Prop
  refl : ∀ i s, rely i s s
  trans : ∀ i s₁ s₂ s₃, rely i s₁ s₂ → rely i s₂ s₃ → rely i s₁ s₃

/-- From the shared state `s`, program number `i` keeps the invariant and what
all others rely on at each of its operations, and ends with `Q`, whatever the
others do in between. -/
def Safe (M : Machine Op Ret σ) (P : Protocol σ) (i : ℕ) (Q : α → σ → Prop) :
    Prog Op Ret α → σ → Prop
  | .done a, s => ∀ s', P.rely i s s' → P.inv s' → Q a s'
  | .call o k, s => ∀ s₁, P.rely i s s₁ → P.inv s₁ → ∀ r s₂, M.exec i o s₁ r s₂ →
      P.inv s₂ ∧ (∀ j, j ≠ i → P.rely j s₁ s₂) ∧ Safe M P i Q (k r) s₂

section Safe

variable {M : Machine Op Ret σ} {P : Protocol σ} {i : ℕ} {s s' : σ}

/-- What the other programs may do does not invalidate safety. -/
theorem Safe.rely {Q : α → σ → Prop} {p : Prog Op Ret α} (h : Safe M P i Q p s)
    (hs : P.rely i s s') : Safe M P i Q p s' := by
  cases p with
  | done a => exact fun s₁ h₁ hinv ↦ h s₁ (P.trans i _ _ _ hs h₁) hinv
  | call o k => exact fun s₁ h₁ hinv ↦ h s₁ (P.trans i _ _ _ hs h₁) hinv

theorem Safe.imp {Q Q' : α → σ → Prop} (hQ : ∀ a s, Q a s → Q' a s) {p : Prog Op Ret α}
    (h : Safe M P i Q p s) : Safe M P i Q' p s := by
  induction p generalizing s with
  | done a => exact fun s₁ h₁ hinv ↦ hQ a s₁ (h s₁ h₁ hinv)
  | call o k ih =>
      intro s₁ h₁ hinv r s₂ hexec
      obtain ⟨hinv₂, hrely, hk⟩ := h s₁ h₁ hinv r s₂ hexec
      exact ⟨hinv₂, hrely, ih r hk⟩

/-- The sequencing rule. -/
theorem Safe.bind {Q : β → σ → Prop} {p : Prog Op Ret α} {f : α → Prog Op Ret β}
    (h : Safe M P i (fun a s₁ ↦ P.inv s₁ → Safe M P i Q (f a) s₁) p s) :
    Safe M P i Q (p >>= f) s := by
  induction p generalizing s with
  | done a =>
      rw [Prog.done_bind]
      cases hf : f a with
      | done b =>
          intro s₁ h₁ hinv
          have hb := h s₁ h₁ hinv hinv
          rw [hf] at hb
          exact hb s₁ (P.refl i s₁) hinv
      | call o k =>
          intro s₁ h₁ hinv
          have hb := h s₁ h₁ hinv hinv
          rw [hf] at hb
          exact hb s₁ (P.refl i s₁) hinv
  | call o k ih =>
      intro s₁ h₁ hinv r s₂ hexec
      obtain ⟨hinv₂, hrely, hk⟩ := h s₁ h₁ hinv r s₂ hexec
      exact ⟨hinv₂, hrely, ih r hk⟩

theorem Safe.done {Q : α → σ → Prop} {a : α}
    (h : ∀ s', P.rely i s s' → P.inv s' → Q a s') : Safe M P i Q (.done a) s := h

theorem Safe.call {Q : α → σ → Prop} {o : Op} {k : Ret o → Prog Op Ret α}
    (h : ∀ s₁, P.rely i s s₁ → P.inv s₁ → ∀ r s₂, M.exec i o s₁ r s₂ →
      P.inv s₂ ∧ (∀ j, j ≠ i → P.rely j s₁ s₂) ∧ Safe M P i Q (k r) s₂) :
    Safe M P i Q (.call o k) s := h

/-- The sequencing rule with a condition in between. -/
theorem Safe.seq {Q : β → σ → Prop} {Q' : α → σ → Prop} {p : Prog Op Ret α}
    {f : α → Prog Op Ret β} (h : Safe M P i Q' p s)
    (hf : ∀ a s₁, P.inv s₁ → Q' a s₁ → Safe M P i Q (f a) s₁) : Safe M P i Q (p >>= f) s := by
  apply Safe.bind
  exact Safe.imp (fun a s₁ hQ hinv ↦ hf a s₁ hinv hQ) h

/-- The rule for an operation, where every `proper` operation keeps the invariant
and what the others rely on. -/
theorem Safe.proper {proper : Op → σ → Prop}
    (hstep : ∀ o s r s', P.inv s → M.exec i o s r s' → proper o s →
      P.inv s' ∧ ∀ j, j ≠ i → P.rely j s s')
    {Q : α → σ → Prop} {o : Op} {k : Ret o → Prog Op Ret α}
    (h : ∀ s₁, P.rely i s s₁ → P.inv s₁ → proper o s₁ ∧
      ∀ r s₂, M.exec i o s₁ r s₂ → P.inv s₂ → Safe M P i Q (k r) s₂) :
    Safe M P i Q (.call o k) s := by
  intro s₁ hs hinv r s₂ hexec
  obtain ⟨hproper, hk⟩ := h s₁ hs hinv
  obtain ⟨hinv₂, hrely⟩ := hstep o s₁ r s₂ hinv hexec hproper
  exact ⟨hinv₂, hrely, hk r s₂ hexec hinv₂⟩

/-- The rule for an embedded program. -/
theorem Safe.embed {Op' : Type} {Ret' : Op' → Type} {M' : Machine Op' Ret' σ} {f : Op → Op'}
    {g : (o : Op) → Ret' (f o) → Ret o} {Q : α → σ → Prop} {p : Prog Op Ret α}
    (h : Safe (M'.comap f g) P i Q p s) : Safe M' P i Q (p.embed f g) s := by
  induction p generalizing s with
  | done a => exact h
  | call o k ih =>
      intro s₁ hs hinv r s₂ hexec
      obtain ⟨hinv₂, hrely, hk⟩ := h s₁ hs hinv (g o r) s₂ ⟨r, rfl, hexec⟩
      exact ⟨hinv₂, hrely, ih _ hk⟩

/-- A machine that can do less is safe wherever the other is. -/
theorem Safe.mono {M' : Machine Op Ret σ} (hM : ∀ i o s r s', M'.exec i o s r s' → M.exec i o s r s')
    {Q : α → σ → Prop} {p : Prog Op Ret α} (h : Safe M P i Q p s) : Safe M' P i Q p s := by
  induction p generalizing s with
  | done a => exact h
  | call o k ih =>
      intro s₁ h₁ hinv r s₂ hexec
      obtain ⟨hinv₂, hrely, hk⟩ := h s₁ h₁ hinv r s₂ (hM i o s₁ r s₂ hexec)
      exact ⟨hinv₂, hrely, ih r hk⟩

/-- What the others may do, and what they rely on, adds up over a whole program. -/
theorem Safe.guarantee {j : ℕ} (hj : j ≠ i) (hle : ∀ s s', P.rely i s s' → P.rely j s s')
    {Q : α → σ → Prop} {p : Prog Op Ret α} (h : Safe M P i Q p s) :
    Safe M P i (fun a s' ↦ Q a s' ∧ P.rely j s s') p s := by
  induction p generalizing s with
  | done a => exact fun s' hs hinv ↦ ⟨h s' hs hinv, hle s s' hs⟩
  | call o k ih =>
      intro s₁ hs hinv r s₂ hexec
      obtain ⟨hinv₂, hrely, hk⟩ := h s₁ hs hinv r s₂ hexec
      refine ⟨hinv₂, hrely, (ih r hk).imp fun a s' hQ ↦ ⟨hQ.1, ?_⟩⟩
      exact P.trans j _ _ _ (hle s s₁ hs) (P.trans j _ _ _ (hrely j hj) hQ.2)

/-- The rule for an operation that only reads. -/
theorem Safe.read {Q : α → σ → Prop} {o : Op} {k : Ret o → Prog Op Ret α}
    (hread : ∀ s₁ r s₂, M.exec i o s₁ r s₂ → s₂ = s₁)
    (h : ∀ s₁, P.rely i s s₁ → P.inv s₁ → ∀ r, M.exec i o s₁ r s₁ → Safe M P i Q (k r) s₁) :
    Safe M P i Q (.call o k) s := by
  intro s₁ h₁ hinv r s₂ hexec
  obtain rfl := hread s₁ r s₂ hexec
  exact ⟨hinv, fun j _ ↦ P.refl j s₂, h s₂ h₁ hinv r hexec⟩

end Safe

/-- The obligations under which a pool of threads stays safe: the postcondition
`Q i c s₀ a s` is for thread `i`, its call, the state it started in, its result
and the current state; `pre i` holds while thread `i` has not started. -/
structure Obligations (S : Service Op Ret σ Call α) (P : Protocol σ)
    (pre : ℕ → σ → Prop) (Q : ℕ → Call → σ → α → σ → Prop) : Prop where
  pre_rely : ∀ i s s', P.rely i s s' → pre i s → pre i s'
  env : ∀ s s', P.inv s → S.machine.env s s' → P.inv s' ∧ ∀ i, P.rely i s s'
  start : ∀ (p : Pool Op Ret σ Call α) (c : Call), P.inv p.state →
    pre p.threads.length p.state → S.admits p c →
    (∀ (j : ℕ) (c' : Call) (s₀ : σ) (a : α),
      p.threads[j]? = some ⟨c', s₀, .done a⟩ → Q j c' s₀ a p.state) →
    Safe S.machine P p.threads.length (Q p.threads.length c p.state) (S.body c) p.state

/-- Every thread is safe where it stands. -/
structure PoolSafe (S : Service Op Ret σ Call α) (P : Protocol σ)
    (pre : ℕ → σ → Prop) (Q : ℕ → Call → σ → α → σ → Prop)
    (p : Pool Op Ret σ Call α) : Prop where
  inv : P.inv p.state
  pre : ∀ i, p.threads.length ≤ i → pre i p.state
  threads : ∀ (i : ℕ) (t : Thread Op Ret σ Call α), p.threads[i]? = some t →
    Safe S.machine P i (Q i t.call t.since) t.prog p.state

section Pool

variable {S : Service Op Ret σ Call α} {P : Protocol σ} {pre : ℕ → σ → Prop}
  {Q : ℕ → Call → σ → α → σ → Prop} {p q : Pool Op Ret σ Call α}

/-- A finished thread of a safe pool satisfies its postcondition. -/
theorem PoolSafe.result (h : PoolSafe S P pre Q p) {i : ℕ} {c : Call} {s₀ : σ} {a : α}
    (hi : p.threads[i]? = some ⟨c, s₀, .done a⟩) : Q i c s₀ a p.state :=
  h.threads i _ hi p.state (P.refl i p.state) h.inv

/-- The step rule. -/
theorem PoolSafe.step (hO : Obligations S P pre Q) (h : PoolSafe S P pre Q p)
    (hstep : Step S p q) : PoolSafe S P pre Q q := by
  cases hstep with
  | start c hc =>
      refine ⟨h.inv, fun i hi ↦ h.pre i ?_, fun i t hi ↦ ?_⟩
      · simp only [List.length_append, List.length_singleton] at hi
        omega
      · rcases lt_or_ge i p.threads.length with hlt | hge
        · rw [List.getElem?_append_left hlt] at hi
          exact h.threads i t hi
        · rw [List.getElem?_append_right hge] at hi
          obtain ⟨h0, rfl⟩ : i - p.threads.length = 0 ∧ _ = t := by
            simpa [List.getElem?_singleton] using hi
          obtain rfl : i = p.threads.length := by omega
          exact hO.start p c h.inv (h.pre _ le_rfl) hc fun j c' s₀ a hj ↦ h.result hj
  | run i c s₀ o k r s' hi hexec =>
      obtain ⟨hinv, hrely, hk⟩ :=
        h.threads i _ hi p.state (P.refl i p.state) h.inv r s' hexec
      have hlt : i < p.threads.length := (List.getElem?_eq_some_iff.mp hi).1
      refine ⟨hinv, fun j hj ↦ ?_, fun j t hj ↦ ?_⟩
      · rw [List.length_set] at hj
        exact hO.pre_rely j _ _ (hrely j (by omega)) (h.pre j hj)
      · rcases eq_or_ne i j with rfl | hne
        · rw [List.getElem?_set_self hlt] at hj
          obtain rfl := Option.some.inj hj
          exact hk
        · rw [List.getElem?_set_ne hne] at hj
          exact (h.threads j t hj).rely (hrely j hne.symm)
  | env s' henv =>
      obtain ⟨hinv, hrely⟩ := hO.env p.state s' h.inv henv
      exact ⟨hinv, fun i hi ↦ hO.pre_rely i _ _ (hrely i) (h.pre i hi),
        fun i t hi ↦ (h.threads i t hi).rely (hrely i)⟩

/-- The run rule: a safe pool stays safe, however its threads interleave. -/
theorem PoolSafe.steps (hO : Obligations S P pre Q) (h : PoolSafe S P pre Q p)
    (hsteps : Steps S p q) : PoolSafe S P pre Q q := by
  induction hsteps with
  | refl => exact h
  | tail _ hstep ih => exact ih.step hO hstep

/-- What every program can rely on holds between any two states of a safe run. -/
theorem PoolSafe.steps_of_rely {R : σ → σ → Prop} (hO : Obligations S P pre Q)
    (hle : ∀ i s s', P.rely i s s' → R s s') (htrans : ∀ s₁ s₂ s₃, R s₁ s₂ → R s₂ s₃ → R s₁ s₃)
    (h : PoolSafe S P pre Q p) (hsteps : Steps S p q) : R p.state q.state := by
  induction hsteps with
  | refl => exact hle 0 _ _ (P.refl 0 p.state)
  | tail hsteps hstep ih =>
      refine htrans _ _ _ ih ?_
      have hmid := h.steps hO hsteps
      cases hstep with
      | start c hc => exact hle 0 _ _ (P.refl 0 _)
      | run i c s₀ o k r s' hi hexec =>
          obtain ⟨-, hrely, -⟩ :=
            hmid.threads i _ hi _ (P.refl i _) hmid.inv r s' hexec
          exact hle (i + 1) _ _ (hrely (i + 1) (Nat.succ_ne_self i))
      | env s' henv => exact hle 0 _ _ ((hO.env _ s' hmid.inv henv).2 0)

/-- Where all programs rely on the same, a safe pool never breaks it. -/
theorem PoolSafe.steps_rely (hO : Obligations S P pre Q)
    (hsame : ∀ i j s s', P.rely i s s' → P.rely j s s') (h : PoolSafe S P pre Q p)
    (hsteps : Steps S p q) (j : ℕ) : P.rely j p.state q.state :=
  PoolSafe.steps_of_rely hO (fun i s s' ↦ hsame i j s s') (P.trans j) h hsteps

/-- The rely-guarantee principle for reachable pools. -/
theorem Reachable.poolSafe (hO : Obligations S P pre Q) {init : σ} (hinv : P.inv init)
    (hpre : ∀ i, pre i init) (hp : Reachable S init p) : PoolSafe S P pre Q p :=
  PoolSafe.steps hO ⟨hinv, fun i _ ↦ hpre i, by simp⟩ hp

end Pool

/-! ## Running one program alone -/

/-- The program `p`, run as number `i` with nothing in between, can end in `a`
and turn `s` into `s'`. -/
inductive Evals (M : Machine Op Ret σ) (i : ℕ) : Prog Op Ret α → σ → α → σ → Prop
  | done (a : α) (s : σ) : Evals M i (.done a) s a s
  | call (o : Op) (k : Ret o → Prog Op Ret α) (s s₁ s₂ : σ) (r : Ret o) (a : α)
      (hexec : M.exec i o s r s₁) (hk : Evals M i (k r) s₁ a s₂) : Evals M i (.call o k) s a s₂

/-- Every way to run `p` alone from `s` ends with `Q`. -/
def Alone (M : Machine Op Ret σ) (i : ℕ) (Q : α → σ → Prop) : Prog Op Ret α → σ → Prop
  | .done a, s => Q a s
  | .call o k, s => ∀ r s', M.exec i o s r s' → Alone M i Q (k r) s'

section Alone

variable {M : Machine Op Ret σ} {i : ℕ} {s s' : σ}

theorem Alone.evals {Q : α → σ → Prop} {p : Prog Op Ret α} {a : α} (h : Alone M i Q p s)
    (hp : Evals M i p s a s') : Q a s' := by
  induction hp with
  | done a s => exact h
  | call o k s s₁ s₂ r a hexec hk ih => exact ih (h r s₁ hexec)

theorem Alone.bind {Q : β → σ → Prop} {p : Prog Op Ret α} {f : α → Prog Op Ret β}
    (h : Alone M i (fun a s₁ ↦ Alone M i Q (f a) s₁) p s) : Alone M i Q (p >>= f) s := by
  induction p generalizing s with
  | done a => exact h
  | call o k ih => exact fun r s₁ hexec ↦ ih r (h r s₁ hexec)

theorem Alone.imp {Q Q' : α → σ → Prop} (hQ : ∀ a s, Q a s → Q' a s) {p : Prog Op Ret α}
    (h : Alone M i Q p s) : Alone M i Q' p s := by
  induction p generalizing s with
  | done a => exact hQ a s h
  | call o k ih => exact fun r s₁ hexec ↦ ih r (h r s₁ hexec)

/-- The sequencing rule with a condition in between. -/
theorem Alone.seq {Q : β → σ → Prop} {Q' : α → σ → Prop} {p : Prog Op Ret α}
    {f : α → Prog Op Ret β} (h : Alone M i Q' p s)
    (hf : ∀ a s₁, Q' a s₁ → Alone M i Q (f a) s₁) : Alone M i Q (p >>= f) s :=
  Alone.bind (Alone.imp hf h)

theorem Alone.and {Q Q' : α → σ → Prop} {p : Prog Op Ret α} (h : Alone M i Q p s)
    (h' : Alone M i Q' p s) : Alone M i (fun a s' ↦ Q a s' ∧ Q' a s') p s := by
  induction p generalizing s with
  | done a => exact ⟨h, h'⟩
  | call o k ih => exact fun r s₁ hexec ↦ ih r (h r s₁ hexec) (h' r s₁ hexec)

/-- A safe program that runs alone keeps the invariant. -/
theorem Safe.alone {P : Protocol σ} {Q : α → σ → Prop} {p : Prog Op Ret α} (hinv : P.inv s)
    (h : Safe M P i Q p s) : Alone M i (fun a s' ↦ P.inv s' ∧ Q a s') p s := by
  induction p generalizing s with
  | done a => exact ⟨hinv, h s (P.refl i s) hinv⟩
  | call o k ih =>
      intro r s' hexec
      obtain ⟨hinv', -, hk⟩ := h s (P.refl i s) hinv r s' hexec
      exact ih r hinv' hk

/-- The last thread of a pool may run to its end while the others wait. -/
theorem Evals.steps {S : Service Op Ret σ Call α} {ts : List (Thread Op Ret σ Call α)}
    {c : Call} {s₀ : σ} {g : Prog Op Ret α} {a : α}
    (hg : Evals S.machine ts.length g s a s') :
    Steps S ⟨s, ts ++ [⟨c, s₀, g⟩]⟩ ⟨s', ts ++ [⟨c, s₀, .done a⟩]⟩ := by
  induction hg with
  | done a s => exact Relation.ReflTransGen.refl
  | call o k s s₁ s₂ r a hexec hk ih =>
      refine Relation.ReflTransGen.head ?_ ih
      have hrun := Step.run (S := S) ⟨s, ts ++ [⟨c, s₀, .call o k⟩]⟩
        ts.length c s₀ o k r s₁ (by simp) hexec
      simpa using hrun

/-- A call that runs alone to its end is a run of the pool. -/
theorem steps_of_evals {S : Service Op Ret σ Call α} {p : Pool Op Ret σ Call α} {c : Call}
    {a : α} (hc : S.admits p c)
    (hp : Evals S.machine p.threads.length (S.body c) p.state a s') :
    Steps S p ⟨s', p.threads ++ [⟨c, p.state, .done a⟩]⟩ :=
  Relation.ReflTransGen.head (Step.start p c hc) hp.steps

end Alone

end Interleaving
