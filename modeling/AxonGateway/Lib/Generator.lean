import AxonGateway.Lib.Effects

/-!
# Generators

A generator is a program some of whose operations emit an event to a consumer, and the
consumer's answer may close it. `relay` iterates over a generator and passes its events on;
when the consumer closes the relay, the generator is closed and runs to its end, and must not
emit on the way. `Flows` says how a generator ends in both cases, `Quiet` how a program ends
that does not emit.
-/

namespace Interleaving

variable {Op : Type} {Ret : Op → Type} {α β ε σ : Type}

/-- Which operations emit an event, and which of their answers close the generator. -/
structure Emission (Op : Type) (Ret : Op → Type) where
  emits : Op → Bool
  closes : (o : Op) → Ret o → Bool
  emits_of_closes : ∀ o r, closes o r = true → emits o = true

/-- A generator came to its end, or it was closed, and came to its end or emitted then. -/
inductive Relayed (α : Type) where
  | ended (a : α)
  | closed (a : Option α)

namespace Prog

variable (E : Emission Op Ret)

/-- The rest of a generator that has been closed. -/
def runClosed : Prog Op Ret α → Prog Op Ret (Option α)
  | .done a => .done (some a)
  | .call o k => if E.emits o then .done none else .call o fun r ↦ (k r).runClosed

/-- Iterate over a generator and emit its events. -/
def relay : Prog Op Ret α → Prog Op Ret (Relayed α)
  | .done a => .done (.ended a)
  | .call o k => .call o fun r ↦
      if E.closes o r then (k r).runClosed E >>= fun a ↦ .done (.closed a) else (k r).relay

end Prog

section Rules

variable (M : Machine Op Ret σ) (E : Emission Op Ret) (i : ℕ)

/-- The program does not emit, and every end satisfies `Q`. -/
def Quiet (Q : α → σ → Prop) : Prog Op Ret α → σ → Prop
  | .done a, s => Q a s
  | .call o k, s => E.emits o = false ∧ ∀ r s', M.exec i o s r s' → Quiet Q (k r) s'

/-- Every end satisfies `Q`, or `C` if the generator was closed before. -/
def Flows (Q C : α → σ → Prop) : Prog Op Ret α → σ → Prop
  | .done a, s => Q a s
  | .call o k, s => ∀ r s', M.exec i o s r s' →
      (E.closes o r = true → Quiet M E i C (k r) s') ∧ (E.closes o r = false → Flows Q C (k r) s')

variable {M E i} {s : σ} {Q C : α → σ → Prop} {Q' C' : β → σ → Prop}

theorem Quiet.imp {R : α → σ → Prop} (hQ : ∀ a s, Q a s → R a s) {p : Prog Op Ret α}
    (h : Quiet M E i Q p s) : Quiet M E i R p s := by
  induction p generalizing s with
  | done a => exact hQ a s h
  | call o k ih => exact ⟨h.1, fun r s' hexec ↦ ih r (h.2 r s' hexec)⟩

theorem Quiet.bind {p : Prog Op Ret α} {f : α → Prog Op Ret β}
    (h : Quiet M E i (fun a s' ↦ Quiet M E i Q' (f a) s') p s) : Quiet M E i Q' (p >>= f) s := by
  induction p generalizing s with
  | done a => exact h
  | call o k ih => exact ⟨h.1, fun r s' hexec ↦ ih r (h.2 r s' hexec)⟩

theorem Quiet.alone {p : Prog Op Ret α} (h : Quiet M E i Q p s) : Alone M i Q p s := by
  induction p generalizing s with
  | done a => exact h
  | call o k ih => exact fun r s' hexec ↦ ih r (h.2 r s' hexec)

/-- A program that does not emit cannot be closed. -/
theorem Quiet.flows {p : Prog Op Ret α} (h : Quiet M E i Q p s) : Flows M E i Q C p s := by
  induction p generalizing s with
  | done a => exact h
  | call o k ih =>
      intro r s' hexec
      refine ⟨fun hcloses ↦ ?_, fun _ ↦ ih r (h.2 r s' hexec)⟩
      have hemits := E.emits_of_closes o r hcloses
      rw [h.1] at hemits
      cases hemits

theorem Flows.imp {R D : α → σ → Prop} (hQ : ∀ a s, Q a s → R a s) (hC : ∀ a s, C a s → D a s)
    {p : Prog Op Ret α} (h : Flows M E i Q C p s) : Flows M E i R D p s := by
  induction p generalizing s with
  | done a => exact hQ a s h
  | call o k ih =>
      intro r s' hexec
      obtain ⟨hclosed, hflows⟩ := h r s' hexec
      exact ⟨fun hc ↦ (hclosed hc).imp hC, fun hc ↦ ih r (hflows hc)⟩

/-- The sequencing rule: a generator that is closed in its first part goes on to its second
part, closed. -/
theorem Flows.bind {p : Prog Op Ret α} {f : α → Prog Op Ret β}
    (h : Flows M E i (fun a s' ↦ Flows M E i Q' C' (f a) s') (fun a s' ↦ Quiet M E i C' (f a) s')
      p s) : Flows M E i Q' C' (p >>= f) s := by
  induction p generalizing s with
  | done a => exact h
  | call o k ih =>
      intro r s' hexec
      obtain ⟨hclosed, hflows⟩ := h r s' hexec
      exact ⟨fun hc ↦ Quiet.bind (hclosed hc), fun hc ↦ ih r (hflows hc)⟩

theorem Quiet.runClosed {p : Prog Op Ret α} (h : Quiet M E i C p s) :
    Alone M i (fun a s' ↦ ∃ b, a = some b ∧ C b s') (p.runClosed E) s := by
  induction p generalizing s with
  | done a => exact ⟨a, rfl, h⟩
  | call o k ih =>
      rw [Prog.runClosed, h.1]
      exact fun r s' hexec ↦ ih r (h.2 r s' hexec)

/-- How a relay ends. -/
def RelayEnds (Q C : α → σ → Prop) : Relayed α → σ → Prop
  | .ended a, s => Q a s
  | .closed a, s => ∃ b, a = some b ∧ C b s

/-- The rule for a relay. -/
theorem Flows.relay {p : Prog Op Ret α} (h : Flows M E i Q C p s) :
    Alone M i (RelayEnds Q C) (p.relay E) s := by
  induction p generalizing s with
  | done a => exact h
  | call o k ih =>
      intro r s' hexec
      obtain ⟨hclosed, hflows⟩ := h r s' hexec
      dsimp only
      split_ifs with hc
      · exact Alone.bind (Alone.imp (fun a s h ↦ h) (hclosed hc).runClosed)
      · exact ih r (hflows (by simpa using hc))

end Rules

/-! ## Generators that may raise -/

namespace Raising

variable {M : Machine Op Ret σ} {E : Emission Op Ret} {i : ℕ} {s : σ}
  {Q' C' : Except ε β → σ → Prop}

/-- What has to hold of the first part for the second part to end in `Q`. -/
def Then (Q : Except ε β → σ → Prop) (next : α → σ → Prop) : Except ε α → σ → Prop
  | .ok a, s => next a s
  | .error e, s => Q (.error e) s

theorem quiet_bind {x : Raising ε Op Ret α} {f : α → Raising ε Op Ret β}
    (h : Quiet M E i (Then Q' fun a s' ↦ Quiet M E i Q' (f a).run s') x.run s) :
    Quiet M E i Q' (x >>= f).run s := by
  refine Quiet.bind (p := x.run) (h.imp fun r s' hr ↦ ?_)
  cases r with
  | ok a => exact hr
  | error e => exact hr

theorem flows_bind {x : Raising ε Op Ret α} {f : α → Raising ε Op Ret β}
    (h : Flows M E i (Then Q' fun a s' ↦ Flows M E i Q' C' (f a).run s')
      (Then C' fun a s' ↦ Quiet M E i C' (f a).run s') x.run s) :
    Flows M E i Q' C' (x >>= f).run s := by
  refine Flows.bind (p := x.run) (h.imp (fun r s' hr ↦ ?_) fun r s' hr ↦ ?_)
  · cases r with
    | ok a => exact hr
    | error e => exact hr
  · cases r with
    | ok a => exact hr
    | error e => exact hr

theorem alone_bind {x : Raising ε Op Ret α} {f : α → Raising ε Op Ret β}
    (h : Alone M i (Then Q' fun a s' ↦ Alone M i Q' (f a).run s') x.run s) :
    Alone M i Q' (x >>= f).run s := by
  refine Alone.bind (p := x.run) (h.imp fun r s' hr ↦ ?_)
  cases r with
  | ok a => exact hr
  | error e => exact hr

theorem quiet_attempt {Q : Except ε (Except ε α) → σ → Prop} {x : Raising ε Op Ret α}
    (h : Quiet M E i (fun r ↦ Q (.ok r)) x.run s) : Quiet M E i Q x.attempt.run s :=
  Quiet.bind (p := x.run) h

theorem flows_attempt {Q C : Except ε (Except ε α) → σ → Prop} {x : Raising ε Op Ret α}
    (h : Flows M E i (fun r ↦ Q (.ok r)) (fun r ↦ C (.ok r)) x.run s) :
    Flows M E i Q C x.attempt.run s :=
  Flows.bind (p := x.run) (h.imp (fun _ _ hr ↦ hr) fun _ _ hr ↦ hr)

theorem quiet_perform {o : Op} {answer : Ret o → Except ε α} {Q : Except ε α → σ → Prop}
    (hemits : E.emits o = false) (h : ∀ r s', M.exec i o s r s' → Q (answer r) s') :
    Quiet M E i Q (perform answer).run s :=
  ⟨hemits, h⟩

theorem flows_perform {o : Op} {answer : Ret o → Except ε α} {Q C : Except ε α → σ → Prop}
    (h : ∀ r s', M.exec i o s r s' → (E.closes o r = true → C (answer r) s') ∧
      (E.closes o r = false → Q (answer r) s')) :
    Flows M E i Q C (perform answer).run s :=
  h

end Raising

end Interleaving
