import AxonGateway.Lib.Interleaving

/-!
# Programs whose operations an environment answers

`Every` says what holds of all operations a program may perform and of all
results it may reach, whatever admissible answers it gets; `Calls` is the dual
notion of one operation it may perform.  `play` answers the operations from a
state instead.
-/

namespace Interleaving

variable {Op : Type} {Ret : Op → Type} {α β ε σ : Type}

namespace Prog

/-- Under admissible answers every operation satisfies `P` and every result `Q`. -/
def Every (A : (o : Op) → Ret o → Prop) (P : Op → Prop) (Q : α → Prop) :
    Prog Op Ret α → Prop
  | done a => Q a
  | call o k => P o ∧ ∀ r, A o r → (k r).Every A P Q

/-- Some admissible answers lead the program to the operation `o`. -/
def Calls (A : (o : Op) → Ret o → Prop) (o : Op) : Prog Op Ret α → Prop
  | done _ => False
  | call o' k => o' = o ∨ ∃ r, A o' r ∧ (k r).Calls A o

/-- Some admissible answers lead the program to the result `a`. -/
def Yields (A : (o : Op) → Ret o → Prop) (a : α) : Prog Op Ret α → Prop
  | done b => b = a
  | call o k => ∃ r, A o r ∧ (k r).Yields A a

variable {A : (o : Op) → Ret o → Prop} {P P' : Op → Prop}

instance : LawfulMonad (Prog Op Ret) := LawfulMonad.mk' _
  (fun p ↦ by
    induction p with
    | done a => rfl
    | call o k ih => exact congrArg (Prog.call o) (funext ih))
  (fun _ _ ↦ rfl)
  Prog.bind_assoc

theorem every_iff_forall_calls {p : Prog Op Ret α} :
    p.Every A P (fun _ ↦ True) ↔ ∀ o, p.Calls A o → P o := by
  induction p with
  | done a => simp [Every, Calls]
  | call o k ih =>
      constructor
      · rintro ⟨ho, hk⟩ o' (rfl | ⟨r, hr, hcalls⟩)
        · exact ho
        · exact (ih r).mp (hk r hr) o' hcalls
      · intro h
        refine ⟨h o (.inl rfl), fun r hr ↦ (ih r).mpr fun o' hcalls ↦ ?_⟩
        exact h o' (.inr ⟨r, hr, hcalls⟩)

theorem Every.imp {Q Q' : α → Prop} (hP : ∀ o, P o → P' o) (hQ : ∀ a, Q a → Q' a)
    {p : Prog Op Ret α} (h : p.Every A P Q) : p.Every A P' Q' := by
  induction p with
  | done a => exact hQ a h
  | call o k ih => exact ⟨hP o h.1, fun r hr ↦ ih r (h.2 r hr)⟩

theorem Every.and {Q Q' : α → Prop} {p : Prog Op Ret α} (h : p.Every A P Q)
    (h' : p.Every A P' Q') : p.Every A P (fun a ↦ Q a ∧ Q' a) := by
  induction p with
  | done a => exact ⟨h, h'⟩
  | call o k ih => exact ⟨h.1, fun r hr ↦ ih r (h.2 r hr) (h'.2 r hr)⟩

theorem Every.bind {Q : α → Prop} {Q' : β → Prop} {p : Prog Op Ret α} {f : α → Prog Op Ret β}
    (h : p.Every A P Q) (hf : ∀ a, Q a → (f a).Every A P Q') : (p >>= f).Every A P Q' := by
  induction p with
  | done a => exact hf a h
  | call o k ih => exact ⟨h.1, fun r hr ↦ ih r (h.2 r hr)⟩

theorem Calls.bind_left {p : Prog Op Ret α} {o : Op} (h : p.Calls A o)
    (f : α → Prog Op Ret β) : (p >>= f).Calls A o := by
  induction p with
  | done a => exact h.elim
  | call o' k ih =>
      rcases h with rfl | ⟨r, hr, hcalls⟩
      · exact .inl rfl
      · exact .inr ⟨r, hr, ih r hcalls⟩

theorem Calls.bind_right {p : Prog Op Ret α} {o : Op} {a : α} (h : p.Yields A a)
    {f : α → Prog Op Ret β} (hf : (f a).Calls A o) : (p >>= f).Calls A o := by
  induction p with
  | done b =>
      obtain rfl : b = a := h
      exact hf
  | call o' k ih =>
      obtain ⟨r, hr, hyields⟩ := h
      exact .inr ⟨r, hr, ih r hyields⟩

theorem Yields.bind {p : Prog Op Ret α} {a : α} (h : p.Yields A a)
    {f : α → Prog Op Ret β} {b : β} (hf : (f a).Yields A b) : (p >>= f).Yields A b := by
  induction p with
  | done a' =>
      obtain rfl : a' = a := h
      exact hf
  | call o k ih =>
      obtain ⟨r, hr, hyields⟩ := h
      exact ⟨r, hr, ih r hyields⟩

theorem Every.of_yields {Q : α → Prop} {p : Prog Op Ret α} (h : p.Every A P Q) {a : α}
    (ha : p.Yields A a) : Q a := by
  induction p with
  | done b =>
      obtain rfl : b = a := ha
      exact h
  | call o k ih =>
      obtain ⟨r, hr, hyields⟩ := ha
      exact ih r (h.2 r hr) hyields

/-- If every operation may get some answer, every program may come to an end. -/
theorem exists_yields (hA : ∀ o, ∃ r, A o r) (p : Prog Op Ret α) : ∃ a, p.Yields A a := by
  induction p with
  | done a => exact ⟨a, rfl⟩
  | call o k ih =>
      obtain ⟨r, hr⟩ := hA o
      obtain ⟨a, ha⟩ := ih r
      exact ⟨a, r, hr, ha⟩

end Prog

/-- What every operation of a body satisfies, every operation of a started call satisfies. -/
theorem Reachable.every {Call : Type} {S : Service Op Ret σ Call α} {P : Call → Op → Prop}
    (hbody : ∀ c, (S.body c).Every (fun _ _ ↦ True) (P c) fun _ ↦ True) {init : σ}
    {p : Pool Op Ret σ Call α} (hp : Reachable S init p) :
    ∀ (i : ℕ) (t : Thread Op Ret σ Call α), p.threads[i]? = some t →
      t.prog.Every (fun _ _ ↦ True) (P t.call) fun _ ↦ True := by
  induction hp with
  | refl => simp
  | @tail p q _ hstep ih =>
      intro i t hi
      cases hstep with
      | start c hc =>
          rcases lt_or_ge i p.threads.length with hlt | hge
          · exact ih i t (List.getElem?_append_left hlt ▸ hi)
          · rw [List.getElem?_append_right hge] at hi
            obtain ⟨-, rfl⟩ : i - p.threads.length = 0 ∧ _ = t := by
              simpa [List.getElem?_singleton] using hi
            exact hbody c
      | run j c s₀ o k r s' hj hexec =>
          rcases eq_or_ne j i with rfl | hne
          · rw [List.getElem?_set_self (List.getElem?_eq_some_iff.mp hj).1] at hi
            obtain rfl := Option.some.inj hi
            exact (ih j _ hj).2 r trivial
          · exact ih i t (List.getElem?_set_ne hne ▸ hi)
      | env s' henv => exact ih i t hi

namespace Prog

/-! ## Answers from a state -/

/-- Answer every operation by `h`, which may change the state. -/
def play (h : (o : Op) → σ → Ret o × σ) : Prog Op Ret α → σ → α × σ
  | done a, s => (a, s)
  | call o k, s => (k (h o s).1).play h (h o s).2

variable {h : (o : Op) → σ → Ret o × σ}

@[simp] theorem play_done (a : α) (s : σ) : (done a : Prog Op Ret α).play h s = (a, s) := rfl

@[simp] theorem play_call (o : Op) (k : Ret o → Prog Op Ret α) (s : σ) :
    (call o k).play h s = (k (h o s).1).play h (h o s).2 := rfl

@[simp] theorem play_bind (p : Prog Op Ret α) (f : α → Prog Op Ret β) (s : σ) :
    (p >>= f).play h s = (f (p.play h s).1).play h (p.play h s).2 := by
  induction p generalizing s with
  | done a => rfl
  | call o k ih => exact ih (h o s).1 (h o s).2

end Prog

/-- A program that is played runs alone. -/
theorem Evals.play {M : Machine Op Ret σ} {i : ℕ} {h : (o : Op) → σ → Ret o × σ}
    (hexec : ∀ o s, M.exec i o s (h o s).1 (h o s).2) (p : Prog Op Ret α) (s : σ) :
    Evals M i p s (p.play h s).1 (p.play h s).2 := by
  induction p generalizing s with
  | done a => exact .done a s
  | call o k ih => exact .call o k s _ _ _ _ (hexec o s) (ih _ _)

/-! ## Programs that may raise -/

/-- A program that returns a value or raises an exception from `ε`. -/
abbrev Raising (ε : Type) (Op : Type) (Ret : Op → Type) (α : Type) := ExceptT ε (Prog Op Ret) α

namespace Raising

variable {A : (o : Op) → Ret o → Prop} {P P' : Op → Prop}

/-- Catch every exception. -/
def attempt (x : Raising ε Op Ret α) : Raising ε Op Ret (Except ε α) :=
  ExceptT.mk (x.run >>= fun r ↦ pure (.ok r))

/-- Raising what was caught undoes the catching. -/
theorem attempt_bind (x : Raising ε Op Ret α) {f : Except ε α → Raising ε Op Ret α}
    (hok : ∀ a, f (.ok a) = pure a) (herror : ∀ e, f (.error e) = throw e) :
    x.attempt >>= f = x := by
  refine (Prog.bind_assoc x.run _ _).trans (Eq.trans ?_ (bind_pure x.run))
  refine bind_congr fun r ↦ ?_
  cases r with
  | ok a => exact congrArg ExceptT.run (hok a)
  | error e => exact congrArg ExceptT.run (herror e)

/-- Perform one operation, which raises where its answer is an error. -/
def perform {o : Op} (answer : Ret o → Except ε α) : Raising ε Op Ret α :=
  ExceptT.mk (Prog.op o >>= fun r ↦ pure (answer r))

/-- Perform one operation that cannot raise. -/
def ask (o : Op) : Raising ε Op Ret (Ret o) := perform .ok

/-- Under admissible answers every operation satisfies `P`, and `Q` holds if a
value is returned. -/
def Every (A : (o : Op) → Ret o → Prop) (P : Op → Prop) (Q : α → Prop)
    (x : Raising ε Op Ret α) : Prop :=
  Prog.Every A P (fun r ↦ ∀ a, r = .ok a → Q a) x.run

/-- Some admissible answers lead to the operation `o`. -/
def Calls (A : (o : Op) → Ret o → Prop) (o : Op) (x : Raising ε Op Ret α) : Prop :=
  Prog.Calls A o x.run

theorem every_iff_forall_calls {x : Raising ε Op Ret α} :
    x.Every A P (fun _ ↦ True) ↔ ∀ o, x.Calls A o → P o := by
  simpa only [Every, Calls, implies_true] using
    (Prog.every_iff_forall_calls : Prog.Every A P _ x.run ↔ _)

theorem Every.imp {Q Q' : α → Prop} (hP : ∀ o, P o → P' o) (hQ : ∀ a, Q a → Q' a)
    {x : Raising ε Op Ret α} (h : x.Every A P Q) : x.Every A P' Q' :=
  Prog.Every.imp hP (fun _ hr a ha ↦ hQ a (hr a ha)) h

theorem Every.and {Q Q' : α → Prop} {x : Raising ε Op Ret α} (h : x.Every A P Q)
    (h' : x.Every A P' Q') : x.Every A P (fun a ↦ Q a ∧ Q' a) :=
  Prog.Every.imp (fun _ h ↦ h) (fun _ hr a ha ↦ ⟨hr.1 a ha, hr.2 a ha⟩) (Prog.Every.and h h')

theorem Every.pure {Q : α → Prop} {a : α} (h : Q a) :
    Every A P Q (pure a : Raising ε Op Ret α) := by
  rintro _ ⟨⟩
  exact h

theorem Every.throw {Q : α → Prop} (e : ε) : Every A P Q (throw e : Raising ε Op Ret α) := by
  rintro _ ⟨⟩

theorem Every.bind {Q : α → Prop} {Q' : β → Prop} {x : Raising ε Op Ret α}
    {f : α → Raising ε Op Ret β} (h : x.Every A P Q) (hf : ∀ a, Q a → (f a).Every A P Q') :
    Every A P Q' (x >>= f) := by
  refine Prog.Every.bind (p := x.run) h fun r hr ↦ ?_
  cases r with
  | ok a => exact hf a (hr a rfl)
  | error e => rintro _ ⟨⟩

theorem Every.attempt {Q : α → Prop} {Q' : Except ε α → Prop} {x : Raising ε Op Ret α}
    (h : x.Every A P Q) (hok : ∀ a, Q a → Q' (.ok a)) (herror : ∀ e, Q' (.error e)) :
    Every A P Q' x.attempt := by
  refine Prog.Every.bind (p := x.run) h fun r hr ↦ ?_
  rintro _ ⟨⟩
  cases r with
  | ok a => exact hok a (hr a rfl)
  | error e => exact herror e

theorem Every.perform {Q : α → Prop} {o : Op} {answer : Ret o → Except ε α} (ho : P o)
    (h : ∀ r, A o r → ∀ a, answer r = .ok a → Q a) : Every A P Q (perform answer) :=
  ⟨ho, h⟩

theorem Every.ask {Q : Ret o → Prop} (ho : P o) (h : ∀ r, A o r → Q r) :
    Every A P Q (ask o : Raising ε Op Ret (Ret o)) := by
  refine Every.perform ho fun r hr a ha ↦ ?_
  cases ha
  exact h r hr

/-! ## What may happen -/

section May

/-- Some admissible answers make `x` return `a`. -/
def Yields (A : (o : Op) → Ret o → Prop) (a : α) (x : Raising ε Op Ret α) : Prop :=
  Prog.Yields A (.ok a) x.run

/-- Some admissible answers make `x` raise `e`. -/
def Raises (A : (o : Op) → Ret o → Prop) (e : ε) (x : Raising ε Op Ret α) : Prop :=
  Prog.Yields A (.error e) x.run

variable {o : Op} {x : Raising ε Op Ret α} {f : α → Raising ε Op Ret β} {a : α} {b : β} {e : ε}

theorem Yields.pure : Yields A a (pure a : Raising ε Op Ret α) := rfl

theorem Raises.throw : Raises A e (throw e : Raising ε Op Ret α) := rfl

theorem Every.of_yields {Q : α → Prop} (h : x.Every A P Q) (ha : x.Yields A a) : Q a :=
  Prog.Every.of_yields h ha a rfl

theorem Yields.ask {r : Ret o} (hr : A o r) : Yields A r (ask o : Raising ε Op Ret (Ret o)) :=
  ⟨r, hr, rfl⟩

theorem Calls.ask : Calls A o (ask o : Raising ε Op Ret (Ret o)) := .inl rfl

theorem Yields.bind (hx : x.Yields A a) (hf : (f a).Yields A b) : Yields A b (x >>= f) :=
  Prog.Yields.bind hx hf

theorem Yields.raises_bind (hx : x.Yields A a) (hf : (f a).Raises A e) : Raises A e (x >>= f) :=
  Prog.Yields.bind hx hf

theorem Raises.bind (hx : x.Raises A e) (f : α → Raising ε Op Ret β) : Raises A e (x >>= f) :=
  Prog.Yields.bind hx rfl

theorem Calls.bind (hx : x.Calls A o) (f : α → Raising ε Op Ret β) : Calls A o (x >>= f) :=
  Prog.Calls.bind_left hx _

theorem Yields.calls_bind (hx : x.Yields A a) (hf : (f a).Calls A o) : Calls A o (x >>= f) :=
  Prog.Calls.bind_right hx hf

theorem Calls.attempt (hx : x.Calls A o) : Calls A o x.attempt := Prog.Calls.bind_left hx _

theorem Yields.attempt (hx : x.Yields A a) : Yields A (.ok a) x.attempt :=
  Prog.Yields.bind hx rfl

theorem Raises.attempt (hx : x.Raises A e) : Yields A (.error e) x.attempt :=
  Prog.Yields.bind hx rfl

theorem exists_yields_attempt (hA : ∀ o, ∃ r, A o r) (x : Raising ε Op Ret α) :
    ∃ r, Yields A r x.attempt := by
  obtain ⟨r, hr⟩ := Prog.exists_yields hA x.run
  exact ⟨r, Prog.Yields.bind hr rfl⟩

end May

/-! ## Answers from a state -/

section play

variable {h : (o : Op) → σ → Ret o × σ}

/-- Answer every operation by `h`. -/
def play (h : (o : Op) → σ → Ret o × σ) (x : Raising ε Op Ret α) (s : σ) : Except ε α × σ :=
  Prog.play h x.run s

@[simp] theorem play_pure (a : α) (s : σ) :
    play h (pure a : Raising ε Op Ret α) s = (.ok a, s) := rfl

@[simp] theorem play_throw (e : ε) (s : σ) :
    play h (throw e : Raising ε Op Ret α) s = (.error e, s) := rfl

@[simp] theorem play_perform {o : Op} (answer : Ret o → Except ε α) (s : σ) :
    play h (perform answer) s = (answer (h o s).1, (h o s).2) := rfl

@[simp] theorem play_ask (o : Op) (s : σ) :
    play h (ask o : Raising ε Op Ret (Ret o)) s = (.ok (h o s).1, (h o s).2) := rfl

@[simp] theorem play_attempt (x : Raising ε Op Ret α) (s : σ) :
    play h x.attempt s = (.ok (x.play h s).1, (x.play h s).2) :=
  Prog.play_bind x.run _ s

theorem play_bind_ok {x : Raising ε Op Ret α} {f : α → Raising ε Op Ret β} {s s' : σ} {a : α}
    (hx : x.play h s = (.ok a, s')) : play h (x >>= f) s = (f a).play h s' := by
  have hrun : Prog.play h x.run s = (.ok a, s') := hx
  refine (Prog.play_bind x.run _ s).trans ?_
  rw [hrun]
  rfl

theorem play_bind_error {x : Raising ε Op Ret α} {f : α → Raising ε Op Ret β} {s s' : σ} {e : ε}
    (hx : x.play h s = (.error e, s')) : play h (x >>= f) s = (.error e, s') := by
  have hrun : Prog.play h x.run s = (.error e, s') := hx
  refine (Prog.play_bind x.run _ s).trans ?_
  rw [hrun]
  rfl

end play

end Raising

end Interleaving
