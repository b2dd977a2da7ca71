import AxonGateway.Lib.Interleaving

/-!
# Scheduled runs

A schedule says which call starts and which thread performs its next operation,
`act` how an operation turns out, if it can be performed at all.  Playing a
schedule computes a run of the service.
-/

namespace Interleaving

variable {Op : Type} {Ret : Op → Type} {σ Call α : Type}

/-- Thread `i` performs its next operation as `act` says. -/
def Pool.advance (act : ℕ → (o : Op) → σ → Option (Ret o × σ)) (i : ℕ)
    (p : Pool Op Ret σ Call α) : Pool Op Ret σ Call α :=
  match p.threads[i]? with
  | some ⟨c, s₀, .call o k⟩ =>
      match act i o p.state with
      | some (r, s') => ⟨s', p.threads.set i ⟨c, s₀, k r⟩⟩
      | none => p
  | _ => p

/-- The start of a call, or one operation of a thread. -/
inductive Turn (Call : Type) where
  | start (c : Call)
  | next (i : ℕ)

/-- Play a schedule. -/
def Pool.playTurns (body : Call → Prog Op Ret α)
    (act : ℕ → (o : Op) → σ → Option (Ret o × σ)) (turns : List (Turn Call))
    (p : Pool Op Ret σ Call α) : Pool Op Ret σ Call α :=
  turns.foldl (fun p turn ↦ match turn with
    | .start c => ⟨p.state, p.threads ++ [⟨c, p.state, body c⟩]⟩
    | .next i => p.advance act i) p

variable {S : Service Op Ret σ Call α} {act : ℕ → (o : Op) → σ → Option (Ret o × σ)}

theorem Steps.advance {p : Pool Op Ret σ Call α} {i : ℕ}
    (hact : ∀ o r s', act i o p.state = some (r, s') → S.machine.exec i o p.state r s') :
    Steps S p (p.advance act i) := by
  unfold Pool.advance
  split
  next c s₀ o k hi =>
    split
    next r s' hr => exact Relation.ReflTransGen.single (.run p i c s₀ o k r s' hi (hact o r s' hr))
    next => exact Relation.ReflTransGen.refl
  next => exact Relation.ReflTransGen.refl

/-- A schedule is a run if its outcomes are possible in the states that it reaches. -/
theorem Steps.playTurns_of_reached {p : Pool Op Ret σ Call α}
    (hact : ∀ q, Steps S p q → ∀ i o r s', act i o q.state = some (r, s') →
      S.machine.exec i o q.state r s')
    (turns : List (Turn Call)) (hadmits : ∀ q c, .start c ∈ turns → S.admits q c) :
    Steps S p (p.playTurns S.body act turns) := by
  induction turns generalizing p with
  | nil => exact Relation.ReflTransGen.refl
  | cons turn turns ih =>
      have hrest : ∀ q c, .start c ∈ turns → S.admits q c :=
        fun q c hc ↦ hadmits q c (List.mem_cons_of_mem _ hc)
      cases turn with
      | start c =>
          have hstart : Steps S p ⟨p.state, p.threads ++ [⟨c, p.state, S.body c⟩]⟩ :=
            Relation.ReflTransGen.single (.start p c (hadmits p c List.mem_cons_self))
          exact Relation.ReflTransGen.trans hstart
            (ih (fun q hq ↦ hact q (Relation.ReflTransGen.trans hstart hq)) hrest)
      | next i =>
          have hnext : Steps S p (p.advance act i) :=
            Steps.advance (hact p Relation.ReflTransGen.refl i)
          exact Relation.ReflTransGen.trans hnext
            (ih (fun q hq ↦ hact q (Relation.ReflTransGen.trans hnext hq)) hrest)

/-- A schedule whose outcomes are possible is a run. -/
theorem Steps.playTurns
    (hact : ∀ i o s r s', act i o s = some (r, s') → S.machine.exec i o s r s')
    (turns : List (Turn Call)) (hadmits : ∀ p c, .start c ∈ turns → S.admits p c)
    (p : Pool Op Ret σ Call α) : Steps S p (p.playTurns S.body act turns) :=
  Steps.playTurns_of_reached (fun q _ i o r s' ↦ hact i o q.state r s') turns hadmits

end Interleaving
