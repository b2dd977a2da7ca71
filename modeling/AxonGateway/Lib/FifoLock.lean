import Mathlib

/-!
# Locks that are served in turn

A lock has at most one holder, and those that wait for it stand in a queue. A wait that goes up
in some rank cannot come back to where it started.
-/

variable {T : Type}

/-- A mutual exclusion lock, with its waiters in the order in which they came. -/
structure FifoLock (T : Type) where
  holder : Option T
  waiters : List T

namespace FifoLock

def unlocked : FifoLock T := ⟨none, []⟩

/-- One that comes now need not wait. -/
def Free (l : FifoLock T) : Prop := l.holder = none ∧ l.waiters = []

/-- The first of the waiters can take the lock. -/
def Ready (l : FifoLock T) (t : T) : Prop := l.holder = none ∧ l.waiters.head? = some t

def take (l : FifoLock T) (t : T) : FifoLock T := { l with holder := some t }

def enqueue (l : FifoLock T) (t : T) : FifoLock T := { l with waiters := l.waiters ++ [t] }

def grant (l : FifoLock T) (t : T) : FifoLock T := ⟨some t, l.waiters.tail⟩

def release (l : FifoLock T) : FifoLock T := { l with holder := none }

theorem Ready.waiters_eq {l : FifoLock T} {t : T} (h : l.Ready t) :
    l.waiters = t :: l.waiters.tail := by
  cases hw : l.waiters with
  | nil =>
      have hhead := h.2
      rw [hw] at hhead
      cases hhead
  | cons u rest =>
      have hhead := h.2
      rw [hw] at hhead
      obtain rfl := Option.some.inj hhead
      rfl

variable [DecidableEq T]

/-- `t` waits no more. -/
def withdraw (l : FifoLock T) (t : T) : FifoLock T := { l with waiters := l.waiters.erase t }

/-- `t` waits for `u`: `u` holds the lock, or came before. -/
def WaitsFor (l : FifoLock T) (t u : T) : Prop :=
  t ∈ l.waiters ∧ (l.holder = some u ∨ u ∈ l.waiters ∧ l.waiters.idxOf u < l.waiters.idxOf t)

end FifoLock

/-- Where every wait for someone who waits too goes up in rank, nobody waits for itself. -/
theorem not_transGen_self {P : Type} [Preorder P] {R : T → T → Prop} (rank : T → P)
    (h : ∀ a b c, R a b → R b c → rank a < rank b) (a : T) : ¬Relation.TransGen R a a := by
  have hup : ∀ b, Relation.TransGen R a b → ∀ c, R b c → rank a < rank b := by
    intro b hab
    induction hab with
    | single hstep => exact fun c hc ↦ h _ _ c hstep hc
    | tail _ hstep ih => exact fun c hc ↦ (ih _ hstep).trans (h _ _ c hstep hc)
  intro hcycle
  obtain ⟨b, hb, -⟩ := Relation.TransGen.head'_iff.mp hcycle
  exact lt_irrefl _ (hup a hcycle b hb)
