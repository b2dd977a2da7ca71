import Mathlib

/-!
# Chains of hashes

Each element of a chain names the hash of the one before it, the first one an
agreed starting value.
-/

namespace HashChain

variable {α H : Type} {prev hash : α → H}

/-- `l` leads from the hash `h` to the last hash `h'`. -/
def Linked (prev hash : α → H) : H → List α → H → Prop
  | h, [], h' => h = h'
  | h, a :: l, h' => prev a = h ∧ Linked prev hash (hash a) l h'

@[simp] theorem linked_nil {h h' : H} : Linked prev hash h [] h' ↔ h = h' := Iff.rfl

@[simp] theorem linked_cons {h h' : H} {a : α} {l : List α} :
    Linked prev hash h (a :: l) h' ↔ prev a = h ∧ Linked prev hash (hash a) l h' := Iff.rfl

theorem Linked.append_singleton {h h' : H} {l : List α} (hl : Linked prev hash h l h') {a : α}
    (ha : prev a = h') : Linked prev hash h (l ++ [a]) (hash a) := by
  induction l generalizing h with
  | nil =>
      obtain rfl : h = h' := hl
      exact ⟨ha, rfl⟩
  | cons b l ih => exact ⟨hl.1, ih hl.2⟩

end HashChain
