import Mathlib

/-!
# Where a word occurs

An occurrence of a word in a text of three stretches lies in the first one, in the last one, or
it reaches into the middle.
-/

namespace Occurrence

variable {α : Type}

/-- An occurrence of `p` in `a ++ m ++ b` ends after `a` and starts before `b`. -/
def Reaches [BEq α] (p a m b : List α) : Prop :=
  ∃ k ∈ List.range (a ++ m).length, a.length < k + p.length ∧ p.isPrefixOf ((a ++ m ++ b).drop k)

instance [BEq α] (p a m b : List α) : Decidable (Reaches p a m b) := by
  unfold Reaches; infer_instance

theorem infix_iff_drop {p l : List α} : p <:+: l ↔ ∃ k, p <+: l.drop k := by
  constructor
  · rintro ⟨u, v, rfl⟩
    exact ⟨u.length, v, by simp⟩
  · rintro ⟨k, v, h⟩
    exact ⟨l.take k, v, by rw [List.append_assoc, h, List.take_append_drop]⟩

theorem infix_append_iff [BEq α] [LawfulBEq α] (p a m b : List α) :
    p <:+: a ++ m ++ b ↔ p <:+: a ∨ p <:+: b ∨ Reaches p a m b := by
  constructor
  · intro h
    obtain ⟨k, hk⟩ := infix_iff_drop.mp h
    by_cases hbefore : k + p.length ≤ a.length
    · left
      refine infix_iff_drop.mpr ⟨k, ?_⟩
      rw [List.append_assoc, List.drop_append_of_le_length (by omega)] at hk
      exact (List.prefix_of_prefix_length_le hk (List.prefix_append _ _) (by simp; omega))
    · right
      by_cases hafter : (a ++ m).length ≤ k
      · left
        refine infix_iff_drop.mpr ⟨k - (a ++ m).length, ?_⟩
        rwa [List.drop_append, List.drop_eq_nil_of_le hafter, List.nil_append] at hk
      · right
        exact ⟨k, List.mem_range.mpr (by omega), by omega, List.isPrefixOf_iff_prefix.mpr hk⟩
  · rintro (h | h | ⟨k, -, -, h⟩)
    · exact h.trans ⟨[], m ++ b, by simp⟩
    · exact h.trans ⟨a ++ m, [], by simp⟩
    · exact infix_iff_drop.mpr ⟨k, List.isPrefixOf_iff_prefix.mp h⟩

end Occurrence
