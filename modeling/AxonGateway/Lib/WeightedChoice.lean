import Mathlib

/-!
# Choosing by weight

A draw between one and the sum of some weights picks the first position at which the running sum
reaches it.  Every position is picked by as many draws as it weighs.
-/

namespace WeightedChoice

/-- The first position at which the running sum reaches `r`. -/
def position (r : ℕ) : ℕ → List ℕ → Option ℕ
  | _, [] => none
  | cumulative, w :: ws =>
      if r ≤ cumulative + w then some 0 else (position r (cumulative + w) ws).map (· + 1)

theorem position_eq_some_iff {r c : ℕ} (hc : c < r) {ws : List ℕ} {i : ℕ} :
    position r c ws = some i ↔
      i < ws.length ∧ c + (ws.take i).sum < r ∧ r ≤ c + (ws.take (i + 1)).sum := by
  induction ws generalizing c i with
  | nil => simp [position]
  | cons w ws ih =>
      unfold position
      split_ifs with hr
      · cases i with
        | zero => simp [hc, hr]
        | succ i =>
            simp only [Option.some.injEq, List.length_cons, List.take_succ_cons, List.sum_cons]
            omega
      · cases i with
        | zero =>
            simp only [Option.map_eq_some_iff, List.take_succ_cons, List.take_zero, List.sum_cons,
              List.sum_nil]
            omega
        | succ i =>
            have hrest := ih (c := c + w) (i := i) (by omega)
            rw [Option.map_eq_some_iff]
            simp only [Nat.add_right_cancel_iff, exists_eq_right, hrest, List.length_cons,
              List.take_succ_cons, List.sum_cons]
            omega

theorem take_sum_le (ws : List ℕ) (i : ℕ) : (ws.take i).sum ≤ ws.sum := by
  have h := List.sum_take_add_sum_drop ws i
  omega

/-- A draw within the sum picks some position. -/
theorem exists_position {r c : ℕ} (hc : c < r) {ws : List ℕ} (hr : r ≤ c + ws.sum) :
    ∃ i < ws.length, position r c ws = some i := by
  induction ws generalizing c with
  | nil =>
      rw [List.sum_nil] at hr
      omega
  | cons w ws ih =>
      unfold position
      split_ifs with hw
      · exact ⟨0, by simp, rfl⟩
      · rw [List.sum_cons] at hr
        obtain ⟨i, hi, heq⟩ := ih (c := c + w) (by omega) (by omega)
        exact ⟨i + 1, by simpa using hi, by rw [heq]; rfl⟩

/-- Every position is picked by as many draws as it weighs. -/
theorem card_position (ws : List ℕ) {i : ℕ} (hi : i < ws.length) :
    ((Finset.range ws.sum).filter fun draw ↦ position (draw + 1) 0 ws = some i).card = ws[i] := by
  have hnext : (ws.take (i + 1)).sum = (ws.take i).sum + ws[i] := by
    rw [List.take_succ_eq_append_getElem hi, List.sum_append, List.sum_singleton]
  have hfilter : ((Finset.range ws.sum).filter fun draw ↦ position (draw + 1) 0 ws = some i) =
      Finset.Ico (ws.take i).sum (ws.take (i + 1)).sum := by
    ext draw
    have hbound := take_sum_le ws (i + 1)
    rw [Finset.mem_filter, Finset.mem_range, Finset.mem_Ico,
      position_eq_some_iff (Nat.succ_pos draw)]
    omega
  rw [hfilter, Nat.card_Ico, hnext]
  omega

end WeightedChoice
