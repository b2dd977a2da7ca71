import Mathlib

/-!
# Weighing a gain against a cost

Gains and costs are divided by their largest values and weighed against each other. What is best by
such a score is not dominated, and the unit of the costs does not matter.
-/

namespace Scalarization

variable {K α : Type} [Field K] [LinearOrder K] [IsStrictOrderedRing K]

/-- The weighted score of a gain and a cost. -/
def score (t maxGain maxCost gain cost : K) : K :=
  (1 - t) * (if 0 < maxGain then gain / maxGain else 0) +
    t * (1 - (if 0 < maxCost then cost / maxCost else 0))

variable {t maxGain maxCost gain gain' cost cost' k : K}

theorem score_lt_of_gain (ht : t < 1) (ht₀ : 0 ≤ t) (hmaxGain : 0 < maxGain)
    (hmaxCost : 0 < maxCost) (hgain : gain < gain') (hcost : cost' ≤ cost) :
    score t maxGain maxCost gain cost < score t maxGain maxCost gain' cost' := by
  have hgains : gain / maxGain < gain' / maxGain := div_lt_div_of_pos_right hgain hmaxGain
  have hcosts : cost' / maxCost ≤ cost / maxCost := div_le_div_of_nonneg_right hcost hmaxCost.le
  rw [score, score, if_pos hmaxGain, if_pos hmaxCost, if_pos hmaxGain, if_pos hmaxCost]
  exact add_lt_add_of_lt_of_le (mul_lt_mul_of_pos_left hgains (sub_pos.mpr ht))
    (mul_le_mul_of_nonneg_left (sub_le_sub_left hcosts 1) ht₀)

theorem score_lt_of_cost (ht : t ≤ 1) (ht₀ : 0 < t) (hmaxCost : 0 < maxCost)
    (hgain : gain ≤ gain') (hcost : cost' < cost) :
    score t maxGain maxCost gain cost < score t maxGain maxCost gain' cost' := by
  have hgains : (if 0 < maxGain then gain / maxGain else 0) ≤
      if 0 < maxGain then gain' / maxGain else 0 := by
    split_ifs with hmaxGain
    · exact div_le_div_of_nonneg_right hgain hmaxGain.le
    · exact le_rfl
  have hcosts : cost' / maxCost < cost / maxCost := div_lt_div_of_pos_right hcost hmaxCost
  rw [score, score, if_pos hmaxCost, if_pos hmaxCost]
  exact add_lt_add_of_le_of_lt (mul_le_mul_of_nonneg_left hgains (sub_nonneg.mpr ht))
    (mul_lt_mul_of_pos_left (sub_lt_sub_left hcosts 1) ht₀)

/-- Costs may be counted in another unit. -/
theorem score_mul (hk : 0 < k) :
    score t maxGain (k * maxCost) gain (k * cost) = score t maxGain maxCost gain cost := by
  have hpos : 0 < k * maxCost ↔ 0 < maxCost := by
    rw [mul_pos_iff_of_pos_left hk]
  rw [score, score]
  simp only [hpos, mul_div_mul_left cost maxCost hk.ne']

/-- At least as good in both respects, and better in one. -/
def Dominates (gain cost gain' cost' : K) : Prop :=
  gain' ≤ gain ∧ cost ≤ cost' ∧ (gain' < gain ∨ cost < cost')

theorem Dominates.score_lt (h : Dominates gain cost gain' cost') (ht : t < 1) (ht₀ : 0 < t)
    (hgain : gain ≤ maxGain) (hgain' : 0 ≤ gain') (hmaxCost : 0 < maxCost) :
    score t maxGain maxCost gain' cost' < score t maxGain maxCost gain cost := by
  obtain ⟨hle, hcost, hstrict⟩ := h
  rcases hstrict with hlt | hlt
  · exact score_lt_of_gain ht ht₀.le (hgain'.trans_lt (hlt.trans_le hgain)) hmaxCost hlt hcost
  · exact score_lt_of_cost ht.le ht₀ hmaxCost hle hlt

omit [Field K] [IsStrictOrderedRing K] in
/-- What is best depends on the members only. -/
theorem argmax_congr {f g : α → K} {l : List α} (h : ∀ a ∈ l, f a = g a) :
    l.argmax f = l.argmax g := by
  induction l using List.reverseRecOn with
  | nil => rfl
  | append_singleton l a ih =>
      have hl := ih fun b hb ↦ h b (List.mem_append_left _ hb)
      rw [List.argmax_concat, List.argmax_concat, hl]
      cases hbest : l.argmax g with
      | none => rfl
      | some b =>
          have hb : b ∈ l := List.argmax_mem hbest
          dsimp only
          rw [h a (List.mem_append_right _ (List.mem_singleton_self a)),
            h b (List.mem_append_left _ hb)]

omit [Field K] [IsStrictOrderedRing K] in
/-- The largest of some values, or the first where there is none. -/
theorem le_foldl_max (l : List K) (a : K) : a ≤ l.foldl max a ∧ ∀ b ∈ l, b ≤ l.foldl max a := by
  induction l generalizing a with
  | nil => exact ⟨le_rfl, nofun⟩
  | cons c l ih =>
      obtain ⟨hle, hall⟩ := ih (max a c)
      refine ⟨(le_max_left a c).trans hle, fun b hb ↦ ?_⟩
      rcases List.mem_cons.mp hb with rfl | hb
      · exact (le_max_right a b).trans hle
      · exact hall b hb

theorem foldl_max_mul (hk : 0 ≤ k) (l : List K) (a : K) :
    (l.map (k * ·)).foldl max (k * a) = k * l.foldl max a := by
  induction l generalizing a with
  | nil => rfl
  | cons c l ih => rw [List.map_cons, List.foldl_cons, List.foldl_cons, ← mul_max_of_nonneg _ _ hk, ih]

end Scalarization
