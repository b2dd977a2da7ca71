import Mathlib

/-!
# Cosine similarity

Two vectors of rationals have a similarity `dot / √norms`. Kept as this fraction,
similarities are compared with rational arithmetic only.
-/

namespace Semantic

/-- A real number of the form `dot / √norms`. -/
structure Score where
  dot : ℚ
  norms : ℚ
  pos : 0 < norms

theorem strictMono_mul_abs : StrictMono fun x : ℝ ↦ x * |x| := by
  intro x y hxy
  dsimp only
  rcases le_or_gt 0 x with hx | hx
  · rw [abs_of_nonneg hx, abs_of_nonneg (hx.trans hxy.le)]
    exact mul_self_lt_mul_self hx hxy
  · rcases le_or_gt 0 y with hy | hy
    · rw [abs_of_neg hx, abs_of_nonneg hy]
      have : 0 < x * x := mul_pos_of_neg_of_neg hx hx
      have : 0 ≤ y * y := mul_self_nonneg y
      linarith
    · rw [abs_of_neg hx, abs_of_neg hy]
      nlinarith

namespace Score

noncomputable def value (s : Score) : ℝ := s.dot / √(s.norms : ℝ)

def ofRat (t : ℚ) : Score := ⟨t, 1, one_pos⟩

@[simp] theorem value_ofRat (t : ℚ) : (ofRat t).value = t := by
  simp [ofRat, value]

/-- Compare the signed squares. -/
def lt (s t : Score) : Bool := s.dot * |s.dot| * t.norms < t.dot * |t.dot| * s.norms

theorem value_mul_abs (s : Score) :
    s.value * |s.value| = ((s.dot * |s.dot| / s.norms : ℚ) : ℝ) := by
  have hpos : (0 : ℝ) < s.norms := by exact_mod_cast s.pos
  rw [value, abs_div, abs_of_nonneg (Real.sqrt_nonneg _), div_mul_div_comm,
    Real.mul_self_sqrt hpos.le]
  push_cast
  rfl

theorem lt_iff (s t : Score) : s.lt t = true ↔ s.value < t.value := by
  rw [← strictMono_mul_abs.lt_iff_lt]
  rw [value_mul_abs, value_mul_abs, Rat.cast_lt, div_lt_div_iff₀ s.pos t.pos, lt, decide_eq_true_eq]

end Score

def dotProduct (a b : List ℚ) : ℚ := (List.zipWith (· * ·) a b).sum

def squaredNorm (a : List ℚ) : ℚ := (a.map fun x ↦ x * x).sum

/-- `cosine_similarity`, in exact arithmetic. -/
noncomputable def cosineSimilarity (a b : List ℚ) : ℝ :=
  if a.length ≠ b.length then 0
  else if squaredNorm a ≤ 0 ∨ squaredNorm b ≤ 0 then 0
  else dotProduct a b / (√(squaredNorm a : ℝ) * √(squaredNorm b : ℝ))

def cosineScore (a b : List ℚ) : Score :=
  if a.length ≠ b.length then .ofRat 0
  else if h : squaredNorm a ≤ 0 ∨ squaredNorm b ≤ 0 then .ofRat 0
  else ⟨dotProduct a b, squaredNorm a * squaredNorm b, by
    rw [not_or, not_le, not_le] at h
    exact mul_pos h.1 h.2⟩

theorem value_cosineScore (a b : List ℚ) : (cosineScore a b).value = cosineSimilarity a b := by
  rw [cosineScore, cosineSimilarity]
  split_ifs with hlength hnorm
  · simp
  · simp
  · rw [not_or, not_le, not_le] at hnorm
    have hpos : (0 : ℝ) ≤ squaredNorm a := by exact_mod_cast hnorm.1.le
    rw [Score.value, Rat.cast_mul, Real.sqrt_mul hpos]

end Semantic
