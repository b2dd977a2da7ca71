import Mathlib

/-!
# Double precision numbers and their shortest decimal texts

A finite double is a sign and a magnitude that rounding leaves alone, so a
magnitude that no double has cannot be built.  Rounding is to nearest, ties to
even, with gradual underflow.  The text of a double is the shortest decimal
that rounds to it; reading the text back gives the double again.
-/

namespace Binary64

/-- The nearest integer, the even one when two are equally near. -/
def roundHalfEven (q : ℚ) : ℤ :=
  let d := q - ⌊q⌋
  if d < 1 / 2 then ⌊q⌋ else if 1 / 2 < d then ⌊q⌋ + 1 else if ⌊q⌋ % 2 = 0 then ⌊q⌋ else ⌊q⌋ + 1

@[simp] theorem roundHalfEven_intCast (n : ℤ) : roundHalfEven n = n := by
  simp [roundHalfEven]

theorem roundHalfEven_nonneg {q : ℚ} (h : 0 ≤ q) : 0 ≤ roundHalfEven q := by
  have hfloor : 0 ≤ ⌊q⌋ := Int.floor_nonneg.mpr h
  simp only [roundHalfEven]
  split_ifs <;> omega

theorem roundHalfEven_le {q : ℚ} {n : ℤ} (h : q < n) : roundHalfEven q ≤ n := by
  have hfloor : ⌊q⌋ < n := Int.floor_lt.mpr h
  simp only [roundHalfEven]
  split_ifs <;> omega

/-- The exponent of the last place: 53 binary digits, but not below 2 ^ -1074. -/
def expo (q : ℚ) : ℤ := max (Int.log 2 q - 52) (-1074)

theorem neg_le_expo (q : ℚ) : -1074 ≤ expo q := le_max_right _ _

theorem lt_two_zpow_expo {q : ℚ} : q < 2 ^ (expo q + 53) := by
  have hlog : q < 2 ^ (Int.log 2 q + 1) := Int.lt_zpow_succ_log_self (by norm_num) q
  refine hlog.trans_le (zpow_le_zpow_right₀ (by norm_num) ?_)
  have hle : Int.log 2 q - 52 ≤ expo q := le_max_left _ _
  omega

/-- The nearest multiple of the last place. -/
def round (q : ℚ) : ℚ := roundHalfEven (q / 2 ^ expo q) * 2 ^ expo q

theorem round_nonneg {q : ℚ} (h : 0 ≤ q) : 0 ≤ round q := by
  have hpos : (0 : ℚ) < 2 ^ expo q := zpow_pos (by norm_num) _
  have hmant : (0 : ℤ) ≤ roundHalfEven (q / 2 ^ expo q) :=
    roundHalfEven_nonneg (div_nonneg h hpos.le)
  exact mul_nonneg (by exact_mod_cast hmant) hpos.le

/-- An integral multiple of its last place is left alone. -/
theorem round_eq_self {q : ℚ} {n : ℤ} (h : q = n * 2 ^ expo q) : round q = q := by
  have hne : (2 : ℚ) ^ expo q ≠ 0 := zpow_ne_zero _ (by norm_num)
  have hdiv : q / 2 ^ expo q = n := by
    rw [div_eq_iff hne]
    exact h
  rw [round, hdiv, roundHalfEven_intCast]
  exact h.symm

/-- A mantissa of at most 53 digits needs no rounding. -/
theorem round_mul_zpow {n e : ℤ} (hn : 0 < n) (hn' : n < 2 ^ 53) (he : -1074 ≤ e) :
    round (n * 2 ^ e) = n * 2 ^ e := by
  set q : ℚ := n * 2 ^ e with hq
  have hpos : 0 < q := mul_pos (by exact_mod_cast hn) (zpow_pos (by norm_num) _)
  have hlt : q < 2 ^ (e + 53) := by
    rw [hq, zpow_add₀ (by norm_num), mul_comm]
    apply mul_lt_mul_of_pos_left _ (zpow_pos (by norm_num) _)
    exact_mod_cast hn'
  have hlog : Int.log 2 q < e + 53 :=
    (Int.lt_zpow_iff_log_lt (by norm_num) hpos).mp (by exact_mod_cast hlt)
  have hexpo : expo q ≤ e := by
    apply max_le _ he
    omega
  apply round_eq_self (n := n * 2 ^ (e - expo q).toNat)
  have hsplit : (2 : ℚ) ^ e = 2 ^ (e - expo q).toNat * 2 ^ expo q := by
    rw [← zpow_natCast, ← zpow_add₀ (by norm_num)]
    congr 1
    omega
  push_cast
  rw [mul_assoc, ← hsplit]

theorem round_zero : round 0 = 0 := by
  simp [round, roundHalfEven]

/-- Rounding twice is rounding once. -/
theorem round_round {q : ℚ} (h : 0 ≤ q) : round (round q) = round q := by
  have hpos : (0 : ℚ) < 2 ^ expo q := zpow_pos (by norm_num) _
  set m := roundHalfEven (q / 2 ^ expo q) with hm
  have hround : round q = m * 2 ^ expo q := rfl
  have hnonneg : 0 ≤ m := roundHalfEven_nonneg (div_nonneg h hpos.le)
  have hle : m ≤ 2 ^ 53 := by
    apply roundHalfEven_le
    rw [div_lt_iff₀ hpos]
    have hlt := lt_two_zpow_expo (q := q)
    rw [zpow_add₀ (by norm_num), mul_comm] at hlt
    exact_mod_cast hlt
  rw [hround]
  rcases hnonneg.eq_or_lt with hzero | hmpos
  · rw [← hzero, Int.cast_zero, zero_mul, round_zero]
  · rcases hle.eq_or_lt with htop | hlt
    · -- the mantissa carried into a 54th digit, which is one place up
      have hcarry : ((m : ℤ) : ℚ) * 2 ^ expo q = ((2 ^ 52 : ℤ) : ℚ) * 2 ^ (expo q + 1) := by
        rw [htop, zpow_add₀ (by norm_num)]
        push_cast
        ring
      rw [hcarry]
      have hexpo := neg_le_expo q
      exact round_mul_zpow (by norm_num) (by norm_num) (by omega)
    · exact round_mul_zpow hmpos hlt (neg_le_expo q)

/-! ## Doubles -/

/-- A magnitude that some finite double has. -/
structure Magnitude where
  val : ℚ
  nonneg : 0 ≤ val
  exact : round val = val
  finite : val < 2 ^ 1024
  deriving DecidableEq

/-- A double; the infinities and the values that are not a number are one. -/
inductive PyFloat where
  | finite (neg : Bool) (mag : Magnitude)
  | nonFinite
  deriving DecidableEq

/-- A decimal number with its text: sign, digits and exponent. -/
structure Dec where
  neg : Bool
  coeff : ℕ
  exp : ℤ
  deriving DecidableEq, Repr

namespace Dec

def mag (d : Dec) : ℚ := d.coeff * 10 ^ d.exp

def val (d : Dec) : ℚ := if d.neg then -d.mag else d.mag

theorem mag_nonneg (d : Dec) : 0 ≤ d.mag :=
  mul_nonneg (Nat.cast_nonneg _) (zpow_nonneg (by norm_num) _)

end Dec

/-- The double of the given sign nearest to a magnitude, infinite from 2 ^ 1024 on. -/
def ofMag (neg : Bool) (q : ℚ) (hq : 0 ≤ q) : PyFloat :=
  if h : round q < 2 ^ 1024 then .finite neg ⟨round q, round_nonneg hq, round_round hq, h⟩
  else .nonFinite

def ofDec (d : Dec) : PyFloat := ofMag d.neg d.mag d.mag_nonneg

def ofRat (q : ℚ) : PyFloat := ofMag (decide (q < 0)) |q| (abs_nonneg q)

/-- The first of the given digits that rounds back to `q`. -/
def roundsBack (q : ℚ) (k : ℤ) (candidates : List ℕ) : Option ℕ :=
  candidates.find? fun c ↦ decide (round (c * 10 ^ k) = q)

/-- The shortest digits, with their exponent, that round back to `q`; of several
the nearest. -/
def shortestFrom (q : ℚ) : ℕ → ℕ → Option (ℕ × ℤ)
  | 0, _ => none
  | fuel + 1, n =>
      let k := Int.log 10 q - n + 1
      let z := q / 10 ^ k
      match roundsBack q k [(roundHalfEven z).toNat, ⌊z⌋.toNat, ⌊z⌋.toNat + 1] with
      | some c => some (if c = 10 ^ n then (1, k + n) else (c, k))
      | none => shortestFrom q fuel (n + 1)

/-- All digits of a binary number. -/
def exactDigits (q : ℚ) : ℕ × ℤ :=
  let m := (q / 2 ^ expo q).num.toNat
  if 0 ≤ expo q then (m * 2 ^ (expo q).toNat, 0) else (m * 5 ^ (-expo q).toNat, expo q)

/-- Digits and exponent of the text; seventeen digits are always enough. -/
def digits (q : ℚ) : ℕ × ℤ :=
  if q = 0 then (0, 0) else
    match shortestFrom q 17 1 with
    | some d => if round (d.1 * 10 ^ d.2) = q then d else exactDigits q
    | none => exactDigits q

/-- All digits of a magnitude give it back exactly. -/
theorem exactDigits_val {q : ℚ} (hq : 0 ≤ q) (h : round q = q) :
    ((exactDigits q).1 : ℚ) * 10 ^ (exactDigits q).2 = q := by
  set n := roundHalfEven (q / 2 ^ expo q) with hn
  have hpos : (0 : ℚ) < 2 ^ expo q := zpow_pos (by norm_num) _
  have hdiv : q / 2 ^ expo q = n := by
    rw [div_eq_iff hpos.ne']
    exact h.symm
  have hnonneg : 0 ≤ n := roundHalfEven_nonneg (div_nonneg hq hpos.le)
  have hnat : (((q / 2 ^ expo q).num.toNat : ℕ) : ℚ) = n := by
    rw [hdiv, Rat.num_intCast]
    exact_mod_cast Int.toNat_of_nonneg hnonneg
  have hval : q = n * 2 ^ expo q := h.symm
  unfold exactDigits
  split_ifs with he
  · obtain ⟨e, heq⟩ := Int.eq_ofNat_of_zero_le he
    push_cast
    rw [hnat, heq, Int.toNat_natCast, mul_one, ← zpow_natCast, ← heq]
    exact hval.symm
  · obtain ⟨e, heq⟩ := Int.eq_ofNat_of_zero_le (show 0 ≤ -expo q by omega)
    have hneg : expo q = -(e : ℤ) := by omega
    have hten : (10 : ℚ) ^ e = 5 ^ e * 2 ^ e := by rw [← mul_pow]; norm_num
    push_cast
    rw [hnat, heq, Int.toNat_natCast, hneg, zpow_neg, zpow_natCast, hten]
    conv_rhs => rw [hval, hneg, zpow_neg, zpow_natCast]
    field_simp

theorem round_digits {q : ℚ} (hq : 0 ≤ q) (h : round q = q) :
    round (((digits q).1 : ℚ) * 10 ^ (digits q).2) = q := by
  unfold digits
  split_ifs with hzero
  · rw [hzero]
    simp [round_zero]
  · split
    · split_ifs with hback
      · exact hback
      · rw [exactDigits_val hq h, h]
    · rw [exactDigits_val hq h, h]

/-- The notation of the text: with an exponent when the decimal point is far
from the digits, else with at least one digit after the point. -/
def layout (c : ℕ) (k : ℤ) : ℕ × ℤ :=
  let decpt := (Nat.digits 10 c).length + k
  if c ≠ 0 ∧ (decpt ≤ -4 ∨ 16 < decpt) then (c, k)
  else if 0 ≤ k then (c * 10 ^ (k + 1).toNat, -1) else (c, k)

theorem layout_val (c : ℕ) (k : ℤ) : ((layout c k).1 : ℚ) * 10 ^ (layout c k).2 = c * 10 ^ k := by
  simp only [layout]
  split_ifs with hexp hk
  · rfl
  · have hsplit : (10 : ℚ) ^ (k + 1).toNat = 10 ^ k * 10 := by
      rw [← zpow_natCast, Int.toNat_of_nonneg (by omega), zpow_add_one₀ (by norm_num)]
    push_cast
    rw [hsplit, zpow_neg_one]
    field_simp
  · rfl

/-- The decimal that `str` writes for a finite double. -/
def toDec (neg : Bool) (m : Magnitude) : Dec :=
  let d := layout (digits m.val).1 (digits m.val).2
  ⟨neg, d.1, d.2⟩

theorem round_mag_toDec (neg : Bool) (m : Magnitude) : round (toDec neg m).mag = m.val := by
  rw [Dec.mag, toDec, layout_val]
  exact round_digits m.nonneg m.exact

/-- The text of a double reads back as the double. -/
theorem ofDec_toDec (neg : Bool) (m : Magnitude) : ofDec (toDec neg m) = .finite neg m := by
  have hround := round_mag_toDec neg m
  have hfinite : round (toDec neg m).mag < 2 ^ 1024 := by
    rw [hround]
    exact m.finite
  rw [ofDec, ofMag, dif_pos hfinite]
  obtain ⟨val, nonneg, exact, finite⟩ := m
  simp only at hround
  simp only [hround]
  rfl

/-! ## Numbers with or without a fraction -/

/-- An integer of any size, or a double. -/
inductive PyNum where
  | int (n : ℤ)
  | float (x : PyFloat)
  deriving DecidableEq

/-- `Decimal(str(x))`, nothing for an infinity or what is not a number. -/
def PyNum.toDec : PyNum → Option Dec
  | int n => some ⟨decide (n < 0), n.natAbs, 0⟩
  | float (.finite neg m) => some (Binary64.toDec neg m)
  | float .nonFinite => none

/-- `float(d)` and back to the decimal of its text. -/
def throughFloat (d : Dec) : Option Dec := (PyNum.float (ofDec d)).toDec

/-- The decimal of a double survives. -/
theorem throughFloat_toDec (neg : Bool) (m : Magnitude) :
    throughFloat (toDec neg m) = some (toDec neg m) := by
  rw [throughFloat, ofDec_toDec, PyNum.toDec]

/-! ## Bounds of rounding from below -/

theorem le_roundHalfEven {q : ℚ} {j : ℤ} (h : (j : ℚ) - 1 / 2 < q) : j ≤ roundHalfEven q := by
  rcases le_or_gt j ⌊q⌋ with hle | hlt
  · simp only [roundHalfEven]
    split_ifs <;> omega
  · have hj : ((⌊q⌋ : ℤ) : ℚ) + 1 ≤ j := by exact_mod_cast hlt
    have hlow : q < ⌊q⌋ + 1 := Int.lt_floor_add_one q
    have hfloor : ⌊q⌋ + 1 = j := by
      refine le_antisymm hlt (Int.lt_add_one_iff.mp ?_)
      have : (j : ℚ) < ((⌊q⌋ + 1 + 1 : ℤ) : ℚ) := by push_cast; linarith
      exact_mod_cast this
    have hhalf : 1 / 2 < q - ⌊q⌋ := by
      have : (j : ℚ) = ⌊q⌋ + 1 := by exact_mod_cast hfloor.symm
      linarith
    simp only [roundHalfEven]
    rw [if_neg (by linarith), if_pos hhalf, hfloor]

/-- A tie goes up to an even number. -/
theorem even_le_roundHalfEven {q : ℚ} {j : ℤ} (hj : j % 2 = 0) (h : (j : ℚ) - 1 / 2 ≤ q) :
    j ≤ roundHalfEven q := by
  rcases h.lt_or_eq with hlt | rfl
  · exact le_roundHalfEven hlt
  · have hfloor : ⌊(j : ℚ) - 1 / 2⌋ = j - 1 := by
      rw [Int.floor_eq_iff]
      push_cast
      constructor <;> linarith
    have hodd : ¬ (j - 1) % 2 = 0 := by omega
    simp only [roundHalfEven, hfloor]
    push_cast
    rw [if_neg (by linarith), if_neg (by linarith), if_neg hodd]
    omega

/-- Between two powers of two the last place is known. -/
theorem expo_of_binade {q : ℚ} {e : ℕ} (hlow : (2 : ℚ) ^ e ≤ q) (hhigh : q < 2 ^ (e + 1)) :
    expo q = e - 52 := by
  have hpos : 0 < q := lt_of_lt_of_le (by positivity) hlow
  have hle : (e : ℤ) ≤ Int.log 2 q :=
    (Int.zpow_le_iff_le_log (by norm_num) hpos).mp (by exact_mod_cast hlow)
  have hlt : Int.log 2 q < (e + 1 : ℕ) :=
    (Int.lt_zpow_iff_log_lt (by norm_num) hpos).mp (by exact_mod_cast hhigh)
  rw [expo, max_eq_left (by omega)]
  push_cast at hlt
  omega

theorem round_of_binade {q : ℚ} {e d : ℕ} (hd : e + d = 52) (hlow : (2 : ℚ) ^ e ≤ q)
    (hhigh : q < 2 ^ (e + 1)) : round q = roundHalfEven (q * 2 ^ d) / 2 ^ d := by
  have hplace : (2 : ℚ) ^ expo q = (2 ^ d)⁻¹ := by
    rw [expo_of_binade hlow hhigh, ← zpow_natCast, ← zpow_neg]
    congr 1
    omega
  rw [round, hplace, div_inv_eq_mul, ← div_eq_mul_inv]

theorem le_round_of_binade {q : ℚ} {e d : ℕ} (hd : e + d = 52) (hlow : (2 : ℚ) ^ e ≤ q)
    (hhigh : q < 2 ^ (e + 1)) {j : ℤ} (h : (j : ℚ) - 1 / 2 < q * 2 ^ d) : (j : ℚ) / 2 ^ d ≤ round q := by
  rw [round_of_binade hd hlow hhigh]
  have hmant : ((j : ℤ) : ℚ) ≤ roundHalfEven (q * 2 ^ d) := by exact_mod_cast le_roundHalfEven h
  exact div_le_div_of_nonneg_right hmant (by positivity)

theorem even_le_round_of_binade {q : ℚ} {e d : ℕ} (hd : e + d = 52) (hlow : (2 : ℚ) ^ e ≤ q)
    (hhigh : q < 2 ^ (e + 1)) {j : ℤ} (hj : j % 2 = 0) (h : (j : ℚ) - 1 / 2 ≤ q * 2 ^ d) :
    (j : ℚ) / 2 ^ d ≤ round q := by
  rw [round_of_binade hd hlow hhigh]
  have hmant : ((j : ℤ) : ℚ) ≤ roundHalfEven (q * 2 ^ d) := by
    exact_mod_cast even_le_roundHalfEven hj h
  exact div_le_div_of_nonneg_right hmant (by positivity)

/-- Rounding does not go below a natural number of at most 53 digits. -/
theorem natCast_le_round {m : ℕ} (hm : m ≤ 2 ^ 52) {q : ℚ} (h : (m : ℚ) ≤ q) : (m : ℚ) ≤ round q := by
  rcases Nat.eq_zero_or_pos m with rfl | hpos
  · exact_mod_cast round_nonneg (by exact_mod_cast h)
  have hq : 0 < q := lt_of_lt_of_le (by exact_mod_cast hpos) h
  have hlast : (0 : ℚ) < 2 ^ expo q := zpow_pos (by norm_num) _
  rcases le_or_gt (expo q) 0 with hneg | hexpo
  · obtain ⟨d, hd⟩ : ∃ d : ℕ, expo q = -d := ⟨(-expo q).toNat, by omega⟩
    have hplace : (2 : ℚ) ^ expo q = (2 ^ d)⁻¹ := by rw [hd, zpow_neg, zpow_natCast]
    have hmant : ((m * 2 ^ d : ℕ) : ℤ) ≤ roundHalfEven (q * 2 ^ d) := by
      apply le_roundHalfEven
      have hscaled : (m : ℚ) * 2 ^ d ≤ q * 2 ^ d := mul_le_mul_of_nonneg_right h (by positivity)
      push_cast
      linarith
    have hmant' : (m : ℚ) * 2 ^ d ≤ roundHalfEven (q * 2 ^ d) := by exact_mod_cast hmant
    rw [round, hplace, div_inv_eq_mul, ← div_eq_mul_inv, le_div_iff₀ (by positivity)]
    exact hmant'
  · have hlog : expo q = Int.log 2 q - 52 := by
      rw [expo] at hexpo ⊢
      omega
    have htop : (2 : ℚ) ^ (52 : ℕ) ≤ q / 2 ^ expo q := by
      rw [le_div_iff₀ hlast, ← zpow_natCast, ← zpow_add₀ (by norm_num), hlog]
      refine le_trans (le_of_eq ?_) (Int.zpow_log_le_self (b := 2) (by norm_num) hq)
      congr 1
      omega
    have hmant : ((2 ^ 52 : ℕ) : ℤ) ≤ roundHalfEven (q / 2 ^ expo q) := by
      apply le_roundHalfEven
      push_cast
      linarith
    have hmant' : (2 : ℚ) ^ 52 ≤ roundHalfEven (q / 2 ^ expo q) := by exact_mod_cast hmant
    have hone : (1 : ℚ) ≤ 2 ^ expo q := one_le_zpow₀ (by norm_num) hexpo.le
    calc (m : ℚ) ≤ 2 ^ 52 := by exact_mod_cast hm
      _ = 2 ^ 52 * 1 := (mul_one _).symm
      _ ≤ roundHalfEven (q / 2 ^ expo q) * 2 ^ expo q :=
          mul_le_mul hmant' hone (by norm_num) (le_trans (by norm_num) hmant')

end Binary64
