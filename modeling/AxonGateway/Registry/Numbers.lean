import AxonGateway.Adapters.IndexedCalls
import AxonGateway.Lib.JsonSorted

/-!
# Numbers of a document

A finite number is the text that Python writes for it. How a text becomes a floating point number,
and an integer one, is left to the language.
-/

namespace AxonGateway.Registry

open PyValue Screening

inductive Raised where
  | valueError | typeError | keyError | overflowError | runtimeError
  deriving DecidableEq

/-- A floating point number by its `repr`. -/
inductive Double where
  | finite (text : Text)
  | nonFinite (text : Text)

namespace Double

def value : Double → Value
  | finite text => .number text
  | nonFinite text => .nonFinite text

def isFinite : Double → Bool
  | finite _ => true
  | nonFinite _ => false

end Double

/-- The text is the `repr` of a finite number with a fraction or an exponent. -/
structure IsRepr (decimal : Text → Double) (t : Text) : Prop where
  number : JsonText.IsNumber t
  noInteger : pyInt (.number t) = none
  read : decimal t = .finite t

/-- The conversions of the language. -/
structure Numbers where
  /-- The number that a text with a fraction or an exponent stands for. -/
  decimal : Text → Double
  /-- `float(n)` for an integer; nothing where it overflows. -/
  ofInt : ℤ → Option Text
  /-- `float(text)`; nothing where the text is no number. -/
  ofText : Text → Option Double
  /-- `int(text)`; nothing where the text is no integer. -/
  integerOf : Text → Option ℤ
  /-- `int(x)` for a finite number. -/
  trunc : Text → ℤ
  isRepr_ofInt : ∀ n t, ofInt n = some t → IsRepr decimal t
  isRepr_ofText : ∀ s t, ofText s = some (.finite t) → IsRepr decimal t
  integerOf_toString : ∀ n : ℕ, integerOf (toString n).toList = some (n : ℤ)
  isRepr_zero : IsRepr decimal "0.0".toList
  isRepr_one : IsRepr decimal "1.0".toList

namespace Numbers

variable (N : Numbers)

/-- A number that is read from JSON. -/
def read (t : Text) : Value :=
  match pyInt (.number t) with
  | some n => .number (toString n).toList
  | none => (N.decimal t).value

/-- `float(value)` -/
def float : Value → Except Raised Double
  | .bool b => .ok (.finite (if b then "1.0".toList else "0.0".toList))
  | .number t => match pyInt (.number t) with
      | some n => ((N.ofInt n).map Double.finite).elim (.error .overflowError) .ok
      | none => .ok (.finite t)
  | .nonFinite t => .ok (.nonFinite t)
  | .str t => (N.ofText t).elim (.error .valueError) .ok
  | _ => .error .typeError

/-- `int(value)` -/
def int : Value → Except Raised ℤ
  | .bool b => .ok (if b then 1 else 0)
  | .number t => .ok ((pyInt (.number t)).getD (N.trunc t))
  | .nonFinite t => .error (if t = "nan".toList then .valueError else .overflowError)
  | .str t => (N.integerOf t).elim (.error .valueError) .ok
  | _ => .error .typeError

variable {N}

theorem read_of_isRepr {t : Text} (h : IsRepr N.decimal t) : N.read t = .number t := by
  rw [read, h.noInteger, h.read]
  rfl

theorem isJson_of_isRepr {t : Text} (h : IsRepr N.decimal t) : JsonText.IsJson N.read (.number t) :=
  ⟨h.number, read_of_isRepr h⟩

theorem float_of_isRepr {t : Text} (h : IsRepr N.decimal t) :
    N.float (.number t) = .ok (.finite t) := by
  rw [float, h.noInteger]

/-- What `float` gives for a value of JSON is spelled as Python spells it. -/
theorem isRepr_of_float {v : Value} {t : Text} (hv : JsonText.IsJson N.read v)
    (h : N.float v = .ok (.finite t)) : IsRepr N.decimal t := by
  cases v with
  | bool b =>
      obtain rfl := Double.finite.inj (Except.ok.inj h)
      cases b
      · exact N.isRepr_zero
      · exact N.isRepr_one
  | number s =>
      obtain ⟨hnumber, hread⟩ := hv
      rw [float] at h
      cases hint : pyInt (.number s) with
      | some n =>
          rw [hint] at h
          dsimp only at h
          cases hof : N.ofInt n with
          | none =>
              rw [hof] at h
              cases h
          | some r =>
              rw [hof] at h
              obtain rfl := Double.finite.inj (Except.ok.inj h)
              exact N.isRepr_ofInt n r hof
      | none =>
          rw [hint] at h
          obtain rfl := Double.finite.inj (Except.ok.inj h)
          rw [read, hint] at hread
          refine ⟨hnumber, hint, ?_⟩
          cases hdecimal : N.decimal s with
          | finite r =>
              rw [hdecimal] at hread
              rw [Value.number.inj hread]
          | nonFinite r =>
              rw [hdecimal] at hread
              cases hread
  | str s =>
      rw [float] at h
      cases hof : N.ofText s with
      | none =>
          rw [hof] at h
          cases h
      | some d =>
          rw [hof] at h
          obtain rfl := Except.ok.inj h
          exact N.isRepr_ofText s t hof
  | _ => cases h

end Numbers

/-! ### Texts of integers -/

theorem head_toDigits_ne {k : ℕ} (h : 0 < k) : ∃ c l, Nat.toDigits 10 k = c :: l ∧ c ≠ '0' := by
  induction k using Nat.strong_induction_on with
  | _ k ih =>
      rw [Nat.toDigits_eq_if (by norm_num)]
      split_ifs with hlt
      · refine ⟨_, [], rfl, ?_⟩
        interval_cases k <;> decide
      · obtain ⟨c, l, heq, hc⟩ := ih (k / 10) (by omega) (by omega)
        exact ⟨c, l ++ [Nat.digitChar (k % 10)], by rw [heq, List.cons_append], hc⟩

theorem readInteger_toString (k : ℕ) :
    JsonText.readInteger (toString k).toList = some ((toString k).toList, []) := by
  obtain rfl | hk := Nat.eq_zero_or_pos k
  · rfl
  have hdigits : (toString k).toList = Nat.toDigits 10 k := Nat.toList_repr
  obtain ⟨c, l, heq, hc⟩ := head_toDigits_ne hk
  have hall : ∀ d ∈ (toString k).toList, d.isDigit = true := fun d hd ↦ Adapters.isDigit_of_mem hd
  rw [hdigits, heq] at hall ⊢
  have hrest : ∀ d ∈ l, d.isDigit = true := fun d hd ↦ hall d (List.mem_cons_of_mem _ hd)
  rw [JsonText.readInteger, if_neg hc, if_pos (hall c List.mem_cons_self),
    List.takeWhile_eq_self_iff.mpr hrest, List.dropWhile_eq_nil_iff.mpr hrest]

theorem isNumber_toString (n : ℤ) : JsonText.IsNumber (toString n).toList := by
  unfold JsonText.IsNumber JsonText.readNumber
  cases n with
  | ofNat k =>
      have htext : toString (Int.ofNat k) = toString k := rfl
      have hhead : (toString k).toList.head? ≠ some '-' := by
        intro hhead
        exact absurd (Adapters.isDigit_of_mem (List.mem_of_mem_head? hhead)) (by decide)
      rw [htext, if_neg hhead]
      change Option.map _ (JsonText.readInteger (toString k).toList) = _
      rw [readInteger_toString]
      simp [JsonText.readFraction, JsonText.readExponent]
  | negSucc k =>
      have htext : (toString (Int.negSucc k)).toList = '-' :: (toString (k + 1)).toList := by
        have happend : toString (Int.negSucc k) = "-" ++ toString (k + 1) := rfl
        rw [happend, String.toList_append]
        rfl
      have hne : Nat.toDigits 10 (k + 1) ≠ ['0'] := by
        obtain ⟨c, l, heq, hc⟩ := head_toDigits_ne (Nat.succ_pos k)
        rw [heq]
        exact fun h ↦ hc (List.cons.inj h).1
      rw [htext, List.head?_cons, if_pos rfl]
      change Option.map _ (JsonText.readInteger (toString (k + 1)).toList) = _
      rw [readInteger_toString]
      simp [JsonText.readFraction, JsonText.readExponent, hne]

theorem pyInt_toString (n : ℤ) : pyInt (.number (toString n).toList) = some n := by
  cases n with
  | ofNat k =>
      have htext : toString (Int.ofNat k) = toString k := rfl
      have hindex := Adapters.indexOr_toString k [] (k + 1)
      rw [indexOr, List.lookup_cons_self, Option.bind_some] at hindex
      rw [htext]
      cases hread : pyInt (.number (toString k).toList) with
      | none =>
          rw [hread, Option.getD_none] at hindex
          omega
      | some n =>
          rw [hread, Option.getD_some] at hindex
          rw [hindex]
          rfl
  | negSucc k =>
      have htext : (toString (Int.negSucc k)).toList = '-' :: (toString (k + 1)).toList := by
        have happend : toString (Int.negSucc k) = "-" ++ toString (k + 1) := rfl
        rw [happend, String.toList_append]
        rfl
      rw [htext, pyInt, Adapters.digitsValue_toString]
      rfl

/-- An integer is read as it is written. -/
theorem isJson_toString (N : Numbers) (n : ℤ) :
    JsonText.IsJson N.read (.number (toString n).toList) := by
  refine ⟨isNumber_toString n, ?_⟩
  rw [Numbers.read, pyInt_toString]

/-! ### Plain numbers -/

theorem isRepr_plain {t : Text} (hnumber : JsonText.IsNumber t) (hinteger : pyInt (.number t) = none) :
    IsRepr Double.finite t := ⟨hnumber, hinteger, rfl⟩

theorem isRepr_ofInt_plain (n : ℤ) (t : Text)
    (h : (if n = 1 then some "1.0".toList else none) = some t) : IsRepr Double.finite t := by
  split_ifs at h
  obtain rfl := Option.some.inj h
  exact isRepr_plain rfl rfl

/-- Numbers that are written as Python writes them, and no integer but one where a number with a
fraction is asked for. -/
def plainNumbers : Numbers where
  decimal := .finite
  ofInt n := if n = 1 then some "1.0".toList else none
  ofText _ := none
  integerOf t := pyInt (.number t)
  trunc _ := 0
  isRepr_ofInt := isRepr_ofInt_plain
  isRepr_ofText _ _ h := by cases h
  integerOf_toString n := pyInt_toString n
  isRepr_zero := isRepr_plain rfl rfl
  isRepr_one := isRepr_plain rfl rfl

end AxonGateway.Registry
