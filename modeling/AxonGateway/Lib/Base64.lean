import Mathlib

/-!
# Base64

Bytes are written with the alphabet for URLs, as `urlsafe_b64encode` does, and read as `b64decode`
does with `validate`.  The padding can be left out, since the length tells how much there was.
-/

namespace Base64

def alphabet : List Char :=
  "ABCDEFGHIJKLMNOPQRSTUVWXYZabcdefghijklmnopqrstuvwxyz0123456789-_".toList

def digit (n : ℕ) : Char := alphabet.getD n '='

/-- The value of a digit; `+` and `/` have those of `-` and `_`. -/
def digitValue (c : Char) : Option ℕ :=
  if c = '+' then some 62
  else if c = '/' then some 63
  else if c ∈ alphabet then some (alphabet.idxOf c) else none

/-- `urlsafe_b64encode` -/
def encode : List ℕ → List Char
  | [] => []
  | [a] => [digit (a / 4), digit (a % 4 * 16), '=', '=']
  | [a, b] => [digit (a / 4), digit (a % 4 * 16 + b / 16), digit (b % 16 * 4), '=']
  | a :: b :: c :: bytes =>
      digit (a / 4) :: digit (a % 4 * 16 + b / 16) :: digit (b % 16 * 4 + c / 64) ::
        digit (c % 64) :: encode bytes

/-- `b64decode`; nothing where it raises. -/
def decode : List Char → Option (List ℕ)
  | [] => some []
  | w :: x :: y :: z :: rest => do
      let w ← digitValue w
      let x ← digitValue x
      if y = '=' then
        if z = '=' ∧ rest = [] then some [w * 4 + x / 16] else none
      else do
        let y ← digitValue y
        if z = '=' then
          if rest = [] then some [w * 4 + x / 16, x % 16 * 16 + y / 4] else none
        else do
          let z ← digitValue z
          let bytes ← decode rest
          some ((w * 4 + x / 16) :: (x % 16 * 16 + y / 4) :: (y % 4 * 64 + z) :: bytes)
  | _ => none

/-- `rstrip("=")` -/
def strip (text : List Char) : List Char := text.rdropWhile (· == '=')

/-- The padding that belongs to a text without it. -/
def pad (text : List Char) : List Char := List.replicate ((4 - text.length % 4) % 4) '='

theorem digitValue_digit {n : ℕ} (h : n < 64) : digitValue (digit n) = some n := by
  have hall : ∀ n < 64, digitValue (digit n) = some n := by decide +kernel
  exact hall n h

theorem digit_mem {n : ℕ} (h : n < 64) : digit n ∈ alphabet := by
  have hall : ∀ n < 64, digit n ∈ alphabet := by decide +kernel
  exact hall n h

theorem padding_not_mem : '=' ∉ alphabet := by decide

theorem digit_ne {n : ℕ} (h : n < 64) : digit n ≠ '=' := by
  intro heq
  exact padding_not_mem (heq ▸ digit_mem h)

theorem decode_encode {bytes : List ℕ} (h : ∀ b ∈ bytes, b < 256) :
    decode (encode bytes) = some bytes := by
  induction bytes using encode.induct with
  | case1 => rfl
  | case2 a =>
      have ha := h a (by simp)
      simp [encode, decode, digitValue_digit (show a / 4 < 64 by omega),
        digitValue_digit (show a % 4 * 16 < 64 by omega)]
      omega
  | case3 a b =>
      have ha := h a (by simp)
      have hb := h b (by simp)
      simp [encode, decode, digitValue_digit (show a / 4 < 64 by omega),
        digitValue_digit (show a % 4 * 16 + b / 16 < 64 by omega),
        digitValue_digit (show b % 16 * 4 < 64 by omega),
        digit_ne (show b % 16 * 4 < 64 by omega)]
      omega
  | case4 a b c bytes ih =>
      have ha := h a (by simp)
      have hb := h b (by simp)
      have hc := h c (by simp)
      have hrest := ih fun x hx ↦ h x (by simp [hx])
      simp [encode, decode, digitValue_digit (show a / 4 < 64 by omega),
        digitValue_digit (show a % 4 * 16 + b / 16 < 64 by omega),
        digitValue_digit (show b % 16 * 4 + c / 64 < 64 by omega),
        digitValue_digit (show c % 64 < 64 by omega),
        digit_ne (show b % 16 * 4 + c / 64 < 64 by omega),
        digit_ne (show c % 64 < 64 by omega), hrest]
      omega

/-- Digits and then the padding. -/
theorem exists_digits {bytes : List ℕ} (h : ∀ b ∈ bytes, b < 256) :
    ∃ digits, (∀ c ∈ digits, c ∈ alphabet) ∧ digits.length = (4 * bytes.length + 2) / 3 ∧
      encode bytes = digits ++ List.replicate ((4 - digits.length % 4) % 4) '=' := by
  induction bytes using encode.induct with
  | case1 => exact ⟨[], by simp, rfl, rfl⟩
  | case2 a =>
      have ha := h a (by simp)
      refine ⟨[digit (a / 4), digit (a % 4 * 16)], ?_, by simp, rfl⟩
      simp [digit_mem (show a / 4 < 64 by omega), digit_mem (show a % 4 * 16 < 64 by omega)]
  | case3 a b =>
      have ha := h a (by simp)
      have hb := h b (by simp)
      refine ⟨[digit (a / 4), digit (a % 4 * 16 + b / 16), digit (b % 16 * 4)], ?_, by simp, rfl⟩
      simp [digit_mem (show a / 4 < 64 by omega), digit_mem (show a % 4 * 16 + b / 16 < 64 by omega),
        digit_mem (show b % 16 * 4 < 64 by omega)]
  | case4 a b c bytes ih =>
      have ha := h a (by simp)
      have hb := h b (by simp)
      have hc := h c (by simp)
      obtain ⟨digits, hdigits, hlength, heq⟩ := ih fun x hx ↦ h x (by simp [hx])
      refine ⟨digit (a / 4) :: digit (a % 4 * 16 + b / 16) :: digit (b % 16 * 4 + c / 64) ::
        digit (c % 64) :: digits, ?_, ?_, ?_⟩
      · simpa [digit_mem (show a / 4 < 64 by omega),
          digit_mem (show a % 4 * 16 + b / 16 < 64 by omega),
          digit_mem (show b % 16 * 4 + c / 64 < 64 by omega),
          digit_mem (show c % 64 < 64 by omega)] using hdigits
      · simp only [List.length_cons]
        omega
      · have hlen : (digits.length + 1 + 1 + 1 + 1) % 4 = digits.length % 4 := by omega
        simp [encode, heq, hlen]

theorem strip_append_replicate {digits : List Char} (h : ∀ c ∈ digits, c ∈ alphabet) (n : ℕ) :
    strip (digits ++ List.replicate n '=') = digits := by
  have hdigits : ∀ c ∈ digits.reverse, ¬ (c == '=') = true := by
    intro c hc heq
    rw [beq_iff_eq] at heq
    subst heq
    exact padding_not_mem (h _ (List.mem_reverse.mp hc))
  have hdrop : digits.reverse.dropWhile (· == '=') = digits.reverse := by
    cases hrev : digits.reverse with
    | nil => rfl
    | cons c rest =>
        rw [List.dropWhile_cons_of_neg]
        exact hdigits c (by rw [hrev]; exact List.mem_cons_self)
  have hpad : (List.replicate n '=' ++ digits.reverse).dropWhile (· == '=') = digits.reverse := by
    rw [List.dropWhile_append_of_pos, hdrop]
    intro c hc
    rw [List.eq_of_mem_replicate hc]
    rfl
  unfold strip List.rdropWhile
  rw [List.reverse_append, List.reverse_replicate, hpad, List.reverse_reverse]

/-- Bytes are read back from their text without padding. -/
theorem decode_strip_encode {bytes : List ℕ} (h : ∀ b ∈ bytes, b < 256) :
    decode (strip (encode bytes) ++ pad (strip (encode bytes))) = some bytes := by
  obtain ⟨digits, hdigits, -, heq⟩ := exists_digits h
  have hdecode := decode_encode h
  rw [heq] at hdecode ⊢
  rw [strip_append_replicate hdigits]
  exact hdecode

theorem mem_alphabet_of_strip {bytes : List ℕ} (h : ∀ b ∈ bytes, b < 256) :
    ∀ c ∈ strip (encode bytes), c ∈ alphabet := by
  obtain ⟨digits, hdigits, -, heq⟩ := exists_digits h
  rw [heq, strip_append_replicate hdigits]
  exact hdigits

theorem length_strip_encode {bytes : List ℕ} (h : ∀ b ∈ bytes, b < 256) :
    (strip (encode bytes)).length = (4 * bytes.length + 2) / 3 := by
  obtain ⟨digits, hdigits, hlength, heq⟩ := exists_digits h
  rw [heq, strip_append_replicate hdigits, hlength]

theorem pad_cons_four (a b c d : Char) (text : List Char) :
    pad (a :: b :: c :: d :: text) = pad text := by
  unfold pad
  rw [show (a :: b :: c :: d :: text).length = text.length + 4 from rfl, Nat.add_mod_right]

/-- The last bytes of a padded text come from its last two digits. -/
theorem ends_of_decode {p q : Char} (hp : p ≠ '=') (hq : q ≠ '=') :
    ∀ {init : List Char} {bytes : List ℕ},
    decode (init ++ [p, q] ++ pad (init ++ [p, q])) = some bytes →
    ∃ v w, digitValue p = some v ∧ digitValue q = some w ∧
      ((∃ front, bytes = front ++ [v * 4 + w / 16]) ∨
        (∃ front u, bytes = front ++ [u * 4 + v / 16, v % 16 * 16 + w / 4]) ∨
          ∃ front, bytes = front ++ [v % 4 * 64 + w])
  | [], bytes, h => by
      have hpad : pad [p, q] = ['=', '='] := rfl
      rw [List.nil_append, hpad] at h
      simp [decode, Option.bind_eq_some_iff] at h
      obtain ⟨v, hv, w, hw, rfl⟩ := h
      exact ⟨v, w, hv, hw, .inl ⟨[], rfl⟩⟩
  | [a], bytes, h => by
      have hpad : pad [a, p, q] = ['='] := rfl
      rw [List.singleton_append, hpad] at h
      simp [decode, Option.bind_eq_some_iff, hq] at h
      obtain ⟨u, -, v, hv, w, hw, rfl⟩ := h
      exact ⟨v, w, hv, hw, .inr (.inl ⟨[], u, rfl⟩)⟩
  | [a, b], bytes, h => by
      have hpad : pad [a, b, p, q] = [] := by simp [pad]
      rw [List.cons_append, List.singleton_append, hpad] at h
      simp [decode, Option.bind_eq_some_iff, hp, hq] at h
      obtain ⟨t, -, u, -, v, hv, w, hw, rfl⟩ := h
      exact ⟨v, w, hv, hw, .inr (.inr ⟨[_, _], rfl⟩)⟩
  | [a, b, c], bytes, h => by
      have hpad : pad [a, b, c, p, q] = ['=', '=', '='] := by simp [pad, List.replicate]
      have hequals : digitValue '=' = none := by decide
      simp only [List.cons_append, List.nil_append] at h
      rw [hpad] at h
      simp [decode, hequals] at h
  | a :: b :: c :: d :: init, bytes, h => by
      have hpad := pad_cons_four a b c d (init ++ [p, q])
      simp only [List.cons_append] at h hpad
      rw [hpad] at h
      simp [decode, Option.bind_eq_some_iff] at h
      obtain ⟨s, -, t, -, -, u, -, -, x, -, more, hmore, rfl⟩ := h
      have hinner : decode (init ++ [p, q] ++ pad (init ++ [p, q])) = some more := by
        rw [List.append_assoc]
        exact hmore
      obtain ⟨v, w, hv, hw, hends⟩ := ends_of_decode hp hq hinner
      refine ⟨v, w, hv, hw, ?_⟩
      rcases hends with ⟨front, rfl⟩ | ⟨front, y, rfl⟩ | ⟨front, rfl⟩
      · exact .inl ⟨_ :: _ :: _ :: front, rfl⟩
      · exact .inr (.inl ⟨_ :: _ :: _ :: front, y, rfl⟩)
      · exact .inr (.inr ⟨_ :: _ :: _ :: front, rfl⟩)
end Base64
