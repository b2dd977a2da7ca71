import Mathlib

/-!
# JSON text in ASCII

Strings are written as `json.dumps` writes them: everything outside printable ASCII becomes an
escape of UTF-16 units.  `unescape` reads one character back, so that texts in sequence can be
told apart.
-/

namespace JsonText

def quote : Char := Char.ofNat 34

def backslash : Char := Char.ofNat 92

/-- The characters with an escape of one letter. -/
def short : List (Char × Char) :=
  [(quote, quote), (backslash, backslash), (Char.ofNat 10, 'n'), (Char.ofNat 13, 'r'),
    (Char.ofNat 9, 't'), (Char.ofNat 12, 'f'), (Char.ofNat 8, 'b')]

def hex4 (n : ℕ) : List Char :=
  [Nat.digitChar (n / 4096 % 16), Nat.digitChar (n / 256 % 16), Nat.digitChar (n / 16 % 16),
    Nat.digitChar (n % 16)]

/-- One UTF-16 unit. -/
def codeUnit (n : ℕ) : List Char := backslash :: 'u' :: hex4 n

def escape (c : Char) : List Char :=
  match short.lookup c with
  | some letter => [backslash, letter]
  | none =>
      if 0x20 ≤ c.toNat ∧ c.toNat ≤ 0x7e then [c]
      else if c.toNat < 0x10000 then codeUnit c.toNat
      else codeUnit (0xd800 + (c.toNat - 0x10000) / 0x400) ++
        codeUnit (0xdc00 + (c.toNat - 0x10000) % 0x400)

def string (s : String) : List Char := quote :: (s.toList.flatMap escape ++ [quote])

/-- A string, or `null`. -/
def value : Option String → List Char
  | none => ['n', 'u', 'l', 'l']
  | some s => string s

def elements : List (Option String) → List Char
  | [] => []
  | [x] => value x
  | x :: y :: xs => value x ++ ',' :: elements (y :: xs)

/-- An array with compact separators. -/
def array (xs : List (Option String)) : List Char := '[' :: (elements xs ++ [']'])

/-! ### Reading -/

def digitValue (c : Char) : Option ℕ := (List.range 16).find? fun n ↦ Nat.digitChar n = c.toLower

def readHex4 : List Char → Option (ℕ × List Char)
  | a :: b :: c :: d :: l => do
      let a ← digitValue a
      let b ← digitValue b
      let c ← digitValue c
      let d ← digitValue d
      pure (((a * 16 + b) * 16 + c) * 16 + d, l)
  | _ => none

def readCodeUnit : List Char → Option (ℕ × List Char)
  | a :: b :: l => if a = backslash ∧ b = 'u' then readHex4 l else none
  | _ => none

/-- The first character of an escaped text and the rest; nothing at the closing quote, and nothing
for a surrogate without its pair. -/
def unescape (l : List Char) : Option (Char × List Char) :=
  match readCodeUnit l with
  | some (n, rest) =>
      if 0xd800 ≤ n ∧ n < 0xdc00 then
        (readCodeUnit rest).bind fun low ↦
          if 0xdc00 ≤ low.1 ∧ low.1 < 0xe000 then
            some (Char.ofNat (0x10000 + (n - 0xd800) * 0x400 + (low.1 - 0xdc00)), low.2)
          else none
      else if 0xdc00 ≤ n ∧ n < 0xe000 then none
      else some (Char.ofNat n, rest)
  | none =>
      match l with
      | [] => none
      | a :: rest =>
          if a = quote then none
          else if a = backslash then
            rest.head?.bind fun letter ↦
              (short.find? fun entry ↦ entry.2 = letter).map fun entry ↦ (entry.1, rest.tail)
          else some (a, rest)

theorem digitValue_digitChar {n : ℕ} (h : n < 16) : digitValue (Nat.digitChar n) = some n := by
  interval_cases n <;> decide

theorem readCodeUnit_codeUnit {n : ℕ} (h : n < 0x10000) (l : List Char) :
    readCodeUnit (codeUnit n ++ l) = some (n, l) := by
  have hdigit : ∀ m, digitValue (Nat.digitChar (m % 16)) = some (m % 16) :=
    fun m ↦ digitValue_digitChar (Nat.mod_lt m (by norm_num))
  have hsum : ((n / 4096 % 16 * 16 + n / 256 % 16) * 16 + n / 16 % 16) * 16 + n % 16 = n := by
    omega
  simp [codeUnit, hex4, readCodeUnit, readHex4, hdigit, hsum]

theorem not_surrogate (c : Char) : ¬ (0xd800 ≤ c.toNat ∧ c.toNat < 0xe000) := by
  rcases c.valid with h | h
  · have h' : c.toNat < 0xd800 := h
    omega
  · have h' : 0xdfff < c.toNat := h.1
    omega

theorem toNat_lt (c : Char) : c.toNat < 0x110000 := by
  rcases c.valid with h | h
  · have h' : c.toNat < 0xd800 := h
    omega
  · exact h.2

theorem lookup_short {c letter : Char} (h : short.lookup c = some letter) : (c, letter) ∈ short := by
  have hmem := List.lookup_eq_some_iff.mp h
  obtain ⟨l₁, l₂, heq, -⟩ := hmem
  rw [heq]
  simp

theorem unescape_short {c letter : Char} (h : (c, letter) ∈ short) (l : List Char) :
    unescape (backslash :: letter :: l) = some (c, l) := by
  simp only [short, List.mem_cons, Prod.mk.injEq, List.not_mem_nil, or_false] at h
  rcases h with ⟨rfl, rfl⟩ | ⟨rfl, rfl⟩ | ⟨rfl, rfl⟩ | ⟨rfl, rfl⟩ | ⟨rfl, rfl⟩ | ⟨rfl, rfl⟩ | ⟨rfl, rfl⟩ <;>
    rfl

theorem unescape_plain {c : Char} (hquote : c ≠ quote) (hback : c ≠ backslash) (l : List Char) :
    unescape (c :: l) = some (c, l) := by
  have hunit : readCodeUnit (c :: l) = none := by
    cases l with
    | nil => rfl
    | cons b l =>
        rw [readCodeUnit, if_neg]
        exact fun h ↦ hback h.1
  unfold unescape
  rw [hunit]
  simp [hquote, hback]

theorem unescape_unit {n : ℕ} (h : n < 0x10000) (hplain : ¬ (0xd800 ≤ n ∧ n < 0xe000))
    (l : List Char) : unescape (codeUnit n ++ l) = some (Char.ofNat n, l) := by
  unfold unescape
  rw [readCodeUnit_codeUnit h]
  dsimp only
  rw [if_neg (by omega), if_neg (by omega)]

theorem unescape_pair {n m : ℕ} (hn : 0xd800 ≤ n ∧ n < 0xdc00) (hm : 0xdc00 ≤ m ∧ m < 0xe000)
    (l : List Char) :
    unescape (codeUnit n ++ (codeUnit m ++ l)) =
      some (Char.ofNat (0x10000 + (n - 0xd800) * 0x400 + (m - 0xdc00)), l) := by
  unfold unescape
  rw [readCodeUnit_codeUnit (by omega)]
  dsimp only
  rw [if_pos hn, readCodeUnit_codeUnit (by omega), Option.bind_some, if_pos hm]

/-- A character is read back from its escape. -/
theorem unescape_escape (c : Char) (l : List Char) : unescape (escape c ++ l) = some (c, l) := by
  unfold escape
  split
  next letter h => exact unescape_short (lookup_short h) l
  next h =>
    split_ifs with hprint hsmall
    · refine unescape_plain ?_ ?_ l
      · rintro rfl
        cases h
      · rintro rfl
        cases h
    · have hlow := not_surrogate c
      rw [unescape_unit hsmall (by omega), Char.ofNat_toNat]
    · have hlt := toNat_lt c
      have hsum : 0x10000 + (0xd800 + (c.toNat - 0x10000) / 0x400 - 0xd800) * 0x400 +
          (0xdc00 + (c.toNat - 0x10000) % 0x400 - 0xdc00) = c.toNat := by omega
      rw [List.append_assoc, unescape_pair (by omega) (by omega), hsum, Char.ofNat_toNat]

theorem unescape_quote (l : List Char) : unescape (quote :: l) = none := by
  have hunit : readCodeUnit (quote :: l) = none := by
    cases l with
    | nil => rfl
    | cons b l =>
        rw [readCodeUnit, if_neg]
        exact fun h ↦ absurd h.1 (by decide)
  unfold unescape
  rw [hunit]
  rfl

/-! ### Telling texts apart -/

theorem flatMap_escape_inj {s t : List Char} {x y : List Char}
    (h : s.flatMap escape ++ quote :: x = t.flatMap escape ++ quote :: y) : s = t ∧ x = y := by
  induction s generalizing t with
  | nil =>
      cases t with
      | nil => exact ⟨rfl, (List.cons.inj h).2⟩
      | cons d t =>
          have hread := congrArg unescape h
          rw [List.flatMap_cons, List.append_assoc, unescape_escape] at hread
          exact absurd ((unescape_quote x).symm.trans hread) (by simp)
  | cons c s ih =>
      cases t with
      | nil =>
          have hread := congrArg unescape h
          rw [List.flatMap_cons, List.append_assoc, unescape_escape] at hread
          exact absurd (hread.trans (unescape_quote y)) (by simp)
      | cons d t =>
          have hread := congrArg unescape h
          rw [List.flatMap_cons, List.append_assoc, unescape_escape, List.flatMap_cons,
            List.append_assoc, unescape_escape] at hread
          simp only [Option.some.injEq, Prod.mk.injEq] at hread
          obtain ⟨rfl, hrest⟩ := hread
          obtain ⟨rfl, hxy⟩ := ih hrest
          exact ⟨rfl, hxy⟩

theorem string_append_inj {s t : String} {x y : List Char} (h : string s ++ x = string t ++ y) :
    s = t ∧ x = y := by
  have htail : s.toList.flatMap escape ++ quote :: x = t.toList.flatMap escape ++ quote :: y := by
    simpa [string] using h
  obtain ⟨hchars, hrest⟩ := flatMap_escape_inj htail
  exact ⟨String.toList_injective hchars, hrest⟩

theorem value_append_inj {s t : Option String} {x y : List Char}
    (h : value s ++ x = value t ++ y) : s = t ∧ x = y := by
  cases s with
  | none =>
      cases t with
      | none => exact ⟨rfl, List.append_cancel_left h⟩
      | some t => exact absurd (List.cons.inj h).1 (by decide)
  | some s =>
      cases t with
      | none => exact absurd (List.cons.inj h).1 (by decide)
      | some t =>
          obtain ⟨rfl, hrest⟩ := string_append_inj h
          exact ⟨rfl, hrest⟩

theorem value_head (s : Option String) (l : List Char) : ∃ c m, value s ++ l = c :: m ∧ c ≠ ']' := by
  cases s with
  | none => exact ⟨'n', _, rfl, by decide⟩
  | some s => exact ⟨quote, _, rfl, by decide⟩

theorem elements_cons (x : Option String) (xs : List (Option String)) :
    ∃ c m, elements (x :: xs) ++ [']'] = value x ++ c :: m ∧
      (c = ']' ∧ m = [] ∧ xs = [] ∨ c = ',' ∧ m = elements xs ++ [']'] ∧ xs ≠ []) := by
  cases xs with
  | nil => exact ⟨']', [], rfl, .inl ⟨rfl, rfl, rfl⟩⟩
  | cons y xs => exact ⟨',', _, List.append_assoc _ _ _, .inr ⟨rfl, rfl, by simp⟩⟩

theorem elements_inj {xs ys : List (Option String)}
    (h : elements xs ++ [']'] = elements ys ++ [']']) : xs = ys := by
  induction xs generalizing ys with
  | nil =>
      cases ys with
      | nil => rfl
      | cons y ys =>
          obtain ⟨c, m, hcons, -⟩ := elements_cons y ys
          obtain ⟨d, m', hvalue, hne⟩ := value_head y (c :: m)
          have hhead : [']'] = d :: m' := h.trans (hcons.trans hvalue)
          exact absurd (List.cons.inj hhead).1.symm hne
  | cons x xs ih =>
      obtain ⟨c, m, hcons, htail⟩ := elements_cons x xs
      cases ys with
      | nil =>
          obtain ⟨d, m', hvalue, hne⟩ := value_head x (c :: m)
          have hhead : [']'] = d :: m' := h.symm.trans (hcons.trans hvalue)
          exact absurd (List.cons.inj hhead).1.symm hne
      | cons y ys =>
          obtain ⟨c', m', hcons', htail'⟩ := elements_cons y ys
          obtain ⟨rfl, hrest⟩ := value_append_inj (hcons.symm.trans (h.trans hcons'))
          obtain ⟨hc, hm⟩ := List.cons.inj hrest
          rcases htail with ⟨rfl, -, rfl⟩ | ⟨rfl, rfl, -⟩
          · rcases htail' with ⟨-, -, rfl⟩ | ⟨rfl, -, -⟩
            · rfl
            · exact absurd hc (by decide)
          · rcases htail' with ⟨rfl, -, -⟩ | ⟨-, rfl, -⟩
            · exact absurd hc (by decide)
            · rw [ih hm]

theorem array_injective : Function.Injective array :=
  fun _ _ h ↦ elements_inj (List.cons.inj h).2

end JsonText
