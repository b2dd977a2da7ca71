import AxonGateway.Lib.Binary64
import AxonGateway.Lib.JsonText
import AxonGateway.Lib.PyValue

/-!
# Reading JSON

`loads` reads a value as `json.loads` does.  `Reads t v` says that a text is read as a value
wherever it stands; an object reads when its members do.
-/

namespace JsonText

open PyValue

def isBlank (c : Char) : Bool :=
  c == ' ' || c == Char.ofNat 9 || c == Char.ofNat 10 || c == Char.ofNat 13

def skipBlanks (l : List Char) : List Char := l.dropWhile isBlank

def openBrace : Char := Char.ofNat 123

def closeBrace : Char := Char.ofNat 125

/-- A slash may be escaped too. -/
def readChar : List Char → Option (Char × List Char)
  | a :: b :: rest => if a = backslash ∧ b = '/' then some (b, rest) else unescape (a :: b :: rest)
  | l => unescape l

/-- The characters of a string up to its closing quote. -/
def readChars : ℕ → List Char → Option (Text × List Char)
  | fuel + 1, c :: rest =>
      if c = quote then some ([], rest)
      else if c.toNat < 0x20 then none
      else
        (readChar (c :: rest)).bind fun (d, rest) ↦
          (readChars fuel rest).map fun (text, rest) ↦ (d :: text, rest)
  | _, _ => none

/-- A mark and the digits behind it, where there are any. -/
def readDigits (mark : Text) (l : List Char) : Option (Text × List Char) :=
  let digits := l.takeWhile Char.isDigit
  if digits.isEmpty then none else some (mark ++ digits, l.dropWhile Char.isDigit)

def readFraction : List Char → Option (Text × List Char)
  | c :: l => if c = '.' then readDigits [c] l else none
  | [] => none

def readExponent : List Char → Option (Text × List Char)
  | c :: d :: l =>
      if c = 'e' ∨ c = 'E' then
        if d = '+' ∨ d = '-' then readDigits [c, d] l else readDigits [c] (d :: l)
      else none
  | _ => none

/-- The integer part of a number. -/
def readInteger : List Char → Option (Text × List Char)
  | c :: l =>
      if c = '0' then some ([c], l)
      else if c.isDigit then some (c :: l.takeWhile Char.isDigit, l.dropWhile Char.isDigit)
      else none
  | [] => none

/-- A number keeps the text it was written with, but for a zero with a sign. -/
def readNumber (l : List Char) : Option (Value × List Char) :=
  let sign : Text := if l.head? = some '-' then ['-'] else []
  (readInteger (l.drop sign.length)).map fun (digits, l) ↦
    let (fraction, l) := (readFraction l).getD ([], l)
    let (exponent, l) := (readExponent l).getD ([], l)
    if fraction ++ exponent = [] ∧ digits = ['0'] then (.number digits, l)
    else (.number (sign ++ digits ++ fraction ++ exponent), l)

def readWord (word : String) (v : Value) (l : List Char) : Option (Value × List Char) :=
  if word.toList <+: l then some (v, l.drop word.length) else none

/-- The values that have a name. -/
def readNamed (l : List Char) : Option (Value × List Char) :=
  readWord "null" .null l <|> readWord "true" (.bool true) l <|> readWord "false" (.bool false) l <|>
    readWord "NaN" (.nonFinite "nan".toList) l <|>
      readWord "Infinity" (.nonFinite "inf".toList) l <|>
        readWord "-Infinity" (.nonFinite "-inf".toList) l

mutual

def readValue : ℕ → List Char → Option (Value × List Char)
  | fuel + 1, c :: rest =>
      if c = quote then (readChars fuel rest).map fun (text, rest) ↦ (.str text, rest)
      else if c = '[' then
        if (skipBlanks rest).head? = some ']' then some (.arr [], (skipBlanks rest).tail)
        else (readItems fuel (skipBlanks rest)).map fun (items, rest) ↦ (.arr items, rest)
      else if c = openBrace then
        if (skipBlanks rest).head? = some closeBrace then some (.obj [], (skipBlanks rest).tail)
        else
          (readMembers fuel (skipBlanks rest)).map fun (members, rest) ↦
            (.obj (members.foldl (fun d m ↦ set d m.1 m.2) []), rest)
      else (readNamed (c :: rest)).or (readNumber (c :: rest))
  | _, _ => none

def readItems : ℕ → List Char → Option (List Value × List Char)
  | fuel + 1, l =>
      (readValue fuel l).bind fun (item, rest) ↦
        match skipBlanks rest with
        | c :: rest =>
            if c = ']' then some ([item], rest)
            else if c = ',' then
              (readItems fuel (skipBlanks rest)).map fun (items, rest) ↦ (item :: items, rest)
            else none
        | [] => none
  | 0, _ => none

def readMembers : ℕ → List Char → Option (List (Text × Value) × List Char)
  | fuel + 1, l =>
      if l.head? = some quote then
        (readChars fuel l.tail).bind fun (key, rest) ↦
          if (skipBlanks rest).head? = some ':' then
            (readValue fuel (skipBlanks (skipBlanks rest).tail)).bind fun (v, rest) ↦
              match skipBlanks rest with
              | c :: rest =>
                  if c = closeBrace then some ([(key, v)], rest)
                  else if c = ',' then
                    (readMembers fuel (skipBlanks rest)).map fun (members, rest) ↦
                      ((key, v) :: members, rest)
                  else none
              | [] => none
          else none
      else none
  | 0, _ => none

end

/-- `json.loads`; nothing where it raises. -/
def loads (l : List Char) : Option Value :=
  (readValue (l.length + 1) (skipBlanks l)).bind fun (v, rest) ↦
    if (skipBlanks rest).isEmpty then some v else none

/-! ### Equality with one -/

/-- The number that digits with a fraction and an exponent write. -/
def decimal (text : Text) : ℚ :=
  let mantissa := text.takeWhile fun c ↦ c ≠ 'e' ∧ c ≠ 'E'
  let whole := mantissa.takeWhile (· ≠ '.')
  let fraction := (mantissa.dropWhile (· ≠ '.')).tail
  let exponent := (String.ofList (text.drop (mantissa.length + 1))).toInt?.getD 0
  ((whole ++ fraction).foldl (fun n c ↦ n * 10 + (c.toNat - '0'.toNat)) 0 : ℕ) *
    10 ^ (exponent - fraction.length)

/-- `value == 1` -/
def isOne : Value → Bool
  | .bool b => b
  | .number text =>
      text = ['1'] ∨
        (text.any fun c ↦ c = '.' ∨ c = 'e' ∨ c = 'E') ∧ text.head? ≠ some '-' ∧
          Binary64.round (decimal text) = 1
  | _ => false

/-! ### What was written is read -/

theorem readChar_of_unescape {l : List Char} {x : Char × List Char} (h : unescape l = some x) :
    readChar l = some x := by
  match l with
  | [] => exact h
  | [_] => exact h
  | a :: b :: rest =>
      simp only [readChar]
      split_ifs with hslash
      · obtain ⟨rfl, rfl⟩ := hslash
        cases h
      · exact h

theorem escape_head (c : Char) (l : List Char) :
    ∃ a m, escape c ++ l = a :: m ∧ a ≠ quote ∧ ¬ a.toNat < 0x20 := by
  unfold escape
  split
  next letter h => exact ⟨backslash, letter :: l, rfl, by decide, by decide⟩
  next h =>
    split_ifs with hprint hsmall
    · refine ⟨c, l, rfl, ?_, by omega⟩
      rintro rfl
      cases h
    · exact ⟨backslash, _, rfl, by decide, by decide⟩
    · exact ⟨backslash, _, rfl, by decide, by decide⟩

theorem length_escape_pos (c : Char) : 0 < (escape c).length := by
  obtain ⟨a, m, heq, -, -⟩ := escape_head c []
  rw [List.append_nil] at heq
  rw [heq]
  exact Nat.succ_pos _

theorem length_le_flatMap_escape (s : Text) : s.length ≤ (s.flatMap escape).length := by
  induction s with
  | nil => exact le_rfl
  | cons c s ih =>
      have hpos := length_escape_pos c
      rw [List.flatMap_cons, List.length_append, List.length_cons]
      omega

theorem readChars_escape (s rest : Text) {fuel : ℕ} (h : s.length < fuel) :
    readChars fuel (s.flatMap escape ++ quote :: rest) = some (s, rest) := by
  induction s generalizing fuel with
  | nil =>
      obtain ⟨fuel, rfl⟩ := Nat.exists_eq_succ_of_ne_zero (Nat.ne_of_gt h)
      rfl
  | cons c s ih =>
      obtain ⟨fuel, rfl⟩ := Nat.exists_eq_succ_of_ne_zero (Nat.ne_of_gt (Nat.zero_lt_of_lt h))
      have hread := readChar_of_unescape (unescape_escape c (s.flatMap escape ++ quote :: rest))
      obtain ⟨a, m, heq, hquote, hcontrol⟩ := escape_head c (s.flatMap escape ++ quote :: rest)
      rw [List.flatMap_cons, List.append_assoc, heq, readChars, if_neg hquote, if_neg hcontrol,
        ← heq, hread, Option.bind_some]
      dsimp only
      rw [ih (Nat.lt_of_succ_lt_succ h)]
      rfl

/-- A string with its quotes. -/
def text (s : Text) : Text := quote :: (s.flatMap escape ++ [quote])

def memberList (members : List (Text × Text)) : Text :=
  joined [','] (members.map fun m ↦ text m.1 ++ ':' :: m.2)

/-- An object with compact separators. -/
def object (members : List (Text × Text)) : Text := openBrace :: (memberList members ++ [closeBrace])

/-- Printable ASCII. -/
def Plain (t : Text) : Prop := ∀ c ∈ t, 0x20 ≤ c.toNat ∧ c.toNat ≤ 0x7e

theorem Plain.append {s t : Text} (hs : Plain s) (ht : Plain t) : Plain (s ++ t) := by
  intro c hc
  rcases List.mem_append.mp hc with hc | hc
  · exact hs c hc
  · exact ht c hc

theorem Plain.cons {c : Char} {t : Text} (hc : 0x20 ≤ c.toNat ∧ c.toNat ≤ 0x7e) (ht : Plain t) :
    Plain (c :: t) := by
  intro d hd
  rcases List.mem_cons.mp hd with rfl | hd
  · exact hc
  · exact ht d hd

theorem plain_nil : Plain [] := by
  intro c hc
  cases hc

theorem plain_codeUnit (n : ℕ) : Plain (codeUnit n) := by
  have hdigit : ∀ m < 16, 0x20 ≤ (Nat.digitChar m).toNat ∧ (Nat.digitChar m).toNat ≤ 0x7e := by
    decide
  have hmod : ∀ m, 0x20 ≤ (Nat.digitChar (m % 16)).toNat ∧ (Nat.digitChar (m % 16)).toNat ≤ 0x7e :=
    fun m ↦ hdigit _ (Nat.mod_lt m (by norm_num))
  exact .cons (by decide) (.cons (by decide) (.cons (hmod _) (.cons (hmod _) (.cons (hmod _)
    (.cons (hmod _) plain_nil)))))

theorem plain_escape (c : Char) : Plain (escape c) := by
  unfold escape
  split
  next letter h =>
    have hletter : ∀ entry ∈ short, 0x20 ≤ entry.2.toNat ∧ entry.2.toNat ≤ 0x7e := by decide
    exact .cons (by decide) (.cons (hletter _ (lookup_short h)) plain_nil)
  next h =>
    split_ifs with hprint hsmall
    · exact .cons hprint plain_nil
    · exact plain_codeUnit _
    · exact (plain_codeUnit _).append (plain_codeUnit _)

theorem plain_text (s : Text) : Plain (text s) := by
  refine .cons (by decide) (.append ?_ (.cons (by decide) plain_nil))
  intro c hc
  obtain ⟨d, -, hc⟩ := List.mem_flatMap.mp hc
  exact plain_escape d c hc

theorem plain_memberList {members : List (Text × Text)} (h : ∀ m ∈ members, Plain m.2) :
    Plain (memberList members) := by
  unfold memberList
  induction members with
  | nil => exact plain_nil
  | cons m members ih =>
      have hm : Plain (text m.1 ++ ':' :: m.2) :=
        (plain_text m.1).append (.cons (by decide) (h m List.mem_cons_self))
      have hrest := ih fun m' hm' ↦ h m' (List.mem_cons_of_mem _ hm')
      cases members with
      | nil => exact hm
      | cons m' members => exact (hm.append (.cons (by decide) plain_nil)).append hrest

theorem plain_object {members : List (Text × Text)} (h : ∀ m ∈ members, Plain m.2) :
    Plain (object members) :=
  .cons (by decide) ((plain_memberList h).append (.cons (by decide) plain_nil))

/-- What can stand behind a value. -/
def Ends (rest : Text) : Prop := ∀ c ∈ rest.head?, c = ',' ∨ c = ']' ∨ c = closeBrace

structure Reads (t : Text) (v : Value) : Prop where
  starts : ∃ c l, t = c :: l ∧ isBlank c = false
  reads : ∀ fuel rest, t.length < fuel → Ends rest → readValue fuel (t ++ rest) = some (v, rest)

theorem skipBlanks_cons {c : Char} (h : isBlank c = false) (l : Text) :
    skipBlanks (c :: l) = c :: l :=
  List.dropWhile_cons_of_neg (by simp [h])

theorem skipBlanks_append {gap : Text} (h : ∀ c ∈ gap, isBlank c = true) (l : Text) :
    skipBlanks (gap ++ l) = skipBlanks l := by
  induction gap with
  | nil => rfl
  | cons c gap ih =>
      rw [List.cons_append, skipBlanks, List.dropWhile_cons_of_pos (h c List.mem_cons_self)]
      exact ih fun d hd ↦ h d (List.mem_cons_of_mem _ hd)

theorem Reads.skipBlanks_append {t : Text} {v : Value} (h : Reads t v) (rest : Text) :
    skipBlanks (t ++ rest) = t ++ rest := by
  obtain ⟨c, l, rfl, hc⟩ := h.starts
  exact skipBlanks_cons hc _

theorem Reads.head_ne {t : Text} {v : Value} (h : Reads t v) :
    ∃ c l, t = c :: l ∧ isBlank c = false ∧ c ≠ ']' := by
  obtain ⟨c, l, rfl, hblank⟩ := h.starts
  refine ⟨c, l, rfl, hblank, ?_⟩
  rintro rfl
  have hread := h.reads ((']' :: l).length + 1) [] (Nat.lt_succ_self _) nofun
  have hnamed : readNamed (']' :: l) = none := by simp [readNamed, readWord]
  have hnumber : readNumber (']' :: l) = none := by
    simp [readNumber, readInteger]
  have hquote : ']' ≠ quote := by decide
  have hbracket : ']' ≠ '[' := by decide
  have hbrace : ']' ≠ openBrace := by decide
  rw [List.append_nil, readValue, if_neg hquote, if_neg hbracket, if_neg hbrace, hnamed,
    hnumber] at hread
  cases hread

theorem reads_text (s : Text) : Reads (text s) (.str s) where
  starts := ⟨quote, _, rfl, by decide⟩
  reads fuel rest h _ := by
    obtain ⟨fuel, rfl⟩ := Nat.exists_eq_succ_of_ne_zero (Nat.ne_of_gt (Nat.zero_lt_of_lt h))
    have hlen := length_le_flatMap_escape s
    have hfuel : s.length < fuel := by
      simp only [text, List.length_cons, List.length_append, List.length_nil] at h
      omega
    have hchars := readChars_escape s rest hfuel
    simp [text, readValue, hchars]

theorem readNumber_one {rest : Text} (h : Ends rest) :
    readNumber ('1' :: rest) = some (.number ['1'], rest) := by
  have hinteger : readInteger ('1' :: rest) = some (['1'], rest) := by
    cases rest with
    | nil => rfl
    | cons c rest => rcases h c rfl with rfl | rfl | rfl <;> rfl
  have hfraction : readFraction rest = none := by
    cases rest with
    | nil => rfl
    | cons c rest => rcases h c rfl with rfl | rfl | rfl <;> rfl
  have hexponent : readExponent rest = none := by
    match rest, h with
    | [], _ => rfl
    | [_], _ => rfl
    | c :: d :: rest, h =>
        rcases h c rfl with rfl | rfl | rfl <;> rfl
  have hhead : ('1' :: rest).head? ≠ some '-' := by
    rw [List.head?_cons]
    decide
  simp only [readNumber, if_neg hhead, List.length_nil, List.drop_zero, hinteger, hfraction,
    hexponent, Option.map_some, Option.getD_none]
  rw [if_neg (by decide)]
  rfl

theorem reads_one : Reads ['1'] (.number ['1']) where
  starts := ⟨'1', [], rfl, by decide⟩
  reads fuel rest h hends := by
    obtain ⟨fuel, rfl⟩ := Nat.exists_eq_succ_of_ne_zero (Nat.ne_of_gt (Nat.zero_lt_of_lt h))
    have hnamed : readNamed ('1' :: rest) = none := by simp [readNamed, readWord]
    have hquote : '1' ≠ quote := by decide
    have hbracket : '1' ≠ '[' := by decide
    have hbrace : '1' ≠ openBrace := by decide
    rw [List.singleton_append, readValue, if_neg hquote, if_neg hbracket, if_neg hbrace, hnamed,
      Option.none_or, readNumber_one hends]

theorem foldl_set {K V : Type} [BEq K] [LawfulBEq K] (d items : List (K × V))
    (h : ((d ++ items).map Prod.fst).Nodup) :
    items.foldl (fun d m ↦ set d m.1 m.2) d = d ++ items := by
  induction items generalizing d with
  | nil => simp
  | cons m items ih =>
      have hnew : d.lookup m.1 = none := by
        rw [List.lookup_eq_none_iff]
        intro item hitem
        rw [List.map_append, List.nodup_append] at h
        have hne := h.2.2 _ (List.mem_map_of_mem hitem) m.1 (by simp)
        simpa using Ne.symm hne
      rw [List.foldl_cons, set_of_lookup_eq_none hnew, ih]
      · simp
      · simpa using h

/-- What a member of an object is read to, up to what stands behind it. -/
theorem readMembers_member {gap : Text} (hgap : ∀ c ∈ gap, isBlank c = true) (k : Text) {t : Text}
    {v : Value} (ht : Reads t v) {fuel : ℕ} (hk : k.length < fuel) (hfuel : t.length < fuel)
    (l : Text) {c : Char} (hc : c = ',' ∨ c = closeBrace) :
    readMembers (fuel + 1) (text k ++ ':' :: (gap ++ (t ++ c :: l))) =
      if c = closeBrace then some ([(k, v)], l)
      else (readMembers fuel (skipBlanks l)).map fun (members, rest) ↦ ((k, v) :: members, rest) := by
  have hchars := readChars_escape k (':' :: (gap ++ (t ++ c :: l))) hk
  have hends : Ends (c :: l) := by
    intro d hd
    obtain rfl := Option.some.inj hd
    exact hc.imp_right .inr
  have hvalue := ht.reads fuel (c :: l) hfuel hends
  have hblank : isBlank c = false := by
    rcases hc with rfl | rfl <;> decide
  have hcolon : skipBlanks (':' :: (gap ++ (t ++ c :: l))) = ':' :: (gap ++ (t ++ c :: l)) :=
    skipBlanks_cons (by decide) _
  unfold text
  rw [List.cons_append, List.append_assoc, List.singleton_append, readMembers, List.head?_cons,
    if_pos rfl, List.tail_cons, hchars, Option.bind_some]
  dsimp only
  rw [hcolon, List.head?_cons, if_pos rfl, List.tail_cons, skipBlanks_append hgap,
    ht.skipBlanks_append, hvalue, Option.bind_some]
  dsimp only
  rw [skipBlanks_cons hblank]
  dsimp only
  rcases hc with rfl | rfl
  · have hne : ¬ ',' = closeBrace := by decide
    rw [if_neg hne, if_pos rfl, if_neg hne]
  · rw [if_pos rfl, if_pos rfl]

theorem length_text (s : Text) : (text s).length = (s.flatMap escape).length + 2 := by
  rw [text, List.length_cons, List.length_append, List.length_singleton]

theorem length_lt_text (s : Text) : s.length < (text s).length := by
  have hle := length_le_flatMap_escape s
  rw [length_text]
  omega

/-! ### With a gap behind the separators -/

section Gap

variable {gap : Text}

def gappedMembers (gap : Text) (members : List (Text × Text)) : Text :=
  joined (',' :: gap) (members.map fun m ↦ text m.1 ++ ':' :: (gap ++ m.2))

def gappedObject (gap : Text) (members : List (Text × Text)) : Text :=
  openBrace :: (gappedMembers gap members ++ [closeBrace])

def gappedArray (gap : Text) (items : List Text) : Text :=
  '[' :: (joined (',' :: gap) items ++ [']'])

theorem gappedMembers_cons (gap : Text) (m : Text × Text) (members : List (Text × Text)) :
    ∃ l, gappedMembers gap (m :: members) = quote :: l := by
  cases members with
  | nil => exact ⟨_, rfl⟩
  | cons m' members => exact ⟨_, rfl⟩

theorem skipBlanks_gappedMembers {members : List (Text × Text)} (h : members ≠ []) (rest : Text) :
    skipBlanks (gappedMembers gap members ++ rest) = gappedMembers gap members ++ rest := by
  obtain ⟨m, members, rfl⟩ := List.exists_cons_of_ne_nil h
  obtain ⟨l, hl⟩ := gappedMembers_cons gap m members
  rw [hl]
  exact skipBlanks_cons (by decide) _

theorem gappedMembers_cons_cons (m m' : Text × Text) (members : List (Text × Text)) :
    gappedMembers gap (m :: m' :: members) =
      text m.1 ++ ':' :: (gap ++ (m.2 ++ ',' :: (gap ++ gappedMembers gap (m' :: members)))) := by
  simp [gappedMembers, joined]

variable (hgap : ∀ c ∈ gap, isBlank c = true)

include hgap

theorem readMembers_gapped {members : List (Text × Text × Value)} (hne : members ≠ [])
    (h : ∀ m ∈ members, Reads m.2.1 m.2.2) {fuel : ℕ} (rest : Text)
    (hfuel : (gappedMembers gap (members.map fun m ↦ (m.1, m.2.1))).length < fuel) :
    readMembers fuel (gappedMembers gap (members.map fun m ↦ (m.1, m.2.1)) ++ closeBrace :: rest) =
      some (members.map fun m ↦ (m.1, m.2.2), rest) := by
  induction members generalizing fuel with
  | nil => exact absurd rfl hne
  | cons m members ih =>
      obtain ⟨k, t, v⟩ := m
      obtain ⟨fuel, rfl⟩ := Nat.exists_eq_succ_of_ne_zero (Nat.ne_of_gt (Nat.zero_lt_of_lt hfuel))
      have ht : Reads t v := h _ List.mem_cons_self
      have hkey := length_lt_text k
      cases members with
      | nil =>
          simp only [gappedMembers, joined, List.map_cons, List.map_nil, List.length_append,
            List.length_cons] at hfuel
          have hmember := readMembers_member hgap k ht (show k.length < fuel by omega)
            (show t.length < fuel by omega) rest
            (.inr rfl : closeBrace = ',' ∨ closeBrace = closeBrace)
          rw [if_pos rfl] at hmember
          simpa [gappedMembers, joined] using hmember
      | cons m members =>
          have hmembers : ∀ m' ∈ m :: members, Reads m'.2.1 m'.2.2 :=
            fun m' hm' ↦ h m' (List.mem_cons_of_mem _ hm')
          rw [List.map_cons, List.map_cons, gappedMembers_cons_cons] at hfuel ⊢
          rw [← List.map_cons (f := fun m : Text × Text × Value ↦ (m.1, m.2.1))] at hfuel ⊢
          simp only [List.length_append, List.length_cons] at hfuel
          have hrest := ih (List.cons_ne_nil m members) hmembers (show _ < fuel by omega)
          have hmember := readMembers_member hgap k ht (show k.length < fuel by omega)
            (show t.length < fuel by omega)
            (gap ++ (gappedMembers gap ((m :: members).map fun m ↦ (m.1, m.2.1)) ++
              closeBrace :: rest))
            (.inl rfl : ',' = ',' ∨ ',' = closeBrace)
          rw [if_neg (by decide), skipBlanks_append hgap, skipBlanks_gappedMembers (by simp),
            hrest] at hmember
          simpa using hmember

/-- An object is read when its members are. -/
theorem reads_gappedObject (members : List (Text × Text × Value))
    (hdistinct : (members.map Prod.fst).Nodup) (h : ∀ m ∈ members, Reads m.2.1 m.2.2) :
    Reads (gappedObject gap (members.map fun m ↦ (m.1, m.2.1)))
      (.obj (members.map fun m ↦ (m.1, m.2.2))) where
  starts := ⟨openBrace, _, rfl, by decide⟩
  reads fuel rest hfuel _ := by
    obtain ⟨fuel, rfl⟩ := Nat.exists_eq_succ_of_ne_zero (Nat.ne_of_gt (Nat.zero_lt_of_lt hfuel))
    have hquote : openBrace ≠ quote := by decide
    have hbracket : openBrace ≠ '[' := by decide
    simp only [gappedObject, List.length_cons, List.length_append, List.length_nil] at hfuel
    rw [gappedObject, List.cons_append, List.append_assoc, List.singleton_append, readValue,
      if_neg hquote, if_neg hbracket, if_pos rfl]
    cases members with
    | nil => rfl
    | cons m members =>
        have hread := readMembers_gapped hgap (List.cons_ne_nil m members) h rest
          (show _ < fuel by omega)
        obtain ⟨l, hl⟩ := gappedMembers_cons gap (m.1, m.2.1)
          (members.map fun m ↦ (m.1, m.2.1))
        have hhead : (gappedMembers gap ((m :: members).map fun m ↦ (m.1, m.2.1)) ++
            closeBrace :: rest).head? ≠ some closeBrace := by
          rw [List.map_cons, hl, List.cons_append, List.head?_cons]
          decide
        have hkeys : (([] ++ (m :: members).map fun m : Text × Text × Value ↦
            (m.1, m.2.2)).map Prod.fst).Nodup := by
          simpa [Function.comp_def] using hdistinct
        rw [skipBlanks_gappedMembers (by simp), if_neg hhead, hread, Option.map_some]
        dsimp only
        rw [foldl_set [] _ hkeys, List.nil_append]

omit hgap in
theorem joined_starts (gap : Text) {items : List (Text × Value)} (hne : items ≠ [])
    (h : ∀ item ∈ items, Reads item.1 item.2) :
    ∃ c l, joined (',' :: gap) (items.map Prod.fst) = c :: l ∧ isBlank c = false ∧ c ≠ ']' := by
  obtain ⟨item, items, rfl⟩ := List.exists_cons_of_ne_nil hne
  obtain ⟨c, l, hc, hblank, hbracket⟩ := (h item List.mem_cons_self).head_ne
  rw [List.map_cons, hc]
  cases items with
  | nil => exact ⟨c, l, rfl, hblank, hbracket⟩
  | cons item' items => exact ⟨c, _, rfl, hblank, hbracket⟩

theorem readItems_gapped {items : List (Text × Value)} (hne : items ≠ [])
    (h : ∀ item ∈ items, Reads item.1 item.2) {fuel : ℕ} (rest : Text)
    (hfuel : (joined (',' :: gap) (items.map Prod.fst)).length + 1 < fuel) :
    readItems fuel (joined (',' :: gap) (items.map Prod.fst) ++ ']' :: rest) =
      some (items.map Prod.snd, rest) := by
  induction items generalizing fuel with
  | nil => exact absurd rfl hne
  | cons item items ih =>
      obtain ⟨t, v⟩ := item
      obtain ⟨fuel, rfl⟩ := Nat.exists_eq_succ_of_ne_zero (Nat.ne_of_gt (Nat.zero_lt_of_lt hfuel))
      have ht : Reads t v := h _ List.mem_cons_self
      have hbracket : skipBlanks (']' :: rest) = ']' :: rest := skipBlanks_cons (by decide) _
      cases items with
      | nil =>
          simp only [List.map_cons, List.map_nil, joined] at hfuel ⊢
          have hends : Ends (']' :: rest) := by
            intro c hc
            exact .inr (.inl (Option.some.inj hc).symm)
          rw [readItems, ht.reads fuel _ (by omega) hends, Option.bind_some]
          dsimp only
          rw [hbracket]
          rfl
      | cons item items =>
          have hitems : ∀ item' ∈ item :: items, Reads item'.1 item'.2 :=
            fun item' h' ↦ h item' (List.mem_cons_of_mem _ h')
          obtain ⟨c, l, hl, hblank, -⟩ :=
            joined_starts gap (List.cons_ne_nil item items) hitems
          have hcomma : ∀ l, skipBlanks (',' :: l) = ',' :: l := skipBlanks_cons (by decide)
          have hends : ∀ l, Ends (',' :: l) := by
            intro l c hc
            exact .inl (Option.some.inj hc).symm
          have hjoined : joined (',' :: gap) (((t, v) :: item :: items).map Prod.fst) =
              t ++ ',' :: (gap ++ joined (',' :: gap) ((item :: items).map Prod.fst)) := by
            simp [joined]
          rw [hjoined] at hfuel ⊢
          simp only [List.length_append, List.length_cons] at hfuel
          have hrest := ih (List.cons_ne_nil item items) hitems (show _ + 1 < fuel by omega)
          have hskip : skipBlanks (gap ++ (joined (',' :: gap) ((item :: items).map Prod.fst) ++
              ']' :: rest)) = joined (',' :: gap) ((item :: items).map Prod.fst) ++ ']' :: rest := by
            rw [skipBlanks_append hgap, hl]
            exact skipBlanks_cons hblank _
          rw [List.append_assoc, List.cons_append, List.append_assoc, readItems,
            ht.reads fuel _ (by omega) (hends _), Option.bind_some]
          dsimp only
          rw [hcomma]
          dsimp only
          rw [if_neg (by decide), if_pos rfl, hskip, hrest]
          rfl

/-- An array is read when its items are. -/
theorem reads_gappedArray (items : List (Text × Value)) (h : ∀ item ∈ items, Reads item.1 item.2) :
    Reads (gappedArray gap (items.map Prod.fst)) (.arr (items.map Prod.snd)) where
  starts := ⟨'[', _, rfl, by decide⟩
  reads fuel rest hfuel _ := by
    obtain ⟨fuel, rfl⟩ := Nat.exists_eq_succ_of_ne_zero (Nat.ne_of_gt (Nat.zero_lt_of_lt hfuel))
    have hquote : '[' ≠ quote := by decide
    simp only [gappedArray, List.length_cons, List.length_append, List.length_nil] at hfuel
    rw [gappedArray, List.cons_append, List.append_assoc, List.singleton_append, readValue,
      if_neg hquote, if_pos rfl]
    cases items with
    | nil => rfl
    | cons item items =>
        have hne := List.cons_ne_nil item items
        have hread := readItems_gapped hgap hne h rest (show _ + 1 < fuel by omega)
        obtain ⟨c, l, hl, hblank, hbracket⟩ := joined_starts gap hne h
        have hskip : skipBlanks (joined (',' :: gap) ((item :: items).map Prod.fst) ++
            ']' :: rest) = c :: (l ++ ']' :: rest) := by
          rw [hl]
          exact skipBlanks_cons hblank _
        rw [hl, List.cons_append] at hread
        rw [hskip, List.head?_cons, if_neg (fun heq ↦ hbracket (Option.some.inj heq)), hread]
        rfl

end Gap

/-- An object with compact separators. -/
theorem reads_object (members : List (Text × Text × Value))
    (hdistinct : (members.map Prod.fst).Nodup) (h : ∀ m ∈ members, Reads m.2.1 m.2.2) :
    Reads (object (members.map fun m ↦ (m.1, m.2.1)))
      (.obj (members.map fun m ↦ (m.1, m.2.2))) :=
  reads_gappedObject (show ∀ c ∈ ([] : Text), isBlank c = true from nofun) members hdistinct h

theorem loads_of_reads {t : Text} {v : Value} (h : Reads t v) : loads t = some v := by
  have hread := h.reads (t.length + 1) [] (Nat.lt_succ_self _) (by simp [Ends])
  have hskip := h.skipBlanks_append []
  rw [List.append_nil] at hread hskip
  rw [loads, hskip, hread]
  rfl

end JsonText
